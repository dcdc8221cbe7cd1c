import Qeli.Dns.Message
import Qeli.Lib.Encoding

/-!
# The blocklist of the resolver

`compile_blocklist` and `is_blocked` of `server/dns/resolver.rs`, with
`normalize_blocklist_domain` of `config/server.rs`. Rules are dotted text, names are labels of
arbitrary bytes: the resolver joins the labels with dots, gives up if the result is no UTF-8, and
looks up what follows each dot. `blocked_iff` says what that is in terms of labels. It is the
label-by-label law exactly for the names and blocklists of `Separable`.
-/

namespace Qeli.Dns

open Qeli.Lib Qeli.Lib.Str

/-! ## Rules -/

def ruleByte (b : UInt8) : Bool :=
  (0x30 ≤ b && b ≤ 0x39) || (0x41 ≤ b && b ≤ 0x5A) || (0x61 ≤ b && b ≤ 0x7A) || b == 0x2D ||
    b == 0x5F

def ruleLabel (label : Label) : Bool :=
  !label.isEmpty && label.length ≤ 63 && label.all ruleByte && label.head? != some 0x2D &&
    label.getLast? != some 0x2D

def normalizeBlocklistDomain (raw : Str) : Option Str :=
  let name := (trim raw).rdropWhile (· == '.')
  if name.isEmpty || 253 < (asBytes name).length || !name.all (·.toNat < 128) then none
  else if (name.splitOn '.').all (fun label => ruleLabel (asBytes label)) then
    some (asciiLower name)
  else none

/-- The rules; only membership matters. -/
def compileBlocklist (raw : List Str) : List Str := raw.filterMap normalizeBlocklistDomain

/-! ## Queries -/

def firstQuestionName (query : List UInt8) : Option Str :=
  if query.length < 12 ∨ u16At query 4 = 0 then none
  else
    match walkName query 12 with
    | none => none
    | some name => (fromUtf8 ([0x2E].intercalate name.2)).map asciiLower

/-- The loop of `is_blocked`: the candidate, then what follows its first dot. -/
def candidateBlocked (blocklist : List Str) (candidate : Str) : Bool :=
  if candidate ∈ blocklist then true
  else
    match _h : splitOnce '.' candidate with
    | none => false
    | some p => candidateBlocked blocklist p.2
termination_by candidate.length
decreasing_by
  rw [(eq_of_splitOnce _h).1, List.length_append, List.length_cons]
  omega

def isBlocked (query : List UInt8) (blocklist : List Str) : Bool :=
  if blocklist.isEmpty then false
  else
    match firstQuestionName query with
    | none => false
    | some domain => candidateBlocked blocklist domain

def questionLabels (query : List UInt8) : List Label := ((walkName query 12).map (·.2)).getD []

def ruleLabels (rule : Str) : List Label := (asBytes rule).splitOn 0x2E

/-- A rule covers a name whose last labels, in lower case, are the labels of the rule. -/
def Covered (labels : List Label) (blocklist : List Str) : Prop :=
  ∃ rule ∈ blocklist, ∃ parent, parent ≠ [] ∧ parent <:+ labels ∧
    parent.map (List.map lowerByte) = ruleLabels rule

/-! ## The loop -/

theorem candidateBlocked_iff {blocklist : List Str} {candidate : Str} :
    candidateBlocked blocklist candidate = true ↔
      ∃ rule ∈ blocklist, rule.splitOn '.' <:+ candidate.splitOn '.' := by
  fun_induction candidateBlocked blocklist candidate with
  | case1 candidate hmem =>
    exact iff_of_true rfl ⟨candidate, hmem, List.suffix_refl _⟩
  | case2 candidate hmem hsplit =>
    refine iff_of_false Bool.false_ne_true ?_
    rintro ⟨rule, hrule, hsuffix⟩
    rw [List.splitOn_eq_singleton (not_mem_of_splitOnce hsplit)] at hsuffix
    obtain hwhole | hnil := List.suffix_cons_iff.mp hsuffix
    · rw [← List.splitOn_eq_singleton (not_mem_of_splitOnce hsplit)] at hwhole
      exact hmem (splitOn_injective hwhole ▸ hrule)
    · exact List.splitOn_ne_nil '.' rule (List.suffix_nil.mp hnil)
  | case3 candidate hmem p hsplit ih =>
    obtain ⟨htext, hfront⟩ := eq_of_splitOnce hsplit
    have hpieces : candidate.splitOn '.' = p.1 :: p.2.splitOn '.' := by
      rw [htext, List.splitOn_append_cons_self, List.splitOn_eq_singleton hfront,
        List.singleton_append]
    rw [ih]
    constructor
    · rintro ⟨rule, hrule, hsuffix⟩
      exact ⟨rule, hrule, hpieces ▸ hsuffix.trans (List.suffix_cons _ _)⟩
    · rintro ⟨rule, hrule, hsuffix⟩
      rw [hpieces] at hsuffix
      obtain hwhole | hrest := List.suffix_cons_iff.mp hsuffix
      · exact absurd (splitOn_injective (hwhole.trans hpieces.symm) ▸ hrule) hmem
      · exact ⟨rule, hrule, hrest⟩

/-! ## Text and bytes -/

/-- A label that can stand in a text. -/
def Utf8 (label : Label) : Prop := (fromUtf8 label).isSome = true

instance (label : Label) : Decidable (Utf8 label) := inferInstanceAs (Decidable (_ = true))

theorem utf8_iff {label : Label} : Utf8 label ↔ ∃ text, asBytes text = label := by
  rw [Utf8, Option.isSome_iff_exists]
  exact exists_congr fun text => fromUtf8_eq_some

theorem splitOn_dot (text : Str) : (asBytes text).splitOn 0x2E = (text.splitOn '.').map asBytes :=
  splitOn_asBytes (d := '.') (by decide) text

/-- A label is text exactly if the parts between its dots are. -/
theorem utf8_iff_pieces {label : Label} : Utf8 label ↔ ∀ piece ∈ label.splitOn 0x2E, Utf8 piece := by
  constructor
  · intro h piece hpiece
    obtain ⟨text, rfl⟩ := utf8_iff.mp h
    rw [splitOn_dot] at hpiece
    obtain ⟨t, -, rfl⟩ := List.mem_map.mp hpiece
    exact utf8_iff.mpr ⟨t, rfl⟩
  · intro h
    have htexts : ∃ texts : List Str, texts.map asBytes = label.splitOn 0x2E := by
      generalize label.splitOn 0x2E = pieces at h
      induction pieces with
      | nil => exact ⟨[], rfl⟩
      | cons piece pieces ih =>
        rw [List.forall_mem_cons] at h
        obtain ⟨text, htext⟩ := utf8_iff.mp h.1
        obtain ⟨texts, htexts⟩ := ih h.2
        exact ⟨text :: texts, by rw [List.map_cons, htext, htexts]⟩
    obtain ⟨texts, htexts⟩ := htexts
    refine utf8_iff.mpr ⟨['.'].intercalate texts, ?_⟩
    rw [asBytes_intercalate (d := '.') (by decide), htexts]
    exact List.intercalate_splitOn _

theorem utf8_intercalate {labels : List Label} (hne : labels ≠ []) :
    Utf8 ([0x2E].intercalate labels) ↔ ∀ label ∈ labels, Utf8 label := by
  rw [utf8_iff_pieces, splitOn_intercalate_flatMap _ hne]
  simp only [List.forall_mem_flatMap, ← utf8_iff_pieces]

theorem suffix_map_asBytes {a b : List Str} : a.map asBytes <:+ b.map asBytes ↔ a <:+ b := by
  constructor
  · rintro ⟨front, hfront⟩
    obtain ⟨front', back, rfl, -, hback⟩ := List.map_eq_append_iff.mp hfront.symm
    have : back = a := List.map_injective_iff.mpr (fun _ _ => asBytes_injective) hback
    exact this ▸ List.suffix_append _ _
  · exact fun h => h.map asBytes

/-! ## Lower case -/

theorem lowerByte_eq_dot : ∀ b, lowerByte b = lowerByte 0x2E → b = 0x2E :=
  forall_byte (by decide +kernel)

theorem splitOn_lower (bytes : List UInt8) :
    (bytes.map lowerByte).splitOn 0x2E = (bytes.splitOn 0x2E).map (List.map lowerByte) :=
  splitOn_map lowerByte_eq_dot bytes

theorem ruleLabel_lower (label : Label) : ruleLabel (label.map lowerByte) = ruleLabel label := by
  have hrule : ∀ b, ruleByte (lowerByte b) = ruleByte b := forall_byte (by decide +kernel)
  have hdash : ∀ b, (some (lowerByte b) != some 0x2D) = (some b != some 0x2D) :=
    forall_byte (by decide +kernel)
  have hoption : ∀ b : Option UInt8, (b.map lowerByte != some 0x2D) = (b != some 0x2D) := by
    rintro (_ | b)
    · rfl
    · exact hdash b
  have hbyte : ruleByte ∘ lowerByte = ruleByte := funext hrule
  simp only [ruleLabel, List.isEmpty_map, List.length_map, List.all_map, hbyte, List.head?_map,
    List.getLast?_map, hoption]

theorem dot_not_mem_of_ruleLabel {label : Label} (h : ruleLabel label = true) : 0x2E ∉ label := by
  simp only [ruleLabel, Bool.and_eq_true] at h
  intro hdot
  exact absurd (List.all_eq_true.mp h.1.1.2 _ hdot) (by decide)

theorem ruleLabels_asciiLower (text : Str) :
    ruleLabels (asciiLower text) = ((asBytes text).splitOn 0x2E).map (List.map lowerByte) := by
  rw [ruleLabels, asBytes_asciiLower, splitOn_lower]

theorem ruleLabels_ne_nil (rule : Str) : ruleLabels rule ≠ [] := List.splitOn_ne_nil _ _

theorem ruleLabel_of_mem_compile {raw : List Str} {rule : Str} (h : rule ∈ compileBlocklist raw) :
    ∀ label ∈ ruleLabels rule, ruleLabel label = true := by
  obtain ⟨domain, -, hrule⟩ := List.mem_filterMap.mp h
  rw [normalizeBlocklistDomain] at hrule
  split at hrule
  · cases hrule
  split at hrule
  case isFalse => cases hrule
  case isTrue hlabels =>
    obtain rfl := Option.some.inj hrule
    intro label hlabel
    rw [ruleLabels_asciiLower, splitOn_dot, List.map_map, List.mem_map] at hlabel
    obtain ⟨text, htext, rfl⟩ := hlabel
    exact (ruleLabel_lower _).trans (List.all_eq_true.mp hlabels text htext)

/-! ## What is blocked -/

/-- The labels of a name, with those cut that have dots in them, in lower case. -/
def dotPieces (labels : List Label) : List Label :=
  (labels.flatMap (·.splitOn 0x2E)).map (List.map lowerByte)

/-- A name is matched if it is text and a rule's labels are its last parts between dots,
whichever of its labels the dots are in. -/
def Matched (labels : List Label) (blocklist : List Str) : Prop :=
  (∀ l ∈ labels, Utf8 l) ∧ ∃ rule ∈ blocklist, ruleLabels rule <:+ dotPieces labels

section Question

variable {query : List UInt8} {name : Nat × List Label}

theorem firstQuestionName_eq (hlen : 12 ≤ query.length) (hone : u16At query 4 = 1)
    (hname : walkName query 12 = some name) :
    firstQuestionName query = (fromUtf8 ([0x2E].intercalate name.2)).map asciiLower := by
  rw [firstQuestionName, if_neg (by omega), hname]

theorem blocked_iff (hlen : 12 ≤ query.length) (hone : u16At query 4 = 1)
    (hname : walkName query 12 = some name) (raw : List Str) :
    isBlocked query (compileBlocklist raw) = true ↔ Matched name.2 (compileBlocklist raw) := by
  have hloop : isBlocked query (compileBlocklist raw) = true ↔
      ∃ domain, firstQuestionName query = some domain ∧
        candidateBlocked (compileBlocklist raw) domain = true := by
    rw [isBlocked]
    split
    case isTrue hempty =>
      refine iff_of_false Bool.false_ne_true ?_
      rintro ⟨domain, -, hblocked⟩
      obtain ⟨rule, hrule, -⟩ := candidateBlocked_iff.mp hblocked
      rw [List.isEmpty_iff.mp hempty] at hrule
      cases hrule
    case isFalse =>
      cases firstQuestionName query with
      | none | some domain => simp
  -- the pieces of the joined labels, and the empty name apart
  have hpieces : ∀ {text : Str}, asBytes text = [0x2E].intercalate name.2 → ∀ rule : Str,
      rule ∈ compileBlocklist raw → (rule.splitOn '.' <:+ (asciiLower text).splitOn '.' ↔
        ruleLabels rule <:+ dotPieces name.2) := by
    intro text htext rule hrule
    rw [dotPieces, ← suffix_map_asBytes, ← splitOn_dot, ← splitOn_dot, ← ruleLabels, ← ruleLabels,
      ruleLabels_asciiLower, htext]
    by_cases hne : name.2 = []
    · rw [hne]
      refine iff_of_false (fun hsuffix => ?_) fun hsuffix => ruleLabels_ne_nil rule ?_
      · obtain hroot | hnil := List.suffix_cons_iff.mp hsuffix
        · have := ruleLabel_of_mem_compile hrule [] (hroot ▸ List.mem_cons_self)
          exact absurd this (by decide)
        · exact ruleLabels_ne_nil rule (List.suffix_nil.mp hnil)
      · exact List.suffix_nil.mp hsuffix
    · rw [splitOn_intercalate_flatMap _ hne]
  rw [hloop, firstQuestionName_eq hlen hone hname]
  constructor
  · rintro ⟨domain, hdomain, hblocked⟩
    obtain ⟨text, htext, rfl⟩ := Option.map_eq_some_iff.mp hdomain
    obtain ⟨rule, hrule, hsuffix⟩ := candidateBlocked_iff.mp hblocked
    have hbytes := fromUtf8_eq_some.mp htext
    refine ⟨?_, rule, hrule, (hpieces hbytes rule hrule).mp hsuffix⟩
    by_cases hne : name.2 = []
    · rw [hne]
      exact List.forall_mem_nil _
    · exact (utf8_intercalate hne).mp (utf8_iff.mpr ⟨text, hbytes⟩)
  · rintro ⟨hutf8, rule, hrule, hsuffix⟩
    have htext : Utf8 ([0x2E].intercalate name.2) := by
      by_cases hne : name.2 = []
      · rw [hne]
        exact utf8_iff.mpr ⟨[], rfl⟩
      · exact (utf8_intercalate hne).mpr hutf8
    obtain ⟨text, hbytes⟩ := utf8_iff.mp htext
    refine ⟨asciiLower text, by rw [fromUtf8_eq_some.mpr hbytes, Option.map_some], ?_⟩
    exact candidateBlocked_iff.mpr ⟨rule, hrule, (hpieces hbytes rule hrule).mpr hsuffix⟩

end Question

/-! ## The law -/

/-- The last labels, up to one with a dot in it. -/
def dotFreeTail (labels : List Label) : List Label := labels.rtakeWhile (!·.contains 0x2E)

/-- If every label is text: a rule that matches from behind a dot inside a label stands beside one
that covers the name. If not: no rule covers it. -/
def Separable (labels : List Label) (blocklist : List Str) : Prop :=
  if ∀ l ∈ labels, Utf8 l then
    ∀ rule ∈ blocklist, (dotFreeTail labels).length < (ruleLabels rule).length →
      ruleLabels rule <:+ dotPieces labels → Covered labels blocklist
  else ¬ Covered labels blocklist

section Law

variable {labels : List Label} {blocklist : List Str}

theorem ruleLabel_of_lower {parent : List Label} {rule : Str}
    (hrules : ∀ rule ∈ blocklist, ∀ l ∈ ruleLabels rule, ruleLabel l = true)
    (hrule : rule ∈ blocklist) (h : parent.map (List.map lowerByte) = ruleLabels rule) :
    ∀ l ∈ parent, ruleLabel l = true := by
  intro l hl
  rw [← ruleLabel_lower]
  exact hrules rule hrule _ (h ▸ List.mem_map_of_mem hl)

/-- A rule that covers a text name matches it. -/
theorem matched_of_covered
    (hrules : ∀ rule ∈ blocklist, ∀ l ∈ ruleLabels rule, ruleLabel l = true)
    (hutf8 : ∀ l ∈ labels, Utf8 l) (h : Covered labels blocklist) : Matched labels blocklist := by
  obtain ⟨rule, hrule, parent, -, hsuffix, hparent⟩ := h
  have hself : parent.flatMap (·.splitOn 0x2E) = parent := flatMap_splitOn_eq_self fun l hl =>
    dot_not_mem_of_ruleLabel (ruleLabel_of_lower hrules hrule hparent l hl)
  refine ⟨hutf8, rule, hrule, ?_⟩
  obtain ⟨front, rfl⟩ := hsuffix
  rw [← hparent, dotPieces, List.flatMap_append, hself]
  exact (List.suffix_append _ _).map _

/-- A rule within the labels that have no dots covers the name it matches. -/
theorem suffix_of_dotPieces {e : List Label} (h : e <:+ dotPieces labels)
    (hlen : e.length ≤ (dotFreeTail labels).length) : e <:+ labels.map (List.map lowerByte) := by
  have hself : (dotFreeTail labels).flatMap (·.splitOn 0x2E) = dotFreeTail labels :=
    flatMap_splitOn_eq_self fun l hl => by simpa using List.mem_rtakeWhile_imp hl
  obtain ⟨front, hfront⟩ : dotFreeTail labels <:+ labels := List.rtakeWhile_suffix _ _
  have htail : (dotFreeTail labels).map (List.map lowerByte) <:+ dotPieces labels := by
    rw [dotPieces, ← congrArg (List.flatMap (·.splitOn 0x2E)) hfront, List.flatMap_append, hself]
    exact (List.suffix_append _ _).map _
  refine (List.suffix_of_suffix_length_le h htail (by rwa [List.length_map])).trans ?_
  exact (List.rtakeWhile_suffix _ _).map _

/-- The law holds of a name and a blocklist exactly if they are separable. -/
theorem matched_iff_covered
    (hrules : ∀ rule ∈ blocklist, ∀ l ∈ ruleLabels rule, ruleLabel l = true) :
    (Matched labels blocklist ↔ Covered labels blocklist) ↔ Separable labels blocklist := by
  rw [Separable]
  split
  case isTrue hutf8 =>
    constructor
    · exact fun hlaw rule hrule _ hsuffix => hlaw.mp ⟨hutf8, rule, hrule, hsuffix⟩
    · refine fun hsep => ⟨fun ⟨_, rule, hrule, hsuffix⟩ => ?_, matched_of_covered hrules hutf8⟩
      obtain hlong | hshort := Nat.lt_or_ge (dotFreeTail labels).length (ruleLabels rule).length
      · exact hsep rule hrule hlong hsuffix
      · obtain ⟨front, hfront⟩ := suffix_of_dotPieces hsuffix hshort
        obtain ⟨before, parent, rfl, -, hparent⟩ := List.map_eq_append_iff.mp hfront.symm
        refine ⟨rule, hrule, parent, ?_, List.suffix_append _ _, hparent⟩
        rintro rfl
        exact ruleLabels_ne_nil rule hparent.symm
  case isFalse hutf8 =>
    constructor
    · exact fun hlaw hcovered => hutf8 (hlaw.mpr hcovered).1
    · exact fun hsep => iff_of_false (fun h => hutf8 h.1) hsep

/-- Names of text labels without dots are separable from every blocklist. -/
theorem separable_of_plain (hutf8 : ∀ l ∈ labels, Utf8 l) (hdots : ∀ l ∈ labels, 0x2E ∉ l) :
    Separable labels blocklist := by
  rw [Separable, if_pos hutf8]
  intro rule _ hlong hsuffix
  have hall : dotFreeTail labels = labels :=
    List.rtakeWhile_eq_self_iff.mpr fun l hl => by simpa using hdots l hl
  have hle := hsuffix.length_le
  rw [dotPieces, flatMap_splitOn_eq_self hdots, List.length_map] at hle
  rw [hall] at hlong
  omega

end Law

/-- What the resolver blocks, and when that is the label-by-label law. -/
structure BlocklistLaw (query : List UInt8) (raw : List Str) : Prop where
  exact : isBlocked query (compileBlocklist raw) = true ↔
    Matched (questionLabels query) (compileBlocklist raw)
  law : (isBlocked query (compileBlocklist raw) = true ↔
      Covered (questionLabels query) (compileBlocklist raw)) ↔
    Separable (questionLabels query) (compileBlocklist raw)

theorem blocklist_law {query : List UInt8} (hcomplete : dnsMessageIsComplete query = true)
    (hone : u16At query 4 = 1) (raw : List Str) : BlocklistLaw query raw := by
  obtain ⟨hlen, name, hname⟩ := walkName_question hcomplete hone
  have hlabels : questionLabels query = name.2 := by
    rw [questionLabels, hname]
    rfl
  have hexact := blocked_iff hlen hone hname raw
  rw [← hlabels] at hexact
  refine ⟨hexact, ?_⟩
  rw [hexact]
  exact matched_iff_covered fun rule hrule => ruleLabel_of_mem_compile hrule

/-- A query for an address of `www.ads.example`. -/
def plainQuery : List UInt8 :=
  [0x12, 0x34, 1, 0, 0, 1, 0, 0, 0, 0, 0, 0, 3, 0x77, 0x77, 0x77, 3, 0x61, 0x64, 0x73,
    7, 0x65, 0x78, 0x61, 0x6D, 0x70, 0x6C, 0x65, 0, 0, 1, 0, 1]

/-- It is blocked by a rule for `ads.example`, and that rule covers it. -/
theorem blocklist_law_plain :
    isBlocked plainQuery (compileBlocklist ["Ads.example.".toList]) = true ∧
      Covered (questionLabels plainQuery) (compileBlocklist ["Ads.example.".toList]) := by
  have hblocked : isBlocked plainQuery (compileBlocklist ["Ads.example.".toList]) = true := by
    decide +kernel
  have hlaw : BlocklistLaw plainQuery ["Ads.example.".toList] :=
    blocklist_law (by decide +kernel) (by decide) _
  exact ⟨hblocked, (hlaw.law.mpr (separable_of_plain (by decide +kernel) (by decide +kernel))).mp
    hblocked⟩

/-- The same query with the byte FF in place of `www`. -/
def evadingQuery : List UInt8 :=
  [0x12, 0x34, 1, 0, 0, 1, 0, 0, 0, 0, 0, 0, 1, 0xFF, 3, 0x61, 0x64, 0x73,
    7, 0x65, 0x78, 0x61, 0x6D, 0x70, 0x6C, 0x65, 0, 0, 1, 0, 1]

/-- A query for a single label `www.ads` under `example`. -/
def dottedQuery : List UInt8 :=
  [0x12, 0x34, 1, 0, 0, 1, 0, 0, 0, 0, 0, 0, 7, 0x77, 0x77, 0x77, 0x2E, 0x61, 0x64, 0x73,
    7, 0x65, 0x78, 0x61, 0x6D, 0x70, 0x6C, 0x65, 0, 0, 1, 0, 1]

/-- With the rule `ads.example`, the first is not blocked although the rule covers it, and the
second is blocked although no rule covers it. -/
theorem unusual_labels_misjudged :
    (dnsMessageIsComplete evadingQuery = true ∧ u16At evadingQuery 4 = 1 ∧
      isBlocked evadingQuery (compileBlocklist ["ads.example".toList]) = false ∧
      Covered (questionLabels evadingQuery) (compileBlocklist ["ads.example".toList])) ∧
    (dnsMessageIsComplete dottedQuery = true ∧ u16At dottedQuery 4 = 1 ∧
      isBlocked dottedQuery (compileBlocklist ["ads.example".toList]) = true ∧
      ¬ Covered (questionLabels dottedQuery) (compileBlocklist ["ads.example".toList])) := by
  have hrule : compileBlocklist ["ads.example".toList] = ["ads.example".toList] := by
    decide +kernel
  have hlabels : ruleLabels "ads.example".toList =
      [[0x61, 0x64, 0x73], [0x65, 0x78, 0x61, 0x6D, 0x70, 0x6C, 0x65]] := by decide +kernel
  have hdotted : questionLabels dottedQuery =
      [[0x77, 0x77, 0x77, 0x2E, 0x61, 0x64, 0x73], [0x65, 0x78, 0x61, 0x6D, 0x70, 0x6C, 0x65]] := by
    decide +kernel
  refine ⟨⟨by decide +kernel, by decide, by decide +kernel, ?_⟩,
    by decide +kernel, by decide, by decide +kernel, ?_⟩
  · rw [hrule]
    refine ⟨_, List.mem_cons_self, [[0x61, 0x64, 0x73], [0x65, 0x78, 0x61, 0x6D, 0x70, 0x6C, 0x65]],
      List.cons_ne_nil _ _, ⟨[[0xFF]], by decide +kernel⟩, by decide +kernel⟩
  · rw [hrule, hdotted]
    rintro ⟨rule, hmem, parent, -, hparent, hlower⟩
    rw [List.mem_singleton.mp hmem, hlabels] at hlower
    have hlength := congrArg List.length hlower
    rw [List.length_map] at hlength
    rw [hparent.eq_of_length hlength] at hlower
    revert hlower
    decide +kernel

end Qeli.Dns
