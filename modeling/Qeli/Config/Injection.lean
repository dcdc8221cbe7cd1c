import Qeli.Config.Ini

/-!
# Printed documents are read back

Whatever stands in values and instance names, a printed document parses to the document it
was printed from, without the characters that the printer drops (`parse_toText`). So a
value cannot forge a line: it cannot become a section, a key, or another key's value.
-/

namespace Qeli.Config

open Qeli.Lib Qeli.Lib.Str

/-- What is printed bare: section kinds and keys. -/
structure Bare (name : Str) : Prop where
  nonempty : name ≠ []
  trimmed : trim name = name
  printable : ∀ c ∈ name, isControl c = false

structure Key (key : Str) : Prop extends Bare key where
  one : '=' ∉ key
  start : ∀ c ∈ key.head?, c ≠ '[' ∧ c ≠ ';' ∧ c ≠ '#'

structure Section.WellFormed (s : Section) : Prop where
  kind : Bare s.kind
  single : ':' ∉ s.kind
  keys : ∀ entry ∈ s.entries, Key entry.1

/-- Without control characters other than TAB. -/
def valueText (value : Str) : Str := value.filter fun c => !isControl c || c == '\t'

/-- Without control characters and outer white space. -/
def instanceText (name : Str) : Str := trim (name.filter fun c => !isControl c)

/-- The section that a printed one is read back as. -/
def Section.cleaned (s : Section) : Section where
  kind := s.kind
  instanceName := s.instanceName.map instanceText
  entries := s.entries.map fun entry => (entry.1, valueText entry.2)

/-! ## Values -/

theorem sanitizeIdent_eq (s : Str) : sanitizeIdent s = s.filter fun c => !isControl c := by
  unfold sanitizeIdent
  split
  · rfl
  · next hclean =>
    refine (List.filter_eq_self.mpr fun c hc => ?_).symm
    simp only [List.any_eq_true, not_exists, not_and, Bool.not_eq_true] at hclean
    simp [hclean c hc]

variable {name : Str} {s : Section} {entry : Str × Str}

theorem sanitizeIdent_bare (h : Bare name) : sanitizeIdent name = name := by
  rw [sanitizeIdent_eq]
  exact List.filter_eq_self.mpr fun c hc => by simp [h.printable c hc]

/-- The quoting decision, on the text that is left. -/
def needsQuotes (s : Str) : Bool :=
  s.isEmpty || s.head?.any isWhitespace || s.getLast?.any isWhitespace || s.contains ';' ||
    s.contains '#' || s.contains doubleQuote

theorem quoteIfNeeded_eq (value : Str) : quoteIfNeeded value =
    if needsQuotes (valueText value) then
      [doubleQuote] ++ escape backslash doubleQuote (valueText value) ++ [doubleQuote]
    else valueText value := by
  have hkept : (if value.any fun c => isControl c && c != '\t' then
      value.filter fun c => !isControl c || c == '\t' else value) = valueText value := by
    split
    · rfl
    · next hclean =>
      refine (List.filter_eq_self.mpr fun c hc => ?_).symm
      simp only [List.any_eq_true, not_exists, not_and, Bool.not_eq_true] at hclean
      have hc := hclean c hc
      revert hc
      cases isControl c <;> simp
  unfold quoteIfNeeded
  rw [hkept]
  rfl

theorem quoteIfNeeded_ne_nil (value : Str) : quoteIfNeeded value ≠ [] := by
  rw [quoteIfNeeded_eq]
  split
  · simp
  · next hbare =>
    intro hnil
    simp [needsQuotes, hnil] at hbare

theorem quoteIfNeeded_trimmed (value : Str) : Trimmed (quoteIfNeeded value) := by
  rw [quoteIfNeeded_eq]
  split
  · constructor
    · intro c hc
      cases hc
      rfl
    · intro c hc
      rw [List.getLast?_concat] at hc
      cases hc
      rfl
  · next hbare =>
    simp only [needsQuotes, Bool.or_eq_true, not_or, Bool.not_eq_true] at hbare
    obtain ⟨⟨⟨⟨⟨-, hhead⟩, hlast⟩, -⟩, -⟩, -⟩ := hbare
    constructor
    · intro c hc
      simpa [Option.mem_def.mp hc] using hhead
    · intro c hc
      simpa [Option.mem_def.mp hc] using hlast

theorem mem_quoteIfNeeded {value : Str} {c : Char} (h : c ∈ quoteIfNeeded value) :
    (isControl c && c != '\t') = false := by
  have hvalue : ∀ {c}, c ∈ valueText value → (isControl c && c != '\t') = false := fun hc => by
    have hkept := (List.mem_filter.mp hc).2
    revert hkept
    cases isControl _ <;> simp
  rw [quoteIfNeeded_eq] at h
  split at h
  · simp only [List.cons_append, List.nil_append, List.mem_cons,
      List.mem_append, List.not_mem_nil, or_false] at h
    rcases h with rfl | h | rfl
    · rfl
    · obtain ⟨x, hx, hc⟩ := List.mem_flatMap.mp h
      split at hc
      · simp only [List.mem_cons, List.not_mem_nil, or_false] at hc
        rcases hc with rfl | rfl <;> rfl
      · rw [List.mem_singleton.mp hc]
        exact hvalue hx
    · rfl
  · exact hvalue h

/-- **Quoting is undone.** -/
theorem unquote_quoteIfNeeded (value : Str) : unquote (quoteIfNeeded value) = valueText value := by
  rw [quoteIfNeeded_eq]
  split
  · have hquoted : 2 ≤ ([doubleQuote] ++ escape backslash doubleQuote (valueText value) ++
        [doubleQuote]).length := by
      simp
    unfold unquote
    rw [if_pos ⟨hquoted, rfl, List.getLast?_concat⟩]
    have hinner : ([doubleQuote] ++ escape backslash doubleQuote (valueText value) ++
        [doubleQuote]).tail.dropLast = escape backslash doubleQuote (valueText value) := by
      simp
    rw [hinner]
    exact replace_escape (by decide) _
  · next hbare =>
    simp only [needsQuotes, Bool.or_eq_true, not_or, Bool.not_eq_true] at hbare
    unfold unquote
    rw [if_neg]
    rintro ⟨-, hhead, -⟩
    have hnot := hbare.2
    rw [List.contains_eq_mem, decide_eq_false_iff_not] at hnot
    exact hnot (List.mem_of_mem_head? hhead)

/-! ## Lines -/

theorem Bare.toTrimmed (h : Bare name) : Trimmed name := trimmed_of_trim h.trimmed

/-- The characters of a printed line. -/
def Printed (line : Str) : Prop := ∀ c ∈ line, (isControl c && c != '\t') = false

theorem Printed.of_not_control {line : Str} (h : ∀ c ∈ line, isControl c = false) :
    Printed line := fun c hc => by simp [h c hc]

theorem Printed.append {front back : Str} (hfront : Printed front) (hback : Printed back) :
    Printed (front ++ back) := fun c hc =>
  (List.mem_append.mp hc).elim (hfront c) (hback c)

theorem Printed.one_line {line : Str} (h : Printed line) : '\n' ∉ line ∧ '\r' ∉ line :=
  ⟨fun hmem => absurd (h _ hmem) (by decide), fun hmem => absurd (h _ hmem) (by decide)⟩

theorem not_control_filter {c : Char} (hc : c ∈ name.filter fun c => !isControl c) :
    isControl c = false := by
  simpa using (List.mem_filter.mp hc).2

theorem header_printed (h : s.WellFormed) : Printed s.header := by
  refine .of_not_control fun c hc => ?_
  have hkind := h.kind.printable
  unfold Section.header at hc
  split at hc
  · rw [sanitizeIdent_bare h.kind, sanitizeIdent_eq] at hc
    simp only [List.mem_append, List.mem_singleton] at hc
    rcases hc with (((rfl | hc) | rfl) | hc) | rfl
    · rfl
    · exact hkind c hc
    · rfl
    · exact not_control_filter hc
    · rfl
  · rw [sanitizeIdent_bare h.kind] at hc
    simp only [List.mem_append, List.mem_singleton] at hc
    rcases hc with (rfl | hc) | rfl
    · rfl
    · exact hkind c hc
    · rfl

theorem entryLine_printed (h : Key entry.1) : Printed (entryLine entry) := by
  unfold entryLine
  rw [sanitizeIdent_bare h.toBare]
  refine .append (.append (.of_not_control h.printable) (.of_not_control ?_)) fun c hc =>
    mem_quoteIfNeeded hc
  simp [isControl]

theorem parseLine_printed {lineno : Nat} {parser : Parser} {first : Char} {rest : Str}
    (h : Printed (first :: rest)) (htrim : Trimmed (first :: rest)) (hsemi : first ≠ ';')
    (hhash : first ≠ '#') : parseLine lineno parser (first :: rest) =
      if first = '[' then parseHeader lineno parser rest
      else parseEntry lineno parser (first :: rest) := by
  have hclean : ((first :: rest).any fun c => isControl c && c != '\t') = false :=
    List.any_eq_false.mpr fun c hc => by simp [h c hc]
  unfold parseLine
  rw [hclean, if_neg Bool.false_ne_true]
  dsimp only
  rw [htrim.trim]
  simp [hsemi, hhash]

def Section.title (s : Section) : Str :=
  match s.instanceName with
  | some inst => s.kind ++ ':' :: inst.filter fun c => !isControl c
  | none => s.kind

theorem header_eq (h : s.WellFormed) : s.header = '[' :: (s.title ++ [']']) := by
  unfold Section.header Section.title
  cases s.instanceName <;> simp [sanitizeIdent_bare h.kind, sanitizeIdent_eq]

theorem parseHeader_title {s : Section} (h : s.WellFormed) (lineno : Nat) (parser : Parser) :
    parseHeader lineno parser (s.title ++ [']']) =
      .ok ⟨parser.flush, some { s.cleaned with entries := [] }⟩ := by
  have hkind : s.kind.any isControl = false := by simpa using h.kind.printable
  have hempty : s.kind.isEmpty = false := by simpa using h.kind.nonempty
  unfold parseHeader Section.title
  rw [stripSuffix_concat]
  cases hname : s.instanceName with
  | none =>
    dsimp only
    rw [splitOnce_eq_none h.single]
    simp [h.kind.trimmed, hkind, hempty, Section.cleaned, hname]
  | some inst =>
    have hinst : (instanceText inst).any isControl = false := by
      refine List.any_eq_false.mpr fun c hc => ?_
      have hmem : c ∈ inst.filter fun c => !isControl c :=
        (List.dropWhile_sublist _).mem (( List.rdropWhile_prefix _ _).sublist.mem hc)
      simp [not_control_filter hmem]
    dsimp only
    rw [splitOnce_append h.single]
    change (if (trim s.kind).any isControl || (instanceText inst).any isControl then _
      else if (trim s.kind).isEmpty then _ else _) = _
    rw [h.kind.trimmed, hkind, hinst, hempty]
    simp [Section.cleaned, hname, h.kind.trimmed, instanceText]

theorem parseLine_header (h : s.WellFormed) (lineno : Nat) (parser : Parser) :
    parseLine lineno parser s.header =
      .ok ⟨parser.flush, some { s.cleaned with entries := [] }⟩ := by
  have hprinted := header_printed h
  rw [header_eq h] at hprinted ⊢
  have htrim : Trimmed ('[' :: (s.title ++ [']'])) := by
    refine ⟨fun c hc => ?_, fun c hc => ?_⟩
    · cases hc
      rfl
    · rw [← List.cons_append, List.getLast?_concat] at hc
      cases hc
      rfl
  rw [parseLine_printed hprinted htrim (by decide) (by decide), if_pos rfl, parseHeader_title h]

theorem parseEntry_entryLine (h : Key entry.1) (lineno : Nat) (doc : List Section) (sec : Section) :
    parseEntry lineno ⟨doc, some sec⟩ (entryLine entry) =
      .ok ⟨doc, some { sec with
        entries := sec.entries ++ [(entry.1, valueText entry.2)] }⟩ := by
  have hsplit : splitOnce '=' (entryLine entry) =
      some (entry.1 ++ [' '], ' ' :: quoteIfNeeded entry.2) := by
    have hfront : '=' ∉ entry.1 ++ [' '] := by simp [h.one]
    have hline : entryLine entry = (entry.1 ++ [' ']) ++ '=' :: (' ' :: quoteIfNeeded entry.2) := by
      simp [entryLine, sanitizeIdent_bare h.toBare]
    rw [hline, splitOnce_append hfront]
  have hkey : trim (entry.1 ++ [' ']) = entry.1 := by
    simpa using @trim_surround [] entry.1 [' '] (by simp) (by simp [isWhitespace]) h.toBare.toTrimmed
  have hvalue : trim (' ' :: quoteIfNeeded entry.2) = quoteIfNeeded entry.2 := by
    simpa using @trim_surround [' '] (quoteIfNeeded entry.2) [] (by simp [isWhitespace]) (by simp)
      (quoteIfNeeded_trimmed entry.2)
  have hempty : entry.1.isEmpty = false := by simpa using h.nonempty
  have hclean : entry.1.any isControl = false := by simpa using h.printable
  unfold parseEntry
  rw [hsplit]
  simp [hkey, hvalue, hempty, hclean, unquote_quoteIfNeeded]

theorem parseLine_entryLine (h : Key entry.1) (lineno : Nat) (doc : List Section) (sec : Section) :
    parseLine lineno ⟨doc, some sec⟩ (entryLine entry) =
      .ok ⟨doc, some { sec with
        entries := sec.entries ++ [(entry.1, valueText entry.2)] }⟩ := by
  have hparse := parseEntry_entryLine h lineno doc sec
  have hprinted := entryLine_printed h
  have htrim : Trimmed (entryLine entry) := by
    unfold entryLine
    rw [sanitizeIdent_bare h.toBare]
    constructor
    · rw [List.append_assoc, List.head?_append_of_ne_nil _ h.nonempty]
      exact h.toBare.toTrimmed.1
    · rw [List.getLast?_append_of_ne_nil _ (quoteIfNeeded_ne_nil _)]
      exact (quoteIfNeeded_trimmed _).2
  obtain ⟨first, rest, hline⟩ : ∃ first rest, entryLine entry = first :: rest :=
    List.exists_cons_of_ne_nil (by simp [entryLine])
  have hstart : first ≠ '[' ∧ first ≠ ';' ∧ first ≠ '#' := by
    refine h.start first ?_
    have hfirst := congrArg List.head? hline
    unfold entryLine at hfirst
    rwa [sanitizeIdent_bare h.toBare, List.append_assoc,
      List.head?_append_of_ne_nil _ h.nonempty] at hfirst
  rw [hline] at hparse hprinted htrim ⊢
  rw [parseLine_printed hprinted htrim hstart.2.1 hstart.2.2, if_neg hstart.1, hparse]

/-! ## Documents -/

/-- The lines take one state of the parser to another, wherever they stand in the file. -/
inductive Reads : Parser → List Str → Parser → Prop where
  | nil (parser : Parser) : Reads parser [] parser
  | cons {p q r : Parser} {line : Str} {ls : List Str}
      (line_ok : ∀ lineno, parseLine lineno p line = .ok q) (rest : Reads q ls r) :
      Reads p (line :: ls) r

theorem Reads.append {p q r : Parser} {ls ms : List Str} (h : Reads p ls q) (h' : Reads q ms r) :
    Reads p (ls ++ ms) r := by
  induction h with
  | nil => exact h'
  | cons line_ok _ ih => exact .cons line_ok (ih h')

theorem Reads.parseLines {p q : Parser} {ls : List Str} (h : Reads p ls q) (idx : Nat) :
    parseLines idx p ls = .ok q := by
  induction h generalizing idx with
  | nil => rfl
  | cons line_ok _ ih =>
    rw [Config.parseLines, line_ok]
    exact ih (idx + 1)

theorem reads_blank (parser : Parser) : Reads parser [[]] parser := .cons (fun _ => rfl) (.nil _)

theorem reads_entries {entries : List (Str × Str)} (h : ∀ entry ∈ entries, Key entry.1)
    (doc : List Section) (sec : Section) :
    Reads ⟨doc, some sec⟩ (entries.map entryLine) ⟨doc, some { sec with
      entries := sec.entries ++ entries.map fun entry => (entry.1, valueText entry.2) }⟩ := by
  induction entries generalizing sec with
  | nil => simpa using Reads.nil ⟨doc, some sec⟩
  | cons entry entries ih =>
    obtain ⟨hentry, hrest⟩ := List.forall_mem_cons.mp h
    refine .cons (fun lineno => parseLine_entryLine hentry lineno doc sec) ?_
    simpa using ih hrest { sec with entries := sec.entries ++ [(entry.1, valueText entry.2)] }

def Section.lines (s : Section) : List Str := s.header :: s.entries.map entryLine

/-- **A section is read back.** -/
theorem reads_section (h : s.WellFormed) (parser : Parser) :
    Reads parser s.lines ⟨parser.flush, some s.cleaned⟩ := by
  refine .cons (fun lineno => parseLine_header h lineno parser) ?_
  exact reads_entries h.keys parser.flush { s.cleaned with entries := [] }

/-- The lines of sections of which `i` precede them. -/
def docLines (i : Nat) (sections : List Section) : List Str :=
  (sections.zipIdx i).flatMap fun indexed => (if 0 < indexed.2 then [[]] else []) ++ indexed.1.lines

theorem docLines_cons (i : Nat) (s : Section) (sections : List Section) :
    docLines i (s :: sections) =
      (if 0 < i then [[]] else []) ++ s.lines ++ docLines (i + 1) sections := by
  simp [docLines, List.zipIdx_cons]

theorem toText_eq (doc : IniDoc) : doc.toText = (docLines 0 doc.sections).flatMap writeln := by
  unfold IniDoc.toText docLines
  rw [List.flatMap_assoc]
  refine List.flatMap_congr fun indexed _ => ?_
  rw [List.flatMap_append]
  congr 1
  · split <;> rfl
  · simp [Section.toText, Section.lines, List.flatMap_map]

theorem reads_docLines {sections : List Section} (h : ∀ s ∈ sections, s.WellFormed) (i : Nat)
    (parser : Parser) : ∃ after, Reads parser (docLines i sections) after ∧
      after.flush = parser.flush ++ sections.map Section.cleaned := by
  induction sections generalizing i parser with
  | nil => exact ⟨parser, .nil _, by simp⟩
  | cons s sections ih =>
    obtain ⟨hs, hrest⟩ := List.forall_mem_cons.mp h
    have hblank : Reads parser (if 0 < i then [[]] else []) parser := by
      split
      · exact reads_blank parser
      · exact .nil parser
    obtain ⟨after, hreads, hflush⟩ := ih hrest (i + 1) ⟨parser.flush, some s.cleaned⟩
    refine ⟨after, ?_, ?_⟩
    · rw [docLines_cons]
      exact (hblank.append (reads_section hs parser)).append hreads
    · rw [hflush]
      simp [Parser.flush]

theorem docLines_one_line {sections : List Section} (h : ∀ s ∈ sections, s.WellFormed) (i : Nat) :
    ∀ line ∈ docLines i sections, '\n' ∉ line ∧ '\r' ∉ line := by
  intro line hline
  obtain ⟨indexed, hindexed, hmem⟩ := List.mem_flatMap.mp hline
  have hs := h indexed.1 (List.fst_mem_of_mem_zipIdx hindexed)
  rcases List.mem_append.mp hmem with hblank | hmem
  · split at hblank
    · rw [List.mem_singleton.mp hblank]
      simp
    · cases hblank
  · rcases List.mem_cons.mp hmem with rfl | hentry
    · exact (header_printed hs).one_line
    · obtain ⟨entry, hof, rfl⟩ := List.mem_map.mp hentry
      exact (entryLine_printed (hs.keys entry hof)).one_line

/-- **Injection safety.** Sections whose kinds and keys are well formed are read back with
the same kinds and keys in the same order; values lose their control characters other than
TAB, instance names lose theirs and their outer white space, and nothing else changes. -/
theorem parse_toText (doc : IniDoc) (h : ∀ s ∈ doc.sections, s.WellFormed) :
    IniDoc.parse doc.toText = .ok ⟨doc.sections.map fun s =>
      { kind := s.kind
        instanceName := s.instanceName.map instanceText
        entries := s.entries.map fun entry => (entry.1, valueText entry.2) }⟩ := by
  obtain ⟨after, hreads, hflush⟩ := reads_docLines h 0 ⟨[], none⟩
  unfold IniDoc.parse
  rw [toText_eq, lines_flatMap_writeln (docLines_one_line h 0), hreads.parseLines]
  change Except.ok (IniDoc.mk after.flush) = _
  rw [hflush]
  rfl

/-- A user whose name closes the header and whose note forges a section with a command. -/
def forgedUser : IniDoc where
  sections := [{
    kind := ['u']
    instanceName := some [' ', 'b', ']', '\n', '[', 'x']
    entries := [(['n'], [doubleQuote, '\n', '[', 'r', ']', '\n', 'p', '=', backslash])] }]

theorem parse_toText_forgedUser :
    IniDoc.parse forgedUser.toText = .ok ⟨[{
      kind := ['u']
      instanceName := some ['b', ']', '[', 'x']
      entries := [(['n'], [doubleQuote, '[', 'r', ']', 'p', '=', backslash])] }]⟩ := by
  have hsection : ∀ s ∈ forgedUser.sections, s.WellFormed := by
    intro s hs
    rw [List.mem_singleton.mp hs]
    refine ⟨⟨by decide, by decide, by simp [isControl]⟩, by decide, fun entry hentry => ?_⟩
    rw [List.mem_singleton.mp hentry]
    exact
      { nonempty := by decide
        trimmed := by decide
        printable := by simp [isControl]
        one := by decide
        start := by simp }
  rw [parse_toText forgedUser hsection]
  decide

end Qeli.Config
