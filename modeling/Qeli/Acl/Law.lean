import Qeli.Acl.Networks

/-!
# What the spelling of an allow list means

A compiled list allows a packet when all its entries are blank, or when one of them is a
network with the destination in it (`allowsPacket_compile`). So the order of the entries,
their repetitions, their host bits and blank entries among them say nothing, a further
entry allows more, and a malformed one allows nothing.

Between the user's list and the group's the choice is made before blank entries are
skipped, but the loader has dropped them by then: a list of blank entries as `written` in a
section is loaded as the empty one, and inherits the group's.
-/

namespace Qeli.Acl

open Lib Route

variable {text : NetText}

/-- An entry that the compiler skips. -/
def Blank (text : NetText) (raw : String) : Prop := text.trim raw = ""

instance (text : NetText) (raw : String) : Decidable (Blank text raw) :=
  inferInstanceAs (Decidable (_ = _))

/-- The network of an entry, unless it is malformed. -/
def rule (text : NetText) (raw : String) : Option Network := Network.parse text (text.trim raw)

/-- The packet goes to an address of the entry's network. -/
def Admits (text : NetText) (raw : String) (pkt : List UInt8) : Prop :=
  ∃ packet network, Ip.parseIpPacket pkt = .ok packet ∧ rule text raw = some network ∧
    network.contains (ofOctets packet.destination) = true

/-! ## Compiled lists -/

theorem mem_destutter_ne {α : Type*} [DecidableEq α] {x : α} {l : List α} :
    x ∈ l.destutter (· ≠ ·) ↔ x ∈ l := by
  refine ⟨fun h => (List.destutter_sublist _ l).mem h, ?_⟩
  -- A dropped element equals the one before it.
  have hworker : ∀ (l : List α) (a : α), x ∈ a :: l → x ∈ l.destutter' (· ≠ ·) a := by
    intro l
    induction l with
    | nil => exact fun a h => h
    | cons b l ih =>
      intro a h
      by_cases hab : a = b
      · subst hab
        rw [List.destutter'_cons_neg _ (by simp)]
        exact ih a (by simpa using h)
      · rw [List.destutter'_cons_pos _ hab]
        rcases List.mem_cons.mp h with rfl | htail
        · exact List.mem_cons_self
        · exact List.mem_cons_of_mem _ (ih b htail)
  cases l with
  | nil => exact id
  | cons a l => exact hworker l a

theorem foldl_addEntry (cidrs : List String) (acl : DstAcl) :
    ((cidrs.foldl (DstAcl.addEntry text) acl).restricted = true ↔
      acl.restricted = true ∨ ∃ raw ∈ cidrs, ¬Blank text raw) ∧
    ∀ network, network ∈ (cidrs.foldl (DstAcl.addEntry text) acl).nets ↔
      network ∈ acl.nets ∨ ∃ raw ∈ cidrs, ¬Blank text raw ∧ rule text raw = some network := by
  induction cidrs generalizing acl with
  | nil => simp
  | cons raw cidrs ih =>
    obtain ⟨hrestricted, hnets⟩ := ih (DstAcl.addEntry text acl raw)
    simp only [List.foldl_cons, List.exists_mem_cons_iff, hrestricted, hnets]
    unfold DstAcl.addEntry
    by_cases hblank : Blank text raw
    · have htrim : text.trim raw = "" := hblank
      simp [htrim, hblank]
    · have htrim : text.trim raw ≠ "" := hblank
      cases hrule : rule text raw with
      | none =>
        have hparse : Network.parse text (text.trim raw) = none := hrule
        simp [htrim, hblank, hparse]
      | some network =>
        have hparse : Network.parse text (text.trim raw) = some network := hrule
        have hsame : ∀ network', network' = network ↔ network = network' := fun _ => eq_comm
        simp [htrim, hblank, hparse, or_assoc, hsame]

theorem compile_restricted (cidrs : List String) :
    (DstAcl.compile text cidrs).restricted = true ↔ ∃ raw ∈ cidrs, ¬Blank text raw := by
  have hfold := (@foldl_addEntry text cidrs ⟨[], false⟩).1
  simpa [DstAcl.compile] using hfold

theorem mem_compile_nets (cidrs : List String) (network : Network) :
    network ∈ (DstAcl.compile text cidrs).nets ↔
      ∃ raw ∈ cidrs, ¬Blank text raw ∧ rule text raw = some network := by
  unfold DstAcl.compile
  rw [mem_destutter_ne, List.mem_mergeSort, (foldl_addEntry cidrs ⟨[], false⟩).2]
  simp

/-- **A compiled list** allows what its entries admit, and everything when it has none. -/
theorem allowsPacket_compile (cidrs : List String) (pkt : List UInt8) :
    (DstAcl.compile text cidrs).allowsPacket pkt = true ↔
      (∀ raw ∈ cidrs, Blank text raw) ∨ ∃ raw ∈ cidrs, ¬Blank text raw ∧ Admits text raw pkt := by
  have hrestricted := @compile_restricted text cidrs
  unfold DstAcl.allowsPacket
  cases hr : (DstAcl.compile text cidrs).restricted with
  | false =>
    rw [hr] at hrestricted
    have hall : ∀ raw ∈ cidrs, Blank text raw := by simpa using hrestricted
    simpa using Or.inl hall
  | true =>
    rw [hr] at hrestricted
    obtain ⟨raw, hmem, hraw⟩ := hrestricted.mp rfl
    have hsome : ¬∀ raw ∈ cidrs, Blank text raw := fun hall => hraw (hall raw hmem)
    simp only [hsome, false_or]
    cases hparse : Ip.parseIpPacket pkt with
    | error e => simp [Admits, hparse]
    | ok packet =>
      simp only [Bool.not_true, Bool.false_eq_true, if_false, List.any_eq_true, mem_compile_nets]
      constructor
      · rintro ⟨network, ⟨raw, hmem, hraw, hrule⟩, hcontains⟩
        exact ⟨raw, hmem, hraw, packet, network, hparse, hrule, hcontains⟩
      · rintro ⟨raw, hmem, hraw, packet', network, hparse', hrule, hcontains⟩
        rw [hparse] at hparse'
        cases hparse'
        exact ⟨network, ⟨raw, hmem, hraw, hrule⟩, hcontains⟩

/-! ## Spellings of one list -/

/-- The entry is not blank, and is an address with a prefix length. -/
def Reads (text : NetText) (raw : String) (address : IpAddr) (prefixLen : Nat) : Prop :=
  ¬Blank text raw ∧
    text.parseIp (Network.parts text (text.trim (text.trim raw))).1 = some address ∧
    Network.prefixOf text address.bits (Network.parts text (text.trim (text.trim raw))).2 =
      some prefixLen

variable {raw : String} {prefixLen : Nat} {l l' : List String} {pkt : List UInt8}

theorem Reads.rule {address : IpAddr} (h : Reads text raw address prefixLen) :
    rule text raw = some (Network.ofAddr address prefixLen) := by
  obtain ⟨_, haddress, hlen⟩ := h
  simp [Acl.rule, Network.parse, haddress, hlen]

/-- Two addresses with the same bits in front of the host bits. -/
def Agree (prefixLen : Nat) : IpAddr → IpAddr → Prop
  | .v4 a, .v4 b => a >>> (32 - prefixLen) = b >>> (32 - prefixLen)
  | .v6 a, .v6 b => a >>> (128 - prefixLen) = b >>> (128 - prefixLen)
  | _, _ => False

theorem and_netMask_congr {w : Nat} {a b : BitVec w}
    (h : a >>> (w - prefixLen) = b >>> (w - prefixLen)) :
    a &&& netMask w prefixLen = b &&& netMask w prefixLen := by
  unfold netMask
  split
  · simp
  · refine BitVec.eq_of_getLsbD_eq fun i hi => ?_
    by_cases hlow : i < w - prefixLen
    · simp [hlow]
    · have hbit := congrArg (fun x => x.getLsbD (i - (w - prefixLen))) h
      simp only [BitVec.getLsbD_ushiftRight] at hbit
      rw [show w - prefixLen + (i - (w - prefixLen)) = i by omega] at hbit
      simp [hbit]

theorem ofAddr_congr {a b : IpAddr} (h : Agree prefixLen a b) :
    Network.ofAddr a prefixLen = Network.ofAddr b prefixLen := by
  cases a <;> cases b
  · exact congrArg (Network.v4 · _) (and_netMask_congr h)
  · exact h.elim
  · exact h.elim
  · exact congrArg (Network.v6 · _) (and_netMask_congr h)

/-- Two entries that differ in their host bits. -/
def SameNetwork (text : NetText) (raw raw' : String) : Prop :=
  ∃ address address' prefixLen, Reads text raw address prefixLen ∧
    Reads text raw' address' prefixLen ∧ Agree prefixLen address address'

/-- The edits that say nothing new. -/
inductive Edit (text : NetText) : List String → List String → Prop where
  | permute {l l' : List String} (h : l.Perm l') : Edit text l l'
  | again {l : List String} {raw : String} (h : raw ∈ l) : Edit text l (raw :: l)
  | hostBits {l : List String} {raw raw' : String} (h : SameNetwork text raw raw') :
      Edit text (raw :: l) (raw' :: l)
  | blank {l : List String} {raw : String} (h : Blank text raw) : Edit text l (raw :: l)

/-- Any number of edits, done or undone. -/
def Respelled (text : NetText) : List String → List String → Prop := Relation.EqvGen (Edit text)

/-- What the entries say that are not blank. -/
def meaning (text : NetText) (l : List String) : Set (Option Network) :=
  { r | ∃ raw ∈ l, ¬Blank text raw ∧ rule text raw = r }

theorem meaning_cons (raw : String) (l : List String) :
    meaning text (raw :: l) = { r | ¬Blank text raw ∧ rule text raw = r } ∪ meaning text l := by
  ext r
  simp [meaning]

theorem Edit.meaning_eq (h : Edit text l l') : meaning text l = meaning text l' := by
  cases h with
  | permute h =>
    ext r
    simp only [meaning, h.mem_iff]
  | again h =>
    rw [meaning_cons, Set.union_eq_self_of_subset_left]
    rintro r ⟨hraw, hrule⟩
    exact ⟨_, h, hraw, hrule⟩
  | hostBits h =>
    obtain ⟨address, address', prefixLen, hreads, hreads', hagree⟩ := h
    rw [meaning_cons, meaning_cons, hreads.rule, hreads'.rule, ofAddr_congr hagree]
    simp only [hreads.1, hreads'.1]
  | blank h =>
    rw [meaning_cons, Set.union_eq_self_of_subset_left]
    rintro r ⟨hraw, _⟩
    exact absurd h hraw

theorem Respelled.meaning_eq (h : Respelled text l l') : meaning text l = meaning text l' := by
  induction h with
  | rel _ _ hedit => exact hedit.meaning_eq
  | refl _ => rfl
  | symm _ _ _ ih => exact ih.symm
  | trans _ _ _ _ _ ih ih' => exact ih.trans ih'

theorem meaning_eq_empty : meaning text l = ∅ ↔ ∀ raw ∈ l, Blank text raw := by
  rw [Set.eq_empty_iff_forall_notMem]
  constructor
  · intro h raw hmem
    by_contra hraw
    exact h _ ⟨raw, hmem, hraw, rfl⟩
  · rintro h r ⟨raw, hmem, hraw, _⟩
    exact hraw (h raw hmem)

theorem allowsPacket_meaning (l : List String) (pkt : List UInt8) :
    (DstAcl.compile text l).allowsPacket pkt = true ↔
      meaning text l = ∅ ∨ ∃ packet network, Ip.parseIpPacket pkt = .ok packet ∧
        some network ∈ meaning text l ∧ network.contains (ofOctets packet.destination) = true := by
  rw [allowsPacket_compile, meaning_eq_empty]
  refine or_congr_right ⟨?_, ?_⟩
  · rintro ⟨raw, hmem, hraw, packet, network, hparse, hrule, hcontains⟩
    exact ⟨packet, network, hparse, ⟨raw, hmem, hraw, hrule⟩, hcontains⟩
  · rintro ⟨packet, network, hparse, ⟨raw, hmem, hraw, hrule⟩, hcontains⟩
    exact ⟨raw, hmem, hraw, packet, network, hparse, hrule, hcontains⟩

/-! ## More entries -/

theorem allowsPacket_insert (hperm : l'.Perm (raw :: l)) (hsome : ∃ raw' ∈ l, ¬Blank text raw')
    (h : (DstAcl.compile text l).allowsPacket pkt = true) :
    (DstAcl.compile text l').allowsPacket pkt = true := by
  rw [allowsPacket_compile] at h ⊢
  rcases h with hall | ⟨entry, hmem, hentry, hadmits⟩
  · obtain ⟨raw', hmem, hraw'⟩ := hsome
    exact absurd (hall raw' hmem) hraw'
  · exact .inr ⟨entry, hperm.mem_iff.mpr (List.mem_cons_of_mem _ hmem), hentry, hadmits⟩

/-- An entry that is neither blank nor a network. -/
def Malformed (text : NetText) (raw : String) : Prop := ¬Blank text raw ∧ rule text raw = none

theorem allowsPacket_malformed {rest : List String} (hperm : l.Perm (raw :: rest))
    (hraw : Malformed text raw) :
    (DstAcl.compile text l).allowsPacket pkt = true ↔
      ∃ entry ∈ rest, ¬Blank text entry ∧ Admits text entry pkt := by
  rw [allowsPacket_compile]
  constructor
  · rintro (hall | ⟨entry, hmem, hentry, hadmits⟩)
    · exact absurd (hall raw (hperm.mem_iff.mpr List.mem_cons_self)) hraw.1
    · rcases List.mem_cons.mp (hperm.mem_iff.mp hmem) with rfl | hrest
      · obtain ⟨_, network, _, hrule, _⟩ := hadmits
        rw [hraw.2] at hrule
        cases hrule
      · exact ⟨entry, hrest, hentry, hadmits⟩
  · rintro ⟨entry, hmem, hentry, hadmits⟩
    exact .inr ⟨entry, hperm.mem_iff.mpr (List.mem_cons_of_mem _ hmem), hentry, hadmits⟩

/-- Put in or put in the place of another entry, a malformed one allows nothing new. -/
theorem denied_of_malformed {rest : List String} (hrest : ∀ entry ∈ rest, entry ∈ l)
    (hperm : l'.Perm (raw :: rest)) (hraw : Malformed text raw)
    (h : (DstAcl.compile text l).allowsPacket pkt = false) :
    (DstAcl.compile text l').allowsPacket pkt = false := by
  rw [← Bool.not_eq_true] at h ⊢
  rw [allowsPacket_malformed hperm hraw]
  rintro ⟨entry, hmem, hentry, hadmits⟩
  exact h ((allowsPacket_compile l pkt).mpr (.inr ⟨entry, hrest entry hmem, hentry, hadmits⟩))

/-! ## Users -/

section Users

variable {groups groups' : KeyMap String GroupTemplate} {user : UserEntry} {s s' : Config.Section}

theorem effectiveAllowedNetworks_own (h : user.allowedNetworks ≠ []) :
    effectiveAllowedNetworks user groups = user.allowedNetworks := by
  simp [effectiveAllowedNetworks, h]

theorem effectiveAllowedNetworks_inherited (h : user.allowedNetworks = []) :
    effectiveAllowedNetworks user groups = inherited groups user.group := by
  simp [effectiveAllowedNetworks, h]

/-- The entries as they stand in a section, blank ones among them. -/
def written (s : Config.Section) : List String :=
  ((s.all "allowed_networks".toList).flatMap (·.splitOn ',')).map String.ofList

/-- `trim` is that of the standard library. -/
def StdTrim (text : NetText) : Prop := ∀ s, text.trim s = .ofList (Str.trim s.toList)

theorem mem_allowedNetworksOf (htrim : StdTrim text) :
    raw ∈ allowedNetworksOf s ↔ ∃ entry ∈ written s, ¬Blank text entry ∧ raw = text.trim entry := by
  simp only [allowedNetworksOf, Config.Section.list, written, Blank, htrim _, List.mem_map,
    List.mem_filter, List.mem_flatMap]
  constructor
  · rintro ⟨value, ⟨⟨line, hline, part, hpart, rfl⟩, hne⟩, rfl⟩
    exact ⟨_, ⟨part, ⟨line, hline, hpart⟩, rfl⟩, by simpa using hne, by simp⟩
  · rintro ⟨_, ⟨part, ⟨line, hline, hpart⟩, rfl⟩, hne, rfl⟩
    exact ⟨_, ⟨⟨line, hline, part, hpart, rfl⟩, by simpa using hne⟩, by simp⟩

theorem meaning_allowedNetworksOf (htrim : StdTrim text) (s : Config.Section) :
    meaning text (allowedNetworksOf s) = meaning text (written s) := by
  have hidem : ∀ s, text.trim (text.trim s) = text.trim s := fun s => by
    rw [htrim, htrim, String.toList_ofList, (Str.trimmed_trim _).trim]
  ext r
  constructor
  · rintro ⟨_, hmem, hraw, hrule⟩
    obtain ⟨entry, hentry, hblank, rfl⟩ := (mem_allowedNetworksOf htrim).mp hmem
    rw [rule, hidem] at hrule
    exact ⟨entry, hentry, hblank, hrule⟩
  · rintro ⟨entry, hentry, hblank, hrule⟩
    refine ⟨_, (mem_allowedNetworksOf htrim).mpr ⟨entry, hentry, hblank, rfl⟩, ?_, ?_⟩
    · rwa [Blank, hidem]
    · rwa [rule, hidem]

theorem allowedNetworksOf_eq_nil (htrim : StdTrim text) :
    allowedNetworksOf s = [] ↔ meaning text (written s) = ∅ := by
  rw [meaning_eq_empty, List.eq_nil_iff_forall_not_mem]
  simp only [mem_allowedNetworksOf htrim]
  constructor
  · exact fun h raw hmem => by_contra fun hraw => h _ ⟨raw, hmem, hraw, rfl⟩
  · rintro h _ ⟨raw, hmem, hraw, -⟩
    exact hraw (h raw hmem)

/-- The table of groups has what their sections say. -/
def LoadedFrom (sections : String → Option Config.Section)
    (groups : KeyMap String GroupTemplate) : Prop :=
  ∀ name, groups.get? name = (sections name).map groupFrom

def groupSection (sections : String → Option Config.Section) (s : Config.Section) :
    Option Config.Section :=
  (userFrom s).group.bind sections

theorem inherited_loaded {sections : String → Option Config.Section}
    (h : LoadedFrom sections groups) :
    inherited groups (userFrom s).group = (groupSection sections s).elim [] allowedNetworksOf := by
  rw [inherited, groupSection]
  cases (userFrom s).group with
  | none => rfl
  | some name =>
    rw [Option.bind_some, Option.bind_some, h name]
    cases sections name with
    | none => rfl
    | some g =>
      show (groupFrom g).allowedNetworks.getD [] = allowedNetworksOf g
      rw [groupFrom]
      split
      · rfl
      · next hkey =>
        -- without the key there is no value
        have hnone : g.all "allowed_networks".toList = [] := by
          rw [Config.Section.containsKey, Bool.not_eq_true, List.any_eq_false] at hkey
          rw [Config.Section.all, List.filter_eq_nil_iff.mpr hkey, List.map_nil]
        rw [allowedNetworksOf, Config.Section.list, hnone]
        rfl

/-- The lists of the user and of the user's group are written in another way. -/
structure Changed (text : NetText) (sections sections' : String → Option Config.Section)
    (s s' : Config.Section) : Prop where
  own : Respelled text (written s) (written s')
  inherits : Respelled text ((groupSection sections s).elim [] written)
    ((groupSection sections' s').elim [] written)

/-- **Spelling does not matter.** -/
theorem Changed.allows_eq {sections sections' : String → Option Config.Section}
    (htrim : StdTrim text) (h : Changed text sections sections' s s')
    (hgroups : LoadedFrom sections groups) (hgroups' : LoadedFrom sections' groups')
    (pkt : List UInt8) :
    allows text groups (userFrom s) pkt = allows text groups' (userFrom s') pkt := by
  have hown := h.own.meaning_eq
  have hempty : (userFrom s).allowedNetworks = [] ↔ (userFrom s').allowedNetworks = [] :=
    (allowedNetworksOf_eq_nil htrim).trans (hown ▸ (allowedNetworksOf_eq_nil htrim).symm)
  have hgroup : ∀ g : Option Config.Section,
      meaning text (g.elim [] allowedNetworksOf) = meaning text (g.elim [] written) := by
    rintro (_ | g)
    · rfl
    · exact meaning_allowedNetworksOf htrim g
  have hmeaning : meaning text (effectiveAllowedNetworks (userFrom s) groups) =
      meaning text (effectiveAllowedNetworks (userFrom s') groups') := by
    by_cases hnil : (userFrom s).allowedNetworks = []
    · rw [effectiveAllowedNetworks_inherited hnil,
        effectiveAllowedNetworks_inherited (hempty.mp hnil), inherited_loaded hgroups,
        inherited_loaded hgroups', hgroup, hgroup, h.inherits.meaning_eq]
    · rw [effectiveAllowedNetworks_own hnil, effectiveAllowedNetworks_own (hempty.not.mp hnil)]
      exact (meaning_allowedNetworksOf htrim s).trans
        (hown.trans (meaning_allowedNetworksOf htrim s').symm)
  rw [Bool.eq_iff_iff, allows, allows, allowsPacket_meaning, allowsPacket_meaning, hmeaning]

end Users

/-- The law of allow lists. -/
structure AclLaw (text : NetText) : Prop where
  /-- Spellings of the user's and the group's list are equivalent. -/
  respelled : ∀ sections sections' groups groups' s s', LoadedFrom sections groups →
    LoadedFrom sections' groups' → Changed text sections sections' s s' → ∀ pkt,
    allows text groups (userFrom s) pkt = allows text groups' (userFrom s') pkt
  /-- A further entry of the user's list denies nothing that was allowed. -/
  added : ∀ groups user l raw pkt, l.Perm (raw :: user.allowedNetworks) →
    (∃ entry ∈ user.allowedNetworks, ¬Blank text entry) → allows text groups user pkt = true →
    allows text groups { user with allowedNetworks := l } pkt = true
  /-- Nor does one of the group's list. -/
  groupAdded : ∀ groups groups' user raw pkt,
    (inherited groups' user.group).Perm (raw :: inherited groups user.group) →
    (∃ entry ∈ inherited groups user.group, ¬Blank text entry) →
    allows text groups user pkt = true → allows text groups' user pkt = true
  /-- A malformed entry of the user's list, a new one or in the place of another, allows
  nothing that was denied. -/
  malformed : ∀ groups user l rest raw pkt, l.Perm (raw :: rest) → Malformed text raw →
    (∀ entry ∈ rest, entry ∈ user.allowedNetworks) → allows text groups user pkt = false →
    allows text groups { user with allowedNetworks := l } pkt = false
  /-- Nor does one of the group's list. -/
  groupMalformed : ∀ groups groups' user rest raw pkt,
    (inherited groups' user.group).Perm (raw :: rest) → Malformed text raw →
    (∀ entry ∈ rest, entry ∈ inherited groups user.group) →
    allows text groups user pkt = false → allows text groups' user pkt = false
  /-- A malformed packet is allowed only where every packet is. -/
  malformedPacket : ∀ groups user pkt e, Ip.parseIpPacket pkt = .error e →
    allows text groups user pkt = true → ∀ pkt', allows text groups user pkt' = true

/-- **The allow lists of users and groups follow the law.** -/
theorem acl_law (htrim : StdTrim text) : AclLaw text where
  respelled _ _ _ _ _ _ hgroups hgroups' h pkt := h.allows_eq htrim hgroups hgroups' pkt
  added groups user l raw pkt hperm hsome h := by
    obtain ⟨entry, hmem, hentry⟩ := hsome
    have hown : user.allowedNetworks ≠ [] := List.ne_nil_of_mem hmem
    have hl : l ≠ [] := List.ne_nil_of_mem (hperm.mem_iff.mpr List.mem_cons_self)
    rw [allows, effectiveAllowedNetworks_own hown] at h
    rw [allows, effectiveAllowedNetworks_own hl]
    exact allowsPacket_insert hperm ⟨entry, hmem, hentry⟩ h
  groupAdded groups groups' user raw pkt hperm hsome h := by
    by_cases hempty : user.allowedNetworks = []
    · rw [allows, effectiveAllowedNetworks_inherited hempty] at h ⊢
      exact allowsPacket_insert hperm hsome h
    · rw [allows, effectiveAllowedNetworks_own hempty] at h ⊢
      exact h
  malformed groups user l rest raw pkt hperm hraw hrest h := by
    have hl : l ≠ [] := List.ne_nil_of_mem (hperm.mem_iff.mpr List.mem_cons_self)
    rw [allows, effectiveAllowedNetworks_own hl]
    by_cases hempty : user.allowedNetworks = []
    · -- The list has nothing but the malformed entry.
      have hnone : rest = [] := List.eq_nil_iff_forall_not_mem.mpr fun entry hmem => by
        simpa [hempty] using hrest entry hmem
      rw [← Bool.not_eq_true, allowsPacket_malformed hperm hraw, hnone]
      simp
    · rw [allows, effectiveAllowedNetworks_own hempty] at h
      exact denied_of_malformed hrest hperm hraw h
  groupMalformed groups groups' user rest raw pkt hperm hraw hrest h := by
    by_cases hempty : user.allowedNetworks = []
    · rw [allows, effectiveAllowedNetworks_inherited hempty] at h ⊢
      exact denied_of_malformed hrest hperm hraw h
    · rw [allows, effectiveAllowedNetworks_own hempty] at h ⊢
      exact h
  malformedPacket groups user pkt e hparse h pkt' := by
    rw [allows, allowsPacket_compile] at h ⊢
    rcases h with hall | ⟨_, _, _, packet, _, hparse', _⟩
    · exact .inl hall
    · rw [hparse] at hparse'
      cases hparse'

/-! ## Blank entries -/

/-- A reader of the few texts below, with the `trim` of the standard library. -/
def staffText : NetText where
  trim s := .ofList (Str.trim s.toList)
  parseIp s := if s = "10.0.0.0" then some (.v4 0x0a000000#32) else none
  parseNet _ := none
  parseU8 s := if s = "8" then some 8 else none
  parseU16 _ := none
  displayNet _ _ := "a network"
  parseRoutes _ := .error "expected value"

def staffSection : Config.Section where
  kind := "group".toList
  instanceName := some "staff".toList
  entries := [("allowed_networks".toList, "10.0.0.0/8".toList)]

def staffUser (value : String) : Config.Section where
  kind := "user".toList
  instanceName := some "alice".toList
  entries := [("group".toList, "staff".toList), ("allowed_networks".toList, value.toList)]

/-- An IPv4 header with the destination 8.8.8.8. -/
def outside : List UInt8 :=
  [0x45, 0, 0, 20, 0, 0, 0, 0, 0, 0, 0, 0, 0, 0, 0, 0, 8, 8, 8, 8]

/-- Written with two blank entries or with one, the user is bound by the group. -/
theorem acl_law_blank :
    let groups := (∅ : KeyMap String GroupTemplate).insert "staff" (groupFrom staffSection)
    allows staffText groups (userFrom (staffUser " ,")) outside =
        allows staffText groups (userFrom (staffUser "")) outside ∧
      allows staffText groups (userFrom (staffUser "")) outside = false := by
  intro groups
  let sections : String → Option Config.Section := fun name =>
    if name = "staff" then some staffSection else none
  have hgroups : LoadedFrom sections groups := fun name => by
    rw [KeyMap.get?_insert]
    split
    · next hname => simp [sections, hname]
    · next hname => simp [sections, hname]
  have hchanged : Changed staffText sections sections (staffUser " ,") (staffUser "") := by
    have htwo : written (staffUser " ,") = [" ", ""] := by decide +kernel
    have hone : written (staffUser "") = [""] := by decide +kernel
    refine ⟨?_, .refl _⟩
    rw [htwo, hone]
    exact .symm _ _ (.rel _ _ (.blank (by decide +kernel)))
  refine ⟨(acl_law fun _ => rfl).respelled _ _ _ _ _ _ hgroups hgroups hchanged _, ?_⟩
  decide +kernel

end Qeli.Acl
