import Mathlib.Data.Set.Card
import Qeli.Route.Cidr

/-!
# Subtraction gives the canonical complement

The free part of a base prefix has one canonical description: the prefixes inside the base
that no exclusion touches and that no larger such prefix holds. `subtract_cidrs` returns
exactly these, in address order, so its result depends on nothing but the excluded
addresses, and the budget refuses exactly the complements that do not fit.
-/

namespace Qeli.Route

open Qeli.Lib

namespace NumericCidr

def Within (p q : NumericCidr) : Prop := ∀ a, p.Contains a → q.Contains a

def Disjoint (p q : NumericCidr) : Prop := ∀ a, p.Contains a → ¬q.Contains a

def Siblings (p q : NumericCidr) : Prop := ∃ r : NumericCidr, r.Valid ∧ r.children = some (p, q)

section Nesting

variable {p q : NumericCidr} {a : IpAddr}

/-- Of two prefixes with a common address, the longer is within the shorter. -/
theorem within_of_shared (hp : p.Valid) (hq : q.Valid) (hpa : p.Contains a) (hqa : q.Contains a)
    (hle : q.prefixLen ≤ p.prefixLen) : p.Within q := by
  have hover : p.overlaps q = true := by
    by_contra hnot
    exact not_contains_of_overlaps (Bool.eq_false_iff.mpr hnot) hpa hqa
  exact fun b hb => contains_of_overlaps hp hq hover hle hb

/-- Only a longer prefix is within another: a shorter one has addresses that differ in a bit
the other fixes. -/
theorem prefixLen_le_of_within (hp : p.Valid) (hq : q.Valid) (h : p.Within q) :
    q.prefixLen ≤ p.prefixLen := by
  by_contra hlt
  have hbits : q.bits = p.bits := (h _ hp.contains_start).1.trans (bits_address hp.family _)
  have hqle := hq.prefixLe
  obtain ⟨k, hk⟩ : ∃ k, p.bits - p.prefixLen = k + 1 := ⟨p.bits - p.prefixLen - 1, by omega⟩
  obtain ⟨hl, hr, -, -, -, -, -, hunion⟩ := hp.children (children_of_lt (by omega))
  have hleft := h _ ((hunion _).mpr (.inl hl.contains_start))
  have hright := h _ ((hunion _).mpr (.inr hr.contains_start))
  have hleftAt : InBlock p.bits q.start q.prefixLen p.start := by
    have := hleft.2
    rwa [toNat_address hl.family hl.lt, hbits] at this
  have hrightAt : InBlock p.bits q.start q.prefixLen
      (p.start ||| 2 ^ (p.bits - (p.prefixLen + 1))) := by
    have := hright.2
    rwa [toNat_address hr.family hr.lt, hbits] at this
  have hagree := (hleftAt.symm.trans hrightAt).mono (show p.prefixLen + 1 ≤ q.prefixLen by omega)
  have haligned := hp.aligned
  rw [hk] at haligned
  rw [InBlock, show p.bits - (p.prefixLen + 1) = k by omega, or_half haligned,
    Nat.add_div_right _ (Nat.two_pow_pos k)] at hagree
  omega

theorem eq_of_within (hp : p.Valid) (hq : q.Valid) (hpq : p.Within q) (hqp : q.Within p) : p = q := by
  have hlen : p.prefixLen = q.prefixLen :=
    Nat.le_antisymm (prefixLen_le_of_within hq hp hqp) (prefixLen_le_of_within hp hq hpq)
  have hstart := hpq _ hp.contains_start
  have hbits : q.bits = p.bits := hstart.1.trans (bits_address hp.family _)
  have hblock : p.start / 2 ^ (p.bits - p.prefixLen) = q.start / 2 ^ (p.bits - p.prefixLen) := by
    have := hstart.2
    rwa [InBlock, toNat_address hp.family hp.lt, hbits, ← hlen] at this
  have hqaligned := hq.aligned
  rw [hbits, ← hlen] at hqaligned
  have hsame : p.start = q.start := by
    rw [← Nat.div_mul_cancel hp.aligned, hblock, Nat.div_mul_cancel hqaligned]
  cases p with
  | mk start prefixLen bits =>
    cases q with
    | mk start' prefixLen' bits' =>
      dsimp only at hlen hbits hsame
      rw [hlen, hbits, hsame]

/-- A shorter prefix strictly inside `p` is inside one of its halves. -/
theorem within_half {left right : NumericCidr} (hp : p.Valid)
    (hchildren : p.children = some (left, right)) (hq : q.Valid) (hqp : q.Within p) (hne : q ≠ p) :
    q.Within left ∨ q.Within right := by
  obtain ⟨hl, hr, -, -, hllen, hrlen, -, hunion⟩ := hp.children hchildren
  have hlen : p.prefixLen < q.prefixLen := by
    refine Nat.lt_of_le_of_ne (prefixLen_le_of_within hq hp hqp) fun heq => hne ?_
    have hstart := hq.contains_start
    exact eq_of_within hq hp hqp (within_of_shared hp hq (hqp _ hstart) hstart (by omega))
  have hstart := hq.contains_start
  rcases (hunion _).mp (hqp _ hstart) with hin | hin
  · exact .inl (within_of_shared hq hl hstart hin (by omega))
  · exact .inr (within_of_shared hq hr hstart hin (by omega))

theorem disjoint_halves {left right : NumericCidr} (hp : p.Valid)
    (hchildren : p.children = some (left, right)) : left.Disjoint right := by
  obtain ⟨hl, hr, -, -, hllen, hrlen, hlt, -⟩ := hp.children hchildren
  intro a hleft hright
  have heq : left = right := eq_of_within hl hr
    (within_of_shared hl hr hleft hright (by omega))
    (within_of_shared hr hl hright hleft (by omega))
  rw [children_of_lt hlt] at hchildren
  cases hchildren
  have haligned := hp.aligned
  obtain ⟨k, hk⟩ : ∃ k, p.bits - p.prefixLen = k + 1 := ⟨p.bits - p.prefixLen - 1, by omega⟩
  rw [hk] at haligned
  have hstart : p.start = p.start ||| 2 ^ (p.bits - (p.prefixLen + 1)) := congrArg start heq
  rw [show p.bits - (p.prefixLen + 1) = k by omega, or_half haligned] at hstart
  have := Nat.two_pow_pos k
  omega

theorem start_of_within (hp : p.Valid) (hq : q.Valid) (h : p.Within q) :
    q.start ≤ p.start ∧ p.start < q.start + 2 ^ (q.bits - q.prefixLen) := by
  have hstart := (h _ hp.contains_start).2
  rw [InBlock, toNat_address hp.family hp.lt] at hstart
  have hq' := Nat.div_mul_cancel hq.aligned
  have hpos := Nat.two_pow_pos (q.bits - q.prefixLen)
  have hdiv := Nat.div_add_mod p.start (2 ^ (q.bits - q.prefixLen))
  have hmod := Nat.mod_lt p.start hpos
  rw [hstart, Nat.mul_comm, hq'] at hdiv
  omega

end Nesting

end NumericCidr

/-! ## Free prefixes -/

/-- No exclusion has an address of the prefix. -/
def Free (excludes : List NumericCidr) (p : NumericCidr) : Prop :=
  ∀ a, p.Contains a → ∀ e ∈ excludes, ¬e.Contains a

/-- The prefixes of the canonical complement. -/
structure MaximalFree (base : NumericCidr) (excludes : List NumericCidr) (p : NumericCidr) :
    Prop where
  valid : p.Valid
  within : p.Within base
  free : Free excludes p
  maximal : ∀ q : NumericCidr, q.Valid → q.Within base → Free excludes q → p.Within q → q = p

section Remainders

variable {base : NumericCidr} {excludes pieces : List NumericCidr}

theorem Remainder.within (h : Remainder base excludes pieces) (hbase : base.Valid)
    (hexcludes : ∀ e ∈ excludes, e.Valid) : ∀ p ∈ pieces, p.Within base := fun p hp a ha =>
  ((h.contains_iff hbase hexcludes a).mp ⟨p, hp, ha⟩).1

theorem Remainder.free_of_mem (h : Remainder base excludes pieces) (hbase : base.Valid)
    (hexcludes : ∀ e ∈ excludes, e.Valid) : ∀ p ∈ pieces, Free excludes p := fun p hp a ha =>
  ((h.contains_iff hbase hexcludes a).mp ⟨p, hp, ha⟩).2

/-- Nothing larger than a piece is free: a prefix that had to be split was not free itself,
and whatever else holds the piece is inside the same half. -/
theorem Remainder.maximal (h : Remainder base excludes pieces) (hbase : base.Valid)
    (hexcludes : ∀ e ∈ excludes, e.Valid) {p q : NumericCidr} (hp : p ∈ pieces) (hq : q.Valid)
    (hqbase : q.Within base) (hfree : Free excludes q) (hpq : p.Within q) : q = p := by
  induction h with
  | covered he hover hle => cases hp
  | @free base excludes hnone =>
    obtain rfl := List.mem_singleton.mp hp
    exact NumericCidr.eq_of_within hq hbase hqbase hpq
  | @split base left right e excludes ls rs he hover hlt hchildren hls hrs ihl ihr =>
    obtain ⟨hl, hr, -, -, -, -, -, hunion⟩ := hbase.children hchildren
    have hkept : ∀ e ∈ excludes.filter base.overlaps, e.Valid := fun e he =>
      hexcludes e (List.mem_filter.mp he).1
    have hfree' : Free (excludes.filter base.overlaps) q := fun a ha e he =>
      hfree a ha e (List.mem_filter.mp he).1
    have hne : q ≠ base := by
      rintro rfl
      have hin := NumericCidr.contains_of_overlaps (hexcludes e he) hq
        (NumericCidr.overlaps_comm q e ▸ hover) (Nat.le_of_lt hlt) (hexcludes e he).contains_start
      exact hfree _ hin e he (hexcludes e he).contains_start
    have hdisjoint := NumericCidr.disjoint_halves hbase hchildren
    have hhalf := NumericCidr.within_half hbase hchildren hq hqbase hne
    rcases List.mem_append.mp hp with hp | hp
    · have hstart := (hls.valid hl p hp).contains_start
      rcases hhalf with hin | hin
      · exact ihl hl hkept hp hin hfree'
      · exact absurd (hin _ (hpq _ hstart)) (hdisjoint _ (hls.within hl hkept p hp _ hstart))
    · have hstart := (hrs.valid hr p hp).contains_start
      rcases hhalf with hin | hin
      · exact absurd (hrs.within hr hkept p hp _ hstart) (hdisjoint _ (hin _ (hpq _ hstart)))
      · exact ihr hr hkept hp hin hfree'

theorem Remainder.mem_iff (h : Remainder base excludes pieces) (hbase : base.Valid)
    (hexcludes : ∀ e ∈ excludes, e.Valid) (p : NumericCidr) :
    p ∈ pieces ↔ MaximalFree base excludes p := by
  constructor
  · intro hp
    exact ⟨h.valid hbase p hp, h.within hbase hexcludes p hp, h.free_of_mem hbase hexcludes p hp,
      fun q hq hqbase hfree hpq => h.maximal hbase hexcludes hp hq hqbase hfree hpq⟩
  · intro hp
    -- a piece with the first address of `p` is within it or holds it
    have hstart := hp.valid.contains_start
    obtain ⟨r, hr, hra⟩ := (h.contains_iff hbase hexcludes _).mpr
      ⟨hp.within _ hstart, hp.free _ hstart⟩
    have hrvalid := h.valid hbase r hr
    rcases Nat.le_total r.prefixLen p.prefixLen with hle | hle
    · have hwithin := NumericCidr.within_of_shared hp.valid hrvalid hstart hra hle
      rw [← hp.maximal r hrvalid (h.within hbase hexcludes r hr)
        (h.free_of_mem hbase hexcludes r hr) hwithin]
      exact hr
    · have hwithin := NumericCidr.within_of_shared hrvalid hp.valid hra hstart hle
      rw [h.maximal hbase hexcludes hr hp.valid hp.within hp.free hwithin]
      exact hr

theorem Remainder.ordered (h : Remainder base excludes pieces) (hbase : base.Valid)
    (hexcludes : ∀ e ∈ excludes, e.Valid) :
    pieces.Pairwise fun p q => p.Disjoint q ∧ p.start < q.start := by
  induction h with
  | covered he hover hle => exact List.Pairwise.nil
  | free hnone => exact List.pairwise_singleton _ _
  | @split base left right e excludes ls rs he hover hlt hchildren hls hrs ihl ihr =>
    obtain ⟨hl, hr, -, -, -, -, hroom, -⟩ := hbase.children hchildren
    have hkept : ∀ e ∈ excludes.filter base.overlaps, e.Valid := fun e he =>
      hexcludes e (List.mem_filter.mp he).1
    have hdisjoint := NumericCidr.disjoint_halves hbase hchildren
    refine List.pairwise_append.mpr ⟨ihl hl hkept, ihr hr hkept, fun p hp q hq => ?_⟩
    have hpl := hls.within hl hkept p hp
    have hqr := hrs.within hr hkept q hq
    refine ⟨fun a ha hqa => hdisjoint a (hpl a ha) (hqr a hqa), ?_⟩
    have hbefore := (NumericCidr.start_of_within (hls.valid hl p hp) hl hpl).2
    have hafter := (NumericCidr.start_of_within (hrs.valid hr q hq) hr hqr).1
    rw [NumericCidr.children_of_lt hroom] at hchildren
    cases hchildren
    obtain ⟨k, hk⟩ : ∃ k, base.bits - base.prefixLen = k + 1 :=
      ⟨base.bits - base.prefixLen - 1, by omega⟩
    have haligned := hbase.aligned
    rw [hk] at haligned
    dsimp only at hbefore hafter
    rw [show base.bits - (base.prefixLen + 1) = k by omega] at hbefore hafter
    rw [or_half haligned] at hafter
    omega

theorem Remainder.nodup (h : Remainder base excludes pieces) (hbase : base.Valid)
    (hexcludes : ∀ e ∈ excludes, e.Valid) : pieces.Nodup := by
  refine (h.ordered hbase hexcludes).imp fun {p q} hpq => ?_
  rintro rfl
  exact Nat.lt_irrefl _ hpq.2

/-- Two halves are never both pieces: together they would be a larger free prefix. -/
theorem Remainder.not_siblings (h : Remainder base excludes pieces) (hbase : base.Valid)
    (hexcludes : ∀ e ∈ excludes, e.Valid) {p q : NumericCidr} (hp : p ∈ pieces) (hq : q ∈ pieces) :
    ¬p.Siblings q := by
  rintro ⟨r, hr, hchildren⟩
  obtain ⟨-, -, -, -, hlen, -, -, hunion⟩ := hr.children hchildren
  have hwithin : r.Within base := fun a ha =>
    ((hunion a).mp ha).elim (h.within hbase hexcludes p hp a) (h.within hbase hexcludes q hq a)
  have hfree : Free excludes r := fun a ha =>
    ((hunion a).mp ha).elim (h.free_of_mem hbase hexcludes p hp a)
      (h.free_of_mem hbase hexcludes q hq a)
  have heq := h.maximal hbase hexcludes hp hr hwithin hfree fun a ha => (hunion a).mpr (.inl ha)
  rw [heq] at hlen
  omega

/-- Only the excluded addresses matter. -/
theorem Remainder.unique {excludes' pieces' : List NumericCidr}
    (h : Remainder base excludes pieces) (h' : Remainder base excludes' pieces')
    (hbase : base.Valid) (hexcludes : ∀ e ∈ excludes, e.Valid)
    (hexcludes' : ∀ e ∈ excludes', e.Valid)
    (hunion : ∀ a, (∃ e ∈ excludes, e.Contains a) ↔ ∃ e ∈ excludes', e.Contains a) :
    pieces = pieces' := by
  have hfree : ∀ p, Free excludes p ↔ Free excludes' p := fun p => by
    have hat : ∀ a, (∀ e ∈ excludes, ¬e.Contains a) ↔ ∀ e ∈ excludes', ¬e.Contains a := fun a => by
      have := (hunion a).not
      simpa only [not_exists, not_and] using this
    exact forall_congr' fun a => imp_congr_right fun _ => hat a
  have hmax : ∀ p, MaximalFree base excludes p ↔ MaximalFree base excludes' p := fun p => by
    constructor
    · intro hp
      exact ⟨hp.valid, hp.within, (hfree p).mp hp.free, fun q hq hqb hqf hpq =>
        hp.maximal q hq hqb ((hfree q).mpr hqf) hpq⟩
    · intro hp
      exact ⟨hp.valid, hp.within, (hfree p).mpr hp.free, fun q hq hqb hqf hpq =>
        hp.maximal q hq hqb ((hfree q).mp hqf) hpq⟩
  have hperm : pieces.Perm pieces' := by
    refine (List.perm_ext_iff_of_nodup (h.nodup hbase hexcludes)
      (h'.nodup hbase hexcludes')).mpr fun p => ?_
    rw [h.mem_iff hbase hexcludes, h'.mem_iff hbase hexcludes', hmax]
  refine hperm.eq_of_pairwise (fun p q _ _ hpq hqp => ?_)
    ((h.ordered hbase hexcludes).imp And.right) ((h'.ordered hbase hexcludes').imp And.right)
  exact absurd hpq (Nat.lt_asymm hqp)

end Remainders

/-! ## The result of `subtract_cidrs` -/

/-- **Subtraction is exact and canonical.** For a valid base and valid exclusions the
recursion ends within the width of the base; a result is the list of the maximal free
prefixes, without a common address or a pair that could be merged, and has exactly the
addresses that are left; only the excluded addresses matter; and it fails exactly when the
maximal free prefixes are more than the budget. -/
theorem subtraction_canonical {base : NumericCidr} {excludes : List NumericCidr}
    (hbase : base.Valid) (hexcludes : ∀ e ∈ excludes, e.Valid) :
    (∀ depth, base.bits - base.prefixLen ≤ depth →
      subtractCidrs depth base excludes [] =
        subtractCidrs (base.bits - base.prefixLen) base excludes []) ∧
    (∀ out, subtractCidrs (base.bits - base.prefixLen) base excludes [] = .ok out →
      out.Pairwise NumericCidr.Disjoint ∧
      (∀ p ∈ out, p.Valid ∧ p.Within base) ∧
      (∀ a, (∃ p ∈ out, p.Contains a) ↔ base.Contains a ∧ ∀ e ∈ excludes, ¬e.Contains a) ∧
      (∀ p ∈ out, ∀ q ∈ out, ¬p.Siblings q) ∧
      ∀ p, p ∈ out ↔ MaximalFree base excludes p) ∧
    (∀ excludes' : List NumericCidr, (∀ e ∈ excludes', e.Valid) →
      (∀ a, (∃ e ∈ excludes, e.Contains a) ↔ ∃ e ∈ excludes', e.Contains a) →
      subtractCidrs (base.bits - base.prefixLen) base excludes [] =
        subtractCidrs (base.bits - base.prefixLen) base excludes' []) ∧
    ((∃ e, subtractCidrs (base.bits - base.prefixLen) base excludes [] = .error e) ↔
      maxRoutes < {p | MaximalFree base excludes p}.ncard) := by
  obtain ⟨pieces, hpieces, heq⟩ := exists_remainder hbase hexcludes
  have hrun := fun depth hdepth => heq depth [] hdepth (Nat.zero_le _)
  simp only [List.nil_append] at hrun
  refine ⟨fun depth hdepth => ?_, fun out hout => ?_, fun excludes' hexcludes' hunion => ?_, ?_⟩
  · rw [hrun depth hdepth, hrun _ (Nat.le_refl _)]
  · have hleft := subtractCidrs_ok hbase hexcludes hout
    exact ⟨(hleft.ordered hbase hexcludes).imp And.left,
      fun p hp => ⟨hleft.valid hbase p hp, hleft.within hbase hexcludes p hp⟩,
      hleft.contains_iff hbase hexcludes,
      fun p hp q hq => hleft.not_siblings hbase hexcludes hp hq, hleft.mem_iff hbase hexcludes⟩
  · obtain ⟨pieces', hpieces', heq'⟩ := exists_remainder hbase hexcludes'
    obtain rfl := hpieces.unique hpieces' hbase hexcludes hexcludes' hunion
    rw [heq _ [] (Nat.le_refl _) (Nat.zero_le _), heq' _ [] (Nat.le_refl _) (Nat.zero_le _)]
  · have hset : {p | MaximalFree base excludes p} = ↑pieces.toFinset := by
      ext p
      change MaximalFree base excludes p ↔ _
      rw [← hpieces.mem_iff hbase hexcludes, Finset.mem_coe, List.mem_toFinset]
    have hcard : {p | MaximalFree base excludes p}.ncard = pieces.length := by
      rw [hset, Set.ncard_coe_finset, List.toFinset_card_of_nodup (hpieces.nodup hbase hexcludes)]
    rw [hcard, hrun _ (Nat.le_refl _)]
    by_cases hfull : maxRoutes < pieces.length
    · rw [if_pos hfull]
      exact iff_of_true ⟨_, rfl⟩ hfull
    · rw [if_neg hfull]
      refine iff_of_false ?_ hfull
      rintro ⟨e, he⟩
      cases he

/-- Excluding one /31 from a /29 leaves a /31 and a /30. -/
theorem subtraction_canonical_office :
    subtractCidrs 3 ⟨8, 29, 32⟩ [⟨10, 31, 32⟩] [] = .ok [⟨8, 31, 32⟩, ⟨12, 30, 32⟩] ∧
      ∀ p, p ∈ [(⟨8, 31, 32⟩ : NumericCidr), ⟨12, 30, 32⟩] ↔
        MaximalFree ⟨8, 29, 32⟩ [⟨10, 31, 32⟩] p := by
  have hbase : (NumericCidr.mk 8 29 32).Valid :=
    ⟨.inl rfl, by decide, by decide, by decide⟩
  have hexcludes : ∀ e ∈ [NumericCidr.mk 10 31 32], e.Valid := by
    intro e he
    rw [List.mem_singleton.mp he]
    exact ⟨.inl rfl, by decide, by decide, by decide⟩
  have hrun : subtractCidrs 3 ⟨8, 29, 32⟩ [⟨10, 31, 32⟩] [] =
      .ok [⟨8, 31, 32⟩, ⟨12, 30, 32⟩] := by decide +kernel
  obtain ⟨-, hout, -, -⟩ := subtraction_canonical hbase hexcludes
  exact ⟨hrun, (hout _ hrun).2.2.2.2⟩

end Qeli.Route
