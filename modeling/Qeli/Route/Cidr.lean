import Qeli.Lib.Blocks

/-!
# Numeric CIDRs

`NumericCidr` of `transport_core/network.rs`: prefixes of both address families as numbers,
the subtraction of a set of prefixes from one, and the test whether prefixes cover one.
The parsers and printers of the standard library, of `ipnet` and of `serde_json` are the
parameter `NetText`.
-/

namespace Qeli.Route

open Qeli.Lib

inductive IpAddr where
  | v4 (value : BitVec 32)
  | v6 (value : BitVec 128)
  deriving DecidableEq, Repr

def IpAddr.isIpv4 : IpAddr → Bool
  | .v4 _ => true
  | .v6 _ => false

def IpAddr.bits : IpAddr → Nat
  | .v4 _ => 32
  | .v6 _ => 128

def IpAddr.toNat : IpAddr → Nat
  | .v4 value => value.toNat
  | .v6 value => value.toNat

/-- `ipnet::IpNet`: an address with a prefix length of its family. -/
structure IpNet where
  addr : IpAddr
  prefixLen : Nat
  le : prefixLen ≤ addr.bits
  deriving DecidableEq, Repr

def IpNet.network (self : IpNet) : Nat :=
  self.addr.toNat >>> (self.addr.bits - self.prefixLen) <<< (self.addr.bits - self.prefixLen)

def IpNet.contains (self : IpNet) (address : IpAddr) : Bool :=
  self.addr.bits == address.bits &&
    address.toNat >>> (self.addr.bits - self.prefixLen) ==
      self.addr.toNat >>> (self.addr.bits - self.prefixLen)

/-- A route as the server's JSON has it. -/
structure PushedRoute where
  cidr : String
  gateway : Option String
  metric : Option Nat
  deriving DecidableEq, Repr

/-- The text functions of the libraries. -/
structure NetText where
  trim : String → String
  parseIp : String → Option IpAddr
  parseNet : String → Option IpNet
  parseU8 : String → Option Nat
  parseU16 : String → Option Nat
  /-- `format!("{address}/{prefix}")`. -/
  displayNet : IpAddr → Nat → String
  /-- `serde_json::from_str`, with the text of its error. -/
  parseRoutes : String → Except String (List PushedRoute)

structure NumericCidr where
  start : Nat
  prefixLen : Nat
  bits : Nat
  deriving DecidableEq, Repr

namespace NumericCidr

def ofNet (network : IpNet) : NumericCidr where
  start := network.network
  prefixLen := network.prefixLen
  bits := network.addr.bits

def parse (text : NetText) (cidr : String) : Except String NumericCidr :=
  match text.parseNet cidr with
  | none => .error s!"invalid route CIDR '{cidr}'"
  | some network => .ok (ofNet network)

def overlaps (self other : NumericCidr) : Bool :=
  if self.bits ≠ other.bits then false
  else
    let common := min self.prefixLen other.prefixLen
    common == 0 ||
      self.start >>> (self.bits - common) == other.start >>> (other.bits - common)

def children (self : NumericCidr) : Option (NumericCidr × NumericCidr) :=
  if self.bits ≤ self.prefixLen then none
  else
    let prefixLen := self.prefixLen + 1
    let half := 1 <<< (self.bits - prefixLen)
    some ({ self with prefixLen }, { start := self.start ||| half, prefixLen, bits := self.bits })

def render (text : NetText) (self : NumericCidr) : String :=
  if self.bits = 32 then text.displayNet (.v4 (.ofNat 32 self.start)) self.prefixLen
  else text.displayNet (.v6 (.ofNat 128 self.start)) self.prefixLen

end NumericCidr

/-- `depth` more halvings are possible. -/
def cidrsCover : Nat → NumericCidr → List NumericCidr → Bool
  | depth, base, candidates =>
    let overlapping := candidates.filter fun candidate =>
      candidate.bits == base.bits && candidate.overlaps base
    if overlapping.isEmpty then false
    else if overlapping.any fun candidate => candidate.prefixLen ≤ base.prefixLen then true
    else
      match depth, base.children with
      | depth + 1, some (left, right) =>
        cidrsCover depth left overlapping && cidrsCover depth right overlapping
      | _, _ => false

def maxRoutes : Nat := 256

def tooManyRoutes : String := s!"route exclusions expand the NetworkPlan beyond {maxRoutes} routes"

/-- What is left of `base`, behind `output`; `depth` more halvings are possible. -/
def subtractCidrs : Nat → NumericCidr → List NumericCidr → List NumericCidr →
    Except String (List NumericCidr)
  | depth, base, excludes, output =>
    let overlapping := excludes.filter base.overlaps
    if overlapping.any fun excluded => excluded.prefixLen ≤ base.prefixLen then .ok output
    else if overlapping.isEmpty then
      let output := output ++ [base]
      if maxRoutes < output.length then .error tooManyRoutes else .ok output
    else
      match depth, base.children with
      | depth + 1, some (left, right) =>
        match subtractCidrs depth left overlapping output with
        | .error error => .error error
        | .ok output => subtractCidrs depth right overlapping output
      | _, _ => .ok output

def cidrMinusExcludes (text : NetText) (cidr : String) (excludes : List NumericCidr) :
    Except String (List NumericCidr) := do
  let base ← NumericCidr.parse text cidr
  subtractCidrs (base.bits - base.prefixLen) base excludes []

/-! ## Addresses of a prefix -/

namespace NumericCidr

/-- What parsing gives: the first address of a prefix of a family. -/
structure Valid (c : NumericCidr) : Prop where
  family : c.bits = 32 ∨ c.bits = 128
  prefixLe : c.prefixLen ≤ c.bits
  lt : c.start < 2 ^ c.bits
  aligned : 2 ^ (c.bits - c.prefixLen) ∣ c.start

def Contains (c : NumericCidr) (a : IpAddr) : Prop :=
  c.bits = a.bits ∧ InBlock c.bits c.start c.prefixLen a.toNat

theorem toNat_lt (a : IpAddr) : a.toNat < 2 ^ a.bits := by
  cases a with
  | v4 value | v6 value => exact value.isLt

theorem bits_cases (a : IpAddr) : a.bits = 32 ∨ a.bits = 128 := by
  cases a with
  | v4 value => exact .inl rfl
  | v6 value => exact .inr rfl

/-- The address with a number that fits the family. -/
def address (bits value : Nat) : IpAddr :=
  if bits = 32 then .v4 (.ofNat 32 value) else .v6 (.ofNat 128 value)

theorem bits_address {bits : Nat} (h : bits = 32 ∨ bits = 128) (value : Nat) :
    (address bits value).bits = bits := by
  rcases h with rfl | rfl
  · rfl
  · rfl

theorem toNat_address {bits value : Nat} (h : bits = 32 ∨ bits = 128) (hlt : value < 2 ^ bits) :
    (address bits value).toNat = value := by
  rcases h with rfl | rfl
  · exact Nat.mod_eq_of_lt hlt
  · exact Nat.mod_eq_of_lt hlt

theorem Valid.contains_start {c : NumericCidr} (h : c.Valid) : c.Contains (address c.bits c.start) := by
  refine ⟨(bits_address h.family _).symm, ?_⟩
  rw [toNat_address h.family h.lt]
  exact rfl

theorem valid_ofNet (network : IpNet) : (ofNet network).Valid where
  family := bits_cases network.addr
  prefixLe := network.le
  lt := by
    have hle : network.network ≤ network.addr.toNat := by
      rw [IpNet.network, Nat.shiftRight_eq_div_pow, Nat.shiftLeft_eq]
      exact Nat.div_mul_le_self _ _
    exact Nat.lt_of_le_of_lt hle (toNat_lt network.addr)
  aligned := by
    change 2 ^ _ ∣ network.network
    rw [IpNet.network, Nat.shiftLeft_eq]
    exact Dvd.intro_left _ rfl

theorem contains_ofNet (network : IpNet) (a : IpAddr) :
    (ofNet network).Contains a ↔ network.contains a = true := by
  have hstart : network.network / 2 ^ (network.addr.bits - network.prefixLen) =
      network.addr.toNat / 2 ^ (network.addr.bits - network.prefixLen) := by
    rw [IpNet.network, Nat.shiftRight_eq_div_pow, Nat.shiftLeft_eq,
      Nat.mul_div_cancel _ (Nat.two_pow_pos _)]
  simp only [Contains, InBlock, ofNet, hstart, IpNet.contains, Bool.and_eq_true, beq_iff_eq,
    Nat.shiftRight_eq_div_pow]

/-! ## Overlaps -/

section Overlaps

variable {c d : NumericCidr} {a : IpAddr}

theorem overlaps_comm (c d : NumericCidr) : c.overlaps d = d.overlaps c := by
  unfold overlaps
  by_cases h : c.bits = d.bits
  · rw [if_neg (not_not.mpr h), if_neg (not_not.mpr h.symm), Nat.min_comm, h]
    exact congrArg (_ || ·) BEq.comm
  · rw [if_pos h, if_pos (Ne.symm h)]

theorem bits_eq_of_overlaps (h : c.overlaps d = true) : c.bits = d.bits := by
  by_contra hne
  rw [overlaps, if_pos hne] at h
  cases h

theorem not_contains_of_overlaps (h : c.overlaps d = false) (hc : c.Contains a) : ¬d.Contains a := by
  intro hd
  have hbits : c.bits = d.bits := hc.1.trans hd.1.symm
  have hagree := hc.2.agree (hbits ▸ hd.2)
  unfold overlaps at h
  rw [if_neg (not_not.mpr hbits)] at h
  simp only [Bool.or_eq_false_iff, beq_eq_false_iff_ne, Nat.shiftRight_eq_div_pow, ← hbits] at h
  exact h.2 (Eq.symm hagree)

theorem contains_of_overlaps (hc : c.Valid) (hd : d.Valid) (h : c.overlaps d = true)
    (hle : d.prefixLen ≤ c.prefixLen) (ha : c.Contains a) : d.Contains a := by
  unfold overlaps at h
  by_cases hbits : c.bits = d.bits
  · rw [if_neg (not_not.mpr hbits), Nat.min_eq_right hle] at h
    have hagree : InBlock c.bits d.start d.prefixLen c.start := by
      simp only [Bool.or_eq_true, beq_iff_eq, Nat.shiftRight_eq_div_pow, ← hbits] at h
      rcases h with hzero | hsame
      · rw [hzero]
        exact inBlock_zero (hbits ▸ hd.lt) hc.lt
      · exact hsame
    refine ⟨hbits ▸ ha.1, ?_⟩
    rw [← hbits]
    exact hagree.trans (ha.2.mono hle)
  · rw [if_pos hbits] at h
    cases h

end Overlaps

/-! ## Halves -/

theorem children_of_lt {c : NumericCidr} (h : c.prefixLen < c.bits) :
    c.children = some ({ c with prefixLen := c.prefixLen + 1 },
      { start := c.start ||| 2 ^ (c.bits - (c.prefixLen + 1)), prefixLen := c.prefixLen + 1,
        bits := c.bits }) := by
  rw [children, if_neg (Nat.not_le.mpr h)]
  simp only [Nat.shiftLeft_eq, Nat.one_mul]

theorem Valid.children {c left right : NumericCidr} (hc : c.Valid)
    (h : c.children = some (left, right)) :
    left.Valid ∧ right.Valid ∧ left.bits = c.bits ∧ right.bits = c.bits ∧
      left.prefixLen = c.prefixLen + 1 ∧ right.prefixLen = c.prefixLen + 1 ∧
      c.prefixLen < c.bits ∧
      ∀ a, c.Contains a ↔ left.Contains a ∨ right.Contains a := by
  have hlt : c.prefixLen < c.bits := by
    by_contra hge
    rw [NumericCidr.children, if_pos (Nat.not_lt.mp hge)] at h
    cases h
  rw [children_of_lt hlt] at h
  cases h
  obtain ⟨k, hk⟩ : ∃ k, c.bits - c.prefixLen = k + 1 := ⟨c.bits - c.prefixLen - 1, by omega⟩
  have hk' : c.bits - (c.prefixLen + 1) = k := by omega
  have haligned := hc.aligned
  rw [hk] at haligned
  have hdvd : 2 ^ k ∣ 2 ^ (k + 1) := Nat.pow_dvd_pow _ (by omega)
  refine ⟨⟨hc.family, hlt, hc.lt, ?_⟩, ⟨hc.family, hlt, ?_, ?_⟩, rfl, rfl, rfl, rfl, hlt,
    fun a => ?_⟩
  · rw [hk']
    exact hdvd.trans haligned
  · have hhalf : c.bits - (c.prefixLen + 1) < c.bits := by omega
    exact Nat.or_lt_two_pow hc.lt (Nat.pow_lt_pow_right (by omega) hhalf)
  · dsimp only
    rw [hk', or_half haligned]
    exact Nat.dvd_add (hdvd.trans haligned) (Nat.dvd_refl _)
  · simp only [Contains, inBlock_halves hlt hc.aligned, and_or_left]

end NumericCidr

/-! ## Subtraction -/

/-- What the recursion emits, the budget apart: nothing of an excluded prefix, all of a free
one, and otherwise what is left of the two halves. -/
inductive Remainder : NumericCidr → List NumericCidr → List NumericCidr → Prop where
  | covered {base e : NumericCidr} {excludes : List NumericCidr} (he : e ∈ excludes)
      (hover : base.overlaps e = true) (hle : e.prefixLen ≤ base.prefixLen) :
      Remainder base excludes []
  | free {base : NumericCidr} {excludes : List NumericCidr}
      (hnone : ∀ e ∈ excludes, base.overlaps e = false) : Remainder base excludes [base]
  | split {base left right e : NumericCidr} {excludes ls rs : List NumericCidr} (he : e ∈ excludes)
      (hover : base.overlaps e = true) (hlt : base.prefixLen < e.prefixLen)
      (hchildren : base.children = some (left, right))
      (hleft : Remainder left (excludes.filter base.overlaps) ls)
      (hright : Remainder right (excludes.filter base.overlaps) rs) :
      Remainder base excludes (ls ++ rs)

section Subtraction

variable {depth : Nat} {base : NumericCidr} {excludes output : List NumericCidr}

theorem subtractCidrs_covered {e : NumericCidr} (he : e ∈ excludes)
    (hover : base.overlaps e = true) (hle : e.prefixLen ≤ base.prefixLen) :
    subtractCidrs depth base excludes output = .ok output := by
  rw [subtractCidrs.eq_def]
  exact if_pos (List.any_eq_true.mpr ⟨e, List.mem_filter.mpr ⟨he, hover⟩, decide_eq_true hle⟩)

theorem subtractCidrs_free (hnone : ∀ e ∈ excludes, base.overlaps e = false) :
    subtractCidrs depth base excludes output =
      if maxRoutes < (output ++ [base]).length then .error tooManyRoutes
      else .ok (output ++ [base]) := by
  have hempty : excludes.filter base.overlaps = [] :=
    List.filter_eq_nil_iff.mpr fun e he => by simp [hnone e he]
  rw [subtractCidrs.eq_def]
  dsimp only
  rw [hempty]
  rfl

theorem subtractCidrs_split {left right e : NumericCidr} (he : e ∈ excludes)
    (hover : base.overlaps e = true)
    (hlonger : ∀ e ∈ excludes, base.overlaps e = true → base.prefixLen < e.prefixLen)
    (hchildren : base.children = some (left, right)) :
    subtractCidrs (depth + 1) base excludes output =
      subtractCidrs depth left (excludes.filter base.overlaps) output >>=
        subtractCidrs depth right (excludes.filter base.overlaps) := by
  have hany : ¬((excludes.filter base.overlaps).any fun e =>
      decide (e.prefixLen ≤ base.prefixLen)) = true := by
    rw [List.any_eq_true]
    rintro ⟨e, he, hle⟩
    obtain ⟨hin, hover⟩ := List.mem_filter.mp he
    have := hlonger e hin hover
    have := of_decide_eq_true hle
    omega
  have hsome : ¬(excludes.filter base.overlaps).isEmpty = true := by
    rw [List.isEmpty_iff]
    exact List.ne_nil_of_mem (List.mem_filter.mpr ⟨he, hover⟩)
  rw [subtractCidrs.eq_def]
  dsimp only
  rw [if_neg hany, if_neg hsome, hchildren]
  dsimp only
  cases subtractCidrs depth left (excludes.filter base.overlaps) output with
  | error error | ok output => rfl

/-- The recursion ends within the width that is left, whatever depth it is given, and fails
only when all that is left exceeds the budget. -/
theorem exists_remainder (hbase : base.Valid) (hexcludes : ∀ e ∈ excludes, e.Valid) :
    ∃ pieces, Remainder base excludes pieces ∧
      ∀ depth output, base.bits - base.prefixLen ≤ depth → output.length ≤ maxRoutes →
        subtractCidrs depth base excludes output =
          if maxRoutes < (output ++ pieces).length then .error tooManyRoutes
          else .ok (output ++ pieces) := by
  generalize hn : base.bits - base.prefixLen = n
  induction n using Nat.strong_induction_on generalizing base excludes with
  | _ n ih =>
    by_cases hcovered : ∃ e ∈ excludes, base.overlaps e = true ∧ e.prefixLen ≤ base.prefixLen
    · obtain ⟨e, he, hover, hle⟩ := hcovered
      refine ⟨[], .covered he hover hle, fun depth output _ hroom => ?_⟩
      rw [subtractCidrs_covered he hover hle, List.append_nil, if_neg (Nat.not_lt.mpr hroom)]
    by_cases hfree : ∀ e ∈ excludes, base.overlaps e = false
    · exact ⟨[base], .free hfree, fun depth output _ _ => subtractCidrs_free hfree⟩
    simp only [not_forall, Bool.not_eq_false] at hfree
    obtain ⟨e, he, hover⟩ := hfree
    have hlonger : ∀ e ∈ excludes, base.overlaps e = true → base.prefixLen < e.prefixLen :=
      fun e he hover => Nat.not_le.mp fun hle => hcovered ⟨e, he, hover, hle⟩
    -- an exclusion inside `base` leaves room to halve it
    have hlt := hlonger e he hover
    have hbits := NumericCidr.bits_eq_of_overlaps hover
    have hle := (hexcludes e he).prefixLe
    have hchildren := @NumericCidr.children_of_lt base (by omega)
    obtain ⟨hl, hr, hlbits, hrbits, hllen, hrlen, -, -⟩ := hbase.children hchildren
    have hkept : ∀ e ∈ excludes.filter base.overlaps, e.Valid := fun e he =>
      hexcludes e (List.mem_filter.mp he).1
    obtain ⟨ls, hls, hleft⟩ := ih (n - 1) (by omega) hl hkept (by omega)
    obtain ⟨rs, hrs, hright⟩ := ih (n - 1) (by omega) hr hkept (by omega)
    refine ⟨ls ++ rs, .split he hover hlt hchildren hls hrs, fun depth output hdepth hroom => ?_⟩
    obtain ⟨d, rfl⟩ : ∃ d, depth = d + 1 := ⟨depth - 1, by omega⟩
    rw [subtractCidrs_split he hover hlonger hchildren, hleft d output (by omega) hroom]
    by_cases hfull : maxRoutes < (output ++ ls).length
    · have hfull' : maxRoutes < (output ++ (ls ++ rs)).length := by
        simp only [List.length_append] at *
        omega
      rw [if_pos hfull, if_pos hfull']
      rfl
    · rw [if_neg hfull, ← List.append_assoc]
      exact hright d (output ++ ls) (by omega) (Nat.not_lt.mp hfull)

theorem Remainder.valid {pieces : List NumericCidr} (h : Remainder base excludes pieces)
    (hbase : base.Valid) : ∀ piece ∈ pieces, piece.Valid := by
  induction h with
  | covered he hover hle => simp
  | free hnone => simpa using hbase
  | split he hover hlt hchildren _ _ ihl ihr =>
    obtain ⟨hl, hr, -⟩ := hbase.children hchildren
    intro piece hpiece
    exact (List.mem_append.mp hpiece).elim (ihl hl piece) (ihr hr piece)

/-- What is left of `base` is what no exclusion has. Exclusions that do not overlap `base`
matter to neither half, so dropping them on the way down changes nothing. -/
theorem Remainder.contains_iff {pieces : List NumericCidr} (h : Remainder base excludes pieces)
    (hbase : base.Valid) (hexcludes : ∀ e ∈ excludes, e.Valid) (a : IpAddr) :
    (∃ piece ∈ pieces, piece.Contains a) ↔
      base.Contains a ∧ ∀ e ∈ excludes, ¬e.Contains a := by
  induction h with
  | @covered base e excludes he hover hle =>
    simp only [List.not_mem_nil, false_and, exists_false, false_iff, not_and, not_forall,
      not_not]
    exact fun ha => ⟨e, he, NumericCidr.contains_of_overlaps hbase (hexcludes e he) hover hle ha⟩
  | @free base excludes hnone =>
    simp only [List.mem_singleton, exists_eq_left]
    exact ⟨fun ha => ⟨ha, fun e he => NumericCidr.not_contains_of_overlaps (hnone e he) ha⟩,
      fun ha => ha.1⟩
  | @split base left right e excludes ls rs he hover hlt hchildren _ _ ihl ihr =>
    obtain ⟨hl, hr, -, -, -, -, -, hunion⟩ := hbase.children hchildren
    have hkept : ∀ e ∈ excludes.filter base.overlaps, e.Valid := fun e he =>
      hexcludes e (List.mem_filter.mp he).1
    have hdrop : base.Contains a → ((∀ e ∈ excludes.filter base.overlaps, ¬e.Contains a) ↔
        ∀ e ∈ excludes, ¬e.Contains a) := fun ha => by
      refine ⟨fun hfilter e he => ?_, fun hall e he => hall e (List.mem_filter.mp he).1⟩
      cases hover : base.overlaps e with
      | false => exact NumericCidr.not_contains_of_overlaps hover ha
      | true => exact hfilter e (List.mem_filter.mpr ⟨he, hover⟩)
    have hboth : (∃ piece ∈ ls ++ rs, piece.Contains a) ↔
        (∃ piece ∈ ls, piece.Contains a) ∨ ∃ piece ∈ rs, piece.Contains a := by
      simp only [List.mem_append, or_and_right, exists_or]
    rw [hboth, ihl hl hkept, ihr hr hkept, ← or_and_right, ← hunion]
    exact and_congr_right hdrop

theorem subtractCidrs_ok {out : List NumericCidr} (hbase : base.Valid)
    (hexcludes : ∀ e ∈ excludes, e.Valid)
    (h : subtractCidrs (base.bits - base.prefixLen) base excludes [] = .ok out) :
    Remainder base excludes out := by
  obtain ⟨pieces, hpieces, heq⟩ := exists_remainder hbase hexcludes
  rw [heq _ [] (Nat.le_refl _) (Nat.zero_le _), List.nil_append] at h
  split at h
  · cases h
  · cases h
    exact hpieces

end Subtraction

/-! ## Coverage -/

theorem cidrsCover_iff {depth : Nat} {base : NumericCidr} {candidates : List NumericCidr}
    (hbase : base.Valid) (hcandidates : ∀ c ∈ candidates, c.Valid)
    (hdepth : base.bits - base.prefixLen ≤ depth) :
    cidrsCover depth base candidates = true ↔
      ∀ a, base.Contains a → ∃ c ∈ candidates, c.Contains a := by
  induction depth using Nat.strong_induction_on generalizing base candidates with
  | _ depth ih =>
    set overlapping := candidates.filter fun c => c.bits == base.bits && c.overlaps base
      with hoverlapping
    have hmem : ∀ c ∈ overlapping, c ∈ candidates ∧ base.overlaps c = true := fun c hc => by
      obtain ⟨hin, hboth⟩ := List.mem_filter.mp hc
      rw [Bool.and_eq_true, NumericCidr.overlaps_comm] at hboth
      exact ⟨hin, hboth.2⟩
    -- candidates that do not overlap `base` have none of its addresses
    have hkept : ∀ a, base.Contains a →
        ((∃ c ∈ candidates, c.Contains a) ↔ ∃ c ∈ overlapping, c.Contains a) := fun a ha => by
      refine ⟨fun hcovered => ?_, fun hcovered => ?_⟩
      · obtain ⟨c, hc, hca⟩ := hcovered
        have hover : base.overlaps c = true := by
          by_contra hnot
          exact NumericCidr.not_contains_of_overlaps (Bool.eq_false_iff.mpr hnot) ha hca
        have hbits := NumericCidr.bits_eq_of_overlaps hover
        refine ⟨c, List.mem_filter.mpr ⟨hc, ?_⟩, hca⟩
        rw [NumericCidr.overlaps_comm, hover, hbits, beq_self_eq_true, Bool.and_true]
      · obtain ⟨c, hc, hca⟩ := hcovered
        exact ⟨c, (hmem c hc).1, hca⟩
    rw [cidrsCover.eq_def]
    dsimp only
    rw [← hoverlapping]
    split
    · next hempty =>
      refine iff_of_false Bool.false_ne_true fun hall => ?_
      obtain ⟨c, hc, -⟩ := (hkept _ hbase.contains_start).mp (hall _ hbase.contains_start)
      rw [List.isEmpty_iff.mp hempty] at hc
      cases hc
    · next hsome =>
      split
      · next hany =>
        obtain ⟨c, hc, hle⟩ := List.any_eq_true.mp hany
        obtain ⟨hin, hover⟩ := hmem c hc
        refine iff_of_true rfl fun a ha => ⟨c, hin, ?_⟩
        exact NumericCidr.contains_of_overlaps hbase (hcandidates c hin) hover
          (of_decide_eq_true hle) ha
      · next hlonger =>
        -- a candidate inside `base` leaves room to halve it
        obtain ⟨c, hc⟩ := List.exists_mem_of_ne_nil _ (List.isEmpty_iff.not.mp hsome)
        obtain ⟨hin, hover⟩ := hmem c hc
        have hlt : base.prefixLen < c.prefixLen := by
          by_contra hle
          exact hlonger (List.any_eq_true.mpr ⟨c, hc, decide_eq_true (Nat.not_lt.mp hle)⟩)
        have hbits := NumericCidr.bits_eq_of_overlaps hover
        have hcle := (hcandidates c hin).prefixLe
        have hchildren := @NumericCidr.children_of_lt base (by omega)
        obtain ⟨d, rfl⟩ : ∃ d, depth = d + 1 := ⟨depth - 1, by omega⟩
        obtain ⟨hl, hr, hlbits, hrbits, hllen, hrlen, -, hunion⟩ := hbase.children hchildren
        have hvalid : ∀ c ∈ overlapping, c.Valid := fun c hc => hcandidates c (hmem c hc).1
        rw [hchildren]
        dsimp only
        rw [Bool.and_eq_true, ih d (Nat.lt_succ_self d) hl hvalid (by omega),
          ih d (Nat.lt_succ_self d) hr hvalid (by omega)]
        constructor
        · rintro ⟨hleft, hright⟩ a ha
          exact (hkept a ha).mpr (((hunion a).mp ha).elim (hleft a) (hright a))
        · intro hall
          refine ⟨fun a ha => ?_, fun a ha => ?_⟩
          · have hb := (hunion a).mpr (.inl ha)
            exact (hkept a hb).mp (hall a hb)
          · have hb := (hunion a).mpr (.inr ha)
            exact (hkept a hb).mp (hall a hb)

end Qeli.Route
