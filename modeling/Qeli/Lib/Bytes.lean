import Mathlib.Data.List.Induction
import Mathlib.Tactic.Ring

/-!
# Fixed-width integers as bytes and as bounded naturals

Machine integers are naturals here; `checkedAdd max` and `saturatingAdd max` are
the additions of an integer type whose largest value is `max`. `beBytes n x`
writes `x` as `n` big-endian bytes and `ofBE` reads them back; on values below
`256 ^ n` the two are inverse. `leBytes` and `ofLE` are the little-endian pair.
-/

namespace Qeli.Lib

/-! ## Bounded arithmetic -/

/-- The largest `u64`, and the largest `usize` of a 64-bit target. -/
def u64Max : Nat := 2 ^ 64 - 1

def u16Max : Nat := 2 ^ 16 - 1

def checkedAdd (max a b : Nat) : Option Nat := if a + b ≤ max then some (a + b) else none

def saturatingAdd (max a b : Nat) : Nat := min (a + b) max

variable {max a b x n start : Nat} {α : Type*}

theorem checkedAdd_eq_some {c : Nat} : checkedAdd max a b = some c ↔ a + b ≤ max ∧ c = a + b := by
  unfold checkedAdd
  split
  · next h => simp [h, eq_comm]
  · next h => simp [h]

theorem checkedAdd_eq_none : checkedAdd max a b = none ↔ max < a + b := by
  unfold checkedAdd
  split <;> simp <;> omega

theorem saturatingAdd_eq (h : a + b ≤ max) : saturatingAdd max a b = a + b :=
  Nat.min_eq_left h

/-! ## High and low bits -/

/-- The `w`-bit mask of all bits from `s` up. -/
def highMask (w s : Nat) : Nat := (2 ^ w - 1) <<< s % 2 ^ w

theorem and_highMask {w : Nat} (s : Nat) (hx : x < 2 ^ w) :
    x &&& highMask w s = x / 2 ^ s * 2 ^ s := by
  refine Nat.eq_of_testBit_eq fun i => ?_
  have hhigh : w ≤ i → x.testBit i = false := fun hi =>
    Nat.testBit_lt_two_pow (Nat.lt_of_lt_of_le hx (Nat.pow_le_pow_right (by omega) hi))
  rw [highMask, Nat.testBit_and, Nat.testBit_mod_two_pow, Nat.testBit_shiftLeft,
    Nat.testBit_two_pow_sub_one, Nat.testBit_mul_two_pow, Nat.testBit_div_two_pow]
  by_cases hs : s ≤ i
  · by_cases hw : i < w
    · simp [hs, hw, show i - s < w by omega, Nat.sub_add_cancel hs]
    · simp [hs, hw, Nat.sub_add_cancel hs, hhigh (by omega)]
  · simp [hs]

theorem highMask_eq {w s : Nat} (hs : s ≤ w) : highMask w s = 2 ^ w - 2 ^ s := by
  have hle : 2 ^ s ≤ 2 ^ w := Nat.pow_le_pow_right (by omega) hs
  have hpos := Nat.two_pow_pos s
  have hsplit : (2 ^ w - 1) * 2 ^ s = (2 ^ w - 2 ^ s) + 2 ^ w * (2 ^ s - 1) := by
    rw [Nat.sub_one_mul, Nat.mul_sub_one]
    have hge : 2 ^ w ≤ 2 ^ w * 2 ^ s := Nat.le_mul_of_pos_right _ hpos
    omega
  rw [highMask, Nat.shiftLeft_eq, hsplit, Nat.add_mul_mod_self_left]
  exact Nat.mod_eq_of_lt (by omega)

theorem ones_shiftRight (w s : Nat) : (2 ^ w - 1) >>> s = 2 ^ (w - s) - 1 := by
  refine Nat.eq_of_testBit_eq fun i => ?_
  rw [Nat.testBit_shiftRight, Nat.testBit_two_pow_sub_one, Nat.testBit_two_pow_sub_one]
  exact decide_eq_decide.mpr (by omega)

theorem mul_two_pow_or {s y : Nat} (q : Nat) (hy : y < 2 ^ s) :
    q * 2 ^ s ||| y = q * 2 ^ s + y := by
  rw [Nat.mul_comm, Nat.two_pow_add_eq_or_of_lt hy]

/-! ## Big-endian bytes -/

def beBytes : Nat → Nat → List UInt8
  | 0, _ => []
  | n + 1, x => UInt8.ofNat (x / 256 ^ n) :: beBytes n x

def ofBE (l : List UInt8) : Nat := l.foldl (fun acc b => acc * 256 + b.toNat) 0

@[simp] theorem length_beBytes (n x : Nat) : (beBytes n x).length = n := by
  induction n with
  | zero => rfl
  | succ n ih => simp [beBytes, ih]

theorem foldl_beBytes (n x acc : Nat) :
    (beBytes n x).foldl (fun acc b => acc * 256 + b.toNat) acc = acc * 256 ^ n + x % 256 ^ n := by
  induction n generalizing acc with
  | zero => simp [beBytes, Nat.mod_one]
  | succ n ih =>
    have hb : (UInt8.ofNat (x / 256 ^ n)).toNat = x / 256 ^ n % 256 := UInt8.toNat_ofNat'
    simp only [beBytes, List.foldl_cons, ih, hb]
    have h : x % 256 ^ (n + 1) = x / 256 ^ n % 256 * 256 ^ n + x % 256 ^ n := by
      rw [Nat.pow_succ, Nat.mod_mul, Nat.add_comm, Nat.mul_comm]
    rw [h, Nat.pow_succ]
    ring

theorem ofBE_beBytes_mod (n x : Nat) : ofBE (beBytes n x) = x % 256 ^ n := by
  simpa [ofBE] using foldl_beBytes n x 0

theorem ofBE_beBytes (h : x < 256 ^ n) : ofBE (beBytes n x) = x := by
  rw [ofBE_beBytes_mod, Nat.mod_eq_of_lt h]

theorem ofBE_append (l l' : List UInt8) : ofBE (l ++ l') = ofBE l * 256 ^ l'.length + ofBE l' := by
  induction l' using List.reverseRecOn with
  | nil => simp [ofBE]
  | append_singleton l' b ih =>
    have hsnoc : ∀ m : List UInt8, ofBE (m ++ [b]) = ofBE m * 256 + b.toNat := fun m => by
      simp [ofBE]
    rw [← List.append_assoc, hsnoc, hsnoc, ih, List.length_append, Nat.pow_add]
    simp only [List.length_cons, List.length_nil]
    ring

theorem ofBE_lt (l : List UInt8) : ofBE l < 256 ^ l.length := by
  induction l using List.reverseRecOn with
  | nil => simp [ofBE]
  | append_singleton l b ih =>
    have hb : ofBE [b] < 256 := by simpa [ofBE] using b.toNat_lt
    rw [ofBE_append, List.length_append, Nat.pow_add]
    simp only [List.length_cons, List.length_nil]
    omega

theorem beBytes_inj {y : Nat} (hx : x < 256 ^ n) (hy : y < 256 ^ n) (h : beBytes n x = beBytes n y) :
    x = y := by
  rw [← ofBE_beBytes hx, h, ofBE_beBytes hy]

theorem mul_add_inj {q r q' r' : Nat} (hr : r < n) (hr' : r' < n) (h : q * n + r = q' * n + r') :
    q = q' ∧ r = r' := by
  have hn : 0 < n := by omega
  have hmod : r = r' := by
    simpa [Nat.mod_eq_of_lt hr, Nat.mod_eq_of_lt hr', Nat.add_mod]
      using congrArg (· % n) h
  exact ⟨Nat.eq_of_mul_eq_mul_right hn (by omega), hmod⟩

theorem ofBE_cons (b : UInt8) (l : List UInt8) :
    ofBE (b :: l) = b.toNat * 256 ^ l.length + ofBE l := by
  simpa [ofBE] using ofBE_append [b] l

theorem ofBE_inj {l l' : List UInt8} (hlen : l.length = l'.length) (h : ofBE l = ofBE l') :
    l = l' := by
  induction l generalizing l' with
  | nil => exact (List.length_eq_zero_iff.mp hlen.symm).symm
  | cons b l ih =>
    obtain _ | ⟨b', l'⟩ := l'
    · cases hlen
    have hlen' : l.length = l'.length := Nat.succ.inj hlen
    rw [ofBE_cons, ofBE_cons, ← hlen'] at h
    have hl' : ofBE l' < 256 ^ l.length := hlen' ▸ ofBE_lt l'
    obtain ⟨hb, hl⟩ := mul_add_inj (ofBE_lt l) hl' h
    rw [UInt8.toNat_inj.mp hb, ih hlen' hl]

/-! ## Little-endian bytes -/

def leBytes (n x : Nat) : List UInt8 := (beBytes n x).reverse

def ofLE (l : List UInt8) : Nat := ofBE l.reverse

@[simp] theorem length_leBytes (n x : Nat) : (leBytes n x).length = n := by simp [leBytes]

theorem ofLE_leBytes (h : x < 256 ^ n) : ofLE (leBytes n x) = x := by
  rw [ofLE, leBytes, List.reverse_reverse, ofBE_beBytes h]

/-! ## Slices -/

theorem take_drop_append (a b c : List α) {len : Nat} (ha : a.length = start) (hb : b.length = len) :
    ((a ++ b ++ c).drop start).take len = b := by
  subst ha hb
  rw [List.append_assoc, List.drop_left, List.take_left]

theorem drop_add_of_append {l a b : List α} (h : l.drop n = a ++ b) :
    l.drop (n + a.length) = b := by
  rw [← List.drop_drop, h, List.drop_left]

theorem drop_eq_getD_cons {l : List α} (d : α) (h : n < l.length) :
    l.drop n = l.getD n d :: l.drop (n + 1) := by
  rw [List.drop_eq_getElem_cons h, List.getD_eq_getElem?_getD, List.getElem?_eq_getElem h,
    Option.getD_some]

theorem getD_of_drop {l rest : List α} {a d : α} (h : l.drop n = a :: rest) : l.getD n d = a := by
  have hget : l[n]? = some a := by
    rw [← List.head?_drop, h, List.head?_cons]
  rw [List.getD_eq_getElem?_getD, hget, Option.getD_some]

theorem slice_of_drop {l tail : List α} (h : l.drop n = tail) (k len : Nat) :
    (l.drop (n + k)).take len = (tail.drop k).take len := by
  rw [← h, List.drop_drop]

/-! ## Writes in place -/

/-- `l[start..].copy_from_slice(bytes)`, for as many bytes as there are. -/
def patch {α : Type*} (l : List α) (start : Nat) (bytes : List α) : List α :=
  l.take start ++ bytes ++ l.drop (start + bytes.length)

section Patch

variable {α : Type*} {l bytes : List α} {start : Nat}

theorem length_patch (h : start + bytes.length ≤ l.length) :
    (patch l start bytes).length = l.length := by
  rw [patch, List.length_append, List.length_append, List.length_take, List.length_drop]
  omega

theorem getElem?_patch (h : start + bytes.length ≤ l.length) {p : Nat}
    (hp : p < start ∨ start + bytes.length ≤ p) : (patch l start bytes)[p]? = l[p]? := by
  have htake : (l.take start).length = start := List.length_take_of_le (by omega)
  rw [patch, List.append_assoc]
  obtain hp | hp := hp
  · rw [List.getElem?_append_left (by omega), List.getElem?_take, if_pos hp]
  · rw [List.getElem?_append_right (by omega), List.getElem?_append_right (by omega),
      List.getElem?_drop, htake]
    exact congrArg (l[·]?) (by omega)

theorem drop_patch (h : start ≤ l.length) :
    (patch l start bytes).drop start = bytes ++ l.drop (start + bytes.length) := by
  rw [patch, List.append_assoc, List.drop_left' (List.length_take_of_le h)]

theorem slice_patch (h : start ≤ l.length) {n : Nat} (hn : bytes.length = n) :
    ((patch l start bytes).drop start).take n = bytes :=
  take_drop_append _ _ _ (List.length_take_of_le h) hn

theorem ofBE_patch {l : List UInt8} {n : Nat} (h : start ≤ l.length) (x : Nat) :
    ofBE (((patch l start (beBytes n x)).drop start).take n) = x % 256 ^ n := by
  rw [slice_patch h (length_beBytes n x), ofBE_beBytes_mod]

end Patch

/-! ## Fields -/

theorem ofBE_field {d a c : List UInt8} (hd : d = a ++ beBytes n x ++ c) (ha : a.length = start)
    (hx : x < 256 ^ n) : ofBE ((d.drop start).take n) = x := by
  rw [hd, take_drop_append a _ c ha (length_beBytes n x), ofBE_beBytes hx]

theorem ofLE_field {d a c : List UInt8} (hd : d = a ++ leBytes n x ++ c) (ha : a.length = start)
    (hx : x < 256 ^ n) : ofLE ((d.drop start).take n) = x := by
  rw [hd, take_drop_append a _ c ha (length_leBytes n x), ofLE_leBytes hx]

end Qeli.Lib
