import Mathlib.Data.List.Range
import Qeli.Lib.Words

/-!
# Operations that stop the program

Indexing, slicing, subtraction on `usize` and `copy_within` stop the program when
they are out of range. Here such an operation is a function into `Option`, where
`none` is the stop, so a body written with them in the `Option` monad returns
`some` only if nothing in it is out of range. Each has a lemma that says when it
returns and what.
-/

namespace Qeli.Lib.Checked

variable {α : Type*}

/-- `a - b`. -/
def sub (a b : Nat) : Option Nat := if b ≤ a then some (a - b) else none

/-- `xs[start..stop]`. -/
def range (xs : List α) (start stop : Nat) : Option (List α) :=
  if start ≤ stop ∧ stop ≤ xs.length then some ((xs.drop start).take (stop - start)) else none

/-- `[xs[start], xs[start + 1], …]`, `n` indexings. -/
def elements (xs : List α) (start n : Nat) : Option (List α) :=
  (List.range' start n).mapM (xs[·]?)

/-- `xs.copy_within(start..stop, 0)`. -/
def copyToFront (xs : List α) (start stop : Nat) : Option (List α) := do
  let moved ← range xs start stop
  return moved ++ xs.drop moved.length

theorem sub_eq {a b : Nat} (h : b ≤ a) : sub a b = some (a - b) := if_pos h

variable {xs : List α} {start stop : Nat}

theorem range_eq (h : start ≤ stop) (hstop : stop ≤ xs.length) :
    range xs start stop = some ((xs.drop start).take (stop - start)) :=
  if_pos ⟨h, hstop⟩

theorem range_eq_some {part : List α} (h : start ≤ stop) :
    range xs start stop = some part ↔
      stop ≤ xs.length ∧ (xs.drop start).take (stop - start) = part := by
  unfold range
  split
  · next hin => simp [hin.2]
  · next hout =>
    have hshort : ¬ stop ≤ xs.length := fun hstop => hout ⟨h, hstop⟩
    simp [hshort]

theorem index_eq {i : Nat} (h : i < xs.length) (d : α) : xs[i]? = some (xs.getD i d) := by
  rw [List.getD_eq_getElem?_getD, List.getElem?_eq_getElem h, Option.getD_some]

theorem elements_eq {n : Nat} (h : start + n ≤ xs.length) :
    elements xs start n = some ((xs.drop start).take n) := by
  unfold elements
  induction n generalizing start with
  | zero => rfl
  | succ n ih =>
    have hstart : start < xs.length := by omega
    rw [List.range'_succ, List.mapM_cons, ih (by omega), List.getElem?_eq_getElem hstart,
      List.drop_eq_getElem_cons hstart, List.take_succ_cons]
    rfl

theorem copyToFront_eq (h : start ≤ stop) (hstop : stop ≤ xs.length) :
    copyToFront xs start stop =
      some ((xs.drop start).take (stop - start) ++ xs.drop (stop - start)) := by
  have hlen : ((xs.drop start).take (stop - start)).length = stop - start := by
    rw [List.length_take, List.length_drop]
    omega
  unfold copyToFront
  rw [range_eq h hstop]
  show some (_ ++ xs.drop _) = _
  rw [hlen]

/-! ## Bit arrays -/

variable {n : Nat}

/-- `bits[i] = v`. -/
def set (bits : Words n) (i : Nat) (v : BitVec 64) : Option (Words n) :=
  if i < n then some (bits.setIfInBounds i v) else none

/-- `for i in (0..k).rev() { bits[i] = f(bits, i) }`. -/
def overwriteDown (f : Words n → Nat → Option (BitVec 64)) : Nat → Words n → Option (Words n)
  | 0, bits => some bits
  | i + 1, bits => do
    let v ← f bits i
    let bits ← set bits i v
    overwriteDown f i bits

theorem word_eq {bits : Words n} {i : Nat} (h : i < n) : bits[i]? = some (bits.word i) := by
  unfold Words.word
  rw [Vector.getElem?_eq_getElem h]
  rfl

theorem set_eq {bits : Words n} {i : Nat} (h : i < n) (v : BitVec 64) :
    set bits i v = some (bits.setIfInBounds i v) :=
  if_pos h

theorem overwriteDown_eq {f : Words n → Nat → Option (BitVec 64)} {g : Words n → Nat → BitVec 64}
    (hf : ∀ (bits : Words n) {i : Nat}, i < n → f bits i = some (g bits i)) :
    ∀ {k : Nat}, k ≤ n → ∀ bits : Words n,
      overwriteDown f k bits = some (Words.overwriteDown g k bits)
  | 0, _, _ => rfl
  | k + 1, hk, bits => by
    unfold overwriteDown Words.overwriteDown
    rw [hf bits (by omega)]
    show (set bits k (g bits k)).bind _ = _
    rw [set_eq (by omega)]
    exact overwriteDown_eq hf (by omega) _

end Qeli.Lib.Checked
