import Mathlib.Algebra.Order.Floor.Div

/-!
# Chunks of a list

`chunkAt xs size i` is the `i`-th chunk of the list when it is cut every `size`
elements; there are `xs.length ⌈/⌉ size` of them. Joined in order they are the list.
A sender writes each chunk with a function that may refuse it: `mapM_ok` and
`of_mapM_ok` say what the whole pass returns.
-/

namespace Qeli.Lib

variable {α : Type*}

def chunkAt (xs : List α) (size index : Nat) : List α := (xs.drop (index * size)).take size

theorem length_chunkAt (xs : List α) (size index : Nat) :
    (chunkAt xs size index).length = min size (xs.length - index * size) := by
  simp [chunkAt]

theorem take_append_chunkAt (xs : List α) (size index : Nat) :
    xs.take (index * size) ++ chunkAt xs size index = xs.take ((index + 1) * size) := by
  rw [Nat.succ_mul, List.take_add]
  rfl

theorem flatten_chunks (xs : List α) (size n : Nat) :
    ((List.range n).map (chunkAt xs size)).flatten = xs.take (n * size) := by
  induction n with
  | zero => simp
  | succ n ih =>
    rw [List.range_succ, List.map_append, List.flatten_append, ih, List.map_singleton,
      List.flatten_singleton, take_append_chunkAt]

theorem length_le_chunks {size : Nat} (hsize : 0 < size) (xs : List α) :
    xs.length ≤ (xs.length ⌈/⌉ size) * size := by
  rw [Nat.mul_comm]
  exact le_smul_ceilDiv hsize

theorem chunk_start_lt {size index : Nat} (hsize : 0 < size) {xs : List α}
    (hi : index < xs.length ⌈/⌉ size) : index * size < xs.length := by
  by_contra hle
  have : xs.length ⌈/⌉ size ≤ index :=
    (ceilDiv_le_iff_le_mul hsize).mpr (by rw [Nat.mul_comm]; omega)
  omega

/-! ## Writing each chunk -/

section Pass

variable {β ε : Type} {γ : Type*} {l : List γ} {f : γ → Except ε β}

theorem mapM_ok {g : γ → β} (h : ∀ a ∈ l, f a = .ok (g a)) : l.mapM f = .ok (l.map g) := by
  induction l with
  | nil => rfl
  | cons a l ih =>
    rw [List.mapM_cons, h a List.mem_cons_self, ih fun b hb => h b (List.mem_cons_of_mem _ hb)]
    rfl

theorem of_mapM_ok {ys : List β} (h : l.mapM f = .ok ys) : ∀ a ∈ l, ∃ b, f a = .ok b := by
  induction l generalizing ys with
  | nil => simp
  | cons a l ih =>
    rw [List.mapM_cons] at h
    cases ha : f a with
    | error e => rw [ha] at h; cases h
    | ok b =>
      cases hl : l.mapM f with
      | error e => rw [ha, hl] at h; cases h
      | ok bs => exact List.forall_mem_cons.mpr ⟨⟨b, ha⟩, ih hl⟩

end Pass

end Qeli.Lib
