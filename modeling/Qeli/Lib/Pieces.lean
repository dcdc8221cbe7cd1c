import Mathlib.Algebra.GroupWithZero.Nat

/-!
# Lists cut at a separator

`splitOn x` cuts a list at every `x`. Joining pieces with `x` and cutting again gives the pieces
of the pieces (`splitOn_intercalate_flatMap`), which are the pieces themselves if none of them
holds an `x` (`flatMap_splitOn_eq_self`).
-/

namespace Qeli.Lib

variable {α β : Type} [BEq α] [LawfulBEq α]

variable {x : α} {l : List α} {ls : List (List α)}

theorem not_mem_of_mem_splitOn {p : List α} (h : p ∈ l.splitOn x) : x ∉ p := by
  induction l generalizing p with
  | nil =>
    rw [List.splitOn_nil, List.mem_singleton] at h
    rw [h]
    exact List.not_mem_nil
  | cons y l ih =>
    rw [List.splitOn_cons_eq_if_modifyHead] at h
    split at h
    · obtain rfl | h := List.mem_cons.mp h
      · exact List.not_mem_nil
      · exact ih h
    · rename_i hy
      obtain ⟨first, rest, hsplit⟩ := List.exists_cons_of_ne_nil (List.splitOn_ne_nil x l)
      rw [hsplit, List.modifyHead_cons] at h
      obtain rfl | h := List.mem_cons.mp h
      · rw [List.mem_cons, not_or]
        refine ⟨fun heq => hy (by simp [heq]), ih ?_⟩
        rw [hsplit]
        exact List.mem_cons_self
      · refine ih ?_
        rw [hsplit]
        exact List.mem_cons_of_mem _ h

theorem splitOn_injective {l' : List α} (h : l.splitOn x = l'.splitOn x) : l = l' :=
  (List.intercalate_splitOn x).symm.trans
    ((congrArg [x].intercalate h).trans (List.intercalate_splitOn x))

theorem splitOn_intercalate_flatMap (x : α) (hls : ls ≠ []) :
    ([x].intercalate ls).splitOn x = ls.flatMap (·.splitOn x) := by
  induction ls with
  | nil => exact absurd rfl hls
  | cons l ls ih =>
    obtain _ | ⟨next, ls⟩ := ls
    · simp
    · rw [List.intercalate_cons_cons, List.append_assoc, List.singleton_append,
        List.splitOn_append_cons_self, ih (List.cons_ne_nil _ _)]
      rfl

theorem splitOn_map [BEq β] [LawfulBEq β] {f : α → β} (hf : ∀ y, f y = f x → y = x) (l : List α) :
    (l.map f).splitOn (f x) = (l.splitOn x).map (List.map f) := by
  induction l with
  | nil => rfl
  | cons y l ih =>
    rw [List.map_cons, List.splitOn_cons_eq_if_modifyHead, List.splitOn_cons_eq_if_modifyHead, ih]
    by_cases hy : y = x
    · simp [hy]
    · have hne : ¬ f y = f x := fun heq => hy (hf y heq)
      obtain ⟨first, rest, hsplit⟩ := List.exists_cons_of_ne_nil (List.splitOn_ne_nil x l)
      simp [hy, hne, hsplit]

theorem flatMap_splitOn_eq_self (h : ∀ l ∈ ls, x ∉ l) : ls.flatMap (·.splitOn x) = ls := by
  induction ls with
  | nil => rfl
  | cons l ls ih =>
    rw [List.flatMap_cons, List.splitOn_eq_singleton (h l List.mem_cons_self),
      ih fun m hm => h m (List.mem_cons_of_mem _ hm), List.singleton_append]

end Qeli.Lib
