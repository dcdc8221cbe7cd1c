import Mathlib.Data.List.Range

/-!
# Slots

A list of slots that are filled one at a time. `filled` counts those that are; when it is the
length, all of them are (`eq_map_some`). `slotsOf n f p` is the state in which slot `i` holds
`f i` if `p i` and is empty otherwise: filling slot `i` makes `p` hold at `i` as well.
-/

namespace Qeli.Lib.Slots

variable {α : Type*}

def filled (slots : List (Option α)) : Nat := slots.countP Option.isSome

theorem filled_replicate (n : Nat) : filled (List.replicate n (none : Option α)) = 0 := by
  simp [filled]

theorem filled_set {slots : List (Option α)} {i : Nat} (h : slots[i]? = some none) (a : α) :
    filled (slots.set i (some a)) = filled slots + 1 := by
  induction slots generalizing i with
  | nil => cases h
  | cons slot slots ih =>
    cases i with
    | zero =>
      cases h
      simp [filled]
    | succ i =>
      have hrest := ih (i := i) h
      unfold filled at hrest ⊢
      rw [List.set_cons_succ, List.countP_cons, List.countP_cons, hrest]
      omega

theorem eq_map_some {slots : List (Option α)} (h : filled slots = slots.length) :
    ∃ xs : List α, slots = xs.map some := by
  have hall := List.countP_eq_length.mp h
  clear h
  induction slots with
  | nil => exact ⟨[], rfl⟩
  | cons slot slots ih =>
    obtain ⟨a, rfl⟩ := Option.isSome_iff_exists.mp (hall slot List.mem_cons_self)
    obtain ⟨xs, rfl⟩ := ih fun s hs => hall s (List.mem_cons_of_mem _ hs)
    exact ⟨a :: xs, rfl⟩

/-! ## Slots by number -/

def slotsOf (n : Nat) (f : Nat → α) (p : Nat → Prop) [DecidablePred p] : List (Option α) :=
  (List.range n).map fun i => if p i then some (f i) else none

variable {n : Nat} {f : Nat → α} {p : Nat → Prop} [DecidablePred p]

@[simp] theorem length_slotsOf : (slotsOf n f p).length = n := by
  simp [slotsOf]

theorem getElem?_slotsOf {i : Nat} (hi : i < n) :
    (slotsOf n f p)[i]? = some (if p i then some (f i) else none) := by
  simp [slotsOf, hi]

theorem set_slotsOf {i : Nat} {q : Nat → Prop} [DecidablePred q] (hq : ∀ j, q j ↔ p j ∨ j = i) :
    (slotsOf n f p).set i (some (f i)) = slotsOf n f q := by
  refine List.ext_getElem? fun j => ?_
  rw [List.getElem?_set]
  by_cases hj : j < n
  · rw [getElem?_slotsOf hj, getElem?_slotsOf hj, length_slotsOf]
    by_cases heq : i = j
    · subst heq
      simp [hj, hq]
    · have hsame : q j ↔ p j := by
        rw [hq]
        exact or_iff_left (Ne.symm heq)
      simp [heq, hsame]
  · have hout : ∀ (r : Nat → Prop) [DecidablePred r], (slotsOf n f r)[j]? = none := fun r _ => by
      rw [List.getElem?_eq_none_iff, length_slotsOf]
      omega
    rw [hout, hout, length_slotsOf]
    simp only [ite_eq_right_iff]
    intro heq hlt
    omega

theorem slotsOf_congr {q : Nat → Prop} [DecidablePred q] (h : ∀ j, j < n → (p j ↔ q j)) :
    slotsOf n f p = slotsOf n f q := by
  refine List.map_congr_left fun j hj => ?_
  simp only [h j (List.mem_range.mp hj)]

theorem filled_slotsOf_eq_iff : filled (slotsOf n f p) = n ↔ ∀ i, i < n → p i := by
  have hlen : (slotsOf n f p).length = n := length_slotsOf
  constructor
  · intro h i hi
    by_contra hnot
    have hall := List.countP_eq_length.mp (h.trans hlen.symm)
    have hmem : (none : Option α) ∈ slotsOf n f p := by
      refine List.mem_of_getElem? (i := i) ?_
      rw [getElem?_slotsOf hi, if_neg hnot]
    cases hall none hmem
  · intro h
    refine (List.countP_eq_length.mpr fun s hs => ?_).trans hlen
    obtain ⟨i, hi, rfl⟩ := List.mem_map.mp hs
    rw [if_pos (h i (List.mem_range.mp hi))]
    rfl

theorem slotsOf_all (h : ∀ i, i < n → p i) : slotsOf n f p = ((List.range n).map f).map some := by
  rw [List.map_map]
  refine List.map_congr_left fun i hi => ?_
  rw [if_pos (h i (List.mem_range.mp hi))]
  rfl

theorem slotsOf_none (h : ∀ i, i < n → ¬ p i) : slotsOf n f p = List.replicate n none := by
  refine List.eq_replicate_iff.mpr ⟨length_slotsOf, fun s hs => ?_⟩
  obtain ⟨i, hi, rfl⟩ := List.mem_map.mp hs
  rw [if_neg (h i (List.mem_range.mp hi))]

/-! ## Slots of lists -/

def content (slots : List (Option (List α))) : List α := (slots.map (·.getD [])).flatten

theorem content_map_some (xs : List (List α)) : content (xs.map some) = xs.flatten := by
  simp [content, Function.comp_def]

end Qeli.Lib.Slots
