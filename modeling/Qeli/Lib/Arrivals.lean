import Mathlib.Data.List.Induction
import Mathlib.Data.List.Nodup

/-!
# Parts that arrive

Items of type `ι` are cut into `parts x` parts each, and the parts arrive one by one, in
any order and possibly more than once. An `Arrival` names the item and the part and
carries the bytes as `data`. `Delivered`, `Complete` and `startedAt` read a list of
arrivals; `completions` lists the items in the order in which their last missing part
came. Each has one lemma for one more arrival.
-/

namespace Qeli.Lib

structure Arrival (ι α : Type*) where
  item : ι
  index : Nat
  data : α
  now : Nat

variable {ι α : Type*}

def Delivered (as : List (Arrival ι α)) (x : ι) (index : Nat) : Prop :=
  ∃ a ∈ as, a.item = x ∧ a.index = index

instance [DecidableEq ι] (as : List (Arrival ι α)) (x : ι) (index : Nat) :
    Decidable (Delivered as x index) :=
  inferInstanceAs (Decidable (∃ a ∈ as, a.item = x ∧ a.index = index))

def Complete (parts : ι → Nat) (as : List (Arrival ι α)) (x : ι) : Prop :=
  ∀ i < parts x, Delivered as x i

instance [DecidableEq ι] (parts : ι → Nat) (as : List (Arrival ι α)) (x : ι) :
    Decidable (Complete parts as x) :=
  inferInstanceAs (Decidable (∀ i < parts x, Delivered as x i))

def startedAt [DecidableEq ι] (as : List (Arrival ι α)) (x : ι) : Option Nat :=
  (as.find? fun a => a.item = x).map Arrival.now

section Snoc

variable {parts : ι → Nat} {as : List (Arrival ι α)} {a : Arrival ι α} {x : ι} {i : Nat}

theorem delivered_snoc :
    Delivered (as ++ [a]) x i ↔ Delivered as x i ∨ a.item = x ∧ a.index = i := by
  simp only [Delivered, List.mem_append, List.mem_singleton, or_and_right, exists_or,
    exists_eq_left]

theorem delivered_snoc_ne (hx : a.item ≠ x) : Delivered (as ++ [a]) x i ↔ Delivered as x i := by
  simp [delivered_snoc, hx]

theorem delivered_snoc_again (h : Delivered as a.item a.index) :
    Delivered (as ++ [a]) x i ↔ Delivered as x i := by
  rw [delivered_snoc]
  constructor
  · rintro (hd | ⟨rfl, rfl⟩)
    · exact hd
    · exact h
  · exact .inl

theorem complete_snoc_ne (hx : a.item ≠ x) :
    Complete parts (as ++ [a]) x ↔ Complete parts as x := by
  simp only [Complete, delivered_snoc_ne hx]

theorem complete_snoc_again (h : Delivered as a.item a.index) :
    Complete parts (as ++ [a]) x ↔ Complete parts as x := by
  simp only [Complete, delivered_snoc_again h]

theorem Complete.snoc (h : Complete parts as x) : Complete parts (as ++ [a]) x :=
  fun i hi => delivered_snoc.mpr (.inl (h i hi))

variable [DecidableEq ι]

theorem startedAt_snoc_of_some {t : Nat} (h : startedAt as x = some t) :
    startedAt (as ++ [a]) x = some t := by
  unfold startedAt at h ⊢
  obtain ⟨b, hb, rfl⟩ := Option.map_eq_some_iff.mp h
  rw [List.find?_append, hb]
  rfl

theorem startedAt_snoc_ne (hx : a.item ≠ x) : startedAt (as ++ [a]) x = startedAt as x := by
  simp [startedAt, List.find?_append, hx]

theorem startedAt_snoc_of_none (h : startedAt as a.item = none) :
    startedAt (as ++ [a]) a.item = some a.now := by
  unfold startedAt at h ⊢
  rw [List.find?_append, Option.map_eq_none_iff.mp h]
  simp

theorem Delivered.started (h : Delivered as x i) : startedAt as x ≠ none := by
  obtain ⟨a, ha, hx, _⟩ := h
  unfold startedAt
  rw [ne_eq, Option.map_eq_none_iff, List.find?_eq_none]
  exact fun hall => hall a ha (by simpa using hx)

end Snoc

/-! ## Completions -/

section Completions

variable [DecidableEq ι] (parts : ι → Nat)

/-- One more arrival, after the arrivals and the completions so far. -/
def completionStep (s : List (Arrival ι α) × List ι) (a : Arrival ι α) :
    List (Arrival ι α) × List ι :=
  let as := s.1 ++ [a]
  (as, if Complete parts as a.item ∧ ¬ Complete parts s.1 a.item then s.2 ++ [a.item] else s.2)

def completions (as : List (Arrival ι α)) : List ι :=
  (as.foldl (completionStep parts) ([], [])).2

theorem completions_snoc (as : List (Arrival ι α)) (a : Arrival ι α) :
    completions parts (as ++ [a]) =
      if Complete parts (as ++ [a]) a.item ∧ ¬ Complete parts as a.item then
        completions parts as ++ [a.item]
      else completions parts as := by
  have hfst : ∀ as : List (Arrival ι α), (as.foldl (completionStep parts) ([], [])).1 = as := by
    intro as
    induction as using List.reverseRecOn with
    | nil => rfl
    | append_singleton as a ih => rw [List.foldl_append, List.foldl_cons, List.foldl_nil,
        completionStep, ih]
  unfold completions
  rw [List.foldl_append, List.foldl_cons, List.foldl_nil, completionStep, hfst]

variable {parts} {as : List (Arrival ι α)} {x : ι}

theorem mem_completions (hx : 0 < parts x) :
    x ∈ completions parts as ↔ Complete parts as x := by
  induction as using List.reverseRecOn with
  | nil =>
    refine iff_of_false (by simp [completions]) fun hc => ?_
    obtain ⟨a, ha, _⟩ := hc 0 hx
    cases ha
  | append_singleton as a ih =>
    rw [completions_snoc]
    by_cases hax : a.item = x
    · subst hax
      by_cases hold : Complete parts as a.item
      · simp [hold, ih, hold.snoc]
      · by_cases hnew : Complete parts (as ++ [a]) a.item <;> simp [hold, hnew, ih]
    · rw [complete_snoc_ne hax, ← ih]
      split <;> simp [Ne.symm hax]

theorem complete_of_mem_completions (h : x ∈ completions parts as) : Complete parts as x := by
  induction as using List.reverseRecOn with
  | nil => cases h
  | append_singleton as a ih =>
    rw [completions_snoc] at h
    split at h
    · next hnew =>
      rcases List.mem_append.mp h with hold | hx
      · exact (ih hold).snoc
      · rw [List.mem_singleton.mp hx]
        exact hnew.1
    · exact (ih h).snoc

theorem exists_of_mem_completions (h : x ∈ completions parts as) : ∃ a ∈ as, a.item = x := by
  induction as using List.reverseRecOn with
  | nil => cases h
  | append_singleton as a ih =>
    rw [completions_snoc] at h
    split at h
    · rcases List.mem_append.mp h with hold | hx
      · obtain ⟨b, hb, hbx⟩ := ih hold
        exact ⟨b, List.mem_append_left _ hb, hbx⟩
      · exact ⟨a, by simp, (List.mem_singleton.mp hx).symm⟩
    · obtain ⟨b, hb, hbx⟩ := ih h
      exact ⟨b, List.mem_append_left _ hb, hbx⟩

theorem length_completions_le : (completions parts as).length ≤ as.length := by
  induction as using List.reverseRecOn with
  | nil => exact Nat.le_refl 0
  | append_singleton as a ih =>
    rw [completions_snoc, List.length_append, List.length_singleton]
    split
    · rw [List.length_append, List.length_singleton]
      omega
    · omega

theorem nodup_completions : (completions parts as).Nodup := by
  induction as using List.reverseRecOn with
  | nil => exact .nil
  | append_singleton as a ih =>
    rw [completions_snoc]
    split
    · next hnew =>
      refine List.Nodup.append ih (List.nodup_singleton _) ?_
      rw [List.disjoint_singleton]
      exact fun hmem => hnew.2 (complete_of_mem_completions hmem)
    · exact ih

end Completions

end Qeli.Lib
