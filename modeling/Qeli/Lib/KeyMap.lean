import Mathlib.Data.List.AList
import Mathlib.Algebra.GroupWithZero.Nat
import Mathlib.Algebra.Order.BigOperators.Group.List
import Mathlib.Algebra.Order.Group.Nat

/-!
# Finite maps with totals

`KeyMap κ ν` is Mathlib's association list at a constant value type, with the
operations a hash map has: `get?`, `insert`, `erase`, `size`. `total f m` adds a
measure over the values; `total_insert` and `total_erase` say how an update of
one key moves it, so that a counter kept beside a map can be compared with it.
-/

namespace Qeli.Lib

abbrev KeyMap (κ ν : Type*) := AList (fun _ : κ => ν)

namespace KeyMap

variable {κ ν : Type*} [DecidableEq κ]

def get? (m : KeyMap κ ν) (k : κ) : Option ν := AList.lookup k m

def insert (m : KeyMap κ ν) (k : κ) (v : ν) : KeyMap κ ν := AList.insert k v m

def erase (m : KeyMap κ ν) (k : κ) : KeyMap κ ν := AList.erase k m

def contains (m : KeyMap κ ν) (k : κ) : Bool := (m.get? k).isSome

def retain (m : KeyMap κ ν) (p : κ → ν → Bool) : KeyMap κ ν :=
  ⟨m.entries.filter fun e => p e.1 e.2, m.nodupKeys.sublist List.filter_sublist⟩

def modify (m : KeyMap κ ν) (k : κ) (f : ν → ν) : KeyMap κ ν :=
  match m.get? k with
  | some v => m.insert k (f v)
  | none => m

def mapValues {μ : Type*} (m : KeyMap κ ν) (f : ν → μ) : KeyMap κ μ :=
  ⟨m.entries.map fun e => ⟨e.1, f e.2⟩, by
    have hkeys : (m.entries.map fun e => (⟨e.1, f e.2⟩ : Σ _ : κ, μ)).keys = m.entries.keys := by
      simp [List.keys, Function.comp_def]
    rw [List.NodupKeys, hkeys]
    exact m.nodupKeys⟩

def mapEntries {μ : Type*} (m : KeyMap κ ν) (f : κ → ν → μ) : KeyMap κ μ :=
  ⟨m.entries.map fun e => ⟨e.1, f e.1 e.2⟩, by
    have hkeys : (m.entries.map fun e => (⟨e.1, f e.1 e.2⟩ : Σ _ : κ, μ)).keys =
        m.entries.keys := by
      simp [List.keys, Function.comp_def]
    rw [List.NodupKeys, hkeys]
    exact m.nodupKeys⟩

def toPairs (m : KeyMap κ ν) : List (κ × ν) := m.entries.map fun e => (e.1, e.2)

def size (m : KeyMap κ ν) : Nat := m.entries.length

def total (m : KeyMap κ ν) (f : ν → Nat) : Nat := (m.entries.map fun e => f e.2).sum

@[simp] theorem get?_empty (k : κ) : get? (∅ : KeyMap κ ν) k = none := rfl

theorem get?_insert (m : KeyMap κ ν) (k a : κ) (v : ν) :
    (m.insert k v).get? a = if a = k then some v else m.get? a := by
  unfold get? insert
  split
  · next h => subst h; exact AList.lookup_insert m
  · next h => exact AList.lookup_insert_ne h

@[simp] theorem get?_insert_self (m : KeyMap κ ν) (k : κ) (v : ν) :
    (m.insert k v).get? k = some v := by simp [get?_insert]

variable {k : κ} {m : KeyMap κ ν} {v : ν} {μ : Type*} {f : ν → Nat}

theorem get?_insert_ne (m : KeyMap κ ν) {a : κ} (v : ν) (h : a ≠ k) :
    (m.insert k v).get? a = m.get? a := by simp [get?_insert, h]

theorem get?_erase (m : KeyMap κ ν) (k a : κ) :
    (m.erase k).get? a = if a = k then none else m.get? a := by
  unfold get? erase
  split
  · next h => subst h; exact AList.lookup_erase a m
  · next h => exact AList.lookup_erase_ne h

@[simp] theorem get?_erase_self (m : KeyMap κ ν) (k : κ) : (m.erase k).get? k = none := by
  simp [get?_erase]

theorem get?_erase_ne (m : KeyMap κ ν) {a : κ} (h : a ≠ k) :
    (m.erase k).get? a = m.get? a := by simp [get?_erase, h]

theorem contains_eq_false : m.contains k = false ↔ m.get? k = none := by
  simp [contains]

theorem mem_toPairs : (k, v) ∈ m.toPairs ↔ m.get? k = some v := by
  have := AList.mem_lookup_iff (a := k) (b := v) (s := m)
  unfold get? toPairs
  rw [← Option.mem_def, this]
  constructor
  · intro h
    obtain ⟨⟨a, b⟩, hm, he⟩ := List.mem_map.mp h
    simp only [Prod.mk.injEq] at he
    obtain ⟨rfl, rfl⟩ := he
    exact hm
  · intro h; exact List.mem_map.mpr ⟨⟨k, v⟩, h, rfl⟩

theorem get?_eq_some_iff :
    m.get? k = some v ↔ (⟨k, v⟩ : Σ _ : κ, ν) ∈ m.entries := AList.mem_lookup_iff

theorem get?_retain (m : KeyMap κ ν) (p : κ → ν → Bool) (k : κ) :
    (m.retain p).get? k = (m.get? k).filter (p k) := by
  refine Option.ext fun v => ?_
  rw [Option.filter_eq_some_iff, get?_eq_some_iff, get?_eq_some_iff, retain, List.mem_filter]

theorem get?_mapEntries (m : KeyMap κ ν) (f : κ → ν → μ) (k : κ) :
    (m.mapEntries f).get? k = (m.get? k).map (f k) := by
  refine Option.ext fun v => ?_
  rw [Option.map_eq_some_iff, get?_eq_some_iff, mapEntries, List.mem_map]
  constructor
  · rintro ⟨⟨k', w⟩, hmem, heq⟩
    cases heq
    exact ⟨w, get?_eq_some_iff.mpr hmem, rfl⟩
  · rintro ⟨w, hw, rfl⟩
    exact ⟨⟨k, w⟩, get?_eq_some_iff.mp hw, rfl⟩

theorem get?_mapValues (m : KeyMap κ ν) (f : ν → μ) (k : κ) :
    (m.mapValues f).get? k = (m.get? k).map f :=
  get?_mapEntries m (fun _ => f) k

theorem retain_eq_self {p : κ → ν → Bool} (h : ∀ k v, m.get? k = some v → p k v = true) :
    m.retain p = m := by
  refine AList.ext ?_
  exact List.filter_eq_self.mpr fun e he => h e.1 e.2 (get?_eq_some_iff.mpr he)

theorem get?_eq_none_iff : m.get? k = none ↔ k ∉ m.keys :=
  AList.lookup_eq_none.trans (not_congr AList.mem_keys)

theorem size_le_of_keys {m' : KeyMap κ μ} (h : ∀ k, m.get? k = none → m'.get? k = none) :
    m'.size ≤ m.size := by
  have hsub : m'.keys ⊆ m.keys := by
    intro k hk
    by_contra hnone
    exact get?_eq_none_iff.mp (h k (get?_eq_none_iff.mpr hnone)) hk
  have hnodup : m'.keys.Nodup := m'.nodupKeys
  have hlen := (List.subperm_of_subset hnodup hsub).length_le
  simpa [size, AList.keys, List.keys] using hlen

/-! ## Totals -/

theorem sum_kerase {f : κ → ν → Nat} {k : κ} :
    ∀ {l : List (Σ _ : κ, ν)}, ((List.kerase k l).map fun e => f e.1 e.2).sum +
      ((List.dlookup k l).elim 0 (f k)) = (l.map fun e => f e.1 e.2).sum
  | [] => by simp
  | ⟨a, b⟩ :: l => by
    by_cases h : k = a
    · subst h; simp [List.kerase_cons_eq, Nat.add_comm]
    · rw [List.kerase_cons_ne (by simpa using h), List.dlookup_cons_ne _ _ (by simpa using h)]
      have := sum_kerase (f := f) (k := k) (l := l)
      simp only [List.map_cons, List.sum_cons]
      omega

theorem total_erase (m : KeyMap κ ν) (k : κ) (f : ν → Nat) :
    (m.erase k).total f + (m.get? k).elim 0 f = m.total f := sum_kerase (f := fun _ => f)

theorem total_insert (m : KeyMap κ ν) (k : κ) (v : ν) (f : ν → Nat) :
    (m.insert k v).total f + (m.get? k).elim 0 f = m.total f + f v := by
  have := total_erase m k f
  unfold total insert erase at *
  rw [AList.entries_insert]
  simp only [List.map_cons, List.sum_cons]
  have he : (AList.erase k m).entries = List.kerase k m.entries := rfl
  rw [he] at this
  omega

omit [DecidableEq κ] in
@[simp] theorem total_empty (f : ν → Nat) : total (∅ : KeyMap κ ν) f = 0 := rfl

omit [DecidableEq κ] in
theorem size_eq_total (m : KeyMap κ ν) : m.size = m.total fun _ => 1 := by
  simp [size, total]

theorem total_erase_of_some (h : m.get? k = some v) (f : ν → Nat) :
    (m.erase k).total f + f v = m.total f := by
  simpa [h] using m.total_erase k f

theorem total_insert_of_some {w : ν} (h : m.get? k = some w) (v : ν) (f : ν → Nat) :
    (m.insert k v).total f + f w = m.total f + f v := by
  simpa [h] using m.total_insert k v f

theorem total_insert_of_none (h : m.get? k = none) (v : ν) (f : ν → Nat) :
    (m.insert k v).total f = m.total f + f v := by
  simpa [h] using m.total_insert k v f

theorem size_erase_of_some (h : m.get? k = some v) : (m.erase k).size + 1 = m.size := by
  simpa [size_eq_total] using total_erase_of_some h fun _ => 1

theorem size_insert_of_some {w : ν} (h : m.get? k = some w) (v : ν) :
    (m.insert k v).size = m.size := by
  simpa [size_eq_total] using total_insert_of_some h v fun _ => 1

theorem size_insert_of_none (h : m.get? k = none) (v : ν) : (m.insert k v).size = m.size + 1 := by
  simpa [size_eq_total] using total_insert_of_none h v fun _ => 1

def weight (m : KeyMap κ ν) (f : κ → ν → Nat) : Nat := (m.entries.map fun e => f e.1 e.2).sum

theorem weight_erase_of_some (h : m.get? k = some v) (f : κ → ν → Nat) :
    (m.erase k).weight f + f k v = m.weight f := by
  have hsum : (m.erase k).weight f + (m.get? k).elim 0 (f k) = m.weight f := sum_kerase
  simpa [h] using hsum

theorem weight_insert_of_none (h : m.get? k = none) (v : ν) (f : κ → ν → Nat) :
    (m.insert k v).weight f = m.weight f + f k v := by
  have hsame : (m.erase k).weight f + (m.get? k).elim 0 (f k) = m.weight f := sum_kerase
  have hcons : (m.insert k v).weight f = f k v + (m.erase k).weight f := by
    simp only [weight, insert, AList.entries_insert, List.map_cons, List.sum_cons]
    rfl
  rw [h] at hsame
  simp only [Option.elim_none] at hsame
  omega

theorem eq_empty_of_get? (h : ∀ k, m.get? k = none) : m = ∅ := by
  refine AList.ext (List.eq_nil_iff_forall_not_mem.mpr fun e he => ?_)
  exact get?_eq_none_iff.mp (h e.1) (List.mem_map.mpr ⟨e, he, rfl⟩)

theorem total_eq_zero (h : ∀ k v, m.get? k = some v → f v = 0) : m.total f = 0 := by
  unfold total
  refine List.sum_eq_zero fun x hx => ?_
  obtain ⟨⟨k, v⟩, he, rfl⟩ := List.mem_map.mp hx
  exact h k v (mem_toPairs.mp (List.mem_map.mpr ⟨⟨k, v⟩, he, rfl⟩))

theorem total_le {c : Nat} (h : ∀ k v, m.get? k = some v → f v ≤ c) : m.total f ≤ m.size * c := by
  unfold total size
  have hsum := List.sum_le_card_nsmul (m.entries.map fun e => f e.2) c fun x hx => by
    obtain ⟨⟨k, v⟩, he, rfl⟩ := List.mem_map.mp hx
    exact h k v (mem_toPairs.mp (List.mem_map.mpr ⟨⟨k, v⟩, he, rfl⟩))
  simpa using hsum

theorem total_le_sum {ι : Type*} {l : List ι} (key : ι → κ) (w : ι → Nat)
    (hkeys : ∀ k v, m.get? k = some v → ∃ x ∈ l, key x = k)
    (hle : ∀ x ∈ l, ∀ v, m.get? (key x) = some v → f v ≤ w x) : m.total f ≤ (l.map w).sum := by
  induction l generalizing m with
  | nil =>
    refine Nat.le_of_eq (total_eq_zero fun k v hv => ?_)
    obtain ⟨x, hx, _⟩ := hkeys k v hv
    cases hx
  | cons x l ih =>
    -- The entry of the first name, if there is one, and the others.
    have herase := m.total_erase (key x) f
    have hrest : (m.erase (key x)).total f ≤ (l.map w).sum := by
      refine ih (fun k v hv => ?_) fun y hy v hv => ?_
      · rw [get?_erase] at hv
        split at hv
        · cases hv
        · next hk =>
          obtain ⟨y, hy, rfl⟩ := hkeys k v hv
          rcases List.mem_cons.mp hy with rfl | hy
          · exact absurd rfl hk
          · exact ⟨y, hy, rfl⟩
      · rw [get?_erase] at hv
        split at hv
        · cases hv
        · exact hle y (List.mem_cons_of_mem _ hy) v hv
    have hfirst : (m.get? (key x)).elim 0 f ≤ w x := by
      cases hv : m.get? (key x) with
      | none => exact Nat.zero_le _
      | some v => exact hle x List.mem_cons_self v hv
    rw [List.map_cons, List.sum_cons]
    omega

omit [DecidableEq κ] in
theorem size_le {n : Nat} {f : κ → Nat} (hinj : Function.Injective f) (hlt : ∀ k, f k < n)
    (m : KeyMap κ ν) : m.size ≤ n := by
  have hnodup : (m.keys.map f).Nodup := m.keys_nodup.map hinj
  have hsub : m.keys.map f ⊆ List.range n := fun x hx => by
    obtain ⟨k, _, rfl⟩ := List.mem_map.mp hx
    exact List.mem_range.mpr (hlt k)
  have hle := (List.subperm_of_subset hnodup hsub).length_le
  simpa [AList.keys, List.keys, size] using hle

end KeyMap

end Qeli.Lib
