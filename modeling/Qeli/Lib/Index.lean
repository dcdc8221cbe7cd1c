import Qeli.Lib.KeyMap

/-!
# Indexes of a map

A map `m` from keys to values, and beside it a map from other keys of the same values: each
value `v` has the index keys `keys v`, and the index says `val v` for each of them.
`Indexes keys val m ix` says that it has these entries and no others. It stays so when a
value comes whose index keys are new, or one leaves and takes its index keys along.
-/

namespace Qeli.Lib

variable {κ ν ι μ : Type*} [DecidableEq κ]

/-! ## Index keys -/

section Apart

variable {keys : ν → List ι} {m : KeyMap κ ν} {k : κ} {v : ν}

/-- Values of different keys have different index keys. -/
def KeysApart (keys : ν → List ι) (m : KeyMap κ ν) : Prop :=
  ∀ ⦃k k' v v' i⦄, m.get? k = some v → m.get? k' = some v' → i ∈ keys v → i ∈ keys v' → k = k'

theorem KeysApart.empty : KeysApart keys (∅ : KeyMap κ ν) := by
  intro k k' v v' i h
  cases h

theorem KeysApart.erase (h : KeysApart keys m) (k : κ) : KeysApart keys (m.erase k) := by
  have hsub : ∀ {a w}, (m.erase k).get? a = some w → m.get? a = some w := by
    intro a w ha
    rw [KeyMap.get?_erase] at ha
    split at ha
    · cases ha
    · exact ha
  intro a a' w w' i ha ha' hi hi'
  exact h (hsub ha) (hsub ha') hi hi'

theorem KeysApart.insert (h : KeysApart keys m)
    (hnew : ∀ {k' v' i}, m.get? k' = some v' → i ∈ keys v → i ∉ keys v') :
    KeysApart keys (m.insert k v) := by
  intro a a' w w' i ha ha' hi hi'
  rw [KeyMap.get?_insert] at ha ha'
  split at ha <;> split at ha'
  · next h1 h2 => rw [h1, h2]
  · cases ha
    exact absurd hi' (hnew ha' hi)
  · cases ha'
    exact absurd hi (hnew ha hi')
  · exact h ha ha' hi hi'

end Apart

/-! ## Updates of an index -/

variable [DecidableEq ι]

namespace KeyMap

def insertAll (ix : KeyMap ι μ) (is : List ι) (x : μ) : KeyMap ι μ :=
  is.foldl (fun ix i => ix.insert i x) ix

/-- Erases those of some keys whose values pass a test. -/
def eraseIf (ix : KeyMap ι μ) (is : List ι) (test : μ → Bool) : KeyMap ι μ :=
  is.foldl (fun ix i => if (ix.get? i).any test then ix.erase i else ix) ix

theorem get?_insertAll (ix : KeyMap ι μ) (is : List ι) (x : μ) (i : ι) :
    (ix.insertAll is x).get? i = if i ∈ is then some x else ix.get? i := by
  unfold insertAll
  induction is generalizing ix with
  | nil => simp
  | cons a is ih =>
    rw [List.foldl_cons, ih, get?_insert]
    by_cases hi : i ∈ is <;> by_cases ha : i = a <;> simp [hi, ha]

theorem get?_eraseIf (ix : KeyMap ι μ) (is : List ι) (test : μ → Bool) (i : ι) :
    (ix.eraseIf is test).get? i = if i ∈ is ∧ (ix.get? i).any test then none else ix.get? i := by
  unfold eraseIf
  induction is generalizing ix with
  | nil => simp
  | cons a is ih =>
    rw [List.foldl_cons, ih]
    by_cases ha : i = a
    · subst ha
      by_cases ht : (ix.get? i).any test = true
      · simp [ht]
      · simp [ht]
    · have hsame : (if (ix.get? a).any test then ix.erase a else ix).get? i = ix.get? i := by
        split
        · exact get?_erase_ne ix ha
        · rfl
      simp [hsame, ha]

end KeyMap

/-- The index of a map. -/
def Indexes (keys : ν → List ι) (val : ν → μ) (m : KeyMap κ ν) (ix : KeyMap ι μ) : Prop :=
  ∀ i x, ix.get? i = some x ↔ ∃ k v, m.get? k = some v ∧ i ∈ keys v ∧ x = val v

variable {keys : ν → List ι} {val : ν → μ} {m : KeyMap κ ν} {ix ix' : KeyMap ι μ} {k : κ} {v : ν}

namespace Indexes

theorem empty : Indexes keys val (∅ : KeyMap κ ν) (∅ : KeyMap ι μ) := by
  intro i x
  simp

theorem insert (h : Indexes keys val m ix) (hk : m.get? k = none)
    (hnew : ∀ {k' v' i}, m.get? k' = some v' → i ∈ keys v → i ∉ keys v')
    (hix : ∀ i, ix'.get? i = if i ∈ keys v then some (val v) else ix.get? i) :
    Indexes keys val (m.insert k v) ix' := by
  intro i x
  rw [hix i]
  constructor
  · intro hx
    split at hx
    · next hi => exact ⟨k, v, KeyMap.get?_insert_self m k v, hi, (Option.some.inj hx).symm⟩
    · obtain ⟨k', v', hk', hi', rfl⟩ := (h i x).mp hx
      have hne : k' ≠ k := by
        rintro rfl
        rw [hk] at hk'
        cases hk'
      exact ⟨k', v', by rw [KeyMap.get?_insert_ne m v hne, hk'], hi', rfl⟩
  · rintro ⟨k', v', hk', hi', rfl⟩
    rw [KeyMap.get?_insert] at hk'
    split at hk'
    · cases hk'
      rw [if_pos hi']
    · rw [if_neg fun hi => hnew hk' hi hi']
      exact (h i _).mpr ⟨k', v', hk', hi', rfl⟩

theorem erase (h : Indexes keys val m ix) (hk : m.get? k = some v) (hapart : KeysApart keys m)
    (hix : ∀ i, ix'.get? i = if i ∈ keys v then none else ix.get? i) :
    Indexes keys val (m.erase k) ix' := by
  intro i x
  rw [hix i]
  constructor
  · intro hx
    split at hx
    · cases hx
    · next hi =>
      obtain ⟨k', v', hk', hi', rfl⟩ := (h i x).mp hx
      have hne : k' ≠ k := by
        rintro rfl
        rw [hk] at hk'
        cases hk'
        exact hi hi'
      exact ⟨k', v', by rw [KeyMap.get?_erase_ne m hne, hk'], hi', rfl⟩
  · rintro ⟨k', v', hk', hi', rfl⟩
    rw [KeyMap.get?_erase] at hk'
    split at hk'
    · cases hk'
    · next hne =>
      rw [if_neg fun hi => hne (hapart hk' hk hi' hi)]
      exact (h i _).mpr ⟨k', v', hk', hi', rfl⟩

end Indexes

end Qeli.Lib
