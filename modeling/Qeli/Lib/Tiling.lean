import Mathlib.Algebra.GroupWithZero.Nat
import Mathlib.Order.Interval.Finset.Nat

/-!
# Pieces of a list

A `Piece` is a list with a start position. Pieces that are pairwise apart and lie
inside `[0, n)` hold at most `n` elements together (`sizes_le`), and when they hold
exactly `n` every position lies in one of them (`covers`).
`write` copies a piece into a buffer; `Agrees` says a list shows the piece's
elements at its position. A `Tiling` of a list is made of pieces apart that leave no
gap and agree with it; it determines the list (`Tiling.eq`).
-/

namespace Qeli.Lib

variable {α : Type*}

structure Piece (α : Type*) where
  start : Nat
  data : List α
  deriving DecidableEq, Repr

namespace Piece

def stop (p : Piece α) : Nat := p.start + p.data.length

def Apart (p q : Piece α) : Prop := p.stop ≤ q.start ∨ q.stop ≤ p.start

variable {p : Piece α}

theorem Apart.symm {q : Piece α} (h : p.Apart q) : q.Apart p := h.elim .inr .inl

def span (p : Piece α) : Finset Nat := Finset.Ico p.start p.stop

@[simp] theorem mem_span {i : Nat} : i ∈ p.span ↔ p.start ≤ i ∧ i < p.stop :=
  Finset.mem_Ico

@[simp] theorem card_span (p : Piece α) : p.span.card = p.data.length := by
  simp [span, stop]

theorem Apart.disjoint {q : Piece α} (h : p.Apart q) : Disjoint p.span q.span := by
  rw [Finset.disjoint_left]
  intro i hp hq
  rw [mem_span] at hp hq
  rcases h with h | h <;> omega

end Piece

/-! ## Counting -/

def sizes (ps : List (Piece α)) : Nat := (ps.map fun p => p.data.length).sum

@[simp] theorem sizes_nil : sizes ([] : List (Piece α)) = 0 := rfl

@[simp] theorem sizes_cons (p : Piece α) (ps : List (Piece α)) :
    sizes (p :: ps) = p.data.length + sizes ps := by simp [sizes]

@[simp] theorem sizes_append (ps qs : List (Piece α)) : sizes (ps ++ qs) = sizes ps + sizes qs := by
  simp [sizes]

def covered : List (Piece α) → Finset Nat
  | [] => ∅
  | p :: ps => p.span ∪ covered ps

variable {ps : List (Piece α)} {n : Nat}

theorem mem_covered {i : Nat} : i ∈ covered ps ↔ ∃ p ∈ ps, p.start ≤ i ∧ i < p.stop := by
  induction ps with
  | nil => simp [covered]
  | cons p ps ih => simp [covered, ih]

theorem disjoint_covered {p : Piece α} (h : ∀ q ∈ ps, p.Apart q) :
    Disjoint p.span (covered ps) := by
  rw [Finset.disjoint_left]
  intro i hp hps
  obtain ⟨q, hq, hi⟩ := mem_covered.mp hps
  exact Finset.disjoint_left.mp (h q hq).disjoint hp (Piece.mem_span.mpr hi)

theorem card_covered (h : ps.Pairwise Piece.Apart) : (covered ps).card = sizes ps := by
  induction ps with
  | nil => rfl
  | cons p ps ih =>
    rw [List.pairwise_cons] at h
    rw [covered, Finset.card_union_of_disjoint (disjoint_covered h.1), ih h.2, sizes_cons,
      Piece.card_span]

theorem covered_subset (h : ∀ p ∈ ps, p.stop ≤ n) : covered ps ⊆ Finset.range n := by
  intro i hi
  obtain ⟨p, hp, _, hs⟩ := mem_covered.mp hi
  exact Finset.mem_range.mpr (Nat.lt_of_lt_of_le hs (h p hp))

theorem sizes_le (hd : ps.Pairwise Piece.Apart) (hn : ∀ p ∈ ps, p.stop ≤ n) : sizes ps ≤ n := by
  rw [← card_covered hd, ← Finset.card_range n]
  exact Finset.card_le_card (covered_subset hn)

/-- **Pieces that are apart and fill a range leave no gap in it.** -/
theorem covers (hd : ps.Pairwise Piece.Apart) (hn : ∀ p ∈ ps, p.stop ≤ n) (hs : sizes ps = n)
    {i : Nat} (hi : i < n) : ∃ p ∈ ps, p.start ≤ i ∧ i < p.stop := by
  have hall : covered ps = Finset.range n := by
    refine Finset.eq_of_subset_of_card_le (covered_subset hn) ?_
    rw [card_covered hd, hs, Finset.card_range]
  rw [← mem_covered, hall]
  exact Finset.mem_range.mpr hi

/-! ## Contents -/

namespace Piece

/-- The list shows the piece's elements at its position. -/
def Agrees (whole : List α) (p : Piece α) : Prop :=
  (whole.drop p.start).take p.data.length = p.data

instance [DecidableEq α] (whole : List α) (p : Piece α) : Decidable (Agrees whole p) :=
  inferInstanceAs (Decidable (_ = _))

variable {p : Piece α} {buf : List α}

theorem agrees_iff {whole : List α} :
    Agrees whole p ↔ ∀ i, p.start ≤ i → i < p.stop → whole[i]? = p.data[i - p.start]? := by
  unfold Agrees stop
  constructor
  · intro ha i h1 h2
    rw [← ha, List.getElem?_take_of_lt (by omega), List.getElem?_drop]
    congr 1
    omega
  · intro ha
    refine List.ext_getElem? fun i => ?_
    by_cases hi : i < p.data.length
    · rw [List.getElem?_take_of_lt hi, List.getElem?_drop, ha _ (by omega) (by omega)]
      congr 1
      omega
    · rw [List.getElem?_eq_none (by simp; omega), List.getElem?_eq_none (by omega)]

def write (buf : List α) (p : Piece α) : List α :=
  buf.take p.start ++ p.data ++ buf.drop p.stop

theorem length_write (h : p.stop ≤ buf.length) : (write buf p).length = buf.length := by
  unfold stop at h
  simp only [write, stop, List.length_append, List.length_take, List.length_drop]
  omega

theorem getElem?_write (h : p.stop ≤ buf.length) (i : Nat) :
    (write buf p)[i]? = if p.start ≤ i ∧ i < p.stop then p.data[i - p.start]? else buf[i]? := by
  unfold stop at h
  unfold write stop
  have hstart : (buf.take p.start).length = p.start := by simp; omega
  rcases Nat.lt_or_ge i p.start with hi | hi
  · rw [if_neg (by omega), List.append_assoc, List.getElem?_append_left (by omega),
      List.getElem?_take_of_lt hi]
  · rw [List.append_assoc, List.getElem?_append_right (by omega), hstart]
    rcases Nat.lt_or_ge (i - p.start) p.data.length with hj | hj
    · rw [if_pos (by omega), List.getElem?_append_left hj]
    · rw [if_neg (by omega), List.getElem?_append_right hj, List.getElem?_drop]
      congr 1
      omega

theorem agrees_write_self (h : p.stop ≤ buf.length) : Agrees (write buf p) p := by
  rw [agrees_iff]
  intro i h1 h2
  rw [getElem?_write h, if_pos ⟨h1, h2⟩]

theorem agrees_write {q : Piece α} (hp : p.stop ≤ buf.length) (hd : q.Apart p) (ha : Agrees buf q) :
    Agrees (write buf p) q := by
  rw [agrees_iff] at ha ⊢
  intro i h1 h2
  rw [getElem?_write hp, if_neg, ha i h1 h2]
  rintro ⟨h3, h4⟩
  rcases hd with hd | hd <;> omega

end Piece

/-- The pieces cut the list up without gap or overlap. -/
structure Tiling (ps : List (Piece α)) (whole : List α) : Prop where
  apart : ps.Pairwise Piece.Apart
  cover : ∀ i < whole.length, ∃ p ∈ ps, p.start ≤ i ∧ i < p.stop
  agrees : ∀ p ∈ ps, p.Agrees whole

/-- **Pieces that are apart and fill a list tile it.** -/
theorem Tiling.of_sizes {whole : List α} (hd : ps.Pairwise Piece.Apart)
    (hn : ∀ p ∈ ps, p.stop ≤ whole.length) (hs : sizes ps = whole.length)
    (ha : ∀ p ∈ ps, p.Agrees whole) : Tiling ps whole :=
  ⟨hd, fun _ hi => covers hd hn hs hi, ha⟩

/-- **A list is determined by its length and the pieces that tile it.** -/
theorem Tiling.eq {xs ys : List α} (h : Tiling ps xs) (hl : xs.length = ys.length)
    (hy : ∀ p ∈ ps, p.Agrees ys) : xs = ys := by
  refine List.ext_getElem? fun i => ?_
  by_cases hi : i < xs.length
  · obtain ⟨p, hp, h1, h2⟩ := h.cover i hi
    rw [Piece.agrees_iff.mp (h.agrees p hp) i h1 h2, Piece.agrees_iff.mp (hy p hp) i h1 h2]
  · rw [List.getElem?_eq_none (by omega), List.getElem?_eq_none (by omega)]

end Qeli.Lib
