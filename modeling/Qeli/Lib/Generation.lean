import Mathlib.Data.List.Basic

/-!
# Generations

A counter of a state that every step either keeps or moves on by one. `changes` counts the
steps of a run that move it; after a run the counter is ahead by that many
(`foldl_add_changes`), so what was captured before a change is told from the present as long
as the counter has not gone round.
-/

namespace Qeli.Lib

variable {σ ε R : Type*} [DecidableEq R]

def changes (g : σ → ε → σ) (f : σ → R) : σ → List ε → Nat
  | _, [] => 0
  | s, e :: es => (if f (g s e) = f s then 0 else 1) + changes g f (g s e) es

variable {g : σ → ε → σ} {f : σ → R}

theorem changes_append (s : σ) (es es' : List ε) :
    changes g f s (es ++ es') = changes g f s es + changes g f (es.foldl g s) es' := by
  induction es generalizing s with
  | nil => simp [changes]
  | cons e es ih => rw [List.cons_append, changes, changes, ih, List.foldl_cons, Nat.add_assoc]

theorem changes_pos {s : σ} {es es' : List ε} {e : ε}
    (h : f (g (es.foldl g s) e) ≠ f (es.foldl g s)) : 0 < changes g f s (es ++ e :: es') := by
  rw [changes_append, changes, if_neg h]
  omega

/-! ## Counters that go round -/

variable {c : σ → Nat} {m : Nat}

theorem foldl_add_changes (hstep : ∀ s e, c (g s e) = c s ∨ c (g s e) = (c s + 1) % m)
    {s : σ} (hlt : c s < m) (es : List ε) :
    c (es.foldl g s) = (c s + changes g c s es) % m := by
  have hm : ∀ s e, c s < m → c (g s e) < m := by
    intro s e hs
    rcases hstep s e with h | h
    · rw [h]
      exact hs
    · rw [h]
      exact Nat.mod_lt _ (by omega)
  induction es generalizing s with
  | nil => rw [List.foldl_nil, changes, Nat.add_zero, Nat.mod_eq_of_lt hlt]
  | cons e es ih =>
    rw [List.foldl_cons, ih (hm s e hlt), changes]
    split
    · next hsame => rw [hsame, Nat.zero_add]
    · next hmoved =>
      rw [(hstep s e).resolve_left hmoved, Nat.mod_add_mod, Nat.add_assoc]

/-- What was captured before a change, as long as the counter has not gone round. -/
theorem foldl_ne_of_changes (hstep : ∀ s e, c (g s e) = c s ∨ c (g s e) = (c s + 1) % m)
    {s : σ} (hlt : c s < m) {es : List ε} (hpos : 0 < changes g c s es)
    (hround : changes g c s es < m) : c (es.foldl g s) ≠ c s := by
  rw [foldl_add_changes hstep hlt]
  intro hsame
  rcases Nat.lt_or_ge (c s + changes g c s es) m with hbelow | habove
  · rw [Nat.mod_eq_of_lt hbelow] at hsame
    omega
  · rw [Nat.mod_eq_sub_mod habove, Nat.mod_eq_of_lt (by omega)] at hsame
    omega

end Qeli.Lib
