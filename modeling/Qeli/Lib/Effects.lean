import Mathlib.Logic.Relation

/-!
# Programs with effects

A program asks for effects one after the other, goes on with the answers, and ends with a value
or an error. `perform e w r w'` says that the effect `e` may answer `r` in the world `w` and
leave the world `w'`. `Holds perform inv p Q w` is the weakest precondition of a program that may
be cut off between any two effects: from `w`, whatever the answers are, `inv` holds after every
effect of `p`, and `Q` holds of the result and the world at its end.
-/

namespace Qeli.Lib

inductive Prog (E : Type) (R : E → Type) (ε α : Type) where
  | done (result : Except ε α)
  | act (e : E) (k : R e → Prog E R ε α)

namespace Prog

variable {E : Type} {R : E → Type} {ε α β ω : Type}

protected def bind : Prog E R ε α → (α → Prog E R ε β) → Prog E R ε β
  | done (.ok a), f => f a
  | done (.error e), _ => done (.error e)
  | act e k, f => act e fun r => (k r).bind f

instance : Monad (Prog E R ε) where
  pure a := done (.ok a)
  bind := Prog.bind

/-- The result of a program, its error included. -/
def attempt : Prog E R ε α → Prog E R ε (Except ε α)
  | done r => done (.ok r)
  | act e k => act e fun r => (k r).attempt

def ask (e : E) : Prog E R ε (R e) := act e fun r => done (.ok r)

/-! ## Weakest preconditions -/

variable (perform : (e : E) → ω → R e → ω → Prop) (inv : ω → Prop)

def Holds : Prog E R ε α → (Except ε α → ω → Prop) → ω → Prop
  | done r, Q, w => Q r w
  | act e k, Q, w => ∀ r w', perform e w r w' → inv w' ∧ (k r).Holds Q w'

/-- What has to hold before the rest of a program: an error skips it. -/
def Before (f : α → Prog E R ε β) (Q : Except ε β → ω → Prop) : Except ε α → ω → Prop
  | .ok a, w => (f a).Holds perform inv Q w
  | .error e, w => Q (.error e) w

variable {perform inv} {p : Prog E R ε α} {f : α → Prog E R ε β} {w : ω}

theorem holds_bind {Q : Except ε β → ω → Prop}
    (h : p.Holds perform inv (Before perform inv f Q) w) : (p >>= f).Holds perform inv Q w := by
  change (p.bind f).Holds perform inv Q w
  induction p generalizing w with
  | done r =>
    cases r with
    | ok a | error e => exact h
  | act e k ih => exact fun r w' hstep => ⟨(h r w' hstep).1, ih r (h r w' hstep).2⟩

theorem holds_done_bind {result : Except ε α} {Q : Except ε β → ω → Prop}
    (herror : ∀ e, result = .error e → Q (.error e) w)
    (hok : ∀ a, result = .ok a → (f a).Holds perform inv Q w) :
    (done result >>= f).Holds perform inv Q w := by
  cases result with
  | ok a => exact hok a rfl
  | error e => exact herror e rfl

theorem holds_attempt {Q : Except ε (Except ε α) → ω → Prop}
    (h : p.Holds perform inv (fun r => Q (.ok r)) w) : p.attempt.Holds perform inv Q w := by
  induction p generalizing w with
  | done r => exact h
  | act e k ih => exact fun r w' hstep => ⟨(h r w' hstep).1, ih r (h r w' hstep).2⟩

theorem holds_ask {e : E} {Q : Except ε (R e) → ω → Prop}
    (h : ∀ r w', perform e w r w' → inv w' ∧ Q (.ok r) w') :
    (ask e : Prog E R ε (R e)).Holds perform inv Q w := h

theorem Holds.mono {Q Q' : Except ε α → ω → Prop} (h : p.Holds perform inv Q w)
    (hQ : ∀ r w, Q r w → Q' r w) : p.Holds perform inv Q' w := by
  induction p generalizing w with
  | done r => exact hQ r w h
  | act e k ih => exact fun r w' hstep => ⟨(h r w' hstep).1, ih r (h r w' hstep).2⟩

/-! ## Execution -/

/-- The end of a program whose effects are answered by a function. -/
def exec (answer : (e : E) → ω → R e × ω) : Prog E R ε α → ω → Except ε α × ω
  | done r, w => (r, w)
  | act e k, w => (k (answer e w).1).exec answer (answer e w).2

end Prog

end Qeli.Lib
