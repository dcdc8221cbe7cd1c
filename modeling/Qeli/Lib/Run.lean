import Mathlib.Data.List.Induction

/-!
# Runs of a labelled transition relation

`Run step s es t`: the events `es`, in order, lead from `s` to `t`. A run grows
at its end, so the events of a run are its history and an invariant may speak
about both (`Run.invariant`). `Run.split` cuts a run at any point of its
history, `Run.append` joins two runs. `trace` is the run of a step function.
-/

namespace Qeli.Lib

variable {σ ε : Type*} {step : σ → ε → σ → Prop}

inductive Run (step : σ → ε → σ → Prop) (s : σ) : List ε → σ → Prop where
  | nil : Run step s [] s
  | snoc {es : List ε} {t u : σ} {e : ε} : Run step s es t → step t e u →
      Run step s (es ++ [e]) u

namespace Run

variable {s t u : σ} {es : List ε}

/-- **Invariants of the state and the history.** -/
theorem invariant {P : List ε → σ → Prop} (h0 : P [] s)
    (hs : ∀ {es t e u}, Run step s es t → P es t → step t e u → P (es ++ [e]) u)
    (h : Run step s es t) : P es t := by
  induction h with
  | nil => exact h0
  | snoc hr he ih => exact hs hr ih he

theorem preserves {P : σ → Prop} (h : Run step s es t) (h0 : P s)
    (hs : ∀ {t e u}, P t → step t e u → P u) : P t :=
  h.invariant (P := fun _ => P) h0 fun _ => hs

theorem preserves_of_forall {P : σ → Prop} {C : ε → Prop} (h : Run step s es t)
    (hes : ∀ e ∈ es, C e) (h0 : P s) (hs : ∀ {t e u}, C e → P t → step t e u → P u) : P t := by
  induction h with
  | nil => exact h0
  | snoc hr he ih =>
    rw [List.forall_mem_append, List.forall_mem_singleton] at hes
    exact hs hes.2 (ih hes.1) he

variable {fs : List ε} {e : ε}

theorem append (h : Run step s es t) (h' : Run step t fs u) : Run step s (es ++ fs) u := by
  induction h' with
  | nil => simpa using h
  | snoc _ he ih => rw [← List.append_assoc]; exact .snoc ih he

theorem cons (h : step s e t) (h' : Run step t es u) : Run step s (e :: es) u :=
  (Run.snoc .nil h).append h'

theorem unsnoc (h : Run step s (es ++ [e]) u) : ∃ t, Run step s es t ∧ step t e u := by
  generalize hl : es ++ [e] = l at h
  cases h with
  | nil => simp at hl
  | snoc hr he =>
    obtain ⟨rfl, rfl⟩ := List.append_singleton_inj.mp hl
    exact ⟨_, hr, he⟩

theorem split {s u : σ} {es : List ε} (h : Run step s (es ++ fs) u) :
    ∃ t, Run step s es t ∧ Run step t fs u := by
  induction fs using List.reverseRecOn generalizing u with
  | nil => exact ⟨u, by simpa using h, .nil⟩
  | append_singleton fs e ih =>
    rw [← List.append_assoc] at h
    obtain ⟨v, hv, he⟩ := h.unsnoc
    obtain ⟨t, h1, h2⟩ := ih hv
    exact ⟨t, h1, .snoc h2 he⟩

theorem step_at (h : Run step s (es ++ e :: fs) u) :
    ∃ t v, Run step s es t ∧ step t e v ∧ Run step v fs u := by
  have h' : Run step s ((es ++ [e]) ++ fs) u := by simpa using h
  obtain ⟨v, h1, h2⟩ := h'.split
  obtain ⟨t, ht, he⟩ := h1.unsnoc
  exact ⟨t, v, ht, he, h2⟩

end Run

/-! ## Step functions -/

section Trace

variable {ι : Type*} (f : σ → ι → σ × ε)

/-- A step function over a list of inputs, with the events it reports. -/
def trace (s : σ) (is : List ι) : σ × List ε :=
  is.foldl (fun (s, es) i =>
    let (t, e) := f s i
    (t, es ++ [e])) (s, [])

theorem trace_snoc (s : σ) (is : List ι) (i : ι) :
    trace f s (is ++ [i]) =
      ((f (trace f s is).1 i).1, (trace f s is).2 ++ [(f (trace f s is).1 i).2]) := by
  unfold trace
  rw [List.foldl_append]
  rfl

theorem trace_append (s : σ) (is js : List ι) :
    trace f s (is ++ js) =
      ((trace f (trace f s is).1 js).1, (trace f s is).2 ++ (trace f (trace f s is).1 js).2) := by
  induction js using List.reverseRecOn with
  | nil => simp [trace]
  | append_singleton js j ih =>
    rw [← List.append_assoc, trace_snoc, trace_snoc, ih, List.append_assoc]

@[simp] theorem length_trace (s : σ) (is : List ι) : (trace f s is).2.length = is.length := by
  induction is using List.reverseRecOn with
  | nil => rfl
  | append_singleton is i ih => rw [trace_snoc, List.length_append, List.length_append, ih]; rfl

theorem trace_at (s : σ) (is js : List ι) (i : ι) :
    (trace f s (is ++ i :: js)).2[is.length]? = some (f (trace f s is).1 i).2 := by
  induction js using List.reverseRecOn with
  | nil => rw [trace_snoc, ← length_trace f s is, List.getElem?_concat_length]
  | append_singleton js j ih =>
    rw [← List.cons_append, ← List.append_assoc, trace_snoc, List.getElem?_append_left, ih]
    rw [length_trace, List.length_append]
    simp

variable {f}

theorem run_foldl {g : σ → ε → σ} (hg : ∀ s e, step s e (g s e)) (s : σ) (es : List ε) :
    Run step s es (es.foldl g s) := by
  induction es using List.reverseRecOn with
  | nil => exact .nil
  | append_singleton es e ih =>
    rw [List.foldl_append]
    exact .snoc ih (hg _ _)

theorem trace_run (hf : ∀ s i, step s (f s i).2 (f s i).1) (s : σ) (is : List ι) :
    Run step s (trace f s is).2 (trace f s is).1 := by
  induction is using List.reverseRecOn with
  | nil => exact .nil
  | append_singleton is i ih =>
    rw [trace_snoc]
    exact .snoc ih (hf _ _)

end Trace

/-! ## What has held since a step -/

section Since

variable {g : σ → ε → σ} {brought : ε → Prop} {holds : σ → Prop} {s : σ}

/-- One of the events is of the kind that brings a property about, and the property has
held ever since. -/
def HoldsSince (g : σ → ε → σ) (brought : ε → Prop) (holds : σ → Prop) (s : σ) (es : List ε) :
    Prop :=
  ∃ before e after, es = before ++ e :: after ∧ brought e ∧
    ∀ kept rest, after = kept ++ rest → holds ((before ++ e :: kept).foldl g s)

theorem HoldsSince.snoc {es : List ε} {e : ε} (h : HoldsSince g brought holds s es)
    (hnow : holds ((es ++ [e]).foldl g s)) : HoldsSince g brought holds s (es ++ [e]) := by
  obtain ⟨before, b, after, rfl, hb, hheld⟩ := h
  refine ⟨before, b, after ++ [e], by simp, hb, fun kept rest hsplit => ?_⟩
  rcases List.eq_nil_or_concat rest with rfl | ⟨rest, last, rfl⟩
  · rw [List.append_nil] at hsplit
    rw [← hsplit]
    simpa using hnow
  · rw [List.concat_eq_append, ← List.append_assoc] at hsplit
    exact hheld kept rest (List.append_inj' hsplit rfl).1

theorem holdsSince (h0 : ¬ holds s)
    (hstep : ∀ es e, ¬ holds (es.foldl g s) → holds ((es ++ [e]).foldl g s) → brought e)
    (es : List ε) (hnow : holds (es.foldl g s)) : HoldsSince g brought holds s es := by
  induction es using List.reverseRecOn with
  | nil => exact absurd hnow h0
  | append_singleton es e ih =>
    by_cases hbefore : holds (es.foldl g s)
    · exact (ih hbefore).snoc hnow
    · refine ⟨es, e, [], rfl, hstep es e hbefore hnow, fun kept rest hsplit => ?_⟩
      obtain ⟨rfl, rfl⟩ := List.append_eq_nil_iff.mp hsplit.symm
      exact hnow

end Since

/-! ## Loops that can fail -/

variable {α β δ : Type}

variable {f : α → Except δ β} {xs : List α}

theorem of_bind_ok {x : Except δ α} {b : β} (h : x >>= f = .ok b) :
    ∃ a, x = .ok a ∧ f a = .ok b := by
  cases x with
  | error e => cases h
  | ok a => exact ⟨a, rfl, h⟩

theorem of_bind_error {x : Except δ α} {e : δ} (h : x >>= f = .error e) :
    x = .error e ∨ ∃ a, x = .ok a ∧ f a = .error e := by
  cases x with
  | error e' =>
    cases h
    exact .inl rfl
  | ok a => exact .inr ⟨a, rfl, h⟩

theorem of_mapM_error {e : δ} (h : xs.mapM f = .error e) : ∃ x ∈ xs, f x = .error e := by
  induction xs with
  | nil => cases h
  | cons x xs ih =>
    rw [List.mapM_cons] at h
    rcases of_bind_error h with hx | ⟨y, -, h⟩
    · exact ⟨x, List.mem_cons_self, hx⟩
    · rcases of_bind_error h with hxs | ⟨ys, -, h⟩
      · obtain ⟨z, hz, hfail⟩ := ih hxs
        exact ⟨z, List.mem_cons_of_mem _ hz, hfail⟩
      · cases h

theorem mem_of_mapM_ok {ys : List β} (h : xs.mapM f = .ok ys) (y : β) :
    y ∈ ys ↔ ∃ x ∈ xs, f x = .ok y := by
  induction xs generalizing ys with
  | nil =>
    cases h
    simp
  | cons x xs ih =>
    rw [List.mapM_cons] at h
    obtain ⟨z, hz, h⟩ := of_bind_ok h
    obtain ⟨zs, hzs, h⟩ := of_bind_ok h
    cases h
    have hhead : y = z ↔ f x = .ok y := by
      rw [hz, Except.ok.injEq, eq_comm]
    simp only [List.mem_cons, exists_eq_or_imp, ih hzs, hhead]

theorem foldlM_ok_collects {γ : Type} {f : β → α → Except δ β} (view : β → γ → Prop)
    (adds : α → γ → Prop)
    (hround : ∀ {b a b'}, f b a = .ok b' → ∀ x, view b' x ↔ view b x ∨ adds a x) {b b' : β}
    (h : xs.foldlM f b = .ok b') (x : γ) : view b' x ↔ view b x ∨ ∃ a ∈ xs, adds a x := by
  induction xs generalizing b with
  | nil =>
    cases h
    simp
  | cons a xs ih =>
    rw [List.foldlM_cons] at h
    obtain ⟨c, hc, h⟩ := of_bind_ok h
    simp only [ih h, hround hc, List.mem_cons, exists_eq_or_imp, or_assoc]

/-- A loop that did not fail: an invariant of its rounds, and what each element's own round
establishes and later rounds keep. -/
theorem foldlM_ok {α β δ : Type*} {f : β → α → Except δ β} (inv : β → Prop) (done : α → β → Prop)
    (hround : ∀ {b a b'}, inv b → f b a = .ok b' → inv b' ∧ done a b')
    (hkeep : ∀ {b a b' x}, done x b → f b a = .ok b' → done x b') :
    ∀ {xs : List α} {b b' : β}, xs.foldlM f b = .ok b' → inv b →
      inv b' ∧ (∀ x ∈ xs, done x b') ∧ ∀ x, done x b → done x b' := by
  intro xs
  induction xs with
  | nil =>
    intro b b' h hb
    cases h
    exact ⟨hb, by simp, fun _ => id⟩
  | cons x xs ih =>
    intro b b' h hb
    rw [List.foldlM_cons] at h
    cases hone : f b x with
    | error e =>
      rw [hone] at h
      cases h
    | ok c =>
      rw [hone] at h
      obtain ⟨hc, hx⟩ := hround hb hone
      obtain ⟨hb', hall, hlater⟩ := ih h hc
      exact ⟨hb', List.forall_mem_cons.mpr ⟨hlater x hx, hall⟩, fun y hy =>
        hlater y (hkeep hy hone)⟩

/-! ## Admissible inputs -/

/-- A list of inputs, each admissible after those before it. -/
inductive History {ι : Type*} (ok : List ι → ι → Prop) : List ι → Prop where
  | nil : History ok []
  | snoc {is : List ι} {i : ι} : History ok is → ok is i → History ok (is ++ [i])

namespace History

variable {ι : Type*} {ok : List ι → ι → Prop} {is pre post : List ι} {i : ι}

theorem at_split (h : History ok is) (hs : is = pre ++ i :: post) :
    History ok pre ∧ ok pre i := by
  induction h generalizing post with
  | nil => simp at hs
  | @snoc js j hjs hok ih =>
    rcases List.eq_nil_or_concat post with rfl | ⟨post, last, rfl⟩
    · obtain ⟨rfl, heq⟩ := List.append_inj' hs rfl
      cases heq
      exact ⟨hjs, hok⟩
    · rw [List.concat_eq_append, ← List.cons_append, ← List.append_assoc] at hs
      exact ih (List.append_inj' hs rfl).1

theorem trace_at {f : σ → ι → σ × ε} {s : σ} {expected : List ι → ι → ε} (h : History ok is)
    (hstep : ∀ {is i}, History ok is → ok is i → (f (trace f s is).1 i).2 = expected is i)
    (hs : is = pre ++ i :: post) : (trace f s is).2[pre.length]? = some (expected pre i) := by
  obtain ⟨hpre, hok⟩ := h.at_split hs
  rw [hs, Lib.trace_at, hstep hpre hok]

end History

/-! ## One more event -/

theorem forall_mem_snoc {p : ε → Prop} {es : List ε} {e : ε} :
    (∀ x ∈ es ++ [e], p x) ↔ (∀ x ∈ es, p x) ∧ p e := by
  rw [List.forall_mem_append, List.forall_mem_singleton]

theorem filterMap_snoc {β : Type*} (f : ε → Option β) (es : List ε) (e : ε) :
    (es ++ [e]).filterMap f = es.filterMap f ++ (f e).toList := by
  cases h : f e <;> simp [h]

end Qeli.Lib
