import Mathlib.Logic.Function.Basic

/-!
# Feistel networks

A round keeps one half and mixes a function of it into the other. Whatever the
functions, a network of such rounds is injective, as long as mixing the same
value twice cancels.
-/

namespace Qeli.Lib

variable {α : Type*}

def feistelRound (mix : α → α → α) (f : α → α) (x : α × α) : α × α := (x.2, mix x.1 (f x.2))

def feistel (mix : α → α → α) (fs : List (α → α)) (x : α × α) : α × α :=
  fs.foldl (fun x f => feistelRound mix f x) x

section Cancel

variable {mix : α → α → α} (cancel : ∀ a b, mix (mix a b) b = a)
include cancel

theorem feistelRound_injective (f : α → α) : Function.Injective (feistelRound mix f) := by
  rintro ⟨l, r⟩ ⟨l', r'⟩ h
  simp only [feistelRound, Prod.mk.injEq] at h
  obtain ⟨rfl, hmix⟩ := h
  rw [← cancel l (f r), hmix, cancel]

/-- **A Feistel network is injective** for any round functions. -/
theorem feistel_injective (fs : List (α → α)) : Function.Injective (feistel mix fs) := by
  induction fs with
  | nil => exact Function.injective_id
  | cons f fs ih => exact ih.comp (feistelRound_injective cancel f)

end Cancel

end Qeli.Lib
