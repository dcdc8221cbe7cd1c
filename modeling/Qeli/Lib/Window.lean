import Mathlib.Data.List.TakeWhile
import Mathlib.Algebra.Order.Group.Nat

/-!
# Sliding-window rate limits

A limiter keeps the times of recent starts in a queue, drops those that are a
window old and admits a start while the queue is shorter than the limit.
`Windowed` relates the queue to the whole history of admitted starts: what was
dropped is at least a window before the clock. It gives `limited`, that no
half-open window of the given length holds more than `limit` starts.
-/

namespace Qeli.Lib

/-- The starts of the half-open window that begins at `w`. -/
def startsIn (window w : Nat) (history : List Nat) : List Nat :=
  history.filter fun x => w ≤ x ∧ x < w + window

structure Windowed (window limit : Nat) (history queue : List Nat) (clock : Nat) : Prop where
  kept : ∃ old, history = old ++ queue ∧ ∀ x ∈ old, x + window ≤ clock
  limited : ∀ w, (startsIn window w history).length ≤ limit

namespace Windowed

variable {window limit clock : Nat} {history queue : List Nat}

theorem empty (window limit clock : Nat) : Windowed window limit [] [] clock :=
  ⟨⟨[], rfl, nofun⟩, fun _ => Nat.zero_le _⟩

theorem tick (h : Windowed window limit history queue clock) {clock' : Nat}
    (hle : clock ≤ clock') : Windowed window limit history queue clock' := by
  obtain ⟨old, heq, hold⟩ := h.kept
  exact ⟨⟨old, heq, fun x hx => (hold x hx).trans hle⟩, h.limited⟩

theorem prune (h : Windowed window limit history queue clock) (p : Nat → Bool)
    (hp : ∀ x, p x = true → x + window ≤ clock) :
    Windowed window limit history (queue.dropWhile p) clock := by
  obtain ⟨old, heq, hold⟩ := h.kept
  refine ⟨⟨old ++ queue.takeWhile p, ?_, fun x hx => ?_⟩, h.limited⟩
  · rw [List.append_assoc, List.takeWhile_append_dropWhile, heq]
  · rcases List.mem_append.mp hx with hx | hx
    · exact hold x hx
    · exact hp x (List.mem_takeWhile_imp hx)

theorem push (h : Windowed window limit history queue clock) (hlen : queue.length < limit) :
    Windowed window limit (history ++ [clock]) (queue ++ [clock]) clock := by
  obtain ⟨old, heq, hold⟩ := h.kept
  refine ⟨⟨old, by rw [heq, List.append_assoc], hold⟩, fun w => ?_⟩
  by_cases hin : w ≤ clock ∧ clock < w + window
  · -- everything that was dropped lies before a window that holds the clock
    have hnone : startsIn window w old = [] := by
      refine List.filter_eq_nil_iff.mpr fun x hx => ?_
      have := hold x hx
      simp only [decide_eq_true_eq]
      omega
    have hq : (startsIn window w queue).length ≤ queue.length := List.length_filter_le _ _
    have hsplit : startsIn window w (history ++ [clock]) =
        startsIn window w queue ++ [clock] := by
      rw [heq]
      unfold startsIn at hnone ⊢
      rw [List.filter_append, List.filter_append, hnone, List.nil_append]
      simp [hin]
    rw [hsplit, List.length_append, List.length_singleton]
    omega
  · have hsplit : startsIn window w (history ++ [clock]) = startsIn window w history := by
      unfold startsIn
      rw [List.filter_append]
      simp [hin]
    rw [hsplit]
    exact h.limited w

end Windowed

end Qeli.Lib
