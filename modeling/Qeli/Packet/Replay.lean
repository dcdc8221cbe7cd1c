import Qeli.Lib.Run
import Qeli.Lib.Words

/-!
# The replay window

`ReplayWindow` of `protocol/packet.rs`: a bit array over the last 2048 sequence
numbers, where the bit at distance `d` stands for `highest - d`. `Tracks w seen`
relates it to the list of numbers accepted so far; a check keeps the relation and
answers from it (`Tracks.check`), so a fresh window decides membership in the
abstract window `InWindow` over every sequence.
-/

namespace Qeli.Packet

open Qeli.Lib

def replayWindowSize : Nat := 2048

def replayWords : Nat := replayWindowSize / 64

structure ReplayWindow where
  highest : Nat
  bits : Words replayWords
  initialized : Bool

namespace ReplayWindow

def new : ReplayWindow where
  highest := 0
  bits := .replicate replayWords 0
  initialized := false

def getBit (self : ReplayWindow) (distance : Nat) : Bool :=
  (self.bits.word (distance / 64) >>> (distance % 64)) &&& 1 != 0

def setBit (self : ReplayWindow) (distance : Nat) : ReplayWindow :=
  { self with
    bits := self.bits.setIfInBounds (distance / 64)
      (self.bits.word (distance / 64) ||| 1#64 <<< (distance % 64)) }

/-- Shift the window toward higher distance. -/
def shift (self : ReplayWindow) (n : Nat) : ReplayWindow :=
  let words := n / 64
  let off := n % 64
  if off = 0 then
    { self with
      bits := self.bits.overwriteDown
        (fun bits i => if words ≤ i then bits.word (i - words) else 0) replayWords }
  else
    { self with
      bits := self.bits.overwriteDown
        (fun bits i =>
          let lo := if words ≤ i then bits.word (i - words) <<< off else 0
          let hi := if words < i then bits.word (i - words - 1) >>> (64 - off) else 0
          lo ||| hi) replayWords }

def checkAndRecord (self : ReplayWindow) (seq : Nat) : ReplayWindow × Bool :=
  if !self.initialized then
    (setBit { highest := seq, initialized := true, bits := .replicate replayWords 0 } 0, true)
  else if self.highest < seq then
    let advance := seq - self.highest
    let moved := if replayWindowSize ≤ advance then
        { self with bits := .replicate replayWords 0 }
      else self.shift advance
    (setBit { moved with highest := seq } 0, true)
  else
    let distance := self.highest - seq
    if replayWindowSize ≤ distance then (self, false)
    else if self.getBit distance then (self, false)
    else (self.setBit distance, true)

/-! ## Bits -/

theorem getBit_eq (w : ReplayWindow) (d : Nat) : w.getBit d = w.bits.testBit d := by
  have hone : (w.bits.word (d / 64) >>> (d % 64)) &&& 1 =
      if (w.bits.word (d / 64)).getLsbD (d % 64) then 1 else 0 := by
    ext i hi
    rw [← BitVec.getLsbD_eq_getElem, ← BitVec.getLsbD_eq_getElem, BitVec.getLsbD_and,
      BitVec.getLsbD_ushiftRight]
    cases i with
    | zero | succ i => cases (w.bits.word (d / 64)).getLsbD (d % 64) <;> simp
  unfold getBit Words.testBit
  rw [hone]
  cases (w.bits.word (d / 64)).getLsbD (d % 64) <;> rfl

variable {d : Nat} {w : ReplayWindow} {seen : List Nat}

theorem testBit_setBit (w : ReplayWindow) (hd : d < replayWindowSize) (e : Nat) :
    (w.setBit d).bits.testBit e = (e == d || w.bits.testBit e) :=
  Words.testBit_setBit w.bits (show d < 64 * replayWords from hd) e

theorem word_shift (w : ReplayWindow) (n : Nat) {i : Nat} (hi : i < replayWords) :
    (w.shift n).bits.word i = w.bits.shiftedWord (n / 64) (n % 64) i := by
  unfold shift Words.shiftedWord
  dsimp only
  split
  · next hoff =>
    rw [Words.word_overwriteDown (fun h => ?_) _ (Nat.le_refl _), if_pos hi, hoff]
    · have hzero : (if n / 64 < i then w.bits.word (i - n / 64 - 1) >>> (64 - 0) else 0) = 0 := by
        split
        · exact BitVec.eq_of_getLsbD_eq fun j _ => by
            rw [BitVec.getLsbD_ushiftRight]
            simp
        · rfl
      rw [hzero]
      simp
    · split
      · exact h _ (by omega)
      · rfl
  · rw [Words.word_overwriteDown (fun h => ?_) _ (Nat.le_refl _), if_pos hi]
    congr 1
    · split
      · rw [h _ (by omega)]
      · rfl
    · split
      · rw [h _ (by omega)]
      · rfl

theorem testBit_shift (w : ReplayWindow) {n : Nat} (hd : d < replayWindowSize) :
    (w.shift n).bits.testBit d = (decide (n ≤ d) && w.bits.testBit (d - n)) := by
  have h := Words.testBit_of_shifted (Nat.mod_lt n (show 0 < 64 by omega))
    (fun i hi => w.word_shift n hi) (show d < 64 * replayWords from hd)
  rwa [show 64 * (n / 64) + n % 64 = n by omega] at h

/-! ## The window as a set -/

/-- The abstract window over the numbers seen: unseen, and not too far below the
largest. -/
def InWindow (seen : List Nat) (seq : Nat) : Prop :=
  seq ∉ seen ∧ (seen = [] ∨ ∃ h ∈ seen, (∀ x ∈ seen, x ≤ h) ∧
    (h < seq ∨ h - seq < replayWindowSize))

/-- The bits are the last numbers of `seen`. -/
structure Tracks (w : ReplayWindow) (seen : List Nat) : Prop where
  fresh : w.initialized = false → seen = []
  highest : w.initialized = true → w.highest ∈ seen ∧ ∀ x ∈ seen, x ≤ w.highest
  bit : w.initialized = true → ∀ d < replayWindowSize,
    (w.bits.testBit d = true ↔ d ≤ w.highest ∧ w.highest - d ∈ seen)

theorem tracks_new : Tracks new [] := ⟨fun _ => rfl, nofun, nofun⟩

def recorded (seen : List Nat) (seq : Nat) (accepted : Bool) : List Nat :=
  if accepted then seen ++ [seq] else seen

theorem inWindow_iff (h : Tracks w seen) (hinit : w.initialized = true) (seq : Nat) :
    InWindow seen seq ↔
      seq ∉ seen ∧ (w.highest < seq ∨ w.highest - seq < replayWindowSize) := by
  obtain ⟨hmem, hmax⟩ := h.highest hinit
  refine and_congr_right fun _ => ⟨?_, fun hd => .inr ⟨w.highest, hmem, hmax, hd⟩⟩
  rintro (rfl | ⟨top, htop, hle, hd⟩)
  · cases hmem
  · rwa [show w.highest = top from Nat.le_antisymm (hle _ hmem) (hmax _ htop)]

theorem Tracks.first (h : Tracks w seen) (hinit : w.initialized = false) (seq : Nat) :
    InWindow seen seq ∧
      Tracks (setBit ⟨seq, .replicate replayWords 0, true⟩ 0) (seen ++ [seq]) := by
  obtain rfl := h.fresh hinit
  refine ⟨⟨by simp, .inl rfl⟩, nofun, fun _ => ⟨by simp [setBit], by simp [setBit]⟩, ?_⟩
  intro _ d _
  rw [testBit_setBit _ (by decide), Words.testBit_replicate]
  simp only [setBit, Bool.or_false, beq_iff_eq, List.nil_append, List.mem_singleton]
  omega

theorem Tracks.advance {moved : ReplayWindow} (h : Tracks w seen) (hinit : w.initialized = true)
    {seq : Nat} (hlt : w.highest < seq) (hmoved : moved.initialized = true)
    (hbits : ∀ d < replayWindowSize, moved.bits.testBit d =
      (decide (seq - w.highest ≤ d) && w.bits.testBit (d - (seq - w.highest)))) :
    InWindow seen seq ∧ Tracks (setBit { moved with highest := seq } 0) (seen ++ [seq]) := by
  obtain ⟨hmem, hmax⟩ := h.highest hinit
  have hnew : seq ∉ seen := fun hin => by have := hmax seq hin; omega
  refine ⟨(inWindow_iff h hinit seq).mpr ⟨hnew, .inl hlt⟩, fun hno => ?_, fun _ => ⟨?_, ?_⟩, ?_⟩
  · rw [show (setBit { moved with highest := seq } 0).initialized = moved.initialized from rfl,
      hmoved] at hno
    cases hno
  · simp [setBit]
  · exact forall_mem_snoc.mpr ⟨fun x hx => (hmax x hx).trans hlt.le, Nat.le_refl seq⟩
  · intro _ d hd
    rw [testBit_setBit _ (by decide)]
    show (d == 0 || moved.bits.testBit d) = true ↔ d ≤ seq ∧ seq - d ∈ seen ++ [seq]
    rw [hbits d hd, Bool.or_eq_true, beq_iff_eq, Bool.and_eq_true, decide_eq_true_eq,
      List.mem_append, List.mem_singleton]
    by_cases hn : seq - w.highest ≤ d
    · -- an old number, at its distance from the old highest
      have hold := h.bit hinit (d - (seq - w.highest)) (by omega)
      rw [show w.highest - (d - (seq - w.highest)) = seq - d by omega] at hold
      rw [hold]
      constructor
      · rintro (rfl | ⟨-, hle, hin⟩)
        · omega
        · exact ⟨by omega, .inl hin⟩
      · rintro ⟨hle, hin | heq⟩
        · exact .inr ⟨hn, by omega, hin⟩
        · omega
    · -- above the old highest nothing was seen
      constructor
      · rintro (rfl | ⟨hle, -⟩)
        · exact ⟨by omega, .inr rfl⟩
        · exact absurd hle hn
      · rintro ⟨hle, hin | heq⟩
        · have := hmax _ hin
          omega
        · exact .inl (by omega)

theorem Tracks.record (h : Tracks w seen) (hinit : w.initialized = true) {seq : Nat}
    (hle : seq ≤ w.highest) (hd : w.highest - seq < replayWindowSize) :
    Tracks (w.setBit (w.highest - seq)) (seen ++ [seq]) := by
  obtain ⟨hmem, hmax⟩ := h.highest hinit
  refine ⟨fun hno => ?_, fun _ => ⟨List.mem_append_left _ hmem, ?_⟩, ?_⟩
  · rw [show (w.setBit (w.highest - seq)).initialized = w.initialized from rfl, hinit] at hno
    cases hno
  · exact forall_mem_snoc.mpr ⟨hmax, hle⟩
  · intro _ d hlt
    rw [testBit_setBit _ hd]
    show (d == w.highest - seq || w.bits.testBit d) = true ↔
      d ≤ w.highest ∧ w.highest - d ∈ seen ++ [seq]
    rw [Bool.or_eq_true, beq_iff_eq, h.bit hinit d hlt, List.mem_append, List.mem_singleton]
    constructor
    · rintro (rfl | ⟨h1, h2⟩)
      · exact ⟨by omega, .inr (by omega)⟩
      · exact ⟨h1, .inl h2⟩
    · rintro ⟨h1, h2 | h2⟩
      · exact .inr ⟨h1, h2⟩
      · exact .inl (by omega)

theorem testBit_advance (w : ReplayWindow) (n : Nat) (hd : d < replayWindowSize) :
    (if replayWindowSize ≤ n then { w with bits := .replicate replayWords 0 }
      else w.shift n).bits.testBit d = (decide (n ≤ d) && w.bits.testBit (d - n)) := by
  split
  · next hn =>
    rw [Words.testBit_replicate, decide_eq_false (show ¬ n ≤ d by omega), Bool.false_and]
  · exact w.testBit_shift hd

theorem initialized_advance (w : ReplayWindow) (n : Nat) :
    (if replayWindowSize ≤ n then { w with bits := .replicate replayWords 0 }
      else w.shift n).initialized = w.initialized := by
  unfold shift
  split
  · rfl
  · dsimp only
    split <;> rfl

/-- **A check answers for the set and keeps it.** -/
theorem Tracks.check (h : Tracks w seen) (seq : Nat) :
    ((w.checkAndRecord seq).2 = true ↔ InWindow seen seq) ∧
      Tracks (w.checkAndRecord seq).1 (recorded seen seq (w.checkAndRecord seq).2) := by
  unfold checkAndRecord
  by_cases hinit : w.initialized = true
  · rw [if_neg (by simp [hinit])]
    have hiff := inWindow_iff h hinit seq
    by_cases hlt : w.highest < seq
    · rw [if_pos hlt]
      obtain ⟨hin, htracks⟩ := h.advance hinit hlt
        ((w.initialized_advance (seq - w.highest)).trans hinit)
        fun d hd => w.testBit_advance (seq - w.highest) hd
      exact ⟨iff_of_true rfl hin, htracks⟩
    · rw [if_neg hlt]
      have hle : seq ≤ w.highest := by omega
      dsimp only
      by_cases hfar : replayWindowSize ≤ w.highest - seq
      · rw [if_pos hfar, hiff]
        exact ⟨iff_of_false (by simp) fun ⟨_, hnear⟩ => by omega, h⟩
      · rw [if_neg hfar, getBit_eq]
        have hd : w.highest - seq < replayWindowSize := by omega
        have hbit := h.bit hinit _ hd
        rw [show w.highest - (w.highest - seq) = seq by omega] at hbit
        by_cases hseen : w.bits.testBit (w.highest - seq) = true
        · rw [if_pos hseen, hiff]
          exact ⟨iff_of_false (by simp) fun ⟨hno, _⟩ => hno (hbit.mp hseen).2, h⟩
        · rw [if_neg hseen, hiff]
          have hno : seq ∉ seen := fun hin => hseen (hbit.mpr ⟨by omega, hin⟩)
          exact ⟨iff_of_true rfl ⟨hno, .inr hd⟩, h.record hinit hle hd⟩
  · rw [if_pos (by simp [hinit])]
    obtain ⟨hin, htracks⟩ := h.first (by simpa using hinit) seq
    exact ⟨iff_of_true rfl hin, htracks⟩

/-! ## Sequences -/

def feed (seqs : List Nat) : ReplayWindow × List Nat :=
  seqs.foldl (fun (self, accepted) seq =>
    let (self, ok) := self.checkAndRecord seq
    (self, recorded accepted seq ok)) (new, [])

theorem feed_snoc (seqs : List Nat) (seq : Nat) :
    feed (seqs ++ [seq]) = (((feed seqs).1.checkAndRecord seq).1,
      recorded (feed seqs).2 seq ((feed seqs).1.checkAndRecord seq).2) := by
  simp [feed]

theorem tracks_feed (seqs : List Nat) :
    Tracks (feed seqs).1 (feed seqs).2 ∧ (feed seqs).2.Nodup := by
  induction seqs using List.reverseRecOn with
  | nil => exact ⟨tracks_new, .nil⟩
  | append_singleton seqs seq ih =>
    obtain ⟨htracks, hnodup⟩ := ih
    obtain ⟨hiff, hnext⟩ := htracks.check seq
    rw [feed_snoc]
    refine ⟨hnext, ?_⟩
    unfold recorded
    dsimp only
    split
    · next hok =>
      have hnew : seq ∉ (feed seqs).2 := (hiff.mp hok).1
      rw [List.nodup_append]
      refine ⟨hnodup, by simp, fun x hx y hy heq => hnew ?_⟩
      rw [List.mem_singleton] at hy
      rwa [← hy, ← heq]
    · exact hnodup

/-- A number that was fed and never accepted is too far below one that was. -/
theorem feed_refused (seqs : List Nat) :
    (∀ x ∈ (feed seqs).2, x ∈ seqs) ∧
      ∀ x ∈ seqs, x ∉ (feed seqs).2 → ∃ h ∈ (feed seqs).2, replayWindowSize ≤ h - x := by
  induction seqs using List.reverseRecOn with
  | nil => exact ⟨by simp [feed], by simp⟩
  | append_singleton seqs seq ih =>
    obtain ⟨hsub, hfar⟩ := ih
    obtain ⟨htracks, -⟩ := tracks_feed seqs
    have hiff := (htracks.check seq).1
    rw [feed_snoc]
    unfold recorded
    dsimp only
    split
    · refine ⟨fun x hx => ?_, fun x hx hno => ?_⟩
      · rw [List.mem_append] at hx ⊢
        exact hx.imp_left (hsub x)
      · rw [List.mem_append, not_or] at hno
        obtain ⟨h, hh, hle⟩ := hfar x ((List.mem_append.mp hx).resolve_right hno.2) hno.1
        exact ⟨h, List.mem_append_left _ hh, hle⟩
    · next hno =>
      refine ⟨fun x hx => List.mem_append_left _ (hsub x hx),
        forall_mem_snoc.mpr ⟨hfar, fun hnot => ?_⟩⟩
      rw [hiff] at hno
      cases hinit : (feed seqs).1.initialized with
      | false => exact absurd ⟨hnot, .inl (htracks.fresh hinit)⟩ hno
      | true =>
        rw [inWindow_iff htracks hinit] at hno
        exact ⟨_, (htracks.highest hinit).1, Nat.not_lt.mp fun hlt => hno ⟨hnot, .inr hlt⟩⟩

/-- The window over what was accepted is the window over all that was fed. -/
theorem inWindow_feed (seqs : List Nat) (seq : Nat) :
    InWindow (feed seqs).2 seq ↔ InWindow seqs seq := by
  obtain ⟨hsub, hfar⟩ := feed_refused seqs
  have hpos : 0 < replayWindowSize := by decide
  constructor
  · rintro ⟨hno, hnear⟩
    have hmax : ∀ top, (∀ x ∈ (feed seqs).2, x ≤ top) → ∀ x ∈ seqs, x ≤ top := by
      intro top htop x hx
      by_cases hin : x ∈ (feed seqs).2
      · exact htop x hin
      · obtain ⟨h, hh, hle⟩ := hfar x hx hin
        have := htop h hh
        omega
    refine ⟨fun hin => ?_, ?_⟩
    · obtain ⟨h, hh, hle⟩ := hfar seq hin hno
      rcases hnear with hnil | ⟨top, -, htop, hd⟩
      · rw [hnil] at hh
        cases hh
      · have := htop h hh
        omega
    · rcases hnear with hnil | ⟨top, hmem, htop, hd⟩
      · refine .inl (List.eq_nil_iff_forall_not_mem.mpr fun x hx => ?_)
        obtain ⟨h, hh, -⟩ := hfar x hx (by rw [hnil]; simp)
        rw [hnil] at hh
        cases hh
      · exact .inr ⟨top, hsub top hmem, hmax top htop, hd⟩
  · rintro ⟨hno, hnear⟩
    refine ⟨fun hin => hno (hsub seq hin), ?_⟩
    rcases hnear with rfl | ⟨top, hmem, htop, hd⟩
    · exact .inl rfl
    · refine .inr ⟨top, ?_, fun x hx => htop x (hsub x hx), hd⟩
      by_contra hin
      obtain ⟨h, hh, hle⟩ := hfar top hmem hin
      have := htop h (hsub h hh)
      omega

/-- **The window is the set.** After any sequence a number is accepted exactly if
it was not accepted before and nothing was, or it is above the largest number
accepted or less than 2048 below it; so no number is accepted twice. -/
theorem replay_window_exact (seqs : List Nat) (seq : Nat) :
    (((feed seqs).1.checkAndRecord seq).2 = true ↔
      seq ∉ (feed seqs).2 ∧ ((feed seqs).2 = [] ∨ ∃ h ∈ (feed seqs).2,
        (∀ x ∈ (feed seqs).2, x ≤ h) ∧ (h < seq ∨ h - seq < 2048))) ∧
    (feed seqs).2.Nodup := by
  obtain ⟨htracks, hnodup⟩ := tracks_feed seqs
  exact ⟨(htracks.check seq).1, hnodup⟩

example : (feed [5, 2053, 5, 6, 2053, 4101]).2 = [5, 2053, 6, 4101] := by decide +kernel

end ReplayWindow

end Qeli.Packet
