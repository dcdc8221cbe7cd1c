import Qeli.Lib.Run
import Qeli.Tcp.Lifecycle

/-!
# What a lifecycle operation can do

`apply` runs one operation of a session against a limiter. `Effect` lists, one
constructor each, every change an operation can make and under which guard;
`apply_effect` says the list is complete. The invariants of the following
modules are case analyses of `Effect` and never open the operations again.
-/

namespace Qeli.Tcp

open Qeli.Lib Qeli.Wire

inductive LifecycleOp where
  | detach (transportId : Nat) (reason : DetachReason) (now retainedBytes : Nat)
  | beginResume (join : TcpResumeJoin) (freshTranscriptHash resumeSecret : Bytes 32)
  | commitResume (reservation : ResumeReservation) (newTransportId : Nat)
  | abortResume (reservation : ResumeReservation)
  | completeDrain (logicalSlotId slotGeneration transportId : Nat)
  | reap (ticket : ReapTicket) (now : Nat)
  | revoke
  | close

inductive LifecycleResult where
  | detached (result : Except LifecycleError DetachOutcome)
  | begun (result : Except LifecycleError ResumeReservation)
  | committed (result : Except LifecycleError CommitOutcome)
  | aborted (result : Except LifecycleError (Option ReapTicket))
  | drained (done : Bool)
  | reaped (done : Bool)
  | cleared (transports : List Nat)

/-- The state a pending resume falls back to. -/
def ResumeFallback.toState : ResumeFallback → State
  | .active => .active
  | .orphaned ticket => .orphaned ticket

def ResumeFallback.ticket : ResumeFallback → Option ReapTicket
  | .active => none
  | .orphaned ticket => some ticket

namespace SessionLifecycle

def apply (hmac : Hmac) (self : SessionLifecycle) (limiter : OrphanLimiter) :
    LifecycleOp → SessionLifecycle × OrphanLimiter × LifecycleResult
  | .detach transportId reason now retainedBytes =>
    let (self, limiter, result) := self.detach transportId reason now retainedBytes limiter
    (self, limiter, .detached result)
  | .beginResume join freshTranscriptHash resumeSecret =>
    let (self, result) := self.beginResume hmac join freshTranscriptHash resumeSecret
    (self, limiter, .begun result)
  | .commitResume reservation newTransportId =>
    let (self, limiter, result) := self.commitResume reservation newTransportId limiter
    (self, limiter, .committed result)
  | .abortResume reservation =>
    let (self, result) := self.abortResume reservation
    (self, limiter, .aborted result)
  | .completeDrain logicalSlotId slotGeneration transportId =>
    let (self, done) := self.completeDrain logicalSlotId slotGeneration transportId
    (self, limiter, .drained done)
  | .reap ticket now =>
    let (self, limiter, done) := self.reap ticket now limiter
    (self, limiter, .reaped done)
  | .revoke =>
    let (self, limiter, transports) := self.revoke limiter
    (self, limiter, .cleared transports)
  | .close =>
    let (self, limiter, transports) := self.close limiter
    (self, limiter, .cleared transports)

/-! ## Slots -/

theorem getElem?_setSlot (s : SessionLifecycle) (k a : Nat) (slot : LogicalSlot) :
    (s.setSlot k slot).slots[a]? = if a = k then some slot else s.slots[a]? := by
  simp only [setSlot, Std.TreeMap.getElem?_insert, Std.compare_eq_iff_eq]
  by_cases h : a = k
  · simp [h]
  · simp [h, Ne.symm h]

theorem readyStreams_pos {s : SessionLifecycle} :
    s.readyStreams > 0 ↔
      ∃ (k : Nat) (slot : LogicalSlot), s.slots[k]? = some slot ∧ slot.ready.isSome := by
  unfold readyStreams
  rw [gt_iff_lt, List.countP_pos_iff]
  constructor
  · rintro ⟨⟨k, slot⟩, hm, hr⟩
    exact ⟨k, slot, Std.TreeMap.mem_toList_iff_getElem?_eq_some.mp hm, hr⟩
  · rintro ⟨k, slot, hm, hr⟩
    exact ⟨(k, slot), Std.TreeMap.mem_toList_iff_getElem?_eq_some.mpr hm, hr⟩

theorem findTransport_some {s : SessionLifecycle} {t k : Nat} {slot : LogicalSlot}
    (h : s.findTransport t = some (k, slot)) :
    s.slots[k]? = some slot ∧ (slot.ready = some t ∨ slot.draining = some t) := by
  unfold findTransport at h
  have hp := List.find?_some h
  have hm := List.mem_of_find?_eq_some h
  exact ⟨Std.TreeMap.mem_toList_iff_getElem?_eq_some.mp hm, by simpa using hp⟩

/-- The state of a last-transport detach at the moment the orphan timer is made:
the slot is cleared and the generation advanced. -/
def orphaning (s : SessionLifecycle) (k : Nat) (slot : LogicalSlot) : SessionLifecycle :=
  { s.setSlot k { slot with ready := none } with generation := s.generation + 1 }

end SessionLifecycle

open SessionLifecycle

/-- Results of operations that change nothing in a session `s`. -/
def LifecycleResult.Quiet (s : SessionLifecycle) : LifecycleResult → Prop
  | .detached (.ok .streamRemains) | .begun (.error _) | .committed (.error .staleReservation)
  | .committed (.error .terminal) | .aborted (.error _) | .drained false | .reaped false => True
  | .detached (.ok .closing) | .detached (.ok .revoked) => s.state.Terminal
  | _ => False

/-- The operations that end a session through `terminal`. -/
def LifecycleOp.Ends (s : SessionLifecycle) : LifecycleOp → Bool → Prop
  | .revoke, true | .close, false => True
  | .detach _ .revoked _ _, true | .detach _ .cleanClose _ _, false => ¬ s.state.Terminal
  | _, _ => False

inductive Effect (s : SessionLifecycle) (l : OrphanLimiter) :
    LifecycleOp → SessionLifecycle → OrphanLimiter → LifecycleResult → Prop where
  | idle {op : LifecycleOp} {r : LifecycleResult} : r.Quiet s → Effect s l op s l r
  | dropReady {t now b k : Nat} {slot : LogicalSlot} : ¬ s.state.Terminal →
      s.slots[k]? = some slot → slot.ready = some t →
      (s.setSlot k { slot with ready := none }).readyStreams > 0 →
      Effect s l (.detach t .unexpected now b) (s.setSlot k { slot with ready := none }) l
        (.detached (.ok .streamRemains))
  | dropDraining {t now b k : Nat} {slot : LogicalSlot} : ¬ s.state.Terminal →
      s.slots[k]? = some slot → slot.ready ≠ some t → slot.draining = some t →
      Effect s l (.detach t .unexpected now b) (s.setSlot k { slot with draining := none }) l
        (.detached (.ok .streamRemains))
  /-- The last ready transport went while an orphan timer was already owned. -/
  | dropOrphaned {t now b k : Nat} {slot : LogicalSlot} {ticket : ReapTicket} :
      s.slots[k]? = some slot → slot.ready = some t → s.state.orphanTicket = some ticket →
      ¬ (s.setSlot k { slot with ready := none }).readyStreams > 0 →
      Effect s l (.detach t .unexpected now b) (s.setSlot k { slot with ready := none }) l
        (.detached (.ok (.orphaned ticket)))
  | orphaned {t now b k : Nat} {slot : LogicalSlot} {l' : OrphanLimiter} :
      s.slots[k]? = some slot → slot.ready = some t → s.state = .active →
      ¬ (s.setSlot k { slot with ready := none }).readyStreams > 0 →
      s.generation + 1 ≤ u64Max → now + s.grace ≤ instantMax →
      l.reserve s.sessionId (s.generation + 1) b = .ok l' →
      Effect s l (.detach t .unexpected now b)
        { s.orphaning k slot with
          state := .orphaned ⟨s.sessionId, s.generation + 1, now + s.grace⟩ } l'
        (.detached (.ok (.orphaned ⟨s.sessionId, s.generation + 1, now + s.grace⟩)))
  | orphanedResuming {t now b k : Nat} {slot : LogicalSlot} {l' : OrphanLimiter}
      {r : ResumeReservation} :
      s.slots[k]? = some slot → slot.ready = some t → s.state = .resuming r .active →
      ¬ (s.setSlot k { slot with ready := none }).readyStreams > 0 →
      s.generation + 1 ≤ u64Max → now + s.grace ≤ instantMax →
      l.reserve s.sessionId (s.generation + 1) b = .ok l' →
      Effect s l (.detach t .unexpected now b)
        { s.orphaning k slot with
          state := .resuming r (.orphaned ⟨s.sessionId, s.generation + 1, now + s.grace⟩) } l'
        (.detached (.ok (.orphaned ⟨s.sessionId, s.generation + 1, now + s.grace⟩)))
  /-- The limiter refused the orphan: the session closes. -/
  | orphanRefused {t now b k : Nat} {slot : LogicalSlot} {e : LifecycleError} :
      s.slots[k]? = some slot → slot.ready = some t → ¬ s.state.Terminal →
      s.state.orphanTicket = none →
      ¬ (s.setSlot k { slot with ready := none }).readyStreams > 0 →
      s.generation + 1 ≤ u64Max → now + s.grace ≤ instantMax →
      l.reserve s.sessionId (s.generation + 1) b = .error e →
      Effect s l (.detach t .unexpected now b) { s.orphaning k slot with state := .closing } l
        (.detached (.error e))
  /-- No timer could be made: the session keeps its state without a transport. -/
  | orphanExhausted {t now b k g : Nat} {slot : LogicalSlot} :
      s.slots[k]? = some slot → slot.ready = some t → ¬ s.state.Terminal →
      s.state.orphanTicket = none →
      ¬ (s.setSlot k { slot with ready := none }).readyStreams > 0 →
      (u64Max < s.generation + 1 ∧ g = s.generation) ∨
        (instantMax < now + s.grace ∧ g = s.generation + 1 ∧ g ≤ u64Max) →
      Effect s l (.detach t .unexpected now b)
        { s.setSlot k { slot with ready := none } with generation := g } l
        (.detached (.error .generationExhausted))
  | ended {op : LifecycleOp} (revoked : Bool) {r : LifecycleResult} : op.Ends s revoked →
      r = .cleared (s.terminal revoked l).2.2 ∨ r = .detached (.ok .closing) ∨
        r = .detached (.ok .revoked) →
      Effect s l op (s.terminal revoked l).1 (s.releaseOrphanFallback l) r
  /-- A JOIN whose epoch is burned although no generation is left for it. -/
  | burned {join : TcpResumeJoin} {h x : Bytes 32} :
      s.lastResumeEpoch < join.input.resumeEpoch →
      Effect s l (.beginResume join h x) { s with lastResumeEpoch := join.input.resumeEpoch } l
        (.begun (.error .generationExhausted))
  | begun {join : TcpResumeJoin} {h x : Bytes 32} {fallback : ResumeFallback}
      {r : ResumeReservation} :
      s.state = fallback.toState → s.lastResumeEpoch < join.input.resumeEpoch →
      s.generation + 1 ≤ u64Max →
      r = ⟨s.sessionId, s.generation + 1, join.input.resumeEpoch, join.input.logicalSlotId,
        join.input.handover⟩ →
      (∀ slot : LogicalSlot, s.slots[r.logicalSlotId]? = some slot → slot.draining = none) →
      Effect s l (.beginResume join h x)
        { s with
          lastResumeEpoch := join.input.resumeEpoch
          generation := s.generation + 1
          state := .resuming r fallback } l
        (.begun (.ok r))
  | commitBlocked {r : ResumeReservation} {fallback : ResumeFallback} {t : Nat}
      {slot : LogicalSlot} :
      s.state = .resuming r fallback → s.slots[r.logicalSlotId]? = some slot →
      slot.draining.isSome →
      Effect s l (.commitResume r t) (s.setSlot r.logicalSlotId slot) l
        (.committed (.error .slotDraining))
  | commitExhausted {r : ResumeReservation} {fallback : ResumeFallback} {t : Nat}
      {slot : LogicalSlot} :
      s.state = .resuming r fallback → slot = s.slots[r.logicalSlotId]?.getD ⟨0, none, none⟩ →
      u64Max < slot.generation + 1 →
      Effect s l (.commitResume r t)
        (s.setSlot r.logicalSlotId { slot with ready := some t, draining := slot.ready }) l
        (.committed (.error .generationExhausted))
  | committed {r : ResumeReservation} {fallback : ResumeFallback} {t : Nat}
      {slot : LogicalSlot} :
      s.state = .resuming r fallback → slot = s.slots[r.logicalSlotId]?.getD ⟨0, none, none⟩ →
      slot.draining = none → slot.generation + 1 ≤ u64Max →
      Effect s l (.commitResume r t)
        { s.setSlot r.logicalSlotId ⟨slot.generation + 1, some t, slot.ready⟩ with
          state := .active }
        (s.releaseOrphanFallback l) (.committed (.ok ⟨slot.ready, slot.generation + 1⟩))
  | aborted {r : ResumeReservation} {fallback : ResumeFallback} :
      s.state = .resuming r fallback →
      Effect s l (.abortResume r) { s with state := fallback.toState } l
        (.aborted (.ok fallback.ticket))
  | drained {k g t : Nat} {slot : LogicalSlot} :
      s.slots[k]? = some slot → slot.generation = g → slot.draining = some t →
      Effect s l (.completeDrain k g t) (s.setSlot k { slot with draining := none }) l
        (.drained true)
  | reaped {ticket : ReapTicket} {now : Nat} :
      s.state = .orphaned ticket → ticket.deadline ≤ now →
      Effect s l (.reap ticket now) { s with state := .closing } (l.release ticket).1
        (.reaped true)

/-! ## The list is complete -/

namespace SessionLifecycle

variable {s : SessionLifecycle} {l : OrphanLimiter}

theorem bumpGeneration_eq (s : SessionLifecycle) : s.bumpGeneration =
    if s.generation + 1 ≤ u64Max then
      ({ s with generation := s.generation + 1 }, .ok (s.generation + 1))
    else (s, .error .generationExhausted) := by
  unfold bumpGeneration checkedAdd
  split_ifs <;> rfl

theorem detachLast_effect {t now b k : Nat} {slot : LogicalSlot} (hk : s.slots[k]? = some slot)
    (ht : slot.ready = some t) (hs : ¬ s.state.Terminal)
    (hr : ¬ (s.setSlot k { slot with ready := none }).readyStreams > 0) :
    Effect s l (.detach t .unexpected now b)
      ((s.setSlot k { slot with ready := none }).detachLast now b l).1
      ((s.setSlot k { slot with ready := none }).detachLast now b l).2.1
      (.detached ((s.setSlot k { slot with ready := none }).detachLast now b l).2.2) := by
  have hst : (s.setSlot k { slot with ready := none }).state = s.state := rfl
  have hg : (s.setSlot k { slot with ready := none }).generation = s.generation := rfl
  unfold detachLast
  rw [hst]
  cases hstate : s.state with
  | closing | revoked => simp [hstate, State.Terminal] at hs
  | orphaned ticket => exact .dropOrphaned hk ht (by rw [hstate]; rfl) hr
  | active =>
    have ho : s.state.orphanTicket = none := by rw [hstate]; rfl
    simp only [orphan, bumpGeneration_eq, hg]
    by_cases hgen : s.generation + 1 ≤ u64Max
    · simp only [hgen, if_true]
      cases hd : checkedAdd instantMax now (s.setSlot k { slot with ready := none }).grace with
      | none =>
        exact .orphanExhausted hk ht hs ho hr
          (.inr ⟨checkedAdd_eq_none.mp hd, rfl, hgen⟩)
      | some deadline =>
        obtain ⟨hle, rfl⟩ := checkedAdd_eq_some.mp hd
        dsimp only
        cases hres : l.reserve (s.setSlot k { slot with ready := none }).sessionId
          (s.generation + 1) b with
        | error e => exact .orphanRefused hk ht hs ho hr hgen hle hres
        | ok l' => exact .orphaned hk ht hstate hr hgen hle hres
    · simp only [hgen, if_false]
      exact .orphanExhausted hk ht hs ho hr (.inl ⟨by omega, rfl⟩)
  | resuming r fallback =>
    cases fallback with
    | orphaned ticket => exact .dropOrphaned hk ht (by rw [hstate]; rfl) hr
    | active =>
      have ho : s.state.orphanTicket = none := by rw [hstate]; rfl
      simp only [bumpGeneration_eq, hg]
      by_cases hgen : s.generation + 1 ≤ u64Max
      · simp only [hgen, if_true]
        cases hd : checkedAdd instantMax now (s.setSlot k { slot with ready := none }).grace with
        | none =>
          exact .orphanExhausted hk ht hs ho hr
            (.inr ⟨checkedAdd_eq_none.mp hd, rfl, hgen⟩)
        | some deadline =>
          obtain ⟨hle, rfl⟩ := checkedAdd_eq_some.mp hd
          dsimp only
          cases hres : l.reserve (s.setSlot k { slot with ready := none }).sessionId
            (s.generation + 1) b with
          | error e => exact .orphanRefused hk ht hs ho hr hgen hle hres
          | ok l' => exact .orphanedResuming hk ht hstate hr hgen hle hres
      · simp only [hgen, if_false]
        exact .orphanExhausted hk ht hs ho hr (.inl ⟨by omega, rfl⟩)

theorem detach_effect (t : Nat) (reason : DetachReason) (now b : Nat) :
    Effect s l (.detach t reason now b) (s.detach t reason now b l).1
      (s.detach t reason now b l).2.1 (.detached (s.detach t reason now b l).2.2) := by
  unfold detach
  by_cases hc : s.state = .closing
  · rw [if_pos hc]; exact .idle (by rw [LifecycleResult.Quiet, hc]; trivial)
  by_cases hv : s.state = .revoked
  · rw [if_neg hc, if_pos hv]; exact .idle (by rw [LifecycleResult.Quiet, hv]; trivial)
  have hs : ¬ s.state.Terminal := by
    cases h : s.state <;> simp_all [State.Terminal]
  simp only [hc, hv, if_false]
  cases reason with
  | cleanClose => exact .ended false hs (.inr (.inl rfl))
  | revoked => exact .ended true hs (.inr (.inr rfl))
  | unexpected =>
    dsimp only
    cases hf : s.findTransport t with
    | none => exact .idle trivial
    | some e =>
      obtain ⟨k, slot⟩ := e
      obtain ⟨hk, ht⟩ := findTransport_some hf
      dsimp only
      by_cases hready : slot.ready = some t
      · simp only [hready, if_true]
        by_cases hr : (s.setSlot k { slot with ready := none }).readyStreams > 0
        · simp only [hr, if_true]; exact .dropReady hs hk hready hr
        · simp only [hr, if_false]; exact detachLast_effect hk hready hs hr
      · simp only [hready, if_false]
        exact .dropDraining hs hk hready (ht.resolve_left hready)

theorem beginResume_effect (hmac : Hmac) (join : TcpResumeJoin) (h x : Bytes 32) :
    Effect s l (.beginResume join h x) (s.beginResume hmac join h x).1 l
      (.begun (s.beginResume hmac join h x).2) := by
  have key : ∀ fallback : ResumeFallback, s.state = fallback.toState →
      Effect s l (.beginResume join h x) (s.beginResume hmac join h x).1 l
        (.begun (s.beginResume hmac join h x).2) := by
    intro fallback hf
    have hb : s.beginResume hmac join h x =
        if join.input.sessionLocator ≠ s.locator then (s, .error .wrongLocator)
        else if ¬ join.matchesTranscript h ∨ ¬ join.verify hmac x then (s, .error .invalidProof)
        else if join.input.resumeEpoch ≤ s.lastResumeEpoch then (s, .error .staleEpoch)
        else if s.maxSlots ≤ join.input.logicalSlotId then (s, .error .invalidSlot)
        else if (s.slots[join.input.logicalSlotId]?.bind LogicalSlot.draining).isSome then
          (s, .error .slotDraining)
        else if s.generation + 1 ≤ u64Max then
          let r := ⟨s.sessionId, s.generation + 1, join.input.resumeEpoch,
            join.input.logicalSlotId, join.input.handover⟩
          ({ s with
              lastResumeEpoch := join.input.resumeEpoch
              generation := s.generation + 1
              state := .resuming r fallback }, .ok r)
        else
          ({ s with lastResumeEpoch := join.input.resumeEpoch }, .error .generationExhausted) := by
      unfold beginResume
      simp only [bumpGeneration_eq]
      cases fallback with
      | active | orphaned ticket =>
        rw [hf]
        dsimp only [ResumeFallback.toState]
        split_ifs <;> rfl
    rw [hb]
    split_ifs with h1 h2 h3 h4 h5 h6
    · exact .idle trivial
    · exact .idle trivial
    · exact .idle trivial
    · exact .idle trivial
    · exact .idle trivial
    · refine .begun hf (by omega) h6 rfl fun slot hslot => ?_
      simpa [hslot] using h5
    · exact .burned (by omega)
  cases hstate : s.state with
  | active => exact key .active hstate
  | orphaned ticket => exact key (.orphaned ticket) hstate
  | _ => unfold beginResume; rw [hstate]; exact .idle trivial

theorem commitResume_effect (r : ResumeReservation) (t : Nat) :
    Effect s l (.commitResume r t) (s.commitResume r t l).1 (s.commitResume r t l).2.1
      (.committed (s.commitResume r t l).2.2) := by
  unfold commitResume
  cases hstate : s.state with
  | resuming current fallback =>
    dsimp only
    by_cases hc : current = r
    · subst hc
      simp only [ne_eq, not_true, if_false]
      split_ifs with hd
      · cases hslot : s.slots[current.logicalSlotId]? with
        | none => simp [hslot] at hd
        | some slot =>
          rw [hslot] at hd
          exact .commitBlocked hstate hslot hd
      · have hnone := Option.not_isSome_iff_eq_none.mp hd
        cases hg : checkedAdd u64Max
          (s.slots[current.logicalSlotId]?.getD ⟨0, none, none⟩).generation 1 with
        | none => exact .commitExhausted hstate rfl (checkedAdd_eq_none.mp hg)
        | some g =>
          obtain ⟨hle, rfl⟩ := checkedAdd_eq_some.mp hg
          have := Effect.committed (l := l) (t := t) hstate rfl hnone hle
          unfold releaseOrphanFallback at this
          rw [hstate] at this
          cases fallback <;> exact this
    · simp only [ne_eq, hc, not_false_eq_true, if_true]; exact .idle trivial
  | _ => exact .idle trivial

theorem abortResume_effect (r : ResumeReservation) :
    Effect s l (.abortResume r) (s.abortResume r).1 l (.aborted (s.abortResume r).2) := by
  unfold abortResume
  cases hstate : s.state with
  | resuming current fallback =>
    dsimp only
    by_cases hc : current = r
    · subst hc
      simp only [ne_eq, not_true, if_false]
      have := Effect.aborted (l := l) hstate
      cases fallback <;> exact this
    · simp only [ne_eq, hc, not_false_eq_true, if_true]; exact .idle trivial
  | _ => exact .idle trivial

theorem completeDrain_effect (k g t : Nat) :
    Effect s l (.completeDrain k g t) (s.completeDrain k g t).1 l
      (.drained (s.completeDrain k g t).2) := by
  unfold completeDrain
  cases hk : s.slots[k]? with
  | none => exact .idle trivial
  | some slot =>
    dsimp only
    split_ifs with h
    · exact .idle trivial
    · simp only [ne_eq, not_or, not_not] at h
      exact .drained hk h.1 h.2

/-- **Every operation has one of the listed effects.** -/
theorem apply_effect (hmac : Hmac) (s : SessionLifecycle) (l : OrphanLimiter) (op : LifecycleOp) :
    Effect s l op (s.apply hmac l op).1 (s.apply hmac l op).2.1 (s.apply hmac l op).2.2 := by
  cases op with
  | detach t reason now b => exact detach_effect t reason now b
  | beginResume join h x => exact beginResume_effect hmac join h x
  | commitResume r t => exact commitResume_effect r t
  | abortResume r => exact abortResume_effect r
  | completeDrain k g t => exact completeDrain_effect k g t
  | reap ticket now =>
    unfold apply reap
    dsimp only
    split_ifs with h
    · exact .idle trivial
    · simp only [ne_eq, not_or, not_not, not_lt] at h
      exact .reaped h.1 h.2
  | revoke => exact .ended true trivial (.inl rfl)
  | close => exact .ended false trivial (.inl rfl)

end SessionLifecycle

end Qeli.Tcp
