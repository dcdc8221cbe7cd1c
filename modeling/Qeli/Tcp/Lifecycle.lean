import Std.Data.TreeMap
import Qeli.Lib.KeyMap
import Qeli.Wire.Roaming

/-!
# TCP session lifecycle

`transport_core/tcp_roaming.rs`: one logical TCP session (`SessionLifecycle`)
with its slots, resume reservation and orphan timer, and the profile-wide
`OrphanLimiter` the sessions share. Every method takes the state it mutates and
returns it, also when it fails: what an error path has already changed stays
changed.

Integers are naturals, added with `checkedAdd` where the source does. An
`Instant` counts nanoseconds and ends at `instantMax`; a `Duration` is a number
of nanoseconds.
-/

namespace Qeli.Tcp

open Qeli.Lib Qeli.Wire

/-- The last instant a Unix monotonic clock can hold: an `i64` of seconds. -/
def instantMax : Nat := (2 ^ 63 - 1) * 10 ^ 9 + 999999999

inductive DetachReason where
  | unexpected | cleanClose | revoked
  deriving DecidableEq, Repr

structure ReapTicket where
  sessionId : Nat
  generation : Nat
  deadline : Nat
  deriving DecidableEq, Repr

inductive DetachOutcome where
  | streamRemains
  | orphaned (ticket : ReapTicket)
  | closing
  | revoked
  deriving DecidableEq, Repr

structure ResumeReservation where
  sessionId : Nat
  generation : Nat
  resumeEpoch : Nat
  logicalSlotId : Nat
  handover : Bool
  deriving DecidableEq, Repr

structure CommitOutcome where
  drainTransport : Option Nat
  slotGeneration : Nat
  deriving DecidableEq, Repr

inductive LifecycleError where
  | invalidSession | terminal | resumeBusy | invalidProof | wrongLocator | staleEpoch
  | invalidSlot | slotDraining | staleReservation | orphanLimit | duplicateOrphan
  | generationExhausted
  deriving DecidableEq, Repr

/-! ## The orphan limiter -/

structure OrphanLimiter where
  maxSessions : Nat
  maxBytes : Nat
  sessions : Nat
  bytes : Nat
  leases : KeyMap (Nat × Nat) Nat

namespace OrphanLimiter

def new (maxSessions maxBytes : Nat) : OrphanLimiter := ⟨maxSessions, maxBytes, 0, 0, ∅⟩

def reserve (self : OrphanLimiter) (sessionId generation retainedBytes : Nat) :
    Except LifecycleError OrphanLimiter :=
  if self.leases.contains (sessionId, generation) then .error .duplicateOrphan
  else
    match checkedAdd u64Max self.sessions 1, checkedAdd u64Max self.bytes retainedBytes with
    | some nextSessions, some nextBytes =>
      if nextSessions > self.maxSessions ∨ nextBytes > self.maxBytes then .error .orphanLimit
      else .ok { self with
        leases := self.leases.insert (sessionId, generation) retainedBytes
        sessions := nextSessions
        bytes := nextBytes }
    | _, _ => .error .orphanLimit

/-- Natural subtraction is the source's `saturating_sub`. -/
def release (self : OrphanLimiter) (ticket : ReapTicket) : OrphanLimiter × Bool :=
  match self.leases.get? (ticket.sessionId, ticket.generation) with
  | none => (self, false)
  | some bytes => ({ self with
      leases := self.leases.erase (ticket.sessionId, ticket.generation)
      sessions := self.sessions - 1
      bytes := self.bytes - bytes }, true)

end OrphanLimiter

/-! ## One session -/

structure LogicalSlot where
  generation : Nat
  ready : Option Nat
  draining : Option Nat
  deriving DecidableEq, Repr

inductive ResumeFallback where
  | active
  | orphaned (ticket : ReapTicket)
  deriving DecidableEq, Repr

inductive State where
  | active
  | orphaned (ticket : ReapTicket)
  | resuming (reservation : ResumeReservation) (fallback : ResumeFallback)
  | closing
  | revoked
  deriving DecidableEq, Repr

/-- `Closing` and `Revoked` are final. -/
def State.Terminal : State → Prop
  | .closing | .revoked => True
  | _ => False

instance : DecidablePred State.Terminal
  | .closing | .revoked => isTrue trivial
  | .active | .orphaned _ | .resuming _ _ => isFalse id

/-- The orphan timer a state owns, also while a resume holds it as fallback. -/
def State.orphanTicket : State → Option ReapTicket
  | .orphaned ticket | .resuming _ (.orphaned ticket) => some ticket
  | _ => none

structure SessionLifecycle where
  sessionId : Nat
  locator : Bytes 16
  maxSlots : Nat
  grace : Nat
  generation : Nat
  lastResumeEpoch : Nat
  state : State
  slots : Std.TreeMap Nat LogicalSlot

namespace SessionLifecycle

def new (sessionId : Nat) (locator : Bytes 16) (maxSlots grace primaryTransport : Nat) :
    Except LifecycleError SessionLifecycle :=
  if sessionId = 0 ∨ maxSlots = 0 then .error .invalidSession
  else .ok {
    sessionId, locator, maxSlots, grace
    generation := 1
    lastResumeEpoch := 0
    state := .active
    slots := (∅ : Std.TreeMap Nat LogicalSlot).insert 0 ⟨1, some primaryTransport, none⟩ }

def readyStreams (self : SessionLifecycle) : Nat :=
  self.slots.toList.countP fun e => e.2.ready.isSome

def bumpGeneration (self : SessionLifecycle) : SessionLifecycle × Except LifecycleError Nat :=
  match checkedAdd u64Max self.generation 1 with
  | some generation => ({ self with generation }, .ok generation)
  | none => (self, .error .generationExhausted)

def orphan (self : SessionLifecycle) (now retainedBytes : Nat) (limiter : OrphanLimiter) :
    SessionLifecycle × OrphanLimiter × Except LifecycleError ReapTicket :=
  match self.bumpGeneration with
  | (self, .error error) => (self, limiter, .error error)
  | (self, .ok generation) =>
    match checkedAdd instantMax now self.grace with
    | none => (self, limiter, .error .generationExhausted)
    | some deadline =>
      let ticket := ⟨self.sessionId, generation, deadline⟩
      match limiter.reserve self.sessionId generation retainedBytes with
      | .error error => ({ self with state := .closing }, limiter, .error error)
      | .ok limiter => ({ self with state := .orphaned ticket }, limiter, .ok ticket)

def releaseOrphanFallback (self : SessionLifecycle) (limiter : OrphanLimiter) : OrphanLimiter :=
  match self.state.orphanTicket with
  | some ticket => (limiter.release ticket).1
  | none => limiter

def terminal (self : SessionLifecycle) (revoked : Bool) (limiter : OrphanLimiter) :
    SessionLifecycle × OrphanLimiter × List Nat :=
  ({ self with
      slots := self.slots.map fun _ slot => { slot with ready := none, draining := none }
      state := if revoked then .revoked else .closing },
    self.releaseOrphanFallback limiter,
    self.slots.toList.flatMap fun e => e.2.ready.toList ++ e.2.draining.toList)

/-- The slot at which the loop of `detach` stops: the first, in slot order, that
records the transport. -/
def findTransport (self : SessionLifecycle) (transportId : Nat) : Option (Nat × LogicalSlot) :=
  self.slots.toList.find? fun e => e.2.ready == some transportId || e.2.draining == some transportId

def setSlot (self : SessionLifecycle) (slotId : Nat) (slot : LogicalSlot) : SessionLifecycle :=
  { self with slots := self.slots.insert slotId slot }

/-- `detach` once its last ready transport is gone. -/
def detachLast (self : SessionLifecycle) (now retainedBytes : Nat) (limiter : OrphanLimiter) :
    SessionLifecycle × OrphanLimiter × Except LifecycleError DetachOutcome :=
  match self.state with
  | .active =>
    let (self, limiter, result) := self.orphan now retainedBytes limiter
    (self, limiter, result.map .orphaned)
  | .orphaned ticket => (self, limiter, .ok (.orphaned ticket))
  | .resuming _ (.orphaned ticket) => (self, limiter, .ok (.orphaned ticket))
  | .resuming reservation .active =>
    match self.bumpGeneration with
    | (self, .error error) => (self, limiter, .error error)
    | (self, .ok generation) =>
      match checkedAdd instantMax now self.grace with
      | none => (self, limiter, .error .generationExhausted)
      | some deadline =>
        let ticket := ⟨self.sessionId, generation, deadline⟩
        match limiter.reserve self.sessionId generation retainedBytes with
        | .error error => ({ self with state := .closing }, limiter, .error error)
        | .ok limiter =>
          ({ self with state := .resuming reservation (.orphaned ticket) }, limiter,
            .ok (.orphaned ticket))
  | .closing | .revoked => (self, limiter, .error .terminal)

def detach (self : SessionLifecycle) (transportId : Nat) (reason : DetachReason)
    (now retainedBytes : Nat) (limiter : OrphanLimiter) :
    SessionLifecycle × OrphanLimiter × Except LifecycleError DetachOutcome :=
  if self.state = .closing then (self, limiter, .ok .closing)
  else if self.state = .revoked then (self, limiter, .ok .revoked)
  else
    match reason with
    | .cleanClose =>
      let (self, limiter, _) := self.terminal false limiter
      (self, limiter, .ok .closing)
    | .revoked =>
      let (self, limiter, _) := self.terminal true limiter
      (self, limiter, .ok .revoked)
    | .unexpected =>
      match self.findTransport transportId with
      | none => (self, limiter, .ok .streamRemains)
      | some (slotId, slot) =>
        if slot.ready = some transportId then
          let self := self.setSlot slotId { slot with ready := none }
          if self.readyStreams > 0 then (self, limiter, .ok .streamRemains)
          else self.detachLast now retainedBytes limiter
        else (self.setSlot slotId { slot with draining := none }, limiter, .ok .streamRemains)

def beginResume (hmac : Hmac) (self : SessionLifecycle) (join : TcpResumeJoin)
    (freshTranscriptHash resumeSecret : Bytes 32) :
    SessionLifecycle × Except LifecycleError ResumeReservation :=
  let reserve (fallback : ResumeFallback) :=
    if join.input.sessionLocator ≠ self.locator then (self, .error .wrongLocator)
    else if ¬ join.matchesTranscript freshTranscriptHash ∨ ¬ join.verify hmac resumeSecret then
      (self, .error .invalidProof)
    else if join.input.resumeEpoch ≤ self.lastResumeEpoch then (self, .error .staleEpoch)
    else if self.maxSlots ≤ join.input.logicalSlotId then (self, .error .invalidSlot)
    else if (self.slots[join.input.logicalSlotId]?.bind LogicalSlot.draining).isSome then
      (self, .error .slotDraining)
    else
      -- the epoch is burned before the generation may turn out to be exhausted
      let self := { self with lastResumeEpoch := join.input.resumeEpoch }
      match self.bumpGeneration with
      | (self, .error error) => (self, .error error)
      | (self, .ok generation) =>
        let reservation := ⟨self.sessionId, generation, join.input.resumeEpoch,
          join.input.logicalSlotId, join.input.handover⟩
        ({ self with state := .resuming reservation fallback }, .ok reservation)
  match self.state with
  | .active => reserve .active
  | .orphaned ticket => reserve (.orphaned ticket)
  | .resuming _ _ => (self, .error .resumeBusy)
  | .closing | .revoked => (self, .error .terminal)

def commitResume (self : SessionLifecycle) (reservation : ResumeReservation) (newTransportId : Nat)
    (limiter : OrphanLimiter) :
    SessionLifecycle × OrphanLimiter × Except LifecycleError CommitOutcome :=
  match self.state with
  | .resuming current fallback =>
    if current ≠ reservation then (self, limiter, .error .staleReservation)
    else
      let slotId := reservation.logicalSlotId
      -- `entry(..).or_insert(..)` leaves an empty slot behind even on the error paths
      let slot := self.slots[slotId]?.getD ⟨0, none, none⟩
      if slot.draining.isSome then (self.setSlot slotId slot, limiter, .error .slotDraining)
      else
        let old := slot.ready
        let slot := { slot with ready := some newTransportId, draining := old }
        match checkedAdd u64Max slot.generation 1 with
        | none => (self.setSlot slotId slot, limiter, .error .generationExhausted)
        | some generation =>
          let limiter := match fallback with
            | .orphaned ticket => (limiter.release ticket).1
            | .active => limiter
          ({ self.setSlot slotId { slot with generation } with state := .active }, limiter,
            .ok ⟨old, generation⟩)
  | .closing | .revoked => (self, limiter, .error .terminal)
  | _ => (self, limiter, .error .staleReservation)

def abortResume (self : SessionLifecycle) (reservation : ResumeReservation) :
    SessionLifecycle × Except LifecycleError (Option ReapTicket) :=
  match self.state with
  | .resuming current fallback =>
    if current ≠ reservation then (self, .error .staleReservation)
    else
      match fallback with
      | .active => ({ self with state := .active }, .ok none)
      | .orphaned ticket => ({ self with state := .orphaned ticket }, .ok (some ticket))
  | .closing | .revoked => (self, .error .terminal)
  | _ => (self, .error .staleReservation)

def completeDrain (self : SessionLifecycle) (logicalSlotId slotGeneration transportId : Nat) :
    SessionLifecycle × Bool :=
  match self.slots[logicalSlotId]? with
  | none => (self, false)
  | some slot =>
    if slot.generation ≠ slotGeneration ∨ slot.draining ≠ some transportId then (self, false)
    else (self.setSlot logicalSlotId { slot with draining := none }, true)

def reap (self : SessionLifecycle) (ticket : ReapTicket) (now : Nat) (limiter : OrphanLimiter) :
    SessionLifecycle × OrphanLimiter × Bool :=
  if self.state ≠ .orphaned ticket ∨ now < ticket.deadline then (self, limiter, false)
  else ({ self with state := .closing }, (limiter.release ticket).1, true)

def revoke (self : SessionLifecycle) (limiter : OrphanLimiter) :
    SessionLifecycle × OrphanLimiter × List Nat :=
  self.terminal true limiter

def close (self : SessionLifecycle) (limiter : OrphanLimiter) :
    SessionLifecycle × OrphanLimiter × List Nat :=
  self.terminal false limiter

end SessionLifecycle

end Qeli.Tcp
