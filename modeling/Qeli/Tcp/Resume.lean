import Qeli.Tcp.Orphans

/-!
# Resuming a TCP session

Runs of one session. An event records the operation, the limiter it found (any:
other sessions use it in between) and the result. The observables of a history
are read off the events: the JOINs that were accepted (`acceptedJoins`), the
reservations that are still open (`outstandingReservations`) or have committed
(`committedReservations`), the orphan tickets handed out (`issuedTickets`).

`Sound` is the invariant of the state alone. Its last field is what makes a
commit succeed: while a resume is pending, its slot drains nothing and every
slot generation is below the session's.
-/

namespace Qeli.Tcp

open Qeli.Lib Qeli.Wire

structure SessionEvent where
  op : LifecycleOp
  limiter : OrphanLimiter
  result : LifecycleResult

/-- Results after which a session is final: `close`, `revoke`, a clean detach, a
failed orphan reservation, a reaped timer. -/
def LifecycleResult.ends : LifecycleResult → Bool
  | .cleared _ | .detached (.ok .closing) | .detached (.ok .revoked)
  | .detached (.error .orphanLimit) | .detached (.error .duplicateOrphan) | .reaped true => true
  | _ => false

namespace SessionEvent

def acceptedJoin (e : SessionEvent) : Option TcpResumeJoin :=
  match e.op, e.result with
  | .beginResume join _ _, .begun (.ok _) => some join
  | _, _ => none

def committed (e : SessionEvent) : Option ResumeReservation :=
  match e.op, e.result with
  | .commitResume reservation _, .committed (.ok _) => some reservation
  | _, _ => none

def issued (e : SessionEvent) : Option ReapTicket :=
  match e.result with
  | .detached (.ok (.orphaned ticket)) | .aborted (.ok (some ticket)) => some ticket
  | _ => none

/-- The open reservations after `e`, given those before it. -/
def outstanding (open_ : List ResumeReservation) (e : SessionEvent) : List ResumeReservation :=
  match e.op, e.result with
  | _, .begun (.ok reservation) => open_ ++ [reservation]
  | .commitResume reservation _, .committed (.ok _) => open_.erase reservation
  | .abortResume reservation, .aborted (.ok _) => open_.erase reservation
  | _, result => if result.ends then [] else open_

end SessionEvent

def acceptedJoins (es : List SessionEvent) : List TcpResumeJoin :=
  es.filterMap SessionEvent.acceptedJoin

def committedReservations (es : List SessionEvent) : List ResumeReservation :=
  es.filterMap SessionEvent.committed

def issuedTickets (es : List SessionEvent) : List ReapTicket := es.filterMap SessionEvent.issued

def outstandingReservations (es : List SessionEvent) : List ResumeReservation :=
  es.foldl SessionEvent.outstanding []

def State.reservation : State → Option ResumeReservation
  | .resuming reservation _ => some reservation
  | _ => none

theorem State.reservation_eq {st : State} {r : ResumeReservation} :
    st.reservation = some r ↔ ∃ fallback, st = .resuming r fallback := by
  cases st <;> simp [State.reservation]

@[simp] theorem ResumeFallback.reservation_toState (f : ResumeFallback) :
    f.toState.reservation = none := by
  cases f <;> rfl

theorem ResumeFallback.not_terminal_toState (f : ResumeFallback) : ¬ f.toState.Terminal := by
  cases f <;> exact id

theorem State.Terminal.reservation {st : State} (h : st.Terminal) : st.reservation = none := by
  cases st <;> first | rfl | cases h

theorem OrphanLimiter.reserve_error {l : OrphanLimiter} {sid g b : Nat} {e : LifecycleError}
    (h : l.reserve sid g b = .error e) : e = .duplicateOrphan ∨ e = .orphanLimit := by
  unfold reserve at h
  split at h
  · cases h; exact .inl rfl
  · split at h
    · split at h
      · cases h; exact .inr rfl
      · cases h
    · cases h; exact .inr rfl

/-! ## What one event shows -/

section Events

variable {s s' : SessionLifecycle} {l l' : OrphanLimiter} {op : LifecycleOp} {r : LifecycleResult}

theorem LifecycleResult.Quiet.silent (h : r.Quiet s) :
    SessionEvent.acceptedJoin ⟨op, l, r⟩ = none ∧ SessionEvent.committed ⟨op, l, r⟩ = none ∧
      SessionEvent.issued ⟨op, l, r⟩ = none := by
  unfold Quiet at h
  split at h
  all_goals first | (cases op <;> exact ⟨rfl, rfl, rfl⟩) | cases h

theorem LifecycleResult.Quiet.outstanding (h : r.Quiet s) (rs : List ResumeReservation) :
    SessionEvent.outstanding rs ⟨op, l, r⟩ = if r.ends then [] else rs := by
  unfold Quiet at h
  split at h
  all_goals first | (cases op <;> rfl) | cases h

theorem LifecycleResult.Quiet.ends (h : r.Quiet s) (he : r.ends) : s.state.Terminal := by
  unfold Quiet at h
  split at h
  all_goals first | exact h | cases he | cases h

theorem Effect.terminal_of_ends (h : Effect s l op s' l' r) (he : r.ends) : s'.state.Terminal := by
  cases h with
  | idle hq => exact hq.ends he
  | orphanRefused => exact trivial
  | ended revoked => cases revoked <;> exact trivial
  | reaped => exact trivial
  | _ => cases he

theorem Effect.terminal (h : Effect s l op s' l' r) (ht : s.state.Terminal) :
    s'.state.Terminal := by
  cases h with
  | ended revoked => cases revoked <;> exact trivial
  | orphanRefused | reaped => exact trivial
  | orphaned _ _ hst | orphanedResuming _ _ hst | committed hst | aborted hst =>
    rw [hst] at ht; cases ht
  | begun hst => rw [hst] at ht; exact absurd ht (ResumeFallback.not_terminal_toState _)
  | _ => exact ht

theorem Effect.epoch_le (h : Effect s l op s' l' r) : s.lastResumeEpoch ≤ s'.lastResumeEpoch := by
  cases h with
  | burned he | begun _ he => exact he.le
  | _ => exact Nat.le_refl _

theorem Effect.acceptedJoin (h : Effect s l op s' l' r) {j : TcpResumeJoin}
    (hj : SessionEvent.acceptedJoin ⟨op, l, r⟩ = some j) :
    s.lastResumeEpoch < j.input.resumeEpoch ∧ s'.lastResumeEpoch = j.input.resumeEpoch := by
  cases h with
  | idle hq => rw [hq.silent.1] at hj; cases hj
  | begun _ he => cases hj; exact ⟨he, rfl⟩
  | @ended _ _ r hop hr => rcases hr with rfl | rfl | rfl <;> cases op <;> cases hj
  | _ => cases hj

theorem Effect.committed_event (h : Effect s l op s' l' r) {x : ResumeReservation}
    (hx : SessionEvent.committed ⟨op, l, r⟩ = some x) :
    s.state.reservation = some x ∧ s'.state = .active := by
  cases h with
  | idle hq => rw [hq.silent.2.1] at hx; cases hx
  | committed hst => cases hx; exact ⟨by rw [hst]; rfl, rfl⟩
  | @ended _ _ r hop hr => rcases hr with rfl | rfl | rfl <;> cases op <;> cases hx
  | _ => cases hx

theorem Effect.issued (h : Effect s l op s' l' r) {t : ReapTicket}
    (ht : SessionEvent.issued ⟨op, l, r⟩ = some t) : s'.state.orphanTicket = some t := by
  cases h with
  | idle hq => rw [hq.silent.2.2] at ht; cases ht
  | dropOrphaned _ _ ho => cases ht; exact ho
  | orphaned | orphanedResuming => cases ht; rfl
  | @aborted _ fallback => cases fallback <;> cases ht; rfl
  | @ended _ _ r hop hr => rcases hr with rfl | rfl | rfl <;> cases ht
  | _ => cases ht

theorem Effect.outstanding (h : Effect s l op s' l' r) :
    SessionEvent.outstanding s.state.reservation.toList ⟨op, l, r⟩ =
      s'.state.reservation.toList := by
  cases h with
  | idle hq =>
    rw [hq.outstanding]
    split
    · next he => rw [(hq.ends he).reservation]; rfl
    · rfl
  | orphaned _ _ hst | orphanedResuming _ _ hst => rw [hst]; rfl
  | orphanRefused _ _ _ _ _ _ _ hres =>
    rcases OrphanLimiter.reserve_error hres with rfl | rfl <;> rfl
  | ended revoked _ hr =>
    have hnone : (s.terminal revoked l).1.state.reservation = none := by cases revoked <;> rfl
    rw [hnone]
    rcases hr with rfl | rfl | rfl <;> cases op <;> rfl
  | begun hst => rw [hst, ResumeFallback.reservation_toState]; rfl
  | committed hst =>
    rw [hst]
    simp [SessionEvent.outstanding, State.reservation]
  | aborted hst =>
    rw [hst, ResumeFallback.reservation_toState]
    simp [SessionEvent.outstanding, State.reservation]
  | reaped hst => rw [hst]; rfl
  | _ => rfl

theorem Effect.reservation (h : Effect s l op s' l' r) {x : ResumeReservation}
    (hx : s'.state.reservation = some x) :
    s.state.reservation = some x ∨
      (x.generation = s.generation + 1 ∧ s'.generation = s.generation + 1) := by
  cases h with
  | begun _ _ _ hr => cases hx; rw [hr]; exact .inr ⟨rfl, rfl⟩
  | orphanedResuming _ _ hst => cases hx; rw [hst]; exact .inl rfl
  | ended revoked => cases revoked <;> cases hx
  | aborted => simp at hx
  | orphaned | orphanRefused | committed | reaped => cases hx
  | _ => exact .inl hx

theorem Effect.orphanTicket (h : Effect s l op s' l' r) {t : ReapTicket}
    (ht : s'.state.orphanTicket = some t) :
    s.state.orphanTicket = some t ∨
      (t.generation = s.generation + 1 ∧ s'.generation = s.generation + 1) := by
  rcases h.lease with ⟨-, heq⟩ | ⟨b, d, -, -, hs', hg⟩ | ⟨-, hnone⟩
  · exact .inl (heq ▸ ht)
  · rw [hs'] at ht; cases ht; exact .inr ⟨rfl, hg⟩
  · rw [hnone] at ht; cases ht

end Events

/-! ## Generations and slots -/

namespace SessionLifecycle

structure Sound (s : SessionLifecycle) : Prop where
  generation_pos : 1 ≤ s.generation
  generation_le : s.generation ≤ u64Max
  ticket_le : ∀ t, s.state.orphanTicket = some t → t.generation ≤ s.generation
  reservation_le : ∀ r, s.state.reservation = some r → r.generation ≤ s.generation
  slot_le : ∀ (k : Nat) (slot : LogicalSlot), s.slots[k]? = some slot →
    slot.generation ≤ s.generation
  /-- A pending resume was paid for with a generation, and its slot is not draining. -/
  resuming : ∀ r, s.state.reservation = some r →
    ∀ (k : Nat) (slot : LogicalSlot), s.slots[k]? = some slot →
      slot.generation < s.generation ∧ (k = r.logicalSlotId → slot.draining = none)

/-- Every slot of `s'` is one of `s` with perhaps fewer transports. -/
def SlotsBelow (s' s : SessionLifecycle) : Prop :=
  ∀ (k : Nat) (slot' : LogicalSlot), s'.slots[k]? = some slot' →
    ∃ slot, s.slots[k]? = some slot ∧ slot'.generation = slot.generation ∧
      (slot'.ready = slot.ready ∨ slot'.ready = none) ∧
      (slot'.draining = slot.draining ∨ slot'.draining = none)

theorem SlotsBelow.of_eq {s s' : SessionLifecycle} (h : s'.slots = s.slots) : SlotsBelow s' s := by
  intro k slot hk
  rw [h] at hk
  exact ⟨slot, hk, rfl, .inl rfl, .inl rfl⟩

theorem slotsBelow_setSlot {s : SessionLifecycle} {k : Nat} {slot slot' : LogicalSlot}
    (hk : s.slots[k]? = some slot) (hg : slot'.generation = slot.generation)
    (hr : slot'.ready = slot.ready ∨ slot'.ready = none)
    (hd : slot'.draining = slot.draining ∨ slot'.draining = none) :
    SlotsBelow (s.setSlot k slot') s := by
  intro a x ha
  rw [getElem?_setSlot] at ha
  split at ha
  · next he => cases ha; rw [he]; exact ⟨slot, hk, hg, hr, hd⟩
  · exact ⟨x, ha, rfl, .inl rfl, .inl rfl⟩

theorem slotsBelow_terminal (s : SessionLifecycle) (revoked : Bool) (l : OrphanLimiter) :
    SlotsBelow (s.terminal revoked l).1 s := by
  intro k slot hk
  simp only [terminal, Std.TreeMap.getElem?_map, Option.map_eq_some_iff] at hk
  obtain ⟨x, hx, rfl⟩ := hk
  exact ⟨x, hx, rfl, .inr rfl, .inr rfl⟩

end SessionLifecycle

open SessionLifecycle

section Soundness

variable {s s' : SessionLifecycle} {l l' : OrphanLimiter} {op : LifecycleOp} {r : LifecycleResult}

variable {x : ResumeReservation}

theorem SessionLifecycle.Sound.slot_generation_lt (hs : s.Sound) (hx : s.state.reservation = some x)
    {slot : LogicalSlot} (hslot : slot = s.slots[x.logicalSlotId]?.getD ⟨0, none, none⟩) :
    slot.generation + 1 ≤ s.generation := by
  cases hk : s.slots[x.logicalSlotId]? with
  | none => rw [hslot, hk]; exact hs.generation_pos
  | some y => rw [hslot, hk]; exact (hs.resuming x hx _ y hk).1

theorem SessionLifecycle.Sound.slot_draining (hs : s.Sound) (hx : s.state.reservation = some x)
    {slot : LogicalSlot} (hslot : slot = s.slots[x.logicalSlotId]?.getD ⟨0, none, none⟩) :
    slot.draining = none := by
  cases hk : s.slots[x.logicalSlotId]? with
  | none => rw [hslot, hk]; rfl
  | some y => rw [hslot, hk]; exact (hs.resuming x hx _ y hk).2 rfl

/-- In a sound session a commit succeeds, and every other operation only takes
transports away. -/
theorem Effect.slots (h : Effect s l op s' l' r) (hs : s.Sound) :
    SlotsBelow s' s ∨
    ∃ x t slot outcome, s.state.reservation = some x ∧ op = .commitResume x t ∧
      r = .committed (.ok outcome) ∧ slot = s.slots[x.logicalSlotId]?.getD ⟨0, none, none⟩ ∧
      slot.draining = none ∧
      s' = { s.setSlot x.logicalSlotId ⟨slot.generation + 1, some t, slot.ready⟩ with
        state := .active } := by
  cases h with
  | dropReady _ hk => exact .inl (slotsBelow_setSlot hk rfl (.inr rfl) (.inl rfl))
  | dropDraining _ hk | drained hk => exact .inl (slotsBelow_setSlot hk rfl (.inl rfl) (.inr rfl))
  | dropOrphaned hk | orphaned hk | orphanedResuming hk | orphanRefused hk | orphanExhausted hk =>
    exact .inl (slotsBelow_setSlot hk rfl (.inr rfl) (.inl rfl))
  | ended => exact .inl (slotsBelow_terminal _ _ _)
  | commitBlocked hst hslot hd =>
    have hnone := (hs.resuming _ (by rw [hst]; rfl) _ _ hslot).2 rfl
    rw [hnone] at hd; cases hd
  | commitExhausted hst hslot hg =>
    -- the slot's generation is below the session's, so it cannot be the last one
    have hlt := hs.slot_generation_lt (by rw [hst]; rfl) hslot
    have hmax := hs.generation_le
    omega
  | committed hst hslot hd =>
    exact .inr ⟨_, _, _, _, by rw [hst]; rfl, rfl, rfl, hslot, hd, rfl⟩
  | _ => exact .inl (.of_eq rfl)

theorem Effect.generation_le_max (h : Effect s l op s' l' r) (hs : s.generation ≤ u64Max) :
    s'.generation ≤ u64Max := by
  cases h with
  | orphanExhausted _ _ _ _ _ hg => simp only; omega
  | orphaned _ _ _ _ hg | orphanedResuming _ _ _ _ hg | orphanRefused _ _ _ _ _ hg | begun _ _ hg =>
    exact hg
  | _ => exact hs

theorem Effect.reserved (h : Effect s l op s' l' r) (hx : s'.state.reservation = some x)
    (hnew : s.state.reservation ≠ some x) :
    s'.slots = s.slots ∧ s'.generation = s.generation + 1 ∧
      ∀ slot : LogicalSlot, s.slots[x.logicalSlotId]? = some slot → slot.draining = none := by
  cases h with
  | begun _ _ _ _ hd => cases hx; exact ⟨rfl, rfl, hd⟩
  | orphanedResuming _ _ hst => cases hx; rw [hst] at hnew; exact absurd rfl hnew
  | ended revoked => cases revoked <;> cases hx
  | aborted => simp at hx
  | orphaned | orphanRefused | committed | reaped => cases hx
  | _ => exact absurd hx hnew

theorem SessionLifecycle.Sound.step (hs : s.Sound) (h : Effect s l op s' l' r) : s'.Sound := by
  have hmono := h.generation_le
  refine ⟨?_, h.generation_le_max hs.generation_le, ?_, ?_, ?_, ?_⟩
  · exact hs.generation_pos.trans hmono
  · intro t ht
    rcases h.orphanTicket ht with hold | hnew
    · exact (hs.ticket_le t hold).trans hmono
    · omega
  · intro x hx
    rcases h.reservation hx with hold | hnew
    · exact (hs.reservation_le x hold).trans hmono
    · omega
  · intro k slot hk
    rcases h.slots hs with hb | ⟨x, t, y, _, hx, -, -, hy, -, rfl⟩
    · obtain ⟨y, hky, hg, -⟩ := hb k slot hk
      have := hs.slot_le k y hky
      omega
    · simp only [getElem?_setSlot] at hk
      split at hk
      · next he =>
        cases hk
        exact hs.slot_generation_lt hx hy
      · exact hs.slot_le k slot hk
  · intro x hx k slot hk
    by_cases hold : s.state.reservation = some x
    · rcases h.slots hs with hb | ⟨_, _, _, _, _, _, _, _, _, rfl⟩
      · obtain ⟨y, hky, hg, -, hd⟩ := hb k slot hk
        obtain ⟨hlt, hdy⟩ := hs.resuming x hold k y hky
        refine ⟨by omega, fun he => ?_⟩
        rcases hd with hd | hd
        · rw [hd, hdy he]
        · exact hd
      · cases hx
    · obtain ⟨hslots, hg, hd⟩ := h.reserved hx hold
      rw [hslots] at hk
      have := hs.slot_le k slot hk
      exact ⟨by omega, fun he => hd slot (he ▸ hk)⟩

theorem SessionLifecycle.sound_new {sid maxSlots grace t : Nat} {locator : Bytes 16}
    (h : SessionLifecycle.new sid locator maxSlots grace t = .ok s) : s.Sound := by
  unfold SessionLifecycle.new at h
  split at h
  · cases h
  · cases h
    refine ⟨?_, ?_, ?_, ?_, ?_, ?_⟩
    · exact Nat.le_refl 1
    · show 1 ≤ u64Max
      decide
    · intro t ht; cases ht
    · intro x hx; cases hx
    · intro k slot hk
      simp only [Std.TreeMap.getElem?_insert, Std.TreeMap.getElem?_emptyc] at hk
      split at hk
      · cases hk; exact Nat.le_refl _
      · cases hk
    · intro x hx; cases hx

end Soundness

/-! ## Runs of one session -/

namespace SessionLifecycle

def Step (hmac : Hmac) (s : SessionLifecycle) (e : SessionEvent) (s' : SessionLifecycle) : Prop :=
  s' = (s.apply hmac e.limiter e.op).1 ∧ e.result = (s.apply hmac e.limiter e.op).2.2

variable {hmac : Hmac} {s s' : SessionLifecycle} {e : SessionEvent} {r : ResumeReservation}

theorem Step.effect (h : Step hmac s e s') : ∃ l', Effect s e.limiter e.op s' l' e.result := by
  obtain ⟨rfl, hr⟩ := h
  exact ⟨_, hr ▸ apply_effect hmac s e.limiter e.op⟩

/-- What the history of a run says about its last state. -/
structure Recorded (es : List SessionEvent) (s : SessionLifecycle) : Prop where
  sound : s.Sound
  joins : (acceptedJoins es).Pairwise fun a b => a.input.resumeEpoch < b.input.resumeEpoch
  joins_le : ∀ j ∈ acceptedJoins es, j.input.resumeEpoch ≤ s.lastResumeEpoch
  outstanding : outstandingReservations es = s.state.reservation.toList
  committed : (committedReservations es).Pairwise fun a b => a.generation < b.generation
  committed_le : ∀ r ∈ committedReservations es, r.generation ≤ s.generation ∧
    ∀ x, s.state.reservation = some x → r.generation < x.generation
  issued_le : ∀ t ∈ issuedTickets es, t.generation ≤ s.generation
  ended : ∀ e ∈ es, e.result.ends → s.state.Terminal

theorem Recorded.step {es : List SessionEvent} (h : Recorded es s) (hs : Step hmac s e s') :
    Recorded (es ++ [e]) s' := by
  obtain ⟨l', he⟩ := hs.effect
  have hmono := he.generation_le
  refine ⟨h.sound.step he, ?_, ?_, ?_, ?_, ?_, ?_, ?_⟩
  · rw [acceptedJoins, filterMap_snoc, List.pairwise_append]
    refine ⟨h.joins, by cases e.acceptedJoin <;> simp, fun a ha b hb => ?_⟩
    exact (h.joins_le a ha).trans_lt (he.acceptedJoin (Option.mem_toList.mp hb)).1
  · intro j hj
    rw [acceptedJoins, filterMap_snoc, List.mem_append] at hj
    rcases hj with hj | hj
    · exact (h.joins_le j hj).trans he.epoch_le
    · exact (he.acceptedJoin (Option.mem_toList.mp hj)).2.ge
  · rw [outstandingReservations, List.foldl_append, List.foldl_cons, List.foldl_nil,
      ← outstandingReservations, h.outstanding]
    exact he.outstanding
  · rw [committedReservations, filterMap_snoc, List.pairwise_append]
    refine ⟨h.committed, by cases e.committed <;> simp, fun a ha b hb => ?_⟩
    exact (h.committed_le a ha).2 b (he.committed_event (Option.mem_toList.mp hb)).1
  · intro a ha
    rw [committedReservations, filterMap_snoc, List.mem_append] at ha
    rcases ha with ha | ha
    · obtain ⟨h1, h2⟩ := h.committed_le a ha
      refine ⟨h1.trans hmono, fun x hx => ?_⟩
      rcases he.reservation hx with hold | hnew
      · exact h2 x hold
      · omega
    · obtain ⟨h1, h2⟩ := he.committed_event (Option.mem_toList.mp ha)
      refine ⟨(h.sound.reservation_le a h1).trans hmono, fun x hx => ?_⟩
      rw [h2] at hx; cases hx
  · intro t ht
    rw [issuedTickets, filterMap_snoc, List.mem_append] at ht
    rcases ht with ht | ht
    · exact (h.issued_le t ht).trans hmono
    · exact (h.sound.step he).ticket_le t (he.issued (Option.mem_toList.mp ht))
  · exact forall_mem_snoc.mpr
      ⟨fun f hf hends => he.terminal (h.ended f hf hends), he.terminal_of_ends⟩

theorem recorded_new {sid maxSlots grace t : Nat} {locator : Bytes 16}
    (h : SessionLifecycle.new sid locator maxSlots grace t = .ok s) : Recorded [] s := by
  refine ⟨sound_new h, .nil, by simp [acceptedJoins], ?_, .nil, by simp [committedReservations],
    by simp [issuedTickets], by simp⟩
  rw [(Profile.new_session h).2.1]; rfl

/-- After a commit at generation `g` every orphan timer is of a later generation. -/
def TimersAfter (g : Nat) (s : SessionLifecycle) : Prop :=
  g ≤ s.generation ∧ ∀ t, s.state.orphanTicket = some t → g < t.generation

theorem TimersAfter.step {g : Nat} (h : TimersAfter g s) (hs : Step hmac s e s') : TimersAfter g s' := by
  obtain ⟨l', he⟩ := hs.effect
  refine ⟨h.1.trans he.generation_le, fun t ht => ?_⟩
  rcases he.orphanTicket ht with hold | ⟨hnew, -⟩
  · exact h.2 t hold
  · have := h.1; omega

theorem reap_eq (s : SessionLifecycle) (ticket : ReapTicket) (now : Nat) (l : OrphanLimiter) :
    s.reap ticket now l = (s, l, false) ∨
      (s.state = .orphaned ticket ∧ ticket.deadline ≤ now ∧
        s.reap ticket now l = ({ s with state := .closing }, (l.release ticket).1, true)) := by
  unfold reap
  split_ifs with h
  · exact .inl rfl
  · simp only [ne_eq, not_or, not_not, not_lt] at h
    exact .inr ⟨h.1, h.2, rfl⟩

theorem reap_of_ne {ticket : ReapTicket} (h : s.state ≠ .orphaned ticket) (now : Nat)
    (l : OrphanLimiter) : s.reap ticket now l = (s, l, false) :=
  (s.reap_eq ticket now l).resolve_right fun hr => h hr.1

theorem stale_ticket {s₀ : SessionLifecycle} {fs gs : List SessionEvent} {ticket : ReapTicket}
    (h0 : Recorded [] s₀) (h : Run (Step hmac) s₀ (fs ++ e :: gs) s) (he : e.committed = some r)
    (ht : ticket ∈ issuedTickets fs) : s.state ≠ .orphaned ticket := by
  obtain ⟨s₁, s₂, h1, hstep, h2⟩ := h.step_at
  have hrec : Recorded fs s₁ := h1.invariant h0 fun _ hp hs => hp.step hs
  obtain ⟨l', heff⟩ := hstep.effect
  have hafter : TimersAfter s₁.generation s₂ := by
    refine ⟨heff.generation_le, fun t ht => ?_⟩
    rw [(heff.committed_event he).2] at ht; cases ht
  have hend := h2.preserves hafter TimersAfter.step
  intro hst
  have hlt := hend.2 ticket (by rw [hst]; rfl)
  have hle := hrec.issued_le ticket ht
  omega

theorem Sound.commitResume_ok (hs : s.Sound) (hr : s.state.reservation = some r) (t : Nat)
    (l : OrphanLimiter) : ∃ outcome, (s.commitResume r t l).2.2 = .ok outcome := by
  obtain ⟨fallback, hst⟩ := State.reservation_eq.mp hr
  have hd := hs.slot_draining hr rfl
  have hg := (hs.slot_generation_lt hr rfl).trans hs.generation_le
  unfold commitResume
  rw [hst]
  simp [hd, checkedAdd, hg]

theorem commitResume_reserved {t : Nat} {l : OrphanLimiter} {outcome : CommitOutcome}
    (h : (s.commitResume r t l).2.2 = .ok outcome) : s.state.reservation = some r := by
  have he := commitResume_effect (s := s) (l := l) r t
  rw [h] at he
  exact (he.committed_event rfl).1

/-- **Resume safety.** In every run of a session: accepted JOIN epochs increase;
at most one reservation is open, it alone can commit, it does so at most once and
is never refused; after an end nothing commits and no state but a final one is
reached; and only the current, expired orphan ticket reaps. -/
theorem resume_safety {hmac : Hmac} {sid maxSlots grace primary : Nat} {locator : Bytes 16}
    {s₀ s : SessionLifecycle} {es : List SessionEvent}
    (h0 : SessionLifecycle.new sid locator maxSlots grace primary = .ok s₀)
    (h : Run (Step hmac) s₀ es s) :
    ((acceptedJoins es).Pairwise fun a b => a.input.resumeEpoch < b.input.resumeEpoch) ∧
    (outstandingReservations es).length ≤ 1 ∧
    (∀ r, r ∈ outstandingReservations es ↔ ∃ fallback, s.state = .resuming r fallback) ∧
    (committedReservations es).Nodup ∧
    (∀ r ∈ outstandingReservations es, ∀ t l, ∃ outcome, (s.commitResume r t l).2.2 = .ok outcome) ∧
    (∀ r t l outcome, (s.commitResume r t l).2.2 = .ok outcome → r ∈ outstandingReservations es) ∧
    (∀ e ∈ es, e.result.ends →
      s.state.Terminal ∧ ∀ r t l outcome, (s.commitResume r t l).2.2 ≠ .ok outcome) ∧
    (∀ ticket now l, s.reap ticket now l = (s, l, false) ∨
      (s.state = .orphaned ticket ∧ ticket.deadline ≤ now ∧
        s.reap ticket now l = ({ s with state := .closing }, (l.release ticket).1, true))) ∧
    (∀ fs e gs r ticket now l, es = fs ++ e :: gs → e.committed = some r →
      ticket ∈ issuedTickets fs → s.reap ticket now l = (s, l, false)) ∧
    (∀ r fallback ticket now l, s.state = .resuming r fallback →
      s.reap ticket now l = (s, l, false)) := by
  have hrec : Recorded es s := h.invariant (recorded_new h0) fun _ hp hs => hp.step hs
  have hmem : ∀ r, r ∈ outstandingReservations es ↔ s.state.reservation = some r := by
    intro r; rw [hrec.outstanding, Option.mem_toList]
  refine ⟨hrec.joins, ?_, fun r => (hmem r).trans State.reservation_eq, ?_, ?_, ?_, ?_,
    s.reap_eq, ?_, ?_⟩
  · rw [hrec.outstanding]
    cases s.state.reservation <;> simp
  · exact hrec.committed.imp fun hlt he => absurd (he ▸ hlt) (Nat.lt_irrefl _)
  · exact fun r hr t l => hrec.sound.commitResume_ok ((hmem r).mp hr) t l
  · exact fun r t l outcome hok => (hmem r).mpr (commitResume_reserved hok)
  · intro e he hends
    have hterm := hrec.ended e he hends
    refine ⟨hterm, fun r t l outcome hok => ?_⟩
    have hr := commitResume_reserved hok
    rw [hterm.reservation] at hr; cases hr
  · rintro fs e gs r ticket now l rfl he ht
    exact reap_of_ne (stale_ticket (recorded_new h0) h he ht) now l
  · intro r fallback ticket now l hst
    exact reap_of_ne (by rw [hst]; nofun) now l

/-- A fresh session takes over its slot 0 on transport 101. -/
theorem resume_safety_handover :
    ∃ s₀ s es, SessionLifecycle.new 7 (.replicate 16 0) 4 1000 100 = .ok s₀ ∧
      Run (Step fun _ _ => .replicate 32 0) s₀ es s ∧
      (committedReservations es).map ResumeReservation.resumeEpoch = [1] ∧
      (acceptedJoins es).Pairwise fun a b => a.input.resumeEpoch < b.input.resumeEpoch := by
  let join : TcpResumeJoin := ⟨⟨.replicate 32 0, .replicate 16 0, 1, 0, true⟩, .replicate 32 0⟩
  let s₀ : SessionLifecycle := ⟨7, .replicate 16 0, 4, 1000, 1, 0, .active,
    (∅ : Std.TreeMap Nat LogicalSlot).insert 0 ⟨1, some 100, none⟩⟩
  let s₁ : SessionLifecycle := { s₀ with
    generation := 2, lastResumeEpoch := 1, state := .resuming ⟨7, 2, 1, 0, true⟩ .active }
  have h0 : SessionLifecycle.new 7 (.replicate 16 0) 4 1000 100 = .ok s₀ := rfl
  have h1 : Step (fun _ _ => .replicate 32 0) s₀
      ⟨.beginResume join (.replicate 32 0) (.replicate 32 0), .new 4 4096,
        .begun (.ok ⟨7, 2, 1, 0, true⟩)⟩ s₁ := ⟨rfl, rfl⟩
  have h2 : Step (fun _ _ => .replicate 32 0) s₁
      ⟨.commitResume ⟨7, 2, 1, 0, true⟩ 101, .new 4 4096, .committed (.ok ⟨some 100, 2⟩)⟩ _ :=
    ⟨rfl, rfl⟩
  have h := Run.snoc (Run.snoc Run.nil h1) h2
  exact ⟨s₀, _, _, h0, h, rfl, (resume_safety h0 h).1⟩

end SessionLifecycle

end Qeli.Tcp
