import Qeli.Tcp.Resume

/-!
# A session's state and its transports

`At s k role t`: slot `k` records transport `t` as ready or draining. Three
facts about the records of a reachable session: a non-final state owns an orphan
timer exactly when no transport is ready (`Matched`), a transport is recorded at
most once (`Unique`), and a record goes away only by a detach, an acknowledged
drain or the end of the session (`Effect.keeps`).

`Matched` needs a generation and a deadline for the orphan timer whenever the last
ready transport drops: a profile's grace period is an hour at most, the clock is not
in its last hour, and no session lives for 2^64 events.
-/

namespace Qeli.Tcp

open Qeli.Lib Qeli.Wire

inductive Role where
  | ready | draining
  deriving DecidableEq

def LogicalSlot.get (slot : LogicalSlot) : Role → Option Nat
  | .ready => slot.ready
  | .draining => slot.draining

def roamingMinGraceSecs : Nat := 1

def roamingMaxGraceSecs : Nat := 3600

/-- The check of `validate_profiles`. -/
def graceSecsValid (graceSecs : Nat) : Bool :=
  roamingMinGraceSecs ≤ graceSecs && graceSecs ≤ roamingMaxGraceSecs

/-- `Duration::from_secs`, in nanoseconds. -/
def durationFromSecs (secs : Nat) : Nat := secs * 1000000000

/-- The clock still has room for the longest grace period. -/
def LifecycleOp.ClockFits : LifecycleOp → Prop
  | .detach _ _ now _ => now + durationFromSecs roamingMaxGraceSecs ≤ instantMax
  | _ => True

namespace SessionEvent

def madeReady (e : SessionEvent) : Option Nat :=
  match e.op, e.result with
  | .commitResume _ newTransportId, .committed (.ok _) => some newTransportId
  | _, _ => none

/-- The event detaches `t`, acknowledges its drain or ends the session. -/
def Removes (e : SessionEvent) (t : Nat) : Prop :=
  (∃ now b, e.op = .detach t .unexpected now b) ∨
  (∃ k g, e.op = .completeDrain k g t ∧ e.result = .drained true) ∨ e.result.ends

end SessionEvent

/-- Every transport id given to the session: the primary and those committed. -/
def transportIds (primary : Nat) (es : List SessionEvent) : List Nat :=
  primary :: es.filterMap SessionEvent.madeReady

namespace SessionLifecycle

def At (s : SessionLifecycle) (k : Nat) (role : Role) (t : Nat) : Prop :=
  ∃ slot, s.slots[k]? = some slot ∧ slot.get role = some t

def Unique (s : SessionLifecycle) : Prop :=
  ∀ t k role k' role', s.At k role t → s.At k' role' t → k = k' ∧ role = role'

def Matched (s : SessionLifecycle) : Prop :=
  ¬ s.state.Terminal → (s.state.orphanTicket = none ↔ s.readyStreams > 0)

variable {s : SessionLifecycle} {k t : Nat} {slot : LogicalSlot} {role : Role}

theorem readyStreams_pos_at : s.readyStreams > 0 ↔ ∃ k t, s.At k .ready t := by
  rw [readyStreams_pos]
  constructor
  · rintro ⟨k, slot, hk, hr⟩
    obtain ⟨t, ht⟩ := Option.isSome_iff_exists.mp hr
    exact ⟨k, t, slot, hk, ht⟩
  · rintro ⟨k, t, slot, hk, ht⟩
    exact ⟨k, slot, hk, Option.isSome_of_eq_some ht⟩

theorem at_setSlot {a : Nat} :
    (s.setSlot k slot).At a role t ↔
      (a = k ∧ slot.get role = some t) ∨ (a ≠ k ∧ s.At a role t) := by
  unfold At
  rw [getElem?_setSlot]
  by_cases h : a = k
  · simp [h]
  · simp [h]

theorem SlotsBelow.at {s' : SessionLifecycle} (h : SlotsBelow s' s) (hat : s'.At k role t) :
    s.At k role t := by
  obtain ⟨slot', hk, ht⟩ := hat
  obtain ⟨slot, hks, -, hr, hd⟩ := h k slot' hk
  refine ⟨slot, hks, ?_⟩
  cases role with
  | ready =>
    rcases hr with hr | hr
    · exact hr.symm.trans ht
    · simp [LogicalSlot.get, hr] at ht
  | draining =>
    rcases hd with hd | hd
    · exact hd.symm.trans ht
    · simp [LogicalSlot.get, hd] at ht

theorem at_commit {a t' : Nat} (hslot : slot = s.slots[k]?.getD ⟨0, none, none⟩)
    (h : (s.setSlot k ⟨slot.generation + 1, some t, slot.ready⟩).At a role t') :
    (a = k ∧ role = .ready ∧ t' = t) ∨ (a = k ∧ role = .draining ∧ s.At k .ready t') ∨
      (a ≠ k ∧ s.At a role t') := by
  rcases at_setSlot.mp h with ⟨rfl, hget⟩ | hother
  · cases role with
    | ready => cases hget; exact .inl ⟨rfl, rfl, rfl⟩
    | draining =>
      refine .inr (.inl ⟨rfl, rfl, ?_⟩)
      cases hk : s.slots[a]? with
      | none => rw [hslot, hk] at hget; cases hget
      | some x => rw [hslot, hk] at hget; exact ⟨x, hk, hget⟩
  · exact .inr (.inr hother)

theorem readyStreams_setSlot_draining (hk : s.slots[k]? = some slot) :
    (s.setSlot k { slot with draining := none }).readyStreams > 0 ↔ s.readyStreams > 0 := by
  rw [readyStreams_pos_at, readyStreams_pos_at]
  constructor
  · rintro ⟨a, t, ha⟩
    have hb : SlotsBelow (s.setSlot k { slot with draining := none }) s :=
      slotsBelow_setSlot hk rfl (.inl rfl) (.inr rfl)
    exact ⟨a, t, hb.at ha⟩
  · rintro ⟨a, t, ha⟩
    refine ⟨a, t, at_setSlot.mpr ?_⟩
    by_cases he : a = k
    · subst he
      obtain ⟨x, hx, ht⟩ := ha
      rw [hk] at hx; cases hx
      exact .inl ⟨rfl, ht⟩
    · exact .inr ⟨he, ha⟩

end SessionLifecycle

open SessionLifecycle

theorem State.live_of_no_timer {st : State} (hs : ¬ st.Terminal) (ho : st.orphanTicket = none) :
    st = .active ∨ ∃ r, st = .resuming r .active := by
  cases st with
  | active => exact .inl rfl
  | resuming r fallback =>
    cases fallback with
    | active => exact .inr ⟨r, rfl⟩
    | orphaned => cases ho
  | orphaned => cases ho
  | closing | revoked => exact absurd trivial hs

section Records

variable {s s' : SessionLifecycle} {l l' : OrphanLimiter} {op : LifecycleOp} {r : LifecycleResult}

theorem Effect.generation_le_succ (h : Effect s l op s' l' r) :
    s'.generation ≤ s.generation + 1 := by
  cases h with
  | orphanExhausted _ _ _ _ _ hg => simp only; omega
  | _ => first | exact Nat.le_succ _ | exact Nat.le_refl _

theorem Effect.grace (h : Effect s l op s' l' r) : s'.grace = s.grace := by
  cases h <;> rfl

theorem SessionLifecycle.Matched.step (hm : s.Matched) (hs : s.Sound)
    (hgeneration : s.generation < u64Max)
    (hgrace : s.grace ≤ durationFromSecs roamingMaxGraceSecs) (hclock : op.ClockFits)
    (h : Effect s l op s' l' r) : s'.Matched := by
  intro hlive
  -- a session with a ready transport owns no timer
  have hready : ∀ {k t : Nat} {slot : LogicalSlot}, s.slots[k]? = some slot →
      slot.ready = some t → ¬ s.state.Terminal → s.state.orphanTicket = none :=
    fun hk ht hterm => (hm hterm).mpr (readyStreams_pos_at.mpr ⟨_, _, _, hk, ht⟩)
  cases h with
  | idle => exact hm hlive
  | dropReady hterm hk ht hr => exact iff_of_true (hready hk ht hterm) hr
  | dropDraining hterm hk _ _ => rw [readyStreams_setSlot_draining hk]; exact hm hterm
  | dropOrphaned hk ht ho _ => rw [hready hk ht hlive] at ho; cases ho
  | orphaned hk ht _ hr | orphanedResuming hk ht _ hr => exact iff_of_false nofun hr
  | orphanRefused | reaped => exact absurd trivial hlive
  | orphanExhausted hk ht hterm ho hr hex =>
    have hlast : _ ≤ instantMax := hclock
    omega
  | ended revoked => cases revoked <;> exact absurd trivial hlive
  | burned => exact hm hlive
  | begun hst =>
    have hterm : ¬ s.state.Terminal := by rw [hst]; exact ResumeFallback.not_terminal_toState _
    have := hm hterm
    rw [hst, ResumeFallback.orphanTicket_toState] at this
    rw [State.orphanTicket_resuming]
    exact this
  | commitBlocked hst hslot hd =>
    rw [(hs.resuming _ (by rw [hst]; rfl) _ _ hslot).2 rfl] at hd; cases hd
  | commitExhausted hst hslot hg =>
    have hlt := hs.slot_generation_lt (by rw [hst]; rfl) hslot
    exact absurd (hlt.trans hs.generation_le) (not_le.mpr hg)
  | committed =>
    exact iff_of_true rfl (readyStreams_pos_at.mpr ⟨_, _, at_setSlot.mpr (.inl ⟨rfl, rfl⟩)⟩)
  | aborted hst =>
    have := hm (by rw [hst]; exact id)
    rw [hst, State.orphanTicket_resuming] at this
    rw [ResumeFallback.orphanTicket_toState]
    exact this
  | drained hk => rw [readyStreams_setSlot_draining hk]; exact hm hlive

variable {k t a : Nat} {role : Role} {slot : LogicalSlot}

theorem Effect.at (h : Effect s l op s' l' r) (hs : s.Sound) (hat : s'.At k role t) :
    (∃ k' role', s.At k' role' t) ∨ SessionEvent.madeReady ⟨op, l, r⟩ = some t := by
  rcases h.slots hs with hb | ⟨x, u, slot, _, -, rfl, rfl, hslot, -, rfl⟩
  · exact .inl ⟨k, role, hb.at hat⟩
  · rcases at_commit hslot hat with ⟨-, -, rfl⟩ | ⟨-, -, hr⟩ | ⟨-, hother⟩
    · exact .inr rfl
    · exact .inl ⟨_, _, hr⟩
    · exact .inl ⟨_, _, hother⟩

theorem Effect.madeReady (h : Effect s l op s' l' r)
    (ht : SessionEvent.madeReady ⟨op, l, r⟩ = some t) : ∃ k role, s'.At k role t := by
  cases h with
  | committed => cases ht; exact ⟨_, .ready, at_setSlot.mpr (.inl ⟨rfl, rfl⟩)⟩
  | idle hq =>
    cases op <;> cases r <;> first | cases ht | skip
    rename_i result
    cases result <;> first | cases hq | cases ht
  | ended _ _ hr => rcases hr with rfl | rfl | rfl <;> cases op <;> cases ht
  | _ => cases ht

theorem SessionLifecycle.Unique.step (hu : s.Unique) (hs : s.Sound) (h : Effect s l op s' l' r)
    (hfresh : ∀ t, SessionEvent.madeReady ⟨op, l, r⟩ = some t → ∀ k role, ¬ s.At k role t) :
    s'.Unique := by
  intro t k role k' role' hat hat'
  rcases h.slots hs with hb | ⟨x, u, slot, _, -, rfl, rfl, hslot, -, rfl⟩
  · exact hu t k role k' role' (hb.at hat) (hb.at hat')
  · have hnew := hfresh u rfl
    -- both records are old ones, or both are the new ready transport
    rcases at_commit hslot hat with ⟨rfl, rfl, rfl⟩ | ⟨rfl, rfl, hr⟩ | ⟨hne, ho⟩ <;>
      rcases at_commit hslot hat' with ⟨rfl, rfl, he⟩ | ⟨rfl, rfl, hr'⟩ | ⟨hne', ho'⟩
    · exact ⟨rfl, rfl⟩
    · exact absurd hr' (hnew _ _)
    · exact absurd ho' (hnew _ _)
    · exact absurd (he ▸ hr) (hnew _ _)
    · exact ⟨rfl, rfl⟩
    · exact absurd (hu _ _ _ _ _ hr ho').1.symm hne'
    · exact absurd (he ▸ ho) (hnew _ _)
    · exact absurd (hu _ _ _ _ _ ho hr').1 hne
    · exact hu _ _ _ _ _ ho ho'

theorem SessionLifecycle.At.setSlot {slot' : LogicalSlot} (hat : s.At a role t)
    (hk : s.slots[k]? = some slot)
    (hkeep : a = k → slot.get role = some t → slot'.get role = some t) :
    (s.setSlot k slot').At a role t := by
  refine at_setSlot.mpr ?_
  by_cases he : a = k
  · subst he
    obtain ⟨x, hx, ht⟩ := hat
    rw [hk] at hx; cases hx
    exact .inl ⟨rfl, hkeep rfl ht⟩
  · exact .inr ⟨he, hat⟩

theorem SessionLifecycle.At.dropReady {u : Nat} (hat : s.At a role t) (hk : s.slots[k]? = some slot)
    (hu : slot.ready = some u) (hne : t ≠ u) :
    (s.setSlot k { slot with ready := none }).At a role t := by
  refine hat.setSlot hk fun _ h => ?_
  cases role with
  | ready => rw [LogicalSlot.get, hu] at h; exact absurd (Option.some.inj h).symm hne
  | draining => exact h

theorem SessionLifecycle.At.dropDraining {u : Nat} (hat : s.At a role t)
    (hk : s.slots[k]? = some slot) (hu : slot.draining = some u) (hne : t ≠ u) :
    (s.setSlot k { slot with draining := none }).At a role t := by
  refine hat.setSlot hk fun _ h => ?_
  cases role with
  | ready => exact h
  | draining => rw [LogicalSlot.get, hu] at h; exact absurd (Option.some.inj h).symm hne

/-- A record stays, perhaps in another place, unless the event removes it. -/
theorem Effect.keeps (h : Effect s l op s' l' r) (hs : s.Sound) (hat : s.At k role t) :
    (∃ k' role', s'.At k' role' t) ∨ SessionEvent.Removes ⟨op, l, r⟩ t := by
  by_cases hrem : SessionEvent.Removes ⟨op, l, r⟩ t
  · exact .inr hrem
  refine .inl ?_
  have hdet : ∀ u now b, op = .detach u .unexpected now b → t ≠ u := by
    rintro u now b rfl rfl; exact hrem (.inl ⟨_, _, rfl⟩)
  cases h with
  | dropReady _ hk hu | dropOrphaned hk hu | orphaned hk hu | orphanedResuming hk hu
  | orphanRefused hk hu | orphanExhausted hk hu =>
    exact ⟨k, role, hat.dropReady hk hu (hdet _ _ _ rfl)⟩
  | dropDraining _ hk _ hu =>
    exact ⟨k, role, hat.dropDraining hk hu (hdet _ _ _ rfl)⟩
  | drained hk _ hu =>
    refine ⟨k, role, hat.dropDraining hk hu ?_⟩
    rintro rfl; exact hrem (.inr (.inl ⟨_, _, rfl, rfl⟩))
  | ended _ _ hr =>
    exact absurd (.inr (.inr (by rcases hr with rfl | rfl | rfl <;> rfl))) hrem
  | commitBlocked hst hslot => exact ⟨k, role, hat.setSlot hslot fun _ => id⟩
  | commitExhausted hst hslot hg =>
    have hlt := hs.slot_generation_lt (by rw [hst]; rfl) hslot
    exact absurd (hlt.trans hs.generation_le) (not_le.mpr hg)
  | @committed x _ _ slot _ hslot hd =>
    by_cases he : k = x.logicalSlotId
    · subst he
      obtain ⟨y, hy, ht⟩ := hat
      rw [hy, Option.getD_some] at hslot
      subst hslot
      -- the old ready transport now drains; nothing was draining before
      cases role with
      | ready => exact ⟨x.logicalSlotId, .draining, at_setSlot.mpr (.inl ⟨rfl, ht⟩)⟩
      | draining => rw [LogicalSlot.get, hd] at ht; cases ht
    · exact ⟨k, role, at_setSlot.mpr (.inr ⟨he, hat⟩)⟩
  | _ => exact ⟨k, role, hat⟩

end Records

/-! ## Runs -/

namespace SessionLifecycle

/-- The invariant of a run whose transport ids are fresh. -/
structure Tracked (primary : Nat) (es : List SessionEvent) (s : SessionLifecycle) : Prop where
  sound : s.Sound
  matched : s.Matched
  unique : s.Unique
  known : ∀ k role t, s.At k role t → t ∈ transportIds primary es
  grace_le : s.grace ≤ durationFromSecs roamingMaxGraceSecs
  generation_le : s.generation ≤ es.length + 1

variable {primary : Nat} {s : SessionLifecycle} {hmac : Hmac}

theorem at_new {sid maxSlots grace : Nat} {locator : Bytes 16}
    (h : SessionLifecycle.new sid locator maxSlots grace primary = .ok s) {k t : Nat} {role : Role} :
    s.At k role t ↔ k = 0 ∧ role = .ready ∧ t = primary := by
  unfold SessionLifecycle.new at h
  split at h
  · cases h
  · cases h
    unfold At
    simp only [Std.TreeMap.getElem?_insert, Std.TreeMap.getElem?_emptyc, Std.compare_eq_iff_eq]
    by_cases hk : k = 0
    · subst hk
      cases role with
      | ready => simp [LogicalSlot.get, eq_comm]
      | draining => simp [LogicalSlot.get]
    · simp [hk, Ne.symm hk]

theorem tracked_new {sid maxSlots grace : Nat} {locator : Bytes 16}
    (h : SessionLifecycle.new sid locator maxSlots grace primary = .ok s)
    (hgrace : grace ≤ durationFromSecs roamingMaxGraceSecs) : Tracked primary [] s := by
  have hstart : s.grace = grace ∧ s.generation = 1 := by
    unfold SessionLifecycle.new at h
    split at h <;> cases h
    exact ⟨rfl, rfl⟩
  refine ⟨sound_new h, fun _ => ?_, ?_, ?_, hstart.1.trans_le hgrace, hstart.2.le⟩
  · rw [(Profile.new_session h).2.1]
    exact iff_of_true rfl (readyStreams_pos_at.mpr ⟨0, primary, (at_new h).mpr ⟨rfl, rfl, rfl⟩⟩)
  · intro t k role k' role' hat hat'
    obtain ⟨rfl, rfl, -⟩ := (at_new h).mp hat
    obtain ⟨rfl, rfl, -⟩ := (at_new h).mp hat'
    exact ⟨rfl, rfl⟩
  · intro k role t hat
    rw [((at_new h).mp hat).2.2]
    exact List.mem_cons_self

theorem transportIds_snoc (primary : Nat) (es : List SessionEvent) (e : SessionEvent) :
    transportIds primary (es ++ [e]) = transportIds primary es ++ e.madeReady.toList := by
  rw [transportIds, filterMap_snoc, transportIds, List.cons_append]

theorem Tracked.step {es : List SessionEvent} {s' : SessionLifecycle} {e : SessionEvent}
    (h : Tracked primary es s) (hs : Step hmac s e s') (hclock : e.op.ClockFits)
    (hlen : es.length + 1 < u64Max) (hfresh : (transportIds primary (es ++ [e])).Nodup) :
    Tracked primary (es ++ [e]) s' := by
  obtain ⟨l', he⟩ := hs.effect
  have hgeneration := h.generation_le
  rw [transportIds_snoc, List.nodup_append] at hfresh
  refine ⟨h.sound.step he, h.matched.step h.sound (by omega) h.grace_le hclock he, ?_, ?_,
    he.grace.trans_le h.grace_le, he.generation_le_succ.trans (by simpa using hgeneration)⟩
  · refine h.unique.step h.sound he fun t ht k role hat => ?_
    exact hfresh.2.2 t (h.known k role t hat) t (Option.mem_toList.mpr ht) rfl
  · intro k role t hat
    rw [transportIds_snoc, List.mem_append]
    rcases he.at h.sound hat with ⟨k', role', hold⟩ | hnew
    · exact .inl (h.known k' role' t hold)
    · exact .inr (Option.mem_toList.mpr hnew)

theorem Tracked.run {s₀ : SessionLifecycle} {es : List SessionEvent} (h0 : Tracked primary [] s₀)
    (h : Run (Step hmac) s₀ es s) (hclock : ∀ e ∈ es, e.op.ClockFits) (hlen : es.length < u64Max)
    (hfresh : (transportIds primary es).Nodup) : Tracked primary es s := by
  refine h.invariant (P := fun es s => (∀ e ∈ es, e.op.ClockFits) → es.length < u64Max →
    (transportIds primary es).Nodup → Tracked primary es s)
    (fun _ _ _ => h0) (fun _ ih hs hc hl hf => ?_) hclock hlen hfresh
  have hprefix := hf
  rw [transportIds_snoc] at hprefix
  rw [List.length_append, List.length_singleton] at hl
  rw [List.forall_mem_append, List.forall_mem_singleton] at hc
  exact (ih hc.1 (Nat.lt_of_succ_lt hl) hprefix.of_append_left).step hs hc.2 hl hf

theorem recorded_until {s₁ : SessionLifecycle} {gs : List SessionEvent} {t : Nat} (hs : s₁.Sound)
    (hat : ∃ k role, s₁.At k role t) (h : Run (Step hmac) s₁ gs s) :
    (∃ k role, s.At k role t) ∨ ∃ f ∈ gs, f.Removes t := by
  have key : s.Sound ∧ ((∃ k role, s.At k role t) ∨ ∃ f ∈ gs, f.Removes t) := by
    refine h.invariant (P := fun gs s => s.Sound ∧
      ((∃ k role, s.At k role t) ∨ ∃ f ∈ gs, f.Removes t)) ⟨hs, .inl hat⟩ ?_
    rintro gs u e v - ⟨hsu, ih⟩ hstep
    obtain ⟨l', he⟩ := hstep.effect
    refine ⟨hsu.step he, ?_⟩
    rcases ih with ⟨k, role, hk⟩ | ⟨f, hf, hrem⟩
    · rcases he.keeps hsu hk with hkeep | hrem
      · exact .inl hkeep
      · exact .inr ⟨e, by simp, hrem⟩
    · exact .inr ⟨f, by simp [hf], hrem⟩
  exact key.2

theorem abortResume_ok {r : ResumeReservation} {ticket : Option ReapTicket}
    (h : (s.abortResume r).2 = .ok ticket) :
    ∃ fallback, s.state = .resuming r fallback ∧ ticket = fallback.ticket ∧
      (s.abortResume r).1 = { s with state := fallback.toState } := by
  unfold abortResume at h ⊢
  cases hst : s.state with
  | resuming current fallback =>
    rw [hst] at h
    dsimp only at h ⊢
    split_ifs at h ⊢ with hc
    rw [not_not] at hc
    subst hc
    cases fallback <;> cases h <;> exact ⟨_, rfl, rfl, rfl⟩
  | _ => rw [hst] at h; cases h

theorem completeDrain_eq (s : SessionLifecycle) (k g t : Nat) :
    ((s.completeDrain k g t).2 = true ↔
      ∃ slot : LogicalSlot, s.slots[k]? = some slot ∧ slot.generation = g ∧
        slot.draining = some t) ∧
    ((s.completeDrain k g t).2 = false → (s.completeDrain k g t).1 = s) := by
  unfold completeDrain
  cases hk : s.slots[k]? with
  | none => simp
  | some slot =>
    dsimp only
    split_ifs with h
    · simp only [Option.some.injEq, exists_eq_left', false_iff, not_and,
        imp_self, and_true]
      intro hg hd
      simp [hg, hd] at h
    · simp only [ne_eq, not_or, not_not] at h
      simp [h.1, h.2]

theorem Matched.active_iff (h : s.Matched) :
    (s.state = .active ∨ ∃ r, s.state = .resuming r .active) ↔
      ¬ s.state.Terminal ∧ s.readyStreams > 0 := by
  constructor
  · rintro (hst | ⟨r, hst⟩)
    · have hlive : ¬ s.state.Terminal := by rw [hst]; exact id
      exact ⟨hlive, (h hlive).mp (by rw [hst]; rfl)⟩
    · have hlive : ¬ s.state.Terminal := by rw [hst]; exact id
      exact ⟨hlive, (h hlive).mp (by rw [hst]; rfl)⟩
  · rintro ⟨hlive, hr⟩
    exact State.live_of_no_timer hlive ((h hlive).mpr hr)

theorem Matched.orphaned_iff (h : s.Matched) :
    (∃ ticket, s.state = .orphaned ticket ∨ ∃ r, s.state = .resuming r (.orphaned ticket)) ↔
      ¬ s.state.Terminal ∧ s.readyStreams = 0 := by
  constructor
  · rintro ⟨ticket, hst⟩
    have hlive : ¬ s.state.Terminal := by rcases hst with hst | ⟨r, hst⟩ <;> rw [hst] <;> exact id
    have ho : s.state.orphanTicket = some ticket := by
      rcases hst with hst | ⟨r, hst⟩ <;> rw [hst] <;> rfl
    refine ⟨hlive, Nat.eq_zero_of_not_pos fun hr => ?_⟩
    rw [(h hlive).mpr hr] at ho; cases ho
  · rintro ⟨hlive, hr⟩
    have ho : s.state.orphanTicket ≠ none := fun ho => absurd ((h hlive).mp ho) (by omega)
    cases hst : s.state with
    | orphaned ticket => exact ⟨ticket, .inl rfl⟩
    | resuming r fallback =>
      cases fallback with
      | orphaned ticket => exact ⟨ticket, .inr ⟨r, rfl⟩⟩
      | active => rw [hst] at ho; exact absurd rfl ho
    | _ => rw [hst] at ho; exact absurd rfl ho

end SessionLifecycle

end Qeli.Tcp
