import Qeli.Tcp.Transitions

/-!
# Orphan accounting

Any number of sessions share one `OrphanLimiter`. A session holds a lease
exactly while it owns an orphan timer, under the timer's generation; the
limiter's counters are the number of leases and the sum of their bytes
(`orphan_accounting`).

An operation touches the limiter in one of three ways (`Effect.lease`): not at
all, by reserving a lease at a generation the session never had before, or by
releasing the lease of the timer it gives up.
-/

namespace Qeli.Tcp

open Qeli.Lib Qeli.Wire SessionLifecycle

/-! ## The limiter's counters -/

namespace OrphanLimiter

/-- The counters are exact and within the limits. -/
structure Balanced (l : OrphanLimiter) : Prop where
  sessions : l.sessions = l.leases.size
  bytes : l.bytes = l.leases.total id
  sessions_le : l.sessions ≤ l.maxSessions
  bytes_le : l.bytes ≤ l.maxBytes

theorem balanced_new (maxSessions maxBytes : Nat) : (new maxSessions maxBytes).Balanced :=
  ⟨rfl, rfl, Nat.zero_le _, Nat.zero_le _⟩

variable {l : OrphanLimiter}

theorem reserve_ok {l' : OrphanLimiter} {sid g b : Nat} (h : l.reserve sid g b = .ok l') :
    l.leases.get? (sid, g) = none ∧ l.sessions + 1 ≤ l.maxSessions ∧ l.bytes + b ≤ l.maxBytes ∧
      l' = { l with
        leases := l.leases.insert (sid, g) b
        sessions := l.sessions + 1
        bytes := l.bytes + b } := by
  unfold reserve at h
  split at h
  · cases h
  · next hc =>
    split at h
    · next n m hn hm =>
      obtain ⟨-, rfl⟩ := checkedAdd_eq_some.mp hn
      obtain ⟨-, rfl⟩ := checkedAdd_eq_some.mp hm
      split at h
      · cases h
      · next hle =>
        refine ⟨KeyMap.contains_eq_false.mp (by simpa using hc), by omega, by omega, ?_⟩
        simpa using h.symm
    · cases h

theorem Balanced.reserve {l' : OrphanLimiter} {sid g b : Nat} (hb : l.Balanced)
    (h : l.reserve sid g b = .ok l') : l'.Balanced := by
  obtain ⟨hn, hs, hy, rfl⟩ := reserve_ok h
  have h1 := KeyMap.total_insert l.leases (sid, g) b fun _ => 1
  have h2 := KeyMap.total_insert l.leases (sid, g) b id
  rw [hn] at h1 h2
  rw [← KeyMap.size_eq_total, ← KeyMap.size_eq_total] at h1
  simp only [Option.elim_none, id_eq] at h1 h2
  exact ⟨by simp only [hb.sessions]; omega, by simp only [hb.bytes]; omega, hs, hy⟩

theorem Balanced.release (hb : l.Balanced) (ticket : ReapTicket) :
    (l.release ticket).1.Balanced := by
  unfold OrphanLimiter.release
  split
  · exact hb
  · next b hk =>
    have h1 := KeyMap.total_erase l.leases (ticket.sessionId, ticket.generation) fun _ => 1
    have h2 := KeyMap.total_erase l.leases (ticket.sessionId, ticket.generation) id
    rw [hk] at h1 h2
    rw [← KeyMap.size_eq_total, ← KeyMap.size_eq_total] at h1
    simp only [Option.elim_some, id_eq] at h1 h2
    have := hb.sessions; have := hb.bytes; have := hb.sessions_le; have := hb.bytes_le
    exact ⟨by simp only; omega, by simp only; omega, by simp only; omega, by simp only; omega⟩

theorem get?_release (l : OrphanLimiter) (ticket : ReapTicket) (key : Nat × Nat) :
    (l.release ticket).1.leases.get? key =
      if key = (ticket.sessionId, ticket.generation) then none else l.leases.get? key := by
  unfold OrphanLimiter.release
  split
  · next hn =>
    split
    · next he => rw [he, hn]
    · rfl
  · exact KeyMap.get?_erase ..

end OrphanLimiter

/-! ## What an operation does to the limiter -/

theorem ResumeFallback.orphanTicket_toState (f : ResumeFallback) :
    f.toState.orphanTicket = f.ticket := by cases f <;> rfl

theorem State.orphanTicket_resuming (r : ResumeReservation) (f : ResumeFallback) :
    (State.resuming r f).orphanTicket = f.ticket := by cases f <;> rfl

variable {s s' : SessionLifecycle} {l l' : OrphanLimiter} {op : LifecycleOp} {r : LifecycleResult}

theorem Effect.lease (h : Effect s l op s' l' r) :
    (l' = l ∧ s'.state.orphanTicket = s.state.orphanTicket) ∨
    (∃ b d, s.state.orphanTicket = none ∧ l.reserve s.sessionId (s.generation + 1) b = .ok l' ∧
      s'.state.orphanTicket = some ⟨s.sessionId, s.generation + 1, d⟩ ∧
      s'.generation = s.generation + 1) ∨
    (l' = s.releaseOrphanFallback l ∧ s'.state.orphanTicket = none) := by
  cases h with
  | orphaned hk ht hst hr hg hd hres | orphanedResuming hk ht hst hr hg hd hres =>
    exact .inr (.inl ⟨_, _, by rw [hst]; rfl, hres, rfl, rfl⟩)
  | orphanRefused hk ht hs ho => exact .inl ⟨rfl, ho.symm⟩
  | ended _ hop hr =>
    refine .inr (.inr ⟨rfl, ?_⟩)
    simp only [terminal]
    split <;> rfl
  | begun hst =>
    refine .inl ⟨rfl, ?_⟩
    rw [hst, State.orphanTicket_resuming, ResumeFallback.orphanTicket_toState]
  | committed => exact .inr (.inr ⟨rfl, rfl⟩)
  | aborted hst =>
    refine .inl ⟨rfl, ?_⟩
    rw [hst, State.orphanTicket_resuming, ResumeFallback.orphanTicket_toState]
  | reaped hst => exact .inr (.inr ⟨by simp [releaseOrphanFallback, hst, State.orphanTicket], rfl⟩)
  | _ => exact .inl ⟨rfl, rfl⟩

theorem Effect.sessionId (h : Effect s l op s' l' r) : s'.sessionId = s.sessionId := by
  cases h <;> rfl

theorem Effect.generation_le (h : Effect s l op s' l' r) : s.generation ≤ s'.generation := by
  cases h with
  | orphanExhausted _ _ _ _ _ hg => simp only; omega
  | _ => first | exact Nat.le_refl _ | exact Nat.le_succ _

/-! ## Sessions sharing one limiter -/

structure Profile where
  limiter : OrphanLimiter
  sessions : KeyMap Nat SessionLifecycle

inductive ProfileEvent where
  | start (sessionId : Nat) (locator : Bytes 16) (maxSlots grace primaryTransport : Nat)
  | act (sessionId : Nat) (op : LifecycleOp)

namespace Profile

def new (maxSessions maxBytes : Nat) : Profile := ⟨.new maxSessions maxBytes, ∅⟩

/-- A session starts under an unused id, or a live session takes one operation. -/
inductive Step (hmac : Hmac) : Profile → ProfileEvent → Profile → Prop where
  | start {p : Profile} {sid maxSlots grace t : Nat} {locator : Bytes 16} {s : SessionLifecycle} :
      p.sessions.get? sid = none →
      SessionLifecycle.new sid locator maxSlots grace t = .ok s →
      Step hmac p (.start sid locator maxSlots grace t)
        { p with sessions := p.sessions.insert sid s }
  | act {p : Profile} {sid : Nat} {op : LifecycleOp} {s : SessionLifecycle} :
      p.sessions.get? sid = some s →
      Step hmac p (.act sid op)
        { limiter := (s.apply hmac p.limiter op).2.1
          sessions := p.sessions.insert sid (s.apply hmac p.limiter op).1 }

def Holds (p : Profile) (sid g : Nat) : Prop :=
  ∃ s ticket, p.sessions.get? sid = some s ∧ s.state.orphanTicket = some ticket ∧
    ticket.sessionId = sid ∧ ticket.generation = g

structure Accounted (p : Profile) : Prop where
  balanced : p.limiter.Balanced
  sessionId : ∀ sid s, p.sessions.get? sid = some s → s.sessionId = sid
  ticket : ∀ sid s ticket, p.sessions.get? sid = some s → s.state.orphanTicket = some ticket →
    ticket.sessionId = sid ∧ ticket.generation ≤ s.generation
  leases : ∀ sid g, (p.limiter.leases.get? (sid, g)).isSome ↔ p.Holds sid g

theorem accounted_new (maxSessions maxBytes : Nat) : (new maxSessions maxBytes).Accounted where
  balanced := OrphanLimiter.balanced_new ..
  sessionId := by intro sid s h; simp [new] at h
  ticket := by intro sid s ticket h; simp [new] at h
  leases := by simp [new, OrphanLimiter.new, Holds]

variable {sid : Nat} {s : SessionLifecycle} {p p' : Profile} {hmac : Hmac} {e : ProfileEvent}

theorem new_session {maxSlots grace t : Nat} {locator : Bytes 16}
    (h : SessionLifecycle.new sid locator maxSlots grace t = .ok s) :
    s.sessionId = sid ∧ s.state = .active ∧ s.generation = 1 ∧ s.lastResumeEpoch = 0 := by
  unfold SessionLifecycle.new at h
  split at h
  · cases h
  · cases h; exact ⟨rfl, rfl, rfl, rfl⟩

theorem Accounted.frame (h : p.Accounted) {s' : SessionLifecycle} {l' : OrphanLimiter}
    (hid : s'.sessionId = sid) (hb : l'.Balanced)
    (ht : ∀ ticket, s'.state.orphanTicket = some ticket →
      ticket.sessionId = sid ∧ ticket.generation ≤ s'.generation)
    (hown : ∀ g, (l'.leases.get? (sid, g)).isSome ↔
      ∃ ticket, s'.state.orphanTicket = some ticket ∧ ticket.generation = g)
    (hother : ∀ a g, a ≠ sid → l'.leases.get? (a, g) = p.limiter.leases.get? (a, g)) :
    Accounted { limiter := l', sessions := p.sessions.insert sid s' } where
  balanced := hb
  sessionId := by
    intro a s ha
    simp only [KeyMap.get?_insert] at ha
    split at ha
    · next he => cases ha; rw [hid, he]
    · exact h.sessionId a s ha
  ticket := by
    intro a s ticket ha hst
    simp only [KeyMap.get?_insert] at ha
    split at ha
    · next he => cases ha; rw [he]; exact ht ticket hst
    · exact h.ticket a s ticket ha hst
  leases := by
    intro a g
    unfold Holds
    by_cases ha : a = sid
    · subst ha
      rw [hown g]
      simp only [KeyMap.get?_insert_self]
      constructor
      · rintro ⟨ticket, h1, h2⟩; exact ⟨s', ticket, rfl, h1, (ht ticket h1).1, h2⟩
      · rintro ⟨s, ticket, he, h1, -, h2⟩; cases he; exact ⟨ticket, h1, h2⟩
    · rw [hother a g ha, h.leases a g]
      simp only [KeyMap.get?_insert_ne _ _ ha]
      rfl

theorem Accounted.own (h : p.Accounted) (hs : p.sessions.get? sid = some s) (g : Nat) :
    (p.limiter.leases.get? (sid, g)).isSome ↔
      ∃ ticket, s.state.orphanTicket = some ticket ∧ ticket.generation = g := by
  rw [h.leases sid g]
  constructor
  · rintro ⟨s', ticket, he, h1, -, h2⟩
    rw [hs] at he; cases he; exact ⟨ticket, h1, h2⟩
  · rintro ⟨ticket, h1, h2⟩
    exact ⟨s, ticket, hs, h1, (h.ticket sid s ticket hs h1).1, h2⟩

theorem Accounted.act {p : Profile} (h : p.Accounted) {sid : Nat} {s s' : SessionLifecycle}
    {l' : OrphanLimiter} {op : LifecycleOp} {r : LifecycleResult}
    (hs : p.sessions.get? sid = some s) (he : Effect s p.limiter op s' l' r) :
    Accounted { limiter := l', sessions := p.sessions.insert sid s' } := by
  have hid := h.sessionId sid s hs
  have hid' : s'.sessionId = sid := he.sessionId.trans hid
  have hle := he.generation_le
  rcases he.lease with ⟨rfl, ho⟩ | ⟨b, d, hnone, hres, ho, hg⟩ | ⟨rfl, ho⟩
  · refine h.frame hid' h.balanced (fun ticket ht => ?_) (fun g => ?_) fun _ _ _ => rfl
    · rw [ho] at ht
      obtain ⟨h1, h2⟩ := h.ticket sid s ticket hs ht
      exact ⟨h1, h2.trans hle⟩
    · rw [ho]; exact h.own hs g
  · -- the session owned no lease, so the fresh one is its only one
    have hb := h.balanced.reserve hres
    obtain ⟨hn, -, -, rfl⟩ := OrphanLimiter.reserve_ok hres
    rw [hid] at hn ho
    refine h.frame hid' hb (fun ticket ht => ?_) (fun g => ?_) fun a g ha => ?_
    · rw [ho] at ht; cases ht; exact ⟨rfl, hg.ge⟩
    · have hown := h.own hs g
      simp only [hnone, reduceCtorEq, false_and, exists_false, iff_false] at hown
      simp only [hid, KeyMap.get?_insert, ho]
      split
      · next hkey => cases hkey; simp
      · next hkey =>
        simp only [Bool.not_eq_true] at hown
        simp only [hown, Option.some.injEq, exists_eq_left']
        constructor
        · intro hf; cases hf
        · intro hf; exact absurd (by rw [← hf]) hkey
    · exact KeyMap.get?_insert_ne _ _ (by rw [hid]; simp [ha])
  · unfold releaseOrphanFallback
    cases hst : s.state.orphanTicket with
    | none =>
      refine h.frame hid' h.balanced (fun ticket ht => ?_) (fun g => ?_) fun _ _ _ => rfl
      · rw [ho] at ht; cases ht
      · rw [ho, h.own hs g, hst]
    | some ticket =>
      obtain ⟨h1, -⟩ := h.ticket sid s ticket hs hst
      refine h.frame hid' (h.balanced.release ticket) (fun ticket ht => ?_) (fun g => ?_)
        fun a g ha => ?_
      · rw [ho] at ht; cases ht
      · have hown := h.own hs g
        simp only [OrphanLimiter.get?_release, h1, ho, reduceCtorEq, false_and, exists_false,
          iff_false, Bool.not_eq_true]
        split
        · rfl
        · next hkey =>
          simp only [hst, Option.some.injEq, exists_eq_left'] at hown
          simp only [Prod.mk.injEq, true_and] at hkey
          have : ¬ (p.limiter.leases.get? (sid, g)).isSome := fun hf => hkey (hown.mp hf).symm
          simpa using this
      · rw [OrphanLimiter.get?_release, if_neg (by simp [h1, ha])]

theorem Accounted.step (h : p.Accounted) (hs : Step hmac p e p') : p'.Accounted := by
  cases hs with
  | start hn hnew =>
    obtain ⟨hid, hst, -, -⟩ := new_session hnew
    refine h.frame hid h.balanced (fun ticket ht => ?_) (fun g => ?_) fun _ _ _ => rfl
    · rw [hst] at ht; cases ht
    · rw [hst, h.leases]
      simp [Holds, hn, State.orphanTicket]
  | act hs => exact h.act hs (apply_effect ..)

/-! ## Leases are released once -/

/-- The step from `p` to `p'` releases the lease `key`. -/
def Releases (p p' : Profile) (key : Nat × Nat) : Prop :=
  (p.limiter.leases.get? key).isSome ∧ p'.limiter.leases.get? key = none

/-- No lease `key` is held and its session is past that generation. -/
def Spent (p : Profile) (key : Nat × Nat) : Prop :=
  p.limiter.leases.get? key = none ∧ ∃ s, p.sessions.get? key.1 = some s ∧ key.2 ≤ s.generation

theorem session_step (hs : Step hmac p e p') (hk : p.sessions.get? sid = some s) :
    ∃ s', p'.sessions.get? sid = some s' ∧ s.generation ≤ s'.generation := by
  cases hs with
  | @start sid' _ _ _ _ _ hn _ =>
    have hne : sid ≠ sid' := by rintro rfl; simp [hn] at hk
    exact ⟨s, (KeyMap.get?_insert_ne _ _ hne).trans hk, Nat.le_refl _⟩
  | @act sid' op s' hs' =>
    by_cases heq : sid = sid'
    · subst heq
      rw [hs'] at hk
      cases hk
      exact ⟨_, KeyMap.get?_insert_self .., (apply_effect hmac s p.limiter op).generation_le⟩
    · exact ⟨s, (KeyMap.get?_insert_ne _ _ heq).trans hk, Nat.le_refl _⟩

theorem Releases.spent {key : Nat × Nat} (ha : p.Accounted) (hs : Step hmac p e p')
    (h : Releases p p' key) : p'.Spent key := by
  obtain ⟨hin, hout⟩ := h
  obtain ⟨s, ticket, hk, ht, -, hg⟩ := (ha.leases key.1 key.2).mp hin
  have hle := (ha.ticket key.1 s ticket hk ht).2
  obtain ⟨s', hk', hle'⟩ := session_step hs hk
  exact ⟨hout, s', hk', by omega⟩

theorem Spent.step {key : Nat × Nat} (ha : p.Accounted) (hs : Step hmac p e p') (h : p.Spent key) :
    p'.Spent key := by
  obtain ⟨hout, s, hk, hle⟩ := h
  obtain ⟨s', hk', hle'⟩ := session_step hs hk
  refine ⟨?_, s', hk', by omega⟩
  cases hs with
  | start => exact hout
  | @act sid op s0 hs' =>
    rcases (apply_effect hmac s0 p.limiter op).lease with
      ⟨heq, -⟩ | ⟨b, d, -, hres, -, -⟩ | ⟨heq, -⟩
    · rw [heq]; exact hout
    · -- the new lease is at a generation the session has not reached yet
      obtain ⟨-, -, -, heq⟩ := OrphanLimiter.reserve_ok hres
      rw [heq, KeyMap.get?_insert_ne]
      · exact hout
      · rintro rfl
        rw [ha.sessionId sid s0 hs', hs'] at hk
        cases hk
        exact absurd hle (by simp)
    · rw [heq]
      unfold releaseOrphanFallback
      split
      · rw [OrphanLimiter.get?_release]; split
        · rfl
        · exact hout
      · exact hout

theorem limits_step (hs : Step hmac p e p') :
    p'.limiter.maxSessions = p.limiter.maxSessions ∧ p'.limiter.maxBytes = p.limiter.maxBytes := by
  cases hs with
  | start => exact ⟨rfl, rfl⟩
  | @act sid op s hs' =>
    rcases (apply_effect hmac s p.limiter op).lease with
      ⟨heq, -⟩ | ⟨b, d, -, hres, -, -⟩ | ⟨heq, -⟩
    · rw [heq]; exact ⟨rfl, rfl⟩
    · obtain ⟨-, -, -, heq⟩ := OrphanLimiter.reserve_ok hres
      rw [heq]; exact ⟨rfl, rfl⟩
    · rw [heq]
      unfold releaseOrphanFallback OrphanLimiter.release
      split
      · split <;> exact ⟨rfl, rfl⟩
      · exact ⟨rfl, rfl⟩

/-- **Orphan accounting.** In every run of sessions that share a limiter, the
leases are the live orphan timers, the counters are exact and within the limits,
a lease is released once, and nothing is held once every session is final. -/
theorem orphan_accounting {hmac : Hmac} {maxSessions maxBytes : Nat} {es : List ProfileEvent}
    {p : Profile} (h : Run (Step hmac) (new maxSessions maxBytes) es p) :
    (∀ sid g, (p.limiter.leases.get? (sid, g)).isSome ↔ p.Holds sid g) ∧
    p.limiter.sessions = p.limiter.leases.size ∧
    p.limiter.bytes = p.limiter.leases.total id ∧
    p.limiter.sessions ≤ maxSessions ∧ p.limiter.bytes ≤ maxBytes ∧
    (∀ (key : Nat × Nat) (e f : ProfileEvent) (fs : List ProfileEvent) (p₁ p₂ p₃ : Profile),
      Step hmac p e p₁ → Releases p p₁ key → Run (Step hmac) p₁ fs p₂ → Step hmac p₂ f p₃ →
      ¬ Releases p₂ p₃ key) ∧
    ((∀ sid s, p.sessions.get? sid = some s → s.state.Terminal) →
      p.limiter.sessions = 0 ∧ p.limiter.bytes = 0) := by
  have ha : p.Accounted := h.preserves (accounted_new ..) Accounted.step
  have hlim : p.limiter.maxSessions = maxSessions ∧ p.limiter.maxBytes = maxBytes :=
    h.preserves (P := fun p => p.limiter.maxSessions = maxSessions ∧ p.limiter.maxBytes = maxBytes)
      ⟨rfl, rfl⟩ fun hp hs => by rw [(limits_step hs).1, (limits_step hs).2]; exact hp
  refine ⟨ha.leases, ha.balanced.sessions, ha.balanced.bytes, ?_, ?_, ?_, ?_⟩
  · have := ha.balanced.sessions_le; omega
  · have := ha.balanced.bytes_le; omega
  · intro key e f fs p₁ p₂ p₃ he hrel hrun hf hrel'
    have h₁ : p₁.Accounted ∧ p₁.Spent key := ⟨ha.step he, hrel.spent ha he⟩
    have h₂ := hrun.preserves (P := fun p => p.Accounted ∧ p.Spent key) h₁
      fun hp hs => ⟨hp.1.step hs, hp.2.step hp.1 hs⟩
    exact absurd hrel'.1 (by rw [h₂.2.1]; simp)
  · intro hterm
    have hempty : ∀ key b, p.limiter.leases.get? key ≠ some b := by
      intro key b hk
      obtain ⟨s, ticket, hs, ht, -⟩ := (ha.leases key.1 key.2).mp (by rw [hk]; rfl)
      have := hterm _ s hs
      cases hst : s.state <;> simp_all [State.Terminal, State.orphanTicket]
    rw [ha.balanced.sessions, ha.balanced.bytes, KeyMap.size_eq_total]
    exact ⟨KeyMap.total_eq_zero fun k v hk => absurd hk (hempty k v),
      KeyMap.total_eq_zero fun k v hk => absurd hk (hempty k v)⟩

/-- One session whose only transport drops with 512 retained bytes. -/
theorem orphan_accounting_one_drop :
    ∃ p, Run (Step fun _ _ => .replicate 32 0) (new 4 4096)
        [.start 7 (.replicate 16 0) 4 1000 100, .act 7 (.detach 100 .unexpected 5 512)] p ∧
      p.limiter.bytes = 512 ∧ p.limiter.sessions = p.limiter.leases.size ∧ p.Holds 7 2 := by
  have h : Run (Step fun _ _ => .replicate 32 0) (new 4 4096)
      [.start 7 (.replicate 16 0) 4 1000 100, .act 7 (.detach 100 .unexpected 5 512)] _ :=
    .snoc (.snoc .nil (.start rfl rfl)) (.act rfl)
  have hacc := orphan_accounting h
  exact ⟨_, h, by decide, hacc.2.1, (hacc.1 7 2).mp (by decide)⟩

end Profile

end Qeli.Tcp
