import Qeli.Udp.Cids

/-!
# Path commits

`SamePaths t t'`: no session's aliases, active path, CIDs, PMTU generation or
cached commit differ. Every end of `validateResponseAndCommitWith` but a fresh
commit keeps the paths (`CommitEffect.samePaths`), and a fresh commit needs a
usable ticket (`Usable`: live and not expired). A ticket that stops being usable
never is again, because candidate ids are used once (`Lapsed.step`); the cached
commit stays the last one for as long as the session keeps its epoch
(`Cached.step`).
-/

namespace Qeli.Udp

open Qeli.Lib Qeli.Wire UdpRoamingTable

def UdpSession.pathState (s : UdpSession) :
    Nat × List (UdpCid × Nat) × ActivePath × Option CommittedPath :=
  (s.generation, s.aliases, s.active, s.lastCommit)

def UdpSession.ownership (s : UdpSession) : Option (CandidateTicket × UdpPath × PathToken × Nat) :=
  s.candidate.map fun c => (c.ticket, c.path, c.challenge, c.createdAt)

structure SamePaths (t t' : UdpRoamingTable) : Prop where
  index : t'.cidIndex = t.cidIndex
  session : ∀ sid, (t'.sessions.get? sid).map UdpSession.pathState =
    (t.sessions.get? sid).map UdpSession.pathState

/-- The ticket names a live candidate that has not expired. -/
def Usable (t : UdpRoamingTable) (ticket : CandidateTicket) (now : Nat) : Prop :=
  ∃ s c, Live t ticket s c ∧ elapsed now c.createdAt t.candidateTtl = false

theorem SamePaths.refl (t : UdpRoamingTable) : SamePaths t t := ⟨rfl, fun _ => rfl⟩

variable {t t' t₀ : UdpRoamingTable} {sid now : Nat} {s s' : UdpSession} {now? : Option Nat}
  {ticket : CandidateTicket} {c : CandidatePath} {deriveUdpCid : DeriveUdpCid} {op : TableOp}
  {r : TableResult} {e : TableEvent} {committed : CommittedPath} {es : List TableEvent}

theorem SamePaths.trans {t'' : UdpRoamingTable} (h : SamePaths t t') (h' : SamePaths t' t'') :
    SamePaths t t'' :=
  ⟨h'.index.trans h.index, fun sid => (h'.session sid).trans (h.session sid)⟩

theorem SamePaths.of_insert (hs : t.sessions.get? sid = some s) (hindex : t'.cidIndex = t.cidIndex)
    (hsessions : t'.sessions = t.sessions.insert sid s') (hp : s'.pathState = s.pathState) :
    SamePaths t t' := by
  refine ⟨hindex, fun a => ?_⟩
  rw [hsessions, KeyMap.get?_insert]
  split
  · next he => rw [he, hs, Option.map_some, Option.map_some, hp]
  · rfl

theorem TidyStep.samePaths (h : TidyStep now? t t') : SamePaths t t' := by
  cases h with
  | failed hs => exact .of_insert hs rfl rfl rfl
  | pruned | burned => exact ⟨rfl, fun _ => rfl⟩

theorem samePaths_of_tidy (h : Tidy now? t t') : SamePaths t t' :=
  h.preserves (fun hstep hsame => SamePaths.trans hsame hstep.samePaths) (.refl t)

theorem samePaths_expire (t : UdpRoamingTable) (sid now : Nat) :
    SamePaths t (t.expireCandidateForSessionAt sid now).1 := by
  have h : Tidy (some now) t (t.expireCandidateForSessionAt sid now).1 :=
    expireCandidateForSessionAt_tidy sid now
  exact samePaths_of_tidy h

theorem samePaths_abort (t : UdpRoamingTable) (ticket : CandidateTicket) :
    SamePaths t (t.abortCandidate ticket).1 := by
  have h : Tidy none t (t.abortCandidate ticket).1 := abortCandidate_tidy ticket
  exact samePaths_of_tidy h

theorem Live.samePaths_credited (hl : Live t ticket s c) (b : Nat) :
    SamePaths t (t.setSession ticket.sessionId (s.credited c b)) :=
  .of_insert hl.session rfl rfl rfl

section Effects

variable {π ε : Type*} {deriveUdpCid : DeriveUdpCid}
  {publish : CommitOutcome → π → π × Except ε Unit} {t : UdpRoamingTable} {world : π}
  {ticket : CandidateTicket} {path : UdpPath} {epoch b budget now : Nat} {token : PathToken}
  {x : UdpRoamingTable × π × Except (UdpRoamingCommitError ε) CommitDecision}

theorem UdpRoamingTable.CommitEffect.samePaths
    (h : CommitEffect deriveUdpCid publish t world ticket path epoch token b budget now x) :
    SamePaths t x.1 ∨ ∃ outcome, x.2.2 = .ok ⟨outcome, false⟩ := by
  cases h with
  | refused | replayed => exact .inl (.refl t)
  | stale => exact .inl (samePaths_expire ..)
  | exhausted hl | clashed hl | unpublished hl => exact .inl (hl.samePaths_credited b)
  | taken hl => exact .inl ((hl.samePaths_credited b).trans (samePaths_abort ..))
  | committed => exact .inr ⟨_, rfl⟩

/-- What a fresh commit needs and does. -/
structure FreshCommit (t t' : UdpRoamingTable) (ticket : CandidateTicket) (path : UdpPath)
    (epoch : Nat) (token : PathToken) (outcome : CommitOutcome) (s : UdpSession)
    (c : CandidatePath) (s' : UdpSession) : Prop where
  live : Live t ticket s c
  path_eq : path = c.path
  epoch_eq : epoch = ticket.pathEpoch
  token_eq : token = c.challenge
  session : t'.sessions.get? ticket.sessionId = some s'
  generation : s'.generation = s.generation
  active_path : s'.active.path = path
  active_epoch : s'.active.epoch = s.active.epoch + 1
  pmtu : s'.active.pmtuGeneration = s.active.pmtuGeneration + 1
  candidate : s'.candidate = none
  lastCommit : s'.lastCommit = some ⟨ticket, path, token, outcome⟩
  others : ∀ sid, sid ≠ ticket.sessionId → t'.sessions.get? sid = t.sessions.get? sid

theorem UdpRoamingTable.CommitEffect.fresh
    (h : CommitEffect deriveUdpCid publish t world ticket path epoch token b budget now x)
    (hi : Indexed deriveUdpCid t) {outcome : CommitOutcome}
    (hok : x.2.2 = .ok ⟨outcome, false⟩) :
    (∃ s c s', FreshCommit t x.1 ticket path epoch token outcome s c s') ∧
      Usable t ticket now ∧ publish outcome world = (x.2.1, .ok ()) := by
  cases h with
  | @committed s c aliases _ _ hl hnow hp he htok ha hav hout hpub =>
    cases hok
    obtain ⟨-, -, hepoch, -⟩ := (hl.formed hi).candidate c hl.candidate
    rw [hl.ticket_eq] at hepoch
    refine ⟨⟨s, c, _, ⟨hl, hp, he, htok, KeyMap.get?_insert_self _ _ _, rfl, ?_, hepoch, ?_, rfl,
      ?_, fun sid hne => ?_⟩⟩, ⟨s, c, hl, hnow⟩, hpub⟩
    · rw [hout]; rfl
    · rw [hout]; rfl
    · rw [hout, htok]; rfl
    · exact (KeyMap.get?_insert_ne _ _ hne).trans (KeyMap.get?_insert_ne _ _ hne)
  | _ => cases hok

theorem UdpRoamingTable.CommitEffect.unpublished_ownership
    (h : CommitEffect deriveUdpCid publish t world ticket path epoch token b budget now x)
    {error : ε} (he : x.2.2 = .error (.publish error)) :
    SamePaths t x.1 ∧ ∀ sid, (x.1.sessions.get? sid).map UdpSession.ownership =
      (t.sessions.get? sid).map UdpSession.ownership := by
  cases h with
  | unpublished hl =>
    refine ⟨hl.samePaths_credited b, fun sid => ?_⟩
    show ((t.sessions.insert _ _).get? sid).map _ = _
    rw [KeyMap.get?_insert]
    split
    · next heq =>
      rw [heq, hl.session, Option.map_some, Option.map_some]
      simp [UdpSession.ownership, UdpSession.credited, hl.candidate, CandidatePath.credit]
    · rfl
  | _ => cases he

/-- Without a usable ticket a commit is the repetition of the last one or fails. -/
theorem UdpRoamingTable.CommitEffect.unusable
    (h : CommitEffect deriveUdpCid publish t world ticket path epoch token b budget now x)
    (hu : ¬ Usable t ticket now) :
    (∃ s committed, t.sessions.get? ticket.sessionId = some s ∧ s.lastCommit = some committed ∧
      committed.ticket = ticket ∧ committed.path = path ∧ epoch = ticket.pathEpoch ∧
      token = committed.challenge ∧ x = (t, world, .ok ⟨committed.outcome, true⟩)) ∨
    ∃ error, x.2 = (world, .error (.state error)) ∧ SamePaths t x.1 := by
  have hlive : ∀ {s c}, Live t ticket s c → elapsed now c.createdAt t.candidateTtl = false →
      False := fun hl hnow => hu ⟨_, _, hl, hnow⟩
  cases h with
  | refused e => exact .inr ⟨e, rfl, .refl t⟩
  | replayed hs _ hc h1 h2 h3 h4 => exact .inl ⟨_, _, hs, hc, h1, h2, h3, h4, rfl⟩
  | stale e => exact .inr ⟨e, rfl, samePaths_expire ..⟩
  | exhausted hl hnow | clashed hl hnow | taken hl hnow | unpublished hl hnow | committed hl hnow =>
    exact (hlive hl hnow).elim

end Effects

/-! ## Tickets that lapsed -/

theorem elapsed_mono {now' since span : Nat} (h : elapsed now since span = true) (hle : now ≤ now') :
    elapsed now' since span = true := by
  simp only [elapsed, Bool.and_eq_true, decide_eq_true_eq] at h ⊢
  omega

/-- The ticket was issued and is not usable at `now`. -/
def Lapsed (ticket : CandidateTicket) (now : Nat) (t : UdpRoamingTable) : Prop :=
  ticket.candidateId < t.nextCandidateId ∧ ¬ Usable t ticket now

theorem Usable.of_insert (h : Usable t' ticket now) (hs : t.sessions.get? sid = some s)
    (hsessions : t'.sessions = t.sessions.insert sid s') (httl : t'.candidateTtl = t.candidateTtl)
    (hg : s'.generation = s.generation)
    (hc : ∀ c', s'.candidate = some c' → c'.ticket = ticket →
      ∃ c, s.candidate = some c ∧ c.ticket = c'.ticket ∧ c.createdAt = c'.createdAt) :
    Usable t ticket now := by
  obtain ⟨x, c, ⟨hx, hxg, hxc, hxt⟩, hnow⟩ := h
  rw [hsessions, KeyMap.get?_insert] at hx
  split at hx
  · next he =>
    cases hx
    obtain ⟨c₀, h1, h2, h3⟩ := hc c hxc hxt
    exact ⟨s, c₀, ⟨he ▸ hs, hg ▸ hxg, h1, h2.trans hxt⟩, by rw [h3, ← httl]; exact hnow⟩
  · exact ⟨x, c, ⟨hx, hxg, hxc, hxt⟩, httl ▸ hnow⟩

theorem Usable.of_sessions (h : Usable t' ticket now) (hs : t'.sessions = t.sessions)
    (httl : t'.candidateTtl = t.candidateTtl) : Usable t ticket now := by
  obtain ⟨s, c, ⟨h1, h2, h3, h4⟩, hnow⟩ := h
  exact ⟨s, c, ⟨hs ▸ h1, h2, h3, h4⟩, httl ▸ hnow⟩

theorem Lapsed.tidy (hstep : TidyStep now? t t') (h : Lapsed ticket now t) :
    Lapsed ticket now t' := by
  refine ⟨?_, fun hu => h.2 ?_⟩
  · cases hstep <;> exact h.1
  · cases hstep with
    | failed hs _ => exact hu.of_insert hs rfl rfl rfl nofun
    | pruned | burned => exact hu.of_sessions rfl rfl

theorem Lapsed.change (hc : Change deriveUdpCid t op t' r) (h : Lapsed ticket now t) :
    Lapsed ticket now t' := by
  obtain ⟨hid, hnot⟩ := h
  cases hc with
  | quiet => exact ⟨hid, hnot⟩
  | registered _ hnone =>
    refine ⟨hid, fun hu => hnot ?_⟩
    obtain ⟨x, c, ⟨hx, hxg, hxc, hxt⟩, hnow⟩ := hu
    dsimp only at hx
    rw [KeyMap.get?_insert] at hx
    split at hx
    · cases hx; cases hxc
    · exact ⟨x, c, ⟨hx, hxg, hxc, hxt⟩, hnow⟩
  | observed hin _ hc =>
    refine ⟨hid, fun hu => hnot (hu.of_insert hin.session rfl rfl rfl fun c' hc' _ => ?_)⟩
    cases hc'; exact ⟨_, hc, rfl, rfl⟩
  | started hin _ _ _ _ _ _ ht =>
    refine ⟨Nat.lt_succ_of_lt hid, fun hu => hnot ?_⟩
    refine hu.of_insert hin.session rfl rfl rfl fun c' hc' hct => ?_
    -- the new candidate has a new id
    cases hc'
    rw [← hct, ht] at hid
    exact absurd hid (Nat.lt_irrefl _)
  | authorized hl | credited hl =>
    refine ⟨hid, fun hu => hnot (hu.of_insert hl.session rfl rfl rfl fun c' hc' _ => ?_)⟩
    cases hc'; exact ⟨_, hl.candidate, rfl, rfl⟩
  | @committed x _ _ b _ _ _ _ s c _ _ hl =>
    refine ⟨hid, fun hu => hnot ?_⟩
    have hcr : Usable (t.setSession x.sessionId (s.credited c b)) ticket now := by
      refine hu.of_insert (KeyMap.get?_insert_self _ _ _) rfl rfl rfl fun c' hc' => ?_
      cases hc'
    refine hcr.of_insert hl.session rfl rfl rfl fun c' hc' _ => ?_
    cases hc'; exact ⟨_, hl.candidate, rfl, rfl⟩
  | widened hs =>
    exact ⟨hid, fun hu => hnot (hu.of_insert hs rfl rfl rfl fun c' hc' _ => ⟨c', hc', rfl, rfl⟩)⟩
  | @removed _ _ sid s hs _ =>
    rw [removeSession_some hs]
    refine ⟨hid, fun hu => hnot ?_⟩
    obtain ⟨x, c, ⟨hx, hxg, hxc, hxt⟩, hnow⟩ := hu
    dsimp only at hx
    rw [KeyMap.get?_erase] at hx
    split at hx
    · cases hx
    · exact ⟨x, c, ⟨hx, hxg, hxc, hxt⟩, hnow⟩

theorem Lapsed.step (h : Lapsed ticket now t) (hs : Step deriveUdpCid t e t') : Lapsed ticket now t' :=
  hs.preserves Lapsed.tidy Lapsed.change h

/-! ## The cached commit -/

/-- For as long as the session keeps the epoch of the commit, it is the cached one. -/
def Cached (committed : CommittedPath) (t : UdpRoamingTable) : Prop :=
  committed.ticket.sessionGeneration < t.nextSessionGeneration ∧
  ∀ s, t.sessions.get? committed.ticket.sessionId = some s →
    s.generation = committed.ticket.sessionGeneration →
    committed.ticket.pathEpoch < s.active.epoch ∨
      (s.active.epoch = committed.ticket.pathEpoch ∧ s.lastCommit = some committed)

theorem Cached.of_insert (h : Cached committed t) (hs : t.sessions.get? sid = some s)
    (hsessions : t'.sessions = t.sessions.insert sid s')
    (hnext : t'.nextSessionGeneration = t.nextSessionGeneration) (hg : s'.generation = s.generation)
    (hstate : (s'.active.epoch = s.active.epoch ∧ s'.lastCommit = s.lastCommit) ∨
      s.active.epoch < s'.active.epoch) :
    Cached committed t' := by
  refine ⟨hnext ▸ h.1, fun x hx hxg => ?_⟩
  rw [hsessions, KeyMap.get?_insert] at hx
  split at hx
  · next he =>
    cases hx
    have hold := h.2 s (he ▸ hs) (hg ▸ hxg)
    rcases hstate with ⟨h1, h2⟩ | hlt
    · rw [h1, h2]; exact hold
    · omega
  · exact h.2 x hx hxg

theorem Cached.tidy (hstep : TidyStep now? t t') (h : Cached committed t) : Cached committed t' := by
  cases hstep with
  | failed hs => exact h.of_insert hs rfl rfl rfl (.inl ⟨rfl, rfl⟩)
  | pruned => exact h
  | burned => exact ⟨Nat.lt_succ_of_lt h.1, h.2⟩

theorem Cached.change (hi : Indexed deriveUdpCid t) (hc : Change deriveUdpCid t op t' r)
    (h : Cached committed t) : Cached committed t' := by
  cases hc with
  | quiet => exact h
  | registered _ hnone hgen =>
    refine ⟨Nat.lt_succ_of_lt h.1, fun x hx hxg => ?_⟩
    dsimp only at hx
    rw [KeyMap.get?_insert] at hx
    split at hx
    · -- the new session has a later generation
      cases hx
      have := h.1
      dsimp only at hxg
      omega
    · exact h.2 x hx hxg
  | observed hin | started hin => exact h.of_insert hin.session rfl rfl rfl (.inl ⟨rfl, rfl⟩)
  | authorized hl | credited hl => exact h.of_insert hl.session rfl rfl rfl (.inl ⟨rfl, rfl⟩)
  | @committed x _ _ b _ _ _ _ s c _ _ hl =>
    have hcr : Cached committed (t.setSession x.sessionId (s.credited c b)) :=
      h.of_insert hl.session rfl rfl rfl (.inl ⟨rfl, rfl⟩)
    obtain ⟨-, -, hepoch, -⟩ := (hl.formed hi).candidate c hl.candidate
    rw [hl.ticket_eq] at hepoch
    exact hcr.of_insert (KeyMap.get?_insert_self _ _ _) rfl rfl rfl (.inr (by
      show s.active.epoch < x.pathEpoch
      omega))
  | widened hs => exact h.of_insert hs rfl rfl rfl (.inl ⟨rfl, rfl⟩)
  | @removed _ _ sid s hs _ =>
    rw [removeSession_some hs]
    refine ⟨h.1, fun x hx hxg => ?_⟩
    dsimp only at hx
    rw [KeyMap.get?_erase] at hx
    split at hx
    · cases hx
    · exact h.2 x hx hxg

theorem Cached.run (h : Run (Step deriveUdpCid) t es t') (hi : Indexed deriveUdpCid t)
    (hc : Cached committed t) : Cached committed t' := by
  have key : Indexed deriveUdpCid t' ∧ Cached committed t' :=
    h.preserves (P := fun t => Indexed deriveUdpCid t ∧ Cached committed t) ⟨hi, hc⟩
      fun hp hs => hs.preserves (P := fun t => Indexed deriveUdpCid t ∧ Cached committed t)
        (fun ht hp => ⟨Indexed.tidy ht hp.1, Cached.tidy ht hp.2⟩)
        (fun hch hp => ⟨Indexed.change hch hp.1, Cached.change hp.1 hch hp.2⟩) hp
  exact key.2

theorem FreshCommit.cached {path : UdpPath} {epoch : Nat} {token : PathToken}
    {outcome : CommitOutcome} (h : FreshCommit t t' ticket path epoch token outcome s c s')
    (hi : Indexed deriveUdpCid t) (hi' : Indexed deriveUdpCid t') :
    Cached ⟨ticket, path, token, outcome⟩ t' := by
  obtain ⟨-, -, hepoch, -⟩ := (h.live.formed hi).candidate c h.live.candidate
  rw [h.live.ticket_eq] at hepoch
  refine ⟨?_, fun x hx _ => ?_⟩
  · have := hi'.generation_lt _ _ h.session
    rw [h.generation, h.live.generation] at this
    exact this
  · dsimp only at hx
    rw [h.session] at hx
    cases hx
    exact .inr ⟨by rw [h.active_epoch]; exact hepoch.symm, h.lastCommit⟩

/-! ## Runs -/

def TableEvent.issued (e : TableEvent) : Option CandidateTicket :=
  match e.result with
  | .observed (.ok challenge) => some challenge.ticket
  | _ => none

/-- The event commits, aborts or reports the expiry of the ticket. -/
def TableEvent.Retires (e : TableEvent) (ticket : CandidateTicket) : Prop :=
  match e.op, e.result with
  | .commit x _ _ _ _ _ _ _, .committed (.ok ⟨_, false⟩) => x = ticket
  | .abort x, .aborted true => x = ticket
  | .expire _, .expired tickets => ticket ∈ tickets
  | _, _ => False

theorem TidyStep.nextCandidateId (h : TidyStep now? t t') : t'.nextCandidateId = t.nextCandidateId := by
  cases h <;> rfl

theorem nextCandidateId_of_tidy (h : Tidy now? t t') : t'.nextCandidateId = t.nextCandidateId :=
  h.preserves (fun hstep hsame => hstep.nextCandidateId.trans hsame) rfl

theorem Change.nextCandidateId_le (h : Change deriveUdpCid t op t' r) :
    t.nextCandidateId ≤ t'.nextCandidateId := by
  cases h with
  | started => exact Nat.le_succ _
  | removed hs => rw [removeSession_some hs]
  | _ => exact Nat.le_refl _

theorem Change.issued_lt (h : Change deriveUdpCid t op t' r) (hi : Indexed deriveUdpCid t)
    (hr : TableEvent.issued ⟨op, r⟩ = some ticket) : ticket.candidateId < t'.nextCandidateId := by
  cases h with
  | observed hin _ hc =>
    cases hr
    exact ((hi.session _ _ hin.session).candidate _ hc).2.2.2.1
  | started _ _ _ _ _ _ _ ht =>
    cases hr
    rw [ht]
    exact Nat.lt_succ_self _
  | quiet hq =>
    unfold TableEvent.issued at hr
    dsimp only at hr
    split at hr
    · cases hq
    · cases hr
  | @removed _ r _ _ _ hop =>
    unfold TableEvent.issued at hr
    dsimp only at hr
    split at hr
    · cases op <;> cases hop
    · cases hr
  | _ => cases hr

theorem issued_lt (h : Run (Step deriveUdpCid) t₀ es t) (hi : Indexed deriveUdpCid t₀) (he : e ∈ es)
    (hr : e.issued = some ticket) : ticket.candidateId < t.nextCandidateId := by
  have key : Indexed deriveUdpCid t ∧ ∀ e ∈ es, e.issued = some ticket →
      ticket.candidateId < t.nextCandidateId := by
    refine h.invariant (P := fun es t => Indexed deriveUdpCid t ∧ ∀ e ∈ es,
      e.issued = some ticket → ticket.candidateId < t.nextCandidateId) ⟨hi, by simp⟩ ?_
    rintro es t e t' - ⟨hit, ih⟩ hs
    obtain ⟨t₁, t₂, h1, h2, h3⟩ := hs.does
    rw [nextCandidateId_of_tidy h3]
    refine ⟨hs.preserves Indexed.tidy Indexed.change hit,
      forall_mem_snoc.mpr ⟨fun f hf hr => ?_, h2.issued_lt (hit.of_tidy h1)⟩⟩
    have hold := ih f hf hr
    rw [← nextCandidateId_of_tidy h1] at hold
    exact hold.trans_le h2.nextCandidateId_le
  exact key.2 e he hr

theorem nextCandidateId_le_of_step (hs : Step deriveUdpCid t e t') :
    t.nextCandidateId ≤ t'.nextCandidateId := by
  obtain ⟨t₁, t₂, h1, h2, h3⟩ := hs.does
  rw [nextCandidateId_of_tidy h3, ← nextCandidateId_of_tidy h1]
  exact h2.nextCandidateId_le

theorem Lapsed.of_tidy (ht : Tidy now? t t') (h : Lapsed ticket now t) : Lapsed ticket now t' :=
  ht.preserves (fun hstep hlapsed => hlapsed.tidy hstep) h

theorem lapsed_failCandidate (hi : Indexed deriveUdpCid t) (hs : t.sessions.get? sid = some s)
    (hc : s.candidate = some c) (now : Nat) : Lapsed c.ticket now (t.failCandidate sid s) := by
  obtain ⟨hsid, -, -, hid, -⟩ := (hi.session sid s hs).candidate c hc
  refine ⟨hid, ?_⟩
  rintro ⟨x, c', ⟨hx, -, hxc, -⟩, -⟩
  rw [hsid] at hx
  rw [show (t.failCandidate sid s).sessions.get? sid = some { s with candidate := none } from
    KeyMap.get?_insert_self _ _ _] at hx
  cases hx; cases hxc

theorem lapsed_expireSessions (now now' : Nat) (sids : List Nat) (hi : Indexed deriveUdpCid t)
    (h : ticket ∈ (t.expireSessions now sids).2) :
    Lapsed ticket now' (t.expireSessions now sids).1 := by
  induction sids generalizing t with
  | nil => cases h
  | cons sid rest ih =>
    have hrest : Tidy none (t.expireCandidateForSessionAt sid now).1
        (t.expireSessions now (sid :: rest)).1 := expireSessions_tidy now rest _
    have hsplit : ticket ∈ (t.expireCandidateForSessionAt sid now).2.toList ∨
        ticket ∈ ((t.expireCandidateForSessionAt sid now).1.expireSessions now rest).2 :=
      List.mem_append.mp h
    rcases hsplit with hfirst | hlater
    · refine Lapsed.of_tidy hrest ?_
      unfold expireCandidateForSessionAt at hfirst ⊢
      split
      · next hnone => simp [hnone] at hfirst
      · next s hs =>
        rw [hs] at hfirst
        dsimp only at hfirst ⊢
        split
        · next hnone => simp [hnone] at hfirst
        · next c hc =>
          rw [hc] at hfirst
          dsimp only at hfirst
          split_ifs at hfirst ⊢
          · rw [Option.toList_some, List.mem_singleton] at hfirst
            rw [hfirst]
            exact lapsed_failCandidate hi hs hc now'
          · cases hfirst
    · refine ih ?_ hlater
      have hfst : Tidy none t (t.expireCandidateForSessionAt sid now).1 :=
        expireCandidateForSessionAt_tidy sid now
      exact hi.of_tidy hfst

theorem TableEvent.Retires.lapsed (hr : e.Retires ticket) (hs : Step deriveUdpCid t e t')
    (hi : Indexed deriveUdpCid t) (now : Nat) : Lapsed ticket now t' := by
  have hle := nextCandidateId_le_of_step hs
  obtain ⟨op, result⟩ := e
  obtain ⟨rfl, hres⟩ := hs
  dsimp only at hres hle
  unfold TableEvent.Retires at hr
  dsimp only at hr
  split at hr
  · next x path epoch token b budget now₀ publish outcome =>
    subst hr
    have heff := commit_effect deriveUdpCid (fun outcome world => (world, publish outcome)) t ()
      x path epoch token b budget now₀
    obtain ⟨⟨s, c, s', hf⟩, -, -⟩ := heff.fresh hi (TableResult.committed.inj hres).symm
    have hid := ((hf.live.formed hi).candidate c hf.live.candidate).2.2.2.1
    rw [hf.live.ticket_eq] at hid
    refine ⟨hid.trans_le hle, ?_⟩
    rintro ⟨y, c', ⟨hy, -, hyc, -⟩, -⟩
    have heq := hf.session.symm.trans hy
    cases heq
    rw [hf.candidate] at hyc; cases hyc
  · next x =>
    subst hr
    have hdone : (t.abortCandidate x).2 = true := (TableResult.aborted.inj hres).symm
    show Lapsed x now (t.abortCandidate x).1
    unfold abortCandidate at hdone ⊢
    cases hm : t.candidateMut x with
    | error e => rw [hm] at hdone; cases hdone
    | ok found =>
      obtain ⟨s, c⟩ := found
      have hl := candidateMut_ok.mp hm
      have hlapsed := lapsed_failCandidate hi hl.session hl.candidate now
      rw [hl.ticket_eq] at hlapsed
      exact hlapsed
  · next now₀ tickets =>
    have heq := TableResult.expired.inj hres
    rw [heq] at hr
    have hl := lapsed_expireSessions now₀ now _ hi hr
    have hprune : TidyStep (some now₀) (t.expireSessions now₀ (t.expiredSessions now₀)).1
        (t.expireCandidatesAt now₀).1 := .pruned rfl
    exact hl.tidy hprune
  · cases hr

theorem commit_replayed {π ε : Type*} {publish : CommitOutcome → π → π × Except ε Unit} {world : π}
    {path : UdpPath} {token : PathToken} {b budget : Nat} {outcome : CommitOutcome}
    (hs : t.sessions.get? ticket.sessionId = some s) (hg : s.generation = ticket.sessionGeneration)
    (hc : s.lastCommit = some ⟨ticket, path, token, outcome⟩) (hb : b ≠ 0) (hbudget : budget ≠ 0) :
    t.validateResponseAndCommitWith deriveUdpCid publish world ticket path ticket.pathEpoch token b
      budget now = (t, world, .ok ⟨outcome, true⟩) := by
  have hr : t.replayedCommit ticket path ticket.pathEpoch token = .ok (some ⟨outcome, true⟩) :=
    replayedCommit_some.mpr ⟨s, _, hs, hg, hc, rfl, rfl, rfl, rfl, rfl⟩
  unfold validateResponseAndCommitWith
  rw [if_neg (by simp [hb, hbudget]), hr]

theorem authorize_unusable (hu : ¬ Usable t ticket now) (w : Nat) :
    (∃ error, (t.authorizeCandidateSend ticket w now).2 = .error error) ∧
      SamePaths t (t.authorizeCandidateSend ticket w now).1 := by
  unfold authorizeCandidateSend
  dsimp only
  cases hm : (t.expireCandidateForSessionAt ticket.sessionId now).1.candidateMut ticket with
  | error e => exact ⟨⟨e, rfl⟩, samePaths_expire ..⟩
  | ok found =>
    obtain ⟨s, c⟩ := found
    obtain ⟨-, hl, hnow⟩ := candidateMut_expire hm
    exact absurd ⟨s, c, hl, hnow⟩ hu

theorem abortCandidate_not_live (h : ∀ s c, ¬ Live t ticket s c) :
    t.abortCandidate ticket = (t, false) := by
  unfold abortCandidate
  cases hm : t.candidateMut ticket with
  | error e => rfl
  | ok found => exact absurd (candidateMut_ok.mp hm) (h _ _)

def UdpRoamingTable.policy (t : UdpRoamingTable) : Nat × Nat × Nat × Nat :=
  (t.maxCandidates, t.candidateTtl, t.candidateRateWindow, t.maxCandidateStartsPerWindow)

theorem policy_run (h : Run (Step deriveUdpCid) t₀ es t) : t.policy = t₀.policy := by
  refine h.preserves (P := fun t => t.policy = t₀.policy) rfl fun hp hs => ?_
  refine hs.preserves (P := fun t => t.policy = t₀.policy) (fun ht hp => ?_)
    (fun hc hp => ?_) hp
  · cases ht <;> exact hp
  · cases hc with
    | removed hs => rw [removeSession_some hs]; exact hp
    | _ => exact hp

theorem candidateTtl_run (h : Run (Step deriveUdpCid) t₀ es t) : t.candidateTtl = t₀.candidateTtl :=
  congrArg (fun p => p.2.1) (policy_run h)

theorem not_live_of_unusable (httl : 0 < t.candidateTtl) (h : ∀ now, ¬ Usable t ticket now)
    (s : UdpSession) (c : CandidatePath) : ¬ Live t ticket s c := by
  intro hl
  refine h c.createdAt ⟨s, c, hl, ?_⟩
  simp only [elapsed, Nat.sub_self, Bool.and_eq_false_iff, decide_eq_false_iff_not, not_le]
  exact .inr httl

/-- **Commits are atomic, exact and idempotent.** For a commit call in any
reachable table: paths move only by a fresh `Ok`, which takes the live candidate's
ticket, path, epoch and challenge and steps epoch and PMTU generation by one; a
publish error keeps the paths and the candidate; the exact repetition of the last
commit replays it; and a ticket that lapsed does nothing else, now or later. -/
theorem path_commit {deriveUdpCid : DeriveUdpCid}
    {maxSessions maxCandidates ttl window starts : Nat} {es : List TableEvent}
    {t : UdpRoamingTable}
    (h : Run (Step deriveUdpCid) (withCandidatePolicy maxSessions maxCandidates ttl window starts)
      es t)
    {π ε : Type*} (publish : CommitOutcome → π → π × Except ε Unit) (world : π)
    (ticket : CandidateTicket) (path : UdpPath) (epoch : Nat) (token : PathToken)
    (b budget now : Nat) {t' : UdpRoamingTable} {world' : π}
    {result : Except (UdpRoamingCommitError ε) CommitDecision}
    (hcall : t.validateResponseAndCommitWith deriveUdpCid publish world ticket path epoch token b
      budget now = (t', world', result)) :
    (SamePaths t t' ∨ ∃ outcome, result = .ok ⟨outcome, false⟩) ∧
    (∀ outcome, result = .ok ⟨outcome, false⟩ →
      (∃ s c s', FreshCommit t t' ticket path epoch token outcome s c s') ∧
        Usable t ticket now ∧ publish outcome world = (world', .ok ())) ∧
    (∀ error, result = .error (.publish error) →
      SamePaths t t' ∧ ∀ sid, (t'.sessions.get? sid).map UdpSession.ownership =
        (t.sessions.get? sid).map UdpSession.ownership) ∧
    (∀ fs gs b₀ budget₀ now₀ publish₀ outcome s,
      es = fs ++ ⟨.commit ticket path epoch token b₀ budget₀ now₀ publish₀,
        .committed (.ok ⟨outcome, false⟩)⟩ :: gs →
      t.sessions.get? ticket.sessionId = some s → s.generation = ticket.sessionGeneration →
      s.active.epoch = epoch → b ≠ 0 → budget ≠ 0 →
      t' = t ∧ world' = world ∧ result = .ok ⟨outcome, true⟩) ∧
    (¬ Usable t ticket now →
      ((∃ s committed, t.sessions.get? ticket.sessionId = some s ∧
          s.lastCommit = some committed ∧ committed.ticket = ticket ∧ committed.path = path ∧
          epoch = ticket.pathEpoch ∧ token = committed.challenge ∧ t' = t ∧ world' = world ∧
          result = .ok ⟨committed.outcome, true⟩) ∨
        (SamePaths t t' ∧ world' = world ∧ ∃ error, result = .error (.state error))) ∧
      ∀ w, (∃ error, (t.authorizeCandidateSend ticket w now).2 = .error error) ∧
        SamePaths t (t.authorizeCandidateSend ticket w now).1) ∧
    (∀ fs gs t₁ now₁ e, es = fs ++ gs → Run (Step deriveUdpCid)
        (withCandidatePolicy maxSessions maxCandidates ttl window starts) fs t₁ →
      Run (Step deriveUdpCid) t₁ gs t → e ∈ fs → e.issued = some ticket → now₁ ≤ now →
      ¬ Usable t₁ ticket now₁ → ¬ Usable t ticket now) ∧
    (∀ e ∈ es, e.Retires ticket →
      ¬ Usable t ticket now ∧ (0 < ttl → t.abortCandidate ticket = (t, false))) ∧
    (∀ s, t.sessions.get? ticket.sessionId = some s → s.generation ≠ ticket.sessionGeneration →
      ¬ Usable t ticket now ∧ t.abortCandidate ticket = (t, false)) := by
  have hi₀ := indexed_new deriveUdpCid maxSessions maxCandidates ttl window starts
  have hi := hi₀.run h
  have heff := commit_effect deriveUdpCid publish t world ticket path epoch token b budget now
  rw [hcall] at heff
  refine ⟨heff.samePaths, fun outcome hok => heff.fresh hi hok,
    fun error he => heff.unpublished_ownership he, ?_, fun hu => ⟨?_, authorize_unusable hu⟩,
    ?_, ?_, ?_⟩
  · rintro fs gs b₀ budget₀ now₀ publish₀ outcome s rfl hs hg hepoch hb hbudget
    obtain ⟨t₁, t₂, h1, hstep, h2⟩ := h.step_at
    have hi₁ := hi₀.run h1
    have hi₂ := hstep.preserves Indexed.tidy Indexed.change hi₁
    -- the commit in the history was fresh, and its result is still cached
    obtain ⟨rfl, hres⟩ := hstep
    have heff₁ := commit_effect deriveUdpCid (fun outcome world => (world, publish₀ outcome)) t₁ ()
      ticket path epoch token b₀ budget₀ now₀
    obtain ⟨⟨s₁, c₁, s₂, hf⟩, -, -⟩ :=
      heff₁.fresh hi₁ (TableResult.committed.inj hres).symm
    have hcached := (hf.cached hi₁ hi₂).run h2 hi₂
    obtain rfl := hf.epoch_eq
    rcases hcached.2 s hs hg with hlt | ⟨-, hlast⟩
    · exact absurd hlt (by simp [hepoch])
    · rw [commit_replayed hs hg hlast hb hbudget] at hcall
      cases hcall
      exact ⟨rfl, rfl, rfl⟩
  · rcases heff.unusable hu with ⟨s, committed, hs, hc, h1, h2, h3, h4, heq⟩ | ⟨error, heq, hsame⟩
    · cases heq
      exact .inl ⟨s, committed, hs, hc, h1, h2, h3, h4, rfl, rfl, rfl⟩
    · cases heq
      exact .inr ⟨hsame, rfl, error, rfl⟩
  · rintro fs gs t₁ now₁ e rfl h1 h2 he hissued hle hnot
    have hlapsed : Lapsed ticket now t₁ := by
      refine ⟨issued_lt h1 hi₀ he hissued, ?_⟩
      rintro ⟨s, c, hl, hnow⟩
      refine hnot ⟨s, c, hl, ?_⟩
      by_contra hel
      rw [Bool.not_eq_false] at hel
      rw [elapsed_mono hel hle] at hnow; cases hnow
    exact (h2.preserves hlapsed Lapsed.step).2
  · intro e he hret
    obtain ⟨fs, gs, rfl⟩ := List.append_of_mem he
    obtain ⟨t₁, t₂, h1, hstep, h2⟩ := h.step_at
    have hlapsed : ∀ now, ¬ Usable t ticket now := fun now =>
      (h2.preserves (hret.lapsed hstep (hi₀.run h1) now) Lapsed.step).2
    refine ⟨hlapsed now, fun httl => abortCandidate_not_live (not_live_of_unusable ?_ hlapsed)⟩
    rw [candidateTtl_run h]
    exact httl
  · intro s hs hne
    have hnot : ∀ x c, ¬ Live t ticket x c := by
      intro x c hl
      have heq := hs.symm.trans hl.session
      cases heq
      exact hne hl.generation
    exact ⟨fun ⟨x, c, hl, _⟩ => hnot x c hl, abortCandidate_not_live hnot⟩

/-- A session moves to the path of its first candidate. -/
theorem path_commit_first :
    ∃ t es, Run (Step fun _ _ e => .replicate 8 (UInt8.ofNat e)) (withCandidatePolicy 4 4 10 10 4)
        es t ∧
      ∃ outcome t' s c s', FreshCommit t t' ⟨7, 1, 1, 1⟩ ⟨0, ⟨2, 2⟩⟩ 1 (.replicate 16 1) outcome
        s c s' := by
  let derive : DeriveUdpCid := fun _ _ e => .replicate 8 (UInt8.ofNat e)
  let publish : CommitOutcome → Unit → Unit × Except Unit Unit := fun _ _ => ((), .ok ())
  let x := (withCandidatePolicy 4 4 10 10 4).applyAll derive
    [.register 7 (.replicate 32 1) (.replicate 32 2) ⟨0, ⟨1, 1⟩⟩ 1200,
      .observe ⟨7, 1, 0, 1⟩ ⟨0, ⟨2, 2⟩⟩ (.replicate 8 1) 1 100 (.replicate 16 1) 5]
  have h : Run (Step derive) (withCandidatePolicy 4 4 10 10 4) x.2 x.1 := applyAll_run derive _ _
  have hfresh : (x.1.validateResponseAndCommitWith derive publish () ⟨7, 1, 1, 1⟩ ⟨0, ⟨2, 2⟩⟩ 1
      (.replicate 16 1) 60 1200 6).2.2.toOption.map CommitDecision.replayed = some false := by
    decide +kernel
  clear_value x
  rcases hcall : x.1.validateResponseAndCommitWith derive publish () ⟨7, 1, 1, 1⟩ ⟨0, ⟨2, 2⟩⟩ 1
    (.replicate 16 1) 60 1200 6 with ⟨t', world', result⟩
  rw [hcall] at hfresh
  cases result with
  | error e => cases hfresh
  | ok decision =>
    obtain ⟨outcome, replayed⟩ := decision
    cases hfresh
    exact ⟨x.1, _, h, outcome, t', ((path_commit h publish () _ _ _ _ _ _ _ hcall).2.1 _ rfl).1⟩

end Qeli.Udp
