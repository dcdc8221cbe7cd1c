import Qeli.Lib.Run
import Qeli.Udp.Table

/-!
# What a table operation can do

`apply` runs one operation. It tidies the table, makes at most one change and
tidies again: `Tidy` drops expired or aborted candidates, prunes the creation
times and uses up session generations; `Change` lists every other change with
its guards. `apply_changes` says that this covers every operation; an invariant
is shown for the three tidying steps and for each change, and holds of every run
(`Step.preserves`).
-/

namespace Qeli.Udp

open Qeli.Lib Qeli.Wire

/-- Table operations. A commit carries what `publish` answers to each outcome. -/
inductive TableOp where
  | register (sessionId : Nat) (clientToServerCidSecret serverToClientCidSecret : Bytes 32)
      (path : UdpPath) (budget : Nat)
  | lookup (cid : UdpCid)
  | observe (lookup : CidLookup) (path : UdpPath) (initTransmitCid : UdpCid)
      (initEpoch receivedBytes : Nat) (challenge : PathToken) (now : Nat)
  | authorize (ticket : CandidateTicket) (wireBytes now : Nat)
  | commit (ticket : CandidateTicket) (path : UdpPath) (responseEpoch : Nat)
      (responseToken : PathToken) (receivedBytes budget now : Nat)
      (publish : CommitOutcome → Except Unit Unit)
  | abort (ticket : CandidateTicket)
  | expire (now : Nat)
  | raiseBudget (ticket : PmtuTicket) (budget : Nat)
  | remove (sessionId : Nat)
  | removeGeneration (sessionId generation : Nat)
  | dropOwner (owner : UdpSessionRegistration)

inductive TableResult where
  | registered (result : Except UdpRoamingError InitialCids)
  | found (result : Option CidLookup)
  | observed (result : Except UdpRoamingError CandidateChallenge)
  | authorized (result : Except UdpRoamingError Unit)
  | committed (result : Except (UdpRoamingCommitError Unit) CommitDecision)
  | aborted (done : Bool)
  | expired (tickets : List CandidateTicket)
  | raised (result : Except UdpRoamingError Bool)
  | removed (done : Bool)
  | dropped (owner : UdpSessionRegistration)

def TableOp.now : TableOp → Option Nat
  | .observe _ _ _ _ _ _ now | .authorize _ _ now | .commit _ _ _ _ _ _ now _ | .expire now =>
    some now
  | _ => none

structure TableEvent where
  op : TableOp
  result : TableResult

namespace UdpRoamingTable

variable (deriveUdpCid : DeriveUdpCid)

def apply (self : UdpRoamingTable) : TableOp → UdpRoamingTable × TableResult
  | .register sessionId c2s s2c path budget =>
    let (self, result) := self.registerSession deriveUdpCid sessionId c2s s2c path budget
    (self, .registered result)
  | .lookup cid => (self, .found (self.lookup cid))
  | .observe lookup path initTransmitCid initEpoch receivedBytes challenge now =>
    let (self, result) := self.observeAuthenticatedCandidateAt deriveUdpCid lookup path
      initTransmitCid initEpoch receivedBytes challenge now
    (self, .observed result)
  | .authorize ticket wireBytes now =>
    let (self, result) := self.authorizeCandidateSend ticket wireBytes now
    (self, .authorized result)
  | .commit ticket path responseEpoch responseToken receivedBytes budget now publish =>
    let (self, _, result) := self.validateResponseAndCommitWith deriveUdpCid
      (fun outcome world => (world, publish outcome)) () ticket path responseEpoch responseToken
      receivedBytes budget now
    (self, .committed result)
  | .abort ticket =>
    let (self, done) := self.abortCandidate ticket
    (self, .aborted done)
  | .expire now =>
    let (self, tickets) := self.expireCandidatesAt now
    (self, .expired tickets)
  | .raiseBudget ticket budget =>
    let (self, result) := self.raisePayloadBudget ticket budget
    (self, .raised result)
  | .remove sessionId =>
    let (self, done) := self.removeSession sessionId
    (self, .removed done)
  | .removeGeneration sessionId generation =>
    let (self, done) := self.removeSessionGeneration sessionId generation
    (self, .removed done)
  | .dropOwner owner =>
    let (owner, self) := owner.drop self
    (self, .dropped owner)

def Step (t : UdpRoamingTable) (e : TableEvent) (t' : UdpRoamingTable) : Prop :=
  t' = (t.apply deriveUdpCid e.op).1 ∧ e.result = (t.apply deriveUdpCid e.op).2

def applyAll (self : UdpRoamingTable) (ops : List TableOp) : UdpRoamingTable × List TableEvent :=
  trace (fun self op =>
    let (next, result) := self.apply deriveUdpCid op
    (next, ⟨op, result⟩)) self ops

theorem applyAll_run (self : UdpRoamingTable) (ops : List TableOp) :
    Run (Step deriveUdpCid) self (self.applyAll deriveUdpCid ops).2
      (self.applyAll deriveUdpCid ops).1 :=
  trace_run (fun _ _ => ⟨rfl, rfl⟩) self ops

end UdpRoamingTable

open UdpRoamingTable

/-- Housekeeping, by an operation at time `now?`. -/
inductive TidyStep (now? : Option Nat) (t : UdpRoamingTable) : UdpRoamingTable → Prop where
  | failed {sid : Nat} {s : UdpSession} {c : CandidatePath} : t.sessions.get? sid = some s →
      s.candidate = some c → TidyStep now? t (t.failCandidate sid s)
  | pruned {now : Nat} : now? = some now → TidyStep now? t (t.pruneCandidateStarts now)
  | burned : t.nextSessionGeneration + 1 ≤ u64Max →
      TidyStep now? t { t with nextSessionGeneration := t.nextSessionGeneration + 1 }

abbrev Tidy (now? : Option Nat) := Relation.ReflTransGen (TidyStep now?)

variable {t t' : UdpRoamingTable}

theorem Tidy.preserves {P : UdpRoamingTable → Prop} {now? : Option Nat} (ht : Tidy now? t t')
    (htidy : ∀ {t t'}, TidyStep now? t t' → P t → P t') (h0 : P t) : P t' := by
  induction ht with
  | refl => exact h0
  | tail _ hstep ih => exact htidy hstep ih

/-- Results of operations that change nothing beyond tidying. -/
def TableResult.Quiet : TableResult → Prop
  | .registered (.error _) | .found _ | .observed (.error _) | .authorized (.error _)
  | .committed (.error (.state _)) | .committed (.ok ⟨_, true⟩) | .aborted _ | .expired _
  | .raised (.error _) | .raised (.ok false) | .removed false | .dropped _ => True
  | _ => False

/-- The operation that a session's removal answers. -/
def TableOp.Removes (s : UdpSession) (sid : Nat) : TableOp → TableResult → Prop
  | .remove a, .removed true => a = sid
  | .removeGeneration a g, .removed true => a = sid ∧ g = s.generation
  | .dropOwner owner, .dropped _ =>
    owner.active ∧ owner.sessionId = sid ∧ owner.sessionGeneration = s.generation
  | _, _ => False

/-- A ticket names the live candidate `c` of the session `s`. -/
structure Live (t : UdpRoamingTable) (ticket : CandidateTicket) (s : UdpSession)
    (c : CandidatePath) : Prop where
  session : t.sessions.get? ticket.sessionId = some s
  generation : s.generation = ticket.sessionGeneration
  candidate : s.candidate = some c
  ticket_eq : c.ticket = ticket

def UdpSession.credited (s : UdpSession) (c : CandidatePath) (bytes : Nat) : UdpSession :=
  { s with candidate := some (c.credit bytes) }

/-- The checks of `observe_authenticated_candidate_at` on the session. -/
structure InitAccepted (deriveUdpCid : DeriveUdpCid) (t : UdpRoamingTable) (lookup : CidLookup)
    (path : UdpPath) (cid : UdpCid) (epoch : Nat) (s : UdpSession) : Prop where
  session : t.sessions.get? lookup.sessionId = some s
  generation : s.generation = lookup.sessionGeneration
  next_le : s.active.epoch + 1 ≤ u64Max
  lookup_epoch : lookup.pathEpoch = s.active.epoch + 1
  epoch_eq : epoch = s.active.epoch + 1
  path_ne : path ≠ s.active.path
  cid_eq : cid = deriveUdpCid s.serverToClientCidSecret lookup.sessionId (s.active.epoch + 1)

inductive Change (deriveUdpCid : DeriveUdpCid) (t : UdpRoamingTable) :
    TableOp → UdpRoamingTable → TableResult → Prop where
  | quiet {op : TableOp} {r : TableResult} : r.Quiet → Change deriveUdpCid t op t r
  | registered {sid g budget : Nat} {c2s s2c : Bytes 32} {path : UdpPath}
      {aliases : List (UdpCid × Nat)} {initial : InitialCids} : sid ≠ 0 →
      t.sessions.get? sid = none → g = t.nextSessionGeneration →
      deriveAliases deriveUdpCid c2s sid 0 = .ok aliases →
      t.ensureAliasesAvailable sid g aliases = .ok () →
      initial = ⟨(aliases.head?.map Prod.fst).getD (.replicate 8 0), deriveUdpCid s2c sid 0,
        ⟨sid, g, 0, 0, path⟩⟩ →
      Change deriveUdpCid t (.register sid c2s s2c path budget)
        { t with
          nextSessionGeneration := t.nextSessionGeneration + 1
          cidIndex := insertAliases t.cidIndex sid g aliases
          sessions := t.sessions.insert sid ⟨g, path.workerId, c2s, s2c, aliases,
            ⟨path, 0, initial.receive, initial.transmit, budget, 0⟩, none, none⟩ }
        (.registered (.ok initial))
  /-- A repeated PATH_INIT from the candidate's path. -/
  | observed {lookup : CidLookup} {path : UdpPath} {cid : UdpCid} {epoch b now : Nat}
      {challenge : PathToken} {s : UdpSession} {c : CandidatePath} :
      InitAccepted deriveUdpCid t lookup path cid epoch s → b ≠ 0 →
      s.candidate = some c → c.ticket.pathEpoch = lookup.pathEpoch → c.path = path →
      elapsed now c.createdAt t.candidateTtl = false →
      Change deriveUdpCid t (.observe lookup path cid epoch b challenge now)
        (t.setSession lookup.sessionId (s.credited c (min b maxCandidateAccountedBytes)))
        (.observed (.ok ⟨c.ticket, c.challenge⟩))
  | started {lookup : CidLookup} {path : UdpPath} {cid : UdpCid} {epoch b now : Nat}
      {challenge : PathToken} {s : UdpSession} {ticket : CandidateTicket} :
      InitAccepted deriveUdpCid t lookup path cid epoch s → b ≠ 0 → s.candidate = none →
      t.candidateCount < t.maxCandidates →
      (∀ x ∈ t.candidateStarts.head?, elapsed now x t.candidateRateWindow = false) →
      t.candidateStarts.length < t.maxCandidateStartsPerWindow →
      t.nextCandidateId + 1 ≤ u64Max →
      ticket = ⟨lookup.sessionId, lookup.sessionGeneration, t.nextCandidateId, lookup.pathEpoch⟩ →
      Change deriveUdpCid t (.observe lookup path cid epoch b challenge now)
        { t.setSession lookup.sessionId { s with
            candidate := some
              ⟨ticket, path, challenge, now, min b maxCandidateAccountedBytes, 0⟩ } with
          nextCandidateId := t.nextCandidateId + 1
          candidateCount := t.candidateCount + 1
          candidateStarts := t.candidateStarts ++ [now]
          attemptsTotal := saturatingAdd u64Max t.attemptsTotal 1 }
        (.observed (.ok ⟨ticket, challenge⟩))
  | authorized {ticket : CandidateTicket} {w now : Nat} {s : UdpSession} {c : CandidatePath} :
      Live t ticket s c → elapsed now c.createdAt t.candidateTtl = false →
      saturatingAdd u64Max c.sentBytes w ≤
        min u64Max (c.receivedBytes * antiAmplificationFactor) →
      Change deriveUdpCid t (.authorize ticket w now)
        (t.setSession ticket.sessionId { s with
          candidate := some { c with sentBytes := saturatingAdd u64Max c.sentBytes w } })
        (.authorized (.ok ()))
  /-- An accepted response whose commit did not go through. -/
  | credited {ticket : CandidateTicket} {path : UdpPath} {epoch b budget now : Nat}
      {token : PathToken} {publish : CommitOutcome → Except Unit Unit} {s : UdpSession}
      {c : CandidatePath} {error : UdpRoamingCommitError Unit} :
      Live t ticket s c → elapsed now c.createdAt t.candidateTtl = false →
      (error = .publish () ∨ error = .state .cidCollision ∨
        (u64Max < s.active.pmtuGeneration + 1 ∧ error = .state .generationExhausted)) →
      Change deriveUdpCid t (.commit ticket path epoch token b budget now publish)
        (t.setSession ticket.sessionId (s.credited c b)) (.committed (.error error))
  | committed {ticket : CandidateTicket} {path : UdpPath} {epoch b budget now : Nat}
      {token : PathToken} {publish : CommitOutcome → Except Unit Unit} {s : UdpSession}
      {c : CandidatePath} {aliases : List (UdpCid × Nat)} {outcome : CommitOutcome} :
      Live t ticket s c → elapsed now c.createdAt t.candidateTtl = false →
      path = c.path → epoch = ticket.pathEpoch → token = c.challenge →
      deriveAliases deriveUdpCid s.clientToServerCidSecret ticket.sessionId ticket.pathEpoch =
        .ok aliases →
      t.ensureAliasesAvailable ticket.sessionId s.generation aliases = .ok () →
      outcome = commitOutcome deriveUdpCid s ticket path aliases (s.active.pmtuGeneration + 1) →
      publish outcome = .ok () →
      Change deriveUdpCid t (.commit ticket path epoch token b budget now publish)
        ((t.setSession ticket.sessionId (s.credited c b)).rotate (s.credited c b) ticket
          c.challenge aliases outcome budget)
        (.committed (.ok ⟨outcome, false⟩))
  | widened {ticket : PmtuTicket} {budget : Nat} {s : UdpSession} :
      t.sessions.get? ticket.sessionId = some s → s.generation = ticket.sessionGeneration →
      Change deriveUdpCid t (.raiseBudget ticket budget)
        (t.setSession ticket.sessionId
          { s with active := { s.active with payloadBudget := budget } })
        (.raised (.ok true))
  | removed {op : TableOp} {r : TableResult} {sid : Nat} {s : UdpSession} :
      t.sessions.get? sid = some s → op.Removes s sid r →
      Change deriveUdpCid t op (t.removeSession sid).1 r

/-! ## The list is complete -/

/-- Tidy, change, tidy. -/
def Does (deriveUdpCid : DeriveUdpCid) (t : UdpRoamingTable) (op : TableOp) (t' : UdpRoamingTable)
    (r : TableResult) : Prop :=
  ∃ t₁ t₂, Tidy op.now t t₁ ∧ Change deriveUdpCid t₁ op t₂ r ∧ Tidy op.now t₂ t'

theorem Does.of_change {deriveUdpCid : DeriveUdpCid} {t₁ : UdpRoamingTable} {op : TableOp}
    {r : TableResult} (h : Tidy op.now t t₁) (hc : Change deriveUdpCid t₁ op t' r) :
    Does deriveUdpCid t op t' r :=
  ⟨t₁, t', h, hc, .refl⟩

theorem Does.of_tidy {deriveUdpCid : DeriveUdpCid} {op : TableOp} {r : TableResult}
    (h : Tidy op.now t t') (hr : r.Quiet) : Does deriveUdpCid t op t' r :=
  .of_change h (.quiet hr)

namespace UdpRoamingTable

variable {t : UdpRoamingTable} {now? : Option Nat}

variable {ticket : CandidateTicket} {s : UdpSession} {c : CandidatePath} {sid now epoch : Nat}
  {t' : UdpRoamingTable} {path : UdpPath}

theorem candidateMut_ok : t.candidateMut ticket = .ok (s, c) ↔ Live t ticket s c := by
  unfold candidateMut
  constructor
  · intro h
    split at h
    · cases h
    · next s' hs =>
      split_ifs at h with hg
      split at h
      · cases h
      · next c' hc =>
        split_ifs at h with ht
        cases h
        exact ⟨hs, not_not.mp hg, hc, ht⟩
  · rintro ⟨hs, hg, hc, ht⟩
    simp [hs, hg, hc, ht]

theorem expireCandidateForSessionAt_tidy (sid now : Nat) :
    Tidy now? t (t.expireCandidateForSessionAt sid now).1 := by
  unfold expireCandidateForSessionAt
  split
  · exact .refl
  · next s hs =>
    split
    · exact .refl
    · next c hc =>
      split_ifs
      · exact .single (.failed hs hc)
      · exact .refl

/-- A candidate that is still there has not expired, and nothing was done. -/
theorem live_of_expire (hs : (t.expireCandidateForSessionAt sid now).1.sessions.get? sid = some s)
    (hc : s.candidate = some c) :
    (t.expireCandidateForSessionAt sid now).1 = t ∧
      elapsed now c.createdAt t.candidateTtl = false := by
  unfold expireCandidateForSessionAt at hs ⊢
  split at hs
  · next hnone => simp [hnone] at hs
  · next s₀ hs₀ =>
    split at hs
    · next hnone => rw [hs₀] at hs; cases hs; simp [hnone] at hc
    · next c₀ hc₀ =>
      split_ifs at hs with he
      · simp only [failCandidate, setSession, KeyMap.get?_insert_self] at hs
        cases hs; cases hc
      · rw [hs₀] at hs; cases hs
        rw [hc₀] at hc; cases hc
        simp [he]

theorem candidateMut_expire
    (h : (t.expireCandidateForSessionAt ticket.sessionId now).1.candidateMut ticket = .ok (s, c)) :
    (t.expireCandidateForSessionAt ticket.sessionId now).1 = t ∧ Live t ticket s c ∧
      elapsed now c.createdAt t.candidateTtl = false := by
  have hl := candidateMut_ok.mp h
  obtain ⟨heq, he⟩ := live_of_expire hl.session hl.candidate
  exact ⟨heq, heq ▸ hl, he⟩

theorem expireSessions_tidy (now : Nat) (sids : List Nat) (t : UdpRoamingTable) :
    Tidy now? t (t.expireSessions now sids).1 := by
  induction sids generalizing t with
  | nil => exact .refl
  | cons sid rest ih => exact (expireCandidateForSessionAt_tidy sid now).trans (ih _)

theorem expireCandidatesAt_tidy (now : Nat) : Tidy (some now) t (t.expireCandidatesAt now).1 :=
  (expireSessions_tidy now _ t).tail (.pruned rfl)

theorem abortCandidate_tidy (ticket : CandidateTicket) :
    Tidy now? t (t.abortCandidate ticket).1 := by
  unfold abortCandidate
  split
  · exact .refl
  · next s c h =>
    obtain ⟨hs, -, hc, -⟩ := candidateMut_ok.mp h
    exact .single (.failed hs hc)

theorem tidy_session (h : Tidy now? t t') (hs : t.sessions.get? sid = some s)
    (hc : s.candidate = none) : t'.sessions.get? sid = some s := by
  refine h.preserves (P := fun u => u.sessions.get? sid = some s) (fun hstep hu => ?_) hs
  cases hstep with
  | @failed sid' s' c' hs' hc' =>
    have hne : sid ≠ sid' := by
      rintro rfl
      rw [hu] at hs'; cases hs'
      rw [hc] at hc'; cases hc'
    exact (KeyMap.get?_insert_ne _ _ hne).trans hu
  | pruned | burned => exact hu

variable {deriveUdpCid : DeriveUdpCid}

theorem registerSession_does (sid : Nat) (c2s s2c : Bytes 32) (path : UdpPath) (budget : Nat) :
    Does deriveUdpCid t (.register sid c2s s2c path budget)
      (t.registerSession deriveUdpCid sid c2s s2c path budget).1
      (.registered (t.registerSession deriveUdpCid sid c2s s2c path budget).2) := by
  unfold registerSession allocateSessionGeneration
  split_ifs with h1 h2 h3
  · exact .of_tidy .refl trivial
  · exact .of_tidy .refl trivial
  · exact .of_tidy .refl trivial
  · rw [not_or] at h1
    rw [Bool.not_eq_true] at h2
    cases hg : checkedAdd u64Max t.nextSessionGeneration 1 with
    | none => exact .of_tidy .refl trivial
    | some next =>
      obtain ⟨hle, rfl⟩ := checkedAdd_eq_some.mp hg
      have hburn : Tidy (TableOp.register sid c2s s2c path budget).now t
          { t with nextSessionGeneration := t.nextSessionGeneration + 1 } :=
        .single (.burned hle)
      dsimp only
      cases ha : deriveAliases deriveUdpCid c2s sid 0 with
      | error e => exact .of_tidy hburn trivial
      | ok aliases =>
        dsimp only
        cases he : ensureAliasesAvailable
            { t with nextSessionGeneration := t.nextSessionGeneration + 1 } sid
            t.nextSessionGeneration aliases with
        | error e => exact .of_tidy hburn trivial
        | ok =>
          exact .of_change .refl
            (.registered h1.1 (KeyMap.contains_eq_false.mp h2) rfl ha he rfl)

theorem startCandidate_does {lookup : CidLookup} {cid : UdpCid} {b : Nat} {t₀ : UdpRoamingTable}
    (h₀ : Tidy (some now) t₀ t) (hin : InitAccepted deriveUdpCid t lookup path cid epoch s)
    (hb : b ≠ 0) (hc : s.candidate = none) (challenge : PathToken) :
    Does deriveUdpCid t₀ (.observe lookup path cid epoch b challenge now)
      (t.startCandidate lookup path (min b maxCandidateAccountedBytes) challenge now).1
      (.observed
        (t.startCandidate lookup path (min b maxCandidateAccountedBytes) challenge now).2) := by
  unfold startCandidate
  split
  · exact .of_tidy h₀ trivial
  · -- the table after the optional bulk expiry
    generalize ht₁ : (if t.maxCandidates ≤ t.candidateCount then (t.expireCandidatesAt now).1
      else t) = t₁
    have h₁ : Tidy (some now) t t₁ := by
      rw [← ht₁]
      split
      · exact expireCandidatesAt_tidy now
      · exact .refl
    dsimp only
    split
    · exact .of_tidy (h₀.trans h₁) trivial
    · next hcount =>
      have h₂ : Tidy (some now) t (t₁.pruneCandidateStarts now) := h₁.tail (.pruned rfl)
      split
      · exact .of_tidy (h₀.trans h₂) trivial
      · next hlen =>
        unfold allocateCandidateId
        cases hid : checkedAdd u64Max (t₁.pruneCandidateStarts now).nextCandidateId 1 with
        | none => exact .of_tidy (h₀.trans h₂) trivial
        | some next =>
          obtain ⟨hle, rfl⟩ := checkedAdd_eq_some.mp hid
          have hs := tidy_session h₂ hin.session hc
          have hmod : ∀ f : UdpSession → UdpSession,
              (t₁.pruneCandidateStarts now).sessions.modify lookup.sessionId f =
                (t₁.pruneCandidateStarts now).sessions.insert lookup.sessionId (f s) := by
            intro f; unfold KeyMap.modify; rw [hs]
          dsimp only
          rw [hmod]
          refine .of_change (h₀.trans h₂) (.started { hin with session := hs } hb hc
            (not_le.mp hcount) ?_ (not_le.mp hlen) hle rfl)
          intro x hx
          have := List.head?_dropWhile_not
            (fun x => elapsed now x t₁.candidateRateWindow) t₁.candidateStarts
          rw [show (t₁.candidateStarts.dropWhile
            fun x => elapsed now x t₁.candidateRateWindow).head? = some x from hx] at this
          show elapsed now x t₁.candidateRateWindow = false
          simpa using this

theorem observe_does (lookup : CidLookup) (path : UdpPath) (cid : UdpCid) (epoch b : Nat)
    (challenge : PathToken) (now : Nat) :
    Does deriveUdpCid t (.observe lookup path cid epoch b challenge now)
      (t.observeAuthenticatedCandidateAt deriveUdpCid lookup path cid epoch b challenge now).1
      (.observed (t.observeAuthenticatedCandidateAt deriveUdpCid lookup path cid epoch b challenge
        now).2) := by
  unfold observeAuthenticatedCandidateAt
  split_ifs with hb
  · exact .of_tidy .refl trivial
  · have hexp : Tidy (some now) t (t.expireCandidateForSessionAt lookup.sessionId now).1 :=
      expireCandidateForSessionAt_tidy lookup.sessionId now
    dsimp only
    cases hs : (t.expireCandidateForSessionAt lookup.sessionId now).1.sessions.get?
        lookup.sessionId with
    | none => exact .of_tidy hexp trivial
    | some s =>
      dsimp only
      split_ifs with hg
      · exact .of_tidy hexp trivial
      · cases hn : checkedAdd u64Max s.active.epoch 1 with
        | none => exact .of_tidy hexp trivial
        | some expected =>
          obtain ⟨hle, rfl⟩ := checkedAdd_eq_some.mp hn
          dsimp only
          split_ifs with he hcid
          · exact .of_tidy hexp trivial
          · exact .of_tidy hexp trivial
          · rw [not_or, not_or, not_not, not_not] at he
            have hin : InitAccepted deriveUdpCid
                (t.expireCandidateForSessionAt lookup.sessionId now).1 lookup path cid epoch s :=
              ⟨hs, not_not.mp hg, hle, he.1, he.2.1, he.2.2, not_not.mp hcid⟩
            cases hc : s.candidate with
            | none => exact startCandidate_does hexp hin hb hc challenge
            | some c =>
              dsimp only
              split_ifs with hbusy
              · exact .of_tidy hexp trivial
              · rw [not_or, not_not, not_not] at hbusy
                obtain ⟨heq, hnow⟩ := live_of_expire hs hc
                rw [heq] at hin ⊢
                exact .of_change .refl (.observed hin hb hc hbusy.1 hbusy.2 hnow)

theorem authorize_does (ticket : CandidateTicket) (w now : Nat) :
    Does deriveUdpCid t (.authorize ticket w now) (t.authorizeCandidateSend ticket w now).1
      (.authorized (t.authorizeCandidateSend ticket w now).2) := by
  unfold authorizeCandidateSend
  have hexp : Tidy (some now) t (t.expireCandidateForSessionAt ticket.sessionId now).1 :=
    expireCandidateForSessionAt_tidy ticket.sessionId now
  dsimp only
  cases hm : (t.expireCandidateForSessionAt ticket.sessionId now).1.candidateMut ticket with
  | error e => exact .of_tidy hexp trivial
  | ok found =>
    obtain ⟨s, c⟩ := found
    obtain ⟨heq, hl, hnow⟩ := candidateMut_expire hm
    rw [heq] at hexp ⊢
    dsimp only
    split_ifs with hlim
    · exact .of_tidy hexp trivial
    · exact .of_change hexp (.authorized hl hnow (not_lt.mp hlim))

theorem replayedCommit_some {token : PathToken} {d : CommitDecision} :
    t.replayedCommit ticket path epoch token = .ok (some d) ↔
      ∃ s committed, t.sessions.get? ticket.sessionId = some s ∧
        s.generation = ticket.sessionGeneration ∧ s.lastCommit = some committed ∧
        committed.ticket = ticket ∧ committed.path = path ∧ epoch = ticket.pathEpoch ∧
        token = committed.challenge ∧ d = ⟨committed.outcome, true⟩ := by
  unfold replayedCommit
  constructor
  · intro h
    split at h
    · cases h
    · next s hs =>
      split_ifs at h with hg
      split at h
      · cases h
      · next committed hc =>
        split_ifs at h with h1 h2 h3
        · cases h
        · cases h
          rw [not_or, not_not, not_not] at h3
          exact ⟨s, committed, hs, not_not.mp hg, hc, not_not.mp h1, not_not.mp h2, h3.1, h3.2,
            rfl⟩
  · rintro ⟨s, committed, hs, hg, hc, h1, h2, h3, h4, rfl⟩
    simp [hs, hg, hc, h1, h2, h3, h4]

theorem collectAliases_error {secret : Bytes 32} {e : UdpRoamingError} {epochs : List Nat}
    {aliases : List (UdpCid × Nat)}
    (h : collectAliases deriveUdpCid secret sid aliases epochs = .error e) : e = .cidCollision := by
  induction epochs generalizing aliases with
  | nil => cases h
  | cons epoch epochs ih =>
    unfold collectAliases at h
    dsimp only at h
    split_ifs at h
    · cases h; rfl
    · exact ih h

theorem ensureAliasesAvailable_error {g : Nat} {aliases : List (UdpCid × Nat)} {e : UdpRoamingError}
    (h : t.ensureAliasesAvailable sid g aliases = .error e) : e = .cidCollision := by
  unfold ensureAliasesAvailable at h
  split_ifs at h
  cases h; rfl

/-- Every way a commit can end. -/
inductive CommitEffect {π ε : Type*} (deriveUdpCid : DeriveUdpCid)
    (publish : CommitOutcome → π → π × Except ε Unit) (t : UdpRoamingTable) (world : π)
    (ticket : CandidateTicket) (path : UdpPath) (epoch : Nat) (token : PathToken)
    (b budget now : Nat) :
    UdpRoamingTable × π × Except (UdpRoamingCommitError ε) CommitDecision → Prop where
  | refused (error : UdpRoamingError) :
      CommitEffect deriveUdpCid publish t world ticket path epoch token b budget now
        (t, world, .error (.state error))
  | replayed {s : UdpSession} {committed : CommittedPath} :
      t.sessions.get? ticket.sessionId = some s → s.generation = ticket.sessionGeneration →
      s.lastCommit = some committed → committed.ticket = ticket → committed.path = path →
      epoch = ticket.pathEpoch → token = committed.challenge →
      CommitEffect deriveUdpCid publish t world ticket path epoch token b budget now
        (t, world, .ok ⟨committed.outcome, true⟩)
  | stale (error : UdpRoamingError) :
      CommitEffect deriveUdpCid publish t world ticket path epoch token b budget now
        ((t.expireCandidateForSessionAt ticket.sessionId now).1, world, .error (.state error))
  | exhausted {s : UdpSession} {c : CandidatePath} : Live t ticket s c →
      elapsed now c.createdAt t.candidateTtl = false → u64Max < s.active.pmtuGeneration + 1 →
      CommitEffect deriveUdpCid publish t world ticket path epoch token b budget now
        (t.setSession ticket.sessionId (s.credited c b), world,
          .error (.state .generationExhausted))
  /-- Two epochs of the session itself share a CID: the candidate stays. -/
  | clashed {s : UdpSession} {c : CandidatePath} : Live t ticket s c →
      elapsed now c.createdAt t.candidateTtl = false →
      CommitEffect deriveUdpCid publish t world ticket path epoch token b budget now
        (t.setSession ticket.sessionId (s.credited c b), world, .error (.state .cidCollision))
  /-- The next CID is taken: the candidate is aborted. -/
  | taken {s : UdpSession} {c : CandidatePath} : Live t ticket s c →
      elapsed now c.createdAt t.candidateTtl = false →
      CommitEffect deriveUdpCid publish t world ticket path epoch token b budget now
        (((t.setSession ticket.sessionId (s.credited c b)).abortCandidate ticket).1, world,
          .error (.state .cidCollision))
  | unpublished {s : UdpSession} {c : CandidatePath} {outcome : CommitOutcome} {world' : π}
      {error : ε} : Live t ticket s c → elapsed now c.createdAt t.candidateTtl = false →
      publish outcome world = (world', .error error) →
      CommitEffect deriveUdpCid publish t world ticket path epoch token b budget now
        (t.setSession ticket.sessionId (s.credited c b), world', .error (.publish error))
  | committed {s : UdpSession} {c : CandidatePath} {aliases : List (UdpCid × Nat)}
      {outcome : CommitOutcome} {world' : π} : Live t ticket s c →
      elapsed now c.createdAt t.candidateTtl = false → path = c.path → epoch = ticket.pathEpoch →
      token = c.challenge →
      deriveAliases deriveUdpCid s.clientToServerCidSecret ticket.sessionId ticket.pathEpoch =
        .ok aliases →
      t.ensureAliasesAvailable ticket.sessionId s.generation aliases = .ok () →
      outcome = commitOutcome deriveUdpCid s ticket path aliases (s.active.pmtuGeneration + 1) →
      publish outcome world = (world', .ok ()) →
      CommitEffect deriveUdpCid publish t world ticket path epoch token b budget now
        ((t.setSession ticket.sessionId (s.credited c b)).rotate (s.credited c b) ticket
          c.challenge aliases outcome budget, world', .ok ⟨outcome, false⟩)

section CommitEffect

variable {π ε : Type*} {publish : CommitOutcome → π → π × Except ε Unit} {world : π}
  {ticket : CandidateTicket} {path : UdpPath} {epoch b budget now : Nat} {token : PathToken}

theorem commitCandidate_effect {s : UdpSession} {c : CandidatePath} (hl : Live t ticket s c)
    (hnow : elapsed now c.createdAt t.candidateTtl = false) (hp : path = c.path)
    (he : epoch = ticket.pathEpoch) (htok : token = c.challenge) :
    CommitEffect deriveUdpCid publish t world ticket path epoch token b budget now
      ((t.setSession ticket.sessionId (s.credited c b)).commitCandidate deriveUdpCid publish world
        (s.credited c b) ticket path c.challenge budget) := by
  unfold commitCandidate
  split
  · next hg => exact absurd hl.generation hg
  · cases hpm : checkedAdd u64Max (s.credited c b).active.pmtuGeneration 1 with
    | none => exact .exhausted hl hnow (checkedAdd_eq_none.mp hpm)
    | some pmtu =>
      obtain ⟨-, rfl⟩ := checkedAdd_eq_some.mp hpm
      dsimp only
      cases ha : deriveAliases deriveUdpCid (s.credited c b).clientToServerCidSecret
          ticket.sessionId ticket.pathEpoch with
      | error e =>
        obtain rfl := collectAliases_error ha
        exact .clashed hl hnow
      | ok aliases =>
        dsimp only
        cases hav : (t.setSession ticket.sessionId (s.credited c b)).ensureAliasesAvailable
            ticket.sessionId (s.credited c b).generation aliases with
        | error e =>
          obtain rfl := ensureAliasesAvailable_error hav
          exact .taken hl hnow
        | ok =>
          dsimp only
          cases hpub : publish (commitOutcome deriveUdpCid (s.credited c b) ticket path aliases
              ((s.credited c b).active.pmtuGeneration + 1)) world with
          | mk world' result =>
            cases result with
            | error e => exact .unpublished hl hnow hpub
            | ok => exact .committed hl hnow hp he htok ha hav rfl hpub

/-- **Every way a commit can end is listed.** -/
theorem commit_effect (deriveUdpCid : DeriveUdpCid)
    (publish : CommitOutcome → π → π × Except ε Unit) (t : UdpRoamingTable) (world : π)
    (ticket : CandidateTicket) (path : UdpPath) (epoch : Nat) (token : PathToken)
    (b budget now : Nat) :
    CommitEffect deriveUdpCid publish t world ticket path epoch token b budget now
      (t.validateResponseAndCommitWith deriveUdpCid publish world ticket path epoch token b budget
        now) := by
  unfold validateResponseAndCommitWith
  split
  · exact .refused _
  · cases hr : t.replayedCommit ticket path epoch token with
    | error e => exact .refused e
    | ok replay =>
      cases replay with
      | some d =>
        obtain ⟨s, committed, hs, hg, hc, h1, h2, h3, h4, rfl⟩ := replayedCommit_some.mp hr
        exact .replayed hs hg hc h1 h2 h3 h4
      | none =>
        dsimp only
        cases hm : (t.expireCandidateForSessionAt ticket.sessionId now).1.candidateMut ticket with
        | error e => exact .stale e
        | ok found =>
          obtain ⟨s, c⟩ := found
          obtain ⟨heq, hl, hnow⟩ := candidateMut_expire hm
          dsimp only
          split
          · exact .stale _
          · next hp =>
            split
            · exact .stale _
            · next hbad =>
              rw [not_or, not_not, not_not] at hbad
              rw [heq]
              exact commitCandidate_effect hl hnow (not_not.mp hp).symm hbad.1 hbad.2

end CommitEffect

/-- A commit result without what `publish` reported. -/
def eraseError {ε α : Type*} :
    Except (UdpRoamingCommitError ε) α → Except (UdpRoamingCommitError Unit) α
  | .ok a => .ok a
  | .error (.state error) => .error (.state error)
  | .error (.publish _) => .error (.publish ())

def answerOf {π ε : Type*} (publish : CommitOutcome → π → π × Except ε Unit) (world : π)
    (outcome : CommitOutcome) : Except Unit Unit :=
  match (publish outcome world).2 with
  | .ok _ => .ok ()
  | .error _ => .error ()

theorem CommitEffect.does {π ε : Type*} {publish : CommitOutcome → π → π × Except ε Unit}
    {world : π} {b budget : Nat} {token : PathToken}
    {x : UdpRoamingTable × π × Except (UdpRoamingCommitError ε) CommitDecision}
    (h : CommitEffect deriveUdpCid publish t world ticket path epoch token b budget now x) :
    Does deriveUdpCid t (.commit ticket path epoch token b budget now (answerOf publish world)) x.1
      (.committed (eraseError x.2.2)) := by
  cases h with
  | refused | replayed => exact .of_tidy .refl trivial
  | stale => exact .of_tidy (expireCandidateForSessionAt_tidy _ _) trivial
  | exhausted hl hnow hmax =>
    exact .of_change .refl (.credited hl hnow (.inr (.inr ⟨hmax, rfl⟩)))
  | clashed hl hnow => exact .of_change .refl (.credited hl hnow (.inr (.inl rfl)))
  | taken hl hnow =>
    exact ⟨_, _, .refl, .credited hl hnow (.inr (.inl rfl)), abortCandidate_tidy ticket⟩
  | unpublished hl hnow => exact .of_change .refl (.credited hl hnow (.inl rfl))
  | committed hl hnow hp he htok ha hav hout hpub =>
    refine .of_change .refl (.committed hl hnow hp he htok ha hav hout ?_)
    unfold answerOf
    rw [hpub]

theorem eraseError_unit {α : Type*} (r : Except (UdpRoamingCommitError Unit) α) :
    eraseError r = r := by
  rcases r with (_ | _) | _ <;> rfl

theorem answerOf_pure (publish : CommitOutcome → Except Unit Unit) :
    answerOf (fun outcome (world : Unit) => (world, publish outcome)) () = publish := by
  funext outcome
  unfold answerOf
  dsimp only
  split <;> next h => rw [h]

theorem commit_does (ticket : CandidateTicket) (path : UdpPath) (epoch : Nat) (token : PathToken)
    (b budget now : Nat) (publish : CommitOutcome → Except Unit Unit) :
    Does deriveUdpCid t (.commit ticket path epoch token b budget now publish)
      (t.apply deriveUdpCid (.commit ticket path epoch token b budget now publish)).1
      (t.apply deriveUdpCid (.commit ticket path epoch token b budget now publish)).2 := by
  have h := (commit_effect deriveUdpCid (fun outcome world => (world, publish outcome)) t () ticket
    path epoch token b budget now).does
  rw [answerOf_pure, eraseError_unit] at h
  exact h

theorem raisePayloadBudget_does (ticket : PmtuTicket) (budget : Nat) :
    Does deriveUdpCid t (.raiseBudget ticket budget) (t.raisePayloadBudget ticket budget).1
      (.raised (t.raisePayloadBudget ticket budget).2) := by
  unfold raisePayloadBudget
  cases hs : t.sessions.get? ticket.sessionId with
  | none => exact .of_tidy .refl trivial
  | some s =>
    dsimp only
    split_ifs with hg hb
    · exact .of_tidy .refl trivial
    · exact .of_change .refl (.widened hs (not_not.mp (not_or.mp hg).1))
    · exact .of_tidy .refl trivial

theorem removeSession_does {op : TableOp} {r : TableResult} (hs : t.sessions.get? sid = some s)
    (hr : op.Removes s sid r) : Does deriveUdpCid t op (t.removeSession sid).1 r :=
  .of_change .refl (.removed hs hr)

theorem removeSession_none (hs : t.sessions.get? sid = none) :
    t.removeSession sid = (t, false) := by
  unfold removeSession; rw [hs]

theorem removeSession_some (hs : t.sessions.get? sid = some s) :
    (t.removeSession sid).1 = { t with
      sessions := t.sessions.erase sid
      candidateCount := t.candidateCount - if s.candidate.isSome then 1 else 0
      failuresTotal := if s.candidate.isSome then saturatingAdd u64Max t.failuresTotal 1
        else t.failuresTotal
      cidIndex := dropAliases t.cidIndex sid s.generation s.aliases [] } := by
  unfold removeSession; rw [hs]

theorem removeSession_done (hs : t.sessions.get? sid = some s) :
    (t.removeSession sid).2 = true := by
  unfold removeSession; rw [hs]

theorem removeSessionGeneration_eq (t : UdpRoamingTable) (sid g : Nat) :
    t.removeSessionGeneration sid g = (t, false) ∨
      ∃ s, t.sessions.get? sid = some s ∧ s.generation = g ∧
        t.removeSessionGeneration sid g = t.removeSession sid := by
  unfold removeSessionGeneration
  cases hs : t.sessions.get? sid with
  | none => exact .inl rfl
  | some s =>
    dsimp only
    split_ifs with hg
    · exact .inl rfl
    · exact .inr ⟨s, rfl, not_not.mp hg, rfl⟩

theorem remove_does (sid : Nat) :
    Does deriveUdpCid t (.remove sid) (t.removeSession sid).1 (.removed (t.removeSession sid).2) := by
  cases hs : t.sessions.get? sid with
  | none => rw [removeSession_none hs]; exact .of_tidy .refl trivial
  | some s => rw [removeSession_done hs]; exact removeSession_does hs rfl

theorem removeGeneration_does (sid g : Nat) :
    Does deriveUdpCid t (.removeGeneration sid g) (t.removeSessionGeneration sid g).1
      (.removed (t.removeSessionGeneration sid g).2) := by
  rcases t.removeSessionGeneration_eq sid g with heq | ⟨s, hs, rfl, heq⟩
  · rw [heq]; exact .of_tidy .refl trivial
  · rw [heq, removeSession_done hs]; exact removeSession_does hs ⟨rfl, rfl⟩

theorem drop_does (owner : UdpSessionRegistration) :
    Does deriveUdpCid t (.dropOwner owner) (owner.drop t).2 (.dropped (owner.drop t).1) := by
  unfold UdpSessionRegistration.drop
  split_ifs with hact
  · rcases t.removeSessionGeneration_eq owner.sessionId owner.sessionGeneration with
      heq | ⟨s, hs, hg, heq⟩
    · dsimp only; rw [heq]; exact .of_tidy .refl trivial
    · dsimp only; rw [heq]; exact removeSession_does hs ⟨hact, rfl, hg.symm⟩
  · exact .of_tidy .refl trivial

/-- **Every operation tidies, changes and tidies.** -/
theorem apply_changes (deriveUdpCid : DeriveUdpCid) (t : UdpRoamingTable) (op : TableOp) :
    Does deriveUdpCid t op (t.apply deriveUdpCid op).1 (t.apply deriveUdpCid op).2 := by
  cases op with
  | register sid c2s s2c path budget => exact registerSession_does sid c2s s2c path budget
  | lookup cid => exact .of_tidy .refl trivial
  | observe lookup path cid epoch b challenge now =>
    exact observe_does lookup path cid epoch b challenge now
  | authorize ticket w now => exact authorize_does ticket w now
  | commit ticket path epoch token b budget now publish =>
    exact commit_does ticket path epoch token b budget now publish
  | abort ticket => exact .of_tidy (abortCandidate_tidy ticket) trivial
  | expire now => exact .of_tidy (expireCandidatesAt_tidy now) trivial
  | raiseBudget ticket budget => exact raisePayloadBudget_does ticket budget
  | remove sid => exact remove_does sid
  | removeGeneration sid g => exact removeGeneration_does sid g
  | dropOwner owner => exact drop_does owner

theorem Step.does {e : TableEvent} (h : Step deriveUdpCid t e t') :
    Does deriveUdpCid t e.op t' e.result := by
  obtain ⟨rfl, hr⟩ := h
  exact hr ▸ apply_changes deriveUdpCid t e.op

theorem Step.preserves {P : UdpRoamingTable → Prop}
    (htidy : ∀ {now? t t'}, TidyStep now? t t' → P t → P t')
    (hchange : ∀ {t op t' r}, Change deriveUdpCid t op t' r → P t → P t') {e : TableEvent}
    (h : Step deriveUdpCid t e t') (h0 : P t) : P t' := by
  obtain ⟨t₁, t₂, h1, h2, h3⟩ := h.does
  exact h3.preserves htidy (hchange h2 (h1.preserves htidy h0))

end UdpRoamingTable

end Qeli.Udp
