import Qeli.Lib.Run
import Qeli.Udp.Client

/-!
# A client candidate over its life

A candidate lives from the `begin` that makes it to the call after which it is gone. `Life`
relates the calls since that `begin` to the candidate: what it has transmitted, and which
controls it has accepted for its phase. `Life.step` is one more call, `exists_life` says that
whenever there is a candidate the calls so far end in its life, and the safety of the client
is read off `Life`.
-/

namespace Qeli.Udp

open Qeli.Lib Qeli.Wire

variable {deriveUdpCid : DeriveUdpCid} {c : UdpClientRoaming}

/-! ## Runs of the client -/

def clientRun (deriveUdpCid : DeriveUdpCid) (c : UdpClientRoaming) (ops : List ClientOp) :
    UdpClientRoaming :=
  (trace (clientApply deriveUdpCid) c ops).1

def transmitted (deriveUdpCid : DeriveUdpCid) (c : UdpClientRoaming) (ops : List ClientOp) :
    List UdpClientPathTransmit :=
  (trace (clientApply deriveUdpCid) c ops).2.filterMap id

theorem clientRun_snoc (c : UdpClientRoaming) (ops : List ClientOp) (op : ClientOp) :
    clientRun deriveUdpCid c (ops ++ [op]) =
      (clientApply deriveUdpCid (clientRun deriveUdpCid c ops) op).1 := by
  rw [clientRun, trace_snoc]
  rfl

theorem clientRun_append (c : UdpClientRoaming) (ops ops' : List ClientOp) :
    clientRun deriveUdpCid c (ops ++ ops') =
      clientRun deriveUdpCid (clientRun deriveUdpCid c ops) ops' := by
  rw [clientRun, trace_append]
  rfl

theorem transmitted_snoc (c : UdpClientRoaming) (ops : List ClientOp) (op : ClientOp) :
    transmitted deriveUdpCid c (ops ++ [op]) = transmitted deriveUdpCid c ops ++
      (clientApply deriveUdpCid (clientRun deriveUdpCid c ops) op).2.toList := by
  rw [transmitted, trace_snoc]
  exact filterMap_snoc id _ _

/-! ## The life of a candidate -/

/-- There is a candidate after every one of the calls. -/
def Alive (deriveUdpCid : DeriveUdpCid) (c : UdpClientRoaming) (life : List ClientOp) : Prop :=
  ∀ ops rest, life = ops ++ rest → ops ≠ [] → (clientRun deriveUdpCid c ops).candidate.isSome

def Challenged (deriveUdpCid : DeriveUdpCid) (c : UdpClientRoaming) (life : List ClientOp)
    (k : UdpClientCandidate) : Prop :=
  ∃ before token now after,
    life = before ++ .accept k.receiveCid k.messageId (.challenge k.epoch token) now :: after ∧
      token.all (· == 0) = false ∧
      (clientRun deriveUdpCid c before).Accepts k.receiveCid k.messageId
        (.challenge k.epoch token) now

/-- After a challenge of the candidate its commit was accepted. -/
def Validated (deriveUdpCid : DeriveUdpCid) (c : UdpClientRoaming) (life : List ClientOp)
    (k : UdpClientCandidate) : Prop :=
  ∃ before now after,
    life = before ++ .accept k.receiveCid k.messageId (.commit k.transmitCid k.epoch) now :: after ∧
      Challenged deriveUdpCid c before k ∧
      (clientRun deriveUdpCid c before).Accepts k.receiveCid k.messageId
        (.commit k.transmitCid k.epoch) now

theorem Challenged.append {life : List ClientOp} {k : UdpClientCandidate}
    (h : Challenged deriveUdpCid c life k) (ops : List ClientOp) :
    Challenged deriveUdpCid c (life ++ ops) k := by
  obtain ⟨before, token, now, after, rfl, htoken, haccepts⟩ := h
  exact ⟨before, token, now, after ++ ops, by simp, htoken, haccepts⟩

theorem Validated.append {life : List ClientOp} {k : UdpClientCandidate}
    (h : Validated deriveUdpCid c life k) (ops : List ClientOp) :
    Validated deriveUdpCid c (life ++ ops) k := by
  obtain ⟨before, now, after, rfl, hchallenged, haccepts⟩ := h
  exact ⟨before, now, after ++ ops, by simp, hchallenged, haccepts⟩

/-- The calls since the candidate was begun, from the state before that. -/
structure Life (deriveUdpCid : DeriveUdpCid) (c : UdpClientRoaming) (life : List ClientOp)
    (k : UdpClientCandidate) : Prop where
  begun : ∃ now rest, life = .begin k.candidateId k.messageId now :: rest
  alive : Alive deriveUdpCid c life
  /-- Nothing else changes. -/
  state : clientRun deriveUdpCid c life = { c with candidate := some k }
  epoch : k.epoch = c.activeEpoch + 1
  transmitCid : k.transmitCid = deriveUdpCid c.clientToServerCidSecret c.sessionId k.epoch
  receiveCid : k.receiveCid = deriveUdpCid c.serverToClientCidSecret c.sessionId k.epoch
  sent : (transmitted deriveUdpCid c life).length = k.transmissions
  sent_le : k.transmissions ≤ udpClientPathMaxTransmissions
  challenged : k.phase ≠ .waitingChallenge → Challenged deriveUdpCid c life k
  validated : k.phase = .commitReady → Validated deriveUdpCid c life k

theorem Alive.snoc {life : List ClientOp} {op : ClientOp} (h : Alive deriveUdpCid c life)
    (hsome : (clientRun deriveUdpCid c (life ++ [op])).candidate.isSome) :
    Alive deriveUdpCid c (life ++ [op]) := by
  intro ops rest hsplit hops
  rcases List.eq_nil_or_concat rest with rfl | ⟨rest, last, rfl⟩
  · rw [List.append_nil] at hsplit
    rw [← hsplit]
    exact hsome
  · rw [List.concat_eq_append, ← List.append_assoc] at hsplit
    exact h ops rest (List.append_inj' hsplit rfl).1 hops

theorem Life.next {life : List ClientOp} {k k' : UdpClientCandidate} {op : ClientOp}
    {x : Option UdpClientPathTransmit} (h : Life deriveUdpCid c life k)
    (hout : clientApply deriveUdpCid (clientRun deriveUdpCid c life) op =
      ({ clientRun deriveUdpCid c life with candidate := some k' }, x))
    (hid : k'.identity = k.identity) (hsent : k'.transmissions = k.transmissions + x.toList.length)
    (hle : k'.transmissions ≤ udpClientPathMaxTransmissions)
    (hchallenged : k'.phase ≠ .waitingChallenge → Challenged deriveUdpCid c (life ++ [op]) k')
    (hvalidated : k'.phase = .commitReady → Validated deriveUdpCid c (life ++ [op]) k') :
    Life deriveUdpCid c (life ++ [op]) k' := by
  have hstate : clientRun deriveUdpCid c (life ++ [op]) = { c with candidate := some k' } := by
    rw [clientRun_snoc, hout, h.state]
  simp only [UdpClientCandidate.identity, Prod.mk.injEq] at hid
  obtain ⟨hcandidateId, hmessageId, hepoch, htransmitCid, hreceiveCid⟩ := hid
  obtain ⟨now, rest, hbegun⟩ := h.begun
  refine ⟨⟨now, rest ++ [op], ?_⟩, h.alive.snoc (by rw [hstate]; rfl), hstate, ?_, ?_, ?_, ?_, hle,
    hchallenged, hvalidated⟩
  · rw [hbegun, hcandidateId, hmessageId, List.cons_append]
  · rw [hepoch, h.epoch]
  · rw [htransmitCid, hepoch, h.transmitCid]
  · rw [hreceiveCid, hepoch, h.receiveCid]
  · rw [transmitted_snoc, hout, List.length_append, h.sent, hsent]

/-- How a life ends. -/
inductive Ending (c c' : UdpClientRoaming) (k : UdpClientCandidate) : ClientOp → Prop where
  | dropped {op} : c' = { c with candidate := none } → Ending c c' k op
  | committed : k.phase = .commitReady →
      c' = { c with
        activeEpoch := k.epoch
        activeTransmitCid := k.transmitCid
        activeReceiveCid := k.receiveCid
        candidate := none } →
      Ending c c' k (.commit k.commit)

theorem Ending.gone {c' : UdpClientRoaming} {k : UdpClientCandidate} {op : ClientOp}
    (h : Ending c c' k op) : c'.candidate = none := by
  cases h with
  | dropped hc' | committed _ hc' => rw [hc']

/-- **One call in the life of a candidate**: it goes on, or it ends and nothing is sent. -/
theorem Life.step {life : List ClientOp} {k : UdpClientCandidate}
    (h : Life deriveUdpCid c life k) (op : ClientOp) :
    (∃ k', Life deriveUdpCid c (life ++ [op]) k') ∨
      Ending c (clientRun deriveUdpCid c (life ++ [op])) k op ∧
        transmitted deriveUdpCid c (life ++ [op]) = transmitted deriveUdpCid c life := by
  have hmove := client_move deriveUdpCid (clientRun deriveUdpCid c life) op
  have hcandidate : (clientRun deriveUdpCid c life).candidate = some k := by rw [h.state]
  rw [clientRun_snoc, transmitted_snoc]
  cases hout : clientApply deriveUdpCid (clientRun deriveUdpCid c life) op with
  | mk c' x =>
  rw [hout] at hmove
  cases hmove with
  | idle =>
    have hsame : clientRun deriveUdpCid c life =
        { clientRun deriveUdpCid c life with candidate := some k } := by rw [h.state]
    exact .inl ⟨k, h.next (hout.trans (congrArg (·, none) hsame)) rfl rfl h.sent_le
      (fun hphase => (h.challenged hphase).append _) fun hphase => (h.validated hphase).append _⟩
  | dropped => exact .inr ⟨.dropped (by rw [h.state]), List.append_nil _⟩
  | begun hnone =>
    rw [hcandidate] at hnone
    cases hnone
  | @challenged k' token now hk htoken hbelow haccepts =>
    cases hcandidate.symm.trans hk
    refine .inl ⟨_, h.next hout rfl rfl hbelow (fun _ => ?_) fun hready => ?_⟩
    · exact ⟨life, token, now, [], rfl, htoken, haccepts⟩
    · cases hready
  | @repeated k' now x hk hphase hbelow =>
    cases hcandidate.symm.trans hk
    refine .inl ⟨_, h.next hout rfl rfl hbelow (fun hwaiting => ?_) fun hready => ?_⟩
    · exact (h.challenged hwaiting).append _
    · exact absurd hready hphase
  | @ready k' now hk hphase haccepts =>
    cases hcandidate.symm.trans hk
    refine .inl ⟨_, h.next hout rfl rfl h.sent_le (fun _ => ?_) fun _ => ?_⟩
    · exact (h.challenged hphase).append _
    · exact ⟨life, now, [], rfl, h.challenged hphase, haccepts⟩
  | @committed k' hk hphase =>
    cases hcandidate.symm.trans hk
    exact .inr ⟨.committed hphase (by rw [h.state]), List.append_nil _⟩

/-! ## Every candidate has its life -/

theorem Life.first {op : ClientOp} (hnone : c.candidate = none)
    (hsome : (clientApply deriveUdpCid c op).1.candidate.isSome) :
    ∃ k, Life deriveUdpCid c [op] k := by
  have hmove := client_move deriveUdpCid c op
  have hrun : clientRun deriveUdpCid c [op] = (clientApply deriveUdpCid c op).1 := rfl
  have hsent : transmitted deriveUdpCid c [op] = (clientApply deriveUdpCid c op).2.toList :=
    transmitted_snoc c [] op
  have halive : Alive deriveUdpCid c [op] := by
    intro ops rest hsplit hops
    rcases List.append_eq_singleton_iff.mp hsplit.symm with ⟨rfl, _⟩ | ⟨rfl, rfl⟩
    · exact absurd rfl hops
    · exact hsome
  generalize clientApply deriveUdpCid c op = out at hmove hrun hsent hsome
  obtain ⟨c', x⟩ := out
  have hbusy : ∀ {k}, c.candidate = some k → False := by
    intro k hk
    rw [hnone] at hk
    cases hk
  cases hmove with
  | idle =>
    rw [hnone] at hsome
    cases hsome
  | dropped => cases hsome
  | @begun candidateId messageId now k _ _ hk =>
    subst hk
    refine ⟨_, ⟨⟨now, [], rfl⟩, halive, hrun, rfl, rfl, rfl, ?_, Nat.le_of_ble_eq_true rfl, ?_, ?_⟩⟩
    · rw [hsent]
      rfl
    · exact fun hphase => absurd rfl hphase
    · exact fun hphase => by cases hphase
  | challenged hk | repeated hk | ready hk | committed hk => exact (hbusy hk).elim

theorem life_of_alive (hnone : c.candidate = none) {life : List ClientOp}
    (halive : Alive deriveUdpCid c life) (hlife : life ≠ []) : ∃ k, Life deriveUdpCid c life k := by
  induction life using List.reverseRecOn with
  | nil => exact absurd rfl hlife
  | append_singleton life op ih =>
    have hsome := halive (life ++ [op]) [] (by simp) hlife
    rcases life.eq_nil_or_concat with rfl | ⟨before, last, hconcat⟩
    · exact Life.first hnone hsome
    · have hne : life ≠ [] := by
        rw [hconcat]
        simp
      obtain ⟨k, hk⟩ := ih (fun ops rest hsplit hops =>
        halive ops (rest ++ [op]) (by rw [hsplit, List.append_assoc]) hops) hne
      rcases hk.step op with hnext | ⟨hending, _⟩
      · exact hnext
      · rw [hending.gone] at hsome
        cases hsome

/-- **Whenever there is a candidate**, the calls so far end in its life. -/
theorem exists_life (hnone : c.candidate = none) (ops : List ClientOp)
    (hsome : (clientRun deriveUdpCid c ops).candidate.isSome) :
    ∃ before life k, ops = before ++ life ∧
      (clientRun deriveUdpCid c before).candidate = none ∧
      Life deriveUdpCid (clientRun deriveUdpCid c before) life k := by
  induction ops using List.reverseRecOn with
  | nil =>
    have hsome' : c.candidate.isSome := hsome
    rw [hnone] at hsome'
    cases hsome'
  | append_singleton ops op ih =>
    cases hbefore : (clientRun deriveUdpCid c ops).candidate with
    | none =>
      rw [clientRun_snoc] at hsome
      obtain ⟨k, hk⟩ := Life.first hbefore hsome
      exact ⟨ops, [op], k, rfl, hbefore, hk⟩
    | some k =>
      obtain ⟨before, life, k, rfl, hgone, hlife⟩ := ih (by rw [hbefore]; rfl)
      rcases hlife.step op with ⟨k', hnext⟩ | ⟨hending, _⟩
      · exact ⟨before, life ++ [op], k', List.append_assoc _ _ _, hgone, hnext⟩
      · rw [List.append_assoc, clientRun_append, hending.gone] at hsome
        cases hsome

/-! ## Safety -/

def UdpClientRoaming.active (c : UdpClientRoaming) : Nat × UdpCid × UdpCid :=
  (c.activeEpoch, c.activeTransmitCid, c.activeReceiveCid)

def UdpClientRoaming.derived (deriveUdpCid : DeriveUdpCid) (c : UdpClientRoaming) (epoch : Nat) :
    Nat × UdpCid × UdpCid :=
  (epoch, deriveUdpCid c.clientToServerCidSecret c.sessionId epoch,
    deriveUdpCid c.serverToClientCidSecret c.sessionId epoch)

theorem derived_clientApply (c : UdpClientRoaming) (op : ClientOp) (epoch : Nat) :
    (clientApply deriveUdpCid c op).1.derived deriveUdpCid epoch = c.derived deriveUdpCid epoch := by
  have hmove := client_move deriveUdpCid c op
  generalize clientApply deriveUdpCid c op = out at hmove
  obtain ⟨c', x⟩ := out
  cases hmove <;> rfl

theorem derived_clientRun (c : UdpClientRoaming) (ops : List ClientOp) (epoch : Nat) :
    (clientRun deriveUdpCid c ops).derived deriveUdpCid epoch = c.derived deriveUdpCid epoch := by
  induction ops using List.reverseRecOn with
  | nil => rfl
  | append_singleton ops op ih => rw [clientRun_snoc, derived_clientApply, ih]

theorem active_clientApply {op : ClientOp}
    (hchange : (clientApply deriveUdpCid c op).1.active ≠ c.active) :
    ∃ k, c.candidate = some k ∧ k.phase = .commitReady ∧ op = .commit k.commit ∧
      (clientApply deriveUdpCid c op).1.active = (k.epoch, k.transmitCid, k.receiveCid) := by
  have hmove := client_move deriveUdpCid c op
  generalize clientApply deriveUdpCid c op = out at hmove hchange
  obtain ⟨c', x⟩ := out
  cases hmove with
  | idle | dropped | begun | challenged | repeated | ready => exact absurd rfl hchange
  | committed hk hphase => exact ⟨_, hk, hphase, rfl, rfl⟩

theorem transmitted_le (hnone : c.candidate = none) {life : List ClientOp}
    (halive : ∀ ops rest, life = ops ++ rest → ops ≠ [] → rest ≠ [] →
      (clientRun deriveUdpCid c ops).candidate.isSome) :
    (transmitted deriveUdpCid c life).length ≤ udpClientPathMaxTransmissions := by
  rcases life.eq_nil_or_concat with rfl | ⟨before, op, hconcat⟩
  · exact Nat.zero_le _
  · rw [List.concat_eq_append] at hconcat
    subst hconcat
    by_cases hbefore : before = []
    · subst hbefore
      rw [transmitted_snoc]
      have hone : ∀ x : Option UdpClientPathTransmit, x.toList.length ≤ 1 := by
        intro x
        cases x <;> simp
      exact (hone _).trans (by decide)
    · obtain ⟨k, hk⟩ := life_of_alive hnone (fun ops rest hsplit hops =>
        halive ops (rest ++ [op]) (by rw [hsplit, List.append_assoc]) hops (by simp)) hbefore
      rcases hk.step op with ⟨k', hnext⟩ | ⟨_, hsame⟩
      · rw [hnext.sent]
        exact hnext.sent_le
      · rw [hsame, hk.sent]
        exact hk.sent_le

theorem accept_of_error {cid : UdpCid} {messageId now : Nat} {control : PathControl}
    {error : UdpClientRoamingError}
    (h : (c.acceptAuthenticatedControl cid messageId control now).2 = .error error) :
    (c.acceptAuthenticatedControl cid messageId control now).1 = c ∨
      error = .candidateExpired := by
  revert h
  unfold UdpClientRoaming.acceptAuthenticatedControl
  -- a branch leaves the state alone, has found the candidate expired, or succeeds
  repeat' split
  all_goals first
    | exact fun _ => .inl rfl
    | exact fun h => .inr (by cases h; rfl)
    | exact fun h => by cases h

/-- The client from a state on, over all calls. -/
structure RoamingSafety (deriveUdpCid : DeriveUdpCid) (c : UdpClientRoaming) : Prop where
  /-- What data uses changes only with the commit of a candidate: to the next epoch and its
  CIDs, and after the candidate has been validated. A `begin` is refused while there is a
  candidate, so the calls of a life are about one. -/
  active : ∀ ops op,
    (clientRun deriveUdpCid c (ops ++ [op])).active ≠ (clientRun deriveUdpCid c ops).active →
    (clientRun deriveUdpCid c (ops ++ [op])).active =
        c.derived deriveUdpCid ((clientRun deriveUdpCid c ops).activeEpoch + 1) ∧
      ∃ before life k now rest, op = .commit k.commit ∧ ops = before ++ life ∧
        life = .begin k.candidateId k.messageId now :: rest ∧
        (clientRun deriveUdpCid c before).candidate = none ∧
        Alive deriveUdpCid (clientRun deriveUdpCid c before) life ∧
        k.epoch = (clientRun deriveUdpCid c ops).activeEpoch + 1 ∧
        Validated deriveUdpCid (clientRun deriveUdpCid c before) life k
  /-- From where there is no candidate to where there is none again. -/
  transmissions : ∀ before life, (clientRun deriveUdpCid c before).candidate = none →
    (∀ ops rest, life = ops ++ rest → ops ≠ [] → rest ≠ [] →
      (clientRun deriveUdpCid c (before ++ ops)).candidate.isSome) →
    (transmitted deriveUdpCid (clientRun deriveUdpCid c before) life).length ≤
      udpClientPathMaxTransmissions
  expired_control : ∀ ops k cid messageId control now,
    (clientRun deriveUdpCid c ops).candidate = some k → k.expired now →
    (clientRun deriveUdpCid c ops).acceptAuthenticatedControl cid messageId control now =
        ({ clientRun deriveUdpCid c ops with candidate := none }, .error .candidateExpired) ∧
      clientRun deriveUdpCid c (ops ++ [.accept cid messageId control now]) =
        { clientRun deriveUdpCid c ops with candidate := none }
  stale_control : ∀ ops k cid messageId control now,
    (clientRun deriveUdpCid c ops).candidate = some k → ¬k.expired now →
    cid ≠ k.receiveCid ∨ messageId ≠ k.messageId →
    clientRun deriveUdpCid c (ops ++ [.accept cid messageId control now]) =
      clientRun deriveUdpCid c ops
  refused_control : ∀ ops cid messageId control now error,
    ((clientRun deriveUdpCid c ops).acceptAuthenticatedControl cid messageId control now).2 =
      .error error → error ≠ .candidateExpired →
    clientRun deriveUdpCid c (ops ++ [.accept cid messageId control now]) =
      clientRun deriveUdpCid c ops
  other_commit : ∀ ops k commit, (clientRun deriveUdpCid c ops).candidate = some k →
    commit ≠ k.commit →
    clientRun deriveUdpCid c (ops ++ [.commit commit]) = clientRun deriveUdpCid c ops
  other_abort : ∀ ops k candidateId, (clientRun deriveUdpCid c ops).candidate = some k →
    candidateId ≠ k.candidateId →
    clientRun deriveUdpCid c (ops ++ [.abort candidateId]) = clientRun deriveUdpCid c ops

/-- **A client roams only to a validated path.** -/
theorem client_roaming_safety {sessionId : Nat} {c2s s2c : Bytes 32}
    (hnew : UdpClientRoaming.new deriveUdpCid sessionId c2s s2c = .ok c) :
    RoamingSafety deriveUdpCid c := by
  have hnone : c.candidate = none := by
    unfold UdpClientRoaming.new at hnew
    split at hnew
    · cases hnew
    · cases hnew
      rfl
  constructor
  case active =>
    intro ops op hchange
    rw [clientRun_snoc] at hchange ⊢
    obtain ⟨k, hk, hphase, rfl, hactive⟩ := active_clientApply hchange
    obtain ⟨before, life, k', rfl, hgone, hlife⟩ := exists_life hnone ops (by rw [hk]; rfl)
    rw [clientRun_append, hlife.state] at hk
    cases hk
    have hepoch : (clientRun deriveUdpCid c (before ++ life)).activeEpoch =
        (clientRun deriveUdpCid c before).activeEpoch := by
      rw [clientRun_append, hlife.state]
    obtain ⟨now, rest, hbegun⟩ := hlife.begun
    refine ⟨?_, before, life, k, now, rest, rfl, rfl, hbegun, hgone, hlife.alive, ?_,
      hlife.validated hphase⟩
    · rw [hactive, hepoch, ← hlife.epoch, ← derived_clientRun c before, hlife.transmitCid,
        hlife.receiveCid]
      rfl
    · rw [hepoch]
      exact hlife.epoch
  case transmissions =>
    intro before life hgone halive
    refine transmitted_le hgone fun ops rest hsplit hops hrest => ?_
    rw [← clientRun_append]
    exact halive ops rest hsplit hops hrest
  case expired_control =>
    intro ops k cid messageId control now hk hexpired
    have hcall : (clientRun deriveUdpCid c ops).acceptAuthenticatedControl cid messageId control
        now = ({ clientRun deriveUdpCid c ops with candidate := none },
          .error .candidateExpired) := by
      rw [UdpClientRoaming.acceptAuthenticatedControl, hk]
      exact if_pos hexpired
    refine ⟨hcall, ?_⟩
    rw [clientRun_snoc, clientApply, hcall]
  case stale_control =>
    intro ops k cid messageId control now hk hlive hstale
    rw [clientRun_snoc]
    dsimp only [clientApply, UdpClientRoaming.acceptAuthenticatedControl]
    rw [hk]
    dsimp only
    rw [if_neg hlive, if_pos hstale]
  case refused_control =>
    intro ops cid messageId control now error herror hexpired
    rw [clientRun_snoc]
    exact (accept_of_error herror).resolve_right hexpired
  case other_commit =>
    intro ops k commit hk hother
    rw [clientRun_snoc]
    dsimp only [clientApply, UdpClientRoaming.commitCandidate]
    rw [hk]
    dsimp only
    rw [if_pos (.inr hother.symm)]
  case other_abort =>
    intro ops k candidateId hk hother
    rw [clientRun_snoc]
    dsimp only [clientApply, UdpClientRoaming.abortCandidate]
    rw [hk, if_neg (by simpa using hother.symm)]

/-! ## One migration -/

/-- Stands for the CID derivation: the secret's first byte and the epoch. -/
def plainCid : DeriveUdpCid := fun secret _ epoch =>
  Vector.replicate 7 (UInt8.ofNat epoch) |>.push (secret.get 0)

/-- Two retransmissions, a challenge that comes twice, and the commit. -/
def migrationOps : List ClientOp :=
  let receiveCid := plainCid (Vector.replicate 32 2) 7 1
  let transmitCid := plainCid (Vector.replicate 32 1) 7 1
  [.begin 5 9 0, .retransmit (600 * 10 ^ 6),
    .accept receiveCid 9 (.challenge 1 (Vector.replicate 16 3)) (700 * 10 ^ 6),
    .accept receiveCid 9 (.challenge 1 (Vector.replicate 16 3)) (800 * 10 ^ 6),
    .abort 4, .accept receiveCid 9 (.commit transmitCid 1) (900 * 10 ^ 6)]

def migratingClient : UdpClientRoaming :=
  { sessionId := 7
    clientToServerCidSecret := Vector.replicate 32 1
    serverToClientCidSecret := Vector.replicate 32 2
    activeEpoch := 0
    activeTransmitCid := plainCid (Vector.replicate 32 1) 7 0
    activeReceiveCid := plainCid (Vector.replicate 32 2) 7 0
    candidate := none }

theorem client_roaming_safety_migration :
    UdpClientRoaming.new plainCid 7 (Vector.replicate 32 1) (Vector.replicate 32 2) =
        .ok migratingClient ∧
      RoamingSafety plainCid migratingClient ∧
      (transmitted plainCid migratingClient migrationOps).length = udpClientPathMaxTransmissions ∧
      (clientRun plainCid migratingClient (migrationOps ++
        [.commit ⟨5, 1, plainCid (Vector.replicate 32 1) 7 1,
          plainCid (Vector.replicate 32 2) 7 1⟩])).activeEpoch = 1 := by
  have hnew : UdpClientRoaming.new plainCid 7 (Vector.replicate 32 1) (Vector.replicate 32 2) =
      .ok migratingClient := rfl
  exact ⟨hnew, client_roaming_safety hnew, by decide +kernel, by decide +kernel⟩

/-- A control for another message id, delivered when the candidate's time is over: the call
checks the time first and takes the candidate away. -/
theorem late_stale_control_drops :
    let begun := clientRun plainCid migratingClient [.begin 5 9 0]
    let after := clientRun plainCid migratingClient [.begin 5 9 0,
      .accept (plainCid (Vector.replicate 32 2) 7 1) 8 (.abort 1 0) udpClientPathValidationTimeout]
    (begun.candidate.map UdpClientCandidate.messageId) = some 9 ∧ after.candidate = none := by
  decide +kernel

end Qeli.Udp
