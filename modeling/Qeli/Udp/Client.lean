import Qeli.Udp.Table

/-!
# The client side of path migration

`UdpClientRoaming` of `transport_core/udp_roaming_client.rs`: one candidate at a
time, challenged, answered and committed, each transition under the candidate's
own message id and CIDs. `ClientOp` collects its methods and `clientApply` runs
one; `ClientMove` lists what a method can do to the state, after which checks, and
which control it hands to the socket. Times are nanoseconds.
-/

namespace Qeli.Udp

open Qeli.Lib Qeli.Wire

def udpClientPathValidationTimeout : Nat := udpRoamingCandidateTtl

def udpClientPathRetryInterval : Nat := 500 * 10 ^ 6

def udpClientPathMaxTransmissions : Nat := 4

inductive UdpClientRoamingError where
  | invalidSession
  | invalidCandidate
  | candidateBusy
  | staleCandidate
  | generationExhausted
  | staleControl
  | invalidControl
  | candidateExpired
  | retryLimit
  deriving DecidableEq, Repr

/-- A control to send on the candidate path. -/
structure UdpClientPathTransmit where
  candidateId : Nat
  destinationCid : UdpCid
  messageId : Nat
  control : PathControl
  deriving DecidableEq

structure UdpClientPathCommit where
  candidateId : Nat
  epoch : Nat
  transmitCid : UdpCid
  receiveCid : UdpCid
  deriving DecidableEq

inductive UdpClientPathAction where
  | transmit (transmit : UdpClientPathTransmit)
  | commitReady (commit : UdpClientPathCommit)
  | peerAbort (candidateId code : Nat)
  deriving DecidableEq

inductive UdpClientCandidatePhase where
  | waitingChallenge
  | waitingCommit (token : PathToken)
  | commitReady
  deriving DecidableEq

structure UdpClientCandidate where
  candidateId : Nat
  messageId : Nat
  epoch : Nat
  transmitCid : UdpCid
  receiveCid : UdpCid
  phase : UdpClientCandidatePhase
  createdAt : Nat
  lastSentAt : Nat
  transmissions : Nat
  deriving DecidableEq

namespace UdpClientCandidate

def initTransmit (self : UdpClientCandidate) : UdpClientPathTransmit :=
  ⟨self.candidateId, self.transmitCid, self.messageId, .init self.receiveCid self.epoch⟩

def responseTransmit (self : UdpClientCandidate) (token : PathToken) : UdpClientPathTransmit :=
  ⟨self.candidateId, self.transmitCid, self.messageId, .response self.epoch token⟩

def commit (self : UdpClientCandidate) : UdpClientPathCommit :=
  ⟨self.candidateId, self.epoch, self.transmitCid, self.receiveCid⟩

def expired (self : UdpClientCandidate) (now : Nat) : Bool :=
  udpClientPathValidationTimeout ≤ now - self.createdAt

def noteTransmit (self : UdpClientCandidate) (now : Nat) :
    Except UdpClientRoamingError UdpClientCandidate :=
  if udpClientPathMaxTransmissions ≤ self.transmissions then .error .retryLimit
  else .ok { self with transmissions := saturatingAdd 255 self.transmissions 1, lastSentAt := now }

end UdpClientCandidate

structure UdpClientRoaming where
  sessionId : Nat
  clientToServerCidSecret : Bytes 32
  serverToClientCidSecret : Bytes 32
  activeEpoch : Nat
  activeTransmitCid : UdpCid
  activeReceiveCid : UdpCid
  candidate : Option UdpClientCandidate
  deriving DecidableEq

namespace UdpClientRoaming

def new (deriveUdpCid : DeriveUdpCid) (sessionId : Nat)
    (clientToServerCidSecret serverToClientCidSecret : Bytes 32) :
    Except UdpClientRoamingError UdpClientRoaming :=
  if sessionId = 0 then .error .invalidSession
  else .ok
    { sessionId
      clientToServerCidSecret
      serverToClientCidSecret
      activeEpoch := 0
      activeTransmitCid := deriveUdpCid clientToServerCidSecret sessionId 0
      activeReceiveCid := deriveUdpCid serverToClientCidSecret sessionId 0
      candidate := none }

def beginCandidate (deriveUdpCid : DeriveUdpCid) (self : UdpClientRoaming)
    (candidateId messageId now : Nat) :
    UdpClientRoaming × Except UdpClientRoamingError UdpClientPathTransmit :=
  if candidateId = 0 then (self, .error .invalidCandidate)
  else if self.candidate.isSome then (self, .error .candidateBusy)
  else
    match checkedAdd u64Max self.activeEpoch 1 with
    | none => (self, .error .generationExhausted)
    | some epoch =>
      let candidate : UdpClientCandidate :=
        { candidateId
          messageId
          epoch
          transmitCid := deriveUdpCid self.clientToServerCidSecret self.sessionId epoch
          receiveCid := deriveUdpCid self.serverToClientCidSecret self.sessionId epoch
          phase := .waitingChallenge
          createdAt := now
          lastSentAt := now
          transmissions := 1 }
      ({ self with candidate := some candidate }, .ok candidate.initTransmit)

/-- The token to answer a challenge with: the first one received. -/
def responseToken (phase : UdpClientCandidatePhase) (token : PathToken) : Option PathToken :=
  match phase with
  | .waitingChallenge => some token
  | .waitingCommit expected => if expected = token then some expected else none
  | .commitReady => none

def acceptAuthenticatedControl (self : UdpClientRoaming) (destinationCid : UdpCid)
    (messageId : Nat) (control : PathControl) (now : Nat) :
    UdpClientRoaming × Except UdpClientRoamingError UdpClientPathAction :=
  match self.candidate with
  | none => (self, .error .staleCandidate)
  | some candidate =>
    if candidate.expired now then ({ self with candidate := none }, .error .candidateExpired)
    else if destinationCid ≠ candidate.receiveCid ∨ messageId ≠ candidate.messageId then
      (self, .error .staleControl)
    else
      match control with
      | .challenge epoch token =>
        if epoch ≠ candidate.epoch ∨ token.all (· == 0) then (self, .error .invalidControl)
        else
          match responseToken candidate.phase token with
          | none => (self, .error .staleControl)
          | some responseToken =>
            match candidate.noteTransmit now with
            | .error error => (self, .error error)
            | .ok noted =>
              let candidate := { noted with phase := .waitingCommit responseToken }
              ({ self with candidate := some candidate },
                .ok (.transmit (candidate.responseTransmit responseToken)))
      | .commit cid epoch =>
        if epoch ≠ candidate.epoch ∨ cid ≠ candidate.transmitCid then
          (self, .error .invalidControl)
        else
          match candidate.phase with
          | .waitingChallenge => (self, .error .staleControl)
          | .waitingCommit _ | .commitReady =>
            let candidate := { candidate with phase := .commitReady }
            ({ self with candidate := some candidate }, .ok (.commitReady candidate.commit))
      | .abort epoch code =>
        if epoch ≠ candidate.epoch then (self, .error .staleControl)
        else ({ self with candidate := none }, .ok (.peerAbort candidate.candidateId code))
      | .init _ _ | .response _ _ => (self, .error .invalidControl)

/-- The control to repeat in a phase. -/
def retransmission (candidate : UdpClientCandidate) : Option UdpClientPathTransmit :=
  match candidate.phase with
  | .waitingChallenge => some candidate.initTransmit
  | .waitingCommit token => some (candidate.responseTransmit token)
  | .commitReady => none

def retransmitDue (self : UdpClientRoaming) (now : Nat) :
    UdpClientRoaming × Except UdpClientRoamingError (Option UdpClientPathTransmit) :=
  match self.candidate with
  | none => (self, .ok none)
  | some candidate =>
    if candidate.expired now then ({ self with candidate := none }, .error .candidateExpired)
    else if now - candidate.lastSentAt < udpClientPathRetryInterval then (self, .ok none)
    else
      match retransmission candidate with
      | none => (self, .ok none)
      | some transmit =>
        match candidate.noteTransmit now with
        | .error error => ({ self with candidate := none }, .error error)
        | .ok candidate => ({ self with candidate := some candidate }, .ok (some transmit))

def commitCandidate (self : UdpClientRoaming) (commit : UdpClientPathCommit) :
    UdpClientRoaming × Except UdpClientRoamingError Unit :=
  match self.candidate with
  | none => (self, .error .staleCandidate)
  | some candidate =>
    if candidate.phase ≠ .commitReady ∨ candidate.commit ≠ commit then
      (self, .error .staleCandidate)
    else
      ({ self with
          activeEpoch := commit.epoch
          activeTransmitCid := commit.transmitCid
          activeReceiveCid := commit.receiveCid
          candidate := none }, .ok ())

def abortCandidate (self : UdpClientRoaming) (candidateId : Nat) : UdpClientRoaming × Bool :=
  if self.candidate.any fun candidate => candidate.candidateId = candidateId then
    ({ self with candidate := none }, true)
  else (self, false)

end UdpClientRoaming

/-! ## What a method can do -/

inductive ClientOp where
  | begin (candidateId messageId now : Nat)
  | accept (destinationCid : UdpCid) (messageId : Nat) (control : PathControl) (now : Nat)
  | retransmit (now : Nat)
  | commit (commit : UdpClientPathCommit)
  | abort (candidateId : Nat)
  deriving DecidableEq

/-- The new state and the control to send. -/
def clientApply (deriveUdpCid : DeriveUdpCid) (self : UdpClientRoaming) :
    ClientOp → UdpClientRoaming × Option UdpClientPathTransmit
  | .begin candidateId messageId now =>
    let (self, result) := self.beginCandidate deriveUdpCid candidateId messageId now
    (self, result.toOption)
  | .accept destinationCid messageId control now =>
    let (self, result) := self.acceptAuthenticatedControl destinationCid messageId control now
    (self, match result with
      | .ok (.transmit transmit) => some transmit
      | _ => none)
  | .retransmit now =>
    let (self, result) := self.retransmitDue now
    (self, result.toOption.join)
  | .commit commit => ((self.commitCandidate commit).1, none)
  | .abort candidateId => ((self.abortCandidate candidateId).1, none)

/-- A control is accepted when an action follows from it. -/
def UdpClientRoaming.Accepts (c : UdpClientRoaming) (destinationCid : UdpCid) (messageId : Nat)
    (control : PathControl) (now : Nat) : Prop :=
  ∃ action, (c.acceptAuthenticatedControl destinationCid messageId control now).2 = .ok action

/-- What a method does, with what it checks first. -/
inductive ClientMove (deriveUdpCid : DeriveUdpCid) (c : UdpClientRoaming) :
    ClientOp → UdpClientRoaming → Option UdpClientPathTransmit → Prop where
  | idle (op : ClientOp) : ClientMove deriveUdpCid c op c none
  | dropped (op : ClientOp) : ClientMove deriveUdpCid c op { c with candidate := none } none
  | begun {candidateId messageId now : Nat} {k : UdpClientCandidate} : c.candidate = none →
      c.activeEpoch + 1 ≤ u64Max →
      k = ⟨candidateId, messageId, c.activeEpoch + 1,
        deriveUdpCid c.clientToServerCidSecret c.sessionId (c.activeEpoch + 1),
        deriveUdpCid c.serverToClientCidSecret c.sessionId (c.activeEpoch + 1),
        .waitingChallenge, now, now, 1⟩ →
      ClientMove deriveUdpCid c (.begin candidateId messageId now)
        { c with candidate := some k } (some k.initTransmit)
  | challenged {k : UdpClientCandidate} {token : PathToken} {now : Nat} : c.candidate = some k →
      token.all (· == 0) = false → k.transmissions < udpClientPathMaxTransmissions →
      c.Accepts k.receiveCid k.messageId (.challenge k.epoch token) now →
      ClientMove deriveUdpCid c (.accept k.receiveCid k.messageId (.challenge k.epoch token) now)
        { c with candidate := some { k with
            phase := .waitingCommit token
            transmissions := k.transmissions + 1
            lastSentAt := now } }
        (some (k.responseTransmit token))
  | repeated {k : UdpClientCandidate} {now : Nat} {x : UdpClientPathTransmit} :
      c.candidate = some k → k.phase ≠ .commitReady →
      k.transmissions < udpClientPathMaxTransmissions →
      (x = k.initTransmit ∨ ∃ token, x = k.responseTransmit token) →
      ClientMove deriveUdpCid c (.retransmit now)
        { c with candidate := some { k with
            transmissions := k.transmissions + 1
            lastSentAt := now } }
        (some x)
  | ready {k : UdpClientCandidate} {now : Nat} : c.candidate = some k →
      k.phase ≠ .waitingChallenge →
      c.Accepts k.receiveCid k.messageId (.commit k.transmitCid k.epoch) now →
      ClientMove deriveUdpCid c
        (.accept k.receiveCid k.messageId (.commit k.transmitCid k.epoch) now)
        { c with candidate := some { k with phase := .commitReady } } none
  | committed {k : UdpClientCandidate} : c.candidate = some k → k.phase = .commitReady →
      ClientMove deriveUdpCid c (.commit k.commit)
        { c with
          activeEpoch := k.epoch
          activeTransmitCid := k.transmitCid
          activeReceiveCid := k.receiveCid
          candidate := none } none

section Moves

variable {deriveUdpCid : DeriveUdpCid} {c : UdpClientRoaming}

theorem noteTransmit_cases (k : UdpClientCandidate) (now : Nat) :
    k.noteTransmit now = .error .retryLimit ∨
      k.transmissions < udpClientPathMaxTransmissions ∧
        k.noteTransmit now =
          .ok { k with transmissions := k.transmissions + 1, lastSentAt := now } := by
  unfold UdpClientCandidate.noteTransmit
  split
  · exact .inl rfl
  · next hbelow =>
    have hlt : k.transmissions < udpClientPathMaxTransmissions := Nat.lt_of_not_le hbelow
    refine .inr ⟨hlt, ?_⟩
    unfold udpClientPathMaxTransmissions at hlt
    rw [saturatingAdd_eq (by omega)]

theorem responseToken_eq_some {phase : UdpClientCandidatePhase} {token answer : PathToken}
    (h : UdpClientRoaming.responseToken phase token = some answer) : answer = token := by
  unfold UdpClientRoaming.responseToken at h
  split at h
  · cases h
    rfl
  · next expected =>
    split at h
    · next heq =>
      cases h
      exact heq
    · cases h
  · cases h

theorem begin_move (candidateId messageId now : Nat) :
    ClientMove deriveUdpCid c (.begin candidateId messageId now)
      (clientApply deriveUdpCid c (.begin candidateId messageId now)).1
      (clientApply deriveUdpCid c (.begin candidateId messageId now)).2 := by
  unfold clientApply UdpClientRoaming.beginCandidate
  dsimp only
  split_ifs with h0 hbusy
  · exact .idle _
  · exact .idle _
  · cases hadd : checkedAdd u64Max c.activeEpoch 1 with
    | none => exact .idle _
    | some epoch =>
      obtain ⟨hle, rfl⟩ := checkedAdd_eq_some.mp hadd
      exact .begun (by simpa using hbusy) hle rfl

theorem accept_move (cid : UdpCid) (messageId : Nat) (control : PathControl) (now : Nat) :
    ClientMove deriveUdpCid c (.accept cid messageId control now)
      (clientApply deriveUdpCid c (.accept cid messageId control now)).1
      (clientApply deriveUdpCid c (.accept cid messageId control now)).2 := by
  dsimp only [clientApply]
  generalize hresult : c.acceptAuthenticatedControl cid messageId control now = result
  have haccepts : ∀ action, result.2 = .ok action → c.Accepts cid messageId control now :=
    fun action haction => ⟨action, by rw [hresult, haction]⟩
  unfold UdpClientRoaming.acceptAuthenticatedControl at hresult
  cases hk : c.candidate with
  | none =>
    rw [hk] at hresult
    subst hresult
    exact .idle _
  | some k =>
    rw [hk] at hresult
    dsimp only at hresult
    split_ifs at hresult with hexp hstale
    · subst hresult
      exact .dropped _
    · subst hresult
      exact .idle _
    · rw [not_or, not_not, not_not] at hstale
      obtain ⟨rfl, rfl⟩ := hstale
      cases control with
      | init | response =>
        subst hresult
        exact .idle _
      | abort epoch code =>
        dsimp only at hresult
        split_ifs at hresult
        · subst hresult
          exact .idle _
        · subst hresult
          exact .dropped _
      | challenge epoch token =>
        dsimp only at hresult
        split_ifs at hresult with hbad
        · subst hresult
          exact .idle _
        · rw [not_or, not_not, Bool.not_eq_true] at hbad
          obtain ⟨rfl, htoken⟩ := hbad
          cases hanswer : UdpClientRoaming.responseToken k.phase token with
          | none =>
            rw [hanswer] at hresult
            subst hresult
            exact .idle _
          | some answer =>
            rw [hanswer, responseToken_eq_some hanswer] at hresult
            rcases noteTransmit_cases k now with hlimit | ⟨hbelow, hnoted⟩
            · rw [hlimit] at hresult
              subst hresult
              exact .idle _
            · rw [hnoted] at hresult
              subst hresult
              exact .challenged hk htoken hbelow (haccepts _ rfl)
      | commit cid' epoch =>
        dsimp only at hresult
        split_ifs at hresult with hbad
        · subst hresult
          exact .idle _
        · rw [not_or, not_not, not_not] at hbad
          obtain ⟨rfl, rfl⟩ := hbad
          cases hphase : k.phase with
          | waitingChallenge =>
            rw [hphase] at hresult
            subst hresult
            exact .idle _
          | waitingCommit | commitReady =>
            rw [hphase] at hresult
            subst hresult
            exact .ready hk (by rw [hphase]; simp) (haccepts _ rfl)

theorem retransmit_move (now : Nat) :
    ClientMove deriveUdpCid c (.retransmit now) (clientApply deriveUdpCid c (.retransmit now)).1
      (clientApply deriveUdpCid c (.retransmit now)).2 := by
  unfold clientApply UdpClientRoaming.retransmitDue
  dsimp only
  cases hk : c.candidate with
  | none => exact .idle _
  | some k =>
    dsimp only
    split_ifs with hexp hsoon
    · exact .dropped _
    · exact .idle _
    · cases hx : UdpClientRoaming.retransmission k with
      | none => exact .idle _
      | some x =>
        obtain ⟨hphase, hkind⟩ : k.phase ≠ .commitReady ∧
            (x = k.initTransmit ∨ ∃ token, x = k.responseTransmit token) := by
          unfold UdpClientRoaming.retransmission at hx
          split at hx
          · next hp =>
            cases hx
            exact ⟨by rw [hp]; simp, .inl rfl⟩
          · next token hp =>
            cases hx
            exact ⟨by rw [hp]; simp, .inr ⟨token, rfl⟩⟩
          · cases hx
        rcases noteTransmit_cases k now with hlimit | ⟨hbelow, hnoted⟩
        · rw [hlimit]
          exact .dropped _
        · rw [hnoted]
          exact .repeated hk hphase hbelow hkind

theorem commitCandidate_ok {commit : UdpClientPathCommit} {c' : UdpClientRoaming} :
    c.commitCandidate commit = (c', .ok ()) ↔ ∃ k, c.candidate = some k ∧ k.phase = .commitReady ∧
      commit = k.commit ∧ c' = { c with
        activeEpoch := k.epoch
        activeTransmitCid := k.transmitCid
        activeReceiveCid := k.receiveCid
        candidate := none } := by
  unfold UdpClientRoaming.commitCandidate
  constructor
  · intro h
    split at h
    · cases h
    · next k hk =>
      split_ifs at h with hbad
      · cases h
      · rw [not_or, not_not, not_not] at hbad
        obtain ⟨hp, rfl⟩ := hbad
        cases h
        exact ⟨k, hk, hp, rfl, rfl⟩
  · rintro ⟨k, hk, hp, rfl, rfl⟩
    simp [hk, hp, UdpClientCandidate.commit]

theorem commit_client_move (commit : UdpClientPathCommit) :
    ClientMove deriveUdpCid c (.commit commit) (clientApply deriveUdpCid c (.commit commit)).1
      (clientApply deriveUdpCid c (.commit commit)).2 := by
  show ClientMove deriveUdpCid c (.commit commit) (c.commitCandidate commit).1 none
  rcases hx : c.commitCandidate commit with ⟨c', result⟩
  cases result with
  | ok =>
    obtain ⟨k, hk, hp, rfl, rfl⟩ := commitCandidate_ok.mp hx
    exact .committed hk hp
  | error e =>
    have : c' = c := by
      unfold UdpClientRoaming.commitCandidate at hx
      split at hx
      · cases hx; rfl
      · split_ifs at hx <;> cases hx
        rfl
    rw [this]
    exact .idle _

/-- **Every method makes one of the listed moves.** -/
theorem client_move (deriveUdpCid : DeriveUdpCid) (c : UdpClientRoaming) (op : ClientOp) :
    ClientMove deriveUdpCid c op (clientApply deriveUdpCid c op).1
      (clientApply deriveUdpCid c op).2 := by
  cases op with
  | begin candidateId messageId now => exact begin_move candidateId messageId now
  | accept cid messageId control now => exact accept_move cid messageId control now
  | retransmit now => exact retransmit_move now
  | commit commit => exact commit_client_move commit
  | abort candidateId =>
    unfold clientApply UdpClientRoaming.abortCandidate
    dsimp only
    split_ifs
    · exact .dropped _
    · exact .idle _

end Moves

/-- What a candidate keeps for its life. -/
def UdpClientCandidate.identity (k : UdpClientCandidate) : Nat × Nat × Nat × UdpCid × UdpCid :=
  (k.candidateId, k.messageId, k.epoch, k.transmitCid, k.receiveCid)

end Qeli.Udp
