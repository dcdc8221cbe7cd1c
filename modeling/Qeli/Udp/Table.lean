import Qeli.Lib.KeyMap
import Qeli.Wire.Roaming

/-!
# The UDP roaming table

`transport_core/udp_roaming.rs`: one profile's sessions, their CID aliases and
path candidates. The CID derivation is a parameter, so CIDs may collide. Every
method takes the table and returns it, also when it fails. The clock the source
reads inside `authorize_candidate_send` and the commit is an argument here;
`publish` runs against a world of its own, so that a call which never reaches it
leaves that world alone.

`usize` is 64 bits wide: `u64::try_from` on it never fails and is left out.
-/

namespace Qeli.Udp

open Qeli.Lib Qeli.Wire

def antiAmplificationFactor : Nat := 3

def maxCandidateAccountedBytes : Nat := 1024 * 1024

def maxUdpRoamingCandidatesPerProfile : Nat := 1024

/-- Ten seconds, in nanoseconds. -/
def udpRoamingCandidateTtl : Nat := 10 * 10 ^ 9

def udpRoamingCandidateRateWindow : Nat := 10 ^ 9

def maxUdpRoamingCandidateStartsPerWindow : Nat := 64

structure SocketAddr where
  ip : Nat
  port : Nat
  deriving DecidableEq, Repr

structure UdpPath where
  workerId : Nat
  peer : SocketAddr
  deriving DecidableEq, Repr

structure CidLookup where
  sessionId : Nat
  sessionGeneration : Nat
  ownerWorkerId : Nat
  pathEpoch : Nat
  deriving DecidableEq, Repr

structure CandidateTicket where
  sessionId : Nat
  sessionGeneration : Nat
  candidateId : Nat
  pathEpoch : Nat
  deriving DecidableEq, Repr

structure CandidateChallenge where
  ticket : CandidateTicket
  token : PathToken
  deriving DecidableEq

structure PmtuTicket where
  sessionId : Nat
  sessionGeneration : Nat
  pathEpoch : Nat
  pmtuGeneration : Nat
  path : UdpPath
  deriving DecidableEq, Repr

structure InitialCids where
  receive : UdpCid
  transmit : UdpCid
  pmtu : PmtuTicket
  deriving DecidableEq

structure CommitOutcome where
  oldPath : UdpPath
  newPath : UdpPath
  pathEpoch : Nat
  receiveCid : UdpCid
  transmitCid : UdpCid
  pmtu : PmtuTicket
  deriving DecidableEq

structure CommitDecision where
  outcome : CommitOutcome
  replayed : Bool
  deriving DecidableEq

inductive UdpRoamingError where
  | invalidSession | sessionExists | sessionLimit | staleSession | cidCollision | invalidCid
  | staleEpoch | candidateBusy | candidateLimit | candidateRateLimited | staleCandidate
  | invalidResponse | amplificationLimit | generationExhausted | stalePmtu
  deriving DecidableEq, Repr

inductive UdpRoamingCommitError (ε : Type*) where
  | state (error : UdpRoamingError)
  | publish (error : ε)
  deriving DecidableEq

structure CidOwner where
  sessionId : Nat
  sessionGeneration : Nat
  pathEpoch : Nat
  deriving DecidableEq, Repr

structure ActivePath where
  path : UdpPath
  epoch : Nat
  receiveCid : UdpCid
  transmitCid : UdpCid
  payloadBudget : Nat
  pmtuGeneration : Nat
  deriving DecidableEq

structure CandidatePath where
  ticket : CandidateTicket
  path : UdpPath
  challenge : PathToken
  createdAt : Nat
  receivedBytes : Nat
  sentBytes : Nat
  deriving DecidableEq

structure CommittedPath where
  ticket : CandidateTicket
  path : UdpPath
  challenge : PathToken
  outcome : CommitOutcome
  deriving DecidableEq

structure UdpSession where
  generation : Nat
  ownerWorkerId : Nat
  clientToServerCidSecret : Bytes 32
  serverToClientCidSecret : Bytes 32
  aliases : List (UdpCid × Nat)
  active : ActivePath
  candidate : Option CandidatePath
  lastCommit : Option CommittedPath
  deriving DecidableEq

structure UdpRoamingTable where
  maxSessions : Nat
  maxCandidates : Nat
  candidateTtl : Nat
  candidateRateWindow : Nat
  maxCandidateStartsPerWindow : Nat
  candidateStarts : List Nat
  candidateCount : Nat
  attemptsTotal : Nat
  commitsTotal : Nat
  failuresTotal : Nat
  nextSessionGeneration : Nat
  nextCandidateId : Nat
  cidIndex : KeyMap UdpCid CidOwner
  sessions : KeyMap Nat UdpSession

abbrev DeriveUdpCid := Bytes 32 → Nat → Nat → UdpCid

/-- `now.checked_duration_since(since)` is at least `span`. -/
def elapsed (now since span : Nat) : Bool := since ≤ now && span ≤ now - since

/-! ## CID aliases -/

/-- The epochs around the active one, as far as they exist. -/
def aliasEpochs (activeEpoch : Nat) : List Nat :=
  (if activeEpoch = 0 then [] else [activeEpoch - 1]) ++ activeEpoch ::
    (checkedAdd u64Max activeEpoch 1).toList

/-- The loop of `derive_aliases` over the epochs still to come. -/
def collectAliases (deriveUdpCid : DeriveUdpCid) (cidSecret : Bytes 32) (sessionId : Nat) :
    List (UdpCid × Nat) → List Nat → Except UdpRoamingError (List (UdpCid × Nat))
  | aliases, [] => .ok aliases
  | aliases, epoch :: epochs =>
    let cid := deriveUdpCid cidSecret sessionId epoch
    if aliases.any fun existing => existing.1 == cid then .error .cidCollision
    else collectAliases deriveUdpCid cidSecret sessionId (aliases ++ [(cid, epoch)]) epochs

def deriveAliases (deriveUdpCid : DeriveUdpCid) (cidSecret : Bytes 32) (sessionId activeEpoch : Nat) :
    Except UdpRoamingError (List (UdpCid × Nat)) :=
  collectAliases deriveUdpCid cidSecret sessionId [] (aliasEpochs activeEpoch)

def CidOwner.ofSession (owner : CidOwner) (sessionId generation : Nat) : Bool :=
  owner.sessionId == sessionId && owner.sessionGeneration == generation

/-- The loop that takes a session's aliases out of the index, except those wanted. -/
def dropAliases (index : KeyMap UdpCid CidOwner) (sessionId generation : Nat)
    (aliases wanted : List (UdpCid × Nat)) : KeyMap UdpCid CidOwner :=
  aliases.foldl (fun index entry =>
    if (!wanted.any fun other => other.1 == entry.1) &&
        (index.get? entry.1).any fun owner => owner.ofSession sessionId generation then
      index.erase entry.1
    else index) index

def insertAliases (index : KeyMap UdpCid CidOwner) (sessionId generation : Nat)
    (aliases : List (UdpCid × Nat)) : KeyMap UdpCid CidOwner :=
  aliases.foldl (fun index entry => index.insert entry.1 ⟨sessionId, generation, entry.2⟩) index

namespace UdpRoamingTable

def withCandidatePolicy (maxSessions maxCandidates candidateTtl candidateRateWindow
    maxCandidateStartsPerWindow : Nat) : UdpRoamingTable where
  maxSessions
  maxCandidates
  candidateTtl
  candidateRateWindow
  maxCandidateStartsPerWindow
  candidateStarts := []
  candidateCount := 0
  attemptsTotal := 0
  commitsTotal := 0
  failuresTotal := 0
  nextSessionGeneration := 1
  nextCandidateId := 1
  cidIndex := ∅
  sessions := ∅

def new (maxSessions : Nat) : UdpRoamingTable :=
  withCandidatePolicy maxSessions (min maxSessions maxUdpRoamingCandidatesPerProfile)
    udpRoamingCandidateTtl udpRoamingCandidateRateWindow maxUdpRoamingCandidateStartsPerWindow

def lookup (self : UdpRoamingTable) (cid : UdpCid) : Option CidLookup :=
  (self.cidIndex.get? cid).bind fun owner =>
    (self.sessions.get? owner.sessionId).map fun session =>
      ⟨owner.sessionId, owner.sessionGeneration, session.ownerWorkerId, owner.pathEpoch⟩

/-! ## Allocation and expiry -/

def allocateSessionGeneration (self : UdpRoamingTable) :
    Except UdpRoamingError (UdpRoamingTable × Nat) :=
  match checkedAdd u64Max self.nextSessionGeneration 1 with
  | some next => .ok ({ self with nextSessionGeneration := next }, self.nextSessionGeneration)
  | none => .error .generationExhausted

def allocateCandidateId (self : UdpRoamingTable) : Except UdpRoamingError (UdpRoamingTable × Nat) :=
  match checkedAdd u64Max self.nextCandidateId 1 with
  | some next => .ok ({ self with nextCandidateId := next }, self.nextCandidateId)
  | none => .error .generationExhausted

def setSession (self : UdpRoamingTable) (sessionId : Nat) (session : UdpSession) :
    UdpRoamingTable :=
  { self with sessions := self.sessions.insert sessionId session }

/-- A candidate ends without a commit. -/
def failCandidate (self : UdpRoamingTable) (sessionId : Nat) (session : UdpSession) :
    UdpRoamingTable :=
  { self.setSession sessionId { session with candidate := none } with
    candidateCount := self.candidateCount - 1
    failuresTotal := saturatingAdd u64Max self.failuresTotal 1 }

def expireCandidateForSessionAt (self : UdpRoamingTable) (sessionId now : Nat) :
    UdpRoamingTable × Option CandidateTicket :=
  match self.sessions.get? sessionId with
  | none => (self, none)
  | some session =>
    match session.candidate with
    | none => (self, none)
    | some candidate =>
      if elapsed now candidate.createdAt self.candidateTtl then
        (self.failCandidate sessionId session, some candidate.ticket)
      else (self, none)

def pruneCandidateStarts (self : UdpRoamingTable) (now : Nat) : UdpRoamingTable :=
  { self with
    candidateStarts := self.candidateStarts.dropWhile fun startedAt =>
      elapsed now startedAt self.candidateRateWindow }

def expiredSessions (self : UdpRoamingTable) (now : Nat) : List Nat :=
  self.sessions.toPairs.filterMap fun entry =>
    entry.2.candidate.bind fun candidate =>
      if elapsed now candidate.createdAt self.candidateTtl then some entry.1 else none

def expireSessions (self : UdpRoamingTable) (now : Nat) :
    List Nat → UdpRoamingTable × List CandidateTicket
  | [] => (self, [])
  | sessionId :: rest =>
    let (self, ticket) := self.expireCandidateForSessionAt sessionId now
    let (self, expired) := self.expireSessions now rest
    (self, ticket.toList ++ expired)

def expireCandidatesAt (self : UdpRoamingTable) (now : Nat) :
    UdpRoamingTable × List CandidateTicket :=
  let (self, expired) := self.expireSessions now (self.expiredSessions now)
  (self.pruneCandidateStarts now, expired)

def ensureAliasesAvailable (self : UdpRoamingTable) (sessionId generation : Nat)
    (aliases : List (UdpCid × Nat)) : Except UdpRoamingError Unit :=
  if aliases.any fun entry => (self.cidIndex.get? entry.1).any fun owner =>
      !owner.ofSession sessionId generation || owner.pathEpoch != entry.2 then
    .error .cidCollision
  else .ok ()

/-! ## Sessions and candidates -/

def registerSession (deriveUdpCid : DeriveUdpCid) (self : UdpRoamingTable) (sessionId : Nat)
    (clientToServerCidSecret serverToClientCidSecret : Bytes 32) (activePath : UdpPath)
    (safePayloadBudget : Nat) : UdpRoamingTable × Except UdpRoamingError InitialCids :=
  if sessionId = 0 ∨ safePayloadBudget = 0 then (self, .error .invalidSession)
  else if self.sessions.contains sessionId then (self, .error .sessionExists)
  else if self.maxSessions ≤ self.sessions.size then (self, .error .sessionLimit)
  else
    match self.allocateSessionGeneration with
    | .error error => (self, .error error)
    | .ok (self, generation) =>
      -- from here on an error has used up the generation
      match deriveAliases deriveUdpCid clientToServerCidSecret sessionId 0 with
      | .error error => (self, .error error)
      | .ok aliases =>
        match self.ensureAliasesAvailable sessionId generation aliases with
        | .error error => (self, .error error)
        | .ok () =>
          let receiveCid := (aliases.head?.map Prod.fst).getD (.replicate 8 0)
          let transmitCid := deriveUdpCid serverToClientCidSecret sessionId 0
          ({ self with
              cidIndex := insertAliases self.cidIndex sessionId generation aliases
              sessions := self.sessions.insert sessionId {
                generation
                ownerWorkerId := activePath.workerId
                clientToServerCidSecret
                serverToClientCidSecret
                aliases
                active := ⟨activePath, 0, receiveCid, transmitCid, safePayloadBudget, 0⟩
                candidate := none
                lastCommit := none } },
            .ok ⟨receiveCid, transmitCid, ⟨sessionId, generation, 0, 0, activePath⟩⟩)

end UdpRoamingTable

/-- Authenticated bytes received from a candidate, up to the accounting cap. -/
def CandidatePath.credit (candidate : CandidatePath) (bytes : Nat) : CandidatePath :=
  { candidate with
    receivedBytes :=
      min (saturatingAdd u64Max candidate.receivedBytes bytes) maxCandidateAccountedBytes }

namespace UdpRoamingTable

/-- The second half of `observe_authenticated_candidate_at`: the session has no
candidate yet. -/
def startCandidate (self : UdpRoamingTable) (lookup : CidLookup) (path : UdpPath)
    (receivedBytes : Nat) (challenge : PathToken) (now : Nat) :
    UdpRoamingTable × Except UdpRoamingError CandidateChallenge :=
  if challenge.toList.all (· == 0) then (self, .error .invalidResponse)
  else
    let self := if self.maxCandidates ≤ self.candidateCount then (self.expireCandidatesAt now).1
      else self
    if self.maxCandidates ≤ self.candidateCount then (self, .error .candidateLimit)
    else
      let self := self.pruneCandidateStarts now
      if self.maxCandidateStartsPerWindow ≤ self.candidateStarts.length then
        (self, .error .candidateRateLimited)
      else
        match self.allocateCandidateId with
        | .error error => (self, .error error)
        | .ok (self, candidateId) =>
          let ticket := ⟨lookup.sessionId, lookup.sessionGeneration, candidateId, lookup.pathEpoch⟩
          ({ self with
              sessions := self.sessions.modify lookup.sessionId fun session =>
                { session with candidate := some ⟨ticket, path, challenge, now, receivedBytes, 0⟩ }
              candidateCount := self.candidateCount + 1
              candidateStarts := self.candidateStarts ++ [now]
              attemptsTotal := saturatingAdd u64Max self.attemptsTotal 1 },
            .ok ⟨ticket, challenge⟩)

def observeAuthenticatedCandidateAt (deriveUdpCid : DeriveUdpCid) (self : UdpRoamingTable)
    (lookup : CidLookup) (path : UdpPath) (initTransmitCid : UdpCid) (initEpoch : Nat)
    (receivedBytes : Nat) (challenge : PathToken) (now : Nat) :
    UdpRoamingTable × Except UdpRoamingError CandidateChallenge :=
  if receivedBytes = 0 then (self, .error .invalidResponse)
  else
    let self := (self.expireCandidateForSessionAt lookup.sessionId now).1
    let receivedBytes := min receivedBytes maxCandidateAccountedBytes
    match self.sessions.get? lookup.sessionId with
    | none => (self, .error .staleSession)
    | some session =>
      if session.generation ≠ lookup.sessionGeneration then (self, .error .staleSession)
      else
        match checkedAdd u64Max session.active.epoch 1 with
        | none => (self, .error .generationExhausted)
        | some expected =>
          if lookup.pathEpoch ≠ expected ∨ initEpoch ≠ expected ∨ path = session.active.path then
            (self, .error .staleEpoch)
          else if initTransmitCid ≠
              deriveUdpCid session.serverToClientCidSecret lookup.sessionId expected then
            (self, .error .invalidCid)
          else
            match session.candidate with
            | some candidate =>
              if candidate.ticket.pathEpoch ≠ lookup.pathEpoch ∨ candidate.path ≠ path then
                (self, .error .candidateBusy)
              else
                (self.setSession lookup.sessionId
                    { session with candidate := some (candidate.credit receivedBytes) },
                  .ok ⟨candidate.ticket, candidate.challenge⟩)
            | none => self.startCandidate lookup path receivedBytes challenge now

/-- `candidate_mut`: the candidate a ticket names, with its session. -/
def candidateMut (self : UdpRoamingTable) (ticket : CandidateTicket) :
    Except UdpRoamingError (UdpSession × CandidatePath) :=
  match self.sessions.get? ticket.sessionId with
  | none => .error .staleCandidate
  | some session =>
    if session.generation ≠ ticket.sessionGeneration then .error .staleCandidate
    else
      match session.candidate with
      | none => .error .staleCandidate
      | some candidate =>
        if candidate.ticket = ticket then .ok (session, candidate) else .error .staleCandidate

def authorizeCandidateSend (self : UdpRoamingTable) (ticket : CandidateTicket) (wireBytes now : Nat) :
    UdpRoamingTable × Except UdpRoamingError Unit :=
  let self := (self.expireCandidateForSessionAt ticket.sessionId now).1
  match self.candidateMut ticket with
  | .error error => (self, .error error)
  | .ok (session, candidate) =>
    let nextSent := saturatingAdd u64Max candidate.sentBytes wireBytes
    if min u64Max (candidate.receivedBytes * antiAmplificationFactor) < nextSent then
      (self, .error .amplificationLimit)
    else
      (self.setSession ticket.sessionId
          { session with candidate := some { candidate with sentBytes := nextSent } },
        .ok ())

def abortCandidate (self : UdpRoamingTable) (ticket : CandidateTicket) : UdpRoamingTable × Bool :=
  match self.candidateMut ticket with
  | .error _ => (self, false)
  | .ok (session, _) => (self.failCandidate ticket.sessionId session, true)

/-! ## Commit -/

def replayedCommit (self : UdpRoamingTable) (ticket : CandidateTicket) (path : UdpPath)
    (responseEpoch : Nat) (responseToken : PathToken) :
    Except UdpRoamingError (Option CommitDecision) :=
  match self.sessions.get? ticket.sessionId with
  | none => .error .staleCandidate
  | some session =>
    if session.generation ≠ ticket.sessionGeneration then .error .staleCandidate
    else
      match session.lastCommit with
      | none => .ok none
      | some committed =>
        if committed.ticket ≠ ticket then .ok none
        else if committed.path ≠ path then .error .staleCandidate
        else if responseEpoch ≠ ticket.pathEpoch ∨ responseToken ≠ committed.challenge then
          .error .invalidResponse
        else .ok (some ⟨committed.outcome, true⟩)

/-- What a commit publishes; the alias of the ticket's epoch is always present. -/
def commitOutcome (deriveUdpCid : DeriveUdpCid) (session : UdpSession) (ticket : CandidateTicket)
    (path : UdpPath) (aliases : List (UdpCid × Nat)) (pmtu : Nat) : CommitOutcome where
  oldPath := session.active.path
  newPath := path
  pathEpoch := ticket.pathEpoch
  receiveCid := (aliases.findSome? fun entry =>
    if entry.2 = ticket.pathEpoch then some entry.1 else none).getD (.replicate 8 0)
  transmitCid := deriveUdpCid session.serverToClientCidSecret ticket.sessionId ticket.pathEpoch
  pmtu := ⟨ticket.sessionId, session.generation, ticket.pathEpoch, pmtu, path⟩

/-- The registry after a published commit: the aliases rotate, the active path
moves, the candidate is gone. -/
def rotate (self : UdpRoamingTable) (session : UdpSession) (ticket : CandidateTicket)
    (challenge : PathToken) (aliases : List (UdpCid × Nat)) (outcome : CommitOutcome)
    (safePayloadBudget : Nat) : UdpRoamingTable :=
  { self with
    cidIndex := insertAliases
      (dropAliases self.cidIndex ticket.sessionId session.generation session.aliases aliases)
      ticket.sessionId session.generation aliases
    sessions := self.sessions.insert ticket.sessionId { session with
      aliases
      active := ⟨outcome.newPath, ticket.pathEpoch, outcome.receiveCid, outcome.transmitCid,
        safePayloadBudget, outcome.pmtu.pmtuGeneration⟩
      lastCommit := some ⟨ticket, outcome.newPath, challenge, outcome⟩
      candidate := none }
    candidateCount := self.candidateCount - if session.candidate.isSome then 1 else 0
    commitsTotal := saturatingAdd u64Max self.commitsTotal 1 }

variable {π ε : Type*}

/-- The second half of `validate_response_and_commit_with`: the response has
been accepted and credited to the candidate. -/
def commitCandidate (deriveUdpCid : DeriveUdpCid) (publish : CommitOutcome → π → π × Except ε Unit)
    (self : UdpRoamingTable) (world : π) (session : UdpSession) (ticket : CandidateTicket)
    (path : UdpPath) (challenge : PathToken) (safePayloadBudget : Nat) :
    UdpRoamingTable × π × Except (UdpRoamingCommitError ε) CommitDecision :=
  if session.generation ≠ ticket.sessionGeneration then
    (self, world, .error (.state .staleSession))
  else
    match checkedAdd u64Max session.active.pmtuGeneration 1 with
    | none => (self, world, .error (.state .generationExhausted))
    | some pmtu =>
      match deriveAliases deriveUdpCid session.clientToServerCidSecret ticket.sessionId
          ticket.pathEpoch with
      | .error error => (self, world, .error (.state error))
      | .ok aliases =>
        match self.ensureAliasesAvailable ticket.sessionId session.generation aliases with
        | .error error => ((self.abortCandidate ticket).1, world, .error (.state error))
        | .ok () =>
          let outcome := commitOutcome deriveUdpCid session ticket path aliases pmtu
          match publish outcome world with
          | (world, .error error) => (self, world, .error (.publish error))
          | (world, .ok ()) =>
            (self.rotate session ticket challenge aliases outcome safePayloadBudget, world,
              .ok ⟨outcome, false⟩)

def validateResponseAndCommitWith (deriveUdpCid : DeriveUdpCid)
    (publish : CommitOutcome → π → π × Except ε Unit) (self : UdpRoamingTable) (world : π)
    (ticket : CandidateTicket) (path : UdpPath) (responseEpoch : Nat) (responseToken : PathToken)
    (receivedBytes safePayloadBudget now : Nat) :
    UdpRoamingTable × π × Except (UdpRoamingCommitError ε) CommitDecision :=
  if receivedBytes = 0 ∨ safePayloadBudget = 0 then
    (self, world, .error (.state .invalidResponse))
  else
    match self.replayedCommit ticket path responseEpoch responseToken with
    | .error error => (self, world, .error (.state error))
    | .ok (some replayed) => (self, world, .ok replayed)
    | .ok none =>
      let self := (self.expireCandidateForSessionAt ticket.sessionId now).1
      match self.candidateMut ticket with
      | .error error => (self, world, .error (.state error))
      | .ok (session, candidate) =>
        if candidate.path ≠ path then (self, world, .error (.state .staleCandidate))
        else if responseEpoch ≠ ticket.pathEpoch ∨ responseToken ≠ candidate.challenge then
          (self, world, .error (.state .invalidResponse))
        else
          let session := { session with candidate := some (candidate.credit receivedBytes) }
          (self.setSession ticket.sessionId session).commitCandidate deriveUdpCid publish world
            session ticket path candidate.challenge safePayloadBudget

/-! ## Path MTU and removal -/

def raisePayloadBudget (self : UdpRoamingTable) (ticket : PmtuTicket) (payloadBudget : Nat) :
    UdpRoamingTable × Except UdpRoamingError Bool :=
  match self.sessions.get? ticket.sessionId with
  | none => (self, .error .stalePmtu)
  | some session =>
    if session.generation ≠ ticket.sessionGeneration ∨ session.active.epoch ≠ ticket.pathEpoch ∨
        session.active.pmtuGeneration ≠ ticket.pmtuGeneration ∨
        session.active.path ≠ ticket.path then
      (self, .error .stalePmtu)
    else if session.active.payloadBudget < payloadBudget then
      (self.setSession ticket.sessionId
          { session with active := { session.active with payloadBudget } }, .ok true)
    else (self, .ok false)

def removeSession (self : UdpRoamingTable) (sessionId : Nat) : UdpRoamingTable × Bool :=
  match self.sessions.get? sessionId with
  | none => (self, false)
  | some session =>
    ({ self with
        sessions := self.sessions.erase sessionId
        candidateCount := self.candidateCount - if session.candidate.isSome then 1 else 0
        failuresTotal := if session.candidate.isSome then
          saturatingAdd u64Max self.failuresTotal 1 else self.failuresTotal
        cidIndex := dropAliases self.cidIndex sessionId session.generation session.aliases [] },
      true)

def removeSessionGeneration (self : UdpRoamingTable) (sessionId generation : Nat) :
    UdpRoamingTable × Bool :=
  match self.sessions.get? sessionId with
  | none => (self, false)
  | some session =>
    if session.generation ≠ generation then (self, false) else self.removeSession sessionId

end UdpRoamingTable

/-- The cleanup authority of one generation of a session. -/
structure UdpSessionRegistration where
  sessionId : Nat
  sessionGeneration : Nat
  active : Bool
  deriving DecidableEq, Repr

def UdpSessionRegistration.drop (self : UdpSessionRegistration) (table : UdpRoamingTable) :
    UdpSessionRegistration × UdpRoamingTable :=
  if self.active then
    ({ self with active := false },
      (table.removeSessionGeneration self.sessionId self.sessionGeneration).1)
  else (self, table)

end Qeli.Udp
