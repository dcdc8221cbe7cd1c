import Qeli.Udp.Client
import Qeli.Udp.Budget

/-!
# One client and its session on the server

The PATH_INIT and PATH_RESPONSE arms of `handle_udp_roaming_ingress`
(`server/udp_handler.rs`) around the table, with the egress they publish, and
their composition with one `UdpClientRoaming`. The network keeps everything that
was ever sent: a datagram may arrive any number of times, in any order, on any
path, or never, but none is made up. PATH_INIT is handled in steps, as other
tasks may use the table between them; PATH_RESPONSE holds the directory lock
throughout. Decryption, the recordizer and the directory's address map only
drop datagrams, which the network does anyway.
-/

namespace Qeli.Udp

open Qeli.Lib Qeli.Wire

/-! ## Egress -/

structure UdpEgressSnapshot where
  socket : Nat
  peer : SocketAddr
  destinationCid : UdpCid
  pathEpoch : Nat
  deriving DecidableEq

inductive UdpEgressCommitError where
  | invalidEpoch
  | familyMismatch
  | staleEpoch
  | stalePeer
  deriving DecidableEq, Repr

inductive UdpEgressPublishError where
  | state (error : UdpEgressCommitError)
  | publish
  deriving DecidableEq, Repr

structure UdpEgressCommit where
  expectedEpoch : Nat
  expectedPeer : SocketAddr
  nextEpoch : Nat
  socket : Nat
  peer : SocketAddr
  destinationCid : UdpCid
  deriving DecidableEq

def UdpEgressCommit.fromOutcome (outcome : CommitOutcome) (socket : Nat) :
    Except UdpEgressCommitError UdpEgressCommit :=
  if outcome.pathEpoch = 0 then .error .invalidEpoch
  else .ok
    { expectedEpoch := outcome.pathEpoch - 1
      expectedPeer := outcome.oldPath.peer
      nextEpoch := outcome.pathEpoch
      socket
      peer := outcome.newPath.peer
      destinationCid := outcome.transmitCid }

/-- Where a routed CID may carry control. The draining path carries data only. -/
inductive UdpRoamingIngressPath where
  | committed
  | candidate
  deriving DecidableEq, Repr

namespace UdpEgressSnapshot

def classifyRoamingIngress (self : UdpEgressSnapshot) (pathEpoch : Nat) (peer : SocketAddr)
    (socket : Nat) : Option UdpRoamingIngressPath :=
  if pathEpoch = self.pathEpoch then
    if self.peer = peer ∧ self.socket = socket then some .committed else none
  else
    match checkedAdd u64Max self.pathEpoch 1 with
    | some next => if next = pathEpoch then some .candidate else none
    | none => none

/-- The commit marker goes out before the new egress is visible. The address
family of the socket and the send itself are the environment's. -/
def commitRoamingWith (self : UdpEgressSnapshot) (commit : UdpEgressCommit)
    (familyMatches sent : Bool) : UdpEgressSnapshot × Except UdpEgressPublishError Unit :=
  match checkedAdd u64Max commit.expectedEpoch 1 with
  | none => (self, .error (.state .invalidEpoch))
  | some next =>
    if commit.nextEpoch ≠ next then (self, .error (.state .invalidEpoch))
    else if !familyMatches then (self, .error (.state .familyMismatch))
    else if self.pathEpoch ≠ commit.expectedEpoch then (self, .error (.state .staleEpoch))
    else if self.peer ≠ commit.expectedPeer then (self, .error (.state .stalePeer))
    else if !sent then (self, .error .publish)
    else
      ({ socket := commit.socket
         peer := commit.peer
         destinationCid := commit.destinationCid
         pathEpoch := commit.nextEpoch }, .ok ())

end UdpEgressSnapshot

/-! ## The pair -/

/-- A control on its way to the client. -/
structure PathDatagram where
  destinationCid : UdpCid
  messageId : Nat
  control : PathControl
  deriving DecidableEq

/-- A control that the CID routed to its session's owner. -/
structure RoutedIngress where
  lookup : CidLookup
  receivedPath : UdpPath
  socket : Nat
  transmit : UdpClientPathTransmit
  deriving DecidableEq

/-- A PATH_INIT between its candidate and its challenge. -/
structure InitTask where
  ticket : CandidateTicket
  token : PathToken
  cid : UdpCid
  epoch : Nat
  messageId : Nat
  stored : Bool
  deriving DecidableEq

structure RoamingPair where
  client : UdpClientRoaming
  table : UdpRoamingTable
  egress : UdpEgressSnapshot
  udpRoamingCandidate : Option CandidateTicket
  tasks : List InitTask
  routed : List RoutedIngress
  toServer : List UdpClientPathTransmit
  toClient : List PathDatagram

namespace RoamingPair

/-- A pair whose session was just registered. -/
def start (client : UdpClientRoaming) (table : UdpRoamingTable) (egress : UdpEgressSnapshot) :
    RoamingPair :=
  ⟨client, table, egress, none, [], [], [], []⟩

variable (deriveUdpCid : DeriveUdpCid)

def clientStep (self : RoamingPair) (op : ClientOp) : RoamingPair :=
  let (client, transmit) := clientApply deriveUdpCid self.client op
  { self with client, toServer := self.toServer ++ transmit.toList }

def observeInit (self : RoamingPair) (ingress : RoutedIngress) (cid : UdpCid)
    (epoch bytes : Nat) (token : PathToken) (now : Nat) : RoamingPair :=
  let (table, result) := self.table.observeAuthenticatedCandidateAt deriveUdpCid ingress.lookup
    ingress.receivedPath cid epoch bytes token now
  match result with
  | .error _ => { self with table }
  | .ok challenge =>
    { self with
      table
      tasks := self.tasks ++
        [⟨challenge.ticket, challenge.token, cid, epoch, ingress.transmit.messageId, false⟩] }

def storeTicket (self : RoamingPair) (task : InitTask) : RoamingPair :=
  { self with
    udpRoamingCandidate := some task.ticket
    tasks := self.tasks ++ [{ task with stored := true }] }

def clearTicket (self : RoamingPair) (ticket : CandidateTicket) : RoamingPair :=
  if self.udpRoamingCandidate = some ticket then { self with udpRoamingCandidate := none }
  else self

/-- The challenge could not be built. -/
def failChallenge (self : RoamingPair) (task : InitTask) : RoamingPair :=
  clearTicket { self with table := (self.table.abortCandidate task.ticket).1 } task.ticket

def sendChallenge (self : RoamingPair) (task : InitTask) (wireBytes now : Nat) : RoamingPair :=
  let (table, result) := self.table.authorizeCandidateSend task.ticket wireBytes now
  match result with
  | .ok () =>
    { self with
      table
      toClient := self.toClient ++ [⟨task.cid, task.messageId, .challenge task.epoch task.token⟩] }
  | .error .amplificationLimit => { self with table }
  | .error _ => clearTicket { self with table } task.ticket

def pathCommit (messageId : Nat) (outcome : CommitOutcome) : PathDatagram :=
  ⟨outcome.transmitCid, messageId, .commit outcome.receiveCid outcome.pathEpoch⟩

/-- The publication inside a commit: the marker and the new egress, or neither. -/
def publishCommit (messageId socket : Nat) (familyMatches sent : Bool) (outcome : CommitOutcome)
    (world : UdpEgressSnapshot × List PathDatagram) :
    (UdpEgressSnapshot × List PathDatagram) × Except UdpEgressPublishError Unit :=
  match UdpEgressCommit.fromOutcome outcome socket with
  | .error error => (world, .error (.state error))
  | .ok commit =>
    match world.1.commitRoamingWith commit familyMatches sent with
    | (egress, .ok ()) => ((egress, world.2 ++ [pathCommit messageId outcome]), .ok ())
    | (egress, .error error) => ((egress, world.2), .error error)

abbrev CommitResult := Except (UdpRoamingCommitError UdpEgressPublishError) CommitDecision

def resend (messageId : Nat) (sent : Bool) (toClient : List PathDatagram) :
    CommitResult → List PathDatagram
  | .ok ⟨outcome, true⟩ => if sent then toClient ++ [pathCommit messageId outcome] else toClient
  | _ => toClient

/-- PATH_RESPONSE, under the ticket of the last PATH_INIT. -/
def respond (self : RoamingPair) (ingress : RoutedIngress) (epoch : Nat) (token : PathToken)
    (bytes budget now : Nat) (familyMatches sent : Bool) : RoamingPair × Option CommitResult :=
  match self.udpRoamingCandidate with
  | none => (self, none)
  | some ticket =>
    let (table, (egress, toClient), result) := self.table.validateResponseAndCommitWith deriveUdpCid
      (publishCommit ingress.transmit.messageId ingress.socket familyMatches sent)
      (self.egress, self.toClient) ticket ingress.receivedPath epoch token bytes budget now
    ({ self with
        table
        egress
        toClient := resend ingress.transmit.messageId sent toClient result }, some result)

end RoamingPair

/-! ## Steps -/

inductive PairEvent where
  | client (op : ClientOp)
  | route (ingress : RoutedIngress)
  | init (ingress : RoutedIngress)
  | store (task : InitTask)
  | failChallenge (task : InitTask)
  | challenge (task : InitTask)
  | response (ingress : RoutedIngress) (result : Option RoamingPair.CommitResult)
  | table (op : TableOp)

/-- Operations of other tasks: none of them removes the session, commits for it
or reports a PATH_INIT of it. -/
def TableOp.Foreign (sid g : Nat) : TableOp → Prop
  | .observe found _ _ _ _ _ _ => found.sessionId ≠ sid
  | .commit ticket _ _ _ _ _ _ _ => ticket.sessionId ≠ sid
  | .remove a => a ≠ sid
  | .removeGeneration a b => a ≠ sid ∨ b ≠ g
  | .dropOwner owner => owner.sessionId ≠ sid ∨ owner.sessionGeneration ≠ g
  | _ => True

/-- A client operation that the network allows: a candidate begins under a new
message id, and a control was sent by the server. -/
def RoamingPair.Allows (w : RoamingPair) : ClientOp → Prop
  | .begin _ messageId _ => ∀ m ∈ w.toServer, m.messageId ≠ messageId
  | .accept cid messageId control _ => ⟨cid, messageId, control⟩ ∈ w.toClient
  | _ => True

def RoamingPair.Admits (sid g : Nat) (w : RoamingPair) (ingress : RoutedIngress) : Prop :=
  ingress ∈ w.routed ∧ ingress.lookup.sessionId = sid ∧ ingress.lookup.sessionGeneration = g ∧
    (w.egress.classifyRoamingIngress ingress.lookup.pathEpoch ingress.receivedPath.peer
      ingress.socket).isSome

open RoamingPair in
inductive PairStep (deriveUdpCid : DeriveUdpCid) (sid g : Nat) (w : RoamingPair) :
    PairEvent → RoamingPair → Prop where
  | client {op : ClientOp} : w.Allows op →
      PairStep deriveUdpCid sid g w (.client op) (w.clientStep deriveUdpCid op)
  | route {m : UdpClientPathTransmit} {lookup : CidLookup} (path : UdpPath) (socket : Nat) :
      m ∈ w.toServer → w.table.lookup m.destinationCid = some lookup →
      PairStep deriveUdpCid sid g w (.route ⟨lookup, path, socket, m⟩)
        { w with routed := w.routed ++ [⟨lookup, path, socket, m⟩] }
  | init {ingress : RoutedIngress} {cid : UdpCid} {epoch : Nat} (bytes : Nat) (token : PathToken)
      (now : Nat) : w.Admits sid g ingress → ingress.transmit.control = .init cid epoch →
      PairStep deriveUdpCid sid g w (.init ingress)
        (w.observeInit deriveUdpCid ingress cid epoch bytes token now)
  | store {task : InitTask} : task ∈ w.tasks → task.stored = false →
      PairStep deriveUdpCid sid g w (.store task) (w.storeTicket task)
  | failChallenge {task : InitTask} : task ∈ w.tasks → task.stored = true →
      PairStep deriveUdpCid sid g w (.failChallenge task) (w.failChallenge task)
  | challenge {task : InitTask} (wireBytes now : Nat) : task ∈ w.tasks → task.stored = true →
      PairStep deriveUdpCid sid g w (.challenge task) (w.sendChallenge task wireBytes now)
  | response {ingress : RoutedIngress} {epoch : Nat} {token : PathToken} (bytes budget now : Nat)
      (familyMatches sent : Bool) : w.Admits sid g ingress →
      ingress.transmit.control = .response epoch token →
      PairStep deriveUdpCid sid g w
        (.response ingress
          (w.respond deriveUdpCid ingress epoch token bytes budget now familyMatches sent).2)
        (w.respond deriveUdpCid ingress epoch token bytes budget now familyMatches sent).1
  | table {op : TableOp} : op.Foreign sid g →
      PairStep deriveUdpCid sid g w (.table op)
        { w with table := (w.table.apply deriveUdpCid op).1 }

end Qeli.Udp
