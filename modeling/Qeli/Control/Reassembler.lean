import Qeli.Control.Frame
import Qeli.Lib.KeyMap
import Qeli.Lib.Run

/-!
# Control messages

`Reassembler` of `protocol/control_v2.rs`: the parts of a message arrive in order and
are joined; the ids of the last 64 completed messages are remembered with a digest of
each part, so that a repetition is answered as a duplicate. `pushManagement` adds the
check of NOTICE and KICK payloads: a message that fails it is forgotten again.

SHA-256 and the JSON reader are parameters.
-/

namespace Qeli.Control

open Qeli.Lib

abbrev Sha256 := List UInt8 → Vector UInt8 32

def maxInflightMessages : Nat := 8

def completedIdCache : Nat := 64

/-- Nanoseconds. -/
def reassemblyTimeout : Nat := 5000000000

def maxManagementTextBytes : Nat := 512

inductive ReassemblyOutcome where
  | pending
  | duplicate
  | complete (message : Message)
  deriving DecidableEq, Repr

structure Assembly where
  messageType : UInt8
  flags : UInt8
  partCount : Nat
  parts : List (List UInt8)
  totalLen : Nat
  startedAt : Nat
  deriving DecidableEq, Repr

structure Completed where
  messageId : UInt32
  messageType : UInt8
  flags : UInt8
  parts : List (Vector UInt8 32)
  managementValidated : Bool
  deriving DecidableEq, Repr

/-- `Completed::matches`. -/
def Completed.matchesFrame (sha : Sha256) (self : Completed) (frame : Frame) : Bool :=
  self.messageType = frame.messageType ∧ self.flags = frame.flags ∧
    self.parts.length = frame.partCount ∧
    self.parts[frame.partIndex]? = some (sha frame.payload)

structure Reassembler where
  inflight : KeyMap UInt32 Assembly
  completed : List Completed

namespace Reassembler

def new : Reassembler where
  inflight := ∅
  completed := []

/-- The state and the number of messages that were dropped. -/
def expire (self : Reassembler) (now : Nat) : Reassembler × Nat :=
  let inflight := self.inflight.retain fun _ assembly => now - assembly.startedAt < reassemblyTimeout
  ({ self with inflight := inflight }, self.inflight.size - inflight.size)

def rememberCompleted (self : Reassembler) (completed : Completed) : Reassembler :=
  let kept := if self.completed.length = completedIdCache then self.completed.tail else self.completed
  { self with completed := kept ++ [completed] }

def receipt? (self : Reassembler) (messageId : UInt32) : Option Completed :=
  self.completed.find? fun entry => entry.messageId = messageId

theorem receipt?_eq_none {r : Reassembler} {id : UInt32} :
    r.receipt? id = none ↔ id ∉ r.completed.map Completed.messageId := by
  simp [receipt?, List.find?_eq_none]

/-- The assembly of a message of several parts, started with its first part. -/
def assemblyFor (self : Reassembler) (now : Nat) (frame : Frame) :
    Except ControlV2Error (Reassembler × Assembly) :=
  match self.inflight.get? frame.messageId with
  | some assembly => .ok (self, assembly)
  | none =>
    if frame.partIndex ≠ 0 then .error .outOfOrder
    else if maxInflightMessages ≤ self.inflight.size then .error .resourceLimit
    else
      let assembly : Assembly := ⟨frame.messageType, frame.flags, frame.partCount, [], 0, now⟩
      .ok ({ self with inflight := self.inflight.insert frame.messageId assembly }, assembly)

/-- The end of `push`: the next part of an assembly. -/
def join (sha : Sha256) (self : Reassembler) (frame : Frame) (assembly : Assembly) :
    Reassembler × Except ControlV2Error ReassemblyOutcome :=
  if assembly.messageType ≠ frame.messageType ∨ assembly.flags ≠ frame.flags ∨
      assembly.partCount ≠ frame.partCount then
    (self, .error .conflict)
  else if h : frame.partIndex < assembly.parts.length then
    (self, if assembly.parts[frame.partIndex] = frame.payload then .ok .pending
      else .error .conflict)
  else if frame.partIndex ≠ assembly.parts.length then (self, .error .outOfOrder)
  else
    match checkedAdd u64Max assembly.totalLen frame.payload.length with
    | none => (self, .error .messageTooLarge)
    | some nextTotal =>
      if maxMessageSize < nextTotal then (self, .error .messageTooLarge)
      else
        let parts := assembly.parts ++ [frame.payload]
        let assembly := { assembly with totalLen := nextTotal, parts := parts }
        if assembly.parts.length ≠ assembly.partCount then
          ({ self with inflight := self.inflight.insert frame.messageId assembly }, .ok .pending)
        else
          (rememberCompleted { self with inflight := self.inflight.erase frame.messageId }
            ⟨frame.messageId, assembly.messageType, assembly.flags, assembly.parts.map sha, false⟩,
            .ok (.complete
              ⟨assembly.messageType, assembly.flags, frame.messageId, assembly.parts.flatten⟩))

/-- `push` for an id that is not remembered. -/
def pushNew (sha : Sha256) (self : Reassembler) (now : Nat) (frame : Frame) :
    Reassembler × Except ControlV2Error ReassemblyOutcome :=
  if frame.partCount = 1 then
    if self.inflight.contains frame.messageId then (self, .error .conflict)
    else
      (self.rememberCompleted
        ⟨frame.messageId, frame.messageType, frame.flags, [sha frame.payload], false⟩,
        .ok (.complete ⟨frame.messageType, frame.flags, frame.messageId, frame.payload⟩))
  else
    match self.assemblyFor now frame with
    | .error e => (self, .error e)
    | .ok (self, assembly) => self.join sha frame assembly

def push (sha : Sha256) (self : Reassembler) (now : Nat) (frame : Frame) :
    Reassembler × Except ControlV2Error ReassemblyOutcome :=
  match validateMetadata frame with
  | .error e => (self, .error e)
  | .ok () =>
    let self := (self.expire now).1
    match self.receipt? frame.messageId with
    | some completed =>
      (self, if completed.matchesFrame sha frame then .ok .duplicate else .error .conflict)
    | none => self.pushNew sha now frame

end Reassembler

/-! ## Management messages -/

inductive KickReason where
  | administrative
  | quotaExceeded
  | accountExpired
  | sessionSuperseded
  | profileDisabled
  deriving DecidableEq, Repr

structure Kick where
  reason : KickReason
  message : String
  reconnectAllowed : Bool
  deriving DecidableEq, Repr

inductive NoticeKind where
  | administrative
  | quotaWarning
  | expiryWarning
  deriving DecidableEq, Repr

inductive NoticeSeverity where
  | info
  | warning
  deriving DecidableEq, Repr

structure Notice where
  kind : NoticeKind
  severity : NoticeSeverity
  message : String
  value : Option Nat
  deadlineUnix : Option Int
  deriving DecidableEq, Repr

inductive ManagementEvent where
  | notice (notice : Notice)
  | kick (kick : Kick)
  deriving DecidableEq, Repr

/-- `serde_json::from_slice` at the two payload types. -/
structure Json where
  notice : List UInt8 → Except String Notice
  kick : List UInt8 → Except String Kick

/-- `char::is_control`: the code points of category Cc. -/
def isControl (ch : Char) : Bool := ch.val < 0x20 || (0x7f ≤ ch.val && ch.val ≤ 0x9f)

def validateManagementText (text : String) : Except ControlV2Error Unit :=
  if text.isEmpty || maxManagementTextBytes < text.utf8ByteSize || text.toList.any isControl then
    .error (.invalidManagementPayload
      "message must be 1..512 UTF-8 bytes without control characters")
  else .ok ()

def ManagementEvent.message : ManagementEvent → String
  | .notice body => body.message
  | .kick body => body.message

def decodeManagement (json : Json) (message : Message) :
    Except ControlV2Error (Option ManagementEvent) :=
  let checked (event : Except String ManagementEvent) : Except ControlV2Error _ :=
    match event with
    | .error reason => .error (.invalidManagementPayload reason)
    | .ok event =>
      match validateManagementText event.message with
      | .error e => .error e
      | .ok () => .ok (some event)
  if message.messageType = typeNotice then
    if message.flags ≠ 0 then
      .error (.invalidManagementPayload "management message carries invalid CONTROL_V2 flags")
    else checked ((json.notice message.payload).map .notice)
  else if message.messageType = typeKick then
    if message.flags ≠ 0 ∧ message.flags ≠ flagAckRequired then
      .error (.invalidManagementPayload "management message carries invalid CONTROL_V2 flags")
    else checked ((json.kick message.payload).map .kick)
  else .ok none

namespace Reassembler

def markValidated (messageId : UInt32) : List Completed → List Completed
  | [] => []
  | entry :: entries =>
    if entry.messageId = messageId then { entry with managementValidated := true } :: entries
    else entry :: markValidated messageId entries

def pushManagement (sha : Sha256) (json : Json) (self : Reassembler) (now : Nat) (frame : Frame) :
    Reassembler × Except ControlV2Error ReassemblyOutcome :=
  if frame.messageType ≠ typeNotice ∧ frame.messageType ≠ typeKick then
    (self, .error (.invalidManagementPayload "unsupported management message type"))
  else
    match self.push sha now frame with
    | (self, .error e) => (self, .error e)
    | (self, .ok (.complete message)) =>
      match decodeManagement json message with
      | .error e =>
        ({ self with
            completed := self.completed.filter fun entry => entry.messageId ≠ message.messageId },
          .error e)
      | .ok _ =>
        ({ self with completed := markValidated message.messageId self.completed },
          .ok (.complete message))
    | (self, .ok .duplicate) =>
      if self.completed.any fun entry =>
          entry.messageId = frame.messageId ∧ entry.managementValidated then
        (self, .ok .duplicate)
      else
        (self, .error (.invalidManagementPayload "message has no validated management receipt"))
    | (self, .ok .pending) => (self, .ok .pending)

end Reassembler

end Qeli.Control
