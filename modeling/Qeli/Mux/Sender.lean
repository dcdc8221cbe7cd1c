import Mathlib.Algebra.Order.Floor.Div
import Qeli.Mux.Envelope

/-!
# The sender

`Recordizer` of `protocol/recordizer.rs`. The random generator is a stream of
draws kept in the state, one for every record begun, so a statement about all
states is a statement about all sequences of record targets and delays.

`push` in fragment mode is a loop that need not end for a configuration without
room for a frame; the model gives it twice as many passes as the packet has
bytes, and `none` when they do not suffice. For a usable configuration they do
(`push_returns`).
-/

namespace Qeli.Mux

open Qeli.Lib

/-- The random numbers for one record: whether it is a full one, the two ratios of
the payload ceiling in bytes, the number drawn between them and the one drawn for
the delay. -/
structure RecordDraw where
  full : Bool
  rawMin : Nat
  rawMax : Nat
  target : Nat
  delay : Nat
  deriving Repr

def chooseTarget (config : RuntimeConfig) (draw : RecordDraw) : Nat :=
  if draw.full then config.maxPayloadBytes
  else
    let lo := min (max draw.rawMin minRecordPayload) config.maxPayloadBytes
    let hi := min (max draw.rawMax lo) config.maxPayloadBytes
    lo + draw.target % (hi - lo + 1)

def nanosPerMilli : Nat := 1000000

def randomDuration (lo hi draw : Nat) : Nat :=
  if hi ≤ lo then lo
  else
    let lo := min (lo / nanosPerMilli) u64Max
    let hi := min (hi / nanosPerMilli) u64Max
    (lo + draw % (hi - lo + 1)) * nanosPerMilli

structure Recordizer where
  config : RuntimeConfig
  current : Record
  currentTarget : Nat
  currentPackets : Nat
  deadline : Option Nat
  nextPacketId : UInt32
  /-- The draws still to come. -/
  rng : Nat → RecordDraw

namespace RuntimeConfig

def fullFragmentCapacity (self : RuntimeConfig) : Nat :=
  self.maxPayloadBytes - (magic.length + frameHeaderLen)

/-- The fewest fragments that carry `len` bytes. -/
def minimumFragments (self : RuntimeConfig) (len : Nat) : Nat :=
  len ⌈/⌉ max self.fullFragmentCapacity 1

end RuntimeConfig

namespace Recordizer

def new (config : RuntimeConfig) (nextPacketId : UInt32) (rng : Nat → RecordDraw) : Recordizer where
  config := config
  current := []
  currentTarget := 0
  currentPackets := 0
  deadline := none
  nextPacketId := nextPacketId
  rng := rng

def raiseRuntime (self : Recordizer) (config : RuntimeConfig) :
    Recordizer × Except RecordizerError Unit :=
  if config.maxPayloadBytes < self.config.maxPayloadBytes then
    (self, .error (.invalidConfig "recordizer runtime payload budget cannot shrink"))
  else ({ self with config := config }, .ok ())

def flush (self : Recordizer) : Recordizer × Option Record :=
  if self.current.isEmpty then (self, none)
  else
    ({ self with deadline := none, currentTarget := 0, currentPackets := 0, current := [] },
      some self.current)

def flushDue (self : Recordizer) (now : Nat) : Recordizer × Option Record :=
  match self.deadline with
  | some deadline => if deadline ≤ now then self.flush else (self, none)
  | none => (self, none)

def finishReadyBatch (self : Recordizer) : Recordizer × Option Record :=
  if self.config.opportunistic then self.flush else (self, none)

def ensureRecord (self : Recordizer) (now : Nat) : Recordizer :=
  if self.current.isEmpty then
    let draw := self.rng 0
    { self with
      current := magic
      currentTarget := chooseTarget self.config draw
      deadline :=
        if self.config.opportunistic then none
        else some (now + randomDuration self.config.delayMin self.config.delayMax draw.delay)
      rng := fun n => self.rng (n + 1) }
  else self

def append (self : Recordizer) (frame : Frame) : Recordizer :=
  { self with
    current := self.current ++ frame.encode
    currentPackets := self.currentPackets + 1 }

def flushInto (self : Recordizer) (ready : List Record) : Recordizer × List Record :=
  let (self, record) := self.flush
  (self, ready ++ record.toList)

/-- The pass of `push` for a packet that is not fragmented. -/
def pushWhole (self : Recordizer) (packet : Packet) (packetId : UInt32) (now : Nat) :
    Recordizer × Except RecordizerError (List Record) :=
  if self.config.maxPayloadBytes < magic.length + frameHeaderLen + packet.length then
    (self, .error .packetSize)
  else
    let self := self.ensureRecord now
    let doesNotFit := self.currentTarget < self.current.length + frameHeaderLen + packet.length
    let (self, ready) :=
      if self.currentPackets = 0 ∧ doesNotFit then
        ({ self with currentTarget := self.config.maxPayloadBytes }, [])
      else if doesNotFit ∨ self.config.maxPackets ≤ self.currentPackets then
        let (self, ready) := self.flushInto []
        let self := self.ensureRecord now
        ({ self with currentTarget := self.config.maxPayloadBytes }, ready)
      else (self, [])
    (self.append ⟨packetId, packet.length, 0, packet⟩, .ok ready)

structure FragmentLoop where
  self : Recordizer
  offset : Nat
  fragmentCount : Nat
  ready : List Record

/-- The record a fragment goes to. Once no slack remains in the number of
fragments, that is a full record of its own. -/
def openRecord (self : Recordizer) (tight : Bool) (now : Nat) (ready : List Record) :
    Recordizer × List Record :=
  let (self, ready) :=
    if tight ∧ ¬ self.current.isEmpty then self.flushInto ready else (self, ready)
  let self := self.ensureRecord now
  (if tight then { self with currentTarget := self.config.maxPayloadBytes } else self, ready)

/-- One pass of the loop of `push` over a packet that may be fragmented. -/
def fragmentPass (packet : Packet) (packetId : UInt32) (now : Nat) (loop : FragmentLoop) :
    Except RecordizerError FragmentLoop :=
  let fragmentsLeft := loop.self.config.maxFragmentsPerPacket - loop.fragmentCount
  let remaining := packet.length - loop.offset
  let minimumRemaining := loop.self.config.minimumFragments remaining
  if fragmentsLeft = 0 ∨ fragmentsLeft < minimumRemaining then .error .packetSize
  else
    let (self, ready) := loop.self.openRecord (minimumRemaining = fragmentsLeft) now loop.ready
    if self.config.maxPackets ≤ self.currentPackets ∨
        self.currentTarget - self.current.length ≤ frameHeaderLen then
      let (self, ready) := self.flushInto ready
      .ok { loop with self := self, ready := ready }
    else
      let available := self.currentTarget - self.current.length - frameHeaderLen
      let take := min (min available remaining) u16Max
      if take = 0 then
        let (self, ready) := self.flushInto ready
        .ok { loop with self := self, ready := ready }
      else
        let self := self.append
          ⟨packetId, packet.length, loop.offset, (packet.drop loop.offset).take take⟩
        let (self, ready) :=
          if self.currentTarget ≤ self.current.length ∨
              self.config.maxPackets ≤ self.currentPackets then
            self.flushInto ready
          else (self, ready)
        .ok ⟨self, loop.offset + take, loop.fragmentCount + 1, ready⟩

def pushFragments (packet : Packet) (packetId : UInt32) (now : Nat) :
    Nat → FragmentLoop → Option (Recordizer × Except RecordizerError (List Record))
  | 0, _ => none
  | fuel + 1, loop =>
    if loop.offset < packet.length then
      match fragmentPass packet packetId now loop with
      | .error e => some (loop.self, .error e)
      | .ok loop => pushFragments packet packetId now fuel loop
    else some (loop.self, .ok loop.ready)

/-- The loop of `push`. -/
def pushFrames (self : Recordizer) (packet : Packet) (packetId : UInt32) (now : Nat) :
    Option (Recordizer × Except RecordizerError (List Record)) :=
  if self.config.fragmentEnabled then
    pushFragments packet packetId now (2 * packet.length + 2) ⟨self, 0, 0, []⟩
  else some (self.pushWhole packet packetId now)

def push (self : Recordizer) (packet : Packet) (now : Nat) :
    Option (Recordizer × Except RecordizerError (List Record)) :=
  if packet.isEmpty ∨ self.config.maxPacketBytes < packet.length ∨ u16Max < packet.length then
    some (self, .error .packetSize)
  else if self.config.fragmentEnabled ∧
      self.config.maxFragmentsPerPacket < self.config.minimumFragments packet.length then
    some (self, .error .packetSize)
  else
    let packetId := self.nextPacketId
    let self := { self with nextPacketId := packetId + 1 }
    match self.pushFrames packet packetId now with
    | some (self, .ok ready) =>
      if !self.config.opportunistic && self.config.delayMax = 0 then
        let (self, ready) := self.flushInto ready
        some (self, .ok ready)
      else some (self, .ok ready)
    | failed => failed

/-! ## Calls -/

inductive Call where
  | push (packet : Packet) (now : Nat)
  | flush
  | flushDue (now : Nat)
  | finishReadyBatch
  | raiseRuntime (config : RuntimeConfig)

inductive Reply where
  | pushed (result : Except RecordizerError (List Record))
  | flushed (record : Option Record)
  | raised (result : Except RecordizerError Unit)

/-- `none` when the call does not return. -/
def call (self : Recordizer) : Call → Option (Recordizer × Reply)
  | .push packet now => (self.push packet now).map fun r => (r.1, .pushed r.2)
  | .flush => some (self.flush.1, .flushed self.flush.2)
  | .flushDue now => some ((self.flushDue now).1, .flushed (self.flushDue now).2)
  | .finishReadyBatch => some (self.finishReadyBatch.1, .flushed self.finishReadyBatch.2)
  | .raiseRuntime config =>
    some ((self.raiseRuntime config).1, .raised (self.raiseRuntime config).2)

def runCalls : Recordizer → List Call → Option (Recordizer × List (Call × Reply))
  | self, [] => some (self, [])
  | self, c :: calls =>
    match self.call c with
    | none => none
    | some (self, reply) =>
      match runCalls self calls with
      | none => none
      | some (self, events) => some (self, (c, reply) :: events)

end Recordizer

def Reply.records : Recordizer.Reply → List Record
  | .pushed (.ok ready) => ready
  | .flushed (some record) => [record]
  | _ => []

def acceptedBy : Recordizer.Call × Recordizer.Reply → Option Packet
  | (.push packet _, .pushed (.ok _)) => some packet
  | _ => none

def sentRecords (events : List (Recordizer.Call × Recordizer.Reply)) : List Record :=
  (events.map fun e => Reply.records e.2).flatten

def acceptedPackets (events : List (Recordizer.Call × Recordizer.Reply)) : List Packet :=
  events.filterMap acceptedBy

end Qeli.Mux
