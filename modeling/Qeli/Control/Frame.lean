import Qeli.Lib.Bytes
import Qeli.Lib.Chunks

/-!
# Control frames

The wire format of `protocol/control_v2.rs`: a 15-byte big-endian header (magic,
version, type, flags, message id, part index, part count, payload length) and the
payload of one part. `fragmentMessage` cuts a message into at most sixteen parts of
4 KiB, `decode` reads one. Both check the metadata, so a frame that was written is read
back (`decode_bytes`), and the frames of a message are its chunks in order
(`fragmentMessage_ok`).
-/

namespace Qeli.Control

open Qeli.Lib

def magic : List UInt8 := [0xC1, 0x9C]

def version : UInt8 := 2

def headerLen : Nat := 15

def flagAckRequired : UInt8 := 1

def flagAck : UInt8 := 2

def flagError : UInt8 := 4

def knownFlags : UInt8 := flagAckRequired ||| flagAck ||| flagError

def typeAck : UInt8 := 0x01

def typeError : UInt8 := 0x02

def typeNotice : UInt8 := 0x11

def typeKick : UInt8 := 0x27

def maxPartPayload : Nat := 4 * 1024

def maxParts : Nat := 16

def maxMessageSize : Nat := maxPartPayload * maxParts

inductive ControlV2Error where
  | notControlV2
  | truncated
  | unsupportedVersion (version : UInt8)
  | invalidFlags (flags : UInt8)
  | invalidStatusFrame
  | invalidLength
  | invalidFragment
  | partTooLarge
  | messageTooLarge
  | tooManyParts
  | resourceLimit
  | outOfOrder
  | conflict
  | invalidManagementPayload (reason : String)
  deriving DecidableEq, Repr

structure Frame where
  messageType : UInt8
  flags : UInt8
  messageId : UInt32
  partIndex : Nat
  partCount : Nat
  payload : List UInt8
  deriving DecidableEq, Repr

def validateMetadata (frame : Frame) : Except ControlV2Error Unit :=
  if frame.flags &&& ~~~knownFlags ≠ 0 then
    .error (.invalidFlags (frame.flags &&& ~~~knownFlags))
  else if maxPartPayload < frame.payload.length ∨ u16Max < frame.payload.length then
    .error .partTooLarge
  else if frame.partCount = 0 ∨ frame.partCount ≤ frame.partIndex then .error .invalidFragment
  else if maxParts < frame.partCount then .error .tooManyParts
  else
    let ack : Bool := frame.flags &&& flagAck ≠ 0
    let error : Bool := frame.flags &&& flagError ≠ 0
    if ack && error || ack != (frame.messageType == typeAck) ||
        error != (frame.messageType == typeError) ||
        (ack || error) && frame.flags &&& flagAckRequired != 0 ||
        (ack || error) && frame.partCount != 1 || ack && !frame.payload.isEmpty then
      .error .invalidStatusFrame
    else .ok ()

namespace Frame

/-- The bytes of a frame; `encode` checks it first. -/
def bytes (self : Frame) : List UInt8 :=
  magic ++ [version, self.messageType, self.flags] ++ beBytes 4 self.messageId.toNat ++
    beBytes 2 self.partIndex ++ beBytes 2 self.partCount ++ beBytes 2 self.payload.length ++
    self.payload

def encode (self : Frame) : Except ControlV2Error (List UInt8) :=
  match validateMetadata self with
  | .error e => .error e
  | .ok () => .ok self.bytes

end Frame

def isControlV2 (bytes : List UInt8) : Bool := bytes.take magic.length = magic

def decode (bytes : List UInt8) : Except ControlV2Error Frame :=
  if !isControlV2 bytes then .error .notControlV2
  else if bytes.length < headerLen then .error .truncated
  else
    -- the header is there, so the default is never read
    let byte (i : Nat) : UInt8 := bytes.getD i 0
    if byte 2 ≠ version then .error (.unsupportedVersion (byte 2))
    else
      let payloadLen := ofBE ((bytes.drop 13).take 2)
      match checkedAdd u64Max headerLen payloadLen with
      | none => .error .invalidLength
      | some total =>
        if total ≠ bytes.length then
          if bytes.length < total then .error .truncated else .error .invalidLength
        else
          let frame : Frame :=
            { messageType := byte 3
              flags := byte 4
              messageId := UInt32.ofNat (ofBE ((bytes.drop 5).take 4))
              partIndex := ofBE ((bytes.drop 9).take 2)
              partCount := ofBE ((bytes.drop 11).take 2)
              payload := bytes.drop headerLen }
          match validateMetadata frame with
          | .error e => .error e
          | .ok () => .ok frame

structure Message where
  messageType : UInt8
  flags : UInt8
  messageId : UInt32
  payload : List UInt8
  deriving DecidableEq, Repr

def fragmentMessage (messageType flags : UInt8) (messageId : UInt32) (payload : List UInt8) :
    Except ControlV2Error (List (List UInt8)) :=
  if maxMessageSize < payload.length then .error .messageTooLarge
  else
    let partCount := max payload.length 1 ⌈/⌉ maxPartPayload
    if maxParts < partCount then .error .tooManyParts
    else if payload.isEmpty then do
      let frame ← (Frame.mk messageType flags messageId 0 1 payload).encode
      return [frame]
    else
      (List.range partCount).mapM fun index =>
        (Frame.mk messageType flags messageId index partCount
          (chunkAt payload maxPartPayload index)).encode

/-! ## Reading what was written -/

/-- The metadata checks that bound a frame. -/
structure Frame.Bounded (f : Frame) : Prop where
  payload : f.payload.length ≤ maxPartPayload
  index : f.partIndex < f.partCount
  count : f.partCount ≤ maxParts

theorem Frame.bounded_of_valid {f : Frame} (h : validateMetadata f = .ok ()) : f.Bounded := by
  unfold validateMetadata at h
  split at h
  · cases h
  · split at h
    · cases h
    · split at h
      · cases h
      · split at h
        · cases h
        · exact ⟨by omega, by omega, by omega⟩

/-- A frame that is no status frame and sets no flags passes the checks within bounds. -/
theorem Frame.valid_of_plain {f : Frame} (hflags : f.flags = 0) (hack : f.messageType ≠ typeAck)
    (herror : f.messageType ≠ typeError) (h : f.Bounded) : validateMetadata f = .ok () := by
  have hpayload := h.payload
  have hindex := h.index
  have hcount := h.count
  unfold validateMetadata
  rw [hflags, if_neg (by decide),
    if_neg (by unfold maxPartPayload at hpayload ⊢; unfold u16Max; omega),
    if_neg (by omega), if_neg (by omega)]
  simp [hack, herror]

theorem Frame.length_bytes (f : Frame) : f.bytes.length = headerLen + f.payload.length := by
  simp [Frame.bytes, magic, headerLen]
  omega

/-- **A frame that passes the checks is read back.** -/
theorem decode_bytes {f : Frame} (h : validateMetadata f = .ok ()) : decode f.bytes = .ok f := by
  obtain ⟨hpayload, hindex, hcount⟩ := f.bounded_of_valid h
  unfold maxPartPayload maxParts at *
  have hlen := f.length_bytes
  have hhead : headerLen = 15 := rfl
  have h13 : ofBE ((f.bytes.drop 13).take 2) = f.payload.length :=
    ofBE_field (d := f.bytes) rfl (by simp [magic]) (by omega)
  have h5 : ofBE ((f.bytes.drop 5).take 4) = f.messageId.toNat :=
    ofBE_field (a := magic ++ [version, f.messageType, f.flags])
      (by simp only [Frame.bytes, List.append_assoc]; rfl) (by simp [magic]) f.messageId.toNat_lt
  have h9 : ofBE ((f.bytes.drop 9).take 2) = f.partIndex :=
    ofBE_field (a := magic ++ [version, f.messageType, f.flags] ++ beBytes 4 f.messageId.toNat)
      (by simp only [Frame.bytes, List.append_assoc]; rfl) (by simp [magic]) (by omega)
  have h11 : ofBE ((f.bytes.drop 11).take 2) = f.partCount :=
    ofBE_field (a := magic ++ [version, f.messageType, f.flags] ++ beBytes 4 f.messageId.toNat ++
      beBytes 2 f.partIndex)
      (by simp only [Frame.bytes, List.append_assoc]; rfl) (by simp [magic]) (by omega)
  have hdrop : f.bytes.drop headerLen = f.payload := List.drop_left' (by simp [magic, headerLen])
  have hmagic : isControlV2 f.bytes = true := by simp [isControlV2, Frame.bytes, magic]
  have hadd : checkedAdd u64Max headerLen f.payload.length = some f.bytes.length :=
    checkedAdd_eq_some.mpr ⟨by unfold u64Max; omega, hlen⟩
  have hbytes : f.bytes.getD 2 0 = version ∧ f.bytes.getD 3 0 = f.messageType ∧
      f.bytes.getD 4 0 = f.flags := by simp [Frame.bytes, magic]
  obtain ⟨h2, h3, h4⟩ := hbytes
  unfold decode
  rw [hmagic, if_neg (by simp), if_neg (by omega)]
  simp only [h2, h3, h4, h5, h9, h11, h13, hdrop, hadd, ne_eq, not_true_eq_false, if_false,
    UInt32.ofNat_toNat, h]

/-! ## The frames of a message -/

namespace Message

def partCount (m : Message) : Nat := max m.payload.length 1 ⌈/⌉ maxPartPayload

def frameAt (m : Message) (index : Nat) : Frame :=
  ⟨m.messageType, m.flags, m.messageId, index, m.partCount, chunkAt m.payload maxPartPayload index⟩

end Message

theorem encode_ok {f : Frame} {bytes : List UInt8} :
    f.encode = .ok bytes ↔ validateMetadata f = .ok () ∧ bytes = f.bytes := by
  unfold Frame.encode
  cases validateMetadata f with
  | error e => simp
  | ok u => simp [eq_comm]

theorem Message.partCount_pos (m : Message) : 0 < m.partCount := by
  by_contra hc
  have := (ceilDiv_le_iff_le_mul (show 0 < maxPartPayload by decide)).mp (Nat.le_of_not_lt hc)
  omega

theorem Message.frameAt_of_empty {m : Message} (h : m.payload = []) :
    m.partCount = 1 ∧ m.frameAt 0 = ⟨m.messageType, m.flags, m.messageId, 0, 1, m.payload⟩ := by
  have hcount : m.partCount = 1 := by
    unfold Message.partCount
    rw [h]
    decide
  exact ⟨hcount, by simp [Message.frameAt, hcount, h, chunkAt]⟩

/-- **A message is taken when its size is in bounds and its frames pass the checks; the
frames are its chunks.** -/
theorem fragmentMessage_ok {m : Message} {frames : List (List UInt8)} :
    fragmentMessage m.messageType m.flags m.messageId m.payload = .ok frames ↔
      m.payload.length ≤ maxMessageSize ∧
        (∀ i < m.partCount, validateMetadata (m.frameAt i) = .ok ()) ∧
        frames = (List.range m.partCount).map fun i => (m.frameAt i).bytes := by
  unfold fragmentMessage
  split
  · next hsize => exact iff_of_false (by simp) fun h => absurd h.1 (Nat.not_le.mpr hsize)
  · next hsize =>
    dsimp only
    split
    · next hparts =>
      refine iff_of_false (by simp) fun h => ?_
      exact Nat.not_le.mpr hparts (Frame.bounded_of_valid (h.2.1 0 m.partCount_pos)).count
    · split
      · next hempty =>
        obtain ⟨hcount, hframe⟩ := Message.frameAt_of_empty (List.isEmpty_iff.mp hempty)
        rw [← hframe, hcount]
        cases hv : validateMetadata (m.frameAt 0) with
        | error e =>
          refine iff_of_false (by simp [Frame.encode, hv, bind, Except.bind]) fun h => ?_
          have hzero := h.2.1 0 Nat.one_pos
          rw [hv] at hzero
          cases hzero
        | ok u =>
          simp [Frame.encode, hv, bind, Except.bind, pure, Except.pure, Nat.le_of_not_lt hsize,
            eq_comm]
      · constructor
        · intro h
          have hall : ∀ i < m.partCount, validateMetadata (m.frameAt i) = .ok () := fun i hi => by
            obtain ⟨bytes, hb⟩ := of_mapM_ok h i (List.mem_range.mpr hi)
            exact (encode_ok.mp hb).1
          refine ⟨Nat.le_of_not_lt hsize, hall, Except.ok.inj (h.symm.trans ?_)⟩
          exact mapM_ok fun i hi => encode_ok.mpr ⟨hall i (List.mem_range.mp hi), rfl⟩
        · rintro ⟨_, hall, rfl⟩
          exact mapM_ok fun i hi => encode_ok.mpr ⟨hall i (List.mem_range.mp hi), rfl⟩

end Qeli.Control
