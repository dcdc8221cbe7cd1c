import Qeli.Lib.Bytes
import Qeli.Lib.Tiling

/-!
# The mux envelope

The wire format of `protocol/recordizer.rs`: a record is the marker `QRM1`
followed by frames, each a ten-byte header (packet id, total length, offset,
payload length, all big-endian) and its payload. `nextFrame` reads one frame with
the receiver's metadata checks; `framesOf` reads a whole record, stopping at the
first frame that fails. Reading what was written gives the frames back
(`framesOf_envelope_prefix`).
-/

namespace Qeli.Mux

open Qeli.Lib

def magic : List UInt8 := [0x51, 0x52, 0x4d, 0x31]

def frameHeaderLen : Nat := 10

def minRecordPayload : Nat := magic.length + frameHeaderLen + 1

abbrev Packet := List UInt8

abbrev Record := List UInt8

/-- Durations are in nanoseconds. The ratios and the probability that shape the
random record targets are part of the draws, not of the configuration. -/
structure RuntimeConfig where
  opportunistic : Bool
  delayMin : Nat
  delayMax : Nat
  maxPackets : Nat
  maxPayloadBytes : Nat
  fragmentEnabled : Bool
  reassemblyTimeout : Nat
  maxInflightPackets : Nat
  maxReassemblyBytes : Nat
  maxFragmentsPerPacket : Nat
  maxPacketBytes : Nat
  deriving DecidableEq, Repr

inductive RecordizerError where
  | invalidConfig (reason : String)
  | packetSize
  | truncated
  | unsupported
  | invalidMetadata
  | conflict
  | resourceLimit
  deriving DecidableEq, Repr

structure RecordizerBatchConfig where
  mode : String
  delayMinMs : Nat
  delayMaxMs : Nat
  maxPackets : Nat
  maxQueueBytes : Nat
  deriving DecidableEq, Repr

structure RecordizerFragmentConfig where
  enabled : Bool
  reassemblyTimeoutMs : Nat
  maxInflightPackets : Nat
  maxReassemblyBytes : Nat
  maxFragmentsPerPacket : Nat
  deriving DecidableEq, Repr

structure RecordizerConfig where
  batch : RecordizerBatchConfig
  /-- `record.max_payload_bytes`. -/
  maxPayloadBytes : Nat
  fragment : RecordizerFragmentConfig
  deriving DecidableEq, Repr

def RuntimeConfig.fromConfig (config : RecordizerConfig) (carrierPayloadBudget maxPacketBytes : Nat) :
    Except RecordizerError RuntimeConfig :=
  let configuredMax := config.maxPayloadBytes
  let maxPayloadBytes := min
    (if configuredMax = 0 then carrierPayloadBudget else min configuredMax carrierPayloadBudget)
    config.batch.maxQueueBytes
  if maxPayloadBytes < minRecordPayload then
    .error (.invalidConfig "record payload budget is too small")
  else .ok {
    opportunistic := config.batch.mode == "opportunistic"
    delayMin := config.batch.delayMinMs * 1000000
    delayMax := config.batch.delayMaxMs * 1000000
    maxPackets := config.batch.maxPackets
    maxPayloadBytes
    fragmentEnabled := config.fragment.enabled
    reassemblyTimeout := config.fragment.reassemblyTimeoutMs * 1000000
    maxInflightPackets := config.fragment.maxInflightPackets
    maxReassemblyBytes := config.fragment.maxReassemblyBytes
    maxFragmentsPerPacket := config.fragment.maxFragmentsPerPacket
    maxPacketBytes }

structure Frame where
  packetId : UInt32
  totalLen : Nat
  offset : Nat
  payload : List UInt8
  deriving DecidableEq, Repr

namespace Frame

def encode (f : Frame) : List UInt8 :=
  beBytes 4 f.packetId.toNat ++ beBytes 2 f.totalLen ++ beBytes 2 f.offset ++
    beBytes 2 f.payload.length ++ f.payload

def piece (f : Frame) : Piece UInt8 := ⟨f.offset, f.payload⟩

/-- The frame carries a nonempty part of a packet of its total length. -/
structure WellFormed (f : Frame) : Prop where
  total : f.totalLen ≤ u16Max
  nonempty : 0 < f.payload.length
  within : f.offset + f.payload.length ≤ f.totalLen

def Whole (f : Frame) : Prop := f.offset = 0 ∧ f.payload.length = f.totalLen

instance (f : Frame) : Decidable f.Whole := inferInstanceAs (Decidable (_ ∧ _))

end Frame

/-- Reads a frame from the rest of a record, with the checks on its metadata. -/
def nextFrame (config : RuntimeConfig) (rest : List UInt8) :
    Except RecordizerError (Frame × List UInt8) :=
  if rest.length < frameHeaderLen then .error .truncated
  else
    let packetId := UInt32.ofNat (ofBE (rest.take 4))
    let totalLen := ofBE ((rest.drop 4).take 2)
    let offset := ofBE ((rest.drop 6).take 2)
    let payloadLen := ofBE ((rest.drop 8).take 2)
    let body := rest.drop frameHeaderLen
    if totalLen = 0 ∨ config.maxPacketBytes < totalLen ∨ payloadLen = 0 ∨
        body.length < payloadLen ∨ totalLen < offset + payloadLen then
      .error .invalidMetadata
    else .ok (⟨packetId, totalLen, offset, body.take payloadLen⟩, body.drop payloadLen)

/-- The frames a record's bytes hold after the marker, and the error that ends
them early. Every frame takes ten bytes or more, so the number of bytes bounds the
number of passes. -/
def readFrames (config : RuntimeConfig) : Nat → List UInt8 → List Frame × Option RecordizerError
  | 0, _ => ([], none)
  | fuel + 1, rest =>
    if rest.isEmpty then ([], none)
    else
      match nextFrame config rest with
      | .error e => ([], some e)
      | .ok (frame, rest) =>
        let (frames, e) := readFrames config fuel rest
        (frame :: frames, e)

def framesOf (config : RuntimeConfig) (record : Record) : List Frame :=
  (readFrames config record.length (record.drop magic.length)).1

def envelope (frames : List Frame) : Record := magic ++ (frames.map Frame.encode).flatten

/-! ## What the reader accepts -/

variable {config : RuntimeConfig} {f : Frame} {frames : List Frame}

theorem nextFrame_ok {rest rest' : List UInt8} (h : nextFrame config rest = .ok (f, rest')) :
    f.WellFormed ∧ f.totalLen ≤ config.maxPacketBytes ∧ rest'.length < rest.length := by
  unfold nextFrame at h
  split at h
  · cases h
  · next hlen =>
    dsimp only at h
    split at h
    · cases h
    · next hmeta =>
      simp only [Except.ok.injEq, Prod.mk.injEq] at h
      obtain ⟨rfl, rfl⟩ := h
      have htotal := ofBE_lt ((rest.drop 4).take 2)
      have hpow : 256 ^ ((rest.drop 4).take 2).length ≤ 256 ^ 2 :=
        Nat.pow_le_pow_right (by omega) (by simp)
      simp only [List.length_drop, frameHeaderLen] at hmeta hlen
      refine ⟨⟨?_, ?_, ?_⟩, ?_, ?_⟩
      · dsimp only [u16Max]
        omega
      · simp only [List.length_take, List.length_drop, frameHeaderLen]
        omega
      · simp only [List.length_take, List.length_drop, frameHeaderLen]
        omega
      · dsimp only
        omega
      · simp only [List.length_drop, frameHeaderLen]
        omega

theorem mem_readFrames {fuel : Nat} {rest : List UInt8} (h : f ∈ (readFrames config fuel rest).1) :
    f.WellFormed ∧ f.totalLen ≤ config.maxPacketBytes := by
  induction fuel generalizing rest with
  | zero => simp [readFrames] at h
  | succ fuel ih =>
    unfold readFrames at h
    split at h
    · simp at h
    · split at h
      · simp at h
      · next frame rest' hnext =>
        rcases List.mem_cons.mp h with rfl | h
        · exact ⟨(nextFrame_ok hnext).1, (nextFrame_ok hnext).2.1⟩
        · exact ih h

theorem mem_framesOf {record : Record} (h : f ∈ framesOf config record) :
    f.WellFormed ∧ f.totalLen ≤ config.maxPacketBytes :=
  mem_readFrames h

/-! ## Reading what was written -/

@[simp] theorem length_encode (f : Frame) : f.encode.length = frameHeaderLen + f.payload.length := by
  simp only [Frame.encode, frameHeaderLen, List.length_append, length_beBytes]

theorem nextFrame_encode (hf : f.WellFormed) (rest : List UInt8) :
    nextFrame config (f.encode ++ rest) =
      if f.totalLen ≤ config.maxPacketBytes then .ok (f, rest) else .error .invalidMetadata := by
  obtain ⟨htotal, hne, hwithin⟩ := hf
  have hid : UInt32.ofNat (ofBE ((f.encode ++ rest).take 4)) = f.packetId := by
    have : (f.encode ++ rest).take 4 = beBytes 4 f.packetId.toNat := by
      simp [Frame.encode]
    rw [this, ofBE_beBytes f.packetId.toNat_lt, UInt32.ofNat_toNat]
  have h4 : ofBE (((f.encode ++ rest).drop 4).take 2) = f.totalLen :=
    ofBE_field (a := beBytes 4 f.packetId.toNat)
      (by simp only [Frame.encode, List.append_assoc]; rfl) (by simp)
      (by unfold u16Max at htotal; omega)
  have h6 : ofBE (((f.encode ++ rest).drop 6).take 2) = f.offset :=
    ofBE_field (a := beBytes 4 f.packetId.toNat ++ beBytes 2 f.totalLen)
      (by simp only [Frame.encode, List.append_assoc]; rfl) (by simp)
      (by unfold u16Max at htotal; omega)
  have h8 : ofBE (((f.encode ++ rest).drop 8).take 2) = f.payload.length :=
    ofBE_field (a := beBytes 4 f.packetId.toNat ++ beBytes 2 f.totalLen ++ beBytes 2 f.offset)
      (by simp only [Frame.encode, List.append_assoc]; rfl) (by simp)
      (by unfold u16Max at htotal; omega)
  have hbody : (f.encode ++ rest).drop frameHeaderLen = f.payload ++ rest := by
    have : f.encode ++ rest = (beBytes 4 f.packetId.toNat ++ beBytes 2 f.totalLen ++
        beBytes 2 f.offset ++ beBytes 2 f.payload.length) ++ (f.payload ++ rest) := by
      simp [Frame.encode]
    rw [this]
    exact List.drop_left' (by simp [frameHeaderLen])
  unfold nextFrame
  rw [if_neg (by rw [List.length_append, length_encode]; omega)]
  simp only [hid, h4, h6, h8, hbody, List.take_left, List.drop_left, List.length_append]
  by_cases hmax : f.totalLen ≤ config.maxPacketBytes
  · rw [if_neg (by omega), if_pos hmax]
  · rw [if_pos (by omega), if_neg hmax]

/-- **The frames of an envelope are read back in order**, up to the first whose
packet is too long for the reader. -/
theorem readFrames_encode (hf : ∀ f ∈ frames, f.WellFormed) {fuel : Nat}
    (hfuel : (frames.map Frame.encode).flatten.length ≤ fuel) :
    (readFrames config fuel (frames.map Frame.encode).flatten).1 <+: frames ∧
      ((∀ f ∈ frames, f.totalLen ≤ config.maxPacketBytes) →
        readFrames config fuel (frames.map Frame.encode).flatten = (frames, none)) := by
  induction frames generalizing fuel with
  | nil => cases fuel <;> simp [readFrames]
  | cons f frames ih =>
    rw [List.forall_mem_cons] at hf
    simp only [List.map_cons, List.flatten_cons, List.length_append, length_encode] at hfuel ⊢
    obtain ⟨fuel, rfl⟩ : ∃ n, fuel = n + 1 := ⟨fuel - 1, by unfold frameHeaderLen at hfuel; omega⟩
    have hrest : (frames.map Frame.encode).flatten.length ≤ fuel := by
      unfold frameHeaderLen at hfuel
      omega
    have hne : (f.encode ++ (frames.map Frame.encode).flatten).isEmpty = false := by
      rw [List.isEmpty_eq_false_iff, ← List.length_pos_iff]
      simp [frameHeaderLen]
    obtain ⟨ih1, ih2⟩ := ih hf.2 hrest
    unfold readFrames
    rw [hne, nextFrame_encode hf.1]
    by_cases hmax : f.totalLen ≤ config.maxPacketBytes
    · rw [if_pos hmax]
      refine ⟨List.cons_prefix_cons.mpr ⟨rfl, ih1⟩, fun hall => ?_⟩
      have := ih2 fun g hg => hall g (List.mem_cons_of_mem _ hg)
      simp [this]
    · rw [if_neg hmax]
      exact ⟨List.nil_prefix, fun hall => absurd (hall f List.mem_cons_self) hmax⟩

theorem framesOf_envelope_prefix (config : RuntimeConfig) (hf : ∀ f ∈ frames, f.WellFormed) :
    framesOf config (envelope frames) <+: frames := by
  unfold framesOf envelope
  rw [List.drop_left]
  exact (readFrames_encode hf (by simp)).1

theorem readFrames_envelope (hf : ∀ f ∈ frames, f.WellFormed)
    (hmax : ∀ f ∈ frames, f.totalLen ≤ config.maxPacketBytes) :
    readFrames config (envelope frames).length ((envelope frames).drop magic.length) =
      (frames, none) := by
  unfold envelope
  rw [List.drop_left]
  exact (readFrames_encode hf (by simp)).2 hmax

end Qeli.Mux
