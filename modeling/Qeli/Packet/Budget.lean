import Mathlib.Order.Bounds.Basic
import Qeli.Packet.Delivery

/-!
# Record budgets

The sizes that `protocol/packet.rs` computes ahead of a call: the length of a record,
the most padding and the most payload that keep it within a budget of bytes. All three
answer through `record_sizes`, whose checked additions never decide: a record that is
too long for the format is refused long before a `usize` runs over
(`recordSizes_eq`). The encoder emits a record of exactly the announced length, and its
16-bit length field holds the length of what follows.
-/

namespace Qeli.Packet

open Qeli.Lib Qeli.Wire

def maxTunnelMtu : Nat := maxRecordSize - nonceSize - counterSize - tagSize - 2

namespace PacketCodec

def encryptedRecordLen (self : PacketCodec) (dataLen paddingLen : Nat) :
    Except PacketError Nat := do
  let (_, plaintextLen, headerLen) ← self.recordSizes dataLen paddingLen
  return headerLen + nonceSize + plaintextLen + tagSize

/-- The room that a budget leaves over the bare record, within the format and `limit`: the
body of the two searches below. -/
def roomInRecordBudget (self : PacketCodec) (dataLen maxRecordLen limit : Nat) :
    Except PacketError Nat := do
  let baseLen ← self.encryptedRecordLen dataLen 0
  if maxRecordLen < baseLen then .error .packetTooLarge
  else
    let (_, _, headerLen) ← self.recordSizes dataLen 0
    match checkedAdd u64Max headerLen maxRecordSize with
    | none => .error .packetTooLarge
    | some formatCeiling => .ok (min (min maxRecordLen formatCeiling - baseLen) limit)

def maxPaddingForRecordBudget (self : PacketCodec) (dataLen maxRecordLen : Nat) :
    Except PacketError Nat :=
  self.roomInRecordBudget dataLen maxRecordLen u16Max

def maxDataForRecordBudget (self : PacketCodec) (maxRecordLen : Nat) :
    Except PacketError Nat :=
  self.roomInRecordBudget 0 maxRecordLen maxTunnelMtu

/-! ## The sizes -/

def payloadLen (dataLen paddingLen : Nat) : Nat :=
  nonceSize + (counterSize + dataLen + min paddingLen u16Max + 2) + tagSize

theorem payloadLen_eq (dataLen paddingLen : Nat) :
    payloadLen dataLen paddingLen = 38 + dataLen + min paddingLen u16Max := by
  unfold payloadLen nonceSize counterSize tagSize
  omega

theorem maxRecordSize_lt_u64Max : maxRecordSize < u64Max := by decide

/-- The checked additions stop nothing that the record limit lets through. -/
theorem recordSizes_eq (c : PacketCodec) (d p : Nat) :
    c.recordSizes d p =
      if payloadLen d p ≤ maxRecordSize then
        .ok (min p u16Max, counterSize + d + min p u16Max + 2, c.framing.headerLen)
      else .error .packetTooLarge := by
  have hmax := maxRecordSize_lt_u64Max
  by_cases hfits : payloadLen d p ≤ maxRecordSize
  · unfold payloadLen at hfits
    have hplain : ((checkedAdd u64Max counterSize d).bind
        (checkedAdd u64Max · (min p u16Max))).bind (checkedAdd u64Max · 2) =
        some (counterSize + d + min p u16Max + 2) := by
      simp only [Option.bind_eq_some_iff, checkedAdd_eq_some]
      exact ⟨_, ⟨_, ⟨by omega, rfl⟩, by omega, rfl⟩, by omega, rfl⟩
    have hpayload : (checkedAdd u64Max nonceSize (counterSize + d + min p u16Max + 2)).bind
        (checkedAdd u64Max · tagSize) =
        some (nonceSize + (counterSize + d + min p u16Max + 2) + tagSize) := by
      simp only [Option.bind_eq_some_iff, checkedAdd_eq_some]
      exact ⟨_, ⟨by omega, rfl⟩, by omega, rfl⟩
    rw [if_pos (show payloadLen d p ≤ maxRecordSize from hfits)]
    unfold recordSizes
    dsimp only
    rw [hplain]
    dsimp only
    rw [hpayload]
    exact if_neg (Nat.not_lt.mpr hfits)
  · rw [if_neg hfits]
    cases hsizes : c.recordSizes d p with
    | error error => rw [recordSizes_error hsizes]
    | ok sizes =>
      have hok : c.recordSizes (List.replicate d (0 : UInt8)).length
          (List.replicate p (0 : UInt8)).length = .ok sizes := by
        rw [List.length_replicate, List.length_replicate, hsizes]
      obtain ⟨-, -, hle⟩ := recordSizes_ok hok
      simp only [plaintextLen, Packet.PacketCodec.paddingLen, List.length_replicate] at hle
      exact absurd hle hfits

theorem encryptedRecordLen_eq (c : PacketCodec) (d p : Nat) :
    c.encryptedRecordLen d p =
      if payloadLen d p ≤ maxRecordSize then .ok (c.framing.headerLen + payloadLen d p)
      else .error .packetTooLarge := by
  unfold encryptedRecordLen
  rw [recordSizes_eq]
  split
  · unfold payloadLen
    simp only [Nat.add_assoc]
    rfl
  · rfl

/-- A record for these sizes exists and takes at most `budget` bytes. -/
def FitsBudget (c : PacketCodec) (budget d p : Nat) : Prop :=
  ∃ len, c.encryptedRecordLen d p = .ok len ∧ len ≤ budget

variable {c : PacketCodec} {budget d : Nat} {data padding record : List UInt8}

theorem fitsBudget_iff {p : Nat} :
    c.FitsBudget budget d p ↔
      payloadLen d p ≤ maxRecordSize ∧ c.framing.headerLen + payloadLen d p ≤ budget := by
  unfold FitsBudget
  rw [encryptedRecordLen_eq]
  constructor
  · rintro ⟨len, hlen, hle⟩
    split at hlen
    · next hfits =>
      cases hlen
      exact ⟨hfits, hle⟩
    · cases hlen
  · rintro ⟨hfits, hle⟩
    exact ⟨_, if_pos hfits, hle⟩

/-! ## The searches -/

theorem roomInRecordBudget_ok (limit : Nat) (h : c.FitsBudget budget d 0) :
    c.roomInRecordBudget d budget limit =
      .ok (min (min budget (c.framing.headerLen + maxRecordSize) -
        (c.framing.headerLen + payloadLen d 0)) limit) := by
  obtain ⟨hfits, hbudget⟩ := fitsBudget_iff.mp h
  have hlen := encryptedRecordLen_eq c d 0
  have hsizes := recordSizes_eq c d 0
  rw [if_pos hfits] at hlen hsizes
  have hceiling : checkedAdd u64Max c.framing.headerLen maxRecordSize =
      some (c.framing.headerLen + maxRecordSize) := by
    cases c.framing <;> rfl
  unfold roomInRecordBudget
  rw [hlen, hsizes]
  simp only [bind, Except.bind]
  rw [if_neg (Nat.not_lt.mpr hbudget), hceiling]

theorem roomInRecordBudget_error (limit : Nat) (h : ¬ c.FitsBudget budget d 0) :
    c.roomInRecordBudget d budget limit = .error .packetTooLarge := by
  have hlen := encryptedRecordLen_eq c d 0
  unfold roomInRecordBudget
  by_cases hfits : payloadLen d 0 ≤ maxRecordSize
  · rw [if_pos hfits] at hlen
    have hover : budget < c.framing.headerLen + payloadLen d 0 :=
      Nat.not_le.mp fun hle => h (fitsBudget_iff.mpr ⟨hfits, hle⟩)
    rw [hlen]
    exact if_pos hover
  · rw [if_neg hfits] at hlen
    rw [hlen]
    rfl

/-- A search that finds the greatest element of a set where the bare record fits answers
with that element or fails. -/
theorem roomInRecordBudget_iff {limit : Nat} {s : Set Nat}
    (hgreatest : c.FitsBudget budget d 0 → IsGreatest s
      (min (min budget (c.framing.headerLen + maxRecordSize) -
      (c.framing.headerLen + payloadLen d 0)) limit))
    (hbare : s.Nonempty → c.FitsBudget budget d 0) :
    (∀ m, c.roomInRecordBudget d budget limit = .ok m ↔ IsGreatest s m) ∧
    (c.roomInRecordBudget d budget limit = .error .packetTooLarge ↔
      ¬ c.FitsBudget budget d 0) := by
  by_cases hfits : c.FitsBudget budget d 0
  · rw [roomInRecordBudget_ok limit hfits]
    refine ⟨fun m => ⟨?_, fun hm => ?_⟩, by simp [hfits]⟩
    · rintro ⟨⟩
      exact hgreatest hfits
    · rw [(hgreatest hfits).unique hm]
  · rw [roomInRecordBudget_error limit hfits]
    refine ⟨fun m => ⟨?_, fun hm => ?_⟩, by simp [hfits]⟩
    · rintro ⟨⟩
    · exact absurd (hbare ⟨m, hm.1⟩) hfits

theorem isGreatest_maxPadding (h : c.FitsBudget budget d 0) :
    IsGreatest {p | p ≤ u16Max ∧ c.FitsBudget budget d p}
      (min (min budget (c.framing.headerLen + maxRecordSize) -
        (c.framing.headerLen + payloadLen d 0)) u16Max) := by
  obtain ⟨hfits, hbudget⟩ := fitsBudget_iff.mp h
  rw [payloadLen_eq] at hfits hbudget
  simp only [IsGreatest, upperBounds, Set.mem_ofPred_eq, fitsBudget_iff, payloadLen_eq]
  refine ⟨⟨Nat.min_le_right _ _, ?_⟩, ?_⟩
  · omega
  · rintro p ⟨hp, hrecord, hwithin⟩
    omega

/-- The payload limit of the tunnel is that of the record format, so it never binds. -/
theorem isGreatest_maxData (h : c.FitsBudget budget 0 0) :
    IsGreatest {d | c.FitsBudget budget d 0}
      (min (min budget (c.framing.headerLen + maxRecordSize) -
        (c.framing.headerLen + payloadLen 0 0)) maxTunnelMtu) := by
  obtain ⟨hfits, hbudget⟩ := fitsBudget_iff.mp h
  have hmtu : maxTunnelMtu + 38 = maxRecordSize := by decide
  rw [payloadLen_eq] at hfits hbudget
  simp only [IsGreatest, upperBounds, Set.mem_ofPred_eq, fitsBudget_iff, payloadLen_eq]
  refine ⟨?_, ?_⟩
  · omega
  · rintro d ⟨hrecord, hwithin⟩
    omega

theorem FitsBudget.mono {d' p p' : Nat} (h : c.FitsBudget budget d p) (hd : d' ≤ d) (hp : p' ≤ p) :
    c.FitsBudget budget d' p' := by
  rw [fitsBudget_iff, payloadLen_eq] at h ⊢
  omega

/-! ## Emitted records -/

variable {prpRound : PrpRound}

theorem IsRecord.length_eq {seq : Nat} (h : IsRecord prpRound c seq data padding record) :
    record.length = c.framing.headerLen + payloadLen data.length padding.length := by
  obtain ⟨sealed, tag, hsealed, rfl⟩ := h.bytes
  have hbody := c.cipher.length_encrypt hsealed
  rw [length_plaintext] at hbody
  have htag : tag.toList.length = tagSize := Vector.length_toList
  rw [List.length_append, List.length_append, length_recordHead, hbody, htag]
  unfold payloadLen plaintextLen PacketCodec.paddingLen
  omega

theorem IsRecord.headerPayloadLen_eq {seq : Nat} (h : IsRecord prpRound c seq data padding record) :
    headerPayloadLen c.framing record = .ok (payloadLen data.length padding.length) := by
  obtain ⟨sealed, tag, -, rfl⟩ := h.bytes
  rw [List.append_assoc]
  exact headerPayloadLen_recordHead _ _ _ h.fits

theorem encryptPacket_snd (c : PacketCodec) (data padding : List UInt8) :
    (c.encryptPacket prpRound data padding).2 =
      (c.encryptPacketInto prpRound data padding []).2.2.map
        (fun _ => (c.encryptPacketInto prpRound data padding []).2.1) := by
  unfold encryptPacket
  split <;> next heq => rw [heq]; rfl

theorem encryptPacket_isRecord (h : (c.encryptPacket prpRound data padding).2 = .ok record) :
    IsRecord prpRound c c.counter data padding record := by
  rw [encryptPacket_snd] at h
  have hcall := encryptPacketInto_encrypts prpRound c data padding []
  generalize c.encryptPacketInto prpRound data padding [] = r at h hcall
  cases hcall with
  | refused | failed => cases h
  | emitted hrecord =>
    cases h
    exact hrecord

theorem encryptPacket_tooLarge_iff (hcounter : c.counter < u64Max - 1000) :
    (c.encryptPacket prpRound data padding).2 = .error .packetTooLarge ↔
      c.recordSizes data.length padding.length = .error .packetTooLarge := by
  rw [encryptPacket_snd]
  unfold encryptPacketInto
  rw [if_neg (Nat.not_le.mpr hcounter)]
  cases hsizes : c.recordSizes data.length padding.length with
  | error error => simp [Except.map]
  | ok sizes =>
    obtain ⟨n, len, header⟩ := sizes
    dsimp only
    split <;> simp [Except.map]

theorem encryptPacket_seals (hcounter : c.counter < u64Max - 1000)
    (hfits : payloadLen data.length padding.length ≤ maxRecordSize)
    (haead : (c.encryptPacket prpRound data padding).2 ≠ .error .encryptFailed) :
    ∃ record, (c.encryptPacket prpRound data padding).2 = .ok record := by
  rw [encryptPacket_snd] at haead ⊢
  unfold encryptPacketInto at haead ⊢
  rw [if_neg (Nat.not_le.mpr hcounter), recordSizes_eq, if_pos hfits] at haead ⊢
  dsimp only at haead ⊢
  split at haead
  · exact absurd rfl haead
  · exact ⟨_, rfl⟩

/-- **The record budgets are exact.** -/
theorem record_budgets_exact (prpRound : PrpRound) (c : PacketCodec) :
    -- a call that returns a record: its length was announced, its length field is whole
    (∀ data padding record, (c.encryptPacket prpRound data padding).2 = .ok record →
      c.encryptedRecordLen data.length padding.length = .ok record.length ∧
      headerPayloadLen c.framing record = .ok (record.length - c.framing.headerLen)) ∧
    -- sizes that are refused ahead of a call are refused by the call
    (∀ data padding, c.counter < u64Max - 1000 →
      (c.encryptedRecordLen data.length padding.length = .error .packetTooLarge ↔
        (c.encryptPacket prpRound data padding).2 = .error .packetTooLarge)) ∧
    (∀ d budget,
      (∀ m, c.maxPaddingForRecordBudget d budget = .ok m ↔
        IsGreatest {p | p ≤ u16Max ∧ c.FitsBudget budget d p} m) ∧
      (c.maxPaddingForRecordBudget d budget = .error .packetTooLarge ↔
        ¬ c.FitsBudget budget d 0)) ∧
    (∀ budget,
      (∀ m, c.maxDataForRecordBudget budget = .ok m ↔
        IsGreatest {d | c.FitsBudget budget d 0} m) ∧
      (c.maxDataForRecordBudget budget = .error .packetTooLarge ↔
        ¬ c.FitsBudget budget 0 0)) := by
  refine ⟨?_, ?_, ?_, ?_⟩
  · intro data padding record hrecord
    have hcall := encryptPacket_isRecord hrecord
    have hfits : payloadLen data.length padding.length ≤ maxRecordSize := hcall.fits
    have hlen := hcall.length_eq
    rw [encryptedRecordLen_eq, if_pos hfits, hcall.headerPayloadLen_eq, hlen,
      Nat.add_sub_cancel_left]
    exact ⟨rfl, rfl⟩
  · intro data padding hcounter
    rw [encryptPacket_tooLarge_iff hcounter, encryptedRecordLen_eq, recordSizes_eq]
    split <;> simp
  · intro d budget
    exact roomInRecordBudget_iff isGreatest_maxPadding
      fun hs => hs.some_mem.2.mono le_rfl (Nat.zero_le _)
  · intro budget
    exact roomInRecordBudget_iff isGreatest_maxData
      fun hs => FitsBudget.mono hs.some_mem (Nat.zero_le _) le_rfl

/-- "hello qeli" makes a record of 53 bytes, and 512 bytes leave an empty heartbeat 469
bytes of padding. -/
theorem record_budgets_exact_conformance :
    conformanceCodec.encryptedRecordLen 10 0 = .ok 53 ∧
    IsGreatest {p | p ≤ u16Max ∧ conformanceCodec.FitsBudget 512 0 p} 469 := by
  obtain ⟨hemits, -, hpadding, -⟩ := record_budgets_exact conformancePrpRound conformanceCodec
  let call := conformanceCodec.encryptPacket conformancePrpRound
    [0x68, 0x65, 0x6c, 0x6c, 0x6f, 0x20, 0x71, 0x65, 0x6c, 0x69] []
  have hok : call.2 = .ok (call.2.toOption.getD []) := by decide +kernel
  have hlen : (call.2.toOption.getD []).length = 53 := by decide +kernel
  have hlong := (hemits _ _ _ hok).1
  rw [hlen] at hlong
  exact ⟨hlong, ((hpadding 0 512).1 469).mp (by decide +kernel)⟩

end PacketCodec

end Qeli.Packet
