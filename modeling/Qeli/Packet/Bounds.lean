import Qeli.Lib.Checked
import Qeli.Packet.Codec

/-!
# Opening any bytes

`decrypt_packet_in_place` of `protocol/packet.rs` once more, with every index, slice
and subtraction of its body as an operation that may stop the program (`Lib.Checked`):
`decryptPacketInPlaceChecked` is the function as written, `decryptPacketInPlace` of
`Packet.Codec` its result. `decryptPacketInPlaceChecked_eq` says that no byte string
and no codec stops it. A call that fails leaves the codec as it was and the buffer
empty, and the allocating `decryptPacket` agrees with the call in place.
-/

namespace Qeli.Packet

open Qeli.Lib Qeli.Wire

/-! ## The replay window -/

namespace ReplayWindow

def getBitChecked (self : ReplayWindow) (distance : Nat) : Option Bool := do
  let word ← self.bits[distance / 64]?
  return (word >>> (distance % 64)) &&& 1 != 0

def setBitChecked (self : ReplayWindow) (distance : Nat) : Option ReplayWindow := do
  let word ← self.bits[distance / 64]?
  let bits ← Checked.set self.bits (distance / 64) (word ||| 1#64 <<< (distance % 64))
  return { self with bits }

def shiftChecked (self : ReplayWindow) (n : Nat) : Option ReplayWindow := do
  let words := n / 64
  let off := n % 64
  if off = 0 then
    let bits ← Checked.overwriteDown
      (fun bits i => if words ≤ i then bits[i - words]? else some 0) replayWords self.bits
    return { self with bits }
  else
    let bits ← Checked.overwriteDown
      (fun bits i => do
        let lo ← if words ≤ i then bits[i - words]?.map fun (word : BitVec 64) => word <<< off else some 0
        let hi ← if words < i then bits[i - words - 1]?.map fun (word : BitVec 64) => word >>> (64 - off) else some 0
        return lo ||| hi) replayWords self.bits
    return { self with bits }

def checkAndRecordChecked (self : ReplayWindow) (seq : Nat) : Option (ReplayWindow × Bool) := do
  if !self.initialized then
    let self ← setBitChecked { highest := seq, initialized := true, bits := .replicate replayWords 0 } 0
    return (self, true)
  else if self.highest < seq then
    let advance ← Checked.sub seq self.highest
    let moved ← if replayWindowSize ≤ advance then
        some { self with bits := .replicate replayWords 0 }
      else self.shiftChecked advance
    let self ← setBitChecked { moved with highest := seq } 0
    return (self, true)
  else
    let distance ← Checked.sub self.highest seq
    if replayWindowSize ≤ distance then return (self, false)
    else if ← self.getBitChecked distance then return (self, false)
    else
      let self ← self.setBitChecked distance
      return (self, true)

theorem getBitChecked_eq (w : ReplayWindow) {d : Nat} (hd : d < replayWindowSize) :
    w.getBitChecked d = some (w.getBit d) := by
  unfold getBitChecked getBit
  rw [Checked.word_eq (show d / 64 < replayWords from Nat.div_lt_of_lt_mul hd)]
  rfl

theorem setBitChecked_eq (w : ReplayWindow) {d : Nat} (hd : d < replayWindowSize) :
    w.setBitChecked d = some (w.setBit d) := by
  have hword : d / 64 < replayWords := Nat.div_lt_of_lt_mul hd
  unfold setBitChecked setBit
  rw [Checked.word_eq hword]
  dsimp only [Option.bind_eq_bind, Option.bind_some]
  rw [Checked.set_eq hword]
  rfl

theorem shiftChecked_eq (w : ReplayWindow) (n : Nat) : w.shiftChecked n = some (w.shift n) := by
  unfold shiftChecked shift
  dsimp only
  split
  · rw [Checked.overwriteDown_eq (fun bits i hi => ?_) (Nat.le_refl _)]
    · rfl
    · split
      · exact Checked.word_eq (by omega)
      · rfl
  · rw [Checked.overwriteDown_eq (fun bits i hi => ?_) (Nat.le_refl _)]
    · rfl
    · have hlo := @Checked.word_eq replayWords bits (i - n / 64) (by omega)
      have hhi := @Checked.word_eq replayWords bits (i - n / 64 - 1) (by omega)
      rw [hlo, hhi]
      split <;> split <;> rfl

theorem checkAndRecordChecked_eq (w : ReplayWindow) (seq : Nat) :
    w.checkAndRecordChecked seq = some (w.checkAndRecord seq) := by
  have hzero : 0 < replayWindowSize := by decide
  unfold checkAndRecordChecked checkAndRecord
  dsimp only
  split
  · rw [setBitChecked_eq _ hzero]
    rfl
  · split
    · next hlt =>
      rw [Checked.sub_eq hlt.le, Option.bind_eq_bind, Option.bind_some]
      split
      · rw [Option.bind_eq_bind, Option.bind_some, setBitChecked_eq _ hzero]
        rfl
      · rw [shiftChecked_eq, Option.bind_eq_bind, Option.bind_some, setBitChecked_eq _ hzero]
        rfl
    · next hle =>
      rw [Checked.sub_eq (by omega), Option.bind_eq_bind, Option.bind_some]
      split
      · rfl
      · next hd =>
        rw [getBitChecked_eq _ (by omega), Option.bind_eq_bind, Option.bind_some]
        split
        · rfl
        · rw [setBitChecked_eq _ (by omega)]
          rfl

theorem eq_of_refused {w w' : ReplayWindow} {seq : Nat} (h : w.checkAndRecord seq = (w', false)) :
    w' = w := by
  unfold checkAndRecord at h
  dsimp only at h
  split at h
  · cases h
  · split at h
    · cases h
    · split at h
      · exact (congrArg Prod.fst h).symm
      · split at h
        · exact (congrArg Prod.fst h).symm
        · cases h

end ReplayWindow

/-! ## The codec -/

namespace PacketCodec

def headerPayloadLenChecked (framing : Framing) (record : List UInt8) :
    Option (Except PacketError Nat) := do
  match framing with
  | .tls =>
    let contentType ← record[0]?
    if contentType ≠ 0x17 then return .error (.wrongContentType contentType)
    else
      let major ← record[1]?
      let minor ← record[2]?
      if major ≠ 0x03 ∨ minor ≠ 0x03 then return .error (.wrongContentType major)
      else return .ok (ofBE (← Checked.elements record 3 2))
  | .raw => return .ok (ofBE (← Checked.elements record 0 2))

def framedRecordBoundsChecked (self : PacketCodec) (record : List UInt8) :
    Option (Except PacketError (Nat × Nat)) := do
  let headerLen := self.framing.headerLen
  if record.length < headerLen + nonceSize + tagSize + counterSize then
    return .error .packetTooShort
  else
    match ← headerPayloadLenChecked self.framing record with
    | .error error => return .error error
    | .ok payloadLen =>
      if maxRecordSize < payloadLen then return .error .packetTooLarge
      else
        let recordLen := headerLen + payloadLen
        if record.length < recordLen then return .error .packetTooShort
        else return .ok (headerLen, recordLen)

def unpackInPlaceChecked (self : PacketCodec) (record : List UInt8) (nonceEnd tagStart : Nat) :
    Option (PacketCodec × List UInt8 × Except PacketError Unit) := do
  let plaintextLen ← Checked.sub tagStart nonceEnd
  if plaintextLen < counterSize + 2 then return (self, record, .error .packetTooShort)
  else
    let packetCounter := ofBE (← Checked.elements record nonceEnd 8)
    let paddingLen := ofBE (← Checked.elements record (← Checked.sub tagStart 2) 2)
    if plaintextLen < counterSize + paddingLen + 2 then
      return (self, record, .error .invalidPadding)
    else
      let (replayWindow, fresh) ← self.replayWindow.checkAndRecordChecked packetCounter
      let self := { self with replayWindow }
      if !fresh then return (self, record, .error .replayDetected)
      else
        let dataLen ← Checked.sub (← Checked.sub (← Checked.sub plaintextLen counterSize) 2) paddingLen
        let dataStart := nonceEnd + counterSize
        let dataEnd := dataStart + dataLen
        let record ← Checked.copyToFront record dataStart dataEnd
        return (self, record.take dataLen, .ok ())

/-- The two `get(..)` of the source return an `Option` and stop nothing. -/
def decryptPacketInPlaceInnerChecked (self : PacketCodec) (record : List UInt8) :
    Option (PacketCodec × List UInt8 × Except PacketError Unit) := do
  match ← self.framedRecordBoundsChecked record with
  | .error error => return (self, record, .error error)
  | .ok (headerLen, recordLen) =>
    if recordLen ≠ record.length then return (self, record, .error .frameLengthMismatch)
    else
      let nonceEnd := headerLen + nonceSize
      match slice 12 record headerLen nonceEnd with
      | none => return (self, record, .error .packetTooShort)
      | some nonce =>
        if recordLen < tagSize ∨ recordLen - tagSize < nonceEnd then
          return (self, record, .error .packetTooShort)
        else
          let tagStart := recordLen - tagSize
          match slice 16 record tagStart recordLen with
          | none => return (self, record, .error .packetTooShort)
          | some tag =>
            let body ← Checked.range record nonceEnd tagStart
            match self.cipher.decryptInPlaceDetached nonce body tag with
            | none => return (self, record, .error .decryptFailed)
            | some opened =>
              let record := record.take nonceEnd ++ opened ++ record.drop tagStart
              self.unpackInPlaceChecked record nonceEnd tagStart

def decryptPacketInPlaceChecked (self : PacketCodec) (record : List UInt8) :
    Option (PacketCodec × List UInt8 × Except PacketError Unit) := do
  match ← self.decryptPacketInPlaceInnerChecked record with
  | (self, record, .ok ()) => return (self, record, .ok ())
  | (self, _, .error error) => return (self, [], .error error)

/-- The allocating wrapper. -/
def decryptPacket (self : PacketCodec) (record : List UInt8) :
    PacketCodec × Except PacketError (List UInt8) :=
  match self.framedRecordBounds record with
  | .error error => (self, .error error)
  | .ok (_, recordLen) =>
    if recordLen ≠ record.length then (self, .error .frameLengthMismatch)
    else
      match self.decryptPacketInPlace record with
      | (self, plaintext, .ok ()) => (self, .ok plaintext)
      | (self, _, .error error) => (self, .error error)

/-! ## Every index is in range -/

variable {record record' : List UInt8} {c c' : PacketCodec} {error : PacketError}

theorem take_two_drop {i : Nat} (h : i + 2 ≤ record.length) :
    (record.drop i).take 2 = [record.getD i 0, record.getD (i + 1) 0] := by
  rw [List.drop_eq_getElem_cons (show i < record.length by omega),
    List.drop_eq_getElem_cons (show i + 1 < record.length by omega)]
  simp only [List.take_succ_cons, List.take_zero, List.getD_eq_getElem?_getD,
    List.getElem?_eq_getElem (show i < record.length by omega),
    List.getElem?_eq_getElem (show i + 1 < record.length by omega), Option.getD_some]

theorem headerPayloadLenChecked_eq {framing : Framing} (h : framing.headerLen ≤ record.length) :
    headerPayloadLenChecked framing record = some (headerPayloadLen framing record) := by
  unfold headerPayloadLenChecked headerPayloadLen
  cases framing with
  | tls =>
    have hlen : 5 ≤ record.length := h
    dsimp only
    rw [Checked.index_eq (show 0 < record.length by omega) 0,
      Checked.index_eq (show 1 < record.length by omega) 0,
      Checked.index_eq (show 2 < record.length by omega) 0,
      Checked.elements_eq (show 3 + 2 ≤ record.length by omega), take_two_drop hlen]
    dsimp only [Option.bind_eq_bind, Option.bind_some]
    split
    · rfl
    · split <;> rfl
  | raw =>
    have hlen : 2 ≤ record.length := h
    dsimp only
    rw [Checked.elements_eq (show 0 + 2 ≤ record.length by omega), take_two_drop (by omega)]
    rfl

theorem framedRecordBoundsChecked_eq (c : PacketCodec) (record : List UInt8) :
    c.framedRecordBoundsChecked record = some (c.framedRecordBounds record) := by
  unfold framedRecordBoundsChecked framedRecordBounds
  dsimp only
  split
  · rfl
  · rw [headerPayloadLenChecked_eq (by omega)]
    dsimp only [Option.bind_eq_bind, Option.bind_some]
    cases headerPayloadLen c.framing record with
    | error error => rfl
    | ok payloadLen =>
      dsimp only
      split
      · rfl
      · split <;> rfl

theorem unpackInPlaceChecked_eq (c : PacketCodec) {nonceEnd tagStart : Nat}
    (hle : nonceEnd ≤ tagStart) (hlen : tagStart ≤ record.length) :
    c.unpackInPlaceChecked record nonceEnd tagStart =
      some (c.unpackInPlace record nonceEnd tagStart) := by
  unfold unpackInPlaceChecked unpackInPlace
  rw [Checked.sub_eq hle]
  dsimp only [Option.bind_eq_bind, Option.bind_some]
  split
  · rfl
  · next hlong =>
    have hsize : counterSize = 8 := rfl
    rw [Checked.elements_eq (by omega), Option.bind_some, Checked.sub_eq (by omega),
      Option.bind_some, Checked.elements_eq (by omega), Option.bind_some]
    split
    · rfl
    · next hpadding =>
      rw [ReplayWindow.checkAndRecordChecked_eq, Option.bind_some]
      split
      · rfl
      · rw [Checked.sub_eq (by omega), Option.bind_some, Checked.sub_eq (by omega),
          Option.bind_some, Checked.sub_eq (by omega), Option.bind_some,
          Checked.copyToFront_eq (by omega) (by omega), Option.bind_some, Nat.add_sub_cancel_left]
        rfl

theorem framedRecordBounds_ok {headerLen recordLen : Nat}
    (h : c.framedRecordBounds record = .ok (headerLen, recordLen)) :
    headerLen = c.framing.headerLen ∧ recordLen ≤ record.length := by
  unfold framedRecordBounds at h
  dsimp only at h
  split at h
  · cases h
  · split at h
    · cases h
    · split at h
      · cases h
      · split at h
        · cases h
        · next hlen =>
          cases h
          exact ⟨rfl, by omega⟩

theorem decryptPacketInPlaceInnerChecked_eq (c : PacketCodec) (record : List UInt8) :
    c.decryptPacketInPlaceInnerChecked record = some (c.decryptPacketInPlaceInner record) := by
  unfold decryptPacketInPlaceInnerChecked decryptPacketInPlaceInner
  rw [framedRecordBoundsChecked_eq]
  dsimp only [Option.bind_eq_bind, Option.bind_some]
  cases hbounds : c.framedRecordBounds record with
  | error error => rfl
  | ok bounds =>
    obtain ⟨headerLen, recordLen⟩ := bounds
    have hlen := (framedRecordBounds_ok hbounds).2
    dsimp only
    split
    · rfl
    · cases slice 12 record headerLen (headerLen + nonceSize) with
      | none => rfl
      | some nonce =>
        dsimp only
        split
        · rfl
        · next htag =>
          cases slice 16 record (recordLen - tagSize) recordLen with
          | none => rfl
          | some tag =>
            dsimp only
            rw [Checked.range_eq (by omega) (by omega), Option.bind_some]
            generalize hbody : (record.drop (headerLen + nonceSize)).take
              (recordLen - tagSize - (headerLen + nonceSize)) = body
            cases hopen : c.cipher.decryptInPlaceDetached nonce body tag with
            | none => rfl
            | some opened =>
              have hopened := c.cipher.length_decrypt hopen
              refine unpackInPlaceChecked_eq c (by omega) ?_
              rw [← hbody] at hopened
              simp only [List.length_append, List.length_take, List.length_drop] at hopened ⊢
              omega

/-- **Opening never stops the program**, whatever the bytes and the cipher. -/
theorem decryptPacketInPlaceChecked_eq (c : PacketCodec) (record : List UInt8) :
    c.decryptPacketInPlaceChecked record = some (c.decryptPacketInPlace record) := by
  unfold decryptPacketInPlaceChecked decryptPacketInPlace
  rw [decryptPacketInPlaceInnerChecked_eq]
  dsimp only [Option.bind_eq_bind, Option.bind_some]
  rcases c.decryptPacketInPlaceInner record with ⟨c', record', _ | _⟩ <;> rfl

/-! ## A failed call -/

theorem unpackInPlace_error {nonceEnd tagStart : Nat}
    (h : c.unpackInPlace record nonceEnd tagStart = (c', record', .error error)) : c' = c := by
  unfold unpackInPlace at h
  dsimp only at h
  split at h
  · exact (congrArg Prod.fst h).symm
  · split at h
    · exact (congrArg Prod.fst h).symm
    · generalize hcheck : c.replayWindow.checkAndRecord _ = r at h
      obtain ⟨w, fresh⟩ := r
      cases fresh with
      | false =>
        obtain rfl := ReplayWindow.eq_of_refused hcheck
        exact (congrArg Prod.fst h).symm
      | true => cases h

theorem decryptPacketInPlaceInner_error
    (h : c.decryptPacketInPlaceInner record = (c', record', .error error)) : c' = c := by
  unfold decryptPacketInPlaceInner at h
  dsimp only at h
  split at h
  · exact (congrArg Prod.fst h).symm
  · split at h
    · exact (congrArg Prod.fst h).symm
    · split at h
      · exact (congrArg Prod.fst h).symm
      · split at h
        · exact (congrArg Prod.fst h).symm
        · split at h
          · exact (congrArg Prod.fst h).symm
          · split at h
            · exact (congrArg Prod.fst h).symm
            · exact unpackInPlace_error h

theorem decryptPacketInPlace_error (h : c.decryptPacketInPlace record = (c', record', .error error)) :
    c' = c ∧ record' = [] := by
  unfold decryptPacketInPlace at h
  rcases hinner : c.decryptPacketInPlaceInner record with ⟨d, rest, e | u⟩
  · rw [hinner] at h
    cases h
    exact ⟨decryptPacketInPlaceInner_error hinner, rfl⟩
  · rw [hinner] at h
    cases h

/-! ## The two decoders -/

def allocated (r : PacketCodec × List UInt8 × Except PacketError Unit) :
    PacketCodec × Except PacketError (List UInt8) :=
  (r.1, r.2.2.map fun _ => r.2.1)

theorem decryptPacket_eq (c : PacketCodec) (record : List UInt8) :
    c.decryptPacket record = allocated (c.decryptPacketInPlace record) := by
  unfold decryptPacket
  cases hbounds : c.framedRecordBounds record with
  | error error =>
    have hinner : c.decryptPacketInPlaceInner record = (c, record, .error error) := by
      unfold decryptPacketInPlaceInner
      rw [hbounds]
    unfold decryptPacketInPlace
    rw [hinner]
    rfl
  | ok bounds =>
    obtain ⟨headerLen, recordLen⟩ := bounds
    dsimp only
    split
    · next hlen =>
      have hinner : c.decryptPacketInPlaceInner record =
          (c, record, .error .frameLengthMismatch) := by
        unfold decryptPacketInPlaceInner
        rw [hbounds]
        exact if_pos hlen
      unfold decryptPacketInPlace
      rw [hinner]
      rfl
    · rcases c.decryptPacketInPlace record with ⟨c', plaintext, _ | _⟩ <;> rfl

/-- **Any bytes, any codec**: opening them in place stops at no index; a call that
fails leaves the replay window as it was and the buffer empty; and `decrypt_packet`
returns the same payload or the same error, with the same codec after it. -/
theorem decrypt_any_bytes (c : PacketCodec) (record : List UInt8) :
    ∃ c' record' result,
      c.decryptPacketInPlaceChecked record = some (c', record', result) ∧
      (∀ error, result = .error error → c'.replayWindow = c.replayWindow ∧ record' = []) ∧
      c.decryptPacket record = (c', result.map fun _ => record') := by
  rcases hcall : c.decryptPacketInPlace record with ⟨c', record', result⟩
  refine ⟨c', record', result, ?_, ?_, ?_⟩
  · rw [decryptPacketInPlaceChecked_eq, hcall]
  · rintro error rfl
    obtain ⟨rfl, hempty⟩ := decryptPacketInPlace_error hcall
    exact ⟨rfl, hempty⟩
  · rw [decryptPacket_eq, hcall]
    rfl

end PacketCodec

end Qeli.Packet
