import Qeli.Lib.Feistel
import Qeli.Packet.Replay
import Qeli.Wire.Roaming

/-!
# The packet codec

`PacketCodec` of `protocol/packet.rs`: one record per packet, either dressed as a
TLS application-data record or with a bare length, holding the nonce and the
sealed counter, payload, padding and padding length. The AEAD and the round
function of the nonce permutation come from third-party crates: `Cipher` is any
pair of in-place operations, and `prpRound` any function. A buffer that a method
changes in place is passed in and returned.
-/

namespace Qeli.Packet

open Qeli.Lib Qeli.Wire

def tlsRecordHeader : Nat := 5

def rawRecordHeader : Nat := 2

def nonceSize : Nat := 12

def tagSize : Nat := 16

def counterSize : Nat := 8

def tlsCiphertextMax : Nat := 2 ^ 14 + 256

def maxRecordSize : Nat := tlsCiphertextMax

inductive Framing where
  | tls
  | raw
  deriving DecidableEq, Repr

def Framing.headerLen : Framing → Nat
  | .tls => tlsRecordHeader
  | .raw => rawRecordHeader

inductive PacketError where
  | packetTooShort
  | packetTooLarge
  | frameLengthMismatch
  | wrongContentType (contentType : UInt8)
  | encryptFailed
  | decryptFailed
  | invalidPadding
  | counterExhausted
  | replayDetected
  deriving DecidableEq, Repr

/-- In-place sealing and opening with a detached tag; neither changes the length
of the buffer. -/
structure Cipher where
  encryptInPlaceDetached : Bytes 12 → List UInt8 → Option (List UInt8 × Bytes 16)
  decryptInPlaceDetached : Bytes 12 → List UInt8 → Bytes 16 → Option (List UInt8)
  length_encrypt : ∀ {nonce buffer sealed tag},
    encryptInPlaceDetached nonce buffer = some (sealed, tag) → sealed.length = buffer.length
  length_decrypt : ∀ {nonce buffer tag opened},
    decryptInPlaceDetached nonce buffer tag = some opened → opened.length = buffer.length

/-! ## Nonces -/

/-- The round function: key, round and half. -/
abbrev PrpRound := Bytes 32 → Nat → Bytes 6 → Bytes 6

def xorHalf (l f : Bytes 6) : Bytes 6 := l.zipWith (· ^^^ ·) f

def prpNonce (prpRound : PrpRound) (key : Bytes 32) (raw : Bytes 12) : Bytes 12 :=
  let l : Bytes 6 := raw.take 6
  let r : Bytes 6 := raw.drop 6
  let (l, r) := (List.range 4).foldl
    (fun (l, r) round => (r, xorHalf l (prpRound key round r))) (l, r)
  l ++ r

/-- A `u64` or `u16` as big-endian bytes. -/
def toBeBytes (n x : Nat) : Bytes n := ⟨(beBytes n x).toArray, by simp⟩

def rawNonce (nonceSeed : Bytes 4) (counter : Nat) : Bytes 12 := nonceSeed ++ toBeBytes 8 counter

/-! ## Sealing -/

structure PacketCodec where
  cipher : Cipher
  counter : Nat
  nonceSeed : Bytes 4
  noncePrpKey : Bytes 32
  replayWindow : ReplayWindow
  framing : Framing

namespace PacketCodec

/-- A new codec, with the seed it draws and the key it derives. -/
def new (cipher : Cipher) (nonceSeed : Bytes 4) (noncePrpKey : Bytes 32) : PacketCodec where
  cipher
  counter := 0
  nonceSeed
  noncePrpKey
  replayWindow := .new
  framing := .tls

/-- The padding that is used, the length of the plaintext and of the header. -/
def recordSizes (self : PacketCodec) (dataLen paddingLen : Nat) :
    Except PacketError (Nat × Nat × Nat) :=
  let paddingLen := min paddingLen u16Max
  match ((checkedAdd u64Max counterSize dataLen).bind (checkedAdd u64Max · paddingLen)).bind
      (checkedAdd u64Max · 2) with
  | none => .error .packetTooLarge
  | some plaintextLen =>
    match (checkedAdd u64Max nonceSize plaintextLen).bind (checkedAdd u64Max · tagSize) with
    | none => .error .packetTooLarge
    | some recordPayloadLen =>
      if maxRecordSize < recordPayloadLen then .error .packetTooLarge
      else .ok (paddingLen, plaintextLen, self.framing.headerLen)

def recordHead (framing : Framing) (payloadLen : Nat) (nonce : Bytes 12) : List UInt8 :=
  (match framing with
    | .tls => [0x17, 0x03, 0x03]
    | .raw => []) ++ beBytes 2 payloadLen ++ nonce.toList

def plaintext (counter : Nat) (data padding : List UInt8) (paddingLen : Nat) : List UInt8 :=
  beBytes 8 counter ++ data ++ padding ++ beBytes 2 paddingLen

variable (prpRound : PrpRound)

def encryptPacketInto (self : PacketCodec) (data padding _record : List UInt8) :
    PacketCodec × List UInt8 × Except PacketError Unit :=
  if u64Max - 1000 ≤ self.counter then (self, [], .error .counterExhausted)
  else
    let counter := self.counter
    let nonce := prpNonce prpRound self.noncePrpKey (rawNonce self.nonceSeed counter)
    match self.recordSizes data.length padding.length with
    | .error error => (self, [], .error error)
    | .ok (paddingLen, plaintextLen, _) =>
      let padding := padding.take paddingLen
      let payloadLen := (nonceSize + plaintextLen + tagSize) % 2 ^ 16
      let head := recordHead self.framing payloadLen nonce
      let body := plaintext counter data padding (paddingLen % 2 ^ 16)
      -- the counter is spent before the AEAD runs
      let self := { self with counter := (self.counter + 1) % 2 ^ 64 }
      match self.cipher.encryptInPlaceDetached nonce body with
      | none => (self, [], .error .encryptFailed)
      | some (sealed, tag) => (self, head ++ sealed ++ tag.toList, .ok ())

def encryptPacket (self : PacketCodec) (data padding : List UInt8) :
    PacketCodec × Except PacketError (List UInt8) :=
  match self.encryptPacketInto prpRound data padding [] with
  | (self, record, .ok ()) => (self, .ok record)
  | (self, _, .error error) => (self, .error error)

/-! ## Opening -/

def headerPayloadLen (framing : Framing) (record : List UInt8) : Except PacketError Nat :=
  match framing with
  | .tls =>
    if record.getD 0 0 ≠ 0x17 then .error (.wrongContentType (record.getD 0 0))
    else if record.getD 1 0 ≠ 0x03 ∨ record.getD 2 0 ≠ 0x03 then
      .error (.wrongContentType (record.getD 1 0))
    else .ok (ofBE [record.getD 3 0, record.getD 4 0])
  | .raw => .ok (ofBE [record.getD 0 0, record.getD 1 0])

def framedRecordBounds (self : PacketCodec) (record : List UInt8) :
    Except PacketError (Nat × Nat) :=
  let headerLen := self.framing.headerLen
  if record.length < headerLen + nonceSize + tagSize + counterSize then .error .packetTooShort
  else
    match headerPayloadLen self.framing record with
    | .error error => .error error
    | .ok payloadLen =>
      if maxRecordSize < payloadLen then .error .packetTooLarge
      else
        let recordLen := headerLen + payloadLen
        if record.length < recordLen then .error .packetTooShort else .ok (headerLen, recordLen)

/-- `record.get(start..stop)` as an array of `n` bytes. -/
def slice (n : Nat) (record : List UInt8) (start stop : Nat) : Option (Bytes n) :=
  if h : ((record.drop start).take (stop - start)).length = n then
    some ⟨((record.drop start).take (stop - start)).toArray, by simpa using h⟩
  else none

/-- The end of `decryptPacketInPlaceInner`, where the plaintext stands between the nonce
and the tag: its counter, its padding, the replay check and the move of the payload to the
front. -/
def unpackInPlace (self : PacketCodec) (record : List UInt8) (nonceEnd tagStart : Nat) :
    PacketCodec × List UInt8 × Except PacketError Unit :=
  let plaintextLen := tagStart - nonceEnd
  if plaintextLen < counterSize + 2 then (self, record, .error .packetTooShort)
  else
    let packetCounter := ofBE ((record.drop nonceEnd).take 8)
    let paddingLen := ofBE ((record.drop (tagStart - 2)).take 2)
    if plaintextLen < counterSize + paddingLen + 2 then (self, record, .error .invalidPadding)
    else
      let (replayWindow, fresh) := self.replayWindow.checkAndRecord packetCounter
      let self := { self with replayWindow }
      if !fresh then (self, record, .error .replayDetected)
      else
        let dataLen := plaintextLen - counterSize - 2 - paddingLen
        let dataStart := nonceEnd + counterSize
        -- `copy_within` to the front, then `truncate`
        let record := (record.drop dataStart).take dataLen ++ record.drop dataLen
        (self, record.take dataLen, .ok ())

def decryptPacketInPlaceInner (self : PacketCodec) (record : List UInt8) :
    PacketCodec × List UInt8 × Except PacketError Unit :=
  match self.framedRecordBounds record with
  | .error error => (self, record, .error error)
  | .ok (headerLen, recordLen) =>
    if recordLen ≠ record.length then (self, record, .error .frameLengthMismatch)
    else
      let nonceEnd := headerLen + nonceSize
      match slice 12 record headerLen nonceEnd with
      | none => (self, record, .error .packetTooShort)
      | some nonce =>
        if recordLen < tagSize ∨ recordLen - tagSize < nonceEnd then
          (self, record, .error .packetTooShort)
        else
          let tagStart := recordLen - tagSize
          match slice 16 record tagStart recordLen with
          | none => (self, record, .error .packetTooShort)
          | some tag =>
            let body := (record.drop nonceEnd).take (tagStart - nonceEnd)
            match self.cipher.decryptInPlaceDetached nonce body tag with
            | none => (self, record, .error .decryptFailed)
            | some opened =>
              let record := record.take nonceEnd ++ opened ++ record.drop tagStart
              self.unpackInPlace record nonceEnd tagStart

/-- A failed call leaves the buffer empty. -/
def decryptPacketInPlace (self : PacketCodec) (record : List UInt8) :
    PacketCodec × List UInt8 × Except PacketError Unit :=
  match self.decryptPacketInPlaceInner record with
  | (self, record, .ok ()) => (self, record, .ok ())
  | (self, _, .error error) => (self, [], .error error)

end PacketCodec

end Qeli.Packet
