import Qeli.Capability.Negotiation
import Qeli.Lib.Checked

/-!
# Capabilities on the wire

The server appends its capabilities to the proof it has always sent, 32 bytes or a 32-byte key
before them; the client puts its own before the credentials, after a marker that no credential
starts with. A trailer is found by its magic at the two places where a proof can end, so a
64-byte message with the magic in its middle is taken for a 32-byte proof with a trailer
(`splitServerCapabilities_proof`).
-/

namespace Qeli.Capability

open Qeli.Lib
open Qeli.Route (ClientIpv6Policy)

def serverMagic : List UInt8 := [0x51, 0x53, 0x43, 0x50]
def clientMagic : List UInt8 := [0x51, 0x43, 0x43, 0x50]
def wireVersion : UInt8 := 1
def serverPayloadLen : Nat := 8
def clientPayloadLen : Nat := 17
def headerLen : Nat := 6
def clientMarker : UInt8 := 0

/-! ## The server's trailer -/

def appendServerCapabilities (message : List UInt8) (capabilities : ServerCapabilities) :
    List UInt8 :=
  message ++ serverMagic ++ [wireVersion, UInt8.ofNat serverPayloadLen] ++
    leBytes 8 capabilities.bits.toNat

def trailerOffset (message : List UInt8) : Option Nat :=
  if 64 + headerLen ≤ message.length ∧ Checked.range message 64 68 = some serverMagic then some 64
  else if 32 + headerLen ≤ message.length ∧ Checked.range message 32 36 = some serverMagic then
    some 32
  else none

def splitServerCapabilities (message : List UInt8) :
    Except String (List UInt8 × Option ServerCapabilities) :=
  match trailerOffset message with
  | none => .ok (message, none)
  | some offset =>
    let version := message.getD (offset + 4) 0
    let payloadLen := (message.getD (offset + 5) 0).toNat
    let got := message.length - (offset + headerLen)
    if message.length ≠ offset + (headerLen + payloadLen) then
      .error (s!"malformed server capability trailer: declared {payloadLen} payload bytes, " ++
        s!"got {got}")
    else if version ≠ wireVersion then .ok (message.take offset, none)
    else if payloadLen ≠ serverPayloadLen then
      .error (s!"malformed server capability v1 payload length {payloadLen}; " ++
        s!"expected {serverPayloadLen}")
    else
      .ok (message.take offset,
        some ⟨UInt64.ofNat (ofLE ((message.drop (offset + headerLen)).take 8))⟩)

/-! ## The client's extension -/

def ipv6PolicyByte : ClientIpv6Policy → UInt8
  | .auto => 0
  | .required => 1
  | .off => 2

def appendClientCapabilities (message : List UInt8) (capabilities : ClientCapabilities) :
    List UInt8 :=
  message ++ [clientMarker] ++ clientMagic ++ [wireVersion, UInt8.ofNat clientPayloadLen] ++
    leBytes 8 capabilities.coreBits.toNat ++ leBytes 8 capabilities.platformBits.toNat ++
    [ipv6PolicyByte capabilities.ipv6Policy]

def ipv6PolicyOfByte (value : UInt8) : Except String ClientIpv6Policy :=
  if value = 0 then .ok .auto
  else if value = 1 then .ok .required
  else if value = 2 then .ok .off
  else .error s!"invalid client IPv6 policy value {value}"

def clientCapabilitiesOfPayload (payload : List UInt8) : Except String ClientCapabilities := do
  let ipv6Policy ← ipv6PolicyOfByte (payload.getD 16 0)
  return { coreBits := UInt64.ofNat (ofLE (payload.take 8))
           platformBits := UInt64.ofNat (ofLE ((payload.drop 8).take 8))
           ipv6Policy }

def splitClientCapabilities (bytes : List UInt8) :
    Except String (Option ClientCapabilities × List UInt8) :=
  if bytes.head? ≠ some clientMarker ∨ Checked.range bytes 1 5 ≠ some clientMagic then
    .ok (none, bytes)
  else if bytes.length < 1 + headerLen then .error "truncated client capability trailer"
  else
    let version := bytes.getD 5 0
    let payloadLen := (bytes.getD 6 0).toNat
    let extensionLen := 1 + headerLen + payloadLen
    let got := bytes.length - (1 + headerLen)
    if version ≠ wireVersion then .error s!"unsupported client capability version {version}"
    else if payloadLen ≠ clientPayloadLen then
      .error (s!"malformed client capability v1 payload length {payloadLen}; " ++
        s!"expected {clientPayloadLen}")
    else if bytes.length < extensionLen then
      .error (s!"truncated client capability payload: declared {payloadLen} bytes, " ++
        s!"got {got}")
    else do
      let payload := (bytes.drop (1 + headerLen)).take payloadLen
      let capabilities ← clientCapabilitiesOfPayload payload
      return (some capabilities, bytes.drop extensionLen)

/-! ## Proofs without a trailer -/

theorem trailerOffset_short {p : List UInt8} (h : p.length = 32) : trailerOffset p = none := by
  unfold trailerOffset headerLen
  rw [if_neg (by omega), if_neg (by omega)]

theorem trailerOffset_long {p : List UInt8} (h : p.length = 64) :
    trailerOffset p = if (p.drop 32).take 4 = serverMagic then some 32 else none := by
  unfold trailerOffset headerLen
  rw [if_neg (by omega)]
  simp only [Checked.range_eq_some (show 32 ≤ 36 by omega), h]
  simp

theorem splitServerCapabilities_at {message : List UInt8} {offset : Nat}
    (h : trailerOffset message = some offset) (hlen : offset < message.length) :
    splitServerCapabilities message ≠ .ok (message, none) := by
  intro hsplit
  unfold splitServerCapabilities at hsplit
  rw [h] at hsplit
  dsimp only at hsplit
  split at hsplit
  · cases hsplit
  · split at hsplit
    · have htake : message.take offset = message := congrArg Prod.fst (Except.ok.inj hsplit)
      have hshort : (message.take offset).length = message.length := congrArg List.length htake
      rw [List.length_take] at hshort
      omega
    · split at hsplit
      · cases hsplit
      · have hnone := congrArg Prod.snd (Except.ok.inj hsplit)
        cases hnone

theorem splitServerCapabilities_proof {p : List UInt8} (h : p.length = 32 ∨ p.length = 64) :
    splitServerCapabilities p = .ok (p, none) ↔
      ¬ (p.length = 64 ∧ (p.drop 32).take 4 = serverMagic) := by
  have hplain : trailerOffset p = none → splitServerCapabilities p = .ok (p, none) := by
    intro hnone
    unfold splitServerCapabilities
    rw [hnone]
  rcases h with h | h
  · have hshort : ¬ (p.length = 64 ∧ (p.drop 32).take 4 = serverMagic) := fun hboth => by omega
    exact iff_of_true (hplain (trailerOffset_short h)) hshort
  · by_cases hmagic : (p.drop 32).take 4 = serverMagic
    · have hoffset : trailerOffset p = some 32 := by
        rw [trailerOffset_long h, if_pos hmagic]
      refine iff_of_false ?_ (not_not_intro ⟨h, hmagic⟩)
      exact splitServerCapabilities_at hoffset (by omega)
    · refine iff_of_true (hplain ?_) fun hboth => hmagic hboth.2
      rw [trailerOffset_long h, if_neg hmagic]

/-! ## Round trips -/

theorem ofNat_ofLE_bits (bits : UInt64) :
    UInt64.ofNat (ofLE (leBytes 8 bits.toNat)) = bits := by
  rw [ofLE_leBytes bits.toNat_lt, UInt64.ofNat_toNat]

theorem splitServerCapabilities_append {p : List UInt8} (h : p.length = 32 ∨ p.length = 64)
    (capabilities : ServerCapabilities) :
    splitServerCapabilities (appendServerCapabilities p capabilities) =
      .ok (p, some capabilities) := by
  obtain ⟨payload, hpayload⟩ : ∃ payload, payload = leBytes 8 capabilities.bits.toNat := ⟨_, rfl⟩
  have hlen : payload.length = 8 := by rw [hpayload, length_leBytes]
  have hmessage : appendServerCapabilities p capabilities =
      p ++ (serverMagic ++ ([1, 8] ++ payload)) := by
    rw [appendServerCapabilities, hpayload]
    simp [wireVersion, serverPayloadLen]
  have hoffset : trailerOffset (appendServerCapabilities p capabilities) = some p.length := by
    have hmagic : ((p ++ (serverMagic ++ ([1, 8] ++ payload))).drop p.length).take 4 =
        serverMagic := by
      rw [List.drop_left]
      rfl
    unfold trailerOffset headerLen
    rw [hmessage]
    rcases h with h | h
    · rw [h] at hmagic
      rw [if_neg (by simp [h, hlen, serverMagic]), if_pos ?_, h]
      refine ⟨by simp [h, hlen, serverMagic], (Checked.range_eq_some (by omega)).mpr ⟨?_, hmagic⟩⟩
      simp [h, hlen, serverMagic]
    · rw [h] at hmagic
      rw [if_pos ?_, h]
      refine ⟨by simp [h, hlen, serverMagic], (Checked.range_eq_some (by omega)).mpr ⟨?_, hmagic⟩⟩
      simp [h, hlen, serverMagic]
  have hversion : (appendServerCapabilities p capabilities).getD (p.length + 4) 0 = 1 := by
    rw [hmessage, List.getD_append_right _ _ _ _ (by omega), Nat.add_sub_cancel_left]
    rfl
  have hpayloadLen : (appendServerCapabilities p capabilities).getD (p.length + 5) 0 = 8 := by
    rw [hmessage, List.getD_append_right _ _ _ _ (by omega), Nat.add_sub_cancel_left]
    rfl
  have hlength : (appendServerCapabilities p capabilities).length = p.length + 14 := by
    rw [hmessage]
    simp [serverMagic, hlen]
  have hbits : ((appendServerCapabilities p capabilities).drop (p.length + headerLen)).take 8 =
      payload := by
    rw [hmessage, List.drop_append, List.drop_of_length_le (by omega)]
    simp [headerLen, serverMagic, hlen]
  unfold splitServerCapabilities
  rw [hoffset]
  dsimp only
  rw [hversion, hpayloadLen, hlength, hbits, if_neg (by simp [headerLen]),
    if_neg (by simp [wireVersion]), if_neg (by simp [serverPayloadLen]), hpayload, ofNat_ofLE_bits,
    hmessage, List.take_left]

theorem ipv6PolicyOfByte_byte (policy : ClientIpv6Policy) :
    ipv6PolicyOfByte (ipv6PolicyByte policy) = .ok policy := by
  cases policy <;> rfl

def clientPayload (capabilities : ClientCapabilities) : List UInt8 :=
  leBytes 8 capabilities.coreBits.toNat ++ leBytes 8 capabilities.platformBits.toNat ++
    [ipv6PolicyByte capabilities.ipv6Policy]

theorem length_clientPayload (capabilities : ClientCapabilities) :
    (clientPayload capabilities).length = clientPayloadLen := by
  simp [clientPayload, clientPayloadLen]

theorem clientCapabilitiesOfPayload_eq (capabilities : ClientCapabilities) :
    clientCapabilitiesOfPayload (clientPayload capabilities) = .ok capabilities := by
  have hpolicy : (clientPayload capabilities).getD 16 0 =
      ipv6PolicyByte capabilities.ipv6Policy := by
    rw [clientPayload, List.getD_append_right _ _ _ _ (by simp)]
    simp
  have hcore : (clientPayload capabilities).take 8 = leBytes 8 capabilities.coreBits.toNat := by
    simp [clientPayload]
  have hplatform : ((clientPayload capabilities).drop 8).take 8 =
      leBytes 8 capabilities.platformBits.toNat :=
    take_drop_append _ _ _ (length_leBytes _ _) (length_leBytes _ _)
  unfold clientCapabilitiesOfPayload
  rw [hpolicy, ipv6PolicyOfByte_byte, hcore, hplatform, ofNat_ofLE_bits, ofNat_ofLE_bits]
  rfl

theorem splitClientCapabilities_append (capabilities : ClientCapabilities) (s : List UInt8) :
    splitClientCapabilities (appendClientCapabilities [] capabilities ++ s) =
      .ok (some capabilities, s) := by
  obtain ⟨payload, hpayload⟩ : ∃ payload, payload = clientPayload capabilities := ⟨_, rfl⟩
  have hlen : payload.length = 17 := by rw [hpayload, length_clientPayload, clientPayloadLen]
  have hbytes : appendClientCapabilities [] capabilities ++ s =
      [0, 0x51, 0x43, 0x43, 0x50, 1, 17] ++ (payload ++ s) := by
    rw [appendClientCapabilities, hpayload, clientPayload]
    simp [clientMarker, clientMagic, wireVersion, clientPayloadLen]
  obtain ⟨bytes, hall⟩ : ∃ bytes : List UInt8,
      bytes = [0, 0x51, 0x43, 0x43, 0x50, 1, 17] ++ (payload ++ s) := ⟨_, rfl⟩
  have hlength : bytes.length = 24 + s.length := by
    rw [hall]
    simp [hlen]
    omega
  have hhead : ¬ (bytes.head? ≠ some clientMarker ∨
      Checked.range bytes 1 5 ≠ some clientMagic) := by
    rw [not_or, not_not, not_not]
    refine ⟨by rw [hall]; rfl, (Checked.range_eq_some (by omega)).mpr ⟨by omega, ?_⟩⟩
    rw [hall]
    rfl
  have hversion : bytes.getD 5 0 = wireVersion := by rw [hall]; rfl
  have hdeclared : (bytes.getD 6 0).toNat = 17 := by rw [hall]; rfl
  have hpart : (bytes.drop (1 + headerLen)).take 17 = payload := by
    rw [hall]
    show (payload ++ s).take 17 = payload
    rw [← hlen, List.take_left]
  have hrest : bytes.drop (1 + headerLen + 17) = s := by
    rw [hall]
    show (payload ++ s).drop 17 = s
    rw [← hlen, List.drop_left]
  unfold splitClientCapabilities
  rw [hbytes, ← hall, if_neg hhead]
  dsimp only
  rw [hversion, hdeclared, hlength, hpart, hrest, if_neg (by simp [headerLen]; omega),
    if_neg (not_not_intro rfl), if_neg (by simp [clientPayloadLen]), if_neg (by simp [headerLen]),
    hpayload, clientCapabilitiesOfPayload_eq]
  rfl

theorem splitClientCapabilities_legacy {s : List UInt8} (h : s.head? ≠ some clientMarker) :
    splitClientCapabilities s = .ok (none, s) :=
  if_pos (.inl h)

/-- What the two parsers make of what the two writers write around the proof `p` and before the
credentials `s`, and of the two without either. -/
structure TrailerLaw (p s : List UInt8) : Prop where
  proof : p.length = 32 ∨ p.length = 64 →
    (splitServerCapabilities p = .ok (p, none) ↔
      ¬ (p.length = 64 ∧ (p.drop 32).take 4 = serverMagic))
  server : ∀ capabilities : ServerCapabilities, p.length = 32 ∨ p.length = 64 →
    splitServerCapabilities (appendServerCapabilities p capabilities) = .ok (p, some capabilities)
  client : ∀ capabilities : ClientCapabilities,
    splitClientCapabilities (appendClientCapabilities [] capabilities ++ s) =
      .ok (some capabilities, s)
  credentials : s.head? ≠ some clientMarker → splitClientCapabilities s = .ok (none, s)

/-- **Trailers come off as they were put on**; a proof without one is returned whole exactly
when its middle is not the magic. -/
theorem capability_trailers (p s : List UInt8) : TrailerLaw p s where
  proof := splitServerCapabilities_proof
  server capabilities h := splitServerCapabilities_append h capabilities
  client capabilities := splitClientCapabilities_append capabilities s
  credentials := splitClientCapabilities_legacy

/-- A key and a proof that happens to begin with the magic. -/
def unluckyProof : List UInt8 := List.replicate 32 0xA5 ++ serverMagic ++ List.replicate 28 0

theorem unlucky_proof_refused : unluckyProof.length = 64 ∧
    splitServerCapabilities unluckyProof ≠ .ok (unluckyProof, none) := by
  refine ⟨by decide, ?_⟩
  exact splitServerCapabilities_at (show trailerOffset unluckyProof = some 32 by decide) (by decide)

end Qeli.Capability
