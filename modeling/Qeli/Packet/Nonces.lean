import Qeli.Packet.Codec

/-!
# Nonces of one codec

A call of `encrypt_packet_into` or `encrypt_packet` is refused with the codec as it
was, or spends one counter and then emits a record or fails in the AEAD
(`Encrypts`). Over a run the emitted records so carry increasing counters
(`Issued`), and the permutation of the nonces is injective whatever its round
function.
-/

namespace Qeli.Packet

open Qeli.Lib Qeli.Wire

/-! ## The permutation -/

theorem xorHalf_cancel (l f : Bytes 6) : xorHalf (xorHalf l f) f = l := by
  refine Vector.ext fun i hi => ?_
  simp only [xorHalf, Vector.getElem_zipWith, UInt8.xor_assoc, UInt8.xor_self, UInt8.xor_zero]

theorem prpNonce_eq (prpRound : PrpRound) (key : Bytes 32) (raw : Bytes 12) :
    prpNonce prpRound key raw =
      (fun x : Bytes 6 × Bytes 6 => (x.1 ++ x.2 : Bytes 12))
        (feistel xorHalf ((List.range 4).map (prpRound key)) (raw.take 6, raw.drop 6)) :=
  rfl

theorem halves_inj {raw raw' : Bytes 12} (hl : raw.take 6 = raw'.take 6)
    (hr : raw.drop 6 = raw'.drop 6) : raw = raw' := by
  have hl' : raw.toList.take 6 = raw'.toList.take 6 := by
    rw [← Vector.toList_take, ← Vector.toList_take, hl]
  have hr' : raw.toList.drop 6 = raw'.toList.drop 6 := by
    rw [← Vector.toList_drop, ← Vector.toList_drop, hr]
  rw [← Vector.toList_inj, ← List.take_append_drop 6 raw.toList, hl', hr', List.take_append_drop]

/-- **The permutation is injective** for any round function. -/
theorem prpNonce_injective (prpRound : PrpRound) (key : Bytes 32) :
    Function.Injective (prpNonce prpRound key) := by
  intro raw raw' h
  rw [prpNonce_eq, prpNonce_eq] at h
  obtain ⟨hl, hr⟩ := Vector.append_inj h
  have hhalves := feistel_injective xorHalf_cancel _ (Prod.ext hl hr)
  exact halves_inj (congrArg Prod.fst hhalves) (congrArg Prod.snd hhalves)

theorem rawNonce_inj {seed : Bytes 4} {k k' : Nat} (hk : k ≤ u64Max) (hk' : k' ≤ u64Max)
    (h : rawNonce seed k = rawNonce seed k') : k = k' := by
  obtain ⟨-, hbytes⟩ := Vector.append_inj h
  have hlist : beBytes 8 k = beBytes 8 k' := by
    simpa [toBeBytes] using congrArg Vector.toList hbytes
  unfold u64Max at hk hk'
  exact beBytes_inj (by omega) (by omega) hlist

namespace PacketCodec

/-! ## What a call does -/

def paddingLen (padding : List UInt8) : Nat := min padding.length u16Max

def plaintextLen (data padding : List UInt8) : Nat :=
  counterSize + data.length + paddingLen padding + 2

def usedPadding (padding : List UInt8) : List UInt8 := padding.take (paddingLen padding)

theorem recordSizes_ok {c : PacketCodec} {data padding : List UInt8} {n len header : Nat}
    (h : c.recordSizes data.length padding.length = .ok (n, len, header)) :
    n = paddingLen padding ∧ len = plaintextLen data padding ∧
      nonceSize + plaintextLen data padding + tagSize ≤ maxRecordSize := by
  unfold recordSizes at h
  dsimp only at h
  split at h
  · cases h
  · next plain hplain =>
    split at h
    · cases h
    · next payload hpayload =>
      simp only [Option.bind_eq_some_iff, checkedAdd_eq_some] at hplain hpayload
      obtain ⟨_, ⟨_, ⟨-, rfl⟩, -, rfl⟩, -, rfl⟩ := hplain
      obtain ⟨_, ⟨-, rfl⟩, -, rfl⟩ := hpayload
      split at h
      · cases h
      · next hfits =>
        simp only [Except.ok.injEq, Prod.mk.injEq] at h
        obtain ⟨rfl, rfl, -⟩ := h
        exact ⟨rfl, rfl, Nat.not_lt.mp hfits⟩

theorem recordSizes_error {c : PacketCodec} {d p : Nat} {error : PacketError}
    (h : c.recordSizes d p = .error error) : error = .packetTooLarge := by
  unfold recordSizes at h
  dsimp only at h
  split at h
  · cases h; rfl
  · split at h
    · cases h; rfl
    · split at h <;> cases h
      rfl

variable (prpRound : PrpRound)

def nonceAt (c : PacketCodec) (seq : Nat) : Bytes 12 :=
  prpNonce prpRound c.noncePrpKey (rawNonce c.nonceSeed seq)

/-- `record` is what the codec emits for a payload under a counter. -/
structure IsRecord (c : PacketCodec) (seq : Nat) (data padding record : List UInt8) : Prop where
  counted : seq < u64Max - 1000
  fits : nonceSize + plaintextLen data padding + tagSize ≤ maxRecordSize
  bytes : ∃ sealed tag,
    c.cipher.encryptInPlaceDetached (c.nonceAt prpRound seq)
      (plaintext seq data (usedPadding padding) (paddingLen padding)) = some (sealed, tag) ∧
    record = recordHead c.framing (nonceSize + plaintextLen data padding + tagSize)
      (c.nonceAt prpRound seq) ++ sealed ++ tag.toList

inductive Encrypts (c : PacketCodec) (data padding : List UInt8) :
    PacketCodec × List UInt8 × Except PacketError Unit → Prop where
  | refused {error : PacketError} : error = .counterExhausted ∨ error = .packetTooLarge →
      Encrypts c data padding (c, [], .error error)
  | failed : c.counter < u64Max - 1000 →
      Encrypts c data padding ({ c with counter := c.counter + 1 }, [], .error .encryptFailed)
  | emitted {record : List UInt8} : IsRecord prpRound c c.counter data padding record →
      Encrypts c data padding ({ c with counter := c.counter + 1 }, record, .ok ())

/-- **A call is refused, or spends one counter**, which the check keeps from wrapping. -/
theorem encryptPacketInto_encrypts (c : PacketCodec) (data padding record : List UInt8) :
    Encrypts prpRound c data padding (c.encryptPacketInto prpRound data padding record) := by
  unfold encryptPacketInto
  split
  · exact .refused (.inl rfl)
  · next hcount =>
    have hlt : c.counter < u64Max - 1000 := Nat.not_le.mp hcount
    have hnext : (c.counter + 1) % 2 ^ 64 = c.counter + 1 := by
      refine Nat.mod_eq_of_lt ?_
      unfold u64Max at hlt
      omega
    dsimp only
    split
    · next error herror => exact .refused (.inr (recordSizes_error herror))
    · next n len header hsizes =>
      obtain ⟨rfl, rfl, hfits⟩ := recordSizes_ok hsizes
      have hpayload : (nonceSize + plaintextLen data padding + tagSize) % 2 ^ 16 =
          nonceSize + plaintextLen data padding + tagSize :=
        Nat.mod_eq_of_lt (lt_of_le_of_lt hfits (by decide))
      have htrailer : paddingLen padding % 2 ^ 16 = paddingLen padding :=
        Nat.mod_eq_of_lt (lt_of_le_of_lt (Nat.min_le_right _ _) (by decide))
      rw [hpayload, htrailer, hnext]
      split
      · exact .failed hlt
      · next sealed tag hsealed => exact .emitted ⟨hlt, hfits, sealed, tag, hsealed, rfl⟩

/-! ## Runs -/

inductive EncryptCall where
  | encryptPacketInto (data padding record : List UInt8)
  | encryptPacket (data padding : List UInt8)

namespace EncryptCall

def data : EncryptCall → List UInt8
  | .encryptPacketInto data _ _ => data
  | .encryptPacket data _ => data

def padding : EncryptCall → List UInt8
  | .encryptPacketInto _ padding _ => padding
  | .encryptPacket _ padding => padding

/-- The call on a codec: the record it leaves, empty where none is returned, and its
answer. -/
def apply (c : PacketCodec) : EncryptCall → PacketCodec × List UInt8 × Except PacketError Unit
  | .encryptPacketInto data padding record => c.encryptPacketInto prpRound data padding record
  | .encryptPacket data padding =>
    match c.encryptPacket prpRound data padding with
    | (c, .ok record) => (c, record, .ok ())
    | (c, .error error) => (c, [], .error error)

theorem apply_encrypts (c : PacketCodec) (call : EncryptCall) :
    Encrypts prpRound c call.data call.padding (call.apply prpRound c) := by
  cases call with
  | encryptPacketInto data padding record =>
    exact encryptPacketInto_encrypts prpRound c data padding record
  | encryptPacket data padding =>
    have h := encryptPacketInto_encrypts prpRound c data padding []
    unfold apply PacketCodec.encryptPacket
    dsimp only
    generalize c.encryptPacketInto prpRound data padding [] = answer at h
    cases h with
    | refused herror => exact .refused herror
    | failed hlt => exact .failed hlt
    | emitted hrecord => exact .emitted hrecord

end EncryptCall

structure EncryptEvent where
  call : EncryptCall
  seq : Nat
  record : List UInt8
  result : Except PacketError Unit

namespace EncryptEvent

def emitted (e : EncryptEvent) : Bool := e.result.isOk

/-- The call got past the checks, to the AEAD. -/
def spends (e : EncryptEvent) : Bool :=
  match e.result with
  | .ok () => true
  | .error error => error == .encryptFailed

end EncryptEvent

def EncryptStep (c : PacketCodec) (e : EncryptEvent) (c' : PacketCodec) : Prop :=
  e.seq = c.counter ∧ e.call.apply prpRound c = (c', e.record, e.result)

def encryptAll (c : PacketCodec) (calls : List EncryptCall) : PacketCodec × List EncryptEvent :=
  trace (fun c call =>
    let (next, record, result) := call.apply prpRound c
    (next, ⟨call, c.counter, record, result⟩)) c calls

theorem encryptAll_run (c : PacketCodec) (calls : List EncryptCall) :
    Run (EncryptStep prpRound) c (c.encryptAll prpRound calls).2 (c.encryptAll prpRound calls).1 :=
  trace_run (fun _ _ => ⟨rfl, rfl⟩) c calls

/-- What a run from `c₀` has issued. -/
structure Issued (c₀ : PacketCodec) (es : List EncryptEvent) (c : PacketCodec) : Prop where
  counter : c.counter = c₀.counter + es.countP (·.spends)
  codec : { c₀ with counter := c.counter } = c
  bounded : c₀.counter ≤ u64Max → c.counter ≤ u64Max
  cleared : ∀ e ∈ es, e.emitted = false → e.record = []
  below : ∀ e ∈ es, e.emitted = true → e.seq < c.counter
  records : ∀ e ∈ es, e.emitted = true →
    IsRecord prpRound c₀ e.seq e.call.data e.call.padding e.record
  increasing : (es.filter (·.emitted)).Pairwise (·.seq < ·.seq)

variable {prpRound}

theorem issued_nil (c : PacketCodec) : Issued prpRound c [] c where
  counter := rfl
  codec := rfl
  bounded h0 := h0
  cleared := by simp
  below := by simp
  records := by simp
  increasing := .nil

variable {c c₀ : PacketCodec} {es : List EncryptEvent}

theorem IsRecord.of_counter {n seq : Nat} {data padding record : List UInt8}
    (h : IsRecord prpRound { c with counter := n } seq data padding record) :
    IsRecord prpRound c seq data padding record := ⟨h.counted, h.fits, h.bytes⟩

theorem Issued.snoc {c' : PacketCodec} {e : EncryptEvent} (h : Issued prpRound c₀ es c)
    (hcodec : { c with counter := c'.counter } = c')
    (hcounter : c'.counter = c.counter + if e.spends then 1 else 0)
    (hbound : c.counter ≤ u64Max → c'.counter ≤ u64Max) (hno : e.emitted = false → e.record = [])
    (hyes : e.emitted = true → e.seq = c.counter ∧ e.seq < c'.counter ∧
      IsRecord prpRound c e.seq e.call.data e.call.padding e.record) :
    Issued prpRound c₀ (es ++ [e]) c' where
  counter := by
    rw [hcounter, h.counter, List.countP_append, List.countP_singleton, Nat.add_assoc]
  codec := by
    rw [← hcodec, ← h.codec]
  bounded h0 := hbound (h.bounded h0)
  cleared := forall_mem_snoc.mpr ⟨h.cleared, hno⟩
  below := by
    refine forall_mem_snoc.mpr ⟨fun d hd hdyes => ?_, fun hyes' => (hyes hyes').2.1⟩
    exact (h.below d hd hdyes).trans_le (by omega)
  records := by
    refine forall_mem_snoc.mpr ⟨h.records, fun hyes' => ?_⟩
    have hrecord := (hyes hyes').2.2
    rw [← h.codec] at hrecord
    exact hrecord.of_counter
  increasing := by
    rw [List.filter_append, List.pairwise_append]
    refine ⟨h.increasing, ?_, fun d hd d' hd' => ?_⟩
    · cases hemitted : e.emitted <;> simp [hemitted]
    · -- the emitted counters are below the counter that the new event met
      rw [List.mem_filter] at hd hd'
      obtain ⟨hd', hyes'⟩ := hd'
      obtain rfl := List.mem_singleton.mp hd'
      rw [(hyes hyes').1]
      exact h.below d hd.1 hd.2

/-- **One call extends what was issued.** -/
theorem Issued.step {c' : PacketCodec} {e : EncryptEvent} (h : Issued prpRound c₀ es c)
    (he : EncryptStep prpRound c e c') : Issued prpRound c₀ (es ++ [e]) c' := by
  obtain ⟨call, seq, record, result⟩ := e
  obtain ⟨rfl, hanswer⟩ := he
  dsimp only at hanswer
  have heffect := EncryptCall.apply_encrypts prpRound c call
  rw [hanswer] at heffect
  cases heffect with
  | refused herror =>
    refine h.snoc rfl ?_ id (fun _ => rfl) nofun
    rcases herror with rfl | rfl <;> rfl
  | failed hlt => exact h.snoc rfl rfl (fun _ => by dsimp only; omega) (fun _ => rfl) nofun
  | emitted hrecord =>
    have hlt := hrecord.counted
    exact h.snoc rfl rfl (fun _ => by dsimp only; omega) nofun
      fun _ => ⟨rfl, Nat.lt_succ_self _, hrecord⟩

theorem issued_run (h : Run (EncryptStep prpRound) c₀ es c) : Issued prpRound c₀ es c :=
  h.invariant (issued_nil c₀) fun _ hissued hstep => hissued.step hstep

/-! ## Distinct nonces -/

/-- The 12 bytes after the header. -/
def recordNonce (framing : Framing) (record : List UInt8) : List UInt8 :=
  (record.drop framing.headerLen).take nonceSize

theorem IsRecord.nonce {seq : Nat} {data padding record : List UInt8}
    (h : IsRecord prpRound c seq data padding record) :
    recordNonce c.framing record = (c.nonceAt prpRound seq).toList := by
  obtain ⟨sealed, tag, -, rfl⟩ := h.bytes
  have hlen : (c.nonceAt prpRound seq).toList.length = 12 := by simp
  unfold recordNonce recordHead
  cases c.framing with
  | tls => simp [Framing.headerLen, tlsRecordHeader, nonceSize]
  | raw => simp [Framing.headerLen, rawRecordHeader, nonceSize]

theorem nonceAt_inj {k k' : Nat} (hk : k < u64Max - 1000) (hk' : k' < u64Max - 1000)
    (h : (c.nonceAt prpRound k).toList = (c.nonceAt prpRound k').toList) : k = k' := by
  have hraw := prpNonce_injective prpRound c.noncePrpKey (Vector.toList_inj.mp h)
  exact rawNonce_inj (by omega) (by omega) hraw

/-- **No nonce repeats.** Over any calls of one codec the nonces of the emitted
records are distinct, whatever the round function and the AEAD do. A call that
fails leaves the record empty, and one that is refused leaves the codec as it was.
The counter is the number of calls that reached the AEAD and never wraps. -/
theorem nonces_never_repeat {c₀ c : PacketCodec} {es : List EncryptEvent}
    (h : Run (EncryptStep prpRound) c₀ es c) :
    ((es.filter (·.emitted)).map fun e => recordNonce c₀.framing e.record).Nodup ∧
    (∀ call c' record error, EncryptCall.apply prpRound c call = (c', record, .error error) →
      record = [] ∧ (error = .packetTooLarge ∨ error = .counterExhausted → c' = c)) ∧
    c.counter = c₀.counter + es.countP (·.spends) ∧
    (c₀.counter ≤ u64Max → c.counter ≤ u64Max) := by
  have hissued := issued_run h
  refine ⟨?_, ?_, hissued.counter, hissued.bounded⟩
  · -- the counters increase, so no two nonces come from the same one
    rw [List.Nodup, List.pairwise_map]
    refine hissued.increasing.imp_of_mem fun {d d'} hd hd' hlt heq => ?_
    rw [List.mem_filter] at hd hd'
    have hrec := hissued.records d hd.1 hd.2
    have hrec' := hissued.records d' hd'.1 hd'.2
    rw [hrec.nonce, hrec'.nonce] at heq
    have hsame := nonceAt_inj hrec.counted hrec'.counted heq
    omega
  · intro call c' record error hanswer
    have heffect := EncryptCall.apply_encrypts prpRound c call
    rw [hanswer] at heffect
    cases heffect with
    | refused _ => exact ⟨rfl, fun _ => rfl⟩
    | failed _ => exact ⟨rfl, by rintro (h | h) <;> cases h⟩

/-! ## The conformance codec -/

end PacketCodec

structure SealedPacket where
  nonce : Bytes 12
  opened : List UInt8
  sealed : List UInt8
  tag : Bytes 16
  length_sealed : sealed.length = opened.length

/-- The cipher of a key, on the packets of a table. -/
def Cipher.ofTable (table : List SealedPacket) : Cipher where
  encryptInPlaceDetached nonce buffer :=
    (table.find? fun p => p.nonce = nonce ∧ p.opened = buffer).map fun p => (p.sealed, p.tag)
  decryptInPlaceDetached nonce buffer tag :=
    (table.find? fun p => p.nonce = nonce ∧ p.sealed = buffer ∧ p.tag = tag).map (·.opened)
  length_encrypt := by
    intro nonce buffer sealed tag h
    obtain ⟨p, hfind, heq⟩ := Option.map_eq_some_iff.mp h
    have hp := List.find?_some hfind
    simp only [Bool.decide_and, Bool.and_eq_true, decide_eq_true_eq, Prod.mk.injEq] at hp heq
    rw [← heq.1, ← hp.2, p.length_sealed]
  length_decrypt := by
    intro nonce buffer tag opened h
    obtain ⟨p, hfind, heq⟩ := Option.map_eq_some_iff.mp h
    have hp := List.find?_some hfind
    simp only [Bool.decide_and, Bool.and_eq_true, decide_eq_true_eq] at hp
    rw [← heq, ← hp.2.1, p.length_sealed]

namespace PacketCodec

/-- The SHA-256 prefixes that the first two nonces of the conformance codec take. -/
def conformancePrpRound : PrpRound := fun _ round half =>
  let table : List ((Nat × Bytes 6) × Bytes 6) :=
    [((0, #v[0x00, 0x00, 0x00, 0x00, 0x00, 0x00]), #v[0xa7, 0x88, 0x1d, 0x46, 0xd2, 0xe7]),
     ((1, #v[0xb6, 0xaa, 0x2e, 0x02, 0xd2, 0xe7]), #v[0x02, 0x49, 0x05, 0xcd, 0xe3, 0x7c]),
     ((2, #v[0x02, 0x49, 0x05, 0xcd, 0xe3, 0x7c]), #v[0x39, 0xc4, 0x06, 0x3e, 0x7a, 0xc2]),
     ((3, #v[0x8f, 0x6e, 0x28, 0x3c, 0xa8, 0x25]), #v[0x5d, 0xc9, 0x4f, 0xc6, 0x7c, 0xe4]),
     ((0, #v[0x00, 0x00, 0x00, 0x00, 0x00, 0x01]), #v[0xad, 0xbf, 0x35, 0xa5, 0x08, 0x65]),
     ((1, #v[0xbc, 0x9d, 0x06, 0xe1, 0x08, 0x65]), #v[0x34, 0x2c, 0xaa, 0x86, 0x98, 0xab]),
     ((2, #v[0x34, 0x2c, 0xaa, 0x86, 0x98, 0xaa]), #v[0x40, 0x8d, 0xcc, 0x38, 0x47, 0xd1]),
     ((3, #v[0xfc, 0x10, 0xca, 0xd9, 0x4f, 0xb4]), #v[0x02, 0x93, 0x8b, 0xe0, 0x52, 0x40])]
  (table.lookup (round, half)).getD half

/-- Packet 0 is the record `tls-simple` of `conformance/packet-decode.json`. -/
def conformancePackets : List SealedPacket :=
  [{ nonce := #v[0x8f, 0x6e, 0x28, 0x3c, 0xa8, 0x25, 0x5f, 0x80, 0x4a, 0x0b, 0x9f, 0x98]
     opened := [0x00, 0x00, 0x00, 0x00, 0x00, 0x00, 0x00, 0x00, 0x68, 0x65, 0x6c, 0x6c, 0x6f, 0x20,
       0x71, 0x65, 0x6c, 0x69, 0x00, 0x00]
     sealed := [0x80, 0x4a, 0x24, 0x24, 0xae, 0x5f, 0x36, 0xe0, 0xa5, 0x29, 0x2f, 0x12, 0xa4, 0x3e,
       0xed, 0x74, 0x1b, 0x31, 0xa2, 0xaa]
     tag := #v[0x2d, 0xc1, 0x14, 0x54, 0xb6, 0x53, 0xcf, 0x35, 0x71, 0xd1, 0xe3, 0x6e, 0x2b, 0x0f,
       0x82, 0x83]
     length_sealed := rfl },
   { nonce := #v[0xfc, 0x10, 0xca, 0xd9, 0x4f, 0xb4, 0x36, 0xbf, 0x21, 0x66, 0xca, 0xea]
     opened := [0x00, 0x00, 0x00, 0x00, 0x00, 0x00, 0x00, 0x01, 0x68, 0x69, 0x00, 0x00, 0x00, 0x00,
       0x03]
     sealed := [0x91, 0x9a, 0xac, 0x73, 0xd5, 0xbd, 0x3a, 0x83, 0xcd, 0x32, 0x29, 0x5e, 0xdb, 0xdc,
       0x02]
     tag := #v[0x70, 0xec, 0x64, 0x96, 0x97, 0x68, 0x84, 0x78, 0x4b, 0x95, 0xab, 0x1c, 0xdb, 0x52,
       0x35, 0xbc]
     length_sealed := rfl }]

def conformanceCodec : PacketCodec :=
  .new (.ofTable conformancePackets) #v[0x11, 0x22, 0x33, 0x44] (.replicate 32 0x5a)

/-- "hello qeli" over a stale record, then "hi" with padding. -/
def conformanceCalls : List EncryptCall :=
  [.encryptPacketInto [0x68, 0x65, 0x6c, 0x6c, 0x6f, 0x20, 0x71, 0x65, 0x6c, 0x69] [] [0xff],
   .encryptPacket [0x68, 0x69] [0x00, 0x00, 0x00]]

theorem nonces_never_repeat_conformance :
    let x := conformanceCodec.encryptAll conformancePrpRound conformanceCalls
    (x.2.filter (·.emitted)).length = 2 ∧ x.1.counter = 2 ∧
      ((x.2.filter (·.emitted)).map fun e => recordNonce .tls e.record).Nodup := by
  intro x
  have hrun : Run (EncryptStep conformancePrpRound) conformanceCodec x.2 x.1 :=
    encryptAll_run conformancePrpRound _ _
  have hlength : (x.2.filter (·.emitted)).length = 2 := by decide +kernel
  have hcounter : x.1.counter = 2 := by decide +kernel
  clear_value x
  exact ⟨hlength, hcounter, (nonces_never_repeat hrun).1⟩

end PacketCodec

end Qeli.Packet
