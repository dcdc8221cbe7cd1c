import Qeli.Lib.Chunks
import Qeli.Lib.Tiling
import Qeli.Packet.Codec

/-!
# Authenticated fragments of encrypted records

The envelope of `protocol/data_frag.rs`: a 28-byte little-endian header, a 16-byte
tag over header and payload, and the payload. `fragmentRecord` cuts a record into
such envelopes, `parseAndAuthenticate` reads one. HMAC-SHA256 is a parameter; a
fragment is read back under the key it was written with (`parse_encode`) whatever
function it is.
-/

namespace Qeli.DataFrag

open Qeli.Lib Qeli.Wire

def magic : List UInt8 := [0xf1, 0x51, 0x44, 0x46]

def version : UInt8 := 1

def flags : UInt8 := 0

def tagLen : Nat := 16

def headerWithoutTag : Nat := 28

def headerLen : Nat := headerWithoutTag + tagLen

def maxFragments : Nat := 64

def maxReassemblyRecords : Nat := 32

def maxReassemblyBytes : Nat := 512 * 1024

/-- Nanoseconds. -/
def reassemblyTimeout : Nat := 5000000000

def maxReassembledRecord : Nat := Packet.tlsRecordHeader + Packet.maxRecordSize

def u32Max : Nat := 2 ^ 32 - 1

inductive DataFragError where
  | budgetTooSmall
  | notFragmented
  | recordTooLarge
  | tooManyFragments
  | truncated
  | unsupported
  | invalidMetadata
  | authentication
  | conflict
  | resourceLimit
  deriving DecidableEq, Repr

abbrev Record := List UInt8

abbrev Datagram := List UInt8

structure ParsedFragment where
  recordId : UInt64
  offset : Nat
  totalLen : Nat
  index : Nat
  count : Nat
  payload : List UInt8
  deriving DecidableEq, Repr

namespace ParsedFragment

def header (f : ParsedFragment) : List UInt8 :=
  magic ++ [version, flags] ++ leBytes 8 f.recordId.toNat ++ leBytes 4 f.offset ++
    leBytes 4 f.totalLen ++ leBytes 2 f.index ++ leBytes 2 f.count ++ leBytes 2 f.payload.length

end ParsedFragment

def fragmentTag (hmac : Hmac) (key : Bytes 32) (header payload : List UInt8) : List UInt8 :=
  (hmac key (header ++ payload)).toList.take tagLen

def ParsedFragment.encode (hmac : Hmac) (key : Bytes 32) (f : ParsedFragment) : Datagram :=
  f.header ++ fragmentTag hmac key f.header f.payload ++ f.payload

def fragmentRecord (hmac : Hmac) (record : Record) (key : Bytes 32) (recordId : UInt64)
    (maxPayload : Nat) : Except DataFragError (List Datagram) :=
  if maxPayload = 0 then .error .budgetTooSmall
  else if record.length ≤ maxPayload then .error .notFragmented
  else if maxReassembledRecord < record.length ∨ u32Max < record.length then
    .error .recordTooLarge
  else
    let count := record.length ⌈/⌉ maxPayload
    if maxFragments < count ∨ u16Max < count then .error .tooManyFragments
    else
      (List.range count).mapM fun index =>
        let offset := index * maxPayload
        if u32Max < offset then .error .recordTooLarge
        else
          .ok (ParsedFragment.encode hmac key
            ⟨recordId, offset, record.length, index, count, chunkAt record maxPayload index⟩)

def isDataFragment (datagram : Datagram) : Bool := datagram.take magic.length = magic

def parseAndAuthenticate (hmac : Hmac) (datagram : Datagram) (key : Bytes 32) :
    Except DataFragError ParsedFragment :=
  if datagram.length < headerLen then .error .truncated
  else if !isDataFragment datagram then .error .invalidMetadata
  else if datagram[4]? ≠ some version ∨ datagram[5]? ≠ some flags then .error .unsupported
  else
    let recordId := UInt64.ofNat (ofLE ((datagram.drop 6).take 8))
    let offset := ofLE ((datagram.drop 14).take 4)
    let totalLen := ofLE ((datagram.drop 18).take 4)
    let index := ofLE ((datagram.drop 22).take 2)
    let count := ofLE ((datagram.drop 24).take 2)
    let payloadLen := ofLE ((datagram.drop 26).take 2)
    if ¬ (2 ≤ count ∧ count ≤ maxFragments) ∨ count ≤ index ∨ payloadLen = 0 ∨ totalLen = 0 ∨
        maxReassembledRecord < totalLen ∨ datagram.length ≠ headerLen + payloadLen ∨
        totalLen < offset + payloadLen then
      .error .invalidMetadata
    else
      let payload := datagram.drop headerLen
      if fragmentTag hmac key (datagram.take headerWithoutTag) payload ≠
          (datagram.drop headerWithoutTag).take tagLen then
        .error .authentication
      else .ok ⟨recordId, offset, totalLen, index, count, payload⟩

/-! ## What the parser accepts -/

/-- The metadata checks. -/
structure ParsedFragment.WellFormed (f : ParsedFragment) : Prop where
  count : 2 ≤ f.count ∧ f.count ≤ maxFragments
  index : f.index < f.count
  nonempty : 0 < f.payload.length
  total : f.totalLen ≤ maxReassembledRecord
  within : f.offset + f.payload.length ≤ f.totalLen

theorem parse_ok {hmac : Hmac} {datagram : Datagram} {key : Bytes 32} {f : ParsedFragment}
    (h : parseAndAuthenticate hmac datagram key = .ok f) : f.WellFormed := by
  unfold parseAndAuthenticate at h
  split at h
  · cases h
  · split at h
    · cases h
    · split at h
      · cases h
      · dsimp only at h
        split at h
        · cases h
        · next hmeta =>
          split at h
          · cases h
          · simp only [Except.ok.injEq] at h
            subst h
            simp only [not_or, not_not] at hmeta
            obtain ⟨h1, h2, h3, h4, h5, h6, h7⟩ := hmeta
            have hlen : (datagram.drop headerLen).length = ofLE ((datagram.drop 26).take 2) := by
              rw [List.length_drop, h6]
              omega
            exact ⟨h1, by dsimp only; omega, by dsimp only; omega, by dsimp only; omega,
              by dsimp only; omega⟩

/-! ## Reading what was written -/

@[simp] theorem length_header (f : ParsedFragment) : f.header.length = headerWithoutTag := by
  simp [ParsedFragment.header, headerWithoutTag, magic]

@[simp] theorem length_fragmentTag (hmac : Hmac) (key : Bytes 32) (header payload : List UInt8) :
    (fragmentTag hmac key header payload).length = tagLen := by
  simp [fragmentTag, tagLen]

theorem maxReassembledRecord_eq : maxReassembledRecord = 16645 := by decide

/-- **A fragment is read back under its key.** -/
theorem parse_encode (hmac : Hmac) (key : Bytes 32) {f : ParsedFragment} (hf : f.WellFormed) :
    parseAndAuthenticate hmac (f.encode hmac key) key = .ok f := by
  obtain ⟨hcount, hindex, hne, htotal, hwithin⟩ := hf
  have hmax := maxReassembledRecord_eq
  have hfrag : maxFragments = 64 := rfl
  have hlen : (f.encode hmac key).length = headerLen + f.payload.length := by
    simp only [ParsedFragment.encode, headerLen, List.length_append, length_header,
      length_fragmentTag]
  have htake : (f.encode hmac key).take headerWithoutTag = f.header := by
    rw [ParsedFragment.encode, List.append_assoc]
    exact List.take_left' (length_header f)
  have hdrop : (f.encode hmac key).drop headerLen = f.payload :=
    List.drop_left' (by simp [headerLen])
  have htag : ((f.encode hmac key).drop headerWithoutTag).take tagLen =
      fragmentTag hmac key f.header f.payload :=
    take_drop_append _ _ _ (length_header f) (length_fragmentTag _ _ _ _)
  generalize hR : fragmentTag hmac key f.header f.payload ++ f.payload = R
  have hshape : f.encode hmac key = magic ++ [version, flags] ++ leBytes 8 f.recordId.toNat ++
      leBytes 4 f.offset ++ leBytes 4 f.totalLen ++ leBytes 2 f.index ++ leBytes 2 f.count ++
      leBytes 2 f.payload.length ++ R := by
    rw [← hR, ParsedFragment.encode, List.append_assoc]
    rfl
  have hmagic : isDataFragment (f.encode hmac key) = true := by
    simp [isDataFragment, hshape]
  have hversion : (f.encode hmac key)[4]? = some version := by simp [hshape, magic]
  have hflags : (f.encode hmac key)[5]? = some flags := by simp [hshape, magic]
  have hid : UInt64.ofNat (ofLE (((f.encode hmac key).drop 6).take 8)) = f.recordId := by
    have h : ofLE (((f.encode hmac key).drop 6).take 8) = f.recordId.toNat :=
      ofLE_field (a := magic ++ [version, flags])
        (by rw [hshape]; simp only [List.append_assoc]; rfl) rfl f.recordId.toNat_lt
    rw [h, UInt64.ofNat_toNat]
  have h14 : ofLE (((f.encode hmac key).drop 14).take 4) = f.offset :=
    ofLE_field (a := magic ++ [version, flags] ++ leBytes 8 f.recordId.toNat)
      (by rw [hshape]; simp only [List.append_assoc]; rfl) (by simp [magic]) (by omega)
  have h18 : ofLE (((f.encode hmac key).drop 18).take 4) = f.totalLen :=
    ofLE_field (a := magic ++ [version, flags] ++ leBytes 8 f.recordId.toNat ++ leBytes 4 f.offset)
      (by rw [hshape]; simp only [List.append_assoc]; rfl) (by simp [magic]) (by omega)
  have h22 : ofLE (((f.encode hmac key).drop 22).take 2) = f.index :=
    ofLE_field (a := magic ++ [version, flags] ++ leBytes 8 f.recordId.toNat ++ leBytes 4 f.offset ++
      leBytes 4 f.totalLen)
      (by rw [hshape]; simp only [List.append_assoc]; rfl) (by simp [magic]) (by omega)
  have h24 : ofLE (((f.encode hmac key).drop 24).take 2) = f.count :=
    ofLE_field (a := magic ++ [version, flags] ++ leBytes 8 f.recordId.toNat ++ leBytes 4 f.offset ++
      leBytes 4 f.totalLen ++ leBytes 2 f.index)
      (by rw [hshape]; simp only [List.append_assoc]; rfl) (by simp [magic]) (by omega)
  have h26 : ofLE (((f.encode hmac key).drop 26).take 2) = f.payload.length :=
    ofLE_field hshape (by simp [magic]) (by omega)
  unfold parseAndAuthenticate
  rw [if_neg (by omega), hmagic, if_neg (by simp), hversion, hflags, if_neg (by simp)]
  simp only [hid, h14, h18, h22, h24, h26, hlen, htake, hdrop, htag]
  rw [if_neg (by omega), if_neg (by simp)]

/-! ## The fragments of a record -/

/-- What `fragment_record` accepts. -/
structure Fits (record : Record) (maxPayload : Nat) : Prop where
  payload : 0 < maxPayload
  longer : maxPayload < record.length
  length : record.length ≤ maxReassembledRecord
  count : record.length ⌈/⌉ maxPayload ≤ maxFragments

def fragmentAt (record : Record) (recordId : UInt64) (maxPayload index : Nat) : ParsedFragment :=
  ⟨recordId, index * maxPayload, record.length, index, record.length ⌈/⌉ maxPayload,
    chunkAt record maxPayload index⟩

theorem Fits.count_pos {record : Record} {maxPayload : Nat} (h : Fits record maxPayload) :
    0 < record.length ⌈/⌉ maxPayload := by
  by_contra hc
  have hlong := h.longer
  have := (ceilDiv_le_iff_le_mul h.payload).mp (Nat.le_of_not_lt hc)
  omega

theorem Fits.wellFormed {record : Record} {maxPayload index : Nat} (h : Fits record maxPayload)
    (recordId : UInt64) (hi : index < record.length ⌈/⌉ maxPayload) :
    (fragmentAt record recordId maxPayload index).WellFormed := by
  have hstart := chunk_start_lt h.payload hi
  have hlen := length_chunkAt record maxPayload index
  have hpos := h.payload
  have hlong := h.longer
  refine ⟨⟨?_, h.count⟩, hi, ?_, h.length, ?_⟩
  · by_contra hc
    have : record.length ⌈/⌉ maxPayload ≤ 1 := by
      simp only [fragmentAt] at hc
      omega
    have := (ceilDiv_le_iff_le_mul hpos).mp this
    omega
  · simp only [fragmentAt, hlen]
    omega
  · simp only [fragmentAt, hlen]
    omega

/-- **A record is accepted exactly when it fits, and its fragments are its chunks.** -/
theorem fragmentRecord_ok {hmac : Hmac} {record : Record} {key : Bytes 32} {recordId : UInt64}
    {maxPayload : Nat} {datagrams : List Datagram} :
    fragmentRecord hmac record key recordId maxPayload = .ok datagrams ↔
      Fits record maxPayload ∧ datagrams = (List.range (record.length ⌈/⌉ maxPayload)).map
        fun index => (fragmentAt record recordId maxPayload index).encode hmac key := by
  have hmax := maxReassembledRecord_eq
  have hfrag : maxFragments = 64 := rfl
  have hmap (hf : Fits record maxPayload) : fragmentRecord hmac record key recordId maxPayload =
      .ok ((List.range (record.length ⌈/⌉ maxPayload)).map
        fun index => (fragmentAt record recordId maxPayload index).encode hmac key) := by
    have h1 := hf.payload
    have h2 := hf.longer
    have h3 := hf.length
    have h4 := hf.count
    unfold fragmentRecord
    rw [if_neg (by omega), if_neg (by omega), if_neg (by unfold u32Max; omega)]
    dsimp only
    rw [if_neg (by unfold u16Max; omega)]
    refine mapM_ok fun index hindex => ?_
    have := chunk_start_lt hf.payload (List.mem_range.mp hindex)
    rw [if_neg (by unfold u32Max; omega)]
    rfl
  constructor
  · intro h
    have hf : Fits record maxPayload := by
      unfold fragmentRecord at h
      split at h
      · cases h
      · split at h
        · cases h
        · split at h
          · cases h
          · dsimp only at h
            split at h
            · cases h
            · exact ⟨by omega, by omega, by omega, by omega⟩
    rw [hmap hf] at h
    cases h
    exact ⟨hf, rfl⟩
  · rintro ⟨hf, rfl⟩
    exact hmap hf

end Qeli.DataFrag
