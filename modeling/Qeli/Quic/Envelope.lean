import Qeli.Lib.Varint
import Qeli.Wire.Roaming

/-!
# The QUIC envelope of a datagram

`protocol/quic.rs`: the handshake travels in a QUIC v1 Initial with no token, the data under a
short header. The parser takes the one shape the sender emits, with the packet type of older
builds as an alternative, but reads both variable-length integers in every spelling; `LongShape`
is what it accepts, `ShortShape` has no freedom. Lengths are those of a slice in memory, so the
additions of offsets do not overflow.
-/

namespace Qeli.Quic

open Qeli.Lib Qeli.Wire

def quicVersionV1 : Nat := 0x00000001
def quicLongHeaderFlag : UInt8 := 0xC0
def quicShortHeaderFlag : UInt8 := 0x40
def quicInitialFlags : UInt8 := quicLongHeaderFlag ||| 0x03
def quicLegacyHandshakeFlags : UInt8 := quicLongHeaderFlag ||| ((0x02 : UInt8) <<< 4) ||| 0x03
def quicShortFlags : UInt8 := quicShortHeaderFlag ||| 0x03

def quicLongHeaderMin : Nat := 1 + 4 + 1 + 4 + 1 + 1 + 1 + 4
def quicShortHeaderMin : Nat := 1 + 4 + 4

inductive QuicError
  | tooShort
  | invalidHeader
  deriving DecidableEq, Repr

structure QuicPacket where
  isLong : Bool
  connectionId : Bytes 4
  packetNumber : UInt32
  payload : List UInt8
  deriving DecidableEq

/-! ## Writing -/

/-- The bytes with `v` after them in its shortest spelling, and whether it has one of at most
four bytes. -/
def pushVarint (out : List UInt8) (v : Nat) : List UInt8 × Bool :=
  if v < 0x40 then (out ++ [UInt8.ofNat v], true)
  else if v < 0x4000 then
    (out ++ [(0x40 : UInt8) ||| UInt8.ofNat (v >>> 8), UInt8.ofNat (v &&& 0xFF)], true)
  else if v < 0x40000000 then
    (out ++ [(0x80 : UInt8) ||| UInt8.ofNat (v >>> 24), UInt8.ofNat ((v >>> 16) &&& 0xFF),
      UInt8.ofNat ((v >>> 8) &&& 0xFF), UInt8.ofNat (v &&& 0xFF)], true)
  else (out, false)

def wrapQuicLong (data : List UInt8) (connectionId : Bytes 4) (packetNumber : UInt32) :
    List UInt8 :=
  let pnLen := 4
  let packet := [quicInitialFlags] ++ beBytes 4 quicVersionV1 ++ [4] ++ connectionId.toList ++
    [0] ++ [0]
  match pushVarint packet (pnLen + data.length) with
  -- a length that has no spelling: the payload goes unmasked
  | (_, false) => data
  | (packet, true) => packet ++ beBytes 4 packetNumber.toNat ++ data

def wrapQuicShort (data : List UInt8) (connectionId : Bytes 4) (packetNumber : UInt32) :
    List UInt8 :=
  [quicShortFlags] ++ connectionId.toList ++ beBytes 4 packetNumber.toNat ++ data

/-! ## Reading -/

/-- The integer at `offset` and the offset after it. -/
def readVarint (buf : List UInt8) (offset : Nat) : Option (Nat × Nat) :=
  match buf[offset]? with
  | none => none
  | some first =>
    let len := 1 <<< (first >>> 6).toNat
    let stop := offset + len
    if buf.length < stop then none
    else
      let rest := (buf.drop (offset + 1)).take (len - 1)
      some (rest.foldl (fun value b => value <<< 8 ||| b.toNat) (first &&& 0x3F).toNat, stop)

def arrayAt (packet : List UInt8) (offset : Nat) : Bytes 4 :=
  Vector.ofFn fun i => packet.getD (offset + i) 0

/-- `u32::from_be_bytes` of the four bytes at `offset`. -/
def u32At (packet : List UInt8) (offset : Nat) : UInt32 :=
  UInt32.ofNat (ofBE (arrayAt packet offset).toList)

/-- What stands after the declared length: it must reach to the end of the datagram. -/
def unwrapNumbered (packet : List UInt8) (dcid : Bytes 4) (declaredLen offset : Nat) :
    Except QuicError QuicPacket :=
  if declaredLen < 4 then .error .invalidHeader
  else
    let packetEnd := offset + declaredLen
    if packet.length < packetEnd then .error .tooShort
    else if packetEnd ≠ packet.length then .error .invalidHeader
    else
      let pnEnd := offset + 4
      .ok {
        isLong := true
        connectionId := dcid
        packetNumber := u32At packet offset
        payload := (packet.drop pnEnd).take (packetEnd - pnEnd) }

/-- The fields of an Initial after its connection ids: no token, then the declared length. -/
def unwrapInitial (packet : List UInt8) (dcid : Bytes 4) (offset : Nat) :
    Except QuicError QuicPacket :=
  match readVarint packet offset with
  | none => .error .tooShort
  | some (tokenLen, offset) =>
    if tokenLen ≠ 0 then .error .invalidHeader
    else
      match readVarint packet offset with
      | none => .error .tooShort
      | some (declaredLen, offset) => unwrapNumbered packet dcid declaredLen offset

def unwrapLong (packet : List UInt8) : Except QuicError QuicPacket :=
  if packet.length < quicLongHeaderMin then .error .tooShort
  else
    let flags := packet.getD 0 0
    if flags ≠ quicInitialFlags ∧ flags ≠ quicLegacyHandshakeFlags then .error .invalidHeader
    else if (u32At packet 1).toNat ≠ quicVersionV1 then .error .invalidHeader
    else
      let dcidLen := (packet.getD 5 0).toNat
      if dcidLen ≠ 4 then .error .invalidHeader
      else
        let dcidEnd := 6 + dcidLen
        if packet.length < dcidEnd then .error .tooShort
        else if packet.length ≤ dcidEnd then .error .tooShort
        else if (packet.getD dcidEnd 0).toNat ≠ 0 then .error .invalidHeader
        else unwrapInitial packet (arrayAt packet 6) (dcidEnd + 1)

def unwrapShort (packet : List UInt8) : Except QuicError QuicPacket :=
  if packet.length < quicShortHeaderMin then .error .tooShort
  else if packet.getD 0 0 ≠ quicShortFlags then .error .invalidHeader
  else .ok {
    isLong := false
    connectionId := arrayAt packet 1
    packetNumber := u32At packet 5
    payload := packet.drop 9 }

/-- `unwrap_quic_ref`, whose payload `unwrap_quic` copies. -/
def unwrapQuic (packet : List UInt8) : Except QuicError QuicPacket :=
  if packet.isEmpty then .error .tooShort
  else if packet.getD 0 0 &&& 0x80 ≠ 0 then unwrapLong packet
  else unwrapShort packet

/-! ## The spellings of a number -/

theorem toNat_twoByteFlag : ∀ x < 64, ((0x40 : UInt8) ||| UInt8.ofNat x).toNat = 64 + x := by
  decide

theorem toNat_fourByteFlag : ∀ x < 64, ((0x80 : UInt8) ||| UInt8.ofNat x).toNat = 128 + x := by
  decide

theorem toNat_lowByte (v : Nat) : (UInt8.ofNat (v &&& 0xFF)).toNat = v % 256 := by
  rw [UInt8.toNat_ofNat', Nat.and_two_pow_sub_one_eq_mod v 8]
  exact Nat.mod_mod _ _

variable {v offset : Nat} {rest packet : List UInt8} {q : QuicPacket}

theorem pushVarint_spells (out : List UInt8) (hv : v < 2 ^ 30) :
    ∃ bytes, pushVarint out v = (out ++ bytes, true) ∧ Spells bytes v ∧
      ∀ other, Spells other v → bytes.length ≤ other.length := by
  unfold pushVarint
  split
  case isTrue h1 =>
    have hbyte : (UInt8.ofNat v).toNat = v := by
      rw [UInt8.toNat_ofNat']
      omega
    refine ⟨_, rfl, .of ?_ ?_, fun other hother => ?_⟩
    · rw [hbyte, Nat.div_eq_of_lt h1]
      rfl
    · simp only [varintValue, hbyte, Nat.mod_eq_of_lt h1, ofBE, List.length_nil, List.foldl_nil,
        Nat.pow_zero, Nat.mul_one, Nat.add_zero]
    · have := hother.length
      simp only [List.length_singleton]
      omega
  case isFalse h1 =>
    split
    case isTrue h2 =>
      have hfirst := toNat_twoByteFlag (v / 2 ^ 8) (by omega)
      rw [Nat.shiftRight_eq_div_pow]
      refine ⟨_, rfl, .of ?_ ?_, fun other hother => ?_⟩
      · rw [hfirst, show (64 + v / 2 ^ 8) / 64 = 1 by omega]
        rfl
      · simp only [varintValue, hfirst, ofBE, List.length_cons, List.length_nil, List.foldl_cons,
          List.foldl_nil, toNat_lowByte]
        omega
      · have hlen := hother.length
        have hlt := hother.lt
        simp only [List.length_cons, List.length_nil]
        obtain h | h | h | h := hlen <;> rw [h] at hlt ⊢ <;> omega
    case isFalse h2 =>
      rw [if_pos (show v < 0x40000000 from hv)]
      have hfirst := toNat_fourByteFlag (v / 2 ^ 24) (by omega)
      simp only [Nat.shiftRight_eq_div_pow]
      refine ⟨_, rfl, .of ?_ ?_, fun other hother => ?_⟩
      · rw [hfirst, show (128 + v / 2 ^ 24) / 64 = 2 by omega]
        rfl
      · simp only [varintValue, hfirst, ofBE, List.length_cons, List.length_nil, List.foldl_cons,
          List.foldl_nil, toNat_lowByte]
        omega
      · have hlen := hother.length
        have hlt := hother.lt
        simp only [List.length_cons, List.length_nil]
        obtain h | h | h | h := hlen <;> rw [h] at hlt ⊢ <;> omega

theorem foldl_shift (acc : Nat) (rest : List UInt8) :
    rest.foldl (fun value b => value <<< 8 ||| b.toNat) acc =
      acc * 256 ^ rest.length + ofBE rest := by
  induction rest generalizing acc with
  | nil => simp [ofBE]
  | cons b rest ih =>
    have hstep : acc <<< 8 ||| b.toNat = acc * 256 + b.toNat := by
      rw [Nat.shiftLeft_eq]
      exact mul_two_pow_or acc b.toNat_lt
    rw [List.foldl_cons, ih, hstep, ofBE_cons, List.length_cons, Nat.pow_succ]
    ring

theorem toNat_topBits (first : UInt8) : (first >>> 6).toNat = first.toNat / 64 := by
  rw [UInt8.toNat_shiftRight, Nat.shiftRight_eq_div_pow]
  rfl

theorem toNat_lowBits (first : UInt8) : (first &&& 0x3F).toNat = first.toNat % 64 :=
  (UInt8.toNat_and first 0x3F).trans (Nat.and_two_pow_sub_one_eq_mod first.toNat 6)

theorem readVarint_sound {buf : List UInt8} {stop : Nat}
    (h : readVarint buf offset = some (v, stop)) :
    ∃ bytes, Spells bytes v ∧ stop = offset + bytes.length ∧
      buf.drop offset = bytes ++ buf.drop stop := by
  unfold readVarint at h
  cases hfirst : buf[offset]? with
  | none => simp [hfirst] at h
  | some first =>
    simp only [hfirst, foldl_shift, toNat_topBits, toNat_lowBits, Nat.one_shiftLeft] at h
    split at h
    · cases h
    rename_i hfits
    obtain ⟨rfl, rfl⟩ := Prod.mk.inj (Option.some.inj h)
    set len := 2 ^ (first.toNat / 64) with hlen
    set rest := (buf.drop (offset + 1)).take (len - 1) with hrest
    have hpos : 0 < len := Nat.two_pow_pos _
    have hcount : rest.length + 1 = len := by
      rw [hrest, List.length_take, List.length_drop]
      omega
    refine ⟨first :: rest, .mk first rest (hcount.trans hlen), by rw [List.length_cons, hcount], ?_⟩
    obtain ⟨hlt, hget⟩ := List.getElem?_eq_some_iff.mp hfirst
    rw [List.drop_eq_getElem_cons hlt, hget, List.cons_append]
    congr 1
    calc buf.drop (offset + 1) = rest ++ (buf.drop (offset + 1)).drop (len - 1) :=
          (List.take_append_drop _ _).symm
      _ = rest ++ buf.drop (offset + len) := by
          rw [List.drop_drop, show offset + 1 + (len - 1) = offset + len by omega]

theorem readVarint_complete {buf bytes : List UInt8} (h : buf.drop offset = bytes ++ rest)
    (hv : Spells bytes v) : readVarint buf offset = some (v, offset + bytes.length) := by
  obtain ⟨first, tail, hlen⟩ := hv
  have hget : buf[offset]? = some first := by
    rw [← List.head?_drop, h, List.cons_append, List.head?_cons]
  have hfits : offset + (tail.length + 1) ≤ buf.length := by
    have := congrArg List.length h
    rw [List.length_drop, List.length_append, List.length_cons] at this
    omega
  have htail : (buf.drop (offset + 1)).take tail.length = tail := by
    rw [← List.drop_drop, h, List.cons_append, List.drop_one, List.tail_cons, List.take_left]
  simp only [readVarint, hget, foldl_shift, toNat_topBits, toNat_lowBits, Nat.one_shiftLeft, ← hlen,
    Nat.add_sub_cancel, htail, List.length_cons, if_neg (Nat.not_lt.mpr hfits)]
  rfl

/-! ## Fields at an offset -/

theorem toList_arrayAt (h : offset + 4 ≤ packet.length) :
    packet.drop offset = (arrayAt packet offset).toList ++ packet.drop (offset + 4) := by
  have hcut : (packet.drop offset).take 4 = (arrayAt packet offset).toList := by
    refine List.ext_getElem (by simp; omega) fun i h1 h2 => ?_
    have hi : i < 4 := by simpa using h2
    simp [arrayAt, List.getElem?_eq_getElem (show offset + i < packet.length by omega)]
  rw [← hcut, ← List.drop_drop, List.take_append_drop]

theorem arrayAt_eq {bytes : Bytes 4} (h : packet.drop offset = bytes.toList ++ rest) :
    arrayAt packet offset = bytes := by
  have hlen : offset + 4 ≤ packet.length := by
    have := congrArg List.length h
    rw [List.length_drop, List.length_append, Vector.length_toList] at this
    omega
  rw [toList_arrayAt hlen] at h
  exact Vector.toList_inj.mp (List.append_inj_left h (by simp))

theorem beBytes_u32At (h : offset + 4 ≤ packet.length) :
    packet.drop offset = beBytes 4 (u32At packet offset).toNat ++ packet.drop (offset + 4) := by
  have hlt : ofBE (arrayAt packet offset).toList < 256 ^ 4 := by
    simpa using ofBE_lt (arrayAt packet offset).toList
  have hbytes : beBytes 4 (u32At packet offset).toNat = (arrayAt packet offset).toList := by
    refine ofBE_inj (by simp) ?_
    rw [u32At, UInt32.toNat_ofNat_of_lt' hlt, ofBE_beBytes hlt]
  rw [hbytes]
  exact toList_arrayAt h

theorem u32At_eq {n : UInt32} (h : packet.drop offset = beBytes 4 n.toNat ++ rest) :
    u32At packet offset = n := by
  have hlen : offset + 4 ≤ packet.length := by
    have := congrArg List.length h
    rw [List.length_drop, List.length_append, length_beBytes] at this
    omega
  rw [beBytes_u32At hlen] at h
  have hbytes := List.append_inj_left h (by simp)
  exact UInt32.toNat_inj.mp (beBytes_inj (UInt32.toNat_lt _) n.toNat_lt hbytes)

/-! ## What is accepted -/

/-- An Initial with the given first byte and the given spellings of its two integers. -/
def longEnvelope (flags : UInt8) (token length : List UInt8) (q : QuicPacket) : List UInt8 :=
  [flags] ++ (beBytes 4 quicVersionV1 ++ ([4] ++ (q.connectionId.toList ++ ([0] ++ (token ++
    (length ++ (beBytes 4 q.packetNumber.toNat ++ q.payload)))))))

inductive LongShape : List UInt8 → QuicPacket → Prop
  | mk (flags : UInt8) (token length : List UInt8) (q : QuicPacket) (hlong : q.isLong = true)
    (hflags : flags = quicInitialFlags ∨ flags = quicLegacyHandshakeFlags)
    (htoken : Spells token 0) (hlength : Spells length (4 + q.payload.length)) :
    LongShape (longEnvelope flags token length q) q

inductive ShortShape : List UInt8 → QuicPacket → Prop
  | mk (q : QuicPacket) (hshort : q.isLong = false) :
    ShortShape (wrapQuicShort q.payload q.connectionId q.packetNumber) q

theorem unwrapNumbered_sound {dcid : Bytes 4} {declaredLen : Nat}
    (h : unwrapNumbered packet dcid declaredLen offset = .ok q) :
    q.isLong = true ∧ q.connectionId = dcid ∧ declaredLen = 4 + q.payload.length ∧
      packet.drop offset = beBytes 4 q.packetNumber.toNat ++ q.payload := by
  unfold unwrapNumbered at h
  split at h
  · cases h
  rename_i hmin
  dsimp only at h
  split at h
  · cases h
  split at h
  · cases h
  rename_i hend
  cases h
  have hend' : offset + declaredLen = packet.length := not_not.mp hend
  have hpayload : (packet.drop (offset + 4)).take (offset + declaredLen - (offset + 4)) =
      packet.drop (offset + 4) := by
    apply List.take_of_length_le
    rw [List.length_drop]
    omega
  refine ⟨rfl, rfl, ?_, ?_⟩
  · rw [hpayload, List.length_drop]
    omega
  · rw [hpayload]
    exact beBytes_u32At (by omega)

theorem unwrapNumbered_complete (hlong : q.isLong = true)
    (h : packet.drop offset = beBytes 4 q.packetNumber.toNat ++ q.payload) :
    unwrapNumbered packet q.connectionId (4 + q.payload.length) offset = .ok q := by
  have hlen : packet.length - offset = 4 + q.payload.length := by
    rw [← List.length_drop, h, List.length_append, length_beBytes]
  have hrest : packet.drop (offset + 4) = q.payload := by
    simpa using drop_add_of_append h
  have hend : offset + (4 + q.payload.length) = packet.length := by omega
  unfold unwrapNumbered
  rw [if_neg (by omega), hend]
  simp only [Nat.lt_irrefl, ne_eq, not_true_eq_false, if_false, hrest, u32At_eq h]
  rw [List.take_of_length_le (by omega), ← hlong]

theorem unwrapInitial_sound {dcid : Bytes 4} (h : unwrapInitial packet dcid offset = .ok q) :
    q.isLong = true ∧ q.connectionId = dcid ∧ ∃ token length, Spells token 0 ∧
      Spells length (4 + q.payload.length) ∧
      packet.drop offset =
        token ++ (length ++ (beBytes 4 q.packetNumber.toNat ++ q.payload)) := by
  unfold unwrapInitial at h
  cases htoken : readVarint packet offset with
  | none => simp [htoken] at h
  | some t =>
    simp only [htoken] at h
    split at h
    · cases h
    rename_i hzero
    obtain ⟨token, htok, hstop, hdrop⟩ := readVarint_sound htoken
    cases hlength : readVarint packet t.2 with
    | none => simp [hlength] at h
    | some n =>
      simp only [hlength] at h
      obtain ⟨length, hlen, hstop', hdrop'⟩ := readVarint_sound hlength
      obtain ⟨hlong, hcid, hdeclared, hrest⟩ := unwrapNumbered_sound h
      refine ⟨hlong, hcid, token, length, not_not.mp hzero ▸ htok, hdeclared ▸ hlen, ?_⟩
      rw [hdrop, hdrop', hrest]

theorem unwrapInitial_complete {token length : List UInt8} (hlong : q.isLong = true)
    (htoken : Spells token 0) (hlength : Spells length (4 + q.payload.length))
    (h : packet.drop offset =
      token ++ (length ++ (beBytes 4 q.packetNumber.toNat ++ q.payload))) :
    unwrapInitial packet q.connectionId offset = .ok q := by
  have h' := drop_add_of_append h
  simp only [unwrapInitial, readVarint_complete h htoken, readVarint_complete h' hlength, ne_eq,
    not_true_eq_false, if_false]
  exact unwrapNumbered_complete hlong (drop_add_of_append h')

theorem unwrapLong_sound (h : unwrapLong packet = .ok q) : LongShape packet q := by
  unfold unwrapLong at h
  split at h
  · cases h
  rename_i hmin
  have hmin' : 17 ≤ packet.length := Nat.not_lt.mp hmin
  dsimp only at h
  split at h
  · cases h
  rename_i hflags
  split at h
  · cases h
  rename_i hversion
  split at h
  · cases h
  rename_i hdcid
  have hfour : (packet.getD 5 0).toNat = 4 := not_not.mp hdcid
  rw [hfour, if_neg (by omega), if_neg (by omega)] at h
  split at h
  · cases h
  rename_i hscid
  have hdcidByte : packet.getD 5 0 = 4 := UInt8.toNat_inj.mp hfour
  have hscidByte : packet.getD 10 0 = 0 := UInt8.toNat_inj.mp (not_not.mp hscid)
  obtain ⟨hlong, hcid, token, length, htoken, hlength, hrest⟩ := unwrapInitial_sound h
  have hshape : packet = longEnvelope (packet.getD 0 0) token length q := by
    -- the fields before the integers, from the left
    have h0 : packet.drop 0 = packet.getD 0 0 :: packet.drop 1 := drop_eq_getD_cons 0 (by omega)
    have h1 : packet.drop 1 = beBytes 4 quicVersionV1 ++ packet.drop 5 :=
      not_not.mp hversion ▸ beBytes_u32At (by omega)
    have h5 : packet.drop 5 = 4 :: packet.drop 6 :=
      hdcidByte ▸ drop_eq_getD_cons 0 (by omega)
    have h6 : packet.drop 6 = q.connectionId.toList ++ packet.drop 10 :=
      hcid ▸ toList_arrayAt (by omega)
    have h10 : packet.drop 10 = 0 :: packet.drop 11 :=
      hscidByte ▸ drop_eq_getD_cons 0 (by omega)
    calc packet = packet.drop 0 := rfl
      _ = _ := by
        rw [h0, h1, h5, h6, h10, hrest]
        rfl
  rw [hshape]
  refine .mk _ token length q hlong ?_ htoken hlength
  by_contra hne
  exact hflags (not_or.mp hne)

theorem unwrapLong_complete (h : LongShape packet q) : unwrapLong packet = .ok q := by
  obtain ⟨flags, token, length, q, hlong, hflags, htoken, hlength⟩ := h
  set packet := longEnvelope flags token length q with hpacket
  have h0 : packet.drop 0 = [flags] ++ _ := hpacket
  have h1 := drop_add_of_append h0
  have h5 := drop_add_of_append h1
  have h6 := drop_add_of_append h5
  have h10 := drop_add_of_append h6
  have h11 := drop_add_of_append h10
  simp only [List.length_singleton, length_beBytes, Vector.length_toList, Nat.zero_add,
    Nat.reduceAdd] at h1 h5 h6 h10 h11
  have hmin : quicLongHeaderMin ≤ packet.length := by
    have ht := htoken.length
    have hl := hlength.length
    have := congrArg List.length h11
    simp only [List.length_drop, List.length_append, length_beBytes] at this
    simp only [quicLongHeaderMin]
    omega
  have hfour : (packet.getD 5 0).toNat = 4 := by
    rw [getD_of_drop h5]
    rfl
  have hversion : (u32At packet 1).toNat = quicVersionV1 := by
    rw [u32At_eq (n := 1) h1]
    rfl
  have hlen : 17 ≤ packet.length := hmin
  rw [unwrapLong, if_neg (Nat.not_lt.mpr hmin)]
  dsimp only
  rw [getD_of_drop h0, if_neg (fun hne => hflags.elim hne.1 hne.2), hversion, hfour,
    getD_of_drop h10, arrayAt_eq h6]
  simp only [ne_eq, not_true_eq_false, if_false]
  rw [if_neg (by omega), if_neg (by omega), if_neg (by decide)]
  exact unwrapInitial_complete hlong htoken hlength h11

theorem unwrapShort_sound (h : unwrapShort packet = .ok q) : ShortShape packet q := by
  unfold unwrapShort at h
  split at h
  · cases h
  rename_i hmin
  have hmin' : 9 ≤ packet.length := Nat.not_lt.mp hmin
  split at h
  · cases h
  rename_i hflags
  have hq := Except.ok.inj h
  have h0 : packet.drop 0 = quicShortFlags :: packet.drop 1 :=
    not_not.mp hflags ▸ drop_eq_getD_cons 0 (by omega)
  have hshape : packet = wrapQuicShort q.payload q.connectionId q.packetNumber := by
    rw [← hq]
    calc packet = packet.drop 0 := rfl
      _ = quicShortFlags :: ((arrayAt packet 1).toList ++ (beBytes 4 (u32At packet 5).toNat ++
          packet.drop 9)) := by
        rw [h0, toList_arrayAt (by omega), ← beBytes_u32At (by omega)]
      _ = _ := by simp [wrapQuicShort]
  rw [hshape]
  exact .mk q (hq ▸ rfl)

theorem unwrapShort_complete (h : ShortShape packet q) : unwrapShort packet = .ok q := by
  obtain ⟨q, hshort⟩ := h
  set packet := wrapQuicShort q.payload q.connectionId q.packetNumber with hpacket
  have h0 : packet.drop 0 = [quicShortFlags] ++ (q.connectionId.toList ++
      (beBytes 4 q.packetNumber.toNat ++ q.payload)) := by
    simp [hpacket, wrapQuicShort]
  have h1 := drop_add_of_append h0
  have h5 := drop_add_of_append h1
  have h9 := drop_add_of_append h5
  simp only [List.length_singleton, length_beBytes, Vector.length_toList, Nat.zero_add,
    Nat.reduceAdd] at h1 h5 h9
  have hmin : quicShortHeaderMin ≤ packet.length := by
    have := congrArg List.length h0
    simp only [List.length_drop, List.length_append, length_beBytes, List.length_singleton,
      Vector.length_toList] at this
    simp only [quicShortHeaderMin]
    omega
  rw [unwrapShort, if_neg (Nat.not_lt.mpr hmin), getD_of_drop h0, if_neg (not_not.mpr rfl),
    arrayAt_eq h1, u32At_eq h5, h9, ← hshort]

theorem unwrapQuic_cons (flags : UInt8) (rest : List UInt8) :
    unwrapQuic (flags :: rest) =
      if flags &&& 0x80 ≠ 0 then unwrapLong (flags :: rest) else unwrapShort (flags :: rest) :=
  rfl

theorem unwrapQuic_iff : unwrapQuic packet = .ok q ↔ LongShape packet q ∨ ShortShape packet q := by
  constructor
  · intro h
    unfold unwrapQuic at h
    split at h
    · cases h
    split at h
    · exact .inl (unwrapLong_sound h)
    · exact .inr (unwrapShort_sound h)
  · rintro (hlong | hshort)
    · have hparse := unwrapLong_complete hlong
      obtain ⟨flags, token, length, q, -, hflags, -, -⟩ := hlong
      exact (unwrapQuic_cons flags _).trans
        ((if_pos (by obtain rfl | rfl := hflags <;> decide)).trans hparse)
    · have hparse := unwrapShort_complete hshort
      obtain ⟨q, -⟩ := hshort
      exact (unwrapQuic_cons quicShortFlags _).trans ((if_neg (by decide)).trans hparse)

/-! ## What is sent -/

theorem wrapQuicLong_eq (hlen : 4 + q.payload.length < 2 ^ 30) :
    ∃ length, Spells length (4 + q.payload.length) ∧
      (∀ other, Spells other (4 + q.payload.length) → length.length ≤ other.length) ∧
      wrapQuicLong q.payload q.connectionId q.packetNumber =
        longEnvelope quicInitialFlags [0] length q := by
  obtain ⟨length, hpush, hspells, hshortest⟩ := pushVarint_spells
    ([quicInitialFlags] ++ beBytes 4 quicVersionV1 ++ [4] ++ q.connectionId.toList ++ [0] ++ [0])
    hlen
  refine ⟨length, hspells, hshortest, ?_⟩
  simp only [wrapQuicLong, hpush]
  simp only [longEnvelope, List.append_assoc]

theorem wrapQuicLong_large {data : List UInt8} (connectionId : Bytes 4) (packetNumber : UInt32)
    (hlen : ¬ 4 + data.length < 2 ^ 30) : wrapQuicLong data connectionId packetNumber = data := by
  have hpush : ∀ out, pushVarint out (4 + data.length) = (out, false) := fun out => by
    rw [pushVarint, if_neg (by omega), if_neg (by omega), if_neg (by omega)]
  simp only [wrapQuicLong, hpush]

theorem spells_zero : Spells [0] 0 := .mk 0 [] rfl

/-- The envelope a datagram may have, and what the sender makes of its fields. -/
structure EnvelopeLaw : Prop where
  /-- A short header is accepted in the one form that is sent. -/
  short : ∀ p q, unwrapQuic p = .ok q → q.isLong = false →
    p = wrapQuicShort q.payload q.connectionId q.packetNumber
  /-- A long header is accepted in the one form that is sent, up to the first byte of older
  builds and up to the spelling of its two integers: the empty token's length and the length of
  packet number and payload. -/
  long : ∀ p q, q.isLong = true → (unwrapQuic p = .ok q ↔ ∃ flags token length,
    (flags = quicInitialFlags ∨ flags = quicLegacyHandshakeFlags) ∧
    Spells token 0 ∧ Spells length (4 + q.payload.length) ∧ p = longEnvelope flags token length q)
  /-- One that takes no more bytes than the one that is sent differs from it at most in the
  first byte. -/
  exact : ∀ p q, unwrapQuic p = .ok q → q.isLong = true →
    p.length ≤ (wrapQuicLong q.payload q.connectionId q.packetNumber).length →
    p = wrapQuicLong q.payload q.connectionId q.packetNumber ∨
    p = (wrapQuicLong q.payload q.connectionId q.packetNumber).set 0 quicLegacyHandshakeFlags
  inverts_long : ∀ data connectionId packetNumber, data.length < 2 ^ 30 - 4 →
    unwrapQuic (wrapQuicLong data connectionId packetNumber) =
      .ok ⟨true, connectionId, packetNumber, data⟩
  inverts_short : ∀ data connectionId packetNumber,
    unwrapQuic (wrapQuicShort data connectionId packetNumber) =
      .ok ⟨false, connectionId, packetNumber, data⟩

theorem length_longEnvelope (flags : UInt8) (token length : List UInt8) (q : QuicPacket) :
    (longEnvelope flags token length q).length =
      15 + token.length + length.length + q.payload.length := by
  simp only [longEnvelope, List.length_append, List.length_singleton, length_beBytes,
    Vector.length_toList]
  omega

/-- The first spelling that is not longer than the one that is sent is that one. -/
theorem longShape_exact {p : List UInt8} (h : LongShape p q)
    (hlen : p.length ≤ (wrapQuicLong q.payload q.connectionId q.packetNumber).length) :
    p = wrapQuicLong q.payload q.connectionId q.packetNumber ∨
    p = (wrapQuicLong q.payload q.connectionId q.packetNumber).set 0 quicLegacyHandshakeFlags := by
  obtain ⟨flags, token, length, q, hlong, hflags, htoken, hlength⟩ := h
  rw [length_longEnvelope] at hlen
  by_cases hlarge : 4 + q.payload.length < 2 ^ 30
  · obtain ⟨sent, hsent, hshortest, heq⟩ := wrapQuicLong_eq hlarge
    rw [heq] at hlen ⊢
    rw [length_longEnvelope, List.length_singleton] at hlen
    have hle := hshortest length hlength
    have htok := htoken.length
    have htoken0 : token = [0] := htoken.unique spells_zero (by rw [List.length_singleton]; omega)
    have hlength0 : length = sent := hlength.unique hsent (by omega)
    rw [htoken0, hlength0]
    obtain rfl | rfl := hflags
    · exact .inl rfl
    · exact .inr rfl
  · rw [wrapQuicLong_large _ _ hlarge] at hlen
    omega

theorem strict_quic_envelope : EnvelopeLaw where
  short := by
    rintro p q h hshort
    obtain hlong | hshape := unwrapQuic_iff.mp h
    · obtain ⟨flags, token, length, q, hlong, -⟩ := hlong
      exact absurd (hshort.symm.trans hlong) (by decide)
    · obtain ⟨q, -⟩ := hshape
      rfl
  long := by
    intro p q hlong
    rw [unwrapQuic_iff]
    constructor
    · rintro (hshape | hshape)
      · obtain ⟨flags, token, length, q, -, hflags, htoken, hlength⟩ := hshape
        exact ⟨flags, token, length, hflags, htoken, hlength, rfl⟩
      · obtain ⟨q, hshort⟩ := hshape
        exact absurd (hshort.symm.trans hlong) (by decide)
    · rintro ⟨flags, token, length, hflags, htoken, hlength, rfl⟩
      exact .inl (.mk flags token length q hlong hflags htoken hlength)
  exact := by
    rintro p q h hlong hlen
    obtain hshape | hshape := unwrapQuic_iff.mp h
    · exact longShape_exact hshape hlen
    · obtain ⟨q, hshort⟩ := hshape
      exact absurd (hshort.symm.trans hlong) (by decide)
  inverts_long := by
    intro data connectionId packetNumber hlen
    obtain ⟨length, hspells, -, heq⟩ :=
      wrapQuicLong_eq (q := ⟨true, connectionId, packetNumber, data⟩) (by dsimp only; omega)
    rw [unwrapQuic_iff, heq]
    exact .inl (.mk _ _ _ _ rfl (.inl rfl) spells_zero hspells)
  inverts_short data connectionId packetNumber :=
    unwrapQuic_iff.mpr (.inr (.mk ⟨false, connectionId, packetNumber, data⟩ rfl))

/-- An Initial whose empty token has its length spelled in two bytes. -/
def wideToken : List UInt8 :=
  longEnvelope quicInitialFlags [0x40, 0] [4] ⟨true, Vector.replicate 4 7, 1, []⟩

/-- It is accepted, and it is no envelope that is sent. -/
theorem wide_token_accepted :
    unwrapQuic wideToken = .ok ⟨true, Vector.replicate 4 7, 1, []⟩ ∧
    wideToken ≠ wrapQuicLong [] (Vector.replicate 4 7) 1 ∧
    wideToken ≠ (wrapQuicLong [] (Vector.replicate 4 7) 1).set 0 quicLegacyHandshakeFlags := by
  refine ⟨?_, ?_, ?_⟩ <;> decide

end Qeli.Quic
