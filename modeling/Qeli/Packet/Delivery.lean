import Qeli.Packet.Nonces

/-!
# Delivery of records

What one codec emits, a codec with the same cipher and framing opens: the record
leads to the check of its counter, and to its payload or to a refused replay
(`decryptPacketInPlace_record`). Over any delivery of a sender's records, with loss,
reordering and duplication, the receiver so answers as its window does.
-/

namespace Qeli.Packet

open Qeli.Lib Qeli.Wire

namespace PacketCodec

/-- Opening inverts sealing, under one nonce. -/
def Opens (cipher : Cipher) : Prop :=
  ∀ nonce buffer sealed tag, cipher.encryptInPlaceDetached nonce buffer = some (sealed, tag) →
    cipher.decryptInPlaceDetached nonce sealed tag = some buffer

/-! ## Framing -/

@[simp] theorem length_recordHead (framing : Framing) (len : Nat) (nonce : Bytes 12) :
    (recordHead framing len nonce).length = framing.headerLen + nonceSize := by
  cases framing <;>
    simp [recordHead, Framing.headerLen, tlsRecordHeader, rawRecordHeader, nonceSize]

theorem headerPayloadLen_recordHead (framing : Framing) {len : Nat} (nonce : Bytes 12)
    (body : List UInt8) (hlen : len ≤ maxRecordSize) :
    headerPayloadLen framing (recordHead framing len nonce ++ body) = .ok len := by
  have hbytes : ofBE (beBytes 2 len) = len := by
    refine ofBE_beBytes (lt_of_le_of_lt hlen (by decide))
  cases framing with
  | tls | raw => simpa [headerPayloadLen, recordHead, beBytes] using hbytes

theorem framedRecordBounds_recordHead (rx : PacketCodec) {len : Nat} (nonce : Bytes 12)
    {body : List UInt8} (hlen : len ≤ maxRecordSize) (hbody : nonceSize + body.length = len)
    (hlong : tagSize + counterSize ≤ body.length) :
    rx.framedRecordBounds (recordHead rx.framing len nonce ++ body) =
      .ok (rx.framing.headerLen, rx.framing.headerLen + len) := by
  unfold framedRecordBounds
  dsimp only
  rw [if_neg (by simp; omega), headerPayloadLen_recordHead _ _ _ hlen]
  dsimp only
  rw [if_neg (by omega), if_neg (by simp; omega)]

theorem slice_append {n : Nat} (a c : List UInt8) (v : Bytes n) {start stop : Nat}
    (ha : a.length = start) (hstop : start + n = stop) :
    slice n (a ++ v.toList ++ c) start stop = some v := by
  have hmid : ((a ++ v.toList ++ c).drop start).take (stop - start) = v.toList :=
    take_drop_append a v.toList c ha (by rw [Vector.length_toList]; omega)
  unfold slice
  rw [dif_pos (by rw [hmid, Vector.length_toList])]
  congr 1
  rw [← Vector.toList_inj]
  exact hmid

/-! ## Opening a record -/

theorem length_usedPadding (padding : List UInt8) :
    (usedPadding padding).length = paddingLen padding := by
  unfold usedPadding paddingLen
  rw [List.length_take]
  omega

theorem length_plaintext (seq : Nat) (data padding : List UInt8) :
    (plaintext seq data (usedPadding padding) (paddingLen padding)).length =
      plaintextLen data padding := by
  unfold plaintext plaintextLen
  simp only [List.length_append, length_beBytes, length_usedPadding]
  rfl

theorem opened_fields (head tail : List UInt8) {seq : Nat} (data padding : List UInt8)
    (hseq : seq ≤ u64Max) {start : Nat} (hstart : head.length = start) :
    let buffer := head ++ plaintext seq data (usedPadding padding) (paddingLen padding) ++ tail
    ofBE ((buffer.drop start).take 8) = seq ∧
      ofBE ((buffer.drop (start + plaintextLen data padding - 2)).take 2) = paddingLen padding ∧
      (buffer.drop (start + counterSize)).take data.length = data := by
  intro buffer
  have hplain : plaintextLen data padding = 8 + data.length + paddingLen padding + 2 := rfl
  refine ⟨?_, ?_, ?_⟩
  · have hbuffer : buffer = head ++ beBytes 8 seq ++
        (data ++ usedPadding padding ++ beBytes 2 (paddingLen padding) ++ tail) := by
      simp only [buffer, plaintext, List.append_assoc]
    rw [hbuffer, take_drop_append _ _ _ hstart (length_beBytes _ _)]
    unfold u64Max at hseq
    exact ofBE_beBytes (by omega)
  · have hbuffer : buffer = (head ++ beBytes 8 seq ++ data ++ usedPadding padding) ++
        beBytes 2 (paddingLen padding) ++ tail := by
      simp only [buffer, plaintext, List.append_assoc]
    rw [hbuffer, take_drop_append _ _ _ ?_ (length_beBytes _ _)]
    · exact ofBE_beBytes (lt_of_le_of_lt (Nat.min_le_right _ _) (by decide))
    · simp only [List.length_append, length_beBytes, length_usedPadding]
      omega
  · have hbuffer : buffer = (head ++ beBytes 8 seq) ++ data ++
        (usedPadding padding ++ beBytes 2 (paddingLen padding) ++ tail) := by
      simp only [buffer, plaintext, List.append_assoc]
    rw [hbuffer, take_drop_append _ _ _ ?_ rfl]
    rw [List.length_append, length_beBytes, hstart]
    rfl

theorem decryptPacketInPlaceInner_opened (rx : PacketCodec) {nonce : Bytes 12}
    {sealed opened : List UInt8} {tag : Bytes 16} {len : Nat}
    (hopened : rx.cipher.decryptInPlaceDetached nonce sealed tag = some opened)
    (hlen : sealed.length = len) (hfits : nonceSize + len + tagSize ≤ maxRecordSize)
    (hlong : counterSize ≤ len) :
    let head := recordHead rx.framing (nonceSize + len + tagSize) nonce
    rx.decryptPacketInPlaceInner (head ++ sealed ++ tag.toList) =
      rx.unpackInPlace (head ++ opened ++ tag.toList) head.length (head.length + len) := by
  intro head
  have hheadLen : head.length = rx.framing.headerLen + nonceSize := length_recordHead _ _ _
  have htag : tag.toList.length = tagSize := Vector.length_toList
  have hbounds : rx.framedRecordBounds (head ++ sealed ++ tag.toList) =
      .ok (rx.framing.headerLen, head.length + len + tagSize) := by
    rw [List.append_assoc, hheadLen, framedRecordBounds_recordHead rx nonce hfits
      (by rw [List.length_append, htag]; omega) (by rw [List.length_append, htag]; omega)]
    simp only [Nat.add_assoc]
  have hnonce : slice 12 (head ++ sealed ++ tag.toList) rx.framing.headerLen
      (rx.framing.headerLen + nonceSize) = some nonce := by
    have hprefix := hheadLen
    unfold head recordHead at hprefix ⊢
    rw [List.length_append, Vector.length_toList] at hprefix
    rw [List.append_assoc]
    exact slice_append _ _ nonce (Nat.add_right_cancel hprefix) rfl
  have htagSlice : slice 16 (head ++ sealed ++ tag.toList) (head.length + len)
      (head.length + len + tagSize) = some tag := by
    have hstart : (head ++ sealed).length = head.length + len := by rw [List.length_append, hlen]
    have hs := slice_append (head ++ sealed) [] tag hstart rfl
    rwa [List.append_nil] at hs
  unfold decryptPacketInPlaceInner
  rw [hbounds]
  dsimp only
  rw [if_neg (by simp only [List.length_append, hlen, htag]; omega), hnonce]
  dsimp only
  rw [← hheadLen, if_neg (by omega), Nat.add_sub_cancel, htagSlice]
  dsimp only
  rw [Nat.add_sub_cancel_left, take_drop_append _ _ _ rfl hlen, hopened]
  dsimp only
  rw [List.append_assoc head sealed, List.take_left, ← List.append_assoc, ← hlen,
    ← List.length_append, List.drop_left]

theorem unpackInPlace_plaintext (rx : PacketCodec) (head tail : List UInt8) {seq : Nat}
    (data padding : List UInt8) (hseq : seq ≤ u64Max) :
    let buffer := head ++ plaintext seq data (usedPadding padding) (paddingLen padding) ++ tail
    rx.unpackInPlace buffer head.length (head.length + plaintextLen data padding) =
      let (replayWindow, fresh) := rx.replayWindow.checkAndRecord seq
      if fresh then ({ rx with replayWindow }, data, .ok ())
      else ({ rx with replayWindow }, buffer, .error .replayDetected) := by
  intro buffer
  obtain ⟨hcounter, hpadding, hdata⟩ := opened_fields head tail data padding hseq rfl
  have hplain : plaintextLen data padding =
      counterSize + data.length + paddingLen padding + 2 := rfl
  have hdataLen : plaintextLen data padding - counterSize - 2 - paddingLen padding = data.length := by
    omega
  unfold unpackInPlace
  dsimp only
  rw [hcounter, hpadding, Nat.add_sub_cancel_left, if_neg (by omega), if_neg (by omega), hdataLen,
    hdata, List.take_left]
  cases (rx.replayWindow.checkAndRecord seq).2 <;> rfl

/-- **A record opens to its payload**, unless the window refuses its counter. -/
theorem decryptPacketInPlace_record {tx rx : PacketCodec} {prpRound : PrpRound} {seq : Nat}
    {data padding record : List UInt8} (h : IsRecord prpRound tx seq data padding record)
    (hopens : Opens tx.cipher) (hcipher : rx.cipher = tx.cipher)
    (hframing : rx.framing = tx.framing) :
    rx.decryptPacketInPlace record =
      let (replayWindow, fresh) := rx.replayWindow.checkAndRecord seq
      if fresh then ({ rx with replayWindow }, data, .ok ())
      else ({ rx with replayWindow }, [], .error .replayDetected) := by
  obtain ⟨sealed, tag, hsealed, rfl⟩ := h.bytes
  have hcounted := h.counted
  have hopened := hopens _ _ _ _ hsealed
  have hlen := (tx.cipher.length_encrypt hsealed).trans (length_plaintext seq data padding)
  rw [← hcipher] at hopened
  have hinner := rx.decryptPacketInPlaceInner_opened hopened hlen h.fits
    (by unfold plaintextLen; omega)
  rw [hframing] at hinner
  unfold decryptPacketInPlace
  rw [hinner, unpackInPlace_plaintext rx _ _ data padding (by omega)]
  dsimp only
  cases (rx.replayWindow.checkAndRecord seq).2 <;> rfl

/-! ## Deliveries -/

/-- The receiver after a list of records, with its answers: what each call leaves in the
record, and its result. -/
def receive (rx : PacketCodec) (records : List (List UInt8)) :
    PacketCodec × List (List UInt8 × Except PacketError Unit) :=
  trace decryptPacketInPlace rx records

def returned (rx : PacketCodec) (ds : List EncryptEvent) : List EncryptEvent :=
  ((ds.zip (rx.receive (ds.map (·.record))).2).filter (·.2.2.isOk)).map (·.1)

theorem receive_snoc (rx : PacketCodec) (records : List (List UInt8)) (record : List UInt8) :
    (rx.receive (records ++ [record])).1 =
      ((rx.receive records).1.decryptPacketInPlace record).1 := by
  unfold receive
  rw [trace_snoc]

theorem returned_snoc (rx : PacketCodec) (ds : List EncryptEvent) (d : EncryptEvent) :
    rx.returned (ds ++ [d]) = rx.returned ds ++
      if ((rx.receive (ds.map (·.record))).1.decryptPacketInPlace d.record).2.2.isOk then [d]
      else [] := by
  unfold returned receive
  rw [List.map_append, List.map_singleton, trace_snoc, List.zip_append (by simp),
    List.filter_append, List.map_append]
  congr 1
  simp only [List.zip_cons_cons, List.zip_nil_right, List.filter_cons, List.filter_nil]
  split <;> rfl

section Receiver

def Emits (prpRound : PrpRound) (tx : PacketCodec) (d : EncryptEvent) : Prop :=
  IsRecord prpRound tx d.seq d.call.data d.call.padding d.record

variable {prpRound : PrpRound} {tx rx : PacketCodec} {ds : List EncryptEvent}

variable (hopens : Opens tx.cipher) (hcipher : rx.cipher = tx.cipher)
  (hframing : rx.framing = tx.framing)
include hopens hcipher hframing

theorem decryptPacketInPlace_emitted {w : ReplayWindow} {rx' : PacketCodec}
    (hstate : rx' = { rx with replayWindow := w }) {d : EncryptEvent} (hd : Emits prpRound tx d) :
    rx'.decryptPacketInPlace d.record =
      let (replayWindow, fresh) := w.checkAndRecord d.seq
      if fresh then ({ rx with replayWindow }, d.call.data, .ok ())
      else ({ rx with replayWindow }, [], .error .replayDetected) := by
  subst hstate
  exact decryptPacketInPlace_record hd hopens hcipher hframing

variable (hfresh : rx.replayWindow = .new)
include hfresh

/-- **The receiver is its window** over the counters delivered. -/
theorem receive_records (hds : ∀ d ∈ ds, Emits prpRound tx d) :
    (rx.receive (ds.map (·.record))).1 =
        { rx with replayWindow := (ReplayWindow.feed (ds.map (·.seq))).1 } ∧
      (rx.returned ds).map (·.seq) = (ReplayWindow.feed (ds.map (·.seq))).2 := by
  induction ds using List.reverseRecOn with
  | nil =>
    refine ⟨?_, rfl⟩
    rw [show (ReplayWindow.feed _).1 = .new from rfl, ← hfresh]
    rfl
  | append_singleton ds d ih =>
    obtain ⟨hstate, hreturned⟩ := ih fun d' hd' => hds d' (List.mem_append_left _ hd')
    have hopen := decryptPacketInPlace_emitted hopens hcipher hframing hstate (hds d (by simp))
    rw [returned_snoc, hopen]
    simp only [List.map_append, List.map_singleton]
    rw [receive_snoc, hopen, ReplayWindow.feed_snoc, hreturned]
    generalize (ReplayWindow.feed (ds.map (·.seq))).1.checkAndRecord d.seq = check
    obtain ⟨w, fresh⟩ := check
    cases fresh with
    | true => exact ⟨rfl, rfl⟩
    | false => exact ⟨rfl, List.append_nil _⟩

theorem receive_record (hds : ∀ d ∈ ds, Emits prpRound tx d) {d : EncryptEvent}
    (hd : Emits prpRound tx d) :
    let answer := ((rx.receive (ds.map (·.record))).1.decryptPacketInPlace d.record).2
    (ReplayWindow.InWindow (ds.map (·.seq)) d.seq → answer = (d.call.data, .ok ())) ∧
      (¬ ReplayWindow.InWindow (ds.map (·.seq)) d.seq → answer = ([], .error .replayDetected)) := by
  intro answer
  obtain ⟨hstate, -⟩ := receive_records hopens hcipher hframing hfresh hds
  have hopen := decryptPacketInPlace_emitted hopens hcipher hframing hstate hd
  have hiff := ((ReplayWindow.tracks_feed (ds.map (·.seq))).1.check d.seq).1
  rw [ReplayWindow.inWindow_feed] at hiff
  rw [← hiff]
  unfold answer
  rw [hopen]
  generalize (ReplayWindow.feed (ds.map (·.seq))).1.checkAndRecord d.seq = check
  obtain ⟨w, fresh⟩ := check
  cases fresh with
  | true => exact ⟨fun _ => rfl, fun hno => absurd rfl hno⟩
  | false => exact ⟨nofun, fun _ => rfl⟩

end Receiver

/-- **Delivery.** Let a sender emit any records, and let any of them arrive at a fresh
receiver of the same cipher and framing, in any order and any number of times. The counters
tell the records apart, no record is answered with a payload twice, and each arrival is
answered with its own payload exactly if it is the first of its counter and the counter is
above all that arrived before it, or less than 2048 below the highest of them. Every other
arrival is a replay. -/
theorem records_delivered_once {prpRound : PrpRound} {tx₀ tx rx : PacketCodec}
    {es ds : List EncryptEvent} (hsent : Run (EncryptStep prpRound) tx₀ es tx)
    (hopens : Opens tx₀.cipher) (hcipher : rx.cipher = tx₀.cipher)
    (hframing : rx.framing = tx₀.framing) (hfresh : rx.replayWindow = .new)
    (hds : ∀ d ∈ ds, d ∈ es.filter (·.emitted)) :
    ((es.filter (·.emitted)).map (·.seq)).Nodup ∧
    ((rx.returned ds).map (·.seq)).Nodup ∧
    ∀ before d after, ds = before ++ d :: after → ∃ answer,
      (rx.receive (ds.map (·.record))).2[before.length]? = some answer ∧
      (ReplayWindow.InWindow (before.map (·.seq)) d.seq → answer = (d.call.data, .ok ())) ∧
      (¬ ReplayWindow.InWindow (before.map (·.seq)) d.seq →
        answer = ([], .error .replayDetected)) := by
  have hissued := issued_run hsent
  have hemits : ∀ d ∈ ds, Emits prpRound tx₀ d := fun d hd =>
    hissued.records d (List.mem_filter.mp (hds d hd)).1 (List.mem_filter.mp (hds d hd)).2
  refine ⟨?_, ?_, ?_⟩
  · rw [List.Nodup, List.pairwise_map]
    exact hissued.increasing.imp fun hlt => Nat.ne_of_lt hlt
  · rw [(receive_records hopens hcipher hframing hfresh hemits).2]
    exact (ReplayWindow.tracks_feed _).2
  · rintro before d after rfl
    refine ⟨_, ?_, receive_record hopens hcipher hframing hfresh
      (fun d' hd' => hemits d' (List.mem_append_left _ hd')) (hemits d (by simp))⟩
    have hat := trace_at decryptPacketInPlace rx (before.map (·.record)) (after.map (·.record))
      d.record
    rwa [List.length_map, ← List.map_cons, ← List.map_append] at hat

theorem opens_ofTable {table : List SealedPacket}
    (h : ∀ p ∈ table, (Cipher.ofTable table).decryptInPlaceDetached p.nonce p.sealed p.tag =
      some p.opened) : Opens (.ofTable table) := by
  intro nonce buffer sealed tag hsealed
  obtain ⟨p, hfind, heq⟩ := Option.map_eq_some_iff.mp hsealed
  have hp := List.find?_some hfind
  simp only [Bool.decide_and, Bool.and_eq_true, decide_eq_true_eq, Prod.mk.injEq] at hp heq
  obtain ⟨rfl, rfl⟩ := hp
  obtain ⟨rfl, rfl⟩ := heq
  exact h p (List.mem_of_find?_eq_some hfind)

/-- The receiver of the conformance codec: its own seed and permutation do not matter. -/
def conformanceReceiver : PacketCodec :=
  .new (.ofTable conformancePackets) (.replicate 4 0) (.replicate 32 0)

/-- "hi" overtakes "hello qeli", and both arrive again. -/
theorem records_delivered_once_conformance :
    let es := (conformanceCodec.encryptAll conformancePrpRound conformanceCalls).2
    let ds := es.reverse ++ es
    (conformanceReceiver.receive (ds.map (·.record))).2.map (fun answer => answer.1) =
      [[0x68, 0x69], [0x68, 0x65, 0x6c, 0x6c, 0x6f, 0x20, 0x71, 0x65, 0x6c, 0x69], [], []] ∧
    (conformanceReceiver.returned ds).length = 2 ∧
    ((conformanceReceiver.returned ds).map (·.seq)).Nodup := by
  intro es ds
  have hrun : Run (EncryptStep conformancePrpRound) conformanceCodec es _ :=
    encryptAll_run conformancePrpRound _ _
  have hanswers : (conformanceReceiver.receive (ds.map (·.record))).2.map (fun answer => answer.1) =
      [[0x68, 0x69], [0x68, 0x65, 0x6c, 0x6c, 0x6f, 0x20, 0x71, 0x65, 0x6c, 0x69], [], []] := by
    decide +kernel
  have hlength : (conformanceReceiver.returned ds).length = 2 := by decide +kernel
  have hall : ∀ e ∈ es, e.emitted = true := by decide +kernel
  have hds : ∀ d ∈ ds, d ∈ es.filter (·.emitted) := by
    intro d hd
    have hd : d ∈ es := by simpa [ds] using hd
    exact List.mem_filter.mpr ⟨hd, hall d hd⟩
  have hopens : Opens conformanceCodec.cipher := opens_ofTable (by decide +kernel)
  have hcipher : conformanceReceiver.cipher = conformanceCodec.cipher := rfl
  exact ⟨hanswers, hlength, (records_delivered_once hrun hopens hcipher rfl rfl hds).2.1⟩

end PacketCodec

end Qeli.Packet
