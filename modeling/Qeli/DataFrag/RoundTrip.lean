import Mathlib.Data.List.ReduceOption
import Qeli.DataFrag.Assembly
import Qeli.Lib.Arrivals

/-!
# The way of a record

A sender cuts up to 32 records with distinct ids; their datagrams reach the receiver
in any order and interleaving, and a fragment may come again while its record is
incomplete (`Schedule`). `Tracks` says what the receiver holds after such a
schedule: an entry for each started, incomplete record, with exactly the chunks
delivered. From it every call succeeds and a record is handed over by the call that
brings its last missing fragment.
-/

namespace Qeli.DataFrag

open Qeli.Lib Qeli.Wire

structure Sent where
  recordId : UInt64
  record : Record
  maxPayload : Nat
  deriving DecidableEq, Repr

namespace Sent

def count (s : Sent) : Nat := s.record.length ⌈/⌉ s.maxPayload

def fragment (s : Sent) (index : Nat) : ParsedFragment :=
  fragmentAt s.record s.recordId s.maxPayload index

def Accepted (hmac : Hmac) (key : Bytes 32) (s : Sent) : Prop :=
  ∃ datagrams, fragmentRecord hmac s.record key s.recordId s.maxPayload = .ok datagrams

end Sent

abbrev Delivery := Arrival Sent Datagram

/-- The datagram is what `fragment_record` made for that position. -/
def Carries (hmac : Hmac) (key : Bytes 32) (d : Delivery) : Prop :=
  ∃ datagrams, fragmentRecord hmac d.item.record key d.item.recordId d.item.maxPayload =
    .ok datagrams ∧ datagrams[d.index]? = some d.data

/-- No incomplete record is older than the timeout. -/
def InTime (sent : List Sent) (ds : List Delivery) (now : Nat) : Prop :=
  ∀ s ∈ sent, ¬ Complete Sent.count ds s → ∀ t ∈ startedAt ds s, now - t ≤ reassemblyTimeout

instance (sent : List Sent) (ds : List Delivery) (now : Nat) : Decidable (InTime sent ds now) :=
  inferInstanceAs (Decidable (∀ s ∈ sent, ¬ Complete Sent.count ds s → ∀ t ∈ startedAt ds s,
    now - t ≤ reassemblyTimeout))

/-- A fragment of a record that is incomplete, in time. -/
structure Arrives (hmac : Hmac) (key : Bytes 32) (sent : List Sent) (ds : List Delivery)
    (d : Delivery) : Prop where
  item : d.item ∈ sent
  carries : Carries hmac key d
  incomplete : ¬ Complete Sent.count ds d.item
  inTime : InTime sent ds d.now

abbrev Schedule (hmac : Hmac) (key : Bytes 32) (sent : List Sent) : List Delivery → Prop :=
  History (Arrives hmac key sent)

variable {d : Delivery} {s : Sent} {e : PendingRecord} {ds : List Delivery}

theorem Carries.fits {hmac : Hmac} {key : Bytes 32} (h : Carries hmac key d) :
    Fits d.item.record d.item.maxPayload ∧ d.index < d.item.count ∧
      d.data = (d.item.fragment d.index).encode hmac key := by
  obtain ⟨datagrams, hok, hget⟩ := h
  obtain ⟨hfits, rfl⟩ := fragmentRecord_ok.mp hok
  obtain ⟨hlt, heq⟩ := List.getElem?_eq_some_iff.mp hget
  rw [List.length_map, List.length_range] at hlt
  rw [List.getElem_map, List.getElem_range] at heq
  exact ⟨hfits, hlt, heq.symm⟩

/-! ## Joining the chunks of a record -/

theorem joinChunks_range {s : Sent} (hf : Fits s.record s.maxPayload) :
    ∀ {n k : Nat}, k + n ≤ s.count →
      joinChunks ((List.range' k n).map fun i => (s.fragment i).chunk)
        (s.record.take (k * s.maxPayload)) = .ok (s.record.take ((k + n) * s.maxPayload))
  | 0, k, _ => rfl
  | n + 1, k, hk => by
    have hstart := chunk_start_lt hf.payload (show k < s.record.length ⌈/⌉ s.maxPayload by
      unfold Sent.count at hk; omega)
    have ih := joinChunks_range hf (n := n) (k := k + 1) (by omega)
    rw [List.range'_succ, List.map_cons, joinChunks, if_neg]
    · simp only [Sent.fragment, fragmentAt, ParsedFragment.chunk] at ih ⊢
      rw [take_append_chunkAt, ih]
      congr 3
      omega
    · simp only [Sent.fragment, fragmentAt, ParsedFragment.chunk, List.length_take, not_not]
      omega

/-- **The chunks of a record, all of them, are joined to the record.** -/
theorem assemble_complete (hf : Fits s.record s.maxPayload) (htotal : e.totalLen = s.record.length)
    (hchunks : e.chunks = (List.range s.count).map fun i => some (s.fragment i).chunk) :
    e.assemble = .ok s.record := by
  have hheld : e.held = (List.range s.count).map fun i => (s.fragment i).chunk := by
    rw [PendingRecord.held, hchunks, List.filterMap_map]
    exact congrFun List.filterMap_eq_map _
  have hsorted : e.held.insertionSort (fun a b => a.offset ≤ b.offset) = e.held := by
    refine List.Pairwise.insertionSort_eq ?_
    rw [hheld, List.pairwise_map]
    exact List.pairwise_lt_range.imp fun h =>
      Nat.mul_le_mul_right s.maxPayload (Nat.le_of_lt h)
  have hjoin := joinChunks_range hf (n := s.count) (k := 0) (by omega)
  rw [← List.range_eq_range', ← hheld, Nat.zero_mul, Nat.zero_add, List.take_zero,
    List.take_of_length_le] at hjoin
  · rw [PendingRecord.assemble, hsorted, hjoin]
    simp [htotal]
  · exact length_le_chunks hf.payload s.record

/-! ## What the receiver holds -/

/-- The slots of a record, filled as far as its fragments came. -/
def slots (ds : List Delivery) (s : Sent) : List (Option Chunk) :=
  (List.range s.count).map fun i => if Delivered ds s i then some (s.fragment i).chunk else none

theorem getElem?_slots {i : Nat} (hi : i < s.count) :
    (slots ds s)[i]? = some (if Delivered ds s i then some (s.fragment i).chunk else none) := by
  simp [slots, hi]

theorem slots_snoc_ne (hs : d.item ≠ s) : slots (ds ++ [d]) s = slots ds s := by
  simp only [slots, delivered_snoc_ne hs]

theorem slots_snoc (hi : d.index < d.item.count) :
    slots (ds ++ [d]) d.item =
      (slots ds d.item).set d.index (some (d.item.fragment d.index).chunk) := by
  refine List.ext_getElem? fun i => ?_
  rw [List.getElem?_set]
  rcases Nat.lt_or_ge i d.item.count with hlt | hge
  · rw [getElem?_slots hlt, getElem?_slots hlt]
    by_cases h : d.index = i
    · subst h
      simp [delivered_snoc, slots, hi]
    · simp [delivered_snoc, h]
  · have hlen (ds : List Delivery) : (slots ds d.item).length = d.item.count := by simp [slots]
    rw [List.getElem?_eq_none (by rw [hlen]; exact hge),
      List.getElem?_eq_none (by rw [hlen]; exact hge), if_neg (by omega)]

structure Shows (ds : List Delivery) (s : Sent) (e : PendingRecord) : Prop where
  total : e.totalLen = s.record.length
  count : e.count = s.count
  chunks : e.chunks = slots ds s

structure Tracks (sent : List Sent) (ds : List Delivery) (r : DataReassembler) : Prop where
  accounted : r.Accounted
  known : ∀ id e, r.entries.get? id = some e → ∃ s ∈ sent, s.recordId = id
  pending : ∀ s ∈ sent, ∀ e, r.entries.get? s.recordId = some e →
    ¬ Complete Sent.count ds s ∧ startedAt ds s = some e.createdAt ∧ Shows ds s e
  absent : ∀ s ∈ sent, r.entries.get? s.recordId = none →
    startedAt ds s = none ∨ Complete Sent.count ds s

namespace Shows

variable {ds : List Delivery} {d : Delivery} {s : Sent} {e : PendingRecord}

theorem new (hnone : startedAt ds s = none) (now index : Nat) :
    Shows ds s (.new now (s.fragment index)) where
  total := rfl
  count := rfl
  chunks := by
    have hslots : slots ds s = (List.range s.count).map fun _ => none :=
      List.map_congr_left fun i _ => if_neg fun h => h.started hnone
    rw [hslots, List.map_const', List.length_range]
    rfl

theorem add (h : Shows ds d.item e) (hi : d.index < d.item.count) :
    Shows (ds ++ [d]) d.item (e.add (d.item.fragment d.index)) where
  total := h.total
  count := h.count
  chunks := by
    rw [slots_snoc hi, ← h.chunks]
    rfl

theorem overlaps (h : Shows ds d.item e) (hnew : ¬ Delivered ds d.item d.index) :
    e.overlaps (d.item.fragment d.index) = false := by
  rw [PendingRecord.overlaps, List.any_eq_false]
  intro c hc
  rw [PendingRecord.held, h.chunks, slots, List.filterMap_map] at hc
  obtain ⟨i, hi, hci⟩ := List.mem_filterMap.mp hc
  simp only [Function.comp_apply, id_eq, Option.ite_none_right_eq_some, Option.some.injEq] at hci
  obtain ⟨hdel, rfl⟩ := hci
  have hne : i ≠ d.index := fun heq => hnew (heq ▸ hdel)
  have hlen (j : Nat) : (chunkAt d.item.record d.item.maxPayload j).length ≤ d.item.maxPayload := by
    simp [length_chunkAt]
  have h1 := hlen i
  have h2 := hlen d.index
  intro hover
  obtain ⟨hlt, hgt⟩ := of_decide_eq_true hover
  simp only [Sent.fragment, fragmentAt, ParsedFragment.chunk] at hlt hgt
  rcases Nat.lt_or_gt_of_ne hne with hlt' | hgt'
  · have := Nat.mul_le_mul_right d.item.maxPayload (Nat.succ_le_of_lt hlt')
    rw [Nat.succ_mul] at this
    omega
  · have := Nat.mul_le_mul_right d.item.maxPayload (Nat.succ_le_of_lt hgt')
    rw [Nat.succ_mul] at this
    omega

theorem complete_iff (h : Shows ds s e) (hf : e.Filled) :
    e.receivedCount = e.count ↔ Complete Sent.count ds s := by
  have hiff := List.reduceOption_length_eq_iff (l := e.chunks)
  have hheld : e.chunks.reduceOption = e.held := rfl
  rw [hheld, ← hf.filled, hf.slots, h.chunks] at hiff
  rw [hiff]
  simp only [slots, List.forall_mem_map, List.mem_range]
  refine forall_congr' fun i => imp_congr_right fun _ => ?_
  by_cases hd : Delivered ds s i <;> simp [hd]

theorem assemble (h : Shows ds s e) (hfits : Fits s.record s.maxPayload)
    (hc : Complete Sent.count ds s) : e.assemble = .ok s.record := by
  refine assemble_complete hfits h.total ?_
  rw [h.chunks]
  refine List.map_congr_left fun i hi => ?_
  rw [if_pos (hc i (List.mem_range.mp hi))]

end Shows

/-! ## One delivery -/

theorem DataReassembler.accept_of_slot {r base : DataReassembler} {f : ParsedFragment} {now : Nat}
    (hs : r.Slot f now e base) : r.accept f now = base.fill f e := by
  unfold DataReassembler.accept
  cases hs with
  | found he ht hc hfree ho =>
    simp only [he, ht, hc, ne_eq, not_true_eq_false, or_self, if_false, ho, Bool.false_eq_true]
  | fresh hnone hroom =>
    simp only [hnone]
    rw [if_neg (by omega)]

theorem DataReassembler.expire_eq_self {r : DataReassembler} {now : Nat}
    (h : ∀ id e, r.entries.get? id = some e → now - e.createdAt ≤ reassemblyTimeout) :
    r.expire now = r := by
  have hnone : (r.entries.toPairs.filter fun e => reassemblyTimeout < now - e.2.createdAt) = [] := by
    rw [List.filter_eq_nil_iff]
    rintro ⟨id, e⟩ hmem
    have := h id e (KeyMap.mem_toPairs.mp hmem)
    simpa using this
  unfold DataReassembler.expire
  rw [hnone]
  rfl

theorem PendingRecord.Filled.received_le (h : e.Filled) : e.receivedBytes ≤ e.totalLen := by
  rw [h.bytes]
  refine sizes_le h.apart ?_
  rw [List.forall_mem_map]
  exact fun c hc => (h.inside c hc).2

namespace Tracks

variable {hmac : Hmac} {key : Bytes 32} {sent : List Sent} {ds : List Delivery} {d : Delivery}
  {r base : DataReassembler} {e : PendingRecord}

theorem new (sent : List Sent) : Tracks sent [] .new where
  accounted := .new
  known := fun id e h => by simp [DataReassembler.new] at h
  pending := fun s _ e h => by simp [DataReassembler.new] at h
  absent := fun s _ _ => .inl rfl

theorem expire_eq (h : Tracks sent ds r) {now : Nat} (ht : InTime sent ds now) :
    r.expire now = r := by
  refine DataReassembler.expire_eq_self fun id e he => ?_
  obtain ⟨s, hs, rfl⟩ := h.known id e he
  obtain ⟨hinc, hstart, _⟩ := h.pending s hs e he
  exact ht s hs hinc _ hstart

theorem repeated (h : Tracks sent ds r) (hsent : d.item ∈ sent) (hi : d.index < d.item.count)
    (hinc : ¬ Complete Sent.count ds d.item) (hdel : Delivered ds d.item d.index) :
    r.accept (d.item.fragment d.index) d.now = (r, .ok none) := by
  cases he : r.entries.get? d.item.recordId with
  | none => exact ((h.absent _ hsent he).elim hdel.started hinc).elim
  | some e =>
    obtain ⟨_, _, hshow⟩ := h.pending _ hsent e he
    have hslot : e.chunks[d.index]? = some (some (d.item.fragment d.index).chunk) := by
      rw [hshow.chunks, getElem?_slots hi, if_pos hdel]
    have hid : (d.item.fragment d.index).recordId = d.item.recordId := rfl
    have hindex : (d.item.fragment d.index).index = d.index := rfl
    have htotal : e.totalLen = (d.item.fragment d.index).totalLen := hshow.total
    have hcount : e.count = (d.item.fragment d.index).count := hshow.count
    simp only [DataReassembler.accept, hid, he, htotal, hcount, hindex, hslot, ne_eq,
      not_true_eq_false, or_self, if_false, if_true]

theorem known_insert (h : Tracks sent ds r) (hsent : d.item ∈ sent) (v : PendingRecord) :
    ∀ id e, (r.entries.insert d.item.recordId v).get? id = some e →
      ∃ s ∈ sent, s.recordId = id := by
  intro id e he
  rw [KeyMap.get?_insert] at he
  split at he
  · next hid => exact ⟨d.item, hsent, hid.symm⟩
  · exact h.known id e he

theorem slot (h : Tracks sent ds r) (hcount : sent.length ≤ maxReassemblyRecords)
    (hsent : d.item ∈ sent) (hi : d.index < d.item.count) (hinc : ¬ Complete Sent.count ds d.item)
    (hnew : ¬ Delivered ds d.item d.index) :
    ∃ e base, r.Slot (d.item.fragment d.index) d.now e base ∧ Shows ds d.item e ∧
      startedAt (ds ++ [d]) d.item = some e.createdAt := by
  cases he : r.entries.get? d.item.recordId with
  | none =>
    have hnone := (h.absent _ hsent he).resolve_right hinc
    refine ⟨_, _, .fresh he ?_, .new hnone _ _, startedAt_snoc_of_none hnone⟩
    have hsize := KeyMap.size_insert_of_none he (PendingRecord.new d.now (d.item.fragment d.index))
    have hle := KeyMap.total_le_sum _ (fun _ => 1) (f := fun _ => 1)
      (h.known_insert hsent (.new d.now (d.item.fragment d.index))) fun _ _ _ _ => Nat.le_refl 1
    rw [← KeyMap.size_eq_total] at hle
    simp only [List.map_const', List.sum_replicate, smul_eq_mul, Nat.mul_one] at hle
    omega
  | some e =>
    obtain ⟨_, hstart, hshow⟩ := h.pending _ hsent e he
    refine ⟨e, r, .found he hshow.total hshow.count (fun c hc => ?_) (hshow.overlaps hnew), hshow,
      startedAt_snoc_of_some hstart⟩
    have hslot : e.chunks[d.index]? = some none := by
      rw [hshow.chunks, getElem?_slots hi, if_neg hnew]
    have hc : e.chunks[d.index]? = some (some c) := hc
    rw [hslot] at hc
    cases hc

theorem room (h : Tracks sent ds r) (hids : (sent.map Sent.recordId).Nodup)
    (hbytes : (sent.map fun s => s.record.length).sum ≤ maxReassemblyBytes)
    (hsent : d.item ∈ sent) (hf : (d.item.fragment d.index).WellFormed)
    (hs : r.Slot (d.item.fragment d.index) d.now e base) (hshow : Shows ds d.item e) :
    base.bufferedBytes + (d.item.fragment d.index).payload.length ≤ maxReassemblyBytes := by
  have hbase := h.accounted.slot hf hs
  have hadd := h.accounted.filled hf hs
  have htotal := KeyMap.total_insert_of_some hs.get? (e.add (d.item.fragment d.index))
    PendingRecord.receivedBytes
  have hget (id : UInt64) : (base.entries.insert d.item.recordId
      (e.add (d.item.fragment d.index))).get? id =
        if id = d.item.recordId then some (e.add (d.item.fragment d.index))
        else r.entries.get? id := by
    rw [KeyMap.get?_insert]
    split
    · rfl
    · next hid => exact hs.get?_ne hid
  have hle : (base.entries.insert d.item.recordId (e.add (d.item.fragment d.index))).total
      PendingRecord.receivedBytes ≤ (sent.map fun s => s.record.length).sum := by
    refine KeyMap.total_le_sum Sent.recordId _ (fun id v hv => ?_) fun s hmem v hv => ?_
    · rw [hget] at hv
      split at hv
      · next hid => exact ⟨d.item, hsent, hid.symm⟩
      · exact h.known id v hv
    · rw [hget] at hv
      split at hv
      · next hid =>
        cases hv
        rw [List.inj_on_of_nodup_map hids hmem hsent hid, ← hshow.total]
        exact hadd.received_le
      · rw [← (h.pending s hmem v hv).2.2.total]
        exact (h.accounted.entries _ _ hv).received_le
  have hb := hbase.buffered
  have hid : (d.item.fragment d.index).recordId = d.item.recordId := rfl
  rw [hid] at htotal
  simp only [PendingRecord.add] at htotal hle
  omega

/-- A delivery changes the entry of its own record only, so that entry is all there is
to look at. -/
theorem snoc (h : Tracks sent ds r) (hids : (sent.map Sent.recordId).Nodup)
    (hsent : d.item ∈ sent) {r' : DataReassembler} (hacc : r'.Accounted)
    (hother : ∀ id, id ≠ d.item.recordId → r'.entries.get? id = r.entries.get? id)
    (hown : (∃ e, r'.entries.get? d.item.recordId = some e ∧
        ¬ Complete Sent.count (ds ++ [d]) d.item ∧
        startedAt (ds ++ [d]) d.item = some e.createdAt ∧ Shows (ds ++ [d]) d.item e) ∨
      r'.entries.get? d.item.recordId = none ∧ Complete Sent.count (ds ++ [d]) d.item) :
    Tracks sent (ds ++ [d]) r' := by
  have hcases : ∀ s ∈ sent, s = d.item ∨ d.item ≠ s ∧ s.recordId ≠ d.item.recordId := by
    intro s hs
    by_cases heq : s = d.item
    · exact .inl heq
    · exact .inr ⟨Ne.symm heq, fun hid => heq (List.inj_on_of_nodup_map hids hs hsent hid)⟩
  refine ⟨hacc, fun id e he => ?_, fun s hs e he => ?_, fun s hs he => ?_⟩
  · by_cases hid : id = d.item.recordId
    · exact ⟨d.item, hsent, hid.symm⟩
    · rw [hother id hid] at he
      exact h.known id e he
  · rcases hcases s hs with rfl | ⟨hne, hid⟩
    · rcases hown with ⟨e', he', hrest⟩ | ⟨hnone, _⟩
      · rw [he'] at he
        cases he
        exact hrest
      · rw [hnone] at he
        cases he
    · rw [hother _ hid] at he
      obtain ⟨hinc, hstart, hshow⟩ := h.pending s hs e he
      exact ⟨by rwa [complete_snoc_ne hne], by rwa [startedAt_snoc_ne hne],
        hshow.total, hshow.count, by rw [slots_snoc_ne hne]; exact hshow.chunks⟩
  · rcases hcases s hs with rfl | ⟨hne, hid⟩
    · rcases hown with ⟨e', he', _⟩ | ⟨_, hdone⟩
      · rw [he'] at he
        cases he
      · exact .inr hdone
    · rw [hother _ hid] at he
      rw [startedAt_snoc_ne hne, complete_snoc_ne hne]
      exact h.absent s hs he

theorem accept_repeated (h : Tracks sent ds r) (hids : (sent.map Sent.recordId).Nodup)
    (hsent : d.item ∈ sent) (hinc : ¬ Complete Sent.count ds d.item)
    (hdel : Delivered ds d.item d.index) :
    ¬ Complete Sent.count (ds ++ [d]) d.item ∧ Tracks sent (ds ++ [d]) r := by
  have hinc' : ¬ Complete Sent.count (ds ++ [d]) d.item := by rwa [complete_snoc_again hdel]
  refine ⟨hinc', h.snoc hids hsent h.accounted (fun _ _ => rfl) (.inl ?_)⟩
  cases he : r.entries.get? d.item.recordId with
  | none => exact ((h.absent _ hsent he).elim hdel.started hinc).elim
  | some e =>
    obtain ⟨_, hstart, hshow⟩ := h.pending _ hsent e he
    exact ⟨e, rfl, hinc', startedAt_snoc_of_some hstart, hshow.total, hshow.count,
      by simp only [slots, delivered_snoc_again hdel]; exact hshow.chunks⟩

/-- **A delivery hands the record over if it is the last one missing, and nothing
otherwise.** -/
theorem accept (h : Tracks sent ds r) (hids : (sent.map Sent.recordId).Nodup)
    (hcount : sent.length ≤ maxReassemblyRecords)
    (hbytes : (sent.map fun s => s.record.length).sum ≤ maxReassemblyBytes)
    (hsent : d.item ∈ sent) (hfits : Fits d.item.record d.item.maxPayload)
    (hi : d.index < d.item.count) (hinc : ¬ Complete Sent.count ds d.item) :
    (r.accept (d.item.fragment d.index) d.now).2 =
        .ok (if Complete Sent.count (ds ++ [d]) d.item then some d.item.record else none) ∧
      Tracks sent (ds ++ [d]) (r.accept (d.item.fragment d.index) d.now).1 := by
  by_cases hdel : Delivered ds d.item d.index
  · obtain ⟨hinc', htracks⟩ := h.accept_repeated hids hsent hinc hdel
    rw [h.repeated hsent hi hinc hdel, if_neg hinc']
    exact ⟨rfl, htracks⟩
  · have hf : (d.item.fragment d.index).WellFormed := hfits.wellFormed _ hi
    have hacc : (r.accept (d.item.fragment d.index) d.now).1.Accounted := h.accounted.accept hf
    have hother (id : UInt64) (hid : id ≠ d.item.recordId) :
        (r.accept (d.item.fragment d.index) d.now).1.entries.get? id = r.entries.get? id :=
      DataReassembler.accept_get?_ne _ _ _ hid
    obtain ⟨e, base, hs, hshow, hstart⟩ := h.slot hcount hsent hi hinc hdel
    have hroom := h.room hids hbytes hsent hf hs hshow
    have hadd := hshow.add hi
    have hiff := hadd.complete_iff (h.accounted.filled hf hs)
    have hsat : ¬ maxReassemblyBytes < saturatingAdd u64Max base.bufferedBytes
        (d.item.fragment d.index).payload.length := by
      rw [saturatingAdd_eq (by unfold maxReassemblyBytes at hroom; unfold u64Max; omega)]
      omega
    rw [DataReassembler.accept_of_slot hs, DataReassembler.fill, if_neg hsat] at hacc hother ⊢
    dsimp only at hacc hother ⊢
    by_cases hdone : Complete Sent.count (ds ++ [d]) d.item
    · rw [if_neg (not_not.mpr (hiff.mpr hdone))] at hacc hother ⊢
      rw [if_pos hdone, hadd.assemble hfits hdone]
      exact ⟨rfl, h.snoc hids hsent hacc hother (.inr ⟨KeyMap.get?_erase_self _ _, hdone⟩)⟩
    · rw [if_pos (mt hiff.mp hdone)] at hacc hother ⊢
      rw [if_neg hdone]
      exact ⟨rfl, h.snoc hids hsent hacc hother
        (.inl ⟨_, KeyMap.get?_insert_self _ _ _, hdone, hstart, hadd⟩)⟩

end Tracks

/-! ## Schedules -/

def receiveStep (hmac : Hmac) (key : Bytes 32) (r : DataReassembler) (d : Delivery) :
    DataReassembler × Except DataFragError (Option Record) :=
  r.pushAt hmac d.data key d.now

def answers (hmac : Hmac) (key : Bytes 32) (ds : List Delivery) :
    List (Except DataFragError (Option Record)) :=
  (trace (receiveStep hmac key) .new ds).2

def handedOver : Except DataFragError (Option Record) → Option Record
  | .ok record => record
  | .error _ => none

section

variable {hmac : Hmac} {key : Bytes 32} {sent : List Sent} {ds : List Delivery} {d : Delivery}
  (hids : (sent.map Sent.recordId).Nodup) (hcount : sent.length ≤ maxReassemblyRecords)
  (hbytes : (sent.map fun s => s.record.length).sum ≤ maxReassemblyBytes)

include hids hcount hbytes

theorem Tracks.receiveStep {r : DataReassembler} (h : Tracks sent ds r)
    (hd : Arrives hmac key sent ds d) :
    (receiveStep hmac key r d).2 =
        .ok (if Complete Sent.count (ds ++ [d]) d.item then some d.item.record else none) ∧
      Tracks sent (ds ++ [d]) (receiveStep hmac key r d).1 := by
  obtain ⟨hfits, hi, hdatagram⟩ := hd.carries.fits
  have hpush : DataFrag.receiveStep hmac key r d =
      r.accept (d.item.fragment d.index) d.now := by
    have hparse := parse_encode hmac key (f := d.item.fragment d.index) (hfits.wellFormed _ hi)
    unfold DataFrag.receiveStep DataReassembler.pushAt
    rw [hdatagram, hparse]
    dsimp only
    rw [h.expire_eq hd.inTime]
  rw [hpush]
  exact h.accept hids hcount hbytes hd.item hfits hi hd.incomplete

theorem tracks_schedule (h : Schedule hmac key sent ds) :
    Tracks sent ds (trace (receiveStep hmac key) .new ds).1 := by
  induction h with
  | nil => exact .new sent
  | snoc _ hd ih =>
    rw [trace_snoc]
    exact (ih.receiveStep hids hcount hbytes hd).2

theorem answer_eq (h : Schedule hmac key sent ds) (hd : Arrives hmac key sent ds d) :
    (receiveStep hmac key (trace (receiveStep hmac key) .new ds).1 d).2 =
      .ok (if Complete Sent.count (ds ++ [d]) d.item then some d.item.record else none) :=
  ((tracks_schedule hids hcount hbytes h).receiveStep hids hcount hbytes hd).1

theorem handedOver_eq (h : Schedule hmac key sent ds) :
    (answers hmac key ds).filterMap handedOver = (completions Sent.count ds).map Sent.record := by
  induction h with
  | nil => rfl
  | @snoc ds' d' h' hd ih =>
    unfold answers at ih ⊢
    rw [trace_snoc, answer_eq hids hcount hbytes h' hd, filterMap_snoc, ih, completions_snoc]
    by_cases hdone : Complete Sent.count (ds' ++ [d']) d'.item
    · rw [if_pos hdone, if_pos ⟨hdone, hd.incomplete⟩]
      simp [handedOver]
    · rw [if_neg hdone, if_neg fun hnew => hdone hnew.1]
      simp [handedOver]

omit hids hcount hbytes in
theorem item_mem_sent (h : Schedule hmac key sent ds) : ∀ d ∈ ds, d.item ∈ sent := by
  induction h with
  | nil => simp
  | snoc _ hd ih => exact forall_mem_snoc.mpr ⟨ih, hd.item⟩

/-- **Records with distinct ids, within the limits, arrive whole: each delivery that
brings the last missing fragment of its record hands over that record, every other
delivery succeeds with nothing, and once all fragments came each record was handed
over exactly once.** -/
theorem data_frag_round_trip (haccepted : ∀ s ∈ sent, s.Accepted hmac key)
    (h : Schedule hmac key sent ds) :
    (∀ pre d post, ds = pre ++ d :: post → (answers hmac key ds)[pre.length]? =
      some (.ok (if Complete Sent.count (pre ++ [d]) d.item then some d.item.record else none))) ∧
    ((∀ s ∈ sent, Complete Sent.count ds s) →
      ((answers hmac key ds).filterMap handedOver).Perm (sent.map Sent.record)) := by
  refine ⟨fun pre d post hds => h.trace_at (answer_eq hids hcount hbytes) hds, fun hall => ?_⟩
  have hpos : ∀ s ∈ sent, 0 < s.count := fun s hs => by
    obtain ⟨datagrams, hok⟩ := haccepted s hs
    exact (fragmentRecord_ok.mp hok).1.count_pos
  have hperm : (completions Sent.count ds).Perm sent := by
    refine (List.perm_ext_iff_of_nodup nodup_completions (List.Nodup.of_map _ hids)).mpr fun s => ?_
    constructor
    · intro hs
      obtain ⟨d, hd, rfl⟩ := exists_of_mem_completions hs
      exact item_mem_sent h d hd
    · exact fun hs => (mem_completions (hpos s hs)).mpr (hall s hs)
  rw [handedOver_eq hids hcount hbytes h]
  exact hperm.map _

end

def shortRecord : Sent := ⟨7, [1, 2, 3, 4, 5], 3⟩

def otherRecord : Sent := ⟨8, [6, 7, 8, 9, 10], 3⟩

def deliver (s : Sent) (index now : Nat) : Delivery where
  item := s
  index := index
  data := (s.fragment index).encode flatHmac zeroKey
  now := now

theorem accepted_of_fits (h : Fits s.record s.maxPayload) : s.Accepted flatHmac zeroKey :=
  ⟨_, fragmentRecord_ok.mpr ⟨h, rfl⟩⟩

theorem carries_deliver {index : Nat} (h : Fits s.record s.maxPayload) (hi : index < s.count)
    (now : Nat) : Carries flatHmac zeroKey (deliver s index now) := by
  refine ⟨_, fragmentRecord_ok.mpr ⟨h, rfl⟩, ?_⟩
  simp only [deliver, List.getElem?_map]
  unfold Sent.count at hi
  rw [List.getElem?_range hi]
  rfl

/-- The fragments of the two records, interleaved, out of order and one of them twice. -/
def crossing : List Delivery :=
  [deliver shortRecord 1 10, deliver otherRecord 0 20, deliver shortRecord 1 30,
    deliver otherRecord 1 40, deliver shortRecord 0 50]

theorem data_frag_round_trip_crossing :
    Schedule flatHmac zeroKey [shortRecord, otherRecord] crossing ∧
      answers flatHmac zeroKey crossing =
        [.ok none, .ok none, .ok none, .ok (some [6, 7, 8, 9, 10]), .ok (some [1, 2, 3, 4, 5])] ∧
      ((answers flatHmac zeroKey crossing).filterMap handedOver).Perm
        ([shortRecord, otherRecord].map Sent.record) := by
  have hshort : Fits shortRecord.record shortRecord.maxPayload :=
    ⟨by decide, by decide, by decide, by decide⟩
  have hother : Fits otherRecord.record otherRecord.maxPayload :=
    ⟨by decide, by decide, by decide, by decide⟩
  have hsched : Schedule flatHmac zeroKey [shortRecord, otherRecord] crossing := by
    have h0 : Schedule flatHmac zeroKey [shortRecord, otherRecord] [] := .nil
    have h1 := h0.snoc (i := deliver shortRecord 1 10)
      ⟨List.mem_cons_self, carries_deliver hshort (by decide) 10, by decide, by decide⟩
    have h2 := h1.snoc (i := deliver otherRecord 0 20)
      ⟨List.mem_cons_of_mem _ List.mem_cons_self, carries_deliver hother (by decide) 20,
        by decide, by decide⟩
    have h3 := h2.snoc (i := deliver shortRecord 1 30)
      ⟨List.mem_cons_self, carries_deliver hshort (by decide) 30, by decide, by decide⟩
    have h4 := h3.snoc (i := deliver otherRecord 1 40)
      ⟨List.mem_cons_of_mem _ List.mem_cons_self, carries_deliver hother (by decide) 40,
        by decide, by decide⟩
    exact h4.snoc (i := deliver shortRecord 0 50)
      ⟨List.mem_cons_self, carries_deliver hshort (by decide) 50, by decide, by decide⟩
  have haccepted : ∀ s ∈ [shortRecord, otherRecord], s.Accepted flatHmac zeroKey := by
    rw [List.forall_mem_cons, List.forall_mem_singleton]
    exact ⟨accepted_of_fits hshort, accepted_of_fits hother⟩
  have h := data_frag_round_trip (by decide) (by decide) (by decide) haccepted hsched
  exact ⟨hsched, by decide +kernel, h.2 (by decide)⟩

end Qeli.DataFrag
