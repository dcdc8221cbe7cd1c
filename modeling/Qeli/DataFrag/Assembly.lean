import Qeli.DataFrag.Reassembler

/-!
# What the reassembler holds

An entry is `Intact` when its counters match its slots, its chunks are apart and
inside the record, and a slot is free. `Accounted` adds the totals of the table.
Every call keeps it, whatever datagram and key it is given
(`Accounted.pushAt`), and a record handed over is tiled by the chunks of its
entry (`tiling_of_assemble`).
-/

namespace Qeli.DataFrag

open Qeli.Lib Qeli.Wire

/-! ## Entries -/

/-- The counters of an entry match its slots and its chunks are apart. -/
structure PendingRecord.Filled (e : PendingRecord) : Prop where
  slots : e.chunks.length = e.count
  filled : e.receivedCount = e.held.length
  bytes : e.receivedBytes = sizes (e.held.map Chunk.piece)
  inside : ∀ c ∈ e.held, 0 < c.bytes.length ∧ c.offset + c.bytes.length ≤ e.totalLen
  apart : (e.held.map Chunk.piece).Pairwise Piece.Apart

/-- An entry as it stands in the table: some slot is still free. -/
structure PendingRecord.Intact (e : PendingRecord) : Prop extends e.Filled where
  below : e.receivedCount < e.count

namespace PendingRecord

variable {e : PendingRecord} {f : ParsedFragment}

theorem intact_new {now : Nat} (hf : f.WellFormed) : (new now f).Intact := by
  have hheld : (new now f).held = [] := by simp [new, held]
  refine ⟨⟨by simp [new], by rw [hheld]; rfl, by rw [hheld]; rfl, by simp [hheld],
    by simp [hheld]⟩, ?_⟩
  have := hf.count
  simp only [new]
  omega

theorem held_add (hslots : e.chunks.length = e.count) (hindex : f.index < e.count)
    (hfree : ∀ c, e.chunks[f.index]? ≠ some (some c)) :
    (e.add f).held.Perm (f.chunk :: e.held) := by
  have hlt : f.index < e.chunks.length := by omega
  have hnone : e.chunks[f.index] = none := by
    cases hc : e.chunks[f.index] with
    | none => rfl
    | some c => exact absurd (by rw [List.getElem?_eq_getElem hlt, hc]) (hfree c)
  have hsplit : e.chunks = e.chunks.take f.index ++ none :: e.chunks.drop (f.index + 1) := by
    rw [← hnone, List.getElem_cons_drop, List.take_append_drop]
  have hset : (e.add f).chunks =
      e.chunks.take f.index ++ some f.chunk :: e.chunks.drop (f.index + 1) :=
    List.set_eq_take_append_cons_drop.trans (by rw [if_pos hlt])
  unfold held
  rw [hset]
  conv => rhs; rw [hsplit]
  simp only [List.filterMap_append, List.filterMap_cons_some (show id (some f.chunk) = _ from rfl),
    List.filterMap_cons_none (show id none = (none : Option Chunk) from rfl)]
  exact List.perm_middle

theorem apart_of_overlaps (ho : e.overlaps f = false) :
    ∀ c ∈ e.held, f.chunk.piece.Apart c.piece := by
  intro c hc
  have hall : ∀ c ∈ e.held, ¬ (f.offset < c.offset + c.bytes.length ∧
      c.offset < f.offset + f.payload.length) := by
    simpa [overlaps] using ho
  have := hall c hc
  unfold Piece.Apart Piece.stop Chunk.piece ParsedFragment.chunk
  dsimp only
  omega

theorem sizes_perm {cs ds : List Chunk} (h : cs.Perm ds) :
    sizes (cs.map Chunk.piece) = sizes (ds.map Chunk.piece) :=
  ((h.map Chunk.piece).map _).sum_eq

theorem Filled.add (h : e.Filled) (hf : f.WellFormed) (ht : e.totalLen = f.totalLen)
    (hc : e.count = f.count) (hfree : ∀ c, e.chunks[f.index]? ≠ some (some c))
    (ho : e.overlaps f = false) : (e.add f).Filled := by
  have hperm := held_add h.slots (by rw [hc]; exact hf.index) hfree
  refine ⟨by simp [PendingRecord.add, h.slots], ?_, ?_, ?_, ?_⟩
  · rw [hperm.length_eq]
    simp [PendingRecord.add, h.filled]
  · rw [sizes_perm hperm]
    simp [PendingRecord.add, h.bytes, ParsedFragment.chunk, Chunk.piece, Nat.add_comm]
  · intro c hcm
    rcases List.mem_cons.mp (hperm.mem_iff.mp hcm) with rfl | hcm
    · refine ⟨hf.nonempty, ?_⟩
      have := hf.within
      simp only [ParsedFragment.chunk, PendingRecord.add, ht]
      exact this
    · exact h.inside c hcm
  · refine ((hperm.map Chunk.piece).pairwise_iff fun h => Piece.Apart.symm h).mpr ?_
    rw [List.map_cons, List.pairwise_cons, List.forall_mem_map]
    exact ⟨apart_of_overlaps ho, h.apart⟩

theorem Filled.count_le (h : e.Filled) : e.receivedCount ≤ e.count := by
  rw [h.filled, ← h.slots]
  exact List.length_filterMap_le _ _

end PendingRecord

/-! ## Joining -/

theorem joinChunks_ok {cs : List Chunk} {acc record : Record}
    (h : joinChunks cs acc = .ok record) :
    acc <+: record ∧ record.length = acc.length + sizes (cs.map Chunk.piece) ∧
      ∀ c ∈ cs, c.piece.stop ≤ record.length ∧ c.piece.Agrees record := by
  induction cs generalizing acc with
  | nil =>
    cases h
    simp
  | cons c cs ih =>
    unfold joinChunks at h
    split at h
    · cases h
    · next hoff =>
      obtain ⟨⟨rest, hrest⟩, hlen, hall⟩ := ih h
      have hoff : c.offset = acc.length := not_not.mp hoff
      have hsplit : record = acc ++ (c.bytes ++ rest) := by rw [← hrest, List.append_assoc]
      refine ⟨⟨_, hsplit.symm⟩, ?_, ?_⟩
      · rw [hlen]
        simp [Chunk.piece, Nat.add_assoc]
      · rw [List.forall_mem_cons]
        refine ⟨⟨?_, ?_⟩, hall⟩
        · simp only [Piece.stop, Chunk.piece, hsplit, List.length_append]
          omega
        · simp [Piece.Agrees, Chunk.piece, hsplit, hoff]

/-- **A record that is handed over is tiled by its chunks.** -/
theorem tiling_of_assemble {e : PendingRecord} {record : Record} (he : e.Filled)
    (h : e.assemble = .ok record) :
    record.length = e.totalLen ∧ Tiling (e.held.map Chunk.piece) record := by
  unfold PendingRecord.assemble at h
  split at h
  · cases h
  · next joined hjoin =>
    split at h
    · cases h
    · next hlen =>
      cases h
      obtain ⟨_, hsizes, hall⟩ := joinChunks_ok hjoin
      have hperm := List.perm_insertionSort (fun a b : Chunk => a.offset ≤ b.offset) e.held
      rw [PendingRecord.sizes_perm hperm] at hsizes
      refine ⟨not_not.mp hlen, .of_sizes he.apart ?_ (by simpa using hsizes.symm) ?_⟩
      · rw [List.forall_mem_map]
        exact fun c hc => (hall c (hperm.mem_iff.mpr hc)).1
      · rw [List.forall_mem_map]
        exact fun c hc => (hall c (hperm.mem_iff.mpr hc)).2

/-! ## The table -/

structure DataReassembler.Accounted (r : DataReassembler) : Prop where
  buffered : r.bufferedBytes = r.entries.total PendingRecord.receivedBytes
  bounded : r.bufferedBytes ≤ maxReassemblyBytes
  records : r.entries.size ≤ maxReassemblyRecords
  entries : ∀ id e, r.entries.get? id = some e → e.Intact

namespace DataReassembler.Accounted

variable {r base r' : DataReassembler} {f : ParsedFragment} {e : PendingRecord} {now : Nat}
  {res : Except DataFragError (Option Record)}

theorem new : Accounted .new where
  buffered := rfl
  bounded := Nat.zero_le _
  records := Nat.zero_le _
  entries := fun id e h => by simp [DataReassembler.new] at h

theorem remove (h : r.Accounted) (id : UInt64) : (r.remove id).Accounted := by
  cases he : r.entries.get? id with
  | none => simpa [DataReassembler.remove, he] using h
  | some e =>
    have htotal := KeyMap.total_erase_of_some he PendingRecord.receivedBytes
    have hsize := KeyMap.size_erase_of_some he
    have hb := h.buffered
    have hr := h.records
    rw [remove_of_some he]
    refine ⟨?_, Nat.le_trans (Nat.sub_le _ _) h.bounded, ?_, fun k q hq => ?_⟩
    · dsimp only
      omega
    · dsimp only
      omega
    · rw [KeyMap.get?_erase] at hq
      split at hq
      · cases hq
      · exact h.entries k q hq

theorem expire (h : r.Accounted) (now : Nat) : (r.expire now).Accounted := by
  unfold DataReassembler.expire
  dsimp only
  generalize (List.filter _ r.entries.toPairs).map Prod.fst = ids
  induction ids generalizing r with
  | nil => exact h
  | cons id ids ih => exact ih (h.remove id)

theorem slot (h : r.Accounted) (hf : f.WellFormed) (hs : r.Slot f now e base) :
    base.Accounted := by
  cases hs with
  | found => exact h
  | fresh hnone hroom =>
    have htotal := KeyMap.total_insert_of_none hnone (.new now f) PendingRecord.receivedBytes
    have hsize := KeyMap.size_insert_of_none hnone (PendingRecord.new now f)
    refine ⟨?_, h.bounded, ?_, fun k q hq => ?_⟩
    · rw [htotal, ← h.buffered]
      rfl
    · dsimp only
      omega
    · dsimp only at hq
      rw [KeyMap.get?_insert] at hq
      split at hq
      · cases hq
        exact PendingRecord.intact_new hf
      · exact h.entries k q hq

theorem filled (h : r.Accounted) (hf : f.WellFormed) (hs : r.Slot f now e base) :
    (e.add f).Filled := by
  have hi := (h.slot hf hs).entries _ _ hs.get?
  cases hs with
  | found _ ht hc hfree ho => exact hi.add hf ht hc hfree ho
  | fresh =>
    refine hi.add hf rfl rfl (fun c hc => ?_) (by simp [PendingRecord.overlaps, PendingRecord.held,
      PendingRecord.new])
    simp [PendingRecord.new, List.getElem?_replicate] at hc

theorem complete_eq_remove (he : base.entries.get? f.recordId = some e) :
    ({ entries := base.entries.erase f.recordId
       bufferedBytes := base.bufferedBytes + f.payload.length - (e.add f).receivedBytes } :
      DataReassembler) = base.remove f.recordId := by
  rw [remove_of_some he]
  simp only [PendingRecord.add, DataReassembler.mk.injEq, true_and]
  omega

theorem kept (h : base.Accounted) (hf : f.WellFormed) (he : base.entries.get? f.recordId = some e)
    (hadd : (e.add f).Filled)
    (hroom : saturatingAdd u64Max base.bufferedBytes f.payload.length ≤ maxReassemblyBytes)
    (hpart : (e.add f).receivedCount ≠ e.count) :
    Accounted { entries := base.entries.insert f.recordId (e.add f)
                bufferedBytes := base.bufferedBytes + f.payload.length } := by
  have htotal := KeyMap.total_insert_of_some he (e.add f) PendingRecord.receivedBytes
  have hsize := KeyMap.size_insert_of_some he (e.add f)
  have hb := h.buffered
  refine ⟨?_, ?_, ?_, fun k q hq => ?_⟩
  · simp only [PendingRecord.add] at htotal ⊢
    omega
  · have hlen : base.bufferedBytes + f.payload.length ≤ u64Max := by
      have := h.bounded
      have := hf.total
      have := hf.within
      rw [maxReassembledRecord_eq] at *
      unfold maxReassemblyBytes at *
      unfold u64Max
      omega
    rwa [saturatingAdd_eq hlen] at hroom
  · rw [hsize]
    exact h.records
  · rw [KeyMap.get?_insert] at hq
    split at hq
    · cases hq
      exact ⟨hadd, Nat.lt_of_le_of_ne hadd.count_le hpart⟩
    · exact h.entries k q hq

/-- **A call keeps the table accounted for.** -/
theorem accept (h : r.Accounted) (hf : f.WellFormed) : (r.accept f now).1.Accounted := by
  have heff := r.accept_effect f now
  generalize r.accept f now = step at heff
  obtain ⟨r', res⟩ := step
  cases heff with
  | repeated | refused => exact h
  | dropped => exact h.remove _
  | filled hs hfill =>
    have hbase := h.slot hf hs
    cases hfill with
    | full => exact hbase.remove _
    | kept hroom hpart => exact hbase.kept hf hs.get? (h.filled hf hs) hroom hpart
    | complete =>
      dsimp only
      rw [complete_eq_remove hs.get?]
      exact hbase.remove _

theorem pushAt (h : r.Accounted) (hmac : Hmac) (datagram : Datagram) (key : Bytes 32)
    (now : Nat) : (r.pushAt hmac datagram key now).1.Accounted := by
  unfold DataReassembler.pushAt
  split
  · exact h
  · next f hf => exact (h.expire now).accept (parse_ok hf)

theorem found_of_complete (hf : f.WellFormed) (hs : r.Slot f now e base)
    (hdone : (e.add f).receivedCount = e.count) : r.entries.get? f.recordId = some e := by
  cases hs with
  | found he => exact he
  | fresh =>
    have := hf.count
    simp only [PendingRecord.add, PendingRecord.new] at hdone
    omega

/-- **A record that is handed over is tiled by the chunks of its entry, the last one
included.** -/
theorem record_tiled (h : r.Accounted) (hf : f.WellFormed) {record : Record}
    (hok : (r.accept f now).2 = .ok (some record)) :
    ∃ e, r.entries.get? f.recordId = some e ∧ record.length = e.totalLen ∧
      Tiling ((e.add f).held.map Chunk.piece) record := by
  obtain ⟨e, base, hs, hdone, hjoin⟩ := accept_record hok
  exact ⟨e, found_of_complete hf hs hdone, tiling_of_assemble (h.filled hf hs) hjoin⟩

end DataReassembler.Accounted

/-! ## Any datagrams -/

def pushStep (hmac : Hmac) (r : DataReassembler) (call : Datagram × Bytes 32 × Nat)
    (r' : DataReassembler) : Prop :=
  r' = (r.pushAt hmac call.1 call.2.1 call.2.2).1

theorem accounted_run {hmac : Hmac} {calls : List (Datagram × Bytes 32 × Nat)}
    {r : DataReassembler} (h : Run (pushStep hmac) .new calls r) : r.Accounted :=
  h.preserves .new fun hr hstep => by
    rw [hstep]
    exact hr.pushAt hmac _ _ _

/-- **After any calls the table is within its limits and its counters add up. A
datagram that does not parse or authenticate changes nothing, another failure costs
at most the record it names, and a record handed over has the length its entry
announced and is tiled by the entry's chunks.** -/
theorem push_accounted_and_isolated {hmac : Hmac} {calls : List (Datagram × Bytes 32 × Nat)}
    {r : DataReassembler} (h : Run (pushStep hmac) .new calls r) :
    r.Accounted ∧ ∀ datagram key now,
      (∀ err, parseAndAuthenticate hmac datagram key = .error err →
        r.pushAt hmac datagram key now = (r, .error err)) ∧
      ∀ f, parseAndAuthenticate hmac datagram key = .ok f →
        (∀ err, (r.pushAt hmac datagram key now).2 = .error err →
          (∀ id, id ≠ f.recordId → (r.pushAt hmac datagram key now).1.entries.get? id =
            (r.entries.get? id).filter fun e => now - e.createdAt ≤ reassemblyTimeout) ∧
          ((r.pushAt hmac datagram key now).1 = r.expire now ∨
            (r.pushAt hmac datagram key now).1.entries.get? f.recordId = none)) ∧
        ∀ record, (r.pushAt hmac datagram key now).2 = .ok (some record) →
          ∃ e, r.entries.get? f.recordId = some e ∧ record.length = e.totalLen ∧
            Tiling ((e.add f).held.map Chunk.piece) record := by
  have hacc := accounted_run h
  refine ⟨hacc, fun datagram key now => ⟨fun err herr => ?_, fun f hf => ?_⟩⟩
  · simp only [DataReassembler.pushAt, herr]
  · have hpush : r.pushAt hmac datagram key now = (r.expire now).accept f now := by
      simp only [DataReassembler.pushAt, hf]
    rw [hpush]
    refine ⟨fun err herr => ⟨fun id hid => ?_, DataReassembler.accept_error herr⟩,
      fun record hrec => ?_⟩
    · rw [DataReassembler.accept_get?_ne _ _ _ hid, DataReassembler.get?_expire]
    · obtain ⟨e, he, htiled⟩ := (hacc.expire now).record_tiled (parse_ok hf) hrec
      rw [DataReassembler.get?_expire] at he
      exact ⟨e, (Option.filter_eq_some_iff.mp he).1, htiled⟩

def flatHmac : Hmac := fun _ _ => Vector.replicate 32 0

def zeroKey : Bytes 32 := Vector.replicate 32 0

def halfOf (index : Nat) : Datagram :=
  (fragmentAt [1, 2, 3, 4, 5] 7 3 index).encode flatHmac zeroKey

/-- The second fragment of a record, then the first; a datagram that is too short is
refused in between. -/
theorem push_accounted_and_isolated_swapped :
    let r := (DataReassembler.new.pushAt flatHmac (halfOf 1) zeroKey 10).1
    let call := r.pushAt flatHmac (halfOf 0) zeroKey 20
    r.bufferedBytes = 2 ∧ r.Accounted ∧
      r.pushAt flatHmac [] zeroKey 15 = (r, .error .truncated) ∧
      call.2 = .ok (some [1, 2, 3, 4, 5]) ∧ ∃ e, r.entries.get? 7 = some e ∧
        Tiling ((e.add (fragmentAt [1, 2, 3, 4, 5] 7 3 0)).held.map Chunk.piece) [1, 2, 3, 4, 5] := by
  intro r call
  have hbytes : r.bufferedBytes = 2 := by decide +kernel
  have hout : call.2 = .ok (some [1, 2, 3, 4, 5]) := by decide +kernel
  have hparse : parseAndAuthenticate flatHmac (halfOf 0) zeroKey =
      .ok (fragmentAt [1, 2, 3, 4, 5] 7 3 0) := by decide +kernel
  have hrun : Run (pushStep flatHmac) .new [(halfOf 1, zeroKey, 10)] r := .snoc .nil rfl
  obtain ⟨hacc, hall⟩ := push_accounted_and_isolated hrun
  obtain ⟨e, he, _, htiled⟩ := ((hall (halfOf 0) zeroKey 20).2 _ hparse).2 _ hout
  exact ⟨hbytes, hacc, (hall [] zeroKey 15).1 _ rfl, hout, e, he, htiled⟩

end Qeli.DataFrag
