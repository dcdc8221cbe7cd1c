import Qeli.Mux.Reassembler

/-!
# Reassembly

`Assembles p id gs` says a pending packet is exactly the frames `gs` of its id:
their ranges are its chunks, they are apart, and its buffer shows their payloads.
`Sound frames r` says every pending packet is assembled from frames given so far
and that the counters add up. A pass keeps it and hands on only packets that
frames tile (`Sound.accept`); so does every call, whatever bytes it is given
(`Sound.decode`).
-/

namespace Qeli.Mux

open Qeli.Lib

/-- The frames cut the packet into pieces without gap or overlap. -/
structure Tiles (gs : List Frame) (packet : Packet) : Prop where
  frames : ∀ g ∈ gs, g.totalLen = packet.length ∧ g.WellFormed
  tiling : Tiling (gs.map Frame.piece) packet

structure Assembles (p : PendingPacket) (id : UInt32) (gs : List Frame) : Prop where
  chunks : p.chunks = gs.map Frame.chunk
  frames : ∀ g ∈ gs, g.packetId = id ∧ g.totalLen = p.totalLen ∧ g.WellFormed
  apart : (gs.map Frame.piece).Pairwise Piece.Apart
  received : p.receivedBytes = sizes (gs.map Frame.piece)
  total : p.totalLen ≤ u16Max
  length : p.bytes.length = p.totalLen
  agrees : ∀ g ∈ gs, g.piece.Agrees p.bytes

theorem Frame.WellFormed.stop_le {f : Frame} (h : f.WellFormed) : f.piece.stop ≤ f.totalLen :=
  h.within

namespace Assembles

variable {p : PendingPacket} {id : UInt32} {gs : List Frame} {f : Frame}

theorem new {total : Nat} (h : total ≤ u16Max) (now : Nat) (id : UInt32) :
    Assembles (.new now total) id [] where
  chunks := rfl
  frames := by simp
  apart := .nil
  received := rfl
  total := h
  length := by simp [PendingPacket.new]
  agrees := by simp

theorem stop_le (h : Assembles p id gs) {g : Frame} (hg : g ∈ gs) :
    g.piece.stop ≤ p.totalLen := by
  obtain ⟨_, ht, hw⟩ := h.frames g hg
  rw [← ht]
  exact hw.stop_le

theorem apart_of_overlaps (h : Assembles p id gs) (ho : p.overlaps f = false) :
    ∀ g ∈ gs, g.piece.Apart f.piece := by
  intro g hg
  have hall : ∀ c ∈ p.chunks, ¬ (f.offset < c.offset + c.len ∧
      c.offset < f.offset + f.payload.length) := by
    simpa [PendingPacket.overlaps] using ho
  have := hall g.chunk (by rw [h.chunks]; exact List.mem_map_of_mem hg)
  simp only [Frame.chunk] at this
  unfold Piece.Apart Piece.stop Frame.piece
  dsimp only
  omega

/-- **A fragment apart from the others joins them.** -/
theorem add (h : Assembles p id gs) (hid : f.packetId = id) (ht : f.totalLen = p.totalLen)
    (hf : f.WellFormed) (ho : p.overlaps f = false) : Assembles (p.add f) id (gs ++ [f]) := by
  have hapart := h.apart_of_overlaps ho
  have hstop : f.piece.stop ≤ p.bytes.length := by
    rw [h.length, ← ht]
    exact hf.stop_le
  refine ⟨?_, ?_, ?_, ?_, h.total, ?_, ?_⟩
  · simp [PendingPacket.add, h.chunks]
  · rw [forall_mem_snoc]
    exact ⟨h.frames, hid, ht, hf⟩
  · rw [List.map_append, List.pairwise_append]
    refine ⟨h.apart, by simp, ?_⟩
    intro a ha b hb
    obtain ⟨g, hg, rfl⟩ := List.mem_map.mp ha
    obtain rfl : b = f.piece := by simpa using hb
    exact hapart g hg
  · simp [PendingPacket.add, h.received, Frame.piece]
  · simp only [PendingPacket.add]
    rw [Piece.length_write hstop, h.length]
  · rw [forall_mem_snoc]
    exact ⟨fun g hg => Piece.agrees_write hstop (hapart g hg) (h.agrees g hg),
      Piece.agrees_write_self hstop⟩

theorem received_le (h : Assembles p id gs) : p.receivedBytes ≤ p.totalLen := by
  rw [h.received]
  refine sizes_le h.apart fun q hq => ?_
  obtain ⟨g, hg, rfl⟩ := List.mem_map.mp hq
  exact h.stop_le hg

/-- **A packet with all its bytes is tiled by its frames.** -/
theorem tiles (h : Assembles p id gs) (hr : p.receivedBytes = p.totalLen) : Tiles gs p.bytes where
  frames := fun g hg => ⟨by rw [h.length]; exact (h.frames g hg).2.1, (h.frames g hg).2.2⟩
  tiling := by
    refine .of_sizes h.apart ?_ (by rw [← h.received, hr, h.length]) ?_
    · rw [List.forall_mem_map, h.length]
      exact fun g hg => h.stop_le hg
    · rw [List.forall_mem_map]
      exact h.agrees

end Assembles

theorem tiles_whole {f : Frame} (hf : f.WellFormed) (hw : f.Whole) : Tiles [f] f.payload where
  frames := by simp [hw.2, hf]
  tiling := by
    refine .of_sizes (by simp) ?_ (by simp [Frame.piece]) ?_
    · simp [Piece.stop, Frame.piece, hw.1]
    · simp [Piece.Agrees, Frame.piece, hw.1]

/-! ## The table -/

structure Sound (frames : List Frame) (r : Reassembler) : Prop where
  buffered : r.bufferedBytes = r.pending.total PendingPacket.totalLen
  bounded : r.bufferedBytes ≤ r.config.maxReassemblyBytes
  inflight : r.pending.size ≤ r.config.maxInflightPackets
  packets : ∀ id p, r.pending.get? id = some p → p.receivedBytes < p.totalLen ∧
    ∃ gs, (∀ g ∈ gs, g ∈ frames) ∧ Assembles p id gs ∧
      gs.length ≤ r.config.maxFragmentsPerPacket

/-- What a pass over `f` completes: the packet a frame carries whole, or the
pending packet whose chunks, with the new one, tile it. -/
def Completes (frames : List Frame) (r : Reassembler) (f : Frame) (packet : Packet) : Prop :=
  (f.Whole ∧ packet = f.payload) ∨
    ¬ f.Whole ∧ ∃ p gs, r.pending.get? f.packetId = some p ∧ packet = (p.add f).bytes ∧
      p.chunks ++ [f.chunk] = gs.map Frame.chunk ∧
      (∀ g ∈ gs, g ∈ frames ∧ g.packetId = f.packetId) ∧ Tiles gs packet

namespace Sound

variable {frames frames' : List Frame} {r base : Reassembler} {f : Frame} {p : PendingPacket}
  {now : Nat}

theorem new (config : RuntimeConfig) : Sound [] (.new config) where
  buffered := rfl
  bounded := Nat.zero_le _
  inflight := Nat.zero_le _
  packets := fun id p h => by simp [Reassembler.new] at h

theorem mono (h : Sound frames r) (hs : frames ⊆ frames') : Sound frames' r :=
  { h with
    packets := fun id p hp => by
      obtain ⟨hlt, gs, h1, h2⟩ := h.packets id p hp
      exact ⟨hlt, gs, fun g hg => hs (h1 g hg), h2⟩ }

theorem remove (h : Sound frames r) (id : UInt32) : Sound frames (r.remove id) := by
  cases hp : r.pending.get? id with
  | none => simpa [Reassembler.remove, hp] using h
  | some p =>
    have htotal := KeyMap.total_erase r.pending id PendingPacket.totalLen
    have hsize := KeyMap.total_erase r.pending id fun _ => 1
    rw [← KeyMap.size_eq_total, ← KeyMap.size_eq_total, hp] at hsize
    rw [hp] at htotal
    simp only [Option.elim_some] at htotal hsize
    have hb := h.buffered
    rw [Reassembler.remove_of_some hp]
    refine ⟨?_, ?_, ?_, fun k q hq => ?_⟩
    · dsimp only
      omega
    · exact Nat.le_trans (Nat.sub_le _ _) h.bounded
    · have := h.inflight
      dsimp only
      omega
    · rw [KeyMap.get?_erase] at hq
      split at hq
      · cases hq
      · exact h.packets k q hq

theorem expire (h : Sound frames r) (now : Nat) : Sound frames (r.expire now) := by
  unfold Reassembler.expire
  dsimp only
  generalize (List.filter _ r.pending.toPairs).map Prod.fst = ids
  induction ids generalizing r with
  | nil => exact h
  | cons id ids ih => exact ih (h.remove id)

/-- Packet ids are 32 bits wide and lengths 16, so the sum of lengths never
reaches the limit of the counter. -/
theorem buffered_add_le (h : Sound frames r) {n : Nat} (hn : n ≤ u16Max) :
    r.bufferedBytes + n ≤ u64Max := by
  have hsize : r.pending.size ≤ 2 ^ 32 :=
    KeyMap.size_le (f := UInt32.toNat) (fun _ _ => UInt32.toNat_inj.mp) (fun k => k.toNat_lt)
      r.pending
  have htotal : r.pending.total PendingPacket.totalLen ≤ r.pending.size * u16Max :=
    KeyMap.total_le fun id p hp => by
      obtain ⟨_, gs, _, ha, _⟩ := h.packets id p hp
      exact ha.total
  have hb := h.buffered
  unfold u16Max at *
  unfold u64Max
  omega

theorem slot (h : Sound frames r) (hf : f.WellFormed) (hs : r.Slot f now p base) :
    Sound frames base := by
  cases hs with
  | found => exact h
  | fresh hnone hroom hbytes =>
    have htotal := KeyMap.total_insert r.pending f.packetId (.new now f.totalLen)
      PendingPacket.totalLen
    have hsize := KeyMap.total_insert r.pending f.packetId (.new now f.totalLen) fun _ => 1
    rw [← KeyMap.size_eq_total, ← KeyMap.size_eq_total, hnone] at hsize
    rw [hnone] at htotal
    simp only [Option.elim_none, PendingPacket.new] at htotal hsize
    have hb := h.buffered
    rw [saturatingAdd_eq (h.buffered_add_le hf.total)] at hbytes
    refine ⟨?_, hbytes, ?_, fun k q hq => ?_⟩
    · simp only [Reassembler.insertNew, PendingPacket.new]
      omega
    · simp only [Reassembler.insertNew, PendingPacket.new]
      omega
    · simp only [Reassembler.insertNew] at hq ⊢
      rw [KeyMap.get?_insert] at hq
      split at hq
      · next hk =>
        cases hq
        subst hk
        have hpos := hf.nonempty
        have hin := hf.within
        exact ⟨by simp only [PendingPacket.new]; omega, [], by simp,
          .new hf.total now f.packetId, Nat.zero_le _⟩
      · exact h.packets k q hq

theorem overlaps_of_slot (hs : r.Slot f now p base) : p.overlaps f = false := by
  cases hs with
  | found _ _ ho => exact ho
  | fresh => rfl

theorem found_of_complete (hs : r.Slot f now p base) (hf : f.WellFormed) (hw : ¬ f.Whole)
    (hdone : (p.add f).receivedBytes = p.totalLen) : r.pending.get? f.packetId = some p := by
  cases hs with
  | found hp => exact hp
  | fresh =>
    have hin := hf.within
    simp only [PendingPacket.add, PendingPacket.new, Nat.zero_add] at hdone
    exact absurd ⟨by omega, hdone⟩ hw

theorem stored {r' : Reassembler} {res : Except RecordizerError (Option Packet)}
    (h : Sound frames r) (hf : f.WellFormed) (hw : ¬ f.Whole) (hs : r.Slot f now p base)
    (hst : base.Stores f p r' res) :
    Sound (frames ++ [f]) r' ∧
      ∀ packet, res = .ok (some packet) → Completes (frames ++ [f]) r f packet := by
  have hbase := h.slot hf hs
  have hmono : Sound (frames ++ [f]) base := hbase.mono (by simp)
  have hp := hs.get?
  obtain ⟨hlt, gs, hgs, ha, hlen⟩ := hbase.packets _ _ hp
  have hadd := ha.add rfl hs.totalLen.symm hf (overlaps_of_slot hs)
  have hmem : ∀ g ∈ gs ++ [f], g ∈ frames ++ [f] := by
    intro g hg
    rcases List.mem_append.mp hg with hg | hg
    · exact List.mem_append_left _ (hgs g hg)
    · exact List.mem_append_right _ hg
  cases hst with
  | full => exact ⟨hmono.remove _, fun packet h => by cases h⟩
  | complete hroom hdone =>
    refine ⟨hmono.remove _, fun packet hpk => .inr ⟨hw, p, gs ++ [f], ?_⟩⟩
    cases hpk
    exact ⟨found_of_complete hs hf hw hdone, rfl, hadd.chunks,
      fun g hg => ⟨hmem g hg, (hadd.frames g hg).1⟩, hadd.tiles hdone⟩
  | kept hroom hpart =>
    refine ⟨⟨?_, hbase.bounded, ?_, fun k q hq => ?_⟩, fun packet h => by cases h⟩
    · have htotal := KeyMap.total_insert base.pending f.packetId (p.add f) PendingPacket.totalLen
      rw [hp] at htotal
      simp only [Option.elim_some, PendingPacket.add] at htotal
      have hb := hbase.buffered
      simp only [PendingPacket.add]
      omega
    · have hsize := KeyMap.total_insert base.pending f.packetId (p.add f) fun _ => 1
      rw [← KeyMap.size_eq_total, ← KeyMap.size_eq_total, hp] at hsize
      simp only [Option.elim_some] at hsize
      have := hbase.inflight
      dsimp only
      omega
    · rw [KeyMap.get?_insert] at hq
      split at hq
      · next hk =>
        cases hq
        subst hk
        have hle := hadd.received_le
        refine ⟨Nat.lt_of_le_of_ne hle hpart, gs ++ [f], hmem, hadd, ?_⟩
        have hc : p.chunks.length = gs.length := by rw [ha.chunks, List.length_map]
        simp only [List.length_append, List.length_cons, List.length_nil]
        omega
      · exact hmono.packets k q hq

/-- **A pass keeps the table sound and completes only tiled packets.** -/
theorem accept (h : Sound frames r) (hf : f.WellFormed) (now : Nat) :
    Sound (frames ++ [f]) (r.accept f now).1 ∧
      ∀ packet, (r.accept f now).2 = .ok (some packet) → Completes (frames ++ [f]) r f packet := by
  have heff := r.accept_effect f now
  generalize r.accept f now = step at heff
  obtain ⟨r', res⟩ := step
  have hmono : Sound (frames ++ [f]) r := h.mono (by simp)
  cases heff with
  | whole hw _ =>
    refine ⟨hmono, fun packet hpk => ?_⟩
    cases hpk
    exact .inl ⟨hw, rfl⟩
  | repeated | refused e => exact ⟨hmono, fun packet h => by cases h⟩
  | dropped e => exact ⟨hmono.remove _, fun packet h => by cases h⟩
  | stored hw hs hst => exact h.stored hf hw hs hst

end Sound

/-! ## Whole calls -/

namespace Reassembler

def passStep (now : Nat) (r : Reassembler) (f : Frame) (r' : Reassembler) : Prop :=
  (r.accept f now).1 = r'

@[simp] theorem config_expire (r : Reassembler) (now : Nat) :
    (r.expire now).config = r.config := by
  unfold expire
  dsimp only
  generalize (List.filter _ r.pending.toPairs).map Prod.fst = ids
  induction ids generalizing r with
  | nil => rfl
  | cons id ids ih =>
    rw [List.foldl_cons, ih, config_remove]

@[simp] theorem config_decodeWithAt (r : Reassembler) (record : Record) (now : Nat) :
    (r.decodeWithAt record now).1.config = r.config := by
  obtain ⟨_, _, _, h, _⟩ := decodeWithAt_induct r record now
    (P := fun _ _ r' => r'.config = r.config) (config_expire r now) (config_expire r now)
    fun _ h => by rw [config_accept, h]
  exact h

/-- A call keeps the table sound; what it hands over was completed by one of its
passes, and a failing call hands over nothing. -/
theorem sound_decode {frames : List Frame} {r : Reassembler} (h : Sound frames r)
    (record : Record) (now : Nat) :
    Sound (frames ++ framesOf r.config record) (r.decodeWithAt record now).1 ∧
      ((r.decodeWithAt record now).2.2 ≠ .ok () → (r.decodeWithAt record now).2.1 = []) ∧
      ∀ packet ∈ (r.decodeWithAt record now).2.1, ∃ done f r₁,
        Run (passStep now) (r.expire now) done r₁ ∧ done ++ [f] <+: framesOf r.config record ∧
        (r₁.accept f now).2 = .ok (some packet) ∧
        Completes (frames ++ (done ++ [f])) r₁ f packet := by
  let P : List Frame → List (UInt32 × Packet) → Reassembler → Prop := fun done D r' =>
    Run (passStep now) (r.expire now) done r' ∧
      Sound (frames ++ done) r' ∧ ∀ d ∈ D, ∃ done f r₁,
        Run (passStep now) (r.expire now) done r₁ ∧ done ++ [f] <+: framesOf r.config record ∧
        (r₁.accept f now).2 = .ok (some d.2) ∧ Completes (frames ++ (done ++ [f])) r₁ f d.2
  have h0 : P [] [] (r.expire now) :=
    ⟨.nil, by simpa using h.expire now, by simp⟩
  have hstep : ∀ {done D r' f}, done ++ [f] <+: framesOf r.config record → P done D r' →
      P (done ++ [f]) (D ++ completed f (r'.accept f now).2) (r'.accept f now).1 := by
    intro done D r' f hpre hP
    obtain ⟨hrun, hsound, hD⟩ := hP
    have hf : f.WellFormed := (mem_framesOf (hpre.subset (by simp))).1
    obtain ⟨hs, hpk⟩ := hsound.accept hf now
    refine ⟨.snoc hrun rfl, by simpa using hs, fun d hd => ?_⟩
    rcases List.mem_append.mp hd with hd | hd
    · exact hD d hd
    · cases hres : (r'.accept f now).2 with
      | error e => simp [completed, hres] at hd
      | ok out =>
        cases out with
        | none => simp [completed, hres] at hd
        | some packet =>
          obtain rfl : d = (f.packetId, packet) := by simpa [completed, hres] using hd
          exact ⟨done, f, r', hrun, hpre, hres, by simpa using hpk packet hres⟩
  obtain ⟨done, D, hpre, ⟨_, hs, hD⟩, hok, herr⟩ :=
    decodeWithAt_induct r record now (P := P) h0 (config_expire r now) hstep
  refine ⟨hs.mono ?_, herr, fun packet hpk => ?_⟩
  · exact List.append_subset.mpr ⟨List.subset_append_left _ _,
      List.Subset.trans hpre.subset (List.subset_append_right _ _)⟩
  · by_cases hres : (r.decodeWithAt record now).2.2 = .ok ()
    · rw [hok hres] at hpk
      obtain ⟨d, hd, rfl⟩ := List.mem_map.mp hpk
      exact hD d hd
    · rw [herr hres] at hpk
      simp at hpk

/-! ## Every sequence of calls -/

def decodeStep (r : Reassembler) (call : Record × Nat) (r' : Reassembler) : Prop :=
  (r.decodeWithAt call.1 call.2).1 = r'

def framesGiven (config : RuntimeConfig) (calls : List (Record × Nat)) : List Frame :=
  (calls.map fun call => framesOf config call.1).flatten

theorem sound_run {config : RuntimeConfig} {calls : List (Record × Nat)} {r : Reassembler}
    (h : Run decodeStep (.new config) calls r) :
    r.config = config ∧ Sound (framesGiven config calls) r := by
  refine h.invariant (P := fun calls r => r.config = config ∧ Sound (framesGiven config calls) r)
    ⟨rfl, .new config⟩ ?_
  intro calls r call r' _ ih hstep
  obtain ⟨hc, hs⟩ := ih
  obtain ⟨hs', -⟩ := sound_decode hs call.1 call.2
  have hc' := config_decodeWithAt r call.1 call.2
  rw [hstep] at hc' hs'
  refine ⟨hc'.trans hc, ?_⟩
  rw [hc] at hs'
  simpa [framesGiven] using hs'

end Reassembler

def Chunk.Disjoint (a b : Chunk) : Prop := a.offset + a.len ≤ b.offset ∨ b.offset + b.len ≤ a.offset

/-- What holds of a packet in the table. -/
structure PendingPacket.Intact (maxFragments : Nat) (p : PendingPacket) : Prop where
  count : p.chunks.length ≤ maxFragments
  inside : ∀ c ∈ p.chunks, 0 < c.len ∧ c.offset + c.len ≤ p.totalLen
  disjoint : p.chunks.Pairwise Chunk.Disjoint
  received : p.receivedBytes = (p.chunks.map Chunk.len).sum
  below : p.receivedBytes < p.totalLen

/-- The counters and limits of the table. -/
structure Reassembler.Accounted (r : Reassembler) : Prop where
  buffered : r.bufferedBytes = r.pending.total PendingPacket.totalLen
  bounded : r.bufferedBytes ≤ r.config.maxReassemblyBytes
  inflight : r.pending.size ≤ r.config.maxInflightPackets
  packets : ∀ id p, r.pending.get? id = some p → p.Intact r.config.maxFragmentsPerPacket

theorem Assembles.intact {p : PendingPacket} {id : UInt32} {gs : List Frame} {n : Nat}
    (h : Assembles p id gs) (hn : gs.length ≤ n) (hlt : p.receivedBytes < p.totalLen) :
    p.Intact n where
  count := by rw [h.chunks, List.length_map]; exact hn
  inside := fun c hc => by
    rw [h.chunks] at hc
    obtain ⟨g, hg, rfl⟩ := List.mem_map.mp hc
    exact ⟨(h.frames g hg).2.2.nonempty, h.stop_le hg⟩
  disjoint := by
    rw [h.chunks, List.pairwise_map]
    exact (List.pairwise_map.mp h.apart).imp fun hab => hab
  received := by
    rw [h.received, h.chunks, sizes, List.map_map, List.map_map]
    rfl
  below := hlt

theorem Sound.accounted {frames : List Frame} {r : Reassembler} (h : Sound frames r) :
    r.Accounted where
  buffered := h.buffered
  bounded := h.bounded
  inflight := h.inflight
  packets := fun id p hp => by
    obtain ⟨hlt, gs, _, ha, hn⟩ := h.packets id p hp
    exact ha.intact hn hlt

/-- **After any calls the table is within its limits and its counters add up; the
next call hands over only packets that a frame carried whole or that the chunks of
their entry tile, and nothing if it fails.** -/
theorem decode_accounted_and_tiled {config : RuntimeConfig} {calls : List (Record × Nat)}
    {r : Reassembler} (h : Run Reassembler.decodeStep (.new config) calls r) :
    r.config = config ∧ r.Accounted ∧ ∀ record now,
      ((r.decodeWithAt record now).2.2 ≠ .ok () → (r.decodeWithAt record now).2.1 = []) ∧
      ∀ packet ∈ (r.decodeWithAt record now).2.1, ∃ done f r₁,
        Run (Reassembler.passStep now) (r.expire now) done r₁ ∧
        done ++ [f] <+: framesOf config record ∧ (r₁.accept f now).2 = .ok (some packet) ∧
        Completes (Reassembler.framesGiven config calls ++ (done ++ [f])) r₁ f packet := by
  obtain ⟨hc, hs⟩ := Reassembler.sound_run h
  refine ⟨hc, hs.accounted, fun record now => ?_⟩
  obtain ⟨_, herr, hpk⟩ := Reassembler.sound_decode hs record now
  rw [hc] at hpk
  exact ⟨herr, hpk⟩

/-- A receiver that allows one pending packet of up to four fragments. -/
def narrowConfig : RuntimeConfig where
  opportunistic := false
  delayMin := 0
  delayMax := 0
  maxPackets := 32
  maxPayloadBytes := 64
  fragmentEnabled := true
  reassemblyTimeout := 3000000000
  maxInflightPackets := 1
  maxReassemblyBytes := 64
  maxFragmentsPerPacket := 4
  maxPacketBytes := 32

/-- The second half of a packet, then the first. -/
theorem decode_accounted_and_tiled_swapped :
    let r := ((Reassembler.new narrowConfig).decodeWithAt (envelope [⟨7, 6, 3, [4, 5, 6]⟩]) 10).1
    let call := r.decodeWithAt (envelope [⟨7, 6, 0, [1, 2, 3]⟩]) 20
    r.bufferedBytes = 6 ∧ r.Accounted ∧ call.2.1 = [[1, 2, 3, 4, 5, 6]] ∧
      ∀ packet ∈ call.2.1, ∃ done f r₁, (r₁.accept f 20).2 = .ok (some packet) ∧
        Completes (Reassembler.framesGiven narrowConfig [(envelope [⟨7, 6, 3, [4, 5, 6]⟩], 10)] ++
          (done ++ [f])) r₁ f packet := by
  intro r call
  have hbytes : r.bufferedBytes = 6 := by decide +kernel
  have hout : call.2.1 = [[1, 2, 3, 4, 5, 6]] := by decide +kernel
  have hrun : Run Reassembler.decodeStep (.new narrowConfig)
      [(envelope [⟨7, 6, 3, [4, 5, 6]⟩], 10)] r := .snoc .nil rfl
  obtain ⟨_, hacc, hall⟩ := decode_accounted_and_tiled hrun
  refine ⟨hbytes, hacc, hout, fun packet hpk => ?_⟩
  obtain ⟨done, f, r₁, _, _, h1, h2⟩ := (hall _ 20).2 packet hpk
  exact ⟨done, f, r₁, h1, h2⟩

end Qeli.Mux
