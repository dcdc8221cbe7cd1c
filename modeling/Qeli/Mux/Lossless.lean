import Qeli.Mux.Assembly
import Qeli.Mux.Calls

/-!
# In-order delivery

Records delivered in order to a receiver with large enough limits. The receiver is
always part way through one packet (`Partway`): it holds the frames of that packet
that have arrived and nothing else. The frame it awaits joins them, and the last
one completes the packet (`accept_next`); so the receiver never fails and hands
over the packets in the order they were pushed (`mux_lossless`).
-/

namespace Qeli.Mux

open Qeli.Lib

/-- The receiver holds the frames `pre` of the packet `id` and nothing else. -/
inductive Partway (r : Reassembler) (id : UInt32) : List Frame → Prop where
  | idle : (∀ k, r.pending.get? k = none) → r.bufferedBytes = 0 → Partway r id []
  | holding {p : PendingPacket} {pre : List Frame} : pre ≠ [] → r.pending.get? id = some p →
      (∀ k, k ≠ id → r.pending.get? k = none) → r.bufferedBytes = p.totalLen →
      Assembles p id pre → Partway r id pre

/-- The packet fits the receiver's limits. -/
structure Sending.Suits (rc : RuntimeConfig) (x : Sending) : Prop where
  cuts : Cuts x.id x.packet x.packet.length x.frames
  nonempty : 0 < x.packet.length
  length : x.packet.length ≤ u16Max
  packetBytes : x.packet.length ≤ rc.maxPacketBytes
  reassemblyBytes : x.packet.length ≤ rc.maxReassemblyBytes
  fragments : x.frames.length ≤ rc.maxFragmentsPerPacket

theorem size_of_idle {r : Reassembler} (h : ∀ k, r.pending.get? k = none) : r.pending.size = 0 := by
  rw [KeyMap.size_eq_total]
  exact KeyMap.total_eq_zero fun k v hk => by rw [h k] at hk; cases hk

theorem Assembles.overlaps_next {p : PendingPacket} {id : UInt32} {packet : Packet} {m : Nat}
    {pre : List Frame} {f : Frame} (h : Assembles p id pre) (hc : Cuts id packet m pre)
    (hf : f.offset = m) :
    f.chunk ∉ p.chunks ∧ p.overlaps f = false := by
  constructor
  · rw [h.chunks]
    intro hmem
    obtain ⟨g, hg, he⟩ := List.mem_map.mp hmem
    have hp := hc.part g hg
    have h1 := hp.stop_le
    have h2 := hp.nonempty
    simp only [Frame.chunk, Chunk.mk.injEq] at he
    omega
  · simp only [PendingPacket.overlaps, List.any_eq_false, decide_eq_true_eq, h.chunks]
    intro c hc'
    obtain ⟨g, hg, rfl⟩ := List.mem_map.mp hc'
    have h1 := (hc.part g hg).stop_le
    simp only [Frame.chunk]
    omega

theorem Assembles.eq_packet {p : PendingPacket} {id : UInt32} {packet : Packet} {fs : List Frame}
    (h : Assembles p id fs) (hc : Cuts id packet packet.length fs)
    (ht : p.totalLen = packet.length) : p.bytes = packet := by
  have hr : p.receivedBytes = p.totalLen := by rw [h.received, hc.sizes_eq, ht]
  refine (h.tiles hr).tiling.eq (by rw [h.length, ht]) ?_
  rw [List.forall_mem_map]
  exact fun g hg => (hc.part g hg).agrees

namespace Reassembler

variable {rc : RuntimeConfig} {r : Reassembler} {x : Sending} {pre post : List Frame} {f : Frame}

theorem store_next {base : Reassembler} {p : PendingPacket} (hx : x.Suits rc)
    (hrc : base.config = rc) (hfr : x.frames = pre ++ f :: post)
    (hothers : ∀ k, k ≠ x.id → base.pending.get? k = none)
    (hbytes : base.bufferedBytes = p.totalLen) (ht : p.totalLen = x.packet.length)
    (ha : Assembles p x.id pre) :
    (base.store f p).1.config = rc ∧
      (base.store f p).2 = .ok (if post = [] then some x.packet else none) ∧
      Partway (base.store f p).1 x.id (if post = [] then [] else pre ++ [f]) := by
  have hcuts := hx.cuts
  rw [hfr] at hcuts
  obtain ⟨m, take, hpre, hpos, hle, hf, hend⟩ := hcuts.split
  have hwf : f.WellFormed := hx.cuts.wellFormed hx.length f (by simp [hfr])
  have hover := (ha.overlaps_next (f := f) hpre (by rw [hf])).2
  have hid : f.packetId = x.id := by rw [hf]
  have hadd := ha.add hid (by rw [hf, ht]) hwf hover
  have hroom : ¬ base.config.maxFragmentsPerPacket ≤ p.chunks.length := by
    have := hx.fragments
    rw [hfr] at this
    simp only [List.length_append, List.length_cons] at this
    rw [hrc, ha.chunks, List.length_map]
    omega
  have hreceived : (p.add f).receivedBytes = m + take := by
    have hlen : ((x.packet.drop m).take take).length = take := by
      rw [List.length_take, List.length_drop]
      omega
    simp only [PendingPacket.add, ha.received, hpre.sizes_eq]
    rw [hf, hlen]
  have htotal : (p.add f).totalLen = x.packet.length := ht
  unfold store
  rw [if_neg hroom]
  dsimp only
  rw [hreceived, htotal, hid]
  by_cases hlast : post = []
  · subst hlast
    rw [if_pos (hend.mpr rfl)]
    have hall : Cuts x.id x.packet x.packet.length (pre ++ [f]) := by simpa [hfr] using hx.cuts
    refine ⟨hrc, by rw [if_pos rfl, hadd.eq_packet hall ht], ?_⟩
    rw [if_pos rfl]
    refine .idle (fun k => ?_) (by rw [hbytes, ht]; exact Nat.sub_self _)
    rw [KeyMap.get?_erase]
    split
    · rfl
    · next hk => exact hothers k hk
  · rw [if_neg (fun h => hlast (hend.mp h)), if_neg hlast, if_neg hlast]
    refine ⟨hrc, rfl, .holding (by simp) (KeyMap.get?_insert_self _ _ _) (fun k hk => ?_) hbytes
      hadd⟩
    rw [KeyMap.get?_insert_ne _ _ hk]
    exact hothers k hk

/-- **The awaited frame is accepted, and the last one completes its packet.** -/
theorem accept_next (now : Nat) (hx : x.Suits rc) (hin : 1 ≤ rc.maxInflightPackets)
    (hrc : r.config = rc) (hfr : x.frames = pre ++ f :: post) (h : Partway r x.id pre) :
    (r.accept f now).1.config = rc ∧
      (r.accept f now).2 = .ok (if post = [] then some x.packet else none) ∧
      Partway (r.accept f now).1 x.id (if post = [] then [] else pre ++ [f]) := by
  have hcuts := hx.cuts
  rw [hfr] at hcuts
  obtain ⟨m, take, hpre, hpos, hle, hf, hend⟩ := hcuts.split
  have hwf : f.WellFormed := hx.cuts.wellFormed hx.length f (by simp [hfr])
  have hid : f.packetId = x.id := by rw [hf]
  have hlen : f.payload.length = take := by
    rw [hf]
    simp only [List.length_take, List.length_drop]
    omega
  have htotal : f.totalLen = x.packet.length := by rw [hf]
  have hoff : f.offset = m := by rw [hf]
  unfold accept
  rw [hid]
  cases h with
  | idle hnone hzero =>
    have hm : m = 0 := by simpa using hpre.sizes_eq.symm
    by_cases hw : f.Whole
    · have hlast : post = [] := hend.mp (by have := hw.2; omega)
      have hc : r.pending.contains x.id = false := KeyMap.contains_eq_false.mpr (hnone _)
      have hpk : f.payload = x.packet := by
        rw [hf, hm]
        simp only [List.drop_zero]
        exact List.take_of_length_le (by have := hw.2; omega)
      rw [if_pos hw, hc, if_neg (by simp), if_pos hlast, if_pos hlast, hpk]
      exact ⟨hrc, rfl, .idle hnone hzero⟩
    · rw [if_neg hw, hnone]
      dsimp only
      rw [if_neg (by rw [size_of_idle hnone, hrc]; omega), if_neg]
      · refine store_next hx (by simpa [insertNew] using hrc) hfr
          (fun k hk => ?_) (by simp [insertNew, PendingPacket.new, hzero])
          (by simp [PendingPacket.new, htotal]) (.new (by rw [htotal]; exact hx.length) now x.id)
        simp only [insertNew]
        rw [hid, KeyMap.get?_insert_ne _ _ hk, hnone]
      · have h1 := hx.reassemblyBytes
        have h2 := hx.length
        rw [hzero, htotal, saturatingAdd_eq (by unfold u16Max at h2; unfold u64Max; omega), hrc]
        omega
  | @holding p _ hne hp hothers hbytes ha =>
    -- something precedes the frame, so it is not the whole packet
    have hw : ¬ f.Whole := by
      intro hw
      cases hpre with
      | nil => exact hne rfl
      | snoc _ hpos' _ =>
        have := hw.1
        omega
    have ht : p.totalLen = x.packet.length := by
      obtain ⟨g, hg⟩ := List.exists_mem_of_ne_nil _ hne
      rw [← (ha.frames g hg).2.1, (hpre.part g hg).totalLen]
    obtain ⟨hnew, hover⟩ := ha.overlaps_next hpre hoff
    rw [if_neg hw, hp]
    dsimp only
    rw [if_neg (by rw [ht, htotal]; simp), if_neg hnew, if_neg (by rw [hover]; simp)]
    exact store_next hx hrc hfr hothers hbytes ht ha

end Reassembler

/-! ## The stream of frames -/

/-- The frames `todo` complete the packets `xs`, the first of which may have begun. -/
inductive Awaits (r : Reassembler) : List Sending → List Frame → Prop where
  | done {id : UInt32} : Partway r id [] → Awaits r [] []
  | next {x : Sending} {xs : List Sending} {pre rest : List Frame} : x.frames = pre ++ rest →
      rest ≠ [] → Partway r x.id pre → Awaits r (x :: xs) (rest ++ stream xs)

namespace Awaits

variable {rc : RuntimeConfig} {r : Reassembler} {xs : List Sending} {todo : List Frame}

theorem start {id : UInt32} (h : Partway r id []) (hxs : ∀ x ∈ xs, x.Suits rc) :
    Awaits r xs (stream xs) := by
  cases xs with
  | nil => exact .done h
  | cons x xs =>
    have hx := hxs x List.mem_cons_self
    have hidle : Partway r x.id [] := by
      cases h with
      | idle h1 h2 => exact .idle h1 h2
      | holding hne => exact absurd rfl hne
    have hfr : x.frames = [] ++ x.frames := rfl
    refine .next hfr ?_ hidle
    intro hnil
    have hs := hx.cuts.sizes_eq
    rw [hnil] at hs
    have := hx.nonempty
    simp at hs
    omega

theorem eq_nil (h : Awaits r xs []) : xs = [] := by
  generalize hl : [] = l at h
  cases h with
  | done => rfl
  | next _ hne _ => exact absurd (List.append_eq_nil_iff.mp hl.symm).1 hne

theorem mem (h : Awaits r xs todo) {f : Frame} (hf : f ∈ todo) : ∃ x ∈ xs, f ∈ x.frames := by
  cases h with
  | done => cases hf
  | @next x xs pre rest hfr _ _ =>
    rcases List.mem_append.mp hf with hf | hf
    · exact ⟨x, List.mem_cons_self, by rw [hfr]; exact List.mem_append_right _ hf⟩
    · obtain ⟨l, hl, hfl⟩ := List.mem_flatten.mp hf
      obtain ⟨y, hy, rfl⟩ := List.mem_map.mp hl
      exact ⟨y, List.mem_cons_of_mem _ hy, hfl⟩

/-- **One frame of the stream.** -/
theorem accept {f : Frame} (h : Awaits r xs (f :: todo)) (hxs : ∀ x ∈ xs, x.Suits rc)
    (hin : 1 ≤ rc.maxInflightPackets) (hrc : r.config = rc) (now : Nat) :
    ∃ out xs', (r.accept f now).2 = .ok out ∧ (r.accept f now).1.config = rc ∧
      xs.map Sending.packet = out.toList ++ xs'.map Sending.packet ∧ xs' <:+ xs ∧
      Awaits (r.accept f now).1 xs' todo := by
  generalize hl : f :: todo = l at h
  cases h with
  | done => cases hl
  | @next x xs pre rest hfr hne hpart =>
    obtain ⟨post, rfl⟩ : ∃ post, rest = f :: post := by
      cases rest with
      | nil => exact absurd rfl hne
      | cons g post =>
        rw [List.cons_append] at hl
        obtain ⟨rfl, -⟩ := List.cons.inj hl
        exact ⟨post, rfl⟩
    obtain rfl : todo = post ++ stream xs := (List.cons.inj hl).2
    obtain ⟨h1, h2, h3⟩ := Reassembler.accept_next now (hxs x List.mem_cons_self) hin hrc hfr hpart
    by_cases hpost : post = []
    · subst hpost
      rw [if_pos rfl] at h2 h3
      refine ⟨some x.packet, xs, h2, h1, by simp, List.suffix_cons _ _, ?_⟩
      exact start h3 fun y hy => hxs y (List.mem_cons_of_mem _ hy)
    · rw [if_neg hpost] at h2 h3
      exact ⟨none, x :: xs, h2, h1, by simp, List.suffix_refl _,
        .next (by simpa using hfr) hpost h3⟩

theorem receive {rec : List Frame} (h : Awaits r xs (rec ++ todo)) (hxs : ∀ x ∈ xs, x.Suits rc)
    (hin : 1 ≤ rc.maxInflightPackets) (hrc : r.config = rc) (now : Nat) (deferred : List Packet) :
    ∃ r' packets xs', Reassembler.receive now r rec deferred = (r', .ok (deferred ++ packets)) ∧
      r'.config = rc ∧ xs.map Sending.packet = packets ++ xs'.map Sending.packet ∧ xs' <:+ xs ∧
      Awaits r' xs' todo := by
  induction rec generalizing r xs deferred with
  | nil => exact ⟨r, [], xs, by simp [Reassembler.receive], hrc, by simp, List.suffix_refl _, h⟩
  | cons f rec ih =>
    obtain ⟨out, xs₁, h1, h2, h3, h4, h5⟩ := h.accept hxs hin hrc now
    obtain ⟨r', packets, xs', h6, h7, h8, h9, h10⟩ :=
      ih h5 (fun x hx => hxs x (h4.subset hx)) h2 (deferred ++ out.toList)
    refine ⟨r', out.toList ++ packets, xs', ?_, h7, ?_, h9.trans h4, h10⟩
    · unfold Reassembler.receive
      rw [show r.accept f now = ((r.accept f now).1, .ok out) from Prod.ext rfl h1]
      dsimp only
      rw [h6, List.append_assoc]
    · rw [h3, h8, List.append_assoc]

theorem decode {rec : List Frame} {now : Nat} (h : Awaits r xs (rec ++ todo))
    (hxs : ∀ x ∈ xs, x.Suits rc) (hin : 1 ≤ rc.maxInflightPackets) (hrc : r.config = rc)
    (hne : rec ≠ []) (hexp : r.expire now = r) :
    ∃ r' packets xs', r.decodeWithAt (envelope rec) now = (r', packets, .ok ()) ∧
      r'.config = rc ∧ xs.map Sending.packet = packets ++ xs'.map Sending.packet ∧ xs' <:+ xs ∧
      Awaits r' xs' todo := by
  have hframes : ∀ f ∈ rec, f.WellFormed ∧ f.totalLen ≤ rc.maxPacketBytes := by
    intro f hf
    obtain ⟨x, hx, hfx⟩ := h.mem (List.mem_append_left _ hf)
    have hs := hxs x hx
    refine ⟨hs.cuts.wellFormed hs.length f hfx, ?_⟩
    rw [(hs.cuts.part f hfx).totalLen]
    exact hs.packetBytes
  obtain ⟨r', packets, xs', h1, h2, h3, h4, h5⟩ := h.receive hxs hin hrc now []
  refine ⟨r', packets, xs', ?_, h2, h3, h4, h5⟩
  have hread := readFrames_envelope (fun f hf => (hframes f hf).1) fun f hf => (hframes f hf).2
  have hlen : (envelope rec).length ≠ magic.length := by
    cases rec with
    | nil => exact absurd rfl hne
    | cons g rec =>
      simp only [envelope, List.map_cons, List.flatten_cons, List.length_append, length_encode,
        frameHeaderLen]
      omega
  unfold Reassembler.decodeWithAt
  dsimp only
  rw [hexp, if_neg (by simp [envelope]), if_neg (by simp [envelope]),
    Reassembler.decodeLoop_eq now _ hrc, hread, h1]
  dsimp only
  rw [if_neg hlen]
  simp

end Awaits

/-- No pending packet is too old at any of the calls. -/
def NoExpiry : Reassembler → List (Record × Nat) → Prop
  | _, [] => True
  | r, (record, now) :: inputs =>
    r.expire now = r ∧ NoExpiry (r.decodeWithAt record now).1 inputs

theorem noExpiry_of_early {r : Reassembler} {inputs : List (Record × Nat)}
    (h : ∀ input ∈ inputs, input.2 ≤ r.config.reassemblyTimeout) : NoExpiry r inputs := by
  induction inputs generalizing r with
  | nil => trivial
  | cons input inputs ih =>
    obtain ⟨hnow, hrest⟩ := List.forall_mem_cons.mp h
    refine ⟨?_, ih (by simpa using hrest)⟩
    have hnone : (r.pending.toPairs.filter fun entry =>
        decide (r.config.reassemblyTimeout < input.2 - entry.2.createdAt)) = [] := by
      rw [List.filter_eq_nil_iff]
      intro entry _
      simp only [decide_eq_true_eq]
      omega
    simp [Reassembler.expire, hnone]

theorem Awaits.feed {rc : RuntimeConfig} {r : Reassembler} {xs : List Sending}
    {recs : List (List Frame)} {inputs : List (Record × Nat)} (h : Awaits r xs recs.flatten)
    (hxs : ∀ x ∈ xs, x.Suits rc) (hin : 1 ≤ rc.maxInflightPackets) (hrc : r.config = rc)
    (hne : ∀ rec ∈ recs, rec ≠ []) (hinputs : inputs.map Prod.fst = recs.map envelope)
    (hexp : NoExpiry r inputs) :
    (∀ call ∈ (r.feed inputs).2, call.2 = .ok ()) ∧
      ((r.feed inputs).2.map Prod.fst).flatten = xs.map Sending.packet := by
  induction inputs generalizing r xs recs with
  | nil =>
    obtain rfl : recs = [] := by simpa using hinputs.symm
    obtain rfl := Awaits.eq_nil h
    simp [Reassembler.feed]
  | cons input inputs ih =>
    obtain ⟨record, now⟩ := input
    cases recs with
    | nil => simp at hinputs
    | cons rec recs =>
      simp only [List.map_cons, List.cons.injEq] at hinputs
      obtain ⟨rfl, hinputs⟩ := hinputs
      obtain ⟨hexp, hexp'⟩ := hexp
      obtain ⟨r', packets, xs', h1, h2, h3, h4, h5⟩ :=
        h.decode hxs hin hrc (hne rec List.mem_cons_self) hexp
      rw [h1] at hexp'
      obtain ⟨hok, hout⟩ := ih h5 (fun x hx => hxs x (h4.subset hx)) h2
        (fun rec hrec => hne rec (List.mem_cons_of_mem _ hrec)) hinputs hexp'
      unfold Reassembler.feed
      rw [h1]
      dsimp only
      refine ⟨?_, ?_⟩
      · simpa using hok
      · simp [hout, h3]

/-! ## The whole path -/

open Recordizer in
/-- **Lossless multiplexing.** Calls ended by a flush return, whatever targets are
drawn; a receiver with limits no smaller than the sender's, given the records in
order and without expiry, never fails and hands over exactly the packets whose
push succeeded, in order. -/
theorem mux_lossless {config rc : RuntimeConfig} {calls : List Call}
    (hconf : ∀ c, c = config ∨ .raiseRuntime c ∈ calls →
      1 ≤ c.maxPackets ∧ 15 ≤ c.maxPayloadBytes ∧ 1 ≤ c.maxFragmentsPerPacket ∧
      c.maxPacketBytes ≤ rc.maxPacketBytes ∧ c.maxPacketBytes ≤ rc.maxReassemblyBytes ∧
      c.maxFragmentsPerPacket ≤ rc.maxFragmentsPerPacket)
    (hin : 1 ≤ rc.maxInflightPackets) (id : UInt32) (rng : Nat → RecordDraw) :
    ∃ s events, (Recordizer.new config id rng).runCalls (calls ++ [.flush]) = some (s, events) ∧
      ∀ inputs, inputs.map Prod.fst = sentRecords events → NoExpiry (.new rc) inputs →
        (∀ call ∈ ((Reassembler.new rc).feed inputs).2, call.2 = .ok ()) ∧
        (((Reassembler.new rc).feed inputs).2.map Prod.fst).flatten = acceptedPackets events := by
  let Q : RuntimeConfig → Prop := fun c => Usable c ∧ c.maxPacketBytes ≤ rc.maxPacketBytes ∧
    c.maxPacketBytes ≤ rc.maxReassemblyBytes ∧
    c.maxFragmentsPerPacket ≤ rc.maxFragmentsPerPacket
  have hQ : ∀ c, c = config ∨ .raiseRuntime c ∈ calls → Q c := fun c hc => by
    obtain ⟨h1, h2, h3, h4⟩ := hconf c hc
    exact ⟨⟨h1, h2, h3⟩, h4⟩
  have hcalls : ∀ c ∈ calls, ∀ c' ∈ c.configs, Q c' := by
    intro c hc c' hc'
    cases c with
    | raiseRuntime config' =>
      obtain rfl := List.mem_singleton.mp hc'
      exact hQ _ (.inr hc)
    | push | flush | flushDue | finishReadyBatch => simp [Call.configs] at hc'
  have hstart : (Recordizer.new config id rng).Holds none := ⟨rfl, rfl⟩
  have hall : ∀ c ∈ calls ++ [.flush], ∀ c' ∈ c.configs, Q c' := by
    rw [forall_mem_snoc]
    exact ⟨hcalls, by simp [Call.configs]⟩
  have hret := runCalls_returns (fun c hc => hc.1) hstart (by simp) (hQ config (.inl rfl)) hall
  obtain ⟨⟨s, events⟩, hrun⟩ := Option.isSome_iff_exists.mp hret
  refine ⟨s, events, hrun, fun inputs hinputs hexp => ?_⟩
  obtain ⟨recs, sent, hst⟩ := runCalls_flush_stretch hstart (hQ config (.inl rfl)) hcalls hrun
  have hsuits : ∀ x ∈ sent, x.Suits rc := fun x hx => by
    have hx := hst.cut x hx
    obtain ⟨c, ⟨hu, h1, h2, h3⟩, h4, h5⟩ := hx.limits
    have := hu.fragments
    exact ⟨hx.cuts, hx.nonempty, hx.length, by omega, by omega, by omega⟩
  have hstream : stream sent = recs.flatten := by simpa using hst.order
  have hawaits : Awaits (.new rc) sent recs.flatten := by
    rw [← hstream]
    have hidle : Partway (.new rc) 0 [] := .idle (fun _ => rfl) rfl
    exact Awaits.start hidle hsuits
  rw [hst.packets]
  exact hawaits.feed hsuits hin rfl (hst.filled (fun c hc => hc.1) (by simp)).1
    (by rw [hinputs, hst.records]) hexp

/-- Records of at most twenty bytes, so a fragment carries at most six. -/
def smallRecords : RuntimeConfig := { narrowConfig with maxPayloadBytes := 20 }

/-- A packet that needs every fragment it may have, with the smallest targets. -/
theorem mux_lossless_tight :
    let packet : Packet := [1, 2, 3, 4, 5, 6, 7, 8, 9, 10, 11, 12, 13, 14, 15, 16, 17, 18, 19, 20]
    ∃ s events, (Recordizer.new smallRecords 7 fun _ => ⟨false, 0, 0, 0, 0⟩).runCalls
        [.push packet 0, .push [21] 1, .flush] = some (s, events) ∧
      (sentRecords events).length = 5 ∧
      (((Reassembler.new smallRecords).feed
        ((sentRecords events).map (·, 5))).2.map Prod.fst).flatten = [packet, [21]] := by
  intro packet
  have heval : ((Recordizer.new smallRecords 7 fun _ => ⟨false, 0, 0, 0, 0⟩).runCalls
      [.push packet 0, .push [21] 1, .flush]).map
        (fun r => ((sentRecords r.2).length, acceptedPackets r.2)) =
      some (5, [packet, [21]]) := by decide +kernel
  obtain ⟨s, events, hrun, hfeed⟩ := @mux_lossless smallRecords smallRecords
    [.push packet 0, .push [21] 1] (fun c hc => by
      obtain rfl : c = smallRecords := by simpa using hc
      decide) (by decide) 7 fun _ => ⟨false, 0, 0, 0, 0⟩
  refine ⟨s, events, hrun, ?_⟩
  rw [List.cons_append, List.cons_append, List.nil_append] at hrun
  rw [hrun] at heval
  simp only [Option.map_some, Option.some.injEq, Prod.mk.injEq] at heval
  obtain ⟨hlen, hacc⟩ := heval
  refine ⟨hlen, ?_⟩
  rw [← hacc]
  refine (hfeed _ (by simp [List.map_map, Function.comp_def]) (noExpiry_of_early ?_)).2
  intro input hi
  obtain ⟨record, _, rfl⟩ := List.mem_map.mp hi
  exact show 5 ≤ smallRecords.reassemblyTimeout by decide

end Qeli.Mux
