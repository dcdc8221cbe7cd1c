import Qeli.Mux.Assembly
import Qeli.Mux.Calls

/-!
# A lossy carrier that reorders

Records arrive in any order, at any time, each at most once. A frame is known by
its packet id and its offset, and no two frames of a sender's stream share both,
so the receiver meets each frame at most once. `Delivered` ties the packets
completed so far to the frames met: every one is a packet of the stream, and its
first byte has been used up. A packet completed twice would need the frame with
its first byte twice.
-/

namespace Qeli.Mux

open Qeli.Lib

def Frame.key (f : Frame) : UInt32 × Nat := (f.packetId, f.offset)

/-- The packets of a sender's stream. -/
structure Stream (sent : List Sending) : Prop where
  cut : ∀ x ∈ sent, x.Cut fun _ => True
  ids : (sent.map Sending.id).Nodup

namespace Stream

variable {sent : List Sending}

theorem mem_frames {f : Frame} (hf : f ∈ stream sent) : ∃ x ∈ sent, f ∈ x.frames := by
  obtain ⟨l, hl, hfl⟩ := List.mem_flatten.mp hf
  obtain ⟨x, hx, rfl⟩ := List.mem_map.mp hl
  exact ⟨x, hx, hfl⟩

theorem part (h : Stream sent) {f : Frame} (hf : f ∈ stream sent) :
    ∃ x ∈ sent, f.WellFormed ∧ Cuts.Part x.id x.packet x.packet.length f := by
  obtain ⟨x, hx, hfx⟩ := mem_frames hf
  have hc := h.cut x hx
  exact ⟨x, hx, hc.cuts.wellFormed hc.length f hfx, hc.cuts.part f hfx⟩

theorem eq_of_id (h : Stream sent) {x y : Sending} (hx : x ∈ sent) (hy : y ∈ sent)
    (hid : x.id = y.id) : x = y :=
  List.inj_on_of_nodup_map h.ids hx hy hid

/-- **No two frames of the stream have the same id and offset.** -/
theorem nodup_keys (h : Stream sent) : ((stream sent).map Frame.key).Nodup := by
  have hpair : (stream sent).Pairwise fun f g => f.key ≠ g.key := by
    unfold stream
    rw [List.pairwise_flatten]
    constructor
    · intro l hl
      obtain ⟨x, hx, rfl⟩ := List.mem_map.mp hl
      have hc := (h.cut x hx).cuts
      refine hc.sorted.imp_of_mem fun {f g} hf _ hfg heq => ?_
      have h1 := (hc.part f hf).nonempty
      have h2 : f.offset = g.offset := congrArg Prod.snd heq
      omega
    · rw [List.pairwise_map]
      have hids := List.pairwise_map.mp h.ids
      refine hids.imp_of_mem fun {x y} hx hy hne f hf g hg heq => hne ?_
      have h1 : f.packetId = g.packetId := congrArg Prod.fst heq
      rwa [((h.cut x hx).cuts.part f hf).packetId, ((h.cut y hy).cuts.part g hg).packetId] at h1
  exact List.pairwise_map.mpr hpair

theorem eq_of_tiles (h : Stream sent) {gs : List Frame} {id : UInt32} {packet : Packet}
    (hgs : ∀ g ∈ gs, g ∈ stream sent ∧ g.packetId = id) (ht : Tiles gs packet) (hne : gs ≠ []) :
    ∃ x ∈ sent, x.id = id ∧ x.packet = packet := by
  obtain ⟨g, hg⟩ := List.exists_mem_of_ne_nil _ hne
  obtain ⟨x, hx, _, hpart⟩ := h.part (hgs g hg).1
  have hid : x.id = id := by rw [← hpart.packetId, (hgs g hg).2]
  have hlen : packet.length = x.packet.length := by
    rw [← (ht.frames g hg).1, hpart.totalLen]
  refine ⟨x, hx, hid, (ht.tiling.eq hlen ?_).symm⟩
  rw [List.forall_mem_map]
  intro g' hg'
  obtain ⟨y, hy, _, hpart'⟩ := h.part (hgs g' hg').1
  have : y = x := h.eq_of_id hy hx (by rw [← hpart'.packetId, (hgs g' hg').2, hid])
  rw [← this]
  exact hpart'.agrees

end Stream

/-! ## Packets completed so far -/

/-- `frames` have been met and `out` completed. -/
structure Delivered (sent : List Sending) (frames : List Frame) (out : List (UInt32 × Packet))
    (r : Reassembler) : Prop where
  sound : Sound frames r
  sent : ∀ d ∈ out, ∃ x ∈ sent, d = (x.id, x.packet)
  first : ∀ d ∈ out, (d.1, 0) ∈ frames.map Frame.key
  once : (out.map Prod.fst).Nodup
  unused : ∀ id p, r.pending.get? id = some p → ∀ c ∈ p.chunks, c.offset = 0 →
    id ∉ out.map Prod.fst

theorem Reassembler.accept_pending (r : Reassembler) (f : Frame) (now : Nat) {k : UInt32}
    {q : PendingPacket} (h : (r.accept f now).1.pending.get? k = some q) :
    (r.pending.get? k = some q ∧ ∀ packet, (r.accept f now).2 = .ok (some packet) →
      k ≠ f.packetId) ∨
    k = f.packetId ∧ (r.accept f now).2 = .ok none ∧
      ∀ c ∈ q.chunks, c = f.chunk ∨ ∃ p, r.pending.get? k = some p ∧ c ∈ p.chunks := by
  have heff := r.accept_effect f now
  generalize r.accept f now = step at heff h
  obtain ⟨r', res⟩ := step
  have hremoved : ∀ {base : Reassembler}, (base.remove f.packetId).pending.get? k = some q →
      k ≠ f.packetId ∧ base.pending.get? k = some q := by
    intro base hq
    rw [get?_remove] at hq
    split at hq
    · cases hq
    · next hk => exact ⟨hk, hq⟩
  cases heff with
  | whole _ hnone =>
    refine .inl ⟨h, fun packet _ hk => ?_⟩
    rw [hk, hnone] at h
    cases h
  | repeated | refused e => exact .inl ⟨h, fun packet hp => by cases hp⟩
  | dropped e => exact .inl ⟨(hremoved h).2, fun packet hp => by cases hp⟩
  | stored _ hs hst =>
    cases hst with
    | full =>
      obtain ⟨hk, hq⟩ := hremoved h
      exact .inl ⟨by rw [← hs.get?_ne hk]; exact hq, fun packet hp => by cases hp⟩
    | complete =>
      obtain ⟨hk, hq⟩ := hremoved h
      exact .inl ⟨by rw [← hs.get?_ne hk]; exact hq, fun _ _ => hk⟩
    | kept =>
      dsimp only at h
      rw [KeyMap.get?_insert] at h
      split at h
      · next hk =>
        cases h
        subst hk
        refine .inr ⟨rfl, rfl, fun c hc => ?_⟩
        rcases List.mem_append.mp hc with hc | hc
        · cases hs with
          | found hp => exact .inr ⟨_, hp, hc⟩
          | fresh => cases hc
        · exact .inl (List.mem_singleton.mp hc)
      · next hk => exact .inl ⟨by rw [← hs.get?_ne hk]; exact h, fun packet hp => by cases hp⟩

namespace Delivered

variable {sent : List Sending} {frames : List Frame} {out : List (UInt32 × Packet)}
  {r : Reassembler} {f : Frame} {now : Nat}

theorem not_mem_of_first (h : Delivered sent frames out r)
    (hnodup : ((frames ++ [f]).map Frame.key).Nodup) (h0 : f.offset = 0) :
    f.packetId ∉ out.map Prod.fst := by
  intro hmem
  obtain ⟨d, hd, hid⟩ := List.mem_map.mp hmem
  have hkey := h.first d hd
  rw [List.map_append, List.nodup_append] at hnodup
  exact hnodup.2.2 _ hkey f.key (by simp) (by rw [Frame.key, hid, h0])

/-- **A completed packet is one of the stream, completed for the first time.** -/
theorem completes (h : Delivered sent frames out r) (hsent : Stream sent)
    (hframes : ∀ g ∈ frames ++ [f], g ∈ stream sent)
    (hnodup : ((frames ++ [f]).map Frame.key).Nodup) {packet : Packet}
    (hc : Completes (frames ++ [f]) r f packet) :
    (∃ x ∈ sent, x.id = f.packetId ∧ x.packet = packet) ∧ f.packetId ∉ out.map Prod.fst ∧
      (f.packetId, 0) ∈ (frames ++ [f]).map Frame.key := by
  have hf : f ∈ stream sent := hframes f (by simp)
  rcases hc with ⟨hw, rfl⟩ | ⟨_, p, gs, hp, _, hchunks, hgs, ht⟩
  · obtain ⟨x, hx, hwf, hpart⟩ := hsent.part hf
    have htile := tiles_whole hwf hw
    refine ⟨hsent.eq_of_tiles (by simp [hf]) htile (by simp),
      h.not_mem_of_first hnodup hw.1, ?_⟩
    exact List.mem_map.mpr ⟨f, by simp, by rw [Frame.key, hw.1]⟩
  · have hne : gs ≠ [] := by
      rintro rfl
      simp at hchunks
    have hpk := hsent.eq_of_tiles (fun g hg => ⟨hframes g (hgs g hg).1, (hgs g hg).2⟩) ht hne
    obtain ⟨x, hx, hid, rfl⟩ := hpk
    obtain ⟨q, hq, h0, _⟩ := ht.tiling.cover 0 (hsent.cut x hx).nonempty
    obtain ⟨g, hg, rfl⟩ := List.mem_map.mp hq
    have hg0 : g.offset = 0 := Nat.le_zero.mp h0
    refine ⟨⟨x, hx, hid, rfl⟩, ?_, ?_⟩
    · -- the first byte came with this frame or is still unused in the table
      have hmem : g.chunk ∈ p.chunks ++ [f.chunk] := by
        rw [hchunks]
        exact List.mem_map_of_mem hg
      rcases List.mem_append.mp hmem with hmem | hmem
      · exact h.unused _ p hp _ hmem hg0
      · have hfg : g.chunk = f.chunk := List.mem_singleton.mp hmem
        refine h.not_mem_of_first hnodup ?_
        rw [← hg0]
        exact (congrArg Chunk.offset hfg).symm
    · exact List.mem_map.mpr ⟨g, (hgs g hg).1, by rw [Frame.key, (hgs g hg).2, hg0]⟩

/-- **A pass over a frame met for the first time.** -/
theorem accept (h : Delivered sent frames out r) (now : Nat) (hsent : Stream sent)
    (hframes : ∀ g ∈ frames ++ [f], g ∈ stream sent)
    (hnodup : ((frames ++ [f]).map Frame.key).Nodup) :
    Delivered sent (frames ++ [f]) (out ++ Reassembler.completed f (r.accept f now).2)
      (r.accept f now).1 := by
  obtain ⟨x, _, hwf, _⟩ := hsent.part (hframes f (by simp))
  obtain ⟨hsound, hpk⟩ := h.sound.accept hwf now
  have hfirst : ∀ d ∈ out, (d.1, 0) ∈ (frames ++ [f]).map Frame.key := fun d hd => by
    rw [List.map_append]
    exact List.mem_append_left _ (h.first d hd)
  have hpending := fun k q => Reassembler.accept_pending r f now (k := k) (q := q)
  have hold : ∀ k q, (r.accept f now).1.pending.get? k = some q → ∀ c ∈ q.chunks, c.offset = 0 →
      k ∉ out.map Prod.fst := by
    intro k q hq c hc h0
    rcases hpending k q hq with ⟨hq', _⟩ | ⟨rfl, _, hall⟩
    · exact h.unused k q hq' c hc h0
    · rcases hall c hc with rfl | ⟨p, hp, hcp⟩
      · exact h.not_mem_of_first hnodup h0
      · exact h.unused _ p hp c hcp h0
  cases hres : (r.accept f now).2 with
  | error e => simpa [Reassembler.completed] using ⟨hsound, h.sent, hfirst, h.once, hold⟩
  | ok o =>
    cases o with
    | none => simpa [Reassembler.completed] using ⟨hsound, h.sent, hfirst, h.once, hold⟩
    | some packet =>
      obtain ⟨⟨x, hx, hid, hxp⟩, hnew, hkey⟩ := h.completes hsent hframes hnodup (hpk packet hres)
      simp only [Reassembler.completed]
      refine ⟨hsound, ?_, ?_, ?_, ?_⟩
      · rw [forall_mem_snoc]
        exact ⟨h.sent, x, hx, by rw [hid, hxp]⟩
      · rw [forall_mem_snoc]
        exact ⟨hfirst, hkey⟩
      · rw [List.map_append, List.nodup_append]
        refine ⟨h.once, by simp, fun a ha b hb => ?_⟩
        obtain rfl : b = f.packetId := by simpa using hb
        rintro rfl
        exact hnew ha
      · intro k q hq c hc h0
        have hk : k ≠ f.packetId := by
          rcases hpending k q hq with ⟨_, hk⟩ | ⟨_, hnone, _⟩
          · exact hk packet hres
          · rw [hres] at hnone
            cases hnone
        have := hold k q hq c hc h0
        simp only [List.map_append, List.mem_append, not_or]
        exact ⟨this, by simpa using hk⟩

theorem expire (h : Delivered sent frames out r) (now : Nat) :
    Delivered sent frames out (r.expire now) := by
  have hsub : ∀ (ids : List UInt32) (r : Reassembler) k q,
      (ids.foldl Reassembler.remove r).pending.get? k = some q → r.pending.get? k = some q := by
    intro ids
    induction ids with
    | nil => exact fun r k q hq => hq
    | cons id ids ih =>
      intro r k q hq
      have := ih _ k q hq
      rw [Reassembler.get?_remove] at this
      split at this
      · cases this
      · exact this
  exact { h with
    sound := h.sound.expire now
    unused := fun k q hq => h.unused k q (hsub _ r k q hq) }

/-- **A record of the stream, decoded at any time.** -/
theorem decode {rec : List Frame} (h : Delivered sent frames out r) (hsent : Stream sent)
    (hframes : ∀ g ∈ frames ++ rec, g ∈ stream sent)
    (hnodup : ((frames ++ rec).map Frame.key).Nodup) (now : Nat) :
    ∃ done D, done <+: rec ∧
      Delivered sent (frames ++ done) (out ++ D) (r.decodeWithAt (envelope rec) now).1 ∧
      (r.decodeWithAt (envelope rec) now).2.1.Sublist (D.map Prod.snd) := by
  have hread : framesOf r.config (envelope rec) <+: rec :=
    framesOf_envelope_prefix r.config fun f hf => by
      obtain ⟨_, _, hwf, _⟩ := hsent.part (hframes f (List.mem_append_right _ hf))
      exact hwf
  obtain ⟨done, D, h1, h2, h3, h4⟩ := Reassembler.decodeWithAt_induct r (envelope rec) now
    (P := fun done D r' => Delivered sent (frames ++ done) (out ++ D) r')
    (by simpa using h.expire now) (Reassembler.config_expire r now) (by
      intro done D r' f hpre hP
      have hle : frames ++ done ++ [f] <+: frames ++ rec := by
        rw [List.append_assoc]
        exact (List.prefix_append_right_inj _).mpr (hpre.trans hread)
      have hkeys : ((frames ++ done ++ [f]).map Frame.key).Nodup :=
        (hle.sublist.map Frame.key).nodup hnodup
      simpa using hP.accept now hsent (fun g hg => hframes g (hle.subset hg)) hkeys)
  refine ⟨done, D, h1.trans hread, h2, ?_⟩
  by_cases hres : (r.decodeWithAt (envelope rec) now).2.2 = .ok ()
  · rw [h3 hres]
  · rw [h4 hres]
    exact List.nil_sublist _

theorem feed {recs : List (List Frame)} {inputs : List (Record × Nat)}
    (h : Delivered sent frames out r) (hsent : Stream sent)
    (hframes : ∀ g ∈ frames ++ recs.flatten, g ∈ stream sent)
    (hnodup : ((frames ++ recs.flatten).map Frame.key).Nodup)
    (hinputs : inputs.map Prod.fst = recs.map envelope) :
    ∃ frames' D, Delivered sent frames' (out ++ D) (r.feed inputs).1 ∧
      ((r.feed inputs).2.map Prod.fst).flatten.Sublist (D.map Prod.snd) := by
  induction inputs generalizing r recs frames out with
  | nil => exact ⟨frames, [], by simpa [Reassembler.feed] using h, by simp [Reassembler.feed]⟩
  | cons input inputs ih =>
    obtain ⟨record, now⟩ := input
    cases recs with
    | nil => simp at hinputs
    | cons rec recs =>
      simp only [List.map_cons, List.cons.injEq] at hinputs
      obtain ⟨rfl, hinputs⟩ := hinputs
      rw [List.flatten_cons, ← List.append_assoc] at hframes hnodup
      have hle : (frames ++ rec).Sublist (frames ++ rec ++ recs.flatten) :=
        List.sublist_append_left _ _
      obtain ⟨done, D, hdone, hdel, hout⟩ := h.decode hsent
        (fun g hg => hframes g (hle.subset hg)) ((hle.map Frame.key).nodup hnodup) now
      have hle' : (frames ++ done ++ recs.flatten).Sublist (frames ++ rec ++ recs.flatten) :=
        ((List.Sublist.refl frames).append hdone.sublist).append (List.Sublist.refl _)
      obtain ⟨frames', D', hdel', hout'⟩ := ih hdel (fun g hg => hframes g (hle'.subset hg))
        ((hle'.map Frame.key).nodup hnodup) hinputs
      refine ⟨frames', D ++ D', by simpa [Reassembler.feed] using hdel', ?_⟩
      simpa [Reassembler.feed] using hout.append hout'

end Delivered

/-! ## Any order, any loss -/

theorem exists_of_perm_map {α β : Type*} {f : α → β} {l : List α} {m : List β}
    (h : (l.map f).Perm m) : ∃ k : List α, m = k.map f ∧ l.Perm k := by
  generalize hl : l.map f = l' at h
  induction h generalizing l with
  | nil => exact ⟨[], rfl, by rw [List.map_eq_nil_iff.mp hl]⟩
  | cons x _ ih =>
    obtain ⟨a, l, rfl, rfl, htail⟩ := List.map_eq_cons_iff.mp hl
    obtain ⟨k, rfl, hk⟩ := ih htail
    exact ⟨a :: k, rfl, hk.cons a⟩
  | swap x y _ =>
    obtain ⟨b, l, rfl, rfl, htail⟩ := List.map_eq_cons_iff.mp hl
    obtain ⟨a, l, rfl, rfl, rfl⟩ := List.map_eq_cons_iff.mp htail
    exact ⟨a :: b :: l, rfl, .swap a b l⟩
  | trans _ _ ih₁ ih₂ =>
    obtain ⟨k, hk, hlk⟩ := ih₁ hl
    obtain ⟨k', rfl, hkk⟩ := ih₂ hk.symm
    exact ⟨k', rfl, hlk.trans hkk⟩

theorem exists_of_subperm_map {α β : Type*} {f : α → β} {l : List α} {m : List β}
    (h : m.Subperm (l.map f)) : ∃ k : List α, m = k.map f ∧ k.Subperm l := by
  obtain ⟨m', hperm, hsub⟩ := h
  obtain ⟨k, hk, rfl⟩ := List.sublist_map_iff.mp hsub
  obtain ⟨k', rfl, hk'⟩ := exists_of_perm_map hperm
  exact ⟨k', rfl, k, hk', hk⟩

open Recordizer in
/-- **A carrier that loses and reorders.** For any configurations and any calls
that return, with fewer than 2³² pushes: whatever records arrive, in whatever
order and at whatever times, each at most once, the packets handed over are
pushed packets, and none is handed over twice. -/
theorem mux_at_most_once {config rc : RuntimeConfig} {id : UInt32} {rng : Nat → RecordDraw}
    {calls : List Call} {s : Recordizer} {events : List (Call × Reply)}
    (hrun : (Recordizer.new config id rng).runCalls calls = some (s, events))
    (hpushes : pushCount calls < 2 ^ 32) {inputs : List (Record × Nat)}
    (hinputs : (inputs.map Prod.fst).Subperm (sentRecords events)) :
    (((Reassembler.new rc).feed inputs).2.map Prod.fst).flatten.Subperm
      (acceptedPackets events) := by
  have hstart : (Recordizer.new config id rng).Holds none := ⟨rfl, rfl⟩
  obtain ⟨cur, recs, sent, hst⟩ := runCalls_stretch (Q := fun _ => True)
    hstart trivial (fun _ _ _ _ => trivial) hrun
  have hstream : Stream sent := ⟨hst.cut, hst.ids_nodup (by omega)⟩
  rw [hst.records] at hinputs
  obtain ⟨gs, hgs, hsub⟩ := exists_of_subperm_map hinputs
  have hframes : gs.flatten.Subperm (stream sent) := by
    obtain ⟨gs', hperm, hsub'⟩ := hsub
    have horder : stream sent = recs.flatten ++ cur.getD [] := by simpa using hst.order
    rw [horder]
    exact ⟨gs'.flatten, hperm.flatten, hsub'.flatten.trans (List.sublist_append_left _ _)⟩
  have hnodup : (gs.flatten.map Frame.key).Nodup := by
    obtain ⟨l, hperm, hsub'⟩ := hframes
    exact (hperm.map _).nodup_iff.mp ((hsub'.map _).nodup hstream.nodup_keys)
  have hstart : Delivered sent [] [] (.new rc) :=
    ⟨.new rc, by simp, by simp, by simp, fun id p h => by simp [Reassembler.new] at h⟩
  obtain ⟨_, D, hdel, hout⟩ := hstart.feed hstream
    (fun g hg => hframes.subset (by simpa using hg)) (by simpa using hnodup) hgs
  rw [List.nil_append] at hdel
  have hD : D.Subperm (sent.map fun x => (x.id, x.packet)) := by
    refine List.subperm_of_subset (List.Nodup.of_map Prod.fst hdel.once) fun d hd => ?_
    obtain ⟨x, hx, rfl⟩ := hdel.sent d hd
    exact List.mem_map_of_mem hx
  obtain ⟨D', hperm, hsub'⟩ := hD
  have hpk : (D.map Prod.snd).Subperm (acceptedPackets events) := by
    refine ⟨D'.map Prod.snd, hperm.map _, ?_⟩
    rw [hst.packets]
    simpa [List.map_map, Function.comp_def] using hsub'.map Prod.snd
  exact hout.subperm.trans hpk

/-- Two packets, the first in two records, delivered in reverse. -/
theorem mux_at_most_once_reversed :
    let config := { narrowConfig with maxPayloadBytes := 20 }
    let packet : Packet := [1, 2, 3, 4, 5, 6, 7, 8]
    ∃ s events, (Recordizer.new config 7 fun _ => ⟨true, 0, 0, 0, 0⟩).runCalls
        [.push packet 0, .push [9] 1] = some (s, events) ∧
      let handed := (((Reassembler.new config).feed
        ((sentRecords events).reverse.map (·, 5))).2.map Prod.fst).flatten
      handed = [[9], packet] ∧ handed.Subperm (acceptedPackets events) := by
  intro config packet
  have heval : ((Recordizer.new config 7 fun _ => ⟨true, 0, 0, 0, 0⟩).runCalls
      [.push packet 0, .push [9] 1]).map (fun r => (((Reassembler.new config).feed
        ((sentRecords r.2).reverse.map (·, 5))).2.map Prod.fst).flatten) =
      some [[9], packet] := by decide +kernel
  cases hrun : (Recordizer.new config 7 fun _ => ⟨true, 0, 0, 0, 0⟩).runCalls
      [.push packet 0, .push [9] 1] with
  | none => simp [hrun] at heval
  | some r =>
    obtain ⟨s, events⟩ := r
    rw [hrun] at heval
    refine ⟨s, events, rfl, by simpa using heval, ?_⟩
    refine mux_at_most_once hrun (by decide) ?_
    simpa [List.map_map, Function.comp_def] using (List.reverse_perm (sentRecords events)).subperm

end Qeli.Mux
