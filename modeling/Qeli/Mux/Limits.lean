import Qeli.Mux.Calls
import Qeli.Packet.Budget

/-!
# The limits of a record

`Bounded Q Own s ready`: the ready records and the pending one hold at least one frame,
no more frames than a configuration allows that has `Q` with the last of them, and no more
bytes than the present configuration does. The present configuration has `Q` with the
frames of `Own`, those of the packet being pushed. Between two passes of the loop of
`push` there may be a record that is only begun (`Opened`); it has room, so it is never
what a pass flushes.
With the frames of `Mux.Cutting` this says what a push does with fragmentation
enabled: it refuses the packet before it changes anything, or it cuts all of it.
-/

namespace Qeli.Mux

open Qeli.Lib

namespace Recordizer

variable {Q : RuntimeConfig → Frame → Prop} {Own : Frame → Prop} {s t : Recordizer}
  {ready : List Record} {fs : List Frame}

structure Within (Q : RuntimeConfig → Frame → Prop) (limit : Nat) (fs : List Frame) : Prop where
  wellFormed : ∀ f ∈ fs, f.WellFormed
  bytes : (envelope fs).length ≤ limit
  packets : ∀ f ∈ fs.getLast?, ∃ c, Q c f ∧ fs.length ≤ c.maxPackets

theorem Within.mono {limit limit' : Nat} (h : Within Q limit fs) (hle : limit ≤ limit') :
    Within Q limit' fs :=
  { h with bytes := h.bytes.trans hle }

/-- A record of one frame or more. -/
def RecordWithin (Q : RuntimeConfig → Frame → Prop) (limit : Nat) (record : Record) : Prop :=
  ∃ fs, fs ≠ [] ∧ record = envelope fs ∧ Within Q limit fs

theorem RecordWithin.mono {limit limit' : Nat} {record : Record} (h : RecordWithin Q limit record)
    (hle : limit ≤ limit') : RecordWithin Q limit' record := by
  obtain ⟨fs, hne, heq, hwithin⟩ := h
  exact ⟨fs, hne, heq, hwithin.mono hle⟩

structure Fills (Q : RuntimeConfig → Frame → Prop) (s : Recordizer) (fs : List Frame) : Prop where
  current : s.current = envelope fs
  counted : s.currentPackets = fs.length
  target : s.currentTarget ≤ s.config.maxPayloadBytes
  within : Within Q s.currentTarget fs

/-- What does not change while a record is filled. -/
structure Keeps (Q : RuntimeConfig → Frame → Prop) (Own : Frame → Prop) (s : Recordizer)
    (ready : List Record) : Prop where
  own : ∀ f, Own f → Q s.config f
  packets : 1 ≤ s.config.maxPackets
  payload : minRecordPayload ≤ s.config.maxPayloadBytes
  ready : ∀ record ∈ ready, RecordWithin Q s.config.maxPayloadBytes record

structure Bounded (Q : RuntimeConfig → Frame → Prop) (Own : Frame → Prop) (s : Recordizer)
    (ready : List Record) : Prop extends Keeps Q Own s ready where
  pending : s.Holds none ∨ ∃ fs, fs ≠ [] ∧ Fills Q s fs

/-- A record is open, and has room if it is new. -/
structure Opened (Q : RuntimeConfig → Frame → Prop) (Own : Frame → Prop) (s : Recordizer)
    (ready : List Record) (fs : List Frame) : Prop extends Keeps Q Own s ready where
  fills : Fills Q s fs
  room : fs = [] → minRecordPayload ≤ s.currentTarget

/-! ## Operations -/

theorem Keeps.of_config (h : Keeps Q Own s ready) (hc : t.config = s.config) :
    Keeps Q Own t ready where
  own := by rw [hc]; exact h.own
  packets := by rw [hc]; exact h.packets
  payload := by rw [hc]; exact h.payload
  ready := by rw [hc]; exact h.ready

theorem Bounded.holds (h : Bounded Q Own s ready) : ∃ cur, s.Holds cur ∧ cur ≠ some [] := by
  rcases h.pending with hnone | ⟨fs, hne, hfills⟩
  · exact ⟨none, hnone, by simp⟩
  · exact ⟨some fs, hfills.current, by simpa using hne⟩

theorem Opened.bounded (h : Opened Q Own s ready fs) (hne : fs ≠ []) : Bounded Q Own s ready :=
  { h.toKeeps with pending := .inr ⟨fs, hne, h.fills⟩ }

theorem Bounded.flushInto (h : Bounded Q Own s ready) :
    Bounded Q Own (s.flushInto ready).1 (s.flushInto ready).2 ∧
      (s.flushInto ready).1.Holds none := by
  have hc : (s.flushInto ready).1.config = s.config := config_flush s
  have hkeeps := h.toKeeps.of_config hc
  rcases h.pending with hnone | ⟨fs, hne, hfills⟩
  · obtain ⟨hidle, hrecord⟩ := hnone.flush
    have hready : (s.flushInto ready).2 = ready := by simp [Recordizer.flushInto, hrecord]
    rw [hready]
    exact ⟨{ hkeeps with pending := .inl hidle }, hidle⟩
  · have hholds : s.Holds (some fs) := hfills.current
    obtain ⟨hidle, hrecord⟩ := hholds.flush
    have hready : (s.flushInto ready).2 = ready ++ [envelope fs] := by
      simp [Recordizer.flushInto, hrecord]
    rw [hready]
    refine ⟨{ hkeeps with pending := .inl hidle, ready := ?_ }, hidle⟩
    rw [forall_mem_snoc]
    refine ⟨hkeeps.ready, fs, hne, rfl, ?_⟩
    rw [hc]
    exact hfills.within.mono hfills.target

theorem chooseTarget_le (config : RuntimeConfig) (draw : RecordDraw) :
    chooseTarget config draw ≤ config.maxPayloadBytes := by
  unfold chooseTarget
  split
  · exact Nat.le_refl _
  · dsimp only
    generalize hlo : min (max draw.rawMin minRecordPayload) config.maxPayloadBytes = lo
    generalize hhi : min (max draw.rawMax lo) config.maxPayloadBytes = hi
    have hlt : draw.target % (hi - lo + 1) < hi - lo + 1 := Nat.mod_lt _ (Nat.succ_pos _)
    omega

theorem Keeps.opened (h : Keeps Q Own s ready) (hholds : s.Holds (some []))
    (hcount : s.currentPackets = 0) (htarget : s.currentTarget ≤ s.config.maxPayloadBytes)
    (hroom : minRecordPayload ≤ s.currentTarget) : Opened Q Own s ready [] := by
  refine { h with fills := ⟨hholds, hcount, htarget, by simp, ?_, by simp⟩, room := fun _ => hroom }
  have hmagic : (envelope []).length ≤ minRecordPayload := by decide
  exact hmagic.trans hroom

theorem Bounded.ensureRecord (h : Bounded Q Own s ready) (now : Nat) :
    ∃ fs, Opened Q Own (s.ensureRecord now) ready fs := by
  rcases h.pending with hnone | ⟨fs, hne, hfills⟩
  · obtain ⟨hholds, hcount, hroom⟩ := ensureRecord_of_idle hnone now
    have hkeeps := h.toKeeps.of_config (config_ensureRecord s now)
    refine ⟨[], hkeeps.opened hholds hcount ?_ (hroom h.payload)⟩
    unfold Recordizer.ensureRecord
    rw [if_pos (by rw [hnone.1]; rfl)]
    exact chooseTarget_le _ _
  · rw [ensureRecord_of_some (show s.Holds (some fs) from hfills.current)]
    exact ⟨fs, { h.toKeeps with fills := hfills, room := fun h => absurd h hne }⟩

theorem Opened.raiseTarget (h : Opened Q Own s ready fs) :
    Opened Q Own { s with currentTarget := s.config.maxPayloadBytes } ready fs :=
  { h.toKeeps with
    fills :=
      { h.fills with target := Nat.le_refl _, within := h.fills.within.mono h.fills.target }
    room := fun _ => h.payload }

theorem Bounded.openRecord (h : Bounded Q Own s ready) (tight : Bool) (now : Nat) :
    ∃ fs, Opened Q Own (s.openRecord tight now ready).1 (s.openRecord tight now ready).2 fs := by
  cases tight with
  | false => simpa [Recordizer.openRecord] using h.ensureRecord now
  | true =>
    unfold Recordizer.openRecord
    by_cases hpending : s.current.isEmpty
    · rw [if_neg (by simpa using hpending)]
      obtain ⟨fs, hopened⟩ := h.ensureRecord now
      exact ⟨fs, hopened.raiseTarget⟩
    · rw [if_pos ⟨rfl, by simpa using hpending⟩]
      obtain ⟨fs, hopened⟩ := h.flushInto.1.ensureRecord now
      exact ⟨fs, hopened.raiseTarget⟩

theorem Opened.flushInto (h : Opened Q Own s ready fs)
    (hfull : s.config.maxPackets ≤ s.currentPackets ∨
      s.currentTarget - s.current.length ≤ frameHeaderLen) :
    Bounded Q Own (s.flushInto ready).1 (s.flushInto ready).2 := by
  refine (h.bounded ?_).flushInto.1
  rintro rfl
  have hpackets := h.packets
  have hroom := h.room rfl
  have hcount : s.currentPackets = 0 := h.fills.counted
  rw [h.fills.current, hcount] at hfull
  simp only [envelope, List.map_nil, List.flatten_nil, List.append_nil] at hfull
  unfold minRecordPayload at hroom
  omega

theorem length_envelope_snoc (fs : List Frame) (f : Frame) :
    (envelope (fs ++ [f])).length =
      (envelope fs).length + frameHeaderLen + f.payload.length := by
  simp [envelope, Nat.add_assoc]

theorem Opened.append (h : Opened Q Own s ready fs) {f : Frame} (hown : Own f) (hf : f.WellFormed)
    (hcount : s.currentPackets < s.config.maxPackets)
    (hfits : s.current.length + frameHeaderLen + f.payload.length ≤ s.currentTarget) :
    Bounded Q Own (s.append f) ready := by
  refine { h.toKeeps with pending := .inr ⟨fs ++ [f], by simp, ?_, ?_, h.fills.target, ?_⟩ }
  · simp [Recordizer.append, h.fills.current, envelope]
  · simp [Recordizer.append, h.fills.counted]
  · rw [h.fills.current] at hfits
    rw [h.fills.counted] at hcount
    refine ⟨forall_mem_snoc.mpr ⟨h.fills.within.wellFormed, hf⟩, ?_, fun last hlast => ?_⟩
    · rw [length_envelope_snoc]
      exact hfits
    · obtain rfl : f = last := by simpa using hlast
      refine ⟨s.config, h.own f hown, ?_⟩
      rw [List.length_append]
      exact hcount

/-! ## A push -/

variable {packet : Packet} {now : Nat} {res : Except RecordizerError (List Record)}
  {id : UInt32} {c : Call} {calls : List Call} {config : RuntimeConfig}

/-- **A pass keeps to the limits.** -/
theorem fragmentPass_bounded {loop loop' : FragmentLoop}
    (hid : ∀ f : Frame, f.packetId = id → Own f) (hlen : packet.length ≤ u16Max)
    (hin : loop.offset < packet.length) (h : Bounded Q Own loop.self loop.ready)
    (hpass : fragmentPass packet id now loop = .ok loop') :
    Bounded Q Own loop'.self loop'.ready := by
  unfold fragmentPass at hpass
  dsimp only at hpass
  split at hpass
  · cases hpass
  · obtain ⟨fs, hopened⟩ := h.openRecord
      (decide (loop.self.config.minimumFragments (packet.length - loop.offset) =
        loop.self.config.maxFragmentsPerPacket - loop.fragmentCount)) now
    generalize loop.self.openRecord _ now loop.ready = opened at hpass hopened
    obtain ⟨s, ready⟩ := opened
    dsimp only at hpass hopened
    split at hpass
    · next hfull =>
      cases hpass
      exact hopened.flushInto hfull
    · next hroom =>
      split at hpass
      · next hnone => unfold u16Max at hnone; omega
      · next htake =>
        generalize hn : min (min (s.currentTarget - s.current.length - frameHeaderLen)
          (packet.length - loop.offset)) u16Max = n at hpass htake
        have hwf : Frame.WellFormed
            ⟨id, packet.length, loop.offset, (packet.drop loop.offset).take n⟩ := by
          refine ⟨hlen, ?_, ?_⟩ <;>
            simp only [List.length_take, List.length_drop] <;> omega
        have hfits : s.current.length + frameHeaderLen +
            ((packet.drop loop.offset).take n).length ≤ s.currentTarget := by
          simp only [List.length_take, List.length_drop]
          omega
        have happend := hopened.append (hid _ rfl) hwf (by omega) hfits
        generalize s.append _ = u at hpass happend
        cases hpass
        dsimp only
        split
        · exact happend.flushInto.1
        · exact happend

theorem Bounded.drop (h : Bounded Q Own s ready) : Bounded Q Own s [] :=
  { h with ready := by simp }

theorem pushFragments_bounded {fuel : Nat} {loop : FragmentLoop}
    (hid : ∀ f : Frame, f.packetId = id → Own f) (hlen : packet.length ≤ u16Max)
    (h : Bounded Q Own loop.self loop.ready)
    (hres : pushFragments packet id now fuel loop = some (t, res)) :
    Bounded Q Own t (Reply.records (.pushed res)) := by
  induction fuel generalizing loop with
  | zero => cases hres
  | succ fuel ih =>
    unfold pushFragments at hres
    split at hres
    · next hin =>
      split at hres
      · cases hres
        exact h.drop
      · next loop' hpass => exact ih (fragmentPass_bounded hid hlen hin h hpass) hres
    · cases hres
      exact h

theorem pushWhole_bounded (packet : Packet) (now : Nat) (hid : ∀ f : Frame, f.packetId = id → Own f)
    (hpos : 0 < packet.length) (hlen : packet.length ≤ u16Max) (h : Bounded Q Own s []) :
    Bounded Q Own (s.pushWhole packet id now).1
      (Reply.records (.pushed (s.pushWhole packet id now).2)) := by
  have hwf : Frame.WellFormed ⟨id, packet.length, 0, packet⟩ :=
    ⟨hlen, hpos, Nat.le_of_eq (Nat.zero_add _)⟩
  unfold pushWhole
  split
  · exact h
  · next hfits =>
    obtain ⟨fs, hopened⟩ := h.ensureRecord now
    have hpackets := hopened.packets
    have hc : (s.ensureRecord now).config = s.config := config_ensureRecord s now
    generalize s.ensureRecord now = u at hopened hpackets hc
    dsimp only
    split
    · next hfirst =>
      -- the first frame of a record has all of it
      obtain rfl : fs = [] := List.eq_nil_of_length_eq_zero (hopened.fills.counted ▸ hfirst.1)
      refine hopened.raiseTarget.append (hid _ rfl) hwf ?_ ?_
      · change u.currentPackets < u.config.maxPackets
        omega
      · have hcur : u.current.length = magic.length := by rw [hopened.fills.current]; rfl
        change u.current.length + frameHeaderLen + packet.length ≤ u.config.maxPayloadBytes
        rw [hcur, hc]
        omega
    · next hfirst =>
      split
      · next hnext =>
        have hne : fs ≠ [] := by
          rintro rfl
          have hcount : u.currentPackets = 0 := hopened.fills.counted
          omega
        obtain ⟨hflushed, hidle⟩ := (hopened.bounded hne).flushInto
        have hc' : (u.flushInto []).1.config = s.config := (config_flush u).trans hc
        obtain ⟨hholds, hcount, hroom⟩ := ensureRecord_of_idle hidle now
        obtain ⟨gs, hopened'⟩ := hflushed.ensureRecord now
        obtain rfl : gs = [] :=
          List.eq_nil_of_length_eq_zero (hopened'.fills.counted ▸ hcount)
        have hcur : ((u.flushInto []).1.ensureRecord now).current.length = magic.length := by
          rw [hopened'.fills.current]
          rfl
        have hconfig : ((u.flushInto []).1.ensureRecord now).config = s.config :=
          (config_ensureRecord _ _).trans hc'
        generalize (u.flushInto []).1.ensureRecord now = v at hopened' hcount hcur hconfig
        refine hopened'.raiseTarget.append (hid _ rfl) hwf ?_ ?_
        · change v.currentPackets < v.config.maxPackets
          rw [hcount]
          exact hopened'.packets
        · change v.current.length + frameHeaderLen + packet.length ≤ v.config.maxPayloadBytes
          rw [hcur, hconfig]
          omega
      · next hnext =>
        refine hopened.append (hid _ rfl) hwf (by omega) ?_
        change u.current.length + frameHeaderLen + packet.length ≤ u.currentTarget
        omega

theorem Bounded.takeId (h : Bounded Q Own s ready) :
    Bounded Q Own { s with nextPacketId := s.nextPacketId + 1 } ready := by
  refine { h.toKeeps with pending := ?_ }
  rcases h.pending with hnone | ⟨fs, hne, hfills⟩
  · exact .inl hnone
  · exact .inr ⟨fs, hne, { hfills with }⟩

/-- **A push keeps to the limits.** -/
theorem push_bounded (h : Bounded Q Own s [])
    (hid : ∀ f : Frame, f.packetId = s.nextPacketId → Own f)
    (hpush : s.push packet now = some (t, res)) : Bounded Q Own t (Reply.records (.pushed res)) := by
  unfold push at hpush
  split at hpush
  · cases hpush
    exact h
  · next hsize =>
    rw [List.isEmpty_iff_length_eq_zero] at hsize
    split at hpush
    · cases hpush
      exact h
    · have hframes : ∀ u r, pushFrames { s with nextPacketId := s.nextPacketId + 1 } packet
          s.nextPacketId now = some (u, r) → Bounded Q Own u (Reply.records (.pushed r)) := by
        intro u r hr
        unfold pushFrames at hr
        split at hr
        · exact pushFragments_bounded hid (by omega) h.takeId hr
        · have hwhole := pushWhole_bounded packet now hid (by omega) (by omega) h.takeId
          rwa [Option.some.inj hr] at hwhole
      dsimp only at hpush
      generalize pushFrames _ packet s.nextPacketId now = pushed at hpush hframes
      split at hpush
      · next u ready =>
        have hu := hframes u _ rfl
        split at hpush
        · cases hpush
          exact hu.flushInto.1
        · cases hpush
          exact hu
      · exact hframes t res hpush

/-- The size check at the start of `push`. -/
def Refuses (s : Recordizer) (packet : Packet) : Prop :=
  packet.length = 0 ∨ s.config.maxPacketBytes < packet.length ∨ u16Max < packet.length ∨
    s.config.maxFragmentsPerPacket < s.config.minimumFragments packet.length

theorem push_of_refuses (now : Nat) (hfrag : s.config.fragmentEnabled) (h : s.Refuses packet) :
    s.push packet now = some (s, .error .packetSize) := by
  unfold push
  split
  · rfl
  · next hsize =>
    rw [List.isEmpty_iff_length_eq_zero] at hsize
    unfold Refuses at h
    exact if_pos ⟨hfrag, by omega⟩

/-- No pass fails, so past the size check the push succeeds. -/
theorem push_ok {cur : Option (List Frame)} (hholds : s.Holds cur)
    (hfrag : s.config.fragmentEnabled) (h : ¬ s.Refuses packet)
    (hpush : s.push packet now = some (t, res)) : ∃ ready, res = .ok ready := by
  unfold Refuses at h
  have hmin : s.config.minimumFragments packet.length ≤ s.config.maxFragmentsPerPacket := by omega
  unfold push at hpush
  split at hpush
  · next hsize =>
    rw [List.isEmpty_iff_length_eq_zero] at hsize
    omega
  · split at hpush
    · next hmany => omega
    · dsimp only at hpush
      split at hpush
      · split at hpush <;>
        · cases hpush
          exact ⟨_, rfl⟩
      · next pushed _ _ =>
        have hfragments : pushFragments packet s.nextPacketId now (2 * packet.length + 2)
            ⟨{ s with nextPacketId := s.nextPacketId + 1 }, 0, 0, []⟩ = some (t, res) := by
          unfold pushFrames at hpush
          rwa [if_pos hfrag] at hpush
        obtain ⟨loop, -, -, -, rfl, -⟩ := pushFragments_cuts (by omega)
          (cutting_start hholds.takeId hmin) hfragments
        exact ⟨_, rfl⟩

/-- **With fragmentation enabled a push fails only by its size check.** -/
theorem push_fragmented {cur : Option (List Frame)} (hholds : s.Holds cur)
    (hfrag : s.config.fragmentEnabled) (hpush : s.push packet now = some (t, res)) :
    s.Refuses packet ∧ t = s ∧ res = .error .packetSize ∨
      ¬ s.Refuses packet ∧ ∃ ready recs cur' fs, res = .ok ready ∧
        Pushed s cur packet t ready recs cur' fs := by
  by_cases hrefused : s.Refuses packet
  · rw [push_of_refuses now hfrag hrefused] at hpush
    cases hpush
    exact .inl ⟨hrefused, rfl, rfl⟩
  · refine .inr ⟨hrefused, ?_⟩
    obtain ⟨ready, rfl⟩ := push_ok hholds hfrag hrefused hpush
    cases push_cases hholds hpush with
    | pushed hp => exact ⟨ready, _, _, _, rfl, hp⟩

/-! ## Runs -/

theorem Bounded.forOwn {Own' : Frame → Prop} (h : Bounded Q Own s ready)
    (hown : ∀ f, Own' f → Q s.config f) : Bounded Q Own' s ready :=
  { h with own := hown }

/-- Between two calls no packet is being pushed. -/
def Rests (Q : RuntimeConfig → Frame → Prop) (s : Recordizer) (ready : List Record) : Prop :=
  Bounded Q (fun _ => False) s ready

theorem Bounded.rests (h : Bounded Q Own s ready) : Rests Q s ready := h.forOwn fun _ => False.elim

theorem Rests.after (h : Rests Q s ready) {ready' : List Record} (h' : Rests Q t ready')
    (hle : s.config.maxPayloadBytes ≤ t.config.maxPayloadBytes) : Rests Q t (ready ++ ready') := by
  refine { h' with ready := fun record hrecord => ?_ }
  rcases List.mem_append.mp hrecord with hold | hnew
  · exact (h.ready record hold).mono hle
  · exact h'.ready record hnew

theorem flushed_rests {r : Recordizer × Option Record} (h : Rests Q s [])
    (hr : r = s.flush ∨ r = (s, none)) :
    Rests Q r.1 (Reply.records (.flushed r.2)) ∧ r.1.config = s.config := by
  rw [records_flushed]
  rcases hr with rfl | rfl
  · exact ⟨h.flushInto.1, config_flush s⟩
  · exact ⟨h, rfl⟩

/-- The configuration when the packet of a frame was pushed. -/
def PushedUnder (s : Recordizer) (calls : List Call) (config : RuntimeConfig) (f : Frame) : Prop :=
  ∃ before packet now after u events, calls = before ++ .push packet now :: after ∧
    s.runCalls before = some (u, events) ∧ u.config = config ∧ f.packetId = u.nextPacketId

theorem PushedUnder.cons {reply : Reply} {f : Frame} (hcall : s.call c = some (t, reply))
    (h : PushedUnder t calls config f) : PushedUnder s (c :: calls) config f := by
  obtain ⟨before, packet, now, after, u, events, rfl, hrun, hconfig, hid⟩ := h
  refine ⟨c :: before, packet, now, after, u, (c, reply) :: events, rfl, ?_, hconfig, hid⟩
  simp [runCalls, hcall, hrun]

/-- **A call keeps to the limits, and the ceiling does not sink.** -/
theorem call_rests {reply : Reply} (h : Rests Q s [])
    (hQ : ∀ config f, PushedUnder s [c] config f → Q config f)
    (hconf : ∀ config ∈ c.configs, 1 ≤ config.maxPackets) (hcall : s.call c = some (t, reply)) :
    Rests Q t (Reply.records reply) ∧ s.config.maxPayloadBytes ≤ t.config.maxPayloadBytes := by
  cases c with
  | push packet now =>
    simp only [call, Option.map_eq_some_iff, Prod.mk.injEq] at hcall
    obtain ⟨⟨t', res⟩, hp, rfl, rfl⟩ := hcall
    have hown : ∀ f : Frame, f.packetId = s.nextPacketId → Q s.config f := fun f hf =>
      hQ _ f ⟨[], packet, now, [], s, [], rfl, rfl, rfl, hf⟩
    obtain ⟨cur, hholds, -⟩ := h.holds
    refine ⟨(push_bounded (h.forOwn hown) (fun _ => id) hp).rests, Nat.le_of_eq ?_⟩
    cases push_cases hholds hp with
    | failed _ hc _ => rw [hc]
    | pushed hpushed => rw [hpushed.config]
  | flush =>
    cases hcall
    obtain ⟨hb, hc⟩ := flushed_rests h (.inl rfl)
    exact ⟨hb, by rw [hc]⟩
  | flushDue now =>
    cases hcall
    obtain ⟨hb, hc⟩ := flushed_rests h (flushDue_cases s now)
    exact ⟨hb, by rw [hc]⟩
  | finishReadyBatch =>
    cases hcall
    obtain ⟨hb, hc⟩ := flushed_rests h (finishReadyBatch_cases s)
    exact ⟨hb, by rw [hc]⟩
  | raiseRuntime config =>
    cases hcall
    unfold raiseRuntime
    split
    · exact ⟨h, Nat.le_refl _⟩
    · next hle =>
      have hle : s.config.maxPayloadBytes ≤ config.maxPayloadBytes := Nat.not_lt.mp hle
      refine ⟨⟨⟨fun _ => False.elim, hconf config (by simp [Call.configs]), h.payload.trans hle,
        by simp [Reply.records]⟩, ?_⟩, hle⟩
      rcases h.pending with hnone | ⟨fs, hne, hfills⟩
      · exact .inl hnone
      · exact .inr ⟨fs, hne, { hfills with target := hfills.target.trans hle }⟩

/-- **Every sequence of calls returns and keeps to the limits.** -/
theorem runCalls_rests (h : Rests Q s [])
    (hQ : ∀ config f, PushedUnder s calls config f → Q config f)
    (hconf : ∀ c ∈ calls, ∀ config ∈ c.configs, 1 ≤ config.maxPackets) :
    ∃ t events, s.runCalls calls = some (t, events) ∧ Rests Q t (sentRecords events) ∧
      s.config.maxPayloadBytes ≤ t.config.maxPayloadBytes := by
  induction calls generalizing s with
  | nil => exact ⟨s, [], rfl, h, Nat.le_refl _⟩
  | cons c calls ih =>
    obtain ⟨cur, hholds, hne⟩ := h.holds
    have hcall : (s.call c).isSome := call_returns hholds hne h.packets h.payload c
    obtain ⟨⟨u, reply⟩, heq⟩ := Option.isSome_iff_exists.mp hcall
    have hhere : ∀ config f, PushedUnder s [c] config f → Q config f := by
      rintro config f ⟨before, packet, now, after, v, events, hsplit, hrun⟩
      obtain ⟨rfl, rfl, rfl⟩ : before = [] ∧ c = .push packet now ∧ after = [] := by
        cases before <;> simp_all
      exact hQ config f ⟨[], packet, now, calls, v, events, rfl, hrun⟩
    obtain ⟨hu, hle⟩ := call_rests h hhere (hconf c List.mem_cons_self) heq
    obtain ⟨t, events, hrun, ht, hle'⟩ := ih hu.drop
      (fun config f hf => hQ config f (hf.cons heq))
      fun c' hc' => hconf c' (List.mem_cons_of_mem _ hc')
    refine ⟨t, (c, reply) :: events, by simp [runCalls, heq, hrun], ?_, hle.trans hle'⟩
    simpa [sentRecords] using hu.after ht hle'

theorem rests_new (id : UInt32) (rng : Nat → RecordDraw) (hpackets : 1 ≤ config.maxPackets)
    (hpayload : minRecordPayload ≤ config.maxPayloadBytes) :
    Rests Q (Recordizer.new config id rng) [] where
  own _ := False.elim
  packets := hpackets
  payload := hpayload
  ready := by simp
  pending := .inl ⟨rfl, rfl⟩

theorem raised_of_configs (hc : c ∈ calls) (hconfig : config ∈ c.configs) :
    .raiseRuntime config ∈ calls := by
  cases c with
  | raiseRuntime config' =>
    obtain rfl := List.mem_singleton.mp hconfig
    exact hc
  | push | flush | flushDue | finishReadyBatch => cases hconfig

/-- **Fragmentation within its limits.** From a configuration with room for a packet and a
frame in a record, whatever is drawn and whatever configurations are raised to, every
sequence of calls returns. A push in fragment mode returns too; it refuses the packet by
its size and changes nothing, or cuts all of it into no more nonempty fragments than
allowed. No record is empty or too long, nor has it more frames than were allowed when the
packet of the last one was pushed. -/
theorem fragments_within_limits {config : RuntimeConfig} {calls : List Call}
    (hpackets : ∀ c, c = config ∨ .raiseRuntime c ∈ calls → 1 ≤ c.maxPackets)
    (hpayload : 15 ≤ config.maxPayloadBytes) (id : UInt32) (rng : Nat → RecordDraw) :
    ∃ s events, (Recordizer.new config id rng).runCalls calls = some (s, events) ∧
      (∀ record ∈ sentRecords events, RecordWithin
        (PushedUnder (Recordizer.new config id rng) calls) s.config.maxPayloadBytes record) ∧
      (s.config.fragmentEnabled → ∀ packet now, ∃ t res, s.push packet now = some (t, res) ∧
        (s.Refuses packet ∧ t = s ∧ res = .error .packetSize ∨
          ¬ s.Refuses packet ∧ ∃ ready fs, res = .ok ready ∧
            Cuts s.nextPacketId packet packet.length fs ∧
            (∀ f ∈ fs, 0 < f.payload.length) ∧ fs.length ≤ s.config.maxFragmentsPerPacket ∧
            ∃ (recs : List (List Frame)) (cur cur' : Option (List Frame)), s.Holds cur ∧
              ready = recs.map envelope ∧ t.Holds cur' ∧
              cur.getD [] ++ fs = recs.flatten ++ cur'.getD [])) := by
  obtain ⟨s, events, hrun, hs, -⟩ := runCalls_rests
    (rests_new id rng (hpackets config (.inl rfl)) hpayload) (fun _ _ h => h)
    fun c hc c' hc' => hpackets c' (.inr (raised_of_configs hc hc'))
  refine ⟨s, events, hrun, hs.ready, fun hfrag packet now => ?_⟩
  obtain ⟨cur, hholds, hne⟩ := hs.holds
  have hreturns : (s.push packet now).isSome :=
    push_returns hholds hne hs.packets hs.payload
  obtain ⟨⟨t, res⟩, hpush⟩ := Option.isSome_iff_exists.mp hreturns
  refine ⟨t, res, hpush, ?_⟩
  rcases push_fragmented hholds hfrag hpush with
    hrefused | ⟨haccepted, ready, recs, cur', fs, rfl, hp⟩
  · exact .inl hrefused
  · refine .inr ⟨haccepted, ready, fs, rfl, hp.cuts, fun f hf => (hp.cuts.part f hf).nonempty,
      ?_, recs, cur, cur', hholds, hp.emits.ready, hp.emits.holds, hp.order⟩
    have hcount := hp.count
    unfold Refuses at haccepted
    have hpos : 0 < packet.length := by omega
    have hfragments := minimumFragments_pos s.config hpos
    omega

/-- Two packets and twenty bytes to a record, so a fragment carries at most six, and the
records wait. -/
def waitingConfig : RuntimeConfig where
  opportunistic := false
  delayMin := 0
  delayMax := 5000000
  maxPackets := 2
  maxPayloadBytes := 20
  fragmentEnabled := true
  reassemblyTimeout := 3000000000
  maxInflightPackets := 1
  maxReassemblyBytes := 64
  maxFragmentsPerPacket := 4
  maxPacketBytes := 32

/-- A record waits with one packet; the next packet needs all its fragments, so the record
goes out first. -/
theorem fragments_within_limits_tight :
    let calls := [Call.push [1] 0, .push (List.replicate 20 7) 1]
    ∃ s events, (Recordizer.new waitingConfig 7 fun _ => ⟨false, 0, 0, 0, 0⟩).runCalls calls =
        some (s, events) ∧
      (sentRecords events).map List.length = [15, 20, 20, 20] ∧
      (∀ record ∈ sentRecords events, RecordWithin
        (PushedUnder (Recordizer.new waitingConfig 7 fun _ => ⟨false, 0, 0, 0, 0⟩) calls)
        s.config.maxPayloadBytes record) ∧
      ∃ t, s.push (List.replicate 25 9) 2 = some (t, .error .packetSize) ∧ t = s := by
  intro calls
  have heval : ((Recordizer.new waitingConfig 7 fun _ => ⟨false, 0, 0, 0, 0⟩).runCalls calls).map
      (fun r => ((sentRecords r.2).map List.length, r.1.config)) =
      some ([15, 20, 20, 20], waitingConfig) := by decide +kernel
  have hpackets : ∀ c, c = waitingConfig ∨ .raiseRuntime c ∈ calls → 1 ≤ c.maxPackets := by
    intro c hc
    obtain rfl : c = waitingConfig := by simpa [calls] using hc
    decide
  obtain ⟨s, events, hrun, hwithin, hpush⟩ :=
    fragments_within_limits hpackets (by decide) 7 fun _ => ⟨false, 0, 0, 0, 0⟩
  rw [hrun] at heval
  simp only [Option.map_some, Option.some.injEq, Prod.mk.injEq] at heval
  obtain ⟨hlengths, hconfig⟩ := heval
  have hrefuses : s.Refuses (List.replicate 25 9) := by
    unfold Refuses
    rw [hconfig]
    decide
  refine ⟨s, events, hrun, hlengths, hwithin, ?_⟩
  obtain ⟨t, res, heq, ⟨-, rfl, rfl⟩ | ⟨haccepts, -⟩⟩ :=
    hpush (by rw [hconfig]; rfl) (List.replicate 25 9) 2
  · exact ⟨_, heq, rfl⟩
  · exact absurd hrefuses haccepts

/-! ## Sealed records -/

open Packet PacketCodec

/-- A configuration for sealed records of up to `budget` bytes: made by `from_config` for what the
codec leaves of a path, from one with a positive `batch.max_packets`, as `validate` requires. -/
def MadeFor (codec : PacketCodec) (budget : Nat) (c : RuntimeConfig) : Prop :=
  ∃ config path room maxPacketBytes, 0 < config.batch.maxPackets ∧ path ≤ budget ∧
    codec.maxDataForRecordBudget path = .ok room ∧
    RuntimeConfig.fromConfig config room maxPacketBytes = .ok c

theorem of_fromConfig {config : RecordizerConfig} {room maxPacketBytes : Nat} {c : RuntimeConfig}
    (h : RuntimeConfig.fromConfig config room maxPacketBytes = .ok c) :
    c.maxPackets = config.batch.maxPackets ∧ minRecordPayload ≤ c.maxPayloadBytes ∧
      c.maxPayloadBytes ≤ room := by
  have hmost : (if config.maxPayloadBytes = 0 then room else min config.maxPayloadBytes room) ≤
      room := by
    split
    · exact le_rfl
    · exact Nat.min_le_right _ _
  unfold RuntimeConfig.fromConfig at h
  dsimp only at h
  generalize (if config.maxPayloadBytes = 0 then room else _) = most at h hmost
  split at h
  · cases h
  · next hleast =>
    cases h
    exact ⟨rfl, Nat.not_lt.mp hleast, (Nat.min_le_left _ _).trans hmost⟩

/-- Within the limit, and sealed within the budget with any padding up to the limit, unless the
counter is spent or the AEAD fails. -/
def SealedWithin (codec : PacketCodec) (budget limit : Nat) (record : Record) : Prop :=
  record.length ≤ limit ∧ ∀ prpRound padding, record.length + padding.length ≤ limit →
    codec.counter < u64Max - 1000 →
    (codec.encryptPacket prpRound record padding).2 ≠ .error .encryptFailed →
    ∃ out, (codec.encryptPacket prpRound record padding).2 = .ok out ∧ out.length ≤ budget

/-- Twenty bytes of plaintext, in the records of `waitingConfig`. -/
def narrowConfig : RecordizerConfig where
  batch := ⟨"timed", 0, 5, 2, 4096⟩
  maxPayloadBytes := 64
  fragment := ⟨true, 3000, 1, 64, 4⟩

end Recordizer

end Qeli.Mux
