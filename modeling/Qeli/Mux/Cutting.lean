import Qeli.Mux.Sender

/-!
# What the sender emits

`Cuts id packet n fs`: the frames `fs` carry the first `n` bytes of the packet, in
order. `Emits s ready recs cur` reads the records that are ready and the record
being filled as lists of frames. A pass of `push` appends one frame or moves the
record being filled to the ready ones (`fragmentPass_cuts`), so a push adds
exactly the frames of its packet at the end (`push_cases`), whatever targets are
drawn and whatever record was pending.
-/

namespace Qeli.Mux

open Qeli.Lib

/-! ## A packet in pieces -/

inductive Cuts (id : UInt32) (packet : Packet) : Nat → List Frame → Prop where
  | nil : Cuts id packet 0 []
  | snoc {n take : Nat} {fs : List Frame} : Cuts id packet n fs → 0 < take →
      n + take ≤ packet.length →
      Cuts id packet (n + take) (fs ++ [⟨id, packet.length, n, (packet.drop n).take take⟩])

namespace Cuts

variable {id : UInt32} {packet : Packet} {n : Nat} {fs : List Frame}

theorem le (h : Cuts id packet n fs) : n ≤ packet.length := by
  cases h with
  | nil => exact Nat.zero_le _
  | snoc _ _ hle => exact hle

/-- A frame of the packet that ends within its first `n` bytes. -/
structure Part (id : UInt32) (packet : Packet) (n : Nat) (f : Frame) : Prop where
  packetId : f.packetId = id
  totalLen : f.totalLen = packet.length
  nonempty : 0 < f.payload.length
  stop_le : f.offset + f.payload.length ≤ n
  agrees : f.piece.Agrees packet

theorem part (h : Cuts id packet n fs) : ∀ f ∈ fs, Part id packet n f := by
  induction h with
  | nil => simp
  | snoc _ hpos hle ih =>
    intro f hf
    rcases List.mem_append.mp hf with hf | hf
    · have := ih f hf
      exact { this with stop_le := Nat.le_trans this.stop_le (Nat.le_add_right _ _) }
    · obtain rfl := List.mem_singleton.mp hf
      refine ⟨rfl, rfl, ?_, ?_, ?_⟩
      · simp only [List.length_take, List.length_drop]
        omega
      · simp only [List.length_take, List.length_drop]
        omega
      · simp [Piece.Agrees, Frame.piece]

theorem wellFormed (h : Cuts id packet n fs) (hlen : packet.length ≤ u16Max) :
    ∀ f ∈ fs, f.WellFormed := by
  intro f hf
  have hp := h.part f hf
  refine ⟨by rw [hp.totalLen]; exact hlen, hp.nonempty, ?_⟩
  rw [hp.totalLen]
  exact Nat.le_trans hp.stop_le h.le

/-- Each frame starts where the one before it ends, and the last one ends where
the part that was cut does. -/
theorem split {pre post : List Frame} {f : Frame} (h : Cuts id packet n (pre ++ f :: post)) :
    ∃ m take, Cuts id packet m pre ∧ 0 < take ∧ m + take ≤ n ∧
      f = ⟨id, packet.length, m, (packet.drop m).take take⟩ ∧ (m + take = n ↔ post = []) := by
  generalize hl : pre ++ f :: post = l at h
  induction h generalizing post with
  | nil => simp at hl
  | @snoc m take fs hc hpos hle ih =>
    rcases List.eq_nil_or_concat' post with rfl | ⟨post', g, rfl⟩
    · obtain ⟨rfl, rfl⟩ := List.append_singleton_inj.mp hl
      exact ⟨m, take, hc, hpos, Nat.le_refl _, rfl, by simp⟩
    · rw [← List.cons_append, ← List.append_assoc] at hl
      obtain ⟨hl, -⟩ := List.append_singleton_inj.mp hl
      obtain ⟨m', take', h1, h2, h3, h4, -⟩ := ih hl
      refine ⟨m', take', h1, h2, by omega, h4, ?_⟩
      simp only [List.append_eq_nil_iff, List.cons_ne_self, and_false, iff_false]
      omega

theorem sorted (h : Cuts id packet n fs) :
    fs.Pairwise fun f g => f.offset + f.payload.length ≤ g.offset := by
  induction h with
  | nil => exact .nil
  | snoc hc _ _ ih =>
    rw [List.pairwise_append]
    refine ⟨ih, by simp, fun f hf g hg => ?_⟩
    obtain rfl := List.mem_singleton.mp hg
    exact (hc.part f hf).stop_le

theorem sizes_eq (h : Cuts id packet n fs) : sizes (fs.map Frame.piece) = n := by
  induction h with
  | nil => rfl
  | snoc _ _ hle ih =>
    rw [List.map_append, sizes_append, ih]
    simp only [List.map_cons, List.map_nil, Frame.piece, sizes_cons, sizes_nil, List.length_take,
      List.length_drop]
    omega

end Cuts

/-! ## The records as frames -/

namespace Recordizer

/-- The record being filled, if there is one, holds these frames. -/
def Holds (s : Recordizer) : Option (List Frame) → Prop
  | none => s.current = [] ∧ s.currentPackets = 0
  | some fs => s.current = envelope fs

structure Emits (s : Recordizer) (ready : List Record) (recs : List (List Frame))
    (cur : Option (List Frame)) : Prop where
  ready : ready = recs.map envelope
  holds : s.Holds cur

theorem envelope_ne_nil (fs : List Frame) : envelope fs ≠ [] := by simp [envelope, magic]

@[simp] theorem config_flush (s : Recordizer) : s.flush.1.config = s.config := by
  unfold flush
  split <;> rfl

@[simp] theorem nextPacketId_flush (s : Recordizer) :
    s.flush.1.nextPacketId = s.nextPacketId := by
  unfold flush
  split <;> rfl

@[simp] theorem config_ensureRecord (s : Recordizer) (now : Nat) :
    (s.ensureRecord now).config = s.config := by
  unfold ensureRecord
  split <;> rfl

@[simp] theorem nextPacketId_ensureRecord (s : Recordizer) (now : Nat) :
    (s.ensureRecord now).nextPacketId = s.nextPacketId := by
  unfold ensureRecord
  split <;> rfl

theorem Holds.flush {s : Recordizer} {cur : Option (List Frame)} (h : s.Holds cur) :
    s.flush.1.Holds none ∧ s.flush.2 = cur.map envelope := by
  cases cur with
  | none => simpa [Recordizer.flush, h.1, Holds] using h.2
  | some fs =>
    have hne : s.current.isEmpty = false := by
      rw [show s.current = envelope fs from h]
      simpa using envelope_ne_nil fs
    simpa [Recordizer.flush, hne, Holds] using h

variable {s : Recordizer} {ready : List Record} {recs : List (List Frame)}
  {cur : Option (List Frame)}

theorem Emits.flushInto (h : Emits s ready recs cur) :
    Emits (s.flushInto ready).1 (s.flushInto ready).2 (recs ++ cur.toList) none := by
  obtain ⟨h1, h2⟩ := h.holds.flush
  refine ⟨?_, h1⟩
  simp only [Recordizer.flushInto]
  rw [h2, h.ready]
  cases cur <;> simp

theorem ensureRecord_of_idle (h : s.Holds none) (now : Nat) :
    (s.ensureRecord now).Holds (some []) ∧ (s.ensureRecord now).currentPackets = 0 ∧
      (minRecordPayload ≤ s.config.maxPayloadBytes →
        minRecordPayload ≤ (s.ensureRecord now).currentTarget) := by
  unfold ensureRecord
  rw [h.1]
  refine ⟨by simp [Holds, envelope], h.2, fun hroom => ?_⟩
  simp only [List.isEmpty_nil, if_true, chooseTarget]
  split <;> omega

variable {fs before : List Frame} {s' : Recordizer} {packet : Packet} {id : UInt32}
  {loop : FragmentLoop} {now : Nat}

theorem ensureRecord_of_some (h : s.Holds (some fs)) (now : Nat) : s.ensureRecord now = s := by
  unfold ensureRecord
  rw [show s.current = envelope fs from h, if_neg (by simpa using envelope_ne_nil fs)]

theorem Emits.append (h : Emits s ready recs (some fs)) (f : Frame) :
    Emits (s.append f) ready recs (some (fs ++ [f])) := by
  refine ⟨h.ready, ?_⟩
  have hcur : s.current = envelope fs := h.holds
  simp [Holds, Recordizer.append, hcur, envelope]

/-- The record the next frame goes to: the pending one, or a new one after the
pending one was flushed. -/
inductive Opens (s : Recordizer) (tight : Bool) (recs : List (List Frame)) :
    Option (List Frame) → Recordizer → List (List Frame) → List Frame → Prop where
  | reused {fs : List Frame} : tight = false → Opens s tight recs (some fs) s recs fs
  | fresh {cur : Option (List Frame)} {s' : Recordizer} : s'.currentPackets = 0 →
      (tight = true → s'.currentTarget = s.config.maxPayloadBytes) →
      (minRecordPayload ≤ s.config.maxPayloadBytes → minRecordPayload ≤ s'.currentTarget) →
      Opens s tight recs cur s' (recs ++ cur.toList) []

theorem flatten_flushed (recs : List (List Frame)) (cur : Option (List Frame)) :
    (recs ++ cur.toList).flatten = recs.flatten ++ cur.getD [] := by
  cases cur <;> simp

theorem Opens.flatten {tight : Bool} {recs' : List (List Frame)}
    (h : Opens s tight recs cur s' recs' fs) :
    recs'.flatten ++ fs = recs.flatten ++ cur.getD [] := by
  cases h with
  | reused => rfl
  | fresh => rw [flatten_flushed, List.append_nil]

theorem openRecord_emits (h : Emits s ready recs cur) (tight : Bool) (now : Nat) :
    (s.openRecord tight now ready).1.config = s.config ∧
    (s.openRecord tight now ready).1.nextPacketId = s.nextPacketId ∧
    ∃ recs' fs, Emits (s.openRecord tight now ready).1 (s.openRecord tight now ready).2 recs'
        (some fs) ∧ Opens s tight recs cur (s.openRecord tight now ready).1 recs' fs := by
  cases tight with
  | false =>
    simp only [openRecord, Bool.false_eq_true, false_and, if_false]
    refine ⟨config_ensureRecord _ _, nextPacketId_ensureRecord _ _, ?_⟩
    cases cur with
    | none =>
      obtain ⟨h1, h2, h3⟩ := ensureRecord_of_idle h.holds now
      exact ⟨_, [], ⟨by simpa using h.ready, h1⟩, .fresh h2 (fun h => by cases h) h3⟩
    | some fs =>
      rw [ensureRecord_of_some h.holds]
      exact ⟨recs, fs, h, .reused rfl⟩
  | true =>
    -- whether or not a record was pending, none is after the flush
    have hflush : ∃ s', s'.Holds none ∧ s'.config = s.config ∧
        s'.nextPacketId = s.nextPacketId ∧
        (if (true = true ∧ ¬ s.current.isEmpty) then s.flushInto ready else (s, ready)) =
          (s', (recs ++ cur.toList).map envelope) := by
      have hinto := h.flushInto
      by_cases he : s.current.isEmpty
      · rw [if_neg (by simpa using he)]
        cases cur with
        | none => exact ⟨s, h.holds, rfl, rfl, by simp [h.ready]⟩
        | some fs =>
          rw [show s.current = envelope fs from h.holds] at he
          exact absurd (by simpa using he) (envelope_ne_nil fs)
      · rw [if_pos ⟨rfl, by simpa using he⟩]
        exact ⟨(s.flushInto ready).1, hinto.holds, config_flush s, nextPacketId_flush s,
          by rw [← hinto.ready]⟩
    obtain ⟨s', hidle, hc, hid, heq⟩ := hflush
    obtain ⟨h1, h2, h3⟩ := ensureRecord_of_idle hidle now
    unfold openRecord
    rw [heq]
    refine ⟨by simp [hc], by simp [hid], recs ++ cur.toList, [], ⟨rfl, h1⟩, .fresh h2 ?_ ?_⟩
    · intro _
      simp [hc]
    · intro hroom
      simpa [hc] using hroom

/-! ## A pass of the loop -/

/-- Room for one frame in a record, one packet in a record and one fragment of a
packet. -/
structure Usable (config : RuntimeConfig) : Prop where
  packets : 1 ≤ config.maxPackets
  payload : minRecordPayload ≤ config.maxPayloadBytes
  fragments : 1 ≤ config.maxFragmentsPerPacket

/-- No record consists of the marker alone. -/
def Filled (recs : List (List Frame)) (cur : Option (List Frame)) : Prop :=
  (∀ fs ∈ recs, fs ≠ []) ∧ cur ≠ some []

theorem Filled.flushed (h : Filled recs cur) : Filled (recs ++ cur.toList) none := by
  refine ⟨fun fs hfs => ?_, by simp⟩
  rcases List.mem_append.mp hfs with hfs | hfs
  · exact h.1 fs hfs
  · rintro rfl
    exact h.2 (Option.mem_toList.mp hfs)

/-- The loop of `push` after some passes: `fs` are the packet's frames so far, in
the ready records and the pending one behind the frames `before` that were there
already; the fragments left suffice for the rest. -/
structure Cutting (packet : Packet) (id : UInt32) (before : List Frame) (loop : FragmentLoop)
    (recs : List (List Frame)) (cur : Option (List Frame)) (fs : List Frame) : Prop where
  emits : Emits loop.self loop.ready recs cur
  cuts : Cuts id packet loop.offset fs
  count : loop.fragmentCount = fs.length
  order : before ++ fs = recs.flatten ++ cur.getD []
  within : loop.fragmentCount ≤ loop.self.config.maxFragmentsPerPacket
  slack : loop.self.config.minimumFragments (packet.length - loop.offset) ≤
    loop.self.config.maxFragmentsPerPacket - loop.fragmentCount

def passesLeft (packet : Packet) (loop : FragmentLoop) : Nat :=
  2 * (packet.length - loop.offset) + if loop.self.current.isEmpty then 0 else 1

theorem minimumFragments_le {config : RuntimeConfig} {len k : Nat} :
    config.minimumFragments len ≤ k ↔ len ≤ max config.fullFragmentCapacity 1 * k :=
  ceilDiv_le_iff_le_mul (by omega)

theorem minimumFragments_pos (config : RuntimeConfig) {len : Nat} (h : 0 < len) :
    0 < config.minimumFragments len := by
  rw [Nat.pos_iff_ne_zero]
  intro h0
  have := minimumFragments_le.mp (Nat.le_of_eq h0)
  omega

/-- A fragment taken with slack left, or one that fills a record, leaves enough
fragments for the rest. -/
theorem slack_after {config : RuntimeConfig} {remaining left take : Nat} (hleft : 0 < left)
    (hmin : config.minimumFragments remaining ≤ left)
    (htight : config.minimumFragments remaining = left →
      take = min config.fullFragmentCapacity remaining ∧ 0 < take) :
    config.minimumFragments (remaining - take) ≤ left - 1 := by
  rw [minimumFragments_le]
  by_cases ht : config.minimumFragments remaining = left
  · obtain ⟨htake, hpos⟩ := htight ht
    have hle := minimumFragments_le.mp hmin
    obtain ⟨k, rfl⟩ : ∃ k, left = k + 1 := ⟨left - 1, by omega⟩
    rw [Nat.mul_succ] at hle
    have hcap : max config.fullFragmentCapacity 1 = config.fullFragmentCapacity := by omega
    rw [hcap] at hle ⊢
    rw [Nat.add_sub_cancel]
    omega
  · have hle := minimumFragments_le.mp (show config.minimumFragments remaining ≤ left - 1 by omega)
    omega

/-- **A pass appends one frame or sends a full record, and never fails.** -/
theorem fragmentPass_cuts (now : Nat) (hlen : packet.length ≤ u16Max)
    (hin : loop.offset < packet.length) (h : Cutting packet id before loop recs cur fs) :
    ∃ loop' recs' cur' fs', fragmentPass packet id now loop = .ok loop' ∧
      Cutting packet id before loop' recs' cur' fs' ∧
      loop'.self.config = loop.self.config ∧ loop'.self.nextPacketId = loop.self.nextPacketId ∧
      (Usable loop.self.config → Filled recs cur → Filled recs' cur' ∧
        passesLeft packet loop' < passesLeft packet loop) := by
  have hrem : 0 < packet.length - loop.offset := by omega
  have hleft : 0 < loop.self.config.maxFragmentsPerPacket - loop.fragmentCount :=
    Nat.lt_of_lt_of_le (minimumFragments_pos _ hrem) h.slack
  have hslack := h.slack
  unfold fragmentPass
  rw [if_neg (by omega)]
  generalize htight : decide (loop.self.config.minimumFragments (packet.length - loop.offset) =
    loop.self.config.maxFragmentsPerPacket - loop.fragmentCount) = tight
  obtain ⟨hc, hid, recs', gs, hem, hop⟩ := openRecord_emits h.emits tight now
  have horder : before ++ fs = recs'.flatten ++ gs := by rw [h.order, hop.flatten]
  generalize loop.self.openRecord tight now loop.ready = opened at *
  obtain ⟨s, ready⟩ := opened
  dsimp only at *
  have hcur : s.current = envelope gs := hem.holds
  -- a record begun in this pass has room, so one without room was pending before
  have hroom : Usable loop.self.config → Filled recs cur →
      (s.config.maxPackets ≤ s.currentPackets ∨
        s.currentTarget - s.current.length ≤ frameHeaderLen) →
      Filled recs' (some gs) ∧ loop.self.current.isEmpty = false := by
    intro hu hfill hfull
    cases hop with
    | reused =>
      refine ⟨hfill, ?_⟩
      rw [hcur]
      simpa using envelope_ne_nil gs
    | fresh hp _ hroom =>
      have h1 := hu.packets
      have h2 := hroom hu.payload
      rw [hcur, hc] at hfull
      simp only [envelope, List.map_nil, List.flatten_nil, List.append_nil] at hfull
      unfold minRecordPayload at h2
      omega
  by_cases hfull : s.config.maxPackets ≤ s.currentPackets ∨
      s.currentTarget - s.current.length ≤ frameHeaderLen
  · rw [if_pos hfull]
    refine ⟨_, recs' ++ [gs], none, fs, rfl,
      ⟨hem.flushInto, h.cuts, h.count, ?_, ?_, ?_⟩, ?_, ?_, ?_⟩
    · simpa using horder
    · simpa [flushInto, hc] using h.within
    · simpa [flushInto, hc] using h.slack
    · simpa [flushInto] using hc
    · simpa [flushInto] using hid
    · intro hu hfill
      obtain ⟨hf', hne⟩ := hroom hu hfill hfull
      refine ⟨hf'.flushed, ?_⟩
      have : (s.flushInto ready).1.current = [] := hem.flushInto.holds.1
      simp [passesLeft, this, hne]
  · rw [if_neg hfull]
    generalize htake : min (min (s.currentTarget - s.current.length - frameHeaderLen)
      (packet.length - loop.offset)) u16Max = take
    have hpos : 0 < take := by unfold u16Max at *; omega
    have hle : loop.offset + take ≤ packet.length := by omega
    rw [if_neg (by omega)]
    have hcuts := h.cuts.snoc hpos hle
    have happ := hem.append ⟨id, packet.length, loop.offset, (packet.drop loop.offset).take take⟩
    have hwithin' : loop.fragmentCount + 1 ≤ loop.self.config.maxFragmentsPerPacket := by omega
    have hslack' : loop.self.config.minimumFragments (packet.length - (loop.offset + take)) ≤
        loop.self.config.maxFragmentsPerPacket - (loop.fragmentCount + 1) := by
      rw [← Nat.sub_sub, ← Nat.sub_sub]
      refine slack_after hleft h.slack fun ht => ⟨?_, hpos⟩
      -- the frame that ends the slack has a full record to itself
      cases hop with
      | reused hn => simp [ht, hn] at htight
      | fresh _ htarget _ =>
        rw [htarget (by rw [← htight]; simpa using ht), hcur] at htake
        simp only [envelope, List.map_nil, List.flatten_nil, List.append_nil] at htake
        unfold RuntimeConfig.fullFragmentCapacity
        omega
    generalize Frame.mk id packet.length loop.offset ((packet.drop loop.offset).take take) = f at *
    have hprog : ∀ loop' : FragmentLoop, loop'.offset = loop.offset + take →
        passesLeft packet loop' < passesLeft packet loop := by
      intro loop' ho
      unfold passesLeft
      rw [ho]
      split <;> split <;> omega
    have horder' : before ++ (fs ++ [f]) = recs'.flatten ++ (gs ++ [f]) := by
      rw [← List.append_assoc, horder, List.append_assoc]
    have hfilled : Filled recs cur → Filled recs' (some (gs ++ [f])) := by
      intro hfill
      refine ⟨?_, by simp⟩
      cases hop with
      | reused => exact hfill.1
      | fresh => exact hfill.flushed.1
    by_cases hend : (s.append f).currentTarget ≤ (s.append f).current.length ∨
        (s.append f).config.maxPackets ≤ (s.append f).currentPackets
    · rw [if_pos hend]
      refine ⟨_, recs' ++ [gs ++ [f]], none, fs ++ [f], rfl,
        ⟨happ.flushInto, hcuts, by simp [h.count], ?_, ?_, ?_⟩, ?_, ?_, ?_⟩
      · simpa using horder'
      · simpa [flushInto, append, hc] using hwithin'
      · simpa [flushInto, append, hc] using hslack'
      · simpa [flushInto, append] using hc
      · simpa [flushInto, append] using hid
      · exact fun _ hfill => ⟨(hfilled hfill).flushed, hprog _ rfl⟩
    · rw [if_neg hend]
      refine ⟨_, recs', some (gs ++ [f]), fs ++ [f], rfl,
        ⟨happ, hcuts, by simp [h.count], horder', ?_, ?_⟩, hc, hid, ?_⟩
      · simpa [append, hc] using hwithin'
      · simpa [append, hc] using hslack'
      · exact fun _ hfill => ⟨hfilled hfill, hprog _ rfl⟩

/-! ## A push -/

/-- A successful push: the frames `fs` of the packet follow what was pending. -/
structure Pushed (s : Recordizer) (cur : Option (List Frame)) (packet : Packet) (s' : Recordizer)
    (ready : List Record) (recs : List (List Frame)) (cur' : Option (List Frame))
    (fs : List Frame) : Prop where
  emits : Emits s' ready recs cur'
  cuts : Cuts s.nextPacketId packet packet.length fs
  order : cur.getD [] ++ fs = recs.flatten ++ cur'.getD []
  count : fs.length ≤ max 1 s.config.maxFragmentsPerPacket
  packetId : s'.nextPacketId = s.nextPacketId + 1
  config : s'.config = s.config
  filled : Usable s.config → cur ≠ some [] → Filled recs cur'

theorem pushFragments_cuts {fuel : Nat} {res : Except RecordizerError (List Record)}
    (hlen : packet.length ≤ u16Max) (h : Cutting packet id before loop recs cur fs)
    (hres : pushFragments packet id now fuel loop = some (s', res)) :
    ∃ loop' recs' cur' fs', res = .ok loop'.ready ∧ s' = loop'.self ∧
      Cutting packet id before loop' recs' cur' fs' ∧ loop'.offset = packet.length ∧
      s'.config = loop.self.config ∧ s'.nextPacketId = loop.self.nextPacketId ∧
      (Usable loop.self.config → Filled recs cur → Filled recs' cur') := by
  induction fuel generalizing loop recs cur fs with
  | zero => cases hres
  | succ fuel ih =>
    unfold pushFragments at hres
    by_cases hin : loop.offset < packet.length
    · obtain ⟨loop', recs', cur', fs', heq, hcut, hc, hid, hfill⟩ :=
        fragmentPass_cuts now hlen hin h
      rw [if_pos hin, heq] at hres
      obtain ⟨loop'', recs'', cur'', fs'', h1, h2, h3, h4, h5, h6, h7⟩ := ih hcut hres
      refine ⟨loop'', recs'', cur'', fs'', h1, h2, h3, h4, h5.trans hc, h6.trans hid, ?_⟩
      intro hu hf
      exact h7 (by rw [hc]; exact hu) (hfill hu hf).1
    · rw [if_neg hin] at hres
      cases hres
      exact ⟨loop, recs, cur, fs, rfl, rfl, h, Nat.le_antisymm h.cuts.le (by omega), rfl, rfl,
        fun _ hf => hf⟩

theorem pushFragments_returns {fuel : Nat} (hlen : packet.length ≤ u16Max)
    (h : Cutting packet id before loop recs cur fs) (hu : Usable loop.self.config)
    (hf : Filled recs cur) (hfuel : passesLeft packet loop < fuel) :
    (pushFragments packet id now fuel loop).isSome := by
  induction fuel generalizing loop recs cur fs with
  | zero => omega
  | succ fuel ih =>
    unfold pushFragments
    by_cases hin : loop.offset < packet.length
    · obtain ⟨loop', recs', cur', fs', heq, hcut, hc, _, hfill⟩ :=
        fragmentPass_cuts now hlen hin h
      obtain ⟨hf', hlt⟩ := hfill hu hf
      rw [if_pos hin, heq]
      exact ih hcut (by rw [hc]; exact hu) hf' (by omega)
    · rw [if_neg hin]
      rfl

theorem pushWhole_cuts (packet : Packet) (id : UInt32) (now : Nat) (h : s.Holds cur) :
    s.pushWhole packet id now = (s, .error .packetSize) ∨
      ∃ s' ready recs cur', s.pushWhole packet id now = (s', .ok ready) ∧
        Emits s' ready recs cur' ∧ s'.config = s.config ∧ s'.nextPacketId = s.nextPacketId ∧
        cur.getD [] ++ [⟨id, packet.length, 0, packet⟩] = recs.flatten ++ cur'.getD [] ∧
        (Usable s.config → cur ≠ some [] → Filled recs cur') := by
  unfold pushWhole
  by_cases hbig : s.config.maxPayloadBytes < magic.length + frameHeaderLen + packet.length
  · exact .inl (by rw [if_pos hbig])
  · rw [if_neg hbig]
    refine .inr ?_
    have hem0 : Emits s [] [] cur := ⟨rfl, h⟩
    obtain ⟨hc, hid, recs, gs, hem, hop⟩ :=
      openRecord_emits hem0 false now
    have hopen : s.openRecord false now [] = (s.ensureRecord now, []) := by simp [openRecord]
    rw [hopen] at hc hid hem hop
    dsimp only at hc hid hem hop ⊢
    generalize s.ensureRecord now = t at *
    have hpk : gs = [] → cur ≠ some [] → t.currentPackets = 0 := by
      intro hgs hne
      cases hop with
      | reused => exact absurd (by rw [hgs]) hne
      | fresh hp _ _ => exact hp
    obtain rfl : recs = [] := by simpa using hem.ready.symm
    have hflat : cur.getD [] = gs := by simpa using hop.flatten.symm
    generalize Frame.mk id packet.length 0 packet = f
    by_cases hfirst : t.currentPackets = 0 ∧
        t.currentTarget < t.current.length + frameHeaderLen + packet.length
    · rw [if_pos hfirst]
      have hem' : Emits { t with currentTarget := t.config.maxPayloadBytes } [] [] (some gs) :=
        ⟨rfl, hem.holds⟩
      exact ⟨_, [], [], some (gs ++ [f]), rfl, hem'.append f, hc, hid, by simp [hflat],
        fun _ _ => ⟨by simp, by simp⟩⟩
    · rw [if_neg hfirst]
      by_cases hnext : t.currentTarget < t.current.length + frameHeaderLen + packet.length ∨
          t.config.maxPackets ≤ t.currentPackets
      · rw [if_pos hnext]
        have hflush := hem.flushInto
        obtain ⟨h1, _, _⟩ := ensureRecord_of_idle hflush.holds now
        have hem' : Emits { (t.flushInto []).1.ensureRecord now with
            currentTarget := ((t.flushInto []).1.ensureRecord now).config.maxPayloadBytes }
            (t.flushInto []).2 [gs] (some []) := ⟨by simpa using hflush.ready, h1⟩
        refine ⟨_, _, [gs], some [f], rfl, hem'.append f, ?_, ?_, by simp [hflat], ?_⟩
        · simpa [append, flushInto] using hc
        · simpa [append, flushInto] using hid
        · intro hu hne
          refine ⟨?_, by simp⟩
          simp only [List.mem_singleton, forall_eq]
          rintro rfl
          -- a record without frames has room for one
          have h0 := hpk rfl hne
          have h1 := hu.packets
          rw [hc] at hnext
          omega
      · rw [if_neg hnext]
        exact ⟨_, [], [], some (gs ++ [f]), rfl, hem.append f, hc, hid, by simp [hflat],
          fun _ _ => ⟨by simp, by simp⟩⟩

theorem Cuts.whole (id : UInt32) (hpos : 0 < packet.length) :
    Cuts id packet packet.length [⟨id, packet.length, 0, packet⟩] := by
  have hnil : Cuts id packet 0 [] := .nil
  have h := hnil.snoc hpos (by omega)
  simpa using h

theorem Pushed.finish {cur' : Option (List Frame)} (h : Pushed s cur packet s' ready recs cur' fs) :
    Pushed s cur packet (s'.flushInto ready).1 (s'.flushInto ready).2 (recs ++ cur'.toList) none
      fs where
  emits := h.emits.flushInto
  cuts := h.cuts
  order := by rw [h.order, flatten_flushed, Option.getD_none, List.append_nil]
  count := h.count
  packetId := by simpa [flushInto] using h.packetId
  config := by simpa [flushInto] using h.config
  filled := fun hu hne => (h.filled hu hne).flushed

inductive PushCases (s : Recordizer) (cur : Option (List Frame)) (packet : Packet) :
    Recordizer → Except RecordizerError (List Record) → Prop where
  | failed {s' : Recordizer} : s'.Holds cur → s'.config = s.config →
      (s'.nextPacketId = s.nextPacketId ∨ s'.nextPacketId = s.nextPacketId + 1) →
      PushCases s cur packet s' (.error .packetSize)
  | pushed {s' : Recordizer} {ready : List Record} {recs : List (List Frame)}
      {cur' : Option (List Frame)} {fs : List Frame} : Pushed s cur packet s' ready recs cur' fs →
      0 < packet.length → packet.length ≤ s.config.maxPacketBytes → packet.length ≤ u16Max →
      PushCases s cur packet s' (.ok ready)

theorem cutting_start (h : s.Holds cur)
    (hmin : s.config.minimumFragments packet.length ≤ s.config.maxFragmentsPerPacket) :
    Cutting packet id (cur.getD []) ⟨s, 0, 0, []⟩ [] cur [] where
  emits := ⟨rfl, h⟩
  cuts := .nil
  count := rfl
  order := by simp
  within := Nat.zero_le _
  slack := by simpa using hmin

theorem Holds.takeId (h : s.Holds cur) :
    Holds { s with nextPacketId := s.nextPacketId + 1 } cur := by
  cases cur <;> exact h

theorem pushFrames_cases (now : Nat) (s' : Recordizer) (res : Except RecordizerError (List Record))
    (h : s.Holds cur) (hpos : 0 < packet.length) (hmax : packet.length ≤ s.config.maxPacketBytes)
    (hlen : packet.length ≤ u16Max)
    (hmin : s.config.fragmentEnabled →
      s.config.minimumFragments packet.length ≤ s.config.maxFragmentsPerPacket)
    (hpush : pushFrames { s with nextPacketId := s.nextPacketId + 1 } packet s.nextPacketId now =
      some (s', res)) :
    PushCases s cur packet s' res := by
  unfold pushFrames at hpush
  split at hpush
  · next hfrag =>
    obtain ⟨loop, recs', cur', fs, h1, h2, hcut, h4, h5, h6, h7⟩ :=
      pushFragments_cuts hlen (cutting_start h.takeId (hmin hfrag)) hpush
    subst h1 h2
    refine .pushed ⟨hcut.emits, by rw [← h4]; exact hcut.cuts, hcut.order, ?_, h6, h5, ?_⟩
      hpos hmax hlen
    · have := hcut.within
      rw [hcut.count, h5] at this
      dsimp only at this
      omega
    · exact fun hu hne => h7 hu ⟨by simp, hne⟩
  · rcases pushWhole_cuts packet s.nextPacketId now h.takeId with
      he | ⟨s'', ready, recs, cur', he, hem, hc, hid, hord, hfill⟩
    · rw [he] at hpush
      cases hpush
      exact .failed h.takeId rfl (.inr rfl)
    · rw [he] at hpush
      cases hpush
      exact .pushed ⟨hem, Cuts.whole _ hpos, hord, by simp, hid, hc, hfill⟩ hpos hmax hlen

/-- **A push that returns has failed without a trace, or added the frames of its
packet at the end.** -/
theorem push_cases {res : Except RecordizerError (List Record)} (h : s.Holds cur)
    (hpush : s.push packet now = some (s', res)) : PushCases s cur packet s' res := by
  unfold push at hpush
  split at hpush
  · cases hpush
    exact .failed h rfl (.inl rfl)
  · next hsize =>
    rw [List.isEmpty_iff_length_eq_zero] at hsize
    split at hpush
    · cases hpush
      exact .failed h rfl (.inl rfl)
    · next hmany =>
      have hframes := fun t r => pushFrames_cases now t r h
        (show 0 < packet.length by omega) (by omega) (by omega) fun hf => by
          simpa [hf] using hmany
      dsimp only at hpush
      generalize pushFrames _ packet s.nextPacketId now = pushed at hpush hframes
      cases pushed with
      | none => cases hpush
      | some pr =>
        obtain ⟨t, r⟩ := pr
        have ht := hframes t r rfl
        cases ht with
        | failed h1 h2 h3 =>
          cases hpush
          exact .failed h1 h2 h3
        | pushed hp h1 h2 h3 =>
          dsimp only at hpush
          split at hpush
          · cases hpush
            exact .pushed hp.finish h1 h2 h3
          · cases hpush
            exact .pushed hp h1 h2 h3

/-- **With room for a frame and a packet in a record every push returns.** -/
theorem push_returns (h : s.Holds cur) (hne : cur ≠ some []) (hpackets : 1 ≤ s.config.maxPackets)
    (hpayload : minRecordPayload ≤ s.config.maxPayloadBytes) : (s.push packet now).isSome := by
  unfold push
  split
  · rfl
  · next hsize =>
    rw [List.isEmpty_iff_length_eq_zero] at hsize
    split
    · rfl
    · next hmany =>
      have hret : (pushFrames { s with nextPacketId := s.nextPacketId + 1 } packet s.nextPacketId
          now).isSome := by
        unfold pushFrames
        split
        · next hfrag =>
          have hmin : s.config.minimumFragments packet.length ≤
              s.config.maxFragmentsPerPacket := by
            dsimp only at hfrag
            simpa [hfrag] using hmany
          have hfragments : 1 ≤ s.config.maxFragmentsPerPacket :=
            Nat.le_trans (minimumFragments_pos s.config (by omega)) hmin
          exact pushFragments_returns (by omega) (cutting_start h.takeId hmin)
            ⟨hpackets, hpayload, hfragments⟩ ⟨by simp, hne⟩ (by unfold passesLeft; split <;> simp)
        · rfl
      obtain ⟨⟨t, r⟩, heq⟩ := Option.isSome_iff_exists.mp hret
      dsimp only
      rw [heq]
      cases r with
      | error e => rfl
      | ok ready =>
        dsimp only
        split <;> rfl

end Recordizer

end Qeli.Mux
