import Mathlib.Data.List.MinMax
import Mathlib.Algebra.GroupWithZero.Nat

/-!
# Flow placement

`pick_stream` of `server/handler.rs`: the bonded stream that carries a flow. A session that can
roam looks for the stream in the flow's home slot and otherwise walks clockwise to the next slot
that is ready. Slots keep their numbers when streams come and go, so the choice is the smallest
distance over the set of ready slots (`selectedSlot_eq_some`), whatever the order of the list.
-/

namespace Qeli.Session

/-- The fields of a stream that the scheduler reads. -/
structure StreamHandle (ω : Type) where
  logicalSlotId : UInt32
  ready : Bool
  writer : ω
  deriving DecidableEq, Repr

/-- The fields of a session that the scheduler reads. -/
structure Bond (ω π : Type) where
  streams : List (StreamHandle ω)
  maxStreams : UInt32
  tcpRoaming : Bool
  wirePool : π
  deriving DecidableEq, Repr

namespace Bond

variable {ω π : Type}

def width (bond : Bond ω π) : UInt32 := if bond.maxStreams = 0 then 1 else bond.maxStreams

def desired (bond : Bond ω π) (flowHash : UInt64) : UInt32 :=
  (flowHash % bond.width.toUInt64).toUInt32

def distance (bond : Bond ω π) (flowHash : UInt64) (slot : UInt32) : UInt32 :=
  (slot % bond.width + bond.width - bond.desired flowHash) % bond.width

def readyStreams (bond : Bond ω π) : List (StreamHandle ω) := bond.streams.filter (·.ready)

def selected (bond : Bond ω π) (flowHash : UInt64) : Option (StreamHandle ω) :=
  (bond.readyStreams.find? (·.logicalSlotId == bond.desired flowHash)).or
    (bond.readyStreams.argmin fun stream => (bond.distance flowHash stream.logicalSlotId).toNat)

def pickStream (bond : Bond ω π) (flowHash : UInt64) : Option (ω × π) :=
  if bond.tcpRoaming then
    if bond.readyStreams.length = 0 then none
    else (bond.selected flowHash).map fun stream => (stream.writer, bond.wirePool)
  else if bond.streams.isEmpty then none
  else
    bond.streams[(flowHash % bond.streams.length.toUInt64).toNat]?.map fun stream =>
      (stream.writer, bond.wirePool)

/-! ## Distances -/

section Distances

variable {bond : Bond ω π} {flowHash : UInt64} {slot slot' : UInt32}

def readySlots (bond : Bond ω π) : List UInt32 := bond.readyStreams.map (·.logicalSlotId)

def selectedSlot (bond : Bond ω π) (flowHash : UInt64) : Option UInt32 :=
  (bond.selected flowHash).map (·.logicalSlotId)

theorem width_of_slot (h : slot < bond.maxStreams) : bond.width = bond.maxStreams := by
  rw [width, if_neg]
  rintro h0
  rw [h0, UInt32.lt_iff_toNat_lt] at h
  exact Nat.not_lt_zero _ h

theorem desired_toNat : (bond.desired flowHash).toNat = flowHash.toNat % bond.width.toNat := by
  have hlt : flowHash.toNat % bond.width.toNat < 2 ^ 32 := by
    have hpos : 0 < bond.width.toNat := by
      rw [width]
      split
      · decide
      · exact Nat.pos_of_ne_zero fun h0 => ‹¬ bond.maxStreams = 0› (UInt32.toNat.inj h0)
    exact (Nat.mod_lt _ hpos).trans bond.width.toNat_lt
  rw [desired, UInt64.toNat_toUInt32, UInt64.toNat_mod, UInt32.toNat_toUInt64, Nat.mod_eq_of_lt hlt]

theorem distance_toNat (hslot : slot < bond.maxStreams) (hmax : bond.maxStreams.toNat < 2 ^ 31) :
    (bond.distance flowHash slot).toNat =
      if (bond.desired flowHash).toNat ≤ slot.toNat then slot.toNat - (bond.desired flowHash).toNat
      else slot.toNat + bond.width.toNat - (bond.desired flowHash).toNat := by
  have hwidth := width_of_slot hslot
  have hslot : slot.toNat < bond.width.toNat := hwidth ▸ hslot
  have hhome : (bond.desired flowHash).toNat < bond.width.toNat := by
    rw [desired_toNat]
    exact Nat.mod_lt _ (by omega)
  have hsmall : bond.width.toNat < 2 ^ 31 := hwidth ▸ hmax
  have hsum : (slot % bond.width + bond.width).toNat = slot.toNat + bond.width.toNat := by
    rw [UInt32.toNat_add, UInt32.toNat_mod, Nat.mod_eq_of_lt hslot, Nat.mod_eq_of_lt (by omega)]
  have hle : bond.desired flowHash ≤ slot % bond.width + bond.width := by
    rw [UInt32.le_iff_toNat_le, hsum]
    omega
  rw [distance, UInt32.toNat_mod, UInt32.toNat_sub_of_le _ _ hle, hsum]
  split
  · rw [show slot.toNat + bond.width.toNat - (bond.desired flowHash).toNat =
      slot.toNat - (bond.desired flowHash).toNat + bond.width.toNat by omega, Nat.add_mod_right]
    exact Nat.mod_eq_of_lt (by omega)
  · exact Nat.mod_eq_of_lt (by omega)

theorem eq_of_distance_eq (hslot : slot < bond.maxStreams) (hslot' : slot' < bond.maxStreams)
    (hmax : bond.maxStreams.toNat < 2 ^ 31)
    (h : (bond.distance flowHash slot).toNat = (bond.distance flowHash slot').toNat) :
    slot = slot' := by
  have hlt : slot.toNat < bond.width.toNat := width_of_slot hslot ▸ hslot
  have hlt' : slot'.toNat < bond.width.toNat := width_of_slot hslot ▸ hslot'
  have hhome : (bond.desired flowHash).toNat < bond.width.toNat := by
    rw [desired_toNat]
    exact Nat.mod_lt _ (by omega)
  rw [distance_toNat hslot hmax, distance_toNat hslot' hmax] at h
  refine UInt32.toNat.inj ?_
  split at h
  · split at h
    · omega
    · omega
  · split at h
    · omega
    · omega

theorem distance_desired (hslot : bond.desired flowHash < bond.maxStreams)
    (hmax : bond.maxStreams.toNat < 2 ^ 31) :
    (bond.distance flowHash (bond.desired flowHash)).toNat = 0 := by
  rw [distance_toNat hslot hmax, if_pos le_rfl, Nat.sub_self]

/-! ## The choice -/

theorem mem_readySlots {stream : StreamHandle ω} (h : stream ∈ bond.readyStreams) :
    stream.logicalSlotId ∈ bond.readySlots := List.mem_map_of_mem h

/-- A stream in the home slot is nearest, and the walk finds the nearest otherwise. -/
theorem distance_selected_le {stream : StreamHandle ω}
    (hslots : ∀ slot ∈ bond.readySlots, slot < bond.maxStreams)
    (hmax : bond.maxStreams.toNat < 2 ^ 31) (h : bond.selected flowHash = some stream) :
    stream ∈ bond.readyStreams ∧ ∀ slot ∈ bond.readySlots,
      (bond.distance flowHash stream.logicalSlotId).toNat ≤ (bond.distance flowHash slot).toNat := by
  rw [selected, Option.or_eq_some_iff] at h
  obtain hhome | ⟨-, hnearest⟩ := h
  · have hmem := List.mem_of_find?_eq_some hhome
    have hslot : stream.logicalSlotId = bond.desired flowHash := by
      simpa using List.find?_some hhome
    refine ⟨hmem, fun slot _ => ?_⟩
    rw [hslot, distance_desired (hslot ▸ hslots _ (mem_readySlots hmem)) hmax]
    exact Nat.zero_le _
  · refine ⟨List.argmin_mem hnearest, fun slot hslot => ?_⟩
    obtain ⟨other, hother, rfl⟩ := List.mem_map.mp hslot
    have hle := List.le_of_mem_argmin hother hnearest
    exact hle

theorem selected_eq_none : bond.selected flowHash = none ↔ bond.readyStreams = [] := by
  rw [selected, Option.or_eq_none_iff, List.argmin_eq_none]
  refine ⟨And.right, fun h => ⟨?_, h⟩⟩
  rw [h, List.find?_nil]

/-- A flow goes to the ready slot nearest to its home, in whatever order the streams are. -/
theorem selectedSlot_eq_some (hslots : ∀ slot ∈ bond.readySlots, slot < bond.maxStreams)
    (hmax : bond.maxStreams.toNat < 2 ^ 31) :
    bond.selectedSlot flowHash = some slot ↔ slot ∈ bond.readySlots ∧ ∀ other ∈ bond.readySlots,
      (bond.distance flowHash slot).toNat ≤ (bond.distance flowHash other).toNat := by
  rw [selectedSlot, Option.map_eq_some_iff]
  constructor
  · rintro ⟨stream, hstream, rfl⟩
    obtain ⟨hmem, hnearest⟩ := distance_selected_le hslots hmax hstream
    exact ⟨mem_readySlots hmem, hnearest⟩
  · rintro ⟨hmem, hnearest⟩
    cases hselected : bond.selected flowHash with
    | none => simp [readySlots, selected_eq_none.mp hselected] at hmem
    | some stream =>
      obtain ⟨hstream, hle⟩ := distance_selected_le hslots hmax hselected
      have hready := mem_readySlots hstream
      refine ⟨stream, rfl, ?_⟩
      exact eq_of_distance_eq (hslots _ hready) (hslots _ hmem) hmax
        (Nat.le_antisymm (hle slot hmem) (hnearest _ hready))

end Distances

/-! ## Streams that come and go -/

/-- What the placement of one flow promises of a session and of the session with one more ready
slot. -/
structure Placement (small large : Bond ω π) (slot : UInt32) (flowHash : UInt64) : Prop where
  picks : ∀ bond ∈ [small, large], bond.pickStream flowHash =
    (bond.selected flowHash).map fun stream => (stream.writer, bond.wirePool)
  ready : ∀ bond ∈ [small, large], ∀ stream, bond.selected flowHash = some stream →
    stream ∈ bond.streams ∧ stream.ready = true
  none_iff : ∀ bond ∈ [small, large], bond.pickStream flowHash = none ↔
    ∀ stream ∈ bond.streams, stream.ready = false
  home : ∀ bond ∈ [small, large], ∀ home ∈ bond.readySlots,
    home.toNat = flowHash.toNat % bond.maxStreams.toNat → bond.selectedSlot flowHash = some home
  stable : large.selectedSlot flowHash = some slot ∨
    small.selectedSlot flowHash = large.selectedSlot flowHash

theorem pickStream_roaming {bond : Bond ω π} (h : bond.tcpRoaming = true) (flowHash : UInt64) :
    bond.pickStream flowHash =
      (bond.selected flowHash).map fun stream => (stream.writer, bond.wirePool) := by
  rw [pickStream, if_pos h]
  split
  · rename_i hempty
    rw [selected_eq_none.mpr (List.length_eq_zero_iff.mp hempty), Option.map_none]
  · rfl

/-- **Stable placement**: one slot more or less moves the flows of that slot only. -/
theorem placement_stable (small large : Bond ω π) (slot : UInt32) (flowHash : UInt64)
    (hroaming : ∀ bond ∈ [small, large], bond.tcpRoaming = true)
    (hslots : ∀ bond ∈ [small, large], ∀ slot ∈ bond.readySlots, slot < bond.maxStreams)
    (hmax : large.maxStreams.toNat < 2 ^ 31) (hsame : small.maxStreams = large.maxStreams)
    (hone : ∀ other, other ∈ large.readySlots ↔ other = slot ∨ other ∈ small.readySlots) :
    Placement small large slot flowHash := by
  have hlimit : ∀ bond ∈ [small, large], bond.maxStreams.toNat < 2 ^ 31 :=
    List.forall_mem_cons.mpr ⟨hsame ▸ hmax, List.forall_mem_singleton.mpr hmax⟩
  refine
    { picks := fun bond hbond => pickStream_roaming (hroaming bond hbond) flowHash
      ready := fun bond hbond stream hstream => ?_
      none_iff := fun bond hbond => ?_
      home := fun bond hbond home hready hhome => ?_
      stable := ?_ }
  · exact List.mem_filter.mp (distance_selected_le (hslots bond hbond) (hlimit bond hbond) hstream).1
  · rw [pickStream_roaming (hroaming bond hbond), Option.map_eq_none_iff, selected_eq_none,
      readyStreams, List.filter_eq_nil_iff]
    simp
  · have hlt := hslots bond hbond home hready
    have hdesired : bond.desired flowHash = home := by
      refine UInt32.toNat.inj ?_
      rw [desired_toNat, width_of_slot hlt, hhome]
    rw [selectedSlot_eq_some (hslots bond hbond) (hlimit bond hbond)]
    refine ⟨hready, fun other _ => ?_⟩
    rw [← hdesired, distance_desired (hdesired ▸ hlt) (hlimit bond hbond)]
    exact Nat.zero_le _
  · have hdistance : ∀ other, small.distance flowHash other = large.distance flowHash other :=
      fun other => by rw [distance, distance, desired, desired, width, width, hsame]
    obtain ⟨picked, hpicked⟩ : ∃ picked, large.selectedSlot flowHash = some picked := by
      cases hnone : large.selected flowHash with
      | none =>
        have hmem := (hone slot).mpr (.inl rfl)
        simp [readySlots, selected_eq_none.mp hnone] at hmem
      | some stream => exact ⟨stream.logicalSlotId, by rw [selectedSlot, hnone, Option.map_some]⟩
    rw [hpicked]
    obtain ⟨hmem, hnearest⟩ := (selectedSlot_eq_some (hslots large (by simp)) hmax).mp hpicked
    obtain rfl | hold := (hone picked).mp hmem
    · exact .inl rfl
    · refine .inr ((selectedSlot_eq_some (hslots small (by simp)) (hsame ▸ hmax)).mpr
        ⟨hold, fun other hother => ?_⟩)
      rw [hdistance, hdistance]
      exact hnearest other ((hone other).mpr (.inr hother))

def fourSlots (slots : List UInt32) : Bond UInt32 Unit where
  streams := slots.map fun slot => ⟨slot, true, slot⟩
  maxStreams := 4
  tcpRoaming := true
  wirePool := ()

theorem placement_stable_middle : Placement (fourSlots [3, 0]) (fourSlots [0, 2, 3]) 2 9 := by
  refine placement_stable _ _ 2 9 ?_ ?_ ?_ rfl fun other => ?_
  · decide
  · simp only [readySlots, readyStreams, fourSlots, List.forall_mem_cons, List.forall_mem_map]
    decide
  · change 4 < 2 ^ 31
    omega
  · simp only [readySlots, readyStreams, fourSlots, List.map_cons, List.map_nil, List.filter_cons,
      List.filter_nil, if_true, List.mem_cons, List.not_mem_nil, or_false]
    grind

end Bond

end Qeli.Session
