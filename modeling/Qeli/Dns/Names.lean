import Qeli.Dns.Message
import Qeli.Lib.Encoding

/-!
# What a name spells

`Spells` follows the bytes of a name without counting: labels of 1 to 63 bytes, pointers back to
an offset behind the header, the root byte. `walk_name` finds exactly the names that are spelled in
at most 256 steps and 255 bytes. A name of 255 bytes has at most 127 labels; where no pointer leads
to a pointer it has one pointer more at most, and with the root byte these are 256 steps.
-/

namespace Qeli.Dns

open Qeli.Lib

/-- A step of an expansion. -/
inductive Hop where
  | label (text : Label)
  | pointer
  deriving DecidableEq, Repr

def labelsOf : List Hop → List Label
  | [] => []
  | .label text :: hops => text :: labelsOf hops
  | .pointer :: hops => labelsOf hops

/-- The end of a name on the wire: behind its first pointer or, without one, behind the root. -/
def stopOf : Nat → List Hop → Nat
  | pos, [] => pos + 1
  | pos, .label text :: hops => stopOf (pos + 1 + text.length) hops
  | pos, .pointer :: _ => pos + 2

/-- The bytes from a position on spell a name in these steps and the root. -/
inductive Spells (msg : List UInt8) : Nat → List Hop → Prop
  | root {pos : Nat} (hroot : msg[pos]? = some 0) : Spells msg pos []
  | label {pos : Nat} {hops : List Hop} (len : UInt8) (hlen : msg[pos]? = some len)
    (hpos : 1 ≤ len.toNat) (hlimit : len.toNat ≤ 63) (hinside : pos + 1 + len.toNat ≤ msg.length)
    (hrest : Spells msg (pos + 1 + len.toNat) hops) :
    Spells msg pos (.label ((msg.drop (pos + 1)).take len.toNat) :: hops)
  | pointer {pos target : Nat} {hops : List Hop} (high low : UInt8) (hhigh : msg[pos]? = some high)
    (hpointer : 192 ≤ high.toNat) (hlow : msg[pos + 1]? = some low)
    (htarget : target = (high.toNat - 192) * 256 + low.toNat) (hheader : 12 ≤ target)
    (hback : target < pos) (hrest : Spells msg target hops) : Spells msg pos (.pointer :: hops)

/-! ## Length bytes -/

theorem pointer_iff (len : UInt8) : len &&& 0xC0 = 0xC0 ↔ 192 ≤ len.toNat := by
  revert len
  exact Str.forall_byte (by decide +kernel)

theorem label_iff (len : UInt8) : len &&& 0xC0 = 0 ∧ len ≠ 0 ↔ 1 ≤ len.toNat ∧ len.toNat ≤ 63 := by
  revert len
  exact Str.forall_byte (by decide +kernel)

theorem pointerTarget_eq {len : UInt8} (h : 192 ≤ len.toNat) (low : UInt8) :
    pointerTarget len low = (len.toNat - 192) * 256 + low.toNat := by
  have hbits : ∀ b : UInt8, 192 ≤ b.toNat → (b &&& 0x3F).toNat = b.toNat - 192 :=
    Str.forall_byte (by decide +kernel)
  rw [pointerTarget, hbits len h, ← Nat.shiftLeft_add_eq_or_of_lt low.toNat_lt, Nat.shiftLeft_eq]

/-! ## The walk -/

section Walks

variable {msg : List UInt8} {pos rounds wireLen : Nat} {stop : Option Nat} {labels : List Label}
  {r : Nat × List Label} {hops : List Hop}

theorem length_label {len : Nat} (h : pos + 1 + len ≤ msg.length) :
    ((msg.drop (pos + 1)).take len).length = len := by
  rw [List.length_take, List.length_drop]
  omega

theorem Walk.spells (h : Walk msg rounds pos stop wireLen labels r) (hwire : wireLen ≤ 255) :
    ∃ hops, Spells msg pos hops ∧ hops.length < rounds ∧
      wireLen + wireLength (labelsOf hops) ≤ 255 ∧
      r = (stop.getD (stopOf pos hops), labels ++ labelsOf hops) := by
  induction h with
  | @pointer rounds pos stop wireLen labels r len low hlen hpointer hlow hheader hback _ ih =>
    obtain ⟨hops, hspells, hrounds, hlength, rfl⟩ := ih hwire
    have hlarge := (pointer_iff len).mp hpointer
    rw [pointerTarget_eq hlarge] at hheader hback hspells
    exact ⟨.pointer :: hops, .pointer len low hlen hlarge hlow rfl hheader hback hspells,
      Nat.succ_lt_succ hrounds, hlength, rfl⟩
  | root hlen => exact ⟨[], .root hlen, Nat.succ_pos _, hwire, by simp [stopOf, labelsOf]⟩
  | @label rounds pos stop wireLen labels r len hlen hlabel hzero hbound hend _ ih =>
    obtain ⟨hops, hspells, hrounds, hlength, rfl⟩ := ih hbound
    obtain ⟨hpos, hlimit⟩ := (label_iff len).mp ⟨hlabel, hzero⟩
    refine ⟨_, .label len hlen hpos hlimit hend hspells, Nat.succ_lt_succ hrounds, ?_, ?_⟩
    · rw [labelsOf, wireLength_cons, length_label hend]
      omega
    · rw [stopOf, length_label hend, labelsOf, List.append_assoc, List.singleton_append]

theorem Spells.walk (h : Spells msg pos hops) (hrounds : hops.length < rounds)
    (hlength : wireLen + wireLength (labelsOf hops) ≤ 255) :
    Walk msg rounds pos stop wireLen labels
      (stop.getD (stopOf pos hops), labels ++ labelsOf hops) := by
  induction h generalizing rounds stop wireLen labels with
  | root hroot =>
    obtain ⟨rounds, rfl⟩ := Nat.exists_eq_succ_of_ne_zero (Nat.ne_of_gt hrounds)
    rw [labelsOf, List.append_nil]
    exact .root hroot
  | @label pos hops len hlen hpos hlimit hinside _ ih =>
    obtain ⟨rounds, rfl⟩ := Nat.exists_eq_succ_of_ne_zero (Nat.ne_of_gt hrounds.pos)
    obtain ⟨hlabel, hzero⟩ := (label_iff len).mpr ⟨hpos, hlimit⟩
    rw [labelsOf, wireLength_cons, length_label hinside] at hlength
    refine .label len hlen hlabel hzero (by omega) hinside ?_
    rw [stopOf, length_label hinside, labelsOf, List.append_cons labels _ (labelsOf hops)]
    refine ih (Nat.lt_of_succ_lt_succ hrounds) ?_
    omega
  | @pointer pos target hops high low hhigh hpointer hlow htarget hheader hback _ ih =>
    obtain ⟨rounds, rfl⟩ := Nat.exists_eq_succ_of_ne_zero (Nat.ne_of_gt hrounds.pos)
    rw [← pointerTarget_eq hpointer] at htarget
    subst htarget
    exact .pointer high low hhigh ((pointer_iff high).mpr hpointer) hlow hheader hback
      (ih (Nat.lt_of_succ_lt_succ hrounds) hlength)

/-! ## Counting steps -/

theorem Spells.two_mul_labels_le (h : Spells msg pos hops) :
    2 * (labelsOf hops).length ≤ wireLength (labelsOf hops) := by
  induction h with
  | root => exact Nat.zero_le _
  | @label pos hops len hlen hpos hlimit hinside _ ih =>
    rw [labelsOf, wireLength_cons, List.length_cons, length_label hinside]
    omega
  | pointer _ _ _ _ _ _ _ _ _ ih => exact ih

/-- No pointer leads directly to another pointer. -/
def PointersApart (hops : List Hop) : Prop :=
  hops.IsChain fun a b => ¬ (a = .pointer ∧ b = .pointer)

/-- Between two pointers there is a label. -/
theorem length_le_of_apart (h : PointersApart hops) :
    hops.length ≤ 2 * (labelsOf hops).length + 1 ∧
      (hops.head? ≠ some .pointer → hops.length ≤ 2 * (labelsOf hops).length) := by
  induction hops with
  | nil => exact ⟨Nat.zero_le _, fun _ => le_rfl⟩
  | cons hop hops ih =>
    obtain ⟨hany, hlabel⟩ := ih h.of_cons
    cases hop with
    | label text =>
      rw [labelsOf, List.length_cons, List.length_cons]
      exact ⟨by omega, fun _ => by omega⟩
    | pointer =>
      have hnext : hops.head? ≠ some .pointer := fun hhead => by
        obtain ⟨rest, rfl⟩ := List.head?_eq_some_iff.mp hhead
        exact (List.isChain_cons_cons.mp h).1 ⟨rfl, rfl⟩
      have hless := hlabel hnext
      rw [labelsOf, List.length_cons]
      exact ⟨by omega, fun hhead => absurd rfl hhead⟩

end Walks

/-- What `walk_name` returns for every message and position. -/
structure NameLaw (msg : List UInt8) (pos : Nat) : Prop where
  exact : ∀ stop labels, walkName msg pos = some (stop, labels) ↔
    ∃ hops, Spells msg pos hops ∧ labelsOf hops = labels ∧ stopOf pos hops = stop ∧
      hops.length + 1 ≤ 256 ∧ wireLength labels + 1 ≤ 255
  unlimited : ∀ hops, Spells msg pos hops → PointersApart hops → wireLength (labelsOf hops) + 1 ≤ 255 →
    walkName msg pos = some (stopOf pos hops, labelsOf hops)

/-- **Names are decoded exactly**, and the step limit refuses none that fits and in which no
pointer leads to a pointer. -/
theorem name_decoding (msg : List UInt8) (pos : Nat) : NameLaw msg pos := by
  have hwalk : ∀ hops, Spells msg pos hops → hops.length + 1 ≤ 256 →
      wireLength (labelsOf hops) + 1 ≤ 255 →
      walkName msg pos = some (stopOf pos hops, labelsOf hops) := fun hops h hsteps hlength =>
    walkName_iff.mpr (h.walk (by omega) (by omega))
  refine ⟨fun stop labels => ⟨fun h => ?_, ?_⟩, fun hops h hapart hlength => ?_⟩
  · obtain ⟨hops, hspells, hsteps, hlength, heq⟩ := (walkName_iff.mp h).spells (by decide)
    cases heq
    exact ⟨hops, hspells, rfl, rfl, hsteps, by rw [List.nil_append]; omega⟩
  · rintro ⟨hops, hspells, rfl, rfl, hsteps, hlength⟩
    exact hwalk hops hspells hsteps hlength
  · have hlabels := h.two_mul_labels_le
    have hcount := (length_le_of_apart hapart).1
    exact hwalk hops h (by omega) hlength

end Qeli.Dns
