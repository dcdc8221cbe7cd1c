import Qeli.Control.Reassembler

/-!
# Receipts of completed messages

`Pushes` lists what `push` can do to the memory of completed messages: nothing, or
remember the message of the frame. The memory never holds an id twice nor more than 64
messages (`Remembers`). A management message that is rejected after it was completed is
taken out again, but if the memory was full its completion has already pushed out the
oldest receipt: `rejected_keeps_receipts` says exactly when the others are kept.
-/

namespace Qeli.Control

open Qeli.Lib

namespace Reassembler

/-- The assembly of a message, unless it has expired. -/
def assembling (r : Reassembler) (now : Nat) (messageId : UInt32) : Option Assembly :=
  (r.inflight.get? messageId).filter fun assembly => now - assembly.startedAt < reassemblyTimeout

end Reassembler

/-- The frame is the last part that the assembly waits for. -/
structure Assembly.EndsWith (a : Assembly) (frame : Frame) : Prop where
  messageType : a.messageType = frame.messageType
  flags : a.flags = frame.flags
  partCount : a.partCount = frame.partCount
  next : frame.partIndex = a.parts.length
  last : a.parts.length + 1 = frame.partCount
  size : a.totalLen + frame.payload.length ≤ maxMessageSize

namespace Reassembler

/-- The frame ends its message: as the only part, or as the last one of an assembly. -/
def Ends (assembly : Option Assembly) (frame : Frame) : Prop :=
  if frame.partCount = 1 then assembly = none else ∃ a ∈ assembly, a.EndsWith frame

structure Completes (r : Reassembler) (now : Nat) (frame : Frame) : Prop where
  valid : validateMetadata frame = .ok ()
  fresh : r.receipt? frame.messageId = none
  ends : Ends (r.assembling now frame.messageId) frame

/-- What `push` does to the memory of completed messages, by whether the frame completes one. -/
inductive Pushes (r : Reassembler) (frame : Frame) (completes : Prop) :
    Reassembler → Except ControlV2Error ReassemblyOutcome → Prop where
  | kept {inflight : KeyMap UInt32 Assembly} {res : Except ControlV2Error ReassemblyOutcome} :
      ¬ completes → (∀ message, res ≠ .ok (.complete message)) →
      Pushes r frame completes { r with inflight := inflight } res
  | completed {inflight : KeyMap UInt32 Assembly} {entry : Completed} {message : Message} :
      completes → entry.messageId = frame.messageId → message.messageId = frame.messageId →
      Pushes r frame completes (rememberCompleted { r with inflight := inflight } entry)
        (.ok (.complete message))

variable {r : Reassembler} {frame : Frame}

theorem Pushes.congr {p q : Prop} {r' : Reassembler} {res : Except ControlV2Error ReassemblyOutcome}
    (h : Pushes r frame p r' res) (hpq : p ↔ q) : Pushes r frame q r' res := propext hpq ▸ h

theorem join_effect (sha : Sha256) (assembly : Assembly) (inflight : KeyMap UInt32 Assembly) :
    Pushes r frame (assembly.EndsWith frame)
      (join sha { r with inflight := inflight } frame assembly).1
      (join sha { r with inflight := inflight } frame assembly).2 := by
  unfold join
  split
  · next hother =>
    refine .kept (fun h => ?_) (by simp)
    exact hother.elim (· h.messageType) (·.elim (· h.flags) (· h.partCount))
  next hsame =>
  rw [not_or, not_or, not_not, not_not, not_not] at hsame
  split
  · next hknown =>
    dsimp only
    exact .kept (fun h => Nat.lt_irrefl _ (h.next ▸ hknown)) (by split <;> simp)
  split
  · next hgap => exact .kept (fun h => hgap h.next) (by simp)
  next hnext =>
  split
  · next hover =>
    refine .kept (fun h => ?_) (by simp)
    exact absurd (h.size.trans (by decide)) (Nat.not_le.mpr (checkedAdd_eq_none.mp hover))
  next total htotal =>
  obtain ⟨-, rfl⟩ := checkedAdd_eq_some.mp htotal
  split
  · next hlarge => exact .kept (fun h => Nat.not_le.mpr hlarge h.size) (by simp)
  next hsize =>
  dsimp only
  rw [List.length_append, List.length_singleton]
  split
  · next hmore => exact .kept (fun h => hmore (h.last.trans h.partCount.symm)) (by simp)
  · next hlast =>
    exact .completed ⟨hsame.1, hsame.2.1, hsame.2.2, not_not.mp hnext,
      (not_not.mp hlast).trans hsame.2.2, Nat.not_lt.mp hsize⟩ rfl rfl

theorem pushNew_effect (sha : Sha256) (now : Nat) (inflight : KeyMap UInt32 Assembly) :
    Pushes r frame (Ends (inflight.get? frame.messageId) frame)
      (pushNew sha { r with inflight := inflight } now frame).1
      (pushNew sha { r with inflight := inflight } now frame).2 := by
  unfold pushNew Ends
  split
  · cases hget : inflight.get? frame.messageId with
    | some assembly =>
      rw [if_pos (by rw [KeyMap.contains, hget]; rfl)]
      exact .kept (fun h => by cases h) (by simp)
    | none =>
      rw [if_neg (by rw [KeyMap.contains, hget]; decide)]
      exact .completed rfl rfl rfl
  · next hparts =>
    unfold assemblyFor
    cases hget : inflight.get? frame.messageId with
    | some assembly => exact (join_effect sha assembly inflight).congr (by simp)
    | none =>
      have hnone : ¬ ∃ a ∈ (none : Option Assembly), a.EndsWith frame := by simp
      by_cases hindex : frame.partIndex ≠ 0
      · rw [if_pos hindex]
        exact .kept hnone (by simp)
      rw [if_neg hindex]
      by_cases hroom : maxInflightMessages ≤ inflight.size
      · rw [if_pos hroom]
        exact .kept hnone (by simp)
      · rw [if_neg hroom]
        refine (join_effect sha _ _).congr (iff_of_false (fun h => ?_) hnone)
        exact hparts h.last.symm

/-- **`push` leaves the memory alone, or the frame completes a message and it is remembered.** -/
theorem push_effect (sha : Sha256) (r : Reassembler) (now : Nat) (frame : Frame) :
    Pushes r frame (r.Completes now frame) (r.push sha now frame).1 (r.push sha now frame).2 := by
  unfold push
  cases hvalid : validateMetadata frame with
  | error e => exact .kept (fun h => by cases hvalid.symm.trans h.valid) (by simp)
  | ok u =>
    dsimp only
    split
    · next entry hentry =>
      exact .kept (fun h => by cases hentry.symm.trans h.fresh) (by split <;> simp)
    · next hfresh =>
      have hget : (r.expire now).1.inflight.get? frame.messageId =
          r.assembling now frame.messageId := KeyMap.get?_retain ..
      refine (pushNew_effect sha now (r.expire now).1.inflight).congr ?_
      rw [hget]
      exact ⟨fun h => ⟨hvalid, hfresh, h⟩, fun h => h.ends⟩

/-! ## The memory -/

/-- No id is remembered twice and the memory is bounded. -/
structure Remembers (r : Reassembler) : Prop where
  ids : (r.completed.map Completed.messageId).Nodup
  bounded : r.completed.length ≤ completedIdCache

theorem receipt?_eq_some (h : (r.completed.map Completed.messageId).Nodup) {id : UInt32}
    {entry : Completed} :
    r.receipt? id = some entry ↔ entry ∈ r.completed ∧ entry.messageId = id := by
  constructor
  · intro hsome
    exact ⟨List.mem_of_find?_eq_some hsome, by simpa using List.find?_some hsome⟩
  · rintro ⟨hmem, rfl⟩
    cases hf : r.receipt? entry.messageId with
    | none => exact absurd (List.mem_map_of_mem hmem) (receipt?_eq_none.mp hf)
    | some found =>
      have hid : found.messageId = entry.messageId := by simpa using List.find?_some hf
      rw [List.inj_on_of_nodup_map h (List.mem_of_find?_eq_some hf) hmem hid]

namespace Remembers

variable {r : Reassembler}

theorem new : Remembers .new := ⟨.nil, Nat.zero_le _⟩

theorem kept_sublist (r : Reassembler) : List.Sublist
    (if r.completed.length = completedIdCache then r.completed.tail else r.completed)
    r.completed := by
  split
  · exact List.tail_sublist _
  · exact .refl _

theorem rememberCompleted (h : r.Remembers) {entry : Completed}
    (hnew : r.receipt? entry.messageId = none) : (r.rememberCompleted entry).Remembers := by
  have hsub := kept_sublist r
  refine ⟨?_, ?_⟩
  · unfold Reassembler.rememberCompleted
    dsimp only
    rw [List.map_append, List.map_singleton]
    refine List.Nodup.append (h.ids.sublist (hsub.map _)) (List.nodup_singleton _) ?_
    rw [List.disjoint_singleton]
    exact fun hmem => receipt?_eq_none.mp hnew ((hsub.map _).subset hmem)
  · have hb := h.bounded
    unfold Reassembler.rememberCompleted completedIdCache at *
    dsimp only
    rw [List.length_append, List.length_singleton]
    split
    · rw [List.length_tail]
      omega
    · omega

theorem push (h : r.Remembers) (sha : Sha256) (now : Nat) (frame : Frame) :
    (r.push sha now frame).1.Remembers := by
  have heff := r.push_effect sha now frame
  generalize r.push sha now frame = step at heff
  obtain ⟨r', res⟩ := step
  cases heff with
  | kept => exact ⟨h.ids, h.bounded⟩
  | @completed inflight entry message hcompletes hentry =>
    refine rememberCompleted (r := { r with inflight := inflight }) ⟨h.ids, h.bounded⟩ ?_
    rw [hentry]
    exact hcompletes.fresh

theorem filter (h : r.Remembers) (p : Completed → Bool) :
    Remembers { r with completed := r.completed.filter p } :=
  ⟨h.ids.sublist (List.filter_sublist.map _),
    Nat.le_trans (List.length_filter_le _ _) h.bounded⟩

theorem map_markValidated (id : UInt32) (entries : List Completed) :
    (markValidated id entries).map Completed.messageId = entries.map Completed.messageId := by
  induction entries with
  | nil => rfl
  | cons entry entries ih =>
    unfold markValidated
    split
    · rfl
    · rw [List.map_cons, ih, List.map_cons]

theorem markValidated (h : r.Remembers) (id : UInt32) :
    Remembers { r with completed := Reassembler.markValidated id r.completed } := by
  have hids := map_markValidated id r.completed
  refine ⟨by rw [hids]; exact h.ids, ?_⟩
  have hlen := congrArg List.length hids
  rw [List.length_map, List.length_map] at hlen
  dsimp only
  rw [hlen]
  exact h.bounded

theorem pushManagement (h : r.Remembers) (sha : Sha256) (json : Json) (now : Nat)
    (frame : Frame) : (r.pushManagement sha json now frame).1.Remembers := by
  have hpush := h.push sha now frame
  unfold Reassembler.pushManagement
  split
  · exact h
  · generalize r.push sha now frame = step at hpush
    obtain ⟨r', res⟩ := step
    cases res with
    | error e => exact hpush
    | ok outcome =>
      cases outcome with
      | pending => exact hpush
      | duplicate =>
        dsimp only
        split <;> exact hpush
      | complete message =>
        dsimp only
        split
        · exact hpush.filter _
        · exact hpush.markValidated _

end Remembers

/-! ## Any calls -/

inductive Call where
  | push (now : Nat) (frame : Frame)
  | pushManagement (now : Nat) (frame : Frame)
  | expire (now : Nat)
  deriving DecidableEq, Repr

def call (sha : Sha256) (json : Json) (self : Reassembler) : Call → Reassembler
  | .push now frame => (self.push sha now frame).1
  | .pushManagement now frame => (self.pushManagement sha json now frame).1
  | .expire now => (self.expire now).1

def callStep (sha : Sha256) (json : Json) (r : Reassembler) (c : Call) (r' : Reassembler) : Prop :=
  r' = r.call sha json c

theorem remembers_run {sha : Sha256} {json : Json} {calls : List Call}
    (h : Run (callStep sha json) .new calls r) : r.Remembers :=
  h.preserves .new fun {r c r'} hr hstep => by
    rw [hstep]
    cases c with
    | push now frame => exact hr.push sha now frame
    | pushManagement now frame => exact hr.pushManagement sha json now frame
    | expire now => exact ⟨hr.ids, hr.bounded⟩

/-! ## A rejected message -/

/-- The frame is of a management type and completes its message. -/
def CompletesManagement (r : Reassembler) (now : Nat) (frame : Frame) : Prop :=
  (frame.messageType = typeNotice ∨ frame.messageType = typeKick) ∧ r.Completes now frame

/-- What a failing call of `push_management` leaves of the memory: all of it, unless the
frame completed a message; then the message is out again, and the oldest receipt with
it if the memory was full. -/
theorem pushManagement_error {sha : Sha256} {json : Json} {now : Nat} {err : ControlV2Error}
    (h : (r.pushManagement sha json now frame).2 = .error err) :
    ¬ r.CompletesManagement now frame ∧
        (r.pushManagement sha json now frame).1.completed = r.completed ∨
      r.CompletesManagement now frame ∧
        (r.pushManagement sha json now frame).1.completed =
          (if r.completed.length = completedIdCache then r.completed.tail
            else r.completed).filter fun entry => entry.messageId ≠ frame.messageId := by
  have heff := r.push_effect sha now frame
  unfold pushManagement at h ⊢
  split at h
  · next htype =>
    rw [if_pos htype]
    exact .inl ⟨fun hc => hc.1.elim htype.1 htype.2, rfl⟩
  · next htype =>
    rw [if_neg htype]
    generalize r.push sha now frame = step at h heff ⊢
    obtain ⟨r', res⟩ := step
    cases heff with
    | kept hnot hres =>
      refine .inl ⟨fun hc => hnot hc.2, ?_⟩
      cases res with
      | error e => rfl
      | ok outcome =>
        cases outcome with
        | pending => rfl
        | duplicate =>
          dsimp only
          split <;> rfl
        | complete message => exact absurd rfl (hres message)
    | @completed inflight entry message hcompletes hentry hmessage =>
      refine .inr ⟨⟨by tauto, hcompletes⟩, ?_⟩
      dsimp only at h ⊢
      split at h
      · dsimp only [rememberCompleted]
        rw [hmessage, List.filter_append]
        simp [hentry]
      · cases h

/-- **A rejected management message leaves every other receipt as it was, exactly unless
the memory is full and the frame completed the message.** -/
theorem rejected_keeps_receipts {sha : Sha256} {json : Json} {calls : List Call}
    {r : Reassembler} (h : Run (callStep sha json) .new calls r) {now : Nat} {frame : Frame}
    {err : ControlV2Error} (herr : (r.pushManagement sha json now frame).2 = .error err) :
    (∀ id, id ≠ frame.messageId → ∀ entry, r.receipt? id = some entry →
        (r.pushManagement sha json now frame).1.receipt? id = some entry) ↔
      r.completed.length < completedIdCache ∨ ¬ r.CompletesManagement now frame := by
  have hr := remembers_run h
  have hr' := hr.pushManagement sha json now frame
  simp only [receipt?_eq_some hr.ids, receipt?_eq_some hr'.ids]
  rcases pushManagement_error herr with ⟨hc, hsame⟩ | ⟨hc, hleft⟩
  · rw [hsame]
    exact iff_of_true (fun id _ entry hentry => hentry) (.inr hc)
  · rw [hleft]
    by_cases hfull : r.completed.length = completedIdCache
    · -- the oldest receipt is another message's, and it is gone
      rw [if_pos hfull]
      refine iff_of_false (fun hall => ?_) (by simp [hfull, hc])
      obtain ⟨oldest, rest, hlist⟩ : ∃ oldest rest, r.completed = oldest :: rest := by
        cases hl : r.completed with
        | nil => rw [hl] at hfull; cases hfull
        | cons oldest rest => exact ⟨oldest, rest, rfl⟩
      have hid : oldest.messageId ≠ frame.messageId := fun heq =>
        receipt?_eq_none.mp hc.2.fresh (by simp [hlist, heq])
      have hgone := (hall _ hid oldest ⟨by simp [hlist], rfl⟩).1
      have hids := hr.ids
      rw [hlist, List.tail_cons] at hgone
      rw [hlist, List.map_cons, List.nodup_cons] at hids
      exact hids.1 (List.mem_map_of_mem (List.mem_filter.mp hgone).1)
    · rw [if_neg hfull]
      refine iff_of_true (fun id hid entry hentry => ?_)
        (.inl (Nat.lt_of_le_of_ne hr.bounded hfull))
      refine ⟨List.mem_filter.mpr ⟨hentry.1, ?_⟩, hentry.2⟩
      simpa [hentry.2] using hid

/-- A digest that is constant and a reader that takes every payload that is not empty. -/
def flatSha : Sha256 := fun _ => Vector.replicate 32 0

def lenientJson : Json where
  notice := fun payload =>
    if payload.isEmpty then .error "EOF while parsing a value"
    else .ok ⟨.administrative, .info, "maintenance", none, none⟩
  kick := fun _ => .error "expected a kick"

def noticeFrame (messageId : Nat) (payload : List UInt8) : Frame :=
  ⟨typeNotice, 0, UInt32.ofNat messageId, 0, 1, payload⟩

/-- The state after that many notices, each delivered. -/
def afterNotices (n : Nat) : Reassembler :=
  ((List.range n).map fun i => Call.pushManagement 0 (noticeFrame i [1])).foldl
    (call flatSha lenientJson) .new

theorem run_afterNotices (n : Nat) : Run (callStep flatSha lenientJson) .new
    ((List.range n).map fun i => Call.pushManagement 0 (noticeFrame i [1])) (afterNotices n) := by
  have hcall : ∀ r c, callStep flatSha lenientJson r c (call flatSha lenientJson r c) :=
    fun _ _ => rfl
  exact run_foldl hcall _ _

/-- With one receipt in the memory, an empty notice is rejected and the receipt stays. -/
theorem rejected_keeps_receipts_one :
    let r := afterNotices 1
    let r' := (r.pushManagement flatSha lenientJson 0 (noticeFrame 1 [])).1
    ∃ entry, r.receipt? 0 = some entry ∧ entry.managementValidated = true ∧
      r'.receipt? 0 = some entry := by
  intro r r'
  have herr : (r.pushManagement flatSha lenientJson 0 (noticeFrame 1 [])).2 =
      .error (.invalidManagementPayload "EOF while parsing a value") := by decide +kernel
  have hlen : r.completed.length < completedIdCache := by decide +kernel
  have hentry : r.receipt? 0 =
      some ⟨0, typeNotice, 0, [Vector.replicate 32 0], true⟩ := by decide +kernel
  have hkept := (rejected_keeps_receipts (run_afterNotices 1) herr).mpr (.inl hlen)
  exact ⟨_, hentry, rfl, hkept 0 (by decide) _ hentry⟩

/-- With 64 receipts in the memory, an empty notice is rejected, and the receipt of the
first notice is gone: a repetition of it is delivered again. -/
theorem rejection_evicts_receipt :
    let r := afterNotices 64
    let r' := (r.pushManagement flatSha lenientJson 0 (noticeFrame 64 [])).1
    Run (callStep flatSha lenientJson) .new
        ((List.range 64).map fun i => Call.pushManagement 0 (noticeFrame i [1])) r ∧
      (r.pushManagement flatSha lenientJson 0 (noticeFrame 64 [])).2 =
        .error (.invalidManagementPayload "EOF while parsing a value") ∧
      (r.receipt? 0).isSome ∧ r'.receipt? 0 = none ∧
      (r.pushManagement flatSha lenientJson 0 (noticeFrame 0 [1])).2 = .ok .duplicate ∧
      (r'.pushManagement flatSha lenientJson 0 (noticeFrame 0 [1])).2 =
        .ok (.complete ⟨typeNotice, 0, 0, [1]⟩) := by
  intro r r'
  refine ⟨run_afterNotices 64, ?_⟩
  -- one evaluation of the 64 notices for all five facts
  decide +kernel

end Reassembler

end Qeli.Control
