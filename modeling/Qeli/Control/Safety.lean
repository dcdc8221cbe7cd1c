import Qeli.Control.Reassembler

/-!
# The reassembler under arbitrary frames

Nothing is assumed about the frames or the clock. `Safe` is the invariant of the two tables;
`Pushed` lists what one `push` can do to a safe state, and the invariant over all pushes
follows. A new assembly is entered before the later checks of `push`, none of which can fail
for it (`join_fresh`), so a refused frame leaves the tables as they were after expiry. A frame
that fails the metadata checks is refused even before that.
-/

namespace Qeli.Control

open Qeli.Lib

/-! ## Assemblies -/

structure Assembly.Sound (a : Assembly) : Prop where
  parts_lt : a.parts.length < a.partCount
  count_le : a.partCount ≤ maxParts
  total : a.totalLen = (a.parts.map List.length).sum
  part_le : ∀ part ∈ a.parts, part.length ≤ maxPartPayload

theorem Assembly.Sound.total_le {a : Assembly} (h : a.Sound) :
    a.totalLen ≤ a.parts.length * maxPartPayload := by
  rw [h.total]
  have hsum := List.sum_le_card_nsmul (a.parts.map List.length) maxPartPayload fun n hn => by
    obtain ⟨part, hpart, rfl⟩ := List.mem_map.mp hn
    exact h.part_le part hpart
  simpa using hsum

def Assembly.withPart (a : Assembly) (payload : List UInt8) : Assembly :=
  { a with totalLen := a.totalLen + payload.length, parts := a.parts ++ [payload] }

theorem Assembly.Sound.withPart {a : Assembly} {payload : List UInt8} (h : a.Sound)
    (hpayload : payload.length ≤ maxPartPayload)
    (hmore : a.parts.length + 1 ≠ a.partCount) : (a.withPart payload).Sound where
  parts_lt := by
    have hlt := h.parts_lt
    simp only [Assembly.withPart, List.length_append, List.length_singleton]
    omega
  count_le := h.count_le
  total := by
    simp [Assembly.withPart, h.total]
  part_le part hpart := by
    rcases List.mem_append.mp hpart with hold | hnew
    · exact h.part_le part hold
    · rw [List.mem_singleton.mp hnew]
      exact hpayload

def Frame.opened (frame : Frame) (now : Nat) : Assembly :=
  ⟨frame.messageType, frame.flags, frame.partCount, [], 0, now⟩

theorem Frame.Bounded.opened {frame : Frame} (h : frame.Bounded) (now : Nat) :
    (frame.opened now).Sound where
  parts_lt := Nat.zero_lt_of_lt h.index
  count_le := h.count
  total := rfl
  part_le _ hpart := by cases hpart

/-! ## The tables -/

structure Reassembler.Safe (r : Reassembler) : Prop where
  inflight_le : r.inflight.size ≤ maxInflightMessages
  completed_le : r.completed.length ≤ completedIdCache
  distinct : (r.completed.map Completed.messageId).Nodup
  disjoint : ∀ entry ∈ r.completed, r.inflight.get? entry.messageId = none
  assemblies : ∀ id a, r.inflight.get? id = some a → a.Sound

namespace Reassembler

variable {r : Reassembler} {sha : Sha256} {frame : Frame} {now : Nat}

theorem Safe.new : Safe new where
  inflight_le := Nat.zero_le _
  completed_le := Nat.zero_le _
  distinct := List.nodup_nil
  disjoint _ h := by cases h
  assemblies _ _ h := by cases h

theorem Safe.of_sub {inflight : KeyMap UInt32 Assembly} (h : Safe r)
    (hsub : ∀ id a, inflight.get? id = some a → r.inflight.get? id = some a) :
    Safe { r with inflight } where
  inflight_le := by
    refine (KeyMap.size_le_of_keys fun id hid => ?_).trans h.inflight_le
    by_contra hsome
    obtain ⟨a, ha⟩ := Option.ne_none_iff_exists'.mp hsome
    rw [hsub id a ha] at hid
    cases hid
  completed_le := h.completed_le
  distinct := h.distinct
  disjoint entry hentry := by
    have hnone := h.disjoint entry hentry
    by_contra hsome
    obtain ⟨a, ha⟩ := Option.ne_none_iff_exists'.mp hsome
    rw [hsub _ a ha] at hnone
    cases hnone
  assemblies id a ha := h.assemblies id a (hsub id a ha)

theorem Safe.expire (h : Safe r) (now : Nat) : Safe (r.expire now).1 := by
  refine h.of_sub fun id a ha => ?_
  rw [KeyMap.get?_retain] at ha
  exact (Option.filter_eq_some_iff.mp ha).1

theorem Safe.insert {id : UInt32} {a : Assembly} (h : Safe r) (ha : a.Sound)
    (hsize : (r.inflight.insert id a).size ≤ maxInflightMessages)
    (hid : ∀ entry ∈ r.completed, entry.messageId ≠ id) :
    Safe { r with inflight := r.inflight.insert id a } where
  inflight_le := hsize
  completed_le := h.completed_le
  distinct := h.distinct
  disjoint entry hentry := by
    show (r.inflight.insert id a).get? entry.messageId = none
    rw [KeyMap.get?_insert_ne _ _ (hid entry hentry)]
    exact h.disjoint entry hentry
  assemblies id' a' ha' := by
    by_cases heq : id' = id
    · subst heq
      rw [KeyMap.get?_insert_self] at ha'
      cases ha'
      exact ha
    · rw [KeyMap.get?_insert_ne _ _ heq] at ha'
      exact h.assemblies id' a' ha'

theorem Safe.remember {entry : Completed} (h : Safe r)
    (hnew : ∀ other ∈ r.completed, other.messageId ≠ entry.messageId)
    (hnone : r.inflight.get? entry.messageId = none) : Safe (r.rememberCompleted entry) := by
  obtain ⟨kept, hkept⟩ : ∃ kept, kept =
      if r.completed.length = completedIdCache then r.completed.tail else r.completed := ⟨_, rfl⟩
  have hsub : kept.Sublist r.completed := by
    rw [hkept]
    split
    · exact List.tail_sublist _
    · exact List.Sublist.refl _
  have hroom : kept.length < completedIdCache := by
    have hle := h.completed_le
    rw [hkept]
    split
    · next hfull =>
      rw [List.length_tail, hfull]
      decide
    · omega
  have heq : r.rememberCompleted entry = { r with completed := kept ++ [entry] } := by
    rw [rememberCompleted, hkept]
  rw [heq]
  refine ⟨h.inflight_le, ?_, ?_, ?_, h.assemblies⟩
  · rw [List.length_append]
    exact hroom
  · rw [List.map_append, List.map_singleton, List.nodup_append]
    refine ⟨h.distinct.sublist (hsub.map _), List.nodup_singleton _, ?_⟩
    intro id hid id' hid'
    obtain ⟨other, hother, rfl⟩ := List.mem_map.mp hid
    rw [List.mem_singleton.mp hid']
    exact hnew other (hsub.subset hother)
  · intro other hother
    rcases List.mem_append.mp hother with hold | hlast
    · exact h.disjoint other (hsub.subset hold)
    · rw [List.mem_singleton.mp hlast]
      exact hnone

/-! ## One push -/

theorem join_fresh (hframe : frame.Bounded) (hindex : frame.partIndex = 0)
    (hmany : frame.partCount ≠ 1) :
    r.join sha frame (frame.opened now) =
      ({ r with
          inflight := r.inflight.insert frame.messageId
            ((frame.opened now).withPart frame.payload) },
        .ok .pending) := by
  have hpayload := hframe.payload
  unfold maxPartPayload at hpayload
  have hadd : checkedAdd u64Max 0 frame.payload.length = some (0 + frame.payload.length) :=
    checkedAdd_eq_some.mpr ⟨by unfold u64Max; omega, rfl⟩
  have hfits : ¬ maxMessageSize < 0 + frame.payload.length := by
    unfold maxMessageSize maxPartPayload maxParts
    omega
  unfold join
  rw [if_neg (by simp [Frame.opened]), dif_neg (by simp [Frame.opened]),
    if_neg (by simpa [Frame.opened] using hindex)]
  dsimp only [Frame.opened]
  rw [hadd]
  dsimp only
  rw [if_neg hfits]
  exact if_pos fun hone => hmany hone.symm

/-- What the next frame of an assembly can do. -/
inductive Joined (sha : Sha256) (r : Reassembler) (frame : Frame) (a : Assembly) :
    Reassembler × Except ControlV2Error ReassemblyOutcome → Prop where
  | refused {error} : error ≠ .messageTooLarge → Joined sha r frame a (r, .error error)
  | repeated : Joined sha r frame a (r, .ok .pending)
  | extended : (a.withPart frame.payload).Sound →
      Joined sha r frame a
        ({ r with inflight := r.inflight.insert frame.messageId (a.withPart frame.payload) },
          .ok .pending)
  | finished {completed message} : completed.messageId = frame.messageId →
      Joined sha r frame a
        (rememberCompleted { r with inflight := r.inflight.erase frame.messageId } completed,
          .ok (.complete message))

theorem join_joined {a : Assembly} (hframe : frame.Bounded) (ha : a.Sound) :
    Joined sha r frame a (r.join sha frame a) := by
  unfold join
  split
  · exact .refused (by simp)
  · split
    · split
      · exact .repeated
      · exact .refused (by simp)
    · split
      · exact .refused (by simp)
      · -- a part is in bounds, so no sum of fewer than sixteen of them is too large
        have htotal := ha.total_le
        have hlt := ha.parts_lt
        have hcount := ha.count_le
        have hpayload := hframe.payload
        have hsum : a.totalLen + frame.payload.length ≤ maxMessageSize := by
          unfold maxMessageSize
          unfold maxParts at hcount ⊢
          unfold maxPartPayload at htotal hpayload ⊢
          omega
        have hadd : checkedAdd u64Max a.totalLen frame.payload.length =
            some (a.totalLen + frame.payload.length) := by
          refine checkedAdd_eq_some.mpr ⟨hsum.trans (by decide), rfl⟩
        rw [hadd]
        dsimp only
        rw [if_neg (Nat.not_lt.mpr hsum)]
        split
        · next hmore =>
          refine .extended (ha.withPart hpayload ?_)
          simpa using hmore
        · exact .finished rfl

/-- What a push of a frame with good metadata can do, after expiry. -/
inductive Pushed (r : Reassembler) (frame : Frame) :
    Reassembler × Except ControlV2Error ReassemblyOutcome → Prop where
  | refused {error} : error ≠ .messageTooLarge → Pushed r frame (r, .error error)
  | repeated {outcome} : Pushed r frame (r, .ok outcome)
  | changed {r' outcome} : Safe r' → Pushed r frame (r', .ok outcome)

theorem pushNew_pushed (h : Safe r) (hframe : frame.Bounded)
    (hreceipt : r.receipt? frame.messageId = none) (sha : Sha256) (now : Nat) :
    Pushed r frame (r.pushNew sha now frame) := by
  have hnew : ∀ entry ∈ r.completed, entry.messageId ≠ frame.messageId := by
    intro entry hentry heq
    exact receipt?_eq_none.mp hreceipt (List.mem_map.mpr ⟨entry, hentry, heq⟩)
  unfold pushNew
  split
  · split
    · exact .refused (by simp)
    · next hnone =>
      rw [Bool.not_eq_true, KeyMap.contains_eq_false] at hnone
      exact .changed (h.remember hnew hnone)
  · next hmany =>
    unfold assemblyFor
    cases hget : r.inflight.get? frame.messageId with
    | none =>
      dsimp only
      by_cases hindex : frame.partIndex = 0
      · rw [if_neg (not_not_intro hindex)]
        by_cases hroom : maxInflightMessages ≤ r.inflight.size
        · rw [if_pos hroom]
          exact .refused (by simp)
        · rw [if_neg hroom]
          have hopened : Safe { r with
              inflight := r.inflight.insert frame.messageId (frame.opened now) } := by
            refine h.insert (hframe.opened now) ?_ hnew
            rw [KeyMap.size_insert_of_none hget]
            omega
          show Pushed r frame (join sha _ frame (frame.opened now))
          rw [join_fresh hframe hindex hmany]
          refine .changed (hopened.insert ((hframe.opened now).withPart hframe.payload ?_) ?_ hnew)
          · exact fun hone => hmany hone.symm
          · rw [KeyMap.size_insert_of_some (KeyMap.get?_insert_self _ _ _)]
            exact hopened.inflight_le
      · rw [if_pos hindex]
        exact .refused (by simp)
    | some a =>
      dsimp only
      have hjoined : Joined sha r frame a (r.join sha frame a) :=
        join_joined hframe (h.assemblies _ a hget)
      generalize r.join sha frame a = out at hjoined
      cases hjoined with
      | refused herror => exact .refused herror
      | repeated => exact .repeated
      | extended hsound =>
        refine .changed (h.insert hsound ?_ hnew)
        rw [KeyMap.size_insert_of_some hget]
        exact h.inflight_le
      | @finished completed message hid =>
        have herased : Safe { r with inflight := r.inflight.erase frame.messageId } := by
          refine h.of_sub fun id a' ha' => ?_
          rw [KeyMap.get?_erase] at ha'
          split at ha'
          · cases ha'
          · exact ha'
        refine .changed (herased.remember ?_ ?_)
        · rw [hid]
          exact hnew
        · rw [hid]
          exact KeyMap.get?_erase_self _ _

theorem push_pushed (h : Safe r) (hvalid : validateMetadata frame = .ok ()) (sha : Sha256)
    (now : Nat) : Pushed (r.expire now).1 frame (r.push sha now frame) := by
  unfold push
  rw [hvalid]
  dsimp only
  cases hreceipt : (r.expire now).1.receipt? frame.messageId with
  | none => exact pushNew_pushed (h.expire now) (frame.bounded_of_valid hvalid) hreceipt sha now
  | some completed =>
    dsimp only
    split
    · exact .repeated
    · exact .refused (by simp)

theorem push_invalid {error : ControlV2Error} (hinvalid : validateMetadata frame = .error error) :
    r.push sha now frame = (r, .error error) := by
  unfold push
  rw [hinvalid]

theorem Safe.push (h : Safe r) (sha : Sha256) (now : Nat) (frame : Frame) :
    Safe (r.push sha now frame).1 := by
  cases hvalid : validateMetadata frame with
  | error error =>
    rw [push_invalid hvalid]
    exact h
  | ok =>
    have hpushed := push_pushed h hvalid sha now
    generalize r.push sha now frame = out at hpushed
    cases hpushed with
    | refused | repeated => exact h.expire now
    | changed hsafe => exact hsafe

/-! ## Over all pushes -/

structure Arrival where
  now : Nat
  frame : Frame

def receiveAll (sha : Sha256) (r : Reassembler) (arrivals : List Arrival) : Reassembler :=
  arrivals.foldl (fun r arrival => (r.push sha arrival.now arrival.frame).1) r

theorem safe_receiveAll (sha : Sha256) (arrivals : List Arrival) :
    Safe (receiveAll sha new arrivals) := by
  induction arrivals using List.reverseRecOn with
  | nil => exact .new
  | append_singleton arrivals arrival ih =>
    rw [receiveAll, List.foldl_append]
    exact ih.push sha arrival.now arrival.frame

/-- After any frames, and with one more. -/
structure SafeReception (sha : Sha256) (arrivals : List Arrival) : Prop where
  safe : Safe (receiveAll sha new arrivals)
  never_too_large : ∀ now frame,
    ((receiveAll sha new arrivals).push sha now frame).2 ≠ .error .messageTooLarge
  /-- A refused frame only lets the clock do its work, and not even that when its metadata are
  bad. -/
  refused : ∀ now frame error,
    ((receiveAll sha new arrivals).push sha now frame).2 = .error error →
    ((receiveAll sha new arrivals).push sha now frame).1 =
      if validateMetadata frame = .ok () then ((receiveAll sha new arrivals).expire now).1
      else receiveAll sha new arrivals

theorem validateMetadata_ne (frame : Frame) :
    validateMetadata frame ≠ .error .messageTooLarge := by
  unfold validateMetadata
  dsimp only
  split_ifs <;> simp

/-- **The reassembler is safe whatever arrives.** -/
theorem reassembler_safety (sha : Sha256) (arrivals : List Arrival) :
    SafeReception sha arrivals where
  safe := safe_receiveAll sha arrivals
  never_too_large now frame := by
    cases hvalid : validateMetadata frame with
    | error error =>
      rw [push_invalid hvalid]
      intro htoo
      cases htoo
      exact validateMetadata_ne frame hvalid
    | ok =>
      have hpushed := push_pushed (safe_receiveAll sha arrivals) hvalid sha now
      generalize push sha (receiveAll sha new arrivals) now frame = out at hpushed
      cases hpushed with
      | refused herror => exact fun htoo => herror (Except.error.inj htoo)
      | repeated | changed => exact fun htoo => by cases htoo
  refused now frame error herror := by
    cases hvalid : validateMetadata frame with
    | error reason =>
      rw [push_invalid hvalid, if_neg (by simp)]
    | ok =>
      rw [if_pos rfl]
      have hpushed := push_pushed (safe_receiveAll sha arrivals) hvalid sha now
      generalize push sha (receiveAll sha new arrivals) now frame = out at hpushed herror
      cases hpushed with
      | refused => rfl
      | repeated | changed => cases herror

/-- The first of two parts, and six seconds later a frame that claims no parts. -/
def openedFrame : Frame := ⟨0x10, 0, 7, 0, 2, [1]⟩

def brokenFrame : Frame := ⟨0x10, 0, 8, 0, 0, []⟩

/-- It is refused, and the assembly whose time is over is still there. -/
theorem broken_frame_skips_expiry :
    let sha : Sha256 := fun _ => Vector.replicate 32 0
    let r := receiveAll sha new [⟨0, openedFrame⟩]
    (r.push sha (6 * 10 ^ 9) brokenFrame).2 = .error .invalidFragment ∧
      ((r.push sha (6 * 10 ^ 9) brokenFrame).1.inflight.size = 1) ∧
      (r.expire (6 * 10 ^ 9)).1.inflight.size = 0 := by
  decide +kernel

end Reassembler

end Qeli.Control
