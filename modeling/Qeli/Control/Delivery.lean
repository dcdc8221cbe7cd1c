import Mathlib.Data.List.DropRight
import Qeli.Control.Receipts
import Qeli.Lib.Arrivals

/-!
# Delivery of control messages

Messages with distinct ids are cut by `fragment_message`; the parts of each arrive in
order, interleaved with those of the others, and a part may come again (`Schedule`).
`Tracks` says what the receiver holds: an assembly for each started message with the
parts that came, and the receipts of the last 64 completed messages. From it every part
is answered as expected, as long as no part comes again after 64 other messages were
completed; the memory is bounded, and a message repeated later than that is taken for a
new one.
-/

namespace Qeli.Control

open Qeli.Lib

abbrev Delivery := Arrival Message (List UInt8)

/-- The bytes are what `fragment_message` made for that part. -/
def Carries (d : Delivery) : Prop :=
  ∃ frames, fragmentMessage d.item.messageType d.item.flags d.item.messageId d.item.payload =
    .ok frames ∧ frames[d.index]? = some d.data

def Reassembler.receive (sha : Sha256) (self : Reassembler) (d : Delivery) :
    Reassembler × Except ControlV2Error ReassemblyOutcome :=
  match decode d.data with
  | .error e => (self, .error e)
  | .ok frame => self.push sha d.now frame

/-- Every started, unfinished message is younger than the timeout. -/
def InTime (sent : List Message) (ds : List Delivery) (now : Nat) : Prop :=
  ∀ m ∈ sent, ¬ Complete Message.partCount ds m → ∀ t ∈ startedAt ds m,
    now - t < reassemblyTimeout

instance (sent : List Message) (ds : List Delivery) (now : Nat) : Decidable (InTime sent ds now) :=
  inferInstanceAs (Decidable (∀ m ∈ sent, ¬ Complete Message.partCount ds m →
    ∀ t ∈ startedAt ds m, now - t < reassemblyTimeout))

/-- The messages of several parts that are started and not finished. -/
def unfinished (sent : List Message) (ds : List Delivery) : List Message :=
  sent.filter fun m =>
    1 < m.partCount ∧ (startedAt ds m).isSome ∧ ¬ Complete Message.partCount ds m

/-- A part that comes in the order of its message and in time, and leaves at most eight
messages of several parts unfinished. `allowed` restricts repetitions. -/
structure Arrives (allowed : List Delivery → Delivery → Prop) (sent : List Message)
    (ds : List Delivery) (d : Delivery) : Prop where
  item : d.item ∈ sent
  carries : Carries d
  inOrder : ∀ i < d.index, Delivered ds d.item i
  allowed : allowed ds d
  inTime : InTime sent ds d.now
  room : (unfinished sent (ds ++ [d])).length ≤ maxInflightMessages

abbrev Schedule (allowed : List Delivery → Delivery → Prop) (sent : List Message) :
    List Delivery → Prop :=
  History (Arrives allowed sent)

/-- Any part that came may come again. -/
def AnyRepeat (_ : List Delivery) (_ : Delivery) : Prop := True

/-- A part of a completed message comes again only while fewer than 64 other messages
were completed since. -/
def PromptRepeat (ds : List Delivery) (d : Delivery) : Prop :=
  Complete Message.partCount ds d.item → ∃ before since,
    completions Message.partCount ds = before ++ d.item :: since ∧ since.length < completedIdCache

/-- The answer a delivery should get. -/
def expected (ds : List Delivery) (d : Delivery) : ReassemblyOutcome :=
  if Complete Message.partCount ds d.item then .duplicate
  else if Complete Message.partCount (ds ++ [d]) d.item then .complete d.item
  else .pending

theorem Carries.decodes {d : Delivery} (h : Carries d) :
    d.item.payload.length ≤ maxMessageSize ∧ d.index < d.item.partCount ∧
      validateMetadata (d.item.frameAt d.index) = .ok () ∧
      decode d.data = .ok (d.item.frameAt d.index) := by
  obtain ⟨frames, hok, hget⟩ := h
  obtain ⟨hsize, hvalid, rfl⟩ := fragmentMessage_ok.mp hok
  obtain ⟨hlt, heq⟩ := List.getElem?_eq_some_iff.mp hget
  rw [List.length_map, List.length_range] at hlt
  rw [List.getElem_map, List.getElem_range] at heq
  refine ⟨hsize, hlt, hvalid _ hlt, ?_⟩
  rw [← heq]
  exact decode_bytes (hvalid _ hlt)

/-! ## Parts of a message -/

namespace Message

def part (m : Message) (index : Nat) : List UInt8 := chunkAt m.payload maxPartPayload index

def receipt (sha : Sha256) (m : Message) : Completed :=
  ⟨m.messageId, m.messageType, m.flags, (List.range m.partCount).map fun i => sha (m.part i), false⟩

theorem flatten_parts (m : Message) (n : Nat) :
    ((List.range n).map m.part).flatten = m.payload.take (n * maxPartPayload) :=
  flatten_chunks m.payload maxPartPayload n

theorem flatten_all (m : Message) : ((List.range m.partCount).map m.part).flatten = m.payload := by
  rw [flatten_parts, List.take_of_length_le]
  have h : max m.payload.length 1 ≤ maxPartPayload * m.partCount :=
    le_smul_ceilDiv (show 0 < maxPartPayload by decide)
  rw [Nat.mul_comm]
  omega

theorem part_zero_of_single {m : Message} (h : m.partCount = 1) : m.part 0 = m.payload := by
  have hall := m.flatten_all
  rw [h] at hall
  simpa using hall

end Message

/-- An assembly with the first parts of a message, those that came. -/
structure Shows (ds : List Delivery) (m : Message) (a : Assembly) : Prop where
  messageType : a.messageType = m.messageType
  flags : a.flags = m.flags
  partCount : a.partCount = m.partCount
  parts : a.parts = (List.range a.parts.length).map m.part
  delivered : ∀ i, Delivered ds m i ↔ i < a.parts.length
  total : a.totalLen = a.parts.flatten.length

namespace Shows

variable {ds : List Delivery} {d : Delivery} {m : Message} {a : Assembly}

theorem new (h : startedAt ds m = none) (now : Nat) :
    Shows ds m ⟨m.messageType, m.flags, m.partCount, [], 0, now⟩ where
  messageType := rfl
  flags := rfl
  partCount := rfl
  parts := rfl
  delivered := fun i => iff_of_false (fun hd => hd.started h) (Nat.not_lt_zero i)
  total := rfl

theorem snoc (h : Shows ds d.item a) (hnext : d.index = a.parts.length) (n : Nat)
    (hn : n = a.totalLen + (d.item.part d.index).length) :
    Shows (ds ++ [d]) d.item { a with totalLen := n, parts := a.parts ++ [d.item.part d.index] } where
  messageType := h.messageType
  flags := h.flags
  partCount := h.partCount
  parts := by
    rw [List.length_append, List.length_singleton, List.range_succ, List.map_append,
      List.map_singleton, ← h.parts, hnext]
  delivered := by
    intro i
    simp only [delivered_snoc, h.delivered, List.length_append, List.length_singleton, true_and,
      hnext]
    omega
  total := by
    rw [hn, h.total, List.flatten_append, List.flatten_singleton, List.length_append]

theorem complete_iff (h : Shows ds m a) : Complete Message.partCount ds m ↔
    m.partCount ≤ a.parts.length := by
  simp only [Complete, h.delivered]
  constructor
  · intro hall
    by_contra hlt
    exact absurd (hall a.parts.length (by omega)) (Nat.lt_irrefl _)
  · intro hle i hi
    omega

theorem join_again (h : Shows ds d.item a) (hdel : Delivered ds d.item d.index) (sha : Sha256)
    (r : Reassembler) : r.join sha (d.item.frameAt d.index) a = (r, .ok .pending) := by
  have hlt := (h.delivered _).mp hdel
  have hget : a.parts[d.index] = d.item.part d.index := by
    have hsome : a.parts[d.index]? = some (d.item.part d.index) := by
      rw [h.parts, List.getElem?_map, List.getElem?_range hlt]
      rfl
    exact (List.getElem?_eq_some_iff.mp hsome).2
  unfold Reassembler.join
  rw [if_neg (by simp [Message.frameAt, h.messageType, h.flags, h.partCount]),
    dif_pos (show (d.item.frameAt d.index).partIndex < a.parts.length from hlt)]
  exact Prod.ext rfl (if_pos hget)

theorem join_next (h : Shows ds d.item a) (hsize : d.item.payload.length ≤ maxMessageSize)
    (hnext : d.index = a.parts.length) (sha : Sha256) (r : Reassembler) :
    ∃ a', Shows (ds ++ [d]) d.item a' ∧ a'.startedAt = a.startedAt ∧
      a'.parts.length = d.index + 1 ∧
      r.join sha (d.item.frameAt d.index) a =
        if a'.parts.length ≠ a'.partCount then
          ({ r with inflight := r.inflight.insert d.item.messageId a' }, .ok .pending)
        else
          (Reassembler.rememberCompleted
            { r with inflight := r.inflight.erase d.item.messageId }
            ⟨d.item.messageId, a'.messageType, a'.flags, a'.parts.map sha, false⟩,
            .ok (.complete ⟨a'.messageType, a'.flags, d.item.messageId, a'.parts.flatten⟩)) := by
  have hshow := h.snoc hnext (a.totalLen + (d.item.part d.index).length) rfl
  have htotal : a.totalLen + (d.item.part d.index).length ≤ maxMessageSize := by
    have hflat := hshow.parts
    have htot := hshow.total
    dsimp only at hflat htot
    rw [htot, hflat, Message.flatten_parts, List.length_take]
    omega
  refine ⟨_, hshow, rfl, by simp [hnext], ?_⟩
  unfold Reassembler.join
  rw [if_neg (by simp [Message.frameAt, h.messageType, h.flags, h.partCount]),
    dif_neg (by simp [Message.frameAt, hnext]), if_neg (by simp [Message.frameAt, hnext])]
  have hadd : checkedAdd u64Max a.totalLen (d.item.frameAt d.index).payload.length =
      some (a.totalLen + (d.item.part d.index).length) :=
    checkedAdd_eq_some.mpr ⟨Nat.le_trans htotal (by decide), rfl⟩
  rw [hadd]
  dsimp only
  rw [if_neg (Nat.not_lt.mpr htotal)]
  rfl

end Shows

/-! ## What the receiver holds -/

theorem rtake_snoc {α : Type*} (l : List α) (x : α) (n : Nat) :
    (l ++ [x]).rtake (n + 1) =
      (if (l.rtake (n + 1)).length = n + 1 then (l.rtake (n + 1)).tail else l.rtake (n + 1)) ++
        [x] := by
  rw [List.rtake_concat_succ]
  congr 1
  unfold List.rtake
  rw [List.length_drop, List.tail_drop]
  split
  · congr 1
    omega
  · congr 1
    omega

structure Tracks (sha : Sha256) (sent : List Message) (ds : List Delivery) (r : Reassembler) :
    Prop where
  memory : r.completed = ((completions Message.partCount ds).rtake completedIdCache).map
    (Message.receipt sha)
  finished : ∀ m ∈ completions Message.partCount ds, m ∈ sent
  known : ∀ id a, r.inflight.get? id = some a → ∃ m ∈ sent, m.messageId = id
  pending : ∀ m ∈ sent, ∀ a, r.inflight.get? m.messageId = some a → 1 < m.partCount ∧
    ¬ Complete Message.partCount ds m ∧ startedAt ds m = some a.startedAt ∧ Shows ds m a
  absent : ∀ m ∈ sent, r.inflight.get? m.messageId = none →
    startedAt ds m = none ∨ Complete Message.partCount ds m

namespace Tracks

variable {sha : Sha256} {sent : List Message} {ds : List Delivery} {d : Delivery}
  {r : Reassembler}

theorem new (sha : Sha256) (sent : List Message) : Tracks sha sent [] .new where
  memory := rfl
  finished := by simp [completions]
  known := fun id a h => by simp [Reassembler.new] at h
  pending := fun m _ a h => by simp [Reassembler.new] at h
  absent := fun m _ _ => .inl rfl

theorem expire_eq (h : Tracks sha sent ds r) {now : Nat} (ht : InTime sent ds now) :
    (r.expire now).1 = r := by
  have hall : (r.inflight.retain fun _ a => now - a.startedAt < reassemblyTimeout) = r.inflight := by
    refine KeyMap.retain_eq_self fun id a ha => ?_
    obtain ⟨m, hm, rfl⟩ := h.known id a ha
    obtain ⟨_, hinc, hstart, _⟩ := h.pending m hm a ha
    simpa using ht m hm hinc _ hstart
  simp only [Reassembler.expire, hall]

theorem exists_of_receipt (h : Tracks sha sent ds r) {id : UInt32} {entry : Completed}
    (he : r.receipt? id = some entry) : ∃ m ∈ sent, m.messageId = id ∧ entry = m.receipt sha ∧
      Complete Message.partCount ds m := by
  have hmem := List.mem_of_find?_eq_some he
  have hid : entry.messageId = id := by simpa using List.find?_some he
  rw [h.memory] at hmem
  obtain ⟨m, hm, rfl⟩ := List.mem_map.mp hmem
  have hdone := List.mem_of_mem_drop hm
  exact ⟨m, h.finished m hdone, hid, rfl, complete_of_mem_completions hdone⟩

theorem receipt?_of_incomplete (h : Tracks sha sent ds r)
    (hids : (sent.map Message.messageId).Nodup) (hsent : d.item ∈ sent)
    (hinc : ¬ Complete Message.partCount ds d.item) :
    r.receipt? d.item.messageId = none := by
  cases he : r.receipt? d.item.messageId with
  | none => rfl
  | some entry =>
    obtain ⟨m, hm, hid, _, hdone⟩ := h.exists_of_receipt he
    rw [List.inj_on_of_nodup_map hids hm hsent hid] at hdone
    exact absurd hdone hinc

theorem receipt?_of_prompt (h : Tracks sha sent ds r) (hids : (sent.map Message.messageId).Nodup)
    (hsent : d.item ∈ sent) (hdone : Complete Message.partCount ds d.item)
    (hprompt : PromptRepeat ds d) :
    r.receipt? d.item.messageId = some (d.item.receipt sha) := by
  obtain ⟨before, since, hlist, hlen⟩ := hprompt hdone
  have hrecent : d.item ∈ (completions Message.partCount ds).rtake completedIdCache := by
    rw [hlist, List.rtake, List.drop_append_of_le_length]
    · simp
    · rw [List.length_append, List.length_cons]
      omega
  cases he : r.receipt? d.item.messageId with
  | none =>
    refine absurd ?_ (Reassembler.receipt?_eq_none.mp he)
    rw [h.memory, List.map_map]
    exact List.mem_map_of_mem (f := Completed.messageId ∘ Message.receipt sha) hrecent
  | some entry =>
    obtain ⟨m, hm, hid, rfl, _⟩ := h.exists_of_receipt he
    rw [List.inj_on_of_nodup_map hids hm hsent hid]

theorem remember_memory (h : Tracks sha sent ds r) {inflight : KeyMap UInt32 Assembly}
    (m : Message) :
    (Reassembler.rememberCompleted { r with inflight := inflight } (m.receipt sha)).completed =
      ((completions Message.partCount ds ++ [m]).rtake completedIdCache).map
        (Message.receipt sha) := by
  unfold Reassembler.rememberCompleted
  dsimp only
  rw [h.memory, List.length_map, completedIdCache, rtake_snoc]
  split <;> simp [List.map_tail]

/-- A delivery changes the entry of its own message only, so that entry and the memory are
all there is to look at. -/
theorem snoc (h : Tracks sha sent ds r) (hids : (sent.map Message.messageId).Nodup)
    (hsent : d.item ∈ sent) {r' : Reassembler}
    (hmemory : r'.completed =
      ((completions Message.partCount (ds ++ [d])).rtake completedIdCache).map
        (Message.receipt sha))
    (hother : ∀ id, id ≠ d.item.messageId → r'.inflight.get? id = r.inflight.get? id)
    (hown : (∃ a, r'.inflight.get? d.item.messageId = some a ∧ 1 < d.item.partCount ∧
        ¬ Complete Message.partCount (ds ++ [d]) d.item ∧
        startedAt (ds ++ [d]) d.item = some a.startedAt ∧ Shows (ds ++ [d]) d.item a) ∨
      r'.inflight.get? d.item.messageId = none ∧ Complete Message.partCount (ds ++ [d]) d.item) :
    Tracks sha sent (ds ++ [d]) r' := by
  have hcases : ∀ m ∈ sent, m = d.item ∨ d.item ≠ m ∧ m.messageId ≠ d.item.messageId := by
    intro m hm
    by_cases heq : m = d.item
    · exact .inl heq
    · exact .inr ⟨Ne.symm heq, fun hid => heq (List.inj_on_of_nodup_map hids hm hsent hid)⟩
  refine ⟨hmemory, fun m hm => ?_, fun id a ha => ?_, fun m hm a ha => ?_, fun m hm ha => ?_⟩
  · rw [completions_snoc] at hm
    split at hm
    · rcases List.mem_append.mp hm with hold | hnew
      · exact h.finished m hold
      · rw [List.mem_singleton.mp hnew]
        exact hsent
    · exact h.finished m hm
  · by_cases hid : id = d.item.messageId
    · exact ⟨d.item, hsent, hid.symm⟩
    · rw [hother id hid] at ha
      exact h.known id a ha
  · rcases hcases m hm with rfl | ⟨hne, hid⟩
    · rcases hown with ⟨a', ha', hrest⟩ | ⟨hnone, _⟩
      · rw [ha'] at ha
        cases ha
        exact hrest
      · rw [hnone] at ha
        cases ha
    · rw [hother _ hid] at ha
      obtain ⟨hmany, hinc, hstart, hshow⟩ := h.pending m hm a ha
      refine ⟨hmany, by rwa [complete_snoc_ne hne], by rwa [startedAt_snoc_ne hne], ?_⟩
      exact { hshow with delivered := fun i => by rw [delivered_snoc_ne hne, hshow.delivered] }
  · rcases hcases m hm with rfl | ⟨hne, hid⟩
    · rcases hown with ⟨a', ha', _⟩ | ⟨_, hdone⟩
      · rw [ha'] at ha
        cases ha
      · exact .inr hdone
    · rw [hother _ hid] at ha
      rw [startedAt_snoc_ne hne, complete_snoc_ne hne]
      exact h.absent m hm ha

/-! ### One delivery -/

theorem push_eq (h : Tracks sha sent ds r) (ht : InTime sent ds d.now)
    (hvalid : validateMetadata (d.item.frameAt d.index) = .ok ()) :
    r.push sha d.now (d.item.frameAt d.index) =
      match r.receipt? d.item.messageId with
      | some completed =>
        (r, if completed.matchesFrame sha (d.item.frameAt d.index) then .ok .duplicate
          else .error .conflict)
      | none => r.pushNew sha d.now (d.item.frameAt d.index) := by
  unfold Reassembler.push
  rw [hvalid]
  dsimp only
  rw [h.expire_eq ht]
  rfl

theorem push_duplicate (h : Tracks sha sent ds r) (hids : (sent.map Message.messageId).Nodup)
    (hsent : d.item ∈ sent) (hi : d.index < d.item.partCount) (ht : InTime sent ds d.now)
    (hvalid : validateMetadata (d.item.frameAt d.index) = .ok ())
    (hdone : Complete Message.partCount ds d.item) (hprompt : PromptRepeat ds d) :
    r.push sha d.now (d.item.frameAt d.index) = (r, .ok .duplicate) ∧
      Tracks sha sent (ds ++ [d]) r := by
  have hmatch : (d.item.receipt sha).matchesFrame sha (d.item.frameAt d.index) = true := by
    simp [Completed.matchesFrame, Message.receipt, Message.frameAt, Message.part, hi]
  rw [h.push_eq ht hvalid, h.receipt?_of_prompt hids hsent hdone hprompt]
  refine ⟨by dsimp only; rw [hmatch, if_pos rfl], h.snoc hids hsent ?_ (fun _ _ => rfl) ?_⟩
  · rw [completions_snoc, if_neg fun hnew => hnew.2 hdone]
    exact h.memory
  · refine .inr ⟨?_, hdone.snoc⟩
    cases ha : r.inflight.get? d.item.messageId with
    | none => rfl
    | some a => exact absurd hdone (h.pending _ hsent a ha).2.1

theorem pushNew_single (h : Tracks sha sent ds r) (hids : (sent.map Message.messageId).Nodup)
    (hsent : d.item ∈ sent) (hi : d.index < d.item.partCount)
    (hinc : ¬ Complete Message.partCount ds d.item) (hone : d.item.partCount = 1) :
    (r.pushNew sha d.now (d.item.frameAt d.index)).2 = .ok (expected ds d) ∧
      Tracks sha sent (ds ++ [d]) (r.pushNew sha d.now (d.item.frameAt d.index)).1 := by
  have hzero : d.index = 0 := by omega
  have hnone : r.inflight.get? d.item.messageId = none := by
    cases ha : r.inflight.get? d.item.messageId with
    | none => rfl
    | some a => exact absurd (h.pending _ hsent a ha).1 (by omega)
  have hdone : Complete Message.partCount (ds ++ [d]) d.item := by
    intro i hlt
    exact delivered_snoc.mpr (.inr ⟨rfl, by omega⟩)
  have hpart : chunkAt d.item.payload maxPartPayload 0 = d.item.payload :=
    Message.part_zero_of_single hone
  have hpush : r.pushNew sha d.now (d.item.frameAt d.index) =
      (r.rememberCompleted (d.item.receipt sha), .ok (.complete d.item)) := by
    unfold Reassembler.pushNew
    rw [if_pos (show (d.item.frameAt d.index).partCount = 1 from hone),
      show r.inflight.contains (d.item.frameAt d.index).messageId = false from
        KeyMap.contains_eq_false.mpr hnone]
    simp [Message.frameAt, Message.receipt, Message.part, hone, hzero, hpart]
  rw [hpush, expected, if_neg hinc, if_pos hdone]
  refine ⟨rfl, h.snoc hids hsent ?_ (fun _ _ => rfl) (.inr ⟨hnone, hdone⟩)⟩
  rw [completions_snoc, if_pos ⟨hdone, hinc⟩]
  exact h.remember_memory d.item

theorem mem_unfinished {m : Message} : m ∈ unfinished sent ds ↔ m ∈ sent ∧ 1 < m.partCount ∧
    (startedAt ds m).isSome ∧ ¬ Complete Message.partCount ds m := by
  simp [unfinished, List.mem_filter]

theorem room (h : Tracks sha sent ds r) (hsent : d.item ∈ sent) (hmany : 1 < d.item.partCount)
    (hzero : d.index = 0) (hstart : startedAt ds d.item = none)
    (hnone : r.inflight.get? d.item.messageId = none)
    (hroom : (unfinished sent (ds ++ [d])).length ≤ maxInflightMessages) :
    r.inflight.size < maxInflightMessages := by
  have hinc : ¬ Complete Message.partCount (ds ++ [d]) d.item := fun hdone => by
    rcases delivered_snoc.mp (hdone 1 hmany) with hd | ⟨_, hone⟩
    · exact hd.started hstart
    · omega
  let a : Assembly := ⟨d.item.messageType, d.item.flags, d.item.partCount, [], 0, d.now⟩
  have hsize := KeyMap.size_insert_of_none hnone a
  have hle : (r.inflight.insert d.item.messageId a).total (fun _ => 1) ≤
      ((unfinished sent (ds ++ [d])).map fun _ => 1).sum := by
    refine KeyMap.total_le_sum Message.messageId _ (fun id b hb => ?_) fun _ _ _ _ => Nat.le_refl 1
    rw [KeyMap.get?_insert] at hb
    split at hb
    · next hid =>
      refine ⟨d.item, mem_unfinished.mpr ⟨hsent, hmany, ?_, hinc⟩, hid.symm⟩
      rw [startedAt_snoc_of_none hstart]
      rfl
    · obtain ⟨m, hm, rfl⟩ := h.known id b hb
      obtain ⟨hm1, hm2, hm3, _⟩ := h.pending m hm b hb
      have hne : d.item ≠ m := fun heq => by
        rw [← heq, hnone] at hb
        cases hb
      refine ⟨m, mem_unfinished.mpr ⟨hm, hm1, ?_, by rwa [complete_snoc_ne hne]⟩, rfl⟩
      rw [startedAt_snoc_ne hne, hm3]
      rfl
  rw [← KeyMap.size_eq_total] at hle
  simp only [List.map_const', List.sum_replicate, smul_eq_mul, Nat.mul_one] at hle
  omega

theorem assemblyFor_eq (h : Tracks sha sent ds r) (hsent : d.item ∈ sent)
    (hmany : 1 < d.item.partCount) (horder : ∀ i < d.index, Delivered ds d.item i)
    (hinc : ¬ Complete Message.partCount ds d.item)
    (hroom : (unfinished sent (ds ++ [d])).length ≤ maxInflightMessages) :
    ∃ inflight a, r.assemblyFor d.now (d.item.frameAt d.index) =
        .ok ({ r with inflight := inflight }, a) ∧ inflight.get? d.item.messageId = some a ∧
      (∀ id, id ≠ d.item.messageId → inflight.get? id = r.inflight.get? id) ∧
      Shows ds d.item a ∧ startedAt (ds ++ [d]) d.item = some a.startedAt := by
  have hid : (d.item.frameAt d.index).messageId = d.item.messageId := rfl
  unfold Reassembler.assemblyFor
  rw [hid]
  cases ha : r.inflight.get? d.item.messageId with
  | some a =>
    obtain ⟨_, _, hstart, hshow⟩ := h.pending _ hsent a ha
    exact ⟨r.inflight, a, rfl, ha, fun _ _ => rfl, hshow, startedAt_snoc_of_some hstart⟩
  | none =>
    have hstart := (h.absent _ hsent ha).resolve_right hinc
    have hzero : d.index = 0 := by
      by_contra hne
      exact (horder 0 (Nat.pos_of_ne_zero hne)).started hstart
    have hfree := h.room hsent hmany hzero hstart ha hroom
    dsimp only
    rw [if_neg (show ¬ (d.item.frameAt d.index).partIndex ≠ 0 from not_not.mpr hzero),
      if_neg (Nat.not_le.mpr hfree)]
    exact ⟨_, _, rfl, KeyMap.get?_insert_self _ _ _, fun id hne => KeyMap.get?_insert_ne _ _ hne,
      .new hstart d.now, startedAt_snoc_of_none hstart⟩

theorem pushNew_many (h : Tracks sha sent ds r) (hids : (sent.map Message.messageId).Nodup)
    (hsent : d.item ∈ sent) (hsize : d.item.payload.length ≤ maxMessageSize)
    (hi : d.index < d.item.partCount) (hmany : 1 < d.item.partCount)
    (horder : ∀ i < d.index, Delivered ds d.item i)
    (hinc : ¬ Complete Message.partCount ds d.item)
    (hroom : (unfinished sent (ds ++ [d])).length ≤ maxInflightMessages) :
    (r.pushNew sha d.now (d.item.frameAt d.index)).2 = .ok (expected ds d) ∧
      Tracks sha sent (ds ++ [d]) (r.pushNew sha d.now (d.item.frameAt d.index)).1 := by
  obtain ⟨inflight, a, hassembly, hown, hother, hshow, hstart⟩ :=
    h.assemblyFor_eq hsent hmany horder hinc hroom
  unfold Reassembler.pushNew
  rw [if_neg (show ¬ (d.item.frameAt d.index).partCount = 1 from Nat.ne_of_gt hmany), hassembly]
  dsimp only
  unfold expected
  rw [if_neg hinc]
  by_cases hdel : Delivered ds d.item d.index
  · have hinc' : ¬ Complete Message.partCount (ds ++ [d]) d.item := by
      rwa [complete_snoc_again hdel]
    rw [hshow.join_again hdel, if_neg hinc']
    refine ⟨rfl, h.snoc hids hsent ?_ hother (.inl ⟨a, hown, hmany, hinc', hstart, ?_⟩)⟩
    · rw [completions_snoc, if_neg fun hnew => hinc' hnew.1]
      exact h.memory
    · exact { hshow with
        delivered := fun i => by rw [delivered_snoc_again hdel, hshow.delivered] }
  · have hnext : d.index = a.parts.length := by
      refine Nat.le_antisymm ?_ (Nat.le_of_not_lt fun hlt => hdel ((hshow.delivered _).mpr hlt))
      by_contra hlt
      exact absurd ((hshow.delivered _).mp (horder a.parts.length (by omega))) (Nat.lt_irrefl _)
    obtain ⟨a', hshow', hstart', hlen, hjoin⟩ := hshow.join_next hsize hnext sha
      { r with inflight := inflight }
    rw [hjoin]
    by_cases hdone : Complete Message.partCount (ds ++ [d]) d.item
    · have hall : a'.parts.length = a'.partCount := by
        have := hshow'.complete_iff.mp hdone
        rw [hshow'.partCount]
        omega
      have hparts : a'.parts = (List.range d.item.partCount).map d.item.part := by
        rw [hshow'.parts, hall, hshow'.partCount]
      have hreceipt : (⟨d.item.messageId, a'.messageType, a'.flags, a'.parts.map sha, false⟩ :
          Completed) = d.item.receipt sha := by
        simp [Message.receipt, hshow'.messageType, hshow'.flags, hparts]
      have hmessage : (⟨a'.messageType, a'.flags, d.item.messageId, a'.parts.flatten⟩ :
          Message) = d.item := by
        rw [hshow'.messageType, hshow'.flags, hparts, Message.flatten_all]
      rw [if_neg (not_not.mpr hall), if_pos hdone, hreceipt, hmessage]
      refine ⟨rfl, h.snoc hids hsent ?_ (fun id hid => ?_)
        (.inr ⟨KeyMap.get?_erase_self _ _, hdone⟩)⟩
      · rw [completions_snoc, if_pos ⟨hdone, hinc⟩]
        exact h.remember_memory d.item
      · exact (KeyMap.get?_erase_ne _ hid).trans (hother id hid)
    · have hpart : a'.parts.length ≠ a'.partCount := fun heq => by
        refine hdone (hshow'.complete_iff.mpr ?_)
        rw [heq, hshow'.partCount]
      rw [if_pos hpart, if_neg hdone]
      refine ⟨rfl, h.snoc hids hsent ?_ (fun id hid => ?_)
        (.inl ⟨a', KeyMap.get?_insert_self _ _ _, hmany, hdone, by rw [hstart', hstart], hshow'⟩)⟩
      · rw [completions_snoc, if_neg fun hnew => hdone hnew.1]
        exact h.memory
      · exact (KeyMap.get?_insert_ne _ _ hid).trans (hother id hid)

/-- **Every delivery of a prompt schedule gets the answer it should.** -/
theorem receive (h : Tracks sha sent ds r) (hids : (sent.map Message.messageId).Nodup)
    (hd : Arrives PromptRepeat sent ds d) :
    (r.receive sha d).2 = .ok (expected ds d) ∧
      Tracks sha sent (ds ++ [d]) (r.receive sha d).1 := by
  obtain ⟨hsize, hi, hvalid, hdecode⟩ := hd.carries.decodes
  have hreceive : r.receive sha d = r.push sha d.now (d.item.frameAt d.index) := by
    unfold Reassembler.receive
    rw [hdecode]
  rw [hreceive]
  by_cases hdone : Complete Message.partCount ds d.item
  · obtain ⟨hpush, htracks⟩ := h.push_duplicate hids hd.item hi hd.inTime hvalid hdone hd.allowed
    rw [hpush, expected, if_pos hdone]
    exact ⟨rfl, htracks⟩
  · rw [h.push_eq hd.inTime hvalid, h.receipt?_of_incomplete hids hd.item hdone]
    dsimp only
    rcases Nat.lt_or_ge 1 d.item.partCount with hmany | hone
    · exact h.pushNew_many hids hd.item hsize hi hmany hd.inOrder hdone hd.room
    · exact h.pushNew_single hids hd.item hi hdone (by omega)

end Tracks

/-! ## Schedules -/

def answers (sha : Sha256) (ds : List Delivery) : List (Except ControlV2Error ReassemblyOutcome) :=
  (trace (Reassembler.receive sha) .new ds).2

def completedMessage : Except ControlV2Error ReassemblyOutcome → Option Message
  | .ok (.complete message) => some message
  | _ => none

section

variable {sha : Sha256} {sent : List Message} {ds : List Delivery} {d : Delivery}
  (hids : (sent.map Message.messageId).Nodup)

include hids

theorem tracks_schedule (h : Schedule PromptRepeat sent ds) :
    Tracks sha sent ds (trace (Reassembler.receive sha) .new ds).1 := by
  induction h with
  | nil => exact .new sha sent
  | snoc _ hd ih =>
    rw [trace_snoc]
    exact (ih.receive hids hd).2

theorem answer_eq (h : Schedule PromptRepeat sent ds) (hd : Arrives PromptRepeat sent ds d) :
    ((trace (Reassembler.receive sha) .new ds).1.receive sha d).2 = .ok (expected ds d) :=
  ((tracks_schedule hids h).receive hids hd).1

theorem completedMessage_eq (h : Schedule PromptRepeat sent ds) :
    (answers sha ds).filterMap completedMessage = completions Message.partCount ds := by
  induction h with
  | nil => rfl
  | @snoc ds' d' h' hd ih =>
    unfold answers at ih ⊢
    rw [trace_snoc, answer_eq hids h' hd, filterMap_snoc, ih, completions_snoc]
    unfold expected
    by_cases hold : Complete Message.partCount ds' d'.item
    · rw [if_pos hold, if_neg fun hnew => hnew.2 hold]
      simp [completedMessage]
    · by_cases hdone : Complete Message.partCount (ds' ++ [d']) d'.item
      · rw [if_neg hold, if_pos hdone, if_pos ⟨hdone, hold⟩]
        rfl
      · rw [if_neg hold, if_neg hdone, if_neg fun hnew => hdone hnew.1]
        simp [completedMessage]

/-- **Messages with distinct ids, their parts in order, at most eight of several parts
unfinished and each finished in less than five seconds: every part is answered as
expected, so a first delivery never fails and a part that comes again is a duplicate once
its message is complete. Each message is completed once, at its last part, as it was
sent.** Parts of a completed message come again only while fewer than 64 other messages
were completed since. -/
theorem control_delivery (h : Schedule PromptRepeat sent ds) :
    (∀ pre d post, ds = pre ++ d :: post →
      (answers sha ds)[pre.length]? = some (.ok (expected pre d))) ∧
    (answers sha ds).filterMap completedMessage = completions Message.partCount ds ∧
    (completions Message.partCount ds).Nodup ∧
    ∀ m ∈ sent, m ∈ completions Message.partCount ds ↔ Complete Message.partCount ds m :=
  ⟨fun _ _ _ hds => h.trace_at (answer_eq hids) hds, completedMessage_eq hids h,
    nodup_completions, fun m _ => mem_completions m.partCount_pos⟩

end

/-! ## Two messages, and sixty-five -/

def deliver (m : Message) (index now : Nat) : Delivery where
  item := m
  index := index
  data := (m.frameAt index).bytes
  now := now

def longMessage : Message := ⟨0x10, 0, 7, List.replicate 4097 5⟩

def shortMessage (id : Nat) : Message := ⟨0x11, 0, UInt32.ofNat id, [1]⟩

/-- Both parts of the long message around the short one; the short message comes again when
it is complete, and the first part of the long one while its message is unfinished. -/
def woven : List Delivery :=
  [deliver longMessage 0 10, deliver (shortMessage 8) 0 20, deliver (shortMessage 8) 0 30,
    deliver longMessage 0 40, deliver longMessage 1 50]

theorem partCount_short (id : Nat) : (shortMessage id).partCount = 1 := by
  show max 1 1 ⌈/⌉ maxPartPayload = 1
  decide

theorem partCount_long : longMessage.partCount = 2 := by
  unfold Message.partCount longMessage
  rw [List.length_replicate]
  decide

theorem carries_deliver {m : Message} (hflags : m.flags = 0) (hack : m.messageType ≠ typeAck)
    (herror : m.messageType ≠ typeError) (hsize : m.payload.length ≤ maxMessageSize)
    (hcount : m.partCount ≤ maxParts) {index : Nat} (hi : index < m.partCount) (now : Nat) :
    Carries (deliver m index now) := by
  refine ⟨_, fragmentMessage_ok.mpr ⟨hsize, fun i hlt => ?_, rfl⟩, ?_⟩
  · refine Frame.valid_of_plain hflags hack herror ⟨?_, hlt, hcount⟩
    show (chunkAt m.payload maxPartPayload i).length ≤ maxPartPayload
    rw [length_chunkAt]
    exact Nat.min_le_left _ _
  · simp only [deliver, List.getElem?_map]
    rw [List.getElem?_range hi]
    rfl

theorem carries_short (id now : Nat) : Carries (deliver (shortMessage id) 0 now) := by
  have hone := partCount_short id
  refine carries_deliver rfl ?_ ?_ ?_ ?_ (by omega) now
  · show (0x11 : UInt8) ≠ typeAck
    decide
  · show (0x11 : UInt8) ≠ typeError
    decide
  · show 1 ≤ maxMessageSize
    decide
  · rw [hone]
    decide

theorem carries_long {index : Nat} (hi : index < 2) (now : Nat) :
    Carries (deliver longMessage index now) := by
  refine carries_deliver rfl (by decide) (by decide) ?_ ?_ ?_ now
  · show (List.replicate 4097 (5 : UInt8)).length ≤ maxMessageSize
    rw [List.length_replicate]
    decide
  · rw [partCount_long]
    decide
  · rwa [partCount_long]

theorem inTime_of_early {sent : List Message} {ds : List Delivery} {now : Nat}
    (h : now < reassemblyTimeout) : InTime sent ds now :=
  fun _ _ _ t _ => Nat.lt_of_le_of_lt (Nat.sub_le now t) h

theorem unfinished_le {sent : List Message} {ds : List Delivery}
    (h : sent.length ≤ maxInflightMessages) :
    (unfinished sent ds).length ≤ maxInflightMessages :=
  Nat.le_trans (List.length_filter_le _ _) h

theorem promptRepeat_of_few {ds : List Delivery} {d : Delivery}
    (h : ds.length ≤ completedIdCache) : PromptRepeat ds d := by
  intro hdone
  obtain ⟨before, since, hlist⟩ :=
    List.append_of_mem ((mem_completions d.item.partCount_pos).mpr hdone)
  have hlen : (completions Message.partCount ds).length ≤ ds.length := length_completions_le
  refine ⟨before, since, hlist, ?_⟩
  rw [hlist, List.length_append, List.length_cons] at hlen
  omega

theorem control_delivery_woven :
    Schedule PromptRepeat [longMessage, shortMessage 8] woven ∧
      (answers Reassembler.flatSha woven)[1]? = some (.ok (.complete (shortMessage 8))) ∧
      (answers Reassembler.flatSha woven)[2]? = some (.ok .duplicate) ∧
      longMessage ∈ (answers Reassembler.flatSha woven).filterMap completedMessage := by
  have hlong : longMessage ∈ [longMessage, shortMessage 8] := List.mem_cons_self
  have hshort : shortMessage 8 ∈ [longMessage, shortMessage 8] :=
    List.mem_cons_of_mem _ List.mem_cons_self
  have hfirst : ∀ (ds : List Delivery) (m : Message), ∀ i < 0, Delivered ds m i :=
    fun _ _ i hi => absurd hi (Nat.not_lt_zero i)
  have hsched : Schedule PromptRepeat [longMessage, shortMessage 8] woven := by
    have h0 : Schedule PromptRepeat [longMessage, shortMessage 8] [] := .nil
    have h1 := h0.snoc (i := deliver longMessage 0 10)
      ⟨hlong, carries_long (by decide) 10, hfirst _ _, promptRepeat_of_few (by decide),
        inTime_of_early (by decide), unfinished_le (by decide)⟩
    have h2 := h1.snoc (i := deliver (shortMessage 8) 0 20)
      ⟨hshort, carries_short 8 20, hfirst _ _, promptRepeat_of_few (by decide),
        inTime_of_early (by decide), unfinished_le (by decide)⟩
    have h3 := h2.snoc (i := deliver (shortMessage 8) 0 30)
      ⟨hshort, carries_short 8 30, hfirst _ _, promptRepeat_of_few (by decide),
        inTime_of_early (by decide), unfinished_le (by decide)⟩
    have h4 := h3.snoc (i := deliver longMessage 0 40)
      ⟨hlong, carries_long (by decide) 40, hfirst _ _, promptRepeat_of_few (by decide),
        inTime_of_early (by decide), unfinished_le (by decide)⟩
    refine h4.snoc (i := deliver longMessage 1 50)
      ⟨hlong, carries_long (by decide) 50, fun i hi => ?_, promptRepeat_of_few (by decide),
        inTime_of_early (by decide), unfinished_le (by decide)⟩
    obtain rfl : i = 0 := Nat.lt_one_iff.mp hi
    exact ⟨deliver longMessage 0 10, List.mem_cons_self, rfl, rfl⟩
  have hids : ([longMessage, shortMessage 8].map Message.messageId).Nodup := by decide
  obtain ⟨hanswers, hcompleted, _, hmem⟩ :=
    @control_delivery Reassembler.flatSha _ _ hids hsched
  refine ⟨hsched, ?_, ?_, ?_⟩
  · refine (hanswers [deliver longMessage 0 10] (deliver (shortMessage 8) 0 20) _ rfl).trans ?_
    decide
  · refine (hanswers [deliver longMessage 0 10, deliver (shortMessage 8) 0 20]
      (deliver (shortMessage 8) 0 30) _ rfl).trans ?_
    decide
  · rw [hcompleted, hmem longMessage hlong, Complete, partCount_long]
    intro i hi
    obtain rfl | rfl : i = 0 ∨ i = 1 := by omega
    · exact ⟨deliver longMessage 0 10, by simp [woven], rfl, rfl⟩
    · exact ⟨deliver longMessage 1 50, by simp [woven], rfl, rfl⟩

def burst (n : Nat) : List Delivery := (List.range n).map fun i => deliver (shortMessage i) 0 0

def burstMessages : List Message := (List.range 65).map shortMessage

theorem unfinished_burst (ds : List Delivery) : unfinished burstMessages ds = [] := by
  refine List.filter_eq_nil_iff.mpr ?_
  rw [burstMessages, List.forall_mem_map]
  intro i _
  simp [partCount_short]

theorem arrives_burst (ds : List Delivery) {i : Nat} (hi : i < 65) :
    Arrives AnyRepeat burstMessages ds (deliver (shortMessage i) 0 0) where
  item := List.mem_map_of_mem (List.mem_range.mpr hi)
  carries := carries_short i 0
  inOrder := fun j hj => absurd hj (Nat.not_lt_zero j)
  allowed := trivial
  inTime := inTime_of_early (show 0 < reassemblyTimeout by decide)
  room := by rw [unfinished_burst]; exact Nat.zero_le _

theorem schedule_burst {n : Nat} (hn : n ≤ 65) : Schedule AnyRepeat burstMessages (burst n) := by
  induction n with
  | zero => exact .nil
  | succ n ih =>
    rw [burst, List.range_succ, List.map_append]
    exact (ih (Nat.le_of_succ_le hn)).snoc (arrives_burst _ hn)

/-- The first of 65 messages comes again after the others: it is completed twice. -/
theorem late_repeat_completes_again :
    (burstMessages.map Message.messageId).Nodup ∧
      Schedule AnyRepeat burstMessages (burst 65 ++ [deliver (shortMessage 0) 0 0]) ∧
      ((answers Reassembler.flatSha (burst 65 ++ [deliver (shortMessage 0) 0 0])).filterMap
        completedMessage).count (shortMessage 0) = 2 :=
  ⟨by decide +kernel, (schedule_burst (Nat.le_refl 65)).snoc (arrives_burst _ (by decide)),
    by decide +kernel⟩

end Qeli.Control
