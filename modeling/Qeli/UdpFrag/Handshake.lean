import Mathlib.Algebra.Order.BigOperators.Group.List
import Qeli.Lib.Chunks
import Qeli.Lib.Slots

/-!
# Fragments of a handshake message

`protocol/udp_frag.rs`: a handshake message that is too large for one datagram is cut into at
most 24 fragments, each with its index and their number. The reassembler of a peer keeps one
slot an index; it answers with the message when every slot is filled, and with the same message
again for every repeated fragment after that. `Sound` is its invariant under arbitrary
datagrams, `Shows` its state while the fragments of one message arrive in any order.
-/

namespace Qeli.UdpFrag

open Qeli.Lib Qeli.Lib.Slots

def fragMagic : List UInt8 := [0xF0, 0x9B, 0x71]

def fragHdrLen : Nat := fragMagic.length + 3

def ipv6MinMtu : Nat := 1280
def outerQuic : Nat := 1 + 4 + 1 + 4 + 1 + 1 + 2 + 4
def outerObfsSeal : Nat := 1 + 12
def outerUdp : Nat := 8
def outerIpv6 : Nat := 40
def outerReserve : Nat := 32

def maxChunk : Nat :=
  ipv6MinMtu - outerIpv6 - outerUdp - outerObfsSeal - outerQuic - outerReserve - fragHdrLen

def maxChunkAccept : Nat := 1200

def maxFrags : Nat := 24

def isFragment (d : List UInt8) : Bool :=
  fragHdrLen ≤ d.length ∧ d.take fragMagic.length = fragMagic

/-! ## The sender -/

def fragmentCount (msg : List UInt8) : Nat := max (msg.length ⌈/⌉ maxChunk) 1

def fragmentAt (msgId : UInt8) (msg : List UInt8) (i : Nat) : List UInt8 :=
  fragMagic ++ [msgId, UInt8.ofNat i, UInt8.ofNat (fragmentCount msg)] ++ chunkAt msg maxChunk i

def fragment (msgId : UInt8) (msg : List UInt8) : Except String (List (List UInt8)) :=
  if maxFrags < fragmentCount msg then
    .error "handshake message too large to fragment (exceeds MAX_FRAGS * MAX_CHUNK)"
  else .ok ((List.range (fragmentCount msg)).map (fragmentAt msgId msg))

/-! ## The receiver -/

/-- `haveCount` is the source's `have`. -/
structure Reassembler where
  msgId : UInt8
  count : Nat
  parts : List (Option (List UInt8))
  haveCount : Nat
  started : Nat
  deriving DecidableEq, Repr

namespace Reassembler

def new (now : Nat) : Reassembler := ⟨0, 0, [], 0, now⟩

/-- The end of `push`: the parts in order once all are there. -/
def answer (self : Reassembler) : Except String (Option (List UInt8)) :=
  .ok (if self.haveCount = self.count then some (content self.parts) else none)

/-- The middle of `push`: the slot of an index. -/
def store (self : Reassembler) (idx : Nat) (chunk : List UInt8) :
    Reassembler × Except String (Option (List UInt8)) :=
  match self.parts.getD idx none with
  | some existing =>
    if existing ≠ chunk then (self, .error "conflicting duplicate fragment")
    else (self, self.answer)
  | none =>
    let self := { self with
      parts := self.parts.set idx (some chunk)
      haveCount := self.haveCount + 1 }
    (self, self.answer)

def push (self : Reassembler) (now : Nat) (d : List UInt8) :
    Reassembler × Except String (Option (List UInt8)) :=
  if !isFragment d then (self, .error "not a fragment")
  else
    let msgId := d.getD 3 0
    let idx := (d.getD 4 0).toNat
    let count := (d.getD 5 0).toNat
    let chunk := d.drop fragHdrLen
    if count = 0 ∨ maxFrags < count then (self, .error "bad fragment count")
    else if count ≤ idx then (self, .error "fragment index out of range")
    else if maxChunkAccept < chunk.length then (self, .error "fragment chunk too large")
    else if self.count = 0 then
      store ⟨msgId, count, List.replicate count none, 0, now⟩ idx chunk
    else if msgId ≠ self.msgId ∨ count ≠ self.count then
      (self, .error "inconsistent fragment (msg_id/count changed)")
    else self.store idx chunk

end Reassembler

/-! ## Arbitrary datagrams -/

namespace Reassembler

structure Sound (r : Reassembler) : Prop where
  length : r.parts.length = r.count
  have_eq : r.haveCount = filled r.parts
  count_le : r.count ≤ maxFrags
  part_le : ∀ part, some part ∈ r.parts → part.length ≤ maxChunkAccept

variable {r : Reassembler} {idx : Nat} {chunk : List UInt8}

theorem Sound.new (now : Nat) : Sound (new now) where
  length := rfl
  have_eq := rfl
  count_le := Nat.zero_le _
  part_le _ h := by cases h

theorem Sound.opened (msgId : UInt8) {count : Nat} (h : count ≤ maxFrags) (now : Nat) :
    Sound ⟨msgId, count, List.replicate count none, 0, now⟩ where
  length := List.length_replicate
  have_eq := (filled_replicate count).symm
  count_le := h
  part_le part hpart := by cases List.eq_of_mem_replicate hpart

theorem Sound.answer {out : List UInt8} (h : Sound r) (hout : r.answer = .ok (some out)) :
    ∃ chunks : List (List UInt8), r.parts = chunks.map some ∧ out = chunks.flatten ∧
      out.length ≤ maxFrags * maxChunkAccept := by
  unfold Reassembler.answer at hout
  split at hout
  · next hall =>
    cases hout
    have hfilled : filled r.parts = r.parts.length := by
      rw [← h.have_eq, hall, h.length]
    obtain ⟨chunks, hchunks⟩ := eq_map_some hfilled
    refine ⟨chunks, hchunks, by rw [hchunks, content_map_some], ?_⟩
    have hle : ∀ n ∈ chunks.map List.length, n ≤ maxChunkAccept := by
      intro n hn
      obtain ⟨part, hpart, rfl⟩ := List.mem_map.mp hn
      exact h.part_le part (by rw [hchunks]; exact List.mem_map_of_mem hpart)
    have hsum := List.sum_le_card_nsmul _ _ hle
    have hcount : chunks.length ≤ maxFrags := by
      have hlen := h.length
      rw [hchunks, List.length_map] at hlen
      exact hlen ▸ h.count_le
    rw [hchunks, content_map_some, List.length_flatten]
    rw [List.length_map, smul_eq_mul] at hsum
    exact hsum.trans (Nat.mul_le_mul_right _ hcount)
  · cases hout

theorem Sound.store (h : Sound r) (hidx : idx < r.count)
    (hchunk : chunk.length ≤ maxChunkAccept) :
    (∃ existing error, r.parts[idx]? = some (some existing) ∧
        r.store idx chunk = (r, .error error)) ∨
      ∃ r', r.store idx chunk = (r', r'.answer) ∧ Sound r' := by
  have hlt : idx < r.parts.length := by
    rw [h.length]
    exact hidx
  have hget : r.parts[idx]? = some (r.parts.getD idx none) := by
    rw [List.getD_eq_getElem?_getD, List.getElem?_eq_getElem hlt]
    rfl
  unfold Reassembler.store
  cases hslot : r.parts.getD idx none with
  | some existing =>
    dsimp only
    split
    · exact .inl ⟨existing, _, by rw [hget, hslot], rfl⟩
    · exact .inr ⟨r, rfl, h⟩
  | none =>
    refine .inr ⟨_, rfl, ?_, ?_, h.count_le, ?_⟩
    · rw [List.length_set, h.length]
    · rw [filled_set (by rw [hget, hslot]), h.have_eq]
    · intro part hpart
      rcases List.mem_or_eq_of_mem_set hpart with hold | hnew
      · exact h.part_le part hold
      · cases hnew
        exact hchunk

theorem Sound.push (h : Sound r) (now : Nat) (d : List UInt8) :
    (∃ error, r.push now d = (r, .error error)) ∨
      ∃ r', r.push now d = (r', r'.answer) ∧ Sound r' := by
  unfold Reassembler.push
  split
  · exact .inl ⟨_, rfl⟩
  · dsimp only
    split
    · exact .inl ⟨_, rfl⟩
    · next hcount =>
      split
      · exact .inl ⟨_, rfl⟩
      · next hidx =>
        split
        · exact .inl ⟨_, rfl⟩
        · next hchunk =>
          split
          · have hopened := Sound.opened (d.getD 3 0) (show (d.getD 5 0).toNat ≤ maxFrags by omega)
              now
            -- no slot is filled yet, so there is nothing to conflict with
            rcases hopened.store (Nat.lt_of_not_le hidx) (Nat.le_of_not_lt hchunk) with
              ⟨existing, error, hslot, _⟩ | hanswer
            · cases List.eq_of_mem_replicate (List.mem_of_getElem? hslot)
            · exact .inr hanswer
          · split
            · exact .inl ⟨_, rfl⟩
            · next hsame =>
              rw [not_or, not_not, not_not] at hsame
              rcases h.store (hsame.2 ▸ Nat.lt_of_not_le hidx) (Nat.le_of_not_lt hchunk) with
                ⟨_, error, _, herror⟩ | hanswer
              · exact .inl ⟨error, herror⟩
              · exact .inr hanswer

end Reassembler

/-! ## The fragments of one message -/

theorem maxChunk_pos : 0 < maxChunk := by decide

theorem fragmentCount_pos (msg : List UInt8) : 0 < fragmentCount msg :=
  Nat.lt_of_lt_of_le Nat.one_pos (Nat.le_max_right _ _)

theorem fragmentCount_le_iff (msg : List UInt8) :
    fragmentCount msg ≤ maxFrags ↔ msg.length ≤ maxFrags * maxChunk := by
  unfold fragmentCount
  rw [Nat.max_le, ceilDiv_le_iff_le_mul maxChunk_pos, Nat.mul_comm]
  exact and_iff_left (by decide)

theorem flatten_fragments (msg : List UInt8) :
    ((List.range (fragmentCount msg)).map (chunkAt msg maxChunk)).flatten = msg := by
  rw [flatten_chunks]
  refine List.take_of_length_le ((length_le_chunks maxChunk_pos msg).trans ?_)
  exact Nat.mul_le_mul_right _ (Nat.le_max_left _ _)

namespace Reassembler

variable {msgId : UInt8} {msg : List UInt8} {i now : Nat} {r : Reassembler}

theorem push_fragmentAt (hcount : fragmentCount msg ≤ maxFrags) (hi : i < fragmentCount msg) :
    r.push now (fragmentAt msgId msg i) =
      if r.count = 0 then
        store ⟨msgId, fragmentCount msg, List.replicate (fragmentCount msg) none, 0, now⟩ i
          (chunkAt msg maxChunk i)
      else if msgId ≠ r.msgId ∨ fragmentCount msg ≠ r.count then
        (r, .error "inconsistent fragment (msg_id/count changed)")
      else r.store i (chunkAt msg maxChunk i) := by
  have hpos := fragmentCount_pos msg
  have hsmall : maxFrags = 24 := rfl
  have hidx : ((fragmentAt msgId msg i).getD 4 0).toNat = i := by
    show (UInt8.ofNat i).toNat = i
    rw [UInt8.toNat_ofNat', Nat.mod_eq_of_lt (by omega)]
  have hdeclared : ((fragmentAt msgId msg i).getD 5 0).toNat = fragmentCount msg := by
    show (UInt8.ofNat (fragmentCount msg)).toNat = fragmentCount msg
    rw [UInt8.toNat_ofNat', Nat.mod_eq_of_lt (by omega)]
  have hchunk : (fragmentAt msgId msg i).drop fragHdrLen = chunkAt msg maxChunk i := rfl
  have hlen : ¬ maxChunkAccept < (chunkAt msg maxChunk i).length := by
    rw [length_chunkAt]
    have hmax : maxChunk ≤ maxChunkAccept := by decide
    omega
  have hfragment : isFragment (fragmentAt msgId msg i) = true := by
    refine decide_eq_true ⟨?_, rfl⟩
    simp [fragmentAt, fragHdrLen, fragMagic]
  unfold push
  rw [hfragment]
  dsimp only
  rw [hidx, hdeclared, hchunk]
  simp only [Bool.not_true, Bool.false_eq_true, if_false]
  rw [if_neg (by omega), if_neg (by omega), if_neg hlen]
  rfl

/-- The slots hold the chunks whose indices have been delivered. -/
structure Shows (msgId : UInt8) (msg : List UInt8) (seen : List Nat) (r : Reassembler) :
    Prop where
  msgId_eq : r.msgId = msgId
  count : r.count = fragmentCount msg
  parts : r.parts = slotsOf (fragmentCount msg) (chunkAt msg maxChunk) (· ∈ seen)
  have_eq : r.haveCount = filled r.parts

theorem Shows.opened (msgId : UInt8) (msg : List UInt8) (now : Nat) :
    Shows msgId msg []
      ⟨msgId, fragmentCount msg, List.replicate (fragmentCount msg) none, 0, now⟩ where
  msgId_eq := rfl
  count := rfl
  parts := (slotsOf_none fun _ _ => List.not_mem_nil).symm
  have_eq := (filled_replicate _).symm

theorem Shows.store {seen : List Nat} (h : Shows msgId msg seen r) (hi : i < fragmentCount msg) :
    ∃ r', r.store i (chunkAt msg maxChunk i) = (r', r'.answer) ∧
      Shows msgId msg (seen ++ [i]) r' := by
  have hmem : ∀ j, j ∈ seen ++ [i] ↔ j ∈ seen ∨ j = i := by simp
  have hslot : r.parts.getD i none = if i ∈ seen then some (chunkAt msg maxChunk i) else none := by
    rw [h.parts, List.getD_eq_getElem?_getD, getElem?_slotsOf hi]
    rfl
  unfold Reassembler.store
  rw [hslot]
  by_cases hseen : i ∈ seen
  · rw [if_pos hseen]
    dsimp only
    rw [if_neg (not_not_intro rfl)]
    refine ⟨r, rfl, h.msgId_eq, h.count, ?_, h.have_eq⟩
    rw [h.parts]
    refine slotsOf_congr fun j _ => ?_
    rw [hmem]
    exact ⟨.inl, fun hj => hj.elim id fun heq => heq ▸ hseen⟩
  · rw [if_neg hseen]
    refine ⟨_, rfl, h.msgId_eq, h.count, ?_, ?_⟩
    · dsimp only
      rw [h.parts]
      exact set_slotsOf hmem
    · dsimp only
      rw [filled_set, h.have_eq]
      rw [h.parts, getElem?_slotsOf hi, if_neg hseen]

theorem Shows.answer {seen : List Nat} (h : Shows msgId msg seen r) :
    r.answer = .ok (if ∀ i, i < fragmentCount msg → i ∈ seen then some msg else none) := by
  have hall : r.haveCount = r.count ↔ ∀ i, i < fragmentCount msg → i ∈ seen := by
    rw [h.have_eq, h.count, h.parts]
    exact filled_slotsOf_eq_iff
  unfold Reassembler.answer
  by_cases hevery : ∀ i, i < fragmentCount msg → i ∈ seen
  · rw [if_pos (hall.mpr hevery), if_pos hevery, h.parts, slotsOf_all hevery, content_map_some,
      flatten_fragments]
  · rw [if_neg (hall.not.mpr hevery), if_neg hevery]

end Reassembler

/-! ## Deliveries -/

structure Delivery where
  index : Nat
  now : Nat

def deliverAll (frags : List (List UInt8)) (start : Nat) (ds : List Delivery) : Reassembler :=
  ds.foldl (fun r d => (r.push d.now (frags.getD d.index [])).1) (.new start)

variable {msgId : UInt8} {msg : List UInt8} {frags : List (List UInt8)} {start : Nat}

theorem fragment_ok :
    fragment msgId msg = .ok frags ↔ fragmentCount msg ≤ maxFrags ∧
      frags = (List.range (fragmentCount msg)).map (fragmentAt msgId msg) := by
  unfold fragment
  split
  · next hmany => simp [Nat.not_le.mpr hmany]
  · next hfew => simp [Nat.le_of_not_lt hfew, eq_comm]

theorem length_fragment (h : fragment msgId msg = .ok frags) : frags.length = fragmentCount msg := by
  rw [(fragment_ok.mp h).2, List.length_map, List.length_range]

theorem fragment_get (h : fragment msgId msg = .ok frags) {i : Nat} (hi : i < frags.length) :
    i < fragmentCount msg ∧ frags.getD i [] = fragmentAt msgId msg i := by
  rw [length_fragment h] at hi
  rw [(fragment_ok.mp h).2]
  exact ⟨hi, by simp [hi]⟩

/-- What is known after some deliveries: the start, or the slots. -/
def Received (msgId : UInt8) (msg : List UInt8) (seen : List Nat) (r : Reassembler) : Prop :=
  (seen = [] ∧ r.count = 0) ∨ r.Shows msgId msg seen

theorem Received.push {seen : List Nat} {r : Reassembler} {i : Nat}
    (h : Received msgId msg seen r) (hcount : fragmentCount msg ≤ maxFrags)
    (hi : i < fragmentCount msg) (now : Nat) :
    ∃ r', r.push now (fragmentAt msgId msg i) = (r', r'.answer) ∧
      r'.Shows msgId msg (seen ++ [i]) := by
  rw [Reassembler.push_fragmentAt hcount hi]
  rcases h with ⟨rfl, hzero⟩ | hshows
  · rw [if_pos hzero]
    exact (Reassembler.Shows.opened msgId msg now).store hi
  · have hpos := fragmentCount_pos msg
    rw [if_neg (by rw [hshows.count]; omega), if_neg (by simp [hshows.msgId_eq, hshows.count])]
    exact hshows.store hi

theorem received_deliverAll (h : fragment msgId msg = .ok frags) (ds : List Delivery)
    (hds : ∀ d ∈ ds, d.index < frags.length) :
    Received msgId msg (ds.map Delivery.index) (deliverAll frags start ds) := by
  induction ds using List.reverseRecOn with
  | nil => exact .inl ⟨rfl, rfl⟩
  | append_singleton ds d ih =>
    have hbefore := ih fun e he => hds e (List.mem_append_left _ he)
    obtain ⟨hi, hget⟩ := fragment_get h (hds d (List.mem_append_right _ List.mem_cons_self))
    obtain ⟨r', hpush, hshows⟩ := hbefore.push (fragment_ok.mp h).1 hi d.now
    rw [deliverAll, List.foldl_append, List.map_append]
    show Received msgId msg _ ((deliverAll frags start ds).push d.now (frags.getD d.index [])).1
    rw [hget, hpush]
    exact .inr hshows

/-! ## The law -/

structure Arrival where
  now : Nat
  datagram : List UInt8

def receiveAll (start : Nat) (arrivals : List Arrival) : Reassembler :=
  arrivals.foldl (fun r a => (r.push a.now a.datagram).1) (.new start)

theorem sound_receiveAll (start : Nat) (arrivals : List Arrival) :
    (receiveAll start arrivals).Sound := by
  induction arrivals using List.reverseRecOn with
  | nil => exact .new start
  | append_singleton arrivals a ih =>
    rw [receiveAll, List.foldl_append]
    rcases ih.push a.now a.datagram with ⟨error, herror⟩ | ⟨r', hpush, hsound⟩
    · show ((receiveAll start arrivals).push a.now a.datagram).1.Sound
      rw [herror]
      exact ih
    · show ((receiveAll start arrivals).push a.now a.datagram).1.Sound
      rw [hpush]
      exact hsound

structure FragmentationLaw : Prop where
  fragments : ∀ msgId msg, (∃ frags, fragment msgId msg = .ok frags) ↔
    msg.length ≤ maxFrags * maxChunk
  count : ∀ msgId msg frags, fragment msgId msg = .ok frags →
    frags.length = max (msg.length ⌈/⌉ maxChunk) 1
  /-- After any deliveries `ds`, the answer to one more fragment. -/
  delivery : ∀ msgId msg frags start (ds : List Delivery) (d : Delivery),
    fragment msgId msg = .ok frags → (∀ e ∈ ds ++ [d], e.index < frags.length) →
    ((deliverAll frags start ds).push d.now (frags.getD d.index [])).2 =
      .ok (if ∀ i, i < frags.length → i ∈ (ds ++ [d]).map Delivery.index then some msg else none)
  hostile_error : ∀ start arrivals now d error,
    ((receiveAll start arrivals).push now d).2 = .error error →
    ((receiveAll start arrivals).push now d).1 = receiveAll start arrivals
  hostile_message : ∀ start arrivals now d out,
    ((receiveAll start arrivals).push now d).2 = .ok (some out) →
    out.length ≤ 24 * 1200 ∧ ∃ chunks : List (List UInt8),
      ((receiveAll start arrivals).push now d).1.parts = chunks.map some ∧ out = chunks.flatten

/-- **A handshake message survives its fragmentation**, whatever order and repetitions the
fragments arrive in; and arbitrary datagrams cannot break the reassembler. -/
theorem udp_handshake_fragmentation : FragmentationLaw where
  fragments msgId msg := by
    rw [← fragmentCount_le_iff]
    constructor
    · rintro ⟨frags, hfrags⟩
      exact (fragment_ok.mp hfrags).1
    · intro hcount
      exact ⟨_, fragment_ok.mpr ⟨hcount, rfl⟩⟩
  count _ _ _ hfrags := length_fragment hfrags
  delivery msgId msg frags start ds d hfrags hds := by
    obtain ⟨hi, hget⟩ := fragment_get hfrags (hds d (List.mem_append_right _ List.mem_cons_self))
    have hbefore : Received msgId msg (ds.map Delivery.index) (deliverAll frags start ds) :=
      received_deliverAll hfrags ds fun e he => hds e (List.mem_append_left _ he)
    obtain ⟨r', hpush, hshows⟩ := hbefore.push (fragment_ok.mp hfrags).1 hi d.now
    rw [hget, hpush, hshows.answer, length_fragment hfrags, List.map_append, List.map_singleton]
  hostile_error start arrivals now d error herror := by
    rcases (sound_receiveAll start arrivals).push now d with ⟨_, hrefused⟩ | ⟨r', hpush, _⟩
    · rw [hrefused]
    · rw [hpush] at herror
      cases herror
  hostile_message start arrivals now d out hout := by
    rcases (sound_receiveAll start arrivals).push now d with ⟨_, hrefused⟩ | ⟨r', hpush, hsound⟩
    · rw [hrefused] at hout
      cases hout
    · rw [hpush] at hout ⊢
      obtain ⟨chunks, hchunks, hflat, hle⟩ := hsound.answer hout
      exact ⟨hle, chunks, hchunks, hflat⟩

/-- A message one byte too long for one fragment, the second of its fragments first. -/
theorem udp_handshake_fragmentation_two :
    ∃ frags, fragment 5 (List.replicate 1164 7) = .ok frags ∧ frags.length = 2 ∧
      ((deliverAll frags 0 []).push 1 (frags.getD 1 [])).2 = .ok none ∧
      ((deliverAll frags 0 [⟨1, 1⟩]).push 2 (frags.getD 0 [])).2 =
        .ok (some (List.replicate 1164 7)) ∧
      ((deliverAll frags 0 [⟨1, 1⟩, ⟨0, 2⟩]).push 3 (frags.getD 1 [])).2 =
        .ok (some (List.replicate 1164 7)) := by
  have hlaw := udp_handshake_fragmentation
  obtain ⟨frags, hfrags⟩ := (hlaw.fragments 5 (List.replicate 1164 7)).mpr
    (by rw [List.length_replicate]; decide)
  have hlen : frags.length = 2 := by
    rw [hlaw.count 5 _ frags hfrags, List.length_replicate]
    decide
  have hdelivery := hlaw.delivery 5 (List.replicate 1164 7) frags 0
  rw [hlen] at hdelivery
  refine ⟨frags, hfrags, hlen, ?_, ?_, ?_⟩
  · rw [hdelivery [] ⟨1, 1⟩ hfrags (by decide), if_neg (by decide)]
  · rw [hdelivery [⟨1, 1⟩] ⟨0, 2⟩ hfrags (by decide), if_pos (by decide)]
  · rw [hdelivery [⟨1, 1⟩, ⟨0, 2⟩] ⟨1, 3⟩ hfrags (by decide), if_pos (by decide)]

end Qeli.UdpFrag
