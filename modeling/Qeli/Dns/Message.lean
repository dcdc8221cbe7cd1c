import Qeli.Lib.Bytes

/-!
# DNS messages

`server/dns/resolver.rs`: names with compression pointers, the bounded walk over the records of a
message, and the checks a complete message passes. A pointer may lead to any earlier byte after
the header, and the labels behind it may run forward again, so what a name depends on is the list
`touched` of the bytes its walk reads: a message that has the same bytes there spells the same
name (`walkName_congr`). Lengths are those of a slice in memory, so additions do not overflow.
-/

namespace Qeli.Dns

open Qeli.Lib

/-! ## Names -/

abbrev Label := List UInt8

/-- `u16::from_be_bytes` of the two bytes at `offset`. -/
def u16At (msg : List UInt8) (offset : Nat) : Nat := ofBE ((msg.drop offset).take 2)

def u32At (msg : List UInt8) (offset : Nat) : Nat := ofBE ((msg.drop offset).take 4)

def pointerTarget (len low : UInt8) : Nat := (len &&& 0x3F).toNat <<< 8 ||| low.toNat

/-- The loop of `walk_name`: the rounds left, the position, the end of the name on the wire if a
pointer has been followed, the length of the expanded name so far and its labels. -/
def walkFrom (msg : List UInt8) :
    Nat → Nat → Option Nat → Nat → List Label → Option (Nat × List Label)
  | 0, _, _, _, _ => none
  | rounds + 1, pos, stop, wireLen, labels =>
    match msg[pos]? with
    | none => none
    | some len =>
      if len &&& 0xC0 = 0xC0 then
        match msg[pos + 1]? with
        | none => none
        | some low =>
          let target := pointerTarget len low
          if target < 12 ∨ pos ≤ target then none
          else walkFrom msg rounds target (some (stop.getD (pos + 2))) wireLen labels
      else if len &&& 0xC0 ≠ 0 then none
      else if len = 0 then some (stop.getD (pos + 1), labels)
      else
        let wireLen := wireLen + (1 + len.toNat)
        if 255 < wireLen then none
        else
          let start := pos + 1
          let next := start + len.toNat
          if msg.length < next then none
          else
            walkFrom msg rounds next stop wireLen (labels ++ [(msg.drop start).take (next - start)])

/-- The end of the name on the wire, and its labels. -/
def walkName (msg : List UInt8) (pos : Nat) : Option (Nat × List Label) :=
  walkFrom msg 256 pos none 1 []

def skipName (msg : List UInt8) (pos : Nat) : Option Nat := (walkName msg pos).map (·.1)

/-! ## Records -/

/-- A bounds check: the position, if the message reaches so far. -/
def within (msg : List UInt8) (pos : Nat) : Option Nat := if pos ≤ msg.length then some pos else none

def skipQuestions (msg : List UInt8) : Nat → Nat → Option Nat
  | 0, pos => some pos
  | count + 1, pos => do
    let name ← skipName msg pos
    let pos ← within msg (name + 4)
    skipQuestions msg count pos

def questionSectionEnd (msg : List UInt8) : Option Nat :=
  if msg.length < 12 then none else skipQuestions msg (u16At msg 4) 12

structure DnsRecord where
  /-- 0 for an answer, 1 for authority, 2 for additional. -/
  sec : Nat
  start : Nat
  data : Nat
  stop : Nat
  rtype : Nat
  cls : Nat
  ttl : Nat
  deriving DecidableEq, Repr

def walkRecord (msg : List UInt8) (sec pos : Nat) : Option DnsRecord := do
  let header ← skipName msg pos
  let data ← within msg (header + 10)
  let stop ← within msg (data + u16At msg (header + 8))
  some {
    sec
    start := pos
    data
    stop
    rtype := u16At msg header
    cls := u16At msg (header + 2)
    ttl := u32At msg (header + 4) }

/-- The section of each record, by the counts of the header. -/
def sections (msg : List UInt8) : List Nat :=
  List.replicate (u16At msg 6) 0 ++ List.replicate (u16At msg 8) 1 ++
    List.replicate (u16At msg 10) 2

def walkStep {σ : Type} (msg : List UInt8) (visit : σ → DnsRecord → Option σ) (state : Nat × σ)
    (sec : Nat) : Option (Nat × σ) := do
  let rr ← walkRecord msg sec state.1
  let s ← visit state.2 rr
  some (rr.stop, s)

/-- The walk over all records; `visit` may stop it. No byte may be left after them. -/
def walkRecords {σ : Type} (msg : List UInt8) (visit : σ → DnsRecord → Option σ) (init : σ) :
    Option σ := do
  let pos ← questionSectionEnd msg
  let walked ← (sections msg).foldlM (walkStep msg visit) (pos, init)
  if walked.1 = msg.length then some walked.2 else none

/-! ## Complete messages -/

/-- The character strings of a TXT record, from `pos` to `stop`. -/
def validStrings (msg : List UInt8) (stop pos : Nat) : Bool :=
  if pos < stop then
    let next := pos + (1 + (msg.getD pos 0).toNat)
    if stop < next then false else validStrings msg stop next
  else true
termination_by stop - pos

def nameEnd (msg : List UInt8) (rr : DnsRecord) (start : Nat) : Option Nat :=
  (skipName msg start).filter fun stop => stop ≤ rr.stop

def validateRecordData (msg : List UInt8) (rr : DnsRecord) : Bool :=
  let len := rr.stop - rr.data
  if rr.rtype = 1 ∧ rr.cls = 1 then len == 4
  else if rr.rtype = 28 ∧ rr.cls = 1 then len == 16
  else if rr.rtype = 2 ∨ rr.rtype = 5 ∨ rr.rtype = 12 ∨ rr.rtype = 39 then
    nameEnd msg rr rr.data == some rr.stop
  else if rr.rtype = 15 then 3 ≤ len && nameEnd msg rr (rr.data + 2) == some rr.stop
  else if rr.rtype = 33 ∧ rr.cls = 1 then 7 ≤ len && nameEnd msg rr (rr.data + 6) == some rr.stop
  else if rr.rtype = 6 then
    match nameEnd msg rr rr.data with
    | none => false
    | some rname =>
      match nameEnd msg rr rname with
      | none => false
      | some numeric => numeric + 20 == rr.stop
  else if rr.rtype = 16 then validStrings msg rr.stop rr.data && len != 0
  else true

def dnsMessageIsComplete (msg : List UInt8) : Bool :=
  (walkRecords msg (fun _ rr => if validateRecordData msg rr then some () else none) ()).isSome

/-! ## The walk over a name -/

/-- The ways a walk over a name succeeds, a constructor for each branch of the loop. -/
inductive Walk (msg : List UInt8) :
    Nat → Nat → Option Nat → Nat → List Label → Nat × List Label → Prop
  | pointer {rounds pos : Nat} {stop : Option Nat} {wireLen : Nat} {labels : List Label}
    {r : Nat × List Label} (len low : UInt8) (hlen : msg[pos]? = some len)
    (hpointer : len &&& 0xC0 = 0xC0) (hlow : msg[pos + 1]? = some low)
    (hheader : 12 ≤ pointerTarget len low) (hback : pointerTarget len low < pos)
    (hrest : Walk msg rounds (pointerTarget len low) (some (stop.getD (pos + 2))) wireLen labels r) :
    Walk msg (rounds + 1) pos stop wireLen labels r
  | root {rounds pos : Nat} {stop : Option Nat} {wireLen : Nat} {labels : List Label}
    (hlen : msg[pos]? = some 0) :
    Walk msg (rounds + 1) pos stop wireLen labels (stop.getD (pos + 1), labels)
  | label {rounds pos : Nat} {stop : Option Nat} {wireLen : Nat} {labels : List Label}
    {r : Nat × List Label} (len : UInt8) (hlen : msg[pos]? = some len) (hlabel : len &&& 0xC0 = 0)
    (hzero : len ≠ 0) (hwire : wireLen + (1 + len.toNat) ≤ 255)
    (hend : pos + 1 + len.toNat ≤ msg.length)
    (hrest : Walk msg rounds (pos + 1 + len.toNat) stop (wireLen + (1 + len.toNat))
      (labels ++ [(msg.drop (pos + 1)).take len.toNat]) r) :
    Walk msg (rounds + 1) pos stop wireLen labels r

variable {msg msg' : List UInt8} {pos : Nat} {r : Nat × List Label}

theorem walk_of_walkFrom {rounds : Nat} {stop : Option Nat} {wireLen : Nat} {labels : List Label}
    (h : walkFrom msg rounds pos stop wireLen labels = some r) :
    Walk msg rounds pos stop wireLen labels r := by
  induction rounds generalizing pos stop wireLen labels with
  | zero => cases h
  | succ rounds ih =>
    rw [walkFrom] at h
    cases hlen : msg[pos]? with
    | none => simp [hlen] at h
    | some len =>
      simp only [hlen] at h
      split at h
      case isTrue hpointer =>
        cases hlow : msg[pos + 1]? with
        | none => simp [hlow] at h
        | some low =>
          simp only [hlow] at h
          split at h
          · cases h
          rename_i htarget
          exact .pointer len low hlen hpointer hlow (by omega) (by omega) (ih h)
      case isFalse =>
        split at h
        · cases h
        rename_i hlabel
        split at h
        case isTrue hzero =>
          obtain rfl := Option.some.inj h
          exact .root (hlen.trans (congrArg some hzero))
        case isFalse hzero =>
          split at h
          · cases h
          split at h
          · cases h
          rw [Nat.add_sub_cancel_left] at h
          exact .label len hlen (not_not.mp hlabel) hzero (by omega) (by omega) (ih h)

theorem walkFrom_of_walk {rounds : Nat} {stop : Option Nat} {wireLen : Nat} {labels : List Label}
    (h : Walk msg rounds pos stop wireLen labels r) :
    walkFrom msg rounds pos stop wireLen labels = some r := by
  induction h with
  | pointer len low hlen hpointer hlow hheader hback hrest ih =>
    rw [walkFrom, hlen]
    simp only [hpointer, if_true, hlow]
    rw [if_neg (by omega), ih]
  | root hlen =>
    rw [walkFrom, hlen]
    rfl
  | label len hlen hlabel hzero hwire hend hrest ih =>
    rw [walkFrom, hlen]
    simp only [hlabel, hzero, ne_eq, not_true_eq_false, if_false]
    rw [if_neg (by decide), if_neg (by omega), if_neg (by omega), Nat.add_sub_cancel_left, ih]

/-! ## What a name reads -/

/-- The positions that the loop reads. -/
def touchedFrom (msg : List UInt8) : Nat → Nat → List Nat
  | 0, _ => []
  | rounds + 1, pos =>
    match msg[pos]? with
    | none => [pos]
    | some len =>
      if len &&& 0xC0 = 0xC0 then
        match msg[pos + 1]? with
        | none => [pos, pos + 1]
        | some low =>
          let target := pointerTarget len low
          if target < 12 ∨ pos ≤ target then [pos, pos + 1]
          else pos :: (pos + 1) :: touchedFrom msg rounds target
      else if len = 0 then [pos]
      else
        pos :: (List.range' (pos + 1) len.toNat ++ touchedFrom msg rounds (pos + 1 + len.toNat))

def touched (msg : List UInt8) (pos : Nat) : List Nat := touchedFrom msg 256 pos

/-- Two messages with the same bytes at these positions. -/
def Agree (msg msg' : List UInt8) (ps : List Nat) : Prop := ∀ p ∈ ps, msg'[p]? = msg[p]?

theorem slice_congr {start n : Nat} (h : ∀ p, start ≤ p → p < start + n → msg'[p]? = msg[p]?) :
    (msg'.drop start).take n = (msg.drop start).take n := by
  refine List.ext_getElem? fun i => ?_
  rw [List.getElem?_take, List.getElem?_take]
  split
  · rw [List.getElem?_drop, List.getElem?_drop, h _ (by omega) (by omega)]
  · rfl

section Walk

variable {msg msg' : List UInt8} {rounds pos : Nat} {stop : Option Nat} {wireLen : Nat}
  {labels : List Label} {r : Nat × List Label}

theorem touchedFrom_pointer {len low : UInt8} (hlen : msg[pos]? = some len)
    (hpointer : len &&& 0xC0 = 0xC0) (hlow : msg[pos + 1]? = some low)
    (hheader : 12 ≤ pointerTarget len low) (hback : pointerTarget len low < pos) :
    touchedFrom msg (rounds + 1) pos =
      pos :: (pos + 1) :: touchedFrom msg rounds (pointerTarget len low) := by
  simp only [touchedFrom, hlen, hpointer, if_true, hlow]
  rw [if_neg (by omega)]

theorem touchedFrom_root (hlen : msg[pos]? = some 0) : touchedFrom msg (rounds + 1) pos = [pos] := by
  rw [touchedFrom, hlen]
  rfl

theorem touchedFrom_label {len : UInt8} (hlen : msg[pos]? = some len) (hlabel : len &&& 0xC0 = 0)
    (hzero : len ≠ 0) : touchedFrom msg (rounds + 1) pos =
      pos :: (List.range' (pos + 1) len.toNat ++ touchedFrom msg rounds (pos + 1 + len.toNat)) := by
  rw [touchedFrom, hlen]
  simp only [hlabel, hzero, if_false]
  rw [if_neg (by decide)]

theorem Walk.congr (h : Walk msg rounds pos stop wireLen labels r)
    (hagree : Agree msg msg' (touchedFrom msg rounds pos)) :
    Walk msg' rounds pos stop wireLen labels r := by
  induction h with
  | pointer len low hlen hpointer hlow hheader hback hrest ih =>
    rw [touchedFrom_pointer hlen hpointer hlow hheader hback, Agree, List.forall_mem_cons,
      List.forall_mem_cons] at hagree
    exact .pointer len low (hagree.1.trans hlen) hpointer (hagree.2.1.trans hlow) hheader hback
      (ih hagree.2.2)
  | root hlen =>
    rw [touchedFrom_root hlen, Agree, List.forall_mem_singleton] at hagree
    exact .root (hagree.trans hlen)
  | @label _ pos _ _ _ _ len hlen hlabel hzero hwire hend hrest ih =>
    rw [touchedFrom_label hlen hlabel hzero, Agree, List.forall_mem_cons,
      List.forall_mem_append] at hagree
    have hbytes : ∀ p, pos + 1 ≤ p → p < pos + 1 + len.toNat → msg'[p]? = msg[p]? :=
      fun p hlow hhigh => hagree.2.1 p (List.mem_range'_1.mpr ⟨hlow, hhigh⟩)
    -- the last byte of the label is there, so the message reaches behind it
    have hpos : 0 < len.toNat := Nat.pos_of_ne_zero fun h0 => hzero (UInt8.toNat_inj.mp h0)
    have hlast := (hbytes (pos + len.toNat) (by omega) (by omega)).trans
      (List.getElem?_eq_getElem (show pos + len.toNat < msg.length by omega))
    have hend' : pos + 1 + len.toNat ≤ msg'.length := by
      have := (List.getElem?_eq_some_iff.mp hlast).1
      omega
    refine .label len (hagree.1.trans hlen) hlabel hzero hwire hend' ?_
    rw [slice_congr hbytes]
    exact ih hagree.2.2

theorem Walk.touched_congr (h : Walk msg rounds pos stop wireLen labels r)
    (hagree : Agree msg msg' (touchedFrom msg rounds pos)) :
    touchedFrom msg' rounds pos = touchedFrom msg rounds pos := by
  induction h with
  | pointer len low hlen hpointer hlow hheader hback hrest ih =>
    rw [touchedFrom_pointer hlen hpointer hlow hheader hback] at hagree ⊢
    rw [Agree, List.forall_mem_cons, List.forall_mem_cons] at hagree
    rw [touchedFrom_pointer (hagree.1.trans hlen) hpointer (hagree.2.1.trans hlow) hheader hback,
      ih hagree.2.2]
  | root hlen =>
    rw [touchedFrom_root hlen] at hagree ⊢
    exact touchedFrom_root ((List.forall_mem_singleton.mp hagree).trans hlen)
  | label len hlen hlabel hzero hwire hend hrest ih =>
    rw [touchedFrom_label hlen hlabel hzero] at hagree ⊢
    rw [Agree, List.forall_mem_cons, List.forall_mem_append] at hagree
    rw [touchedFrom_label (hagree.1.trans hlen) hlabel hzero, ih hagree.2.2]

theorem Walk.wireEnd (h : Walk msg rounds pos stop wireLen labels r) :
    (∀ e ∈ stop, r.1 = e) ∧ (stop = none → pos < r.1 ∧ r.1 ≤ msg.length) := by
  induction h with
  | @pointer _ pos stop _ _ _ len low hlen hpointer hlow hheader hback hrest ih =>
    have hstop := ih.1 _ rfl
    have hlt := (List.getElem?_eq_some_iff.mp hlow).1
    refine ⟨fun e he => ?_, fun hnone => ?_⟩
    · rw [hstop, he, Option.getD_some]
    · rw [hstop, hnone, Option.getD_none]
      omega
  | @root _ pos stop _ _ hlen =>
    have hlt := (List.getElem?_eq_some_iff.mp hlen).1
    refine ⟨fun e he => ?_, fun hnone => ?_⟩
    · rw [he, Option.getD_some]
    · rw [hnone, Option.getD_none]
      omega
  | label len hlen hlabel hzero hwire hend hrest ih =>
    refine ⟨ih.1, fun hnone => ?_⟩
    have := ih.2 hnone
    omega

theorem Walk.touched_bounds (h : Walk msg rounds pos stop wireLen labels r) (hpos : 12 ≤ pos) :
    ∀ p ∈ touchedFrom msg rounds pos, 12 ≤ p ∧ p < msg.length := by
  induction h with
  | pointer len low hlen hpointer hlow hheader hback hrest ih =>
    have hlt := (List.getElem?_eq_some_iff.mp hlow).1
    rw [touchedFrom_pointer hlen hpointer hlow hheader hback, List.forall_mem_cons,
      List.forall_mem_cons]
    exact ⟨by omega, by omega, ih hheader⟩
  | root hlen =>
    have hlt := (List.getElem?_eq_some_iff.mp hlen).1
    rw [touchedFrom_root hlen, List.forall_mem_singleton]
    omega
  | label len hlen hlabel hzero hwire hend hrest ih =>
    rw [touchedFrom_label hlen hlabel hzero, List.forall_mem_cons, List.forall_mem_append]
    refine ⟨by omega, fun p hp => ?_, ih (by omega)⟩
    have := List.mem_range'_1.mp hp
    omega

/-- The bytes of the labels on the wire, the root apart. -/
def wireLength (labels : List Label) : Nat := (labels.map fun l => l.length + 1).sum

theorem wireLength_cons (l : Label) (labels : List Label) :
    wireLength (l :: labels) = l.length + 1 + wireLength labels := by
  rw [wireLength, List.map_cons, List.sum_cons]
  rfl

end Walk

theorem walkName_iff : walkName msg pos = some r ↔ Walk msg 256 pos none 1 [] r :=
  ⟨walk_of_walkFrom, walkFrom_of_walk⟩

/-- A message with the same bytes where a name is read spells the same name. -/
theorem walkName_congr (h : walkName msg pos = some r) (hagree : Agree msg msg' (touched msg pos)) :
    walkName msg' pos = some r :=
  walkName_iff.mpr ((walkName_iff.mp h).congr hagree)

theorem walkName_stop (h : walkName msg pos = some r) : pos < r.1 ∧ r.1 ≤ msg.length :=
  (walkName_iff.mp h).wireEnd.2 rfl

theorem touched_bounds (h : walkName msg pos = some r) (hpos : 12 ≤ pos) :
    ∀ p ∈ touched msg pos, 12 ≤ p ∧ p < msg.length :=
  (walkName_iff.mp h).touched_bounds hpos

/-- A message whose records can be walked holds the names of its questions. -/
theorem walkName_question {σ : Type} {visit : σ → DnsRecord → Option σ} {init : σ}
    (h : (walkRecords msg visit init).isSome = true) (hone : u16At msg 4 = 1) :
    12 ≤ msg.length ∧ ∃ name, walkName msg 12 = some name := by
  obtain ⟨s, hs⟩ := Option.isSome_iff_exists.mp h
  obtain ⟨pos, hpos, -⟩ := Option.bind_eq_some_iff.mp hs
  rw [questionSectionEnd, hone] at hpos
  split at hpos
  · cases hpos
  rename_i hlen
  obtain ⟨stop, hstop, -⟩ := Option.bind_eq_some_iff.mp hpos
  obtain ⟨name, hname, -⟩ := Option.map_eq_some_iff.mp hstop
  exact ⟨Nat.not_lt.mp hlen, name, hname⟩

end Qeli.Dns
