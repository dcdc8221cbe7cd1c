import Qeli.Dns.Message

/-!
# What a message says

The records of a message as the walk finds them: one behind the other, each with a head of ten
bytes behind its owner name. `decode` reads a message into names and records.
-/

namespace Qeli.Dns

open Qeli.Lib

/-! ## Decoding -/

def nameAt (msg : List UInt8) (pos : Nat) : Option (List Label) := (walkName msg pos).map (·.2)

/-- Where names start inside the data of a record, for the types whose data is checked. -/
def dataNameStarts (msg : List UInt8) (rr : DnsRecord) : List Nat :=
  if rr.rtype = 2 ∨ rr.rtype = 5 ∨ rr.rtype = 12 ∨ rr.rtype = 39 then [rr.data]
  else if rr.rtype = 15 then [rr.data + 2]
  else if rr.rtype = 33 ∧ rr.cls = 1 then [rr.data + 6]
  else if rr.rtype = 6 then rr.data :: (skipName msg rr.data).toList
  else []

/-- Where `count` questions start. -/
def questionStarts (msg : List UInt8) : Nat → Nat → List Nat
  | 0, _ => []
  | count + 1, pos =>
    pos :: (skipName msg pos).elim [] fun stop => questionStarts msg count (stop + 4)

structure Question where
  name : Option (List Label)
  /-- Type and class, four bytes. -/
  kind : List UInt8
  deriving DecidableEq, Repr

structure Resource where
  sec : Nat
  owner : Option (List Label)
  rtype : Nat
  cls : Nat
  ttl : Nat
  data : List UInt8
  /-- The names inside the data. -/
  names : List (Option (List Label))
  deriving DecidableEq, Repr

@[ext]
structure Content where
  questions : List Question
  resources : List Resource
  deriving DecidableEq, Repr

def decodeQuestion (msg : List UInt8) (pos : Nat) : Question where
  name := nameAt msg pos
  kind := (msg.drop ((skipName msg pos).getD pos)).take 4

def decodeRecord (msg : List UInt8) (rr : DnsRecord) : Resource where
  sec := rr.sec
  owner := nameAt msg rr.start
  rtype := rr.rtype
  cls := rr.cls
  ttl := rr.ttl
  data := (msg.drop rr.data).take (rr.stop - rr.data)
  names := (dataNameStarts msg rr).map (nameAt msg)

def records (msg : List UInt8) : Option (List DnsRecord) :=
  walkRecords msg (fun rs rr => some (rs ++ [rr])) []

def contentOf (msg : List UInt8) (rs : List DnsRecord) : Content where
  questions := (questionStarts msg (u16At msg 4) 12).map (decodeQuestion msg)
  resources := rs.map (decodeRecord msg)

def decode (msg : List UInt8) : Option Content := (records msg).map (contentOf msg)

/-! ## The walk over the records -/

/-- Records one behind the other from `pos` to `stop`, one for each of the sections. -/
inductive Chain (msg : List UInt8) : List Nat → Nat → List DnsRecord → Nat → Prop
  | nil {pos : Nat} : Chain msg [] pos [] pos
  | cons {sec pos stop : Nat} {secs : List Nat} {rr : DnsRecord} {rs : List DnsRecord}
    (hrr : walkRecord msg sec pos = some rr) (hrest : Chain msg secs rr.stop rs stop) :
    Chain msg (sec :: secs) pos (rr :: rs) stop

/-- The questions end at `q`, and the records take the rest of the message. -/
structure Framed (msg : List UInt8) (q : Nat) (rs : List DnsRecord) : Prop where
  questions : questionSectionEnd msg = some q
  records : Chain msg (sections msg) q rs msg.length

section Walks

variable {σ : Type} {msg : List UInt8} {visit : σ → DnsRecord → Option σ}

theorem foldlM_walkStep {secs : List Nat} {pos stop : Nat} {init s : σ} :
    secs.foldlM (walkStep msg visit) (pos, init) = some (stop, s) ↔
      ∃ rs, Chain msg secs pos rs stop ∧ rs.foldlM visit init = some s := by
  induction secs generalizing pos init with
  | nil =>
    constructor
    · intro h
      obtain ⟨rfl, rfl⟩ := Prod.mk.inj (Option.some.inj h)
      exact ⟨[], .nil, rfl⟩
    · rintro ⟨rs, hchain, hfold⟩
      cases hchain
      rw [Option.some.inj hfold]
      rfl
  | cons sec secs ih =>
    rw [List.foldlM_cons]
    constructor
    · intro h
      obtain ⟨next, hstep, hrest⟩ := Option.bind_eq_some_iff.mp h
      obtain ⟨rr, hrr, hvisit⟩ := Option.bind_eq_some_iff.mp hstep
      obtain ⟨s', hs', hnext⟩ := Option.bind_eq_some_iff.mp hvisit
      obtain rfl := Option.some.inj hnext
      obtain ⟨rs, hchain, hfold⟩ := ih.mp hrest
      refine ⟨rr :: rs, .cons hrr hchain, ?_⟩
      rw [List.foldlM_cons, hs']
      exact hfold
    · rintro ⟨rs, hchain, hfold⟩
      cases hchain with
      | cons hrr hrest =>
        rw [List.foldlM_cons] at hfold
        obtain ⟨s', hs', hfold⟩ := Option.bind_eq_some_iff.mp hfold
        refine Option.bind_eq_some_iff.mpr ⟨(_, s'), ?_, ih.mpr ⟨_, hrest, hfold⟩⟩
        exact Option.bind_eq_some_iff.mpr
          ⟨_, hrr, Option.bind_eq_some_iff.mpr ⟨s', hs', rfl⟩⟩

theorem walkRecords_iff {init s : σ} : walkRecords msg visit init = some s ↔
    ∃ q rs, Framed msg q rs ∧ rs.foldlM visit init = some s := by
  constructor
  · intro h
    obtain ⟨q, hq, h⟩ := Option.bind_eq_some_iff.mp h
    obtain ⟨walked, hwalked, h⟩ := Option.bind_eq_some_iff.mp h
    split at h
    · rename_i hend
      obtain ⟨rs, hchain, hfold⟩ := foldlM_walkStep.mp hwalked
      exact ⟨q, rs, ⟨hq, hend ▸ hchain⟩, hfold.trans h⟩
    · cases h
  · rintro ⟨q, rs, hframed, hfold⟩
    refine Option.bind_eq_some_iff.mpr ⟨q, hframed.questions, ?_⟩
    refine Option.bind_eq_some_iff.mpr
      ⟨(msg.length, s), foldlM_walkStep.mpr ⟨rs, hframed.records, hfold⟩, if_pos rfl⟩

theorem foldlM_snoc (rs front : List DnsRecord) :
    rs.foldlM (fun rs rr => some (rs ++ [rr])) front = some (front ++ rs) := by
  induction rs generalizing front with
  | nil => rw [List.foldlM_nil, List.append_nil]; rfl
  | cons rr rs ih =>
    rw [List.foldlM_cons]
    exact (ih _).trans (by rw [List.append_assoc, List.singleton_append])

theorem records_iff {rs : List DnsRecord} : records msg = some rs ↔ ∃ q, Framed msg q rs := by
  rw [records, walkRecords_iff]
  simp only [foldlM_snoc, List.nil_append, Option.some.injEq]
  constructor
  · rintro ⟨q, rs, hframed, rfl⟩
    exact ⟨q, hframed⟩
  · rintro ⟨q, hframed⟩
    exact ⟨q, rs, hframed, rfl⟩

theorem Framed.decode {q : Nat} {rs : List DnsRecord} (h : Framed msg q rs) :
    decode msg = some (contentOf msg rs) := by
  rw [Dns.decode, records_iff.mpr ⟨q, h⟩]
  rfl

end Walks

/-! ## Where records lie -/

theorem u16At_congr {msg msg' : List UInt8} {offset : Nat}
    (h : ∀ p, offset ≤ p → p < offset + 2 → msg'[p]? = msg[p]?) :
    u16At msg' offset = u16At msg offset :=
  congrArg ofBE (slice_congr h)

theorem within_iff {msg : List UInt8} {pos r : Nat} :
    within msg pos = some r ↔ pos ≤ msg.length ∧ r = pos := by
  rw [within]
  split
  · simp_all [eq_comm]
  · simp_all

section Layout

variable {msg : List UInt8} {sec pos stop : Nat} {secs : List Nat} {rr : DnsRecord}
  {rs : List DnsRecord}

theorem walkRecord_iff : walkRecord msg sec pos = some rr ↔ ∃ name, walkName msg pos = some name ∧
    name.1 + 10 + u16At msg (name.1 + 8) ≤ msg.length ∧
    rr = ⟨sec, pos, name.1 + 10, name.1 + 10 + u16At msg (name.1 + 8), u16At msg name.1,
      u16At msg (name.1 + 2), u32At msg (name.1 + 4)⟩ := by
  constructor
  · intro h
    obtain ⟨header, hheader, h⟩ := Option.bind_eq_some_iff.mp h
    obtain ⟨data, hdata, h⟩ := Option.bind_eq_some_iff.mp h
    obtain ⟨stop, hstop, h⟩ := Option.bind_eq_some_iff.mp h
    obtain ⟨name, hname, rfl⟩ := Option.map_eq_some_iff.mp hheader
    obtain ⟨-, rfl⟩ := within_iff.mp hdata
    obtain ⟨hend, rfl⟩ := within_iff.mp hstop
    exact ⟨name, hname, hend, (Option.some.inj h).symm⟩
  · rintro ⟨name, hname, hend, rfl⟩
    refine Option.bind_eq_some_iff.mpr ⟨name.1, Option.map_eq_some_iff.mpr ⟨name, hname, rfl⟩, ?_⟩
    refine Option.bind_eq_some_iff.mpr ⟨name.1 + 10, within_iff.mpr ⟨by omega, rfl⟩, ?_⟩
    exact Option.bind_eq_some_iff.mpr ⟨_, within_iff.mpr ⟨hend, rfl⟩, rfl⟩

/-- The order of the positions in a record. -/
structure Lies (pos stop : Nat) (rr : DnsRecord) : Prop where
  start : pos ≤ rr.start
  head : rr.start + 11 ≤ rr.data
  data : rr.data ≤ rr.stop
  stop : rr.stop ≤ stop

theorem lies_of_walkRecord (h : walkRecord msg sec pos = some rr) : Lies pos rr.stop rr := by
  obtain ⟨name, hname, -, rfl⟩ := walkRecord_iff.mp h
  have hlt := (walkName_stop hname).1
  exact ⟨Nat.le_refl _, by dsimp only; omega, Nat.le_add_right _ _, Nat.le_refl _⟩

theorem Chain.lies (h : Chain msg secs pos rs stop) : pos ≤ stop ∧ ∀ rr ∈ rs, Lies pos stop rr := by
  induction h with
  | nil => exact ⟨Nat.le_refl _, List.forall_mem_nil _⟩
  | cons hrr hrest ih =>
    have hhead := lies_of_walkRecord hrr
    have hpos := hhead.start.trans (Nat.le_add_right _ 11 |>.trans (hhead.head.trans hhead.data))
    refine ⟨hpos.trans ih.1, List.forall_mem_cons.mpr
      ⟨⟨hhead.start, hhead.head, hhead.data, ih.1⟩, fun rr hmem => ?_⟩⟩
    have hrr := ih.2 rr hmem
    exact ⟨hpos.trans hrr.start, hrr.head, hrr.data, hrr.stop⟩

end Layout

/-! ## The same records in another message -/

/-- A name of `msg` that `msg'` spells in the same way. -/
def SameName (msg msg' : List UInt8) (start : Nat) : Prop :=
  ∃ r, walkName msg start = some r ∧ Agree msg msg' (touched msg start)

section Reread

variable {msg msg' : List UInt8} {pos q start count : Nat}

theorem SameName.walkName (h : SameName msg msg' start) :
    walkName msg' start = walkName msg start := by
  obtain ⟨r, hr, hagree⟩ := h
  rw [hr, walkName_congr hr hagree]

theorem skipQuestions_succ : skipQuestions msg (count + 1) pos = some q ↔
    ∃ stop, skipName msg pos = some stop ∧ stop + 4 ≤ msg.length ∧
      skipQuestions msg count (stop + 4) = some q := by
  constructor
  · intro h
    obtain ⟨stop, hstop, h⟩ := Option.bind_eq_some_iff.mp h
    obtain ⟨next, hnext, h⟩ := Option.bind_eq_some_iff.mp h
    obtain ⟨hlen, rfl⟩ := within_iff.mp hnext
    exact ⟨stop, hstop, hlen, h⟩
  · rintro ⟨stop, hstop, hlen, h⟩
    exact Option.bind_eq_some_iff.mpr ⟨stop, hstop, Option.bind_eq_some_iff.mpr
      ⟨_, within_iff.mpr ⟨hlen, rfl⟩, h⟩⟩

theorem skipQuestions_le (h : skipQuestions msg count pos = some q) : pos ≤ q := by
  induction count generalizing pos with
  | zero => exact (Option.some.inj h).le
  | succ count ih =>
    obtain ⟨stop, hstop, -, h⟩ := skipQuestions_succ.mp h
    obtain ⟨name, hname, rfl⟩ := Option.map_eq_some_iff.mp hstop
    have hlt := (walkName_stop hname).1
    have hle := ih h
    omega

end Reread

theorem questionSectionEnd_iff {msg : List UInt8} {q : Nat} : questionSectionEnd msg = some q ↔
    12 ≤ msg.length ∧ skipQuestions msg (u16At msg 4) 12 = some q := by
  rw [questionSectionEnd]
  split
  case isTrue h => exact iff_of_false (Option.some_ne_none q).symm fun hq => absurd hq.1 (by omega)
  case isFalse h => exact (and_iff_right (Nat.not_lt.mp h)).symm

/-! ## Complete messages -/

section Complete

variable {msg msg' : List UInt8} {q pos stop : Nat} {secs : List Nat} {rs : List DnsRecord}

theorem Framed.unique {q' : Nat} {rs' : List DnsRecord} (h : Framed msg q rs)
    (h' : Framed msg q' rs') : q' = q ∧ rs' = rs :=
  ⟨Option.some.inj (h'.questions.symm.trans h.questions),
    Option.some.inj ((records_iff.mpr ⟨q', h'⟩).symm.trans (records_iff.mpr ⟨q, h⟩))⟩

theorem Framed.bounds (h : Framed msg q rs) : 12 ≤ q ∧ q ≤ msg.length :=
  ⟨skipQuestions_le (questionSectionEnd_iff.mp h.questions).2, h.records.lies.1⟩

theorem sameName_of_body (hbody : ∀ p, 12 ≤ p → p < msg.length → msg'[p]? = msg[p]?) {start : Nat}
    {r : Nat × List Label} (hstart : 12 ≤ start) (hname : walkName msg start = some r) :
    SameName msg msg' start := by
  refine ⟨r, hname, fun p hp => ?_⟩
  obtain ⟨hlow, hhigh⟩ := touched_bounds hname hstart p hp
  exact hbody p hlow hhigh

theorem Chain.ttl (h : Chain msg secs pos rs stop) :
    ∀ rr ∈ rs, u32At msg (rr.data - 6) = rr.ttl := by
  induction h with
  | nil => exact List.forall_mem_nil _
  | cons hrr hrest ih =>
    obtain ⟨name, -, -, rfl⟩ := walkRecord_iff.mp hrr
    refine List.forall_mem_cons.mpr ⟨?_, ih⟩
    dsimp only
    rw [show name.1 + 10 - 6 = name.1 + 4 by omega]

theorem foldlM_check {check : DnsRecord → Bool} {u : Unit} :
    rs.foldlM (fun _ rr => if check rr then some () else none) u = some () ↔
      ∀ rr ∈ rs, check rr = true := by
  induction rs generalizing u with
  | nil => exact iff_of_true rfl (List.forall_mem_nil _)
  | cons rr rs ih =>
    rw [List.foldlM_cons, List.forall_mem_cons]
    cases hcheck : check rr with
    | false => simp
    | true => simpa using ih

theorem complete_iff : dnsMessageIsComplete msg = true ↔
    ∃ q rs, Framed msg q rs ∧ ∀ rr ∈ rs, validateRecordData msg rr = true := by
  rw [dnsMessageIsComplete, Option.isSome_iff_exists]
  constructor
  · rintro ⟨⟨⟩, h⟩
    obtain ⟨q, rs, hframed, hfold⟩ := walkRecords_iff.mp h
    exact ⟨q, rs, hframed, foldlM_check.mp hfold⟩
  · rintro ⟨q, rs, hframed, hvalid⟩
    exact ⟨(), walkRecords_iff.mpr ⟨q, rs, hframed, foldlM_check.mpr hvalid⟩⟩

end Complete

end Qeli.Dns
