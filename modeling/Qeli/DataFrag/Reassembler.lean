import Qeli.DataFrag.Envelope
import Qeli.Lib.KeyMap

/-!
# Reassembly of records

`DataReassembler` of `protocol/data_frag.rs`. `accept` is `push_at` after the
datagram has been parsed and expired records are gone: the fragment fills a slot
of its record, and a record with all slots filled leaves the table and is joined
in the order of its offsets. `Accepts` lists everything a call can do.
-/

namespace Qeli.DataFrag

open Qeli.Lib Qeli.Wire

structure Chunk where
  offset : Nat
  bytes : List UInt8
  deriving DecidableEq, Repr

def Chunk.piece (c : Chunk) : Piece UInt8 := ⟨c.offset, c.bytes⟩

structure PendingRecord where
  createdAt : Nat
  totalLen : Nat
  count : Nat
  chunks : List (Option Chunk)
  receivedCount : Nat
  receivedBytes : Nat
  deriving DecidableEq, Repr

def ParsedFragment.chunk (f : ParsedFragment) : Chunk := ⟨f.offset, f.payload⟩

namespace PendingRecord

def new (now : Nat) (f : ParsedFragment) : PendingRecord where
  createdAt := now
  totalLen := f.totalLen
  count := f.count
  chunks := List.replicate f.count none
  receivedCount := 0
  receivedBytes := 0

def held (self : PendingRecord) : List Chunk := self.chunks.filterMap id

def add (self : PendingRecord) (f : ParsedFragment) : PendingRecord :=
  { self with
    chunks := self.chunks.set f.index (some f.chunk)
    receivedCount := self.receivedCount + 1
    receivedBytes := self.receivedBytes + f.payload.length }

def overlaps (self : PendingRecord) (f : ParsedFragment) : Bool :=
  self.held.any fun chunk =>
    f.offset < chunk.offset + chunk.bytes.length ∧ chunk.offset < f.offset + f.payload.length

end PendingRecord

/-- Appends chunks that follow each other without a gap. -/
def joinChunks : List Chunk → Record → Except DataFragError Record
  | [], record => .ok record
  | chunk :: chunks, record =>
    if chunk.offset ≠ record.length then .error .conflict
    else joinChunks chunks (record ++ chunk.bytes)

/-- The chunks of a full record, in the order of their offsets. -/
def PendingRecord.assemble (self : PendingRecord) : Except DataFragError Record :=
  match joinChunks (self.held.insertionSort fun a b => a.offset ≤ b.offset) [] with
  | .error e => .error e
  | .ok record => if record.length ≠ self.totalLen then .error .conflict else .ok record

structure DataReassembler where
  entries : KeyMap UInt64 PendingRecord
  bufferedBytes : Nat

namespace DataReassembler

def new : DataReassembler where
  entries := ∅
  bufferedBytes := 0

def remove (self : DataReassembler) (recordId : UInt64) : DataReassembler :=
  match self.entries.get? recordId with
  | some entry =>
    { entries := self.entries.erase recordId
      bufferedBytes := self.bufferedBytes - entry.receivedBytes }
  | none => self

def expire (self : DataReassembler) (now : Nat) : DataReassembler :=
  let expired := self.entries.toPairs.filter fun e => reassemblyTimeout < now - e.2.createdAt
  (expired.map Prod.fst).foldl remove self

/-- The end of `push_at`: the fragment fills its slot of `entry`. -/
def fill (self : DataReassembler) (f : ParsedFragment) (entry : PendingRecord) :
    DataReassembler × Except DataFragError (Option Record) :=
  if maxReassemblyBytes < saturatingAdd u64Max self.bufferedBytes f.payload.length then
    (self.remove f.recordId, .error .resourceLimit)
  else
    let entry := entry.add f
    let buffered := self.bufferedBytes + f.payload.length
    if entry.receivedCount ≠ entry.count then
      ({ entries := self.entries.insert f.recordId entry, bufferedBytes := buffered }, .ok none)
    else
      ({ entries := self.entries.erase f.recordId
         bufferedBytes := buffered - entry.receivedBytes }, entry.assemble.map some)

/-- `push_at` after parsing and expiry. -/
def accept (self : DataReassembler) (f : ParsedFragment) (now : Nat) :
    DataReassembler × Except DataFragError (Option Record) :=
  match self.entries.get? f.recordId with
  | some existing =>
    if existing.totalLen ≠ f.totalLen ∨ existing.count ≠ f.count then
      (self.remove f.recordId, .error .conflict)
    else
      match existing.chunks[f.index]? with
      | some (some chunk) =>
        if chunk = f.chunk then (self, .ok none)
        else (self.remove f.recordId, .error .conflict)
      | _ =>
        if existing.overlaps f then (self.remove f.recordId, .error .conflict)
        else self.fill f existing
  | none =>
    if maxReassemblyRecords ≤ self.entries.size then (self, .error .resourceLimit)
    else
      let entry := PendingRecord.new now f
      fill { self with entries := self.entries.insert f.recordId entry } f entry

def pushAt (hmac : Hmac) (self : DataReassembler) (datagram : Datagram) (key : Bytes 32)
    (now : Nat) : DataReassembler × Except DataFragError (Option Record) :=
  match parseAndAuthenticate hmac datagram key with
  | .error e => (self, .error e)
  | .ok f => (self.expire now).accept f now

/-! ## What a call can do -/

/-- The entry a fragment goes to, and the table with that entry in it. -/
inductive Slot (r : DataReassembler) (f : ParsedFragment) (now : Nat) :
    PendingRecord → DataReassembler → Prop where
  | found {e : PendingRecord} : r.entries.get? f.recordId = some e → e.totalLen = f.totalLen →
      e.count = f.count → (∀ c, e.chunks[f.index]? ≠ some (some c)) → e.overlaps f = false →
      Slot r f now e r
  | fresh : r.entries.get? f.recordId = none → r.entries.size < maxReassemblyRecords →
      Slot r f now (.new now f)
        { r with entries := r.entries.insert f.recordId (.new now f) }

inductive Fills (r : DataReassembler) (f : ParsedFragment) (e : PendingRecord) :
    DataReassembler → Except DataFragError (Option Record) → Prop where
  | full : Fills r f e (r.remove f.recordId) (.error .resourceLimit)
  | kept : saturatingAdd u64Max r.bufferedBytes f.payload.length ≤ maxReassemblyBytes →
      (e.add f).receivedCount ≠ e.count →
      Fills r f e { entries := r.entries.insert f.recordId (e.add f)
                    bufferedBytes := r.bufferedBytes + f.payload.length } (.ok none)
  | complete : saturatingAdd u64Max r.bufferedBytes f.payload.length ≤ maxReassemblyBytes →
      (e.add f).receivedCount = e.count →
      Fills r f e { entries := r.entries.erase f.recordId
                    bufferedBytes := r.bufferedBytes + f.payload.length -
                      (e.add f).receivedBytes } ((e.add f).assemble.map some)

inductive Accepts (r : DataReassembler) (f : ParsedFragment) (now : Nat) :
    DataReassembler → Except DataFragError (Option Record) → Prop where
  | repeated : Accepts r f now r (.ok none)
  | refused (e : DataFragError) : Accepts r f now r (.error e)
  | dropped (e : DataFragError) : Accepts r f now (r.remove f.recordId) (.error e)
  | filled {e : PendingRecord} {base r' : DataReassembler}
      {res : Except DataFragError (Option Record)} : Slot r f now e base →
      Fills base f e r' res → Accepts r f now r' res

theorem fill_effect (r : DataReassembler) (f : ParsedFragment) (e : PendingRecord) :
    Fills r f e (r.fill f e).1 (r.fill f e).2 := by
  unfold fill
  split
  · exact .full
  · next hroom =>
    dsimp only
    split
    · next hpart => exact .kept (by omega) hpart
    · next hfull => exact .complete (by omega) (not_not.mp hfull)

/-- **Every call does one of the listed things.** -/
theorem accept_effect (r : DataReassembler) (f : ParsedFragment) (now : Nat) :
    Accepts r f now (r.accept f now).1 (r.accept f now).2 := by
  unfold accept
  split
  · next e he =>
    split
    · exact .dropped _
    · next hsame =>
      simp only [not_or, not_not] at hsame
      split
      · split
        · exact .repeated
        · exact .dropped _
      · next hslot =>
        split
        · exact .dropped _
        · next hover =>
          exact .filled (.found he hsame.1 hsame.2 hslot (by simpa using hover)) (fill_effect _ _ _)
  · next hnone =>
    split
    · exact .refused _
    · next hroom => exact .filled (.fresh hnone (by omega)) (fill_effect _ _ _)

variable {r : DataReassembler} {e : PendingRecord} {k : UInt64} {f : ParsedFragment} {now : Nat}

theorem remove_of_some {id : UInt64} (h : r.entries.get? id = some e) :
    r.remove id = { entries := r.entries.erase id
                    bufferedBytes := r.bufferedBytes - e.receivedBytes } := by
  simp [remove, h]

theorem get?_remove (r : DataReassembler) (id k : UInt64) :
    (r.remove id).entries.get? k = if k = id then none else r.entries.get? k := by
  unfold remove
  split
  · exact KeyMap.get?_erase _ _ _
  · next h => by_cases hk : k = id <;> simp [hk, h]

theorem get?_remove_ne (r : DataReassembler) {id : UInt64} (hk : k ≠ id) :
    (r.remove id).entries.get? k = r.entries.get? k := by
  rw [get?_remove, if_neg hk]

theorem get?_foldl_remove (r : DataReassembler) (ids : List UInt64) (k : UInt64) :
    (ids.foldl remove r).entries.get? k = if k ∈ ids then none else r.entries.get? k := by
  induction ids generalizing r with
  | nil => simp
  | cons id ids ih =>
    rw [List.foldl_cons, ih, get?_remove]
    by_cases hk : k = id <;> simp [hk]

theorem get?_expire (r : DataReassembler) (now : Nat) (k : UInt64) :
    (r.expire now).entries.get? k =
      (r.entries.get? k).filter fun e => now - e.createdAt ≤ reassemblyTimeout := by
  unfold expire
  dsimp only
  rw [get?_foldl_remove]
  have hmem : k ∈ (r.entries.toPairs.filter fun e => reassemblyTimeout < now - e.2.createdAt).map
      Prod.fst ↔ ∃ e, r.entries.get? k = some e ∧ reassemblyTimeout < now - e.createdAt := by
    simp [List.mem_map, List.mem_filter, KeyMap.mem_toPairs]
  cases he : r.entries.get? k with
  | none => simp
  | some e =>
    by_cases hold : now - e.createdAt ≤ reassemblyTimeout
    · rw [if_neg, Option.filter_some_pos (by simpa using hold)]
      rw [hmem]
      rintro ⟨e', he', hlt⟩
      rw [he] at he'
      cases he'
      omega
    · rw [if_pos (hmem.mpr ⟨e, he, by omega⟩), Option.filter_some_neg (by simpa using hold)]

theorem Slot.get? {base : DataReassembler} (h : Slot r f now e base) :
    base.entries.get? f.recordId = some e := by
  cases h with
  | found h => exact h
  | fresh => exact KeyMap.get?_insert_self _ _ _

theorem Slot.get?_ne {base : DataReassembler} (h : Slot r f now e base) (hk : k ≠ f.recordId) :
    base.entries.get? k = r.entries.get? k := by
  cases h with
  | found => rfl
  | fresh => exact KeyMap.get?_insert_ne _ _ hk

/-- **A call touches only the entry of its own record.** -/
theorem accept_get?_ne (r : DataReassembler) (f : ParsedFragment) (now : Nat) (hk : k ≠ f.recordId) :
    (r.accept f now).1.entries.get? k = r.entries.get? k := by
  have h := r.accept_effect f now
  generalize r.accept f now = step at h
  obtain ⟨r', res⟩ := step
  cases h with
  | repeated | refused => rfl
  | dropped => exact get?_remove_ne _ hk
  | filled hs hf =>
    rw [← hs.get?_ne hk]
    cases hf with
    | full => exact get?_remove_ne _ hk
    | kept => exact KeyMap.get?_insert_ne _ _ hk
    | complete => exact KeyMap.get?_erase_ne _ hk

theorem accept_error {err : DataFragError} (h : (r.accept f now).2 = .error err) :
    (r.accept f now).1 = r ∨ (r.accept f now).1.entries.get? f.recordId = none := by
  have heff := r.accept_effect f now
  generalize r.accept f now = step at h heff
  obtain ⟨r', res⟩ := step
  cases heff with
  | repeated => cases h
  | refused => exact .inl rfl
  | dropped => exact .inr ((get?_remove _ _ _).trans (if_pos rfl))
  | filled hs hf =>
    refine .inr ?_
    cases hf with
    | full => exact (get?_remove _ _ _).trans (if_pos rfl)
    | kept => cases h
    | complete => exact KeyMap.get?_erase_self _ _

theorem accept_record {record : Record} (h : (r.accept f now).2 = .ok (some record)) :
    ∃ e base, Slot r f now e base ∧ (e.add f).receivedCount = e.count ∧
      (e.add f).assemble = .ok record := by
  have heff := r.accept_effect f now
  generalize r.accept f now = step at h heff
  obtain ⟨r', res⟩ := step
  cases heff with
  | repeated | refused | dropped => cases h
  | @filled e base _ _ hs hf =>
    refine ⟨e, base, hs, ?_⟩
    cases hf with
    | full | kept => cases h
    | complete _ hdone =>
      refine ⟨hdone, ?_⟩
      dsimp only at h
      cases ha : (e.add f).assemble with
      | error err =>
        rw [ha] at h
        cases h
      | ok joined =>
        rw [ha] at h
        cases h
        rfl

end DataReassembler

end Qeli.DataFrag
