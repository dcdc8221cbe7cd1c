import Qeli.Dns.Cache
import Qeli.Dns.Records

/-!
# OPT records

What `edns` finds in a message, as a property of its records (`edns_cases`, `edns_plain`, `edns_opt`),
and the record that `append_edns` adds.
-/

namespace Qeli.Dns

open Qeli.Lib

/-! ## Finding the record -/

/-- What `edns` returns for the OPT record `rr`. -/
def ednsOf (rr : DnsRecord) : Edns where
  start := rr.start
  stop := rr.stop
  payload := rr.cls
  extendedRcode := rr.ttl >>> 24
  version := rr.ttl >>> 16 &&& 0xFF
  flags := rr.ttl % 2 ^ 16
  hasOptions := rr.data != rr.stop

/-- The checks on an OPT record. -/
structure OptRecord (msg : List UInt8) (rr : DnsRecord) : Prop where
  rtype : rr.rtype = 41
  sec : rr.sec = 2
  root : msg.getD rr.start 0 = 0
  data : rr.data = rr.start + 11
  options : (ednsOf rr).version = 0 → validOptions msg rr.stop rr.data = true

def Plain (rs : List DnsRecord) : Prop := ∀ rr ∈ rs, rr.rtype ≠ 41

section Found

variable {msg : List UInt8} {opt opt' : Option Edns} {o : Edns} {rr : DnsRecord}
  {rs : List DnsRecord} {q : Nat}

theorem ednsVisit_plain (h : rr.rtype ≠ 41) : ednsVisit msg opt rr = some opt := by
  rw [ednsVisit, if_pos h]

theorem ednsVisit_opt (h : rr.rtype = 41) :
    ednsVisit msg opt rr = some opt' ↔ opt = none ∧ OptRecord msg rr ∧ opt' = some (ednsOf rr) := by
  rw [ednsVisit, if_neg (not_not.mpr h)]
  by_cases hfirst : opt.isSome ∨ rr.sec ≠ 2 ∨ msg.getD rr.start 0 ≠ 0 ∨ rr.data ≠ rr.start + 11
  · rw [if_pos hfirst]
    refine iff_of_false (Option.some_ne_none _).symm ?_
    rintro ⟨rfl, hrecord, -⟩
    obtain hsome | hsec | hroot | hdata := hfirst
    · cases hsome
    · exact hsec hrecord.sec
    · exact hroot hrecord.root
    · exact hdata hrecord.data
  · rw [if_neg hfirst]
    simp only [not_or, not_not, Bool.not_eq_true, Option.isSome_eq_false_iff,
      Option.isNone_iff_eq_none] at hfirst
    obtain ⟨rfl, hsec, hroot, hdata⟩ := hfirst
    dsimp only
    split
    case isTrue hbad =>
      refine iff_of_false (Option.some_ne_none _).symm fun hrecord => ?_
      rw [hrecord.2.1.options hbad.1] at hbad
      cases hbad.2
    case isFalse hgood =>
      rw [Option.some.injEq, eq_comm]
      refine ⟨fun heq => ⟨rfl, ⟨h, hsec, hroot, hdata, fun hversion => ?_⟩, heq⟩, fun hall => hall.2.2⟩
      exact Bool.not_eq_false _ ▸ fun hoptions => hgood ⟨hversion, hoptions⟩

theorem foldlM_plain (h : Plain rs) : rs.foldlM (ednsVisit msg) opt = some opt := by
  induction rs with
  | nil => rfl
  | cons rr rs ih =>
    obtain ⟨hrr, hrest⟩ := List.forall_mem_cons.mp h
    rw [List.foldlM_cons, ednsVisit_plain hrr]
    exact ih hrest

theorem plain_of_foldlM (h : rs.foldlM (ednsVisit msg) (some o) = some opt) :
    Plain rs ∧ opt = some o := by
  induction rs with
  | nil => exact ⟨List.forall_mem_nil _, (Option.some.inj h).symm⟩
  | cons rr rs ih =>
    rw [List.foldlM_cons] at h
    obtain ⟨next, hnext, h⟩ := Option.bind_eq_some_iff.mp h
    by_cases hrr : rr.rtype = 41
    · cases (ednsVisit_opt hrr |>.mp hnext).1
    · rw [ednsVisit_plain hrr, Option.some.injEq] at hnext
      obtain ⟨hplain, hopt⟩ := ih (hnext ▸ h)
      exact ⟨List.forall_mem_cons.mpr ⟨hrr, hplain⟩, hopt⟩

theorem foldlM_ednsVisit (h : rs.foldlM (ednsVisit msg) none = some opt) :
    (Plain rs ∧ opt = none) ∨ ∃ front rr back, rs = front ++ rr :: back ∧ Plain front ∧ Plain back ∧
      OptRecord msg rr ∧ opt = some (ednsOf rr) := by
  induction rs with
  | nil => exact .inl ⟨List.forall_mem_nil _, (Option.some.inj h).symm⟩
  | cons rr rs ih =>
    rw [List.foldlM_cons] at h
    obtain ⟨next, hnext, h⟩ := Option.bind_eq_some_iff.mp h
    by_cases hrr : rr.rtype = 41
    · obtain ⟨-, hrecord, rfl⟩ := (ednsVisit_opt hrr).mp hnext
      obtain ⟨hplain, hopt⟩ := plain_of_foldlM h
      exact .inr ⟨[], rr, rs, rfl, List.forall_mem_nil _, hplain, hrecord, hopt⟩
    · rw [ednsVisit_plain hrr, Option.some.injEq] at hnext
      obtain ⟨hplain, hopt⟩ | ⟨front, r, back, rfl, hfront, hback, hrecord, hopt⟩ := ih (hnext ▸ h)
      · exact .inl ⟨List.forall_mem_cons.mpr ⟨hrr, hplain⟩, hopt⟩
      · exact .inr ⟨rr :: front, r, back, rfl, List.forall_mem_cons.mpr ⟨hrr, hfront⟩, hback,
          hrecord, hopt⟩

theorem foldlM_opt {front back : List DnsRecord} (hfront : Plain front) (hback : Plain back)
    (hrecord : OptRecord msg rr) :
    (front ++ rr :: back).foldlM (ednsVisit msg) none = some (some (ednsOf rr)) := by
  rw [List.foldlM_append, foldlM_plain hfront]
  refine Option.bind_eq_some_iff.mpr ⟨none, rfl, ?_⟩
  rw [List.foldlM_cons, (ednsVisit_opt hrecord.rtype).mpr ⟨rfl, hrecord, rfl⟩]
  exact foldlM_plain hback

theorem edns_cases (hframed : Framed msg q rs) (h : edns msg = some opt) :
    (Plain rs ∧ opt = none) ∨ ∃ front rr back, rs = front ++ rr :: back ∧ Plain front ∧ Plain back ∧
      OptRecord msg rr ∧ opt = some (ednsOf rr) := by
  obtain ⟨q', rs', hframed', hfold⟩ := walkRecords_iff.mp h
  obtain ⟨rfl, rfl⟩ := hframed.unique hframed'
  exact foldlM_ednsVisit hfold

theorem edns_plain (hframed : Framed msg q rs) (hplain : Plain rs) : edns msg = some none :=
  walkRecords_iff.mpr ⟨q, rs, hframed, foldlM_plain hplain⟩

theorem edns_opt {front back : List DnsRecord} (hframed : Framed msg q (front ++ rr :: back))
    (hfront : Plain front) (hback : Plain back) (hrecord : OptRecord msg rr) :
    edns msg = some (some (ednsOf rr)) :=
  walkRecords_iff.mpr ⟨q, _, hframed, foldlM_opt hfront hback hrecord⟩

end Found

/-! ## The record that is appended -/

def appendedRecord (pos payload rcode version flags : Nat) : DnsRecord where
  sec := 2
  start := pos
  data := pos + 11
  stop := pos + 11
  rtype := 41
  cls := max payload 512 % 2 ^ 16
  ttl := (rcode % 2 ^ 8 * 2 ^ 8 + version % 2 ^ 8) * 2 ^ 16 + flags % 2 ^ 16

section Appended

variable {msg : List UInt8} {payload rcode version flags : Nat}

theorem length_appendEdns (h : 12 ≤ msg.length) :
    (appendEdns msg payload rcode version flags).length = msg.length + 11 := by
  rw [appendEdns, length_patch]
  · simp only [List.length_append, length_beBytes, List.length_cons, List.length_nil]
  · rw [length_beBytes, List.length_append]
    omega

theorem getElem?_appendEdns (h : 12 ≤ msg.length) {p : Nat} (hp : p < 10 ∨ 12 ≤ p)
    (hlt : p < msg.length) : (appendEdns msg payload rcode version flags)[p]? = msg[p]? := by
  rw [appendEdns, getElem?_patch, List.getElem?_append_left hlt]
  · rw [length_beBytes, List.length_append]
    omega
  · rwa [length_beBytes]

theorem drop_appendEdns (h : 12 ≤ msg.length) :
    (appendEdns msg payload rcode version flags).drop msg.length =
      [0, 0, 41] ++ beBytes 2 (max payload 512) ++ beBytes 1 rcode ++ beBytes 1 version ++
        beBytes 2 flags ++ [0, 0] := by
  refine List.ext_getElem? fun i => ?_
  rw [List.getElem?_drop, appendEdns, getElem?_patch, List.getElem?_append_right (by omega),
    Nat.add_sub_cancel_left]
  · rw [length_beBytes, List.length_append]
    omega
  · rw [length_beBytes]
    omega

theorem count_appendEdns (h : 12 ≤ msg.length) (hcount : u16At msg 10 + 1 < 2 ^ 16) :
    u16At (appendEdns msg payload rcode version flags) 10 = u16At msg 10 + 1 := by
  have hold : ∀ tail : List UInt8, u16At (msg ++ tail) 10 = u16At msg 10 := fun tail =>
    u16At_congr fun p hp hp' => List.getElem?_append_left (by omega)
  rw [appendEdns, u16At, ofBE_patch (by rw [List.length_append]; omega), hold]
  exact Nat.mod_eq_of_lt hcount

theorem walkRecord_appendEdns (h : 12 ≤ msg.length) :
    walkRecord (appendEdns msg payload rcode version flags) 2 msg.length =
      some (appendedRecord msg.length payload rcode version flags) := by
  have hlen : (appendEdns msg payload rcode version flags).length = _ := length_appendEdns h
  have hdrop : (appendEdns msg payload rcode version flags).drop msg.length = _ :=
    drop_appendEdns h
  generalize appendEdns msg payload rcode version flags = out at hlen hdrop
  have hslice := slice_of_drop hdrop
  have hroot : out[msg.length]? = some 0 := by rw [← List.head?_drop, hdrop]; rfl
  have hlength : u16At out (msg.length + 1 + 8) = 0 := congrArg ofBE (hslice 9 2)
  have htype : u16At out (msg.length + 1) = 41 := congrArg ofBE (hslice 1 2)
  have hclass : u16At out (msg.length + 1 + 2) = max payload 512 % 2 ^ 16 :=
    (congrArg ofBE (hslice 3 2)).trans (ofBE_beBytes_mod 2 _)
  have httl : u32At out (msg.length + 1 + 4) =
      (rcode % 2 ^ 8 * 2 ^ 8 + version % 2 ^ 8) * 2 ^ 16 + flags % 2 ^ 16 := by
    have hfield : u32At out (msg.length + 1 + 4) =
        ofBE (beBytes 1 rcode ++ beBytes 1 version ++ beBytes 2 flags) := congrArg ofBE (hslice 5 4)
    rw [hfield, ofBE_append, ofBE_append, ofBE_beBytes_mod, ofBE_beBytes_mod, ofBE_beBytes_mod,
      length_beBytes, length_beBytes]
    simp only [Nat.reducePow]
  refine walkRecord_iff.mpr ⟨(msg.length + 1, []), walkName_iff.mpr (.root hroot), ?_, ?_⟩
  · rw [hlength]
    omega
  · rw [hlength, htype, hclass, httl]
    rfl

theorem optRecord_appendEdns (h : 12 ≤ msg.length) :
    OptRecord (appendEdns msg payload rcode version flags)
      (appendedRecord msg.length payload rcode version flags) := by
  refine ⟨rfl, rfl, ?_, rfl, fun _ => ?_⟩
  · have hdrop : (appendEdns msg payload rcode version flags).drop msg.length = _ :=
      drop_appendEdns h
    exact getD_of_drop hdrop
  · rw [validOptions]
    exact if_neg (Nat.lt_irrefl _)

end Appended

end Qeli.Dns
