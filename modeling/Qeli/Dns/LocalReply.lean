import Qeli.Dns.Edns

/-!
# Replies that the resolver builds itself

`blocked_response` and the short form of `apply_udp_size_limit` are the query cut behind its
question, with new flags, no counts but that of the question, and an OPT record of their own. A
question name may run on behind the question section (a pointer back into a label, whose bytes are
then read as labels that reach further), so the cut message asks what the query asks when the bytes
that the name reads are `Kept`: they are in the question section, or the OPT record repeats them. A
name that runs on has the pointer in a label: it is no text, and `is_blocked` does not see it.
-/

namespace Qeli.Dns

open Qeli.Lib

/-! ## The size limit -/

def advertisedUdpSize (query : List UInt8) : Nat :=
  (edns query).join.elim 512 fun opt => max opt.payload 512

/-- The flags of the answer, with QR and TC set. -/
def truncatedFlags (out resp : List UInt8) : List UInt8 :=
  let out := if 4 ≤ resp.length then patch out 2 [resp.getD 2 0, resp.getD 3 0] else out
  patch out 2 [out.getD 2 0 ||| 0x80 ||| 0x02]

def applyUdpSizeLimit (query resp : List UInt8) : Option (List UInt8) :=
  let queryOpt := (edns query).join
  match edns resp with
  | none => none
  | some responseOpt =>
    if queryOpt.isNone ∧ responseOpt.isSome then none
    else if resp.length ≤ advertisedUdpSize query then some resp
    else
      match hasTransactionSignature resp with
      | none => none
      | some true => none
      | some false =>
        match questionSectionEnd query with
        | none => none
        | some stop =>
          let out := patch (truncatedFlags (query.take stop) resp) 6 [0, 0, 0, 0, 0, 0]
          some (queryOpt.elim out fun query =>
            appendEdns out query.payload (responseOpt.elim 0 (·.extendedRcode))
              (responseOpt.elim 0 (·.version)) (responseOpt.elim (query.flags &&& 0x8000) (·.flags)))

/-! ## The question of a cut message -/

/-- The OPT record that a reply carries behind the question. -/
def optBytes (payload rcode version flags : Nat) : List UInt8 :=
  [0, 0, 41] ++ beBytes 2 (max payload 512) ++ beBytes 1 rcode ++ beBytes 1 version ++
    beBytes 2 flags ++ [0, 0]

theorem appendEdns_eq (msg : List UInt8) (payload rcode version flags : Nat) :
    appendEdns msg payload rcode version flags =
      patch (msg ++ optBytes payload rcode version flags) 10
        (beBytes 2 (u16At (msg ++ optBytes payload rcode version flags) 10 + 1)) := rfl

/-- Every byte that the name of the question reads is in the question section, or is repeated at its
place by what follows the section in a reply. -/
def Kept (query : List UInt8) (stop : Nat) (tail : List UInt8) : Prop :=
  ∀ p ∈ touched query 12, p < stop ∨ tail[p - stop]? = query[p]?

/-- The two bytes at `p` are the same in both messages, or neither has a pointer there. -/
def Alike (msg msg' : List UInt8) (p : Nat) : Prop :=
  msg'[p]? = msg[p]? ∧ msg'[p + 1]? = msg[p + 1]? ∨
    ∀ b : UInt8, b &&& 0xC0 = 0xC0 → msg[p]? ≠ some b ∧ msg'[p]? ≠ some b

/-- What follows the question section in a reply changes a pointer that the name reads, or makes
one of a byte that it reads. -/
def Repointed (query : List UInt8) (stop : Nat) (tail : List UInt8) : Prop :=
  ∃ p ∈ touched query 12, ¬ Alike query (query.take stop ++ tail) p

/-- The name of the question is read the same way when only `tail` follows the question section. -/
def Respells (query : List UInt8) (stop : Nat) (tail : List UInt8) : Prop :=
  nameAt (query.take stop ++ tail) 12 = nameAt query 12

/-- Other bytes spell the same name only through other pointers, and if there is an OPT record. -/
def SelfContained (query : List UInt8) (stop : Nat) (tail : List UInt8) : Prop :=
  Kept query stop tail ∨ tail ≠ [] ∧ Repointed query stop tail ∧ Respells query stop tail

/-- `reply` is a complete message, asks what `query` asks and holds an OPT record at most. -/
structure LocalReply (query reply : List UInt8) : Prop where
  complete : dnsMessageIsComplete reply = true
  content : ∃ resources, decode reply = some ⟨[decodeQuestion query 12], resources⟩ ∧
    resources.length ≤ 1 ∧ ∀ resource ∈ resources, resource.rtype = 41

section Names

variable {msg msg' : List UInt8} {rounds pos wireLen : Nat} {labels : List Label}
  {stop : Option Nat} {r : Nat × List Label}

theorem not_pointer_of_label {p : Nat} {b c : UInt8} (hb : msg[p]? = some b)
    (hlabel : b &&& 0xC0 = 0) (hc : msg[p]? = some c) : c &&& 0xC0 ≠ 0xC0 := by
  rw [Option.some.inj (hc.symm.trans hb), hlabel]
  decide

/-- Both walks end behind the first pointer or the root, which they find at the same place. -/
theorem Walk.sameEnd {rounds' wireLen' : Nat} {labels' : List Label} {r' : Nat × List Label}
    (h : Walk msg rounds pos stop wireLen labels r) (hnone : stop = none)
    (h' : Walk msg' rounds' pos none wireLen' labels' r')
    (hbytes : ∀ p, pos ≤ p → p < r.1 → msg'[p]? = msg[p]?) : r'.1 = r.1 := by
  induction h generalizing rounds' wireLen' labels' with
  | @pointer _ pos _ _ _ r len low hlen hpointer hlow hheader hback hrest ih =>
    subst hnone
    have hend : r.1 = pos + 2 := hrest.wireEnd.1 _ rfl
    have hsame := (hbytes pos (by omega) (by omega)).trans hlen
    cases h' with
    | pointer len' low' hlen' hpointer' hlow' hheader' hback' hrest' =>
      rw [hrest'.wireEnd.1 _ rfl, hend]
      rfl
    | root hlen' => exact absurd hpointer (not_pointer_of_label hlen' (by decide) hsame)
    | label len' hlen' hlabel' => exact absurd hpointer (not_pointer_of_label hlen' hlabel' hsame)
  | @root _ pos _ _ _ hlen =>
    subst hnone
    have hsame := (hbytes pos (by omega) (Nat.lt_succ_self _)).trans hlen
    cases h' with
    | pointer len' low' hlen' hpointer' =>
      exact absurd hpointer' (not_pointer_of_label hsame (by decide) hlen')
    | root => rfl
    | label len' hlen' hlabel' hzero' =>
      exact absurd (Option.some.inj (hlen'.symm.trans hsame)) hzero'
  | @label _ pos _ _ _ r len hlen hlabel hzero hwire hend hrest ih =>
    subst hnone
    have hlt := (hrest.wireEnd.2 rfl).1
    have hsame := (hbytes pos (by omega) (by omega)).trans hlen
    cases h' with
    | pointer len' low' hlen' hpointer' =>
      exact absurd hpointer' (not_pointer_of_label hsame hlabel hlen')
    | root hlen' => exact absurd (Option.some.inj (hsame.symm.trans hlen')) hzero
    | label len' hlen' hlabel' hzero' hwire' hend' hrest' =>
      obtain rfl := Option.some.inj (hsame.symm.trans hlen')
      exact ih rfl hrest' fun p hp hp' => hbytes p (by omega) hp'

theorem Walk.labels_prefix (h : Walk msg rounds pos stop wireLen labels r) : labels <+: r.2 := by
  induction h with
  | pointer len low hlen hpointer hlow hheader hback hrest ih => exact ih
  | root => exact List.prefix_rfl
  | label len hlen hlabel hzero hwire hend hrest ih => exact (List.prefix_append _ _).trans ih

theorem Alike.not_pointer {p : Nat} {b c : UInt8} (h : Alike msg msg' p) (hb : msg[p]? = some b)
    (hlow : b &&& 0xC0 = 0) (hc : msg'[p]? = some c) : c &&& 0xC0 ≠ 0xC0 := by
  intro hpointer
  rcases h with ⟨hsame, -⟩ | hnone
  · exact not_pointer_of_label (hsame.trans hb) hlow hc hpointer
  · exact (hnone c hpointer).2 hc

/-- Walks to the same labels read the same bytes, unless one reads a pointer of its own. -/
theorem Walk.agree {rounds' wireLen' : Nat} {stop' : Option Nat} {r' : Nat × List Label}
    (h : Walk msg rounds pos stop wireLen labels r)
    (h' : Walk msg' rounds' pos stop' wireLen' labels r') (hlabels : r'.2 = r.2)
    (halike : ∀ p ∈ touchedFrom msg rounds pos, Alike msg msg' p) :
    Agree msg msg' (touchedFrom msg rounds pos) := by
  induction h generalizing rounds' stop' wireLen' with
  | pointer len low hlen hpointer hlow hheader hback hrest ih =>
    rw [touchedFrom_pointer hlen hpointer hlow hheader hback] at halike ⊢
    rw [List.forall_mem_cons, List.forall_mem_cons] at halike
    obtain ⟨hsame, hnext⟩ := halike.1.resolve_right fun hnone => (hnone len hpointer).1 hlen
    have hlen' := hsame.trans hlen
    rw [Agree, List.forall_mem_cons, List.forall_mem_cons]
    refine ⟨hsame, hnext, ?_⟩
    cases h' with
    | pointer _ _ hget _ hget' _ _ hrest' =>
      obtain rfl := Option.some.inj (hlen'.symm.trans hget)
      obtain rfl := Option.some.inj ((hnext.trans hlow).symm.trans hget')
      exact ih hrest' hlabels halike.2.2
    | root hget => exact absurd hpointer (not_pointer_of_label hget (by decide) hlen')
    | label _ hget hlabel => exact absurd hpointer (not_pointer_of_label hget hlabel hlen')
  | root hlen =>
    rw [touchedFrom_root hlen] at halike ⊢
    rw [Agree, List.forall_mem_singleton]
    cases h' with
    | pointer _ _ hget hpointer =>
      exact absurd hpointer ((halike _ List.mem_cons_self).not_pointer hlen (by decide) hget)
    | root hget => exact hget.trans hlen.symm
    | label _ _ _ _ _ _ hrest' =>
      have := hrest'.labels_prefix.length_le
      rw [hlabels, List.length_append] at this
      exact absurd this (Nat.not_succ_le_self _)
  | @label _ pos _ _ labels r len hlen hlabel hzero hwire hend hrest ih =>
    rw [touchedFrom_label hlen hlabel hzero] at halike ⊢
    rw [List.forall_mem_cons, List.forall_mem_append] at halike
    cases h' with
    | pointer _ _ hget hpointer =>
      exact absurd hpointer (halike.1.not_pointer hlen hlabel hget)
    | root =>
      have := hrest.labels_prefix.length_le
      rw [← hlabels, List.length_append] at this
      exact absurd this (Nat.not_succ_le_self _)
    | label len' hget hlabel' hzero' hwire' hend' hrest' =>
      -- both labels are the next one of the name
      have hprefix := hlabels ▸ hrest'.labels_prefix
      have hnext := (List.prefix_of_prefix_length_le hprefix hrest.labels_prefix
        (by simp)).eq_of_length (by simp)
      have hsame := (List.append_singleton_inj.mp hnext).2
      obtain rfl : len' = len := by
        have hlength := congrArg List.length hsame
        rw [List.length_take_of_le (by rw [List.length_drop]; omega),
          List.length_take_of_le (by rw [List.length_drop]; omega)] at hlength
        exact UInt8.toNat_inj.mp hlength
      rw [hsame] at hrest'
      rw [Agree, List.forall_mem_cons, List.forall_mem_append]
      refine ⟨hget.trans hlen.symm, fun p hp => ?_, ih hrest' hlabels halike.2.2⟩
      obtain ⟨hlow, hhigh⟩ := List.mem_range'_1.mp hp
      have hbyte := congrArg (·[p - (pos + 1)]?) hsame
      simp only [List.getElem?_take, List.getElem?_drop] at hbyte
      rwa [if_pos (by omega), if_pos (by omega), Nat.add_sub_cancel' hlow] at hbyte

theorem Walk.wire_le (h : Walk msg rounds pos stop wireLen labels r) (hnone : stop = none)
    (hlen : wireLen ≤ 255) : r.1 + wireLen ≤ pos + 257 := by
  induction h with
  | @pointer _ pos _ _ _ r len low hlen hpointer hlow hheader hback hrest ih =>
    subst hnone
    have hend : r.1 = pos + 2 := hrest.wireEnd.1 _ rfl
    omega
  | root =>
    subst hnone
    dsimp only [Option.getD_none]
    omega
  | label len hget hlabel hzero hwire hend hrest ih =>
    have := ih hnone hwire
    omega

/-- A walk that comes back before a pointer stays before it, unless a label holds the pointer. -/
theorem Walk.touched_lt {start : Nat} {c : UInt8} (h : Walk msg rounds pos stop wireLen labels r)
    (hc : msg[start]? = some c) (hpointer : c &&& 0xC0 = 0xC0) (hpos : pos ≤ start)
    (htext : ∀ l ∈ r.2, c ∉ l) : ∀ p ∈ touchedFrom msg rounds pos, p < start + 2 := by
  induction h with
  | pointer len low hlen hptr hlow hheader hback hrest ih =>
    rw [touchedFrom_pointer hlen hptr hlow hheader hback, List.forall_mem_cons, List.forall_mem_cons]
    exact ⟨by omega, by omega, ih (by omega) htext⟩
  | root hlen =>
    rw [touchedFrom_root hlen, List.forall_mem_singleton]
    omega
  | @label _ pos _ _ labels r len hlen hlabel hzero hwire hend hrest ih =>
    have hne : pos ≠ start := by
      rintro rfl
      exact not_pointer_of_label hlen hlabel hc hpointer
    have hbefore : pos + 1 + len.toNat ≤ start := by
      by_contra hover
      refine htext _ (hrest.labels_prefix.subset (List.mem_append_right _ List.mem_cons_self)) ?_
      refine List.mem_of_getElem? (i := start - (pos + 1)) ?_
      rw [List.getElem?_take, if_pos (by omega), List.getElem?_drop, ← hc]
      exact congrArg (msg[·]?) (by omega)
    rw [touchedFrom_label hlen hlabel hzero, List.forall_mem_cons, List.forall_mem_append]
    refine ⟨by omega, fun p hp => ?_, ih hbefore htext⟩
    have := List.mem_range'_1.mp hp
    omega

/-- A name of text is inside: the first byte of a pointer so close to the header is in no text. -/
theorem Walk.inside_of_text (h : Walk msg rounds pos stop wireLen labels r) (hnone : stop = none)
    (hr : r.1 ≤ 512) (htext : ∀ l ∈ r.2, ∀ b ∈ l, b.toNat ≠ 192 ∧ b.toNat ≠ 193) :
    ∀ p ∈ touchedFrom msg rounds pos, p < r.1 := by
  induction h with
  | @pointer _ pos _ _ _ r len low hlen hpointer hlow hheader hback hrest ih =>
    subst hnone
    have hend : r.1 = pos + 2 := hrest.wireEnd.1 _ rfl
    have hlead : len.toNat = 192 ∨ len.toNat = 193 := by
      have hsmall : (len &&& 0x3F).toNat <<< 8 ≤ pointerTarget len low := Nat.left_le_or
      have hbytes : ∀ b : UInt8, b &&& 0xC0 = 0xC0 → (b &&& 0x3F).toNat <<< 8 < 512 →
          b.toNat = 192 ∨ b.toNat = 193 := Str.forall_byte (by decide +kernel)
      exact hbytes len hpointer (by omega)
    rw [touchedFrom_pointer hlen hpointer hlow hheader hback, List.forall_mem_cons,
      List.forall_mem_cons, hend]
    refine ⟨by omega, by omega, hrest.touched_lt hlen hpointer hback.le fun l hl hmem => ?_⟩
    have := htext l hl len hmem
    omega
  | root hlen =>
    subst hnone
    rw [touchedFrom_root hlen, List.forall_mem_singleton]
    exact Nat.lt_succ_self _
  | label len hlen hlabel hzero hwire hend hrest ih =>
    have hlt := (hrest.wireEnd.2 hnone).1
    rw [touchedFrom_label hlen hlabel hzero, List.forall_mem_cons, List.forall_mem_append]
    refine ⟨by omega, fun p hp => ?_, ih hnone hr htext⟩
    have := List.mem_range'_1.mp hp
    omega

/-- If the cut message spells a name, it is the query's, and inside the question section. -/
theorem inside_of_cut {stop : Nat} {name : Nat × List Label} (hlen : stop ≤ msg.length)
    (h : walkName (msg.take stop) 12 = some name) : ∀ p ∈ touched msg 12, p < stop := by
  have hbounds : ∀ p ∈ touched (msg.take stop) 12, p < stop := fun p hp => by
    have := (touched_bounds h le_rfl p hp).2
    rwa [List.length_take_of_le hlen] at this
  have hsame : touched msg 12 = touched (msg.take stop) 12 :=
    (walkName_iff.mp h).touched_congr fun p hp => by
      rw [List.getElem?_take, if_pos (hbounds p hp)]
  rw [hsame]
  exact hbounds

theorem getElem?_cut {stop : Nat} (tail : List UInt8) (hlen : stop ≤ msg.length) (p : Nat) :
    (msg.take stop ++ tail)[p]? = if p < stop then msg[p]? else tail[p - stop]? := by
  split
  · next hin =>
    rw [List.getElem?_append_left (by rw [List.length_take]; omega), List.getElem?_take, if_pos hin]
  · rw [List.getElem?_append_right (by rw [List.length_take]; omega), List.length_take_of_le hlen]

theorem walkName_body (h : ∀ p, 12 ≤ p → msg'[p]? = msg[p]?) :
    walkName msg' 12 = walkName msg 12 := by
  refine Option.ext fun r => ⟨fun hr => ?_, fun hr => ?_⟩
  · exact (sameName_of_body (fun p hp _ => (h p hp).symm) le_rfl hr).walkName.trans hr
  · exact (sameName_of_body (fun p hp _ => h p hp) le_rfl hr).walkName.trans hr

theorem questionSectionEnd_one {stop : Nat} (h : questionSectionEnd msg = some stop)
    (hone : u16At msg 4 = 1) : ∃ name, walkName msg 12 = some name ∧ stop = name.1 + 4 ∧
      stop ≤ msg.length := by
  obtain ⟨-, hskip⟩ := questionSectionEnd_iff.mp h
  rw [hone] at hskip
  obtain ⟨nameStop, hname, hend, hrest⟩ := skipQuestions_succ.mp hskip
  obtain ⟨name, hwalk, rfl⟩ := Option.map_eq_some_iff.mp hname
  obtain rfl := Option.some.inj hrest
  exact ⟨name, hwalk, rfl, hend⟩

theorem questionStarts_one (msg : List UInt8) : questionStarts msg 1 12 = [12] := by
  rw [questionStarts]
  cases skipName msg 12 <;> rfl

end Names

/-! ## What the replies say -/

section Cut

variable {query base reply : List UInt8} {stop payload rcode version flags : Nat}

/-- The query cut at `stop`, with other flags and no records. -/
structure Cut (query : List UInt8) (stop : Nat) (base : List UInt8) : Prop where
  length : base.length = stop
  body : ∀ p, 12 ≤ p → base[p]? = (query.take stop)[p]?
  questions : u16At base 4 = 1
  records : u16At base 6 = 0 ∧ u16At base 8 = 0 ∧ u16At base 10 = 0

theorem cut_patch {out : List UInt8} (hone : u16At query 4 = 1) (hstop : 12 ≤ stop)
    (hout : out.length = stop)
    (hbody : ∀ p, 4 ≤ p → out[p]? = (query.take stop)[p]?) :
    Cut query stop (patch out 6 [0, 0, 0, 0, 0, 0]) := by
  have hfits : 6 + [(0 : UInt8), 0, 0, 0, 0, 0].length ≤ out.length := by simp; omega
  have hdrop : (patch out 6 [0, 0, 0, 0, 0, 0]).drop 6 = _ := drop_patch (by omega)
  have hslice := slice_of_drop hdrop
  refine ⟨(length_patch hfits).trans hout, fun p hp => ?_, ?_, ?_⟩
  · rw [getElem?_patch hfits (.inr (by simpa using hp)), hbody p (by omega)]
  · rw [← hone]
    refine u16At_congr fun p hp hp' => ?_
    rw [getElem?_patch hfits (.inl hp'), hbody p (by omega), List.getElem?_take, if_pos (by omega)]
  · exact ⟨congrArg ofBE (hslice 0 2), congrArg ofBE (hslice 2 2), congrArg ofBE (hslice 4 2)⟩

theorem Cut.body_append (h : Cut query stop base) (hlen : stop ≤ query.length) (hstop : 12 ≤ stop)
    {p : Nat} (hp : 12 ≤ p) : (appendEdns base payload rcode version flags)[p]? =
      (query.take stop ++ optBytes payload rcode version flags)[p]? := by
  have hbase := h.length
  rw [appendEdns_eq, getElem?_patch (by rw [length_beBytes, List.length_append]; omega)
    (.inr (by rw [length_beBytes]; omega))]
  rw [getElem?_cut _ hlen]
  split
  · next hin =>
    rw [List.getElem?_append_left (by omega), h.body p hp, List.getElem?_take, if_pos hin]
  · rw [List.getElem?_append_right (by omega), hbase]

theorem decodeQuestion_of_name {name name' : Nat × List Label}
    (hname : walkName query 12 = some name) (hname' : walkName reply 12 = some name')
    (hlabels : name'.2 = name.2)
    (hbytes : ∀ p, 12 ≤ p → p < name.1 + 4 → reply[p]? = query[p]?) :
    name'.1 = name.1 ∧ decodeQuestion reply 12 = decodeQuestion query 12 := by
  have hend : name'.1 = name.1 := (walkName_iff.mp hname).sameEnd rfl (walkName_iff.mp hname')
    fun p hp hp' => hbytes p hp (by omega)
  have hlow := (walkName_stop hname).1
  refine ⟨hend, ?_⟩
  simp only [decodeQuestion, nameAt, skipName, hname, hname', Option.map_some, Option.getD_some,
    hlabels, hend]
  exact congrArg _ (slice_congr fun p hp hp' => hbytes p (by omega) hp')

/-- What follows the question section of a reply, and what it takes from the query. -/
structure Reply (query : List UInt8) (stop : Nat) (tail : List UInt8) (rs : List DnsRecord)
    (reply : List UInt8) : Prop where
  body : ∀ p, 12 ≤ p → reply[p]? = (query.take stop ++ tail)[p]?
  count : u16At reply 4 = 1
  length : stop ≤ reply.length
  chain : Chain reply (sections reply) stop rs reply.length
  opt : rs.length ≤ 1 ∧ ∀ rr ∈ rs, rr.rtype = 41

variable {tail : List UInt8} {rs : List DnsRecord}

section OneQuestion

variable (hq : questionSectionEnd query = some stop) (hone : u16At query 4 = 1)
include hq hone

theorem Reply.framed (h : Reply query stop tail rs reply) (hself : Respells query stop tail) :
    Framed reply stop rs ∧ decodeQuestion reply 12 = decodeQuestion query 12 := by
  obtain ⟨name, hname, rfl, hend⟩ := questionSectionEnd_one hq hone
  rw [Respells, nameAt, nameAt, hname, ← walkName_body h.body] at hself
  obtain ⟨name', hname', hlabels⟩ := Option.map_eq_some_iff.mp hself
  have hcut : ∀ p, 12 ≤ p → p < name.1 + 4 → reply[p]? = query[p]? := fun p hp hp' => by
    rw [h.body p hp, getElem?_cut tail hend, if_pos hp']
  obtain ⟨hstop, hquestion⟩ := decodeQuestion_of_name hname hname' hlabels hcut
  have hlow := (walkName_stop hname).1
  have hlen := h.length
  refine ⟨⟨questionSectionEnd_iff.mpr ⟨by omega, ?_⟩, h.chain⟩, hquestion⟩
  rw [h.count]
  exact skipQuestions_succ.mpr ⟨name'.1, Option.map_eq_some_iff.mpr ⟨name', hname', rfl⟩,
    by omega, by rw [hstop]; rfl⟩

theorem respells_of_kept (h : Kept query stop tail) : Respells query stop tail := by
  obtain ⟨name, hname, -, hlen⟩ := questionSectionEnd_one hq hone
  have hcut : walkName (query.take stop ++ tail) 12 = some name := by
    refine walkName_congr hname fun p hp => ?_
    rw [getElem?_cut tail hlen]
    split
    · rfl
    · next hout => exact (h p hp).resolve_left hout
  rw [Respells, nameAt, hcut, nameAt, hname]

theorem kept_of_respells (h : Respells query stop tail)
    (hpointed : tail ≠ [] → ¬ Repointed query stop tail) : Kept query stop tail := by
  obtain ⟨name, hname, -, hlen⟩ := questionSectionEnd_one hq hone
  rw [Respells, nameAt, nameAt, hname] at h
  obtain ⟨name', hname', hlabels⟩ := Option.map_eq_some_iff.mp h
  by_cases htail : tail = []
  · rw [htail, List.append_nil] at hname'
    exact fun p hp => .inl (inside_of_cut hlen hname' p hp)
  have hagree := (walkName_iff.mp hname).agree (walkName_iff.mp hname') hlabels fun p hp =>
    not_not.mp fun hp' => hpointed htail ⟨p, hp, hp'⟩
  intro p hp
  have hsame := hagree p hp
  rw [getElem?_cut tail hlen] at hsame
  split at hsame
  · next hin => exact .inl hin
  · exact .inr hsame

theorem respells_iff : Respells query stop tail ↔ SelfContained query stop tail := by
  constructor
  · intro h
    by_cases hpointed : tail ≠ [] ∧ Repointed query stop tail
    · exact .inr ⟨hpointed.1, hpointed.2, h⟩
    · exact .inl (kept_of_respells hq hone h fun htail hp => hpointed ⟨htail, hp⟩)
  · rintro (hkept | ⟨-, -, h⟩)
    · exact respells_of_kept hq hone hkept
    · exact h

-- The OPT record has the root at 20, where the query has a pointer to the root at 16.
omit hq hone in
example :
    let query : List UInt8 := [0, 1, 1, 0, 0, 1, 0, 0, 0, 0, 0, 1,
      1, 6, 0xC0, 13, 0, 1, 0, 1, 0xC0, 16, 0, 1, 0, 1, 0, 0, 0, 0, 0, 0]
    Respells query 20 (optBytes 512 0 0 0) ∧ ¬ Kept query 20 (optBytes 512 0 0 0) := by
  unfold Kept Respells
  decide +kernel

/-- **A reply asks what the query asks exactly when it holds what the name reads.** -/
theorem Reply.localReply_iff (h : Reply query stop tail rs reply) :
    LocalReply query reply ↔ SelfContained query stop tail := by
  rw [← respells_iff hq hone]
  constructor
  · rintro ⟨-, resources, hdecode, -⟩
    obtain ⟨rs', hrs', hcontent⟩ := Option.map_eq_some_iff.mp hdecode
    have hquestions := congrArg Content.questions hcontent
    simp only [contentOf, h.count, questionStarts_one, List.map_singleton, List.cons.injEq]
      at hquestions
    have hlabels := congrArg Question.name hquestions.1
    simp only [decodeQuestion, nameAt, walkName_body h.body] at hlabels
    exact hlabels
  · intro hself
    obtain ⟨hframed, hquestion⟩ := Reply.framed hq hone h hself
    refine ⟨complete_iff.mpr ⟨_, rs, hframed, fun rr hrr => ?_⟩, rs.map (decodeRecord reply),
      ?_, ?_, ?_⟩
    · simp [validateRecordData, h.opt.2 rr hrr]
    · rw [hframed.decode, contentOf, h.count, questionStarts_one, List.map_singleton, hquestion]
    · rw [List.length_map]
      exact h.opt.1
    · intro resource hresource
      obtain ⟨rr, hrr, rfl⟩ := List.mem_map.mp hresource
      exact h.opt.2 rr hrr

theorem stop_bounds : 12 ≤ stop ∧ stop ≤ query.length ∧ stop ≤ 272 := by
  obtain ⟨name, hname, rfl, hend⟩ := questionSectionEnd_one hq hone
  have hlow := (walkName_stop hname).1
  have hwire := (walkName_iff.mp hname).wire_le rfl (by decide)
  omega

end OneQuestion

theorem Cut.bare (h : Cut query stop base) : Reply query stop [] [] base where
  body p hp := by rw [List.append_nil, h.body p hp]
  count := h.questions
  length := h.length.ge
  chain := by
    rw [sections, h.records.1, h.records.2.1, h.records.2.2, h.length]
    exact .nil
  opt := ⟨Nat.zero_le 1, List.forall_mem_nil _⟩

theorem Cut.withOpt (h : Cut query stop base) (hlen : stop ≤ query.length) (hstop : 12 ≤ stop)
    (payload rcode version flags : Nat) :
    Reply query stop (optBytes payload rcode version flags)
      [appendedRecord stop payload rcode version flags]
      (appendEdns base payload rcode version flags) := by
  have hheader : 12 ≤ base.length := h.length ▸ hstop
  have hfixed : ∀ offset, offset + 2 ≤ 10 →
      u16At (appendEdns base payload rcode version flags) offset = u16At base offset :=
    fun offset hoffset => u16At_congr fun p hp hp' =>
      getElem?_appendEdns hheader (by omega) (by omega)
  have hrecord : walkRecord (appendEdns base payload rcode version flags) 2 base.length = _ :=
    walkRecord_appendEdns hheader
  have hend : (appendEdns base payload rcode version flags).length = _ := length_appendEdns hheader
  rw [h.length] at hrecord hend
  refine ⟨fun p hp => h.body_append hlen hstop hp, (hfixed 4 (by decide)).trans h.questions,
    by omega, ?_, Nat.le_refl 1, List.forall_mem_singleton.mpr rfl⟩
  have hcount : u16At (appendEdns base payload rcode version flags) 10 = 1 := by
    rw [count_appendEdns hheader (by rw [h.records.2.2]; decide), h.records.2.2]
  rw [sections, hfixed 6 (by decide), hfixed 8 (by decide), hcount, h.records.1, h.records.2.1, hend]
  exact .cons hrecord .nil

end Cut

/-! ## The laws -/

section Laws

variable {query resp out : List UInt8} {opt responseOpt : Option Edns} {o : Edns} {stop : Nat}

def blockedTail (opt : Option Edns) : List UInt8 :=
  opt.elim [] fun opt => optBytes opt.payload 0 0 (opt.flags &&& 0x8000)

def shortTail (opt responseOpt : Option Edns) : List UInt8 :=
  opt.elim [] fun query => optBytes query.payload (responseOpt.elim 0 (·.extendedRcode))
    (responseOpt.elim 0 (·.version)) (responseOpt.elim (query.flags &&& 0x8000) (·.flags))

/-- The reply that is cut and, if the query has an OPT record, gets one. -/
def shortReply (query resp : List UInt8) (stop : Nat) (opt responseOpt : Option Edns) : List UInt8 :=
  let out := patch (truncatedFlags (query.take stop) resp) 6 [0, 0, 0, 0, 0, 0]
  opt.elim out fun query =>
    appendEdns out query.payload (responseOpt.elim 0 (·.extendedRcode))
      (responseOpt.elim 0 (·.version)) (responseOpt.elim (query.flags &&& 0x8000) (·.flags))

/-- The ways `apply_udp_size_limit` returns a message. -/
theorem applyUdpSizeLimit_cases (hopt : edns query = some opt)
    (hq : questionSectionEnd query = some stop) (h : applyUdpSizeLimit query resp = some out) :
    (out = resp ∧ resp.length ≤ advertisedUdpSize query) ∨
      (advertisedUdpSize query < resp.length ∧ hasTransactionSignature resp = some false ∧
        ∃ responseOpt, edns resp = some responseOpt ∧ (opt = none → responseOpt = none) ∧
          out = shortReply query resp stop opt responseOpt) := by
  unfold applyUdpSizeLimit at h
  simp only [hopt, hq, Option.join_some] at h
  cases hresp : edns resp with
  | none => simp [hresp] at h
  | some responseOpt =>
    simp only [hresp] at h
    split at h
    · cases h
    rename_i hunsolicited
    split at h
    · rename_i hfits
      exact .inl ⟨(Option.some.inj h).symm, hfits⟩
    rename_i hlarge
    split at h
    · cases h
    · cases h
    rename_i hunsigned
    refine .inr ⟨Nat.not_le.mp hlarge, hunsigned, responseOpt, rfl, fun hnone => ?_,
      (Option.some.inj h).symm⟩
    cases responseOpt with
    | none => rfl
    | some o => exact absurd ⟨by rw [hnone]; rfl, rfl⟩ hunsolicited

theorem truncatedFlags_spec (out : List UInt8) (hout : 12 ≤ out.length) (hresp : 4 ≤ resp.length) :
    (truncatedFlags out resp).length = out.length ∧
      (∀ p, 4 ≤ p → (truncatedFlags out resp)[p]? = out[p]?) ∧
      (truncatedFlags out resp)[2]? = some (resp.getD 2 0 ||| 0x80 ||| 0x02) ∧
      (truncatedFlags out resp)[3]? = some (resp.getD 3 0) := by
  have hfirst : 2 + [resp.getD 2 0, resp.getD 3 0].length ≤ out.length := by simp; omega
  have hlen := length_patch hfirst
  have hdrop : (patch out 2 [resp.getD 2 0, resp.getD 3 0]).drop 2 = _ := drop_patch (by omega)
  have hkeep : ∀ p, 4 ≤ p → (patch out 2 [resp.getD 2 0, resp.getD 3 0])[p]? = out[p]? :=
    fun p hp => getElem?_patch hfirst (.inr (by simpa using hp))
  have hflag : (patch out 2 [resp.getD 2 0, resp.getD 3 0]).getD 2 0 = resp.getD 2 0 :=
    getD_of_drop hdrop
  have hnext : (patch out 2 [resp.getD 2 0, resp.getD 3 0])[3]? = some (resp.getD 3 0) := by
    rw [← List.getElem?_drop (i := 2) (j := 1), hdrop]
    rfl
  simp only [truncatedFlags, if_pos hresp, hflag]
  generalize patch out 2 [resp.getD 2 0, resp.getD 3 0] = first at *
  have hsecond : 2 + [resp.getD 2 0 ||| 0x80 ||| 0x02].length ≤ first.length := by simp; omega
  refine ⟨(length_patch hsecond).trans hlen, fun p hp => ?_, ?_, ?_⟩
  · rw [getElem?_patch hsecond (.inr (by simp; omega)), hkeep p hp]
  · rw [← List.head?_drop, drop_patch (by omega)]
    rfl
  · rw [getElem?_patch hsecond (.inr (by simp)), hnext]

theorem cut_short (hone : u16At query 4 = 1) (hstop : 12 ≤ stop) (hlen : stop ≤ query.length)
    (hresp : 4 ≤ resp.length) :
    Cut query stop (patch (truncatedFlags (query.take stop) resp) 6 [0, 0, 0, 0, 0, 0]) := by
  have htake : (query.take stop).length = stop := List.length_take_of_le hlen
  obtain ⟨hlength, hbody, -, -⟩ := truncatedFlags_spec (query.take stop) (by omega) hresp
  exact cut_patch hone hstop (hlength.trans htake) hbody

theorem extendedRcode_lt (hresp : edns resp = some (some o)) : o.extendedRcode < 256 := by
  obtain ⟨q, rs, hframed, -⟩ := walkRecords_iff.mp hresp
  obtain ⟨-, hnone⟩ | ⟨front, rr, back, rfl, -, -, -, hsome⟩ := edns_cases hframed hresp
  · cases hnone
  obtain rfl := Option.some.inj hsome
  have httl := hframed.records.ttl rr (List.mem_append_right _ List.mem_cons_self)
  have hlt : rr.ttl < 256 ^ 4 := by
    rw [← httl]
    refine (ofBE_lt _).trans_le (Nat.pow_le_pow_right (by decide) ?_)
    exact List.length_take_le ..
  show rr.ttl >>> 24 < 256
  omega

section OneQuestion

variable (hq : questionSectionEnd query = some stop) (hone : u16At query 4 = 1)
include hq hone

theorem shortReply_reply (hresp : 4 ≤ resp.length) (opt responseOpt : Option Edns) :
    Reply query stop (shortTail opt responseOpt)
      (opt.elim [] fun query => [appendedRecord stop query.payload
        (responseOpt.elim 0 (·.extendedRcode)) (responseOpt.elim 0 (·.version))
        (responseOpt.elim (query.flags &&& 0x8000) (·.flags))])
      (shortReply query resp stop opt responseOpt) := by
  obtain ⟨hstop, hlen, -⟩ := stop_bounds hq hone
  have hcut := cut_short hone hstop hlen hresp
  cases opt with
  | none => exact hcut.bare
  | some o => exact hcut.withOpt hlen hstop ..

theorem shortReply_bytes (hresp : 4 ≤ resp.length) (opt responseOpt : Option Edns) :
    (shortReply query resp stop opt responseOpt).length ≤ 512 ∧
      (shortReply query resp stop opt responseOpt)[2]? = some (resp.getD 2 0 ||| 0x80 ||| 0x02) ∧
      (shortReply query resp stop opt responseOpt)[3]? = some (resp.getD 3 0) := by
  obtain ⟨hstop, hlen, hshort⟩ := stop_bounds hq hone
  have hcut := (cut_short hone hstop hlen hresp).length
  have htake : (query.take stop).length = stop := List.length_take_of_le hlen
  obtain ⟨hlength, -, htc, hrcode⟩ := truncatedFlags_spec (query.take stop) (by omega) hresp
  have hfits : 6 + [(0 : UInt8), 0, 0, 0, 0, 0].length ≤
      (truncatedFlags (query.take stop) resp).length := by simp; omega
  have hkeep : ∀ p < 6, (patch (truncatedFlags (query.take stop) resp) 6 [0, 0, 0, 0, 0, 0])[p]? =
      (truncatedFlags (query.take stop) resp)[p]? := fun p hp => getElem?_patch hfits (.inl hp)
  cases opt with
  | none =>
    refine ⟨?_, (hkeep 2 (by decide)).trans htc, (hkeep 3 (by decide)).trans hrcode⟩
    show (patch _ 6 _).length ≤ 512
    omega
  | some o =>
    have hheader : 12 ≤ (patch (truncatedFlags (query.take stop) resp) 6 [0, 0, 0, 0, 0, 0]).length :=
      by omega
    refine ⟨?_, ?_, ?_⟩
    · show (appendEdns _ _ _ _ _).length ≤ 512
      rw [length_appendEdns hheader]
      omega
    · show (appendEdns _ _ _ _ _)[2]? = _
      rw [getElem?_appendEdns hheader (.inl (by decide)) (by omega), hkeep 2 (by decide), htc]
    · show (appendEdns _ _ _ _ _)[3]? = _
      rw [getElem?_appendEdns hheader (.inl (by decide)) (by omega), hkeep 3 (by decide), hrcode]

theorem extendedRcode_shortReply (hlen : 4 ≤ resp.length) (hresp : edns resp = some responseOpt)
    (hsolicited : opt = none → responseOpt = none)
    (hself : Respells query stop (shortTail opt responseOpt)) :
    dnsExtendedRcode (shortReply query resp stop opt responseOpt) = dnsExtendedRcode resp := by
  obtain ⟨hframed, -⟩ := Reply.framed hq hone (shortReply_reply hq hone hlen opt responseOpt) hself
  cases opt with
  | none =>
    obtain rfl := hsolicited rfl
    rw [dnsExtendedRcode, edns_plain hframed (List.forall_mem_nil _), dnsExtendedRcode, hresp]
  | some o =>
    obtain ⟨hstop, hle, -⟩ := stop_bounds hq hone
    have hcut := (cut_short hone hstop hle hlen).length
    have hrecord : OptRecord (shortReply query resp stop (some o) responseOpt) _ :=
      optRecord_appendEdns (by omega)
    rw [hcut] at hrecord
    have hframed' : Framed (shortReply query resp stop (some o) responseOpt) stop ([] ++ _ :: []) :=
      hframed
    rw [dnsExtendedRcode, edns_opt hframed' (List.forall_mem_nil _) (List.forall_mem_nil _) hrecord,
      dnsExtendedRcode, hresp]
    have hlt : responseOpt.elim 0 (·.extendedRcode) < 256 := by
      cases responseOpt with
      | none => exact Nat.zero_lt_succ _
      | some o => exact extendedRcode_lt hresp
    refine congrArg some ?_
    show ((_ % 2 ^ 8 * 2 ^ 8 + _ % 2 ^ 8) * 2 ^ 16 + _ % 2 ^ 16) >>> 24 =
      responseOpt.elim 0 (·.extendedRcode)
    omega

theorem blockedResponse_spec (hopt : edns query = some opt) :
    ∃ reply, blockedResponse query = some reply ∧
      (LocalReply query reply ↔ SelfContained query stop (blockedTail opt)) := by
  obtain ⟨hstop, hlen, -⟩ := stop_bounds hq hone
  have htake : (query.take stop).length = stop := List.length_take_of_le hlen
  have hcut : ∀ a b : UInt8, Cut query stop (patch (patch (query.take stop) 2 [a, b]) 6
      [0, 0, 0, 0, 0, 0]) := fun a b => by
    have hfits : 2 + [a, b].length ≤ (query.take stop).length := by simp; omega
    refine cut_patch hone hstop ((length_patch hfits).trans htake) fun p hp => ?_
    exact getElem?_patch hfits (.inr (by simpa using hp))
  refine ⟨_, by simp only [blockedResponse, hq, hopt, bind, Option.bind_some]; rfl, ?_⟩
  cases opt with
  | none => exact Reply.localReply_iff hq hone (hcut ..).bare
  | some o => exact Reply.localReply_iff hq hone ((hcut ..).withOpt hlen hstop ..)

theorem kept_of_blocked {raw : List Str}
    (h : isBlocked query (compileBlocklist raw) = true) (tail : List UInt8) :
    Kept query stop tail := by
  obtain ⟨-, hlen, hshort⟩ := stop_bounds hq hone
  obtain ⟨name, hname, rfl, hend⟩ := questionSectionEnd_one hq hone
  have hlow := (walkName_stop hname).1
  have htext := ((blocked_iff (by omega) hone hname raw).mp h).1
  intro p hp
  refine .inl (((walkName_iff.mp hname).inside_of_text rfl (by omega) (fun l hl b hb => ?_) p
    hp).trans (Nat.lt_add_of_pos_right (by decide)))
  obtain ⟨text, rfl⟩ := utf8_iff.mp (htext l hl)
  exact Str.ne_of_mem_asBytes hb

theorem drop_shortReply (hresp : 4 ≤ resp.length) (opt responseOpt : Option Edns) :
    (shortReply query resp stop opt responseOpt).drop stop = shortTail opt responseOpt := by
  obtain ⟨hstop, hlen, -⟩ := stop_bounds hq hone
  have hbody := (shortReply_reply hq hone hresp opt responseOpt).body
  refine List.ext_getElem? fun i => ?_
  rw [List.getElem?_drop, hbody _ (by omega), getElem?_cut _ hlen, if_neg (by omega),
    Nat.add_sub_cancel_left]

end OneQuestion

/-- What the two functions return for a query whose question section ends at `stop`. -/
structure LocalLaw (query resp : List UInt8) (opt : Option Edns) (stop : Nat) : Prop where
  blocked : ∃ reply, blockedResponse query = some reply ∧
    (LocalReply query reply ↔ SelfContained query stop (blockedTail opt)) ∧
    ∀ raw, isBlocked query (compileBlocklist raw) = true → LocalReply query reply
  shortened : ∀ out, applyUdpSizeLimit query resp = some out → out ≠ resp →
    ∃ responseOpt, edns resp = some responseOpt ∧
      (LocalReply query out ↔ SelfContained query stop (shortTail opt responseOpt)) ∧
      out.getD 2 0 &&& 0x02 = 0x02 ∧ out.getD 3 0 &&& 0x0F = resp.getD 3 0 &&& 0x0F ∧
      out.drop stop = shortTail opt responseOpt ∧
      (LocalReply query out → dnsExtendedRcode out = dnsExtendedRcode resp)
  bounded : 512 ≤ advertisedUdpSize query ∧
    ∀ out, applyUdpSizeLimit query resp = some out → out.length ≤ advertisedUdpSize query
  fitting : resp.length ≤ advertisedUdpSize query →
    applyUdpSizeLimit query resp = none ∨ applyUdpSizeLimit query resp = some resp
  signed : hasTransactionSignature resp = some true →
    ∀ out, applyUdpSizeLimit query resp = some out → out = resp

end Laws

/-- `plainQuery` with an OPT record that allows 512 bytes. -/
def ednsQuery : List UInt8 :=
  patch plainQuery 11 [1] ++ [0, 0, 41, 2, 0, 0, 0, 0x80, 0, 0, 0]

/-- An answer of 544 bytes with the extended RCODE 1. -/
def largeResponse : List UInt8 :=
  [0x12, 0x34, 0x81, 0x80, 0, 1, 0, 1, 0, 0, 0, 1] ++ (plainQuery.drop 12) ++
    [0xC0, 12, 0, 10, 0, 1, 0, 0, 0, 0, 1, 0xE8] ++ List.replicate 488 7 ++
    [0, 0, 41, 4, 0xD0, 1, 0, 0x80, 0, 0, 0]

/-- Its name goes on behind the question: the pointer at 14 leads to the byte at 13, which is read
as the length of a label of seven bytes, up to the first byte of the additional record. -/
def overrunningQuery : List UInt8 :=
  [0, 1, 1, 0, 0, 1, 0, 0, 0, 0, 0, 1, 1, 7, 0xC0, 13, 0, 1, 0, 1,
    0, 0, 1, 0, 1, 0, 0, 0, 0, 0, 4, 10, 0, 0, 1]

/-- A response to it that repeats its question, with an answer of 507 bytes. -/
def overrunningResponse : List UInt8 :=
  [0, 1, 0x81, 0x80, 0, 1, 0, 1, 0, 0, 0, 0, 1, 7, 0xC0, 13, 0, 1, 0, 1,
    0, 0, 10, 0, 1, 0, 0, 0, 0, 1, 0xFB] ++ List.replicate 507 7

end Qeli.Dns
