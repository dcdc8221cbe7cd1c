import Qeli.Lib.Window
import Qeli.Udp.Commit

/-!
# Candidate resources

The counters of the table against its sessions (`Counted`), the bytes of one
candidate against its history (`Spent`), and the creation times against the rate
window. What the events say about a ticket is read off their results:
`authorizedBytes`, `receivedBytes`, `creations`. `Change.traced` lists what can
happen to a candidate in one change; the byte and lifetime invariants follow
from it. The counters never saturate, because every attempt uses up a candidate
id.
-/

namespace Qeli.Udp

open Qeli.Lib Qeli.Wire UdpRoamingTable

/-! ## Counters -/

def UdpSession.holding (s : UdpSession) : Nat := if s.candidate.isSome then 1 else 0

structure Counted (t : UdpRoamingTable) : Prop where
  count : t.candidateCount = t.sessions.total UdpSession.holding
  count_le : t.candidateCount ≤ t.maxCandidates
  attempts : t.attemptsTotal = t.commitsTotal + t.failuresTotal + t.candidateCount
  next : t.attemptsTotal + 1 = t.nextCandidateId
  next_le : t.nextCandidateId ≤ u64Max

variable {t t' : UdpRoamingTable} {sid clock : Nat} {s : UdpSession} {c : CandidatePath}
  {now? : Option Nat} {deriveUdpCid : DeriveUdpCid} {op : TableOp} {r : TableResult}
  {ticket : CandidateTicket} {es : List TableEvent} {e : TableEvent}

theorem total_set (hs : t.sessions.get? sid = some s) (s' : UdpSession) :
    (t.sessions.insert sid s').total UdpSession.holding + s.holding =
      t.sessions.total UdpSession.holding + s'.holding := by
  have := t.sessions.total_insert sid s' UdpSession.holding
  rw [hs] at this
  exact this

theorem holding_some (h : s.candidate = some c) : s.holding = 1 := by
  simp [UdpSession.holding, h]

theorem holding_none (h : s.candidate = none) : s.holding = 0 := by
  simp [UdpSession.holding, h]

theorem Counted.of_insert {s' : UdpSession} (h : Counted t) (hs : t.sessions.get? sid = some s)
    (hsessions : t'.sessions = t.sessions.insert sid s') (hh : s'.holding = s.holding)
    (hcount : t'.candidateCount = t.candidateCount) (hmax : t'.maxCandidates = t.maxCandidates)
    (ha : t'.attemptsTotal = t.attemptsTotal) (hc : t'.commitsTotal = t.commitsTotal)
    (hf : t'.failuresTotal = t.failuresTotal) (hn : t'.nextCandidateId = t.nextCandidateId) :
    Counted t' := by
  have htotal := total_set hs s'
  refine ⟨?_, ?_, ?_, ?_, ?_⟩
  · rw [hcount, h.count, hsessions]; omega
  · rw [hcount, hmax]; exact h.count_le
  · rw [ha, hc, hf, hcount]; exact h.attempts
  · rw [ha, hn]; exact h.next
  · rw [hn]; exact h.next_le

theorem Counted.resolved (h : Counted t)
    (htotal : t'.sessions.total UdpSession.holding + 1 = t.sessions.total UdpSession.holding)
    (hcount : t'.candidateCount = t.candidateCount - 1) (hmax : t'.maxCandidates = t.maxCandidates)
    (ha : t'.attemptsTotal = t.attemptsTotal) (hn : t'.nextCandidateId = t.nextCandidateId)
    (hout : t'.commitsTotal = saturatingAdd u64Max t.commitsTotal 1 ∧
      t'.failuresTotal = t.failuresTotal ∨
      t'.commitsTotal = t.commitsTotal ∧
      t'.failuresTotal = saturatingAdd u64Max t.failuresTotal 1) :
    Counted t' := by
  have h1 := h.count
  have h2 := h.count_le
  have h3 := h.attempts
  have h4 := h.next
  have h5 := h.next_le
  -- every attempt used up an id, so the totals are far from saturating
  have hcommits : saturatingAdd u64Max t.commitsTotal 1 = t.commitsTotal + 1 :=
    saturatingAdd_eq (by omega)
  have hfailures : saturatingAdd u64Max t.failuresTotal 1 = t.failuresTotal + 1 :=
    saturatingAdd_eq (by omega)
  refine ⟨by omega, by omega, ?_, by omega, by omega⟩
  rcases hout with ⟨hc, hf⟩ | ⟨hc, hf⟩
  · omega
  · omega

theorem Counted.tidy (hstep : TidyStep now? t t') (h : Counted t) : Counted t' := by
  cases hstep with
  | @failed sid s c hs hc =>
    have htotal := total_set hs { s with candidate := none }
    rw [holding_some hc] at htotal
    exact h.resolved htotal rfl rfl rfl rfl (.inr ⟨rfl, rfl⟩)
  | pruned | burned => exact ⟨h.count, h.count_le, h.attempts, h.next, h.next_le⟩

theorem Counted.removed {t : UdpRoamingTable} {sid : Nat} {s : UdpSession} (h : Counted t)
    (hs : t.sessions.get? sid = some s) : Counted (t.removeSession sid).1 := by
  have htotal := t.sessions.total_erase sid UdpSession.holding
  rw [hs, Option.elim_some] at htotal
  rw [removeSession_some hs]
  cases hcand : s.candidate with
  | none =>
    rw [holding_none hcand] at htotal
    exact ⟨h.count.trans htotal.symm, h.count_le, h.attempts, h.next, h.next_le⟩
  | some c =>
    rw [holding_some hcand] at htotal
    exact h.resolved htotal rfl rfl rfl rfl (.inr ⟨rfl, rfl⟩)

theorem Counted.change (hc : Change deriveUdpCid t op t' r) (h : Counted t) : Counted t' := by
  have hcount := h.count
  have hattempts := h.attempts
  have hnext := h.next
  have hmax := h.next_le
  cases hc with
  | quiet => exact h
  | @registered sid g budget c2s s2c path aliases initial _ hnone =>
    have htotal := t.sessions.total_insert sid ⟨g, path.workerId, c2s, s2c, aliases,
      ⟨path, 0, initial.receive, initial.transmit, budget, 0⟩, none, none⟩ UdpSession.holding
    rw [hnone] at htotal
    exact ⟨hcount.trans htotal.symm, h.count_le, hattempts, hnext, hmax⟩
  | observed hin _ hc =>
    exact h.of_insert hin.session rfl (holding_some hc).symm rfl rfl rfl rfl rfl rfl
  | @started lookup path _ _ b now challenge s ticket hin _ hnone hlt _ _ hle' _ =>
    have htotal := total_set hin.session { s with
      candidate := some ⟨ticket, path, challenge, now, min b maxCandidateAccountedBytes, 0⟩ }
    rw [holding_none hnone] at htotal
    have hsat : saturatingAdd u64Max t.attemptsTotal 1 = t.attemptsTotal + 1 :=
      saturatingAdd_eq (by omega)
    refine ⟨?_, hlt, ?_, ?_, hle'⟩
    · show t.candidateCount + 1 = (t.sessions.insert lookup.sessionId _).total _
      rw [hcount]; exact htotal.symm
    · show saturatingAdd u64Max t.attemptsTotal 1 =
        t.commitsTotal + t.failuresTotal + (t.candidateCount + 1)
      omega
    · show saturatingAdd u64Max t.attemptsTotal 1 + 1 = t.nextCandidateId + 1
      omega
  | authorized hl | credited hl =>
    exact h.of_insert hl.session rfl (holding_some hl.candidate).symm rfl rfl rfl rfl rfl rfl
  | @committed ticket _ _ b budget _ _ _ s c aliases outcome hl =>
    have hcr : Counted (t.setSession ticket.sessionId (s.credited c b)) :=
      h.of_insert hl.session rfl (holding_some hl.candidate).symm rfl rfl rfl rfl rfl rfl
    have hget : (t.setSession ticket.sessionId (s.credited c b)).sessions.get? ticket.sessionId =
        some (s.credited c b) := KeyMap.get?_insert_self _ _ _
    have htotal := total_set hget { s.credited c b with
      aliases
      active := ⟨outcome.newPath, ticket.pathEpoch, outcome.receiveCid, outcome.transmitCid,
        budget, outcome.pmtu.pmtuGeneration⟩
      lastCommit := some ⟨ticket, outcome.newPath, c.challenge, outcome⟩
      candidate := none }
    exact hcr.resolved htotal rfl rfl rfl rfl (.inl ⟨rfl, rfl⟩)
  | widened hs => exact h.of_insert hs rfl rfl rfl rfl rfl rfl rfl rfl
  | removed hs => exact h.removed hs

/-! ## One candidate over one change -/

/-- Bytes that the event authorises for the ticket. -/
def TableEvent.authorizedFor (ticket : CandidateTicket) : TableEvent → Nat
  | ⟨.authorize x w _, .authorized (.ok ())⟩ => if x = ticket then w else 0
  | _ => 0

/-- Authenticated bytes that the event receives for the ticket's candidate and
leaves it with. -/
def TableEvent.receivedFor (ticket : CandidateTicket) : TableEvent → Nat
  | ⟨.observe _ _ _ _ b _ _, .observed (.ok challenge)⟩ =>
    if challenge.ticket = ticket then b else 0
  | ⟨.commit x _ _ _ b _ _ _, .committed (.error (.publish ()))⟩ => if x = ticket then b else 0
  | ⟨.commit x _ _ _ b _ _ _, .committed (.error (.state .cidCollision))⟩ =>
    if x = ticket then b else 0
  | _ => 0

def TableEvent.observation : TableEvent → Option (CandidateTicket × Nat)
  | ⟨.observe _ _ _ _ _ _ now, .observed (.ok challenge)⟩ => some (challenge.ticket, now)
  | _ => none

def TableEvent.inits : TableEvent → Option (CidLookup × Nat)
  | ⟨.observe lookup _ _ epoch _ _ _, _⟩ => some (lookup, epoch)
  | _ => none

/-- Where a candidate that is live after an event comes from. -/
inductive Traced (t : UdpRoamingTable) (ticket : CandidateTicket) (e : TableEvent)
    (c' : CandidatePath) : Prop where
  | kept {s : UdpSession} : Live t ticket s c' → e.authorizedFor ticket = 0 →
      Traced t ticket e c'
  | credited {s : UdpSession} {c : CandidatePath} {b : Nat} : Live t ticket s c →
      c' = c.credit b → b ≤ e.receivedFor ticket → e.authorizedFor ticket = 0 →
      Traced t ticket e c'
  | sent {s : UdpSession} {c : CandidatePath} {w : Nat} : Live t ticket s c →
      c' = { c with sentBytes := saturatingAdd u64Max c.sentBytes w } →
      e.authorizedFor ticket = w → c'.sentBytes ≤ c.receivedBytes * antiAmplificationFactor →
      Traced t ticket e c'
  | started {lookup : CidLookup} : ticket.candidateId = t.nextCandidateId →
      e.inits = some (lookup, ticket.pathEpoch) → lookup.sessionId = ticket.sessionId →
      e.observation = some (ticket, c'.createdAt) → c'.sentBytes = 0 →
      c'.receivedBytes ≤ maxCandidateAccountedBytes → c'.receivedBytes ≤ e.receivedFor ticket →
      e.authorizedFor ticket = 0 → Traced t ticket e c'

theorem TableResult.Quiet.authorizedFor (h : r.Quiet) (op : TableOp) (ticket : CandidateTicket) :
    TableEvent.authorizedFor ticket ⟨op, r⟩ = 0 := by
  unfold TableEvent.authorizedFor
  split
  · next heq => cases heq; cases h
  · rfl

theorem TableOp.Removes.authorizedFor (h : op.Removes s sid r) (ticket : CandidateTicket) :
    TableEvent.authorizedFor ticket ⟨op, r⟩ = 0 := by
  unfold TableEvent.authorizedFor
  split
  · next heq => cases heq; cases h
  · rfl

theorem Live.of_insert {s₁ : UdpSession} (h : Live t' ticket s c)
    (hsessions : t'.sessions = t.sessions.insert sid s₁) :
    (ticket.sessionId = sid ∧ s₁.candidate = some c ∧ c.ticket = ticket) ∨
      (ticket.sessionId ≠ sid ∧ Live t ticket s c) := by
  have hs := h.session
  rw [hsessions, KeyMap.get?_insert] at hs
  split at hs
  · next he => cases hs; exact .inl ⟨he, h.candidate, h.ticket_eq⟩
  · next hne => exact .inr ⟨hne, hs, h.generation, h.candidate, h.ticket_eq⟩

theorem Indexed.live (hi : Indexed deriveUdpCid t) (hs : t.sessions.get? sid = some s)
    (hc : s.candidate = some c) : Live t c.ticket s c := by
  obtain ⟨hsid, hg, -⟩ := (hi.session sid s hs).candidate c hc
  exact ⟨hsid ▸ hs, hg.symm, hc, rfl⟩

theorem Change.traced (hc : Change deriveUdpCid t op t' r) (hi : Indexed deriveUdpCid t)
    {s' : UdpSession} {c' : CandidatePath} (h : Live t' ticket s' c') : Traced t ticket ⟨op, r⟩ c' := by
  cases hc with
  | quiet hq => exact .kept h (hq.authorizedFor op ticket)
  | registered =>
    rcases h.of_insert rfl with ⟨-, hnone, -⟩ | ⟨-, hold⟩
    · cases hnone
    · exact .kept hold rfl
  | @observed _ _ _ _ b _ _ s c hin _ hc =>
    rcases h.of_insert rfl with ⟨hsid, hc', htk⟩ | ⟨-, hold⟩
    · cases hc'
      obtain rfl : c.ticket = ticket := htk
      refine .credited (hi.live hin.session hc) rfl ?_ rfl
      simp [TableEvent.receivedFor]
    · exact .kept hold rfl
  | @started lookup _ _ epoch b _ _ s x hin _ _ _ _ _ _ hx =>
    rcases h.of_insert rfl with ⟨hsid, hc', htk⟩ | ⟨-, hold⟩
    · cases hc'
      obtain rfl : x = ticket := htk
      have hepoch : epoch = x.pathEpoch := by rw [hx, hin.epoch_eq, hin.lookup_epoch]
      refine .started (by rw [hx]) (by rw [← hepoch]; rfl) hsid.symm rfl rfl (Nat.min_le_right _ _)
        ?_ rfl
      simp [TableEvent.receivedFor]
    · exact .kept hold rfl
  | @authorized x w _ s c hl _ hle =>
    rcases h.of_insert rfl with ⟨hsid, hc', htk⟩ | ⟨hne, hold⟩
    · cases hc'
      obtain rfl : c.ticket = ticket := htk
      refine .sent (hl.ticket_eq ▸ hl) rfl ?_ (hle.trans (Nat.min_le_right _ _))
      simp [TableEvent.authorizedFor, hl.ticket_eq]
    · refine .kept hold ?_
      have : x ≠ ticket := by rintro rfl; exact hne rfl
      simp [TableEvent.authorizedFor, this]
  | @credited x _ _ b _ _ _ _ s c error hl _ herr =>
    rcases h.of_insert rfl with ⟨hsid, hc', htk⟩ | ⟨-, hold⟩
    · cases hc'
      obtain rfl : c.ticket = ticket := htk
      refine .credited (hl.ticket_eq ▸ hl) rfl ?_ rfl
      rcases herr with rfl | rfl | ⟨hmax, -⟩
      · simp [TableEvent.receivedFor, hl.ticket_eq]
      · simp [TableEvent.receivedFor, hl.ticket_eq]
      · -- the PMTU generation is the epoch and is below the candidate ids
        have hf := hl.formed hi
        have := hf.pmtu
        have := hf.epoch_lt
        have := hi.next_le
        omega
    · exact .kept hold rfl
  | @committed x _ _ b _ _ _ _ s c _ _ hl =>
    rcases h.of_insert rfl with ⟨-, hnone, -⟩ | ⟨hne, hold⟩
    · cases hnone
    · rcases hold.of_insert rfl with ⟨hsid, -⟩ | ⟨-, hold⟩
      · exact absurd hsid hne
      · exact .kept hold rfl
  | widened hs =>
    rcases h.of_insert rfl with ⟨hsid, hc', rfl⟩ | ⟨-, hold⟩
    · exact .kept (hi.live hs hc') rfl
    · exact .kept hold rfl
  | @removed _ _ sid s hs hop =>
    have hsess := h.session
    rw [removeSession_some hs] at hsess
    dsimp only at hsess
    rw [KeyMap.get?_erase] at hsess
    split at hsess
    · cases hsess
    · exact .kept ⟨hsess, h.generation, h.candidate, h.ticket_eq⟩ (hop.authorizedFor ticket)

/-! ## Bytes -/

def authorizedBytes (es : List TableEvent) (ticket : CandidateTicket) : Nat :=
  (es.map (TableEvent.authorizedFor ticket)).sum

def receivedBytes (es : List TableEvent) (ticket : CandidateTicket) : Nat :=
  (es.map (TableEvent.receivedFor ticket)).sum

@[simp] theorem authorizedBytes_snoc (es : List TableEvent) (e : TableEvent)
    (ticket : CandidateTicket) :
    authorizedBytes (es ++ [e]) ticket = authorizedBytes es ticket + e.authorizedFor ticket := by
  simp [authorizedBytes]

@[simp] theorem receivedBytes_snoc (es : List TableEvent) (e : TableEvent)
    (ticket : CandidateTicket) :
    receivedBytes (es ++ [e]) ticket = receivedBytes es ticket + e.receivedFor ticket := by
  simp [receivedBytes]

/-- The counters of a live candidate against its history. -/
structure Account (es : List TableEvent) (ticket : CandidateTicket) (c : CandidatePath) : Prop where
  sent : authorizedBytes es ticket = c.sentBytes
  received : c.receivedBytes ≤ receivedBytes es ticket
  received_le : c.receivedBytes ≤ maxCandidateAccountedBytes
  sent_le : c.sentBytes ≤ c.receivedBytes * antiAmplificationFactor

/-- What was authorised for a ticket over the history. -/
structure Spent (es : List TableEvent) (t : UdpRoamingTable) (ticket : CandidateTicket) :
    Prop where
  live : ∀ s c, Live t ticket s c → Account es ticket c
  amplified : authorizedBytes es ticket ≤ receivedBytes es ticket * antiAmplificationFactor
  capped : authorizedBytes es ticket ≤ maxCandidateAccountedBytes * antiAmplificationFactor
  unissued : t.nextCandidateId ≤ ticket.candidateId → authorizedBytes es ticket = 0

theorem Account.step {c' : CandidatePath} (h : Spent es t ticket) (ht : Traced t ticket e c') :
    Account (es ++ [e]) ticket c' := by
  cases ht with
  | kept hl h0 =>
    obtain ⟨h1, h2, h3, h4⟩ := h.live _ _ hl
    exact ⟨by simp [h1, h0], by rw [receivedBytes_snoc]; omega, h3, h4⟩
  | @credited s c b hl hc hb h0 =>
    obtain ⟨h1, h2, h3, h4⟩ := h.live _ _ hl
    subst hc
    have hmax : maxCandidateAccountedBytes ≤ u64Max := by decide
    have hge : c.receivedBytes ≤ (c.credit b).receivedBytes := by
      show _ ≤ min (saturatingAdd u64Max c.receivedBytes b) maxCandidateAccountedBytes
      unfold saturatingAdd
      omega
    refine ⟨by simp [h1, h0, CandidatePath.credit], ?_, Nat.min_le_right _ _,
      h4.trans (Nat.mul_le_mul_right _ hge)⟩
    rw [receivedBytes_snoc]
    show min (saturatingAdd u64Max c.receivedBytes b) _ ≤ _
    unfold saturatingAdd
    omega
  | @sent s c w hl hc hw hle =>
    obtain ⟨h1, h2, h3, h4⟩ := h.live _ _ hl
    subst hc
    -- the limit is far below the largest `u64`, so the sum did not saturate
    have hcap : c.receivedBytes * antiAmplificationFactor < u64Max :=
      (Nat.mul_le_mul_right _ h3).trans_lt (by decide)
    have hsum : saturatingAdd u64Max c.sentBytes w = c.sentBytes + w := by
      dsimp only at hle
      unfold saturatingAdd at hle ⊢
      omega
    refine ⟨?_, by rw [receivedBytes_snoc]; exact h2.trans (Nat.le_add_right _ _), h3, hle⟩
    rw [authorizedBytes_snoc, h1, hw]
    exact hsum.symm
  | started hid _ _ _ h0 hcap hrec ha =>
    refine ⟨?_, by rw [receivedBytes_snoc]; omega, hcap, by rw [h0]; exact Nat.zero_le _⟩
    rw [authorizedBytes_snoc, ha, h0, h.unissued hid.ge]

theorem Change.authorizedFor_live (hc : Change deriveUdpCid t op t' r) (ticket : CandidateTicket) :
    TableEvent.authorizedFor ticket ⟨op, r⟩ = 0 ∨ ∃ s' c', Live t' ticket s' c' := by
  cases hc with
  | quiet hq => exact .inl (hq.authorizedFor op ticket)
  | removed _ hop => exact .inl (hop.authorizedFor ticket)
  | @authorized x w _ s c hl =>
    by_cases hx : x = ticket
    · subst hx
      exact .inr ⟨_, _, KeyMap.get?_insert_self _ _ _, hl.generation, rfl, hl.ticket_eq⟩
    · simp [TableEvent.authorizedFor, hx]
  | _ => exact .inl rfl

theorem Spent.change (hi : Indexed deriveUdpCid t) (hc : Change deriveUdpCid t op t' r)
    (h : Spent es t ticket) : Spent (es ++ [⟨op, r⟩]) t' ticket := by
  have hlive : ∀ s c, Live t' ticket s c → Account (es ++ [⟨op, r⟩]) ticket c :=
    fun s c hl => .step h (hc.traced hi hl)
  rcases hc.authorizedFor_live ticket with h0 | ⟨s', c', hl⟩
  · refine ⟨hlive, ?_, ?_, fun hle => ?_⟩
    · rw [authorizedBytes_snoc, receivedBytes_snoc, h0]
      exact h.amplified.trans (Nat.mul_le_mul_right _ (Nat.le_add_right _ _))
    · rw [authorizedBytes_snoc, h0]; exact h.capped
    · rw [authorizedBytes_snoc, h0]; exact h.unissued (hc.nextCandidateId_le.trans hle)
  · obtain ⟨h1, h2, h3, h4⟩ := hlive s' c' hl
    refine ⟨hlive, ?_, ?_, fun hle => ?_⟩
    · rw [h1]; exact h4.trans (Nat.mul_le_mul_right _ h2)
    · rw [h1]; exact h4.trans (Nat.mul_le_mul_right _ h3)
    · have hi' := Indexed.change hc hi
      obtain ⟨-, -, -, hid, -⟩ := (hl.formed hi').candidate c' hl.candidate
      rw [hl.ticket_eq] at hid
      omega

theorem TidyStep.live (h : TidyStep now? t t') (hl : Live t' ticket s c) : Live t ticket s c := by
  cases h with
  | failed =>
    rcases hl.of_insert rfl with ⟨-, hnone, -⟩ | ⟨-, hold⟩
    · cases hnone
    · exact hold
  | pruned | burned => exact ⟨hl.session, hl.generation, hl.candidate, hl.ticket_eq⟩

theorem Spent.tidy (hstep : TidyStep now? t t') (h : Spent es t ticket) : Spent es t' ticket :=
  ⟨fun s c hl => h.live s c (hstep.live hl), h.amplified, h.capped,
    fun hle => h.unissued (hstep.nextCandidateId ▸ hle)⟩

/-! ## Lifetimes -/

/-- The first PATH_INIT of every candidate and its time. -/
def recordCreation (seen : List (CandidateTicket × Nat)) (e : TableEvent) :
    List (CandidateTicket × Nat) :=
  match e.observation with
  | some x => if x.1 ∈ seen.map Prod.fst then seen else seen ++ [x]
  | none => seen

def creations (es : List TableEvent) : List (CandidateTicket × Nat) := es.foldl recordCreation []

theorem creations_snoc (es : List TableEvent) (e : TableEvent) :
    creations (es ++ [e]) = recordCreation (creations es) e := by
  simp [creations]

theorem mem_creations_snoc {x : CandidateTicket × Nat} :
    x ∈ creations (es ++ [e]) ↔ x ∈ creations es ∨
      (e.observation = some x ∧ x.1 ∉ (creations es).map Prod.fst) := by
  rw [creations_snoc, recordCreation]
  cases e.observation with
  | none => simp
  | some y =>
    dsimp only
    split
    · next hy =>
      refine ⟨.inl, fun h => h.elim id fun ⟨heq, hne⟩ => ?_⟩
      cases heq; exact absurd hy hne
    · next hy =>
      rw [List.mem_append, List.mem_singleton]
      refine or_congr_right ⟨fun h => ?_, fun h => (Option.some.inj h.1).symm⟩
      cases h; exact ⟨rfl, hy⟩

/-- The live candidates against the creations of the history. -/
structure Created (es : List TableEvent) (t : UdpRoamingTable) : Prop where
  live : ∀ ticket s c, Live t ticket s c → (ticket, c.createdAt) ∈ creations es
  issued : ∀ x ∈ creations es, x.1.candidateId < t.nextCandidateId
  once : ((creations es).map Prod.fst).Nodup

theorem Created.tidy (hstep : TidyStep now? t t') (h : Created es t) : Created es t' :=
  ⟨fun ticket s c hl => h.live ticket s c (hstep.live hl),
    fun x hx => hstep.nextCandidateId ▸ h.issued x hx, h.once⟩

theorem TableEvent.issued_of_observation {x : CandidateTicket × Nat} (h : e.observation = some x) :
    e.issued = some x.1 := by
  unfold TableEvent.observation at h
  split at h
  · cases h; rfl
  · cases h

theorem Created.not_mem (h : Created es t) (hid : ticket.candidateId = t.nextCandidateId) :
    ticket ∉ (creations es).map Prod.fst := by
  intro hmem
  obtain ⟨x, hx, rfl⟩ := List.mem_map.mp hmem
  have := h.issued x hx
  omega

theorem Created.change (hi : Indexed deriveUdpCid t) (hc : Change deriveUdpCid t op t' r)
    (h : Created es t) : Created (es ++ [⟨op, r⟩]) t' := by
  refine ⟨fun ticket s c hl => mem_creations_snoc.mpr ?_, fun x hx => ?_, ?_⟩
  · cases hc.traced hi hl with
    | kept hold => exact .inl (h.live _ _ _ hold)
    | @credited _ c₀ _ hold hc | @sent _ c₀ _ hold hc => subst hc; exact .inl (h.live _ _ c₀ hold)
    | started hid _ _ hobs => exact .inr ⟨hobs, h.not_mem hid⟩
  · rcases mem_creations_snoc.mp hx with hold | ⟨hobs, -⟩
    · exact (h.issued x hold).trans_le hc.nextCandidateId_le
    · exact hc.issued_lt hi (TableEvent.issued_of_observation hobs)
  · rw [creations_snoc, recordCreation]
    split
    · next x _ =>
      split
      · exact h.once
      · next hx =>
        rw [List.map_append]
        exact h.once.append (by simp) (by simpa using hx)
    · exact h.once

/-! ## Rate -/

theorem Change.starts (hi : Indexed deriveUdpCid t) (hc : Change deriveUdpCid t op t' r)
    (h : Created es t) :
    (creations (es ++ [⟨op, r⟩]) = creations es ∧ t'.candidateStarts = t.candidateStarts) ∨
    ∃ ticket now, op.now = some now ∧
      creations (es ++ [⟨op, r⟩]) = creations es ++ [(ticket, now)] ∧
      t'.candidateStarts = t.candidateStarts ++ [now] ∧
      t.candidateStarts.length < t.maxCandidateStartsPerWindow := by
  simp only [creations_snoc, recordCreation]
  cases hc with
  | quiet hq =>
    refine .inl ⟨?_, rfl⟩
    split
    · next hobs =>
      have := TableEvent.issued_of_observation hobs
      unfold TableEvent.issued at this
      dsimp only at this
      split at this
      · cases hq
      · cases this
    · rfl
  | @observed _ _ _ _ _ _ _ s c hin _ hc =>
    refine .inl ⟨if_pos ?_, rfl⟩
    exact List.mem_map.mpr ⟨_, h.live _ _ _ (hi.live hin.session hc), rfl⟩
  | @started _ _ _ _ _ now _ s ticket _ _ _ _ _ hlen _ hx =>
    exact .inr ⟨ticket, now, rfl, if_neg (h.not_mem (by rw [hx])), rfl, hlen⟩
  | @removed _ _ _ _ hs hop =>
    rw [removeSession_some hs]
    refine .inl ⟨?_, rfl⟩
    cases op <;> first | cases hop | rfl
  | _ => exact .inl ⟨rfl, rfl⟩

/-- The queue of the table is the rate window of its creations. -/
def Paced (es : List TableEvent) (t : UdpRoamingTable) (clock : Nat) : Prop :=
  Windowed t.candidateRateWindow t.maxCandidateStartsPerWindow ((creations es).map Prod.snd)
    t.candidateStarts clock

theorem le_of_elapsed {now since span : Nat} (h : elapsed now since span = true) :
    since + span ≤ now := by
  simp only [elapsed, Bool.and_eq_true, decide_eq_true_eq] at h
  omega

theorem Paced.tidy (hnow : ∀ now, now? = some now → now = clock) (hstep : TidyStep now? t t')
    (h : Paced es t clock) : Paced es t' clock := by
  cases hstep with
  | failed => exact h
  | pruned hn =>
    obtain rfl := hnow _ hn
    exact Windowed.prune h _ fun x hx => le_of_elapsed hx
  | burned => exact h

theorem Paced.change (hnow : ∀ now, op.now = some now → now = clock) (hi : Indexed deriveUdpCid t)
    (hcr : Created es t) (hc : Change deriveUdpCid t op t' r) (h : Paced es t clock) :
    Paced (es ++ [⟨op, r⟩]) t' clock := by
  have hpolicy : t'.candidateRateWindow = t.candidateRateWindow ∧
      t'.maxCandidateStartsPerWindow = t.maxCandidateStartsPerWindow := by
    cases hc with
    | removed hs => rw [removeSession_some hs]; exact ⟨rfl, rfl⟩
    | _ => exact ⟨rfl, rfl⟩
  unfold Paced at h ⊢
  rw [hpolicy.1, hpolicy.2]
  rcases hc.starts hi hcr with ⟨heq, hq⟩ | ⟨ticket, now, hn, heq, hq, hlen⟩
  · rw [heq, hq]; exact h
  · obtain rfl := hnow now hn
    rw [heq, hq, List.map_append]
    exact h.push hlen

/-- What the history says about the candidates of a table. -/
structure Budgeted (deriveUdpCid : DeriveUdpCid) (es : List TableEvent) (t : UdpRoamingTable) :
    Prop where
  indexed : Indexed deriveUdpCid t
  counted : Counted t
  spent : ∀ ticket, Spent es t ticket
  created : Created es t

theorem Budgeted.of_tidy (ht : Tidy now? t t') (h : Budgeted deriveUdpCid es t) :
    Budgeted deriveUdpCid es t' := by
  refine ht.preserves (fun hstep hb => ?_) h
  exact ⟨Indexed.tidy hstep hb.indexed, Counted.tidy hstep hb.counted,
    fun ticket => (hb.spent ticket).tidy hstep, hb.created.tidy hstep⟩

theorem Budgeted.change (hc : Change deriveUdpCid t op t' r) (h : Budgeted deriveUdpCid es t) :
    Budgeted deriveUdpCid (es ++ [⟨op, r⟩]) t' :=
  ⟨Indexed.change hc h.indexed, Counted.change hc h.counted,
    fun ticket => (h.spent ticket).change h.indexed hc, h.created.change h.indexed hc⟩

theorem Paced.of_tidy (hnow : ∀ now, now? = some now → now = clock) (ht : Tidy now? t t')
    (h : Paced es t clock) : Paced es t' clock :=
  ht.preserves (fun hstep hp => Paced.tidy hnow hstep hp) h

theorem Budgeted.run {t₀ : UdpRoamingTable} (h : Run (Step deriveUdpCid) t₀ es t)
    (h0 : Budgeted deriveUdpCid [] t₀) : Budgeted deriveUdpCid es t := by
  refine h.invariant h0 ?_
  rintro es t e t' - hb hs
  obtain ⟨t₁, t₂, h1, h2, h3⟩ := hs.does
  exact ((hb.of_tidy h1).change h2).of_tidy h3

/-- The queue is paced at every clock that no past operation exceeds. -/
theorem paced_run {t₀ : UdpRoamingTable} (h : Run (Step deriveUdpCid) t₀ es t)
    (h0 : Budgeted deriveUdpCid [] t₀) (hempty : t₀.candidateStarts = [])
    (htimes : (es.filterMap (·.op.now)).Pairwise (· ≤ ·)) (clock : Nat)
    (hclock : ∀ x ∈ es.filterMap (·.op.now), x ≤ clock) : Paced es t clock := by
  induction h generalizing clock with
  | nil =>
    unfold Paced
    rw [hempty]
    exact .empty _ _ _
  | @snoc es t t' e hr hs ih =>
    have hb := Budgeted.run hr h0
    rw [filterMap_snoc] at htimes hclock
    obtain ⟨hpast, -, hlate⟩ := List.pairwise_append.mp htimes
    obtain ⟨t₁, t₂, h1, h2, h3⟩ := hs.does
    -- the operation runs at its own time, or at any time if it has none
    have hstep : ∀ clock₀, (∀ now, e.op.now = some now → now = clock₀) → Paced es t clock₀ →
        Paced (es ++ [e]) t' clock₀ := by
      intro clock₀ hnow hp
      have hb₁ := hb.of_tidy h1
      exact ((hp.of_tidy hnow h1).change hnow hb₁.indexed hb₁.created h2).of_tidy hnow h3
    cases hop : e.op.now with
    | none =>
      refine hstep clock (by simp [hop]) (ih hpast clock fun x hx => ?_)
      exact hclock x (List.mem_append_left _ hx)
    | some now =>
      rw [hop] at hlate hclock
      have hp := hstep now (by simp [hop]) (ih hpast now fun x hx => hlate x hx now (by simp))
      exact Windowed.tick hp (hclock now (by simp))

theorem budgeted_new (deriveUdpCid : DeriveUdpCid)
    (maxSessions maxCandidates ttl window starts : Nat) :
    Budgeted deriveUdpCid []
      (withCandidatePolicy maxSessions maxCandidates ttl window starts) := by
  have hno : ∀ ticket s c,
      ¬ Live (withCandidatePolicy maxSessions maxCandidates ttl window starts) ticket s c := by
    intro ticket s c hl
    have : (∅ : KeyMap Nat UdpSession).get? ticket.sessionId = some s := hl.session
    rw [KeyMap.get?_empty] at this
    cases this
  refine ⟨indexed_new deriveUdpCid maxSessions maxCandidates ttl window starts,
    ⟨(KeyMap.total_empty _).symm, Nat.zero_le _, rfl, rfl, ?_⟩,
    fun ticket => ⟨fun s c hl => absurd hl (hno _ _ _), Nat.zero_le _, Nat.zero_le _, fun _ => rfl⟩,
    ⟨fun ticket s c hl => absurd hl (hno _ _ _), nofun, .nil⟩⟩
  show 1 ≤ u64Max
  decide

theorem total_holding (m : KeyMap Nat UdpSession) :
    m.total UdpSession.holding = m.toPairs.countP fun x => x.2.candidate.isSome := by
  unfold KeyMap.total KeyMap.toPairs
  rw [List.countP_map]
  induction m.entries with
  | nil => rfl
  | cons x xs ih =>
    rw [List.map_cons, List.sum_cons, ih, List.countP_cons, Nat.add_comm]
    rfl

/-- **Candidates cost bounded resources.** Over any operations with non-decreasing
times: the candidate count is exact and bounded, the totals balance, no candidate
is sent more than three times what it sent or 3 MiB, no candidate is usable past
the lifetime that began with its first PATH_INIT, and no rate window sees more
than the allowed creations. -/
theorem candidate_budget {deriveUdpCid : DeriveUdpCid}
    {maxSessions maxCandidates ttl window starts : Nat} {es : List TableEvent}
    {t : UdpRoamingTable}
    (h : Run (Step deriveUdpCid) (withCandidatePolicy maxSessions maxCandidates ttl window starts)
      es t)
    (htimes : (es.filterMap (·.op.now)).Pairwise (· ≤ ·)) :
    (t.candidateCount = t.sessions.toPairs.countP (fun x => x.2.candidate.isSome) ∧
      t.candidateCount ≤ maxCandidates) ∧
    t.attemptsTotal = t.commitsTotal + t.failuresTotal + t.candidateCount ∧
    (∀ ticket, authorizedBytes es ticket ≤ 3 * receivedBytes es ticket ∧
      authorizedBytes es ticket ≤ 3 * 1024 * 1024) ∧
    (∀ ticket s c, Live t ticket s c → (ticket, c.createdAt) ∈ creations es) ∧
    (∀ ticket created, (ticket, created) ∈ creations es →
      ∀ now, created + ttl ≤ now → ¬ Usable t ticket now) ∧
    ∀ w, (startsIn window w ((creations es).map Prod.snd)).length ≤ starts := by
  have h0 := budgeted_new deriveUdpCid maxSessions maxCandidates ttl window starts
  have hb := Budgeted.run h h0
  have hpolicy := policy_run h
  simp only [policy, Prod.mk.injEq] at hpolicy
  obtain ⟨hmax, httl, hwindow, hstarts⟩ := hpolicy
  refine ⟨⟨?_, ?_⟩, hb.counted.attempts, fun ticket => ⟨?_, ?_⟩, hb.created.live, ?_, fun w => ?_⟩
  · rw [hb.counted.count, total_holding]
  · exact hb.counted.count_le.trans hmax.le
  · have := (hb.spent ticket).amplified
    unfold antiAmplificationFactor at this
    omega
  · exact (hb.spent ticket).capped.trans (by decide)
  · rintro ticket created hmem now hle ⟨s, c, hl, hnow⟩
    -- a ticket was created once, so its live candidate began then
    have heq : c.createdAt = created := by
      have := List.inj_on_of_nodup_map hb.created.once (hb.created.live _ _ _ hl) hmem rfl
      exact congrArg Prod.snd this
    rw [heq, httl] at hnow
    simp only [elapsed, Bool.and_eq_false_iff, decide_eq_false_iff_not, not_le] at hnow
    have : (withCandidatePolicy maxSessions maxCandidates ttl window starts).candidateTtl = ttl :=
      rfl
    omega
  · obtain ⟨clock, hclock⟩ : ∃ clock, ∀ x ∈ es.filterMap (·.op.now), x ≤ clock :=
      ⟨(es.filterMap (·.op.now)).sum, fun x hx => List.single_le_sum (by simp) x hx⟩
    have hp := paced_run h h0 rfl htimes clock hclock
    have := hp.limited w
    rw [hwindow, hstarts] at this
    exact this

/-- A candidate is challenged, repeats its PATH_INIT and expires. -/
theorem candidate_budget_one_candidate :
    ∃ es t, Run (Step fun _ _ e => .replicate 8 (UInt8.ofNat e))
        (withCandidatePolicy 4 4 10 10 1) es t ∧
      t.attemptsTotal = 1 ∧ t.failuresTotal = 1 ∧ authorizedBytes es ⟨7, 1, 1, 1⟩ = 500 ∧
      500 ≤ 3 * receivedBytes es ⟨7, 1, 1, 1⟩ ∧ ¬ Usable t ⟨7, 1, 1, 1⟩ 15 := by
  let derive : DeriveUdpCid := fun _ _ e => .replicate 8 (UInt8.ofNat e)
  let init (now : Nat) : TableOp := .observe ⟨7, 1, 0, 1⟩ ⟨0, ⟨2, 2⟩⟩ (.replicate 8 1) 1 100
    (.replicate 16 1) now
  let x := (withCandidatePolicy 4 4 10 10 1).applyAll derive
    [.register 7 (.replicate 32 1) (.replicate 32 2) ⟨0, ⟨1, 1⟩⟩ 1200, init 5,
      .authorize ⟨7, 1, 1, 1⟩ 300 6, init 7, .authorize ⟨7, 1, 1, 1⟩ 200 8, .expire 15]
  have h : Run (Step derive) (withCandidatePolicy 4 4 10 10 1) x.2 x.1 := applyAll_run derive _ _
  have htimes : (x.2.filterMap (·.op.now)).Pairwise (· ≤ ·) := by decide +kernel
  have hsent : authorizedBytes x.2 ⟨7, 1, 1, 1⟩ = 500 := by decide +kernel
  have hmem : (⟨7, 1, 1, 1⟩, 5) ∈ creations x.2 := by decide +kernel
  have htotals : x.1.attemptsTotal = 1 ∧ x.1.failuresTotal = 1 := by decide +kernel
  clear_value x
  obtain ⟨-, -, hbytes, -, hlife, -⟩ := candidate_budget h htimes
  refine ⟨x.2, x.1, h, htotals.1, htotals.2, hsent, ?_, hlife _ 5 hmem 15 (by decide)⟩
  rw [← hsent]
  exact (hbytes _).1

end Qeli.Udp
