import Mathlib.Data.Finset.Basic
import Qeli.Lib.Run
import Qeli.Wire.Roaming

/-!
# REALITY tokens

A `session_id` of `crypto/reality.rs` seals a short id and a time; the server accepts
it while its own clock, read in whole seconds, is within the window around that time,
and `ReplayGuard` of `server/mod.rs` remembers an accepted token for twice the window.
One clock drives both: `now` is the monotonic time of an attempt in nanoseconds, and
the wall clock is ahead of it by a constant.

`Remembers` relates the guard to the tokens it has reported fresh; an attempt keeps the
relation and is answered from it. A token is reported fresh once exactly if no two of
its accepted attempts are as far apart as the retention (`fresh_once_iff`), and this
happens only from the first second of the window to its last one.
-/

namespace Qeli.Reality

open Qeli.Lib Qeli.Wire

abbrev SessionId := Bytes 32

/-- `Duration::from_secs`, in nanoseconds. -/
def fromSecs (secs : Nat) : Nat := secs * 10 ^ 9

/-! ## The guard -/

structure ReplayGuard where
  seen : Finset SessionId
  fifo : List (Nat × SessionId)
  ttl : Nat

namespace ReplayGuard

def new (ttl : Nat) : ReplayGuard where
  seen := ∅
  fifo := []
  ttl

/-- The eviction loop, from the front. -/
def evict (now ttl : Nat) (seen : Finset SessionId) :
    List (Nat × SessionId) → Finset SessionId × List (Nat × SessionId)
  | [] => (seen, [])
  | (t, id) :: fifo =>
    if now - t < ttl then (seen, (t, id) :: fifo) else evict now ttl (seen.erase id) fifo

def observeAt (self : ReplayGuard) (sid : SessionId) (now : Nat) : ReplayGuard × Bool :=
  let (seen, fifo) := evict now self.ttl self.seen self.fifo
  if sid ∈ seen then ({ self with seen, fifo }, false)
  else ({ self with seen := insert sid seen, fifo := fifo ++ [(now, sid)] }, true)

end ReplayGuard

/-! ## An attempt -/

def shortIdLen : Nat := 8

def ptLen : Nat := shortIdLen + 8

def realityWindowSecs : Nat := 120

def retention : Nat := fromSecs (2 * realityWindowSecs)

/-- What is fixed for a profile: how its identity key opens a token, given the client's
ephemeral key, the short ids it admits, and the wall clock at the start of the monotonic
one. -/
structure Profile where
  decrypt : Bytes 32 → SessionId → Option (List UInt8)
  shortIds : List (List UInt8)
  epoch : Nat

structure Attempt where
  now : Nat
  ephPub : Bytes 32
  sessionId : SessionId

/-- The wall clock, in whole seconds. -/
def nowUnix (profile : Profile) (now : Nat) : Nat := (profile.epoch + now) / 10 ^ 9

def absDiff (a b : Nat) : Nat := (a - b) + (b - a)

/-- The time in an opened token. -/
def tokenTime (pt : List UInt8) : Nat := ofLE (pt.drop shortIdLen)

def openSessionId (profile : Profile) (attempt : Attempt) (windowSecs : Nat) :
    Option (List UInt8) :=
  match profile.decrypt attempt.ephPub attempt.sessionId with
  | none => none
  | some pt =>
    if pt.length ≠ ptLen then none
    else if windowSecs < absDiff (nowUnix profile attempt.now) (tokenTime pt) then none
    else some (pt.take shortIdLen)

def authenticateReality (profile : Profile) (attempt : Attempt) : Option SessionId :=
  match openSessionId profile attempt realityWindowSecs with
  | none => none
  | some got => if got ∈ profile.shortIds then some attempt.sessionId else none

structure Observation where
  attempt : Attempt
  fresh : Bool

/-- One connection: bridged to the decoy if it is not authenticated. -/
def connect (profile : Profile) (guard : ReplayGuard) (attempt : Attempt) :
    ReplayGuard × Option Observation :=
  match authenticateReality profile attempt with
  | none => (guard, none)
  | some sessionId =>
    let (guard, fresh) := guard.observeAt sessionId attempt.now
    (guard, some { attempt, fresh })

/-- What the guard was given over a run of a profile, in order. -/
def observations (profile : Profile) (attempts : List Attempt) : List Observation :=
  (trace (connect profile) (.new retention) attempts).2.filterMap id

def timesFresh (sid : SessionId) (observed : List Observation) : Nat :=
  observed.countP fun o => o.fresh && o.attempt.sessionId == sid

/-! ## What the guard remembers -/

/-- A token seen at `e.1` is still held at `now`. -/
abbrev Held (now ttl : Nat) (e : Nat × SessionId) : Prop := now - e.1 < ttl

def freshTokens (observed : List Observation) : List (Nat × SessionId) :=
  (observed.filter (·.fresh)).map fun o => (o.attempt.now, o.attempt.sessionId)

/-- The queue holds the fresh tokens that have not expired, and the set their ids. -/
structure Remembers (ttl now : Nat) (fresh : List (Nat × SessionId)) (g : ReplayGuard) : Prop where
  pos : 0 < ttl
  ttl_eq : g.ttl = ttl
  before : ∀ e ∈ fresh, e.1 ≤ now
  apart : fresh.Pairwise fun a b => a.1 ≤ b.1 ∧ (a.2 = b.2 → a.1 + ttl ≤ b.1)
  fifo : g.fifo = fresh.filter (Held now ttl)
  seen : ∀ id, id ∈ g.seen ↔ ∃ t, (t, id) ∈ g.fifo

theorem remembers_new {ttl : Nat} (hpos : 0 < ttl) : Remembers ttl 0 [] (.new ttl) where
  pos := hpos
  ttl_eq := rfl
  before := by simp
  apart := .nil
  fifo := rfl
  seen := by simp [ReplayGuard.new]

theorem evict_spec {now ttl : Nat} {seen : Finset SessionId} {fifo : List (Nat × SessionId)}
    (hfifo : fifo.Pairwise fun a b => a.1 ≤ b.1 ∧ a.2 ≠ b.2)
    (hseen : ∀ id, id ∈ seen ↔ ∃ t, (t, id) ∈ fifo) :
    (ReplayGuard.evict now ttl seen fifo).2 = fifo.filter (Held now ttl) ∧
      ∀ id, id ∈ (ReplayGuard.evict now ttl seen fifo).1 ↔
        ∃ t, (t, id) ∈ fifo.filter (Held now ttl) := by
  induction fifo generalizing seen with
  | nil => exact ⟨rfl, hseen⟩
  | cons e fifo ih =>
    obtain ⟨t, id⟩ := e
    obtain ⟨hhead, htail⟩ := List.pairwise_cons.mp hfifo
    unfold ReplayGuard.evict
    split
    · next hheld =>
      -- later tokens are younger
      have hall : ((t, id) :: fifo).filter (Held now ttl) = (t, id) :: fifo := by
        refine List.filter_eq_self.mpr (List.forall_mem_cons.mpr ⟨by simpa using hheld, ?_⟩)
        intro e he
        have := (hhead e he).1
        simp only [Held, decide_eq_true_eq]
        omega
      rw [hall]
      exact ⟨rfl, hseen⟩
    · next hexpired =>
      rw [List.filter_cons_of_neg (by simpa using hexpired)]
      refine ih htail fun id' => ?_
      rw [Finset.mem_erase, hseen]
      constructor
      · rintro ⟨hne, t', hmem⟩
        rcases List.mem_cons.mp hmem with heq | hmem
        · exact absurd (congrArg Prod.snd heq) hne
        · exact ⟨t', hmem⟩
      · rintro ⟨t', hmem⟩
        exact ⟨(hhead _ hmem).2.symm, t', List.mem_cons_of_mem _ hmem⟩

namespace Remembers

variable {ttl now now' : Nat} {fresh : List (Nat × SessionId)} {g : ReplayGuard}

theorem fifo_pairwise (h : Remembers ttl now fresh g) :
    g.fifo.Pairwise fun a b => a.1 ≤ b.1 ∧ a.2 ≠ b.2 := by
  rw [h.fifo]
  refine (h.apart.filter _).imp_of_mem fun {a b} ha hb hab => ⟨hab.1, fun heq => ?_⟩
  have hheld : now - a.1 < ttl := by simpa using (List.mem_filter.mp ha).2
  have hle := h.before b (List.mem_filter.mp hb).1
  have := hab.2 heq
  omega

/-- **An observation is answered from the fresh tokens before it**, and leaves the
relation. -/
theorem observeAt (h : Remembers ttl now fresh g) (hnow : now ≤ now') (sid : SessionId) :
    ∃ g' answer, g.observeAt sid now' = (g', answer) ∧
      (answer = true ↔ ∀ e ∈ fresh, e.2 = sid → e.1 + ttl ≤ now') ∧
      Remembers ttl now' (if answer then fresh ++ [(now', sid)] else fresh) g' := by
  obtain ⟨hfifo, hseen⟩ := @evict_spec now' ttl _ _ h.fifo_pairwise h.seen
  have hheld : g.fifo.filter (Held now' ttl) = fresh.filter (Held now' ttl) := by
    rw [h.fifo, List.filter_filter]
    refine List.filter_congr fun e he => ?_
    simp only [Held, ← Bool.decide_and, decide_eq_decide]
    omega
  rw [hheld] at hfifo hseen
  have hbefore : ∀ e ∈ fresh, e.1 ≤ now' := fun e he => (h.before e he).trans hnow
  have hmem : sid ∈ (ReplayGuard.evict now' ttl g.seen g.fifo).1 ↔
      ∃ e ∈ fresh, e.2 = sid ∧ now' < e.1 + ttl := by
    rw [hseen]
    constructor
    · rintro ⟨t, ht⟩
      obtain ⟨hin, hlt⟩ := List.mem_filter.mp ht
      have hlt : now' - t < ttl := by simpa using hlt
      have := hbefore _ hin
      exact ⟨_, hin, rfl, by dsimp only at this ⊢; omega⟩
    · rintro ⟨⟨t, id⟩, hin, rfl, hlt⟩
      have := hbefore _ hin
      refine ⟨t, List.mem_filter.mpr ⟨hin, ?_⟩⟩
      simp only [Held, decide_eq_true_eq] at hlt ⊢
      omega
  unfold ReplayGuard.observeAt
  rw [h.ttl_eq]
  generalize ReplayGuard.evict now' ttl g.seen g.fifo = r at hfifo hseen hmem ⊢
  obtain ⟨seen, fifo⟩ := r
  dsimp only at hfifo hseen hmem ⊢
  subst hfifo
  split
  · next hin =>
    refine ⟨_, false, rfl, ?_, h.pos, rfl, hbefore, h.apart, rfl, hseen⟩
    obtain ⟨e, he, heq, hlt⟩ := hmem.mp hin
    refine iff_of_false (by simp) fun hall => ?_
    have := hall e he heq
    omega
  · next hout =>
    have hold : ∀ e ∈ fresh, e.2 = sid → e.1 + ttl ≤ now' := fun e he heq =>
      Nat.le_of_not_lt fun hlt => hout (hmem.mpr ⟨e, he, heq, hlt⟩)
    refine ⟨_, true, rfl, iff_of_true rfl hold, h.pos, rfl, ?_, ?_, ?_, fun id => ?_⟩
    · exact forall_mem_snoc.mpr ⟨hbefore, Nat.le_refl now'⟩
    · refine List.pairwise_append.mpr ⟨h.apart, List.pairwise_singleton _ _, fun e he e' he' => ?_⟩
      obtain rfl := List.mem_singleton.mp he'
      exact ⟨hbefore e he, hold e he⟩
    · have hself : Held now' ttl (now', sid) := by
        have := h.pos
        simp only [Held]
        omega
      simp only [if_true, List.filter_append, List.filter_singleton, hself, decide_true,
        Bool.cond_true]
    · rw [Finset.mem_insert, hseen]
      simp only [List.mem_append, List.mem_singleton, Prod.mk.injEq]
      constructor
      · rintro (rfl | ⟨t, ht⟩)
        · exact ⟨now', .inr ⟨rfl, rfl⟩⟩
        · exact ⟨t, .inl ht⟩
      · rintro ⟨t, ht | ⟨-, rfl⟩⟩
        · exact .inr ⟨t, ht⟩
        · exact .inl rfl

end Remembers

/-! ## Runs -/

def tokenTimeOf (profile : Profile) (attempt : Attempt) : Option Nat :=
  (profile.decrypt attempt.ephPub attempt.sessionId).map tokenTime

theorem window_of_authenticated {profile : Profile} {attempt : Attempt} {sid : SessionId}
    (h : authenticateReality profile attempt = some sid) :
    sid = attempt.sessionId ∧ ∀ ts, tokenTimeOf profile attempt = some ts →
      absDiff (nowUnix profile attempt.now) ts ≤ realityWindowSecs := by
  unfold authenticateReality openSessionId at h
  unfold tokenTimeOf
  cases hopen : profile.decrypt attempt.ephPub attempt.sessionId with
  | none => simp [hopen] at h
  | some pt =>
    rw [hopen] at h
    dsimp only at h
    split at h
    · cases h
    · next hlen =>
      split at hlen
      · cases hlen
      · split at hlen
        · cases hlen
        · next hwindow =>
          split at h
          · cases h
            refine ⟨rfl, fun ts hts => ?_⟩
            cases hts
            omega
          · cases h

/-- An observation after others: within the window, not before them, and fresh exactly if
its token has not been reported fresh within the retention. -/
structure Answers (profile : Profile) (before : List Observation) (o : Observation) : Prop where
  window : ∀ ts, tokenTimeOf profile o.attempt = some ts →
    absDiff (nowUnix profile o.attempt.now) ts ≤ realityWindowSecs
  later : ∀ p ∈ before, p.attempt.now ≤ o.attempt.now
  fresh_iff : o.fresh = true ↔ ∀ e ∈ freshTokens before, e.2 = o.attempt.sessionId →
    e.1 + retention ≤ o.attempt.now

theorem freshTokens_snoc (observed : List Observation) (o : Observation) :
    freshTokens (observed ++ [o]) =
      if o.fresh then freshTokens observed ++ [(o.attempt.now, o.attempt.sessionId)]
      else freshTokens observed := by
  unfold freshTokens
  rw [List.filter_append, List.filter_singleton]
  cases o.fresh <;> simp

theorem mem_freshTokens {observed : List Observation} {e : Nat × SessionId} :
    e ∈ freshTokens observed ↔
      ∃ o ∈ observed, o.fresh = true ∧ (o.attempt.now, o.attempt.sessionId) = e := by
  simp [freshTokens, and_assoc]

/-- The run invariant: the guard remembers what it reported, and every observation was
answered from those before it. -/
theorem observations_answered (profile : Profile) {attempts : List Attempt}
    (hclock : attempts.Pairwise fun a b => a.now ≤ b.now) :
    History (Answers profile) (observations profile attempts) ∧
      (∀ o ∈ observations profile attempts, o.attempt ∈ attempts) ∧
      ∃ now, (∀ t, (∀ a ∈ attempts, a.now ≤ t) → now ≤ t) ∧
        Remembers retention now (freshTokens (observations profile attempts))
          (trace (connect profile) (.new retention) attempts).1 := by
  induction attempts using List.reverseRecOn with
  | nil => exact ⟨.nil, by simp [observations, trace], 0, fun _ _ => Nat.zero_le _,
      remembers_new (by decide)⟩
  | append_singleton attempts a ih =>
    obtain ⟨hpre, -, hle⟩ := List.pairwise_append.mp hclock
    obtain ⟨hhistory, hmem, now, hbound, hguard⟩ := ih hpre
    have hle : ∀ b ∈ attempts, b.now ≤ a.now := fun b hb => hle b hb a (List.mem_singleton_self a)
    have hnow := hbound a.now hle
    unfold observations
    rw [trace_snoc, filterMap_snoc]
    change History (Answers profile) (observations profile attempts ++ _) ∧
      (∀ o ∈ observations profile attempts ++ _, _) ∧
      ∃ now, _ ∧ Remembers retention now (freshTokens (observations profile attempts ++ _)) _
    generalize observations profile attempts = observed at hhistory hmem hguard ⊢
    generalize (trace (connect profile) (.new retention) attempts).1 = g at hguard ⊢
    have hbound' : ∀ t, (∀ b ∈ attempts ++ [a], b.now ≤ t) → a.now ≤ t := fun t ht =>
      ht a (by simp)
    unfold connect
    cases hauth : authenticateReality profile a with
    | none =>
      refine ⟨by simpa using hhistory, fun o ho => ?_, now, fun t ht => ?_, by simpa using hguard⟩
      · exact List.mem_append_left _ (hmem o (by simpa using ho))
      · exact hbound t fun b hb => ht b (List.mem_append_left _ hb)
    | some sid =>
      obtain ⟨rfl, hwindow⟩ := window_of_authenticated hauth
      obtain ⟨g', answer, hobserve, hfresh, hguard'⟩ := hguard.observeAt hnow a.sessionId
      dsimp only
      rw [hobserve]
      dsimp only [id, Option.toList]
      refine ⟨hhistory.snoc ⟨hwindow, fun p hp => hle _ (hmem p hp), hfresh⟩,
        forall_mem_snoc.mpr ⟨fun o ho => List.mem_append_left _ (hmem o ho), by simp⟩, a.now,
        hbound', ?_⟩
      rw [freshTokens_snoc]
      exact hguard'

section Tokens

variable {profile : Profile} {observed : List Observation} {sid : SessionId}

theorem freshTokens_apart (h : History (Answers profile) observed) :
    (freshTokens observed).Pairwise fun a b => a.2 = b.2 → a.1 + retention ≤ b.1 := by
  induction h with
  | nil => exact .nil
  | @snoc observed o _ ho ih =>
    rw [freshTokens_snoc]
    split
    · next hfresh =>
      refine List.pairwise_append.mpr ⟨ih, List.pairwise_singleton _ _, fun e he e' he' heq => ?_⟩
      obtain rfl := List.mem_singleton.mp he'
      exact ho.fresh_iff.mp hfresh e he heq
    · exact ih

theorem exists_freshToken (h : History (Answers profile) observed) {p : Observation}
    (hp : p ∈ observed) :
    ∃ e ∈ freshTokens observed, e.2 = p.attempt.sessionId ∧ e.1 ≤ p.attempt.now := by
  obtain ⟨before, after, rfl⟩ := List.mem_iff_append.mp hp
  obtain ⟨-, hanswer⟩ := h.at_split rfl
  cases hfresh : p.fresh with
  | true => exact ⟨_, mem_freshTokens.mpr ⟨p, hp, hfresh, rfl⟩, rfl, Nat.le_refl _⟩
  | false =>
    have hnot : ¬ ∀ e ∈ freshTokens before, e.2 = p.attempt.sessionId →
        e.1 + retention ≤ p.attempt.now := fun hall => by
      rw [hanswer.fresh_iff.mpr hall] at hfresh
      cases hfresh
    push Not at hnot
    obtain ⟨e, he, heq, -⟩ := hnot
    obtain ⟨o, ho, hof, rfl⟩ := mem_freshTokens.mp he
    exact ⟨_, mem_freshTokens.mpr ⟨o, List.mem_append_left _ ho, hof, rfl⟩, heq,
      hanswer.later o ho⟩

/-- No two accepted attempts of a token are the retention apart. -/
def WithinRetention (sid : SessionId) (observed : List Observation) : Prop :=
  observed.Pairwise fun a b => a.attempt.sessionId = sid → b.attempt.sessionId = sid →
    b.attempt.now - a.attempt.now < retention

theorem timesFresh_eq (sid : SessionId) (observed : List Observation) :
    timesFresh sid observed = ((freshTokens observed).filter (·.2 == sid)).length := by
  unfold timesFresh freshTokens
  rw [List.filter_map, List.length_map, List.filter_filter, List.countP_eq_length_filter]
  congr 1
  exact List.filter_congr fun o _ => Bool.and_comm _ _

theorem timesFresh_le_one (h : History (Answers profile) observed)
    (hwithin : WithinRetention sid observed) : timesFresh sid observed ≤ 1 := by
  have hapart := (freshTokens_apart h).filter (·.2 == sid)
  have hnear : ((freshTokens observed).filter (·.2 == sid)).Pairwise
      fun a b => b.1 - a.1 < retention := by
    refine List.pairwise_filter.mpr (List.pairwise_map.mpr (hwithin.filter _ |>.imp ?_))
    intro a b hab ha hb
    exact hab (beq_iff_eq.mp ha) (beq_iff_eq.mp hb)
  rw [timesFresh_eq]
  cases hl : (freshTokens observed).filter (·.2 == sid) with
  | nil => simp
  | cons a rest =>
    cases rest with
    | nil => simp
    | cons b rest =>
      have hids : ∀ e ∈ a :: b :: rest, e.2 = sid := fun e he => by
        rw [← hl] at he
        exact beq_iff_eq.mp (List.mem_filter.mp he).2
      rw [hl] at hapart hnear
      have h1 := List.rel_of_pairwise_cons hapart List.mem_cons_self
        ((hids a (by simp)).trans (hids b (by simp)).symm)
      have h2 := List.rel_of_pairwise_cons hnear List.mem_cons_self
      omega

theorem withinRetention_of_timesFresh (h : History (Answers profile) observed)
    (hone : timesFresh sid observed ≤ 1) : WithinRetention sid observed := by
  induction h with
  | nil => exact .nil
  | @snoc observed o hhistory ho ih =>
    have hsum : timesFresh sid (observed ++ [o]) = timesFresh sid observed + timesFresh sid [o] :=
      List.countP_append
    refine List.pairwise_append.mpr ⟨ih (by omega), List.pairwise_singleton _ _, ?_⟩
    rintro p hp o' ho' hsid hsid'
    obtain rfl := List.mem_singleton.mp ho'
    by_contra hfar
    -- the first sighting was fresh, and expired; the last one is fresh, or hides a second one
    obtain ⟨e, he, heid, hetime⟩ := exists_freshToken hhistory hp
    have hlen := timesFresh_eq sid observed
    have hein : e ∈ (freshTokens observed).filter (·.2 == sid) :=
      List.mem_filter.mpr ⟨he, beq_iff_eq.mpr (heid.trans hsid)⟩
    have hpos := List.length_pos_of_mem hein
    have hold : ¬ o'.fresh = true := fun hfresh => by
      have : timesFresh sid [o'] = 1 := by simp [timesFresh, hfresh, hsid']
      omega
    rw [ho.fresh_iff] at hold
    push Not at hold
    obtain ⟨f, hf, hfid, hftime⟩ := hold
    have hfin : f ∈ (freshTokens observed).filter (·.2 == sid) :=
      List.mem_filter.mpr ⟨hf, beq_iff_eq.mpr (hfid.trans hsid')⟩
    obtain ⟨x, hx⟩ := List.length_eq_one_iff.mp
      (show ((freshTokens observed).filter (·.2 == sid)).length = 1 by omega)
    rw [hx, List.mem_singleton] at hein hfin
    subst hein hfin
    have := ho.later p hp
    omega

end Tokens

/-! ## One clock, two windows -/

/-- Whole seconds cannot fall behind by more than the time that has passed. -/
theorem nowUnix_gap (profile : Profile) {secs now now' : Nat} (h : fromSecs secs ≤ now' - now)
    (hpos : 0 < secs) : nowUnix profile now + secs ≤ nowUnix profile now' := by
  unfold nowUnix fromSecs at *
  omega

theorem ends_of_window {profile : Profile} {a b : Attempt} {ts : Nat}
    (ha : absDiff (nowUnix profile a.now) ts ≤ realityWindowSecs)
    (hb : absDiff (nowUnix profile b.now) ts ≤ realityWindowSecs)
    (hfar : retention ≤ b.now - a.now) :
    nowUnix profile a.now + realityWindowSecs = ts ∧
      nowUnix profile b.now = ts + realityWindowSecs := by
  have hgap := nowUnix_gap profile hfar (by decide)
  unfold absDiff at ha hb
  omega

/-- **When a token unmasks the server once.** Over every run of a profile: a token is
reported fresh at most once exactly if none of its accepted attempts comes the retention or
more after another one; a token that the guard was never given before is fresh; and two
accepted attempts with one token time are that far apart only if the first came in the first
second of the window and the second in the last one. -/
theorem fresh_once_iff (profile : Profile) (attempts : List Attempt)
    (hclock : attempts.Pairwise fun a b => a.now ≤ b.now) :
    (∀ sid, timesFresh sid (observations profile attempts) ≤ 1 ↔
      WithinRetention sid (observations profile attempts)) ∧
    (∀ before o after, observations profile attempts = before ++ o :: after →
      (∀ p ∈ before, p.attempt.sessionId ≠ o.attempt.sessionId) → o.fresh = true) ∧
    ∀ a ∈ observations profile attempts, ∀ b ∈ observations profile attempts, ∀ ts,
      tokenTimeOf profile a.attempt = some ts → tokenTimeOf profile b.attempt = some ts →
      retention ≤ b.attempt.now - a.attempt.now →
      nowUnix profile a.attempt.now + realityWindowSecs = ts ∧
        nowUnix profile b.attempt.now = ts + realityWindowSecs := by
  obtain ⟨hhistory, -, -⟩ := observations_answered profile hclock
  refine ⟨fun sid => ⟨withinRetention_of_timesFresh hhistory, timesFresh_le_one hhistory⟩, ?_, ?_⟩
  · intro before o after hsplit hnew
    obtain ⟨-, hanswer⟩ := hhistory.at_split hsplit
    refine hanswer.fresh_iff.mpr fun e he heq => ?_
    obtain ⟨p, hp, -, rfl⟩ := mem_freshTokens.mp he
    exact absurd heq (hnew p hp)
  · intro a ha b hb ts hats hbts hfar
    have hwindow : ∀ o ∈ observations profile attempts, tokenTimeOf profile o.attempt = some ts →
        absDiff (nowUnix profile o.attempt.now) ts ≤ realityWindowSecs := fun o ho hts => by
      obtain ⟨before, after, hsplit⟩ := List.mem_iff_append.mp ho
      exact (hhistory.at_split hsplit).2.window ts hts
    exact ends_of_window (hwindow a ha hats) (hwindow b hb hbts) hfar

/-- A client whose clock is two minutes ahead of the server's. -/
def aheadProfile : Profile where
  decrypt := fun _ _ => some (List.replicate 8 1 ++ leBytes 8 1120)
  shortIds := [List.replicate 8 1]
  epoch := fromSecs 1000

def aheadAttempt (now : Nat) : Attempt where
  now
  ephPub := .replicate 32 9
  sessionId := .replicate 32 7

/-- The token is accepted at once and, four minutes later to the nanosecond, again. -/
theorem replayed_token_unmasks_again :
    timesFresh (.replicate 32 7)
      (observations aheadProfile [aheadAttempt 0, aheadAttempt (fromSecs 240)]) = 2 := by
  decide +kernel

theorem fresh_once_iff_ahead :
    timesFresh (.replicate 32 7) (observations aheadProfile
      [aheadAttempt 0, aheadAttempt 5, aheadAttempt (fromSecs 240 - 1)]) ≤ 1 := by
  have hobserved : (observations aheadProfile
      [aheadAttempt 0, aheadAttempt 5, aheadAttempt (fromSecs 240 - 1)]).map (·.attempt.now) =
        [0, 5, fromSecs 240 - 1] := by decide +kernel
  refine ((fresh_once_iff aheadProfile
    [aheadAttempt 0, aheadAttempt 5, aheadAttempt (fromSecs 240 - 1)]
    (by decide)).1 _).mpr ?_
  have hnear : ((observations aheadProfile
      [aheadAttempt 0, aheadAttempt 5, aheadAttempt (fromSecs 240 - 1)]).map
        (·.attempt.now)).Pairwise fun a b => b - a < retention := by
    rw [hobserved]
    decide
  exact (List.pairwise_map.mp hnear).imp fun hab _ _ => hab

end Qeli.Reality
