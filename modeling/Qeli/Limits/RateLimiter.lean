import Qeli.Lib.KeyMap
import Qeli.Lib.Run

/-!
# The connection rate limiter

`RateLimiter` of `server/mod.rs`: for each address the times of the attempts it granted. Old times
are dropped from the front when the address comes again, and from all addresses at irregular
moments; neither changes an answer, which depends on the times inside the window only
(`rate_limiter_exact`). Under a flood the whole table is dropped, which bounds it. Addresses are
keys and nothing else, so their type is a parameter. Times are nanoseconds.
-/

namespace Qeli.Limits

open Qeli.Lib

def second : Nat := 1000000000

def maxTrackedIps : Nat := 100000

structure RateLimiter (ι : Type) [DecidableEq ι] where
  attempts : KeyMap ι (List Nat)
  maxAttempts : Nat
  window : Nat
  lastCleanup : Nat
  cleanupInterval : Nat

namespace RateLimiter

variable {ι : Type} [DecidableEq ι]

def new (maxAttempts windowSecs now : Nat) : RateLimiter ι where
  attempts := ∅
  maxAttempts
  window := windowSecs * second
  lastCleanup := now
  cleanupInterval := 300 * second

def counts (window now t : Nat) : Bool := now - t ≤ window

def cleanup (self : RateLimiter ι) (now : Nat) : RateLimiter ι :=
  { self with
    attempts := (self.attempts.mapValues (List.filter (counts self.window now))).retain
      fun _ timestamps => !timestamps.isEmpty }

/-- The table is still too large after a cleanup that is due. -/
def drops (self : RateLimiter ι) (now : Nat) : Bool :=
  (self.cleanupInterval < now - self.lastCleanup || maxTrackedIps < self.attempts.size) &&
    maxTrackedIps < (self.cleanup now).attempts.size

/-- The part of `check_and_record` before it looks at the address. -/
def tidy (self : RateLimiter ι) (now : Nat) : RateLimiter ι :=
  if self.cleanupInterval < now - self.lastCleanup ∨ maxTrackedIps < self.attempts.size then
    let swept := self.cleanup now
    { swept with
      attempts := if maxTrackedIps < swept.attempts.size then ∅ else swept.attempts
      lastCleanup := now }
  else self

def checkAndRecord (self : RateLimiter ι) (now : Nat) (ip : ι) : Bool × RateLimiter ι :=
  let self := self.tidy now
  let entry := ((self.attempts.get? ip).getD []).dropWhile fun t => !counts self.window now t
  if self.maxAttempts ≤ entry.length then
    (false, { self with attempts := self.attempts.insert ip entry })
  else (true, { self with attempts := self.attempts.insert ip (entry ++ [now]) })

/-! ## Runs -/

structure Call (ι : Type) where
  now : Nat
  ip : ι
  granted : Bool
  dropped : Bool

structure Step (limiter : RateLimiter ι) (c : Call ι) (next : RateLimiter ι) : Prop where
  granted : c.granted = (limiter.checkAndRecord c.now c.ip).1
  dropped : c.dropped = limiter.drops c.now
  next : next = (limiter.checkAndRecord c.now c.ip).2

def grantedTimes (calls : List (Call ι)) (ip : ι) : List Nat :=
  (calls.filter fun c => c.ip = ip ∧ c.granted).map (·.now)

def times (self : RateLimiter ι) (ip : ι) : List Nat := (self.attempts.get? ip).getD []

variable {self next : RateLimiter ι} {calls : List (Call ι)} {c : Call ι} {now clock : Nat} {ip : ι}

theorem counts_mono {window a b : Nat} (hle : a ≤ b) {t : Nat} (h : counts window b t = true) :
    counts window a t = true := by
  rw [counts, decide_eq_true_eq] at h ⊢
  omega

/-- What counts later counts now, so dropping the rest now changes nothing later. -/
theorem filter_counts {window a b : Nat} (hle : a ≤ b) (l : List Nat) :
    (l.filter (counts window a)).filter (counts window b) = l.filter (counts window b) := by
  rw [List.filter_filter]
  refine List.filter_congr fun t _ => ?_
  cases hb : counts window b t with
  | false => rfl
  | true => rw [counts_mono hle hb]; rfl

/-- In a queue in order of time, the times to drop come first. -/
theorem dropWhile_counts {window : Nat} {l : List Nat} (h : l.Pairwise (· ≤ ·)) :
    l.dropWhile (fun t => !counts window now t) = l.filter (counts window now) := by
  induction l with
  | nil => rfl
  | cons t l ih =>
    obtain ⟨hle, hrest⟩ := List.pairwise_cons.mp h
    cases ht : counts window now t with
    | false => rw [List.dropWhile_cons, List.filter_cons, ht]; exact ih hrest
    | true =>
      have hall : ∀ x ∈ l, counts window now x = true := fun x hx => by
        have := hle x hx
        rw [counts, decide_eq_true_eq] at ht ⊢
        omega
      rw [List.dropWhile_cons, List.filter_cons, ht, List.filter_eq_self.mpr hall]
      rfl

theorem times_cleanup :
    (self.cleanup now).times ip = (self.times ip).filter (counts self.window now) := by
  simp only [times, cleanup, KeyMap.get?_retain, KeyMap.get?_mapValues]
  cases self.attempts.get? ip with
  | none => rfl
  | some l =>
    simp only [Option.map_some, Option.getD_some]
    cases l.filter (counts self.window now) <;> rfl

theorem times_tidy (ip : ι) (h : self.drops now = false) :
    (self.tidy now).times ip = self.times ip ∨
      (self.tidy now).times ip = (self.times ip).filter (counts self.window now) := by
  unfold tidy
  split
  · rename_i hdue
    have hkept : ¬ maxTrackedIps < (self.cleanup now).attempts.size := by
      simpa [drops, hdue] using h
    refine .inr ?_
    simp only [if_neg hkept]
    exact times_cleanup
  · exact .inl rfl

@[simp] theorem tidy_maxAttempts : (self.tidy now).maxAttempts = self.maxAttempts := by
  unfold tidy
  split <;> rfl

@[simp] theorem tidy_window : (self.tidy now).window = self.window := by
  unfold tidy
  split <;> rfl

theorem checkAndRecord_times (hsorted : ((self.tidy now).times ip).Pairwise (· ≤ ·)) (a : ι) :
    let recent := ((self.tidy now).times ip).filter (counts self.window now)
    let call := self.checkAndRecord now ip
    (call.1 = true ↔ recent.length < self.maxAttempts) ∧
      call.2.times a = if a = ip then (if call.1 then recent ++ [now] else recent)
        else (self.tidy now).times a := by
  have hentry : (((self.tidy now).attempts.get? ip).getD []).dropWhile
      (fun t => !counts (self.tidy now).window now t) =
        ((self.tidy now).times ip).filter (counts self.window now) := by
    rw [tidy_window]
    exact dropWhile_counts hsorted
  simp only [checkAndRecord, hentry, tidy_maxAttempts]
  split
  · refine ⟨by simp; omega, ?_⟩
    simp only [times, KeyMap.get?_insert]
    split <;> rfl
  · refine ⟨by simp; omega, ?_⟩
    simp only [times, KeyMap.get?_insert]
    split <;> rfl

/-! ## The exact window -/

/-- The queues agree with the granted attempts, as far as these still count. -/
structure Tracks (start : RateLimiter ι) (calls : List (Call ι)) (limiter : RateLimiter ι) : Prop where
  limits : limiter.maxAttempts = start.maxAttempts ∧ limiter.window = start.window
  sub : ∀ ip, (limiter.times ip).Sublist (grantedTimes calls ip)
  recent : ∀ ip clock, (∀ c ∈ calls, c.now ≤ clock) →
    (limiter.times ip).filter (counts start.window clock) =
      (grantedTimes calls ip).filter (counts start.window clock)

variable {start : RateLimiter ι}

theorem grantedTimes_snoc : grantedTimes (calls ++ [c]) ip =
    grantedTimes calls ip ++ if c.ip = ip ∧ c.granted then [c.now] else [] := by
  unfold grantedTimes
  rw [List.filter_append, List.map_append]
  congr 1
  by_cases h : c.ip = ip ∧ c.granted
  · simp [h]
  · rw [if_neg h, List.filter_cons, if_neg (by simpa using h)]
    rfl

theorem Tracks.tidied (h : Tracks start calls self) (hdrops : self.drops now = false) (ip : ι) :
    ((self.tidy now).times ip).Sublist (self.times ip) ∧
      ∀ clock, now ≤ clock → ((self.tidy now).times ip).filter (counts start.window clock) =
        (self.times ip).filter (counts start.window clock) := by
  obtain heq | heq := times_tidy ip hdrops
  · rw [heq]
    exact ⟨.refl _, fun _ _ => rfl⟩
  · rw [heq, h.limits.2]
    exact ⟨List.filter_sublist, fun clock hclock => filter_counts hclock _⟩

def Ordered (calls : List (Call ι)) : Prop := calls.Pairwise fun a b => a.now ≤ b.now

theorem Ordered.grantedTimes (h : Ordered calls) (ip : ι) :
    (grantedTimes calls ip).Pairwise (· ≤ ·) :=
  List.pairwise_map.mpr (h.sublist List.filter_sublist)

theorem Tracks.step (h : Tracks start calls self) (hstep : Step self c next)
    (htimes : Ordered (calls ++ [c])) (hdropped : c.dropped = false) :
    (c.granted = true ↔
        ((grantedTimes calls c.ip).filter (counts start.window c.now)).length < start.maxAttempts) ∧
      Tracks start (calls ++ [c]) next := by
  obtain ⟨hgranted, hdrops, rfl⟩ := hstep
  obtain ⟨hbefore, -, hnow⟩ := List.pairwise_append.mp htimes
  replace hnow : ∀ b ∈ calls, b.now ≤ c.now := fun b hb => hnow b hb c (List.mem_singleton_self c)
  have hkept := h.tidied (hdrops.symm.trans hdropped)
  have hsub := fun ip => (hkept ip).1.trans (h.sub ip)
  have hcall := checkAndRecord_times ((Ordered.grantedTimes hbefore c.ip).sublist (hsub c.ip))
  simp only [← hgranted, h.limits.1, h.limits.2] at hcall
  -- what the queue of the caller is cut to are the granted attempts that count now
  rw [((hkept c.ip).2 _ le_rfl).trans (h.recent c.ip c.now hnow)] at hcall
  refine ⟨(hcall c.ip).1, ?_, fun ip => ?_, fun ip clock hclock => ?_⟩
  · simp only [checkAndRecord]
    split <;> simpa using h.limits
  · rw [(hcall ip).2, grantedTimes_snoc]
    by_cases hip : ip = c.ip
    · subst hip
      cases c.granted
      · simp
      · simp
    · simpa [hip, Ne.symm hip] using hsub ip
  · obtain ⟨hcalls, hlast⟩ := forall_mem_snoc.mp hclock
    rw [(hcall ip).2, grantedTimes_snoc]
    by_cases hip : ip = c.ip
    · subst hip
      cases c.granted
      · simpa using filter_counts hlast _
      · simpa using filter_counts hlast _
    · simpa [hip, Ne.symm hip] using ((hkept ip).2 clock hlast).trans (h.recent ip clock hcalls)

theorem tracks_new (maxAttempts windowSecs now : Nat) :
    Tracks (new maxAttempts windowSecs now : RateLimiter ι) [] (new maxAttempts windowSecs now) :=
  ⟨⟨rfl, rfl⟩, fun _ => .refl _, fun _ _ _ => rfl⟩

theorem Tracks.run (h : Run Step start calls self) (h0 : Tracks start [] start)
    (htimes : Ordered calls) (hdropped : ∀ c ∈ calls, c.dropped = false) :
    Tracks start calls self := by
  induction h with
  | nil => exact h0
  | snoc hrun hstep ih =>
    obtain ⟨hbefore, hlast⟩ := forall_mem_snoc.mp hdropped
    have hprev := ih (List.pairwise_append.mp htimes).1 hbefore
    exact (hprev.step hstep htimes hlast).2

/-! ## The bound -/

theorem size_tidy (self : RateLimiter ι) (now : Nat) :
    (self.tidy now).attempts.size ≤ maxTrackedIps := by
  unfold tidy
  split
  · dsimp only
    split
    · exact Nat.zero_le _
    · omega
  · omega

theorem size_checkAndRecord (self : RateLimiter ι) (now : Nat) (ip : ι) :
    (self.checkAndRecord now ip).2.attempts.size ≤ maxTrackedIps + 1 := by
  have htidy := size_tidy self now
  have hinsert : ∀ l, ((self.tidy now).attempts.insert ip l).size ≤ maxTrackedIps + 1 := by
    intro l
    cases hget : (self.tidy now).attempts.get? ip with
    | none => rw [KeyMap.size_insert_of_none hget]; omega
    | some old => rw [KeyMap.size_insert_of_some hget]; omega
  simp only [checkAndRecord]
  split
  · exact hinsert _
  · exact hinsert _

theorem size_run (h : Run Step start calls self) (h0 : start.attempts.size ≤ maxTrackedIps + 1) :
    self.attempts.size ≤ maxTrackedIps + 1 := by
  refine h.preserves (P := fun limiter => limiter.attempts.size ≤ maxTrackedIps + 1) h0
    fun _ hstep => ?_
  rw [hstep.next]
  exact size_checkAndRecord ..

/-- What the calls of a run have been answered, and how many addresses are held. -/
structure LimiterLaw (maxAttempts window : Nat) (calls : List (Call ι)) (limiter : RateLimiter ι) :
    Prop where
  bounded : limiter.attempts.size ≤ maxTrackedIps + 1
  exact_window : Ordered calls → (∀ c ∈ calls, c.dropped = false) →
    ∀ before c after, calls = before ++ c :: after →
      (c.granted = true ↔ (before.filter fun b => b.ip = c.ip ∧ b.granted ∧
        c.now - b.now ≤ window).length < maxAttempts)

/-- **The rate limiter is an exact sliding window**, as long as its table is not dropped, and the
table is bounded. -/
theorem rate_limiter_exact {maxAttempts windowSecs now : Nat}
    (h : Run Step (new maxAttempts windowSecs now) calls self) :
    LimiterLaw maxAttempts (windowSecs * second) calls self where
  bounded := size_run h (Nat.zero_le _)
  exact_window htimes hdropped := by
    rintro before c after rfl
    obtain ⟨limiter, next, hbefore, hstep, -⟩ := h.step_at
    rw [← List.singleton_append, ← List.append_assoc] at htimes hdropped
    obtain ⟨hpast, hlast⟩ := forall_mem_snoc.mp (List.forall_mem_append.mp hdropped).1
    have hordered := (List.pairwise_append.mp htimes).1
    have htracks := Tracks.run hbefore (tracks_new ..) (List.pairwise_append.mp hordered).1 hpast
    rw [(htracks.step hstep hordered hlast).1, grantedTimes, List.filter_map, List.length_map,
      List.filter_filter]
    have hsame : (fun b : Call ι => (counts (windowSecs * second) c.now ∘ (·.now)) b &&
        decide (b.ip = c.ip ∧ b.granted = true)) =
        fun b => decide (b.ip = c.ip ∧ b.granted = true ∧ c.now - b.now ≤ windowSecs * second) := by
      funext b
      simp only [Function.comp, counts, ← Bool.decide_and]
      exact decide_eq_decide.mpr ⟨fun h => ⟨h.2.1, h.2.2, h.1⟩, fun h => ⟨h.2.2, h.1, h.2.1⟩⟩
    rw [← hsame]
    rfl

theorem rate_limiter_exact_one : LimiterLaw 1 (60 * second)
    [⟨5, 7, true, false⟩, ⟨6, 7, false, false⟩, ⟨6, 8, true, false⟩]
    ((((new 1 60 0 : RateLimiter Nat).checkAndRecord 5 7).2.checkAndRecord 6 7).2.checkAndRecord
      6 8).2 :=
  rate_limiter_exact (Run.nil.snoc ⟨by decide +kernel, by decide +kernel, rfl⟩ |>.snoc
    ⟨by decide +kernel, by decide +kernel, rfl⟩ |>.snoc ⟨by decide +kernel, by decide +kernel, rfl⟩)

end RateLimiter

end Qeli.Limits
