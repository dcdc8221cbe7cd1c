import Qeli.Limits.RateLimiter

/-!
# The brute-force lockout

`FailedAuthTracker` of `server/mod.rs`. An address is locked for a while after a failure that fills
its window; a user name is never locked, only slowed down. Failures and lockouts expire at different
times and are dropped in three places: when the key comes again, by `cleanup`, and by hand. None of
it can be seen in an answer: an address is locked exactly if one of its failures since the last
unblocking was the last of enough failures in a window and is not a lockout ago (`lockout_exact`).
User names are their bytes, addresses a type with decidable equality; times are nanoseconds.
-/

namespace Qeli.Limits

open Qeli.Lib

structure FailedAuthTracker (ι : Type) [DecidableEq ι] where
  enabled : Bool
  byUser : KeyMap (List UInt8) (List Nat)
  /-- The failures of an address and the end of its lockout. -/
  byIp : KeyMap ι (List Nat × Option Nat)
  maxAttempts : Nat
  window : Nat
  lockout : Nat
  tarpitBase : Nat
  tarpitMax : Nat
  lastCleanup : Nat
  cleanupInterval : Nat

/-- `MAX_TRACKED_USERNAME_LEN`. -/
def maxTrackedUsernameLen : Nat := 64

/-- `MAX_BRUTE_FORCE_SECS`. -/
def maxBruteForceSecs : Nat := 30 * 24 * 3600

namespace FailedAuthTracker

variable {ι : Type} [DecidableEq ι]

def new (enabled : Bool) (maxAttempts windowSecs lockoutSecs now : Nat) : FailedAuthTracker ι where
  enabled
  byUser := ∅
  byIp := ∅
  maxAttempts
  window := min windowSecs maxBruteForceSecs * second
  lockout := min lockoutSecs maxBruteForceSecs * second
  tarpitBase := 200 * 1000000
  tarpitMax := 3 * second
  lastCleanup := now
  cleanupInterval := 300 * second

def recent (window now t : Nat) : Bool := now - t < window

def cleanup (self : FailedAuthTracker ι) (now : Nat) : FailedAuthTracker ι :=
  if now - self.lastCleanup ≤ self.cleanupInterval then self
  else
    { self with
      lastCleanup := now
      byUser := (self.byUser.mapValues (List.filter (recent self.window now))).retain
        fun _ failures => !failures.isEmpty
      byIp := (self.byIp.mapValues fun entry =>
          (entry.1.filter (recent self.window now), entry.2)).retain
        fun _ entry => !entry.1.isEmpty || entry.2.any (now < ·) }

def lockedMessage (secs : Nat) : String :=
  "source IP locked for " ++ toString secs ++ "s after too many failed attempts"

def checkIp (self : FailedAuthTracker ι) (now : Nat) (ip : ι) : Except String Unit :=
  if self.enabled = false then .ok ()
  else
    match self.byIp.get? ip with
    | none => .ok ()
    | some (_, none) => .ok ()
    | some (_, some locked) =>
      if now < locked then .error (lockedMessage ((locked - now) / second)) else .ok ()

/-- The delay after so many recent failures. -/
def tarpit (self : FailedAuthTracker ι) (count : Nat) : Nat :=
  if count < self.maxAttempts then 0
  else
    let excess := min (count - self.maxAttempts + 1) 16
    min (self.tarpitBase * 2 ^ excess) self.tarpitMax

def userFailures (self : FailedAuthTracker ι) (username : List UInt8) : List Nat :=
  (self.byUser.get? username).getD []

/-- `user_tarpit`; the count is a `u32`. -/
def userTarpit (self : FailedAuthTracker ι) (now : Nat) (username : List UInt8) : Nat :=
  if self.enabled = false then 0
  else self.tarpit (((self.userFailures username).filter (recent self.window now)).length % 2 ^ 32)

def recordIpFailure (self : FailedAuthTracker ι) (now : Nat) (ip : ι) :
    Bool × FailedAuthTracker ι :=
  if self.enabled = false then (false, self)
  else
    let self := self.cleanup now
    let entry := (self.byIp.get? ip).getD ([], none)
    let failures := entry.1.filter (recent self.window now) ++ [now]
    if self.maxAttempts ≤ failures.length then
      (true, { self with byIp := self.byIp.insert ip (failures, some (now + self.lockout)) })
    else (false, { self with byIp := self.byIp.insert ip (failures, entry.2) })

/-- The part of `record_failure` that concerns the user name. -/
def recordUserFailure (self : FailedAuthTracker ι) (now : Nat) (username : List UInt8) :
    FailedAuthTracker ι :=
  if username.length ≤ maxTrackedUsernameLen then
    { self with
      byUser := self.byUser.insert username
        ((self.userFailures username).filter (recent self.window now) ++ [now]) }
  else self

def recordFailure (self : FailedAuthTracker ι) (now : Nat) (username : List UInt8) (ip : ι) :
    Bool × FailedAuthTracker ι :=
  if self.enabled = false then (false, self)
  else (self.recordUserFailure now username).recordIpFailure now ip

def recordSuccess (self : FailedAuthTracker ι) (username : List UInt8) : FailedAuthTracker ι :=
  { self with byUser := self.byUser.erase username }

def unblockIp (self : FailedAuthTracker ι) (ip : ι) : Bool × FailedAuthTracker ι :=
  (self.byIp.contains ip, { self with byIp := self.byIp.erase ip })

def clearAllIps (self : FailedAuthTracker ι) : Nat × FailedAuthTracker ι :=
  (self.byIp.size, { self with byIp := ∅ })

/-! ## What an answer depends on -/

def ipFailures (self : FailedAuthTracker ι) (ip : ι) : List Nat :=
  (self.byIp.get? ip).elim [] (·.1)

/-- The end of the lockout of an address, if it is locked. -/
def lock (self : FailedAuthTracker ι) (now : Nat) (ip : ι) : Option Nat :=
  ((self.byIp.get? ip).bind (·.2)).filter (now < ·)

variable {self next : FailedAuthTracker ι} {now clock : Nat} {ip a : ι} {username : List UInt8}

theorem checkIp_eq (henabled : self.enabled = true) : self.checkIp now ip =
    (self.lock now ip).elim (.ok ()) fun locked => .error (lockedMessage ((locked - now) / second)) := by
  simp only [checkIp, lock, henabled, Bool.true_eq_false, if_false]
  obtain _ | ⟨failures, _ | locked⟩ := self.byIp.get? ip
  · rfl
  · rfl
  · by_cases hlt : now < locked
    · simp [Option.filter, hlt]
    · simp [Option.filter, hlt]

theorem checkIp_error (henabled : self.enabled = true) :
    self.checkIp now ip ≠ .ok () ↔ (self.lock now ip).isSome = true := by
  rw [checkIp_eq henabled]
  cases self.lock now ip <;> simp

structure SameSettings (t u : FailedAuthTracker ι) : Prop where
  enabled : u.enabled = t.enabled
  maxAttempts : u.maxAttempts = t.maxAttempts
  window : u.window = t.window
  lockout : u.lockout = t.lockout
  tarpit : u.tarpitBase = t.tarpitBase ∧ u.tarpitMax = t.tarpitMax

theorem SameSettings.refl (t : FailedAuthTracker ι) : SameSettings t t :=
  ⟨rfl, rfl, rfl, rfl, rfl, rfl⟩

theorem SameSettings.trans {t u v : FailedAuthTracker ι} (h : SameSettings t u)
    (h' : SameSettings u v) : SameSettings t v :=
  ⟨h'.enabled.trans h.enabled, h'.maxAttempts.trans h.maxAttempts, h'.window.trans h.window,
    h'.lockout.trans h.lockout, h'.tarpit.1.trans h.tarpit.1, h'.tarpit.2.trans h.tarpit.2⟩

theorem filter_recent {window : Nat} (hle : now ≤ clock) (l : List Nat) :
    (l.filter (recent window now)).filter (recent window clock) = l.filter (recent window clock) := by
  rw [List.filter_filter]
  refine List.filter_congr fun t _ => ?_
  simp only [recent, Bool.and_eq_left_iff_imp, decide_eq_true_eq]
  omega

/-- Nothing that a later answer depends on differs. -/
structure Unseen (now : Nat) (t u : FailedAuthTracker ι) : Prop where
  settings : SameSettings t u
  lock : ∀ ip clock, now ≤ clock → u.lock clock ip = t.lock clock ip
  ips : ∀ ip clock, now ≤ clock →
    (u.ipFailures ip).filter (recent t.window clock) = (t.ipFailures ip).filter (recent t.window clock)
  users : ∀ name clock, now ≤ clock → (u.userFailures name).filter (recent t.window clock) =
    (t.userFailures name).filter (recent t.window clock)
  absent : ∀ name, t.byUser.get? name = none → u.byUser.get? name = none

/-- **A cleanup is never seen.** -/
theorem cleanup_unseen (self : FailedAuthTracker ι) (now : Nat) :
    Unseen now self (self.cleanup now) := by
  unfold cleanup
  split
  · exact ⟨.refl _, fun _ _ _ => rfl, fun _ _ _ => rfl, fun _ _ _ => rfl, fun _ h => h⟩
  refine ⟨⟨rfl, rfl, rfl, rfl, rfl, rfl⟩, fun ip clock hclock => ?_, fun ip clock hclock => ?_,
    fun name clock hclock => ?_, fun name h => ?_⟩
  · simp only [lock, KeyMap.get?_retain, KeyMap.get?_mapValues]
    obtain _ | ⟨failures, locked⟩ := self.byIp.get? ip
    · rfl
    rw [Option.map_some, Option.filter_some, Option.bind_some]
    split
    · rfl
    · -- an entry that goes is not locked now, and not later
      rename_i hgone
      rw [Bool.or_eq_true, not_or] at hgone
      obtain _ | locked := locked
      · rfl
      have hover : ¬ now < locked := by simpa using hgone.2
      exact (if_neg (by simp; omega)).symm
  · simp only [ipFailures, KeyMap.get?_retain, KeyMap.get?_mapValues]
    obtain _ | ⟨failures, locked⟩ := self.byIp.get? ip
    · rfl
    rw [Option.map_some, Option.filter_some, Option.elim_some, ← filter_recent hclock failures]
    split
    · rfl
    · rename_i hgone
      rw [Bool.or_eq_true, not_or] at hgone
      rw [show failures.filter (recent self.window now) = [] by simpa using hgone.1]
      rfl
  · simp only [userFailures, KeyMap.get?_retain, KeyMap.get?_mapValues]
    obtain _ | failures := self.byUser.get? name
    · rfl
    simp only [Option.map_some, Option.getD_some]
    rw [← filter_recent hclock failures]
    cases failures.filter (recent self.window now) <;> rfl
  · simp only [KeyMap.get?_retain, KeyMap.get?_mapValues, h]
    rfl

theorem Unseen.checkIp {t u : FailedAuthTracker ι} (h : Unseen now t u) (hclock : now ≤ clock) :
    u.checkIp clock ip = t.checkIp clock ip := by
  cases hon : t.enabled with
  | false => simp [FailedAuthTracker.checkIp, h.settings.enabled, hon]
  | true => rw [checkIp_eq hon, checkIp_eq (h.settings.enabled.trans hon), h.lock ip clock hclock]

theorem Unseen.userTarpit {t u : FailedAuthTracker ι} (h : Unseen now t u) (hclock : now ≤ clock) :
    u.userTarpit clock username = t.userTarpit clock username := by
  simp only [FailedAuthTracker.userTarpit, tarpit, h.settings.enabled, h.settings.window,
    h.settings.maxAttempts, h.settings.tarpit, h.users username clock hclock]

/-- What a failure of `ip` at `now` leaves, the user names apart. -/
structure Failed (now : Nat) (ip : ι) (t u : FailedAuthTracker ι) : Prop where
  settings : SameSettings t u
  others : ∀ a clock, a ≠ ip → now ≤ clock → u.lock clock a = t.lock clock a ∧
    (u.ipFailures a).filter (recent t.window clock) = (t.ipFailures a).filter (recent t.window clock)
  failures : ∀ clock, now ≤ clock → (u.ipFailures ip).filter (recent t.window clock) =
    (t.ipFailures ip ++ [now]).filter (recent t.window clock)
  lock : ∀ clock, now ≤ clock → u.lock clock ip =
    if t.maxAttempts ≤ ((t.ipFailures ip).filter (recent t.window now)).length + 1 then
      (some (now + t.lockout)).filter (clock < ·)
    else t.lock clock ip

theorem recordIpFailure_byUser (henabled : self.enabled = true) (now : Nat) (ip : ι) :
    (self.recordIpFailure now ip).2.byUser = (self.cleanup now).byUser := by
  simp only [recordIpFailure, henabled, Bool.true_eq_false, if_false]
  split <;> rfl

theorem recordIpFailure_failed (henabled : self.enabled = true) (now : Nat) (ip : ι) :
    Failed now ip self (self.recordIpFailure now ip).2 := by
  have hunseen := cleanup_unseen self now
  have hrecent := hunseen.ips ip now le_rfl
  unfold recordIpFailure
  rw [if_neg (by simp [henabled])]
  generalize self.cleanup now = swept at hunseen hrecent ⊢
  have hheld : ((swept.byIp.get? ip).getD ([], none)).1 = swept.ipFailures ip := by
    rw [ipFailures]
    cases swept.byIp.get? ip <;> rfl
  have huntil : ((swept.byIp.get? ip).getD ([], none)).2 = (swept.byIp.get? ip).bind (·.2) := by
    cases swept.byIp.get? ip <;> rfl
  simp only [hheld, huntil, hunseen.settings.window, hunseen.settings.maxAttempts, hrecent,
    List.length_append, List.length_singleton, hunseen.settings.lockout]
  -- both branches write the same failures and differ in the end of the lockout
  suffices h : ∀ locked : Option Nat, (∀ clock, now ≤ clock → locked.filter (clock < ·) =
      if self.maxAttempts ≤ ((self.ipFailures ip).filter (recent self.window now)).length + 1 then
        (some (now + self.lockout)).filter (clock < ·) else self.lock clock ip) →
      Failed now ip self
        { swept with
          byIp := swept.byIp.insert ip
            ((self.ipFailures ip).filter (recent self.window now) ++ [now], locked)
          maxAttempts := self.maxAttempts
          window := self.window
          lockout := self.lockout } by
    split
    · exact h _ fun clock _ => by rw [if_pos ‹_›]
    · exact h _ fun clock hclock => by rw [if_neg ‹_›, ← hunseen.lock ip clock hclock]; rfl
  intro locked hlocked
  refine ⟨⟨hunseen.settings.enabled, rfl, rfl, rfl, hunseen.settings.tarpit⟩, fun a clock ha hclock => ?_,
    fun clock hclock => ?_, fun clock hclock => ?_⟩
  · rw [← hunseen.lock a clock hclock, ← hunseen.ips a clock hclock]
    constructor
    · simp only [lock, KeyMap.get?_insert_ne _ _ ha]
    · simp only [ipFailures, KeyMap.get?_insert_ne _ _ ha]
  · simp only [ipFailures, KeyMap.get?_insert_self, Option.elim_some, List.filter_append]
    rw [filter_recent hclock]
  · rw [← hlocked clock hclock]
    simp only [lock, KeyMap.get?_insert_self, Option.bind_some]

theorem recordUserFailure_enabled (henabled : self.enabled = true) (now : Nat)
    (username : List UInt8) : (self.recordUserFailure now username).enabled = true := by
  unfold recordUserFailure
  split <;> exact henabled

theorem recordFailure_failed (henabled : self.enabled = true) (now : Nat) (username : List UInt8)
    (ip : ι) : Failed now ip self (self.recordFailure now username ip).2 := by
  have hfailed := recordIpFailure_failed (recordUserFailure_enabled henabled now username) now ip
  rw [recordFailure, if_neg (by simp [henabled])]
  unfold recordUserFailure at hfailed ⊢
  split at hfailed
  · -- the addresses do not depend on the user name that was entered
    rw [if_pos ‹_›]
    obtain ⟨⟨henabled, hmax, hwindow, hlockout, htarpit⟩, hothers, hfailures, hlock⟩ := hfailed
    exact ⟨⟨henabled, hmax, hwindow, hlockout, htarpit⟩, hothers, hfailures, hlock⟩
  · rw [if_neg ‹_›]
    exact hfailed

/-! ## Histories -/

inductive Event (ι : Type) where
  | recordFailure (now : Nat) (username : List UInt8) (ip : ι)
  | recordIpFailure (now : Nat) (ip : ι)
  | recordSuccess (username : List UInt8)
  | unblockIp (ip : ι)
  | clearAllIps

namespace Event

def time : Event ι → Option Nat
  | .recordFailure now _ _ => some now
  | .recordIpFailure now _ => some now
  | .recordSuccess _ => none
  | .unblockIp _ => none
  | .clearAllIps => none

/-- The failures of `ip` since it was last unblocked. -/
def ipHistory (ip : ι) (times : List Nat) : Event ι → List Nat
  | .recordFailure now _ a => if a = ip then times ++ [now] else times
  | .recordIpFailure now a => if a = ip then times ++ [now] else times
  | .recordSuccess _ => times
  | .unblockIp a => if a = ip then [] else times
  | .clearAllIps => []

/-- The failures of a user name since its last success. -/
def userHistory (username : List UInt8) (times : List Nat) : Event ι → List Nat
  | .recordFailure now name _ => if name = username then times ++ [now] else times
  | .recordIpFailure _ _ => times
  | .recordSuccess name => if name = username then [] else times
  | .unblockIp _ => times
  | .clearAllIps => times

end Event

def apply (self : FailedAuthTracker ι) : Event ι → FailedAuthTracker ι
  | .recordFailure now username ip => (self.recordFailure now username ip).2
  | .recordIpFailure now ip => (self.recordIpFailure now ip).2
  | .recordSuccess username => self.recordSuccess username
  | .unblockIp ip => (self.unblockIp ip).2
  | .clearAllIps => self.clearAllIps.2

def ipHistory (events : List (Event ι)) (ip : ι) : List Nat := events.foldl (Event.ipHistory ip) []

def userHistory (events : List (Event ι)) (username : List UInt8) : List Nat :=
  events.foldl (Event.userHistory username) []

def Locked (self : FailedAuthTracker ι) (times : List Nat) (clock : Nat) : Prop :=
  ∃ u ∈ times, u ≤ clock ∧ clock < u + self.lockout ∧
    self.maxAttempts ≤ (times.filter fun v => u < v + self.window ∧ v ≤ u).length

theorem length_window {times : List Nat} (hpast : ∀ v ∈ times, v ≤ now) (hwindow : 0 < self.window) :
    ((times ++ [now]).filter fun v => now < v + self.window ∧ v ≤ now).length =
      (times.filter (recent self.window now)).length + 1 := by
  have hsame : (times.filter fun v => now < v + self.window ∧ v ≤ now) =
      times.filter (recent self.window now) := List.filter_congr fun v hv => by
    have := hpast v hv
    simp only [recent]
    exact decide_eq_decide.mpr (by omega)
  rw [List.filter_append, hsame, List.length_append, List.filter_cons, if_pos (by simp; omega)]
  rfl

theorem locked_full {times : List Nat} (hpast : ∀ v ∈ times, v ≤ now) (hwindow : 0 < self.window)
    (hclock : now ≤ clock)
    (hfull : self.maxAttempts ≤ (times.filter (recent self.window now)).length + 1) :
    self.Locked (times ++ [now]) clock ↔ clock < now + self.lockout := by
  constructor
  · rintro ⟨u, hu, -, hlt, -⟩
    have hle : u ≤ now := forall_mem_snoc.mpr ⟨hpast, le_refl now⟩ u hu
    omega
  · intro hlt
    refine ⟨now, List.mem_append_right _ (List.mem_singleton_self now), hclock, hlt, ?_⟩
    rw [length_window hpast hwindow]
    exact hfull

theorem locked_short {times : List Nat} (hpast : ∀ v ∈ times, v ≤ now) (hwindow : 0 < self.window)
    (hshort : ¬ self.maxAttempts ≤ (times.filter (recent self.window now)).length + 1) :
    self.Locked (times ++ [now]) clock ↔ self.Locked times clock := by
  have hcount := length_window hpast hwindow
  constructor
  · rintro ⟨u, hu, hle, hlt, hmax⟩
    have hne : u ≠ now := fun heq => by
      subst heq
      omega
    have hold : u ∈ times := (List.mem_append.mp hu).resolve_right fun h =>
      hne (List.mem_singleton.mp h)
    refine ⟨u, hold, hle, hlt, ?_⟩
    have hlater : ¬ (u < now + self.window ∧ now ≤ u) := by
      have := hpast u hold
      omega
    rw [List.filter_append, List.filter_cons, if_neg (by simpa using hlater), List.filter_nil,
      List.append_nil] at hmax
    exact hmax
  · rintro ⟨u, hu, hle, hlt, hmax⟩
    refine ⟨u, List.mem_append_left _ hu, hle, hlt, hmax.trans ?_⟩
    rw [List.filter_append, List.length_append]
    exact Nat.le_add_right ..

/-! ## Exactness -/

/-- No call is later than `clock`. -/
def Past (events : List (Event ι)) (clock : Nat) : Prop := ∀ u ∈ events.filterMap Event.time, u ≤ clock

/-- The tracker holds of the histories what still matters. -/
structure Tracks (start : FailedAuthTracker ι) (events : List (Event ι)) (t : FailedAuthTracker ι) :
    Prop where
  settings : SameSettings start t
  ips : ∀ ip clock, Past events clock → (t.ipFailures ip).filter (recent start.window clock) =
    (ipHistory events ip).filter (recent start.window clock)
  past : ∀ ip, ∀ u ∈ ipHistory events ip, u ∈ events.filterMap Event.time
  lock : ∀ ip clock, Past events clock →
    ((t.lock clock ip).isSome = true ↔ start.Locked (ipHistory events ip) clock)
  users : ∀ name clock, Past events clock → name.length ≤ maxTrackedUsernameLen →
    (t.userFailures name).filter (recent start.window clock) =
      (userHistory events name).filter (recent start.window clock)
  absent : ∀ name, maxTrackedUsernameLen < name.length → t.byUser.get? name = none

variable {start : FailedAuthTracker ι} {events : List (Event ι)} {e : Event ι}

theorem ipHistory_snoc : ipHistory (events ++ [e]) ip = Event.ipHistory ip (ipHistory events ip) e :=
  List.foldl_append ..

omit [DecidableEq ι] in
theorem userHistory_snoc :
    userHistory (events ++ [e]) username = Event.userHistory username (userHistory events username) e :=
  List.foldl_append ..

omit [DecidableEq ι] in
theorem past_snoc : Past (events ++ [e]) clock ↔ Past events clock ∧ ∀ u ∈ e.time, u ≤ clock := by
  rw [Past, filterMap_snoc, List.forall_mem_append]
  simp [Past]

theorem Tracks.failed (h : Tracks start events self) (hfailed : Failed now ip self next)
    (hwindow : 0 < start.window) (hnow : Past events now) (htime : e.time = some now)
    (hips : ∀ a times, Event.ipHistory a times e = if ip = a then times ++ [now] else times)
    (husers : ∀ name clock, now ≤ clock → name.length ≤ maxTrackedUsernameLen →
      (self.userFailures name).filter (recent start.window clock) =
        (userHistory events name).filter (recent start.window clock) →
      (next.userFailures name).filter (recent start.window clock) =
        (Event.userHistory name (userHistory events name) e).filter (recent start.window clock))
    (habsent : ∀ name, maxTrackedUsernameLen < name.length → next.byUser.get? name = none) :
    Tracks start (events ++ [e]) next := by
  have hwin := h.settings.window
  have hsplit : ∀ {clock}, Past (events ++ [e]) clock → Past events clock ∧ now ≤ clock :=
    fun hclock => (past_snoc.mp hclock).imp id fun htimes => htimes now htime
  refine ⟨h.settings.trans hfailed.settings, fun a clock hclock => ?_, fun a u hu => ?_,
    fun a clock hclock => ?_, fun name clock hclock hlen => ?_, habsent⟩
  · obtain ⟨hpast, hle⟩ := hsplit hclock
    rw [ipHistory_snoc, hips]
    split
    · rename_i heq
      subst heq
      rw [← hwin, hfailed.failures clock hle, List.filter_append, List.filter_append, hwin,
        h.ips ip clock hpast]
    · rename_i hne
      rw [← hwin, (hfailed.others a clock (Ne.symm hne) hle).2, hwin, h.ips a clock hpast]
  · rw [ipHistory_snoc, hips] at hu
    rw [filterMap_snoc, htime]
    split at hu
    · obtain hu | hu := List.mem_append.mp hu
      · exact List.mem_append_left _ (h.past a u hu)
      · exact List.mem_append_right _ hu
    · exact List.mem_append_left _ (h.past a u hu)
  · obtain ⟨hpast, hle⟩ := hsplit hclock
    rw [ipHistory_snoc, hips]
    split
    · rename_i heq
      subst heq
      have hbefore : ∀ u ∈ ipHistory events ip, u ≤ now := fun u hu => hnow u (h.past ip u hu)
      rw [hfailed.lock clock hle, hwin, h.ips ip now hnow, h.settings.maxAttempts,
        h.settings.lockout]
      split
      · rename_i hfull
        rw [locked_full hbefore hwindow hle hfull, Option.filter_some]
        split <;> simp_all
      · rename_i hshort
        rw [locked_short hbefore hwindow hshort, h.lock ip clock hpast]
    · rename_i hne
      rw [(hfailed.others a clock (Ne.symm hne) hle).1, h.lock a clock hpast]
  · obtain ⟨hpast, hle⟩ := hsplit hclock
    rw [userHistory_snoc]
    exact husers name clock hle hlen (h.users name clock hpast hlen)

theorem Tracks.recordIpFailure (h : Tracks start events self) (henabled : start.enabled = true)
    (hwindow : 0 < start.window) (hnow : Past events now) :
    Tracks start (events ++ [.recordIpFailure now ip]) (self.recordIpFailure now ip).2 := by
  have hon := h.settings.enabled.trans henabled
  have husers := recordIpFailure_byUser hon now ip
  have hunseen := cleanup_unseen self now
  refine h.failed (recordIpFailure_failed hon now ip) hwindow hnow rfl (fun _ _ => rfl)
    (fun name clock hle _ hsame => ?_) fun name hlong => ?_
  · rw [userFailures, husers, ← h.settings.window]
    refine (hunseen.users name clock hle).trans ?_
    rw [h.settings.window]
    exact hsame
  · rw [husers]
    exact hunseen.absent name (h.absent name hlong)

theorem Tracks.recordFailure (h : Tracks start events self) (henabled : start.enabled = true)
    (hwindow : 0 < start.window) (hnow : Past events now) :
    Tracks start (events ++ [.recordFailure now username ip])
      (self.recordFailure now username ip).2 := by
  have hon := h.settings.enabled.trans henabled
  have hmid := recordUserFailure_enabled hon now username
  have husers : (self.recordFailure now username ip).2.byUser =
      ((self.recordUserFailure now username).cleanup now).byUser := by
    rw [FailedAuthTracker.recordFailure, if_neg (by simp [hon])]
    exact recordIpFailure_byUser hmid now ip
  have hunseen := cleanup_unseen (self.recordUserFailure now username) now
  have hwin : (self.recordUserFailure now username).window = start.window := by
    unfold recordUserFailure
    split <;> exact h.settings.window
  refine h.failed (recordFailure_failed hon now username ip) hwindow hnow rfl (fun _ _ => rfl)
    (fun name clock hle hlen hsame => ?_) fun name hlong => ?_
  · rw [userFailures, husers, ← hwin]
    refine (hunseen.users name clock hle).trans ?_
    rw [hwin]
    unfold recordUserFailure
    by_cases hname : name = username
    · subst hname
      simp only [if_pos hlen, userFailures, KeyMap.get?_insert_self, Option.getD_some,
        Event.userHistory, if_true, List.filter_append, h.settings.window]
      rw [filter_recent hle]
      exact congrArg (· ++ _) hsame
    · rw [Event.userHistory, if_neg (Ne.symm hname), ← hsame]
      split
      · rw [userFailures, KeyMap.get?_insert_ne _ _ hname]
        rfl
      · rfl
  · rw [husers]
    refine hunseen.absent name ?_
    unfold recordUserFailure
    split
    · rename_i hshort
      have hne : name ≠ username := fun heq => by
        subst heq
        omega
      rw [KeyMap.get?_insert_ne _ _ hne]
      exact h.absent name hlong
    · exact h.absent name hlong

theorem Tracks.recordSuccess (h : Tracks start events self) :
    Tracks start (events ++ [.recordSuccess username]) (self.recordSuccess username) := by
  have hpast : ∀ {clock}, Past (events ++ [.recordSuccess username]) clock → Past events clock :=
    fun hclock => (past_snoc.mp hclock).1
  refine ⟨h.settings.trans ⟨rfl, rfl, rfl, rfl, rfl, rfl⟩, fun ip clock hclock => ?_, fun ip u hu => ?_,
    fun ip clock hclock => ?_, fun name clock hclock hlen => ?_, fun name hlong => ?_⟩
  · rw [ipHistory_snoc]
    exact h.ips ip clock (hpast hclock)
  · rw [ipHistory_snoc] at hu
    rw [filterMap_snoc]
    exact List.mem_append_left _ (h.past ip u hu)
  · rw [ipHistory_snoc]
    exact h.lock ip clock (hpast hclock)
  · rw [userHistory_snoc, Event.userHistory]
    split
    · rename_i heq
      subst heq
      rw [userFailures, FailedAuthTracker.recordSuccess, KeyMap.get?_erase_self]
      rfl
    · rename_i hne
      rw [userFailures, FailedAuthTracker.recordSuccess, KeyMap.get?_erase_ne _ (Ne.symm hne)]
      exact h.users name clock (hpast hclock) hlen
  · rw [FailedAuthTracker.recordSuccess, KeyMap.get?_erase, h.absent name hlong, ite_self]

theorem Tracks.removed (h : Tracks start events self)
    (hsettings : SameSettings self next) (husers : next.byUser = self.byUser)
    (hsame : ∀ name times, Event.userHistory name times e = times)
    (hips : ∀ a, (next.byIp.get? a = self.byIp.get? a ∧ ∀ times, Event.ipHistory a times e = times) ∨
      (next.byIp.get? a = none ∧ ∀ times, Event.ipHistory a times e = [])) :
    Tracks start (events ++ [e]) next := by
  have hpast : ∀ {clock}, Past (events ++ [e]) clock → Past events clock :=
    fun hclock => (past_snoc.mp hclock).1
  refine ⟨h.settings.trans hsettings, fun a clock hclock => ?_, fun a u hu => ?_,
    fun a clock hclock => ?_, fun name clock hclock hlen => ?_, fun name hlong => ?_⟩
  · rw [ipHistory_snoc, ipFailures]
    obtain ⟨hget, htimes⟩ | ⟨hget, htimes⟩ := hips a
    · rw [hget, htimes]
      exact h.ips a clock (hpast hclock)
    · rw [hget, htimes]
      rfl
  · rw [ipHistory_snoc] at hu
    rw [filterMap_snoc]
    obtain ⟨-, htimes⟩ | ⟨-, htimes⟩ := hips a
    · rw [htimes] at hu
      exact List.mem_append_left _ (h.past a u hu)
    · rw [htimes] at hu
      cases hu
  · rw [ipHistory_snoc, FailedAuthTracker.lock]
    obtain ⟨hget, htimes⟩ | ⟨hget, htimes⟩ := hips a
    · rw [hget, htimes]
      exact h.lock a clock (hpast hclock)
    · rw [hget, htimes]
      simp [Locked]
  · rw [userHistory_snoc, hsame, userFailures, husers]
    exact h.users name clock (hpast hclock) hlen
  · rw [husers]
    exact h.absent name hlong

theorem Tracks.step (h : Tracks start events self) (henabled : start.enabled = true)
    (hwindow : 0 < start.window) (hordered : ∀ u ∈ e.time, Past events u) :
    Tracks start (events ++ [e]) (self.apply e) := by
  cases e with
  | recordFailure now username ip => exact h.recordFailure henabled hwindow (hordered now rfl)
  | recordIpFailure now ip => exact h.recordIpFailure henabled hwindow (hordered now rfl)
  | recordSuccess username => exact h.recordSuccess
  | unblockIp ip =>
    refine h.removed ⟨rfl, rfl, rfl, rfl, rfl, rfl⟩ rfl (fun _ _ => rfl) fun a => ?_
    by_cases ha : a = ip
    · subst ha
      exact .inr ⟨KeyMap.get?_erase_self .., fun _ => if_pos rfl⟩
    · exact .inl ⟨KeyMap.get?_erase_ne _ ha, fun _ => if_neg (Ne.symm ha)⟩
  | clearAllIps =>
    exact h.removed ⟨rfl, rfl, rfl, rfl, rfl, rfl⟩ rfl (fun _ _ => rfl)
      fun a => .inr ⟨rfl, fun _ => rfl⟩

theorem tracks_new (maxAttempts windowSecs lockoutSecs now : Nat) :
    Tracks (new true maxAttempts windowSecs lockoutSecs now : FailedAuthTracker ι) []
      (new true maxAttempts windowSecs lockoutSecs now) :=
  ⟨.refl _, fun _ _ _ => rfl, fun _ => List.forall_mem_nil _,
    fun _ _ _ => by simp [FailedAuthTracker.lock, new, Locked, ipHistory], fun _ _ _ _ => rfl,
    fun _ _ => rfl⟩

theorem Tracks.run (h : Tracks start [] start) (henabled : start.enabled = true)
    (hwindow : 0 < start.window) (hordered : (events.filterMap Event.time).Pairwise (· ≤ ·)) :
    Tracks start events (events.foldl apply start) := by
  induction events using List.reverseRecOn with
  | nil => exact h
  | append_singleton events e ih =>
    rw [filterMap_snoc] at hordered
    obtain ⟨hbefore, -, hlast⟩ := List.pairwise_append.mp hordered
    rw [List.foldl_append]
    refine (ih hbefore).step henabled hwindow fun u hu v hv => ?_
    exact hlast v hv u (Option.mem_toList.mpr hu)

theorem Failed.checkIp {t u : FailedAuthTracker ι} (h : Failed now a t u) (henabled : t.enabled = true)
    (hne : ip ≠ a) (hclock : now ≤ clock) : u.checkIp clock ip = t.checkIp clock ip := by
  rw [checkIp_eq henabled, checkIp_eq (h.settings.enabled.trans henabled),
    (h.others ip clock hne hclock).1]

/-- What the tracker answers after `events`. -/
structure LockoutLaw (start : FailedAuthTracker ι) (events : List (Event ι))
    (t : FailedAuthTracker ι) : Prop where
  locked : ∀ ip clock, Past events clock →
    (t.checkIp clock ip ≠ .ok () ↔ start.Locked (ipHistory events ip) clock)
  /-- The failures of an overlong user name are not counted. -/
  slowed : ∀ username clock, Past events clock → t.userTarpit clock username =
    start.tarpit (if username.length ≤ maxTrackedUsernameLen then
      ((userHistory events username).filter (recent start.window clock)).length % 2 ^ 32 else 0)
  tarpit : ∀ count, (count < start.maxAttempts → start.tarpit (count % 2 ^ 32) = 0) ∧
    start.tarpit count ≤ start.tarpitMax
  cleanup : ∀ now clock, now ≤ clock → ∀ ip username,
    (t.cleanup now).checkIp clock ip = t.checkIp clock ip ∧
      (t.cleanup now).userTarpit clock username = t.userTarpit clock username
  others : ∀ now clock, now ≤ clock → ∀ ip a username, ip ≠ a →
    (t.recordFailure now username a).2.checkIp clock ip = t.checkIp clock ip ∧
      (t.recordIpFailure now a).2.checkIp clock ip = t.checkIp clock ip
  success : ∀ clock ip username, (t.recordSuccess username).checkIp clock ip = t.checkIp clock ip

theorem Tracks.law (h : Tracks start events self) (henabled : start.enabled = true) :
    LockoutLaw start events self := by
  have hon := h.settings.enabled.trans henabled
  refine ⟨fun ip clock hclock => ?_, fun username clock hclock => ?_, fun count => ⟨fun hlt => ?_, ?_⟩,
    fun now clock hclock ip username => ?_, fun now clock hclock ip a username hne => ?_,
    fun clock ip username => rfl⟩
  · rw [checkIp_error hon, h.lock ip clock hclock]
  · simp only [userTarpit, hon, Bool.true_eq_false, if_false, FailedAuthTracker.tarpit,
      h.settings.maxAttempts, h.settings.tarpit, h.settings.window]
    by_cases hlen : username.length ≤ maxTrackedUsernameLen
    · rw [if_pos hlen, h.users username clock hclock hlen]
    · rw [if_neg hlen, userFailures, h.absent username (Nat.not_le.mp hlen)]
      rfl
  · exact if_pos ((Nat.mod_le ..).trans_lt hlt)
  · rw [FailedAuthTracker.tarpit]
    split
    · exact Nat.zero_le _
    · exact Nat.min_le_right ..
  · have hunseen := cleanup_unseen self now
    exact ⟨hunseen.checkIp hclock, hunseen.userTarpit hclock⟩
  · exact ⟨(recordFailure_failed hon now username a).checkIp hon hne hclock,
      (recordIpFailure_failed hon now a).checkIp hon hne hclock⟩

/-- **The lockout is exact**, and so is the delay for a user name. -/
theorem lockout_exact {maxAttempts windowSecs lockoutSecs now : Nat} (hwindow : 0 < windowSecs)
    (hordered : (events.filterMap Event.time).Pairwise (· ≤ ·)) :
    LockoutLaw (new true maxAttempts windowSecs lockoutSecs now) events
      (events.foldl apply (new true maxAttempts windowSecs lockoutSecs now)) := by
  have hpos : 0 < (new true maxAttempts windowSecs lockoutSecs now : FailedAuthTracker ι).window :=
    Nat.mul_pos (Nat.lt_min.mpr ⟨hwindow, by decide⟩) (by decide)
  exact (Tracks.run (tracks_new ..) rfl hpos hordered).law rfl

theorem lockout_exact_two_failures :
    LockoutLaw (new true 2 60 300 0) [.recordFailure 5 [97] 7, .recordIpFailure 6 7]
      ([Event.recordFailure 5 [97] 7, .recordIpFailure 6 7].foldl apply
        (new true 2 60 300 0 : FailedAuthTracker Nat)) ∧
      ([Event.recordFailure 5 [97] 7, .recordIpFailure 6 7].foldl apply
        (new true 2 60 300 0 : FailedAuthTracker Nat)).checkIp 7 7 =
          .error "source IP locked for 299s after too many failed attempts" :=
  ⟨lockout_exact (by decide) (by decide), by rfl⟩

end FailedAuthTracker

end Qeli.Limits
