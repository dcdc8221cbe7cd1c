import Qeli.Lib.Run
import Qeli.Web.Sessions

/-!
# Revocation is permanent

Every generation comes from the file or from a draw. A revocation writes one larger than any that
was on file, so that the generations that come up after it was called are new (`origin_fresh`):
none of them is the generation of an older token. `Values` follows the places a generation can be
in: the shared variable, the file, and the calls that have yet to swap or to answer.
-/

namespace Qeli.Web

open Qeli.Lib

def Event.origin : Event → Option Nat
  | .drew _ generation => some generation
  | .wrote _ generation => some generation
  | _ => none

/-- The generations that have come up. -/
def generations (file : Option Str) (events : List Event) : List Nat :=
  (onFile file).toList ++ events.filterMap Event.origin

/-- A generation that is drawn is no other generation that comes up. -/
def FreshDraws (file : Option Str) (events : List Event) : Prop :=
  ∀ before id generation after, events = before ++ .drew id generation :: after →
    generation ∉ generations file (before ++ after)

/-- Signatures of a text under different generations differ. -/
def SignsApart (sign : Nat → Str → Str) : Prop :=
  ∀ g < u64Max, ∀ g' < u64Max, ∀ payload, sign g payload = sign g' payload → g = g'

/-- Different generations have different keys, under which the codes of a text differ. -/
structure Hashes.Distinct (hashes : Hashes) (passwordHash : Str) (secret : Vector UInt8 32) :
    Prop where
  hkdf : ∀ g < u64Max, ∀ g' < u64Max, sessionKey hashes passwordHash secret g =
    sessionKey hashes passwordHash secret g' → sessionInfo g = sessionInfo g'
  hmac : ∀ g < u64Max, ∀ g' < u64Max, ∀ data,
    hashes.hmac (sessionKey hashes passwordHash secret g) data =
      hashes.hmac (sessionKey hashes passwordHash secret g') data →
    sessionKey hashes passwordHash secret g = sessionKey hashes passwordHash secret g'

theorem sessionInfo_injective {g g' : Nat} (h : sessionInfo g = sessionInfo g') : g = g' := by
  have hparsed := congrArg Str.parseDigits (List.append_cancel_left h)
  rw [Str.parseDigits_natText, Str.parseDigits_natText] at hparsed
  exact Option.some.inj hparsed

theorem Hashes.Distinct.signsApart {hashes : Hashes} {passwordHash : Str}
    {secret : Vector UInt8 32} (h : hashes.Distinct passwordHash secret) :
    SignsApart (sign hashes passwordHash secret) := by
  intro g hg g' hg' payload hsame
  have hmacs := congrArg Str.ofHex hsame
  rw [sign, sign, Str.ofHex_hexText, Str.ofHex_hexText] at hmacs
  exact sessionInfo_injective
    (h.hkdf g hg g' hg' (h.hmac g hg g' hg' _ (Vector.toList_inj.mp hmacs)))

section Steps

variable {sign : Nat → Str → Str} {s s' : Shared} {id : Nat} {phase phase' : Phase}
  {event : Event} {panel panel' : Panel} {file : Option Str} {events : List Event}
  {good good' late : Nat → Prop}

theorem Step.inv (h : Step sign panel event panel') :
    (event = .restarted ∧ panel' = panel.restart) ∨
      ∃ id phase s' phase', panel.phases id = phase ∧
        Act sign panel.shared id phase event s' phase' ∧
        panel' = ⟨s', Function.update panel.phases id phase'⟩ := by
  cases h with
  | act hact => exact .inr ⟨_, _, _, _, rfl, hact, rfl⟩
  | restarted => exact .inl ⟨rfl, rfl⟩

theorem Step.keeps {P : Phase → Prop} (h : Step sign panel event panel') (id : Nat)
    (hact : ∀ {s phase s' phase'}, Act sign s id phase event s' phase' → P phase → P phase')
    (hended : P .ended) (hphase : P (panel.phases id)) : P (panel'.phases id) := by
  obtain ⟨-, rfl⟩ | ⟨other, phase, s', phase', rfl, hstep, rfl⟩ := h.inv
  · simp only [Panel.restart]
    split
    · rwa [‹panel.phases id = .idle›] at hphase
    · exact hended
  · by_cases hid : id = other
    · subst hid
      simp only [Function.update_self]
      exact hact hstep hphase
    · simp only [Function.update_of_ne hid]
      exact hphase

theorem Step.busy (h : Step sign panel event panel') (hbusy : panel.phases id ≠ .idle) :
    panel'.phases id ≠ .idle := by
  refine h.keeps (P := (· ≠ .idle)) id (fun hact hphase => ?_) (by decide) hbusy
  cases hact with
  | began => exact absurd rfl hphase
  | _ => simp

def Tracks (call : Call) : Phase → Prop
  | .idle => False
  | .signing other => other = call
  | .reading other => other = call
  | .swapping other _ => other = call
  | .signed other _ => other = call
  | _ => True

theorem Step.tracks {call : Call} (h : Step sign panel event panel')
    (htracks : Tracks call (panel.phases id)) : Tracks call (panel'.phases id) := by
  refine h.keeps id (fun hact hphase => ?_) trivial htracks
  cases hact with
  | began => exact hphase.elim
  | cached | missing | read | drew | swapped | existing => exact hphase
  | _ => trivial

theorem tracks_begin (call : Call) : Tracks call call.begin := by
  cases call with
  | revoke => trivial
  | _ => rfl

/-! ## The lock -/

/-- What a revocation knows in the phases in which it has the lock. -/
def PhaseLocked (s : Shared) (id : Nat) : Phase → Prop
  | .locked => s.lock = some id
  | .persisted generation => s.lock = some id ∧ onFile s.file = some generation
  | .writing next => s.lock = some id ∧ next < u64Max ∧
    ∃ generation, onFile s.file = some generation ∧ generation < next
  | .publishing next => s.lock = some id ∧ next < u64Max ∧ onFile s.file = some next
  | .published next => s.lock = some id ∧ next < u64Max ∧ onFile s.file = some next ∧
    s.sessionGen = next
  | _ => True

theorem PhaseLocked.frame (h : PhaseLocked s id phase) (hlock : s.lock ≠ some id) :
    PhaseLocked s' id phase := by
  cases phase with
  | locked => exact absurd h hlock
  | persisted | writing | publishing | published => exact absurd h.1 hlock
  | _ => trivial

theorem PhaseLocked.swapped (h : PhaseLocked s id phase) (hgen : s.sessionGen = u64Max)
    (loaded : Nat) : PhaseLocked { s with sessionGen := loaded } id phase := by
  cases phase with
  | published =>
    obtain ⟨-, hless, -, hsame⟩ := h
    exact absurd (hsame.symm.trans hgen) hless.ne
  | locked | persisted | writing | publishing => exact h
  | _ => trivial

theorem PhaseLocked.released (h : PhaseLocked s id phase) {other : Nat} (hne : id ≠ other) :
    PhaseLocked (s.release other) id phase := by
  by_cases hlock : s.lock = some id
  · rw [Shared.release, if_neg (by rw [hlock]; simpa using hne)]
    exact h
  · exact h.frame hlock

theorem Act.locked_self (h : Act sign s id phase event s' phase') (hphase : PhaseLocked s id phase) :
    PhaseLocked s' id phase' := by
  cases h with
  | @began call => cases call <;> trivial
  | locked => rfl
  | persisted hread => exact ⟨hphase, onFile_of_read hread⟩
  | next hnext =>
    obtain ⟨hless, hroom⟩ := nextGeneration_eq_some hnext
    exact ⟨hphase.1, hroom, _, hphase.2, hless⟩
  | wrote => exact ⟨hphase.1, hphase.2.1, onFile_natText hphase.2.1⟩
  | stored => exact ⟨hphase.1, hphase.2.1, hphase.2.2, rfl⟩
  | _ => trivial

theorem Act.locked_other (h : Act sign s id phase event s' phase') (hphase : PhaseLocked s id phase)
    {other : Nat} {rest : Phase} (hne : other ≠ id) (hother : PhaseLocked s other rest) :
    PhaseLocked s' other rest := by
  have hforeign : s.lock = some id → s.lock ≠ some other := fun hlock hsame =>
    hne (Option.some.inj (hsame.symm.trans hlock))
  cases h with
  | swapped hgen => exact hother.swapped hgen _
  | locked hlock => exact hother.frame (by rw [hlock]; simp)
  | wrote | stored => exact hother.frame (hforeign hphase.1)
  | revoked | failed => exact hother.released hne
  | _ => exact hother

def Locks (panel : Panel) : Prop := ∀ id, PhaseLocked panel.shared id (panel.phases id)

theorem Locks.step (h : Locks panel) (hstep : Step sign panel event panel') : Locks panel' := by
  obtain ⟨-, rfl⟩ | ⟨id, phase, s', phase', rfl, hact, rfl⟩ := hstep.inv
  · intro id
    simp only [Panel.restart]
    split
    · trivial
    · trivial
  · exact (Function.forall_update_iff _ fun i p => PhaseLocked s' i p).mpr
      ⟨hact.locked_self (h id), fun i hne => hact.locked_other (h id) hne (h i)⟩

/-! ## Where generations are -/

def PhaseValue (good late : Nat → Prop) (sessionGen id : Nat) : Phase → Prop
  | .swapping _ loaded => sessionGen = u64Max → good loaded
  | .signed _ generation => late id → good generation
  | _ => True

/-- The generations that later calls can come to are `good`. -/
structure Values (good late : Nat → Prop) (panel : Panel) : Prop where
  cached : panel.shared.sessionGen ≠ u64Max → good panel.shared.sessionGen
  filed : ∀ generation, onFile panel.shared.file = some generation → good generation
  phases : ∀ id, PhaseValue good late panel.shared.sessionGen id (panel.phases id)

theorem PhaseValue.mono {sessionGen : Nat} (h : PhaseValue good late sessionGen id phase)
    (hgood : ∀ g, good g → good' g) {sessionGen' : Nat}
    (hgen : sessionGen' = u64Max → sessionGen = u64Max) :
    PhaseValue good' late sessionGen' id phase := by
  cases phase with
  | swapping => exact fun hnew => hgood _ (h (hgen hnew))
  | signed => exact fun hlate => hgood _ (h hlate)
  | _ => trivial

theorem Values.step (h : Values good late panel) (hlocks : Locks panel)
    (hstep : Step sign panel event panel') (hgood : ∀ g, good g → good' g)
    (horigin : ∀ g, event.origin = some g → good' g) : Values good' late panel' := by
  obtain ⟨-, rfl⟩ | ⟨id, phase, s', phase', hphase, hact, rfl⟩ := hstep.inv
  · refine ⟨fun hgen => absurd rfl hgen, fun g hg => hgood g (h.filed g hg), fun id => ?_⟩
    simp only [Panel.restart]
    split
    · trivial
    · trivial
  have hvalue := h.phases id
  have hlocked := hlocks id
  rw [hphase] at hvalue hlocked
  have hothers : (s'.sessionGen = u64Max → panel.shared.sessionGen = u64Max) →
      PhaseValue good' late s'.sessionGen id phase' →
      ∀ i, PhaseValue good' late s'.sessionGen i (Function.update panel.phases id phase' i) :=
    fun hgen hself => (Function.forall_update_iff _ fun i p => PhaseValue good' late _ i p).mpr
      ⟨hself, fun i _ => (h.phases i).mono hgood hgen⟩
  have hcached := fun hgen => hgood _ (h.cached hgen)
  have hfiled := fun g hg => hgood g (h.filed g hg)
  cases hact with
  | @began call => exact ⟨hcached, hfiled, hothers (fun h => h) (by cases call <;> trivial)⟩
  | cached _ hgen | existing hgen =>
    exact ⟨hcached, hfiled, hothers (fun h => h) fun _ => hcached hgen⟩
  | read hread =>
    exact ⟨hcached, hfiled, hothers (fun h => h) fun _ => hfiled _ (onFile_of_read hread)⟩
  | drew => exact ⟨hcached, hfiled, hothers (fun h => h) fun _ => horigin _ rfl⟩
  | swapped hgen =>
    have hloaded := hgood _ (hvalue hgen)
    exact ⟨fun _ => hloaded, hfiled, hothers (fun _ => hgen) fun _ => hloaded⟩
  | @wrote next =>
    refine ⟨hcached, fun g hg => ?_, hothers (fun h => h) trivial⟩
    rw [onFile_natText hlocked.2.1] at hg
    cases hg
    exact horigin _ rfl
  | stored =>
    refine ⟨fun _ => hfiled _ hlocked.2.2, hfiled, hothers (fun hgen => ?_) trivial⟩
    exact absurd hgen hlocked.2.1.ne
  | _ => exact ⟨hcached, hfiled, hothers (fun h => h) trivial⟩

/-! ## The history of a run -/

theorem generations_snoc : generations file (events ++ [event]) =
    generations file events ++ event.origin.toList := by
  rw [generations, filterMap_snoc, ← List.append_assoc, generations]

theorem generations_append {later : List Event} {g : Nat} :
    g ∈ generations file (events ++ later) ↔
      g ∈ generations file events ∨ g ∈ later.filterMap Event.origin := by
  rw [generations, List.filterMap_append, ← List.append_assoc, List.mem_append, generations]

/-- What is known of a panel after these events. -/
structure Sound (sign : Nat → Str → Str) (file : Option Str) (events : List Event) (panel : Panel) :
    Prop where
  locks : Locks panel
  values : Values (· ∈ generations file events) (fun _ => True) panel
  bounded : ∀ g ∈ generations file events, g < u64Max
  newest : ∀ g ∈ generations file events, (∃ id, .drew id g ∈ events) ∨
    ∃ newest, onFile panel.shared.file = some newest ∧ g ≤ newest
  minted : ∀ id token, .minted id token ∈ events → ∃ g ∈ generations file events,
    ∃ now configured, token = makeSessionToken sign g now configured

theorem Act.replaces (h : Act sign s id phase event s' phase') :
    (s'.file = s.file ∧ ∀ g, event.origin = some g → event = .drew id g) ∨
      ∃ next, phase = .writing next ∧ event = .wrote id next ∧
        s'.file = some (Str.natText next) := by
  cases h with
  | wrote => exact .inr ⟨_, rfl, rfl, rfl⟩
  | drew => exact .inl ⟨rfl, fun g hg => by cases hg; rfl⟩
  | _ => exact .inl ⟨rfl, fun g hg => by cases hg⟩

theorem Step.replaces (h : Step sign panel event panel') (hlocks : Locks panel) :
    (panel'.shared.file = panel.shared.file ∧
        ∀ g, event.origin = some g → ∃ id, event = .drew id g) ∨
      ∃ id old next, event = .wrote id next ∧ onFile panel.shared.file = some old ∧ old < next ∧
        onFile panel'.shared.file = some next := by
  obtain ⟨rfl, rfl⟩ | ⟨id, phase, s', phase', hphase, hact, rfl⟩ := h.inv
  · exact .inl ⟨rfl, fun g hg => by cases hg⟩
  obtain ⟨hfile, hdrew⟩ | ⟨next, rfl, rfl, hfile⟩ := hact.replaces
  · exact .inl ⟨hfile, fun g hg => ⟨id, hdrew g hg⟩⟩
  · have hlocked := hlocks id
    rw [hphase] at hlocked
    obtain ⟨-, hroom, old, hold, hless⟩ := hlocked
    exact .inr ⟨id, old, next, rfl, hold, hless, by rw [hfile, onFile_natText hroom]⟩

theorem Step.origin_lt (h : Step sign panel event panel') (hlocks : Locks panel) {g : Nat}
    (horigin : event.origin = some g) : g < u64Max := by
  obtain ⟨rfl, -⟩ | ⟨id, phase, s', phase', hphase, hact, -⟩ := h.inv
  · cases horigin
  have hlocked := hlocks id
  rw [hphase] at hlocked
  cases hact with
  | drew _ hdrawn =>
    cases horigin
    omega
  | wrote =>
    cases horigin
    exact hlocked.2.1
  | _ => cases horigin

theorem Step.of_minted {token : Str} (h : Step sign panel (.minted id token) panel') :
    ∃ g now configured, panel.phases id = .signed (.mint now configured) g ∧
      token = makeSessionToken sign g now configured := by
  obtain ⟨hevent, -⟩ | ⟨other, phase, s', phase', hphase, hact, -⟩ := h.inv
  · cases hevent
  · cases hact
    exact ⟨_, _, _, hphase, rfl⟩

theorem Sound.step (h : Sound sign file events panel) (hstep : Step sign panel event panel') :
    Sound sign file (events ++ [event]) panel' := by
  have hgrow : ∀ g, g ∈ generations file events → g ∈ generations file (events ++ [event]) :=
    fun g hg => generations_append.mpr (.inl hg)
  have horigin : ∀ g, event.origin = some g → g ∈ generations file (events ++ [event]) :=
    fun g hg => by rw [generations_snoc, hg]; simp
  refine ⟨h.locks.step hstep, h.values.step h.locks hstep hgrow horigin, fun g hg => ?_,
    fun g hg => ?_, ?_⟩
  · rw [generations_snoc, List.mem_append, Option.mem_toList] at hg
    exact hg.elim (h.bounded g) (hstep.origin_lt h.locks)
  · rw [generations_snoc, List.mem_append, Option.mem_toList] at hg
    obtain ⟨hfile, hdrew⟩ | ⟨id, old, next, rfl, hold, hless, hnext⟩ := hstep.replaces h.locks
    · obtain hg | hg := hg
      · obtain ⟨id, hid⟩ | ⟨newest, hnewest, hle⟩ := h.newest g hg
        · exact .inl ⟨id, List.mem_append_left _ hid⟩
        · exact .inr ⟨newest, by rw [hfile, hnewest], hle⟩
      · obtain ⟨id, rfl⟩ := hdrew g hg
        exact .inl ⟨id, by simp⟩
    · obtain hg | hg := hg
      · obtain ⟨id, hid⟩ | ⟨newest, hnewest, hle⟩ := h.newest g hg
        · exact .inl ⟨id, List.mem_append_left _ hid⟩
        · cases hold.symm.trans hnewest
          exact .inr ⟨next, hnext, by omega⟩
      · cases hg
        exact .inr ⟨_, hnext, le_rfl⟩
  · intro id token hmem
    rw [List.mem_append, List.mem_singleton] at hmem
    obtain hmem | rfl := hmem
    · obtain ⟨g, hg, htoken⟩ := h.minted id token hmem
      exact ⟨g, hgrow g hg, htoken⟩
    · obtain ⟨g, now, configured, hphase, rfl⟩ := hstep.of_minted
      have hvalue := h.values.phases id
      rw [hphase] at hvalue
      exact ⟨g, hgrow g (hvalue trivial), now, configured, rfl⟩

theorem sound_of_run (h : Run (Step sign) (.boot file) events panel) :
    Sound sign file events panel := by
  refine h.invariant (P := fun events panel => Sound sign file events panel) ?_ fun _ => Sound.step
  have hfile : ∀ g ∈ generations file [], onFile file = some g := fun g hg => by
    simpa [generations] using hg
  refine ⟨fun _ => trivial, ⟨fun h => absurd rfl h, fun g hg => ?_, fun _ => trivial⟩,
    fun g hg => onFile_lt (hfile g hg), fun g hg => .inr ⟨g, hfile g hg, le_rfl⟩,
    fun _ _ h => absurd h List.not_mem_nil⟩
  exact List.mem_append_left _ (Option.mem_toList.mpr hg)

/-- Every generation that comes up is new. -/
theorem origin_fresh {before between after : List Event} {g : Nat}
    (h : Run (Step sign) (.boot file) (before ++ between ++ event :: after) panel)
    (hdraws : FreshDraws file (before ++ between ++ event :: after))
    (horigin : event.origin = some g) : g ∉ generations file before := by
  obtain ⟨s, t, hrun, hstep, -⟩ := h.step_at
  have hsound := sound_of_run hrun
  intro hold
  obtain ⟨-, hdrew⟩ | ⟨id, old, next, rfl, hfile, hless, -⟩ := hstep.replaces hsound.locks
  · obtain ⟨id, rfl⟩ := hdrew g horigin
    refine hdraws _ id g _ rfl ?_
    rw [List.append_assoc]
    exact generations_append.mpr (.inl hold)
  · cases horigin
    obtain ⟨id', hdrawn⟩ | ⟨newest, hnewest, hle⟩ :=
      hsound.newest g (generations_append.mpr (.inl hold))
    · obtain ⟨front, back, hsplit⟩ := List.append_of_mem hdrawn
      refine hdraws front id' g (back ++ .wrote id g :: after) (by rw [hsplit]; simp) ?_
      refine List.mem_append_right _ (List.mem_filterMap.mpr ⟨.wrote id g, by simp, rfl⟩)
    · cases hfile.symm.trans hnewest
      omega

/-! ## After a revocation -/

theorem Step.of_began {call : Call} (h : Step sign panel (.began id call) panel') :
    panel.phases id = .idle ∧ panel'.shared = panel.shared ∧ panel'.phases id = call.begin := by
  obtain ⟨hevent, -⟩ | ⟨other, phase, s', phase', hphase, hact, rfl⟩ := h.inv
  · cases hevent
  · cases hact
    exact ⟨hphase, rfl, Function.update_self ..⟩

theorem Step.of_revoked {next : Nat} (h : Step sign panel (.revoked id (some next)) panel') :
    panel.phases id = .published next ∧ panel'.shared = panel.shared.release id := by
  obtain ⟨hevent, -⟩ | ⟨other, phase, s', phase', hphase, hact, rfl⟩ := h.inv
  · cases hevent
  · cases hact
    exact ⟨hphase, rfl⟩

/-- A token is refused, or checked under the generation the call has come to. -/
theorem Step.of_verified {now : Int} {answer : Bool} {token : Str}
    (h : Step sign panel (.verified id now answer) panel')
    (htracks : Tracks (.verify token) (panel.phases id)) :
    (Str.splitOnce '.' token = none ∧ answer = false) ∨
      ∃ g, panel.phases id = .signed (.verify token) g ∧
        answer = verifySessionToken sign g now token := by
  obtain ⟨hevent, -⟩ | ⟨other, phase, s', phase', hphase, hact, rfl⟩ := h.inv
  · cases hevent
  · cases hact with
    | malformed hsigns =>
      rw [hphase] at htracks
      cases htracks
      exact .inl ⟨not_not.mp hsigns, rfl⟩
    | verified =>
      rw [hphase] at htracks
      cases htracks
      exact .inr ⟨_, hphase, rfl⟩

theorem idle_of_run (h : Run (Step sign) panel events panel') (hidle : panel'.phases id = .idle) :
    panel.phases id = .idle := by
  by_contra hbusy
  exact h.preserves (P := fun panel => panel.phases id ≠ .idle) hbusy
    (fun hbusy hstep => hstep.busy hbusy) hidle

theorem tracks_of_run {call : Call} (h : Run (Step sign) panel events panel')
    (htracks : Tracks call (panel.phases id)) : Tracks call (panel'.phases id) :=
  h.preserves (P := fun panel => Tracks call (panel.phases id)) htracks
    fun htracks hstep => hstep.tracks htracks

def Written (good : Nat → Prop) : Phase → Prop
  | .publishing next => good next
  | .published next => good next
  | _ => True

theorem Step.written (h : Step sign panel event panel') (hphase : Written good (panel.phases id))
    (horigin : ∀ g, event.origin = some g → good g) : Written good (panel'.phases id) := by
  refine h.keeps id (fun hact hphase => ?_) trivial hphase
  cases hact with
  | @began call => cases call <;> trivial
  | wrote => exact horigin _ rfl
  | stored => exact hphase
  | _ => trivial

/-- From the return of a revocation on, every place a generation can be in is `good`, if what
comes up from its call on is. -/
theorem values_of_revoked {r next : Nat} {between : List Event} {panel₁ panel₂ : Panel}
    (hidle : panel.phases r = .idle) (hlocks : Locks panel)
    (hrun : Run (Step sign) panel between panel₁)
    (hstep : Step sign panel₁ (.revoked r (some next)) panel₂)
    (horigin : ∀ event ∈ between, ∀ g, event.origin = some g → good g) :
    Values good (fun id => panel₂.phases id = .idle) panel₂ ∧ Locks panel₂ := by
  have hlocks₁ : Locks panel₁ := hrun.preserves hlocks fun hlocks hstep => hlocks.step hstep
  have hwritten : Written good (panel₁.phases r) :=
    hrun.preserves_of_forall (P := fun panel => Written good (panel.phases r)) horigin
      (by rw [hidle]; trivial) fun horigin hwritten hstep => hstep.written hwritten horigin
  obtain ⟨hphase, hshared⟩ := hstep.of_revoked
  have hlocked := hlocks₁ r
  rw [hphase] at hwritten hlocked
  obtain ⟨-, hroom, hfile, hgen⟩ := hlocked
  have hgen₂ : panel₂.shared.sessionGen = next := by rw [hshared]; exact hgen
  refine ⟨⟨fun _ => hgen₂ ▸ hwritten, fun g hg => ?_, fun id => ?_⟩, hlocks₁.step hstep⟩
  · rw [hshared] at hg
    cases hfile.symm.trans hg
    exact hwritten
  · rw [hgen₂]
    cases hp : panel₂.phases id with
    | swapping => exact fun hmax => absurd hmax hroom.ne
    | signed => exact fun hlate => absurd (hp.symm.trans hlate) (by simp)
    | _ => trivial

theorem Values.run (h : Values good late panel ∧ Locks panel)
    (hrun : Run (Step sign) panel events panel')
    (horigin : ∀ event ∈ events, ∀ g, event.origin = some g → good g) :
    Values good late panel' ∧ Locks panel' :=
  hrun.preserves_of_forall (P := fun panel => Values good late panel ∧ Locks panel) horigin h
    fun horigin h hstep => ⟨h.1.step h.2 hstep (fun _ hg => hg) horigin, h.2.step hstep⟩

/-! ## Until the next revocation -/

/-- The process goes on, and no revocation stores a generation. -/
def Event.Quiet (event : Event) : Prop := event ≠ .restarted ∧ ∀ id g, event ≠ .stored id g

def Settled (generation : Nat) : Phase → Prop
  | .reading _ => False
  | .swapping _ _ => False
  | .signed _ g => g = generation
  | _ => True

theorem Step.settled {generation : Nat} (h : Step sign panel event panel') (hquiet : event.Quiet)
    (hgen : panel.shared.sessionGen = generation) (hloaded : generation ≠ u64Max) :
    panel'.shared.sessionGen = generation ∧
      ∀ id, Settled generation (panel.phases id) → Settled generation (panel'.phases id) := by
  obtain ⟨rfl, -⟩ | ⟨other, phase, s', phase', hphase, hact, rfl⟩ := h.inv
  · exact absurd rfl hquiet.1
  have hself : s'.sessionGen = generation ∧
      (Settled generation phase → Settled generation phase') := by
    cases hact with
    | @began call => exact ⟨hgen, fun _ => by cases call <;> trivial⟩
    | missing _ hmax | swapped hmax => exact absurd (hgen.symm.trans hmax) hloaded
    | stored => exact absurd rfl (hquiet.2 _ _)
    | cached | existing => exact ⟨hgen, fun _ => hgen⟩
    | read | drew => exact ⟨hgen, fun h => h⟩
    | _ => exact ⟨hgen, fun _ => trivial⟩
  refine ⟨hself.1, fun id hid => ?_⟩
  by_cases hsame : id = other
  · subst hsame
    simp only [Function.update_self]
    exact hself.2 (hphase ▸ hid)
  · simp only [Function.update_of_ne hsame]
    exact hid

theorem Step.loaded (h : Step sign panel event panel') (hlocks : Locks panel)
    (hgoes : event ≠ .restarted) (hloaded : panel.shared.sessionGen ≠ u64Max) :
    panel'.shared.sessionGen ≠ u64Max := by
  obtain ⟨rfl, -⟩ | ⟨id, phase, s', phase', hphase, hact, rfl⟩ := h.inv
  · exact absurd rfl hgoes
  have hlocked := hlocks id
  rw [hphase] at hlocked
  cases hact with
  | swapped hgen => exact absurd hgen hloaded
  | stored => exact hlocked.2.1.ne
  | _ => exact hloaded

end Steps

/-! ## The panel -/

/-- What revocation promises over a whole history. -/
structure RevocationLaw (events : List Event) : Prop where
  permanent : ∀ before r between next gap v token rest a now answer,
    events = before ++ .began r .revoke ::
      (between ++ .revoked r (some next) :: (gap ++ .began v (.verify token) :: rest)) →
    .minted a token ∈ before → .verified v now answer ∈ rest → answer = false
  live : ∀ before r next gap a minted configured span v token now answer rest,
    events = before ++ .revoked r (some next) ::
      (gap ++ .began a (.mint minted configured) :: (span ++ .verified v now answer :: rest)) →
    .restarted ∉ gap → (∀ event ∈ span, event.Quiet) → .minted a token ∈ span →
    .began v (.verify token) ∈ span → answer = decide (now < expiry minted configured)

section Law

variable {sign : Nat → Str → Str} {file : Option Str} {events : List Event} {panel : Panel}

theorem revoked_stays_revoked (hsign : SignsApart sign)
    (hrun : Run (Step sign) (.boot file) events panel) (hdraws : FreshDraws file events)
    {before between gap rest : List Event} {r next v a : Nat} {token : Str} {now : Int}
    {answer : Bool}
    (hevents : events = before ++ .began r .revoke ::
      (between ++ .revoked r (some next) :: (gap ++ .began v (.verify token) :: rest)))
    (hminted : .minted a token ∈ before) (hverified : .verified v now answer ∈ rest) :
    answer = false := by
  subst hevents
  -- what comes up from the call on is no generation of an older token
  have hfresh : ∀ event ∈ .began r .revoke ::
      (between ++ .revoked r (some next) :: (gap ++ .began v (.verify token) :: rest)),
      ∀ g, event.origin = some g → g ∉ generations file before := by
    intro event hmem g horigin
    obtain ⟨front, back, hsplit⟩ := List.append_of_mem hmem
    rw [hsplit, ← List.append_assoc] at hrun hdraws
    exact origin_fresh hrun hdraws horigin
  simp only [List.forall_mem_cons, List.forall_mem_append] at hfresh
  obtain ⟨-, hbetween, -, hgap, -, hrest⟩ := hfresh
  obtain ⟨s, s₁, hbefore, hbegan, hrun⟩ := hrun.step_at
  have hsound := sound_of_run hbefore
  obtain ⟨s₂, s₃, hrun₁, hrevoked, hrun⟩ := hrun.step_at
  obtain ⟨s₄, s₅, hrun₃, hcall, hrun⟩ := hrun.step_at
  obtain ⟨front, back, rfl⟩ := List.append_of_mem hverified
  obtain ⟨s₆, s₇, hrun₅, hreturn, -⟩ := hrun.step_at
  simp only [List.forall_mem_append] at hrest
  have hvalues : Values (· ∉ generations file before) (fun id => s₃.phases id = .idle) s₆ := by
    have hafter := values_of_revoked hbegan.of_began.1 hsound.locks
      (.cons hbegan hrun₁) hrevoked
      (List.forall_mem_cons.mpr ⟨fun g hg => (by cases hg), hbetween⟩)
    have hcalled := Values.run hafter (hrun₃.snoc hcall)
      (List.forall_mem_append.mpr ⟨hgap, by simp [Event.origin]⟩)
    exact (Values.run hcalled hrun₅ hrest.1).1
  obtain ⟨hidle, -, hbegin⟩ := hcall.of_began
  have htracks := tracks_of_run hrun₅ (hbegin ▸ tracks_begin (.verify token))
  obtain ⟨-, hfalse⟩ | ⟨g, hphase, rfl⟩ := hreturn.of_verified htracks
  · exact hfalse
  have hnew := hvalues.phases v
  rw [hphase] at hnew
  obtain ⟨old, hold, then', configured, rfl⟩ := hsound.minted a token hminted
  rw [verify_makeSessionToken, decide_eq_false, Bool.false_and]
  intro hsame
  have hlast := sound_of_run ((hbefore.append (.cons hbegan (hrun₁.snoc hrevoked))).append
    ((hrun₃.snoc hcall).append hrun₅))
  have hcame := hlast.values.phases v
  rw [hphase] at hcame
  refine hnew (idle_of_run hrun₃ hidle) ?_
  rwa [← hsign _ (hsound.bounded _ hold) _ (hlast.bounded _ (hcame trivial)) _ hsame]

theorem minted_stays_live {before gap span rest : List Event} {r next a v : Nat} {token : Str}
    {minted configured now : Int} {answer : Bool}
    (hrun : Run (Step sign) (.boot file) events panel)
    (hevents : events = before ++ .revoked r (some next) ::
      (gap ++ .began a (.mint minted configured) :: (span ++ .verified v now answer :: rest)))
    (hgap : .restarted ∉ gap) (hspan : ∀ event ∈ span, event.Quiet)
    (hminted : .minted a token ∈ span) (hbegan : .began v (.verify token) ∈ span) :
    answer = decide (now < expiry minted configured) := by
  subst hevents
  obtain ⟨s, s₁, hbefore, hrevoked, hrun⟩ := hrun.step_at
  obtain ⟨s₂, s₃, hrun₁, hmint, hrun⟩ := hrun.step_at
  obtain ⟨s₄, s₅, hrun₃, hreturn, -⟩ := hrun.step_at
  have hlocks := (sound_of_run hbefore).locks
  obtain ⟨hidle, hshared, hbegin⟩ := hmint.of_began
  -- the revocation has left a generation in place, which stays as long as the process
  have hloaded : s₃.shared.sessionGen ≠ u64Max := by
    obtain ⟨hphase, hleft⟩ := hrevoked.of_revoked
    have hlocked := hlocks r
    rw [hphase] at hlocked
    have hfirst : s₁.shared.sessionGen ≠ u64Max := by
      rw [hleft]
      exact hlocked.2.2.2 ▸ hlocked.2.1.ne
    rw [hshared]
    exact (hrun₁.preserves_of_forall
      (P := fun panel => Locks panel ∧ panel.shared.sessionGen ≠ u64Max)
      (fun event hmem => (fun h => hgap (h ▸ hmem) : event ≠ .restarted))
      ⟨hlocks.step hrevoked, hfirst⟩
      fun hgoes h hstep => ⟨h.1.step hstep, hstep.loaded h.1 hgoes h.2⟩).2
  generalize hgeneration : s₃.shared.sessionGen = generation at hloaded
  have hsettled : ∀ {es t}, Run (Step sign) s₃ es t → (∀ event ∈ es, event.Quiet) →
      t.shared.sessionGen = generation := fun h hes =>
    h.preserves_of_forall (P := fun panel => panel.shared.sessionGen = generation) hes hgeneration
      fun hquiet hgen hstep => (hstep.settled hquiet hgen hloaded).1
  -- a call that begins in this time comes to that generation
  have hcall : ∀ id {es t u}, Settled generation (t.phases id) →
      t.shared.sessionGen = generation → Run (Step sign) t es u → (∀ event ∈ es, event.Quiet) →
      Settled generation (u.phases id) := fun id _ _ _ hphase hgen h hes =>
    (h.preserves_of_forall (P := fun panel => panel.shared.sessionGen = generation ∧
        Settled generation (panel.phases id)) hes ⟨hgen, hphase⟩ fun hquiet h hstep =>
      (hstep.settled hquiet h.1 hloaded).imp (fun h => h) fun hall => hall id h.2).2
  have hbeginSettled : ∀ call : Call, Settled generation call.begin := fun call => by
    cases call <;> trivial
  have htoken : token = makeSessionToken sign generation minted configured := by
    obtain ⟨front, back, rfl⟩ := List.append_of_mem hminted
    obtain ⟨t, u, hfront, hstep, -⟩ := hrun₃.step_at
    obtain ⟨g, now', configured', hphase, rfl⟩ := hstep.of_minted
    have htracks := tracks_of_run hfront (hbegin ▸ tracks_begin (.mint minted configured))
    have hvalue := hcall a (hbegin ▸ hbeginSettled _) hgeneration hfront
      fun event hmem => hspan event (List.mem_append_left _ hmem)
    rw [hphase] at htracks hvalue
    cases htracks
    cases hvalue
    rfl
  obtain ⟨front, back, rfl⟩ := List.append_of_mem hbegan
  obtain ⟨t, u, hfront, hverify, hback⟩ := hrun₃.step_at
  rw [List.forall_mem_append, List.forall_mem_cons] at hspan
  obtain ⟨hquietFront, hquietCall, hquietBack⟩ := hspan
  obtain ⟨-, -, hverifyBegin⟩ := hverify.of_began
  have hu := (hverify.settled hquietCall (hsettled hfront hquietFront) hloaded).1
  have htracks := tracks_of_run hback (hverifyBegin ▸ tracks_begin (.verify token))
  have hvalue := hcall v (hverifyBegin ▸ hbeginSettled _) hu hback hquietBack
  obtain ⟨hnone, -⟩ | ⟨g, hphase, rfl⟩ := hreturn.of_verified htracks
  · rw [htoken, splitOnce_makeSessionToken] at hnone
    cases hnone
  · rw [hphase] at hvalue
    cases hvalue
    rw [htoken, verify_makeSessionToken, decide_eq_true rfl, Bool.true_and]

end Law

/-- **Revocation is permanent**, over calls that interleave in any order and over restarts, whether
or not the generation file can be read; and it ends no session that begins after it. -/
theorem revocation_permanent {hashes : Hashes} {passwordHash : Str} {secret : Vector UInt8 32}
    {file : Option Str} {events : List Event} {panel : Panel}
    (hdistinct : hashes.Distinct passwordHash secret) (hdraws : FreshDraws file events)
    (hrun : Run (Step (sign hashes passwordHash secret)) (.boot file) events panel) :
    RevocationLaw events where
  permanent := fun _ _ _ _ _ _ _ _ _ _ _ hevents hminted hverified =>
    revoked_stays_revoked hdistinct.signsApart hrun hdraws hevents hminted hverified
  live := fun _ _ _ _ _ _ _ _ _ _ _ _ _ hevents hgap hspan hminted hbegan =>
    minted_stays_live hrun hevents hgap hspan hminted hbegan

/-- The generation itself is the key, and the key is the code. -/
def plainHashes : Hashes where
  hkdf _ _ info :=
    let generation := ((Str.fromUtf8 (info.drop 20)).bind Str.parseDigits).getD 0
    ⟨(beBytes 32 generation).toArray, by simp⟩
  hmac key _ := key

theorem plainHashes_distinct : plainHashes.Distinct [] (.replicate 32 0) := by
  have hlabel : (Str.asBytes "qeli-web-session-v1:".toList).length = 20 := by decide +kernel
  have hdigits : ∀ g, (Str.asBytes (sessionInfo g)).drop 20 = Str.asBytes (Str.natText g) :=
    fun g => by
      unfold sessionInfo
      rw [Str.asBytes_append]
      generalize Str.asBytes _ = label at hlabel
      exact List.drop_left' hlabel
  have hkey : ∀ g, (sessionKey plainHashes [] (.replicate 32 0) g).toList = beBytes 32 g :=
    fun g => by
      simp only [sessionKey, plainHashes, hdigits, Str.fromUtf8_asBytes, Option.bind_some,
        Str.parseDigits_natText, Option.getD_some, Vector.toList_mk]
  refine ⟨fun g hg g' hg' h => ?_, fun g _ g' _ _ h => h⟩
  have hbytes : beBytes 32 g = beBytes 32 g' := by rw [← hkey g, h, hkey g']
  have hlt : ∀ n < u64Max, n < 256 ^ 32 := fun n hn => hn.trans (by decide)
  rw [← ofBE_beBytes (hlt g hg), hbytes, ofBE_beBytes (hlt g' hg')]

def plainSign : Nat → Str → Str := sign plainHashes [] (.replicate 32 0)

def logoutEvents : List Event :=
  let token := makeSessionToken plainSign 0 100 0
  [.began 0 (.mint 100 0), .inner 0, .inner 0, .inner 0, .minted 0 token, .began 1 .revoke, .inner 1,
    .inner 1, .inner 1, .wrote 1 1, .stored 1 1, .revoked 1 (some 1), .began 2 (.verify token),
    .inner 2, .verified 2 101 (verifySessionToken plainSign 1 101 token)]

/-- The token would live for a day more, and is refused. -/
theorem revocation_permanent_logout :
    RevocationLaw logoutEvents ∧ 101 < expiry 100 0 ∧
      verifySessionToken plainSign 1 101 (makeSessionToken plainSign 0 100 0) = false := by
  have act : ∀ id {panel event shared phase},
      Act plainSign panel.shared id (panel.phases id) event shared phase →
      Step plainSign panel event ⟨shared, Function.update panel.phases id phase⟩ := fun _ => .act
  have hdraws : FreshDraws none logoutEvents := fun before id g after h => by
    have hmem : Event.drew id g ∈ logoutEvents := by rw [h]; simp
    simp [logoutEvents] at hmem
  have hlaw : RevocationLaw logoutEvents := revocation_permanent plainHashes_distinct hdraws <|
    .cons (act 0 .began) <| .cons (act 0 (.missing trivial rfl)) <|
    .cons (act 0 (.read (show readSessionGeneration true none = .ok none from rfl))) <|
    .cons (act 0 (.swapped rfl)) <| .cons (act 0 .minted) <| .cons (act 1 .began) <|
    .cons (act 1 (.locked rfl)) <|
    .cons (act 1 (.persisted (show readSessionGeneration true none = .ok none from rfl))) <|
    .cons (act 1 (.next (show nextGeneration 0 0 = some 1 from rfl))) <| .cons (act 1 .wrote) <|
    .cons (act 1 .stored) <| .cons (act 1 .revoked) <| .cons (act 2 .began) <|
    .cons (act 2 (.cached (by rw [Call.Signs, splitOnce_makeSessionToken]; simp) (by decide))) <|
    .cons (act 2 .verified) .nil
  refine ⟨hlaw, by decide, hlaw.permanent (logoutEvents.take 5) 1
    ((logoutEvents.drop 6).take 5) 1 [] 2 _ (logoutEvents.drop 13) 0 101 _ rfl ?_ ?_⟩
  · simp [logoutEvents]
  · simp [logoutEvents]

end Qeli.Web
