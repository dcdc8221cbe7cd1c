import Qeli.Journal.Session

/-!
# Durable route ownership

The journal under any number of clients. `World` is the journal file, the store in the memory of
the client that holds the lock, and the history of what was done under it, newest event first.
`Step` lets a client take the lock, call an operation, do one effect of it and return, and kills
it between any two effects; its store goes with it, the journal stays. A write may fail after it
has replaced the journal, and the store in memory is then the older of the two until the lock is
taken again. Routes change at any time: a command may answer anything. `Justified` is what an
event has to the events before it, and `durable_ownership` says that it holds of every event of
every run.
-/

namespace Qeli.Journal

open Qeli.Lib

/-! ## The system -/

inductive Call where
  | beforeCommand (args : List String)
  | change (spec : Spec) (c : Change)
  | recover
  deriving DecidableEq, Repr

inductive Action (Bytes : Type) where
  | ran (args : List String) (answer : Except String Output)
  | wrote (what : Option (Spec × Change)) (store : Store) (bytes : Bytes)
  | returned (result : Except String Unit)

/-- Something that `owner` did in a call. -/
structure Event (Bytes : Type) where
  owner : Owner
  call : Call
  action : Action Bytes

structure World (Bytes : Type) where
  journal : Option Bytes
  active : Store
  history : List (Event Bytes)

section System

variable {Bytes : Type} (serde : Serde Bytes) (boot : String)

def load (journal : Option Bytes) : Except String Store :=
  journal.elim (.ok (.new boot)) (Store.decode serde · boot)

/-- The world after the journal was replaced. -/
def World.write (w : World Bytes) (me : Owner) (call : Call) (what : Option (Spec × Change))
    (store : Store) (bytes : Bytes) : World Bytes :=
  { w with
    journal := some bytes
    history := ⟨me, call, .wrote what store bytes⟩ :: w.history }

/-- The answers of an effect, and what it does. -/
def perform (owner : Owner) (call : Call) :
    (e : Effect Bytes) → World Bytes → e.Answer → World Bytes → Prop
  | .verify, w, _, w' => w' = w
  | .interfaceIndex, w, _, w' => w' = w
  | .command args, w, r, w' => w' = { w with history := ⟨owner, call, .ran args r⟩ :: w.history }
  | .active, w, r, w' => r = w.active ∧ w' = w
  | .setActive store, w, _, w' => w' = { w with active := store }
  | .write what store bytes, w, r, w' =>
    -- `PublishedWriteError` comes after the rename
    w' = w.write owner call what store bytes ∨ ∃ error, r = .error error ∧ w' = w

def Call.program (me : Owner) : Call → Io Bytes Unit
  | .beforeCommand args => Journal.beforeCommand serde me args
  | .change spec c => Journal.change serde me spec c
  | .recover => Journal.recover serde me

/-- The client that holds the lock, with the call that it is in. -/
structure State (Bytes : Type) where
  world : World Bytes
  holder : Option (Owner × Option (Call × Io Bytes Unit))

inductive Step : State Bytes → State Bytes → Prop
  | begin {w : World Bytes} {store : Store} (me : Owner)
      (h : load serde boot w.journal = .ok store) :
      Step ⟨w, none⟩ ⟨{ w with active := store }, some (me, none)⟩
  /-- `RouteOwner::new_persistent` and `recover_stale`. -/
  | recover {w : World Bytes} {store : Store} (me : Owner)
      (h : load serde boot w.journal = .ok store) :
      Step ⟨w, none⟩ ⟨{ w with active := store },
        some (me, some (.recover, Call.recover.program serde me))⟩
  | call {w : World Bytes} {me : Owner} {call : Call} (h : call ≠ .recover) :
      Step ⟨w, some (me, none)⟩ ⟨w, some (me, some (call, call.program serde me))⟩
  | act {w w' : World Bytes} {me : Owner} {call : Call} {e : Effect Bytes} {r : e.Answer}
      {k : e.Answer → Io Bytes Unit} (h : perform me call e w r w') :
      Step ⟨w, some (me, some (call, .act e k))⟩ ⟨w', some (me, some (call, k r))⟩
  | finish {w : World Bytes} {me : Owner} {call : Call} {result : Except String Unit} :
      Step ⟨w, some (me, some (call, .done result))⟩
        ⟨{ w with history := ⟨me, call, .returned result⟩ :: w.history }, some (me, none)⟩
  | kill {w : World Bytes} {holder : Owner × Option (Call × Io Bytes Unit)} :
      Step ⟨w, some holder⟩ ⟨w, none⟩

end System

/-! ## What an event has to the past -/

section Laws

variable {Bytes : Type} (serde : Serde Bytes) (boot : String)

def stored : List (Event Bytes) → List Group
  | [] => []
  | ⟨_, _, .wrote _ store _⟩ :: _ => store.groups
  | ⟨_, _, .ran _ _⟩ :: past | ⟨_, _, .returned _⟩ :: past => stored past

/-- `owner` wrote a journal that confirms `spec`. -/
def Confirmed (owner : Owner) (spec : Spec) (past : List (Event Bytes)) : Prop :=
  ∃ call store bytes, ⟨owner, call, .wrote (some (spec, .confirm)) store bytes⟩ ∈ past

/-- The last thing done was to look at the route of a record, and `P` holds of what was seen. -/
def Saw (owner : Owner) (spec : Spec) (past : List (Event Bytes))
    (P : Option (List String) → Prop) : Prop :=
  ∃ output route, past.head? = some ⟨owner, .recover, .ran (showRoute spec) (.ok output)⟩ ∧
    snapshotOf serde.toAddrText spec output = .ok route ∧ P route

/-- The route of the record is there, with its identity. -/
def Matches (spec : Spec) (route : Option (List String)) : Prop :=
  ∃ tokens, route = some tokens ∧ routeMatchesSpec serde.toAddrText spec tokens = true

/-- The commands of a recovery: it looks at routes, and deletes one that its client confirmed and
still owns, if it has just seen that the route is the same. -/
def MayRun (owner : Owner) (args : List String) (past : List (Event Bytes)) : Prop :=
  (∃ spec, args = showRoute spec) ∨ (Confirmed owner args past ∧
    Keeps (stored past) owner false args ∧ Saw serde owner args past (Matches serde args))

/-- The records that a recovery takes from the journal: its owner's, an owned one whose route it
has just seen to be gone or another, a pending one whose route it has just seen to be gone. -/
def MayDrop (owner : Owner) (groups : List Group) (past : List (Event Bytes)) : Prop :=
  ∀ o pending spec, Keeps (stored past) o pending spec → ¬ Keeps groups o pending spec →
    o = owner ∧ Saw serde owner spec past fun route =>
      route = none ∨ (pending = false ∧ ¬ Matches serde spec route)

structure Justified (e : Event Bytes) (past : List (Event Bytes)) : Prop where
  /-- What is written is read back, and two clients never have the same destination. -/
  written : ∀ what store bytes, e.action = .wrote what store bytes →
    Store.decode serde bytes boot = .ok store ∧ Separate serde.toAddrText store.groups
  /-- A physical route is pending in the journal before the command that adds it. -/
  reserved : ∀ args, e.call = .beforeCommand args → e.action = .returned (.ok ()) →
    AddsRoute args → isTunnel (deleteSpec args) e.owner.interface = false →
    Keeps (stored past) e.owner true (deleteSpec args)
  runs : e.call = .recover → ∀ args answer, e.action = .ran args answer →
    MayRun serde e.owner args past
  drops : e.call = .recover → ∀ what store bytes, e.action = .wrote what store bytes →
    MayDrop serde e.owner store.groups past

def Lawful : List (Event Bytes) → Prop
  | [] => True
  | e :: past => Justified serde boot e past ∧ Lawful past

end Laws

/-! ## The invariant -/

section Invariant

variable {Bytes : Type} (serde : Serde Bytes) (boot : String)

/-- What holds at every moment, whoever has the lock. -/
structure Sound (w : World Bytes) : Prop where
  loads : ∃ store, load serde boot w.journal = .ok store ∧ store.groups = stored w.history
  separate : Separate serde.toAddrText (stored w.history)
  tidy : Tidy serde.toAddrText (stored w.history)
  confirmed : ∀ o r, Keeps (stored w.history) o false r → Confirmed o r w.history
  lawful : Lawful serde boot w.history

/-- What holds of the store in memory between two edits. -/
structure Usable (w : World Bytes) : Prop extends Sound serde boot w where
  sameBoot : w.active.boot = boot
  apart : Separate serde.toAddrText w.active.groups
  known : ∀ o r, Keeps w.active.groups o false r → Confirmed o r w.history

/-- The journal has no record that memory does not have. -/
structure Behind (w : World Bytes) : Prop extends Usable serde boot w where
  kept : ∀ o p r, Keeps (stored w.history) o p r → Keeps w.active.groups o p r

/-- Memory and journal are the same. -/
structure Held (w : World Bytes) : Prop extends Sound serde boot w where
  active : load serde boot w.journal = .ok w.active

variable {serde boot} {w w' : World Bytes} {me : Owner} {call : Call}
  {what : Option (Spec × Change)} {store : Store} {spec : Spec}

theorem Confirmed.cons {o : Owner} {past : List (Event Bytes)} (h : Confirmed o spec past)
    (e : Event Bytes) : Confirmed o spec (e :: past) := by
  obtain ⟨call, store, bytes, hmem⟩ := h
  exact ⟨call, store, bytes, List.mem_cons_of_mem _ hmem⟩

theorem Held.groups (h : Held serde boot w) : w.active.groups = stored w.history := by
  obtain ⟨store, hload, hgroups⟩ := h.loads
  rw [h.active] at hload
  rw [Except.ok.inj hload, hgroups]

theorem boot_of_load {journal : Option Bytes} (h : load serde boot journal = .ok store) :
    store.boot = boot := by
  cases journal with
  | none => exact (Except.ok.inj h) ▸ rfl
  | some bytes =>
    obtain ⟨-, -, h⟩ := of_bind_ok h
    obtain ⟨read, -, h⟩ := of_bind_ok h
    obtain ⟨-, -, h⟩ := of_bind_ok h
    obtain rfl := Except.ok.inj h
    split
    case isTrue hsame => exact hsame
    case isFalse => rfl

theorem Held.behind (h : Held serde boot w) : Behind serde boot w where
  toSound := h.toSound
  sameBoot := boot_of_load h.active
  apart := h.groups ▸ h.separate
  known := h.groups ▸ h.confirmed
  kept _ _ _ hr := by rwa [h.groups]

theorem Sound.withActive (h : Sound serde boot w) (store : Store) :
    Sound serde boot { w with active := store } :=
  ⟨h.loads, h.separate, h.tidy, h.confirmed, h.lawful⟩

theorem Sound.begun (h : Sound serde boot w) (hload : load serde boot w.journal = .ok store) :
    Held serde boot { w with active := store } :=
  ⟨h.withActive store, hload⟩

theorem Sound.note (h : Sound serde boot w) {e : Event Bytes}
    (he : Justified serde boot e w.history) (hstored : stored (e :: w.history) = stored w.history) :
    Sound serde boot { w with history := e :: w.history } where
  loads := by rw [hstored]; exact h.loads
  separate := by rw [hstored]; exact h.separate
  tidy := by rw [hstored]; exact h.tidy
  confirmed o r hr := by
    rw [hstored] at hr
    exact (h.confirmed o r hr).cons e
  lawful := ⟨he, h.lawful⟩

/-! ## Edits -/

theorem boot_of_propose {before after : Store} (h : propose serde me before what = .ok after) :
    after.boot = before.boot := by
  cases what with
  | none => rw [Except.ok.inj h]
  | some what => exact (changed_of_change h).1

theorem separate_of_propose {before after : Store} (h : propose serde me before what = .ok after)
    (hbefore : Separate serde.toAddrText before.groups) :
    Separate serde.toAddrText after.groups := by
  cases what with
  | none => exact Except.ok.inj h ▸ hbefore
  | some what => exact (changed_of_change h).2.separate hbefore

theorem origin_of_propose {before after : Store} (h : propose serde me before what = .ok after)
    {o : Owner} {r : Spec} (hr : Keeps after.groups o false r) :
    Keeps before.groups o false r ∨ (o = me ∧ what = some (r, .confirm)) := by
  cases what with
  | none => exact .inl (Except.ok.inj h ▸ hr)
  | some what =>
    obtain ⟨spec, c⟩ := what
    obtain hr | ⟨rfl, rfl, hadds⟩ := (changed_of_change h).2.origin hr
    · exact .inl hr
    · cases c with
      | confirm => exact .inr ⟨rfl, rfl⟩
      | intent | forgetOwned | forgetPending => cases hadds

theorem Usable.write (hserde : serde.RoundTrips) (h : Usable serde boot w)
    (hpropose : propose serde me w.active what = .ok store) {bytes : Bytes}
    (hencode : store.encode serde = .ok bytes)
    (hdrops : call = .recover → MayDrop serde me store.groups w.history) :
    Held serde boot { w.write me call what store bytes with active := store } := by
  have hdecode : Store.decode serde bytes boot = .ok store :=
    decode_of_encode hserde hencode ((boot_of_propose hpropose).trans h.sameBoot)
  have hseparate := separate_of_propose hpropose h.apart
  refine ⟨⟨⟨store, hdecode, rfl⟩, hseparate, tidy_of_encode hencode, fun o r hr => ?_,
    ⟨?_, h.lawful⟩⟩, hdecode⟩
  · obtain hr | ⟨rfl, rfl⟩ := origin_of_propose hpropose hr
    · exact (h.known o r hr).cons _
    · exact ⟨call, store, bytes, List.mem_cons_self⟩
  · refine ⟨?_, ?_, ?_, ?_⟩
    · rintro _ _ _ ⟨⟩
      exact ⟨hdecode, hseparate⟩
    · rintro args - ⟨⟩
    · rintro - args answer ⟨⟩
    · rintro hcall _ _ _ ⟨⟩
      exact hdrops hcall

/-! ## Programs under the lock -/

section Programs

variable {β : Type} {Q : Except String β → World Bytes → Prop}

theorem holds_verify (hw : Sound serde boot w) {Q : Except String Unit → World Bytes → Prop}
    (h : ∀ r, Q r w) : (verify : Io Bytes Unit).Holds (perform me call) (Sound serde boot) Q w :=
  Prog.holds_bind (Prog.holds_ask fun r _ hw' => hw' ▸ ⟨hw, h r⟩)

theorem holds_checked {f : Unit → Io Bytes β} (hw : Sound serde boot w)
    (herror : ∀ e, Q (.error e) w)
    (h : (f ()).Holds (perform me call) (Sound serde boot) Q w) :
    ((verify : Io Bytes Unit) >>= f).Holds (perform me call) (Sound serde boot) Q w := by
  refine Prog.holds_bind (holds_verify hw fun r => ?_)
  cases r with
  | ok => exact h
  | error e => exact herror e

theorem holds_active {f : Store → Io Bytes β} (hw : Sound serde boot w)
    (h : (f w.active).Holds (perform me call) (Sound serde boot) Q w) :
    ((active : Io Bytes Store) >>= f).Holds (perform me call) (Sound serde boot) Q w := by
  refine Prog.holds_bind (Prog.holds_ask fun r w' hw' => ?_)
  obtain ⟨rfl, rfl⟩ := hw'
  exact ⟨hw, h⟩

/-- An edit that failed before it replaced the journal, one that wrote, and one whose write failed
after it had replaced the journal. -/
inductive Edited (serde : Serde Bytes) (boot : String) (me : Owner) (call : Call)
    (what : Option (Spec × Change)) (w : World Bytes) : Except String Unit → World Bytes → Prop
  | refused (e : String) : Edited serde boot me call what w (.error e) w
  | stored {store : Store} {bytes : Bytes} (r : Except String Unit)
      (hstore : propose serde me w.active what = .ok store)
      (hheld : Held serde boot { w.write me call what store bytes with active := store }) :
      Edited serde boot me call what w r { w.write me call what store bytes with active := store }
  | published {store : Store} {bytes : Bytes} (e : String)
      (hstore : propose serde me w.active what = .ok store)
      (hsound : Sound serde boot (w.write me call what store bytes)) :
      Edited serde boot me call what w (.error e) (w.write me call what store bytes)

theorem Edited.usable {r : Except String Unit} (h : Edited serde boot me call what w r w')
    (hw : Usable serde boot w) : Usable serde boot w' := by
  cases h with
  | refused e => exact hw
  | stored r hstore hheld => exact hheld.behind.toUsable
  | published e hstore hsound =>
    exact ⟨hsound, hw.sameBoot, hw.apart, fun o r hr => (hw.known o r hr).cons _⟩

theorem holds_edit (hserde : serde.RoundTrips) (hw : Usable serde boot w)
    (hdrops : call = .recover → ∀ store, propose serde me w.active what = .ok store →
      MayDrop serde me store.groups w.history) :
    (edit serde me what).Holds (perform me call) (Sound serde boot)
      (Edited serde boot me call what w) w := by
  refine holds_checked hw.toSound .refused (holds_active hw.toSound ?_)
  refine Prog.holds_done_bind (fun e _ => .refused e) fun store hstore => ?_
  refine Prog.holds_done_bind (fun e _ => .refused e) fun bytes hbytes => ?_
  refine holds_checked hw.toSound .refused ?_
  have hwritten := hw.write hserde hstore hbytes fun hcall => hdrops hcall store hstore
  -- until the store in memory follows, a client that is killed leaves the new journal
  have hsound : Sound serde boot (w.write me call what store bytes) :=
    hwritten.toSound.withActive w.active
  refine Prog.holds_bind (Prog.holds_bind (Prog.holds_ask fun r w' hw' => ?_))
  obtain rfl | ⟨e, rfl, rfl⟩ := hw'
  · refine ⟨hsound, ?_⟩
    cases r with
    | error e => exact .published e hstore hsound
    | ok =>
      refine Prog.holds_bind (Prog.holds_ask fun u w' hw' => ?_)
      obtain rfl := hw'
      exact ⟨hwritten.toSound, holds_verify hwritten.toSound fun r => .stored r hstore hwritten⟩
  · exact ⟨hw.toSound, .refused e⟩

/-! ## Looking at routes -/

/-- Commands were run since `w`, and the records are the same. -/
structure Looked (serde : Serde Bytes) (boot : String) (w w' : World Bytes) : Prop where
  sound : Sound serde boot w'
  journal : w'.journal = w.journal
  active : w'.active = w.active
  stored : stored w'.history = stored w.history

theorem Looked.held (h : Looked serde boot w w') (hw : Held serde boot w) : Held serde boot w' :=
  ⟨h.sound, by rw [h.journal, h.active, hw.active]⟩

theorem Looked.trans {u : World Bytes} (h : Looked serde boot w w') (h' : Looked serde boot w' u) :
    Looked serde boot w u :=
  ⟨h'.sound, h'.journal.trans h.journal, h'.active.trans h.active, h'.stored.trans h.stored⟩

/-- The last event was a command of this recovery with this answer. -/
def Ran (me : Owner) (args : List String) (answer : Except String Output) (w : World Bytes) :
    Prop :=
  w.history.head? = some ⟨me, .recover, .ran args answer⟩

/-- A way to run commands: some checks before the command itself. -/
def Runner (serde : Serde Bytes) (boot : String) (me : Owner)
    (command : List String → Io Bytes Output) : Prop :=
  ∀ args w, Sound serde boot w → MayRun serde me args w.history →
    (command args).Holds (perform me .recover) (Sound serde boot) (fun r w' =>
      Looked serde boot w w' ∧ ∀ output, r = .ok output → Ran me args (.ok output) w') w

theorem holds_command {args : List String} (hw : Sound serde boot w)
    (hargs : MayRun serde me args w.history) :
    (answered (Prog.ask (Effect.command args)) : Io Bytes Output).Holds (perform me .recover)
      (Sound serde boot) (fun r w' =>
        Looked serde boot w w' ∧ ∀ output, r = .ok output → Ran me args (.ok output) w') w := by
  refine Prog.holds_bind (Prog.holds_ask fun r w' hw' => ?_)
  obtain rfl := hw'
  have hsound : Sound serde boot
      { w with history := ⟨me, .recover, .ran args r⟩ :: w.history } := by
    refine hw.note ⟨?_, ?_, ?_, ?_⟩ rfl
    · rintro _ _ _ ⟨⟩
    · rintro _ ⟨⟩
    · rintro - _ _ ⟨⟩
      exact hargs
    · rintro - _ _ _ ⟨⟩
  refine ⟨hsound, ⟨hsound, rfl, rfl, rfl⟩, ?_⟩
  rintro output rfl
  rfl

theorem Looked.refl (hw : Sound serde boot w) : Looked serde boot w w := ⟨hw, rfl, rfl, rfl⟩

theorem runner_checkedCommand : Runner serde boot me checkedCommand :=
  fun _ _ hw hargs => holds_checked hw
    (fun _ => ⟨.refl hw, by rintro _ ⟨⟩⟩) (holds_command hw hargs)

theorem holds_verifyAbsentTun (hw : Sound serde boot w)
    {Q : Except String Unit → World Bytes → Prop} (h : ∀ r, Q r w) :
    (verifyAbsentTun me : Io Bytes Unit).Holds (perform me call) (Sound serde boot) Q w := by
  refine holds_checked hw (fun e => h _) (Prog.holds_bind (Prog.holds_bind
    (Prog.holds_ask fun r w' hw' => ?_)))
  obtain rfl := hw'
  cases r with
  | ok index | error e => exact ⟨hw, h _⟩

theorem runner_recoveryCommand : Runner serde boot me (recoveryCommand me) := by
  intro args w hw hargs
  refine Prog.holds_bind (holds_verifyAbsentTun hw fun r => ?_)
  cases r with
  | ok => exact holds_command hw hargs
  | error e => exact ⟨.refl hw, by rintro _ ⟨⟩⟩

variable {command : List String → Io Bytes Output}

theorem holds_recordedRoute (hrun : Runner serde boot me command) (hw : Sound serde boot w)
    {Q : Except String (Option (List String)) → World Bytes → Prop}
    (herror : ∀ e w', Looked serde boot w w' → Q (.error e) w')
    (hok : ∀ route w', Looked serde boot w w' → Saw serde me spec w'.history (· = route) →
      Q (.ok route) w') :
    (recordedRouteWith serde spec command).Holds (perform me .recover) (Sound serde boot) Q w := by
  refine Prog.holds_bind ((hrun _ w hw (.inl ⟨spec, rfl⟩)).mono fun r w' h => ?_)
  cases r with
  | error e => exact herror e w' h.1
  | ok output =>
    change Q (snapshotOf serde.toAddrText spec output) w'
    cases hroute : snapshotOf serde.toAddrText spec output with
    | error e => exact herror e w' h.1
    | ok route => exact hok route w' h.1 ⟨output, route, h.2 output rfl, hroute, rfl⟩

theorem Saw.imp {past : List (Event Bytes)} {P P' : Option (List String) → Prop}
    (h : Saw serde me spec past P) (hP : ∀ route, P route → P' route) :
    Saw serde me spec past P' := by
  obtain ⟨output, route, hlast, hroute, hp⟩ := h
  exact ⟨output, route, hlast, hroute, hP route hp⟩

theorem saw_other {past : List (Event Bytes)} {current : List String}
    (h : Saw serde me spec past (· = some current))
    (hother : (!routeMatchesSpec serde.toAddrText spec current) = true) :
    Saw serde me spec past fun route => route = none ∨ ¬ Matches serde spec route := by
  refine h.imp ?_
  rintro _ rfl
  refine .inr ?_
  rintro ⟨tokens, htokens, hmatches⟩
  obtain rfl := Option.some.inj htokens
  rw [hmatches] at hother
  cases hother

/-- The result of `remove_recorded_route_with`: the route was seen to be gone or another. -/
theorem holds_removeRecordedRoute (hrun : Runner serde boot me command) (hw : Held serde boot w)
    (hspec : Keeps w.active.groups me false spec) :
    (removeRecordedRouteWith serde spec command).Holds (perform me .recover) (Sound serde boot)
      (fun r w' => Looked serde boot w w' ∧ ∀ b, r = .ok b → Saw serde me spec w'.history
        fun route => route = none ∨ ¬ Matches serde spec route) w := by
  refine Prog.holds_bind (holds_recordedRoute hrun hw.toSound
    (fun e w' h => ⟨h, by rintro _ ⟨⟩⟩) fun route w₁ h₁ hsaw => ?_)
  cases route with
  | none => exact ⟨h₁, fun _ _ => hsaw.imp fun _ => .inl⟩
  | some current =>
    change (if _ then _ else _ : Io Bytes Bool).Holds _ _ _ _
    split
    case isTrue hother => exact ⟨h₁, fun _ _ => saw_other hsaw hother⟩
    case isFalse hsame =>
      -- the snapshot is the last event, and nothing was written since the record was read
      have hkeeps : Keeps (stored w₁.history) me false spec := by rwa [h₁.stored, ← hw.groups]
      have hmay : MayRun serde me spec w₁.history := by
        refine .inr ⟨h₁.sound.confirmed me spec hkeeps, hkeeps, hsaw.imp ?_⟩
        rintro _ rfl
        exact ⟨current, rfl, by simpa using hsame⟩
      refine Prog.holds_bind (Prog.holds_attempt
        ((hrun spec w₁ h₁.sound hmay).mono fun deletion w₂ h₂ => ?_))
      refine Prog.holds_bind (holds_recordedRoute hrun h₂.1.sound
        (fun e w' h => ⟨(h₁.trans h₂.1).trans h, by rintro _ ⟨⟩⟩) fun route w₃ h₃ hsaw => ?_)
      have hlooked := (h₁.trans h₂.1).trans h₃
      cases route with
      | none => exact ⟨hlooked, fun _ _ => hsaw.imp fun _ => .inl⟩
      | some current =>
        change (if _ then _ else _ : Io Bytes Bool).Holds _ _ _ _
        split
        case isTrue hother => exact ⟨hlooked, fun _ _ => saw_other hsaw hother⟩
        case isFalse => exact ⟨hlooked, by rintro _ ⟨⟩⟩

/-! ## The loops of recovery -/

structure Visits (serde : Serde Bytes) (me : Owner) (pending : Bool) (records : List Spec)
    (w : World Bytes) : Prop where
  nodup : (records.map (destination serde.toAddrText)).Nodup
  keeps : ∀ spec ∈ records, Keeps w.active.groups me pending spec

variable {pending : Bool} {records : List Spec} {errors : List String}

theorem dropped_of_forget (hw : Held serde boot w) {c : Change}
    (hc : ∀ p, c.clears p = true → p = pending)
    (hspec : Keeps w.active.groups me pending spec)
    (hstore : propose serde me w.active (some (spec, c)) = .ok store) {o : Owner} {p : Bool}
    {r : Spec} (hr : Keeps w.active.groups o p r) (hgone : ¬ Keeps store.groups o p r) :
    o = me ∧ p = pending ∧ r = spec := by
  obtain ⟨rfl, hclears, hsame⟩ := (changed_of_change hstore).2.dropped hr hgone
  obtain rfl := hc p hclears
  exact ⟨rfl, rfl, (hw.groups ▸ hw.tidy).unique hr hspec hsame⟩

theorem holds_forget (hserde : serde.RoundTrips) (hw : Held serde boot w) {c : Change}
    (hc : ∀ p, c.clears p = true → p = pending) (hadds : ∀ p, c.adds p = false)
    (hvisits : Visits serde me pending (spec :: records) w)
    (hsaw : Saw serde me spec w.history fun route =>
      route = none ∨ (pending = false ∧ ¬ Matches serde spec route))
    {Q : Except String Unit → World Bytes → Prop}
    (hQ : ∀ r w', Behind serde boot w' →
      (r = .ok () → Held serde boot w' ∧ Visits serde me pending records w') → Q r w') :
    (change serde me spec c).Holds (perform me .recover) (Sound serde boot) Q w := by
  obtain ⟨hspec, hrest⟩ := List.forall_mem_cons.mp hvisits.keeps
  obtain ⟨hnew, hnodup⟩ := List.nodup_cons.mp hvisits.nodup
  rw [change]
  split
  · exact hQ _ _ hw.behind fun _ => ⟨hw, hnodup, hrest⟩
  refine (holds_edit hserde hw.behind.toUsable fun _ store hstore o p r hr hgone => ?_).mono
    fun r w' hedited => ?_
  · rw [← hw.groups] at hr
    obtain ⟨rfl, rfl, rfl⟩ := dropped_of_forget hw hc hspec hstore hr hgone
    exact ⟨rfl, hsaw⟩
  · have husable := hedited.usable hw.behind.toUsable
    cases hedited with
    | refused e => exact hQ _ _ hw.behind (by rintro ⟨⟩)
    | stored r hstore hheld =>
      -- only `spec` is gone, and no other record to visit has its destination
      refine hQ _ _ hheld.behind fun _ => ⟨hheld, hnodup, fun r hr => ?_⟩
      by_contra hgone
      obtain ⟨-, -, rfl⟩ := dropped_of_forget hw hc hspec hstore (hrest r hr) hgone
      exact hnew (List.mem_map_of_mem hr)
    | published e hstore hsound =>
      refine hQ _ _ ⟨husable, fun o p r hr => ?_⟩ (by rintro ⟨⟩)
      obtain hr | ⟨-, -, hadded⟩ := (changed_of_change hstore).2.origin hr
      · exact hr
      · rw [hadds p] at hadded
        cases hadded

theorem Visits.of_looked (h : Visits serde me pending records w)
    (hlooked : Looked serde boot w w') : Visits serde me pending records w' :=
  ⟨h.nodup, fun spec hspec => hlooked.active ▸ h.keeps spec hspec⟩

theorem Visits.tail (h : Visits serde me pending (spec :: records) w) :
    Visits serde me pending records w :=
  ⟨(List.nodup_cons.mp h.nodup).2, (List.forall_mem_cons.mp h.keeps).2⟩

theorem holds_removeAll (hserde : serde.RoundTrips) (hw : Held serde boot w)
    (hvisits : Visits serde me false records w) :
    (removeAll serde me records errors).Holds (perform me .recover) (Sound serde boot)
      (fun r w' => Behind serde boot w' ∧ ∀ errors, r = .ok errors → Held serde boot w') w := by
  induction records generalizing errors w with
  | nil => exact ⟨hw.behind, fun _ _ => hw⟩
  | cons spec records ih =>
    have hspec := hvisits.keeps spec List.mem_cons_self
    refine Prog.holds_bind (Prog.holds_attempt
      ((holds_removeRecordedRoute runner_recoveryCommand hw hspec).mono fun r w₁ h => ?_))
    have hw₁ := h.1.held hw
    cases r with
    | error e => exact ih hw₁ (hvisits.tail.of_looked h.1)
    | ok removed =>
      refine Prog.holds_bind (holds_forget hserde hw₁
        (fun p hp => by simpa [Change.clears] using hp) (fun _ => rfl) (hvisits.of_looked h.1)
        ((h.2 removed rfl).imp fun _ => Or.imp_right fun h => ⟨rfl, h⟩)
        fun r w' hbehind hrest => ?_)
      cases r with
      | ok => exact ih (hrest rfl).1 (hrest rfl).2
      | error e => exact ⟨hbehind, by rintro _ ⟨⟩⟩

theorem holds_reconcileAll (hserde : serde.RoundTrips) (hw : Held serde boot w)
    (hvisits : Visits serde me true records w) :
    (reconcileAll serde me records errors).Holds (perform me .recover) (Sound serde boot)
      (fun _ w' => Behind serde boot w') w := by
  induction records generalizing errors w with
  | nil => exact hw.behind
  | cons spec records ih =>
    refine Prog.holds_bind (Prog.holds_attempt (holds_recordedRoute runner_checkedCommand hw.toSound
      (fun e w' h => ih (h.held hw) (hvisits.tail.of_looked h)) fun route w₁ h hsaw => ?_))
    have hw₁ := h.held hw
    cases route with
    | some current => exact ih hw₁ (hvisits.tail.of_looked h)
    | none =>
      refine Prog.holds_bind (holds_forget hserde hw₁
        (fun p hp => by simpa [Change.clears] using hp) (fun _ => rfl) (hvisits.of_looked h)
        (hsaw.imp fun _ => .inl) fun r w' hbehind hrest => ?_)
      cases r with
      | ok => exact ih (hrest rfl).1 (hrest rfl).2
      | error e => exact hbehind

theorem holds_readRecords (hw : Held serde boot w)
    {Q : Except String (List Spec) → World Bytes → Prop} (herror : ∀ e, Q (.error e) w)
    (hok : ∀ records, Visits serde me pending records w → Q (.ok records) w) :
    (readRecords me pending : Io Bytes (List Spec)).Holds (perform me call) (Sound serde boot) Q
      w :=
  holds_checked hw.toSound herror (holds_active hw.toSound (holds_checked hw.toSound herror
    (hok _ ⟨(hw.groups ▸ hw.tidy).nodup_records me pending, fun _ => keeps_of_mem_records⟩)))

theorem holds_reconcile (hserde : serde.RoundTrips) (hw : Held serde boot w) :
    (reconcile serde me).Holds (perform me .recover) (Sound serde boot)
      (fun _ w' => Behind serde boot w') w := by
  refine Prog.holds_bind (holds_readRecords hw (fun _ => hw.behind) fun records hvisits => ?_)
  refine Prog.holds_bind ((holds_reconcileAll hserde hw hvisits).mono fun r w' hw' => ?_)
  cases r with
  | ok errors | error e => exact hw'

theorem holds_recover (hserde : serde.RoundTrips) (hw : Held serde boot w) :
    (recover serde me).Holds (perform me .recover) (Sound serde boot)
      (fun _ w' => Usable serde boot w') w := by
  have husable := hw.behind.toUsable
  refine Prog.holds_bind (holds_readRecords hw (fun _ => husable) fun records hvisits => ?_)
  refine Prog.holds_bind (holds_readRecords hw (fun _ => husable) fun pending _ => ?_)
  have hverify : ∀ {Q}, (∀ r, Q r w) → (verifyRecoverable me (records ++ pending)).Holds
      (perform me .recover) (Sound serde boot) Q w := fun hQ => by
    rw [verifyRecoverable]
    split
    · exact hQ _
    · exact holds_verifyAbsentTun hw.toSound hQ
  refine Prog.holds_bind (hverify fun r => ?_)
  cases r with
  | error e => exact husable
  | ok =>
    refine Prog.holds_bind ((holds_removeAll hserde hw hvisits).mono fun r w₁ hw₁ => ?_)
    cases r with
    | error e => exact hw₁.1.toUsable
    | ok errors =>
      refine Prog.holds_bind (Prog.holds_attempt
        ((holds_reconcile hserde (hw₁.2 errors rfl)).mono fun reconciled w₂ hw₂ => ?_))
      -- the last edit writes the store as it is; a record that a failed write took is back
      refine Prog.holds_bind ((holds_edit hserde hw₂.toUsable
        fun _ store hstore o p r hr hgone => ?_).mono fun r w₃ hedited => ?_)
      · exact absurd (Except.ok.inj hstore ▸ hw₂.kept o p r hr) hgone
      · have hw₃ := hedited.usable hw₂.toUsable
        cases r with
        | ok | error e => exact hw₃

/-! ## Calls -/

/-- What a call leaves behind, `before_command` the reservation of its route as well. -/
structure Left (serde : Serde Bytes) (boot : String) (me : Owner) (call : Call)
    (r : Except String Unit) (w : World Bytes) : Prop where
  usable : Usable serde boot w
  reserved : ∀ args, call = .beforeCommand args → r = .ok () → AddsRoute args →
    isTunnel (deleteSpec args) me.interface = false →
    Keeps (stored w.history) me true (deleteSpec args)

theorem Left.returned {r : Except String Unit} (h : Left serde boot me call r w) :
    Usable serde boot { w with history := ⟨me, call, .returned r⟩ :: w.history } := by
  refine ⟨h.usable.toSound.note ⟨by rintro _ _ _ ⟨⟩, ?_, by rintro - _ _ ⟨⟩,
    by rintro - _ _ _ ⟨⟩⟩ rfl, h.usable.sameBoot, h.usable.apart,
    fun o r hr => (h.usable.known o r hr).cons _⟩
  rintro args hcall ⟨⟩
  exact h.reserved args hcall rfl

theorem holds_beforeCommand (hserde : serde.RoundTrips) (hw : Usable serde boot w)
    (args : List String) :
    (beforeCommand serde me args).Holds (perform me (.beforeCommand args)) (Sound serde boot)
      (Left serde boot me (.beforeCommand args)) w := by
  have herror : ∀ {w'} e, Usable serde boot w' →
      Left serde boot me (.beforeCommand args) (.error e) w' := fun e hw' => ⟨hw', by rintro _ - ⟨⟩⟩
  refine holds_checked hw.toSound (fun e => herror e hw) ?_
  have hlast : ∀ {w'}, Usable serde boot w' → (AddsRoute args →
      isTunnel (deleteSpec args) me.interface = false →
        Keeps (stored w'.history) me true (deleteSpec args)) →
      (verify : Io Bytes Unit).Holds (perform me (.beforeCommand args)) (Sound serde boot)
        (Left serde boot me (.beforeCommand args)) w' := fun hw' hkeeps =>
    holds_verify hw'.toSound fun r => ⟨hw', by rintro _ ⟨⟩ -; exact hkeeps⟩
  refine Prog.holds_bind ?_
  rw [reserve, change]
  split
  case isFalse hadds => exact hlast hw fun h => absurd h hadds
  case isTrue =>
    split
    case isTrue htunnel => exact hlast hw fun _ h => absurd (htunnel.symm.trans h) Bool.noConfusion
    case isFalse =>
      refine (holds_edit hserde hw (by rintro ⟨⟩)).mono fun r w' hedited => ?_
      have hw' := hedited.usable hw
      cases r with
      | error e => exact herror e hw'
      | ok =>
        cases hedited with
        | stored _ hstore _ => exact hlast hw' fun _ _ => (changed_of_change hstore).2.intent

/-- Every call keeps the store usable; a recovery has to find it as the journal is. -/
theorem holds_call (hserde : serde.RoundTrips) (hw : Usable serde boot w)
    (hrecover : call = .recover → Held serde boot w) :
    (call.program serde me).Holds (perform me call) (Sound serde boot)
      (Left serde boot me call) w := by
  cases call with
  | beforeCommand args => exact holds_beforeCommand hserde hw args
  | recover =>
    exact (holds_recover hserde (hrecover rfl)).mono fun r w' hw' => ⟨hw', by rintro _ ⟨⟩⟩
  | change spec c =>
    change (Journal.change serde me spec c).Holds _ _ _ _
    rw [Journal.change]
    split
    · exact ⟨hw, by rintro _ ⟨⟩⟩
    · exact (holds_edit hserde hw (by rintro ⟨⟩)).mono fun r w' hedited =>
        ⟨hedited.usable hw, by rintro _ ⟨⟩⟩

end Programs

/-! ## Every run -/

def Invariant (serde : Serde Bytes) (boot : String) (s : State Bytes) : Prop :=
  Sound serde boot s.world ∧ ∀ me, (s.holder = some (me, none) → Usable serde boot s.world) ∧
    ∀ call prog, s.holder = some (me, some (call, prog)) →
      prog.Holds (perform me call) (Sound serde boot) (Left serde boot me call) s.world

theorem Step.invariant (hserde : serde.RoundTrips) {s s' : State Bytes} (h : Step serde boot s s')
    (hs : Invariant serde boot s) : Invariant serde boot s' := by
  obtain ⟨hsound, hs⟩ := hs
  cases h with
  | begin me hload =>
    have hheld := hsound.begun hload
    exact ⟨hheld.toSound, fun _ => ⟨fun _ => hheld.behind.toUsable, by rintro _ _ ⟨⟩⟩⟩
  | recover me hload =>
    have hheld := hsound.begun hload
    refine ⟨hheld.toSound, fun _ => ⟨by rintro ⟨⟩, ?_⟩⟩
    rintro _ _ ⟨⟩
    exact holds_call hserde hheld.behind.toUsable fun _ => hheld
  | call hcall =>
    refine ⟨hsound, fun me => ⟨by rintro ⟨⟩, ?_⟩⟩
    rintro _ _ ⟨⟩
    exact holds_call hserde ((hs _).1 rfl) fun h => absurd h hcall
  | act hperform =>
    obtain ⟨hsound', hholds⟩ := (hs _).2 _ _ rfl _ _ hperform
    refine ⟨hsound', fun me => ⟨by rintro ⟨⟩, ?_⟩⟩
    rintro _ _ ⟨⟩
    exact hholds
  | finish =>
    have husable := ((hs _).2 _ _ rfl : Left ..).returned
    exact ⟨husable.toSound, fun _ => ⟨fun _ => husable, by rintro _ _ ⟨⟩⟩⟩
  | kill => exact ⟨hsound, fun _ => ⟨by rintro ⟨⟩, by rintro _ _ ⟨⟩⟩⟩

/-- From a journal without records, in every run of any number of clients, killed anywhere, with
any routes: the journal can be read and gives the records last written, two clients of one network
never have records for the same destination, and every event is justified by those before it. -/
theorem durable_ownership (hserde : serde.RoundTrips) {journal : Option Bytes} {first : Store}
    (hfirst : load serde boot journal = .ok first) (hempty : first.groups = []) {s : State Bytes}
    (hrun : Relation.ReflTransGen (Step serde boot) ⟨⟨journal, first, []⟩, none⟩ s) :
    (∃ store, load serde boot s.world.journal = .ok store ∧
      store.groups = stored s.world.history ∧ Separate serde.toAddrText store.groups) ∧
    Lawful serde boot s.world.history := by
  have hstart : Sound serde boot ⟨journal, first, []⟩ := by
    refine ⟨⟨first, hfirst, hempty⟩, ?_, ⟨.nil, List.forall_mem_nil _⟩, ?_, trivial⟩
    · rintro o o' p p' r r' - - ⟨group, ⟨⟩, -⟩
    · rintro o r ⟨group, ⟨⟩, -⟩
  have hinvariant : Invariant serde boot s := by
    induction hrun with
    | refl => exact ⟨hstart, fun _ => ⟨by rintro ⟨⟩, by rintro _ _ ⟨⟩⟩⟩
    | tail _ hstep ih => exact hstep.invariant hserde ih
  obtain ⟨store, hload, hgroups⟩ := hinvariant.1.loads
  exact ⟨⟨store, hload, hgroups, hgroups ▸ hinvariant.1.separate⟩, hinvariant.1.lawful⟩

/-- A call that is not cut off, with its effects answered by a function. -/
def runCall (serde : Serde Bytes) (answer : Call → (e : Effect Bytes) → World Bytes →
    e.Answer × World Bytes) (me : Owner) (w : World Bytes) (call : Call) : World Bytes :=
  let r := (call.program serde me).exec (answer call) w
  { r.2 with history := ⟨me, call, .returned r.1⟩ :: r.2.history }

section Runs

variable {answer : Call → (e : Effect Bytes) → World Bytes → e.Answer × World Bytes}
  (hanswer : ∀ call e w, perform me call e w (answer call e w).1 (answer call e w).2)

include hanswer

theorem reaches_runCall (w : World Bytes) (call : Call) :
    Relation.ReflTransGen (Step serde boot) ⟨w, some (me, some (call, call.program serde me))⟩
      ⟨runCall serde answer me w call, some (me, none)⟩ := by
  rw [runCall]
  generalize call.program serde me = prog
  induction prog generalizing w with
  | done r => exact .single .finish
  | act e k ih => exact .head (.act (hanswer call e w)) (ih _ _)

theorem reaches_calls (hload : load serde boot w.journal = .ok store) (calls : List Call)
    (hcalls : .recover ∉ calls) : Relation.ReflTransGen (Step serde boot) ⟨w, none⟩
      ⟨calls.foldl (runCall serde answer me) { w with active := store }, none⟩ := by
  refine .head (.begin me hload) (.tail (b := ⟨_, some (me, none)⟩) ?_ .kill)
  generalize { w with active := store } = w
  induction calls generalizing w with
  | nil => exact .refl
  | cons call calls ih =>
    rw [List.mem_cons, not_or] at hcalls
    exact (reaches_runCall hanswer w call).head (.call (Ne.symm hcalls.1)) |>.trans (ih hcalls.2 _)

theorem reaches_recover (hload : load serde boot w.journal = .ok store) :
    Relation.ReflTransGen (Step serde boot) ⟨w, none⟩
      ⟨runCall serde answer me { w with active := store } .recover, none⟩ :=
  .head (.recover me hload) (.tail (reaches_runCall hanswer _ _) .kill)

end Runs

end Invariant

/-! ## A route that outlives its client -/

section Witness

def tun : Owner := ⟨.cookie 1, "tun0"⟩

def routeSpec : Spec := ["route", "del", "192.0.2.0/24", "dev", "eth0"]

def specText : String := "[\"route\",\"del\",\"192.0.2.0/24\",\"dev\",\"eth0\"]"

def groupJson (owned pending : String) : String :=
  "\x7b\"cookie\":1,\"interface\":\"tun0\",\"owned\":[" ++ owned ++ "],\"pending\":[" ++ pending ++
    "]\x7d"

def storeText (groups : String) : String :=
  "\x7b\"version\":1,\"boot\":\"boot\",\"groups\":[" ++ groups ++ "]\x7d"

/-- The journals of the run as `serde_json` writes them. -/
def journals : List (Store × String) :=
  [(⟨1, "boot", []⟩, storeText ""),
    (⟨1, "boot", [⟨.cookie 1, "tun0", [], [routeSpec]⟩]⟩, storeText (groupJson "" specText)),
    (⟨1, "boot", [⟨.cookie 1, "tun0", [routeSpec], []⟩]⟩, storeText (groupJson specText ""))]

/-- One network as text, and the journals above. -/
def oneRoute : Serde String where
  parseIp _ := .error "invalid IP address syntax"
  parseNet value :=
    if value = "192.0.2.0/24" then .ok ⟨.v4 0xC0000200#32, 24, by decide⟩
    else .error "invalid IP address syntax"
  parseU32 value := if value = "0" then .ok 0 else .error "invalid digit found in string"
  len := String.utf8ByteSize
  fromSlice bytes := ((journals.find? (·.2 = bytes)).map (·.1)).elim (.error "expected value") .ok
  toVec store := ((journals.find? (·.1 = store)).map (·.2)).elim (.error "not of the run") .ok

theorem oneRoute_roundTrips : oneRoute.RoundTrips := by
  have hread : ∀ entry ∈ journals, oneRoute.fromSlice entry.2 = .ok entry.1 := by decide +kernel
  intro store bytes h
  change ((journals.find? (·.1 = store)).map (·.2)).elim _ _ = _ at h
  cases hfound : journals.find? (·.1 = store) with
  | none =>
    rw [hfound] at h
    cases h
  | some entry =>
    rw [hfound] at h
    obtain rfl := Except.ok.inj h
    have hstore : entry.1 = store := by simpa using List.find?_some hfound
    rw [hread entry (List.mem_of_find?_eq_some hfound), hstore]

/-- The checks pass, the write that confirms the route fails after it has replaced the journal, and
the route is there until it is deleted. -/
def answerRoute (call : Call) : (e : Effect String) → World String → e.Answer × World String
  | .verify, w => (.ok (), w)
  | .interfaceIndex, w => (.ok none, w)
  | .command args, w =>
    let gone := w.history.any fun e => match e.action with
      | .ran ran _ => ran.contains "del"
      | _ => false
    let output := ⟨true, .ok (if gone then "" else "192.0.2.0/24 dev eth0 scope link\n"), ""⟩
    (.ok output, { w with history := ⟨tun, call, .ran args (.ok output)⟩ :: w.history })
  | .active, w => (w.active, w)
  | .setActive store, w => ((), { w with active := store })
  | .write what store bytes, w =>
    (if call = .change routeSpec .confirm then .error "persistence is uncertain" else .ok (),
      w.write tun call what store bytes)

/-- A client reserves a route and confirms it with a write that fails after the rename. -/
def confirmedRoute : World String :=
  [.beforeCommand ["route", "add", "192.0.2.0/24", "dev", "eth0"],
    .change routeSpec .confirm].foldl (runCall oneRoute answerRoute tun) ⟨none, .new "boot", []⟩

/-- The client is killed, and the next one on the interface deletes the route. -/
theorem durable_ownership_recovered :
    ∃ s, Relation.ReflTransGen (Step oneRoute "boot") ⟨⟨none, .new "boot", []⟩, none⟩ s ∧
      s.world.history.length = 10 ∧ load oneRoute "boot" s.world.journal = .ok (.new "boot") ∧
      Lawful oneRoute "boot" s.world.history := by
  have hanswer : ∀ call e w,
      perform tun call e w (answerRoute call e w).1 (answerRoute call e w).2 := by
    rintro call (_ | _ | args | _ | store | ⟨what, store, bytes⟩) w
    exacts [rfl, rfl, rfl, ⟨rfl, rfl⟩, rfl, .inl rfl]
  have hadded : Relation.ReflTransGen (Step oneRoute "boot") ⟨⟨none, .new "boot", []⟩, none⟩
      ⟨confirmedRoute, none⟩ := reaches_calls hanswer rfl _ (by decide)
  have hload : load oneRoute "boot" confirmedRoute.journal =
      .ok ⟨1, "boot", [⟨.cookie 1, "tun0", [routeSpec], []⟩]⟩ := by decide +kernel
  have hrecovered := hadded.trans (reaches_recover hanswer hload)
  exact ⟨_, hrecovered, by decide +kernel, by decide +kernel,
    (durable_ownership oneRoute_roundTrips rfl rfl hrecovered).2⟩

end Witness

end Qeli.Journal
