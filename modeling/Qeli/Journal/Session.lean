import Qeli.Journal.Store
import Qeli.Lib.Effects

/-!
# Sessions of the route journal

`client/route/persistent/native.rs`, with the functions of `client/route/ownership.rs` that it
calls. A session holds the journal lock while its operations run; they are programs whose effects
are its checks, the `ip` commands it runs and the replacement of the journal file. The lock, the
state directory and the deadline are inside the checks, whose answers are arbitrary, as are those
of the commands: routes are seen only through them.
-/

namespace Qeli.Journal

open Qeli.Lib

/-! ## Snapshots of a route -/

/-- What an `ip` command leaves: `stdout` as `from_utf8` reads it, `stderr` decoded and trimmed. -/
structure Output where
  success : Bool
  stdout : Except String String
  stderr : String
  deriving DecidableEq, Repr

def deleteSpec (command : List String) : Spec := command.set (1 + offsetOf command) "del"

def valueAfter (tokens : List String) (name : String) : Option String :=
  ((tokens.zip tokens.tail).find? (·.1 == name)).map (·.2)

section Snapshots

variable (text : AddrText)

def snapshotPrefix (value : String) (expected : Option (Route.IpAddr × Nat)) :
    Option (Route.IpAddr × Nat) :=
  if value = "default" then expected.filter (·.2 == 0) else prefixOf text value

def routeSatisfiesSpec (spec : Spec) (tokens : List String) : Bool :=
  let key := routeKey spec
  let blackhole := key.contains "blackhole"
  let expected := key.getLast?.bind (prefixOf text)
  let attrs := spec.drop key.length
  (tokens.head? == some "blackhole") == blackhole && expected.isSome &&
    tokens[if blackhole then 1 else 0]?.bind (snapshotPrefix text · expected) == expected &&
    (blackhole || attrs.any fun arg => arg == "via" || arg == "dev") &&
    ["via", "dev", "src", "metric", "proto"].all fun name =>
      match valueAfter attrs name with
      | some value =>
        -- Linux does not display an IPv4 metric of zero
        (name == "metric" && value == "0" && spec.head? != some "-6" &&
          !tokens.contains "metric") || valueAfter tokens name == some value
      | none => name != "via" || (valueAfter tokens name).isNone

/-- The selectors of a route, each at most once. -/
def identityAttrs : List (String × String) → List String → Option (List (String × String))
  | attrs, [] => some attrs
  | attrs, field :: tokens =>
    if field = "linkdown" then identityAttrs attrs tokens
    else if field ∉ ["via", "dev", "src", "metric", "proto", "scope", "pref"] then none
    else
      match tokens with
      | [] => none
      | value :: tokens =>
        if (attrs.lookup field).isSome then none
        else identityAttrs ((field, value) :: attrs) tokens

/-- The comparison of the selectors in `route_matches_spec`. -/
def sameIdentity (ipv6 blackhole : Bool) (expected observed : List (String × String)) : Bool :=
  let metric (attrs : List (String × String)) : Option Nat :=
    (text.parseU32 ((attrs.lookup "metric").getD (if ipv6 then "1024" else "0"))).toOption.map
      fun n => if ipv6 && n == 0 then 1024 else n
  let protocol (attrs : List (String × String)) : String :=
    let value := (attrs.lookup "proto").getD "boot"
    if value = "3" then "boot" else value
  let scope (attrs : List (String × String)) : String :=
    let default := if !blackhole && (expected.lookup "dev").isSome &&
      (expected.lookup "via").isNone then "link" else "global"
    let value := (attrs.lookup "scope").getD default
    if value = "universe" ∨ value = "0" then "global" else if value = "253" then "link" else value
  let device (attrs : List (String × String)) : Option String :=
    (attrs.lookup "dev").or (if ipv6 && blackhole then some "lo" else none)
  expected.lookup "via" == observed.lookup "via" && device expected == device observed &&
    expected.lookup "src" == observed.lookup "src" && (metric expected).isSome &&
    metric expected == metric observed && protocol expected == protocol observed &&
    if ipv6 then
      ((observed.lookup "scope").all fun s => ["global", "universe", "0"].contains s) &&
        (expected.lookup "pref").getD "medium" == (observed.lookup "pref").getD "medium"
    else scope expected == scope observed && (observed.lookup "pref").isNone

def routeMatchesSpec (spec : Spec) (tokens : List String) : Bool :=
  let key := routeKey spec
  let blackhole := key.contains "blackhole"
  routeSatisfiesSpec text spec tokens &&
    match identityAttrs [] (spec.drop key.length),
      identityAttrs [] (tokens.drop (if blackhole then 2 else 1)) with
    | some expected, some observed =>
      sameIdentity text (spec.head? == some "-6") blackhole expected observed
    | _, _ => false

/-- `str::split_whitespace`. -/
def splitWhitespace (line : Str) : List String :=
  ((line.splitOnP Str.isWhitespace).filter (· ≠ [])).map String.ofList

def parseRouteSnapshot (destination : String) (stdout : Except String String) :
    Except String (Option (List String)) := do
  let out ← stdout
  match (Str.lines out.toList).filter (Str.trim · ≠ []) with
  | [] => return none
  | [line] =>
    let tokens := splitWhitespace line
    let index := if tokens.head? = some "blackhole" then 1 else 0
    let observed := tokens[index]?.bind (snapshotPrefix text · (prefixOf text destination))
    ensure (observed.isSome && observed == prefixOf text destination)
      s!"invalid route snapshot for {destination}"
    return some tokens
  | _ => .error s!"ambiguous route snapshot for {destination}"

def showRoute (spec : Spec) : List String :=
  (if spec.head? = some "-6" then ["-6"] else []) ++
    ["route", "show", "exact", (routeKey spec).getLastD ""]

def snapshotOf (spec : Spec) (output : Output) : Except String (Option (List String)) := do
  let destination := (routeKey spec).getLastD ""
  ensure output.success
    ("could not inspect owned route " ++ destination ++ ": " ++ output.stderr)
  parseRouteSnapshot text destination output.stdout

end Snapshots

/-! ## Effects -/

inductive Effect (Bytes : Type) where
  /-- `Session::verify`. -/
  | verify
  /-- Whether the interface of the session exists. -/
  | interfaceIndex
  | command (args : List String)
  /-- The store in memory. -/
  | active
  | setActive (store : Store)
  /-- `write_atomic_private` of the encoded store, with the change that led to it. -/
  | write (what : Option (Spec × Change)) (store : Store) (bytes : Bytes)

abbrev Effect.Answer {Bytes : Type} : Effect Bytes → Type
  | .verify => Except String Unit
  | .interfaceIndex => Except String (Option Nat)
  | .command _ => Except String Output
  | .active => Store
  | .setActive _ => Unit
  | .write .. => Except String Unit

abbrev Io (Bytes α : Type) : Type := Prog (Effect Bytes) Effect.Answer String α

/-! ## Operations -/

variable {Bytes : Type} (serde : Serde Bytes) (me : Owner)

/-- An effect whose answer may be an error. -/
def answered {α : Type} (answer : Io Bytes (Except String α)) : Io Bytes α := answer >>= .done

def verify : Io Bytes Unit := answered (Prog.ask Effect.verify)

def active : Io Bytes Store := Prog.ask Effect.active

def setActive (store : Store) : Io Bytes Unit := Prog.ask (Effect.setActive store)

def readRecords (pending : Bool) : Io Bytes (List Spec) := do
  verify
  let store ← active
  verify
  return store.records me pending

/-- What an edit makes of the store: a change, or nothing. -/
def propose (store : Store) : Option (Spec × Change) → Except String Store
  | none => .ok store
  | some (spec, c) => store.change serde.toAddrText me spec c

def edit (what : Option (Spec × Change)) : Io Bytes Unit := do
  verify
  let store ← active
  let proposed ← .done (propose serde me store what)
  let bytes ← .done (proposed.encode serde)
  verify
  answered (Prog.ask (Effect.write what proposed bytes))
  setActive proposed
  verify

def change (spec : Spec) (c : Change) : Io Bytes Unit :=
  if isTunnel spec me.interface then return () else edit serde me (some (spec, c))

/-- `ip route add` or `ip route replace`. -/
def AddsRoute (args : List String) : Prop :=
  args[offsetOf args]? = some "route" ∧
    (args[offsetOf args + 1]? = some "add" ∨ args[offsetOf args + 1]? = some "replace")

instance (args : List String) : Decidable (AddsRoute args) := inferInstanceAs (Decidable (_ ∧ _))

/-- The intent of a command, if it adds a route. -/
def reserve (args : List String) : Io Bytes Unit :=
  if AddsRoute args then change serde me (deleteSpec args) .intent else return ()

def beforeCommand (args : List String) : Io Bytes Unit := do
  verify
  reserve serde me args
  verify

def recordedRouteWith (spec : Spec) (command : List String → Io Bytes Output) :
    Io Bytes (Option (List String)) := do
  let output ← command (showRoute spec)
  .done (snapshotOf serde.toAddrText spec output)

def removeRecordedRouteWith (spec : Spec) (command : List String → Io Bytes Output) :
    Io Bytes Bool := do
  match ← recordedRouteWith serde spec command with
  | none => return true
  | some current =>
    if !routeMatchesSpec serde.toAddrText spec current then return false
    else
      let deletion ← (command spec).attempt
      match ← recordedRouteWith serde spec command with
      | none => return true
      | some current =>
        if !routeMatchesSpec serde.toAddrText spec current then return false
        else
          let detail := match deletion with
            | .ok output =>
              if output.success then "command succeeded but route remains" else output.stderr
            | .error error => error
          .done (.error ("ip " ++ " ".intercalate spec ++ ": " ++ detail))

def verifyAbsentTun : Io Bytes Unit := do
  verify
  let index ← answered (Prog.ask Effect.interfaceIndex)
  .done (ensure index.isNone ("client route recovery refuses a live or persistent TUN " ++
    me.interface ++ "; stop its owner and inspect the journal"))

/-- With records to recover, the interface must not exist. -/
def verifyRecoverable (records : List Spec) : Io Bytes Unit :=
  if records.isEmpty then return () else verifyAbsentTun me

/-- The commands of `reconcile`. -/
def checkedCommand (args : List String) : Io Bytes Output := do
  verify
  answered (Prog.ask (Effect.command args))

/-- The commands of `recover`. -/
def recoveryCommand (args : List String) : Io Bytes Output := do
  verifyAbsentTun me
  answered (Prog.ask (Effect.command args))

def incomplete (errors : List String) : Except String Unit :=
  ensure errors.isEmpty ("client route recovery incomplete: " ++ "; ".intercalate errors)

/-- The loop of `reconcile` over the pending records. -/
def reconcileAll : List Spec → List String → Io Bytes (List String)
  | [], errors => return errors
  | spec :: records, errors => do
    match ← (recordedRouteWith serde spec checkedCommand).attempt with
    | .ok none =>
      change serde me spec .forgetPending
      reconcileAll records errors
    | .ok (some _) =>
      reconcileAll records (errors ++
        ["unresolved physical route intent without delete authority: ip " ++ " ".intercalate spec])
    | .error error => reconcileAll records (errors ++ [error])

def reconcile : Io Bytes Unit := do
  let records ← readRecords me true
  let errors ← reconcileAll serde me records []
  .done (incomplete errors)

/-- The loop of `recover` over the owned records. -/
def removeAll : List Spec → List String → Io Bytes (List String)
  | [], errors => return errors
  | spec :: records, errors => do
    match ← (removeRecordedRouteWith serde spec (recoveryCommand me)).attempt with
    | .ok _ =>
      change serde me spec .forgetOwned
      removeAll records errors
    | .error error => removeAll records (errors ++ [error])

def recover : Io Bytes Unit := do
  let records ← readRecords me false
  let pending ← readRecords me true
  verifyRecoverable me (records ++ pending)
  let errors ← removeAll serde me records []
  let reconciled ← (reconcile serde me).attempt
  let errors := match reconciled with
    | .ok _ => errors
    | .error error => errors ++ [error]
  edit serde me none
  .done (incomplete errors)

end Qeli.Journal
