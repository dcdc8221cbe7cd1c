import Mathlib.Data.List.Nodup
import Qeli.Lib.Run
import Qeli.Lib.Text
import Qeli.Route.Cidr

/-!
# Records of the route journal

`client/route/persistent.rs` and the keys of `client/route/ownership.rs`. A `Store` is what the
journal keeps for one boot: for every network and interface, the delete specifications of the
routes its client owns and of those it may have added. `Store.change` is its only edit. The
parsers of addresses are the parameter `AddrText`, and `serde_json` is `Serde`, whose bytes may be
of any type with a length.
-/

namespace Qeli.Journal

open Qeli.Lib Qeli.Route

/-! ## Keys -/

/-- The arguments of an `ip` command that deletes one route. -/
abbrev Spec := List String

/-- The parsers of the standard library and of `ipnet`, with the texts of their errors. -/
structure AddrText where
  parseIp : String → Except String IpAddr
  parseNet : String → Except String IpNet
  parseU32 : String → Except String Nat

def ensure (condition : Bool) (message : String) : Except String Unit :=
  if condition then .ok () else .error message

def offsetOf (args : List String) : Nat := if args.head? = some "-6" then 1 else 0

def routeKey (args : Spec) : Spec :=
  let offset := offsetOf args
  args.take (offset + 3 + if args.getD (offset + 2) "" = "blackhole" then 1 else 0)

def networkOf (net : IpNet) : IpAddr :=
  match net.addr with
  | .v4 _ => .v4 (.ofNat 32 net.network)
  | .v6 _ => .v6 (.ofNat 128 net.network)

section Text

variable (text : AddrText)

/-- The network of a destination; an address alone is a network of full length. -/
def canonical (value : String) : Except String (IpAddr × Nat) :=
  match text.parseNet value with
  | .ok net => .ok (networkOf net, net.prefixLen)
  | .error _ => (text.parseIp value).map fun ip => (ip, if ip.isIpv4 then 32 else 128)

/-- The function `prefix`. -/
def prefixOf (value : String) : Option (IpAddr × Nat) := (canonical text value).toOption

def sameRouteKey (left right : Spec) : Bool :=
  let left := routeKey left
  let right := routeKey right
  (left.head? == some "-6") == (right.head? == some "-6") &&
    (left.contains "blackhole" == right.contains "blackhole") &&
    left.getLast?.bind (prefixOf text) == right.getLast?.bind (prefixOf text)

/-- Family, blackhole flag and canonical prefix of a specification. -/
def destination (spec : Spec) : Bool × Bool × Option (IpAddr × Nat) :=
  ((routeKey spec).head? == some "-6", (routeKey spec).contains "blackhole",
    (routeKey spec).getLast?.bind (prefixOf text))

theorem sameRouteKey_iff {left right : Spec} :
    sameRouteKey text left right = true ↔ destination text left = destination text right := by
  simp only [sameRouteKey, destination, Bool.and_eq_true, beq_iff_eq, Prod.mk.injEq, and_assoc]

/-! ## Validation -/

def validInterface (name : String) : Bool :=
  !name.isEmpty && name.utf8ByteSize ≤ 15 && name != "." && name != ".." &&
    !name.toList.any fun c => Str.isControl c || Str.isWhitespace c || c == '/' || c == '\\'

def isTunnel (spec : Spec) (interface : String) : Bool :=
  (spec.zip spec.tail).any fun p => p.1 == "dev" && p.2 == interface

def addressOf (value : String) : Except String IpAddr :=
  match text.parseNet value with
  | .ok net => .ok net.addr
  | .error _ => text.parseIp value

def validateKey (spec : Spec) : Except String Unit := do
  let offset := offsetOf spec
  ensure (spec[offset]? == some "route" && spec[offset + 1]? == some "del")
    "invalid route reservation key"
  let index := offset + 2 + if spec[offset + 2]? = some "blackhole" then 1 else 0
  let destination ← spec[index]?.elim (.error "missing route reservation destination") .ok
  let address ← addressOf text destination
  ensure (!address.isIpv4 == (offset == 1)) "route reservation family mismatch"

def validateField (ipv6 : Bool) (field value : String) : Except String Unit :=
  match field with
  | "dev" => ensure (validInterface value) "invalid recovery device"
  | "via" | "src" => do
    let address ← text.parseIp value
    ensure (!address.isIpv4 == ipv6) "recovery address family mismatch"
  | "metric" => (text.parseU32 value).map fun _ => ()
  | "proto" => ensure (["boot", "3"].contains value) "foreign recovery route protocol"
  | "scope" =>
    ensure (["link", "global", "universe", "0", "253"].contains value) "invalid recovery scope"
  | "pref" => ensure (ipv6 && value == "medium") "invalid recovery preference"
  | _ => .error s!"unsupported recovery route field {field}"

/-- The loop over the selectors; `attrs` are those already seen. -/
def validateFields (ipv6 : Bool) :
    List (String × String) → List String → Except String (List (String × String))
  | attrs, [] => .ok attrs
  | attrs, field :: fields =>
    if field = "linkdown" then validateFields ipv6 attrs fields
    else
      match fields with
      | [] => .error "incomplete recovery route field"
      | value :: fields => do
        ensure (attrs.lookup field).isNone "duplicate recovery route field"
        validateField text ipv6 field value
        validateFields ipv6 ((field, value) :: attrs) fields

def validateSpec (spec : Spec) : Except String Unit := do
  ensure (3 ≤ spec.length && spec.length ≤ 24 && spec.all fun s => !s.isEmpty &&
      s.utf8ByteSize ≤ 128 && !s.toList.any fun c => Str.isControl c || Str.isWhitespace c)
    "invalid recovery route arguments"
  let offset := offsetOf spec
  ensure (spec[offset]? == some "route" && spec[offset + 1]? == some "del")
    "invalid recovery route command"
  let blackhole := spec[offset + 2]? == some "blackhole"
  let destination := offset + 2 + if blackhole then 1 else 0
  let value ← spec[destination]?.elim (.error "missing recovery destination") .ok
  let address ← addressOf text value
  ensure (!address.isIpv4 == (offset == 1)) "recovery route family mismatch"
  let attrs ← validateFields text (offset == 1) [] (spec.drop (destination + 1))
  ensure (blackhole || (attrs.lookup "dev").isSome) "recovery route has no physical device"
  ensure (!blackhole || ((attrs.lookup "via").isNone && (attrs.lookup "src").isNone))
    "invalid blackhole recovery selector"

end Text

/-! ## The store -/

/-- A network namespace by its cookie, or the only network of the boot. -/
inductive Scope where
  | cookie (cookie : Nat)
  | single
  deriving DecidableEq, Repr

def Scope.isCookie : Scope → Bool
  | .cookie _ => true
  | .single => false

/-- One client: an interface of a network. -/
structure Owner where
  cookie : Scope
  interface : String
  deriving DecidableEq, Repr

structure Group where
  cookie : Scope
  interface : String
  owned : List Spec
  pending : List Spec
  deriving DecidableEq, Repr

def Group.owner (self : Group) : Owner := ⟨self.cookie, self.interface⟩

def Group.records (self : Group) (pending : Bool) : List Spec :=
  if pending then self.pending else self.owned

structure Store where
  version : Nat
  boot : String
  groups : List Group
  deriving DecidableEq, Repr

inductive Change where
  | intent
  | confirm
  | forgetOwned
  | forgetPending
  deriving DecidableEq, Repr

def Change.forgets : Change → Bool
  | .forgetOwned | .forgetPending => true
  | .intent | .confirm => false

/-- To forget a record, its destination is enough. -/
def Change.validate (text : AddrText) (spec : Spec) (self : Change) : Except String Unit :=
  if self.forgets then validateKey text spec else validateSpec text spec

/-- The libraries under the journal. -/
structure Serde (Bytes : Type) extends AddrText where
  len : Bytes → Nat
  fromSlice : Bytes → Except String Store
  toVec : Store → Except String Bytes

def limit : Nat := 8 * 1024 * 1024

def maxGroups : Nat := 128

def maxRecords : Nat := 8192

/-- The loop over one list of records; `destinations` are those already seen. -/
def validateRecords (text : AddrText) (interface : String) :
    List (Bool × Bool × IpAddr × Nat) → List Spec → Except String Unit
  | _, [] => .ok ()
  | destinations, spec :: records => do
    validateSpec text spec
    ensure (!isTunnel spec interface) "TUN routes are not physical recovery records"
    let key := routeKey spec
    let network ← canonical text (key.getLastD "")
    let destination := (spec.head? == some "-6", key.contains "blackhole", network)
    ensure (!destinations.contains destination) "duplicate route journal destination"
    validateRecords text interface (destination :: destinations) records

/-- The loop over the groups; `identities` are the owners already seen. -/
def validateGroups (text : AddrText) (version : Nat) :
    List Owner → List Group → Except String Unit
  | _, [] => .ok ()
  | identities, group :: groups => do
    ensure (group.cookie != .cookie 0 && (version == 2 || group.cookie.isCookie) &&
      validInterface group.interface && !identities.contains group.owner)
      "invalid route journal owner"
    validateRecords text group.interface [] group.owned
    validateRecords text group.interface [] group.pending
    validateGroups text version (group.owner :: identities) groups

/-- The group of another client of the network has a record for the destination. -/
def Group.reserves (text : AddrText) (owner : Owner) (spec : Spec) (self : Group) : Bool :=
  self.cookie == owner.cookie && self.interface != owner.interface &&
    (self.owned ++ self.pending).any (sameRouteKey text · spec)

/-- What a change does to the group of its owner. -/
def Group.apply (text : AddrText) (spec : Spec) (self : Group) : Change → Group
  | .intent => { self with pending := self.pending.filter (!sameRouteKey text · spec) ++ [spec] }
  | .confirm => { self with
      pending := self.pending.filter (!sameRouteKey text · spec)
      owned := self.owned.filter (!sameRouteKey text · spec) ++ [spec] }
  | .forgetOwned => { self with owned := self.owned.filter (!sameRouteKey text · spec) }
  | .forgetPending => { self with pending := self.pending.filter (!sameRouteKey text · spec) }

namespace Store

def new (boot : String) : Store := ⟨1, boot, []⟩

def validate (text : AddrText) (self : Store) : Except String Unit := do
  ensure ((self.version == 1 || self.version == 2) && !self.boot.isEmpty &&
      self.boot.utf8ByteSize ≤ 128 && !self.boot.toList.any Str.isControl)
    "invalid client route journal header"
  ensure (self.groups.length ≤ maxGroups &&
      (self.groups.map fun g => g.owned.length + g.pending.length).sum ≤ maxRecords)
    "client route journal capacity exceeded"
  validateGroups text self.version [] self.groups

def decode {Bytes : Type} (serde : Serde Bytes) (bytes : Bytes) (boot : String) :
    Except String Store := do
  ensure (serde.len bytes ≤ limit) "client route journal size limit"
  let store ← serde.fromSlice bytes
  store.validate serde.toAddrText
  return if store.boot = boot then store else new boot

def encode {Bytes : Type} (serde : Serde Bytes) (self : Store) : Except String Bytes := do
  self.validate serde.toAddrText
  let bytes ← serde.toVec self
  ensure (serde.len bytes ≤ limit) "client route journal size limit"
  return bytes

def records (self : Store) (owner : Owner) (pending : Bool) : List Spec :=
  ((self.groups.find? (·.owner = owner)).map (·.records pending)).getD []

def checkUnclaimed (text : AddrText) (self : Store) (owner : Owner) (spec : Spec) :
    Except String Unit := do
  validateKey text spec
  match self.groups.find? (·.reserves text owner spec) with
  | some group => .error ("route destination is reserved by Qeli client " ++ group.interface ++
      "; shared borrowing is unsupported")
  | none => .ok ()

/-- The end of `change`: the group at `index` is changed, and groups without records go. -/
def alter (text : AddrText) (self : Store) (groups : List Group) (index : Nat) (spec : Spec)
    (change : Change) : Except String Store := do
  let groups := groups.modify index (·.apply text spec change)
  let self := { self with groups := groups.filter fun g => !g.owned.isEmpty || !g.pending.isEmpty }
  self.validate text
  return self

def change (text : AddrText) (self : Store) (owner : Owner) (spec : Spec) (change : Change) :
    Except String Store := do
  let self := if owner.cookie = .single then { self with version := 2 } else self
  change.validate text spec
  self.checkUnclaimed text owner spec
  match self.groups.findIdx? (·.owner = owner) with
  | some index => self.alter text self.groups index spec change
  | none =>
    if change.forgets then
      return self
    else
      let groups := self.groups ++ [⟨owner.cookie, owner.interface, [], []⟩]
      self.alter text groups self.groups.length spec change

end Store

/-! ## Who keeps what -/

def Keeps (groups : List Group) (owner : Owner) (pending : Bool) (spec : Spec) : Prop :=
  ∃ group ∈ groups, group.owner = owner ∧ spec ∈ group.records pending

section Keeping

variable {text : AddrText} {groups front back : List Group} {group : Group} {owner o : Owner}
  {pending p : Bool} {spec r : Spec} {store store' : Store} {c : Change}

theorem keeps_append_cons : Keeps (front ++ group :: back) o p r ↔
    Keeps (front ++ back) o p r ∨ (group.owner = o ∧ r ∈ group.records p) := by
  simp only [Keeps, List.mem_append, List.mem_cons]
  constructor
  · rintro ⟨g, hmem | rfl | hmem, hg⟩
    exacts [.inl ⟨g, .inl hmem, hg⟩, .inr hg, .inl ⟨g, .inr hmem, hg⟩]
  · rintro (⟨g, hmem | hmem, hg⟩ | hg)
    exacts [⟨g, .inl hmem, hg⟩, ⟨g, .inr (.inr hmem), hg⟩, ⟨group, .inr (.inl rfl), hg⟩]

theorem keeps_filter : Keeps (groups.filter fun g => !g.owned.isEmpty || !g.pending.isEmpty) o p r ↔
    Keeps groups o p r := by
  refine ⟨fun ⟨g, hg, h⟩ => ⟨g, (List.mem_filter.mp hg).1, h⟩, fun ⟨g, hg, howner, hr⟩ =>
    ⟨g, List.mem_filter.mpr ⟨hg, ?_⟩, howner, hr⟩⟩
  cases p with
  | false => simp [List.isEmpty_eq_false_iff.mpr (List.ne_nil_of_mem (show r ∈ g.owned from hr))]
  | true => simp [List.isEmpty_eq_false_iff.mpr (List.ne_nil_of_mem (show r ∈ g.pending from hr))]

theorem keeps_of_mem_records (h : r ∈ store.records owner p) : Keeps store.groups owner p r := by
  rw [Store.records] at h
  cases hfind : store.groups.find? (·.owner = owner) with
  | none => simp [hfind] at h
  | some g =>
    rw [hfind] at h
    exact ⟨g, List.mem_of_find?_eq_some hfind, by simpa using List.find?_some hfind, h⟩

/-- The lists from which a change takes the records of its destination. -/
def Change.clears : Change → Bool → Bool
  | .intent, pending | .forgetPending, pending => pending
  | .confirm, _ => true
  | .forgetOwned, pending => !pending

def Change.adds : Change → Bool → Bool
  | .intent, pending => pending
  | .confirm, pending => !pending
  | .forgetOwned, _ | .forgetPending, _ => false

theorem mem_apply : r ∈ (group.apply text spec c).records p ↔
    (r ∈ group.records p ∧ (c.clears p = true → destination text r ≠ destination text spec)) ∨
      (r = spec ∧ c.adds p = true) := by
  cases c <;> cases p <;>
    simp [Group.apply, Group.records, Change.clears, Change.adds, ← sameRouteKey_iff]

/-! ## What a change does -/

/-- No other client of the network has a record for the destination. -/
def Unclaimed (text : AddrText) (groups : List Group) (owner : Owner) (spec : Spec) : Prop :=
  ∀ o p r, o.cookie = owner.cookie → o.interface ≠ owner.interface → Keeps groups o p r →
    destination text r ≠ destination text spec

theorem unclaimed_of_check (h : store.checkUnclaimed text owner spec = .ok ()) :
    Unclaimed text store.groups owner spec := by
  obtain ⟨-, -, h⟩ := of_bind_ok h
  rintro o p r hcookie hinterface ⟨group, hgroup, rfl, hr⟩ hsame
  cases hfind : store.groups.find? (·.reserves text owner spec) with
  | some other => simp [hfind] at h
  | none =>
    have hr : r ∈ group.owned ++ group.pending := by
      cases p
      exacts [List.mem_append_left _ hr, List.mem_append_right _ hr]
    have hany : (group.owned ++ group.pending).any (sameRouteKey text · spec) = true :=
      List.any_eq_true.mpr ⟨r, hr, (sameRouteKey_iff text).mpr hsame⟩
    refine List.find?_eq_none.mp hfind group hgroup ?_
    rw [Group.reserves, hany, Bool.and_true, Bool.and_eq_true, beq_iff_eq, bne_iff_ne]
    exact ⟨hcookie, hinterface⟩

/-- The records before and after a change: those of the other clients are the same. -/
structure Changed (text : AddrText) (owner : Owner) (spec : Spec) (c : Change)
    (groups groups' : List Group) : Prop where
  unclaimed : Unclaimed text groups owner spec
  splits : (c.forgets = true ∧ groups' = groups) ∨ ∃ (rest : List Group) (group : Group),
    (∀ o p r, Keeps groups o p r ↔ Keeps rest o p r ∨ (owner = o ∧ r ∈ group.records p)) ∧
    ∀ o p r, Keeps groups' o p r ↔
      Keeps rest o p r ∨ (owner = o ∧ r ∈ (group.apply text spec c).records p)

theorem changed_of_alter (front back : List Group)
    (hunclaimed : Unclaimed text store.groups owner spec)
    (hgroups : ∀ o p r, Keeps store.groups o p r ↔ Keeps (front ++ group :: back) o p r)
    (howner : group.owner = owner)
    (h : store.alter text (front ++ group :: back) front.length spec c = .ok store') :
    store'.boot = store.boot ∧ Changed text owner spec c store.groups store'.groups := by
  obtain ⟨-, -, h⟩ := of_bind_ok h
  obtain rfl := Except.ok.inj h
  refine ⟨rfl, hunclaimed, .inr ⟨front ++ back, group, fun o p r => ?_, fun o p r => ?_⟩⟩
  · rw [hgroups, keeps_append_cons, howner]
  · have hmodify : (front ++ group :: back).modify front.length (·.apply text spec c) =
        front ++ group.apply text spec c :: back :=
      List.modifyTailIdx_add _ 0 front (group :: back)
    have hsame : (group.apply text spec c).owner = owner := by
      rw [← howner]
      cases c <;> rfl
    rw [hmodify, keeps_filter, keeps_append_cons, hsame]

theorem changed_of_change (h : store.change text owner spec c = .ok store') :
    store'.boot = store.boot ∧ Changed text owner spec c store.groups store'.groups := by
  rw [Store.change] at h
  generalize hself : (if owner.cookie = .single then { store with version := 2 } else store) = self
    at h
  have hkept : self.groups = store.groups ∧ self.boot = store.boot := by
    rw [← hself]
    split <;> exact ⟨rfl, rfl⟩
  obtain ⟨-, -, h⟩ := of_bind_ok h
  obtain ⟨_, hcheck, h⟩ := of_bind_ok h
  have hunclaimed := unclaimed_of_check hcheck
  rw [← hkept.1, ← hkept.2]
  cases hindex : self.groups.findIdx? (·.owner = owner) with
  | some index =>
    rw [hindex] at h
    obtain ⟨hlt, howner, -⟩ := List.findIdx?_eq_some_iff_getElem.mp hindex
    have hsplit : self.groups = self.groups.take index ++ self.groups[index] ::
        self.groups.drop (index + 1) := by simp
    have hlength : (self.groups.take index).length = index := by
      rw [List.length_take]
      omega
    refine changed_of_alter (self.groups.take index) (self.groups.drop (index + 1)) hunclaimed
      (fun o p r => ?_) (of_decide_eq_true howner) ?_
    · rw [← hsplit]
    · rw [← hsplit, hlength]
      exact h
  | none =>
    simp only [hindex] at h
    split at h
    case isTrue hforgets =>
      obtain rfl := Except.ok.inj h
      exact ⟨rfl, hunclaimed, .inl ⟨hforgets, rfl⟩⟩
    case isFalse =>
      -- the new group has no records yet
      refine changed_of_alter self.groups [] hunclaimed (fun o p r => ?_) rfl h
      rw [keeps_append_cons, List.append_nil]
      cases p <;> simp [Group.records]

namespace Changed

variable {groups' : List Group}

theorem origin (h : Changed text owner spec c groups groups') (hr : Keeps groups' o p r) :
    Keeps groups o p r ∨ (o = owner ∧ r = spec ∧ c.adds p = true) := by
  obtain ⟨-, rfl⟩ | ⟨rest, group, hbefore, hafter⟩ := h.splits
  · exact .inl hr
  · rw [hafter, mem_apply] at hr
    rw [hbefore]
    obtain hr | ⟨rfl, hr | ⟨rfl, hadds⟩⟩ := hr
    exacts [.inl (.inl hr), .inl (.inr ⟨rfl, hr.1⟩), .inr ⟨rfl, rfl, hadds⟩]

theorem dropped (h : Changed text owner spec c groups groups') (hr : Keeps groups o p r)
    (hgone : ¬ Keeps groups' o p r) :
    o = owner ∧ c.clears p = true ∧ destination text r = destination text spec := by
  obtain ⟨-, rfl⟩ | ⟨rest, group, hbefore, hafter⟩ := h.splits
  · exact absurd hr hgone
  · rw [hafter, mem_apply, not_or] at hgone
    obtain ⟨rfl, hmem⟩ := ((hbefore o p r).mp hr).resolve_left hgone.1
    refine ⟨rfl, ?_⟩
    by_contra hkept
    exact hgone.2 ⟨rfl, .inl ⟨hmem, fun hclears hsame => hkept ⟨hclears, hsame⟩⟩⟩

theorem intent (h : Changed text owner spec .intent groups groups') :
    Keeps groups' owner true spec := by
  obtain ⟨hforgets, -⟩ | ⟨rest, group, -, hafter⟩ := h.splits
  · exact absurd hforgets Bool.false_ne_true
  · exact (hafter _ _ _).mpr (.inr ⟨rfl, mem_apply.mpr (.inr ⟨rfl, rfl⟩)⟩)

end Changed

/-! ## Separation -/

/-- No two clients of one network have records for the same destination. -/
def Separate (text : AddrText) (groups : List Group) : Prop :=
  ∀ o o' p p' r r', o.cookie = o'.cookie → o.interface ≠ o'.interface → Keeps groups o p r →
    Keeps groups o' p' r' → destination text r ≠ destination text r'

theorem Changed.separate {groups' : List Group} (h : Changed text owner spec c groups groups')
    (hgroups : Separate text groups) : Separate text groups' := by
  intro o o' p p' r r' hcookie hinterface hr hr'
  obtain hr | ⟨rfl, rfl, -⟩ := h.origin hr <;> obtain hr' | ⟨rfl, rfl, -⟩ := h.origin hr'
  · exact hgroups o o' p p' r r' hcookie hinterface hr hr'
  · exact h.unclaimed o p r hcookie hinterface hr
  · exact (h.unclaimed o' p' r' hcookie.symm hinterface.symm hr').symm
  · exact absurd rfl hinterface

/-! ## What validation gives -/

/-- One group for every owner, and one record for every destination in each of its lists. -/
structure Tidy (text : AddrText) (groups : List Group) : Prop where
  owners : (groups.map (·.owner)).Nodup
  records : ∀ group ∈ groups, ∀ p, ((group.records p).map (destination text)).Nodup

theorem Tidy.unique (h : Tidy text groups) {r' : Spec} (hr : Keeps groups o p r)
    (hr' : Keeps groups o p r') (hsame : destination text r = destination text r') : r = r' := by
  obtain ⟨group, hgroup, rfl, hr⟩ := hr
  obtain ⟨group', hgroup', howner, hr'⟩ := hr'
  obtain rfl := List.inj_on_of_nodup_map h.owners hgroup hgroup' howner.symm
  exact List.inj_on_of_nodup_map (h.records group hgroup p) hr hr' hsame

theorem Tidy.nodup_records (h : Tidy text store.groups) (owner : Owner) (p : Bool) :
    ((store.records owner p).map (destination text)).Nodup := by
  rw [Store.records]
  cases hfind : store.groups.find? (·.owner = owner) with
  | none => exact .nil
  | some group => exact h.records group (List.mem_of_find?_eq_some hfind) p

theorem of_ensure {condition : Bool} {message : String} {u : Unit}
    (h : ensure condition message = .ok u) : condition = true := by
  cases condition with
  | true => rfl
  | false => cases h

/-- `validate` compares destinations as `same_route_key` does. -/
theorem destination_of_valid {u : Unit} {network : IpAddr × Nat}
    (hspec : validateSpec text spec = .ok u)
    (hnetwork : canonical text ((routeKey spec).getLastD "") = .ok network) :
    destination text spec = (spec.head? == some "-6", (routeKey spec).contains "blackhole",
      some network) := by
  obtain ⟨_, hlength, -⟩ := of_bind_ok hspec
  have hlength := of_ensure hlength
  cases spec with
  | nil => simp at hlength
  | cons first rest =>
    obtain ⟨key, hkey⟩ : ∃ key, routeKey (first :: rest) = first :: key := by
      rw [routeKey, Nat.add_right_comm]
      exact ⟨_, List.take_succ_cons⟩
    rw [hkey, List.getLastD_cons] at hnetwork
    rw [destination, hkey, List.getLast?_cons, Option.bind_some, prefixOf,
      ← List.getLastD_eq_getLast?, hnetwork]
    rfl

theorem of_validateRecords {interface : String} {seen : List (Bool × Bool × IpAddr × Nat)}
    {records : List Spec} {u : Unit} (h : validateRecords text interface seen records = .ok u) :
    (records.map (destination text)).Nodup ∧ ∀ r ∈ records, ∀ d ∈ seen,
      destination text r ≠ (d.1, d.2.1, some d.2.2) := by
  induction records generalizing seen with
  | nil => exact ⟨.nil, List.forall_mem_nil _⟩
  | cons spec records ih =>
    -- the destination of `spec` is among those seen when the rest is checked
    obtain ⟨_, hspec, h⟩ := of_bind_ok h
    obtain ⟨-, -, h⟩ := of_bind_ok h
    obtain ⟨network, hnetwork, h⟩ := of_bind_ok h
    obtain ⟨_, hnew, h⟩ := of_bind_ok h
    have hspec := destination_of_valid hspec hnetwork
    obtain ⟨hnodup, hseen⟩ := ih h
    refine ⟨List.nodup_cons.mpr ⟨fun hmem => ?_, hnodup⟩, List.forall_mem_cons.mpr ⟨?_, ?_⟩⟩
    · obtain ⟨r, hr, hsame⟩ := List.mem_map.mp hmem
      exact hseen r hr _ List.mem_cons_self (hsame.trans hspec)
    · intro d hd hsame
      have hnew := of_ensure hnew
      simp only [hspec, Prod.mk.injEq, Option.some.injEq] at hsame
      obtain ⟨d1, d2, d3⟩ := d
      obtain ⟨rfl, rfl, rfl⟩ := hsame
      rw [Bool.not_eq_true', List.contains_eq_mem] at hnew
      exact absurd hd (of_decide_eq_false hnew)
    · exact fun r hr d hd => hseen r hr d (List.mem_cons_of_mem _ hd)

theorem of_validateGroups {version : Nat} {seen : List Owner} {u : Unit}
    (h : validateGroups text version seen groups = .ok u) :
    Tidy text groups ∧ ∀ group ∈ groups, group.owner ∉ seen := by
  induction groups generalizing seen with
  | nil => exact ⟨⟨.nil, List.forall_mem_nil _⟩, List.forall_mem_nil _⟩
  | cons group groups ih =>
    obtain ⟨_, hnew, h⟩ := of_bind_ok h
    obtain ⟨_, howned, h⟩ := of_bind_ok h
    obtain ⟨_, hpending, h⟩ := of_bind_ok h
    obtain ⟨htidy, hseen⟩ := ih h
    refine ⟨⟨List.nodup_cons.mpr ⟨fun hmem => ?_, htidy.owners⟩,
      List.forall_mem_cons.mpr ⟨fun p => ?_, htidy.records⟩⟩, List.forall_mem_cons.mpr ⟨?_, ?_⟩⟩
    · obtain ⟨other, hother, howner⟩ := List.mem_map.mp hmem
      exact hseen other hother (howner ▸ List.mem_cons_self)
    · cases p
      exacts [(of_validateRecords howned).1, (of_validateRecords hpending).1]
    · have hnew := of_ensure hnew
      simp only [Bool.and_eq_true, Bool.not_eq_true', List.contains_eq_mem,
        decide_eq_false_iff_not] at hnew
      exact hnew.2
    · exact fun other hother hmem => hseen other hother (List.mem_cons_of_mem _ hmem)

theorem tidy_of_validate {u : Unit} (h : store.validate text = .ok u) : Tidy text store.groups := by
  obtain ⟨-, -, h⟩ := of_bind_ok h
  obtain ⟨-, -, h⟩ := of_bind_ok h
  exact (of_validateGroups h).1

end Keeping

/-! ## Journals -/

/-- What is read back is what was written. -/
def Serde.RoundTrips {Bytes : Type} (serde : Serde Bytes) : Prop :=
  ∀ store bytes, serde.toVec store = .ok bytes → serde.fromSlice bytes = .ok store

section Journals

variable {Bytes : Type} {serde : Serde Bytes} {store : Store} {bytes : Bytes} {boot : String}

theorem decode_of_encode (hserde : serde.RoundTrips) (h : store.encode serde = .ok bytes)
    (hboot : store.boot = boot) : Store.decode serde bytes boot = .ok store := by
  obtain ⟨_, hvalid, h⟩ := of_bind_ok h
  obtain ⟨written, hvec, h⟩ := of_bind_ok h
  obtain ⟨_, hsize, h⟩ := of_bind_ok h
  obtain rfl := Except.ok.inj h
  have hread := hserde store written hvec
  simp only [Store.decode, hsize, hread, hvalid, hboot, bind, Except.bind, if_pos]
  rfl

theorem tidy_of_encode (h : store.encode serde = .ok bytes) :
    Tidy serde.toAddrText store.groups := by
  obtain ⟨_, hvalid, -⟩ := of_bind_ok h
  exact tidy_of_validate hvalid

end Journals

end Qeli.Journal
