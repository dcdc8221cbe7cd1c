import Qeli.Pool.Calls

/-!
# Safety of the pool, and that it loses no address

For a pool that `new_with_tun` built, with or without `enable_ipv6`, and any calls made on
it: `pool_safe` says that the records agree with one another, that what is held may be
held, and how a reserved address comes to be held; `pool_exhausted` says that a dynamic
allocation fails only when every address it may give is held.
-/

namespace Qeli.Pool

open Lib

/-- The records of one family agree: no address is held twice, the allocated addresses are
those held, and the stack of released addresses has no duplicates and is its set. -/
structure Consistent (leases : Leases String Nat) : Prop where
  injective : ∀ {key key' a}, leases.held key = some a → leases.held key' = some a → key = key'
  image : ∀ {a}, a ∈ leases.allocated ↔ ∃ key, leases.held key = some a
  freed_nodup : leases.freed.Nodup
  freed_set : leases.freedSet = leases.freed.toFinset

theorem Consistent.of_sound {leases : Leases String Nat} {usable fresh : Nat → Prop}
    (h : leases.Sound usable fresh) : Consistent leases :=
  ⟨h.exclusive, h.allocated, h.nodup, Finset.ext fun a => by rw [List.mem_toFinset, h.freedSet]⟩

/-- The IPv4 side of a pool after some calls. -/
structure Ipv4Safe (text : Text) (config : PoolConfig) (tunAddress : Nat) (pool : IpPool)
    (calls : List Call) : Prop where
  consistent : Consistent (pool.run calls).toLeases
  /-- What is held is a usable host, not excluded and not the server's own address. -/
  held : ∃ subnet, poolSubnet text config.cidr = .ok subnet ∧
    ∀ key a, (pool.run calls).getIpByUsername key = some a →
      subnet.containsUsableHost a = true ∧ a ∉ (pool.run calls).excluded ∧ a ≠ tunAddress ∧
        ∀ value ∈ config.exclude, ∀ ip, text.parseIpv4 value = .ok ip → a ≠ ip.toNat
  /-- A reserved address is held by its owner, or by a key that was given it by
  `allocate_fixed` and has held it since. -/
  reserved : ∀ entry ∈ config.staticReservations, ∀ ip, text.parseIpv4 entry.2 = .ok ip →
    ∀ key, (pool.run calls).getIpByUsername key = some ip.toNat → key = entry.1 ∨
      HoldsSince IpPool.call (fun c => c.key = key ∧ c.FixesIpv4 ip.toNat)
        (fun pool => pool.getIpByUsername key = some ip.toNat) pool calls

structure Ipv6Safe (text : Text) (config : Ipv6PoolConfig) (tunAddress : Nat) (pool : IpPool)
    (calls : List Call) : Prop where
  consistent : ∃ six, (pool.run calls).ipv6 = some six ∧ Consistent six.toLeases ∧
    ∀ key a, (pool.run calls).getIpv6ByUsername key = some a → a ∉ six.excluded
  held : ∃ subnet, ipv6PoolSubnet text config.cidr = .ok subnet ∧
    ∀ key a, (pool.run calls).getIpv6ByUsername key = some a →
      subnet.containsAssignable a = true ∧ a ≠ tunAddress ∧
        ∀ value ∈ config.exclude, ∀ ip, text.parseIpv6 value = .ok ip → a ≠ ip.toNat
  reserved : ∀ entry ∈ config.staticReservations, ∀ ip, text.parseIpv6 entry.2 = .ok ip →
    ∀ key, (pool.run calls).getIpv6ByUsername key = some ip.toNat → key = entry.1 ∨
      HoldsSince IpPool.call (fun c => c.key = key ∧ c.FixesIpv6 ip.toNat)
        (fun pool => pool.getIpv6ByUsername key = some ip.toNat) pool calls

section

variable {text : Text} {config : PoolConfig} {tunAddress : Nat} {pool : IpPool}

theorem ipv4Safe (hbuilt : IpPool.Built text config tunAddress pool) (hvalid : pool.Valid)
    (calls : List Call) : Ipv4Safe text config tunAddress pool calls := by
  have hsame : ∀ calls, (pool.run calls).toRules = pool.toRules ∧
      (pool.run calls).startIp = pool.startIp ∧ (pool.run calls).endIp = pool.endIp ∧
        (pool.run calls).staticReservations = pool.staticReservations := fun calls => by
    simpa [IpPool.setup] using (IpPool.run_valid hvalid calls).2.1
  have hrun := (IpPool.run_valid hvalid calls).1
  refine ⟨.of_sound hrun.ipv4.sound, ?_, ?_⟩
  · obtain ⟨subnet, hsubnet, husable⟩ := hbuilt.subnet
    obtain ⟨hrules, hstart, hend, -⟩ := hsame calls
    refine ⟨subnet, hsubnet, fun key a ha => ?_⟩
    obtain ⟨⟨hlo, hhi⟩, hexcl⟩ := hrun.ipv4.sound.heldUsable ha
    have hexcl' : a ∉ pool.excluded := by rwa [hrules] at hexcl
    refine ⟨husable a ⟨hstart ▸ hlo, hend ▸ hhi⟩, hexcl, ?_, ?_⟩
    · rintro rfl
      exact hexcl' hbuilt.tun
    · rintro value hmem ip hparse rfl
      exact hexcl' (hbuilt.exclude value hmem ip hparse)
  · intro entry hmem ip hparse key hheld
    have howner := hbuilt.reservations entry hmem ip hparse
    by_cases hkey : key = entry.1
    · exact .inl hkey
    -- Any call that brings the address to a key that is not the owner names it.
    refine .inr (holdsSince ?_ (fun calls c hbefore hafter => ?_) calls hheld)
    · simp [IpPool.getIpByUsername, hbuilt.unused]
    · obtain ⟨hrules, -, -, hstatic⟩ := hsame calls
      have hres : ip.toNat ∈ (pool.run calls).reserved := by
        rw [hrules]
        exact hbuilt.reserved.mem.mpr ⟨_, howner⟩
      rw [show (calls ++ [c]).foldl IpPool.call pool = _ from pool.run_snoc calls c] at hafter
      have hstep := IpPool.call_step (IpPool.run_valid hvalid calls).1 c
      obtain ⟨rfl, hfix | hstat⟩ := hstep.change.acquired hafter hbefore hres
      · exact ⟨rfl, hfix⟩
      · rw [hstatic] at hstat
        exact absurd (hbuilt.reserved.owner hstat howner) hkey

theorem ipv6Safe {config : Ipv6PoolConfig} {six : Ipv6Pool}
    (hbuilt : Ipv6Pool.Built text config tunAddress six) (hsix : pool.ipv6 = some six)
    (hvalid : pool.Valid) (calls : List Call) : Ipv6Safe text config tunAddress pool calls := by
  have hsame : ∀ calls, ∃ now, (pool.run calls).ipv6 = some now ∧ now.Valid ∧
      now.toRules = six.toRules ∧ now.network = six.network ∧ now.endIp = six.endIp ∧
        now.staticReservations = six.staticReservations := fun calls => by
    obtain ⟨now, hnow, hnowvalid, hsetup⟩ := IpPool.run_ipv6 hvalid hsix calls
    exact ⟨now, hnow, hnowvalid, by simpa [Ipv6Pool.setup] using hsetup⟩
  have hget : ∀ {pool : IpPool} {now : Ipv6Pool}, pool.ipv6 = some now →
      pool.getIpv6ByUsername = now.held := fun {pool now} hnow => by
    funext key
    simp [IpPool.getIpv6ByUsername, hnow, Ipv6Pool.getIpByUsername]
  obtain ⟨now, hnow, hnowvalid, hrules, hnetwork, hend, -⟩ := hsame calls
  have hexcl : ∀ {key a}, (pool.run calls).getIpv6ByUsername key = some a →
      now.Usable a ∧ a ∉ now.excluded := fun {key a} ha => by
    rw [hget hnow] at ha
    exact hnowvalid.sound.heldUsable ha
  refine ⟨⟨now, hnow, .of_sound hnowvalid.sound, fun _ _ ha => (hexcl ha).2⟩, ?_, ?_⟩
  · obtain ⟨subnet, hsubnet, husable⟩ := hbuilt.subnet
    refine ⟨subnet, hsubnet, fun key a ha => ?_⟩
    obtain ⟨⟨hlo, hhi⟩, hexcl⟩ := hexcl ha
    rw [hrules] at hexcl
    refine ⟨husable a ⟨hnetwork ▸ hlo, hend ▸ hhi⟩, ?_, ?_⟩
    · rintro rfl
      exact hexcl hbuilt.tun
    · rintro value hmem ip hparse rfl
      exact hexcl (hbuilt.exclude value hmem ip hparse)
  · intro entry hmem ip hparse key hheld
    have howner := hbuilt.reservations entry hmem ip hparse
    by_cases hkey : key = entry.1
    · exact .inl hkey
    refine .inr (holdsSince ?_ (fun calls c hbefore hafter => ?_) calls hheld)
    · rw [hget hsix, hbuilt.unused]
      simp
    · obtain ⟨before, hsixb, -, hrules, -, -, hstatic⟩ := hsame calls
      obtain ⟨after, hsixa, -⟩ := hsame (calls ++ [c])
      have hres : ip.toNat ∈ before.reserved := by
        rw [hrules]
        exact hbuilt.reserved.mem.mpr ⟨_, howner⟩
      have hstep := IpPool.call_ipv6 (IpPool.run_valid hvalid calls).1 hsixb
        (pool.run_snoc calls c ▸ hsixa)
      have hold : before.held key ≠ some ip.toNat := hget hsixb ▸ hbefore
      have hnew : after.held key = some ip.toNat := hget hsixa ▸ hafter
      obtain ⟨rfl, hfix | hstat⟩ := hstep.change.acquired hnew hold hres
      · exact ⟨rfl, hfix⟩
      · rw [hstatic] at hstat
        exact absurd (hbuilt.reserved.owner hstat howner) hkey

/-- **Any calls on a built pool keep it safe, in both families**, and a call of
`allocate_for_mode` that fails leaves it exactly as it was. -/
theorem pool_safe {ipv6 : Option (Ipv6PoolConfig × Nat)}
    (hbuilt : IpPool.build text config tunAddress ipv6 = .ok pool) (calls : List Call) :
    Ipv4Safe text config tunAddress pool calls ∧
    (∀ config6 tunAddress6, ipv6 = some (config6, tunAddress6) →
      Ipv6Safe text config6 tunAddress6 pool calls) ∧
    ∀ key mode fixedIpv4 fixedIpv6 error,
      ((pool.run calls).allocateForMode key mode fixedIpv4 fixedIpv6).2 = .error error →
        ((pool.run calls).allocateForMode key mode fixedIpv4 fixedIpv6).1 = pool.run calls := by
  obtain ⟨hbuilt4, hsix, hbuilt6⟩ := IpPool.build_built hbuilt
  have hvalid : pool.Valid := ⟨hbuilt4.valid, fun six hsome => (hsix six hsome).1⟩
  refine ⟨ipv4Safe hbuilt4 hvalid calls, fun config6 tunAddress6 hipv6 => ?_,
    fun _ _ _ _ _ => IpPool.allocateForMode_error⟩
  obtain ⟨six, hsome, hsix6⟩ := hbuilt6 config6 tunAddress6 hipv6
  exact ipv6Safe hsix6 hsome hvalid calls

/-! ## No address is lost -/

def IpPool.Assignable (pool : IpPool) (a : Nat) : Prop :=
  pool.Usable a ∧ a ∉ pool.excluded ∧ a ∉ pool.reserved

def Ipv6Pool.Assignable (pool : Ipv6Pool) (a : Nat) : Prop :=
  pool.Usable a ∧ a ∉ pool.excluded ∧ a ∉ pool.reserved

theorem allocate_none_iff {pool : IpPool} (h : pool.Ipv4Valid) {key : String}
    (hheld : pool.getIpByUsername key = none)
    (hstatic : ∀ entry ∈ pool.staticReservations, entry.1 ≠ key) :
    (pool.allocate key).2 = none ↔
      ∀ a, pool.Assignable a → ∃ other ≠ key, pool.getIpByUsername other = some a := by
  rw [IpPool.allocate_eq_none_iff h hheld hstatic]
  refine forall_congr' fun a => ?_
  rw [h.sound.not_open_iff hheld]
  exact ⟨fun hall ha => hall ha.1 ha.2.1 ha.2.2, fun hall hin hexcl hres => hall ⟨hin, hexcl, hres⟩⟩

theorem allocateIpv6_none_iff {pool : Ipv6Pool} (h : pool.Valid) {key : String}
    (hheld : pool.getIpByUsername key = none)
    (hstatic : ∀ entry ∈ pool.staticReservations, entry.1 ≠ key) :
    (pool.allocate key).2 = none ↔
      ∀ a, pool.Assignable a → ∃ other ≠ key, pool.getIpByUsername other = some a := by
  rw [Ipv6Pool.allocate_eq_none_iff h hheld hstatic]
  refine forall_congr' fun a => ?_
  rw [h.sound.not_open_iff hheld]
  exact ⟨fun hall ha => hall ha.1 ha.2.1 ha.2.2, fun hall hin hexcl hres => hall ⟨hin, hexcl, hres⟩⟩

theorem allocateInRange_none_iff {pool : IpPool} (h : pool.Ipv4Valid) {key : String} {lo hi : Nat}
    {temporaryExcluded : Finset Nat}
    (hheld : ∀ cur, pool.getIpByUsername key = some cur → cur ∈ pool.reserved →
      ¬ (lo ≤ cur ∧ cur ≤ hi ∧ cur ∉ temporaryExcluded)) :
    (pool.allocateInRangeExcluding key lo hi temporaryExcluded).2 = none ↔
      ∀ a, pool.Assignable a → lo ≤ a ∧ a ≤ hi ∧ a ∉ temporaryExcluded →
        ∃ other ≠ key, pool.getIpByUsername other = some a := by
  rw [IpPool.allocateInRangeExcluding_eq_none_iff h hheld]
  refine forall_congr' fun a => ?_
  exact ⟨fun hall ha hwindow => hall ha.1 hwindow ha.2.1 ha.2.2,
    fun hall hin hwindow hexcl hres => hall ⟨hin, hexcl, hres⟩ hwindow⟩

/-- **After any calls, dynamic allocation for a key that holds nothing fails exactly when
every address it could give is held by another key**: in the IPv4 pool, in a window of it,
and in the IPv6 pool. A windowed call also serves a key that holds an address; only a
reserved one inside the window, which the key keeps, is not among those it could give. -/
theorem pool_exhausted {ipv6 : Option (Ipv6PoolConfig × Nat)}
    (hbuilt : IpPool.build text config tunAddress ipv6 = .ok pool) (calls : List Call) :
    (∀ key, (pool.run calls).getIpByUsername key = none →
      (∀ entry ∈ (pool.run calls).staticReservations, entry.1 ≠ key) →
      (((pool.run calls).allocate key).2 = none ↔
        ∀ a, (pool.run calls).Assignable a →
          ∃ other ≠ key, (pool.run calls).getIpByUsername other = some a)) ∧
    (∀ key lo hi temporaryExcluded,
      (∀ cur, (pool.run calls).getIpByUsername key = some cur → cur ∈ (pool.run calls).reserved →
        ¬ (lo ≤ cur ∧ cur ≤ hi ∧ cur ∉ temporaryExcluded)) →
      (((pool.run calls).allocateInRangeExcluding key lo hi temporaryExcluded).2 = none ↔
        ∀ a, (pool.run calls).Assignable a → lo ≤ a ∧ a ≤ hi ∧ a ∉ temporaryExcluded →
          ∃ other ≠ key, (pool.run calls).getIpByUsername other = some a)) ∧
    ∀ six, (pool.run calls).ipv6 = some six → ∀ key, six.getIpByUsername key = none →
      (∀ entry ∈ six.staticReservations, entry.1 ≠ key) →
      ((six.allocate key).2 = none ↔
        ∀ a, six.Assignable a → ∃ other ≠ key, six.getIpByUsername other = some a) := by
  obtain ⟨hbuilt4, hsix, -⟩ := IpPool.build_built hbuilt
  obtain ⟨hvalid, -⟩ := IpPool.run_valid
    ⟨hbuilt4.valid, fun six hsome => (hsix six hsome).1⟩ calls
  exact ⟨fun _ hheld hstatic => allocate_none_iff hvalid.ipv4 hheld hstatic,
    fun _ _ _ _ hheld => allocateInRange_none_iff hvalid.ipv4 hheld,
    fun six hnow _ hheld hstatic => allocateIpv6_none_iff (hvalid.ipv6 six hnow) hheld hstatic⟩

end

/-! ## A small office -/

/-- A reader of the few texts of the office's configuration. -/
def officeText : Text where
  trim := id
  parseIpv4
    | "10.9.0.0" => .ok 0x0a090000
    | "10.9.0.2" => .ok 0x0a090002
    | "10.9.0.5" => .ok 0x0a090005
    | _ => .error "invalid IPv4 address syntax"
  parseIpv6
    | "fd71::" => .ok 0xfd710000000000000000000000000000
    | "fd71::3" => .ok 0xfd710000000000000000000000000003
    | _ => .error "invalid IPv6 address syntax"
  parseU8
    | "29" => .ok 29
    | "126" => .ok 126
    | _ => .error "invalid digit found in string"
  displayIpv4 _ := "an address"
  displayIpv6 _ := "an address"

/-- Six hosts: the server has the first, one is excluded and one is reserved. -/
def officeConfig : PoolConfig := ⟨"10.9.0.0/29", ["10.9.0.2"], [("carol", "10.9.0.5")]⟩

/-- Three hosts: the server has the first and the last is reserved. -/
def officeConfig6 : Ipv6PoolConfig := ⟨"fd71::/126", [], [("carol", "fd71::3")]⟩

def officeTun : Nat := 0x0a090001

def officeTun6 : Nat := 0xfd710000000000000000000000000001

/-- A guest is given the reserved addresses by name; the owner takes the IPv4 one back, and
a dual-stack call that finds no IPv6 address fails. -/
def officeCalls : List Call :=
  [.allocate "alice", .allocateFixed "guest" 0x0a090005,
    .allocateFixedIpv6 "guest" 0xfd710000000000000000000000000003, .allocate "carol",
    .allocateForMode "alice" .dual none none, .allocateForMode "bob" .dual none none]

def officePool : Except String IpPool :=
  IpPool.build officeText officeConfig officeTun (some (officeConfig6, officeTun6))

theorem officePool_held : officePool.map (fun pool =>
    ((pool.run officeCalls).getIpByUsername "carol", (pool.run officeCalls).getIpByUsername "bob",
      (pool.run officeCalls).getIpv6ByUsername "guest")) =
    .ok (some 0x0a090005, none, some 0xfd710000000000000000000000000003) := by
  decide +kernel

theorem pool_safe_office : ∃ pool, officePool = .ok pool ∧
    (pool.run officeCalls).getIpByUsername "carol" = some 0x0a090005 ∧
    (pool.run officeCalls).getIpByUsername "bob" = none ∧
    (pool.run officeCalls).getIpv6ByUsername "guest" =
      some 0xfd710000000000000000000000000003 ∧
    Ipv4Safe officeText officeConfig officeTun pool officeCalls ∧
    Ipv6Safe officeText officeConfig6 officeTun6 pool officeCalls := by
  have hheld := officePool_held
  cases hpool : officePool with
  | error e =>
    rw [hpool] at hheld
    cases hheld
  | ok pool =>
    rw [hpool] at hheld
    simp only [Except.map, Except.ok.injEq, Prod.mk.injEq] at hheld
    obtain ⟨hcarol, hbob, hguest⟩ := hheld
    have hsafe := pool_safe hpool officeCalls
    exact ⟨pool, rfl, hcarol, hbob, hguest, hsafe.1, hsafe.2.1 _ _ rfl⟩

/-- The three addresses that are left are given out, two of them after a release. -/
def crowdedCalls : List Call :=
  [.allocate "alice", .allocate "bob", .release "alice", .allocateInRangeExcluding "erin"
    0x0a090003 0x0a090006 {0x0a090006}, .allocate "frank"]

theorem crowded_none : officePool.map (fun pool =>
    ((pool.run crowdedCalls).getIpByUsername "dave", (pool.run crowdedCalls).staticReservations,
      ((pool.run crowdedCalls).allocate "dave").2)) =
    .ok (none, [("carol", 0x0a090005)], none) := by
  decide +kernel

theorem pool_exhausted_office : ∃ pool, officePool = .ok pool ∧
    ((pool.run crowdedCalls).allocate "dave").2 = none ∧
    ∀ a, (pool.run crowdedCalls).Assignable a →
      ∃ other ≠ "dave", (pool.run crowdedCalls).getIpByUsername other = some a := by
  have hnone := crowded_none
  cases hpool : officePool with
  | error e =>
    rw [hpool] at hnone
    cases hnone
  | ok pool =>
    rw [hpool] at hnone
    simp only [Except.map, Except.ok.injEq, Prod.mk.injEq] at hnone
    obtain ⟨hheld, hstatic, hfull⟩ := hnone
    refine ⟨pool, rfl, hfull, ((pool_exhausted hpool crowdedCalls).1 "dave" hheld ?_).mp hfull⟩
    rw [hstatic]
    decide

end Qeli.Pool
