import Qeli.Pool.Ipv6Pool

/-!
# The address pool of a profile

`pool::IpPool`, function by function: the IPv4 allocator with, optionally, the IPv6 pool
beside it.
-/

namespace Qeli.Pool

open Lib

structure IpPool extends Leases String Nat where
  startIp : Nat
  endIp : Nat
  staticReservations : List (String × Nat)
  cursor : Nat
  ipv6 : Option Ipv6Pool

inductive IpMode where
  | ipv4
  | dual
  | ipv6
  deriving DecidableEq

structure AssignedAddresses where
  ipv4 : Option Nat
  ipv6 : Option Nat
  deriving DecidableEq

inductive AddressAllocationError where
  | ipv4Exhausted
  | invalidFixedIpv4 (address : Nat)
  | ipv6Unavailable
  | ipv6Exhausted
  | invalidFixedIpv6 (address : Nat)
  deriving DecidableEq

namespace IpPool

/-! ## Construction -/

/-- `1u32.checked_shl`. -/
def checkedShl (bits : Nat) : Option Nat := if bits < 32 then some (1 <<< bits) else none

/-- One round of the loop over `config.exclude`; what is no address is skipped. -/
def exclude (text : Text) (excluded : Finset Nat) (value : String) : Finset Nat :=
  match text.parseIpv4 value with
  | .ok ip => insert ip.toNat excluded
  | .error _ => excluded

/-- What the loop over `config.static_reservations` builds. -/
structure Reservations where
  configured : KeyMap Nat String
  reserved : Finset Nat
  staticReservations : List (String × Nat)

def reserve (text : Text) (config : PoolConfig) (startIp endIp : Nat) (excluded : Finset Nat)
    (acc : Reservations) (entry : String × String) : Except String Reservations :=
  let (username, raw) := entry
  match text.parseIpv4 raw with
  | .error error =>
    .error s!"pool.reservation.{username} = '{raw}' is not a valid IPv4 address: {error}"
  | .ok address =>
    let value := address.toNat
    let shown := text.displayIpv4 value
    if value < startIp ∨ value > endIp ∨ value ∈ excluded then
      .error (s!"pool.reservation.{username} = {shown} is not assignable in {config.cidr} " ++
        "(outside the usable range, the server TUN address, or pool.exclude)")
    else
      match acc.configured.get? value with
      | some other =>
        .error s!"pool.reservation.{other} and pool.reservation.{username} both use {shown}"
      | none =>
        .ok ⟨acc.configured.insert value username, insert value acc.reserved,
          acc.staticReservations ++ [(username, value)]⟩

def newWithTun (text : Text) (config : PoolConfig) (tunAddress : Nat) : Except String IpPool :=
  match parseCidr text config.cidr with
  | .error e => .error e
  | .ok (network, subnetMask) =>
    if subnetMask > 30 then
      .error s!"subnet mask /{subnetMask} is too small for IP pool (minimum /30)"
    else
      match checkedShl (32 - subnetMask) with
      | none => .error "invalid subnet mask"
      | some totalIps =>
        let startIp := network ||| 1
        let endIp := network ||| (totalIps - 2)
        let shown := text.displayIpv4 tunAddress
        if tunAddress < startIp ∨ tunAddress > endIp then
          .error s!"tun.address {shown} is not a usable host inside pool.cidr {config.cidr}"
        else
          let excluded := insert tunAddress
            (config.exclude.foldl (exclude text) {network, network ||| (totalIps - 1)})
          match config.staticReservations.foldlM (reserve text config startIp endIp excluded)
              ⟨∅, ∅, []⟩ with
          | .error e => .error e
          | .ok reservations =>
            .ok {
              startIp, endIp, excluded
              reserved := reservations.reserved
              staticReservations := reservations.staticReservations
              allocated := ∅
              allocations := ∅
              freed := []
              freedSet := ∅
              cursor := startIp
              ipv6 := none }

def newIpv6Only (text : Text) (config : Ipv6PoolConfig) (tunAddress : Nat) :
    Except String IpPool :=
  match Ipv6Pool.new text config tunAddress with
  | .error e => .error e
  | .ok ipv6 =>
    .ok {
      startIp := 0
      endIp := 0
      excluded := ∅
      reserved := ∅
      staticReservations := []
      allocated := ∅
      allocations := ∅
      freed := []
      freedSet := ∅
      cursor := 0
      ipv6 := some ipv6 }

def enableIpv6 (self : IpPool) (text : Text) (config : Ipv6PoolConfig) (tunAddress : Nat) :
    Except String IpPool :=
  match Ipv6Pool.new text config tunAddress with
  | .error e => .error e
  | .ok ipv6 => .ok { self with ipv6 := some ipv6 }

/-! ## IPv4 calls -/

def allocateFixed (self : IpPool) (key : String) (ip : Nat) : IpPool × Option Nat :=
  if ip < self.startIp ∨ ip > self.endIp ∨ ip ∈ self.excluded then (self, none)
  else ({ self with toLeases := self.toLeases.take key ip }, some ip)

/-- The loop that moves the cursor. A `u64` cursor that passes the guard is a `u32`. -/
def advance (key : String) : Nat → IpPool → IpPool × Option Nat
  | 0, self => (self, none)
  | fuel + 1, self =>
    if self.cursor ≤ self.endIp then
      let ipVal := self.cursor
      let self := { self with cursor := self.cursor + 1 }
      if self.Open ipVal then
        ({ self with toLeases := self.toLeases.assign key ipVal }, some ipVal)
      else advance key fuel self
    else (self, none)

def allocate (self : IpPool) (username : String) : IpPool × Option Nat :=
  match self.held username with
  | some ipVal => (self, some ipVal)
  | none =>
    match (self.staticReservations.find? fun (uname, _) => uname == username).map Prod.snd with
    | some ipVal => self.allocateFixed username ipVal
    | none =>
      match self.toLeases.reuse (fun _ => true) username with
      | (leases, some ipVal) => ({ self with toLeases := leases }, some ipVal)
      | (leases, none) =>
        advance username (self.endIp + 1 - self.cursor) { self with toLeases := leases }

theorem find_reservation (self : IpPool) (username : String) :
    (self.staticReservations.find? fun (uname, _) => uname == username) =
      self.staticReservations.find? fun entry => entry.1 == username :=
  rfl

/-- The linear scan of a window. -/
def scanWindow (self : IpPool) (key : String) (lo hi : Nat) (temporaryExcluded : Finset Nat) :
    IpPool × Option Nat :=
  let first := max lo self.startIp
  let last := min hi self.endIp
  match (List.range' first (last + 1 - first)).find? fun ipVal =>
      self.Open ipVal ∧ ipVal ∉ temporaryExcluded with
  | some ipVal => ({ self with toLeases := self.toLeases.assign key ipVal }, some ipVal)
  | none => (self, none)

def allocateInRangeExcluding (self : IpPool) (key : String) (lo hi : Nat)
    (temporaryExcluded : Finset Nat) : IpPool × Option Nat :=
  match self.held key with
  | some cur =>
    if cur ≥ lo ∧ cur ≤ hi ∧ cur ∉ temporaryExcluded then (self, some cur)
    else scanWindow { self with toLeases := self.toLeases.release key } key lo hi temporaryExcluded
  | none => self.scanWindow key lo hi temporaryExcluded

def allocateFixedUnclaimed (self : IpPool) (key : String) (ip : Nat) : IpPool × Option Nat :=
  match self.allocations.toPairs.find? fun (_, v) => v == ip with
  | some (holder, _) => (self, if holder = key then some ip else none)
  | none => if ip ∈ self.reserved then (self, none) else self.allocateFixed key ip

def releaseIpv4 (self : IpPool) (username : String) : IpPool :=
  { self with toLeases := self.toLeases.release username }

def getIpByUsername (self : IpPool) (username : String) : Option Nat := self.held username

/-! ## Calls on both families -/

def release (self : IpPool) (username : String) : IpPool :=
  let self := self.releaseIpv4 username
  { self with ipv6 := self.ipv6.map fun ipv6 => ipv6.release username }

def allocateIpv6 (self : IpPool) (key : String) : IpPool × Option Nat :=
  match self.ipv6 with
  | none => (self, none)
  | some ipv6 => ({ self with ipv6 := some (ipv6.allocate key).1 }, (ipv6.allocate key).2)

def allocateFixedIpv6 (self : IpPool) (key : String) (address : Nat) : IpPool × Option Nat :=
  match self.ipv6 with
  | none => (self, none)
  | some ipv6 =>
    ({ self with ipv6 := some (ipv6.allocateFixed key address).1 }, (ipv6.allocateFixed key address).2)

def getIpv6ByUsername (self : IpPool) (key : String) : Option Nat :=
  self.ipv6.bind fun ipv6 => ipv6.getIpByUsername key

def retainModeLeases (self : IpPool) (key : String) (mode : IpMode) : IpPool :=
  match mode with
  | .ipv6 => self.releaseIpv4 key
  | .ipv4 => { self with ipv6 := self.ipv6.map fun ipv6 => ipv6.release key }
  | .dual => self

/-- `ok_or` on the result of a call, for the address of one family. -/
def okOr (r : IpPool × Option Nat) (error : AddressAllocationError) :
    IpPool × Except AddressAllocationError (Option Nat) :=
  (r.1, match r.2 with
    | some ip => .ok (some ip)
    | none => .error error)

/-- The IPv4 half of `allocate_for_mode_inner`. -/
def ipv4ForMode (self : IpPool) (key : String) (mode : IpMode) (fixedIpv4 : Option Nat) :
    IpPool × Except AddressAllocationError (Option Nat) :=
  match mode, fixedIpv4 with
  | .ipv6, _ => (self, .ok none)
  | _, some address => okOr (self.allocateFixed key address) (.invalidFixedIpv4 address)
  | _, none => okOr (self.allocate key) .ipv4Exhausted

def ipv6ForMode (self : IpPool) (key : String) (mode : IpMode) (fixedIpv6 : Option Nat) :
    IpPool × Except AddressAllocationError (Option Nat) :=
  match mode, self.ipv6, fixedIpv6 with
  | .ipv4, _, _ => (self, .ok none)
  | _, none, _ => (self, .error .ipv6Unavailable)
  | _, some _, some address =>
    okOr (self.allocateFixedIpv6 key address) (.invalidFixedIpv6 address)
  | _, some _, none => okOr (self.allocateIpv6 key) .ipv6Exhausted

def allocateForModeInner (self : IpPool) (key : String) (mode : IpMode)
    (fixedIpv4 fixedIpv6 : Option Nat) :
    IpPool × Except AddressAllocationError AssignedAddresses :=
  let self := self.retainModeLeases key mode
  match self.ipv4ForMode key mode fixedIpv4 with
  | (self, .error e) => (self, .error e)
  | (self, .ok ipv4) =>
    match self.ipv6ForMode key mode fixedIpv6 with
    | (self, .error e) => (self, .error e)
    | (self, .ok ipv6) => (self, .ok ⟨ipv4, ipv6⟩)

def allocateForMode (self : IpPool) (key : String) (mode : IpMode)
    (fixedIpv4 fixedIpv6 : Option Nat) :
    IpPool × Except AddressAllocationError AssignedAddresses :=
  match self.allocateForModeInner key mode fixedIpv4 fixedIpv6 with
  | (self, .ok addresses) => (self, .ok addresses)
  | (_, .error error) => (self, .error error)

end IpPool

end Qeli.Pool
