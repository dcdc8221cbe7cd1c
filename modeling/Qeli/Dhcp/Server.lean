import Qeli.Pool.Calls
import Qeli.Wire.Roaming

/-!
# The DHCP server

`dhcp::DhcpServer` and its lease table, over the address pool that it shares with the VPN.
The server handles one packet at a time, but takes the lock of the pool anew in each section
of `allocate_ip`: when it reaps, when it asks whether a lease is still its own, when it tries
the address the client prefers and when it falls back to any address of its window. Each
section is a function here, so that calls of the VPN may come between them; `allocateIp`
runs them one after another.

Packets are taken after `validate_request` and the rate limit: a message has the fields the
handlers read. The texts of replies are left out.
-/

namespace Qeli.Dhcp

open Lib Pool

abbrev MacAddr := Wire.Bytes 6

structure DhcpLease where
  ip : Nat
  mac : MacAddr
  expiresAt : Nat
  deriving DecidableEq

structure DhcpServer where
  serverIp : Nat
  leaseTimeSecs : Nat
  poolStart : Nat
  poolEnd : Nat
  leases : List (Option DhcpLease)
  declined : KeyMap Nat Nat

/-- One byte in lower-case hexadecimal, two digits. -/
def hexByte (b : UInt8) : List Char := [Nat.digitChar (b.toNat / 16), Nat.digitChar (b.toNat % 16)]

/-- The key under which the pool knows a client. -/
def leaseKey (mac : MacAddr) : String := "dhcp:" ++ String.ofList (mac.toList.flatMap hexByte)

/-- A call of `allocate_ip`. -/
structure AllocateIp where
  mac : MacAddr
  /-- The clock when the call starts. -/
  now : Nat
  preferred : Option Nat
  offerOnly : Bool
  allowFallback : Bool
  deriving DecidableEq

namespace DhcpServer

def maxDhcpPool : Nat := 1 <<< 20

def offerReservationSecs : Nat := 30

def declineQuarantineSecs : Nat := 600

def new (serverIp leaseTimeSecs poolStart poolEnd : Nat) : DhcpServer where
  serverIp := serverIp
  leaseTimeSecs := leaseTimeSecs
  poolStart := poolStart
  poolEnd := poolEnd
  leases :=
    let poolSize := if poolEnd < poolStart then 0 else min (poolEnd - poolStart + 1) maxDhcpPool
    .replicate poolSize none
  declined := ∅

def slot (self : DhcpServer) (idx : Nat) : Option DhcpLease := self.leases[idx]?.join

/-- The addresses the server hands out lie between these two. -/
def window (self : DhcpServer) : Nat × Nat := (self.poolStart, self.poolEnd)

def setSlot (self : DhcpServer) (idx : Nat) (lease : Option DhcpLease) : DhcpServer :=
  { self with leases := self.leases.set idx lease }

def expired (now : Nat) (lease : DhcpLease) : Bool := decide (now ≥ lease.expiresAt)

/-- The keys of the expired leases, in the order of their slots. -/
def expiredKeys (self : DhcpServer) (now : Nat) : List String :=
  (self.leases.filterMap id |>.filter (expired now)).map fun lease => leaseKey lease.mac

def reapExpiredAt (self : DhcpServer) (pool : IpPool) (now : Nat) : DhcpServer × IpPool × Nat :=
  let keys := self.expiredKeys now
  let self := { self with
    leases := self.leases.map fun slot => slot.filter fun lease => !expired now lease
    declined := self.declined.retain fun _ expiresAt => now < expiresAt }
  (self, keys.foldl IpPool.release pool, keys.length)

/-- The first slot with a lease of this client that has not expired. -/
def activeSlot (self : DhcpServer) (mac : MacAddr) (now : Nat) : Option (Nat × DhcpLease) :=
  self.leases.zipIdx.findSome? fun (slot, idx) =>
    slot.bind fun lease => if lease.mac ≠ mac ∨ now ≥ lease.expiresAt then none else some (idx, lease)

def requestedExpiry (self : DhcpServer) (call : AllocateIp) : Nat :=
  let holdSecs := if call.offerOnly then offerReservationSecs else self.leaseTimeSecs
  saturatingAdd u64Max call.now holdSecs

/-- What a section of `allocate_ip` ends with: the call returns, or goes on. -/
inductive Outcome where
  | returns (result : Option Nat)
  | goesOn
  deriving DecidableEq

/-- The client keeps its lease if the pool agrees. -/
def reuseLease (self : DhcpServer) (pool : IpPool) (call : AllocateIp) : DhcpServer × Outcome :=
  match self.activeSlot call.mac call.now with
  | none => (self, .goesOn)
  | some (idx, lease) =>
    if pool.getIpByUsername (leaseKey call.mac) = some lease.ip then
      if !call.allowFallback ∧ call.preferred ≠ some lease.ip then (self, .returns none)
      else
        let expiresAt :=
          if call.offerOnly then max lease.expiresAt (self.requestedExpiry call)
          else self.requestedExpiry call
        (self.setSlot idx (some { lease with expiresAt }), .returns (some lease.ip))
    else (self.setSlot idx none, .goesOn)

def quarantined (self : DhcpServer) : Finset Nat := self.declined.keys.toFinset

/-- The address the client asks for, if it is in the window and free. -/
def tryPreferred (self : DhcpServer) (pool : IpPool) (call : AllocateIp) :
    DhcpServer × IpPool × Outcome :=
  match call.preferred with
  | none => (self, pool, if call.allowFallback then .goesOn else .returns none)
  | some pref =>
    let idx := pref - self.poolStart
    if pref ≥ self.poolStart ∧ pref ≤ self.poolEnd ∧ pref ∉ self.quarantined ∧
        idx < self.leases.length ∧ self.slot idx = none ∧
        pool.getIpByUsername (leaseKey call.mac) = none then
      match pool.allocateFixedUnclaimed (leaseKey call.mac) pref with
      | (pool, some _) =>
        (self.setSlot idx (some ⟨pref, call.mac, self.requestedExpiry call⟩), pool,
          .returns (some pref))
      | (pool, none) => (self, pool, if call.allowFallback then .goesOn else .returns none)
    else (self, pool, if call.allowFallback then .goesOn else .returns none)

def fallBack (self : DhcpServer) (pool : IpPool) (call : AllocateIp) :
    DhcpServer × IpPool × Option Nat :=
  match pool.allocateInRangeExcluding (leaseKey call.mac) self.poolStart self.poolEnd
      self.quarantined with
  | (pool, some allocated) =>
    let allocIdx := allocated - self.poolStart
    if allocIdx < self.leases.length then
      (self.setSlot allocIdx (some ⟨allocated, call.mac, self.requestedExpiry call⟩), pool,
        some allocated)
    else (self, pool.release (leaseKey call.mac), none)
  | (pool, none) => (self, pool, none)

/-- `allocate_ip` with no other call on the pool in between. -/
def allocateIp (self : DhcpServer) (pool : IpPool) (call : AllocateIp) :
    DhcpServer × IpPool × Option Nat :=
  let (self, pool, _) := self.reapExpiredAt pool call.now
  match self.reuseLease pool call with
  | (self, .returns result) => (self, pool, result)
  | (self, .goesOn) =>
    match self.tryPreferred pool call with
    | (self, pool, .returns result) => (self, pool, result)
    | (self, pool, .goesOn) => self.fallBack pool call

def releaseClientAddress (self : DhcpServer) (pool : IpPool) (now : Nat) (mac : MacAddr)
    (address : Nat) (quarantine : Bool) : DhcpServer × IpPool :=
  match self.leases.findIdx? fun slot =>
      slot.any fun lease => lease.mac = mac ∧ lease.ip = address with
  | none => (self, pool)
  | some idx =>
    let self := self.setSlot idx none
    let pool :=
      if pool.getIpByUsername (leaseKey mac) = some address then pool.release (leaseKey mac)
      else pool
    if quarantine then
      ({ self with declined :=
          self.declined.insert address (saturatingAdd u64Max now declineQuarantineSecs) }, pool)
    else (self, pool)

end DhcpServer

/-! ## Packets -/

inductive MessageType where
  | discover
  | request
  | release
  | decline
  deriving DecidableEq

/-- The fields of a packet that the handlers read; `requestedIp` is option 50 and `serverId`
option 54. -/
structure Message where
  type : MessageType
  mac : MacAddr
  ciaddr : Nat
  requestedIp : Option Nat
  serverId : Option Nat
  deriving DecidableEq

namespace Message

def addressedToOtherServer (self : Message) (me : Nat) : Bool :=
  match self.serverId with
  | some server => server ≠ me
  | none => false

/-- The call of `allocate_ip` that a DISCOVER or a REQUEST leads to. -/
def allocateIp (self : Message) (server : DhcpServer) (now : Nat) : Option AllocateIp :=
  match self.type with
  | .discover => some ⟨self.mac, now, self.requestedIp, true, true⟩
  | .request =>
    if self.addressedToOtherServer server.serverIp then none
    else
      let requestedIp := self.requestedIp.or (if self.ciaddr ≠ 0 then some self.ciaddr else none)
      some ⟨self.mac, now, requestedIp, false, false⟩
  | .release => none
  | .decline => none

/-- The call of `release_client_address` that a RELEASE or a DECLINE leads to: the address
and whether it is quarantined. -/
def releases (self : Message) (server : DhcpServer) : Option (Nat × Bool) :=
  if self.addressedToOtherServer server.serverIp then none
  else
    match self.type with
    | .release => if self.ciaddr = 0 then none else some (self.ciaddr, false)
    | .decline => self.requestedIp.map fun address => (address, true)
    | .discover => none
    | .request => none

end Message

end Qeli.Dhcp
