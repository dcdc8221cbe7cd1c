import Mathlib.Data.List.Destutter
import Mathlib.Data.List.Sort
import Qeli.Config.Ini
import Qeli.Lib.KeyMap
import Qeli.Ip.Packet
import Qeli.Route.Plan

/-!
# The destination ACL

`DstAcl` of `server/acl.rs`: the `allowed_networks` of a user, or else of the user's group,
are read from the sections of the configuration (`config/server_ini.rs`), compiled once at
session setup and asked for each packet that leaves the tunnel. The parsers of the standard
library are those of `NetText`. The log line for a malformed entry is left out.
-/

namespace Qeli.Acl

open Lib Route

/-- A network with its host bits cleared, and its mask. -/
inductive Network where
  | v4 (network mask : BitVec 32)
  | v6 (network mask : BitVec 128)
  deriving DecidableEq, Repr

def netMask (w prefixLen : Nat) : BitVec w :=
  if prefixLen = 0 then 0 else BitVec.allOnes w <<< (w - prefixLen)

namespace Network

/-- The text before the slash, and the text after it if there is one. -/
def parts (text : NetText) (value : String) : String × Option String :=
  match splitOnce '/' value with
  | none => (value, none)
  | some (address, prefixText) => (text.trim address, some (text.trim prefixText))

/-- The prefix length, which is that of one address when none is written. -/
def prefixOf (text : NetText) (bits : Nat) (prefixText : Option String) : Option Nat :=
  match prefixText with
  | none => some bits
  | some value => (text.parseU8 value).filter fun len => len ≤ bits

def ofAddr : IpAddr → Nat → Network
  | .v4 address, prefixLen => .v4 (address &&& netMask 32 prefixLen) (netMask 32 prefixLen)
  | .v6 address, prefixLen => .v6 (address &&& netMask 128 prefixLen) (netMask 128 prefixLen)

def parse (text : NetText) (raw : String) : Option Network := do
  let (address, prefixText) := parts text (text.trim raw)
  let ip ← text.parseIp address
  let prefixLen ← prefixOf text ip.bits prefixText
  some (ofAddr ip prefixLen)

def contains : Network → IpAddr → Bool
  | .v4 network mask, .v4 address => address &&& mask == network
  | .v6 network mask, .v6 address => address &&& mask == network
  | _, _ => false

/-- The derived order: IPv4 before IPv6, then by network and mask. -/
def le : Network → Network → Bool
  | .v4 n m, .v4 n' m' => n < n' || (n == n' && m ≤ m')
  | .v4 _ _, .v6 _ _ => true
  | .v6 _ _, .v4 _ _ => false
  | .v6 n m, .v6 n' m' => n < n' || (n == n' && m ≤ m')

end Network

structure DstAcl where
  nets : List Network
  restricted : Bool
  deriving DecidableEq, Repr

def ofOctets : Ip.IpAddr → IpAddr
  | .v4 octets => .v4 (.ofNat 32 (ofBE octets))
  | .v6 octets => .v6 (.ofNat 128 (ofBE octets))

namespace DstAcl

/-- One entry: blank ones are skipped, and any other restricts, well formed or not. -/
def addEntry (text : NetText) (acl : DstAcl) (raw : String) : DstAcl :=
  let s := text.trim raw
  if s = "" then acl
  else
    match Network.parse text s with
    | none => { acl with restricted := true }
    | some network => ⟨acl.nets ++ [network], true⟩

def compile (text : NetText) (cidrs : List String) : DstAcl :=
  let acl := cidrs.foldl (addEntry text) ⟨[], false⟩
  -- `sort_unstable` and `dedup`, which drops repetitions that stand side by side.
  { acl with nets := (acl.nets.mergeSort Network.le).destutter (· ≠ ·) }

def allowsPacket (self : DstAcl) (pkt : List UInt8) : Bool :=
  if !self.restricted then true
  else
    match Ip.parseIpPacket pkt with
    | .error _ => false
    | .ok packet => self.nets.any fun network => network.contains (ofOctets packet.destination)

end DstAcl

/-! ## Users and groups -/

/-- The fields of a user that the ACL reads. -/
structure UserEntry where
  allowedNetworks : List String
  group : Option String
  deriving DecidableEq, Repr

structure GroupTemplate where
  allowedNetworks : Option (List String)
  deriving DecidableEq, Repr

/-- The entries of a section's `allowed_networks`. -/
def allowedNetworksOf (s : Config.Section) : List String :=
  (s.list "allowed_networks".toList).map String.ofList

def userFrom (s : Config.Section) : UserEntry where
  allowedNetworks := allowedNetworksOf s
  group := ((s.get "group".toList).filter fun v => !v.isEmpty).map String.ofList

def groupFrom (s : Config.Section) : GroupTemplate where
  allowedNetworks :=
    if s.containsKey "allowed_networks".toList then some (allowedNetworksOf s) else none

def inherited (groups : KeyMap String GroupTemplate) (group : Option String) : List String :=
  match group.bind groups.get? with
  | some template => template.allowedNetworks.getD []
  | none => []

/-- The user's own list, else the group's. A list is the user's own when it has an entry,
blank or not. -/
def effectiveAllowedNetworks (user : UserEntry) (groups : KeyMap String GroupTemplate) :
    List String :=
  if !user.allowedNetworks.isEmpty then user.allowedNetworks else inherited groups user.group

/-- May the user send the packet? -/
def allows (text : NetText) (groups : KeyMap String GroupTemplate) (user : UserEntry)
    (pkt : List UInt8) : Bool :=
  (DstAcl.compile text (effectiveAllowedNetworks user groups)).allowsPacket pkt

end Qeli.Acl
