import Qeli.Acl.Networks
import Qeli.Lib.Index
import Qeli.Wire.Roaming

/-!
# The session registry

`SessionMap` of `server/mod.rs`, with the client routes (`iroute`) that sessions bring along,
and `register_client_subnets` of `server/handler.rs`, which registers them. The map has each
session once under its primary address, under every address it was assigned, and under its
join token. The flags of a session that other tasks set are read when a packet is checked,
and are arguments there. Log lines are left out.
-/

namespace Qeli.Session

open Lib Route

def joinTokenLen : Nat := 16

/-- The fields of a session that the registry reads. The primary address is that of IPv4 for
a dual-stack session, otherwise the only one. -/
structure SessionShared where
  sessionId : Nat
  clientIp : IpAddr
  clientIpv4 : Option (BitVec 32)
  clientIpv6 : Option (BitVec 128)
  token : Wire.Bytes joinTokenLen
  primary : (clientIpv4.map IpAddr.v4).or (clientIpv6.map IpAddr.v6) = some clientIp
  deriving DecidableEq

def SessionShared.assignedAddresses (self : SessionShared) : List IpAddr :=
  (self.clientIpv4.map IpAddr.v4).toList ++ (self.clientIpv6.map IpAddr.v6).toList

/-! ## Client routes -/

inductive RouteNetwork where
  | v4 (network : BitVec 32)
  | v6 (network : BitVec 128)
  deriving DecidableEq

def routeMasked {w : Nat} (ip : BitVec w) (prefixLen : Nat) : BitVec w :=
  if prefixLen = 0 then 0 else ip &&& (BitVec.allOnes w <<< (w - prefixLen))

def routeMaskedV4 (ip : BitVec 32) (prefixLen : Nat) : BitVec 32 := routeMasked ip prefixLen

def routeMaskedV6 (ip : BitVec 128) (prefixLen : Nat) : BitVec 128 := routeMasked ip prefixLen

structure ClientRoute where
  net : RouteNetwork
  prefixLen : Nat
  cidr : String
  clientIp : IpAddr
  session : SessionShared
  deriving DecidableEq

namespace ClientRoute

/-- The prefix length that is written, if one is; the outer `none` is one that does not
parse. -/
def explicitPrefix (text : NetText) : Option String → Option (Option Nat)
  | some value => (text.parseU8 value).map some
  | none => some none

def parse (text : NetText) (cidr : String) (clientIp : IpAddr) (session : SessionShared) :
    Option ClientRoute := do
  let parts := Acl.Network.parts text (text.trim cidr)
  let explicit ← explicitPrefix text parts.2
  let ip ← text.parseIp parts.1
  let prefixLen := explicit.getD ip.bits
  match ip with
  | .v4 ip =>
    if prefixLen ≤ 32 then
      let network := routeMaskedV4 ip prefixLen
      some ⟨.v4 network, prefixLen, text.displayNet (.v4 network) prefixLen, clientIp, session⟩
    else none
  | .v6 ip =>
    if prefixLen ≤ 128 then
      let network := routeMaskedV6 ip prefixLen
      some ⟨.v6 network, prefixLen, text.displayNet (.v6 network) prefixLen, clientIp, session⟩
    else none

def contains (self : ClientRoute) (ip : IpAddr) : Bool :=
  match self.net, ip with
  | .v4 net, .v4 ip => routeMaskedV4 ip self.prefixLen == net
  | .v6 net, .v6 ip => routeMaskedV6 ip self.prefixLen == net
  | _, _ => false

def sameNetwork (self other : ClientRoute) : Bool :=
  self.net == other.net && self.prefixLen == other.prefixLen

end ClientRoute

/-! ## The map -/

structure SessionMap where
  byIp : KeyMap IpAddr SessionShared
  byAddress : KeyMap IpAddr SessionShared
  /-- The token of a session and its primary address. -/
  byToken : KeyMap (Wire.Bytes joinTokenLen) IpAddr
  clientRoutes : List ClientRoute

namespace SessionMap

def new : SessionMap := ⟨∅, ∅, ∅, []⟩

def remove (self : SessionMap) (primary : IpAddr) : SessionMap × Option SessionShared :=
  match self.byIp.get? primary with
  | none => (self, none)
  | some session =>
    ({ self with
        byIp := self.byIp.erase primary
        byToken := self.byToken.erase session.token
        byAddress := self.byAddress.eraseIf session.assignedAddresses fun current =>
          current.sessionId == session.sessionId },
      some session)

def insert (self : SessionMap) (session : SessionShared) : SessionMap × Option SessionShared :=
  let (self, previous) := self.remove session.clientIp
  ({ self with
      byIp := self.byIp.insert session.clientIp session
      byAddress := self.byAddress.insertAll session.assignedAddresses session
      byToken := self.byToken.insert session.token session.clientIp },
    previous)

def getByAddress (self : SessionMap) (address : IpAddr) : Option SessionShared :=
  self.byAddress.get? address

/-- `max_by_key` over the prefix length: the last of the longest. -/
def longest (routes : List ClientRoute) : Option ClientRoute :=
  routes.foldl (fun best route =>
    match best with
    | none => some route
    | some chosen => if route.prefixLen ≥ chosen.prefixLen then some route else best) none

def routeMatch (self : SessionMap) (dest : IpAddr) : Option ClientRoute :=
  longest (self.clientRoutes.filter fun route => route.contains dest)

def routeLookup (self : SessionMap) (dest : IpAddr) : Option SessionShared :=
  (self.routeMatch dest).map ClientRoute.session

/-- May the session send from this address? The flags are as they are loaded now. -/
def sourceOwnedBy (self : SessionMap) (revoked closing : SessionShared → Bool) (sessionId : Nat)
    (source : IpAddr) : Bool :=
  ((self.getByAddress source).or (self.routeLookup source)).any fun owner =>
    owner.sessionId == sessionId && !revoked owner && !closing owner &&
      (self.byIp.get? owner.clientIp).any fun current => current.sessionId == sessionId

/-- The CIDRs whose kernel routes are to be removed; `/0` has none. -/
def takeClientRoutes (self : SessionMap) (clientIp : IpAddr) : SessionMap × List String :=
  let cidrs := (self.clientRoutes.filter fun r =>
    r.clientIp == clientIp && decide (0 < r.prefixLen)).map ClientRoute.cidr
  ({ self with clientRoutes := self.clientRoutes.filter fun r => r.clientIp != clientIp }, cidrs)

end SessionMap

/-! ## Registration -/

def clientSubnetFamilyActive (text : NetText) (cidr : String) (hasIpv4 hasIpv6 : Bool) : Bool :=
  match text.parseIp (Acl.Network.parts text (text.trim cidr)).1 with
  | some address => if address.isIpv4 then hasIpv4 else hasIpv6
  -- the diagnostics of a malformed one are those of `ClientRoute::parse`
  | none => true

/-- One subnet of a client, with the CIDR to install for it. -/
def registerSubnet (text : NetText) (clientIp : IpAddr) (session : SessionShared)
    (serverTunAddresses : List IpAddr) (sessions : SessionMap) (cidr : String) :
    SessionMap × Option String :=
  if !clientSubnetFamilyActive text cidr session.clientIpv4.isSome session.clientIpv6.isSome then
    (sessions, none)
  else
    match ClientRoute.parse text cidr clientIp session with
    | none => (sessions, none)
    | some r =>
      let isDefault := r.prefixLen == 0
      if !isDefault && serverTunAddresses.any r.contains then (sessions, none)
      -- whether the owner is another client or this one
      else if sessions.clientRoutes.any fun existing => existing.sameNetwork r then
        (sessions, none)
      else
        ({ sessions with clientRoutes := sessions.clientRoutes ++ [r] },
          if isDefault then none else some r.cidr)

def registerClientSubnets (text : NetText) (sessions : SessionMap) (clientSubnets : List String)
    (clientIp : IpAddr) (session : SessionShared) (serverTunAddresses : List IpAddr) :
    SessionMap × List String :=
  clientSubnets.foldl (fun (sessions, programmed) cidr =>
    let (sessions, added) := registerSubnet text clientIp session serverTunAddresses sessions cidr
    (sessions, programmed ++ added.toList)) (sessions, [])

end Qeli.Session
