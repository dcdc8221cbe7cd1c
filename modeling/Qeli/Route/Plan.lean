import Qeli.Lib.Bytes
import Qeli.Lib.Text
import Qeli.Route.Cidr

/-!
# The network plan

`build_network_plan` of `transport_core/network.rs`: from the client's configuration and
what the server announced, the routes and resolvers the platform has to apply. Configured
include routes, private networks, accepted pushed routes and a host route for each resolver
are collected; then the configured exclusions are cut out of all but the resolvers' routes.
-/

namespace Qeli.Route

open Qeli.Lib

inductive NetworkAddressFamily where
  | ipv4
  | ipv6
  deriving DecidableEq, Repr

inductive NetworkFamilyMode where
  | ipv4
  | dual
  | ipv6
  deriving DecidableEq, Repr

inductive ClientIpv6Policy where
  | auto
  | required
  | off
  deriving DecidableEq, Repr

structure NetworkAddress where
  family : NetworkAddressFamily
  address : String
  prefixLen : Nat
  onLinkPrefixLen : Nat
  gateway : Option String
  deriving DecidableEq, Repr

structure NetworkDns where
  address : String
  port : Nat
  deriving DecidableEq, Repr

structure NetworkRoute where
  cidr : String
  gateway : String
  metric : Nat
  deriving DecidableEq, Repr

structure ClientRoutingConfig where
  ipv6 : ClientIpv6Policy
  mode : String
  addDefaultGateway : Bool
  pullRoutes : Bool
  includes : List String
  excludes : List String
  routeLocalNetworks : Bool
  killSwitch : Bool
  allowIpv4Leak : Bool
  allowIpv6Leak : Bool
  deriving DecidableEq, Repr

structure ClientDnsConfig where
  mode : String
  servers : List String
  fallbackServers : List String
  deriving DecidableEq, Repr

structure ClientConfig where
  /-- `tun.device_type`. -/
  deviceType : String
  routing : ClientRoutingConfig
  dns : ClientDnsConfig
  deriving DecidableEq, Repr

structure HandshakeNetwork where
  familyMode : NetworkFamilyMode
  addresses : List NetworkAddress
  clientIp : String
  prefixLen : Nat
  tunnelGateway : String
  dnsIp : String
  dnsPort : String
  dnsServers : List NetworkDns
  routesJson : String
  mtu : Int
  fallbackDnsServers : List String
  deriving DecidableEq, Repr

structure NetworkPlan where
  generation : Nat
  familyMode : NetworkFamilyMode
  addresses : List NetworkAddress
  tunnelAddress : String
  prefixLen : Nat
  mtu : Nat
  tunnelGateway : String
  carrierAddress : Option String
  routes : List NetworkRoute
  pushedRoutes : List String
  dnsServers : List NetworkDns
  fullTunnel : Bool
  killSwitch : Bool
  allowIpv4Leak : Bool
  allowIpv6Leak : Bool
  maxStreams : Nat
  adaptive : Bool
  connectionLog : List String
  deriving DecidableEq, Repr

/-! ## Text -/

def splitOnce (separator : Char) (s : String) : Option (String × String) :=
  (Str.splitOnce separator s.toList).map fun parts => (.ofList parts.1, .ofList parts.2)

def rsplitOnce (separator : Char) (s : String) : Option (String × String) :=
  (Str.splitOnce separator s.toList.reverse).map fun parts =>
    (.ofList parts.2.reverse, .ofList parts.1.reverse)

def startsWithDash (s : String) : Bool := s.toList.head? == some '-'

def isValidCidr (text : NetText) (s : String) : Bool :=
  if startsWithDash s then false
  else
    match splitOnce '/' s with
    | none => false
    | some (addr, prefixText) =>
      match text.parseIp addr, text.parseU8 prefixText with
      | some ip, some len =>
        let mask := if len = 0 then 0 else highMask ip.bits (ip.bits - len)
        decide (len ≤ ip.bits) && ip.toNat &&& mask == ip.toNat
      | _, _ => false

def isValidGateway (text : NetText) (s : String) : Bool :=
  !startsWithDash s && (text.parseIp s).isSome

def cidrAddress (text : NetText) (cidr : String) : Option IpAddr :=
  (splitOnce '/' cidr).bind fun parts => text.parseIp parts.1

/-! ## Addresses -/

def NetworkAddress.hasFamilyOf (assigned : NetworkAddress) : IpAddr → Bool
  | .v4 _ => assigned.family == .ipv4
  | .v6 _ => assigned.family == .ipv6

def addressesForClientDevice (config : ClientConfig) (addresses : List NetworkAddress) :
    List NetworkAddress :=
  let isTap := config.deviceType.toLower == "tap"
  addresses.map fun assigned =>
    { assigned with
      prefixLen :=
        if isTap then assigned.onLinkPrefixLen
        else
          match assigned.family with
          | .ipv4 => 32
          | .ipv6 => 128 }

def gatewayForIp (address : IpAddr) (addresses : List NetworkAddress) : Except String String :=
  match (addresses.find? (·.hasFamilyOf address)).bind (·.gateway) with
  | some gateway => .ok gateway
  | none =>
    let family := if address.isIpv4 then "IPv4" else "IPv6"
    .error s!"no tunnel gateway for {family} route"

def gatewayForCidr (text : NetText) (cidr : String) (addresses : List NetworkAddress) :
    Except String String :=
  match cidrAddress text cidr with
  | none => .error s!"invalid route CIDR '{cidr}'"
  | some address => gatewayForIp address addresses

def routeFamilyIsActive (text : NetText) (cidr : String) (addresses : List NetworkAddress) :
    Except String Bool :=
  match cidrAddress text cidr with
  | none => .error s!"invalid route CIDR '{cidr}'"
  | some address => .ok (addresses.any (·.hasFamilyOf address))

def isFullTunnel (config : ClientConfig) : Bool :=
  config.routing.addDefaultGateway || config.routing.mode == "full-tunnel" ||
    config.routing.mode == "all"

def normalizedPrefix (prefixLen : Nat) : Nat :=
  if 1 ≤ prefixLen ∧ prefixLen ≤ 32 then prefixLen else 24

/-! ## Resolvers -/

def dnsList (text : NetText) (addresses : List String) (source : String) (port : Nat) :
    Except String (List NetworkDns) :=
  addresses.mapM fun address =>
    match text.parseIp address with
    | none => .error s!"invalid {source} DNS server '{address}'"
    | some _ => .ok ⟨address, port⟩

def maxDnsServers : Nat := 8

def dnsCandidates (text : NetText) (config : ClientDnsConfig) (network : HandshakeNetwork) :
    Except String (List NetworkDns) :=
  if !config.servers.isEmpty then dnsList text config.servers "client" 53
  else if !network.dnsServers.isEmpty then .ok network.dnsServers
  else if network.dnsIp ≠ "" ∧ network.familyMode = .ipv4 ∧
      network.addresses.all (·.family == .ipv4) then
    match text.parseU16 network.dnsPort with
    | none =>
      let port := network.dnsPort
      .error s!"invalid pushed DNS port '{port}'"
    | some port => .ok [⟨network.dnsIp, port⟩]
  else if !network.fallbackDnsServers.isEmpty then
    dnsList text network.fallbackDnsServers "platform fallback" 53
  else dnsList text config.fallbackServers "client fallback" 53

def checkDns (text : NetText) (addresses : List NetworkAddress) (dns : NetworkDns) :
    Except String Unit :=
  let server := dns.address
  let port := dns.port
  if dns.port = 0 then .error s!"invalid DNS server '{server}:0'"
  else
    match text.parseIp dns.address with
    | none => .error s!"invalid DNS server '{server}:{port}'"
    | some address =>
      match gatewayForIp address addresses with
      | .error _ =>
        .error s!"DNS server '{server}' uses a family not present in the negotiated tunnel"
      | .ok _ => .ok ()

def plannedDnsServers (text : NetText) (config : ClientDnsConfig) (network : HandshakeNetwork) :
    Except String (List NetworkDns) :=
  if config.mode ≠ "tunnel" then .ok []
  else do
    let candidates ← dnsCandidates text config network
    if maxDnsServers < candidates.length then
      throw "network plan contains too many DNS servers"
    candidates.forM (checkDns text network.addresses)
    return candidates

/-! ## Pushed routes -/

def pushedRoutePrefixIsAllowed (address : IpAddr) (prefixLen : Nat) : Bool :=
  (if address.isIpv4 then 8 else 3) ≤ prefixLen

def familyCidr (text : NetText) (bits : Nat) (route : NetworkRoute) : Option NumericCidr :=
  match NumericCidr.parse text route.cidr with
  | .ok cidr => if cidr.bits = bits then some cidr else none
  | .error _ => none

def routesCoverAddressFamily (text : NetText) (routes : List NetworkRoute) (bits : Nat) : Bool :=
  cidrsCover bits ⟨0, 0, bits⟩ (routes.filterMap (familyCidr text bits))

def pushedGateway (route : PushedRoute) (routeAddress : IpAddr) (addresses : List NetworkAddress) :
    Except String String :=
  match route.gateway with
  | some gateway => .ok gateway
  | none => gatewayForIp routeAddress addresses

def pushedPrefix (text : NetText) (cidr : String) (routeAddress : IpAddr) : Nat :=
  ((rsplitOnce '/' cidr).bind fun parts => text.parseU8 parts.2).getD
    (if routeAddress.isIpv4 then 32 else 128)

/-- One round of the loop over pushed routes: the route to plan, unless it is passed over. -/
def acceptPushedRoute (text : NetText) (addresses : List NetworkAddress) (route : PushedRoute) :
    Except String (Option NetworkRoute) :=
  match cidrAddress text route.cidr with
  | none => .ok none
  | some routeAddress =>
    if !addresses.any (·.hasFamilyOf routeAddress) then .ok none
    else do
      let gateway ← pushedGateway route routeAddress addresses
      if !isValidCidr text route.cidr || !isValidGateway text gateway then return none
      match text.parseIp gateway with
      | none => return none
      | some gatewayAddress =>
        if routeAddress.isIpv4 != gatewayAddress.isIpv4 then return none
        let prefixLen := pushedPrefix text route.cidr routeAddress
        if !pushedRoutePrefixIsAllowed routeAddress prefixLen then return none
        let cidr ← NumericCidr.parse text route.cidr
        return some ⟨cidr.render text, gateway, route.metric.getD 100⟩

def coversFamily (family : String) : String :=
  s!"server-pushed routes collectively cover the entire {family} address space; only the local client may enable full-tunnel mode"

def plannedPushedRoutesForAddresses (text : NetText) (routesJson : String)
    (addresses : List NetworkAddress) : Except String (List NetworkRoute) :=
  let trimmed := text.trim routesJson
  if trimmed = "" ∨ trimmed = "[]" then .ok []
  else
    match text.parseRoutes trimmed with
    | .error error => .error s!"failed to parse pushed routes: {error}"
    | .ok routes => do
      let accepted ← routes.mapM (acceptPushedRoute text addresses)
      let planned := accepted.filterMap id
      if routesCoverAddressFamily text planned 32 then throw (coversFamily "IPv4")
      if routesCoverAddressFamily text planned 128 then throw (coversFamily "IPv6")
      return planned

/-! ## Exclusions -/

/-- One round of the loop of `apply_route_exclusions`. -/
def excludeFromRoute (text : NetText) (excludes protectedHostRoutes : List NumericCidr)
    (planned : List NetworkRoute) (route : NetworkRoute) : Except String (List NetworkRoute) := do
  let original ← NumericCidr.parse text route.cidr
  let fragments ← (if original ∈ protectedHostRoutes then .ok [original]
    else cidrMinusExcludes text route.cidr excludes)
  let planned :=
    if fragments = [original] then planned ++ [{ route with cidr := original.render text }]
    else planned ++ fragments.map fun fragment => ⟨fragment.render text, route.gateway, route.metric⟩
  if maxRoutes < planned.length then throw tooManyRoutes
  return planned

def applyRouteExclusions (text : NetText) (routes : List NetworkRoute) (excludeCidrs : List String)
    (protectedHostRoutes : List NumericCidr) : Except String (List NetworkRoute) := do
  let excludes ← excludeCidrs.mapM (NumericCidr.parse text)
  routes.foldlM (excludeFromRoute text excludes protectedHostRoutes) []

/-! ## The plan -/

def checkIpv6Policy (policy : ClientIpv6Policy) (addresses : List NetworkAddress) :
    Except String Unit :=
  let hasIpv6 := addresses.any (·.family == .ipv6)
  match policy with
  | .off =>
    if hasIpv6 then .error "server returned IPv6 although the client policy is ipv6=off"
    else .ok ()
  | .required =>
    if !hasIpv6 then
      .error "server returned no IPv6 address although the client policy is required"
    else .ok ()
  | .auto => .ok ()

/-- No exclusion may take the gateway from its own link. -/
def checkGateway (text : NetText) (excludes : List String) (assigned : NetworkAddress) :
    Except String Unit :=
  match assigned.gateway with
  | none => .ok ()
  | some gatewayText =>
    match text.parseIp gatewayText with
    | none => .error s!"invalid tunnel gateway '{gatewayText}'"
    | some gateway =>
      excludes.forM fun cidr =>
        match text.parseNet cidr with
        | none => .error s!"invalid exclude route '{cidr}'"
        | some excluded =>
          if assigned.onLinkPrefixLen ≤ excluded.prefixLen ∧ excluded.contains gateway then
            let onLink := assigned.onLinkPrefixLen
            .error s!"tunnel gateway '{gatewayText}' is covered by exclude route '{cidr}' at or above the on-link /{onLink} prefix"
          else .ok ()

/-- No exclusion may name a resolver itself. -/
def checkDnsExclusions (text : NetText) (excludes : List String) (dns : NetworkDns) :
    Except String Unit :=
  let server := dns.address
  match text.parseIp dns.address with
  | none => .error s!"invalid DNS server '{server}'"
  | some address =>
    excludes.forM fun cidr =>
      match text.parseNet cidr with
      | none => .error s!"invalid exclude route '{cidr}'"
      | some excluded =>
        if excluded.prefixLen = (if address.isIpv4 then 32 else 128) ∧ excluded.contains address then
          .error s!"tunnel DNS server '{server}' is covered by exclude route '{cidr}'; remove the exclusion or choose a resolver outside it"
        else .ok ()

def includeRoute (text : NetText) (addresses : List NetworkAddress) (cidr : String) :
    Except String NetworkRoute := do
  let active ← routeFamilyIsActive text cidr addresses
  if !active then
    let parsed ← NumericCidr.parse text cidr
    let family := if parsed.bits = 32 then "IPv4" else "IPv6"
    throw s!"include route '{cidr}' requires an active {family} tunnel address; refusing to leak explicitly included traffic through the physical network"
  let parsed ← NumericCidr.parse text cidr
  let gateway ← gatewayForCidr text cidr addresses
  return ⟨parsed.render text, gateway, 100⟩

def localNetworks : List String := ["10.0.0.0/8", "172.16.0.0/12", "192.168.0.0/16"]

def localRoutes (text : NetText) (config : ClientRoutingConfig) (addresses : List NetworkAddress) :
    Except String (List NetworkRoute) :=
  if config.routeLocalNetworks && addresses.any (·.family == .ipv4) then do
    let gateway ← gatewayForCidr text "10.0.0.0/8" addresses
    return localNetworks.map fun cidr => ⟨cidr, gateway, 100⟩
  else .ok []

/-- The routes so far, and the host routes that exclusions must leave alone. -/
structure DnsRoutes where
  routes : List NetworkRoute
  protectedRoutes : List NumericCidr

def addDnsRoute (text : NetText) (addresses : List NetworkAddress) (state : DnsRoutes)
    (dns : NetworkDns) : Except String DnsRoutes :=
  match text.parseIp dns.address with
  | none => .ok state
  | some address => do
    let cidr := text.displayNet address (if address.isIpv4 then 32 else 128)
    let host ← NumericCidr.parse text cidr
    let state := { state with protectedRoutes := host :: state.protectedRoutes }
    if state.routes.any (·.cidr == cidr) then return state
    let gateway ← gatewayForIp address addresses
    return { state with routes := state.routes ++ [⟨cidr, gateway, 50⟩] }

/-- The routes before exclusions: pushed, included, private, and those of the resolvers. -/
def collectRoutes (text : NetText) (config : ClientRoutingConfig) (addresses : List NetworkAddress)
    (pushed : List NetworkRoute) (dnsServers : List NetworkDns) : Except String DnsRoutes := do
  let included ← config.includes.mapM (includeRoute text addresses)
  let localNets ← localRoutes text config addresses
  dnsServers.foldlM (addDnsRoute text addresses) ⟨pushed ++ included ++ localNets, []⟩

def noResolver : String :=
  "full-tunnel DNS is set to tunnel mode but no resolver is available; configure dns_servers, let the server push one, or set dns = off only when the platform manages DNS"

def buildNetworkPlan (text : NetText) (config : ClientConfig) (generation : Nat)
    (network : HandshakeNetwork) : Except String NetworkPlan := do
  let mtu := network.mtu
  if mtu < 0 ∨ 65535 < mtu then throw s!"invalid tunnel MTU {mtu}"
  let addresses := addressesForClientDevice config network.addresses
  let fullTunnel := isFullTunnel config
  checkIpv6Policy config.routing.ipv6 network.addresses
  network.addresses.forM (checkGateway text config.routing.excludes)
  let prefixLen :=
    ((network.addresses.find? (·.address == network.clientIp)).map (·.onLinkPrefixLen)).getD
      (normalizedPrefix network.prefixLen)
  let dnsServers ← plannedDnsServers text config.dns network
  if fullTunnel && config.dns.mode == "tunnel" && dnsServers.isEmpty then throw noResolver
  dnsServers.forM (checkDnsExclusions text config.routing.excludes)
  let parsed ← plannedPushedRoutesForAddresses text network.routesJson network.addresses
  let pushed := if config.routing.pullRoutes then parsed else []
  let collected ← collectRoutes text config.routing network.addresses pushed dnsServers
  let routes ← applyRouteExclusions text collected.routes config.routing.excludes
    collected.protectedRoutes
  return {
    generation
    familyMode := network.familyMode
    addresses
    tunnelAddress := network.clientIp
    prefixLen
    mtu := mtu.toNat
    tunnelGateway := network.tunnelGateway
    carrierAddress := none
    routes
    pushedRoutes := pushed.map (·.cidr)
    dnsServers
    fullTunnel
    killSwitch := config.routing.killSwitch && fullTunnel
    allowIpv4Leak := config.routing.allowIpv4Leak
    allowIpv6Leak := config.routing.allowIpv6Leak
    maxStreams := 1
    adaptive := false
    connectionLog := [] }

end Qeli.Route
