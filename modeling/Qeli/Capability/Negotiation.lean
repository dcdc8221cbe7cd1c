import Qeli.Lib.Masks
import Qeli.Lib.Run
import Qeli.Route.Plan

/-!
# Negotiated capabilities

`protocol/capabilities.rs`: what the client advertises to a server that announced these
capabilities, for its configuration and its platform, and what the server then makes of it.
The client takes bits away that it cannot use and refuses a connection that lacks what its
configuration requires; the server tests the bits that are left against sets of its own.
`roamingBuild` is the build's roaming feature.
-/

namespace Qeli.Capability

open Qeli.Lib Qeli.Lib.Masks
open Qeli.Route (ClientIpv6Policy)

/-! ## Bits -/

namespace ServerCapability

def authExtV1 : UInt64 := (1 : UInt64) <<< 0
def innerIpv6 : UInt64 := (1 : UInt64) <<< 1
def networkPlanV2 : UInt64 := (1 : UInt64) <<< 2
def udpDataFragV1 : UInt64 := (1 : UInt64) <<< 3
def controlV2 : UInt64 := (1 : UInt64) <<< 5
def udpRoamV1 : UInt64 := (1 : UInt64) <<< 6
def tcpResumeV2 : UInt64 := (1 : UInt64) <<< 9
def tcpHandoverV2 : UInt64 := (1 : UInt64) <<< 10

end ServerCapability

namespace ClientCapability

def innerIpv6 : UInt64 := (1 : UInt64) <<< 0
def networkPlanV2 : UInt64 := (1 : UInt64) <<< 1
def udpDataFragV1 : UInt64 := (1 : UInt64) <<< 2
def packetMuxV1 : UInt64 := (1 : UInt64) <<< 3
def controlV2 : UInt64 := (1 : UInt64) <<< 4
def udpRoamV1 : UInt64 := (1 : UInt64) <<< 5
def tcpResumeV1 : UInt64 := (1 : UInt64) <<< 6
def tcpHandoverV1 : UInt64 := (1 : UInt64) <<< 7
def tcpResumeV2 : UInt64 := (1 : UInt64) <<< 8
def tcpHandoverV2 : UInt64 := (1 : UInt64) <<< 9
def managementV1 : UInt64 := (1 : UInt64) <<< 10

def roamingReserved : UInt64 :=
  udpRoamV1 ||| tcpResumeV1 ||| tcpHandoverV1 ||| tcpResumeV2 ||| tcpHandoverV2

end ClientCapability

namespace PlatformCapability

def ipv6Tun : UInt64 := (1 : UInt64) <<< 8
def ipv6Routes : UInt64 := (1 : UInt64) <<< 9
def ipv6Dns : UInt64 := (1 : UInt64) <<< 10
def ipv6KillSwitch : UInt64 := (1 : UInt64) <<< 11
def pathTransactions : UInt64 := (1 : UInt64) <<< 12
def pathSocketBinding : UInt64 := (1 : UInt64) <<< 13
def managementEvents : UInt64 := (1 : UInt64) <<< 15

def roamingPath : UInt64 := pathTransactions ||| pathSocketBinding

end PlatformCapability

structure ServerCapabilities where
  bits : UInt64
  deriving DecidableEq, Repr

def ServerCapabilities.contains (self : ServerCapabilities) (required : UInt64) : Bool :=
  decide (Has self.bits required)

structure ClientCapabilities where
  coreBits : UInt64
  platformBits : UInt64
  ipv6Policy : ClientIpv6Policy
  deriving DecidableEq, Repr

/-! ## Configuration -/

inductive ClientRoamingPolicy where
  | off
  | auto
  | required
  deriving DecidableEq, Repr

/-- `server.protocol`, `server.local_address`, `server.local_port` and `tun.mtu` stand beside
the routing part. -/
structure ClientConfig extends Route.ClientConfig where
  roaming : ClientRoamingPolicy
  protocol : String
  localAddress : Option String
  localPort : Nat
  mtu : Int
  deriving DecidableEq, Repr

inductive IpMode where
  | ipv4
  | dual
  | ipv6
  deriving DecidableEq, Repr

/-! ## What both sides test -/

def udpRoamingNegotiated (roamingBuild : Bool) (server : Option ServerCapabilities)
    (client : Option ClientCapabilities) : Bool :=
  let requiredServer := ServerCapability.controlV2 ||| ServerCapability.udpRoamV1 |||
    ServerCapability.udpDataFragV1
  let requiredClient := ClientCapability.controlV2 ||| ClientCapability.udpRoamV1 |||
    ClientCapability.udpDataFragV1
  roamingBuild && server.any (·.contains requiredServer) &&
    client.any fun capabilities => Has capabilities.coreBits requiredClient

def tcpHandoverSupported (roamingBuild : Bool) (client : Option ClientCapabilities) : Bool :=
  roamingBuild && client.any fun capabilities =>
    let requiredCore := ClientCapability.tcpResumeV2 ||| ClientCapability.tcpHandoverV2
    Has capabilities.coreBits requiredCore ∧
      Has capabilities.platformBits PlatformCapability.roamingPath

def implementedClientCoreCapabilities (roamingBuild : Bool) : UInt64 :=
  let bits := ClientCapability.innerIpv6 ||| ClientCapability.networkPlanV2 |||
    ClientCapability.udpDataFragV1 ||| ClientCapability.packetMuxV1
  if roamingBuild then
    bits ||| ClientCapability.controlV2 ||| ClientCapability.managementV1 |||
      ClientCapability.udpRoamV1 ||| ClientCapability.tcpResumeV2 |||
      ClientCapability.tcpHandoverV2
  else bits

/-! ## The client -/

/-- A number as `0x{:x}` prints it. -/
def hex (n : UInt64) : String := "0x" ++ String.ofList (Nat.toDigits 16 n.toNat)

/-- No extension can be sent; what is required is then out of reach. -/
def withoutExtension (config : ClientConfig) (reason : String) :
    Except String (Option ClientCapabilities) :=
  if config.roaming = .required then
    .error s!"roaming is required but the server does not {reason}"
  else if config.routing.ipv6 = .required then
    .error s!"inner IPv6 is required but the server does not {reason}"
  else .ok none

def explicitMtuBlocksIpv6 (config : ClientConfig) : Bool := 0 < config.mtu ∧ config.mtu < 1280

def requiredPlatform (config : ClientConfig) : UInt64 :=
  let base := PlatformCapability.ipv6Tun ||| PlatformCapability.ipv6Routes |||
    PlatformCapability.ipv6Dns
  if config.routing.killSwitch && Route.isFullTunnel config.toClientConfig then
    base ||| PlatformCapability.ipv6KillSwitch
  else base

/-- The core's bits without those that this connection cannot use. -/
def usableCoreBits (roamingBuild : Bool) (config : ClientConfig) (server : ServerCapabilities)
    (platformBits : UInt64) : UInt64 :=
  let roamingPath := PlatformCapability.roamingPath
  let coreBits := implementedClientCoreCapabilities roamingBuild
  let coreBits :=
    if explicitMtuBlocksIpv6 config then strip coreBits ClientCapability.innerIpv6 else coreBits
  let coreBits :=
    if ¬ Has platformBits (requiredPlatform config) then
      strip coreBits ClientCapability.innerIpv6
    else coreBits
  let coreBits :=
    if ¬ Has platformBits roamingPath then strip coreBits ClientCapability.tcpHandoverV2
    else coreBits
  let coreBits :=
    if Lacks platformBits PlatformCapability.managementEvents then
      strip coreBits ClientCapability.managementV1
    else coreBits
  let coreBits :=
    if config.protocol = "tcp" then strip coreBits ClientCapability.udpRoamV1
    else if config.protocol = "udp" then
      strip coreBits (ClientCapability.tcpResumeV2 ||| ClientCapability.tcpHandoverV2)
    else strip coreBits ClientCapability.roamingReserved
  let udpRoamingEligible := config.protocol == "udp" &&
    server.contains ServerCapability.udpRoamV1 && decide (Has platformBits roamingPath)
  let coreBits :=
    if !udpRoamingEligible then strip coreBits ClientCapability.udpRoamV1 else coreBits
  if config.roaming = .off then strip coreBits ClientCapability.roamingReserved else coreBits

def requireBits (bits required : UInt64) (reason : String) : Except String Unit :=
  let missing := required &&& ~~~bits
  if missing ≠ 0 then .error s!"{reason} is missing capabilities {hex missing}" else .ok ()

/-- What migration takes over a protocol, of the server and of the core. -/
def roamingBits (protocol : String) : Except String (UInt64 × UInt64) :=
  if protocol = "tcp" then
    .ok
      (ServerCapability.controlV2 ||| ServerCapability.tcpResumeV2 |||
          ServerCapability.tcpHandoverV2,
        ClientCapability.controlV2 ||| ClientCapability.tcpResumeV2 |||
          ClientCapability.tcpHandoverV2)
  else if protocol = "udp" then
    .ok
      (ServerCapability.controlV2 ||| ServerCapability.udpRoamV1 |||
          ServerCapability.udpDataFragV1,
        ClientCapability.controlV2 ||| ClientCapability.udpRoamV1 |||
          ClientCapability.udpDataFragV1)
  else .error s!"roaming is required but protocol '{protocol}' does not support migration"

def requireRoaming (config : ClientConfig) (server : ServerCapabilities)
    (platformBits coreBits : UInt64) : Except String Unit :=
  if config.roaming ≠ .required then .ok ()
  else if config.localAddress.isSome ∨ config.localPort ≠ 0 then
    .error "roaming is required but explicit local/lport settings pin the carrier socket"
  else do
    requireBits platformBits PlatformCapability.roamingPath
      "roaming is required but the platform adapter"
    let required ← roamingBits config.protocol
    requireBits server.bits required.1 "roaming is required but the server"
    requireBits coreBits required.2 "roaming is required but this client core"

def requireIpv6 (config : ClientConfig) (server : ServerCapabilities)
    (platformBits coreBits : UInt64) : Except String Unit :=
  if config.routing.ipv6 ≠ .required then .ok ()
  else do
    requireBits server.bits
      (ServerCapability.innerIpv6 ||| ServerCapability.networkPlanV2 |||
        ServerCapability.udpDataFragV1)
      "inner IPv6 is required but the server"
    requireBits platformBits (requiredPlatform config)
      "inner IPv6 is required but the platform adapter"
    requireBits coreBits
      (ClientCapability.innerIpv6 ||| ClientCapability.networkPlanV2 |||
        ClientCapability.udpDataFragV1)
      "inner IPv6 is required but this client core"

def negotiateClientCapabilities (roamingBuild : Bool) (config : ClientConfig)
    (server : Option ServerCapabilities) (platformBits : UInt64) :
    Except String (Option ClientCapabilities) :=
  match server with
  | none => withoutExtension config "advertise capability negotiation"
  | some server =>
    if !server.contains ServerCapability.authExtV1 then
      withoutExtension config "support the authenticated capability extension"
    else if explicitMtuBlocksIpv6 config ∧ config.routing.ipv6 = .required then
      let mtu := config.mtu
      .error (s!"inner IPv6 is required but the explicit tunnel MTU {mtu} " ++
        "is below the IPv6 minimum 1280")
    else do
      let coreBits := usableCoreBits roamingBuild config server platformBits
      requireRoaming config server platformBits coreBits
      requireIpv6 config server platformBits coreBits
      return some ⟨coreBits, platformBits, config.routing.ipv6⟩

/-! ## The server -/

/-- The client has all that inner IPv6 takes. -/
def ipv6Capable (client : Option ClientCapabilities) : Bool :=
  let requiredCore := ClientCapability.innerIpv6 ||| ClientCapability.networkPlanV2 |||
    ClientCapability.udpDataFragV1
  let requiredPlatform := PlatformCapability.ipv6Tun ||| PlatformCapability.ipv6Routes |||
    PlatformCapability.ipv6Dns
  client.any fun capabilities =>
    Has capabilities.coreBits requiredCore ∧ Has capabilities.platformBits requiredPlatform

def negotiatedProfileIpMode (profileMode : IpMode) (client : Option ClientCapabilities) :
    Except String IpMode :=
  let policy := (client.map ClientCapabilities.ipv6Policy).getD .auto
  match profileMode, policy, ipv6Capable client with
  | .ipv4, .required, _ => .error "client requires inner IPv6 but this profile is IPv4-only"
  | .ipv4, _, _ => .ok .ipv4
  | .dual, .off, _ => .ok .ipv4
  | .dual, _, true => .ok .dual
  | .dual, .required, false =>
    .error "client requires inner IPv6 but its negotiated core/platform capabilities are incomplete"
  | .dual, _, false => .ok .ipv4
  | .ipv6, .off, _ => .error "client disabled inner IPv6 but this profile is IPv6-only"
  | .ipv6, _, true => .ok .ipv6
  | .ipv6, _, false =>
    .error "IPv6-only profile requires complete client core/platform IPv6 capabilities"

/-! ## What a success means -/

theorem requireBits_ok {bits required : UInt64} {reason : String}
    (h : requireBits bits required reason = .ok ()) : Has bits required := by
  unfold requireBits at h
  dsimp only at h
  split at h
  · cases h
  · next hmissing => exact has_of_missing (not_ne_iff.mp hmissing)

theorem roamingBits_tcp : roamingBits "tcp" =
    .ok (ServerCapability.controlV2 ||| ServerCapability.tcpResumeV2 |||
        ServerCapability.tcpHandoverV2,
      ClientCapability.controlV2 ||| ClientCapability.tcpResumeV2 |||
        ClientCapability.tcpHandoverV2) :=
  if_pos rfl

theorem roamingBits_udp : roamingBits "udp" =
    .ok (ServerCapability.controlV2 ||| ServerCapability.udpRoamV1 |||
        ServerCapability.udpDataFragV1,
      ClientCapability.controlV2 ||| ClientCapability.udpRoamV1 |||
        ClientCapability.udpDataFragV1) :=
  (if_neg (by decide)).trans (if_pos rfl)

variable {config : ClientConfig} {platformBits : UInt64} {client : Option ClientCapabilities}

theorem requireRoaming_ok {server : ServerCapabilities} {coreBits : UInt64}
    (h : requireRoaming config server platformBits coreBits = .ok ())
    (hrequired : config.roaming = .required) :
    Has platformBits PlatformCapability.roamingPath ∧
      ∃ required, roamingBits config.protocol = .ok required ∧
        Has server.bits required.1 ∧ Has coreBits required.2 := by
  unfold requireRoaming at h
  rw [if_neg (not_not_intro hrequired)] at h
  split at h
  · cases h
  · obtain ⟨_, hplatform, h⟩ := of_bind_ok h
    obtain ⟨required, hbits, h⟩ := of_bind_ok h
    obtain ⟨_, hserver, hcore⟩ := of_bind_ok h
    exact ⟨requireBits_ok hplatform, required, hbits, requireBits_ok hserver, requireBits_ok hcore⟩

theorem requireIpv6_ok {server : ServerCapabilities} {coreBits : UInt64}
    (h : requireIpv6 config server platformBits coreBits = .ok ())
    (hrequired : config.routing.ipv6 = .required) :
    Has platformBits (requiredPlatform config) ∧
      Has coreBits (ClientCapability.innerIpv6 ||| ClientCapability.networkPlanV2 |||
        ClientCapability.udpDataFragV1) := by
  unfold requireIpv6 at h
  rw [if_neg (not_not_intro hrequired)] at h
  obtain ⟨_, _, h⟩ := of_bind_ok h
  obtain ⟨_, hplatform, hcore⟩ := of_bind_ok h
  exact ⟨requireBits_ok hplatform, requireBits_ok hcore⟩

theorem withoutExtension_ok {reason : String} (h : withoutExtension config reason = .ok client) :
    config.roaming ≠ .required ∧ config.routing.ipv6 ≠ .required ∧ client = none := by
  unfold withoutExtension at h
  split at h
  · cases h
  · next hroaming =>
    split at h
    · cases h
    · next hipv6 =>
      cases h
      exact ⟨hroaming, hipv6, rfl⟩

/-- The two ways to succeed: nothing is sent and nothing is required, or the usable bits are
sent and they cover what is required. -/
theorem negotiate_ok {roamingBuild : Bool} {server : Option ServerCapabilities}
    (h : negotiateClientCapabilities roamingBuild config server platformBits = .ok client) :
    (config.roaming ≠ .required ∧ config.routing.ipv6 ≠ .required ∧ client = none) ∨
      ∃ announced, server = some announced ∧
        client = some ⟨usableCoreBits roamingBuild config announced platformBits, platformBits,
          config.routing.ipv6⟩ ∧
        requireRoaming config announced platformBits
          (usableCoreBits roamingBuild config announced platformBits) = .ok () ∧
        requireIpv6 config announced platformBits
          (usableCoreBits roamingBuild config announced platformBits) = .ok () := by
  unfold negotiateClientCapabilities at h
  cases server with
  | none => exact .inl (withoutExtension_ok h)
  | some announced =>
    dsimp only at h
    split at h
    · exact .inl (withoutExtension_ok h)
    · split at h
      · cases h
      · obtain ⟨_, hroaming, h⟩ := of_bind_ok h
        obtain ⟨_, hipv6, h⟩ := of_bind_ok h
        cases h
        exact .inr ⟨announced, rfl, rfl, hroaming, hipv6⟩

/-! ## Usable bits -/

variable {roamingBuild : Bool} {config : ClientConfig} {server : ServerCapabilities}
  {platformBits : UInt64}

theorem usable_lacks_innerIpv6
    (h : explicitMtuBlocksIpv6 config = true ∨ ¬ Has platformBits (requiredPlatform config)) :
    Lacks (usableCoreBits roamingBuild config server platformBits) ClientCapability.innerIpv6 := by
  unfold usableCoreBits
  dsimp only
  refine Lacks.ite_strip (Lacks.ite_strip ?_ _) _
  -- whichever protocol, only more bits go
  suffices hplain : Lacks _ _ from by
    split
    · exact Lacks.strip hplain _
    · split
      · exact Lacks.strip hplain _
      · exact Lacks.strip hplain _
  refine Lacks.ite_strip (Lacks.ite_strip ?_ _) _
  by_cases hplatform : Has platformBits (requiredPlatform config)
  · rw [if_neg (not_not_intro hplatform), if_pos (h.resolve_right (not_not_intro hplatform))]
    exact strip_lacks _ _
  · rw [if_pos hplatform]
    exact strip_lacks _ _

theorem usable_lacks_roaming (h : config.roaming = .off) :
    Lacks (usableCoreBits roamingBuild config server platformBits)
      ClientCapability.roamingReserved := by
  unfold usableCoreBits
  dsimp only
  rw [if_pos h]
  exact strip_lacks _ _

/-! ## Nothing required is silently dropped -/

def IpMode.includesIpv6 : IpMode → Bool
  | ipv4 => false
  | dual => true
  | ipv6 => true

/-- Inner IPv6 cannot be used. -/
def Ipv6Blocked (config : ClientConfig) (platformBits : UInt64) : Prop :=
  (1 ≤ config.mtu ∧ config.mtu ≤ 1279) ∨ ¬ Has platformBits PlatformCapability.ipv6Tun ∨
    ¬ Has platformBits PlatformCapability.ipv6Routes ∨
    ¬ Has platformBits PlatformCapability.ipv6Dns ∨
    (config.routing.killSwitch = true ∧ Route.isFullTunnel config.toClientConfig = true ∧
      ¬ Has platformBits PlatformCapability.ipv6KillSwitch)

structure NotDowngraded (roamingBuild : Bool) (config : ClientConfig)
    (server : Option ServerCapabilities) (platformBits : UInt64)
    (client : Option ClientCapabilities) : Prop where
  ipv6_required : config.routing.ipv6 = .required → client.isSome ∧
    ∀ profileMode, profileMode = .dual ∨ profileMode = .ipv6 →
      ∃ mode, negotiatedProfileIpMode profileMode client = .ok mode ∧ mode.includesIpv6 = true
  udp_roaming_required : config.roaming = .required → config.protocol = "udp" →
    roamingBuild = true → udpRoamingNegotiated roamingBuild server client = true
  tcp_roaming_required : config.roaming = .required → config.protocol = "tcp" →
    roamingBuild = true → tcpHandoverSupported roamingBuild client = true
  roaming_off : config.roaming = .off → ∀ capabilities, client = some capabilities →
    capabilities.coreBits &&& ClientCapability.roamingReserved = 0
  ipv6_blocked : Ipv6Blocked config platformBits → ∀ profileMode mode,
    negotiatedProfileIpMode profileMode client = .ok mode → mode.includesIpv6 = false

/-- The server gives IPv6 only to a client that has all of it. -/
theorem capable_of_mode {profileMode mode : IpMode}
    (h : negotiatedProfileIpMode profileMode client = .ok mode) (hmode : mode.includesIpv6 = true) :
    ipv6Capable client = true := by
  unfold negotiatedProfileIpMode at h
  dsimp only at h
  split at h
  · cases h
  · cases h
    cases hmode
  · cases h
    cases hmode
  · next hcapable _ => exact hcapable
  · cases h
  · cases h
    cases hmode
  · cases h
  · next hcapable _ => exact hcapable
  · cases h

theorem mode_of_capable {profileMode : IpMode} {capabilities : ClientCapabilities}
    (hcapable : ipv6Capable (some capabilities) = true)
    (hpolicy : capabilities.ipv6Policy = .required)
    (hprofile : profileMode = .dual ∨ profileMode = .ipv6) :
    negotiatedProfileIpMode profileMode (some capabilities) = .ok profileMode := by
  unfold negotiatedProfileIpMode
  rw [hcapable]
  rcases hprofile with rfl | rfl
  · simp [hpolicy]
  · simp [hpolicy]

theorem ipv6Capable_iff {capabilities : ClientCapabilities} :
    ipv6Capable (some capabilities) = true ↔
      Has capabilities.coreBits (ClientCapability.innerIpv6 ||| ClientCapability.networkPlanV2 |||
        ClientCapability.udpDataFragV1) ∧
      Has capabilities.platformBits (PlatformCapability.ipv6Tun ||| PlatformCapability.ipv6Routes |||
        PlatformCapability.ipv6Dns) := by
  simp [ipv6Capable]

theorem has_requiredPlatform :
    Has platformBits (requiredPlatform config) ↔
      (Has platformBits PlatformCapability.ipv6Tun ∧
        Has platformBits PlatformCapability.ipv6Routes ∧
        Has platformBits PlatformCapability.ipv6Dns) ∧
      (config.routing.killSwitch = true → Route.isFullTunnel config.toClientConfig = true →
        Has platformBits PlatformCapability.ipv6KillSwitch) := by
  unfold requiredPlatform
  dsimp only
  split
  · next hswitch =>
    rw [Bool.and_eq_true] at hswitch
    simp [has_or, hswitch, and_assoc]
  · next hswitch =>
    rw [Bool.and_eq_true, not_and] at hswitch
    have hnone : config.routing.killSwitch = true →
        Route.isFullTunnel config.toClientConfig = true →
        Has platformBits PlatformCapability.ipv6KillSwitch :=
      fun hkill hfull => absurd hfull (hswitch hkill)
    simp only [has_or, and_assoc]
    exact ⟨fun h => ⟨h.1, h.2.1, h.2.2, hnone⟩, fun h => ⟨h.1, h.2.1, h.2.2.1⟩⟩

theorem blocked_usable (h : Ipv6Blocked config platformBits) :
    Lacks (usableCoreBits roamingBuild config server platformBits) ClientCapability.innerIpv6 := by
  refine usable_lacks_innerIpv6 ?_
  rcases h with ⟨hlow, hhigh⟩ | htun | hroutes | hdns | ⟨hkill, hfull, hswitch⟩
  · exact .inl (decide_eq_true ⟨by omega, by omega⟩)
  · exact .inr fun hall => htun (has_requiredPlatform.mp hall).1.1
  · exact .inr fun hall => hroutes (has_requiredPlatform.mp hall).1.2.1
  · exact .inr fun hall => hdns (has_requiredPlatform.mp hall).1.2.2
  · exact .inr fun hall => hswitch ((has_requiredPlatform.mp hall).2 hkill hfull)

/-- **What a configuration requires is never silently dropped.** -/
theorem required_not_downgraded {announced : Option ServerCapabilities}
    {client : Option ClientCapabilities}
    (h : negotiateClientCapabilities roamingBuild config announced platformBits = .ok client) :
    NotDowngraded roamingBuild config announced platformBits client := by
  rcases negotiate_ok h with ⟨hroaming, hipv6, rfl⟩ | ⟨server, rfl, rfl, hroaming, hipv6⟩
  · -- nothing is sent: nothing was required, and the server falls back
    refine ⟨fun hrequired => absurd hrequired hipv6, fun hrequired => absurd hrequired hroaming,
      fun hrequired => absurd hrequired hroaming, ?_, ?_⟩
    · intro _ capabilities hsome
      cases hsome
    · intro _ profileMode mode hmode
      by_contra hincludes
      have hcapable := capable_of_mode hmode (Bool.eq_true_of_not_eq_false hincludes)
      cases hcapable
  · constructor
    case ipv6_required =>
      intro hrequired
      obtain ⟨hplatform, hcore⟩ := requireIpv6_ok hipv6 hrequired
      obtain ⟨htun, hroutes, hdns⟩ := (has_requiredPlatform.mp hplatform).1
      refine ⟨rfl, fun profileMode hprofile => ⟨profileMode, ?_, ?_⟩⟩
      · exact mode_of_capable (ipv6Capable_iff.mpr
          ⟨hcore, has_or.mpr ⟨has_or.mpr ⟨htun, hroutes⟩, hdns⟩⟩) hrequired hprofile
      · rcases hprofile with rfl | rfl <;> rfl
    case udp_roaming_required =>
      intro hrequired hudp hbuild
      subst hbuild
      obtain ⟨_, required, hbits, hserver, hcore⟩ := requireRoaming_ok hroaming hrequired
      rw [hudp, roamingBits_udp] at hbits
      obtain rfl := Except.ok.inj hbits
      simp only [udpRoamingNegotiated, Option.any_some, ServerCapabilities.contains,
        Bool.true_and, Bool.and_eq_true, decide_eq_true_eq]
      exact ⟨hserver, hcore⟩
    case tcp_roaming_required =>
      intro hrequired htcp hbuild
      subst hbuild
      obtain ⟨hpath, required, hbits, _, hcore⟩ := requireRoaming_ok hroaming hrequired
      rw [htcp, roamingBits_tcp] at hbits
      obtain rfl := Except.ok.inj hbits
      obtain ⟨hcontrol, hhandover⟩ := has_or.mp hcore
      have hresume := (has_or.mp hcontrol).2
      simp only [tcpHandoverSupported, Option.any_some, Bool.true_and, decide_eq_true_eq]
      exact ⟨has_or.mpr ⟨hresume, hhandover⟩, hpath⟩
    case roaming_off =>
      intro hoff capabilities hsome
      cases hsome
      exact usable_lacks_roaming hoff
    case ipv6_blocked =>
      intro hblocked profileMode mode hmode
      by_contra hincludes
      have hcapable := capable_of_mode hmode (Bool.eq_true_of_not_eq_false hincludes)
      obtain ⟨hcore, _⟩ := ipv6Capable_iff.mp hcapable
      exact (blocked_usable hblocked).not_has (by decide) (has_or.mp (has_or.mp hcore).1).1

/-- A client that requires both over UDP, full tunnel with the kill switch on. -/
def strictConfig : ClientConfig :=
  { deviceType := "tun"
    routing :=
      { ipv6 := .required
        mode := "full-tunnel"
        addDefaultGateway := false
        pullRoutes := true
        includes := []
        excludes := []
        routeLocalNetworks := false
        killSwitch := true
        allowIpv4Leak := false
        allowIpv6Leak := false }
    dns := ⟨"auto", [], []⟩
    roaming := .required
    protocol := "udp"
    localAddress := none
    localPort := 0
    mtu := 1280 }

theorem required_not_downgraded_strict :
    ∃ client, negotiateClientCapabilities true strictConfig (some ⟨0xfff⟩) 0xffff = .ok client ∧
      NotDowngraded true strictConfig (some ⟨0xfff⟩) 0xffff client := by
  have hok : negotiateClientCapabilities true strictConfig (some ⟨0xfff⟩) 0xffff =
      .ok (some ⟨0x43f, 0xffff, .required⟩) := by decide +kernel
  exact ⟨_, hok, required_not_downgraded hok⟩

end Qeli.Capability
