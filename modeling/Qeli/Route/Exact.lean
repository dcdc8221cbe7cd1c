import Qeli.Lib.Chunks
import Qeli.Lib.Encoding
import Qeli.Lib.Run
import Qeli.Route.Plan

/-!
# The plan routes what was asked for

Which addresses the routes of a plan cover: the planned resolvers, and whatever a pushed,
included or private route covers and no exclusion does. The text functions are only asked
to read back what they print.
-/

namespace Qeli.Route

open Qeli.Lib

/-- A printed network is read back. -/
structure NetText.Lawful (text : NetText) : Prop where
  parse_display : ∀ network : IpNet,
    text.parseNet (text.displayNet network.addr network.prefixLen) = some network

/-- The address is in the network that the text names. -/
def Covers (text : NetText) (cidr : String) (a : IpAddr) : Prop :=
  ∃ network, text.parseNet cidr = some network ∧ network.contains a = true

def CoveredBy (text : NetText) (routes : List NetworkRoute) (a : IpAddr) : Prop :=
  ∃ route ∈ routes, Covers text route.cidr a

def Plans (text : NetText) (routes : List NetworkRoute) (c : NumericCidr) : Prop :=
  ∃ route ∈ routes, NumericCidr.parse text route.cidr = .ok c

/-! ## Texts and networks -/

section Texts

variable {text : NetText} {cidr : String} {c : NumericCidr} {a : IpAddr}

theorem parse_eq_ok : NumericCidr.parse text cidr = .ok c ↔
    ∃ network, text.parseNet cidr = some network ∧ c = .ofNet network := by
  unfold NumericCidr.parse
  cases text.parseNet cidr with
  | none => simp
  | some network => simp [eq_comm]

theorem valid_of_parse (h : NumericCidr.parse text cidr = .ok c) : c.Valid := by
  obtain ⟨network, -, rfl⟩ := parse_eq_ok.mp h
  exact NumericCidr.valid_ofNet network

theorem covers_of_parse (h : NumericCidr.parse text cidr = .ok c) (a : IpAddr) :
    Covers text cidr a ↔ c.Contains a := by
  obtain ⟨network, hnetwork, rfl⟩ := parse_eq_ok.mp h
  simp [Covers, hnetwork, NumericCidr.contains_ofNet]

theorem covers_iff : Covers text cidr a ↔
    ∃ c, NumericCidr.parse text cidr = .ok c ∧ c.Contains a := by
  constructor
  · rintro ⟨network, hnetwork, ha⟩
    exact ⟨.ofNet network, parse_eq_ok.mpr ⟨network, hnetwork, rfl⟩,
      (NumericCidr.contains_ofNet network a).mpr ha⟩
  · rintro ⟨c, hc, ha⟩
    exact (covers_of_parse hc a).mpr ha

theorem coveredBy_iff {routes : List NetworkRoute} :
    CoveredBy text routes a ↔ ∃ c, Plans text routes c ∧ c.Contains a := by
  constructor
  · rintro ⟨route, hroute, hcovers⟩
    obtain ⟨c, hc, ha⟩ := covers_iff.mp hcovers
    exact ⟨c, ⟨route, hroute, hc⟩, ha⟩
  · rintro ⟨c, ⟨route, hroute, hc⟩, ha⟩
    exact ⟨route, hroute, covers_iff.mpr ⟨c, hc, ha⟩⟩

theorem render_eq (c : NumericCidr) (text : NetText) :
    c.render text = text.displayNet (NumericCidr.address c.bits c.start) c.prefixLen := by
  unfold NumericCidr.render NumericCidr.address
  split
  · rfl
  · rfl

theorem parse_render (htext : text.Lawful) (hc : c.Valid) :
    NumericCidr.parse text (c.render text) = .ok c := by
  have hbits := NumericCidr.bits_address hc.family c.start
  have hle : c.prefixLen ≤ (NumericCidr.address c.bits c.start).bits := by
    rw [hbits]
    exact hc.prefixLe
  have hread := htext.parse_display ⟨NumericCidr.address c.bits c.start, c.prefixLen, hle⟩
  have hstart : c.start / 2 ^ (c.bits - c.prefixLen) * 2 ^ (c.bits - c.prefixLen) = c.start :=
    Nat.div_mul_cancel hc.aligned
  refine parse_eq_ok.mpr ⟨_, render_eq c text ▸ hread, ?_⟩
  rw [NumericCidr.ofNet, IpNet.network]
  dsimp only
  rw [hbits, NumericCidr.toNat_address hc.family hc.lt, Nat.shiftRight_eq_div_pow,
    Nat.shiftLeft_eq, hstart]

theorem covers_render (htext : text.Lawful) (hc : c.Valid) (a : IpAddr) :
    Covers text (c.render text) a ↔ c.Contains a :=
  covers_of_parse (parse_render htext hc) a

/-! ## Host routes -/

def hostCidr (a : IpAddr) : NumericCidr := ⟨a.toNat, a.bits, a.bits⟩

theorem contains_hostCidr (a b : IpAddr) : (hostCidr a).Contains b ↔ a = b := by
  simp only [NumericCidr.Contains, hostCidr, InBlock, Nat.sub_self, Nat.pow_zero, Nat.div_one]
  constructor
  · rintro ⟨hbits, hvalue⟩
    cases a with
    | v4 x =>
      cases b with
      | v4 y => exact congrArg _ (BitVec.eq_of_toNat_eq hvalue.symm)
      | v6 y => cases hbits
    | v6 x =>
      cases b with
      | v4 y => cases hbits
      | v6 y => exact congrArg _ (BitVec.eq_of_toNat_eq hvalue.symm)
  · rintro rfl
    exact ⟨rfl, rfl⟩

theorem parse_host (htext : text.Lawful) (a : IpAddr) :
    NumericCidr.parse text (text.displayNet a (if a.isIpv4 then 32 else 128)) =
      .ok (hostCidr a) := by
  have hlen : (if a.isIpv4 then 32 else 128) = a.bits := by
    cases a with
    | v4 x | v6 x => rfl
  have hread := htext.parse_display ⟨a, a.bits, Nat.le_refl _⟩
  rw [hlen]
  refine parse_eq_ok.mpr ⟨_, hread, ?_⟩
  simp [hostCidr, NumericCidr.ofNet, IpNet.network]

end Texts

/-! ## Exclusions -/

section Exclusions

variable {text : NetText} {excludes protectedRoutes : List NumericCidr}

theorem coveredBy_append {xs ys : List NetworkRoute} {a : IpAddr} :
    CoveredBy text (xs ++ ys) a ↔ CoveredBy text xs a ∨ CoveredBy text ys a := by
  simp only [CoveredBy, List.mem_append, or_and_right, exists_or]

theorem coveredBy_excludeFromRoute (htext : text.Lawful) (hexcludes : ∀ e ∈ excludes, e.Valid)
    {planned planned' : List NetworkRoute} {route : NetworkRoute}
    (h : excludeFromRoute text excludes protectedRoutes planned route = .ok planned')
    (a : IpAddr) :
    CoveredBy text planned' a ↔ CoveredBy text planned a ∨
      ∃ c, NumericCidr.parse text route.cidr = .ok c ∧ c.Contains a ∧
        (c ∈ protectedRoutes ∨ ∀ e ∈ excludes, ¬e.Contains a) := by
  obtain ⟨original, horiginal, h⟩ := of_bind_ok h
  obtain ⟨fragments, hfragments, h⟩ := of_bind_ok h
  have hvalid := valid_of_parse horiginal
  -- what the fragments cover
  have hleft : (∀ f ∈ fragments, f.Valid) ∧ ((∃ f ∈ fragments, f.Contains a) ↔
      original.Contains a ∧ (original ∈ protectedRoutes ∨ ∀ e ∈ excludes, ¬e.Contains a)) := by
    split at hfragments
    · next hprotected =>
      cases hfragments
      simp [hvalid, hprotected]
    · next hprotected =>
      unfold cidrMinusExcludes at hfragments
      rw [horiginal] at hfragments
      have hleft := subtractCidrs_ok hvalid hexcludes hfragments
      refine ⟨hleft.valid hvalid, ?_⟩
      rw [hleft.contains_iff hvalid hexcludes, or_iff_right hprotected]
  have hplanned : planned' = planned ++ fragments.map fun f =>
      ⟨f.render text, route.gateway, route.metric⟩ := by
    have hsame : (if fragments = [original] then
        planned ++ [{ route with cidr := original.render text }]
        else planned ++ fragments.map fun f => ⟨f.render text, route.gateway, route.metric⟩) =
        planned ++ fragments.map fun f => ⟨f.render text, route.gateway, route.metric⟩ := by
      split
      · next hone => rw [hone]; rfl
      · rfl
    rw [hsame] at h
    dsimp only at h
    split at h
    · cases h
    · exact (Except.ok.inj h).symm
  have hmap : CoveredBy text (fragments.map fun f =>
      ⟨f.render text, route.gateway, route.metric⟩) a ↔ ∃ f ∈ fragments, f.Contains a := by
    constructor
    · rintro ⟨r, hr, hcovers⟩
      obtain ⟨f, hf, rfl⟩ := List.mem_map.mp hr
      exact ⟨f, hf, (covers_render htext (hleft.1 f hf) a).mp hcovers⟩
    · rintro ⟨f, hf, ha⟩
      exact ⟨_, List.mem_map_of_mem hf, (covers_render htext (hleft.1 f hf) a).mpr ha⟩
  rw [hplanned, coveredBy_append, hmap, hleft.2, horiginal]
  simp

theorem coveredBy_applyRouteExclusions (htext : text.Lawful) {routes planned : List NetworkRoute}
    {excludeCidrs : List String}
    (h : applyRouteExclusions text routes excludeCidrs protectedRoutes = .ok planned)
    (a : IpAddr) :
    CoveredBy text planned a ↔ ∃ c, Plans text routes c ∧ c.Contains a ∧
      (c ∈ protectedRoutes ∨ ¬∃ cidr ∈ excludeCidrs, Covers text cidr a) := by
  obtain ⟨parsed, hparsed, h⟩ := of_bind_ok h
  have hmem := mem_of_mapM_ok hparsed
  have hvalid : ∀ e ∈ parsed, e.Valid := fun e he => by
    obtain ⟨cidr, -, hcidr⟩ := (hmem e).mp he
    exact valid_of_parse hcidr
  have hexcluded : (∀ e ∈ parsed, ¬e.Contains a) ↔ ¬∃ cidr ∈ excludeCidrs, Covers text cidr a := by
    simp only [not_exists, not_and, covers_iff, hmem]
    exact ⟨fun hall cidr hcidr c hc => hall c ⟨cidr, hcidr, hc⟩,
      fun hall e he => he.elim fun cidr hcidr => hall cidr hcidr.1 e hcidr.2⟩
  rw [foldlM_ok_collects (fun planned a => CoveredBy text planned a)
    (fun route a => ∃ c, NumericCidr.parse text route.cidr = .ok c ∧ c.Contains a ∧
      (c ∈ protectedRoutes ∨ ∀ e ∈ parsed, ¬e.Contains a))
    (fun hround x => coveredBy_excludeFromRoute htext hvalid hround x) h a, hexcluded]
  constructor
  · rintro (hnone | ⟨route, hroute, c, hc, hrest⟩)
    · obtain ⟨r, hr, -⟩ := hnone
      cases hr
    · exact ⟨c, ⟨route, hroute, hc⟩, hrest⟩
  · rintro ⟨c, ⟨route, hroute, hc⟩, hrest⟩
    exact .inr ⟨route, hroute, c, hc, hrest⟩

end Exclusions

/-! ## Collected routes -/

section Collected

variable {text : NetText} {addresses : List NetworkAddress} {c : NumericCidr}

theorem plans_append {xs ys : List NetworkRoute} :
    Plans text (xs ++ ys) c ↔ Plans text xs c ∨ Plans text ys c := by
  simp only [Plans, List.mem_append, or_and_right, exists_or]

theorem parse_includeRoute (htext : text.Lawful) {cidr : String} {route : NetworkRoute}
    (h : includeRoute text addresses cidr = .ok route) :
    ∃ c, NumericCidr.parse text cidr = .ok c ∧ NumericCidr.parse text route.cidr = .ok c := by
  obtain ⟨active, -, h⟩ := of_bind_ok h
  dsimp only at h
  split at h
  · obtain ⟨parsed, -, h⟩ := of_bind_ok h
    cases h
  · obtain ⟨parsed, hparsed, h⟩ := of_bind_ok h
    obtain ⟨gateway, -, h⟩ := of_bind_ok h
    cases h
    exact ⟨parsed, hparsed, parse_render htext (valid_of_parse hparsed)⟩

theorem plans_includes (htext : text.Lawful) {includes : List String}
    {routes : List NetworkRoute} (h : includes.mapM (includeRoute text addresses) = .ok routes) :
    Plans text routes c ↔ ∃ cidr ∈ includes, NumericCidr.parse text cidr = .ok c := by
  have hmem := mem_of_mapM_ok h
  constructor
  · rintro ⟨route, hroute, hc⟩
    obtain ⟨cidr, hcidr, hone⟩ := (hmem route).mp hroute
    obtain ⟨d, hd, hd'⟩ := parse_includeRoute htext hone
    rw [hd'] at hc
    exact ⟨cidr, hcidr, hd.trans hc⟩
  · rintro ⟨cidr, hcidr, hc⟩
    -- the pass did not fail, so this include gave a route
    obtain ⟨route, hroute⟩ := of_mapM_ok h cidr hcidr
    obtain ⟨d, hd, hd'⟩ := parse_includeRoute htext hroute
    rw [hd] at hc
    exact ⟨route, (hmem route).mpr ⟨cidr, hcidr, hroute⟩, hd'.trans hc⟩

theorem plans_localRoutes {config : ClientRoutingConfig} {routes : List NetworkRoute}
    (h : localRoutes text config addresses = .ok routes) :
    Plans text routes c ↔ config.routeLocalNetworks = true ∧
      (∃ assigned ∈ addresses, assigned.family = .ipv4) ∧
      ∃ cidr ∈ localNetworks, NumericCidr.parse text cidr = .ok c := by
  unfold localRoutes at h
  split at h
  · next henabled =>
    obtain ⟨gateway, -, h⟩ := of_bind_ok h
    cases h
    simp only [Bool.and_eq_true, List.any_eq_true, beq_iff_eq] at henabled
    simp [Plans, henabled]
  · next hdisabled =>
    cases h
    simp only [Bool.and_eq_true, List.any_eq_true, beq_iff_eq, not_and] at hdisabled
    constructor
    · rintro ⟨route, hroute, -⟩
      cases hroute
    · rintro ⟨henabled, hfamily, -⟩
      exact absurd hfamily (hdisabled henabled)

def HostOf (text : NetText) (dns : NetworkDns) (c : NumericCidr) : Prop :=
  ∃ a, text.parseIp dns.address = some a ∧ c = hostCidr a

theorem addDnsRoute_spec (htext : text.Lawful) {state state' : DnsRoutes} {dns : NetworkDns}
    (h : addDnsRoute text addresses state dns = .ok state') (c : NumericCidr) :
    (Plans text state'.routes c ↔ Plans text state.routes c ∨ HostOf text dns c) ∧
      (c ∈ state'.protectedRoutes ↔ c ∈ state.protectedRoutes ∨ HostOf text dns c) := by
  unfold addDnsRoute at h
  cases haddress : text.parseIp dns.address with
  | none =>
    rw [haddress] at h
    cases h
    simp [HostOf, haddress]
  | some a =>
    rw [haddress] at h
    obtain ⟨host, hhost, h⟩ := of_bind_ok h
    obtain rfl := Except.ok.inj ((parse_host htext a).symm.trans hhost)
    have hof : HostOf text dns c ↔ c = hostCidr a := by simp [HostOf, haddress]
    dsimp only at h
    generalize text.displayNet a (if a.isIpv4 then 32 else 128) = cidr at h hhost
    rw [hof]
    split at h
    · next hthere =>
      cases h
      obtain ⟨route, hroute, hcidr⟩ := List.any_eq_true.mp hthere
      refine ⟨⟨.inl, fun hc => hc.elim id ?_⟩, by simp [or_comm]⟩
      -- the text is there already, and it names the same network
      rintro rfl
      exact ⟨route, hroute, (eq_of_beq hcidr) ▸ hhost⟩
    · obtain ⟨gateway, -, h⟩ := of_bind_ok h
      cases h
      refine ⟨?_, by simp [or_comm]⟩
      rw [plans_append]
      refine or_congr_right ⟨?_, ?_⟩
      · rintro ⟨route, hroute, hc⟩
        rw [List.mem_singleton.mp hroute, hhost] at hc
        exact (Except.ok.inj hc).symm
      · rintro rfl
        exact ⟨_, List.mem_singleton_self _, hhost⟩

theorem collectRoutes_spec (htext : text.Lawful) {config : ClientRoutingConfig}
    {pushed : List NetworkRoute} {dnsServers : List NetworkDns} {collected : DnsRoutes}
    (h : collectRoutes text config addresses pushed dnsServers = .ok collected)
    (c : NumericCidr) :
    (Plans text collected.routes c ↔
      (Plans text pushed c ∨ (∃ cidr ∈ config.includes, NumericCidr.parse text cidr = .ok c) ∨
        (config.routeLocalNetworks = true ∧ (∃ assigned ∈ addresses, assigned.family = .ipv4) ∧
          ∃ cidr ∈ localNetworks, NumericCidr.parse text cidr = .ok c)) ∨
      ∃ dns ∈ dnsServers, HostOf text dns c) ∧
    (c ∈ collected.protectedRoutes ↔ ∃ dns ∈ dnsServers, HostOf text dns c) := by
  obtain ⟨included, hincluded, h⟩ := of_bind_ok h
  obtain ⟨localNets, hlocal, h⟩ := of_bind_ok h
  have hroutes := foldlM_ok_collects (fun state c => Plans text state.routes c)
    (fun dns c => HostOf text dns c)
    (fun hround x => (addDnsRoute_spec htext hround x).1) h c
  have hprotected := foldlM_ok_collects (fun (state : DnsRoutes) c => c ∈ state.protectedRoutes)
    (fun dns c => HostOf text dns c)
    (fun hround x => (addDnsRoute_spec htext hround x).2) h c
  refine ⟨?_, by simpa using hprotected⟩
  rw [hroutes, plans_append, plans_append, plans_includes htext hincluded,
    plans_localRoutes hlocal, or_assoc (a := Plans text pushed c)]

end Collected

/-! ## The plan -/

section Document

variable {text : NetText} {addresses : List NetworkAddress} {route : PushedRoute}

/-- The routes of the server's document: none in an empty one. -/
def documentRoutes (text : NetText) (routesJson : String) : Except String (List PushedRoute) :=
  let trimmed := text.trim routesJson
  if trimmed = "" ∨ trimmed = "[]" then .ok [] else text.parseRoutes trimmed

theorem covers_of_accepted (htext : text.Lawful) {planned : NetworkRoute}
    (h : acceptPushedRoute text addresses route = .ok (some planned)) (a : IpAddr) :
    Covers text planned.cidr a ↔ Covers text route.cidr a := by
  unfold acceptPushedRoute at h
  split at h
  · cases h
  split at h
  · cases h
  obtain ⟨gateway, -, h⟩ := of_bind_ok h
  split at h
  · cases h
  split at h
  · cases h
  dsimp only at h
  split at h
  · cases h
  split at h
  · cases h
  obtain ⟨cidr, hcidr, h⟩ := of_bind_ok h
  cases h
  rw [covers_render htext (valid_of_parse hcidr), covers_of_parse hcidr]

theorem mem_pushed {routesJson : String} {pushed : List NetworkRoute}
    (h : plannedPushedRoutesForAddresses text routesJson addresses = .ok pushed) :
    ∃ routes, documentRoutes text routesJson = .ok routes ∧
      ∀ planned, planned ∈ pushed ↔
        ∃ route ∈ routes, acceptPushedRoute text addresses route = .ok (some planned) := by
  unfold plannedPushedRoutesForAddresses at h
  dsimp only at h
  split at h
  · next hempty =>
    cases h
    exact ⟨[], if_pos hempty, fun planned => by simp⟩
  · next hempty =>
    split at h
    · cases h
    · next routes hroutes =>
      obtain ⟨accepted, haccepted, h⟩ := of_bind_ok h
      split at h
      · cases h
      split at h
      · cases h
      cases h
      refine ⟨routes, (if_neg hempty).trans hroutes, fun planned => ?_⟩
      rw [← mem_of_mapM_ok haccepted]
      simp

theorem coveredBy_pushed (htext : text.Lawful) {routesJson : String} {pushed : List NetworkRoute}
    (h : plannedPushedRoutesForAddresses text routesJson addresses = .ok pushed) :
    ∃ routes, documentRoutes text routesJson = .ok routes ∧ ∀ a, CoveredBy text pushed a ↔
      ∃ route ∈ routes, (∃ planned, acceptPushedRoute text addresses route = .ok (some planned)) ∧
        Covers text route.cidr a := by
  obtain ⟨routes, hroutes, hmem⟩ := mem_pushed h
  refine ⟨routes, hroutes, fun a => ?_⟩
  constructor
  · rintro ⟨planned, hplanned, ha⟩
    obtain ⟨route, hroute, haccepted⟩ := (hmem planned).mp hplanned
    exact ⟨route, hroute, ⟨planned, haccepted⟩, (covers_of_accepted htext haccepted a).mp ha⟩
  · rintro ⟨route, hroute, ⟨planned, haccepted⟩, ha⟩
    exact ⟨planned, (hmem planned).mpr ⟨route, hroute, haccepted⟩,
      (covers_of_accepted htext haccepted a).mpr ha⟩

end Document

section Plan

variable {text : NetText} {config : ClientConfig} {generation : Nat} {network : HandshakeNetwork}
  {plan : NetworkPlan}

theorem buildNetworkPlan_ok (h : buildNetworkPlan text config generation network = .ok plan) :
    ∃ pushed collected,
      plannedPushedRoutesForAddresses text network.routesJson network.addresses = .ok pushed ∧
      collectRoutes text config.routing network.addresses
        (if config.routing.pullRoutes then pushed else []) plan.dnsServers = .ok collected ∧
      applyRouteExclusions text collected.routes config.routing.excludes
        collected.protectedRoutes = .ok plan.routes := by
  unfold buildNetworkPlan at h
  dsimp only at h
  split at h
  · cases h
  obtain ⟨-, -, h⟩ := of_bind_ok h
  obtain ⟨-, -, h⟩ := of_bind_ok h
  obtain ⟨dnsServers, -, h⟩ := of_bind_ok h
  split at h
  · cases h
  obtain ⟨-, -, h⟩ := of_bind_ok h
  obtain ⟨pushed, hpushed, h⟩ := of_bind_ok h
  obtain ⟨collected, hcollected, h⟩ := of_bind_ok h
  obtain ⟨routes, hroutes, h⟩ := of_bind_ok h
  cases h
  exact ⟨pushed, collected, hpushed, hcollected, hroutes⟩

/-- **The plan is exact.** An address is routed into the tunnel exactly when it is a planned
resolver, or an accepted route of the server's document, an included or a private route covers
it and no exclusion does. -/
theorem route_plan_exact (htext : text.Lawful)
    (h : buildNetworkPlan text config generation network = .ok plan) :
    ∃ routes, documentRoutes text network.routesJson = .ok routes ∧
      ∀ a : IpAddr, (∃ route ∈ plan.routes, Covers text route.cidr a) ↔
        (∃ dns ∈ plan.dnsServers, text.parseIp dns.address = some a) ∨
        (((config.routing.pullRoutes = true ∧ ∃ route ∈ routes,
            (∃ planned, acceptPushedRoute text network.addresses route = .ok (some planned)) ∧
              Covers text route.cidr a) ∨
          (∃ cidr ∈ config.routing.includes, Covers text cidr a) ∨
          (config.routing.routeLocalNetworks = true ∧
            (∃ assigned ∈ network.addresses, assigned.family = .ipv4) ∧
            ∃ cidr ∈ localNetworks, Covers text cidr a)) ∧
          ¬∃ cidr ∈ config.routing.excludes, Covers text cidr a) := by
  obtain ⟨pushed, collected, hpushed, hcollected, hroutes⟩ := buildNetworkPlan_ok h
  obtain ⟨routes, hdocument, hpush⟩ := coveredBy_pushed htext hpushed
  refine ⟨routes, hdocument, fun a => ?_⟩
  have hspec := collectRoutes_spec htext hcollected
  have hdns : (∃ c, (∃ dns ∈ plan.dnsServers, HostOf text dns c) ∧ c.Contains a) ↔
      ∃ dns ∈ plan.dnsServers, text.parseIp dns.address = some a := by
    constructor
    · rintro ⟨c, ⟨dns, hdns, b, hb, rfl⟩, ha⟩
      rw [(contains_hostCidr b a).mp ha] at hb
      exact ⟨dns, hdns, hb⟩
    · rintro ⟨dns, hdns, ha⟩
      exact ⟨hostCidr a, ⟨dns, hdns, a, ha, rfl⟩, (contains_hostCidr a a).mpr rfl⟩
  have hpull : CoveredBy text (if config.routing.pullRoutes then pushed else []) a ↔
      config.routing.pullRoutes = true ∧ ∃ route ∈ routes,
        (∃ planned, acceptPushedRoute text network.addresses route = .ok (some planned)) ∧
          Covers text route.cidr a := by
    split
    · next hon => simp [hon, hpush]
    · next hoff => simp [hoff, CoveredBy]
  have hcidrs : ∀ cidrs : List String, (∃ c, (∃ cidr ∈ cidrs,
      NumericCidr.parse text cidr = .ok c) ∧ c.Contains a) ↔ ∃ cidr ∈ cidrs, Covers text cidr a :=
    fun cidrs => by
      simp only [covers_iff]
      constructor
      · rintro ⟨c, ⟨cidr, hcidr, hc⟩, ha⟩
        exact ⟨cidr, hcidr, c, hc, ha⟩
      · rintro ⟨cidr, hcidr, c, hc, ha⟩
        exact ⟨c, ⟨cidr, hcidr, hc⟩, ha⟩
  have hcovered := coveredBy_applyRouteExclusions htext hroutes a
  change CoveredBy text plan.routes a ↔ _
  rw [hcovered, ← hdns]
  constructor
  · rintro ⟨c, hplans, ha, hprotected | hnot⟩
    · exact .inl ⟨c, (hspec c).2.mp hprotected, ha⟩
    · rcases (hspec c).1.mp hplans with (hpush | hinclude | ⟨hon, hfamily, hlocal⟩) | hhost
      · exact .inr ⟨.inl (hpull.mp (coveredBy_iff.mpr ⟨c, hpush, ha⟩)), hnot⟩
      · exact .inr ⟨.inr (.inl ((hcidrs _).mp ⟨c, hinclude, ha⟩)), hnot⟩
      · exact .inr ⟨.inr (.inr ⟨hon, hfamily, (hcidrs _).mp ⟨c, hlocal, ha⟩⟩), hnot⟩
      · exact .inl ⟨c, hhost, ha⟩
  · rintro (⟨c, hhost, ha⟩ | ⟨hpush | hinclude | ⟨hon, hfamily, hlocal⟩, hnot⟩)
    · exact ⟨c, (hspec c).1.mpr (.inr hhost), ha, .inl ((hspec c).2.mpr hhost)⟩
    · obtain ⟨c, hc, ha⟩ := coveredBy_iff.mp (hpull.mpr hpush)
      exact ⟨c, (hspec c).1.mpr (.inl (.inl hc)), ha, .inr hnot⟩
    · obtain ⟨c, hc, ha⟩ := (hcidrs _).mpr hinclude
      exact ⟨c, (hspec c).1.mpr (.inl (.inr (.inl hc))), ha, .inr hnot⟩
    · obtain ⟨c, hc, ha⟩ := (hcidrs _).mpr hlocal
      exact ⟨c, (hspec c).1.mpr (.inl (.inr (.inr ⟨hon, hfamily, hc⟩))), ha, .inr hnot⟩

/-! ## A lawful text -/

/-- Bytes in groups of four digits. -/
def groupText : List UInt8 → Str
  | a :: b :: c :: rest => Str.hexText [a, b] ++ ':' :: groupText (c :: rest)
  | last => Str.hexText last

/-- Dotted decimal, or eight full groups. -/
def ipText : IpAddr → Str
  | .v4 value => ['.'].intercalate ((beBytes 4 value.toNat).map fun b => Str.natText b.toNat)
  | .v6 value => groupText (beBytes 16 value.toNat)

/-- The address that a text can only stand for. -/
def spelled (s : Str) : IpAddr :=
  if '.' ∈ s then .v4 (.ofNat 32 (ofBE ((s.splitOn '.').map fun digits =>
    UInt8.ofNat ((Str.parseDigits digits).getD 0))))
  else .v6 (.ofNat 128 (ofBE (Str.ofHex (s.filter (· ≠ ':')))))

def readIp (s : Str) : Option IpAddr := if ipText (spelled s) = s then some (spelled s) else none

def readNet (s : Str) : Option IpNet :=
  (Str.splitOnce '/' s).bind fun parts =>
    (readIp parts.1).bind fun a =>
      (Str.parseUnsigned 255 parts.2).bind fun len =>
        if h : len ≤ a.bits then some ⟨a, len, h⟩ else none

def onePushed : String := "[\x7b\"cidr\":\"10.64.0.0/16\"\x7d]"

def plainText : NetText where
  trim s := .ofList (Str.trim s.toList)
  parseIp s := readIp s.toList
  parseNet s := readNet s.toList
  parseU8 s := Str.parseUnsigned 255 s.toList
  parseU16 s := Str.parseUnsigned 65535 s.toList
  displayNet a len := .ofList (ipText a ++ '/' :: Str.natText len)
  parseRoutes s :=
    if s = onePushed then .ok [⟨"10.64.0.0/16", none, none⟩] else .error "expected value"

theorem filter_groupText (bytes : List UInt8) :
    (groupText bytes).filter (· ≠ ':') = Str.hexText bytes := by
  have hhex : ∀ bytes, (Str.hexText bytes).filter (· ≠ ':') = Str.hexText bytes := fun bytes =>
    List.filter_eq_self.mpr fun c hc => decide_eq_true fun hcolon =>
      Str.notMem_hexText (by decide) bytes (hcolon ▸ hc)
  fun_induction groupText bytes with
  | case1 a b c rest ih =>
    rw [List.filter_append, hhex, List.filter_cons_of_neg (by decide), ih]
    rfl
  | case2 last _ => exact hhex last

theorem notMem_groupText {c : Char} (hc : c ∉ "0123456789abcdef".toList) (hcolon : c ≠ ':')
    (bytes : List UInt8) : c ∉ groupText bytes := by
  fun_induction groupText bytes with
  | case1 a b d rest ih =>
    rw [List.mem_append, List.mem_cons, not_or, not_or]
    exact ⟨Str.notMem_hexText hc _, hcolon, ih⟩
  | case2 last _ => exact Str.notMem_hexText hc last

theorem splitOn_ipText (value : BitVec 32) : (ipText (.v4 value)).splitOn '.' =
    (beBytes 4 value.toNat).map fun b => Str.natText b.toNat := by
  refine List.splitOn_intercalate '.' (fun l hl => ?_) (by simp [beBytes])
  obtain ⟨b, -, rfl⟩ := List.mem_map.mp hl
  exact Str.notMem_natText (by decide) _

theorem spelled_ipText (a : IpAddr) : spelled (ipText a) = a := by
  cases a with
  | v4 value =>
    have hdot : '.' ∈ ipText (.v4 value) := by simp [ipText, beBytes, List.intercalate]
    have hoctet : ∀ b : UInt8,
        UInt8.ofNat ((Str.parseDigits (Str.natText b.toNat)).getD 0) = b := fun b => by
      rw [Str.parseDigits_natText, Option.getD_some, UInt8.ofNat_toNat]
    have hvalue : ofBE (beBytes 4 value.toNat) = value.toNat := ofBE_beBytes value.isLt
    rw [spelled, if_pos hdot, splitOn_ipText, List.map_map]
    simp only [Function.comp_def, hoctet, List.map_id', hvalue, BitVec.ofNat_toNat,
      BitVec.setWidth_eq]
  | v6 value =>
    have hdot : '.' ∉ ipText (.v6 value) := notMem_groupText (by decide) (by decide) _
    have hvalue : ofBE (beBytes 16 value.toNat) = value.toNat := ofBE_beBytes value.isLt
    rw [spelled, if_neg hdot, ipText, filter_groupText, Str.ofHex_hexText, hvalue,
      BitVec.ofNat_toNat, BitVec.setWidth_eq]

theorem slash_notMem_ipText (a : IpAddr) : '/' ∉ ipText a := by
  cases a with
  | v4 value => simp [ipText, beBytes, List.intercalate, Str.notMem_natText]
  | v6 value => exact notMem_groupText (by decide) (by decide) _

theorem plainText_lawful : plainText.Lawful where
  parse_display network := by
    obtain ⟨a, len, hle⟩ := network
    have hip : readIp (ipText a) = some a := by
      rw [readIp, spelled_ipText, if_pos rfl]
    have hlen : Str.parseUnsigned 255 (Str.natText len) = some len :=
      Str.parseUnsigned_natText (hle.trans (by cases a <;> simp [IpAddr.bits]))
    change readNet (String.ofList _).toList = _
    rw [String.toList_ofList, readNet, Str.splitOnce_append (slash_notMem_ipText a)]
    simp only [Option.bind_some, hip, hlen, dif_pos hle]

/-- Network 10.8.0.0/16 is included and 10.64.0.0/16 pushed; 10.64.7.0/24 is excluded, but
10.64.7.1 is the resolver. -/
def splitConfig : ClientConfig where
  deviceType := "tun"
  routing :=
    { ipv6 := .auto
      mode := "split"
      addDefaultGateway := false
      pullRoutes := true
      includes := ["10.8.0.0/16"]
      excludes := ["10.64.7.0/24"]
      routeLocalNetworks := false
      killSwitch := false
      allowIpv4Leak := false
      allowIpv6Leak := false }
  dns := { mode := "tunnel", servers := ["10.64.7.1"], fallbackServers := [] }

def splitNetwork : HandshakeNetwork where
  familyMode := .ipv4
  addresses := [⟨.ipv4, "10.0.0.2", 32, 24, some "10.0.0.1"⟩]
  clientIp := "10.0.0.2"
  prefixLen := 24
  tunnelGateway := "10.0.0.1"
  dnsIp := ""
  dnsPort := ""
  dnsServers := []
  routesJson := onePushed
  mtu := 1400
  fallbackDnsServers := []

theorem covers_plainText {cidr : String} {network : IpNet}
    (h : readNet cidr.toList = some network) (a : IpAddr) :
    Covers plainText cidr a ↔ network.contains a = true := by
  change (∃ network, readNet cidr.toList = some network ∧ _) ↔ _
  simp [h]

theorem route_plan_exact_split : ∃ plan,
    buildNetworkPlan plainText splitConfig 7 splitNetwork = .ok plan ∧
      (∃ route ∈ plan.routes, Covers plainText route.cidr (.v4 0x0a08002a)) ∧
      (∃ route ∈ plan.routes, Covers plainText route.cidr (.v4 0x0a40002a)) ∧
      (¬∃ route ∈ plan.routes, Covers plainText route.cidr (.v4 0x0a40072a)) ∧
      ∃ route ∈ plan.routes, Covers plainText route.cidr (.v4 0x0a400701) := by
  have hresolver : (buildNetworkPlan plainText splitConfig 7 splitNetwork).map (·.dnsServers) =
      .ok [⟨"10.64.7.1", 53⟩] := by decide +kernel
  cases hplan : buildNetworkPlan plainText splitConfig 7 splitNetwork with
  | error e =>
    rw [hplan] at hresolver
    cases hresolver
  | ok plan =>
    rw [hplan] at hresolver
    have hdns : plan.dnsServers = [⟨"10.64.7.1", 53⟩] := Except.ok.inj hresolver
    obtain ⟨routes, hroutes, hexact⟩ := route_plan_exact plainText_lawful hplan
    have hdocument : documentRoutes plainText splitNetwork.routesJson =
        .ok [⟨"10.64.0.0/16", none, none⟩] := by decide +kernel
    obtain rfl := Except.ok.inj (hroutes.symm.trans hdocument)
    have haccepted : acceptPushedRoute plainText splitNetwork.addresses
        ⟨"10.64.0.0/16", none, none⟩ = .ok (some ⟨"10.64.0.0/16", "10.0.0.1", 100⟩) := by
      decide +kernel
    have hincluded : ∀ a, Covers plainText "10.8.0.0/16" a ↔
        IpNet.contains ⟨.v4 0x0a080000, 16, by decide⟩ a = true :=
      covers_plainText (by decide +kernel)
    have hpushed : ∀ a, Covers plainText "10.64.0.0/16" a ↔
        IpNet.contains ⟨.v4 0x0a400000, 16, by decide⟩ a = true :=
      covers_plainText (by decide +kernel)
    have hexcluded : ∀ a, Covers plainText "10.64.7.0/24" a ↔
        IpNet.contains ⟨.v4 0x0a400700, 24, by decide⟩ a = true :=
      covers_plainText (by decide +kernel)
    have hkept : ∀ a, IpNet.contains ⟨.v4 0x0a400700, 24, by decide⟩ a = false →
        ¬∃ cidr ∈ splitConfig.routing.excludes, Covers plainText cidr a := by
      rintro a hout ⟨cidr, hcidr, hcovers⟩
      rw [List.mem_singleton.mp hcidr, hexcluded, hout] at hcovers
      cases hcovers
    refine ⟨plan, rfl, (hexact _).mpr (.inr ⟨.inr (.inl ?_), hkept _ (by decide)⟩),
      (hexact _).mpr (.inr ⟨.inl ⟨rfl, ?_⟩, hkept _ (by decide)⟩), (hexact _).not.mpr ?_,
      (hexact _).mpr (.inl ?_)⟩
    · exact ⟨_, List.mem_singleton_self _, (hincluded _).mpr (by decide)⟩
    · exact ⟨_, List.mem_singleton_self _, ⟨_, haccepted⟩, (hpushed _).mpr (by decide)⟩
    · rintro (⟨dns, hof, hread⟩ | ⟨-, hnot⟩)
      · rw [hdns] at hof
        rw [List.mem_singleton.mp hof] at hread
        exact absurd hread (by decide +kernel)
      · exact hnot ⟨_, List.mem_singleton_self _, (hexcluded _).mpr (by decide)⟩
    · rw [hdns]
      exact ⟨_, List.mem_singleton_self _, by decide +kernel⟩

end Plan

end Qeli.Route
