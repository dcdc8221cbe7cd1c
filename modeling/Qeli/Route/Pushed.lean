import Qeli.Route.Exact

/-!
# A server cannot push a full tunnel

The routes a server pushes are refused when together they cover an address family. The
test halves the address space until single routes decide it, so it is exact: what is
accepted leaves an address of each family out, and what is refused left none.
-/

namespace Qeli.Route

open Qeli.Lib

/-! ## Whole families -/

theorem valid_whole {bits : Nat} (h : bits = 32 ∨ bits = 128) : (NumericCidr.mk 0 0 bits).Valid where
  family := h
  prefixLe := Nat.zero_le _
  lt := Nat.two_pow_pos _
  aligned := Nat.dvd_zero _

theorem contains_whole {bits : Nat} {a : IpAddr} :
    (NumericCidr.mk 0 0 bits).Contains a ↔ a.bits = bits := by
  refine ⟨fun h => h.1.symm, fun h => ⟨h.symm, ?_⟩⟩
  subst h
  exact inBlock_zero (Nat.two_pow_pos _) (NumericCidr.toNat_lt a)

section Cover

variable {text : NetText} {routes : List NetworkRoute} {bits : Nat}

theorem familyCidr_eq_some {route : NetworkRoute} {c : NumericCidr} :
    familyCidr text bits route = some c ↔
      NumericCidr.parse text route.cidr = .ok c ∧ c.bits = bits := by
  unfold familyCidr
  cases NumericCidr.parse text route.cidr with
  | error e => simp
  | ok d =>
    simp only [Option.ite_none_right_eq_some, Option.some.injEq, Except.ok.injEq]
    constructor
    · rintro ⟨hbits, rfl⟩
      exact ⟨rfl, hbits⟩
    · rintro ⟨rfl, hbits⟩
      exact ⟨hbits, rfl⟩

theorem mem_familyCidrs {c : NumericCidr} :
    c ∈ routes.filterMap (familyCidr text bits) ↔ Plans text routes c ∧ c.bits = bits := by
  simp only [List.mem_filterMap, familyCidr_eq_some, Plans]
  constructor
  · rintro ⟨route, hroute, hparse, hbits⟩
    exact ⟨⟨route, hroute, hparse⟩, hbits⟩
  · rintro ⟨⟨route, hroute, hparse⟩, hbits⟩
    exact ⟨route, hroute, hparse, hbits⟩

theorem routesCoverAddressFamily_iff (h : bits = 32 ∨ bits = 128) :
    routesCoverAddressFamily text routes bits = true ↔
      ∀ a : IpAddr, a.bits = bits → CoveredBy text routes a := by
  have hvalid : ∀ c ∈ routes.filterMap (familyCidr text bits), c.Valid := fun c hc => by
    obtain ⟨⟨route, -, hparse⟩, -⟩ := mem_familyCidrs.mp hc
    exact valid_of_parse hparse
  rw [routesCoverAddressFamily, cidrsCover_iff (valid_whole h) hvalid (Nat.sub_le _ _)]
  simp only [contains_whole, coveredBy_iff, mem_familyCidrs]
  constructor
  · intro hall a ha
    obtain ⟨c, ⟨hc, -⟩, hca⟩ := hall a ha
    exact ⟨c, hc, hca⟩
  · intro hall a ha
    obtain ⟨c, hc, hca⟩ := hall a ha
    exact ⟨c, ⟨hc, hca.1.trans ha⟩, hca⟩

end Cover

/-! ## Refusals -/

/-- The first letter of a message. -/
def initial (message : String) : Option Char := message.toList.head?

theorem initial_append {front : String} (back : String) {c : Char} (h : initial front = some c) :
    initial (front ++ back) = some c := by
  unfold initial at *
  rw [String.toList_append, List.head?_append, h]
  rfl

theorem initial_coversFamily (family : String) : initial (coversFamily family) = some 's' :=
  initial_append _ (initial_append _ (by decide +kernel))

section Refusals

variable {text : NetText} {addresses : List NetworkAddress}

theorem initial_gatewayForIp {address : IpAddr} {e : String}
    (h : gatewayForIp address addresses = .error e) : initial e = some 'n' := by
  unfold gatewayForIp at h
  split at h
  · cases h
  · cases h
    exact initial_append _ (initial_append _ (by decide +kernel))

theorem initial_parse {cidr e : String} (h : NumericCidr.parse text cidr = .error e) :
    initial e = some 'i' := by
  unfold NumericCidr.parse at h
  split at h
  · cases h
    exact initial_append _ (initial_append _ (by decide +kernel))
  · cases h

theorem initial_acceptPushedRoute {route : PushedRoute} {e : String}
    (h : acceptPushedRoute text addresses route = .error e) : initial e ≠ some 's' := by
  unfold acceptPushedRoute at h
  split at h
  · cases h
  split at h
  · cases h
  rcases of_bind_error h with hgateway | ⟨gateway, -, h⟩
  · unfold pushedGateway at hgateway
    split at hgateway
    · cases hgateway
    · rw [initial_gatewayForIp hgateway]
      decide
  split at h
  · cases h
  split at h
  · cases h
  dsimp only at h
  split at h
  · cases h
  split at h
  · cases h
  rcases of_bind_error h with hparse | ⟨cidr, -, h⟩
  · rw [initial_parse hparse]
    decide
  · cases h

theorem not_cover_of_planned {routesJson : String} {pushed : List NetworkRoute}
    (h : plannedPushedRoutesForAddresses text routesJson addresses = .ok pushed) :
    routesCoverAddressFamily text pushed 32 = false ∧
      routesCoverAddressFamily text pushed 128 = false := by
  unfold plannedPushedRoutesForAddresses at h
  dsimp only at h
  split at h
  · cases h
    exact ⟨rfl, rfl⟩
  split at h
  · cases h
  obtain ⟨accepted, -, h⟩ := of_bind_ok h
  split at h
  · cases h
  next h4 =>
    split at h
    · cases h
    next h6 =>
      cases h
      exact ⟨Bool.eq_false_iff.mpr h4, Bool.eq_false_iff.mpr h6⟩

/-- A document refused for coverage was read, its routes were accepted, and they cover the
family. -/
theorem cover_of_refused {routesJson e : String}
    (h : plannedPushedRoutesForAddresses text routesJson addresses = .error e)
    (he : initial e = some 's') :
    ∃ routes accepted, text.parseRoutes (text.trim routesJson) = .ok routes ∧
      routes.mapM (acceptPushedRoute text addresses) = .ok accepted ∧
      ((e = coversFamily "IPv4" ∧
        routesCoverAddressFamily text (accepted.filterMap id) 32 = true) ∨
      (e = coversFamily "IPv6" ∧
        routesCoverAddressFamily text (accepted.filterMap id) 128 = true)) := by
  unfold plannedPushedRoutesForAddresses at h
  dsimp only at h
  split at h
  · cases h
  split at h
  · cases h
    have hfailed : initial "failed to parse pushed routes: " = some 'f' := by decide +kernel
    have := he.symm.trans (initial_append _ hfailed)
    cases this
  next routes hroutes =>
    rcases of_bind_error h with hmap | ⟨accepted, haccepted, h⟩
    · obtain ⟨route, -, hroute⟩ := of_mapM_error hmap
      exact absurd he (initial_acceptPushedRoute hroute)
    · refine ⟨routes, accepted, hroutes, haccepted, ?_⟩
      split at h
      · next h4 =>
        cases h
        exact .inl ⟨rfl, h4⟩
      · split at h
        · next h6 =>
          cases h
          exact .inr ⟨rfl, h6⟩
        · cases h

end Refusals

/-- **No pushed full tunnel.** Accepted routes leave out an address of each family, and a
document refused for coverage really covers the family it is refused for. -/
theorem pushed_routes_leave_gap (text : NetText) (routesJson : String)
    (addresses : List NetworkAddress) :
    (∀ pushed, plannedPushedRoutesForAddresses text routesJson addresses = .ok pushed →
      (∃ a : BitVec 32, ¬∃ route ∈ pushed, Covers text route.cidr (.v4 a)) ∧
        ∃ a : BitVec 128, ¬∃ route ∈ pushed, Covers text route.cidr (.v6 a)) ∧
    (plannedPushedRoutesForAddresses text routesJson addresses = .error (coversFamily "IPv4") →
      ∃ routes accepted, text.parseRoutes (text.trim routesJson) = .ok routes ∧
        routes.mapM (acceptPushedRoute text addresses) = .ok accepted ∧
        ∀ a : BitVec 32, ∃ route ∈ accepted.filterMap id, Covers text route.cidr (.v4 a)) ∧
    (plannedPushedRoutesForAddresses text routesJson addresses = .error (coversFamily "IPv6") →
      ∃ routes accepted, text.parseRoutes (text.trim routesJson) = .ok routes ∧
        routes.mapM (acceptPushedRoute text addresses) = .ok accepted ∧
        ∀ a : BitVec 128, ∃ route ∈ accepted.filterMap id, Covers text route.cidr (.v6 a)) := by
  have hnames : coversFamily "IPv4" ≠ coversFamily "IPv6" := by decide +kernel
  refine ⟨fun pushed h => ?_, fun h => ?_, fun h => ?_⟩
  · obtain ⟨h4, h6⟩ := not_cover_of_planned h
    have hgap4 := (routesCoverAddressFamily_iff (.inl rfl)).not.mp (Bool.eq_false_iff.mp h4)
    have hgap6 := (routesCoverAddressFamily_iff (.inr rfl)).not.mp (Bool.eq_false_iff.mp h6)
    constructor
    · by_contra hnone
      refine hgap4 fun a ha => ?_
      cases a with
      | v4 x => exact not_not.mp (not_exists.mp hnone x)
      | v6 x => cases ha
    · by_contra hnone
      refine hgap6 fun a ha => ?_
      cases a with
      | v4 x => cases ha
      | v6 x => exact not_not.mp (not_exists.mp hnone x)
  · obtain ⟨routes, accepted, hroutes, haccepted, ⟨-, hcover⟩ | ⟨hname, -⟩⟩ :=
      cover_of_refused h (initial_coversFamily _)
    · exact ⟨routes, accepted, hroutes, haccepted, fun a =>
        (routesCoverAddressFamily_iff (.inl rfl)).mp hcover (.v4 a) rfl⟩
    · exact absurd hname hnames
  · obtain ⟨routes, accepted, hroutes, haccepted, ⟨hname, -⟩ | ⟨-, hcover⟩⟩ :=
      cover_of_refused h (initial_coversFamily _)
    · exact absurd hname.symm hnames
    · exact ⟨routes, accepted, hroutes, haccepted, fun a =>
        (routesCoverAddressFamily_iff (.inr rfl)).mp hcover (.v6 a) rfl⟩

end Qeli.Route
