import Mathlib.Data.Finset.Insert
import Qeli.Lib.Bytes

/-!
# Subnets of the address pools

`config::server::pool_subnet` and `ipv6_pool_subnet` read the two CIDR texts of a
profile. The functions of the standard library they call are the parameter `Text`; the
splitting at the slash and every check with its message are modelled. Addresses are
naturals, as `u32::from` and `u128::from` give them.
-/

namespace Qeli.Pool

open Lib

/-- The text functions of the standard library, with the texts of their errors. -/
structure Text where
  trim : String → String
  parseIpv4 : String → Except String (BitVec 32)
  parseIpv6 : String → Except String (BitVec 128)
  parseU8 : String → Except String (BitVec 8)
  displayIpv4 : Nat → String
  displayIpv6 : Nat → String

def splitOnce (separator : Char) (s : String) : Option (String × String) :=
  match s.toList.dropWhile (· ≠ separator) with
  | [] => none
  | _ :: rest => some (.ofList (s.toList.takeWhile (· ≠ separator)), .ofList rest)

structure Ipv6PoolConfig where
  cidr : String
  exclude : List String
  /-- In the order in which the map yields them. -/
  staticReservations : List (String × String)

structure PoolConfig where
  cidr : String
  exclude : List String
  staticReservations : List (String × String)

/-! ## IPv4 -/

structure PoolSubnet where
  network : Nat
  prefixLen : Nat
  netmask : Nat
  broadcast : Nat

def PoolSubnet.containsUsableHost (self : PoolSubnet) (address : Nat) : Bool :=
  decide (self.network < address) && decide (address < self.broadcast)

def poolSubnet (text : Text) (cidr : String) : Except String PoolSubnet :=
  match splitOnce '/' (text.trim cidr) with
  | none => .error s!"invalid pool.cidr '{cidr}': expected IPv4 CIDR (e.g. 10.9.0.0/24)"
  | some (address, prefixText) =>
    if '/' ∈ prefixText.toList then
      .error s!"invalid pool.cidr '{cidr}': expected exactly one '/' separator"
    else
      match text.parseIpv4 (text.trim address) with
      | .error e => .error s!"invalid pool.cidr '{cidr}': invalid IPv4 address: {e}"
      | .ok address =>
        match text.parseU8 (text.trim prefixText) with
        | .error e => .error s!"invalid pool.cidr '{cidr}': invalid prefix: {e}"
        | .ok prefixLen =>
          if prefixLen.toNat > 32 then
            .error s!"invalid pool.cidr '{cidr}': prefix must be between 0 and 32"
          else
            let mask := if prefixLen.toNat = 0 then 0 else highMask 32 (32 - prefixLen.toNat)
            let network := address.toNat &&& mask
            .ok ⟨network, prefixLen.toNat, mask, network ||| (2 ^ 32 - 1 - mask)⟩

/-- `pool::parse_cidr`. -/
def parseCidr (text : Text) (cidr : String) : Except String (Nat × Nat) :=
  match poolSubnet text cidr with
  | .error e => .error e
  | .ok subnet => .ok (subnet.network, subnet.prefixLen)

/-! ## IPv6 -/

structure Ipv6PoolSubnet where
  network : Nat
  prefixLen : Nat

def ipv6PrefixMask (prefixLen : Nat) : Nat :=
  if prefixLen = 0 then 0 else highMask 128 (128 - prefixLen)

namespace Ipv6PoolSubnet

def contains (self : Ipv6PoolSubnet) (address : Nat) : Bool :=
  address &&& ipv6PrefixMask self.prefixLen == self.network

def containsAssignable (self : Ipv6PoolSubnet) (address : Nat) : Bool :=
  self.contains address && address != self.network

end Ipv6PoolSubnet

def validateTunnelIpv6Address (field : String) (address : Nat) : Except String Unit :=
  let first := address >>> 112
  let linkLocal := first &&& 0xffc0 = 0xfe80
  if address = 0 then .error s!"{field} must not be the unspecified IPv6 address ::"
  else if address = 1 then .error s!"{field} must not be the IPv6 loopback address ::1"
  else if first >>> 8 = 0xff then .error s!"{field} must not be an IPv6 multicast address"
  else if linkLocal then
    .error s!"{field} must not be link-local — tunnel addresses need profile-wide scope"
  else if address >>> 32 = 0xffff then
    .error s!"{field} must not be an IPv4-mapped IPv6 address; configure the real family"
  else .ok ()

def ipv6PoolSubnet (text : Text) (cidr : String) : Except String Ipv6PoolSubnet :=
  match splitOnce '/' (text.trim cidr) with
  | none =>
    .error s!"invalid pool.ipv6.cidr '{cidr}': expected IPv6 CIDR (e.g. fd71:e1:1234:1::/64)"
  | some (address, prefixText) =>
    if '/' ∈ prefixText.toList then
      .error s!"invalid pool.ipv6.cidr '{cidr}': expected exactly one '/' separator"
    else
      match text.parseIpv6 (text.trim address) with
      | .error e => .error s!"invalid pool.ipv6.cidr '{cidr}': invalid IPv6 address: {e}"
      | .ok address =>
        match text.parseU8 (text.trim prefixText) with
        | .error e => .error s!"invalid pool.ipv6.cidr '{cidr}': invalid prefix: {e}"
        | .ok prefixLen =>
          if ¬ (1 ≤ prefixLen.toNat ∧ prefixLen.toNat ≤ 126) then
            .error s!"invalid pool.ipv6.cidr '{cidr}': prefix must be between 1 and 126"
          else
            let network := address.toNat &&& ipv6PrefixMask prefixLen.toNat
            match validateTunnelIpv6Address "pool.ipv6.cidr network" network with
            | .error e => .error e
            | .ok () => .ok ⟨network, prefixLen.toNat⟩

/-! ## Reservations -/

/-- The reserved addresses are those of the reservations, each reserved once. -/
structure ReservedFor (reserved : Finset Nat) (reservations : List (String × Nat)) : Prop where
  nodup : (reservations.map Prod.snd).Nodup
  mem : ∀ {a}, a ∈ reserved ↔ ∃ user, (user, a) ∈ reservations

namespace ReservedFor

variable {reserved : Finset Nat} {reservations : List (String × Nat)}

theorem nil : ReservedFor ∅ [] := ⟨List.nodup_nil, by simp⟩

theorem snoc (h : ReservedFor reserved reservations) {a : Nat} (ha : a ∉ reserved)
    (user : String) : ReservedFor (insert a reserved) (reservations ++ [(user, a)]) := by
  constructor
  · rw [List.map_append, List.nodup_append]
    refine ⟨h.nodup, List.nodup_singleton _, ?_⟩
    rintro b hb c hc rfl
    obtain ⟨⟨user', b⟩, hmem, rfl⟩ := List.mem_map.mp hb
    cases List.mem_singleton.mp hc
    exact ha (h.mem.mpr ⟨user', hmem⟩)
  · intro b
    rw [Finset.mem_insert, h.mem]
    simp only [List.mem_append, List.mem_singleton, Prod.mk.injEq]
    constructor
    · rintro (rfl | ⟨user', hmem⟩)
      · exact ⟨user, .inr ⟨rfl, rfl⟩⟩
      · exact ⟨user', .inl hmem⟩
    · rintro ⟨user', hmem | ⟨_, rfl⟩⟩
      · exact .inr ⟨user', hmem⟩
      · exact .inl rfl

theorem owner (h : ReservedFor reserved reservations) {user user' : String} {a : Nat}
    (h1 : (user, a) ∈ reservations) (h2 : (user', a) ∈ reservations) : user = user' :=
  congrArg Prod.fst (List.inj_on_of_nodup_map h.nodup h1 h2 rfl)

end ReservedFor

/-! ## The shape of a subnet -/

/-- A network of `width`-bit addresses: all host bits are zero. -/
def IsNetwork (width prefixLen network : Nat) : Prop :=
  ∃ q, network = q * 2 ^ (width - prefixLen) ∧ network + 2 ^ (width - prefixLen) ≤ 2 ^ width

theorem isNetwork_and {width address : Nat} (prefixLen : Nat) (h : address < 2 ^ width) :
    IsNetwork width prefixLen (address &&& highMask width (width - prefixLen)) := by
  refine ⟨address / 2 ^ (width - prefixLen), and_highMask _ h, ?_⟩
  rw [and_highMask _ h]
  have hpow : 2 ^ (width - prefixLen) ∣ 2 ^ width := Nat.pow_dvd_pow 2 (by omega)
  obtain ⟨c, hc⟩ := hpow
  have hlt : address / 2 ^ (width - prefixLen) < c := by
    refine Nat.div_lt_of_lt_mul ?_
    rwa [← hc]
  calc address / 2 ^ (width - prefixLen) * 2 ^ (width - prefixLen) + 2 ^ (width - prefixLen)
      = (address / 2 ^ (width - prefixLen) + 1) * 2 ^ (width - prefixLen) := by ring
    _ ≤ c * 2 ^ (width - prefixLen) := Nat.mul_le_mul_right _ hlt
    _ = 2 ^ width := by rw [hc]; ring

theorem IsNetwork.or_host {width prefixLen network host : Nat}
    (h : IsNetwork width prefixLen network) (hhost : host < 2 ^ (width - prefixLen)) :
    network ||| host = network + host := by
  obtain ⟨q, rfl, _⟩ := h
  exact mul_two_pow_or q hhost

theorem IsNetwork.and_mask {width prefixLen network address : Nat}
    (h : IsNetwork width prefixLen network) (hlo : network ≤ address)
    (hhi : address < network + 2 ^ (width - prefixLen)) :
    address &&& highMask width (width - prefixLen) = network := by
  obtain ⟨q, hq, hwidth⟩ := h
  rw [and_highMask _ (by omega), hq]
  congr 1
  refine Nat.div_eq_of_lt_le (hq ▸ hlo) ?_
  rw [Nat.succ_mul]
  omega

theorem poolSubnet_ok {text : Text} {cidr : String} {subnet : PoolSubnet}
    (h : poolSubnet text cidr = .ok subnet) : subnet.prefixLen ≤ 32 ∧ (0 < subnet.prefixLen →
      IsNetwork 32 subnet.prefixLen subnet.network ∧
        subnet.broadcast = subnet.network + (2 ^ (32 - subnet.prefixLen) - 1)) := by
  unfold poolSubnet at h
  split at h
  · cases h
  split at h
  · cases h
  split at h
  · cases h
  split at h
  · cases h
  split at h
  · cases h
  · next address _ _ prefixLen _ hle =>
    dsimp only at h
    cases h
    refine ⟨by dsimp only; omega, fun hpos => ?_⟩
    dsimp only at hpos ⊢
    rw [if_neg (by omega)]
    have hnet := isNetwork_and prefixLen.toNat address.isLt
    refine ⟨hnet, ?_⟩
    have hpow : 2 ^ (32 - prefixLen.toNat) ≤ 2 ^ 32 := Nat.pow_le_pow_right (by omega) (by omega)
    have hpos := Nat.two_pow_pos (32 - prefixLen.toNat)
    have hmask : 2 ^ 32 - 1 - highMask 32 (32 - prefixLen.toNat) =
        2 ^ (32 - prefixLen.toNat) - 1 := by
      rw [highMask_eq (by omega)]
      omega
    rw [hmask, hnet.or_host (Nat.sub_lt (Nat.two_pow_pos _) Nat.one_pos)]

theorem ipv6PoolSubnet_ok {text : Text} {cidr : String} {subnet : Ipv6PoolSubnet}
    (h : ipv6PoolSubnet text cidr = .ok subnet) : 1 ≤ subnet.prefixLen ∧ subnet.prefixLen ≤ 126 ∧
      IsNetwork 128 subnet.prefixLen subnet.network := by
  unfold ipv6PoolSubnet at h
  split at h
  · cases h
  split at h
  · cases h
  split at h
  · cases h
  split at h
  · cases h
  split at h
  · cases h
  · next address _ _ prefixLen _ hrange =>
    rw [not_not] at hrange
    dsimp only at h
    split at h
    · cases h
    · cases h
      refine ⟨hrange.1, hrange.2, ?_⟩
      dsimp only
      rw [ipv6PrefixMask, if_neg (by omega)]
      exact isNetwork_and prefixLen.toNat address.isLt

end Qeli.Pool
