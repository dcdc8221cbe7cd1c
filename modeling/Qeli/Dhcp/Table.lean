import Qeli.Dhcp.Server

/-!
# The lease table and the pool

`Tied` ties the lease table, the quarantine and the pool together: a slot of the table
belongs to one address, a client has at most one slot, no leased address is quarantined,
and what the pool holds under a DHCP key has a slot. A slot may be stale, since the VPN
takes addresses from the pool without telling the table. Each section of `allocate_ip`, the
reaper, the release of an address and every call of the VPN keep it.
-/

namespace Qeli.Dhcp

open Lib Pool

/-! ## Keys -/

theorem digitChar_inj {a b : Nat} (ha : a < 16) (hb : b < 16)
    (h : Nat.digitChar a = Nat.digitChar b) : a = b := by
  have hall : ∀ a < 16, ∀ b < 16, Nat.digitChar a = Nat.digitChar b → a = b := by decide
  exact hall a ha b hb h

theorem hexByte_inj {a b : UInt8} (h : hexByte a = hexByte b) : a = b := by
  have ha := a.toNat_lt
  have hb := b.toNat_lt
  simp only [hexByte, List.cons.injEq, and_true] at h
  have hhigh := digitChar_inj (by omega) (by omega) h.1
  have hlow := digitChar_inj (by omega) (by omega) h.2
  exact UInt8.toNat_inj.mp (by omega)

theorem flatMap_hexByte_inj : ∀ {as bs : List UInt8},
    as.flatMap hexByte = bs.flatMap hexByte → as = bs
  | [], [], _ => rfl
  | [], b :: bs, h => by simp [hexByte] at h
  | a :: as, [], h => by simp [hexByte] at h
  | a :: as, b :: bs, h => by
    rw [List.flatMap_cons, List.flatMap_cons] at h
    obtain ⟨hhead, htail⟩ := List.append_inj h rfl
    rw [hexByte_inj hhead, flatMap_hexByte_inj htail]

theorem leaseKey_inj {mac mac' : MacAddr} (h : leaseKey mac = leaseKey mac') : mac = mac' := by
  unfold leaseKey at h
  have hchars := congrArg String.toList h
  simp only [String.toList_append, String.toList_ofList] at hchars
  exact Vector.toList_inj.mp (flatMap_hexByte_inj (List.append_cancel_left hchars))

/-! ## The pool -/

/-- A call that leaves the leases of all other keys alone. -/
structure Touches (key : String) (pool pool' : IpPool) : Prop where
  valid : pool'.Valid
  ipv4 : ∀ k ≠ key, pool'.getIpByUsername k = pool.getIpByUsername k
  ipv6 : ∀ k, pool.getIpv6ByUsername key = none →
    pool'.getIpv6ByUsername k = pool.getIpv6ByUsername k

theorem Touches.refl {pool : IpPool} (h : pool.Valid) (key : String) : Touches key pool pool :=
  ⟨h, fun _ _ => rfl, fun _ _ => rfl⟩

theorem Touches.trans {key : String} {pool pool' pool'' : IpPool} (h : Touches key pool pool')
    (h' : Touches key pool' pool'') : Touches key pool pool'' where
  valid := h'.valid
  ipv4 k hk := (h'.ipv4 k hk).trans (h.ipv4 k hk)
  ipv6 k hnone := (h'.ipv6 k ((h.ipv6 key hnone).trans hnone)).trans (h.ipv6 k hnone)

theorem Touches.of_step {key : String} {pool pool' : IpPool} (h : pool.Valid)
    (hstep : IpPool.Ipv4Step (fun _ => False) key pool pool') : Touches key pool pool' where
  valid := ⟨hstep.valid, hstep.ipv6 ▸ h.ipv6⟩
  ipv4 k hk := hstep.change.other_eq (fun _ => not_false) hk
  ipv6 k _ := by rw [IpPool.getIpv6ByUsername, IpPool.getIpv6ByUsername, hstep.ipv6]

theorem release_touches {pool : IpPool} (h : pool.Valid) (key : String) :
    Touches key pool (pool.release key) ∧ (pool.release key).getIpByUsername key = none := by
  have hheld : (pool.release key).getIpByUsername = Function.update pool.held key none :=
    Leases.held_release _ key
  have hstep := @IpPool.release_step pool key (fun _ => False) (fun _ _ => False) h
  refine ⟨⟨hstep.valid, fun k hk => ?_, fun k hnone => ?_⟩, ?_⟩
  · rw [hheld, Function.update_of_ne hk]
    rfl
  · show ((pool.ipv6.map fun six => six.release key).bind fun six => six.held k) =
      pool.ipv6.bind fun six => six.held k
    cases hsix : pool.ipv6 with
    | none => rfl
    | some six =>
      have hkey : six.held key = none := by
        simpa [IpPool.getIpv6ByUsername, hsix, Ipv6Pool.getIpByUsername] using hnone
      show (six.toLeases.release key).held k = six.toLeases.held k
      rw [Leases.held_release]
      by_cases hk : k = key
      · rw [hk, Function.update_self, ← hkey]
      · rw [Function.update_of_ne hk]
  · rw [hheld, Function.update_self]

/-- The VPN's call is under a key that no client of the DHCP server has. -/
def VpnCall (c : Call) : Prop := ∀ mac, c.key ≠ leaseKey mac

theorem vpn_call {pool : IpPool} (h : pool.Valid) {c : Call} (hc : VpnCall c) (mac : MacAddr) :
    ((pool.call c).getIpByUsername (leaseKey mac) = pool.getIpByUsername (leaseKey mac) ∨
      (pool.call c).getIpByUsername (leaseKey mac) = none) ∧
    (pool.getIpv6ByUsername (leaseKey mac) = none →
      (pool.call c).getIpv6ByUsername (leaseKey mac) = none) := by
  have hstep := IpPool.call_step h c
  refine ⟨hstep.change.other (hc mac).symm, fun hnone => ?_⟩
  have hrel := hstep.ipv6
  unfold IpPool.getIpv6ByUsername at hnone ⊢
  generalize pool.ipv6 = before at hrel hnone
  generalize (pool.call c).ipv6 = after at hrel
  cases hrel with
  | none => rfl
  | some hsix =>
    rcases hsix.change.other (hc mac).symm with heq | heq
    · exact heq.trans hnone
    · exact heq

/-! ## The lease table -/

/-- A slot belongs to one address, a client has at most one, and no leased address is
quarantined. -/
structure Table (dhcp : DhcpServer) : Prop where
  size : dhcp.leases.length ≤ dhcp.poolEnd + 1 - dhcp.poolStart
  address : ∀ {i lease}, dhcp.slot i = some lease → lease.ip = dhcp.poolStart + i
  unique : ∀ {i j lease lease'}, dhcp.slot i = some lease → dhcp.slot j = some lease' →
    lease.mac = lease'.mac → i = j
  clear : ∀ {i lease}, dhcp.slot i = some lease → dhcp.declined.get? lease.ip = none

namespace Table

variable {dhcp dhcp' : DhcpServer} {i : Nat} {lease : DhcpLease}

theorem slot_lt (h : dhcp.slot i = some lease) : i < dhcp.leases.length := by
  unfold DhcpServer.slot at h
  by_contra hlt
  rw [List.getElem?_eq_none (by omega)] at h
  cases h

theorem slot_setSlot (hi : i < dhcp.leases.length) (slot : Option DhcpLease) (j : Nat) :
    (dhcp.setSlot i slot).slot j = if j = i then slot else dhcp.slot j := by
  unfold DhcpServer.setSlot DhcpServer.slot
  rw [List.getElem?_set]
  by_cases hij : i = j
  · subst hij
    simp [hi]
  · simp [hij, Ne.symm hij]

theorem drop (h : Table dhcp) (hstart : dhcp'.poolStart = dhcp.poolStart)
    (hend : dhcp'.poolEnd = dhcp.poolEnd) (hlen : dhcp'.leases.length = dhcp.leases.length)
    (hslot : ∀ {i lease}, dhcp'.slot i = some lease → dhcp.slot i = some lease)
    (hdeclined : ∀ {a}, dhcp.declined.get? a = none → dhcp'.declined.get? a = none) :
    Table dhcp' := by
  refine ⟨by rw [hstart, hend, hlen]; exact h.size, fun hi => ?_, fun hi hj => ?_, fun hi => ?_⟩
  · rw [hstart]
    exact h.address (hslot hi)
  · exact h.unique (hslot hi) (hslot hj)
  · exact hdeclined (h.clear (hslot hi))

theorem grant (h : Table dhcp) (hi : i < dhcp.leases.length)
    (hip : lease.ip = dhcp.poolStart + i) (hclear : dhcp.declined.get? lease.ip = none)
    (hnew : ∀ {j lease'}, dhcp.slot j = some lease' → lease'.mac = lease.mac → j = i) :
    Table (dhcp.setSlot i (some lease)) := by
  have hslot := fun j => slot_setSlot hi (some lease) j
  have hcases : ∀ {j lease'}, (dhcp.setSlot i (some lease)).slot j = some lease' →
      (j = i ∧ lease' = lease) ∨ (j ≠ i ∧ dhcp.slot j = some lease') := by
    intro j lease' hj
    rw [hslot] at hj
    split at hj
    · next heq => exact .inl ⟨heq, (Option.some.inj hj).symm⟩
    · next hne => exact .inr ⟨hne, hj⟩
  refine ⟨?_, fun hj => ?_, fun hj hk hmac => ?_, fun hj => ?_⟩
  · show (dhcp.leases.set i (some lease)).length ≤ _
    rw [List.length_set]
    exact h.size
  · rcases hcases hj with ⟨rfl, rfl⟩ | ⟨_, hj⟩
    · exact hip
    · exact h.address hj
  · rcases hcases hj with ⟨hji, hl⟩ | ⟨hne, hold⟩ <;>
      rcases hcases hk with ⟨hki, hl'⟩ | ⟨hne', hold'⟩
    · rw [hji, hki]
    · exact absurd (hnew hold' (hmac.symm.trans (by rw [hl]))) hne'
    · exact absurd (hnew hold (hmac.trans (by rw [hl']))) hne
    · exact h.unique hold hold' hmac
  · rcases hcases hj with ⟨rfl, rfl⟩ | ⟨_, hj⟩
    · exact hclear
    · exact h.clear hj

theorem empty (h : Table dhcp) (hi : i < dhcp.leases.length) : Table (dhcp.setSlot i none) := by
  refine h.drop rfl rfl List.length_set (fun {j lease'} hj => ?_) id
  rw [slot_setSlot hi] at hj
  split at hj
  · cases hj
  · exact hj

end Table

/-! ## Reaping -/

section Reap

variable (dhcp : DhcpServer) (pool : IpPool) (now : Nat)

theorem slot_reap (i : Nat) : (dhcp.reapExpiredAt pool now).1.slot i =
    (dhcp.slot i).filter fun lease => !DhcpServer.expired now lease := by
  unfold DhcpServer.slot DhcpServer.reapExpiredAt
  simp only [List.getElem?_map]
  cases dhcp.leases[i]? with
  | none | some slot => rfl

theorem slot_reap_eq_some {i : Nat} {lease : DhcpLease} :
    (dhcp.reapExpiredAt pool now).1.slot i = some lease ↔
      dhcp.slot i = some lease ∧ now < lease.expiresAt := by
  rw [slot_reap, Option.filter_eq_some_iff]
  simp [DhcpServer.expired]

/-- Some lease of the client whose key this is has expired. -/
def Lapsed (key : String) : Prop :=
  ∃ i lease, dhcp.slot i = some lease ∧ lease.expiresAt ≤ now ∧ key = leaseKey lease.mac

theorem foldl_release {pool : IpPool} (h : pool.Valid) (keys : List String) :
    (keys.foldl IpPool.release pool).Valid ∧
    (∀ k, (keys.foldl IpPool.release pool).getIpByUsername k =
      if k ∈ keys then none else pool.getIpByUsername k) ∧
    ((∀ k ∈ keys, pool.getIpv6ByUsername k = none) → ∀ k,
      (keys.foldl IpPool.release pool).getIpv6ByUsername k = pool.getIpv6ByUsername k) := by
  induction keys generalizing pool with
  | nil => exact ⟨h, by simp, fun _ _ => rfl⟩
  | cons key keys ih =>
    obtain ⟨htouch, hnone⟩ := release_touches h key
    obtain ⟨hvalid, hheld, hsix⟩ := ih htouch.valid
    refine ⟨hvalid, fun k => ?_, fun hkeys k => ?_⟩
    · rw [List.foldl_cons, hheld]
      by_cases hk : k = key
      · subst hk
        simp [hnone]
      · simp [hk, htouch.ipv4 k hk]
    · have hkey := hkeys key List.mem_cons_self
      rw [List.foldl_cons, hsix fun k hk => ?_, htouch.ipv6 k hkey]
      rw [htouch.ipv6 k hkey]
      exact hkeys k (List.mem_cons_of_mem _ hk)

theorem mem_expiredKeys {key : String} :
    key ∈ dhcp.expiredKeys now ↔ Lapsed dhcp now key := by
  simp only [DhcpServer.expiredKeys, List.mem_map, List.mem_filter, List.mem_filterMap, id,
    Lapsed, DhcpServer.expired, decide_eq_true_eq, ge_iff_le]
  constructor
  · rintro ⟨lease, ⟨⟨slot, hmem, hslot⟩, hexp⟩, hkey⟩
    obtain ⟨i, hi, hget⟩ := List.getElem_of_mem hmem
    refine ⟨i, lease, ?_, hexp, hkey.symm⟩
    rw [DhcpServer.slot, List.getElem?_eq_getElem hi, hget, hslot]
    rfl
  · rintro ⟨i, lease, hslot, hexp, hkey⟩
    have hi := Table.slot_lt hslot
    refine ⟨lease, ⟨⟨dhcp.leases[i], List.getElem_mem hi, ?_⟩, hexp⟩, hkey.symm⟩
    rw [DhcpServer.slot, List.getElem?_eq_getElem hi] at hslot
    simpa using hslot

end Reap

/-! ## The table and the pool together -/

structure Tied (dhcp : DhcpServer) (pool : IpPool) : Prop where
  valid : pool.Valid
  table : Table dhcp
  backed : ∀ {mac a}, pool.getIpByUsername (leaseKey mac) = some a →
    ∃ i lease, dhcp.slot i = some lease ∧ lease.mac = mac ∧ lease.ip = a
  ipv4Only : ∀ mac, pool.getIpv6ByUsername (leaseKey mac) = none

def NoSlot (dhcp : DhcpServer) (mac : MacAddr) : Prop :=
  ∀ {i lease}, dhcp.slot i = some lease → lease.mac ≠ mac

/-- The address is the client's in all records: the pool has it under the client's key, it
lies in the window, it is not quarantined and its slot has the client's lease. -/
structure Granted (dhcp : DhcpServer) (pool : IpPool) (mac : MacAddr) (ip : Nat) : Prop where
  recorded : pool.getIpByUsername (leaseKey mac) = some ip
  window : dhcp.poolStart ≤ ip ∧ ip ≤ dhcp.poolEnd
  clear : dhcp.declined.get? ip = none
  slot : ∃ lease, dhcp.slot (ip - dhcp.poolStart) = some lease ∧ lease.mac = mac ∧ lease.ip = ip

/-- What a section of `allocate_ip` leaves, by how it ends. -/
def After (dhcp : DhcpServer) (pool : IpPool) (mac : MacAddr) : DhcpServer.Outcome → Prop
  | .returns none => True
  | .returns (some ip) => Granted dhcp pool mac ip
  | .goesOn => NoSlot dhcp mac

namespace Tied

variable {dhcp dhcp' : DhcpServer} {pool pool' : IpPool} {mac : MacAddr} {i ip : Nat}
  {lease : DhcpLease}

theorem unheld (h : Tied dhcp pool) (hno : NoSlot dhcp mac) :
    pool.getIpByUsername (leaseKey mac) = none := by
  cases hheld : pool.getIpByUsername (leaseKey mac) with
  | none => rfl
  | some a =>
    obtain ⟨i, lease, hslot, hmac, _⟩ := h.backed hheld
    exact absurd hmac (hno hslot)

theorem vpn (h : Tied dhcp pool) {c : Call} (hc : VpnCall c) : Tied dhcp (pool.call c) := by
  refine ⟨(IpPool.call_step h.valid c).valid, h.table, fun {mac a} hheld => ?_, fun mac => ?_⟩
  · rcases (vpn_call h.valid hc mac).1 with heq | heq
    · exact h.backed (heq ▸ hheld)
    · rw [heq] at hheld
      cases hheld
  · exact (vpn_call h.valid hc mac).2 (h.ipv4Only mac)

theorem drop (h : Tied dhcp pool) (htable : Table dhcp') (htouch : Touches (leaseKey mac) pool pool')
    (hnone : pool'.getIpByUsername (leaseKey mac) = none)
    (hslot : ∀ {i lease}, dhcp.slot i = some lease → lease.mac ≠ mac → dhcp'.slot i = some lease) :
    Tied dhcp' pool' := by
  refine ⟨htouch.valid, htable, fun {mac' a} hheld => ?_, fun mac' => ?_⟩
  · by_cases hmac : mac' = mac
    · rw [hmac, hnone] at hheld
      cases hheld
    · have hne : leaseKey mac' ≠ leaseKey mac := fun heq => hmac (leaseKey_inj heq)
      rw [htouch.ipv4 _ hne] at hheld
      obtain ⟨i, lease, hi, hmac', ha⟩ := h.backed hheld
      exact ⟨i, lease, hslot hi (hmac' ▸ hmac), hmac', ha⟩
  · rw [htouch.ipv6 _ (h.ipv4Only mac)]
    exact h.ipv4Only mac'

/-- A client without a slot is given an address and the slot of the address. The slot may
have been another client's, whose lease is stale then. -/
theorem grant (h : Tied dhcp pool) (hno : NoSlot dhcp mac)
    (htouch : Touches (leaseKey mac) pool pool')
    (hheld : pool'.getIpByUsername (leaseKey mac) = some ip) (hlo : dhcp.poolStart ≤ ip)
    (hidx : ip - dhcp.poolStart < dhcp.leases.length) (hclear : dhcp.declined.get? ip = none)
    (expiresAt : Nat) :
    Tied (dhcp.setSlot (ip - dhcp.poolStart) (some ⟨ip, mac, expiresAt⟩)) pool' ∧
      Granted (dhcp.setSlot (ip - dhcp.poolStart) (some ⟨ip, mac, expiresAt⟩)) pool' mac ip := by
  have hslot := fun j => Table.slot_setSlot hidx (some ⟨ip, mac, expiresAt⟩) j
  have hsize := h.table.size
  refine ⟨⟨htouch.valid, ?_, fun {mac' a} ha => ?_, fun mac' => ?_⟩,
    hheld, ⟨hlo, ?_⟩, hclear, ⟨_, (hslot _).trans (if_pos rfl), rfl, rfl⟩⟩
  · refine h.table.grant hidx ?_ hclear fun hj hmac => absurd hmac (hno hj)
    show ip = dhcp.poolStart + (ip - dhcp.poolStart)
    omega
  · by_cases hmac : mac' = mac
    · rw [hmac, hheld] at ha
      cases ha
      exact ⟨_, _, (hslot _).trans (if_pos rfl), hmac.symm, rfl⟩
    · have hne : leaseKey mac' ≠ leaseKey mac := fun heq => hmac (leaseKey_inj heq)
      obtain ⟨j, lease, hj, hmac', hip⟩ := h.backed ((htouch.ipv4 _ hne) ▸ ha)
      refine ⟨j, lease, (hslot j).trans ((if_neg fun heq => ?_).trans hj), hmac', hip⟩
      -- The other client would hold the same address.
      have haddr := h.table.address hj
      have haip : a = ip := by omega
      exact hne (htouch.valid.ipv4.sound.exclusive (haip ▸ ha) hheld)
  · rw [htouch.ipv6 _ (h.ipv4Only mac)]
    exact h.ipv4Only mac'
  · show ip ≤ dhcp.poolEnd
    omega

theorem held_eq (h : Tied dhcp pool) (hslot : dhcp.slot i = some lease) {a : Nat}
    (hheld : pool.getIpByUsername (leaseKey lease.mac) = some a) : a = lease.ip := by
  obtain ⟨j, lease', hj, hmac, rfl⟩ := h.backed hheld
  have hij := h.table.unique hj hslot hmac
  rw [hij, hslot] at hj
  cases hj
  rfl

theorem unheld_of_stale (h : Tied dhcp pool) (hslot : dhcp.slot i = some lease)
    (hstale : pool.getIpByUsername (leaseKey lease.mac) ≠ some lease.ip) :
    pool.getIpByUsername (leaseKey lease.mac) = none := by
  cases hheld : pool.getIpByUsername (leaseKey lease.mac) with
  | none => rfl
  | some a => exact absurd (by rw [hheld, h.held_eq hslot hheld]) hstale

theorem renew (h : Tied dhcp pool) (hslot : dhcp.slot i = some lease) (expiresAt : Nat) :
    Tied (dhcp.setSlot i (some { lease with expiresAt })) pool := by
  have hset := fun j => Table.slot_setSlot (Table.slot_lt hslot) (some { lease with expiresAt }) j
  have haddr := h.table.address hslot
  have hclear := h.table.clear hslot
  refine ⟨h.valid, ?_, fun {mac a} ha => ?_, h.ipv4Only⟩
  · exact h.table.grant (Table.slot_lt hslot) haddr hclear fun hj hmac =>
      h.table.unique hj hslot hmac
  · obtain ⟨j, lease', hj, hmac, hip⟩ := h.backed ha
    by_cases hji : j = i
    · rw [hji, hslot] at hj
      cases hj
      exact ⟨i, _, (hset i).trans (if_pos rfl), hmac, hip⟩
    · exact ⟨j, lease', (hset j).trans ((if_neg hji).trans hj), hmac, hip⟩

theorem clearSlot (h : Tied dhcp pool) (hslot : dhcp.slot i = some lease)
    (htouch : Touches (leaseKey lease.mac) pool pool')
    (hnone : pool'.getIpByUsername (leaseKey lease.mac) = none) :
    Tied (dhcp.setSlot i none) pool' ∧ NoSlot (dhcp.setSlot i none) lease.mac := by
  have hset := fun j => Table.slot_setSlot (Table.slot_lt hslot) none j
  refine ⟨h.drop (h.table.empty (Table.slot_lt hslot)) htouch hnone fun {j lease'} hj hmac => ?_,
    fun {j lease'} hj hmac => ?_⟩
  · refine (hset j).trans ((if_neg fun heq => ?_).trans hj)
    rw [heq, hslot] at hj
    cases hj
    exact hmac rfl
  · rw [hset] at hj
    split at hj
    · cases hj
    · next hne => exact hne (h.table.unique hj hslot hmac)

end Tied

end Qeli.Dhcp
