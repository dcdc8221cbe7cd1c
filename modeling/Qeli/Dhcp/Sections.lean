import Qeli.Dhcp.Table

/-!
# The sections of the server's calls

What each section does to the lease table and the pool when they are `Tied`: they stay so,
the pool's leases of other keys stay as they are, and `After` says what the end of a section
means for the client.
-/

namespace Qeli.Dhcp

open Lib Pool

variable {dhcp : DhcpServer} {pool : IpPool}

/-! ## The reaper -/

/-- **Reaping** takes from the pool the addresses of expired leases and no others. -/
theorem reap_tied (h : Tied dhcp pool) (now : Nat) :
    Tied (dhcp.reapExpiredAt pool now).1 (dhcp.reapExpiredAt pool now).2.1 ∧
    (∀ k, (dhcp.reapExpiredAt pool now).2.1.getIpByUsername k = pool.getIpByUsername k ∨
      (Lapsed dhcp now k ∧ (dhcp.reapExpiredAt pool now).2.1.getIpByUsername k = none)) ∧
    ∀ k, (dhcp.reapExpiredAt pool now).2.1.getIpv6ByUsername k = pool.getIpv6ByUsername k := by
  obtain ⟨hvalid, hheld, hsix⟩ := foldl_release h.valid (dhcp.expiredKeys now)
  have hsame : ∀ k, ((dhcp.expiredKeys now).foldl IpPool.release pool).getIpv6ByUsername k =
      pool.getIpv6ByUsername k := hsix fun k hk => by
    obtain ⟨i, lease, _, _, rfl⟩ := (mem_expiredKeys dhcp now).mp hk
    exact h.ipv4Only lease.mac
  refine ⟨⟨hvalid, ?_, fun {mac a} ha => ?_, fun mac => ?_⟩, fun k => ?_, hsame⟩
  · refine h.table.drop rfl rfl (List.length_map _) (fun hi => ((slot_reap_eq_some ..).mp hi).1) ?_
    intro a ha
    show (dhcp.declined.retain _).get? a = none
    rw [KeyMap.get?_retain, ha]
    rfl
  · -- A client that still holds an address has not lapsed.
    have hkey := hheld (leaseKey mac)
    split at hkey
    · exact absurd (hkey.symm.trans ha) (by simp)
    · next hlive =>
      obtain ⟨i, lease, hslot, hmac, hip⟩ := h.backed (hkey ▸ ha)
      refine ⟨i, lease, (slot_reap_eq_some ..).mpr ⟨hslot, ?_⟩, hmac, hip⟩
      by_contra hexp
      exact hlive ((mem_expiredKeys dhcp now).mpr ⟨i, lease, hslot, by omega, by rw [hmac]⟩)
  · exact (hsame _).trans (h.ipv4Only mac)
  · have hkey := hheld k
    split at hkey
    · next hlapsed => exact .inr ⟨(mem_expiredKeys dhcp now).mp hlapsed, hkey⟩
    · exact .inl hkey

/-! ## Keeping a lease -/

theorem activeSlot_some {mac : MacAddr} {now i : Nat} {lease : DhcpLease}
    (h : dhcp.activeSlot mac now = some (i, lease)) :
    dhcp.slot i = some lease ∧ lease.mac = mac := by
  unfold DhcpServer.activeSlot at h
  obtain ⟨⟨slot, j⟩, hmem, hfound⟩ := List.exists_of_findSome?_eq_some h
  have hget := List.mem_zipIdx_iff_getElem?.mp hmem
  obtain ⟨lease', hslot, hif⟩ := Option.bind_eq_some_iff.mp hfound
  split at hif
  · cases hif
  · next hok =>
    cases hif
    push Not at hok
    refine ⟨?_, hok.1⟩
    dsimp only at hget hslot
    rw [DhcpServer.slot, hget, hslot]
    rfl

theorem activeSlot_none {mac : MacAddr} {now : Nat} (h : dhcp.activeSlot mac now = none)
    {i : Nat} {lease : DhcpLease} (hslot : dhcp.slot i = some lease) (hmac : lease.mac = mac) :
    lease.expiresAt ≤ now := by
  have hi := Table.slot_lt hslot
  rw [DhcpServer.slot, List.getElem?_eq_getElem hi] at hslot
  have hmem : (dhcp.leases[i], i) ∈ dhcp.leases.zipIdx :=
    List.mem_zipIdx_iff_getElem?.mpr (List.getElem?_eq_getElem hi)
  have hnone := List.findSome?_eq_none_iff.mp h _ hmem
  have hlease : dhcp.leases[i] = some lease := by simpa using hslot
  rw [hlease] at hnone
  by_contra hlt
  simp [hmac] at hnone
  omega

theorem reuseLease_tied (h : Tied dhcp pool) {call : AllocateIp}
    (hlive : ∀ {i lease}, dhcp.slot i = some lease → call.now < lease.expiresAt) :
    Tied (dhcp.reuseLease pool call).1 pool ∧
      After (dhcp.reuseLease pool call).1 pool call.mac (dhcp.reuseLease pool call).2 := by
  unfold DhcpServer.reuseLease
  split
  · next hnone =>
    refine ⟨h, fun {i lease} hslot hmac => ?_⟩
    have := activeSlot_none hnone hslot hmac
    have := hlive hslot
    omega
  · next i lease hactive =>
    obtain ⟨hslot, hmac⟩ := activeSlot_some hactive
    have hi := Table.slot_lt hslot
    have haddr := h.table.address hslot
    split
    · next hheld =>
      split
      · exact ⟨h, trivial⟩
      · -- The renewed lease is in the same slot.
        dsimp only
        generalize (if call.offerOnly = true then max lease.expiresAt (dhcp.requestedExpiry call)
          else dhcp.requestedExpiry call) = expiresAt
        have hsize := h.table.size
        refine ⟨h.renew hslot expiresAt, hheld, ?_, h.table.clear hslot,
          { lease with expiresAt }, ?_, hmac, rfl⟩
        · show dhcp.poolStart ≤ lease.ip ∧ lease.ip ≤ dhcp.poolEnd
          omega
        · show (dhcp.setSlot i _).slot (lease.ip - dhcp.poolStart) = _
          rw [Table.slot_setSlot hi, if_pos (by omega)]
    · next hstale =>
      have hnone := h.unheld_of_stale hslot (hmac ▸ hstale)
      obtain ⟨htied, hno⟩ := h.clearSlot hslot (.refl h.valid _) hnone
      exact ⟨htied, hmac ▸ hno⟩

/-! ## A new lease -/

theorem not_mem_quarantined {a : Nat} (h : a ∉ dhcp.quarantined) :
    dhcp.declined.get? a = none := by
  rw [KeyMap.get?_eq_none_iff]
  simpa [DhcpServer.quarantined] using h

theorem tryPreferred_tied (h : Tied dhcp pool) {call : AllocateIp} (hno : NoSlot dhcp call.mac) :
    Tied (dhcp.tryPreferred pool call).1 (dhcp.tryPreferred pool call).2.1 ∧
      After (dhcp.tryPreferred pool call).1 (dhcp.tryPreferred pool call).2.1 call.mac
        (dhcp.tryPreferred pool call).2.2 ∧
      Touches (leaseKey call.mac) pool (dhcp.tryPreferred pool call).2.1 := by
  have hrefused : ∀ {r : DhcpServer × IpPool × DhcpServer.Outcome},
      r = (dhcp, pool, if call.allowFallback then .goesOn else .returns none) →
      Tied r.1 r.2.1 ∧ After r.1 r.2.1 call.mac r.2.2 ∧ Touches (leaseKey call.mac) pool r.2.1 := by
    rintro r rfl
    refine ⟨h, ?_, .refl h.valid _⟩
    dsimp only
    split
    · exact hno
    · trivial
  unfold DhcpServer.tryPreferred
  split
  · exact hrefused rfl
  · next pref _ =>
    dsimp only
    split
    · next hok =>
      have hstep := @IpPool.allocateFixedUnclaimed_step pool (leaseKey call.mac) pref h.valid.ipv4
        fun _ => False
      split
      · next pool' ip heq =>
        have hresult := (IpPool.allocateFixedUnclaimed_result h.valid.ipv4 heq).1 ip rfl
        rw [heq] at hstep
        have htouch := Touches.of_step h.valid hstep
        obtain ⟨htied, hgranted⟩ := h.grant hno htouch hresult.2 hok.1 hok.2.2.2.1
          (not_mem_quarantined hok.2.2.1) (dhcp.requestedExpiry call)
        exact ⟨htied, hgranted, htouch⟩
      · next pool' heq =>
        have hsame := (IpPool.allocateFixedUnclaimed_result h.valid.ipv4 heq).2 rfl
        exact hrefused (by rw [hsame])
    · exact hrefused rfl

theorem fallBack_tied (h : Tied dhcp pool) {call : AllocateIp} (hno : NoSlot dhcp call.mac) :
    Tied (dhcp.fallBack pool call).1 (dhcp.fallBack pool call).2.1 ∧
      After (dhcp.fallBack pool call).1 (dhcp.fallBack pool call).2.1 call.mac
        (.returns (dhcp.fallBack pool call).2.2) ∧
      Touches (leaseKey call.mac) pool (dhcp.fallBack pool call).2.1 := by
  unfold DhcpServer.fallBack
  have hstep := @IpPool.allocateInRangeExcluding_step pool (leaseKey call.mac) h.valid.ipv4
    dhcp.poolStart dhcp.poolEnd dhcp.quarantined fun _ => False
  split
  · next pool' ip heq =>
    obtain ⟨hheld, hin⟩ := IpPool.allocateInRangeExcluding_result h.valid.ipv4 heq
    obtain ⟨hlo, _, hclear⟩ := hin ip rfl
    rw [heq] at hstep
    have htouch := Touches.of_step h.valid hstep
    dsimp only
    split
    · next hidx =>
      obtain ⟨htied, hgranted⟩ := h.grant hno htouch hheld hlo hidx
        (not_mem_quarantined hclear) (dhcp.requestedExpiry call)
      exact ⟨htied, hgranted, htouch⟩
    · obtain ⟨hrelease, hnone⟩ := release_touches htouch.valid (leaseKey call.mac)
      exact ⟨h.drop h.table (htouch.trans hrelease) hnone fun hi _ => hi, trivial,
        htouch.trans hrelease⟩
  · next pool' heq =>
    have hheld := (IpPool.allocateInRangeExcluding_result h.valid.ipv4 heq).1
    rw [heq] at hstep
    have htouch := Touches.of_step h.valid hstep
    exact ⟨h.drop h.table htouch hheld fun hi _ => hi, trivial, htouch⟩

/-! ## Release and decline -/

theorem releaseClientAddress_cases (dhcp : DhcpServer) (pool : IpPool) (now : Nat) (mac : MacAddr)
    (address : Nat) (quarantine : Bool) :
    ((∀ i lease, dhcp.slot i = some lease → lease.mac = mac → lease.ip ≠ address) ∧
      dhcp.releaseClientAddress pool now mac address quarantine = (dhcp, pool)) ∨
    ∃ i lease, dhcp.slot i = some lease ∧ lease.mac = mac ∧ lease.ip = address ∧
      dhcp.releaseClientAddress pool now mac address quarantine =
        ({ dhcp.setSlot i none with
            declined :=
              if quarantine then
                dhcp.declined.insert address
                  (saturatingAdd u64Max now DhcpServer.declineQuarantineSecs)
              else dhcp.declined },
          if pool.getIpByUsername (leaseKey mac) = some address then pool.release (leaseKey mac)
          else pool) := by
  unfold DhcpServer.releaseClientAddress
  split
  · next hfind =>
    refine .inl ⟨fun i lease hslot hmac hip => ?_, rfl⟩
    have hi := Table.slot_lt hslot
    rw [DhcpServer.slot, List.getElem?_eq_getElem hi] at hslot
    have hget : dhcp.leases[i] = some lease := by simpa using hslot
    have hnone := List.findIdx?_eq_none_iff.mp hfind _ (List.getElem_mem hi)
    simp [hget, hmac, hip] at hnone
  · next i hfind =>
    obtain ⟨hi, hany, _⟩ := List.findIdx?_eq_some_iff_getElem.mp hfind
    refine .inr ⟨i, ?_⟩
    cases hget : dhcp.leases[i] with
    | none => simp [hget] at hany
    | some lease =>
      have hmatch : lease.mac = mac ∧ lease.ip = address := by simpa [hget] using hany
      refine ⟨lease, ?_, hmatch.1, hmatch.2, ?_⟩
      · rw [DhcpServer.slot, List.getElem?_eq_getElem hi, hget]
        rfl
      · dsimp only
        split <;> rfl

theorem releaseClientAddress_tied (h : Tied dhcp pool) (now : Nat) (mac : MacAddr)
    (address : Nat) (quarantine : Bool) :
    Tied (dhcp.releaseClientAddress pool now mac address quarantine).1
        (dhcp.releaseClientAddress pool now mac address quarantine).2 ∧
      Touches (leaseKey mac) pool (dhcp.releaseClientAddress pool now mac address quarantine).2 := by
  rcases releaseClientAddress_cases dhcp pool now mac address quarantine with
    ⟨_, heq⟩ | ⟨i, lease, hslot, rfl, rfl, heq⟩
  · rw [heq]
    exact ⟨h, .refl h.valid _⟩
  · rw [heq]
    generalize hpool' : (if pool.getIpByUsername (leaseKey lease.mac) = some lease.ip
      then pool.release (leaseKey lease.mac) else pool) = pool'
    have hpool : Touches (leaseKey lease.mac) pool pool' ∧
        pool'.getIpByUsername (leaseKey lease.mac) = none := by
      subst hpool'
      split
      · exact release_touches h.valid _
      · next hstale => exact ⟨.refl h.valid _, h.unheld_of_stale hslot hstale⟩
    obtain ⟨htied, _⟩ := h.clearSlot hslot hpool.1 hpool.2
    refine ⟨⟨htied.valid, ⟨htied.table.size, htied.table.address, htied.table.unique, ?_⟩,
      htied.backed, htied.ipv4Only⟩, hpool.1⟩
    intro j lease' hj
    have hclear : dhcp.declined.get? lease'.ip = none := htied.table.clear hj
    dsimp only
    split
    · -- The slot of the quarantined address is the one that was emptied.
      rw [KeyMap.get?_insert, if_neg, hclear]
      intro heq
      have haddr := h.table.address hslot
      have haddr' : lease'.ip = dhcp.poolStart + j := htied.table.address hj
      have hij : j = i := by omega
      have hempty : (dhcp.setSlot i none).slot j = some lease' := hj
      rw [Table.slot_setSlot (Table.slot_lt hslot), if_pos hij] at hempty
      cases hempty
    · exact hclear

/-! ## What stays as it is -/

variable (dhcp pool)

theorem reuseLease_leases (call : AllocateIp) :
    ∃ leases, (dhcp.reuseLease pool call).1 = { dhcp with leases } := by
  unfold DhcpServer.reuseLease
  split
  · exact ⟨_, rfl⟩
  · split
    · split <;> exact ⟨_, rfl⟩
    · exact ⟨_, rfl⟩

theorem tryPreferred_leases (call : AllocateIp) :
    ∃ leases, (dhcp.tryPreferred pool call).1 = { dhcp with leases } := by
  unfold DhcpServer.tryPreferred
  split
  · exact ⟨_, rfl⟩
  · dsimp only
    split
    · split <;> exact ⟨_, rfl⟩
    · exact ⟨_, rfl⟩

theorem fallBack_leases (call : AllocateIp) :
    ∃ leases, (dhcp.fallBack pool call).1 = { dhcp with leases } := by
  unfold DhcpServer.fallBack
  split
  · dsimp only
    split <;> exact ⟨_, rfl⟩
  · exact ⟨_, rfl⟩

theorem releaseClientAddress_leases (now : Nat) (mac : MacAddr) (address : Nat)
    (quarantine : Bool) : ∃ leases declined,
    (dhcp.releaseClientAddress pool now mac address quarantine).1 =
      { dhcp with leases, declined } := by
  rcases releaseClientAddress_cases dhcp pool now mac address quarantine with
    ⟨_, heq⟩ | ⟨i, lease, _, _, _, heq⟩
  · exact ⟨_, _, by rw [heq]⟩
  · exact ⟨_, _, by rw [heq]; rfl⟩

end Qeli.Dhcp
