import Qeli.Dhcp.Shared

/-!
# What a client gets from the DHCP server

A REQUEST is granted the address it names or nothing, and then the pool has nothing new for
the client. A DISCOVER may renew a live lease but never shortens it. RELEASE and DECLINE act
on the client's own lease of the address they name; a declined address stays in the
quarantine, and away from all clients, until its time is over.
-/

namespace Qeli.Dhcp

open Lib Pool

/-- The address a REQUEST names: option 50, or else the address the client has. -/
def Message.named (self : Message) : Option Nat :=
  self.requestedIp.or (if self.ciaddr ≠ 0 then some self.ciaddr else none)

variable {message : Message} {dhcp : DhcpServer} {now address expiresAt : Nat} {call : AllocateIp}
  {events : List Event}

theorem Message.allocateIp_cases (h : message.allocateIp dhcp now = some call) :
    message.type = .discover ∧ call = ⟨message.mac, now, message.requestedIp, true, true⟩ ∨
      message.type = .request ∧ call = ⟨message.mac, now, message.named, false, false⟩ := by
  unfold Message.allocateIp at h
  split at h
  · next htype => exact .inl ⟨htype, (Option.some.inj h).symm⟩
  · next htype =>
    split at h
    · cases h
    · exact .inr ⟨htype, (Option.some.inj h).symm⟩
  · cases h
  · cases h

/-! ## What the sections return -/

section Sections

variable {dhcp : DhcpServer} {pool : IpPool} {call : AllocateIp}

/-- An exact call is never given another address than the one it names. -/
theorem reuseLease_exact (hexact : call.allowFallback = false) {ip : Nat}
    (h : (dhcp.reuseLease pool call).2 = .returns (some ip)) : call.preferred = some ip := by
  unfold DhcpServer.reuseLease at h
  split at h
  · cases h
  · split at h
    · split at h
      · cases h
      · next hnamed =>
        cases h
        simpa [hexact] using hnamed
    · cases h

theorem tryPreferred_cases (hvalid : pool.Valid) :
    (∃ ip, (dhcp.tryPreferred pool call).2.2 = .returns (some ip) ∧ call.preferred = some ip) ∨
      dhcp.tryPreferred pool call =
        (dhcp, pool, if call.allowFallback then .goesOn else .returns none) := by
  unfold DhcpServer.tryPreferred
  split
  · exact .inr rfl
  · next pref hpref =>
    dsimp only
    split
    · split
      · exact .inl ⟨pref, rfl, hpref⟩
      · next pool' heq =>
        have hsame := (IpPool.allocateFixedUnclaimed_result hvalid.ipv4 heq).2 rfl
        exact .inr (by rw [hsame])
    · exact .inr rfl

theorem fallBack_refused (h : Tied dhcp pool) (hnone : (dhcp.fallBack pool call).2.2 = none) :
    (dhcp.fallBack pool call).2.1.getIpByUsername (leaseKey call.mac) = none := by
  have hstep := @IpPool.allocateInRangeExcluding_step pool (leaseKey call.mac) h.valid.ipv4
    dhcp.poolStart dhcp.poolEnd dhcp.quarantined fun _ => False
  unfold DhcpServer.fallBack at hnone ⊢
  split
  · next pool' ip heq =>
    rw [heq] at hnone hstep
    dsimp only at hnone ⊢
    split
    · next hidx =>
      rw [if_pos hidx] at hnone
      cases hnone
    · exact (release_touches (Touches.of_step h.valid hstep).valid _).2
  · next pool' heq => exact (IpPool.allocateInRangeExcluding_result h.valid.ipv4 heq).1

theorem activeSlot_of_live (h : Table dhcp) {i now : Nat} {lease : DhcpLease}
    (hslot : dhcp.slot i = some lease) (hlive : now < lease.expiresAt) :
    dhcp.activeSlot lease.mac now = some (i, lease) := by
  cases hactive : dhcp.activeSlot lease.mac now with
  | none =>
    have := activeSlot_none hactive hslot rfl
    omega
  | some found =>
    obtain ⟨j, lease'⟩ := found
    obtain ⟨hj, hmac⟩ := activeSlot_some hactive
    have hij := h.unique hj hslot hmac
    subst hij
    rw [hslot] at hj
    cases hj
    rfl

end Sections

/-! ## What an event does to a client's entry in the pool -/

variable {s : Shared}

/-- Where the pending call comes from, and how far it may go. -/
structure Pending (s : Shared) : Prop where
  /-- The call is that of a DISCOVER or a REQUEST. -/
  asked : ∀ {call}, s.stage.call? = some call →
    ∃ (message : Message) (now : Nat), message.allocateIp s.dhcp now = some call
  /-- A call that falls back is allowed to. -/
  falls : ∀ {call}, s.stage = .tried call → call.allowFallback = true

theorem allocateIp_congr {dhcp' : DhcpServer} (h : dhcp'.serverIp = dhcp.serverIp)
    (message : Message) (now : Nat) :
    message.allocateIp dhcp' now = message.allocateIp dhcp now := by
  unfold Message.allocateIp
  rw [h]

theorem step_serverIp (s : Shared) (e : Event) : (s.step e).dhcp.serverIp = s.dhcp.serverIp := by
  obtain ⟨leases, declined, heq⟩ := step_leases s e
  rw [heq]

theorem proceed_stage (h : Inv s) :
    (∀ {call}, s.proceed.1.stage.call? = some call → s.stage.call? = some call) ∧
      ∀ {call}, s.proceed.1.stage = .tried call → call.allowFallback = true := by
  unfold Shared.proceed
  cases hstage : s.stage with
  | idle => exact ⟨by rw [hstage]; exact id, by rw [hstage]; rintro call ⟨⟩⟩
  | reaped call' =>
    dsimp only
    cases (s.dhcp.reuseLease s.pool call').2 with
    | returns result => exact ⟨by rintro call ⟨⟩, by rintro call ⟨⟩⟩
    | goesOn => exact ⟨id, by rintro call ⟨⟩⟩
  | checked call' =>
    have hcases := @tryPreferred_cases s.dhcp s.pool call' h.tied.valid
    dsimp only
    cases houtcome : (s.dhcp.tryPreferred s.pool call').2.2 with
    | returns result => exact ⟨by rintro call ⟨⟩, by rintro call ⟨⟩⟩
    | goesOn =>
      refine ⟨id, ?_⟩
      rintro call ⟨⟩
      rcases hcases with ⟨ip, hreturns, _⟩ | hsame
      · rw [houtcome] at hreturns
        cases hreturns
      · rw [hsame] at houtcome
        by_contra hexact
        simp [hexact] at houtcome
  | tried call' => exact ⟨by rintro call ⟨⟩, by rintro call ⟨⟩⟩

theorem step_pending (h : Inv s) (hp : Pending s) (e : Event) : Pending (s.step e) := by
  have hserver := allocateIp_congr (step_serverIp s e)
  have hold : ∀ {call}, s.stage.call? = some call →
      ∃ (message : Message) (now : Nat), message.allocateIp (s.step e).dhcp now = some call := by
    intro call hcall
    obtain ⟨message, now, heq⟩ := hp.asked hcall
    exact ⟨message, now, (hserver message now).trans heq⟩
  -- Away from `proceed`, the stage stays or a call begins.
  have hstage : e = .proceed ∨ (s.step e).stage = s.stage ∨ (s.step e).stage = .idle ∨
      ∃ now message call, e = .packet now message ∧ message.allocateIp s.dhcp now = some call ∧
        (s.step e).stage = .reaped call := by
    cases e with
    | vpn call => exact .inr (.inl rfl)
    | proceed => exact .inl rfl
    | reap now =>
      simp only [Shared.step]
      split
      · exact .inr (.inr (.inl rfl))
      · exact .inr (.inl rfl)
    | packet now message =>
      simp only [Shared.step]
      split
      · split
        · next call hcall => exact .inr (.inr (.inr ⟨now, message, call, rfl, hcall, rfl⟩))
        · exact .inr (.inr (.inl rfl))
        · exact .inr (.inl rfl)
      · exact .inr (.inl rfl)
  rcases hstage with rfl | hsame | hidle | ⟨now, message, call', rfl, hcall', hreaped⟩
  · obtain ⟨hkept, hfalls⟩ := proceed_stage h
    exact ⟨fun hcall => hold (hkept hcall), hfalls⟩
  · exact ⟨fun hcall => hold (hsame ▸ hcall), fun htried => hp.falls (hsame ▸ htried)⟩
  · refine ⟨fun hcall => ?_, fun htried => ?_⟩
    · rw [hidle] at hcall
      cases hcall
    · rw [hidle] at htried
      cases htried
  · refine ⟨fun hcall => ?_, fun htried => ?_⟩
    · rw [hreaped] at hcall
      cases hcall
      exact ⟨message, now, (hserver message now).trans hcall'⟩
    · rw [hreaped] at htried
      cases htried

theorem run_pending (h : Inv s) (hp : Pending s) (he : ∀ e ∈ events, e.Allowed) :
    Pending (s.run events) := by
  induction events generalizing s with
  | nil => exact hp
  | cons e events ih =>
    obtain ⟨hone, hrest⟩ := List.forall_mem_cons.mp he
    exact ih (step_inv h hone) (step_pending h hp e) hrest

theorem proceed_exact (h : Inv s) (hp : Pending s) (hcall : s.stage.call? = some call)
    (hexact : call.allowFallback = false) {ip : Nat} (hip : s.proceed.2 = some (some ip)) :
    call.preferred = some ip := by
  unfold Shared.proceed at hip
  cases hstage : s.stage with
  | idle => simp [hstage, Stage.call?] at hcall
  | reaped call' =>
    rw [hstage] at hcall hip
    cases hcall
    dsimp only at hip
    cases houtcome : (s.dhcp.reuseLease s.pool call).2 with
    | goesOn => simp [houtcome, Shared.finish] at hip
    | returns result =>
      simp only [houtcome, Shared.finish, Option.some.injEq] at hip
      exact reuseLease_exact hexact (hip ▸ houtcome)
  | checked call' =>
    rw [hstage] at hcall hip
    cases hcall
    dsimp only at hip
    rcases @tryPreferred_cases s.dhcp s.pool call h.tied.valid with ⟨ip', houtcome, hpref⟩ | hsame
    · simp only [houtcome, Shared.finish, Option.some.injEq] at hip
      rw [hpref, hip]
    · simp [hsame, hexact, Shared.finish] at hip
  | tried call' =>
    rw [hstage] at hcall
    cases hcall
    exact absurd (hp.falls hstage) (by simp [hexact])

theorem proceed_entry (h : Inv s) (hcall : s.stage.call? = some call) {a : Nat}
    (ha : s.proceed.1.pool.getIpByUsername (leaseKey call.mac) = some a) :
    s.pool.getIpByUsername (leaseKey call.mac) = some a ∨ s.proceed.2 = some (some a) := by
  have hgranted := (proceed_inv h hcall).2.2
  -- A call that returns an address has recorded it.
  have hreturned : ∀ ip, s.proceed.2 = some (some ip) → s.proceed.2 = some (some a) := by
    intro ip hip
    have hrecorded := (hgranted ip hip).recorded
    rw [ha] at hrecorded
    rw [hip, Option.some.inj hrecorded]
  unfold Shared.proceed at ha hreturned ⊢
  cases hstage : s.stage with
  | idle => simp [hstage, Stage.call?] at hcall
  | reaped call' =>
    rw [hstage] at ha
    dsimp only at ha
    generalize (s.dhcp.reuseLease s.pool call').1 = dhcp at ha
    cases houtcome : (s.dhcp.reuseLease s.pool call').2 <;> rw [houtcome] at ha <;> exact .inl ha
  | checked call' =>
    rw [hstage] at ha hcall hreturned
    cases hcall
    dsimp only at ha hreturned ⊢
    rcases @tryPreferred_cases s.dhcp s.pool call h.tied.valid with ⟨ip, houtcome, _⟩ | hsame
    · exact .inr (hreturned ip (by rw [houtcome]; rfl))
    · rw [hsame] at ha
      left
      cases hfallback : call.allowFallback <;> simpa [hfallback, Shared.finish] using ha
  | tried call' =>
    rw [hstage] at ha hcall hreturned
    cases hcall
    dsimp only at ha hreturned ⊢
    cases hresult : (s.dhcp.fallBack s.pool call).2.2 with
    | some ip => exact .inr (hresult ▸ hreturned ip (by rw [hresult]; rfl))
    | none => exact absurd (ha.symm.trans (fallBack_refused h.tied hresult)) (by simp)

/-- **A client's entry appears in the pool** only when its own call returns the address. -/
theorem step_entry (h : Inv s) {e : Event} (he : e.Allowed) {mac : MacAddr} {a : Nat}
    (ha : (s.step e).pool.getIpByUsername (leaseKey mac) = some a) :
    s.pool.getIpByUsername (leaseKey mac) = some a ∨
      e = .proceed ∧ ∃ call, s.stage.call? = some call ∧ call.mac = mac ∧
        s.proceed.2 = some (some a) := by
  -- Everything else keeps the entry or removes it.
  have hless : ∀ {pool : IpPool}, (pool.getIpByUsername (leaseKey mac) =
        s.pool.getIpByUsername (leaseKey mac) ∨ pool.getIpByUsername (leaseKey mac) = none) →
      pool.getIpByUsername (leaseKey mac) = some a →
      s.pool.getIpByUsername (leaseKey mac) = some a := by
    rintro pool (heq | hnone) ha
    · exact heq ▸ ha
    · rw [hnone] at ha
      cases ha
  have hreap := fun now => ((reap_tied h.tied now).2.1 (leaseKey mac)).imp_right And.right
  cases e with
  | vpn call => exact .inl (hless (vpn_call h.tied.valid he mac).1 ha)
  | reap now =>
    simp only [Shared.step] at ha
    split at ha
    · exact .inl (hless (hreap now) ha)
    · exact .inl ha
  | packet now message =>
    simp only [Shared.step] at ha
    split at ha
    · split at ha
      · next call _ => exact .inl (hless (hreap call.now) ha)
      · next address quarantine _ _ =>
        refine .inl (hless ?_ ha)
        by_cases hmac : mac = message.mac
        · subst hmac
          rcases releaseClientAddress_cases s.dhcp s.pool now message.mac address quarantine with
            ⟨_, heq⟩ | ⟨i, lease, _, _, _, heq⟩
          · exact .inl (by rw [heq])
          · rw [heq]
            dsimp only
            split
            · exact .inr (release_touches h.tied.valid _).2
            · exact .inl rfl
        · have htouch := (releaseClientAddress_tied h.tied now message.mac address quarantine).2
          exact .inl (htouch.ipv4 _ fun heq => hmac (leaseKey_inj heq))
      · exact .inl ha
    · exact .inl ha
  | proceed =>
    cases hcall : s.stage.call? with
    | none =>
      have hsame : s.step .proceed = s := congrArg Prod.fst (proceed_idle hcall)
      exact .inl (hsame ▸ ha)
    | some call =>
      by_cases hmac : call.mac = mac
      · subst hmac
        exact (proceed_entry h hcall ha).imp_right fun hret => ⟨rfl, call, rfl, rfl, hret⟩
      · have htouch := (proceed_inv h hcall).2.1
        exact .inl ((htouch.ipv4 _ fun heq => hmac (leaseKey_inj heq).symm) ▸ ha)

/-! ## Live leases -/

/-- The table has the lease, and the pool agrees. -/
structure Live (s : Shared) (lease : DhcpLease) : Prop where
  slot : ∃ i, s.dhcp.slot i = some lease
  recorded : s.pool.getIpByUsername (leaseKey lease.mac) = some lease.ip

theorem proceed_live (h : Inv s) (hcall : s.stage.call? = some call)
    (hoffer : call.offerOnly = true) {lease : DhcpLease} (hlive : Live s lease)
    (hmac : lease.mac = call.mac) :
    ∃ expiresAt, lease.expiresAt ≤ expiresAt ∧ Live s.proceed.1 { lease with expiresAt } := by
  obtain ⟨i, hslot⟩ := hlive.slot
  have hready := h.ready
  cases hstage : s.stage with
  | idle => simp [hstage, Stage.call?] at hcall
  | reaped call' =>
    rw [hstage] at hcall hready
    cases hcall
    have hactive := activeSlot_of_live h.tied.table hslot (hready hslot)
    have hheld : s.pool.getIpByUsername (leaseKey call.mac) = some lease.ip :=
      hmac ▸ hlive.recorded
    rw [hmac] at hactive
    by_cases hother : (!call.allowFallback) = true ∧ call.preferred ≠ some lease.ip
    · have hreuse : s.dhcp.reuseLease s.pool call = (s.dhcp, .returns none) := by
        simp only [DhcpServer.reuseLease, hactive, if_pos hheld, if_pos hother]
      refine ⟨lease.expiresAt, le_rfl, ?_⟩
      simp only [Shared.proceed, hstage, hreuse, Shared.finish]
      exact ⟨⟨i, hslot⟩, hlive.recorded⟩
    · have hreuse : s.dhcp.reuseLease s.pool call =
          (s.dhcp.setSlot i (some { lease with
              expiresAt := max lease.expiresAt (s.dhcp.requestedExpiry call) }),
            .returns (some lease.ip)) := by
        simp only [DhcpServer.reuseLease, hactive, if_pos hheld, if_neg hother, if_pos hoffer]
      refine ⟨max lease.expiresAt (s.dhcp.requestedExpiry call), le_max_left .., ?_⟩
      simp only [Shared.proceed, hstage, hreuse, Shared.finish]
      refine ⟨⟨i, ?_⟩, hlive.recorded⟩
      rw [Table.slot_setSlot (Table.slot_lt hslot), if_pos rfl]
  | checked call' | tried call' =>
    rw [hstage] at hcall hready
    cases hcall
    exact absurd hmac (hready hslot)

/-- The packet that starts an offer reaps no lease that has not expired. -/
theorem packet_live (h : Inv s) (hoffer : message.type = .discover) {lease : DhcpLease}
    (hlive : Live s lease) (hnow : now < lease.expiresAt) :
    Live (s.step (.packet now message)) lease := by
  obtain ⟨i, hslot⟩ := hlive.slot
  have hcall : message.allocateIp s.dhcp now =
      some ⟨message.mac, now, message.requestedIp, true, true⟩ := by
    simp only [Message.allocateIp, hoffer]
  simp only [Shared.step, hcall]
  split
  · refine ⟨⟨i, (slot_reap_eq_some s.dhcp s.pool now).mpr ⟨hslot, hnow⟩⟩, ?_⟩
    rcases (reap_tied h.tied now).2.1 (leaseKey lease.mac) with heq | ⟨hlapsed, _⟩
    · exact heq.trans hlive.recorded
    · -- The client has one slot, and it has not expired.
      obtain ⟨j, lease', hj, hexp, hkey⟩ := hlapsed
      have hij := h.tied.table.unique hj hslot (leaseKey_inj hkey).symm
      rw [hij, hslot] at hj
      cases hj
      omega
  · exact hlive

/-! ## Refused calls -/

/-- Without a packet no call begins, so the pending one has been pending, and has not
returned. -/
theorem step_waiting {e : Event} (he : ∀ now message, e ≠ .packet now message)
    (h : (s.step e).stage.call? = some call) :
    s.stage.call? = some call ∧ (e = .proceed → s.proceed.2 = none) := by
  cases e with
  | vpn c => exact ⟨h, by rintro ⟨⟩⟩
  | packet now message => exact absurd rfl (he now message)
  | reap now =>
    refine ⟨?_, by rintro ⟨⟩⟩
    simp only [Shared.step] at h
    split at h
    · cases h
    · exact h
  | proceed =>
    simp only [Shared.step, Shared.proceed] at h ⊢
    cases hstage : s.stage with
    | idle =>
      rw [hstage] at h
      simp [hstage, Stage.call?] at h
    | reaped call' =>
      rw [hstage] at h
      dsimp only at h ⊢
      cases houtcome : (s.dhcp.reuseLease s.pool call').2 <;> rw [houtcome] at h
      · cases h
      · exact ⟨h, fun _ => rfl⟩
    | checked call' =>
      rw [hstage] at h
      dsimp only at h ⊢
      cases houtcome : (s.dhcp.tryPreferred s.pool call').2.2 <;> rw [houtcome] at h
      · cases h
      · exact ⟨h, fun _ => rfl⟩
    | tried call' =>
      rw [hstage] at h
      cases h

/-- While a call is pending, nothing appears in the pool under a DHCP key. -/
theorem run_waiting (h : Inv s)
    (he : ∀ e ∈ events, e.Allowed ∧ ∀ now message, e ≠ .packet now message)
    (hcall : (s.run events).stage.call? = some call) :
    s.stage.call? = some call ∧ ∀ mac a,
      (s.run events).pool.getIpByUsername (leaseKey mac) = some a →
      s.pool.getIpByUsername (leaseKey mac) = some a := by
  induction events generalizing s with
  | nil => exact ⟨hcall, fun _ _ => id⟩
  | cons e events ih =>
    obtain ⟨⟨hallowed, hpacket⟩, hrest⟩ := List.forall_mem_cons.mp he
    obtain ⟨hnext, hentry⟩ := ih (step_inv h hallowed) hrest hcall
    obtain ⟨hpending, hreturned⟩ := step_waiting hpacket hnext
    refine ⟨hpending, fun mac a ha => ?_⟩
    rcases step_entry h hallowed (hentry mac a ha) with hheld | ⟨hproceed, _, _, _, hret⟩
    · exact hheld
    · rw [hreturned hproceed] at hret
      cases hret

/-- **A refused call allocates nothing**, whatever the VPN does before the refusal. -/
theorem refused_entry (h : Inv s) (now : Nat) (message : Message) {middle : List Event}
    (he : ∀ e ∈ middle, e.Allowed ∧ ∀ now message, e ≠ .packet now message)
    (hcall : ((s.step (.packet now message)).run middle).stage.call? = some call)
    (hrefused : ((s.step (.packet now message)).run middle).proceed.2 = some none) {mac : MacAddr}
    {a : Nat}
    (ha : ((s.step (.packet now message)).run middle).proceed.1.pool.getIpByUsername
      (leaseKey mac) = some a) :
    s.pool.getIpByUsername (leaseKey mac) = some a := by
  have hstart : Inv (s.step (.packet now message)) := step_inv h trivial
  have hbefore := run_inv hstart fun e hmem => (he e hmem).1
  rcases @step_entry _ hbefore .proceed trivial mac a ha with hheld | ⟨_, _, _, _, hret⟩
  · rcases @step_entry _ h (.packet now message) trivial mac a
        ((run_waiting hstart he hcall).2 mac a hheld) with hheld | ⟨hproceed, _⟩
    · exact hheld
    · cases hproceed
  · rw [hrefused] at hret
    cases hret

/-! ## RELEASE and DECLINE -/

/-- What the release of an address by a client may change: the one slot with both, the
client's own entry in the pool if it is that address, and the quarantine of the address. -/
structure Releases (mac : MacAddr) (address : Nat) (s s' : Shared) : Prop where
  unowned : (∀ i lease, s.dhcp.slot i = some lease → lease.mac = mac → lease.ip ≠ address) → s' = s
  slots : ∀ j lease, s.dhcp.slot j = some lease → ¬(lease.mac = mac ∧ lease.ip = address) →
    s'.dhcp.slot j = some lease
  entries : ∀ key ≠ leaseKey mac, s'.pool.getIpByUsername key = s.pool.getIpByUsername key
  entry : s.pool.getIpByUsername (leaseKey mac) ≠ some address → s'.pool = s.pool
  declined : ∀ a ≠ address, s'.dhcp.declined.get? a = s.dhcp.declined.get? a

theorem releases_allocateIp {release : Nat × Bool} (h : message.releases dhcp = some release) :
    message.allocateIp dhcp now = none := by
  unfold Message.releases at h
  unfold Message.allocateIp
  split at h
  · cases h
  · cases htype : message.type <;> simp [htype] at h ⊢

theorem step_releases {quarantine : Bool} (hidle : s.stage = .idle)
    (hrel : message.releases s.dhcp = some (address, quarantine)) :
    s.step (.packet now message) =
      ⟨(s.dhcp.releaseClientAddress s.pool now message.mac address quarantine).1,
        (s.dhcp.releaseClientAddress s.pool now message.mac address quarantine).2, .idle⟩ := by
  simp only [Shared.step, if_pos hidle, releases_allocateIp hrel, hrel]

theorem packet_releases (h : Inv s) {quarantine : Bool} (hidle : s.stage = .idle)
    (hrel : message.releases s.dhcp = some (address, quarantine)) :
    Releases message.mac address s (s.step (.packet now message)) := by
  have htouch := (releaseClientAddress_tied h.tied now message.mac address quarantine).2
  rw [step_releases hidle hrel]
  rcases releaseClientAddress_cases s.dhcp s.pool now message.mac address quarantine with
    ⟨_, heq⟩ | ⟨i, lease, hslot, hmac, hip, heq⟩
  · have hsame : (⟨s.dhcp, s.pool, .idle⟩ : Shared) = s := by rw [← hidle]
    rw [heq, hsame]
    exact ⟨fun _ => rfl, fun _ _ hj _ => hj, fun _ _ => rfl, fun _ => rfl, fun _ _ => rfl⟩
  · rw [heq] at htouch ⊢
    refine ⟨fun hnone => absurd hip (hnone i lease hslot hmac), fun j lease' hj hother => ?_,
      htouch.ipv4, fun hentry => if_neg hentry, fun a ha => ?_⟩
    · show (s.dhcp.setSlot i none).slot j = some lease'
      rw [Table.slot_setSlot (Table.slot_lt hslot), if_neg, hj]
      rintro rfl
      rw [hslot] at hj
      cases hj
      exact hother ⟨hmac, hip⟩
    · dsimp only
      split
      · rw [KeyMap.get?_insert_ne _ _ ha]
      · rfl

/-! ## The quarantine -/

theorem step_declined (h : Inv s) {e : Event} (hq : s.dhcp.declined.get? address = some expiresAt)
    (hnow : ∀ now, e.now = some now → now < expiresAt) :
    (s.step e).dhcp.declined.get? address = some expiresAt := by
  have hreap : ∀ {now stage}, e.now = some now →
      (s.reap now stage).dhcp.declined.get? address = some expiresAt := by
    intro now stage heq
    show (s.dhcp.declined.retain _).get? address = some expiresAt
    rw [KeyMap.get?_retain, hq]
    simp [hnow now heq]
  cases e with
  | vpn call => exact hq
  | reap now =>
    simp only [Shared.step]
    split
    · exact hreap rfl
    · exact hq
  | packet now message =>
    simp only [Shared.step]
    split
    · split
      · next call hcall =>
        rw [allocateIp_now hcall]
        exact hreap rfl
      · next address' quarantine _ _ =>
        rcases releaseClientAddress_cases s.dhcp s.pool now message.mac address' quarantine with
          ⟨_, heq⟩ | ⟨i, lease, hslot, _, rfl, heq⟩
        · rw [heq]
          exact hq
        · -- No lease is on a quarantined address.
          have hne : address ≠ lease.ip := by
            rintro rfl
            rw [h.tied.table.clear hslot] at hq
            cases hq
          rw [heq]
          dsimp only
          split
          · rw [KeyMap.get?_insert_ne _ _ hne, hq]
          · exact hq
      · exact hq
    · exact hq
  | proceed =>
    obtain ⟨leases, heq⟩ := proceed_leases s
    show s.proceed.1.dhcp.declined.get? address = some expiresAt
    rw [heq]
    exact hq

theorem run_declined (h : Inv s) (he : ∀ e ∈ events, e.Allowed)
    (hq : s.dhcp.declined.get? address = some expiresAt)
    (hnow : ∀ e ∈ events, ∀ now, e.now = some now → now < expiresAt) :
    (s.run events).dhcp.declined.get? address = some expiresAt := by
  induction events generalizing s with
  | nil => exact hq
  | cons e events ih =>
    obtain ⟨hone, hrest⟩ := List.forall_mem_cons.mp he
    obtain ⟨hfirst, hlater⟩ := List.forall_mem_cons.mp hnow
    exact ih (step_inv h hone) hrest (step_declined h hq hfirst) hlater

theorem proceed_declined (h : Inv s) (hq : s.dhcp.declined.get? address = some expiresAt) :
    s.proceed.2 ≠ some (some address) := by
  intro hip
  cases hcall : s.stage.call? with
  | none =>
    rw [proceed_idle hcall] at hip
    cases hip
  | some call =>
    obtain ⟨leases, heq⟩ := proceed_leases s
    have hclear := ((proceed_inv h hcall).2.2 address hip).clear
    rw [heq] at hclear
    exact absurd (hq.symm.trans hclear) (by simp)

theorem packet_declines {now address : Nat} {message : Message} {quarantine : Bool}
    (hidle : s.stage = .idle) (htype : message.type = .decline)
    (hrel : message.releases s.dhcp = some (address, quarantine))
    (howned : ∃ i lease,
      s.dhcp.slot i = some lease ∧ lease.mac = message.mac ∧ lease.ip = address) :
    (s.step (.packet now message)).dhcp.declined.get? address =
      some (saturatingAdd u64Max now DhcpServer.declineQuarantineSecs) := by
  have hquarantine : quarantine = true := by
    simp only [Message.releases, htype] at hrel
    split at hrel
    · cases hrel
    · obtain ⟨_, _, heq⟩ := Option.map_eq_some_iff.mp hrel
      exact (Prod.mk.inj heq).2.symm
  rw [step_releases hidle hrel]
  rcases releaseClientAddress_cases s.dhcp s.pool now message.mac address quarantine with
    ⟨hnone, _⟩ | ⟨_, _, _, _, _, heq⟩
  · obtain ⟨i, lease, hslot, hmac, hip⟩ := howned
    exact absurd hip (hnone i lease hslot hmac)
  · rw [heq]
    dsimp only
    rw [if_pos hquarantine, KeyMap.get?_insert_self]

/-! ## Exact leases -/

/-- The leases of the DHCP server are exact, and offers do not shorten them. -/
structure LeasesExact (s : Shared) : Prop where
  /-- Each pending call is that of a message. -/
  asked : ∀ call, s.stage.call? = some call →
    ∃ (message : Message) (now : Nat), message.allocateIp s.dhcp now = some call
  /-- A REQUEST is granted only the address it names. -/
  request : ∀ call (message : Message) now ip, s.stage.call? = some call →
    message.allocateIp s.dhcp now = some call → message.type = .request →
    s.proceed.2 = some (some ip) → message.named = some ip
  /-- A client has a new entry in the pool only when its own call returns the address. -/
  appears : ∀ e : Event, e.Allowed → ∀ mac a,
    (s.step e).pool.getIpByUsername (leaseKey mac) = some a →
    s.pool.getIpByUsername (leaseKey mac) = some a ∨
      e = .proceed ∧ ∃ call, s.stage.call? = some call ∧ call.mac = mac ∧
        s.proceed.2 = some (some a)
  /-- So a call that is refused leaves no entry that was not there before its packet. -/
  refused : ∀ now message middle call,
    (∀ e ∈ middle, e.Allowed ∧ ∀ now message, e ≠ .packet now message) →
    ((s.step (.packet now message)).run middle).stage.call? = some call →
    ((s.step (.packet now message)).run middle).proceed.2 = some none → ∀ mac a,
    ((s.step (.packet now message)).run middle).proceed.1.pool.getIpByUsername (leaseKey mac) =
      some a → s.pool.getIpByUsername (leaseKey mac) = some a
  /-- A DISCOVER that arrives before the client's lease expires leaves it alone, -/
  discovered : ∀ now (message : Message) lease, message.type = .discover → Live s lease →
    now < lease.expiresAt → Live (s.step (.packet now message)) lease
  /-- and its call does not lower the expiry. -/
  offered : ∀ call (message : Message) now lease, s.stage.call? = some call →
    message.allocateIp s.dhcp now = some call → message.type = .discover → Live s lease →
    lease.mac = message.mac →
    ∃ expiresAt, lease.expiresAt ≤ expiresAt ∧ Live s.proceed.1 { lease with expiresAt }
  /-- RELEASE and DECLINE act on the lease with both the client and the address. -/
  releases : ∀ now (message : Message) address quarantine, s.stage = .idle →
    message.releases s.dhcp = some (address, quarantine) →
    Releases message.mac address s (s.step (.packet now message))
  /-- After a DECLINE no call returns the address before the quarantine is over. -/
  quarantined : ∀ now (message : Message) address quarantine later, s.stage = .idle →
    message.type = .decline → message.releases s.dhcp = some (address, quarantine) →
    (∃ i lease, s.dhcp.slot i = some lease ∧ lease.mac = message.mac ∧ lease.ip = address) →
    (∀ e ∈ later, e.Allowed) →
    (∀ e ∈ later, ∀ now', e.now = some now' →
      now' < saturatingAdd u64Max now DhcpServer.declineQuarantineSecs) →
    ((s.step (.packet now message)).run later).proceed.2 ≠ some (some address)
  /-- A table without leases leaves no DHCP key in the pool, -/
  emptied : (∀ i, s.dhcp.slot i = none) → ∀ mac,
    s.pool.getIpByUsername (leaseKey mac) = none ∧ s.pool.getIpv6ByUsername (leaseKey mac) = none
  /-- and reaping leaves none when all leases have expired. -/
  reaped : ∀ now, s.stage = .idle →
    (∀ i lease, s.dhcp.slot i = some lease → lease.expiresAt ≤ now) → ∀ mac,
    (s.step (.reap now)).pool.getIpByUsername (leaseKey mac) = none ∧
      (s.step (.reap now)).pool.getIpv6ByUsername (leaseKey mac) = none

theorem Inv.emptied (h : Inv s) (hempty : ∀ i, s.dhcp.slot i = none) (mac : MacAddr) :
    s.pool.getIpByUsername (leaseKey mac) = none ∧
      s.pool.getIpv6ByUsername (leaseKey mac) = none := by
  refine ⟨h.tied.unheld fun {i lease} hslot => ?_, h.tied.ipv4Only mac⟩
  rw [hempty i] at hslot
  cases hslot

theorem Inv.leasesExact (h : Inv s) (hp : Pending s) : LeasesExact s where
  asked _ hcall := hp.asked hcall
  request call message now ip hcall hasked htype hip := by
    rcases Message.allocateIp_cases hasked with ⟨hdiscover, _⟩ | ⟨_, rfl⟩
    · rw [htype] at hdiscover
      cases hdiscover
    · exact proceed_exact h hp hcall rfl hip
  appears _ he _ _ ha := step_entry h he ha
  refused now message _ _ he hcall hrefused _ _ ha :=
    refused_entry h now message he hcall hrefused ha
  discovered _ _ _ htype hlive hnow := packet_live h htype hlive hnow
  offered call message now lease hcall hasked htype hlive hmac := by
    rcases Message.allocateIp_cases hasked with ⟨_, rfl⟩ | ⟨hrequest, _⟩
    · exact proceed_live h hcall rfl hlive hmac
    · rw [htype] at hrequest
      cases hrequest
  releases _ _ _ _ hidle hrel := packet_releases h hidle hrel
  quarantined now message address quarantine later hidle htype hrel howned he hnow := by
    have hstart : Inv (s.step (.packet now message)) := step_inv h trivial
    have hq := @packet_declines s now address message quarantine hidle htype hrel howned
    exact proceed_declined (run_inv hstart he) (run_declined hstart he hq hnow)
  emptied := h.emptied
  reaped now hidle hall mac := by
    refine (step_inv h trivial : Inv (s.step (.reap now))).emptied (fun i => ?_) mac
    simp only [Shared.step, if_pos hidle]
    refine Option.eq_none_iff_forall_ne_some.mpr fun lease hslot => ?_
    obtain ⟨hold, hlive⟩ := (slot_reap_eq_some s.dhcp s.pool now).mp hslot
    have := hall i lease hold
    omega

theorem start_pending (serverIp leaseTimeSecs poolStart poolEnd : Nat) (pool : IpPool) :
    Pending (.start serverIp leaseTimeSecs poolStart poolEnd pool) :=
  ⟨by rintro call ⟨⟩, by rintro call ⟨⟩⟩

/-- **Leases are exact in every state that the server and the pool can reach.** -/
theorem dhcp_leases_exact {text : Text} {config : PoolConfig} {tunAddress : Nat}
    {ipv6 : Option (Ipv6PoolConfig × Nat)} {pool : IpPool}
    (hbuilt : IpPool.build text config tunAddress ipv6 = .ok pool)
    (serverIp leaseTimeSecs poolStart poolEnd : Nat) {events : List Event}
    (hevents : ∀ e ∈ events, e.Allowed) :
    LeasesExact ((Shared.start serverIp leaseTimeSecs poolStart poolEnd pool).run events) := by
  have hinv := start_inv hbuilt serverIp leaseTimeSecs poolStart poolEnd
  exact (run_inv hinv hevents).leasesExact (run_pending hinv (start_pending ..) hevents)

/-! ## An address that is declined -/

/-- The laptop has been offered the second address of the window. -/
def afterOffer (pool : IpPool) : Shared :=
  (Shared.start officeTun 86400 0x0a090003 0x0a090006 pool).run (crossing ++ [.proceed])

def declines : Message := ⟨.decline, laptop, 0, some 0x0a090004, none⟩

/-- The laptop asks for the same address again; the next one is reserved for a user. -/
def asksAgain : List Event :=
  [.packet 600 ⟨.discover, laptop, 0, some 0x0a090004, none⟩, .proceed, .proceed]

theorem declines_returns : officePool.map (fun pool => ((afterOffer pool).stage,
    declines.releases (afterOffer pool).dhcp, (afterOffer pool).dhcp.slot 1,
    (((afterOffer pool).step (.packet 10 declines)).run asksAgain).proceed.2)) =
    .ok (.idle, some (0x0a090004, true), some ⟨0x0a090004, laptop, 35⟩,
      some (some 0x0a090006)) := by
  decide +kernel

theorem dhcp_leases_exact_declined : ∃ pool, officePool = .ok pool ∧ LeasesExact (afterOffer pool) ∧
    (((afterOffer pool).step (.packet 10 declines)).run asksAgain).proceed.2 ≠
      some (some 0x0a090004) := by
  have hreturns := declines_returns
  cases hpool : officePool with
  | error e =>
    rw [hpool] at hreturns
    cases hreturns
  | ok pool =>
    rw [hpool] at hreturns
    simp only [Except.map, Except.ok.injEq, Prod.mk.injEq] at hreturns
    obtain ⟨hidle, hreleases, hslot, _⟩ := hreturns
    have hallowed : ∀ e ∈ crossing ++ [.proceed], e.Allowed := by
      intro e he
      rcases List.mem_append.mp he with he | he
      · exact crossing_allowed e he
      · rw [List.mem_singleton.mp he]
        trivial
    have hexact : LeasesExact (afterOffer pool) :=
      dhcp_leases_exact hpool officeTun 86400 0x0a090003 0x0a090006 hallowed
    refine ⟨pool, rfl, hexact, hexact.quarantined 10 declines 0x0a090004 true asksAgain hidle rfl
      hreleases ⟨1, _, hslot, rfl, rfl⟩ ?_ ?_⟩
    · simp [asksAgain, Event.Allowed]
    · simp [asksAgain, Event.now, saturatingAdd, u64Max, DhcpServer.declineQuarantineSecs]

end Qeli.Dhcp
