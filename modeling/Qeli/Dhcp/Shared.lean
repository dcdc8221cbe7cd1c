import Qeli.Dhcp.Sections
import Qeli.Pool.Safety

/-!
# One pool for DHCP and the VPN

`Shared` is the DHCP server, the pool and the call of `allocate_ip` that is under way; an
event is a call of the VPN on the pool, a packet, a round of the reaper, or the next section
of the pending call. The events of the server come one at a time, those of the VPN at any
point between them.
-/

namespace Qeli.Dhcp

open Lib Pool

/-- Where the pending call of `allocate_ip` stands. -/
inductive Stage where
  | idle
  | reaped (call : AllocateIp)
  | checked (call : AllocateIp)
  | tried (call : AllocateIp)
  deriving DecidableEq

def Stage.call? : Stage → Option AllocateIp
  | idle => none
  | reaped call => some call
  | checked call => some call
  | tried call => some call

structure Shared where
  dhcp : DhcpServer
  pool : IpPool
  stage : Stage

inductive Event where
  | vpn (call : Call)
  | packet (now : Nat) (message : Message)
  | reap (now : Nat)
  | proceed

namespace Shared

/-- The stage after a section of `call`, and what the call returns if it does. -/
def finish (dhcp : DhcpServer) (pool : IpPool) (next : Stage) :
    DhcpServer.Outcome → Shared × Option (Option Nat)
  | .returns result => (⟨dhcp, pool, .idle⟩, some result)
  | .goesOn => (⟨dhcp, pool, next⟩, none)

/-- The next section of the pending call. -/
def proceed (self : Shared) : Shared × Option (Option Nat) :=
  match self.stage with
  | .idle => (self, none)
  | .reaped call =>
    let (dhcp, outcome) := self.dhcp.reuseLease self.pool call
    finish dhcp self.pool (.checked call) outcome
  | .checked call =>
    let (dhcp, pool, outcome) := self.dhcp.tryPreferred self.pool call
    finish dhcp pool (.tried call) outcome
  | .tried call =>
    let (dhcp, pool, result) := self.dhcp.fallBack self.pool call
    finish dhcp pool .idle (.returns result)

/-- The reaper runs, and the server is at `stage` afterwards. -/
def reap (self : Shared) (now : Nat) (stage : Stage) : Shared :=
  let (dhcp, pool, _) := self.dhcp.reapExpiredAt self.pool now
  ⟨dhcp, pool, stage⟩

/-- A packet or a round of the reaper waits while a call is pending. -/
def step (self : Shared) : Event → Shared
  | .vpn call => { self with pool := self.pool.call call }
  | .proceed => self.proceed.1
  | .reap now => if self.stage = .idle then self.reap now .idle else self
  | .packet now message =>
    if self.stage = .idle then
      match message.allocateIp self.dhcp now, message.releases self.dhcp with
      | some call, _ => self.reap call.now (.reaped call)
      | none, some (address, quarantine) =>
        let (dhcp, pool) :=
          self.dhcp.releaseClientAddress self.pool now message.mac address quarantine
        ⟨dhcp, pool, .idle⟩
      | none, none => self
    else self

def run (self : Shared) (events : List Event) : Shared := events.foldl step self

end Shared

/-! ## The invariant -/

/-- What the pending call has established. -/
def Stage.Ready (dhcp : DhcpServer) : Stage → Prop
  | idle => True
  | reaped call => ∀ {i lease}, dhcp.slot i = some lease → call.now < lease.expiresAt
  | checked call => NoSlot dhcp call.mac
  | tried call => NoSlot dhcp call.mac

structure Inv (s : Shared) : Prop where
  tied : Tied s.dhcp s.pool
  ready : s.stage.Ready s.dhcp

/-- The events that may happen: the VPN keeps to its own keys. -/
def Event.Allowed : Event → Prop
  | vpn call => VpnCall call
  | _ => True

/-- The client whose call or release an event carries out. -/
def Shared.client (s : Shared) : Event → Option MacAddr
  | .vpn _ => none
  | .reap _ => none
  | .packet _ message => some message.mac
  | .proceed => s.stage.call?.map (·.mac)

def Event.now : Event → Option Nat
  | vpn _ => none
  | reap now => some now
  | packet now _ => some now
  | proceed => none

variable {s : Shared}

theorem finish_inv {dhcp : DhcpServer} {pool pool' : IpPool} {next : Stage} {mac : MacAddr}
    {outcome : DhcpServer.Outcome} (htied : Tied dhcp pool') (hafter : After dhcp pool' mac outcome)
    (htouch : Touches (leaseKey mac) pool pool') (hnext : NoSlot dhcp mac → next.Ready dhcp) :
    Inv (Shared.finish dhcp pool' next outcome).1 ∧
      Touches (leaseKey mac) pool (Shared.finish dhcp pool' next outcome).1.pool ∧
      ∀ ip, (Shared.finish dhcp pool' next outcome).2 = some (some ip) →
        Granted (Shared.finish dhcp pool' next outcome).1.dhcp
          (Shared.finish dhcp pool' next outcome).1.pool mac ip := by
  cases outcome with
  | goesOn => exact ⟨⟨htied, hnext hafter⟩, htouch, by simp [Shared.finish]⟩
  | returns result =>
    refine ⟨⟨htied, trivial⟩, htouch, ?_⟩
    rintro ip ⟨⟩
    exact hafter

/-- The next section of the pending call keeps the invariant and leaves the leases of other
keys alone; an address that the call returns is the client's. -/
theorem proceed_inv (h : Inv s) {call : AllocateIp} (hcall : s.stage.call? = some call) :
    Inv s.proceed.1 ∧ Touches (leaseKey call.mac) s.pool s.proceed.1.pool ∧
      ∀ ip, s.proceed.2 = some (some ip) →
        Granted s.proceed.1.dhcp s.proceed.1.pool call.mac ip := by
  have hready := h.ready
  unfold Shared.proceed
  cases hstage : s.stage with
  | idle => simp [hstage, Stage.call?] at hcall
  | reaped call' =>
    rw [hstage] at hcall hready
    cases hcall
    obtain ⟨htied, hafter⟩ := reuseLease_tied h.tied hready
    exact finish_inv htied hafter (.refl h.tied.valid _) id
  | checked call' =>
    rw [hstage] at hcall hready
    cases hcall
    obtain ⟨htied, hafter, htouch⟩ := tryPreferred_tied h.tied hready
    exact finish_inv htied hafter htouch id
  | tried call' =>
    rw [hstage] at hcall hready
    cases hcall
    obtain ⟨htied, hafter, htouch⟩ := fallBack_tied h.tied hready
    exact finish_inv htied hafter htouch fun _ => trivial

theorem proceed_idle (h : s.stage.call? = none) : s.proceed = (s, none) := by
  unfold Shared.proceed
  cases hstage : s.stage with
  | idle => rfl
  | reaped call | checked call | tried call => simp [hstage, Stage.call?] at h

/-- **One event** keeps the invariant. -/
theorem step_inv (h : Inv s) {e : Event} (he : e.Allowed) : Inv (s.step e) := by
  cases e with
  | vpn call => exact ⟨h.tied.vpn he, h.ready⟩
  | reap now =>
    simp only [Shared.step]
    split
    · exact ⟨(reap_tied h.tied now).1, trivial⟩
    · exact h
  | packet now message =>
    simp only [Shared.step]
    split
    · split
      · next call _ =>
        exact ⟨(reap_tied h.tied call.now).1, fun hi =>
          ((slot_reap_eq_some s.dhcp s.pool call.now).mp hi).2⟩
      · exact ⟨(releaseClientAddress_tied h.tied now message.mac _ _).1, trivial⟩
      · exact h
    · exact h
  | proceed =>
    show Inv s.proceed.1
    cases hcall : s.stage.call? with
    | some call => exact (proceed_inv h hcall).1
    | none =>
      rw [proceed_idle hcall]
      exact h

theorem run_inv (h : Inv s) {events : List Event} (he : ∀ e ∈ events, e.Allowed) :
    Inv (s.run events) := by
  induction events generalizing s with
  | nil => exact h
  | cons e events ih =>
    obtain ⟨hone, hrest⟩ := List.forall_mem_cons.mp he
    exact ih (step_inv h hone) hrest

theorem allocateIp_now {message : Message} {dhcp : DhcpServer} {now : Nat} {call : AllocateIp}
    (h : message.allocateIp dhcp now = some call) : call.now = now := by
  unfold Message.allocateIp at h
  split at h
  · cases h
    rfl
  · split at h
    · cases h
    · cases h
      rfl
  · cases h
  · cases h

theorem proceed_leases (s : Shared) :
    ∃ leases, s.proceed.1.dhcp = { s.dhcp with leases } := by
  have hfinish : ∀ {dhcp pool next outcome}, (∃ leases, dhcp = { s.dhcp with leases }) →
      ∃ leases, (Shared.finish dhcp pool next outcome).1.dhcp = { s.dhcp with leases } := by
    intro dhcp pool next outcome hdhcp
    cases outcome <;> exact hdhcp
  unfold Shared.proceed
  split
  · exact ⟨_, rfl⟩
  · exact hfinish (reuseLease_leases ..)
  · exact hfinish (tryPreferred_leases ..)
  · exact hfinish (fallBack_leases ..)

theorem step_leases (s : Shared) (e : Event) :
    ∃ leases declined, (s.step e).dhcp = { s.dhcp with leases, declined } := by
  cases e with
  | vpn call => exact ⟨_, _, rfl⟩
  | reap now =>
    simp only [Shared.step]
    split <;> exact ⟨_, _, rfl⟩
  | packet now message =>
    simp only [Shared.step]
    split
    · split
      · exact ⟨_, _, rfl⟩
      · exact releaseClientAddress_leases s.dhcp s.pool now message.mac _ _
      · exact ⟨_, _, rfl⟩
    · exact ⟨_, _, rfl⟩
  | proceed =>
    obtain ⟨leases, heq⟩ := proceed_leases s
    exact ⟨leases, s.dhcp.declined, heq⟩

theorem step_window (s : Shared) (e : Event) : (s.step e).dhcp.window = s.dhcp.window := by
  obtain ⟨leases, declined, heq⟩ := step_leases s e
  rw [heq]
  rfl

theorem run_window (s : Shared) (events : List Event) :
    (s.run events).dhcp.window = s.dhcp.window := by
  induction events generalizing s with
  | nil => rfl
  | cons e events ih => exact (ih (s.step e)).trans (step_window s e)

/-- An event of the server leaves the leases of all keys alone but the client's own and
those of expired leases. -/
theorem step_others (h : Inv s) {e : Event} (he : ∀ call, e ≠ .vpn call) {key : String}
    (hkey : ∀ mac, s.client e = some mac → key ≠ leaseKey mac) :
    ((s.step e).pool.getIpByUsername key = s.pool.getIpByUsername key ∨
      ∃ now, e.now = some now ∧ Lapsed s.dhcp now key ∧
        (s.step e).pool.getIpByUsername key = none) ∧
    (s.step e).pool.getIpv6ByUsername key = s.pool.getIpv6ByUsername key := by
  have htouches : ∀ {mac pool}, s.client e = some mac → Touches (leaseKey mac) s.pool pool →
      (pool.getIpByUsername key = s.pool.getIpByUsername key ∨
        ∃ now, e.now = some now ∧ Lapsed s.dhcp now key ∧ pool.getIpByUsername key = none) ∧
      pool.getIpv6ByUsername key = s.pool.getIpv6ByUsername key := fun {mac pool} hmac ht =>
    ⟨.inl (ht.ipv4 key (hkey mac hmac)), ht.ipv6 key (h.tied.ipv4Only mac)⟩
  have hreap : ∀ {now}, e.now = some now → ∀ {stage},
      ((s.reap now stage).pool.getIpByUsername key = s.pool.getIpByUsername key ∨
        ∃ now', e.now = some now' ∧ Lapsed s.dhcp now' key ∧
          (s.reap now stage).pool.getIpByUsername key = none) ∧
      (s.reap now stage).pool.getIpv6ByUsername key = s.pool.getIpv6ByUsername key := by
    intro now hnow stage
    obtain ⟨_, hheld, hsix⟩ := reap_tied h.tied now
    exact ⟨(hheld key).imp_right fun hlapsed => ⟨now, hnow, hlapsed⟩, hsix key⟩
  cases e with
  | vpn call => exact absurd rfl (he call)
  | reap now =>
    simp only [Shared.step]
    split
    · exact hreap rfl
    · exact ⟨.inl rfl, rfl⟩
  | packet now message =>
    simp only [Shared.step]
    split
    · split
      · next call hcall =>
        rw [allocateIp_now hcall]
        exact hreap rfl
      · exact htouches rfl (releaseClientAddress_tied h.tied now message.mac _ _).2
      · exact ⟨.inl rfl, rfl⟩
    · exact ⟨.inl rfl, rfl⟩
  | proceed =>
    simp only [Shared.step]
    cases hcall : s.stage.call? with
    | some call =>
      exact htouches (by simp [Shared.client, hcall]) (proceed_inv h hcall).2.1
    | none =>
      rw [proceed_idle hcall]
      exact ⟨.inl rfl, rfl⟩

/-! ## An uninterrupted call -/

theorem allocateIp_tied {dhcp : DhcpServer} {pool : IpPool} (h : Tied dhcp pool)
    (call : AllocateIp) :
    Tied (dhcp.allocateIp pool call).1 (dhcp.allocateIp pool call).2.1 ∧
      After (dhcp.allocateIp pool call).1 (dhcp.allocateIp pool call).2.1 call.mac
        (.returns (dhcp.allocateIp pool call).2.2) := by
  unfold DhcpServer.allocateIp
  have hreap := (reap_tied h call.now).1
  have hlive : ∀ {i lease}, (dhcp.reapExpiredAt pool call.now).1.slot i = some lease →
      call.now < lease.expiresAt := fun hi => ((slot_reap_eq_some ..).mp hi).2
  generalize dhcp.reapExpiredAt pool call.now = reaped at hreap hlive
  obtain ⟨dhcp, pool, count⟩ := reaped
  dsimp only at hreap hlive ⊢
  have hreuse := reuseLease_tied hreap hlive
  split
  · next dhcp' result heq =>
    rw [heq] at hreuse
    exact hreuse
  · next dhcp' heq =>
    rw [heq] at hreuse
    have htry := tryPreferred_tied hreuse.1 hreuse.2
    split
    · next dhcp'' pool'' result heq' =>
      rw [heq'] at htry
      exact ⟨htry.1, htry.2.1⟩
    · next dhcp'' pool'' heq' =>
      rw [heq'] at htry
      have hfall := fallBack_tied htry.1 htry.2.1
      exact ⟨hfall.1, hfall.2.1⟩

/-! ## The two sides share the pool -/

/-- DHCP and the VPN share the pool without conflict. -/
structure Shares (s : Shared) : Prop where
  /-- An address that the pending call returns is the client's, in the records of the moment. -/
  granted : ∀ call ip, s.stage.call? = some call → s.proceed.2 = some (some ip) →
    Granted s.proceed.1.dhcp s.proceed.1.pool call.mac ip
  /-- So is one that a call from start to end returns. -/
  allocated : ∀ call ip, (s.dhcp.allocateIp s.pool call).2.2 = some ip →
    Granted (s.dhcp.allocateIp s.pool call).1 (s.dhcp.allocateIp s.pool call).2.1 call.mac ip
  /-- A client has at most one slot. -/
  oneSlot : ∀ i j lease lease', s.dhcp.slot i = some lease → s.dhcp.slot j = some lease' →
    lease.mac = lease'.mac → i = j
  /-- What is held under a DHCP key has a slot with the address. -/
  backed : ∀ mac a, s.pool.getIpByUsername (leaseKey mac) = some a →
    ∃ i lease, s.dhcp.slot i = some lease ∧ lease.mac = mac ∧ lease.ip = a
  /-- So it is reclaimed: a round of the reaper leaves only leases that have not expired. -/
  reclaimed : ∀ now mac a, s.stage = .idle →
    (s.step (.reap now)).pool.getIpByUsername (leaseKey mac) = some a →
    ∃ i lease, s.dhcp.slot i = some lease ∧ lease.mac = mac ∧ lease.ip = a ∧ now < lease.expiresAt
  /-- Nothing is held under a DHCP key in the IPv6 pool. -/
  ipv4Only : ∀ mac, s.pool.getIpv6ByUsername (leaseKey mac) = none
  /-- An event of the server changes the lease of no key but the client's own, except that
  it reclaims expired leases. -/
  others : ∀ e : Event, (∀ call, e ≠ .vpn call) → ∀ key,
    (∀ mac, s.client e = some mac → key ≠ leaseKey mac) →
    ((s.step e).pool.getIpByUsername key = s.pool.getIpByUsername key ∨
      ∃ now, e.now = some now ∧ Lapsed s.dhcp now key ∧
        (s.step e).pool.getIpByUsername key = none) ∧
    (s.step e).pool.getIpv6ByUsername key = s.pool.getIpv6ByUsername key

theorem Inv.shares (h : Inv s) : Shares s where
  granted _ ip hcall := (proceed_inv h hcall).2.2 ip
  allocated call ip hip := by
    have hafter := (allocateIp_tied h.tied call).2
    rw [hip] at hafter
    exact hafter
  oneSlot _ _ _ _ := h.tied.table.unique
  backed _ _ := h.tied.backed
  reclaimed now mac a hidle ha := by
    simp only [Shared.step, if_pos hidle] at ha
    obtain ⟨i, lease, hi, hmac, hip⟩ := (reap_tied h.tied now).1.backed ha
    obtain ⟨hslot, hlive⟩ := (slot_reap_eq_some s.dhcp s.pool now).mp hi
    exact ⟨i, lease, hslot, hmac, hip, hlive⟩
  ipv4Only := h.tied.ipv4Only
  others _ he _ := step_others h he

def Shared.start (serverIp leaseTimeSecs poolStart poolEnd : Nat) (pool : IpPool) : Shared :=
  ⟨.new serverIp leaseTimeSecs poolStart poolEnd, pool, .idle⟩

theorem start_inv {text : Text} {config : PoolConfig} {tunAddress : Nat}
    {ipv6 : Option (Ipv6PoolConfig × Nat)} {pool : IpPool}
    (hbuilt : IpPool.build text config tunAddress ipv6 = .ok pool)
    (serverIp leaseTimeSecs poolStart poolEnd : Nat) :
    Inv (.start serverIp leaseTimeSecs poolStart poolEnd pool) := by
  obtain ⟨hbuilt4, hsix, -⟩ := IpPool.build_built hbuilt
  have hslot : ∀ i, (DhcpServer.new serverIp leaseTimeSecs poolStart poolEnd).slot i = none := by
    intro i
    show (List.replicate _ none)[i]?.join = none
    generalize (if poolEnd < poolStart then 0
      else min (poolEnd - poolStart + 1) DhcpServer.maxDhcpPool) = size
    rw [List.getElem?_replicate]
    split <;> rfl
  refine ⟨⟨⟨hbuilt4.valid, fun six hsome => (hsix six hsome).1⟩, ⟨?_, ?_, ?_, ?_⟩, ?_, ?_⟩, trivial⟩
  · show (List.replicate _ none).length ≤ poolEnd + 1 - poolStart
    rw [List.length_replicate]
    split <;> omega
  · intro i lease hi
    rw [Shared.start, hslot] at hi
    cases hi
  · intro i j lease lease' hi
    rw [Shared.start, hslot] at hi
    cases hi
  · intro i lease hi
    rw [Shared.start, hslot] at hi
    cases hi
  · intro mac a ha
    have hnone : pool.getIpByUsername (leaseKey mac) = none := congrFun hbuilt4.unused _
    exact absurd (hnone.symm.trans ha) (by simp)
  · intro mac
    show pool.getIpv6ByUsername (leaseKey mac) = none
    unfold IpPool.getIpv6ByUsername
    cases hsome : pool.ipv6 with
    | none => rfl
    | some six => exact congrFun (hsix six hsome).2 _

/-- **Any events of the DHCP server, with calls of the VPN under its own keys at any point
between them, keep the two sides apart.** -/
theorem dhcp_shares_pool {text : Text} {config : PoolConfig} {tunAddress : Nat}
    {ipv6 : Option (Ipv6PoolConfig × Nat)} {pool : IpPool}
    (hbuilt : IpPool.build text config tunAddress ipv6 = .ok pool)
    (serverIp leaseTimeSecs poolStart poolEnd : Nat) {events : List Event}
    (hevents : ∀ e ∈ events, e.Allowed) :
    Shares ((Shared.start serverIp leaseTimeSecs poolStart poolEnd pool).run events) ∧
      ((Shared.start serverIp leaseTimeSecs poolStart poolEnd pool).run events).dhcp.window =
        (poolStart, poolEnd) :=
  ⟨(run_inv (start_inv hbuilt serverIp leaseTimeSecs poolStart poolEnd) hevents).shares,
    run_window _ events⟩

/-! ## An eviction between two sections -/

def laptop : MacAddr := #v[2, 0, 0, 0, 0, 1]

/-- The laptop asks for an address; before its call reaches the pool, the VPN takes the first
of the window for a static user. -/
def crossing : List Event :=
  [.packet 5 ⟨.discover, laptop, 0, none, none⟩, .proceed,
    .vpn (.allocateFixed "alice" 0x0a090003), .proceed]

theorem crossing_allowed : ∀ e ∈ crossing, e.Allowed := by
  simp only [crossing, List.forall_mem_cons, List.not_mem_nil, false_imp_iff, implies_true, and_true]
  refine ⟨trivial, trivial, fun mac heq => ?_, trivial⟩
  have hchars := congrArg (fun key => key.toList.head?) heq
  simp [Call.key, leaseKey, String.toList_append] at hchars

/-- The state before the last section of the call. -/
def afterCrossing (pool : IpPool) : Shared :=
  (Shared.start officeTun 86400 0x0a090003 0x0a090006 pool).run crossing

theorem crossing_returns : officePool.map (fun pool => ((afterCrossing pool).stage.call?,
    (afterCrossing pool).proceed.2, (afterCrossing pool).pool.getIpByUsername "alice")) =
    .ok (some ⟨laptop, 5, none, true, true⟩, some (some 0x0a090004), some 0x0a090003) := by
  decide +kernel

theorem dhcp_shares_pool_crossing : ∃ pool, officePool = .ok pool ∧ Shares (afterCrossing pool) ∧
    (afterCrossing pool).pool.getIpByUsername "alice" = some 0x0a090003 ∧
    Granted (afterCrossing pool).proceed.1.dhcp (afterCrossing pool).proceed.1.pool laptop
      0x0a090004 := by
  have hreturns := crossing_returns
  cases hpool : officePool with
  | error e =>
    rw [hpool] at hreturns
    cases hreturns
  | ok pool =>
    rw [hpool] at hreturns
    simp only [Except.map, Except.ok.injEq, Prod.mk.injEq] at hreturns
    obtain ⟨hcall, hresult, halice⟩ := hreturns
    have hshares : Shares (afterCrossing pool) :=
      (dhcp_shares_pool hpool officeTun 86400 0x0a090003 0x0a090006 crossing_allowed).1
    exact ⟨pool, rfl, hshares, halice, hshares.granted _ _ hcall hresult⟩

end Qeli.Dhcp
