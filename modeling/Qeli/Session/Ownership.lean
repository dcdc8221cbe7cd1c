import Qeli.Lib.Run
import Qeli.Session.Registry

/-!
# Who owns an address

Sessions come and go, each with the subnets behind it. As long as those that are registered
together have different addresses, tokens and ids, the indexes of the registry are exact
(`Indexed`), its routes belong to registered sessions and name different networks
(`Routed`), and what was handed out for the kernel's route table is what is registered. An
address that was leased is then owned by its session alone, whatever routes there are.
-/

namespace Qeli.Session

open Lib Route

/-! ## Admissions and removals -/

/-- The registry with the CIDRs it returned so far. -/
structure Registry where
  sessions : SessionMap
  installed : List String
  removed : List String

inductive Op where
  /-- `insert`, then `take_client_routes` of the session that was replaced, then
  `register_client_subnets`. -/
  | accept (session : SessionShared) (clientSubnets : List String)
  /-- `remove`, then `take_client_routes`. -/
  | remove (primary : IpAddr)

namespace Registry

def new : Registry := ⟨.new, [], []⟩

def takeReplaced (sessions : SessionMap) (previous : Option SessionShared) :
    SessionMap × List String :=
  match previous with
  | some old => sessions.takeClientRoutes old.clientIp
  | none => (sessions, [])

def apply (text : NetText) (tun : List IpAddr) (self : Registry) : Op → Registry
  | .accept session clientSubnets =>
    let (sessions, previous) := self.sessions.insert session
    let (sessions, replaced) := takeReplaced sessions previous
    let (sessions, programmed) :=
      registerClientSubnets text sessions clientSubnets session.clientIp session tun
    ⟨sessions, self.installed ++ programmed, self.removed ++ replaced⟩
  | .remove primary =>
    let (sessions, _) := self.sessions.remove primary
    let (sessions, cidrs) := sessions.takeClientRoutes primary
    ⟨sessions, self.installed, self.removed ++ cidrs⟩

end Registry

/-- Nothing of the one is the other's. -/
structure Apart (s s' : SessionShared) : Prop where
  addresses : ∀ a ∈ s.assignedAddresses, a ∉ s'.assignedAddresses
  sessionId : s.sessionId ≠ s'.sessionId
  token : s.token ≠ s'.token

/-- A session may be admitted when it has nothing of the ones that stay. -/
def Op.Admissible (sessions : SessionMap) : Op → Prop
  | .accept session _ =>
    ∀ primary other, sessions.byIp.get? primary = some other → primary ≠ session.clientIp →
      Apart session other
  | .remove _ => True

def Registry.Step (text : NetText) (tun : List IpAddr) (reg : Registry) (op : Op)
    (reg' : Registry) : Prop :=
  op.Admissible reg.sessions ∧ reg' = reg.apply text tun op

/-! ## The indexes -/

structure Indexed (m : SessionMap) : Prop where
  keyed : ∀ {primary s}, m.byIp.get? primary = some s → primary = s.clientIp
  addresses : Indexes SessionShared.assignedAddresses id m.byIp m.byAddress
  tokens : Indexes (fun s => [s.token]) SessionShared.clientIp m.byIp m.byToken
  addressesApart : KeysApart SessionShared.assignedAddresses m.byIp
  tokensApart : KeysApart (fun s => [s.token]) m.byIp
  idsApart : KeysApart (fun s => [s.sessionId]) m.byIp

namespace Indexed

variable {m : SessionMap}

theorem new : Indexed .new where
  keyed h := by cases h
  addresses := .empty
  tokens := .empty
  addressesApart := .empty
  tokensApart := .empty
  idsApart := .empty

theorem remove_byIp (m : SessionMap) (primary : IpAddr) (a : IpAddr) :
    (m.remove primary).1.byIp.get? a = if a = primary then none else m.byIp.get? a := by
  unfold SessionMap.remove
  cases h : m.byIp.get? primary with
  | none =>
    dsimp only
    split
    · next ha => rw [ha, h]
    · rfl
  | some session => exact KeyMap.get?_erase m.byIp primary a

@[simp] theorem remove_clientRoutes (m : SessionMap) (primary : IpAddr) :
    (m.remove primary).1.clientRoutes = m.clientRoutes := by
  unfold SessionMap.remove
  split <;> rfl

theorem remove_snd (m : SessionMap) (primary : IpAddr) :
    (m.remove primary).2 = m.byIp.get? primary := by
  unfold SessionMap.remove
  cases m.byIp.get? primary <;> rfl

/-- The addresses of a session that leaves are its own, so all of them go. -/
theorem remove (h : Indexed m) (primary : IpAddr) : Indexed (m.remove primary).1 := by
  unfold SessionMap.remove
  cases hs : m.byIp.get? primary with
  | none => exact h
  | some session =>
    refine ⟨fun hp => ?_, ?_, ?_, h.addressesApart.erase primary, h.tokensApart.erase primary,
      h.idsApart.erase primary⟩
    · dsimp only at hp
      rw [KeyMap.get?_erase] at hp
      split at hp
      · cases hp
      · exact h.keyed hp
    · refine h.addresses.erase hs h.addressesApart fun a => ?_
      rw [KeyMap.get?_eraseIf]
      by_cases ha : a ∈ session.assignedAddresses
      · have hown : m.byAddress.get? a = some session :=
          (h.addresses a session).mpr ⟨primary, session, hs, ha, rfl⟩
        simp [ha, hown]
      · simp [ha]
    · refine h.tokens.erase hs h.tokensApart fun t => ?_
      simp [KeyMap.get?_erase]

theorem insert (h : Indexed m) {session : SessionShared}
    (hfree : m.byIp.get? session.clientIp = none)
    (hapart : ∀ {primary other}, m.byIp.get? primary = some other → Apart session other) :
    Indexed { m with
      byIp := m.byIp.insert session.clientIp session
      byAddress := m.byAddress.insertAll session.assignedAddresses session
      byToken := m.byToken.insert session.token session.clientIp } where
  keyed hp := by
    dsimp only at hp
    rw [KeyMap.get?_insert] at hp
    split at hp
    · next heq =>
      cases hp
      exact heq
    · exact h.keyed hp
  addresses := h.addresses.insert hfree (fun hp ha => (hapart hp).addresses _ ha)
    (KeyMap.get?_insertAll m.byAddress _ session)
  tokens := by
    refine h.tokens.insert hfree (fun hp ht ht' => ?_) fun t => ?_
    · rw [List.mem_singleton] at ht ht'
      exact (hapart hp).token (ht.symm.trans ht')
    · simp [KeyMap.get?_insert]
  addressesApart := h.addressesApart.insert fun hp ha => (hapart hp).addresses _ ha
  tokensApart := h.tokensApart.insert fun hp ht ht' => by
    rw [List.mem_singleton] at ht ht'
    exact (hapart hp).token (ht.symm.trans ht')
  idsApart := h.idsApart.insert fun hp hi hi' => by
    rw [List.mem_singleton] at hi hi'
    exact (hapart hp).sessionId (hi.symm.trans hi')

end Indexed

/-! ## The routes -/

def programmedCidrs (routes : List ClientRoute) : List String :=
  (routes.filter fun r => decide (0 < r.prefixLen)).map ClientRoute.cidr

structure Routed (text : NetText) (tun : List IpAddr) (m : SessionMap) : Prop where
  distinct : m.clientRoutes.Pairwise fun r r' => r.sameNetwork r' = false
  owned : ∀ r ∈ m.clientRoutes, m.byIp.get? r.clientIp = some r.session
  gateway : ∀ r ∈ m.clientRoutes, 0 < r.prefixLen → ∀ a ∈ tun, r.contains a = false
  shown : ∀ r ∈ m.clientRoutes, ∃ address, r.cidr = text.displayNet address r.prefixLen

theorem registerSubnet_cases (text : NetText) (clientIp : IpAddr) (session : SessionShared)
    (tun : List IpAddr) (m : SessionMap) (cidr : String) :
    registerSubnet text clientIp session tun m cidr = (m, none) ∨
    ∃ r, ClientRoute.parse text cidr clientIp session = some r ∧
      (0 < r.prefixLen → ∀ a ∈ tun, r.contains a = false) ∧
      (∀ existing ∈ m.clientRoutes, existing.sameNetwork r = false) ∧
      registerSubnet text clientIp session tun m cidr =
        ({ m with clientRoutes := m.clientRoutes ++ [r] },
          if r.prefixLen = 0 then none else some r.cidr) := by
  unfold registerSubnet
  split
  · exact .inl rfl
  · split
    · exact .inl rfl
    · next r hparse =>
      dsimp only
      split
      · exact .inl rfl
      · next hgateway =>
        split
        · exact .inl rfl
        · next hnew =>
          refine .inr ⟨r, hparse, fun hpos => ?_, by simpa using hnew, by simp⟩
          have hne : r.prefixLen ≠ 0 := by omega
          simpa [hne] using hgateway

theorem parse_fields {text : NetText} {cidr : String} {clientIp : IpAddr} {session : SessionShared}
    {r : ClientRoute} (h : ClientRoute.parse text cidr clientIp session = some r) :
    r.clientIp = clientIp ∧ r.session = session ∧
      ∃ address, r.cidr = text.displayNet address r.prefixLen := by
  unfold ClientRoute.parse at h
  obtain ⟨explicit, _, h⟩ := Option.bind_eq_some_iff.mp h
  obtain ⟨ip, _, h⟩ := Option.bind_eq_some_iff.mp h
  cases ip with
  | v4 ip | v6 ip =>
    dsimp only at h
    split at h
    · cases h
      exact ⟨rfl, rfl, _, rfl⟩
    · cases h

namespace Routed

variable {text : NetText} {tun : List IpAddr} {m : SessionMap}

theorem new : Routed text tun .new where
  distinct := .nil
  owned r h := by cases h
  gateway r h := by cases h
  shown r h := by cases h

theorem take (h : Routed text tun m) {primary : IpAddr} {m' : SessionMap}
    (hroutes : m'.clientRoutes = m.clientRoutes)
    (hbyIp : ∀ a, a ≠ primary → m'.byIp.get? a = m.byIp.get? a) :
    Routed text tun (m'.takeClientRoutes primary).1 := by
  have hmem : ∀ r ∈ (m'.takeClientRoutes primary).1.clientRoutes,
      r ∈ m.clientRoutes ∧ r.clientIp ≠ primary := by
    intro r hr
    have := List.mem_filter.mp hr
    rw [hroutes] at this
    exact ⟨this.1, by simpa using this.2⟩
  refine ⟨?_, fun r hr => ?_, fun r hr => h.gateway r (hmem r hr).1,
    fun r hr => h.shown r (hmem r hr).1⟩
  · have hsub : ((m'.takeClientRoutes primary).1.clientRoutes).Sublist m.clientRoutes :=
      hroutes ▸ List.filter_sublist
    exact h.distinct.sublist hsub
  · have howned := h.owned r (hmem r hr).1
    rw [← hbyIp r.clientIp (hmem r hr).2] at howned
    exact howned

theorem registerSubnet (h : Routed text tun m) {session : SessionShared}
    (hsession : m.byIp.get? session.clientIp = some session) (cidr : String) :
    Routed text tun (registerSubnet text session.clientIp session tun m cidr).1 := by
  obtain hsame | ⟨r, hparse, hgateway, hnew, hadd⟩ :=
    registerSubnet_cases text session.clientIp session tun m cidr
  · rw [hsame]
    exact h
  · rw [hadd]
    obtain ⟨hip, hown, hshown⟩ := parse_fields hparse
    refine ⟨?_, ?_, ?_, ?_⟩
    · refine List.pairwise_append.mpr ⟨h.distinct, List.pairwise_singleton _ _, ?_⟩
      intro existing hmem r' hr'
      rw [List.mem_singleton.mp hr']
      exact hnew existing hmem
    · refine List.forall_mem_append.mpr ⟨h.owned, List.forall_mem_singleton.mpr ?_⟩
      rw [hip, hown]
      exact hsession
    · exact List.forall_mem_append.mpr ⟨h.gateway, List.forall_mem_singleton.mpr hgateway⟩
    · exact List.forall_mem_append.mpr ⟨h.shown, List.forall_mem_singleton.mpr hshown⟩

end Routed

/-! ## What is returned for the kernel -/

theorem take_perm (m : SessionMap) (clientIp : IpAddr) :
    (programmedCidrs m.clientRoutes).Perm ((m.takeClientRoutes clientIp).2 ++
      programmedCidrs (m.takeClientRoutes clientIp).1.clientRoutes) := by
  have hsplit := List.filter_append_perm (fun r => r.clientIp == clientIp)
    (m.clientRoutes.filter fun r => decide (0 < r.prefixLen))
  rw [List.filter_filter, List.filter_filter] at hsplit
  have hkept : (m.clientRoutes.filter fun r =>
      !(r.clientIp == clientIp) && decide (0 < r.prefixLen)) =
      (m.clientRoutes.filter fun r => r.clientIp != clientIp).filter
        fun r => decide (0 < r.prefixLen) := by
    rw [List.filter_filter]
    exact List.filter_congr fun r _ => Bool.and_comm _ _
  rw [hkept] at hsplit
  have hmap := hsplit.symm.map ClientRoute.cidr
  rwa [List.map_append] at hmap

theorem take_none {m : SessionMap} {clientIp : IpAddr}
    (h : ∀ r ∈ m.clientRoutes, r.clientIp ≠ clientIp) :
    m.takeClientRoutes clientIp = (m, []) := by
  have hkept : (m.clientRoutes.filter fun r => r.clientIp != clientIp) = m.clientRoutes :=
    List.filter_eq_self.mpr fun r hr => by simpa using h r hr
  have htaken : (m.clientRoutes.filter fun r =>
      r.clientIp == clientIp && decide (0 < r.prefixLen)) = [] :=
    List.filter_eq_nil_iff.mpr fun r hr => by simp [h r hr]
  simp only [SessionMap.takeClientRoutes, hkept, htaken, List.map_nil]

theorem registerSubnet_frame (text : NetText) (clientIp : IpAddr) (session : SessionShared)
    (tun : List IpAddr) (m : SessionMap) (cidr : String) :
    ∃ routes, (registerSubnet text clientIp session tun m cidr).1 =
        { m with clientRoutes := routes } ∧
      programmedCidrs routes = programmedCidrs m.clientRoutes ++
        (registerSubnet text clientIp session tun m cidr).2.toList := by
  obtain hsame | ⟨r, _, _, _, hadd⟩ := registerSubnet_cases text clientIp session tun m cidr
  · rw [hsame]
    exact ⟨m.clientRoutes, rfl, (List.append_nil _).symm⟩
  · rw [hadd]
    refine ⟨m.clientRoutes ++ [r], rfl, ?_⟩
    unfold programmedCidrs
    rw [List.filter_append, List.map_append]
    by_cases hzero : r.prefixLen = 0
    · simp [hzero]
    · simp [hzero, Nat.pos_of_ne_zero hzero]

theorem registerClientSubnets_spec {text : NetText} {tun : List IpAddr} {m : SessionMap}
    (hrouted : Routed text tun m) {session : SessionShared}
    (hsession : m.byIp.get? session.clientIp = some session) (clientSubnets : List String) :
    ∃ routes,
      (registerClientSubnets text m clientSubnets session.clientIp session tun).1 =
        { m with clientRoutes := routes } ∧
      Routed text tun { m with clientRoutes := routes } ∧
      programmedCidrs routes = programmedCidrs m.clientRoutes ++
        (registerClientSubnets text m clientSubnets session.clientIp session tun).2 := by
  induction clientSubnets using List.reverseRecOn with
  | nil => exact ⟨m.clientRoutes, rfl, hrouted, (List.append_nil _).symm⟩
  | append_singleton clientSubnets cidr ih =>
    obtain ⟨routes, hmap, hrouted', hcidrs⟩ := ih
    have hlast : registerClientSubnets text m (clientSubnets ++ [cidr]) session.clientIp session
        tun =
        ((registerSubnet text session.clientIp session tun
            (registerClientSubnets text m clientSubnets session.clientIp session tun).1 cidr).1,
          (registerClientSubnets text m clientSubnets session.clientIp session tun).2 ++
            (registerSubnet text session.clientIp session tun
              (registerClientSubnets text m clientSubnets session.clientIp session tun).1
              cidr).2.toList) := by
      unfold registerClientSubnets
      rw [List.foldl_append]
      rfl
    rw [hlast, hmap]
    obtain ⟨routes', hmap', hcidrs'⟩ := registerSubnet_frame text session.clientIp session tun
      { m with clientRoutes := routes } cidr
    have hone := Routed.registerSubnet hrouted' hsession cidr
    rw [hmap'] at hone ⊢
    refine ⟨routes', rfl, hone, ?_⟩
    rw [hcidrs', hcidrs, List.append_assoc]

/-! ## Every reachable registry -/

structure Registry.Inv (text : NetText) (tun : List IpAddr) (reg : Registry) : Prop where
  indexed : Indexed reg.sessions
  routed : Routed text tun reg.sessions
  balance : reg.installed.Perm (reg.removed ++ programmedCidrs reg.sessions.clientRoutes)
  shown : ∀ cidr ∈ reg.installed, ∃ address len, 0 < len ∧ cidr = text.displayNet address len

namespace Registry

variable {text : NetText} {tun : List IpAddr} {reg reg' : Registry}

theorem Inv.new : Inv text tun .new :=
  ⟨.new, .new, .nil, fun _ h => by cases h⟩

theorem balance_take {installed removed : List String} {m m' : SessionMap}
    (hroutes : m'.clientRoutes = m.clientRoutes)
    (h : installed.Perm (removed ++ programmedCidrs m.clientRoutes)) (clientIp : IpAddr) :
    installed.Perm (removed ++ (m'.takeClientRoutes clientIp).2 ++
      programmedCidrs (m'.takeClientRoutes clientIp).1.clientRoutes) := by
  have htake := take_perm m' clientIp
  rw [hroutes] at htake
  rw [List.append_assoc]
  exact h.trans (htake.append_left removed)

theorem programmed_shown {routes : List ClientRoute}
    (h : ∀ r ∈ routes, ∃ address, r.cidr = text.displayNet address r.prefixLen) :
    ∀ cidr ∈ programmedCidrs routes, ∃ address len, 0 < len ∧
      cidr = text.displayNet address len := by
  intro cidr hcidr
  obtain ⟨r, hr, rfl⟩ := List.mem_map.mp hcidr
  obtain ⟨hmem, hpos⟩ := List.mem_filter.mp hr
  obtain ⟨address, hshown⟩ := h r hmem
  exact ⟨address, r.prefixLen, by simpa using hpos, hshown⟩

theorem Inv.remove (h : Inv text tun reg) (primary : IpAddr) :
    Inv text tun (reg.apply text tun (.remove primary)) where
  indexed :=
    have hindexed := h.indexed.remove primary
    ⟨hindexed.keyed, hindexed.addresses, hindexed.tokens, hindexed.addressesApart,
      hindexed.tokensApart, hindexed.idsApart⟩
  routed := by
    refine h.routed.take (Indexed.remove_clientRoutes reg.sessions primary) fun a ha => ?_
    exact (Indexed.remove_byIp reg.sessions primary a).trans (if_neg ha)
  balance := balance_take (Indexed.remove_clientRoutes reg.sessions primary) h.balance primary
  shown := h.shown

theorem insert_clientRoutes (m : SessionMap) (session : SessionShared) :
    (m.insert session).1.clientRoutes = m.clientRoutes :=
  Indexed.remove_clientRoutes m session.clientIp

theorem insert_byIp (m : SessionMap) (session : SessionShared) {a : IpAddr}
    (ha : a ≠ session.clientIp) : (m.insert session).1.byIp.get? a = m.byIp.get? a := by
  have hinsert : (m.insert session).1.byIp =
      (m.remove session.clientIp).1.byIp.insert session.clientIp session := rfl
  rw [hinsert, KeyMap.get?_insert_ne _ _ ha, Indexed.remove_byIp, if_neg ha]

/-- A client that replaces nobody has no routes yet, so that its routes may be taken in
either case. -/
theorem takeReplaced_eq (h : Inv text tun reg) (session : SessionShared) :
    takeReplaced (reg.sessions.insert session).1 (reg.sessions.insert session).2 =
      (reg.sessions.insert session).1.takeClientRoutes session.clientIp := by
  have hprevious : (reg.sessions.insert session).2 = reg.sessions.byIp.get? session.clientIp :=
    Indexed.remove_snd reg.sessions session.clientIp
  rw [hprevious]
  cases hold : reg.sessions.byIp.get? session.clientIp with
  | some old => rw [takeReplaced, ← h.indexed.keyed hold]
  | none =>
    rw [takeReplaced, take_none]
    intro r hr hip
    rw [insert_clientRoutes] at hr
    have howned := h.routed.owned r hr
    rw [hip, hold] at howned
    cases howned

theorem insert_indexed (h : Inv text tun reg) {session : SessionShared}
    {clientSubnets : List String}
    (hop : (Op.accept session clientSubnets).Admissible reg.sessions) :
    Indexed (reg.sessions.insert session).1 := by
  refine (h.indexed.remove session.clientIp).insert ?_ fun {primary other} hother => ?_
  · rw [Indexed.remove_byIp, if_pos rfl]
  · rw [Indexed.remove_byIp] at hother
    split at hother
    · cases hother
    · next hne => exact hop primary other hother hne

theorem Inv.accept (h : Inv text tun reg) {session : SessionShared} {clientSubnets : List String}
    (hop : (Op.accept session clientSubnets).Admissible reg.sessions) :
    Inv text tun (reg.apply text tun (.accept session clientSubnets)) := by
  have hindexed := insert_indexed h hop
  have hroutes := insert_clientRoutes reg.sessions session
  have hrouted := h.routed.take hroutes fun a ha => insert_byIp reg.sessions session ha
  have hbalance := balance_take hroutes h.balance session.clientIp
  have hsession : ((reg.sessions.insert session).1.takeClientRoutes
      session.clientIp).1.byIp.get? session.clientIp = some session :=
    KeyMap.get?_insert_self (reg.sessions.remove session.clientIp).1.byIp session.clientIp session
  obtain ⟨routes, hmap, hrouted', hcidrs⟩ :=
    registerClientSubnets_spec hrouted hsession clientSubnets
  have happly : reg.apply text tun (.accept session clientSubnets) =
      ⟨{ (reg.sessions.insert session).1 with clientRoutes := routes },
        reg.installed ++ (registerClientSubnets text
          ((reg.sessions.insert session).1.takeClientRoutes session.clientIp).1 clientSubnets
          session.clientIp session tun).2,
        reg.removed ++
          ((reg.sessions.insert session).1.takeClientRoutes session.clientIp).2⟩ := by
    simp only [apply, takeReplaced_eq h session, hmap]
    rfl
  rw [happly]
  refine ⟨⟨hindexed.keyed, hindexed.addresses, hindexed.tokens, hindexed.addressesApart,
    hindexed.tokensApart, hindexed.idsApart⟩, hrouted', ?_, ?_⟩
  · change List.Perm _ (_ ++ programmedCidrs routes)
    rw [hcidrs, ← List.append_assoc]
    exact hbalance.append_right _
  · have hshown := programmed_shown hrouted'.shown
    intro cidr hcidr
    obtain hold | hnew := List.mem_append.mp hcidr
    · exact h.shown cidr hold
    · refine hshown cidr ?_
      rw [hcidrs]
      exact List.mem_append_right _ hnew

theorem Inv.step (h : Inv text tun reg) {op : Op} (hstep : Step text tun reg op reg') :
    Inv text tun reg' := by
  obtain ⟨hop, rfl⟩ := hstep
  cases op with
  | accept session clientSubnets => exact h.accept hop
  | remove primary => exact h.remove primary

theorem sourceOwnedBy_leased {m : SessionMap} (h : Indexed m) {revoked closing : SessionShared → Bool}
    {primary a : IpAddr} {s : SessionShared} (hs : m.byIp.get? primary = some s)
    (ha : a ∈ s.assignedAddresses) (hrevoked : revoked s = false) (hclosing : closing s = false)
    (sessionId : Nat) :
    m.sourceOwnedBy revoked closing sessionId a = true ↔ sessionId = s.sessionId := by
  have hlease : m.getByAddress a = some s := (h.addresses a s).mpr ⟨primary, s, hs, ha, rfl⟩
  have hcurrent : m.byIp.get? s.clientIp = some s := h.keyed hs ▸ hs
  simp only [SessionMap.sourceOwnedBy, hlease, Option.some_or, Option.any_some, hcurrent, hrevoked,
    hclosing, Bool.not_false, Bool.and_true, Bool.and_self, beq_iff_eq]
  exact eq_comm

end Registry

/-- What holds of a registry after any admissions and removals. -/
structure RegistrySafe (text : NetText) (tun : List IpAddr) (reg : Registry) : Prop where
  /-- Every assigned address of a registered session, and no other, leads to it. -/
  addresses : ∀ a s, reg.sessions.byAddress.get? a = some s ↔
    reg.sessions.byIp.get? s.clientIp = some s ∧ a ∈ s.assignedAddresses
  tokens : ∀ token primary, reg.sessions.byToken.get? token = some primary ↔
    ∃ s, reg.sessions.byIp.get? primary = some s ∧ s.token = token
  distinct : reg.sessions.clientRoutes.Pairwise fun r r' => r.sameNetwork r' = false
  owned : ∀ r ∈ reg.sessions.clientRoutes, reg.sessions.byIp.get? r.clientIp = some r.session
  gateway : ∀ r ∈ reg.sessions.clientRoutes, 0 < r.prefixLen → ∀ a ∈ tun, r.contains a = false
  /-- Installed and not removed are the registered routes that are not defaults. -/
  balance : reg.installed.Perm (reg.removed ++
    (reg.sessions.clientRoutes.filter fun r => decide (0 < r.prefixLen)).map ClientRoute.cidr)
  /-- No default route is returned. -/
  noDefault : ∀ cidr ∈ reg.installed ++ reg.removed, ∃ address len, 0 < len ∧
    cidr = text.displayNet address len
  /-- A leased address is its session's alone. -/
  leased : ∀ revoked closing primary s a, reg.sessions.byIp.get? primary = some s →
    a ∈ s.assignedAddresses → revoked s = false → closing s = false →
    reg.sessions.sourceOwnedBy revoked closing s.sessionId a = true ∧
      (∀ sessionId, sessionId ≠ s.sessionId →
        reg.sessions.sourceOwnedBy revoked closing sessionId a = false) ∧
      ∀ primary' other, reg.sessions.byIp.get? primary' = some other → other ≠ s →
        reg.sessions.sourceOwnedBy revoked closing other.sessionId a = false

/-- **The session registry** is consistent after any admissions and removals of sessions that
have nothing of each other. -/
theorem session_registry {text : NetText} {tun : List IpAddr} {ops : List Op} {reg : Registry}
    (h : Run (Registry.Step text tun) .new ops reg) : RegistrySafe text tun reg := by
  have hinv : Registry.Inv text tun reg := h.preserves .new fun hinv hstep => hinv.step hstep
  have hindexed := hinv.indexed
  refine ⟨fun a s => ?_, fun token primary => ?_, hinv.routed.distinct, hinv.routed.owned,
    hinv.routed.gateway, hinv.balance, fun cidr hcidr => ?_, ?_⟩
  · rw [hindexed.addresses a s]
    constructor
    · rintro ⟨primary, _, hs, ha, rfl⟩
      exact ⟨hindexed.keyed hs ▸ hs, ha⟩
    · rintro ⟨hs, ha⟩
      exact ⟨s.clientIp, s, hs, ha, rfl⟩
  · rw [hindexed.tokens token primary]
    constructor
    · rintro ⟨_, s, hs, htoken, rfl⟩
      exact ⟨s, hindexed.keyed hs ▸ hs, (List.mem_singleton.mp htoken).symm⟩
    · rintro ⟨s, hs, rfl⟩
      exact ⟨primary, s, hs, List.mem_singleton_self _, hindexed.keyed hs⟩
  · refine hinv.shown cidr ?_
    obtain hinstalled | hremoved := List.mem_append.mp hcidr
    · exact hinstalled
    · exact hinv.balance.symm.subset (List.mem_append_left _ hremoved)
  · intro revoked closing primary s a hs ha hrevoked hclosing
    have howned := Registry.sourceOwnedBy_leased hindexed hs ha hrevoked hclosing
    have hnone : ∀ sessionId, sessionId ≠ s.sessionId →
        reg.sessions.sourceOwnedBy revoked closing sessionId a = false := fun sessionId hne =>
      Bool.eq_false_iff.mpr fun htrue => hne ((howned sessionId).mp htrue)
    refine ⟨(howned s.sessionId).mpr rfl, hnone, fun primary' other hother hne => ?_⟩
    refine hnone other.sessionId fun hid => hne ?_
    have hprimary := hindexed.idsApart hother hs (List.mem_singleton_self _)
      (List.mem_singleton.mpr hid)
    rw [hprimary, hs] at hother
    exact (Option.some.inj hother).symm

/-! ## An office -/

/-- A text that knows the addresses of the office. -/
def officeText : NetText where
  trim s := s
  parseIp s :=
    if s = "10.20.0.0" then some (.v4 0x0a140000)
    else if s = "10.20.0.9" then some (.v4 0x0a140009)
    else if s = "10.30.0.0" then some (.v4 0x0a1e0000)
    else if s = "10.8.0.0" then some (.v4 0x0a080000)
    else if s = "0.0.0.0" then some (.v4 0)
    else none
  parseNet _ := none
  parseU8 s :=
    if s = "24" then some 24 else if s = "16" then some 16 else if s = "0" then some 0 else none
  parseU16 _ := none
  displayNet a len :=
    if a = .v4 0x0a140000 ∧ len = 24 then "10.20.0.0/24"
    else if a = .v4 0x0a1e0000 ∧ len = 16 then "10.30.0.0/16"
    else "0.0.0.0/0"
  parseRoutes _ := .error "expected value"

def officeSession (sessionId : Nat) (ipv4 : BitVec 32) (ipv6 : Option (BitVec 128)) :
    SessionShared where
  sessionId := sessionId
  clientIp := .v4 ipv4
  clientIpv4 := some ipv4
  clientIpv6 := ipv6
  token := .replicate joinTokenLen (.ofNat sessionId)
  primary := rfl

/-- Two clients with one network, an exit node that replaces the first, and a removal. -/
def officeOps : List Op :=
  [.accept (officeSession 1 0x0a080002 (some 0xfd02)) ["10.20.0.0/24", "10.8.0.0/16"],
    .accept (officeSession 2 0x0a080003 none) ["10.20.0.9/24", "10.30.0.0/16"],
    .accept (officeSession 3 0x0a080002 none) ["0.0.0.0/0"],
    .remove (.v4 0x0a080003)]

instance (s s' : SessionShared) : Decidable (Apart s s') :=
  decidable_of_iff ((∀ a ∈ s.assignedAddresses, a ∉ s'.assignedAddresses) ∧
      s.sessionId ≠ s'.sessionId ∧ s.token ≠ s'.token)
    ⟨fun h => ⟨h.1, h.2.1, h.2.2⟩, fun h => ⟨h.addresses, h.sessionId, h.token⟩⟩

/-- Whether an operation may come, by looking at every session. -/
def Op.admissible (sessions : SessionMap) : Op → Bool
  | .accept session _ =>
    sessions.byIp.toPairs.all fun entry =>
      decide (entry.1 = session.clientIp) || decide (Apart session entry.2)
  | .remove _ => true

theorem Op.admissible_sound {sessions : SessionMap} {op : Op} (h : op.admissible sessions = true) :
    op.Admissible sessions := by
  cases op with
  | remove primary => trivial
  | accept session clientSubnets =>
    intro primary other hother hne
    have hentry := List.all_eq_true.mp h (primary, other) (KeyMap.mem_toPairs.mpr hother)
    simpa [hne] using hentry

/-- Operations that may all come. -/
def Registry.allows (text : NetText) (tun : List IpAddr) : Registry → List Op → Bool
  | _, [] => true
  | reg, op :: ops => op.admissible reg.sessions && allows text tun (reg.apply text tun op) ops

theorem Registry.run_of_allows {text : NetText} {tun : List IpAddr} {reg : Registry}
    {ops : List Op} (h : reg.allows text tun ops = true) :
    Run (Step text tun) reg ops (ops.foldl (apply text tun) reg) := by
  induction ops generalizing reg with
  | nil => exact .nil
  | cons op ops ih =>
    rw [allows, Bool.and_eq_true] at h
    have hone : Run (Step text tun) reg ([] ++ [op]) (reg.apply text tun op) :=
      .snoc .nil ⟨Op.admissible_sound h.1, rfl⟩
    exact hone.append (ih h.2)

def officeRegistry : Registry := officeOps.foldl (Registry.apply officeText [.v4 0x0a080001]) .new

theorem session_registry_office :
    RegistrySafe officeText [.v4 0x0a080001] officeRegistry ∧
      officeRegistry.installed = ["10.20.0.0/24", "10.30.0.0/16"] ∧
      officeRegistry.removed = ["10.20.0.0/24", "10.30.0.0/16"] ∧
      officeRegistry.sessions.clientRoutes.map ClientRoute.cidr = ["0.0.0.0/0"] :=
  ⟨session_registry (Registry.run_of_allows (by decide +kernel)), by decide +kernel⟩

end Qeli.Session
