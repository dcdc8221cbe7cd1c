import Qeli.Udp.Handler

/-!
# The client and the server agree on the path epoch

`Paired` is the invariant of `PairStep`. The server's candidate comes from a
PATH_INIT of the client, so the server is at most one epoch ahead; a PATH_COMMIT
comes from a commit of the server that a PATH_RESPONSE with the same message id
asked for, or asked for again, on the committed path. Events and sent messages
are only added, so what is known about them stays known.
-/

namespace Qeli.Udp

open Qeli.Lib Qeli.Wire UdpRoamingTable

/-! ## What the table keeps of a session -/

/-- What only a commit changes about a session. -/
def UdpSession.bearing (s : UdpSession) :
    Nat × Bytes 32 × Bytes 32 × Nat × UdpPath × Option CommittedPath :=
  (s.generation, s.clientToServerCidSecret, s.serverToClientCidSecret, s.active.epoch,
    s.active.path, s.lastCommit)

/-- The event neither commits the session nor removes it. -/
def TableEvent.Keeps (sid g : Nat) : TableEvent → Prop
  | ⟨.commit ticket _ _ _ _ _ _ _, .committed (.ok ⟨_, false⟩)⟩ => ticket.sessionId ≠ sid
  | ⟨.remove a, _⟩ => a ≠ sid
  | ⟨.removeGeneration a b, _⟩ => a ≠ sid ∨ b ≠ g
  | ⟨.dropOwner owner, _⟩ => owner.sessionId ≠ sid ∨ owner.sessionGeneration ≠ g
  | _ => True

/-- The session is there with the given bearing, and its candidate's ticket satisfies `O`. -/
def Holds (sid : Nat) (b : Nat × Bytes 32 × Bytes 32 × Nat × UdpPath × Option CommittedPath)
    (O : CandidateTicket → Prop) (t : UdpRoamingTable) : Prop :=
  ∃ s, t.sessions.get? sid = some s ∧ s.bearing = b ∧ ∀ c, s.candidate = some c → O c.ticket

variable {sid epoch messageId : Nat} {s : UdpSession} {es : List PairEvent} {path : UdpPath}
  {sent : List UdpClientPathTransmit}

theorem bearing_of_insert {t t' : UdpRoamingTable} {a : Nat} {s₀ s₁ : UdpSession}
    (hs : t.sessions.get? sid = some s) (ha : t.sessions.get? a = some s₀)
    (hsessions : t'.sessions = t.sessions.insert a s₁) (hb : s₁.bearing = s₀.bearing) :
    ∃ s', t'.sessions.get? sid = some s' ∧ s'.bearing = s.bearing := by
  rw [hsessions, KeyMap.get?_insert]
  split
  · next he =>
    rw [he, ha] at hs
    cases hs
    exact ⟨s₁, rfl, hb⟩
  · exact ⟨s, hs, rfl⟩

theorem TableOp.Removes.not_keeps {op : TableOp} {r : TableResult} (h : op.Removes s sid r) :
    ¬ TableEvent.Keeps sid s.generation ⟨op, r⟩ := by
  unfold TableOp.Removes at h
  split at h
  · exact fun hk => hk h
  · exact fun hk => hk.elim (· h.1) (· h.2)
  · exact fun hk => hk.elim (· h.2.1) (· h.2.2)
  · exact h.elim

theorem Change.bearing {deriveUdpCid : DeriveUdpCid} {t t' : UdpRoamingTable} {op : TableOp}
    {r : TableResult} (hc : Change deriveUdpCid t op t' r) (hs : t.sessions.get? sid = some s)
    (hk : TableEvent.Keeps sid s.generation ⟨op, r⟩) :
    ∃ s', t'.sessions.get? sid = some s' ∧ s'.bearing = s.bearing := by
  cases hc with
  | quiet => exact ⟨s, hs, rfl⟩
  | @registered a _ _ _ _ _ _ _ _ hnone =>
    have hne : sid ≠ a := by rintro rfl; rw [hs] at hnone; cases hnone
    exact ⟨s, (KeyMap.get?_insert_ne _ _ hne).trans hs, rfl⟩
  | observed hin | started hin => exact bearing_of_insert hs hin.session rfl rfl
  | authorized hl | credited hl => exact bearing_of_insert hs hl.session rfl rfl
  | committed hl =>
    have hne : sid ≠ _ := Ne.symm hk
    exact ⟨s, ((KeyMap.get?_insert_ne _ _ hne).trans (KeyMap.get?_insert_ne _ _ hne)).trans hs, rfl⟩
  | widened ha => exact bearing_of_insert hs ha rfl rfl
  | @removed _ _ a s₀ ha hop =>
    have hne : sid ≠ a := by
      rintro rfl
      rw [ha] at hs
      cases hs
      exact hop.not_keeps hk
    rw [removeSession_some ha]
    exact ⟨s, (KeyMap.get?_erase_ne _ hne).trans hs, rfl⟩

section Holds

variable {sid : Nat} {b : Nat × Bytes 32 × Bytes 32 × Nat × UdpPath × Option CommittedPath}
  {O : CandidateTicket → Prop}

variable {t t' : UdpRoamingTable}

theorem Holds.tidy {now? : Option Nat} (hstep : TidyStep now? t t') (h : Holds sid b O t) :
    Holds sid b O t' := by
  cases hstep with
  | @failed a s₀ c ha hc =>
    obtain ⟨s, hs, hb, hO⟩ := h
    by_cases he : sid = a
    · subst he
      rw [ha] at hs
      cases hs
      exact ⟨_, KeyMap.get?_insert_self _ _ _, hb, nofun⟩
    · exact ⟨s, (KeyMap.get?_insert_ne _ _ he).trans hs, hb, hO⟩
  | pruned | burned => exact h

theorem Holds.change {deriveUdpCid : DeriveUdpCid} {op : TableOp} {r : TableResult}
    (hi : Indexed deriveUdpCid t) (hc : Change deriveUdpCid t op t' r)
    (hk : TableEvent.Keeps sid b.1 ⟨op, r⟩)
    (hinit : ∀ lookup epoch, TableEvent.inits ⟨op, r⟩ = some (lookup, epoch) →
      lookup.sessionId = sid → ∀ ticket, ticket.pathEpoch = epoch → O ticket)
    (h : Holds sid b O t) : Holds sid b O t' := by
  obtain ⟨s, hs, rfl, hO⟩ := h
  obtain ⟨s', hs', hb⟩ := hc.bearing hs hk
  refine ⟨s', hs', hb, fun c' hc' => ?_⟩
  have hi' := Indexed.change hc hi
  have hsid : c'.ticket.sessionId = sid := ((hi'.session sid s' hs').candidate c' hc').1
  have hold : ∀ {s₀ c}, Live t c'.ticket s₀ c → O c'.ticket := by
    intro s₀ c hl
    have heq := hl.session
    rw [hsid, hs] at heq
    cases heq
    have := hO c hl.candidate
    rwa [hl.ticket_eq] at this
  cases hc.traced hi (hi'.live hs' hc') with
  | kept hl | credited hl | sent hl => exact hold hl
  | started _ hin hlk => exact hinit _ _ hin (hlk.trans hsid) _ rfl

/-- An operation that keeps the session leaves its bearing alone, and gives it a
candidate only for a PATH_INIT. -/
theorem Does.holds {deriveUdpCid : DeriveUdpCid} {op : TableOp} {r : TableResult}
    (hd : Does deriveUdpCid t op t' r) (hi : Indexed deriveUdpCid t)
    (hk : TableEvent.Keeps sid b.1 ⟨op, r⟩)
    (hinit : ∀ lookup epoch, TableEvent.inits ⟨op, r⟩ = some (lookup, epoch) →
      lookup.sessionId = sid → ∀ ticket, ticket.pathEpoch = epoch → O ticket)
    (h : Holds sid b O t) : Holds sid b O t' := by
  obtain ⟨t₁, t₂, h1, h2, h3⟩ := hd
  have hi₁ : Indexed deriveUdpCid t₁ := hi.of_tidy h1
  exact h3.preserves Holds.tidy (Holds.change hi₁ h2 hk hinit (h1.preserves Holds.tidy h))

end Holds

/-! ## What the history says -/

def ServerCommitted (es : List PairEvent) (epoch : Nat) (path : UdpPath) : Prop :=
  ∃ ingress outcome, .response ingress (some (.ok ⟨outcome, false⟩)) ∈ es ∧
    outcome.pathEpoch = epoch ∧ outcome.newPath = path

/-- A response under the message id, one of those the client sent, was handled on the path. -/
def ResponseArrived (es : List PairEvent) (sent : List UdpClientPathTransmit)
    (messageId epoch : Nat) (path : UdpPath) : Prop :=
  ∃ ingress result, .response ingress result ∈ es ∧ ingress.transmit ∈ sent ∧
    ingress.transmit.messageId = messageId ∧ ingress.receivedPath = path ∧
    ∃ token, ingress.transmit.control = .response epoch token

theorem ServerCommitted.mono (h : ServerCommitted es epoch path) (e : PairEvent) :
    ServerCommitted (es ++ [e]) epoch path := by
  obtain ⟨ingress, outcome, hmem, h1, h2⟩ := h
  exact ⟨ingress, outcome, List.mem_append_left _ hmem, h1, h2⟩

theorem ServerCommitted.of_snoc {e : PairEvent} (h : ServerCommitted (es ++ [e]) epoch path) :
    ServerCommitted es epoch path ∨
      ∃ ingress outcome, e = .response ingress (some (.ok ⟨outcome, false⟩)) ∧
        outcome.pathEpoch = epoch ∧ outcome.newPath = path := by
  obtain ⟨ingress, outcome, hmem, h1, h2⟩ := h
  rcases List.mem_append.mp hmem with hmem | hmem
  · exact .inl ⟨ingress, outcome, hmem, h1, h2⟩
  · exact .inr ⟨ingress, outcome, (List.mem_singleton.mp hmem).symm, h1, h2⟩

theorem ResponseArrived.mono (h : ResponseArrived es sent messageId epoch path) (e : PairEvent)
    (more : List UdpClientPathTransmit) :
    ResponseArrived (es ++ [e]) (sent ++ more) messageId epoch path := by
  obtain ⟨ingress, result, hmem, hsent, hrest⟩ := h
  exact ⟨ingress, result, List.mem_append_left _ hmem, List.mem_append_left _ hsent, hrest⟩

/-- The certificate of a PATH_COMMIT. -/
def Certified (es : List PairEvent) (sent : List UdpClientPathTransmit)
    (messageId epoch : Nat) : Prop :=
  ∃ path, ServerCommitted es epoch path ∧ ResponseArrived es sent messageId epoch path

theorem Certified.mono (h : Certified es sent messageId epoch) (e : PairEvent)
    (more : List UdpClientPathTransmit) : Certified (es ++ [e]) (sent ++ more) messageId epoch := by
  obtain ⟨path, h1, h2⟩ := h
  exact ⟨path, h1.mono e, h2.mono e more⟩

theorem Certified.later (h : Certified es sent messageId epoch) (e : PairEvent) :
    Certified (es ++ [e]) sent messageId epoch := by
  simpa using h.mono e []

/-! ## The invariant -/

/-- The client's own part. -/
structure UdpClientRoaming.Formed (deriveUdpCid : DeriveUdpCid) (sid : Nat)
    (c2s s2c : Bytes 32) (c : UdpClientRoaming) : Prop where
  sessionId : c.sessionId = sid
  c2s_eq : c.clientToServerCidSecret = c2s
  s2c_eq : c.serverToClientCidSecret = s2c
  transmitCid : c.activeTransmitCid = deriveUdpCid c2s sid c.activeEpoch
  receiveCid : c.activeReceiveCid = deriveUdpCid s2c sid c.activeEpoch
  candidate : ∀ k, c.candidate = some k → k.epoch = c.activeEpoch + 1 ∧ k.epoch ≤ u64Max ∧
    k.transmitCid = deriveUdpCid c2s sid k.epoch ∧ k.receiveCid = deriveUdpCid s2c sid k.epoch

/-- The session's part, against what the client sent. -/
structure Serving (deriveUdpCid : DeriveUdpCid) (sid g : Nat) (c2s s2c : Bytes 32)
    (es : List PairEvent) (w : RoamingPair) (s : UdpSession) : Prop where
  indexed : Indexed deriveUdpCid w.table
  session : w.table.sessions.get? sid = some s
  generation : s.generation = g
  c2s_eq : s.clientToServerCidSecret = c2s
  s2c_eq : s.serverToClientCidSecret = s2c
  egress : w.egress.pathEpoch = s.active.epoch ∧ w.egress.peer = s.active.path.peer
  lastCommit : ∀ committed, s.lastCommit = some committed →
    committed.outcome.pathEpoch = s.active.epoch ∧
    ServerCommitted es s.active.epoch committed.path
  committed : ∀ epoch path, ServerCommitted es epoch path →
    epoch ≤ s.active.epoch ∧ (epoch = s.active.epoch → path = s.active.path)
  origin : ∀ c, s.candidate = some c →
    ∃ m ∈ w.toServer, ∃ cid, m.control = .init cid c.ticket.pathEpoch
  ticket : ∀ x, w.udpRoamingCandidate = some x → x.sessionId = sid
  tasks : ∀ task ∈ w.tasks, task.ticket.sessionId = sid
  routed : ∀ ingress ∈ w.routed, ingress.transmit ∈ w.toServer

/-- The event is no fresh commit. -/
def PairEvent.Settled (e : PairEvent) : Prop :=
  ∀ ingress outcome, e ≠ .response ingress (some (.ok ⟨outcome, false⟩))

theorem PairEvent.Settled.committed {es : List PairEvent} {e : PairEvent} (he : e.Settled)
    {epoch : Nat} {path : UdpPath} (h : ServerCommitted (es ++ [e]) epoch path) :
    ServerCommitted es epoch path :=
  h.of_snoc.resolve_right fun ⟨ingress, outcome, heq, _⟩ => he ingress outcome heq

/-- The messages in flight against both sides. -/
structure Carrying (es : List PairEvent) (w : RoamingPair) (s : UdpSession) : Prop where
  behind : w.client.activeEpoch ≤ s.active.epoch
  ahead : s.active.epoch ≤ w.client.activeEpoch + 1
  inits : ∀ m ∈ w.toServer, ∀ cid epoch, m.control = .init cid epoch →
    epoch ≤ w.client.activeEpoch + 1
  /-- Message ids are used by one candidate. -/
  owned : ∀ k, w.client.candidate = some k → ∀ m ∈ w.toServer, m.messageId = k.messageId →
    m.candidateId = k.candidateId
  commits : ∀ m ∈ w.toClient, ∀ cid epoch, m.control = .commit cid epoch →
    epoch ≤ s.active.epoch ∧ Certified es w.toServer m.messageId epoch
  ready : ∀ k, w.client.candidate = some k → k.phase = .commitReady →
    k.epoch ≤ s.active.epoch ∧ Certified es w.toServer k.messageId k.epoch

section Steps

variable {deriveUdpCid : DeriveUdpCid} {sid g : Nat} {c2s s2c : Bytes 32} {es : List PairEvent}
  {w : RoamingPair} {s : UdpSession}

/-! ## Steps of the client -/

theorem UdpClientRoaming.Formed.moved {c c' : UdpClientRoaming} {op : ClientOp}
    {x : Option UdpClientPathTransmit} (h : c.Formed deriveUdpCid sid c2s s2c)
    (hmove : ClientMove deriveUdpCid c op c' x) : c'.Formed deriveUdpCid sid c2s s2c := by
  cases hmove with
  | idle => exact h
  | dropped => exact { h with candidate := fun _ hk => by cases hk }
  | begun _ hle hk =>
    refine { h with candidate := fun k' hk' => ?_ }
    cases hk'
    subst hk
    exact ⟨rfl, hle, by rw [h.c2s_eq, h.sessionId], by rw [h.s2c_eq, h.sessionId]⟩
  | @challenged k _ _ hk | @repeated k _ _ hk | @ready k _ hk =>
    refine { h with candidate := fun k' hk' => ?_ }
    cases hk'
    exact h.candidate k hk
  | committed hk =>
    obtain ⟨-, -, h3, h4⟩ := h.candidate _ hk
    exact { h with transmitCid := h3, receiveCid := h4, candidate := fun _ hk => by cases hk }

theorem Carrying.commits_append (h : Carrying es w s) (e : PairEvent)
    (more : List UdpClientPathTransmit) : ∀ m ∈ w.toClient, ∀ cid epoch,
      m.control = .commit cid epoch → epoch ≤ s.active.epoch ∧
        Certified (es ++ [e]) (w.toServer ++ more) m.messageId epoch :=
  fun m hm cid epoch hc => ⟨(h.commits m hm cid epoch hc).1,
    (h.commits m hm cid epoch hc).2.mono e _⟩

/-- A control of the candidate is sent or repeated. -/
theorem Carrying.sends {k k' : UdpClientCandidate} {x : UdpClientPathTransmit}
    (h : Carrying es w s) (hf : w.client.Formed deriveUdpCid sid c2s s2c)
    (hk : w.client.candidate = some k) (hid : k'.identity = k.identity)
    (hp : k'.phase ≠ .commitReady) (hx : x = k.initTransmit ∨ ∃ token, x = k.responseTransmit token)
    (e : PairEvent) :
    Carrying (es ++ [e])
      { w with
        client := { w.client with candidate := some k' }
        toServer := w.toServer ++ [x] } s := by
  have hxid : x.candidateId = k.candidateId := by
    rcases hx with rfl | ⟨token, rfl⟩ <;> rfl
  simp only [UdpClientCandidate.identity, Prod.mk.injEq] at hid
  refine ⟨h.behind, h.ahead, fun m hm cid epoch hc => ?_, fun k'' hk'' m hm hmid => ?_,
    h.commits_append e _, fun k'' hk'' hp' => ?_⟩
  · rcases List.mem_append.mp hm with hm | hm
    · exact h.inits m hm cid epoch hc
    · rw [List.mem_singleton] at hm
      subst hm
      rcases hx with rfl | ⟨token, rfl⟩
      · cases hc
        exact (hf.candidate k hk).1.le
      · cases hc
  · cases hk''
    rw [hid.1]
    rcases List.mem_append.mp hm with hm | hm
    · exact h.owned k hk m hm (hmid.trans hid.2.1)
    · rw [List.mem_singleton] at hm
      subst hm
      exact hxid
  · cases hk''
    exact absurd hp' hp

theorem Carrying.moved {op : ClientOp} {c' : UdpClientRoaming}
    {x : Option UdpClientPathTransmit} (h : Carrying es w s)
    (hf : w.client.Formed deriveUdpCid sid c2s s2c) (hallow : w.Allows op)
    (hmove : ClientMove deriveUdpCid w.client op c' x) (e : PairEvent) :
    Carrying (es ++ [e]) { w with client := c', toServer := w.toServer ++ x.toList } s := by
  have hcommits := h.commits_append e x.toList
  cases hmove with
  | idle =>
    exact ⟨h.behind, h.ahead, by simpa using h.inits, by simpa using h.owned, hcommits,
      fun k hk hp => ⟨(h.ready k hk hp).1, (h.ready k hk hp).2.mono e _⟩⟩
  | dropped =>
    exact ⟨h.behind, h.ahead, by simpa using h.inits, fun _ hk => (by cases hk), hcommits,
      fun _ hk => by cases hk⟩
  | @begun candidateId messageId now k _ _ hk =>
    refine ⟨h.behind, h.ahead, fun m hm cid epoch hc => ?_, fun k' hk' m hm hid => ?_, hcommits,
      fun k' hk' hp => ?_⟩
    · rcases List.mem_append.mp hm with hm | hm
      · exact h.inits m hm cid epoch hc
      · rw [Option.toList_some, List.mem_singleton] at hm
        subst hm hk
        cases hc
        exact Nat.le_refl _
    · cases hk'
      rcases List.mem_append.mp hm with hold | hm
      · -- the message id is new
        subst hk
        exact absurd hid (hallow m hold)
      · rw [Option.toList_some, List.mem_singleton] at hm
        subst hm
        rfl
    · cases hk'
      subst hk
      cases hp
  | challenged hk =>
    refine h.sends hf hk ?_ (by simp) (.inr ⟨_, rfl⟩) e
    rfl
  | repeated hk hphase _ hkind =>
    refine h.sends hf hk ?_ ?_ hkind e
    · rfl
    · exact hphase
  | @ready k now hk =>
    refine ⟨h.behind, h.ahead, by simpa using h.inits, fun k' hk' m hm hid => ?_, hcommits,
      fun k' hk' _ => ?_⟩
    · cases hk'
      exact h.owned k hk m (by simpa using hm) hid
    · cases hk'
      exact hcommits _ hallow _ _ rfl
  | @committed k hk hp =>
    obtain ⟨hep, -⟩ := hf.candidate k hk
    have hah := h.ahead
    refine ⟨(h.ready k hk hp).1, ?_, fun m hm cid epoch hc => ?_, fun _ hk' => (by cases hk'),
      hcommits, fun _ hk' => by cases hk'⟩
    · show s.active.epoch ≤ k.epoch + 1
      omega
    · have := h.inits m (by simpa using hm) cid epoch hc
      show epoch ≤ k.epoch + 1
      omega

variable {e : PairEvent} {familyMatches sent : Bool} {socket epoch b budget now : Nat}
  {t t₀ : UdpRoamingTable} {path : UdpPath} {token : PathToken} {op : TableOp}
  {initial : InitialCids}

theorem Serving.moved (h : Serving deriveUdpCid sid g c2s s2c es w s)
    (c' : UdpClientRoaming) (more : List UdpClientPathTransmit) (he : e.Settled) :
    Serving deriveUdpCid sid g c2s s2c (es ++ [e])
      { w with client := c', toServer := w.toServer ++ more } s :=
  { h with
    lastCommit := fun committed hc => ⟨(h.lastCommit committed hc).1,
      (h.lastCommit committed hc).2.mono e⟩
    committed := fun epoch path hc => h.committed epoch path (he.committed hc)
    origin := fun c hc => by
      obtain ⟨m, hm, hcid⟩ := h.origin c hc
      exact ⟨m, List.mem_append_left _ hm, hcid⟩
    routed := fun ingress hi => List.mem_append_left _ (h.routed ingress hi) }

/-! ## Steps of the server -/

/-- The server's side of the pair, moved on. -/
def RoamingPair.serve (w : RoamingPair) (table : UdpRoamingTable)
    (udpRoamingCandidate : Option CandidateTicket) (tasks : List InitTask)
    (routed : List RoutedIngress) (toClient : List PathDatagram) : RoamingPair :=
  { w with table, udpRoamingCandidate, tasks, routed, toClient }

section Serve

variable {t' : UdpRoamingTable} {x : Option CandidateTicket} {tasks : List InitTask}
  {routed : List RoutedIngress} {toClient : List PathDatagram} {op : TableOp} {r : TableResult}
  {e : PairEvent}

theorem Serving.step (h : Serving deriveUdpCid sid g c2s s2c es w s) (he : e.Settled)
    (hd : Does deriveUdpCid w.table op t' r) (hk : TableEvent.Keeps sid g ⟨op, r⟩)
    (hinit : ∀ lookup epoch, TableEvent.inits ⟨op, r⟩ = some (lookup, epoch) →
      lookup.sessionId = sid → ∃ m ∈ w.toServer, ∃ cid, m.control = .init cid epoch)
    (hticket : ∀ y, x = some y → y.sessionId = sid)
    (htasks : ∀ task ∈ tasks, task.ticket.sessionId = sid)
    (hrouted : ∀ ingress ∈ routed, ingress.transmit ∈ w.toServer) :
    ∃ s', Serving deriveUdpCid sid g c2s s2c (es ++ [e]) (w.serve t' x tasks routed toClient) s' ∧
      s'.active.epoch = s.active.epoch := by
  have hi' := h.indexed.of_does hd
  have hg : s.bearing.1 = g := h.generation
  obtain ⟨s', hs', hb, hO⟩ := hd.holds (b := s.bearing) (O := fun ticket => ∃ m ∈ w.toServer,
    ∃ cid, m.control = .init cid ticket.pathEpoch) h.indexed (hg.symm ▸ hk)
    (fun lookup epoch hin hlk ticket ht => ht ▸ hinit lookup epoch hin hlk)
    ⟨s, h.session, rfl, h.origin⟩
  simp only [UdpSession.bearing, Prod.mk.injEq] at hb
  obtain ⟨hgen, hc2s, hs2c, hepoch, hpath, hlast⟩ := hb
  refine ⟨s', ⟨hi', hs', hgen.trans h.generation, hc2s.trans h.c2s_eq, hs2c.trans h.s2c_eq, ?_,
    fun committed hc => ?_, fun epoch path hc => ?_, hO, hticket, htasks, hrouted⟩, hepoch⟩
  · rw [hepoch, hpath]
    exact h.egress
  · rw [hepoch]
    obtain ⟨h1, h2⟩ := h.lastCommit committed (hlast ▸ hc)
    exact ⟨h1, h2.mono e⟩
  · rw [hepoch, hpath]
    exact h.committed epoch path (he.committed hc)

/-- The server does not move, and certifies every PATH_COMMIT it sends. -/
theorem Carrying.serve {s' : UdpSession} (h : Carrying es w s)
    (hepoch : s'.active.epoch = s.active.epoch)
    (hnew : ∀ m ∈ toClient, m ∈ w.toClient ∨ ∀ cid epoch, m.control = .commit cid epoch →
      epoch ≤ s.active.epoch ∧ Certified (es ++ [e]) w.toServer m.messageId epoch) :
    Carrying (es ++ [e]) (w.serve t' x tasks routed toClient) s' := by
  refine ⟨by rw [hepoch]; exact h.behind, by rw [hepoch]; exact h.ahead, h.inits, h.owned,
    fun m hm cid epoch hc => ?_, fun k hk hp => ?_⟩
  · rw [hepoch]
    rcases hnew m hm with hold | hcert
    · obtain ⟨h1, h2⟩ := h.commits m hold cid epoch hc
      exact ⟨h1, h2.later e⟩
    · exact hcert cid epoch hc
  · rw [hepoch]
    obtain ⟨h1, h2⟩ := h.ready k hk hp
    exact ⟨h1, h2.later e⟩

end Serve

/-! ## Commits -/

theorem commitRoamingWith_ok {egress egress' : UdpEgressSnapshot} {commit : UdpEgressCommit}
    (h : egress.commitRoamingWith commit familyMatches sent = (egress', .ok ())) :
    egress'.pathEpoch = commit.nextEpoch ∧ egress'.peer = commit.peer := by
  unfold UdpEgressSnapshot.commitRoamingWith at h
  split at h
  · cases h
  · split_ifs at h
    all_goals cases h
    exact ⟨rfl, rfl⟩

theorem commitRoamingWith_error {egress egress' : UdpEgressSnapshot} {commit : UdpEgressCommit}
    {error : UdpEgressPublishError}
    (h : egress.commitRoamingWith commit familyMatches sent = (egress', .error error)) :
    egress' = egress := by
  unfold UdpEgressSnapshot.commitRoamingWith at h
  split at h
  · cases h; rfl
  · split_ifs at h
    all_goals cases h
    all_goals rfl

theorem publishCommit_ok {messageId : Nat} {outcome : CommitOutcome}
    {world world' : UdpEgressSnapshot × List PathDatagram}
    (h : RoamingPair.publishCommit messageId socket familyMatches sent outcome world =
      (world', .ok ())) :
    world'.1.pathEpoch = outcome.pathEpoch ∧ world'.1.peer = outcome.newPath.peer ∧
      world'.2 = world.2 ++ [RoamingPair.pathCommit messageId outcome] := by
  unfold RoamingPair.publishCommit UdpEgressCommit.fromOutcome at h
  split at h
  · cases h
  · next commit hcommit =>
    split_ifs at hcommit
    cases hcommit
    split at h
    · next hcr =>
      cases h
      obtain ⟨h1, h2⟩ := commitRoamingWith_ok hcr
      exact ⟨h1, h2, rfl⟩
    · cases h

theorem publishCommit_error {messageId : Nat} {outcome : CommitOutcome}
    {world world' : UdpEgressSnapshot × List PathDatagram} {error : UdpEgressPublishError}
    (h : RoamingPair.publishCommit messageId socket familyMatches sent outcome world =
      (world', .error error)) :
    world' = world := by
  unfold RoamingPair.publishCommit at h
  split at h
  · cases h; rfl
  · split at h
    · cases h
    · next hcr =>
      cases h
      rw [commitRoamingWith_error hcr]

theorem UdpRoamingTable.CommitEffect.world_eq {π ε : Type*}
    {publish : CommitOutcome → π → π × Except ε Unit} {world : π} {ticket : CandidateTicket}
    {x : UdpRoamingTable × π × Except (UdpRoamingCommitError ε) CommitDecision}
    (h : CommitEffect deriveUdpCid publish t world ticket path epoch token b budget now x)
    (hpub : ∀ {outcome world' error}, publish outcome world = (world', .error error) →
      world' = world) :
    x.2.1 = world ∨ ∃ outcome, x.2.2 = .ok ⟨outcome, false⟩ := by
  cases h with
  | unpublished _ _ hp => exact .inl (hpub hp)
  | committed => exact .inr ⟨_, rfl⟩
  | _ => exact .inl rfl

theorem keeps_of_not_fresh {ε : Type*} {ticket : CandidateTicket}
    {publish : CommitOutcome → Except Unit Unit}
    {result : Except (UdpRoamingCommitError ε) CommitDecision}
    (h : ¬ ∃ outcome, result = .ok ⟨outcome, false⟩) :
    TableEvent.Keeps sid g ⟨.commit ticket path epoch token b budget now publish,
      .committed (eraseError result)⟩ := by
  rcases result with (_ | _) | ⟨outcome, _ | _⟩
  · trivial
  · trivial
  · exact absurd ⟨outcome, rfl⟩ h
  · trivial

section Response

variable {messageId socket : Nat} {familyMatches sent : Bool} {ticket : CandidateTicket}
  {ingress : RoutedIngress} {epoch b budget now : Nat} {token : PathToken}
  {x : UdpRoamingTable × (UdpEgressSnapshot × List PathDatagram) × RoamingPair.CommitResult}

theorem responseArrived_last {result : Option RoamingPair.CommitResult}
    (hin : ingress.transmit ∈ w.toServer)
    (hctl : ingress.transmit.control = .response epoch token) :
    ResponseArrived (es ++ [.response ingress result]) w.toServer ingress.transmit.messageId epoch
      ingress.receivedPath :=
  ⟨ingress, result, by simp, hin, rfl, rfl, token, hctl⟩

theorem fresh_commit_step (h : Serving deriveUdpCid sid g c2s s2c es w s) (hw : Carrying es w s)
    (heff : CommitEffect deriveUdpCid
      (RoamingPair.publishCommit ingress.transmit.messageId ingress.socket familyMatches sent)
      w.table (w.egress, w.toClient) ticket ingress.receivedPath epoch token b budget now x)
    {outcome : CommitOutcome} (hfresh : x.2.2 = .ok ⟨outcome, false⟩)
    (hsid : ticket.sessionId = sid) (hin : ingress.transmit ∈ w.toServer)
    (hctl : ingress.transmit.control = .response epoch token) :
    ∃ s', Serving deriveUdpCid sid g c2s s2c (es ++ [.response ingress (some x.2.2)])
        { w with table := x.1, egress := x.2.1.1, toClient := x.2.1.2 } s' ∧
      Carrying (es ++ [.response ingress (some x.2.2)])
        { w with table := x.1, egress := x.2.1.1, toClient := x.2.1.2 } s' := by
  have hi' := h.indexed.of_does heff.does
  cases heff with
  | @committed s₀ c aliases outcome' world' hl _ hpath hepoch _ _ _ hout hpub =>
    cases hfresh
    obtain rfl : s₀ = s := by
      have := hl.session
      rw [hsid, h.session] at this
      exact (Option.some.inj this).symm
    obtain ⟨hegress, hpeer, hnet⟩ := publishCommit_ok hpub
    obtain ⟨-, -, hnext, -⟩ := (hl.formed h.indexed).candidate c hl.candidate
    rw [hl.ticket_eq] at hnext
    have hoe : outcome.pathEpoch = ticket.pathEpoch := by rw [hout]; rfl
    have hop : outcome.newPath = ingress.receivedPath := by rw [hout]; rfl
    have hcommitted : ServerCommitted
        (es ++ [.response ingress (some (.ok ⟨outcome, false⟩))]) ticket.pathEpoch
        ingress.receivedPath := ⟨ingress, outcome, by simp, hoe, hop⟩
    let s' : UdpSession := { s₀.credited c b with
      aliases
      active := ⟨outcome.newPath, ticket.pathEpoch, outcome.receiveCid, outcome.transmitCid, budget,
        outcome.pmtu.pmtuGeneration⟩
      lastCommit := some ⟨ticket, outcome.newPath, c.challenge, outcome⟩
      candidate := none }
    refine ⟨s', ⟨hi', ?_, h.generation, h.c2s_eq, h.s2c_eq, ⟨hegress.trans hoe, hpeer⟩,
      fun committed hc => ?_, fun e p hc => ?_, nofun, h.ticket, h.tasks, h.routed⟩, ?_⟩
    · show KeyMap.get? (KeyMap.insert _ ticket.sessionId _) sid = _
      rw [hsid]
      exact KeyMap.get?_insert_self _ _ _
    · cases hc
      exact ⟨hoe, hop ▸ hcommitted⟩
    · show e ≤ ticket.pathEpoch ∧ (e = ticket.pathEpoch → p = outcome.newPath)
      rcases hc.of_snoc with hold | ⟨_, _, heq, rfl, rfl⟩
      · have := (h.committed e p hold).1
        exact ⟨by omega, fun heq => by omega⟩
      · cases heq
        exact ⟨hoe.le, fun _ => rfl⟩
    · -- the client asked for this epoch, so it is at most one behind
      have horigin := h.origin c hl.candidate
      obtain ⟨m, hm, cid, hcid⟩ := horigin
      have hasked := hw.inits m hm cid _ hcid
      rw [hl.ticket_eq] at hasked
      have hbehind := hw.behind
      refine ⟨?_, hasked, hw.inits, hw.owned, fun m hm cid e hc => ?_, fun k hk hp => ?_⟩
      · show w.client.activeEpoch ≤ ticket.pathEpoch
        omega
      · show e ≤ ticket.pathEpoch ∧ _
        dsimp only at hm
        rw [hnet] at hm
        rcases List.mem_append.mp hm with hm | hm
        · obtain ⟨h1, h2⟩ := hw.commits m hm cid e hc
          exact ⟨by omega, h2.later _⟩
        · rw [List.mem_singleton] at hm
          subst hm
          cases hc
          refine ⟨hoe.le, ingress.receivedPath, hoe ▸ hcommitted, ?_⟩
          rw [hoe, ← hepoch]
          exact responseArrived_last hin hctl
      · show k.epoch ≤ ticket.pathEpoch ∧ _
        obtain ⟨h1, h2⟩ := hw.ready k hk hp
        exact ⟨by omega, h2.later _⟩
  | _ => cases hfresh

theorem resend_commits (h : Serving deriveUdpCid sid g c2s s2c es w s)
    (heff : CommitEffect deriveUdpCid
      (RoamingPair.publishCommit ingress.transmit.messageId ingress.socket familyMatches sent)
      w.table (w.egress, w.toClient) ticket ingress.receivedPath epoch token b budget now x)
    (hsid : ticket.sessionId = sid) (hin : ingress.transmit ∈ w.toServer)
    (hctl : ingress.transmit.control = .response epoch token)
    {m : PathDatagram}
    (hm : m ∈ RoamingPair.resend ingress.transmit.messageId sent w.toClient x.2.2) :
    m ∈ w.toClient ∨ ∃ outcome, m = RoamingPair.pathCommit ingress.transmit.messageId outcome ∧
      outcome.pathEpoch = s.active.epoch ∧
      Certified (es ++ [.response ingress (some x.2.2)]) w.toServer ingress.transmit.messageId
        s.active.epoch := by
  cases heff with
  | @replayed s₀ committed hs₀ _ hc h1 h2 h3 h4 =>
    unfold RoamingPair.resend at hm
    dsimp only at hm
    split_ifs at hm
    · rcases List.mem_append.mp hm with hm | hm
      · exact .inl hm
      · rw [List.mem_singleton] at hm
        rw [hsid, h.session] at hs₀
        cases hs₀
        obtain ⟨hoe, hsc⟩ := h.lastCommit committed hc
        obtain ⟨-, -, hepoch, -⟩ := (h.indexed.session sid s h.session).lastCommit committed hc
        refine .inr ⟨_, hm, hoe, committed.path, hsc.mono _, ?_⟩
        rw [← hepoch, h1, ← h3, h2]
        exact responseArrived_last hin hctl
    · exact .inl hm
  | committed | _ => exact .inl hm

end Response

/-! ## Every step -/

variable (deriveUdpCid sid g c2s s2c) in
def Paired (es : List PairEvent) (w : RoamingPair) : Prop :=
  w.client.Formed deriveUdpCid sid c2s s2c ∧
    ∃ s, Serving deriveUdpCid sid g c2s s2c es w s ∧ Carrying es w s

theorem Paired.serve {t' : UdpRoamingTable} {x : Option CandidateTicket} {tasks : List InitTask}
    {routed : List RoutedIngress} {toClient : List PathDatagram} {r : TableResult} (he : e.Settled)
    (hf : w.client.Formed deriveUdpCid sid c2s s2c) (h : Serving deriveUdpCid sid g c2s s2c es w s)
    (hw : Carrying es w s) (hd : Does deriveUdpCid w.table op t' r)
    (hk : TableEvent.Keeps sid g ⟨op, r⟩)
    (hinit : ∀ lookup epoch, TableEvent.inits ⟨op, r⟩ = some (lookup, epoch) →
      lookup.sessionId = sid → ∃ m ∈ w.toServer, ∃ cid, m.control = .init cid epoch)
    (hticket : ∀ y, x = some y → y.sessionId = sid)
    (htasks : ∀ task ∈ tasks, task.ticket.sessionId = sid)
    (hrouted : ∀ ingress ∈ routed, ingress.transmit ∈ w.toServer)
    (hnew : ∀ m ∈ toClient, m ∈ w.toClient ∨ ∀ cid epoch, m.control ≠ .commit cid epoch) :
    Paired deriveUdpCid sid g c2s s2c (es ++ [e]) (w.serve t' x tasks routed toClient) := by
  obtain ⟨s', h', hepoch⟩ := h.step he hd hk hinit hticket htasks hrouted
  refine ⟨hf, s', h', hw.serve hepoch fun m hm => ?_⟩
  exact (hnew m hm).imp_right fun hno cid epoch hc => absurd hc (hno cid epoch)

theorem observed_sessionId {t' : UdpRoamingTable} {lookup : CidLookup} {cid : UdpCid}
    {challenge : CandidateChallenge} (hi : Indexed deriveUdpCid t)
    (hd : Does deriveUdpCid t (.observe lookup path cid epoch b token now) t'
      (.observed (.ok challenge))) :
    challenge.ticket.sessionId = lookup.sessionId := by
  obtain ⟨t₁, t₂, h1, h2, -⟩ := hd
  cases h2 with
  | quiet hq => cases hq
  | observed hin _ hc => exact (((hi.of_tidy h1).session _ _ hin.session).candidate _ hc).1
  | started _ _ _ _ _ _ _ hx => rw [hx]
  | removed _ hop => cases hop

theorem clearTicket_eq (w : RoamingPair) (table : UdpRoamingTable) (ticket : CandidateTicket) :
    ∃ x, RoamingPair.clearTicket { w with table } ticket =
        w.serve table x w.tasks w.routed w.toClient ∧
      ∀ y, x = some y → w.udpRoamingCandidate = some y := by
  unfold RoamingPair.clearTicket
  split_ifs
  · exact ⟨none, rfl, nofun⟩
  · exact ⟨w.udpRoamingCandidate, rfl, fun _ => id⟩

theorem Foreign.keeps (h : op.Foreign sid g) (r : TableResult) :
    TableEvent.Keeps sid g ⟨op, r⟩ := by
  cases op with
  | commit =>
    unfold TableEvent.Keeps
    split
    · next heq => cases heq; exact h
    · next heq => cases heq
    · next heq => cases heq
    · next heq => cases heq
    · trivial
  | remove | removeGeneration | dropOwner => exact h
  | _ => trivial

theorem Foreign.inits (h : op.Foreign sid g) {r : TableResult} {lookup : CidLookup}
    (hin : TableEvent.inits ⟨op, r⟩ = some (lookup, epoch)) : lookup.sessionId ≠ sid := by
  cases op with
  | observe => cases hin; exact h
  | _ => cases hin

theorem Paired.respond {ingress : RoutedIngress} (h : Paired deriveUdpCid sid g c2s s2c es w)
    (hin : ingress ∈ w.routed) (hctl : ingress.transmit.control = .response epoch token)
    (b budget now : Nat) (familyMatches sent : Bool) :
    Paired deriveUdpCid sid g c2s s2c
      (es ++ [.response ingress
        (w.respond deriveUdpCid ingress epoch token b budget now familyMatches sent).2])
      (w.respond deriveUdpCid ingress epoch token b budget now familyMatches sent).1 := by
  obtain ⟨hf, s, hs, hw⟩ := h
  have hmem := hs.routed ingress hin
  unfold RoamingPair.respond
  cases hticket : w.udpRoamingCandidate with
  | none =>
    have hd : Does deriveUdpCid w.table (.lookup ingress.transmit.destinationCid) w.table
        (.found none) := .of_tidy .refl trivial
    exact Paired.serve nofun hf hs hw hd trivial nofun hs.ticket hs.tasks hs.routed
      (fun m hm => .inl hm)
  | some ticket =>
    have hsid := hs.ticket ticket hticket
    have heff := commit_effect deriveUdpCid
      (RoamingPair.publishCommit ingress.transmit.messageId ingress.socket familyMatches sent)
      w.table (w.egress, w.toClient) ticket ingress.receivedPath epoch token b budget now
    dsimp only
    rw [← hticket]
    generalize w.table.validateResponseAndCommitWith deriveUdpCid
      (RoamingPair.publishCommit ingress.transmit.messageId ingress.socket familyMatches sent)
      (w.egress, w.toClient) ticket ingress.receivedPath epoch token b budget now = x at heff ⊢
    by_cases hfresh : ∃ outcome, x.2.2 = .ok ⟨outcome, false⟩
    · obtain ⟨outcome, hok⟩ := hfresh
      obtain ⟨s', hs', hw'⟩ := fresh_commit_step hs hw heff hok hsid hmem hctl
      have hno : RoamingPair.resend ingress.transmit.messageId sent x.2.1.2 x.2.2 = x.2.1.2 := by
        rw [hok]; rfl
      rw [hno]
      exact ⟨hf, s', hs', hw'⟩
    · have hworld := (heff.world_eq fun hp => publishCommit_error hp).resolve_right hfresh
      obtain ⟨table, world, result⟩ := x
      subst hworld
      have hsettled : PairEvent.Settled (.response ingress (some result)) := by
        rintro _ outcome heq
        cases heq
        exact hfresh ⟨outcome, rfl⟩
      obtain ⟨s', hs', hepoch⟩ := hs.step (e := .response ingress (some result)) hsettled heff.does
        (keeps_of_not_fresh hfresh) nofun hs.ticket hs.tasks hs.routed
      refine ⟨hf, s', hs', hw.serve hepoch fun m hm => ?_⟩
      refine (resend_commits hs heff hsid hmem hctl hm).imp_right ?_
      rintro ⟨outcome, rfl, hoe, hcert⟩ cid e hc
      cases hc
      rw [hoe]
      exact ⟨Nat.le_refl _, hcert⟩

theorem Paired.step {w' : RoamingPair} (h : Paired deriveUdpCid sid g c2s s2c es w)
    (hstep : PairStep deriveUdpCid sid g w e w') :
    Paired deriveUdpCid sid g c2s s2c (es ++ [e]) w' := by
  cases hstep with
  | response b budget now familyMatches sent hadmit hctl =>
    exact h.respond hadmit.1 hctl b budget now familyMatches sent
  | @client op hallow =>
    obtain ⟨hf, s, hs, hw⟩ := h
    have hmove := client_move deriveUdpCid w.client op
    exact ⟨hf.moved hmove, s, hs.moved _ _ nofun, hw.moved hf hallow hmove _⟩
  | @route m lookup path socket hm hlookup =>
    obtain ⟨hf, s, hs, hw⟩ := h
    have hd : Does deriveUdpCid w.table (.lookup m.destinationCid) w.table (.found lookup) :=
      .of_tidy .refl trivial
    exact Paired.serve nofun hf hs hw hd trivial nofun hs.ticket hs.tasks
      (forall_mem_snoc.mpr ⟨hs.routed, hm⟩) (fun m hm => .inl hm)
  | @init ingress cid epoch b token now hadmit hctl =>
    obtain ⟨hf, s, hs, hw⟩ := h
    have hd : Does deriveUdpCid w.table (.observe ingress.lookup ingress.receivedPath cid epoch b
        token now) _ (.observed (w.table.observeAuthenticatedCandidateAt deriveUdpCid
          ingress.lookup ingress.receivedPath cid epoch b token now).2) :=
      apply_changes deriveUdpCid w.table _
    have hinit : ∀ lookup e, TableEvent.inits ⟨.observe ingress.lookup ingress.receivedPath cid
        epoch b token now, .observed (w.table.observeAuthenticatedCandidateAt deriveUdpCid
          ingress.lookup ingress.receivedPath cid epoch b token now).2⟩ = some (lookup, e) →
        lookup.sessionId = sid → ∃ m ∈ w.toServer, ∃ cid, m.control = .init cid e := by
      intro lookup e he _
      cases he
      exact ⟨_, hs.routed ingress hadmit.1, cid, hctl⟩
    unfold RoamingPair.observeInit
    dsimp only
    split
    · exact Paired.serve nofun hf hs hw hd trivial hinit hs.ticket hs.tasks hs.routed
        (fun m hm => .inl hm)
    · next challenge hok =>
      refine Paired.serve nofun hf hs hw hd trivial hinit hs.ticket
        (forall_mem_snoc.mpr ⟨hs.tasks, ?_⟩) hs.routed (fun m hm => .inl hm)
      rw [hok] at hd
      exact (observed_sessionId hs.indexed hd).trans hadmit.2.1
  | @store task hmem =>
    obtain ⟨hf, s, hs, hw⟩ := h
    have hd : Does deriveUdpCid w.table (.lookup task.cid) w.table (.found none) :=
      .of_tidy .refl trivial
    refine Paired.serve nofun hf hs hw hd trivial nofun (fun x hx => ?_)
      (forall_mem_snoc.mpr ⟨hs.tasks, hs.tasks task hmem⟩) hs.routed (fun m hm => .inl hm)
    cases hx
    exact hs.tasks task hmem
  | @failChallenge task hmem =>
    obtain ⟨hf, s, hs, hw⟩ := h
    have hd : Does deriveUdpCid w.table (.abort task.ticket) (w.table.abortCandidate task.ticket).1
        (.aborted true) := .of_tidy (abortCandidate_tidy task.ticket) trivial
    unfold RoamingPair.failChallenge
    obtain ⟨x, heq, hx⟩ := clearTicket_eq w (w.table.abortCandidate task.ticket).1 task.ticket
    rw [heq]
    exact Paired.serve nofun hf hs hw hd trivial nofun
      (fun y hy => hs.ticket y (hx y hy)) hs.tasks hs.routed (fun m hm => .inl hm)
  | @challenge task wireBytes now hmem =>
    obtain ⟨hf, s, hs, hw⟩ := h
    have hd := apply_changes deriveUdpCid w.table (.authorize task.ticket wireBytes now)
    unfold RoamingPair.sendChallenge
    dsimp only
    split
    · -- a challenge is no marker of a commit
      exact Paired.serve nofun hf hs hw hd trivial nofun hs.ticket hs.tasks hs.routed
        (forall_mem_snoc.mpr ⟨fun m hm => .inl hm, .inr nofun⟩)
    · exact Paired.serve nofun hf hs hw hd trivial nofun hs.ticket hs.tasks hs.routed
        (fun m hm => .inl hm)
    · obtain ⟨x, heq, hx⟩ := clearTicket_eq w
        (w.table.authorizeCandidateSend task.ticket wireBytes now).1 task.ticket
      rw [heq]
      exact Paired.serve nofun hf hs hw hd trivial nofun
        (fun y hy => hs.ticket y (hx y hy)) hs.tasks hs.routed (fun m hm => .inl hm)
  | @table op hforeign =>
    obtain ⟨hf, s, hs, hw⟩ := h
    exact Paired.serve nofun hf hs hw (apply_changes deriveUdpCid w.table op)
      (Foreign.keeps hforeign _)
      (fun lookup epoch hin hlk => absurd hlk (Foreign.inits hforeign hin))
      hs.ticket hs.tasks hs.routed (fun m hm => .inl hm)

/-! ## Runs -/

theorem registered_does
    (hreg : t₀.registerSession deriveUdpCid sid c2s s2c path budget = (t, .ok initial)) :
    Does deriveUdpCid t₀ (.register sid c2s s2c path budget) t (.registered (.ok initial)) := by
  have hd : Does deriveUdpCid t₀ (.register sid c2s s2c path budget)
      (t₀.registerSession deriveUdpCid sid c2s s2c path budget).1
      (.registered (t₀.registerSession deriveUdpCid sid c2s s2c path budget).2) :=
    apply_changes deriveUdpCid t₀ _
  rw [hreg] at hd
  exact hd

theorem registered_session
    (hreg : t₀.registerSession deriveUdpCid sid c2s s2c path budget = (t, .ok initial)) :
    ∃ s, t.sessions.get? sid = some s ∧ s.generation = initial.pmtu.sessionGeneration ∧
      s.clientToServerCidSecret = c2s ∧ s.serverToClientCidSecret = s2c ∧ s.active.epoch = 0 ∧
      s.active.path = path ∧ s.candidate = none ∧ s.lastCommit = none := by
  obtain ⟨t₁, t₂, -, h2, h3⟩ := registered_does hreg
  cases h2 with
  | quiet hq => cases hq
  | registered _ _ _ _ _ hinit =>
    refine ⟨_, tidy_session h3 (KeyMap.get?_insert_self _ _ _) rfl, ?_, rfl, rfl, rfl, rfl, rfl, rfl⟩
    rw [hinit]
  | removed _ hop => cases hop

theorem paired_start {client : UdpClientRoaming} (hi : Indexed deriveUdpCid t₀)
    (hreg : t₀.registerSession deriveUdpCid sid c2s s2c path budget = (t, .ok initial))
    (hclient : UdpClientRoaming.new deriveUdpCid sid c2s s2c = .ok client) :
    Paired deriveUdpCid sid initial.pmtu.sessionGeneration c2s s2c []
      (.start client t ⟨socket, path.peer, initial.transmit, 0⟩) := by
  have hi' := hi.of_does (registered_does hreg)
  obtain ⟨s, hs, hg, h1, h2, hepoch, hpath, hcand, hlast⟩ := registered_session hreg
  have hnone : ∀ {epoch path}, ¬ ServerCommitted [] epoch path := by
    rintro epoch path ⟨_, _, hmem, -⟩
    cases hmem
  unfold UdpClientRoaming.new at hclient
  split_ifs at hclient
  cases hclient
  refine ⟨⟨rfl, rfl, rfl, rfl, rfl, nofun⟩, s, ⟨hi', hs, hg, h1, h2, ⟨hepoch.symm, ?_⟩,
    fun committed hc => ?_, fun epoch path hc => absurd hc hnone, fun c hc => ?_, nofun, nofun,
    nofun⟩, ⟨Nat.zero_le _, ?_, nofun, nofun, nofun, nofun⟩⟩
  · rw [hpath]; rfl
  · rw [hlast] at hc; cases hc
  · rw [hcand] at hc; cases hc
  · rw [hepoch]; exact Nat.zero_le _

theorem Paired.run {w₀ : RoamingPair} (h0 : Paired deriveUdpCid sid g c2s s2c [] w₀)
    (h : Run (PairStep deriveUdpCid sid g) w₀ es w) : Paired deriveUdpCid sid g c2s s2c es w :=
  h.invariant h0 fun _ hp hs => hp.step hs

/-- A candidate that may be committed was committed by the server, on the path
where a response of the candidate arrived. -/
theorem commit_certified (hf : w.client.Formed deriveUdpCid sid c2s s2c)
    (hs : Serving deriveUdpCid sid g c2s s2c es w s) (hw : Carrying es w s) {k : UdpClientCandidate}
    (hk : w.client.candidate = some k) (hp : k.phase = .commitReady) :
    s.active.epoch = k.epoch ∧ ServerCommitted es k.epoch s.active.path ∧
      ∃ ingress result token, .response ingress result ∈ es ∧
        ingress.receivedPath = s.active.path ∧ ingress.transmit.candidateId = k.candidateId ∧
        ingress.transmit.messageId = k.messageId ∧
        ingress.transmit.control = .response k.epoch token := by
  obtain ⟨hle, path, hsc, ingress, result, hmem, hin, hid, hpath, token, hctl⟩ := hw.ready k hk hp
  have hepoch : s.active.epoch = k.epoch := by
    have := (hf.candidate k hk).1
    have := hw.ahead
    omega
  obtain rfl : path = s.active.path := (hs.committed _ _ hsc).2 hepoch.symm
  exact ⟨hepoch, hsc, ingress, result, token, hmem, hpath, hw.owned k hk _ hin hid, hid, hctl⟩

end Steps

/-- **Client and server agree.** In every state that a client and its session
reach over a network that loses, repeats and reorders: the server is at the
client's epoch or the next one, the client's transmit CIDs route to the session,
the directional CIDs match when the epochs do, and the client can commit a
candidate only when the server has committed its epoch, on a path on which a
response of the candidate arrived. -/
theorem roaming_agreement {deriveUdpCid : DeriveUdpCid}
    {maxSessions maxCandidates ttl window starts : Nat} {prior : List TableEvent}
    {t₀ t : UdpRoamingTable} (hreach : Run (Step deriveUdpCid)
      (withCandidatePolicy maxSessions maxCandidates ttl window starts) prior t₀)
    {sid budget socket : Nat} {c2s s2c : Bytes 32} {path : UdpPath} {initial : InitialCids}
    (hreg : t₀.registerSession deriveUdpCid sid c2s s2c path budget = (t, .ok initial))
    {client : UdpClientRoaming}
    (hclient : UdpClientRoaming.new deriveUdpCid sid c2s s2c = .ok client)
    {es : List PairEvent} {w : RoamingPair}
    (h : Run (PairStep deriveUdpCid sid initial.pmtu.sessionGeneration)
      (.start client t ⟨socket, path.peer, initial.transmit, 0⟩) es w) :
    ∃ s, w.table.sessions.get? sid = some s ∧
      s.generation = initial.pmtu.sessionGeneration ∧
      (w.client.activeEpoch ≤ s.active.epoch ∧ s.active.epoch ≤ w.client.activeEpoch + 1) ∧
      w.table.cidIndex.get? w.client.activeTransmitCid =
        some ⟨sid, s.generation, w.client.activeEpoch⟩ ∧
      (∀ k, w.client.candidate = some k →
        w.table.cidIndex.get? k.transmitCid = some ⟨sid, s.generation, k.epoch⟩) ∧
      (w.client.activeEpoch = s.active.epoch →
        w.client.activeTransmitCid = s.active.receiveCid ∧
        w.client.activeReceiveCid = s.active.transmitCid) ∧
      ∀ commit client', w.client.commitCandidate commit = (client', .ok ()) →
        ∃ k, w.client.candidate = some k ∧ k.commit = commit ∧ s.active.epoch = k.epoch ∧
          ServerCommitted es k.epoch s.active.path ∧
          ∃ ingress result token, .response ingress result ∈ es ∧
            ingress.receivedPath = s.active.path ∧
            ingress.transmit.candidateId = k.candidateId ∧
            ingress.transmit.messageId = k.messageId ∧
            ingress.transmit.control = .response k.epoch token := by
  have hi : Indexed deriveUdpCid t₀ := (indexed_new ..).run hreach
  obtain ⟨hf, s, hs, hw⟩ := (paired_start hi hreg hclient).run h
  have hform := hs.indexed.session sid s hs.session
  have hbehind := hw.behind
  have hahead := hw.ahead
  refine ⟨s, hs.session, hs.generation, ⟨hbehind, hahead⟩, ?_, fun k hk => ?_, fun heq => ?_,
    fun commit client' hc => ?_⟩
  · rw [hf.transmitCid, ← hs.c2s_eq]
    exact hs.indexed.owns hs.session hahead (by omega)
  · obtain ⟨hepoch, -, htransmit, -⟩ := hf.candidate k hk
    rw [htransmit, ← hs.c2s_eq]
    exact hs.indexed.owns hs.session (by omega) (by omega)
  · rw [hf.transmitCid, hf.receiveCid, hform.receiveCid, hform.transmitCid, hs.c2s_eq, hs.s2c_eq,
      heq]
    exact ⟨rfl, rfl⟩
  · obtain ⟨k, hk, hp, rfl, -⟩ := commitCandidate_ok.mp hc
    exact ⟨k, hk, rfl, commit_certified hf hs hw hk hp⟩

/-- A first migration, up to the client's commit. -/
theorem roaming_agreement_first_path :
    ∃ deriveUdpCid t client es w s, Run (PairStep deriveUdpCid 7 1)
        (.start client t ⟨4, ⟨1, 1⟩, .replicate 8 32, 0⟩) es w ∧
      w.table.sessions.get? 7 = some s ∧ w.client.activeEpoch = 0 ∧ s.active.epoch = 1 ∧
      ServerCommitted es 1 s.active.path := by
  let derive : DeriveUdpCid := fun secret _ e => .replicate 8 (secret[0] + UInt8.ofNat e)
  let path : UdpPath := ⟨0, ⟨2, 2⟩⟩
  let token : PathToken := .replicate 16 1
  let initial : InitialCids := ⟨.replicate 8 16, .replicate 8 32, ⟨7, 1, 0, 0, ⟨0, ⟨1, 1⟩⟩⟩⟩
  let client : UdpClientRoaming :=
    ⟨7, .replicate 32 16, .replicate 32 32, 0, .replicate 8 16, .replicate 8 32, none⟩
  let init : RoutedIngress :=
    ⟨⟨7, 1, 0, 1⟩, path, 5, ⟨1, .replicate 8 17, 9, .init (.replicate 8 33) 1⟩⟩
  let task : InitTask := ⟨⟨7, 1, 1, 1⟩, token, .replicate 8 33, 1, 9, false⟩
  let response : RoutedIngress :=
    ⟨⟨7, 1, 0, 1⟩, path, 5, ⟨1, .replicate 8 17, 9, .response 1 token⟩⟩
  let commit : UdpClientPathCommit := ⟨1, 1, .replicate 8 17, .replicate 8 33⟩
  let t := ((withCandidatePolicy 4 4 10 10 4).registerSession derive 7 (.replicate 32 16)
    (.replicate 32 32) ⟨0, ⟨1, 1⟩⟩ 1200).1
  let w₀ : RoamingPair := .start client t ⟨4, ⟨1, 1⟩, .replicate 8 32, 0⟩
  let w₁ := w₀.clientStep derive (.begin 1 9 0)
  let w₂ := { w₁ with routed := w₁.routed ++ [init] }
  let w₃ := w₂.observeInit derive init (.replicate 8 33) 1 100 token 3
  let w₄ := w₃.storeTicket task
  let w₅ := w₄.sendChallenge { task with stored := true } 100 4
  let w₆ := w₅.clientStep derive (.accept (.replicate 8 33) 9 (.challenge 1 token) 5)
  let w₇ := { w₆ with routed := w₆.routed ++ [response] }
  let w₈ := (w₇.respond derive response 1 token 60 1200 6 true true).1
  let w₉ := w₈.clientStep derive (.accept (.replicate 8 33) 9 (.commit (.replicate 8 17) 1) 7)
  have hreg : (withCandidatePolicy 4 4 10 10 4).registerSession derive 7 (.replicate 32 16)
      (.replicate 32 32) ⟨0, ⟨1, 1⟩⟩ 1200 = (t, .ok initial) := rfl
  have hclient : UdpClientRoaming.new derive 7 (.replicate 32 16) (.replicate 32 32) =
    .ok client := rfl
  have h1 : PairStep derive 7 1 w₀ _ w₁ := .client nofun
  have h2 : PairStep derive 7 1 w₁ _ w₂ := .route path 5 (by decide +kernel) (by decide +kernel)
  have h3 : PairStep derive 7 1 w₂ _ w₃ :=
    .init 100 token 3 ⟨by decide +kernel, rfl, rfl, by decide +kernel⟩ rfl
  have h4 : PairStep derive 7 1 w₃ _ w₄ := .store (by decide +kernel) rfl
  have h5 : PairStep derive 7 1 w₄ _ w₅ := .challenge 100 4 (by decide +kernel) rfl
  have hin : (⟨.replicate 8 33, 9, .challenge 1 token⟩ : PathDatagram) ∈ w₅.toClient := by
    decide +kernel
  have h6 : PairStep derive 7 1 w₅ _ w₆ := .client hin
  have h7 : PairStep derive 7 1 w₆ _ w₇ := .route path 5 (by decide +kernel) (by decide +kernel)
  have h8 : PairStep derive 7 1 w₇ _ w₈ :=
    .response 60 1200 6 true true ⟨by decide +kernel, rfl, rfl, by decide +kernel⟩ rfl
  have hcommit : (⟨.replicate 8 33, 9, .commit (.replicate 8 17) 1⟩ : PathDatagram) ∈
      w₈.toClient := by decide +kernel
  have h9 : PairStep derive 7 1 w₈ _ w₉ := .client hcommit
  have hfacts : w₉.client.activeEpoch = 0 ∧
      (w₉.client.commitCandidate commit).2.toOption = some () := by decide +kernel
  clear_value w₉ w₈ w₇ w₆ w₅ w₄ w₃ w₂ w₁
  have h := ((((((((Run.nil.snoc h1).snoc h2).snoc h3).snoc h4).snoc h5).snoc h6).snoc h7).snoc
    h8).snoc h9
  obtain ⟨s, hs, -, -, -, -, -, hready⟩ := roaming_agreement .nil hreg hclient h
  rcases hc : w₉.client.commitCandidate commit with ⟨client', result⟩
  rw [hc] at hfacts
  cases result with
  | error e => cases hfacts.2
  | ok =>
    obtain ⟨k, -, hk, hepoch, hsc, -⟩ := hready commit client' hc
    have hone : k.epoch = 1 := congrArg UdpClientPathCommit.epoch hk
    exact ⟨derive, t, client, _, w₉, s, h, hs, hfacts.1, hepoch.trans hone, hone ▸ hsc⟩

end Qeli.Udp
