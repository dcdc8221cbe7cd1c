import Qeli.Udp.Changes

/-!
# CID ownership

`Indexed`: the CID index is exactly the union of the sessions' aliases.
`Formed`: what one session keeps of itself, among it that its aliases are the
CIDs of the epochs around the active one. An epoch never reaches the last `u64`,
because every commit uses up a candidate id: `epoch_lt` bounds the epoch by the
id counter.
-/

namespace Qeli.Udp

open Qeli.Lib Qeli.Wire UdpRoamingTable

/-! ## Alias lists -/

def aliasesOf (deriveUdpCid : DeriveUdpCid) (secret : Bytes 32) (sid epoch : Nat) :
    List (UdpCid × Nat) :=
  (aliasEpochs epoch).map fun e => (deriveUdpCid secret sid e, e)

variable {deriveUdpCid : DeriveUdpCid} {secret : Bytes 32} {sid epoch e next : Nat} {cid : UdpCid}
  {aliases : List (UdpCid × Nat)} {t t' : UdpRoamingTable} {s s' : UdpSession} {c : CandidatePath}

theorem collectAliases_ok {epochs : List Nat} {acc : List (UdpCid × Nat)}
    (h : collectAliases deriveUdpCid secret sid acc epochs = .ok aliases)
    (hacc : (acc.map Prod.fst).Nodup) :
    aliases = acc ++ epochs.map (fun e => (deriveUdpCid secret sid e, e)) ∧
      (aliases.map Prod.fst).Nodup := by
  induction epochs generalizing acc with
  | nil => cases h; simpa using hacc
  | cons epoch epochs ih =>
    unfold collectAliases at h
    dsimp only at h
    split_ifs at h with hany
    have hnew : deriveUdpCid secret sid epoch ∉ acc.map Prod.fst := by
      intro hmem
      obtain ⟨x, hx, hxe⟩ := List.mem_map.mp hmem
      exact hany (List.any_eq_true.mpr ⟨x, hx, by simpa using hxe⟩)
    obtain ⟨h1, h2⟩ := ih h (by
      rw [List.map_append, List.nodup_append]
      refine ⟨hacc, by simp, fun a ha b hb hab => ?_⟩
      rw [List.map_singleton, List.mem_singleton] at hb
      have hae : a = deriveUdpCid secret sid epoch := hab.trans hb
      exact hnew (hae ▸ ha))
    exact ⟨by simpa using h1, h2⟩

theorem deriveAliases_ok (h : deriveAliases deriveUdpCid secret sid epoch = .ok aliases) :
    aliases = aliasesOf deriveUdpCid secret sid epoch ∧ (aliases.map Prod.fst).Nodup := by
  simpa [aliasesOf] using collectAliases_ok h .nil

theorem epoch_unique (h : (aliases.map Prod.fst).Nodup) {e' : Nat} (h1 : (cid, e) ∈ aliases)
    (h2 : (cid, e') ∈ aliases) : e = e' := by
  have := List.inj_on_of_nodup_map h h1 h2 rfl
  exact congrArg Prod.snd this

theorem mem_aliasesOf : (cid, e) ∈ aliasesOf deriveUdpCid secret sid epoch ↔
      e ∈ aliasEpochs epoch ∧ cid = deriveUdpCid secret sid e := by
  simp only [aliasesOf, List.mem_map, Prod.mk.injEq]
  constructor
  · rintro ⟨x, hx, rfl, rfl⟩; exact ⟨hx, rfl⟩
  · rintro ⟨he, rfl⟩; exact ⟨e, he, rfl, rfl⟩

theorem self_mem_aliasEpochs (epoch : Nat) : epoch ∈ aliasEpochs epoch := by
  simp [aliasEpochs]

theorem get?_insertAliases_of_not_mem {index : KeyMap UdpCid CidOwner} {g : Nat}
    (h : cid ∉ aliases.map Prod.fst) :
    (insertAliases index sid g aliases).get? cid = index.get? cid := by
  induction aliases generalizing index with
  | nil => rfl
  | cons entry rest ih =>
    rw [List.map_cons, List.mem_cons, not_or] at h
    exact (ih h.2).trans (KeyMap.get?_insert_ne _ _ h.1)

theorem get?_insertAliases {index : KeyMap UdpCid CidOwner} {g : Nat}
    (hn : (aliases.map Prod.fst).Nodup) (h : (cid, e) ∈ aliases) :
    (insertAliases index sid g aliases).get? cid = some ⟨sid, g, e⟩ := by
  induction aliases generalizing index with
  | nil => cases h
  | cons entry rest ih =>
    rw [List.map_cons, List.nodup_cons] at hn
    rcases List.mem_cons.mp h with rfl | hmem
    · exact (get?_insertAliases_of_not_mem hn.1).trans (KeyMap.get?_insert_self _ _ _)
    · exact ih hn.2 hmem

theorem get?_dropAliases (index : KeyMap UdpCid CidOwner) (sid g : Nat)
    (aliases wanted : List (UdpCid × Nat)) (cid : UdpCid) :
    (dropAliases index sid g aliases wanted).get? cid =
      if cid ∈ aliases.map Prod.fst ∧ cid ∉ wanted.map Prod.fst ∧
          (index.get? cid).any (fun owner => owner.ofSession sid g) then none
      else index.get? cid := by
  induction aliases generalizing index with
  | nil => simp [dropAliases]
  | cons entry rest ih =>
    have hstep : dropAliases index sid g (entry :: rest) wanted = dropAliases
        (if (!wanted.any fun other => other.1 == entry.1) &&
            (index.get? entry.1).any fun owner => owner.ofSession sid g then index.erase entry.1
          else index) sid g rest wanted := rfl
    have hcond : ((!wanted.any fun other => other.1 == entry.1) &&
          (index.get? entry.1).any fun owner => owner.ofSession sid g) = true ↔
        entry.1 ∉ wanted.map Prod.fst ∧
          (index.get? entry.1).any (fun owner => owner.ofSession sid g) = true := by
      rw [Bool.and_eq_true, Bool.not_eq_true', List.any_eq_false]
      refine and_congr_left fun _ => ⟨fun h hmem => ?_, fun h x hx he => ?_⟩
      · obtain ⟨x, hx, hxe⟩ := List.mem_map.mp hmem
        exact h x hx (by simpa using hxe)
      · exact h (List.mem_map.mpr ⟨x, hx, by simpa using he⟩)
    rw [hstep, ih]
    by_cases hcid : cid = entry.1
    · subst hcid
      by_cases hdrop : entry.1 ∉ wanted.map Prod.fst ∧
          (index.get? entry.1).any (fun owner => owner.ofSession sid g) = true
      · rw [if_pos (hcond.mpr hdrop), KeyMap.get?_erase_self, ite_self,
          if_pos ⟨by simp, hdrop⟩]
      · rw [if_neg (mt hcond.mp hdrop), if_neg fun h => hdrop h.2, if_neg fun h => hdrop h.2]
    · have hget : (if (!wanted.any fun other => other.1 == entry.1) &&
            (index.get? entry.1).any fun owner => owner.ofSession sid g then index.erase entry.1
          else index).get? cid = index.get? cid := by
        split
        · exact KeyMap.get?_erase_ne _ hcid
        · rfl
      rw [hget]
      simp only [List.map_cons, List.mem_cons, hcid, false_or]

/-! ## The invariant -/

/-- What a session keeps of itself, given the table's next candidate id. -/
structure UdpSession.Formed (deriveUdpCid : DeriveUdpCid) (next sid : Nat) (s : UdpSession) :
    Prop where
  aliases : s.aliases = aliasesOf deriveUdpCid s.clientToServerCidSecret sid s.active.epoch
  distinct : (s.aliases.map Prod.fst).Nodup
  receiveCid : s.active.receiveCid = deriveUdpCid s.clientToServerCidSecret sid s.active.epoch
  transmitCid : s.active.transmitCid = deriveUdpCid s.serverToClientCidSecret sid s.active.epoch
  pmtu : s.active.pmtuGeneration = s.active.epoch
  epoch_lt : s.active.epoch < next
  /-- A live candidate is for the next epoch. -/
  candidate : ∀ c, s.candidate = some c → c.ticket.sessionId = sid ∧
    c.ticket.sessionGeneration = s.generation ∧ c.ticket.pathEpoch = s.active.epoch + 1 ∧
    c.ticket.candidateId < next ∧ s.active.epoch + 1 < next
  /-- The cached commit is the one that made the active path. -/
  lastCommit : ∀ c, s.lastCommit = some c → c.ticket.sessionId = sid ∧
    c.ticket.sessionGeneration = s.generation ∧ c.ticket.pathEpoch = s.active.epoch ∧
    c.ticket.candidateId < next ∧ c.path = s.active.path

structure Indexed (deriveUdpCid : DeriveUdpCid) (t : UdpRoamingTable) : Prop where
  index : ∀ cid owner, t.cidIndex.get? cid = some owner ↔
    ∃ s, t.sessions.get? owner.sessionId = some s ∧ s.generation = owner.sessionGeneration ∧
      (cid, owner.pathEpoch) ∈ s.aliases
  session : ∀ sid s, t.sessions.get? sid = some s → s.Formed deriveUdpCid t.nextCandidateId sid
  generation_lt : ∀ sid s, t.sessions.get? sid = some s → s.generation < t.nextSessionGeneration
  next_pos : 0 < t.nextCandidateId
  next_le : t.nextCandidateId ≤ u64Max

theorem UdpSession.Formed.mono {next' : Nat} (h : s.Formed deriveUdpCid next sid)
    (hle : next ≤ next') :
    s.Formed deriveUdpCid next' sid where
  aliases := h.aliases
  distinct := h.distinct
  receiveCid := h.receiveCid
  transmitCid := h.transmitCid
  pmtu := h.pmtu
  epoch_lt := h.epoch_lt.trans_le hle
  candidate c hc := by
    obtain ⟨h1, h2, h3, h4, h5⟩ := h.candidate c hc
    exact ⟨h1, h2, h3, h4.trans_le hle, h5.trans_le hle⟩
  lastCommit c hc := by
    obtain ⟨h1, h2, h3, h4, h5⟩ := h.lastCommit c hc
    exact ⟨h1, h2, h3, h4.trans_le hle, h5⟩

theorem UdpSession.Formed.withCandidate (h : s.Formed deriveUdpCid next sid)
    (candidate : Option CandidatePath)
    (hc : ∀ c, candidate = some c → c.ticket.sessionId = sid ∧
      c.ticket.sessionGeneration = s.generation ∧ c.ticket.pathEpoch = s.active.epoch + 1 ∧
      c.ticket.candidateId < next ∧ s.active.epoch + 1 < next) :
    { s with candidate }.Formed deriveUdpCid next sid :=
  { h with candidate := hc }

theorem Indexed.frame (h : Indexed deriveUdpCid t) (hs : t.sessions.get? sid = some s)
    (hsessions : t'.sessions = t.sessions.insert sid s') (hindex : t'.cidIndex = t.cidIndex)
    (hg : s'.generation = s.generation) (ha : s'.aliases = s.aliases)
    (hdate : t'.nextSessionGeneration = t.nextSessionGeneration)
    (hnext : t.nextCandidateId ≤ t'.nextCandidateId) (hle : t'.nextCandidateId ≤ u64Max)
    (hf : s'.Formed deriveUdpCid t'.nextCandidateId sid) : Indexed deriveUdpCid t' where
  index cid owner := by
    rw [hindex, h.index, hsessions]
    by_cases ho : owner.sessionId = sid
    · simp only [ho, KeyMap.get?_insert_self, hs, Option.some.injEq, exists_eq_left', hg, ha]
    · simp only [KeyMap.get?_insert_ne _ _ ho]
  session a x hx := by
    rw [hsessions, KeyMap.get?_insert] at hx
    split at hx
    · next he => cases hx; rw [he]; exact hf
    · exact (h.session a x hx).mono hnext
  generation_lt a x hx := by
    rw [hsessions, KeyMap.get?_insert] at hx
    rw [hdate]
    split at hx
    · cases hx; rw [hg]; exact h.generation_lt sid s hs
    · exact h.generation_lt a x hx
  next_pos := h.next_pos.trans_le hnext
  next_le := hle

theorem Indexed.tidy {now? : Option Nat} (hstep : TidyStep now? t t') (h : Indexed deriveUdpCid t) :
    Indexed deriveUdpCid t' := by
  cases hstep with
  | failed hs hc =>
    exact h.frame hs rfl rfl rfl rfl rfl (Nat.le_refl _) h.next_le
      ((h.session _ _ hs).withCandidate none nofun)
  | pruned => exact ⟨h.index, h.session, h.generation_lt, h.next_pos, h.next_le⟩
  | burned =>
    exact ⟨h.index, h.session, fun sid s hs => Nat.lt_succ_of_lt (h.generation_lt sid s hs),
      h.next_pos, h.next_le⟩

theorem Indexed.of_tidy {now? : Option Nat} (h : Indexed deriveUdpCid t) (ht : Tidy now? t t') :
    Indexed deriveUdpCid t' :=
  ht.preserves Indexed.tidy h

theorem ensureAliasesAvailable_ok {g : Nat} (h : t.ensureAliasesAvailable sid g aliases = .ok ())
    (hmem : (cid, e) ∈ aliases) {owner : CidOwner} (ho : t.cidIndex.get? cid = some owner) :
    owner = ⟨sid, g, e⟩ := by
  unfold ensureAliasesAvailable at h
  split_ifs at h with hany
  rw [List.any_eq_true, not_exists] at hany
  have hentry := hany (cid, e)
  simp only [hmem, true_and, ho, Option.any_some, CidOwner.ofSession] at hentry
  obtain ⟨a, b, c⟩ := owner
  simp_all

theorem Indexed.install {g : Nat} {old : List (UdpCid × Nat)} (h : Indexed deriveUdpCid t)
    (hold : ∀ s, t.sessions.get? sid = some s → s.generation = g ∧ s.aliases = old)
    (havail : t.ensureAliasesAvailable sid g aliases = .ok ())
    (hindex : t'.cidIndex = insertAliases (dropAliases t.cidIndex sid g old aliases) sid g aliases)
    (hsessions : t'.sessions = t.sessions.insert sid s') (hg : s'.generation = g)
    (ha : s'.aliases = aliases) (hdate : t.nextSessionGeneration ≤ t'.nextSessionGeneration)
    (hglt : g < t'.nextSessionGeneration) (hnext : t'.nextCandidateId = t.nextCandidateId)
    (hf : s'.Formed deriveUdpCid t.nextCandidateId sid) : Indexed deriveUdpCid t' where
  index cid owner := by
    have hn : (aliases.map Prod.fst).Nodup := ha ▸ hf.distinct
    rw [hindex, hsessions]
    by_cases hin : cid ∈ aliases.map Prod.fst
    · obtain ⟨⟨_, e⟩, hmem, rfl⟩ := List.mem_map.mp hin
      rw [get?_insertAliases hn hmem, Option.some.injEq]
      constructor
      · rintro rfl
        exact ⟨s', KeyMap.get?_insert_self _ _ _, hg, ha ▸ hmem⟩
      · rintro ⟨x, hx, hxg, hxm⟩
        rw [KeyMap.get?_insert] at hx
        split at hx
        · next he =>
          cases hx
          have := epoch_unique hn hmem (ha ▸ hxm)
          obtain ⟨_, _, _⟩ := owner
          simp_all
        · exact (ensureAliasesAvailable_ok havail hmem
            ((h.index _ owner).mpr ⟨x, hx, hxg, hxm⟩)).symm
    · rw [get?_insertAliases_of_not_mem hin, get?_dropAliases]
      constructor
      · intro hget
        split_ifs at hget with hdrop
        obtain ⟨x, hx, hxg, hxm⟩ := (h.index cid owner).mp hget
        refine ⟨x, ?_, hxg, hxm⟩
        rw [KeyMap.get?_insert_ne]
        · exact hx
        · -- an entry of this session that is no longer wanted would have been dropped
          intro he
          obtain ⟨hgen, hal⟩ := hold x (he ▸ hx)
          refine hdrop ⟨List.mem_map.mpr ⟨_, hal ▸ hxm, rfl⟩, hin, ?_⟩
          simp [hget, CidOwner.ofSession, he, ← hxg, hgen]
      · rintro ⟨x, hx, hxg, hxm⟩
        rw [KeyMap.get?_insert] at hx
        split at hx
        · cases hx
          exact absurd (List.mem_map.mpr ⟨_, ha ▸ hxm, rfl⟩) hin
        · next hne =>
          have hget := (h.index cid owner).mpr ⟨x, hx, hxg, hxm⟩
          rw [if_neg, hget]
          rintro ⟨-, -, hany⟩
          simp [hget, CidOwner.ofSession, hne] at hany
  session a x hx := by
    rw [hsessions, KeyMap.get?_insert] at hx
    rw [hnext]
    split at hx
    · next he => cases hx; rw [he]; exact hf
    · exact h.session a x hx
  generation_lt a x hx := by
    rw [hsessions, KeyMap.get?_insert] at hx
    split at hx
    · cases hx; rw [hg]; exact hglt
    · exact (h.generation_lt a x hx).trans_le hdate
  next_pos := hnext ▸ h.next_pos
  next_le := hnext ▸ h.next_le

theorem Indexed.remove (h : Indexed deriveUdpCid t) (hs : t.sessions.get? sid = some s) :
    Indexed deriveUdpCid (t.removeSession sid).1 := by
  rw [removeSession_some hs]
  refine ⟨fun cid owner => ?_, fun a x hx => ?_, fun a x hx => ?_, h.next_pos, h.next_le⟩
  · rw [get?_dropAliases]
    constructor
    · intro hget
      split_ifs at hget with hdrop
      obtain ⟨x, hx, hxg, hxm⟩ := (h.index cid owner).mp hget
      refine ⟨x, ?_, hxg, hxm⟩
      rw [KeyMap.get?_erase_ne]
      · exact hx
      · intro he
        rw [he, hs] at hx; cases hx
        refine hdrop ⟨List.mem_map.mpr ⟨_, hxm, rfl⟩, by simp, ?_⟩
        simp [hget, CidOwner.ofSession, he, hxg]
    · rintro ⟨x, hx, hxg, hxm⟩
      dsimp only at hx
      rw [KeyMap.get?_erase] at hx
      split at hx
      · cases hx
      · next hne =>
        have hget := (h.index cid owner).mpr ⟨x, hx, hxg, hxm⟩
        rw [if_neg, hget]
        rintro ⟨-, -, hany⟩
        simp [hget, CidOwner.ofSession, hne] at hany
  · dsimp only at hx
    rw [KeyMap.get?_erase] at hx
    split at hx
    · cases hx
    · exact h.session a x hx
  · dsimp only at hx
    rw [KeyMap.get?_erase] at hx
    split at hx
    · cases hx
    · exact h.generation_lt a x hx

theorem findSome?_alias (f : Nat → UdpCid) {epochs : List Nat} (h : e ∈ epochs) :
    ((epochs.map fun x => (f x, x)).findSome? fun entry =>
      if entry.2 = e then some entry.1 else none) = some (f e) := by
  induction epochs with
  | nil => cases h
  | cons x xs ih =>
    rw [List.map_cons, List.findSome?_cons]
    by_cases hx : x = e
    · simp [hx]
    · have hmem := (List.mem_cons.mp h).resolve_left (Ne.symm hx)
      simpa [hx] using ih hmem

theorem Live.formed {ticket : CandidateTicket} (hl : Live t ticket s c) (h : Indexed deriveUdpCid t) :
    s.Formed deriveUdpCid t.nextCandidateId ticket.sessionId :=
  h.session _ _ hl.session

theorem UdpSession.Formed.credited (h : s.Formed deriveUdpCid next sid) (hc : s.candidate = some c)
    (b : Nat) : (s.credited c b).Formed deriveUdpCid next sid :=
  h.withCandidate _ fun x hx => by cases hx; exact h.candidate c hc

theorem Indexed.credited (h : Indexed deriveUdpCid t) (hs : t.sessions.get? sid = some s)
    (hc : s.candidate = some c) (b : Nat) :
    Indexed deriveUdpCid (t.setSession sid (s.credited c b)) :=
  h.frame hs rfl rfl rfl rfl rfl (Nat.le_refl _) h.next_le ((h.session _ _ hs).credited hc b)

theorem UdpSession.Formed.rotated {ticket : CandidateTicket}
    (h : s.Formed deriveUdpCid next ticket.sessionId) (hc : s.candidate = some c)
    (ht : c.ticket = ticket) (path : UdpPath) (challenge : PathToken) (budget : Nat)
    (ha : deriveAliases deriveUdpCid s.clientToServerCidSecret ticket.sessionId ticket.pathEpoch =
      .ok aliases) :
    UdpSession.Formed deriveUdpCid next ticket.sessionId { s with
      aliases
      active := ⟨path, ticket.pathEpoch,
        (commitOutcome deriveUdpCid s ticket path aliases (s.active.pmtuGeneration + 1)).receiveCid,
        deriveUdpCid s.serverToClientCidSecret ticket.sessionId ticket.pathEpoch,
        budget, s.active.pmtuGeneration + 1⟩
      lastCommit := some ⟨ticket, path, challenge,
        commitOutcome deriveUdpCid s ticket path aliases (s.active.pmtuGeneration + 1)⟩
      candidate := none } := by
  obtain ⟨hal, hnodup⟩ := deriveAliases_ok ha
  obtain ⟨-, hgen, hepoch, hid, hlt⟩ := h.candidate c hc
  rw [ht] at hgen hepoch hid
  refine ⟨hal, hnodup, ?_, rfl, ?_, ?_, nofun, fun x hx => ?_⟩
  · simp only [commitOutcome, hal, aliasesOf]
    rw [findSome?_alias _ (self_mem_aliasEpochs _)]
    rfl
  · show s.active.pmtuGeneration + 1 = ticket.pathEpoch
    rw [h.pmtu, hepoch]
  · show ticket.pathEpoch < next
    rw [hepoch]; exact hlt
  · cases hx; exact ⟨rfl, hgen, rfl, hid, rfl⟩

theorem Indexed.change {op : TableOp} {r : TableResult} (hc : Change deriveUdpCid t op t' r)
    (h : Indexed deriveUdpCid t) : Indexed deriveUdpCid t' := by
  cases hc with
  | quiet => exact h
  | @registered sid g _ _ _ _ _ _ _ hnone hgen ha hav hinit =>
    obtain ⟨hal, hnodup⟩ := deriveAliases_ok ha
    have hold : ∀ s, t.sessions.get? sid = some s → s.generation = g ∧ s.aliases = [] := by
      intro s hs; rw [hnone] at hs; cases hs
    refine h.install hold hav rfl rfl rfl rfl (Nat.le_succ _) (by subst hgen; simp) rfl ?_
    subst hinit
    refine ⟨hal, hnodup, ?_, rfl, rfl, h.next_pos, nofun, nofun⟩
    simp [hal, aliasesOf, aliasEpochs]
  | observed hin _ hc => exact h.credited hin.session hc _
  | started hin _ hc _ _ _ hle ht =>
    have hf := h.session _ _ hin.session
    refine h.frame hin.session rfl rfl rfl rfl rfl (Nat.le_succ _) hle ?_
    refine (hf.mono (Nat.le_succ _)).withCandidate _ fun c hx => ?_
    cases hx
    subst ht
    exact ⟨rfl, hin.generation.symm, hin.lookup_epoch, Nat.lt_succ_self _,
      Nat.succ_lt_succ hf.epoch_lt⟩
  | @authorized _ _ _ _ c hl =>
    refine h.frame hl.session rfl rfl rfl rfl rfl (Nat.le_refl _) h.next_le ?_
    exact (hl.formed h).withCandidate _ fun x hx => by
      cases hx; exact (hl.formed h).candidate c hl.candidate
  | credited hl => exact h.credited hl.session hl.candidate _
  | @committed ticket path _ b budget _ _ _ s c aliases _ hl _ _ _ _ ha hav hout =>
    have hcr := h.credited hl.session hl.candidate b
    have hf := (hl.formed h).credited hl.candidate b
    refine hcr.install (fun x hx => ?_) hav rfl rfl rfl rfl (Nat.le_refl _)
      (h.generation_lt _ _ hl.session) rfl ?_
    · rw [setSession, KeyMap.get?_insert_self] at hx
      cases hx; exact ⟨rfl, rfl⟩
    · subst hout
      exact hf.rotated rfl hl.ticket_eq path c.challenge budget ha
  | widened hs =>
    have hf := h.session _ _ hs
    exact h.frame hs rfl rfl rfl rfl rfl (Nat.le_refl _) h.next_le
      ⟨hf.aliases, hf.distinct, hf.receiveCid, hf.transmitCid, hf.pmtu, hf.epoch_lt, hf.candidate,
        hf.lastCommit⟩
  | removed hs => exact h.remove hs

/-! ## Runs -/

theorem Indexed.of_does {op : TableOp} {r : TableResult} (h : Indexed deriveUdpCid t)
    (hd : Does deriveUdpCid t op t' r) : Indexed deriveUdpCid t' := by
  obtain ⟨t₁, t₂, h1, h2, h3⟩ := hd
  exact (Indexed.change h2 (h.of_tidy h1)).of_tidy h3

theorem indexed_new (deriveUdpCid : DeriveUdpCid)
    (maxSessions maxCandidates ttl window starts : Nat) :
    Indexed deriveUdpCid (withCandidatePolicy maxSessions maxCandidates ttl window starts) where
  index cid owner := by simp [withCandidatePolicy]
  session sid s hs := by simp [withCandidatePolicy] at hs
  generation_lt sid s hs := by simp [withCandidatePolicy] at hs
  next_pos := Nat.one_pos
  next_le := show 1 ≤ u64Max by decide

theorem Indexed.run {t₀ : UdpRoamingTable} {es : List TableEvent}
    (h : Run (Step deriveUdpCid) t₀ es t) (h0 : Indexed deriveUdpCid t₀) :
    Indexed deriveUdpCid t :=
  h.preserves h0 fun hp hs => hs.preserves Indexed.tidy Indexed.change hp

theorem aliasEpochs_of_lt (h : e < u64Max) :
    aliasEpochs e = if e = 0 then [e, e + 1] else [e - 1, e, e + 1] := by
  have hadd : checkedAdd u64Max e 1 = some (e + 1) := checkedAdd_eq_some.mpr ⟨h, rfl⟩
  unfold aliasEpochs
  rw [hadd]
  split <;> rfl

theorem mem_aliasEpochs {a : Nat} (h : e < u64Max) : a ∈ aliasEpochs e ↔ a ≤ e + 1 ∧ e ≤ a + 1 := by
  rw [aliasEpochs_of_lt h]
  split_ifs
  · simp only [List.mem_cons, List.not_mem_nil, or_false]; omega
  · simp only [List.mem_cons, List.not_mem_nil, or_false]; omega

/-- A session owns the CIDs of the epochs around its own. -/
theorem Indexed.owns (h : Indexed deriveUdpCid t) (hs : t.sessions.get? sid = some s)
    (hlo : s.active.epoch ≤ e + 1) (hhi : e ≤ s.active.epoch + 1) :
    t.cidIndex.get? (deriveUdpCid s.clientToServerCidSecret sid e) =
      some ⟨sid, s.generation, e⟩ := by
  have hf := h.session sid s hs
  refine (h.index _ _).mpr ⟨s, hs, rfl, ?_⟩
  rw [hf.aliases, mem_aliasesOf]
  exact ⟨(mem_aliasEpochs (hf.epoch_lt.trans_le h.next_le)).mpr ⟨hhi, hlo⟩, rfl⟩

theorem drop_of_generation_ne {owner : UdpSessionRegistration}
    (hs : t.sessions.get? owner.sessionId = some s) (hne : owner.sessionGeneration ≠ s.generation) :
    (owner.drop t).2 = t := by
  unfold UdpSessionRegistration.drop
  split
  · rcases t.removeSessionGeneration_eq owner.sessionId owner.sessionGeneration with
      heq | ⟨s', hs', hg, -⟩
    · rw [heq]
    · rw [hs] at hs'; cases hs'
      exact absurd hg.symm hne
  · rfl

/-- **CID ownership.** In every run of table operations, under any CID
derivation: the index is the union of the sessions' aliases, the aliases are the
CIDs of the epochs around the active one, no CID has two sessions, and an owner
of an older generation cannot remove a newer session. -/
theorem cid_ownership {deriveUdpCid : DeriveUdpCid}
    {maxSessions maxCandidates ttl window starts : Nat} {es : List TableEvent}
    {t : UdpRoamingTable}
    (h : Run (Step deriveUdpCid) (withCandidatePolicy maxSessions maxCandidates ttl window starts)
      es t) :
    (∀ cid owner, t.cidIndex.get? cid = some owner ↔
      ∃ s, t.sessions.get? owner.sessionId = some s ∧ s.generation = owner.sessionGeneration ∧
        (cid, owner.pathEpoch) ∈ s.aliases) ∧
    (∀ sid s, t.sessions.get? sid = some s →
      s.aliases = (if s.active.epoch = 0 then [s.active.epoch, s.active.epoch + 1]
        else [s.active.epoch - 1, s.active.epoch, s.active.epoch + 1]).map
          (fun e => (deriveUdpCid s.clientToServerCidSecret sid e, e)) ∧
      (s.active.receiveCid, s.active.epoch) ∈ s.aliases) ∧
    (∀ sid sid' s s' cid, t.sessions.get? sid = some s → t.sessions.get? sid' = some s' →
      cid ∈ s.aliases.map Prod.fst → cid ∈ s'.aliases.map Prod.fst → sid = sid') ∧
    (∀ (owner : UdpSessionRegistration) (s : UdpSession),
      t.sessions.get? owner.sessionId = some s →
      owner.sessionGeneration < s.generation → (owner.drop t).2 = t) := by
  have hi : Indexed deriveUdpCid t := (indexed_new ..).run h
  refine ⟨hi.index, fun sid s hs => ?_, fun sid sid' s s' cid hs hs' hm hm' => ?_,
    fun owner s hs hlt => drop_of_generation_ne hs hlt.ne⟩
  · have hf := hi.session sid s hs
    have hlt : s.active.epoch < u64Max := hf.epoch_lt.trans_le hi.next_le
    refine ⟨by rw [hf.aliases, aliasesOf, aliasEpochs_of_lt hlt], ?_⟩
    rw [hf.aliases, mem_aliasesOf]
    exact ⟨self_mem_aliasEpochs _, hf.receiveCid⟩
  · -- both aliases are the one entry of the index
    obtain ⟨⟨_, e⟩, hmem, rfl⟩ := List.mem_map.mp hm
    obtain ⟨⟨_, e'⟩, hmem', heq⟩ := List.mem_map.mp hm'
    dsimp only at heq
    subst heq
    have h1 := (hi.index _ ⟨sid, s.generation, e⟩).mpr ⟨s, hs, rfl, hmem⟩
    have h2 := (hi.index _ ⟨sid', s'.generation, e'⟩).mpr ⟨s', hs', rfl, hmem'⟩
    rw [h1] at h2
    exact congrArg CidOwner.sessionId (Option.some.inj h2)

/-- Two sessions are registered, under a derivation that writes the session and the epoch out; one
moves to another path, and the owner of the other is dropped. -/
theorem cid_ownership_registered :
    ∃ t es, Run (Step fun _ sid e => .replicate 8 (UInt8.ofNat (16 * sid + e))) (.new 4) es t ∧
      t.cidIndex.size = 3 ∧ t.sessions.get? 8 = none ∧ ∃ s, t.sessions.get? 7 = some s ∧
        s.aliases = [(.replicate 8 112, 0), (.replicate 8 113, 1), (.replicate 8 114, 2)] := by
  let derive : DeriveUdpCid := fun _ sid e => .replicate 8 (UInt8.ofNat (16 * sid + e))
  let x := (new 4).applyAll derive
    [.register 7 (.replicate 32 1) (.replicate 32 2) ⟨0, ⟨1, 1⟩⟩ 1200,
      .register 8 (.replicate 32 3) (.replicate 32 4) ⟨0, ⟨3, 3⟩⟩ 1200,
      .observe ⟨7, 1, 0, 1⟩ ⟨0, ⟨2, 2⟩⟩ (.replicate 8 113) 1 100 (.replicate 16 1) 5,
      .commit ⟨7, 1, 1, 1⟩ ⟨0, ⟨2, 2⟩⟩ 1 (.replicate 16 1) 100 1000 6 fun _ => .ok (),
      .dropOwner ⟨8, 2, true⟩]
  have h : Run (Step derive) (new 4) x.2 x.1 := applyAll_run derive _ _
  have hleft : x.1.cidIndex.size = 3 ∧ x.1.sessions.get? 8 = none := by decide +kernel
  have hmoved : (x.1.sessions.get? 7).map (·.active.epoch) = some 1 := by decide +kernel
  clear_value x
  obtain ⟨s, hs, hepoch⟩ := Option.map_eq_some_iff.mp hmoved
  obtain ⟨haliases, -⟩ := (cid_ownership h).2.1 7 s hs
  rw [hepoch] at haliases
  exact ⟨x.1, x.2, h, hleft.1, hleft.2, s, hs, haliases⟩

end Qeli.Udp
