import Qeli.Pool.IpPool

/-!
# The IPv4 leases

What the calls of `IpPool` do to its IPv4 leases: `Ipv4Step` says it once for a call under
a key, `allocate_eq_none_iff` and `allocateInRangeExcluding_eq_none_iff` say when a search
fails, and `newWithTun_built` what the pool starts from.
-/

namespace Qeli.Pool

open Lib

namespace IpPool

/-! ## What a call does -/

def Usable (self : IpPool) (ip : Nat) : Prop := self.startIp ≤ ip ∧ ip ≤ self.endIp

def Fresh (self : IpPool) (ip : Nat) : Prop := self.cursor ≤ ip

structure Ipv4Valid (pool : IpPool) : Prop where
  sound : pool.toLeases.Sound pool.Usable pool.Fresh
  cursor : pool.startIp ≤ pool.cursor

def setup (self : IpPool) : Rules Nat × Nat × Nat × List (String × Nat) :=
  (self.toRules, self.startIp, self.endIp, self.staticReservations)

/-- A call on the IPv4 leases under `key` that may ask for the addresses in `named`. -/
structure Ipv4Step (named : Nat → Prop) (key : String) (pool pool' : IpPool) : Prop where
  valid : pool'.Ipv4Valid
  change : Change pool.reserved named key pool.held pool'.held
  setup : pool'.setup = pool.setup
  ipv6 : pool'.ipv6 = pool.ipv6

variable {pool : IpPool} {key : String} {ip : Nat}

theorem Ipv4Valid.withLeases (h : pool.Ipv4Valid) {leases : Leases String Nat}
    (hsound : leases.Sound pool.Usable pool.Fresh) : { pool with toLeases := leases }.Ipv4Valid :=
  ⟨hsound, h.cursor⟩

theorem Ipv4Step.refl (h : pool.Ipv4Valid) (named : Nat → Prop) :
    Ipv4Step named key pool pool := ⟨h, .kept, rfl, rfl⟩

theorem Ipv4Step.mono {named named' : Nat → Prop} {pool' : IpPool}
    (h : Ipv4Step named key pool pool') (himp : ∀ a, named a → named' a) :
    Ipv4Step named' key pool pool' := ⟨h.valid, h.change.mono himp, h.setup, h.ipv6⟩

theorem releaseIpv4_step (h : pool.Ipv4Valid) (named : Nat → Prop) :
    Ipv4Step named key pool (pool.releaseIpv4 key) where
  valid := h.withLeases h.sound.release
  change := by
    show Change _ _ _ _ (pool.toLeases.release key).held
    rw [Leases.held_release]
    exact .lost
  setup := by simp [IpPool.setup, releaseIpv4]
  ipv6 := rfl

theorem allocateFixed_step (h : pool.Ipv4Valid) :
    Ipv4Step (· = ip) key pool (pool.allocateFixed key ip).1 := by
  unfold allocateFixed
  split
  · exact .refl h _
  · next hok =>
    have hfits : pool.Usable ip ∧ ip ∉ pool.excluded := by
      unfold Usable
      push Not at hok
      exact ⟨⟨hok.1, hok.2.1⟩, hok.2.2⟩
    refine ⟨h.withLeases (h.sound.take hfits.1 hfits.2), ?_, by simp [IpPool.setup], rfl⟩
    show Change _ _ _ _ (pool.toLeases.take key ip).held
    rw [h.sound.held_take]
    exact .seized rfl

structure Searched (drawn : Nat → Prop) (key : String) (pool : IpPool)
    (r : IpPool × Option Nat) : Prop where
  search : Leases.Search pool.Usable drawn r.1.Fresh key pool.toLeases (r.1.toLeases, r.2)
  valid : r.1.Ipv4Valid
  setup : r.1.setup = pool.setup
  ipv6 : r.1.ipv6 = pool.ipv6

theorem Searched.step {drawn : Nat → Prop} {r : IpPool × Option Nat} (h : pool.Ipv4Valid)
    (hs : Searched drawn key pool r) (named : Nat → Prop) : Ipv4Step named key pool r.1 :=
  ⟨hs.valid, (hs.search.change h.sound).mono fun _ => False.elim, hs.setup, hs.ipv6⟩

theorem advance_searched (fuel : Nat) : ∀ {pool : IpPool}, pool.Ipv4Valid → pool.held key = none →
    pool.endIp + 1 - pool.cursor ≤ fuel →
    Searched pool.Fresh key pool (advance key fuel pool) := by
  induction fuel with
  | zero =>
    intro pool h _ hfuel
    refine ⟨.spent h.sound rfl rfl rfl ?_, h, rfl, rfl⟩
    intro a ha hfresh
    have := ha.2
    unfold Fresh at hfresh
    omega
  | succ fuel ih =>
    intro pool h hheld hfuel
    unfold advance
    split
    · next hle =>
      dsimp only
      have hfresh : ∀ b, (b = pool.cursor ∨ { pool with cursor := pool.cursor + 1 }.Fresh b ↔
          pool.Fresh b) := fun b => by
        simp only [Fresh]
        omega
      have husable : pool.Usable pool.cursor := ⟨h.cursor, hle⟩
      have hdrawn : pool.toLeases.Sound pool.Usable
          fun b => { pool with cursor := pool.cursor + 1 }.Fresh b ∨ b = pool.cursor :=
        h.sound.settle fun b _ _ hb => ((hfresh b).mpr hb).symm
      have hdraw := hdrawn.draw hheld
      have hcursor : pool.startIp ≤ pool.cursor + 1 := Nat.le_succ_of_le h.cursor
      split
      · next hopen =>
        have hsound := hdraw.1 husable hopen
        exact ⟨.found hsound rfl (Leases.held_assign _ key pool.cursor) husable (Nat.le_refl _)
          hopen, ⟨hsound, hcursor⟩, rfl, rfl⟩
      · next hclosed =>
        have hsound := hdraw.2 fun _ => hclosed
        have hhead : Leases.Search pool.Usable (· = pool.cursor)
            { pool with cursor := pool.cursor + 1 }.Fresh key pool.toLeases
            (pool.toLeases, none) := by
          refine .spent hsound rfl rfl rfl ?_
          rintro b _ rfl
          exact hclosed
        have hrest := @ih { pool with cursor := pool.cursor + 1 } ⟨hsound, hcursor⟩ hheld
          (by dsimp only; omega)
        exact ⟨(hhead.andThen hrest.search).congr fun b _ _ => hfresh b, hrest.valid, hrest.setup,
          hrest.ipv6⟩
    · next hgt =>
      refine ⟨.spent h.sound rfl rfl rfl ?_, h, rfl, rfl⟩
      intro a ha hfresh
      have := ha.2
      unfold Fresh at hfresh
      omega

theorem allocate_searched (h : pool.Ipv4Valid) (hheld : pool.held key = none)
    (hstatic : ∀ entry ∈ pool.staticReservations, entry.1 ≠ key) :
    Searched (fun _ => True) key pool (pool.allocate key) := by
  have hfind : pool.staticReservations.find? (fun entry => entry.1 == key) = none :=
    List.find?_eq_none.mpr fun entry hmem => by simpa using hstatic entry hmem
  unfold allocate
  rw [hheld, find_reservation, hfind]
  dsimp only [Option.map_none]
  have hstock : ∀ a, pool.Usable a → pool.Open a → (a ∈ pool.freed ∨ pool.Fresh a ↔ True) :=
    fun a ha hopen => iff_true_intro (h.sound.stocked ha hopen)
  have hreuse := @Leases.reuse_search _ _ _ _ _ _ (fun _ => true) _ _ h.sound hheld fun _ _ => rfl
  generalize pool.toLeases.reuse (fun _ => true) key = r at hreuse ⊢
  obtain ⟨leases, result⟩ := r
  have hvalid : { pool with toLeases := leases }.Ipv4Valid := h.withLeases hreuse.sound
  have hsetup : { pool with toLeases := leases }.setup = pool.setup := by
    have hrules : leases.toRules = pool.toRules := hreuse.rules
    simp [setup, hrules]
  cases result with
  | some ip => exact ⟨hreuse.mono_some fun _ _ => trivial, hvalid, hsetup, rfl⟩
  | none =>
    have hrest := advance_searched _ hvalid
      (show leases.held key = none by rw [hreuse.held_of_none, hheld]) (Nat.le_refl _)
    exact ⟨(hreuse.andThen hrest.search).congr hstock, hrest.valid, hrest.setup.trans hsetup,
      hrest.ipv6⟩

theorem allocate_step (h : pool.Ipv4Valid) :
    Ipv4Step (fun a => (key, a) ∈ pool.staticReservations) key pool (pool.allocate key).1 := by
  cases hheld : pool.held key with
  | some ip =>
    have heq : pool.allocate key = (pool, some ip) := by
      unfold allocate
      rw [hheld]
    rw [heq]
    exact .refl h _
  | none =>
    cases hfind : pool.staticReservations.find? (fun entry => entry.1 == key) with
    | none =>
      refine (allocate_searched h hheld fun entry hmem => ?_).step h _
      simpa using List.find?_eq_none.mp hfind entry hmem
    | some entry =>
      have heq : pool.allocate key = pool.allocateFixed key entry.2 := by
        unfold allocate
        rw [hheld, find_reservation, hfind]
        rfl
      have hkey : entry.1 = key := by simpa using List.find?_some hfind
      rw [heq]
      refine (allocateFixed_step h).mono ?_
      rintro a rfl
      exact hkey ▸ List.mem_of_find?_eq_some hfind

/-- **Dynamic allocation fails only when nothing is open.** -/
theorem allocate_eq_none_iff (h : pool.Ipv4Valid) (hheld : pool.held key = none)
    (hstatic : ∀ entry ∈ pool.staticReservations, entry.1 ≠ key) :
    (pool.allocate key).2 = none ↔ ∀ a, pool.Usable a → ¬ pool.Open a := by
  rw [(allocate_searched h hheld hstatic).search.eq_none_iff]
  simp only [forall_const]

/-! ## Windows -/

theorem scanWindow_searched (h : pool.Ipv4Valid) (hheld : pool.held key = none) (lo hi : Nat)
    (temporaryExcluded : Finset Nat) :
    Searched (fun a => lo ≤ a ∧ a ≤ hi ∧ a ∉ temporaryExcluded) key pool
      (pool.scanWindow key lo hi temporaryExcluded) := by
  unfold scanWindow
  dsimp only
  split
  · next ip hfind =>
    have hok : pool.Open ip ∧ ip ∉ temporaryExcluded := by simpa using List.find?_some hfind
    have hmem := List.mem_range'_1.mp (List.mem_of_find?_eq_some hfind)
    have husable : pool.Usable ip := by
      unfold Usable
      omega
    have hsound := h.sound.assign hheld husable hok.1
    exact ⟨.found hsound rfl (Leases.held_assign _ key ip) husable
      ⟨by omega, by omega, hok.2⟩ hok.1, h.withLeases hsound, rfl, rfl⟩
  · next hfind =>
    refine ⟨.spent h.sound rfl rfl rfl ?_, h, rfl, rfl⟩
    rintro a ⟨hstart, hend⟩ ⟨hlo, hhi, htemp⟩ hopen
    have hmem : a ∈ List.range' (max lo pool.startIp)
        (min hi pool.endIp + 1 - max lo pool.startIp) :=
      List.mem_range'_1.mpr ⟨by omega, by omega⟩
    simpa [hopen, htemp] using List.find?_eq_none.mp hfind a hmem

/-- The three ways of a windowed call: the key keeps its address, or the window is searched
for a key that holds nothing, after giving up an address outside it. -/
theorem allocateInRangeExcluding_cases (pool : IpPool) (key : String) (lo hi : Nat)
    (temporaryExcluded : Finset Nat) :
    (∃ cur, pool.held key = some cur ∧ lo ≤ cur ∧ cur ≤ hi ∧ cur ∉ temporaryExcluded ∧
      pool.allocateInRangeExcluding key lo hi temporaryExcluded = (pool, some cur)) ∨
    (¬ (∃ cur, pool.held key = some cur ∧ lo ≤ cur ∧ cur ≤ hi ∧ cur ∉ temporaryExcluded) ∧
      pool.allocateInRangeExcluding key lo hi temporaryExcluded =
        (pool.releaseIpv4 key).scanWindow key lo hi temporaryExcluded) := by
  unfold allocateInRangeExcluding
  split
  · next cur hcur =>
    split
    · next hin => exact .inl ⟨cur, hcur, hin.1, hin.2.1, hin.2.2, rfl⟩
    · next hout =>
      refine .inr ⟨?_, rfl⟩
      rintro ⟨cur', hcur', hin⟩
      rw [hcur] at hcur'
      cases hcur'
      exact hout hin
  · next hnone =>
    refine .inr ⟨?_, ?_⟩
    · rintro ⟨cur, hcur, _⟩
      rw [hnone] at hcur
      cases hcur
    · -- There is nothing to give up.
      unfold releaseIpv4 Leases.release
      rw [hnone]

theorem window_searched (h : pool.Ipv4Valid) (lo hi : Nat) (temporaryExcluded : Finset Nat) :
    Searched (fun a => lo ≤ a ∧ a ≤ hi ∧ a ∉ temporaryExcluded) key (pool.releaseIpv4 key)
      ((pool.releaseIpv4 key).scanWindow key lo hi temporaryExcluded) := by
  refine scanWindow_searched (releaseIpv4_step h fun _ => False).valid ?_ lo hi temporaryExcluded
  show (pool.toLeases.release key).held key = none
  rw [Leases.held_release, Function.update_self]

theorem allocateInRangeExcluding_step (h : pool.Ipv4Valid) (lo hi : Nat)
    (temporaryExcluded : Finset Nat) (named : Nat → Prop) :
    Ipv4Step named key pool (pool.allocateInRangeExcluding key lo hi temporaryExcluded).1 := by
  rcases pool.allocateInRangeExcluding_cases key lo hi temporaryExcluded with
    ⟨cur, _, _, _, _, heq⟩ | ⟨_, heq⟩
  · rw [heq]
    exact .refl h named
  · rw [heq]
    have hrelease := @releaseIpv4_step pool key h named
    have hscan := (@window_searched pool key h lo hi temporaryExcluded).step hrelease.valid named
    refine ⟨hscan.valid, ?_, hscan.setup.trans hrelease.setup, hscan.ipv6⟩
    have hchange := hscan.change
    have hheld : (pool.releaseIpv4 key).held = Function.update pool.held key none :=
      Leases.held_release _ key
    rw [hheld, show (pool.releaseIpv4 key).reserved = pool.reserved by simp [releaseIpv4]]
      at hchange
    exact hchange.of_lost

theorem allocateInRangeExcluding_result (h : pool.Ipv4Valid) {lo hi : Nat}
    {temporaryExcluded : Finset Nat} {pool' : IpPool} {result : Option Nat}
    (heq : pool.allocateInRangeExcluding key lo hi temporaryExcluded = (pool', result)) :
    pool'.held key = result ∧
      ∀ a, result = some a → lo ≤ a ∧ a ≤ hi ∧ a ∉ temporaryExcluded := by
  rcases pool.allocateInRangeExcluding_cases key lo hi temporaryExcluded with
    ⟨cur, hcur, hlo, hhi, htemp, hcase⟩ | ⟨_, hcase⟩
  · rw [hcase] at heq
    cases heq
    refine ⟨hcur, ?_⟩
    rintro a ⟨⟩
    exact ⟨hlo, hhi, htemp⟩
  · have hs := (@window_searched pool key h lo hi temporaryExcluded).search
    rw [hcase] at heq
    rw [heq] at hs
    cases hs with
    | found _ _ hheld _ hdrawn _ =>
      refine ⟨?_, ?_⟩
      · show pool'.toLeases.held key = _
        rw [hheld, Function.update_self]
      · rintro a ⟨⟩
        exact hdrawn
    | spent _ _ _ hheld _ =>
      refine ⟨?_, by simp⟩
      show pool'.toLeases.held key = _
      rw [hheld]
      show (pool.toLeases.release key).held key = none
      rw [Leases.held_release, Function.update_self]

/-- **A windowed call fails only when the window is taken.** -/
theorem allocateInRangeExcluding_eq_none_iff (h : pool.Ipv4Valid) {lo hi : Nat}
    {temporaryExcluded : Finset Nat}
    (hheld : ∀ cur, pool.held key = some cur → cur ∈ pool.reserved →
      ¬ (lo ≤ cur ∧ cur ≤ hi ∧ cur ∉ temporaryExcluded)) :
    (pool.allocateInRangeExcluding key lo hi temporaryExcluded).2 = none ↔
      ∀ a, pool.Usable a → lo ≤ a ∧ a ≤ hi ∧ a ∉ temporaryExcluded → a ∉ pool.excluded →
        a ∉ pool.reserved → ∃ other ≠ key, pool.held other = some a := by
  rcases pool.allocateInRangeExcluding_cases key lo hi temporaryExcluded with
    ⟨cur, hcur, hlo, hhi, htemp, hcase⟩ | ⟨_, hcase⟩
  · -- The key keeps an address that is not reserved: it is one of those, and nobody else's.
    rw [hcase]
    refine iff_of_false (by simp) fun hall => ?_
    obtain ⟨husable, hexcl⟩ := h.sound.heldUsable hcur
    obtain ⟨other, hne, hother⟩ := hall cur husable ⟨hlo, hhi, htemp⟩ hexcl
      fun hres => hheld cur hcur hres ⟨hlo, hhi, htemp⟩
    exact hne (h.sound.exclusive hother hcur)
  · rw [hcase, (window_searched h lo hi temporaryExcluded).search.eq_none_iff]
    have hrelease := @releaseIpv4_step pool key h fun _ => False
    have hreleased : (pool.releaseIpv4 key).held = Function.update pool.held key none :=
      Leases.held_release _ key
    have hrules : (pool.releaseIpv4 key).toRules = pool.toRules := by simp [releaseIpv4]
    refine forall_congr' fun a => imp_congr_right fun _ => imp_congr_right fun _ => ?_
    rw [hrelease.valid.sound.not_open_iff (by rw [hreleased, Function.update_self]), hrules,
      hreleased]
    refine imp_congr_right fun _ => imp_congr_right fun _ => exists_congr fun other =>
      and_congr_right fun hne => ?_
    rw [Function.update_of_ne hne]

/-! ## Addresses asked for by name -/

theorem allocateFixedUnclaimed_step (h : pool.Ipv4Valid) (named : Nat → Prop) :
    Ipv4Step named key pool (pool.allocateFixedUnclaimed key ip).1 := by
  unfold allocateFixedUnclaimed
  split
  · exact .refl h named
  · next hfind =>
    split
    · exact .refl h named
    · next hres =>
      have hfree : ∀ k' ≠ key, pool.held k' ≠ some ip := fun k' _ hk' => by
        have hmem := KeyMap.mem_toPairs.mpr hk'
        simpa using List.find?_eq_none.mp hfind _ hmem
      have hstep := @allocateFixed_step pool key ip h
      refine ⟨hstep.valid, ?_, hstep.setup, hstep.ipv6⟩
      have hchange := hstep.change
      generalize (pool.allocateFixed key ip).1.held = held' at hchange
      cases hchange with
      | kept => exact .kept
      | lost => exact .lost
      | granted hb hfree => exact .granted hb hfree
      | seized hb =>
        subst hb
        rw [seized_eq_update hfree]
        exact .granted hres hfree

theorem allocateFixedUnclaimed_result {pool' : IpPool} {result : Option Nat}
    (h : pool.Ipv4Valid) (heq : pool.allocateFixedUnclaimed key ip = (pool', result)) :
    (∀ a, result = some a → a = ip ∧ pool'.held key = some ip) ∧
      (result = none → pool' = pool) := by
  unfold allocateFixedUnclaimed at heq
  split at heq
  · next holder v hfind =>
    have hv : v = ip := by simpa using List.find?_some hfind
    have hheld : pool.held holder = some v :=
      KeyMap.mem_toPairs.mp (List.mem_of_find?_eq_some hfind)
    cases heq
    refine ⟨fun a ha => ?_, fun _ => rfl⟩
    split at ha
    · next hkey =>
      cases ha
      exact ⟨rfl, by rw [← hkey, hheld, hv]⟩
    · cases ha
  · split at heq
    · cases heq
      exact ⟨by simp, fun _ => rfl⟩
    · unfold allocateFixed at heq
      split at heq
      · cases heq
        exact ⟨by simp, fun _ => rfl⟩
      · cases heq
        refine ⟨?_, by simp⟩
        rintro a ⟨⟩
        refine ⟨rfl, ?_⟩
        show (pool.toLeases.take key ip).held key = some ip
        rw [h.sound.held_take, seized_self]

/-! ## A new pool -/

theorem excludes {text : Text} (values : List String) (excluded : Finset Nat) :
    excluded ⊆ values.foldl (exclude text) excluded ∧
      ∀ value ∈ values, ∀ ip, text.parseIpv4 value = .ok ip →
        ip.toNat ∈ values.foldl (exclude text) excluded := by
  induction values generalizing excluded with
  | nil => exact ⟨Finset.Subset.refl _, by simp⟩
  | cons value values ih =>
    obtain ⟨hsub, hall⟩ := ih (exclude text excluded value)
    have hone : excluded ⊆ exclude text excluded value := by
      unfold exclude
      split
      · exact Finset.subset_insert _ _
      · exact Finset.Subset.refl _
    refine ⟨hone.trans hsub, List.forall_mem_cons.mpr ⟨fun ip hparse => hsub ?_, hall⟩⟩
    unfold exclude
    rw [hparse]
    exact Finset.mem_insert_self _ _

variable {text : Text} {config : PoolConfig}

theorem reserve_ok {startIp endIp : Nat} {excluded : Finset Nat} {acc next : Reservations}
    {entry : String × String} (h : reserve text config startIp endIp excluded acc entry = .ok next) :
    ∃ address, text.parseIpv4 entry.2 = .ok address ∧ acc.configured.get? address.toNat = none ∧
      next = ⟨acc.configured.insert address.toNat entry.1, insert address.toNat acc.reserved,
        acc.staticReservations ++ [(entry.1, address.toNat)]⟩ := by
  unfold reserve at h
  dsimp only at h
  split at h
  · cases h
  · next address hparse =>
    split at h
    · cases h
    · split at h
      · cases h
      · next hnew =>
        cases h
        exact ⟨address, hparse, hnew, rfl⟩

theorem reservations_ok {startIp endIp : Nat} {excluded : Finset Nat}
    {entries : List (String × String)} {result : Reservations}
    (h : entries.foldlM (reserve text config startIp endIp excluded) ⟨∅, ∅, []⟩ = .ok result) :
    ReservedFor result.reserved result.staticReservations ∧ ∀ entry ∈ entries, ∀ address,
      text.parseIpv4 entry.2 = .ok address →
        (entry.1, address.toNat) ∈ result.staticReservations := by
  -- The map that is asked for duplicates has the reserved addresses as its keys.
  have hloop := foldlM_ok
    (fun acc => ReservedFor acc.reserved acc.staticReservations ∧
      ∀ a, acc.configured.get? a = none → a ∉ acc.reserved)
    (fun entry acc => ∀ address, text.parseIpv4 entry.2 = .ok address →
      (entry.1, address.toNat) ∈ acc.staticReservations)
    (fun {b entry b'} hinv hone => ?_) (fun {b entry b' x} hx hone => ?_) h ⟨.nil, by simp⟩
  · exact ⟨hloop.1.1, hloop.2.1⟩
  · obtain ⟨address, hparse, hnew, rfl⟩ := reserve_ok hone
    refine ⟨⟨hinv.1.snoc (hinv.2 _ hnew) _, fun a ha => ?_⟩, fun address' hparse' => ?_⟩
    · rw [KeyMap.get?_insert] at ha
      split at ha
      · cases ha
      · next hne => simpa [hne] using hinv.2 a ha
    · rw [hparse] at hparse'
      cases hparse'
      simp
  · obtain ⟨address, _, _, rfl⟩ := reserve_ok hone
    exact fun address' hparse' => List.mem_append_left _ (hx address' hparse')

structure Built (text : Text) (config : PoolConfig) (tunAddress : Nat) (pool : IpPool) :
    Prop where
  subnet : ∃ subnet, poolSubnet text config.cidr = .ok subnet ∧
    ∀ a, pool.Usable a → subnet.containsUsableHost a
  tun : tunAddress ∈ pool.excluded
  exclude : ∀ value ∈ config.exclude, ∀ ip, text.parseIpv4 value = .ok ip →
    ip.toNat ∈ pool.excluded
  reserved : ReservedFor pool.reserved pool.staticReservations
  reservations : ∀ entry ∈ config.staticReservations, ∀ address,
    text.parseIpv4 entry.2 = .ok address → (entry.1, address.toNat) ∈ pool.staticReservations
  unused : pool.held = fun _ => none
  valid : pool.Ipv4Valid

theorem newWithTun_built {tunAddress : Nat} {pool : IpPool}
    (h : newWithTun text config tunAddress = .ok pool) :
    Built text config tunAddress pool ∧ pool.ipv6 = none := by
  unfold newWithTun parseCidr at h
  cases hsubnet : poolSubnet text config.cidr with
  | error e =>
    rw [hsubnet] at h
    cases h
  | ok subnet =>
    rw [hsubnet] at h
    dsimp only at h
    split at h
    · cases h
    split at h
    · cases h
    · next hmask totalIps htotal =>
      split at h
      · cases h
      split at h
      · cases h
      · next reservations hres =>
        cases h
        have hshl : totalIps = 2 ^ (32 - subnet.prefixLen) ∧ 0 < subnet.prefixLen := by
          unfold checkedShl at htotal
          split at htotal
          · cases htotal
            exact ⟨Nat.one_shiftLeft _, by omega⟩
          · cases htotal
        obtain ⟨hnet, hbroadcast⟩ := (poolSubnet_ok hsubnet).2 hshl.2
        have hpow : 2 ^ 2 ≤ 2 ^ (32 - subnet.prefixLen) :=
          Nat.pow_le_pow_right (by omega) (by omega)
        have hstart : subnet.network ||| 1 = subnet.network + 1 := hnet.or_host (by omega)
        have hend : subnet.network ||| (totalIps - 2) =
            subnet.network + (2 ^ (32 - subnet.prefixLen) - 2) := by
          rw [hshl.1, hnet.or_host (by omega)]
        obtain ⟨hsub, hall⟩ := @excludes text config.exclude
          {subnet.network, subnet.network ||| (totalIps - 1)}
        refine ⟨⟨⟨subnet, hsubnet, fun a ha => ?_⟩, Finset.mem_insert_self _ _,
          fun value hmem ip hparse => Finset.mem_insert_of_mem (hall value hmem ip hparse),
          (reservations_ok hres).1, (reservations_ok hres).2, rfl, ?_⟩, rfl⟩
        · obtain ⟨hlo, hhi⟩ := ha
          dsimp only at hlo hhi
          rw [hstart] at hlo
          rw [hend] at hhi
          simp only [PoolSubnet.containsUsableHost, Bool.and_eq_true, decide_eq_true_eq]
          omega
        · exact ⟨Leases.Sound.empty _ fun a ha => ha.1, Nat.le_refl _⟩

end IpPool

end Qeli.Pool
