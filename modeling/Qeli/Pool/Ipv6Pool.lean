import Qeli.Lib.Leases
import Qeli.Lib.Run
import Qeli.Pool.Subnet

/-!
# The IPv6 pool

`pool::Ipv6Pool`, function by function. The records it shares with the IPv4 pool are
`Lib.Leases`; the cursor and the bounds are its own. A call gives back the pool it leaves
and its result. `Step` says once what a call under a key does, and
`allocate_eq_none_iff` when dynamic allocation fails.
-/

namespace Qeli.Pool

open Lib

def u128Max : Nat := 2 ^ 128 - 1

structure Ipv6Pool extends Leases String Nat where
  network : Nat
  prefixLen : Nat
  endIp : Nat
  staticReservations : List (String × Nat)
  cursor : Option Nat

namespace Ipv6Pool

/-! ## Construction -/

/-- One round of the loop over `config.exclude`. -/
def exclude (text : Text) (config : Ipv6PoolConfig) (network endIp : Nat) (excluded : Finset Nat)
    (value : String) : Except String (Finset Nat) :=
  match text.parseIpv6 value with
  | .error _ => .error s!"pool.ipv6.exclude contains invalid IPv6 address '{value}'"
  | .ok address =>
    let raw := address.toNat
    if raw < network ∨ raw > endIp then
      .error s!"pool.ipv6.exclude address {text.displayIpv6 raw} is outside {config.cidr}"
    else .ok (insert raw excluded)

/-- One round of the loop over `config.static_reservations`. -/
def reserve (text : Text) (config : Ipv6PoolConfig) (network endIp : Nat) (excluded : Finset Nat)
    (acc : Finset Nat × List (String × Nat)) (entry : String × String) :
    Except String (Finset Nat × List (String × Nat)) :=
  let (reserved, staticReservations) := acc
  let (username, value) := entry
  match text.parseIpv6 value with
  | .error _ =>
    .error s!"pool.ipv6.reservation.{username} contains invalid IPv6 address '{value}'"
  | .ok address =>
    let raw := address.toNat
    let shown := text.displayIpv6 raw
    if raw ≤ network ∨ raw > endIp ∨ raw ∈ excluded then
      .error s!"pool.ipv6.reservation.{username} = {shown} is not assignable in {config.cidr}"
    else if raw ∈ reserved then .error s!"duplicate IPv6 reservation for {shown}"
    else .ok (insert raw reserved, staticReservations ++ [(username, raw)])

def new (text : Text) (config : Ipv6PoolConfig) (tunAddress : Nat) : Except String Ipv6Pool :=
  match ipv6PoolSubnet text config.cidr with
  | .error e => .error e
  | .ok subnet =>
    let network := subnet.network
    let hostMask := if subnet.prefixLen = 0 then u128Max else u128Max >>> subnet.prefixLen
    let endIp := network ||| hostMask
    let shown := text.displayIpv6 tunAddress
    if !subnet.containsAssignable tunAddress then
      .error s!"tun.ipv6_address {shown} is not an assignable host inside pool.ipv6.cidr {config.cidr}"
    else
      match config.exclude.foldlM (exclude text config network endIp) {network, tunAddress} with
      | .error e => .error e
      | .ok excluded =>
        match config.staticReservations.foldlM (reserve text config network endIp excluded)
            (∅, []) with
        | .error e => .error e
        | .ok (reserved, staticReservations) =>
          .ok {
            network, endIp, staticReservations, excluded, reserved
            prefixLen := subnet.prefixLen
            allocated := ∅
            allocations := ∅
            freed := []
            freedSet := ∅
            cursor := checkedAdd u128Max network 1 }

/-! ## Calls -/

def inRange (self : Ipv6Pool) (value : Nat) : Bool :=
  decide (self.network < value) && decide (value ≤ self.endIp)

def assignDynamic (self : Ipv6Pool) (key : String) (value : Nat) : Ipv6Pool × Bool :=
  if self.inRange value ∧ self.Open value then
    ({ self with toLeases := self.toLeases.assign key value }, true)
  else (self, false)

def allocateFixed (self : Ipv6Pool) (key : String) (value : Nat) : Ipv6Pool × Option Nat :=
  if ¬ self.inRange value ∨ value ∈ self.excluded then (self, none)
  else ({ self with toLeases := self.toLeases.take key value }, some value)

/-- The loop that moves the cursor. -/
def advance (key : String) : Nat → Ipv6Pool → Ipv6Pool × Option Nat
  | 0, self => (self, none)
  | fuel + 1, self =>
    match self.cursor with
    | none => (self, none)
    | some value =>
      let self := { self with
        cursor := if value = self.endIp then none else checkedAdd u128Max value 1 }
      match self.assignDynamic key value with
      | (self, true) => (self, some value)
      | (self, false) => advance key fuel self

def allocate (self : Ipv6Pool) (key : String) : Ipv6Pool × Option Nat :=
  match self.held key with
  | some value => (self, some value)
  | none =>
    match (self.staticReservations.find? fun (username, _) => username == key).map Prod.snd with
    | some address => self.allocateFixed key address
    | none =>
      match self.toLeases.reuse self.inRange key with
      | (leases, some value) => ({ self with toLeases := leases }, some value)
      -- The cursor only grows, so there are no more rounds than addresses.
      | (leases, none) => advance key (2 ^ 128) { self with toLeases := leases }

theorem find_reservation (self : Ipv6Pool) (key : String) :
    (self.staticReservations.find? fun (username, _) => username == key) =
      self.staticReservations.find? fun entry => entry.1 == key :=
  rfl

def release (self : Ipv6Pool) (key : String) : Ipv6Pool :=
  { self with toLeases := self.toLeases.release key }

def getIpByUsername (self : Ipv6Pool) (key : String) : Option Nat := self.held key

/-! ## What a call does -/

def Usable (self : Ipv6Pool) (value : Nat) : Prop := self.network < value ∧ value ≤ self.endIp

def Fresh (self : Ipv6Pool) (value : Nat) : Prop := ∃ c, self.cursor = some c ∧ c ≤ value

structure Valid (pool : Ipv6Pool) : Prop where
  sound : pool.toLeases.Sound pool.Usable pool.Fresh
  cursor : ∀ c, pool.cursor = some c → c ≤ pool.endIp
  bounded : pool.endIp ≤ u128Max

def setup (self : Ipv6Pool) : Rules Nat × Nat × Nat × List (String × Nat) :=
  (self.toRules, self.network, self.endIp, self.staticReservations)

/-- A call under `key` that may ask for the addresses in `named`. -/
structure Step (named : Nat → Prop) (key : String) (pool pool' : Ipv6Pool) : Prop where
  valid : pool'.Valid
  change : Change pool.reserved named key pool.held pool'.held
  setup : pool'.setup = pool.setup

theorem inRange_iff {pool : Ipv6Pool} {value : Nat} :
    pool.inRange value = true ↔ pool.Usable value := by
  simp [inRange, Usable]

variable {pool : Ipv6Pool} {key : String} {value : Nat}

theorem Valid.withLeases (h : pool.Valid) {leases : Leases String Nat}
    (hsound : leases.Sound pool.Usable pool.Fresh) : { pool with toLeases := leases }.Valid :=
  ⟨hsound, h.cursor, h.bounded⟩

theorem release_step (h : pool.Valid) (named : Nat → Prop) :
    Step named key pool (pool.release key) where
  valid := h.withLeases h.sound.release
  change := by
    show Change _ _ _ _ (pool.toLeases.release key).held
    rw [Leases.held_release]
    exact .lost
  setup := by simp [Ipv6Pool.setup, release]

theorem allocateFixed_step (h : pool.Valid) :
    Step (· = value) key pool (pool.allocateFixed key value).1 := by
  unfold allocateFixed
  split
  · exact ⟨h, .kept, rfl⟩
  · next hok =>
    rw [not_or, not_not, inRange_iff] at hok
    refine ⟨h.withLeases (h.sound.take hok.1 hok.2), ?_, by simp [Ipv6Pool.setup]⟩
    show Change _ _ _ _ (pool.toLeases.take key value).held
    rw [h.sound.held_take]
    exact .seized rfl

theorem fresh_next (h : pool.Valid) (hcursor : pool.cursor = some value) {next : Option Nat}
    (hnext : next = if value = pool.endIp then none else checkedAdd u128Max value 1) :
    (∀ c, next = some c → c = value + 1 ∧ c ≤ pool.endIp) ∧
      ∀ b, pool.Usable b → (b = value ∨ { pool with cursor := next }.Fresh b ↔ pool.Fresh b) := by
  have hle := h.cursor value hcursor
  have hbound := h.bounded
  have hfresh : ∀ b, pool.Fresh b ↔ value ≤ b := fun b => by
    simp [Fresh, hcursor]
  subst hnext
  split
  · next hend =>
    refine ⟨by simp, fun b hb => ?_⟩
    rw [hfresh]
    have := hb.2
    simp only [Fresh, reduceCtorEq, false_and, exists_false, or_false]
    omega
  · next hend =>
    have hadd : checkedAdd u128Max value 1 = some (value + 1) :=
      checkedAdd_eq_some.mpr ⟨by omega, rfl⟩
    rw [hadd]
    refine ⟨?_, fun b _ => ?_⟩
    · intro c hc
      cases hc
      exact ⟨rfl, by omega⟩
    · rw [hfresh]
      simp only [Fresh, Option.some.injEq, exists_eq_left']
      omega

structure Searched (drawn : Nat → Prop) (key : String) (pool : Ipv6Pool)
    (r : Ipv6Pool × Option Nat) : Prop where
  search : Leases.Search pool.Usable drawn r.1.Fresh key pool.toLeases (r.1.toLeases, r.2)
  valid : r.1.Valid
  setup : r.1.setup = pool.setup

theorem advance_searched (fuel : Nat) : ∀ {pool : Ipv6Pool}, pool.Valid → pool.held key = none →
    (∀ c, pool.cursor = some c → pool.endIp < c + fuel) →
    Searched pool.Fresh key pool (advance key fuel pool) := by
  induction fuel with
  | zero =>
    intro pool h _ hfuel
    refine ⟨.spent h.sound rfl rfl rfl ?_, h, rfl⟩
    rintro a _ ⟨c, hc, _⟩
    have := h.cursor c hc
    have := hfuel c hc
    omega
  | succ fuel ih =>
    intro pool h hheld hfuel
    unfold advance
    split
    · next hnone =>
      refine ⟨.spent h.sound rfl rfl rfl ?_, h, rfl⟩
      rintro a _ ⟨c, hc, _⟩
      rw [hnone] at hc
      cases hc
    · next value hsome =>
      dsimp only
      generalize hcur : (if value = pool.endIp then none else checkedAdd u128Max value 1) = next
      obtain ⟨hnext, hfresh⟩ := fresh_next h hsome hcur.symm
      have hdrawn : pool.toLeases.Sound pool.Usable
          fun b => { pool with cursor := next }.Fresh b ∨ b = value :=
        h.sound.settle fun b hb _ hb' => ((hfresh b hb).mpr hb').symm
      have hdraw := hdrawn.draw hheld
      have hcursor : ∀ c, next = some c → c ≤ pool.endIp := fun c hc => (hnext c hc).2
      by_cases hopen : pool.Usable value ∧ pool.Open value
      · have hassign : assignDynamic { pool with cursor := next } key value =
            ({ pool with toLeases := pool.toLeases.assign key value, cursor := next }, true) :=
          if_pos ⟨inRange_iff.mpr hopen.1, hopen.2⟩
        have hsound := hdraw.1 hopen.1 hopen.2
        rw [hassign]
        exact ⟨.found hsound rfl (Leases.held_assign _ key value) hopen.1
          ⟨value, hsome, Nat.le_refl value⟩ hopen.2, ⟨hsound, hcursor, h.bounded⟩, rfl⟩
      · have hskip : assignDynamic { pool with cursor := next } key value =
            ({ pool with cursor := next }, false) :=
          if_neg fun hok => hopen ⟨inRange_iff.mp hok.1, hok.2⟩
        have hclosed : pool.Usable value → ¬ pool.Open value := fun ha ho => hopen ⟨ha, ho⟩
        have hsound := hdraw.2 hclosed
        have hhead : Leases.Search pool.Usable (· = value) { pool with cursor := next }.Fresh key
            pool.toLeases (pool.toLeases, none) := by
          refine .spent hsound rfl rfl rfl ?_
          rintro b hb rfl
          exact hclosed hb
        have hrest := @ih { pool with cursor := next } ⟨hsound, hcursor, h.bounded⟩ hheld
          fun c hc => by
            have := (hnext c hc).1
            have := hfuel value hsome
            show pool.endIp < c + fuel
            omega
        rw [hskip]
        exact ⟨(hhead.andThen hrest.search).congr fun b hb _ => hfresh b hb, hrest.valid, hrest.setup⟩

theorem allocate_searched (h : pool.Valid) (hheld : pool.held key = none)
    (hstatic : ∀ entry ∈ pool.staticReservations, entry.1 ≠ key) :
    Searched (fun _ => True) key pool (pool.allocate key) := by
  have hfind : pool.staticReservations.find? (fun (username, _) => username == key) = none :=
    List.find?_eq_none.mpr fun entry hmem => by simpa using hstatic entry hmem
  unfold allocate
  rw [hheld, hfind]
  dsimp only [Option.map_none]
  have hstock : ∀ a, pool.Usable a → pool.Open a → (a ∈ pool.freed ∨ pool.Fresh a ↔ True) :=
    fun a ha hopen => iff_true_intro (h.sound.stocked ha hopen)
  have hreuse := Leases.reuse_search h.sound hheld fun a ha => inRange_iff.mpr ha
  generalize pool.toLeases.reuse pool.inRange key = r at hreuse ⊢
  obtain ⟨leases, result⟩ := r
  have hvalid : { pool with toLeases := leases }.Valid := h.withLeases hreuse.sound
  have hsetup : { pool with toLeases := leases }.setup = pool.setup := by
    have hrules : leases.toRules = pool.toRules := hreuse.rules
    simp [setup, hrules]
  cases result with
  | some value =>
    exact ⟨hreuse.mono_some fun _ _ => trivial, hvalid, hsetup⟩
  | none =>
    have hrest := advance_searched (2 ^ 128) hvalid
      (show leases.held key = none by rw [hreuse.held_of_none, hheld])
      fun c _ => by
        have := h.bounded
        show pool.endIp < c + 2 ^ 128
        unfold u128Max at this
        omega
    exact ⟨(hreuse.andThen hrest.search).congr hstock, hrest.valid, hrest.setup.trans hsetup⟩

theorem allocate_step (h : pool.Valid) :
    Step (fun a => (key, a) ∈ pool.staticReservations) key pool (pool.allocate key).1 := by
  cases hheld : pool.held key with
  | some value =>
    have heq : pool.allocate key = (pool, some value) := by
      unfold allocate
      rw [hheld]
    rw [heq]
    exact ⟨h, .kept, rfl⟩
  | none =>
    cases hfind : pool.staticReservations.find? (fun (username, _) => username == key) with
    | none =>
      have hs := allocate_searched h hheld fun entry hmem => by
        simpa using List.find?_eq_none.mp hfind entry hmem
      exact ⟨hs.valid, (hs.search.change h.sound).mono fun _ => False.elim, hs.setup⟩
    | some entry =>
      have heq : pool.allocate key = pool.allocateFixed key entry.2 := by
        unfold allocate
        rw [hheld, hfind]
        rfl
      have hkey : entry.1 = key := by simpa using List.find?_some hfind
      have hstep := @allocateFixed_step pool key entry.2 h
      rw [heq]
      refine ⟨hstep.valid, hstep.change.mono ?_, hstep.setup⟩
      rintro a rfl
      exact hkey ▸ List.mem_of_find?_eq_some hfind

/-- **Dynamic allocation fails only when nothing is open.** -/
theorem allocate_eq_none_iff (h : pool.Valid) (hheld : pool.held key = none)
    (hstatic : ∀ entry ∈ pool.staticReservations, entry.1 ≠ key) :
    (pool.allocate key).2 = none ↔ ∀ a, pool.Usable a → ¬ pool.Open a := by
  rw [(allocate_searched h hheld hstatic).search.eq_none_iff]
  simp only [forall_const]

/-! ## A new pool -/

variable {text : Text} {config : Ipv6PoolConfig} {network endIp : Nat} {excluded : Finset Nat}

theorem exclude_ok {next : Finset Nat} {value : String}
    (h : exclude text config network endIp excluded value = .ok next) :
    ∃ address, text.parseIpv6 value = .ok address ∧ next = insert address.toNat excluded := by
  unfold exclude at h
  split at h
  · cases h
  · next address hparse =>
    dsimp only at h
    split at h
    · cases h
    · cases h
      exact ⟨address, hparse, rfl⟩

theorem excludes_ok {values : List String} {result : Finset Nat}
    (h : values.foldlM (exclude text config network endIp) excluded = .ok result) :
    excluded ⊆ result ∧ ∀ value ∈ values, ∀ address, text.parseIpv6 value = .ok address →
      address.toNat ∈ result := by
  have hloop := foldlM_ok (fun set => excluded ⊆ set)
    (fun value set => ∀ address, text.parseIpv6 value = .ok address → address.toNat ∈ set)
    (fun {b value b'} hsub hone => ?_) (fun {b value b' x} hx hone => ?_) h
    (Finset.Subset.refl _)
  · exact ⟨hloop.1, hloop.2.1⟩
  · obtain ⟨address, hparse, rfl⟩ := exclude_ok hone
    refine ⟨hsub.trans (Finset.subset_insert _ _), fun address' hparse' => ?_⟩
    rw [hparse] at hparse'
    cases hparse'
    exact Finset.mem_insert_self _ _
  · obtain ⟨address, _, rfl⟩ := exclude_ok hone
    exact fun address' hparse' => Finset.mem_insert_of_mem (hx address' hparse')

theorem reserve_ok {acc next : Finset Nat × List (String × Nat)} {entry : String × String}
    (h : reserve text config network endIp excluded acc entry = .ok next) :
    ∃ address, text.parseIpv6 entry.2 = .ok address ∧ address.toNat ∉ acc.1 ∧
      next = (insert address.toNat acc.1, acc.2 ++ [(entry.1, address.toNat)]) := by
  unfold reserve at h
  dsimp only at h
  split at h
  · cases h
  · next address hparse =>
    split at h
    · cases h
    · split at h
      · cases h
      · next hnew =>
        cases h
        exact ⟨address, hparse, hnew, rfl⟩

theorem reservations_ok {entries : List (String × String)}
    {result : Finset Nat × List (String × Nat)}
    (h : entries.foldlM (reserve text config network endIp excluded) (∅, []) = .ok result) :
    ReservedFor result.1 result.2 ∧ ∀ entry ∈ entries, ∀ address,
      text.parseIpv6 entry.2 = .ok address → (entry.1, address.toNat) ∈ result.2 := by
  have hloop := foldlM_ok (fun acc => ReservedFor acc.1 acc.2)
    (fun entry acc => ∀ address, text.parseIpv6 entry.2 = .ok address →
      (entry.1, address.toNat) ∈ acc.2)
    (fun {b entry b'} hres hone => ?_) (fun {b entry b' x} hx hone => ?_) h .nil
  · exact ⟨hloop.1, hloop.2.1⟩
  · obtain ⟨address, hparse, hnew, rfl⟩ := reserve_ok hone
    refine ⟨hres.snoc hnew _, fun address' hparse' => ?_⟩
    rw [hparse] at hparse'
    cases hparse'
    simp
  · obtain ⟨address, _, _, rfl⟩ := reserve_ok hone
    exact fun address' hparse' => List.mem_append_left _ (hx address' hparse')

structure Built (text : Text) (config : Ipv6PoolConfig) (tunAddress : Nat) (pool : Ipv6Pool) :
    Prop where
  subnet : ∃ subnet, ipv6PoolSubnet text config.cidr = .ok subnet ∧
    ∀ a, pool.Usable a → subnet.containsAssignable a
  tun : tunAddress ∈ pool.excluded
  exclude : ∀ value ∈ config.exclude, ∀ address, text.parseIpv6 value = .ok address →
    address.toNat ∈ pool.excluded
  reserved : ReservedFor pool.reserved pool.staticReservations
  reservations : ∀ entry ∈ config.staticReservations, ∀ address,
    text.parseIpv6 entry.2 = .ok address → (entry.1, address.toNat) ∈ pool.staticReservations
  unused : pool.held = fun _ => none
  valid : pool.Valid

theorem new_built {tunAddress : Nat} {pool : Ipv6Pool} (h : new text config tunAddress = .ok pool) :
    Built text config tunAddress pool := by
  unfold new at h
  split at h
  · cases h
  · next subnet hsubnet =>
    dsimp only at h
    split at h
    · cases h
    split at h
    · cases h
    · next excluded hexcl =>
      split at h
      · cases h
      · next reserved static hres =>
        cases h
        obtain ⟨hone, hle, hnet⟩ := ipv6PoolSubnet_ok hsubnet
        obtain ⟨hsub, hall⟩ := excludes_ok hexcl
        have hpow : 2 ^ 2 ≤ 2 ^ (128 - subnet.prefixLen) :=
          Nat.pow_le_pow_right (by omega) (by omega)
        have hend : subnet.network ||| (if subnet.prefixLen = 0 then u128Max
            else u128Max >>> subnet.prefixLen) =
              subnet.network + (2 ^ (128 - subnet.prefixLen) - 1) := by
          rw [if_neg (by omega), u128Max, ones_shiftRight, hnet.or_host (by omega)]
        obtain ⟨q, hq, hwidth⟩ := id hnet
        have hcursor : checkedAdd u128Max subnet.network 1 = some (subnet.network + 1) :=
          checkedAdd_eq_some.mpr ⟨by unfold u128Max; omega, rfl⟩
        constructor
        · refine ⟨subnet, hsubnet, fun a ha => ?_⟩
          dsimp only [Usable] at ha
          rw [hend] at ha
          have hmask := hnet.and_mask (Nat.le_of_lt ha.1) (by omega)
          simp only [Ipv6PoolSubnet.containsAssignable, Ipv6PoolSubnet.contains, ipv6PrefixMask,
            if_neg (show subnet.prefixLen ≠ 0 by omega), hmask]
          simp
          omega
        · exact hsub (by simp)
        · exact hall
        · exact (reservations_ok hres).1
        · exact (reservations_ok hres).2
        · rfl
        · refine ⟨Leases.Sound.empty _ fun a ha => ?_, fun c hc => ?_, ?_⟩
          · exact ⟨_, hcursor, ha.1⟩
          · dsimp only at hc ⊢
            rw [hcursor] at hc
            cases hc
            rw [hend]
            omega
          · dsimp only
            rw [hend]
            unfold u128Max
            omega

end Ipv6Pool

end Qeli.Pool
