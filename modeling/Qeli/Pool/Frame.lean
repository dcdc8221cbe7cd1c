import Qeli.Pool.Safety

/-!
# What a call leaves alone

`Reached` is every pool that the constructors and calls lead to. On such a pool a call
under one key changes another key's lease only by taking exactly the address it asks for
by name (`Frame`), and an allocation that succeeded, made again, finds its key holding
what it is given: it returns the same addresses and changes nothing.
-/

namespace Qeli.Pool

open Lib

inductive Reached (text : Text) : IpPool → Prop where
  | newWithTun {config : PoolConfig} {tunAddress : Nat} {pool : IpPool} :
      IpPool.newWithTun text config tunAddress = .ok pool → Reached text pool
  | newIpv6Only {config : Ipv6PoolConfig} {tunAddress : Nat} {pool : IpPool} :
      IpPool.newIpv6Only text config tunAddress = .ok pool → Reached text pool
  | enableIpv6 {config : Ipv6PoolConfig} {tunAddress : Nat} {pool pool' : IpPool} :
      Reached text pool → pool.enableIpv6 text config tunAddress = .ok pool' → Reached text pool'
  | call {pool : IpPool} (c : Call) : Reached text pool → Reached text (pool.call c)

/-- Another key's lease changes only where the call asks for its address, and then no third
key's does. -/
structure Frame (takes : Nat → Prop) (key : String) (held held' : String → Option Nat) : Prop where
  kept : (∀ a, ¬ takes a) → ∀ other ≠ key, held' other = held other
  taken : ∀ other ≠ key, held' other ≠ held other →
    ∃ a, takes a ∧ held other = some a ∧ held' other = none ∧ held' key = some a ∧
      ∀ third ≠ key, third ≠ other → held' third = held third

theorem frame_of_change {takes : Nat → Prop} {key : String} {held held' : String → Option Nat}
    {reserved : Finset Nat} (h : Change reserved takes key held held')
    (hexclusive : ∀ {k k' a}, held k = some a → held k' = some a → k = k') :
    Frame takes key held held' := by
  refine ⟨fun htakes other hother => h.other_eq htakes hother, fun other hother hne => ?_⟩
  obtain ⟨a, htakes, hheld, hlost, rfl⟩ := h.taken hother hne
  refine ⟨a, htakes, hheld, hlost, seized_self held key a, fun third hthird hdiffers => ?_⟩
  rw [seized_ne held a hthird]
  cases hb : held third with
  | none => rfl
  | some b =>
    have hba : b ≠ a := by
      rintro rfl
      exact hdiffers (hexclusive hb hheld)
    simp [hba]

/-! ## Allocations made twice -/

namespace Ipv6Pool

variable {pool : Ipv6Pool} {key : String} {value : Nat}

theorem allocate_of_held (h : pool.held key = some value) :
    pool.allocate key = (pool, some value) := by
  unfold allocate
  rw [h]

theorem allocateFixed_of_held (hvalid : pool.Valid) (h : pool.held key = some value) :
    pool.allocateFixed key value = (pool, some value) := by
  obtain ⟨husable, hexcluded⟩ := hvalid.sound.heldUsable h
  unfold allocateFixed
  rw [if_neg (by rw [not_or, not_not, inRange_iff]; exact ⟨husable, hexcluded⟩),
    Leases.take_of_held h]

theorem allocateFixed_result (hvalid : pool.Valid) {a : Nat}
    (h : (pool.allocateFixed key value).2 = some a) :
    a = value ∧ (pool.allocateFixed key value).1.held key = some value := by
  unfold allocateFixed at h ⊢
  split at h
  · cases h
  · next hok =>
    cases h
    refine ⟨rfl, ?_⟩
    rw [if_neg hok]
    show (pool.toLeases.take key value).held key = some value
    rw [hvalid.sound.held_take, seized_self]

theorem allocate_result (hvalid : pool.Valid) (h : (pool.allocate key).2 = some value) :
    (pool.allocate key).1.held key = some value := by
  cases hheld : pool.held key with
  | some current =>
    rw [allocate_of_held hheld] at h ⊢
    cases h
    exact hheld
  | none =>
    cases hfind : pool.staticReservations.find? (fun entry => entry.1 == key) with
    | none =>
      have hs := (allocate_searched hvalid hheld fun entry hmem => by
        simpa using List.find?_eq_none.mp hfind entry hmem).search
      rw [h] at hs
      exact hs.held_some
    | some entry =>
      have heq : pool.allocate key = pool.allocateFixed key entry.2 := by
        unfold allocate
        rw [hheld, find_reservation, hfind]
        rfl
      rw [heq] at h ⊢
      obtain ⟨rfl, hfixed⟩ := allocateFixed_result hvalid h
      exact hfixed

theorem release_release (pool : Ipv6Pool) (key : String) :
    (pool.release key).release key = pool.release key := by
  unfold release
  dsimp only
  rw [Leases.release_of_none]
  rw [Leases.held_release, Function.update_self]

end Ipv6Pool

namespace IpPool

variable {pool : IpPool} {key : String} {ip : Nat}

theorem allocate_of_held (h : pool.held key = some ip) :
    pool.allocate key = (pool, some ip) := by
  unfold allocate
  rw [h]

theorem allocateFixed_of_held (hvalid : pool.Ipv4Valid) (h : pool.held key = some ip) :
    pool.allocateFixed key ip = (pool, some ip) := by
  obtain ⟨⟨hlo, hhi⟩, hexcluded⟩ := hvalid.sound.heldUsable h
  unfold allocateFixed
  rw [if_neg (by push Not; exact ⟨hlo, hhi, hexcluded⟩), Leases.take_of_held h]

variable {a : Nat} {address fixed4 fixed6 : Option Nat} {mode : IpMode} {six : Ipv6Pool}
  {after : IpPool} {addresses : AssignedAddresses}

theorem allocateFixed_result (hvalid : pool.Ipv4Valid) (h : (pool.allocateFixed key ip).2 = some a) :
    a = ip ∧ (pool.allocateFixed key ip).1.held key = some ip := by
  unfold allocateFixed at h ⊢
  split at h
  · cases h
  · next hok =>
    cases h
    refine ⟨rfl, ?_⟩
    rw [if_neg hok]
    show (pool.toLeases.take key ip).held key = some ip
    rw [hvalid.sound.held_take, seized_self]

theorem allocate_result (hvalid : pool.Ipv4Valid) (h : (pool.allocate key).2 = some ip) :
    (pool.allocate key).1.held key = some ip := by
  cases hheld : pool.held key with
  | some current =>
    rw [allocate_of_held hheld] at h ⊢
    cases h
    exact hheld
  | none =>
    cases hfind : pool.staticReservations.find? (fun entry => entry.1 == key) with
    | none =>
      have hs := (allocate_searched hvalid hheld fun entry hmem => by
        simpa using List.find?_eq_none.mp hfind entry hmem).search
      rw [h] at hs
      exact hs.held_some
    | some entry =>
      have heq : pool.allocate key = pool.allocateFixed key entry.2 := by
        unfold allocate
        rw [hheld, find_reservation, hfind]
        rfl
      rw [heq] at h ⊢
      obtain ⟨rfl, hfixed⟩ := allocateFixed_result hvalid h
      exact hfixed

theorem allocateInRangeExcluding_of_held {lo hi : Nat} {temporaryExcluded : Finset Nat}
    (h : pool.held key = some ip) (hin : lo ≤ ip ∧ ip ≤ hi ∧ ip ∉ temporaryExcluded) :
    pool.allocateInRangeExcluding key lo hi temporaryExcluded = (pool, some ip) := by
  unfold allocateInRangeExcluding
  rw [h]
  exact if_pos hin

theorem allocateFixedUnclaimed_of_held (hvalid : pool.Ipv4Valid) (h : pool.held key = some ip) :
    pool.allocateFixedUnclaimed key ip = (pool, some ip) := by
  unfold allocateFixedUnclaimed
  split
  · next holder v hfind =>
    have hv : v = ip := by simpa using List.find?_some hfind
    have hholder : pool.held holder = some v :=
      KeyMap.mem_toPairs.mp (List.mem_of_find?_eq_some hfind)
    rw [hv] at hholder
    rw [if_pos (hvalid.sound.exclusive hholder h)]
  · next hfind =>
    have hmem := KeyMap.mem_toPairs.mpr h
    simpa using List.find?_eq_none.mp hfind _ hmem

theorem releaseIpv4_of_none (h : pool.held key = none) : pool.releaseIpv4 key = pool := by
  unfold releaseIpv4
  rw [Leases.release_of_none h]

/-! ### Both families -/

theorem okOr_ok {r : IpPool × Option Nat} {error : AddressAllocationError}
    (h : (okOr r error).2 = .ok address) : ∃ a, r.2 = some a ∧ address = some a := by
  unfold okOr at h
  dsimp only at h
  split at h
  · next a ha =>
    cases h
    exact ⟨a, ha, rfl⟩
  · cases h

theorem okOr_some (self : IpPool) (a : Nat) (error : AddressAllocationError) :
    okOr (self, some a) error = (self, .ok (some a)) := rfl

theorem ipv4ForMode_fixed (hmode : mode ≠ .ipv6) (address : Nat) :
    pool.ipv4ForMode key mode (some address) =
      okOr (pool.allocateFixed key address) (.invalidFixedIpv4 address) := by
  cases mode with
  | ipv6 => exact absurd rfl hmode
  | ipv4 | dual => rfl

theorem ipv4ForMode_none (hmode : mode ≠ .ipv6) :
    pool.ipv4ForMode key mode none = okOr (pool.allocate key) .ipv4Exhausted := by
  cases mode with
  | ipv6 => exact absurd rfl hmode
  | ipv4 | dual => rfl

theorem ipv6ForMode_fixed (hmode : mode ≠ .ipv4) (hsix : pool.ipv6 = some six) (address : Nat) :
    pool.ipv6ForMode key mode (some address) =
      okOr (pool.allocateFixedIpv6 key address) (.invalidFixedIpv6 address) := by
  unfold ipv6ForMode
  rw [hsix]
  cases mode with
  | ipv4 => exact absurd rfl hmode
  | ipv6 | dual => rfl

theorem ipv6ForMode_none (hmode : mode ≠ .ipv4) (hsix : pool.ipv6 = some six) :
    pool.ipv6ForMode key mode none = okOr (pool.allocateIpv6 key) .ipv6Exhausted := by
  unfold ipv6ForMode
  rw [hsix]
  cases mode with
  | ipv4 => exact absurd rfl hmode
  | ipv6 | dual => rfl

theorem ipv6ForMode_unavailable (hmode : mode ≠ .ipv4) (hsix : pool.ipv6 = none)
    (fixed : Option Nat) : pool.ipv6ForMode key mode fixed = (pool, .error .ipv6Unavailable) := by
  unfold ipv6ForMode
  rw [hsix]
  cases mode with
  | ipv4 => exact absurd rfl hmode
  | ipv6 | dual => cases fixed <;> rfl

theorem ipv4ForMode_again {fixed : Option Nat} (hvalid : pool.Ipv4Valid)
    (h : (pool.ipv4ForMode key mode fixed).2 = .ok address) (hafter : after.Ipv4Valid)
    (hheld : after.held = (pool.ipv4ForMode key mode fixed).1.held) :
    after.ipv4ForMode key mode fixed = (after, .ok address) := by
  by_cases hmode : mode = .ipv6
  · subst hmode
    cases h
    rfl
  · cases fixed with
    | some ip =>
      rw [ipv4ForMode_fixed hmode] at h hheld ⊢
      obtain ⟨a, hresult, rfl⟩ := okOr_ok h
      obtain ⟨rfl, hfixed⟩ := allocateFixed_result hvalid hresult
      have hkey : after.held key = some a := by rw [hheld]; exact hfixed
      rw [allocateFixed_of_held hafter hkey, okOr_some]
    | none =>
      rw [ipv4ForMode_none hmode] at h hheld ⊢
      obtain ⟨a, hresult, rfl⟩ := okOr_ok h
      have hkey : after.held key = some a := by rw [hheld]; exact allocate_result hvalid hresult
      rw [allocate_of_held hkey, okOr_some]

theorem allocateIpv6_of_held (hsix : pool.ipv6 = some six) (h : six.held key = some ip) :
    pool.allocateIpv6 key = (pool, some ip) := by
  unfold allocateIpv6
  rw [hsix]
  dsimp only
  rw [Ipv6Pool.allocate_of_held h, ← hsix]

theorem allocateFixedIpv6_of_held (hsix : pool.ipv6 = some six) (hvalid : six.Valid)
    (h : six.held key = some ip) : pool.allocateFixedIpv6 key ip = (pool, some ip) := by
  unfold allocateFixedIpv6
  rw [hsix]
  dsimp only
  rw [Ipv6Pool.allocateFixed_of_held hvalid h, ← hsix]

theorem allocateIpv6_result (hvalid : ∀ six, pool.ipv6 = some six → six.Valid)
    (h : (pool.allocateIpv6 key).2 = some ip) :
    ∃ six, (pool.allocateIpv6 key).1.ipv6 = some six ∧ six.held key = some ip := by
  unfold allocateIpv6 at h ⊢
  split at h
  · cases h
  · next six hsix =>
    exact ⟨_, rfl, Ipv6Pool.allocate_result (hvalid six hsix) h⟩

theorem allocateFixedIpv6_result (hvalid : ∀ six, pool.ipv6 = some six → six.Valid)
    (h : (pool.allocateFixedIpv6 key ip).2 = some a) :
    a = ip ∧ ∃ six, (pool.allocateFixedIpv6 key ip).1.ipv6 = some six ∧
      six.held key = some ip := by
  unfold allocateFixedIpv6 at h ⊢
  split at h
  · cases h
  · next six hsix =>
    obtain ⟨rfl, hheld⟩ := Ipv6Pool.allocateFixed_result (hvalid six hsix) h
    exact ⟨rfl, _, rfl, hheld⟩

theorem ipv6ForMode_again {fixed : Option Nat} (hvalid : ∀ six, pool.ipv6 = some six → six.Valid)
    (h : (pool.ipv6ForMode key mode fixed).2 = .ok address)
    (hafter : ∀ six, after.ipv6 = some six → six.Valid)
    (hipv6 : after.ipv6 = (pool.ipv6ForMode key mode fixed).1.ipv6) :
    after.ipv6ForMode key mode fixed = (after, .ok address) := by
  by_cases hmode : mode = .ipv4
  · subst hmode
    cases h
    rfl
  · cases hsix : pool.ipv6 with
    | none =>
      rw [ipv6ForMode_unavailable hmode hsix] at h
      cases h
    | some six =>
      cases fixed with
      | some ip =>
        rw [ipv6ForMode_fixed hmode hsix] at h hipv6
        obtain ⟨a, hresult, rfl⟩ := okOr_ok h
        obtain ⟨rfl, six', hsix', hheld⟩ := allocateFixedIpv6_result hvalid hresult
        have hsome : after.ipv6 = some six' := hipv6.trans hsix'
        rw [ipv6ForMode_fixed hmode hsome,
          allocateFixedIpv6_of_held hsome (hafter six' hsome) hheld, okOr_some]
      | none =>
        rw [ipv6ForMode_none hmode hsix] at h hipv6
        obtain ⟨a, hresult, rfl⟩ := okOr_ok h
        obtain ⟨six', hsix', hheld⟩ := allocateIpv6_result hvalid hresult
        have hsome : after.ipv6 = some six' := hipv6.trans hsix'
        rw [ipv6ForMode_none hmode hsome, allocateIpv6_of_held hsome hheld, okOr_some]

theorem ipv6ForMode_leases (pool : IpPool) (key : String) (mode : IpMode) (fixed : Option Nat) :
    (pool.ipv6ForMode key mode fixed).1.toLeases = pool.toLeases := by
  by_cases hmode : mode = .ipv4
  · subst hmode
    rfl
  · cases hsix : pool.ipv6 with
    | none => rw [ipv6ForMode_unavailable hmode hsix]
    | some six =>
      cases fixed with
      | some ip =>
        rw [ipv6ForMode_fixed hmode hsix]
        simp [okOr, allocateFixedIpv6, hsix]
      | none =>
        rw [ipv6ForMode_none hmode hsix]
        simp [okOr, allocateIpv6, hsix]

theorem retainModeLeases_of_free (h4 : mode = .ipv6 → pool.held key = none)
    (h6 : mode = .ipv4 → ∀ six, pool.ipv6 = some six → six.release key = six) :
    pool.retainModeLeases key mode = pool := by
  cases mode with
  | ipv6 => exact releaseIpv4_of_none (h4 rfl)
  | dual => rfl
  | ipv4 =>
    have hsix : pool.ipv6.map (fun ipv6 => ipv6.release key) = pool.ipv6 := by
      cases hsix : pool.ipv6 with
      | none => rfl
      | some six => exact congrArg some (h6 rfl six hsix)
    unfold retainModeLeases
    rw [hsix]

theorem ipv4ForMode_ipv6 (hvalid : pool.Ipv4Valid) (mode : IpMode) (fixed : Option Nat) :
    (pool.ipv4ForMode key mode fixed).1.ipv6 = pool.ipv6 := by
  by_cases hmode : mode = .ipv6
  · subst hmode
    rfl
  · exact (ipv4ForMode_step hvalid hmode fixed).ipv6

theorem allocateForMode_halves (h : (pool.allocateForMode key mode fixed4 fixed6).2 = .ok addresses) :
    ((pool.retainModeLeases key mode).ipv4ForMode key mode fixed4).2 = .ok addresses.ipv4 ∧
      (((pool.retainModeLeases key mode).ipv4ForMode key mode fixed4).1.ipv6ForMode key mode
        fixed6).2 = .ok addresses.ipv6 := by
  unfold allocateForMode allocateForModeInner at h
  dsimp only at h
  cases hipv4 : (pool.retainModeLeases key mode).ipv4ForMode key mode fixed4 with
  | mk mid ipv4 =>
    rw [hipv4] at h
    cases ipv4 with
    | error e => cases h
    | ok ipv4 =>
      dsimp only at h
      cases hipv6 : mid.ipv6ForMode key mode fixed6 with
      | mk after ipv6 =>
        rw [hipv6] at h
        cases ipv6 with
        | error e => cases h
        | ok ipv6 =>
          cases h
          exact ⟨rfl, rfl⟩

theorem allocateForMode_of_halves (hretain : pool.retainModeLeases key mode = pool)
    (hipv4 : pool.ipv4ForMode key mode fixed4 = (pool, .ok addresses.ipv4))
    (hipv6 : pool.ipv6ForMode key mode fixed6 = (pool, .ok addresses.ipv6)) :
    pool.allocateForMode key mode fixed4 fixed6 = (pool, .ok addresses) := by
  unfold allocateForMode allocateForModeInner
  rw [hretain]
  dsimp only
  rw [hipv4]
  dsimp only
  rw [hipv6]

theorem allocateForMode_again (hvalid : pool.Valid)
    (h : (pool.allocateForMode key mode fixed4 fixed6).2 = .ok addresses) :
    (pool.allocateForMode key mode fixed4 fixed6).1.allocateForMode key mode fixed4 fixed6 =
      ((pool.allocateForMode key mode fixed4 fixed6).1, .ok addresses) := by
  obtain ⟨hipv4, hipv6⟩ := allocateForMode_halves h
  have hafter := (@allocateForMode_step pool key hvalid mode fixed4 fixed6).valid
  have hretained : (pool.retainModeLeases key mode).Valid :=
    (@retainModeLeases_step pool key (fun _ => False) (fun _ _ => False) hvalid mode).valid
  rw [allocateForMode_ok h] at hafter ⊢
  have hmid := @ipv4ForMode_ipv6 _ key hretained.ipv4 mode fixed4
  have hleases := ipv6ForMode_leases
    ((pool.retainModeLeases key mode).ipv4ForMode key mode fixed4).1 key mode fixed6
  refine allocateForMode_of_halves (retainModeLeases_of_free ?_ ?_) ?_ ?_
  · rintro rfl
    rw [hleases]
    show (pool.toLeases.release key).held key = none
    rw [Leases.held_release, Function.update_self]
  · rintro rfl six hsix
    have hreleased : pool.ipv6.map (fun ipv6 => ipv6.release key) = some six := hmid.symm.trans hsix
    obtain ⟨before, -, rfl⟩ := Option.map_eq_some_iff.mp hreleased
    exact Ipv6Pool.release_release before key
  · exact ipv4ForMode_again hretained.ipv4 hipv4 hafter.ipv4 (by rw [hleases])
  · exact ipv6ForMode_again (by rw [hmid]; exact hretained.ipv6) hipv6 hafter.ipv6 rfl

def answer (self : IpPool) : Call → Option AssignedAddresses
  | .allocate key => (self.allocate key).2.map fun ip => ⟨some ip, none⟩
  | .allocateIpv6 key => (self.allocateIpv6 key).2.map fun ip => ⟨none, some ip⟩
  | .allocateInRangeExcluding key lo hi temporaryExcluded =>
    (self.allocateInRangeExcluding key lo hi temporaryExcluded).2.map fun ip => ⟨some ip, none⟩
  | .allocateFixedUnclaimed key ip =>
    (self.allocateFixedUnclaimed key ip).2.map fun ip => ⟨some ip, none⟩
  | .allocateFixed key ip => (self.allocateFixed key ip).2.map fun ip => ⟨some ip, none⟩
  | .allocateFixedIpv6 key address =>
    (self.allocateFixedIpv6 key address).2.map fun ip => ⟨none, some ip⟩
  | .allocateForMode key mode fixedIpv4 fixedIpv6 =>
    (self.allocateForMode key mode fixedIpv4 fixedIpv6).2.toOption
  | .retainModeLeases _ _ => none
  | .release _ => none

theorem settled {r : IpPool × Option Nat} (h : r = (after, some a))
    (address : Nat → AssignedAddresses) : r.1 = after ∧ r.2.map address = some (address a) := by
  rw [h]
  exact ⟨rfl, rfl⟩

/-- **An allocation that succeeded, made again, returns the same and changes nothing.** -/
theorem call_again (hvalid : pool.Valid) {c : Call} (h : pool.answer c = some addresses) :
    (pool.call c).call c = pool.call c ∧ (pool.call c).answer c = some addresses := by
  have hafter := (call_takes hvalid c).valid
  cases c with
  | allocate key =>
    obtain ⟨ip, hresult, rfl⟩ := Option.map_eq_some_iff.mp h
    have hagain := allocate_of_held (allocate_result hvalid.ipv4 hresult)
    have hsettled := settled hagain fun ip => ⟨some ip, none⟩
    exact hsettled
  | allocateIpv6 key =>
    obtain ⟨ip, hresult, rfl⟩ := Option.map_eq_some_iff.mp h
    obtain ⟨six, hsix, hheld⟩ := allocateIpv6_result hvalid.ipv6 hresult
    have hagain := allocateIpv6_of_held hsix hheld
    have hsettled := settled hagain fun ip => ⟨none, some ip⟩
    exact hsettled
  | allocateInRangeExcluding key lo hi temporaryExcluded =>
    obtain ⟨ip, hresult, rfl⟩ := Option.map_eq_some_iff.mp h
    obtain ⟨hheld, hin⟩ := @allocateInRangeExcluding_result pool key hvalid.ipv4 lo hi
      temporaryExcluded _ _ rfl
    have hagain := allocateInRangeExcluding_of_held (hheld.trans hresult) (hin ip hresult)
    have hsettled := settled hagain fun ip => ⟨some ip, none⟩
    exact hsettled
  | allocateFixedUnclaimed key ip =>
    obtain ⟨a, hresult, rfl⟩ := Option.map_eq_some_iff.mp h
    obtain ⟨hok, -⟩ := @allocateFixedUnclaimed_result pool key ip _ _ hvalid.ipv4 rfl
    obtain ⟨rfl, hheld⟩ := hok a hresult
    have hagain := allocateFixedUnclaimed_of_held hafter.ipv4 hheld
    have hsettled := settled hagain fun ip => ⟨some ip, none⟩
    exact hsettled
  | allocateFixed key ip =>
    obtain ⟨a, hresult, rfl⟩ := Option.map_eq_some_iff.mp h
    obtain ⟨rfl, hheld⟩ := allocateFixed_result hvalid.ipv4 hresult
    have hagain := allocateFixed_of_held hafter.ipv4 hheld
    have hsettled := settled hagain fun ip => ⟨some ip, none⟩
    exact hsettled
  | allocateFixedIpv6 key address =>
    obtain ⟨a, hresult, rfl⟩ := Option.map_eq_some_iff.mp h
    obtain ⟨rfl, six, hsix, hheld⟩ := allocateFixedIpv6_result hvalid.ipv6 hresult
    have hagain := allocateFixedIpv6_of_held hsix (hafter.ipv6 six hsix) hheld
    have hsettled := settled hagain fun ip => ⟨none, some ip⟩
    exact hsettled
  | allocateForMode key mode fixed4 fixed6 =>
    have hresult : (pool.allocateForMode key mode fixed4 fixed6).2 = .ok addresses := by
      change (pool.allocateForMode key mode fixed4 fixed6).2.toOption = some addresses at h
      cases heq : (pool.allocateForMode key mode fixed4 fixed6).2 with
      | error e =>
        rw [heq] at h
        cases h
      | ok found =>
        rw [heq] at h
        cases h
        rfl
    have hagain := allocateForMode_again hvalid hresult
    have hpool := congrArg Prod.fst hagain
    have hanswer := congrArg (fun r => r.2.toOption) hagain
    exact ⟨hpool, hanswer⟩
  | retainModeLeases key mode | release key => cases h

end IpPool

/-! ## Reached pools -/

variable {text : Text} {pool : IpPool}

theorem Reached.valid (h : Reached text pool) : pool.Valid := by
  induction h with
  | newWithTun hnew =>
    obtain ⟨hbuilt, hnone⟩ := IpPool.newWithTun_built hnew
    exact ⟨hbuilt.valid, by simp [hnone]⟩
  | newIpv6Only hnew =>
    unfold IpPool.newIpv6Only at hnew
    split at hnew
    · cases hnew
    · next six hsix =>
      cases hnew
      refine ⟨⟨Leases.Sound.empty _ fun a ha => ha.1, Nat.le_refl _⟩, ?_⟩
      rintro six' ⟨⟩
      exact (Ipv6Pool.new_built hsix).valid
  | enableIpv6 _ hnew ih =>
    unfold IpPool.enableIpv6 at hnew
    split at hnew
    · cases hnew
    · next six hsix =>
      cases hnew
      refine ⟨⟨ih.ipv4.sound, ih.ipv4.cursor⟩, ?_⟩
      rintro six' ⟨⟩
      exact (Ipv6Pool.new_built hsix).valid
  | call c _ ih => exact (IpPool.call_takes ih c).valid

theorem frame_ipv6 (hvalid : pool.Valid) (c : Call) :
    Frame (fun a => ∃ six, pool.ipv6 = some six ∧ c.TakesIpv6 six.staticReservations a) c.key
      pool.getIpv6ByUsername (pool.call c).getIpv6ByUsername := by
  have hrel := (IpPool.call_takes hvalid c).ipv6
  cases hsix : pool.ipv6 with
  | none =>
    rw [hsix] at hrel
    cases hafter : (pool.call c).ipv6 with
    | some six =>
      rw [hafter] at hrel
      cases hrel
    | none =>
      have hget : (pool.call c).getIpv6ByUsername = pool.getIpv6ByUsername := by
        funext key
        simp [IpPool.getIpv6ByUsername, hsix, hafter]
      rw [hget]
      exact ⟨fun _ _ _ => rfl, fun _ _ hne => absurd rfl hne⟩
  | some six =>
    cases hafter : (pool.call c).ipv6 with
    | none =>
      rw [hsix, hafter] at hrel
      cases hrel
    | some six' =>
      rw [hsix, hafter] at hrel
      cases hrel with
      | some hstep =>
        have hbefore : pool.getIpv6ByUsername = six.held := by
          funext key
          simp [IpPool.getIpv6ByUsername, hsix, Ipv6Pool.getIpByUsername]
        have hnow : (pool.call c).getIpv6ByUsername = six'.held := by
          funext key
          simp [IpPool.getIpv6ByUsername, hafter, Ipv6Pool.getIpByUsername]
        rw [hbefore, hnow]
        exact frame_of_change (hstep.change.mono fun a ha => ⟨six, rfl, ha⟩)
          (hvalid.ipv6 six hsix).sound.exclusive

/-- **Only a fixed assignment takes an address away.** -/
theorem only_fixed_takes {text : Text} {pool : IpPool} (hreached : Reached text pool) :
    (∀ c : Call,
      Frame (c.TakesIpv4 pool.staticReservations) c.key pool.getIpByUsername
        (pool.call c).getIpByUsername ∧
      Frame (fun a => ∃ six, pool.ipv6 = some six ∧ c.TakesIpv6 six.staticReservations a) c.key
        pool.getIpv6ByUsername (pool.call c).getIpv6ByUsername ∧
      ∀ addresses, pool.answer c = some addresses →
        (pool.call c).call c = pool.call c ∧ (pool.call c).answer c = some addresses) ∧
    ∀ key lo hi temporaryExcluded a,
      (pool.allocateInRangeExcluding key lo hi temporaryExcluded).2 = some a →
        lo ≤ a ∧ a ≤ hi ∧ a ∉ temporaryExcluded := by
  have hvalid := hreached.valid
  refine ⟨fun c => ⟨?_, frame_ipv6 hvalid c, fun _ => IpPool.call_again hvalid⟩, ?_⟩
  · exact frame_of_change (IpPool.call_takes hvalid c).change hvalid.ipv4.sound.exclusive
  · intro key lo hi temporaryExcluded a ha
    exact (@IpPool.allocateInRangeExcluding_result pool key hvalid.ipv4 lo hi temporaryExcluded _ _
      rfl).2 a ha

theorem Reached.run (h : Reached text pool) (calls : List Call) :
    Reached text (pool.run calls) := by
  induction calls using List.reverseRecOn with
  | nil => exact h
  | append_singleton calls c ih =>
    rw [IpPool.run_snoc]
    exact .call c ih

theorem reached_of_build {config : PoolConfig} {tunAddress : Nat}
    {ipv6 : Option (Ipv6PoolConfig × Nat)} (h : IpPool.build text config tunAddress ipv6 = .ok pool) :
    Reached text pool := by
  unfold IpPool.build at h
  split at h
  · cases h
  · next hnew =>
    split at h
    · cases h
      exact .newWithTun hnew
    · exact .enableIpv6 (.newWithTun hnew) h

/-- A guest has the reserved addresses of carol; frank has one of his own. -/
def guestCalls : List Call :=
  [.allocateFixed "guest" 0x0a090005, .allocate "frank",
    .allocateFixedIpv6 "guest" 0xfd710000000000000000000000000003]

theorem officePool_guest : officePool.map (fun pool =>
    ((pool.run guestCalls).getIpByUsername "guest",
      ((pool.run guestCalls).call (.allocate "carol")).getIpByUsername "guest",
      (pool.run guestCalls).staticReservations)) =
    .ok (some 0x0a090005, none, [("carol", 0x0a090005)]) := by
  decide +kernel

/-- Carol's allocation takes her address back and leaves frank's alone; dave's takes none. -/
theorem only_fixed_takes_office : ∃ pool, officePool = .ok pool ∧
    (pool.run guestCalls).getIpByUsername "guest" = some 0x0a090005 ∧
    ((pool.run guestCalls).call (.allocate "carol")).getIpByUsername "guest" = none ∧
    ((pool.run guestCalls).call (.allocate "carol")).getIpByUsername "frank" =
      (pool.run guestCalls).getIpByUsername "frank" ∧
    ((pool.run guestCalls).call (.allocate "dave")).getIpByUsername "guest" =
      (pool.run guestCalls).getIpByUsername "guest" := by
  have hguest := officePool_guest
  cases hpool : officePool with
  | error e =>
    rw [hpool] at hguest
    cases hguest
  | ok pool =>
    rw [hpool] at hguest
    simp only [Except.map, Except.ok.injEq, Prod.mk.injEq] at hguest
    obtain ⟨hheld, hlost, hstatic⟩ := hguest
    obtain ⟨hcalls, -⟩ := only_fixed_takes ((reached_of_build hpool).run guestCalls)
    obtain ⟨a, -, -, -, -, hthird⟩ := (hcalls (.allocate "carol")).1.taken "guest" (by decide)
      (by rw [hheld, hlost]; simp)
    refine ⟨pool, rfl, hheld, hlost, hthird "frank" (by decide) (by decide), ?_⟩
    refine (hcalls (.allocate "dave")).1.kept ?_ "guest" (by decide)
    rw [hstatic]
    intro a ha
    have hmem : ("dave", a) ∈ [("carol", 0x0a090005)] := ha
    simp at hmem

end Qeli.Pool
