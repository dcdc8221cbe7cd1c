import Qeli.Pool.Ipv4Leases

/-!
# Runs of calls on a pool

`Call` lists the calls that change a pool and `IpPool.run` makes them one after another.
`call_step` is what one call does to the two families: each of its families sees at most
one of the changes of `Lib.Change`, under the key of the call, and a reserved address only
comes to a key by name.
-/

namespace Qeli.Pool

open Lib

inductive Call where
  | allocate (key : String)
  | allocateIpv6 (key : String)
  | allocateInRangeExcluding (key : String) (lo hi : Nat) (temporaryExcluded : Finset Nat)
  | allocateFixedUnclaimed (key : String) (ip : Nat)
  | allocateFixed (key : String) (ip : Nat)
  | allocateFixedIpv6 (key : String) (address : Nat)
  | allocateForMode (key : String) (mode : IpMode) (fixedIpv4 fixedIpv6 : Option Nat)
  | retainModeLeases (key : String) (mode : IpMode)
  | release (key : String)

namespace Call

def key : Call → String
  | allocate key => key
  | allocateIpv6 key => key
  | allocateInRangeExcluding key .. => key
  | allocateFixedUnclaimed key _ => key
  | allocateFixed key _ => key
  | allocateFixedIpv6 key _ => key
  | allocateForMode key .. => key
  | retainModeLeases key _ => key
  | release key => key

/-- The call is, or makes, a call of `allocate_fixed` for the IPv4 address. -/
def FixesIpv4 : Call → Nat → Prop
  | allocateFixed _ ip, a => a = ip
  | allocateForMode _ mode (some ip) _, a => mode ≠ .ipv6 ∧ a = ip
  | _, _ => False

def FixesIpv6 : Call → Nat → Prop
  | allocateFixedIpv6 _ ip, a => a = ip
  | allocateForMode _ mode _ (some ip), a => mode ≠ .ipv4 ∧ a = ip
  | _, _ => False

/-- What an allocation asks for by name: its fixed address, or else what is reserved for its
key. -/
def Asks (key : String) (reservations : List (String × Nat)) : Option Nat → Nat → Prop
  | some ip, a => a = ip
  | none, a => (key, a) ∈ reservations

/-- The IPv4 addresses that the call may take from another key, by what is reserved. -/
def TakesIpv4 (reservations : List (String × Nat)) : Call → Nat → Prop
  | allocate key, a => Asks key reservations none a
  | allocateFixed key ip, a => Asks key reservations (some ip) a
  | allocateForMode key mode fixed _, a => mode ≠ .ipv6 ∧ Asks key reservations fixed a
  | _, _ => False

def TakesIpv6 (reservations : List (String × Nat)) : Call → Nat → Prop
  | allocateIpv6 key, a => Asks key reservations none a
  | allocateFixedIpv6 key ip, a => Asks key reservations (some ip) a
  | allocateForMode key mode _ fixed, a => mode ≠ .ipv4 ∧ Asks key reservations fixed a
  | _, _ => False

end Call

namespace IpPool

def call (self : IpPool) : Call → IpPool
  | .allocate key => (self.allocate key).1
  | .allocateIpv6 key => (self.allocateIpv6 key).1
  | .allocateInRangeExcluding key lo hi temporaryExcluded =>
    (self.allocateInRangeExcluding key lo hi temporaryExcluded).1
  | .allocateFixedUnclaimed key ip => (self.allocateFixedUnclaimed key ip).1
  | .allocateFixed key ip => (self.allocateFixed key ip).1
  | .allocateFixedIpv6 key address => (self.allocateFixedIpv6 key address).1
  | .allocateForMode key mode fixedIpv4 fixedIpv6 =>
    (self.allocateForMode key mode fixedIpv4 fixedIpv6).1
  | .retainModeLeases key mode => self.retainModeLeases key mode
  | .release key => self.release key

def run (self : IpPool) (calls : List Call) : IpPool := calls.foldl call self

/-- `new_with_tun`, followed by `enable_ipv6` where the profile carries IPv6. -/
def build (text : Text) (config : PoolConfig) (tunAddress : Nat)
    (ipv6 : Option (Ipv6PoolConfig × Nat)) : Except String IpPool :=
  match newWithTun text config tunAddress with
  | .error e => .error e
  | .ok pool =>
    match ipv6 with
    | none => .ok pool
    | some (config6, tunAddress6) => pool.enableIpv6 text config6 tunAddress6

/-! ## One call -/

structure Valid (pool : IpPool) : Prop where
  ipv4 : pool.Ipv4Valid
  ipv6 : ∀ six, pool.ipv6 = some six → six.Valid

/-- A call under `key` that may ask for the addresses in `named4` and `named6`. -/
structure Step (named4 : Nat → Prop) (named6 : Ipv6Pool → Nat → Prop) (key : String)
    (pool pool' : IpPool) : Prop where
  ipv4 : pool'.Ipv4Valid
  change : Change pool.reserved named4 key pool.held pool'.held
  setup : pool'.setup = pool.setup
  ipv6 : Option.Rel (fun six six' => Ipv6Pool.Step (named6 six) key six six') pool.ipv6 pool'.ipv6

variable {pool pool' : IpPool} {key : String} {named4 : Nat → Prop} {named6 : Ipv6Pool → Nat → Prop}

theorem ipv6_kept (h : ∀ six, pool.ipv6 = some six → six.Valid) :
    Option.Rel (fun six six' => Ipv6Pool.Step (named6 six) key six six') pool.ipv6 pool.ipv6 := by
  cases hsix : pool.ipv6 with
  | none => exact .none
  | some six => exact .some ⟨h six hsix, .kept, rfl⟩

theorem Step.refl (h : pool.Valid) : Step named4 named6 key pool pool :=
  ⟨h.ipv4, .kept, rfl, ipv6_kept h.ipv6⟩

theorem Step.valid (h : Step named4 named6 key pool pool') : pool'.Valid := by
  refine ⟨h.ipv4, fun six hsix => ?_⟩
  have hrel := h.ipv6
  rw [hsix] at hrel
  generalize pool.ipv6 = before at hrel
  cases hrel with
  | some hstep => exact hstep.valid

theorem Ipv4Step.step (h : pool.Valid) (hs : Ipv4Step named4 key pool pool') :
    Step named4 named6 key pool pool' := by
  refine ⟨hs.valid, hs.change, hs.setup, ?_⟩
  rw [hs.ipv6]
  exact ipv6_kept h.ipv6

theorem ipv6_step (h : Step named4 named6 key pool pool') {six : Option Ipv6Pool}
    (hsix : Option.Rel (fun six six' => Ipv6Pool.Step (named6 six) key six six') pool.ipv6 six) :
    Step named4 named6 key pool { pool' with ipv6 := six } :=
  ⟨⟨h.ipv4.sound, h.ipv4.cursor⟩, h.change, h.setup, hsix⟩

theorem release_ipv6 (h : ∀ six, pool.ipv6 = some six → six.Valid) :
    Option.Rel (fun six six' => Ipv6Pool.Step (named6 six) key six six') pool.ipv6
      (pool.ipv6.map fun six => six.release key) := by
  cases hsix : pool.ipv6 with
  | none => exact .none
  | some six => exact .some (Ipv6Pool.release_step (h six hsix) _)

theorem retainModeLeases_step (h : pool.Valid) (mode : IpMode) :
    Step named4 named6 key pool (pool.retainModeLeases key mode) := by
  cases mode with
  | ipv4 => exact ipv6_step (.refl h) (release_ipv6 h.ipv6)
  | dual => exact .refl h
  | ipv6 => exact (releaseIpv4_step h.ipv4 named4).step h

theorem release_step (h : pool.Valid) : Step named4 named6 key pool (pool.release key) :=
  ipv6_step ((releaseIpv4_step h.ipv4 named4).step h) (release_ipv6 h.ipv6)

theorem allocateIpv6_ipv6 (h : ∀ six, pool.ipv6 = some six → six.Valid) :
    ∃ six, (pool.allocateIpv6 key).1 = { pool with ipv6 := six } ∧
      Option.Rel (fun six six' => Ipv6Pool.Step (Call.Asks key six.staticReservations none) key
        six six') pool.ipv6 six := by
  unfold allocateIpv6
  split
  · exact ⟨pool.ipv6, rfl, ipv6_kept h⟩
  · next six hsome =>
    exact ⟨_, rfl, hsome ▸ .some (Ipv6Pool.allocate_step (h six hsome))⟩

theorem allocateFixedIpv6_ipv6 (h : ∀ six, pool.ipv6 = some six → six.Valid) {address : Nat} :
    ∃ six, (pool.allocateFixedIpv6 key address).1 = { pool with ipv6 := six } ∧
      Option.Rel (fun six six' => Ipv6Pool.Step (Call.Asks key six.staticReservations
        (some address)) key six six') pool.ipv6 six := by
  unfold allocateFixedIpv6
  split
  · exact ⟨pool.ipv6, rfl, ipv6_kept h⟩
  · next six hsome =>
    exact ⟨_, rfl, hsome ▸ .some (Ipv6Pool.allocateFixed_step (h six hsome))⟩

theorem ipv4ForMode_step (h : pool.Ipv4Valid) {mode : IpMode} (hmode : mode ≠ .ipv6)
    (fixed : Option Nat) :
    Ipv4Step (Call.Asks key pool.staticReservations fixed) key pool
      (pool.ipv4ForMode key mode fixed).1 := by
  unfold ipv4ForMode
  split
  · exact absurd rfl hmode
  · exact allocateFixed_step h
  · exact allocate_step h

theorem ipv6ForMode_ipv6 (h : ∀ six, pool.ipv6 = some six → six.Valid) {mode : IpMode}
    (hmode : mode ≠ .ipv4) (fixed : Option Nat) :
    ∃ six, (pool.ipv6ForMode key mode fixed).1 = { pool with ipv6 := six } ∧
      Option.Rel (fun six six' => Ipv6Pool.Step (Call.Asks key six.staticReservations fixed) key
        six six') pool.ipv6 six := by
  unfold ipv6ForMode
  split
  · exact absurd rfl hmode
  · exact ⟨pool.ipv6, rfl, ipv6_kept h⟩
  · exact allocateFixedIpv6_ipv6 h
  · exact allocateIpv6_ipv6 h

theorem ipv6_mono {named named' : Ipv6Pool → Nat → Prop} {before after : Option Ipv6Pool}
    (himp : ∀ six a, named six a → named' six a)
    (h : Option.Rel (fun six six' => Ipv6Pool.Step (named six) key six six') before after) :
    Option.Rel (fun six six' => Ipv6Pool.Step (named' six) key six six') before after := by
  cases h with
  | none => exact .none
  | some hstep => exact .some ⟨hstep.valid, hstep.change.mono (himp _), hstep.setup⟩

theorem Step.mono {named4' : Nat → Prop} {named6' : Ipv6Pool → Nat → Prop}
    (h : Step named4 named6 key pool pool') (h4 : ∀ a, named4 a → named4' a)
    (h6 : ∀ six a, named6 six a → named6' six a) : Step named4' named6' key pool pool' :=
  ⟨h.ipv4, h.change.mono h4, h.setup, ipv6_mono h6 h.ipv6⟩

/-- Each family sees one call: that for the family itself, or a release. -/
theorem allocateForModeInner_step (h : pool.Valid) (mode : IpMode) (fixed4 fixed6 : Option Nat) :
    Step (Call.TakesIpv4 pool.staticReservations (.allocateForMode key mode fixed4 fixed6))
      (fun six => Call.TakesIpv6 six.staticReservations
        (.allocateForMode key mode fixed4 fixed6)) key pool
      (((pool.retainModeLeases key mode).ipv4ForMode key mode fixed4).1.ipv6ForMode key mode
        fixed6).1 := by
  cases mode with
  | ipv4 =>
    have hstep := (@ipv4ForMode_step (pool.retainModeLeases key .ipv4) key
      ⟨h.ipv4.sound, h.ipv4.cursor⟩ .ipv4 (by simp) fixed4)
    refine ⟨hstep.valid, hstep.change.mono fun a ha => ⟨by simp, ha⟩, hstep.setup, ?_⟩
    show Option.Rel _ _ ((pool.retainModeLeases key .ipv4).ipv4ForMode key .ipv4 fixed4).1.ipv6
    rw [hstep.ipv6]
    exact release_ipv6 h.ipv6
  | dual =>
    have hstep := @ipv4ForMode_step pool key h.ipv4 .dual (by simp) fixed4
    obtain ⟨six, heq, hsix⟩ := @ipv6ForMode_ipv6 (pool.ipv4ForMode key .dual fixed4).1 key
      (by rw [hstep.ipv6]; exact h.ipv6) .dual (by simp) fixed6
    rw [show pool.retainModeLeases key .dual = pool from rfl, heq]
    rw [hstep.ipv6] at hsix
    exact ipv6_step ((hstep.mono fun a ha => ⟨by simp, ha⟩).step h)
      (ipv6_mono (fun _ a ha => ⟨by simp, ha⟩) hsix)
  | ipv6 =>
    obtain ⟨six, heq, hsix⟩ := @ipv6ForMode_ipv6 (pool.releaseIpv4 key) key h.ipv6 .ipv6 (by simp)
      fixed6
    show Step _ _ key pool ((pool.releaseIpv4 key).ipv6ForMode key .ipv6 fixed6).1
    rw [heq]
    exact ipv6_step ((releaseIpv4_step h.ipv4 _).step h)
      (ipv6_mono (fun _ a ha => ⟨by simp, ha⟩) hsix)

theorem allocateForMode_error {mode : IpMode} {fixed4 fixed6 : Option Nat}
    {error : AddressAllocationError}
    (h : (pool.allocateForMode key mode fixed4 fixed6).2 = .error error) :
    (pool.allocateForMode key mode fixed4 fixed6).1 = pool := by
  unfold allocateForMode at h ⊢
  split at h
  · cases h
  · rfl

theorem allocateForMode_ok {mode : IpMode} {fixed4 fixed6 : Option Nat}
    {addresses : AssignedAddresses}
    (h : (pool.allocateForMode key mode fixed4 fixed6).2 = .ok addresses) :
    (pool.allocateForMode key mode fixed4 fixed6).1 =
      (((pool.retainModeLeases key mode).ipv4ForMode key mode fixed4).1.ipv6ForMode key mode
        fixed6).1 := by
  unfold allocateForMode at h ⊢
  split at h
  · next after addresses' heq =>
    unfold allocateForModeInner at heq
    dsimp only at heq
    split at heq
    · cases heq
    · next mid ipv4 hipv4 =>
      split at heq
      · cases heq
      · next hipv6 =>
        cases heq
        rw [hipv4, hipv6]
  · cases h

theorem allocateForMode_step (h : pool.Valid) (mode : IpMode) (fixed4 fixed6 : Option Nat) :
    Step (Call.TakesIpv4 pool.staticReservations (.allocateForMode key mode fixed4 fixed6))
      (fun six => Call.TakesIpv6 six.staticReservations
        (.allocateForMode key mode fixed4 fixed6)) key pool
      (pool.allocateForMode key mode fixed4 fixed6).1 := by
  cases hresult : (pool.allocateForMode key mode fixed4 fixed6).2 with
  | error e =>
    rw [allocateForMode_error hresult]
    exact .refl h
  | ok addresses =>
    rw [allocateForMode_ok hresult]
    exact allocateForModeInner_step h mode fixed4 fixed6

/-- **One call**, in both families, and what it may take from another key. -/
theorem call_takes (h : pool.Valid) (c : Call) :
    Step (c.TakesIpv4 pool.staticReservations) (fun six => c.TakesIpv6 six.staticReservations)
      c.key pool (pool.call c) := by
  cases c with
  | allocate key => exact (allocate_step h.ipv4).step h
  | allocateIpv6 key =>
    obtain ⟨six, heq, hsix⟩ := @allocateIpv6_ipv6 pool key h.ipv6
    show Step _ _ key pool (pool.allocateIpv6 key).1
    rw [heq]
    exact ipv6_step (.refl h) hsix
  | allocateInRangeExcluding key lo hi temporaryExcluded =>
    exact (allocateInRangeExcluding_step h.ipv4 lo hi temporaryExcluded _).step h
  | allocateFixedUnclaimed key ip => exact (allocateFixedUnclaimed_step h.ipv4 _).step h
  | allocateFixed key ip => exact (allocateFixed_step h.ipv4).step h
  | allocateFixedIpv6 key address =>
    obtain ⟨six, heq, hsix⟩ := @allocateFixedIpv6_ipv6 pool key h.ipv6 address
    show Step _ _ key pool (pool.allocateFixedIpv6 key address).1
    rw [heq]
    exact ipv6_step (.refl h) hsix
  | allocateForMode key mode fixed4 fixed6 => exact allocateForMode_step h mode fixed4 fixed6
  | retainModeLeases key mode => exact retainModeLeases_step h mode
  | release key => exact release_step h

/-- What a call may name in the IPv4 pool: its fixed address, or what is reserved for its key. -/
def NamesIpv4 (call : Call) (pool : IpPool) (a : Nat) : Prop :=
  call.FixesIpv4 a ∨ (call.key, a) ∈ pool.staticReservations

def NamesIpv6 (key : String) (fixed : Nat → Prop) (six : Ipv6Pool) (a : Nat) : Prop :=
  fixed a ∨ (key, a) ∈ six.staticReservations

theorem namesIpv4_of_takes {c : Call} {a : Nat} (h : c.TakesIpv4 pool.staticReservations a) :
    NamesIpv4 c pool a := by
  cases c with
  | allocate key => exact .inr h
  | allocateFixed key ip => exact .inl h
  | allocateForMode key mode fixed _ =>
    cases fixed with
    | none => exact .inr h.2
    | some ip => exact .inl h
  | _ => exact h.elim

theorem namesIpv6_of_takes {c : Call} {six : Ipv6Pool} {a : Nat}
    (h : c.TakesIpv6 six.staticReservations a) : NamesIpv6 c.key c.FixesIpv6 six a := by
  cases c with
  | allocateIpv6 key => exact .inr h
  | allocateFixedIpv6 key ip => exact .inl h
  | allocateForMode key mode _ fixed =>
    cases fixed with
    | none => exact .inr h.2
    | some ip => exact .inl h
  | _ => exact h.elim

theorem call_step (h : pool.Valid) (c : Call) :
    Step (NamesIpv4 c pool) (NamesIpv6 c.key c.FixesIpv6) c.key pool (pool.call c) :=
  (call_takes h c).mono (fun _ => namesIpv4_of_takes) fun _ _ => namesIpv6_of_takes

/-! ## Runs -/

theorem run_snoc (pool : IpPool) (calls : List Call) (c : Call) :
    pool.run (calls ++ [c]) = (pool.run calls).call c := List.foldl_append

theorem ipv6_setup {before after : Option Ipv6Pool}
    (h : Option.Rel (fun six six' => Ipv6Pool.Step (named6 six) key six six') before after) :
    after.map Ipv6Pool.setup = before.map Ipv6Pool.setup := by
  cases h with
  | none => rfl
  | some hstep => exact congrArg some hstep.setup

theorem run_valid (h : pool.Valid) (calls : List Call) :
    (pool.run calls).Valid ∧ (pool.run calls).setup = pool.setup ∧
      (pool.run calls).ipv6.map Ipv6Pool.setup = pool.ipv6.map Ipv6Pool.setup := by
  induction calls using List.reverseRecOn with
  | nil => exact ⟨h, rfl, rfl⟩
  | append_singleton calls c ih =>
    obtain ⟨hvalid, hsetup, hsix⟩ := ih
    have hstep := call_step hvalid c
    rw [run_snoc]
    exact ⟨hstep.valid, hstep.setup.trans hsetup, (ipv6_setup hstep.ipv6).trans hsix⟩

theorem run_ipv6 (h : pool.Valid) {six : Ipv6Pool} (hsix : pool.ipv6 = some six)
    (calls : List Call) :
    ∃ six', (pool.run calls).ipv6 = some six' ∧ six'.Valid ∧ six'.setup = six.setup := by
  obtain ⟨hvalid, -, hsetup⟩ := run_valid h calls
  rw [hsix] at hsetup
  obtain ⟨six', hsix', heq⟩ := Option.map_eq_some_iff.mp hsetup
  exact ⟨six', hsix', hvalid.ipv6 six' hsix', heq⟩

theorem call_ipv6 (h : pool.Valid) {six six' : Ipv6Pool} {c : Call} (hsix : pool.ipv6 = some six)
    (hsix' : (pool.call c).ipv6 = some six') :
    Ipv6Pool.Step (NamesIpv6 c.key c.FixesIpv6 six) c.key six six' := by
  have hrel := (call_step h c).ipv6
  rw [hsix, hsix'] at hrel
  cases hrel with
  | some hstep => exact hstep

theorem build_built {text : Text} {config : PoolConfig} {tunAddress : Nat}
    {ipv6 : Option (Ipv6PoolConfig × Nat)} (h : build text config tunAddress ipv6 = .ok pool) :
    Built text config tunAddress pool ∧
      (∀ six, pool.ipv6 = some six → six.Valid ∧ six.held = fun _ => none) ∧
      ∀ config6 tunAddress6, ipv6 = some (config6, tunAddress6) →
        ∃ six, pool.ipv6 = some six ∧ Ipv6Pool.Built text config6 tunAddress6 six := by
  unfold build at h
  split at h
  · cases h
  · next pool4 hnew =>
    obtain ⟨hbuilt, hnone⟩ := newWithTun_built hnew
    split at h
    · cases h
      exact ⟨hbuilt, by simp [hnone], by simp⟩
    · next config6 tunAddress6 =>
      unfold enableIpv6 at h
      split at h
      · cases h
      · next six hsix =>
        cases h
        have hbuilt6 := Ipv6Pool.new_built hsix
        refine ⟨⟨hbuilt.subnet, hbuilt.tun, hbuilt.exclude, hbuilt.reserved, hbuilt.reservations,
          hbuilt.unused, ⟨hbuilt.valid.sound, hbuilt.valid.cursor⟩⟩, ?_, ?_⟩
        · rintro six' ⟨⟩
          exact ⟨hbuilt6.valid, hbuilt6.unused⟩
        · rintro config' tunAddress' ⟨⟩
          exact ⟨six, rfl, hbuilt6⟩

end IpPool

end Qeli.Pool
