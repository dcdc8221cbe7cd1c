import Mathlib.Data.Finset.Basic
import Qeli.Lib.KeyMap

/-!
# Lease tables

Keys hold addresses, each key at most one and each address at most once. `Leases κ α`
keeps that assignment in four records: the map, the set of held addresses, and a stack
of addresses that were given back with its membership set. An address in `excluded` is
never handed out and one in `reserved` only by name.

`Represents usable fresh held l` says that the records of `l` other than the map belong
to the assignment `held`, and that no open address is lost: it is on the stack or still
`fresh`, that is, ahead of whatever else the owner of the table draws from. `Change`
says what a call under one key can do to an assignment.
-/

namespace Qeli.Lib

variable {κ α : Type*} [DecidableEq κ] [DecidableEq α]

/-! ## Assignments -/

/-- The key `k` holds `a`, and whoever held it before holds nothing. -/
def seized (held : κ → Option α) (k : κ) (a : α) (k' : κ) : Option α :=
  if k' = k then some a else (held k').filter (· ≠ a)

/-- What a call under `k` can do: leave all as it is, let `k`'s address go, grant `k` an
address that no other key holds and that is not reserved, or seize for `k` an address
it may ask for by name. -/
inductive Change (reserved : Finset α) (named : α → Prop) (k : κ) (held : κ → Option α) :
    (κ → Option α) → Prop where
  | kept : Change reserved named k held held
  | lost : Change reserved named k held (Function.update held k none)
  | granted {a : α} : a ∉ reserved → (∀ k' ≠ k, held k' ≠ some a) →
      Change reserved named k held (Function.update held k (some a))
  | seized {a : α} : named a → Change reserved named k held (Lib.seized held k a)

theorem seized_self (held : κ → Option α) (k : κ) (a : α) : seized held k a k = some a :=
  if_pos rfl

theorem seized_ne (held : κ → Option α) {k k' : κ} (a : α) (h : k' ≠ k) :
    seized held k a k' = (held k').filter (· ≠ a) := if_neg h

theorem seized_eq_some {held : κ → Option α} {k k' : κ} {a b : α} :
    seized held k a k' = some b ↔ (k' = k ∧ b = a) ∨ (k' ≠ k ∧ held k' = some b ∧ b ≠ a) := by
  unfold seized
  split
  · next h => simp [h, eq_comm]
  · next h => simp [h, Option.filter_eq_some_iff]

theorem seized_eq_update {held : κ → Option α} {k : κ} {a : α}
    (h : ∀ k' ≠ k, held k' ≠ some a) : seized held k a = Function.update held k (some a) := by
  funext k'
  by_cases hk : k' = k
  · rw [hk, seized_self, Function.update_self]
  · rw [seized_ne held a hk, Function.update_of_ne hk]
    cases hb : held k' with
    | none => rfl
    | some b =>
      have hba : b ≠ a := by
        rintro rfl
        exact h k' hk hb
      simp [hba]

theorem seized_update (held : κ → Option α) (k : κ) (a : α) (b : Option α) :
    seized (Function.update held k b) k a = seized held k a := by
  funext k'
  by_cases hk : k' = k
  · rw [hk, seized_self, seized_self]
  · rw [seized_ne _ a hk, seized_ne _ a hk, Function.update_of_ne hk]

namespace Change

variable {reserved : Finset α} {named : α → Prop} {k k' : κ} {held held' : κ → Option α} {a : α}

theorem other (h : Change reserved named k held held') (hk : k' ≠ k) :
    held' k' = held k' ∨ held' k' = none := by
  cases h with
  | kept => exact .inl rfl
  | lost | granted _ _ => exact .inl (Function.update_of_ne hk _ _)
  | @seized a _ =>
    rw [seized_ne held a hk]
    cases held k' with
    | none => exact .inl rfl
    | some b => by_cases hba : b = a <;> simp [hba]

theorem other_eq (h : Change reserved named k held held') (hnamed : ∀ a, ¬ named a)
    (hk : k' ≠ k) : held' k' = held k' := by
  cases h with
  | kept => rfl
  | lost | granted _ _ => exact Function.update_of_ne hk _ _
  | seized ha => exact absurd ha (hnamed _)

theorem taken (h : Change reserved named k held held') (hk : k' ≠ k)
    (hne : held' k' ≠ held k') :
    ∃ a, named a ∧ held k' = some a ∧ held' k' = none ∧ held' = Lib.seized held k a := by
  cases h with
  | kept => exact absurd rfl hne
  | lost | granted _ _ => exact absurd (Function.update_of_ne hk _ _) hne
  | @seized a ha =>
    rw [seized_ne held a hk] at hne
    cases hb : held k' with
    | none => exact absurd (by rw [hb]; rfl) hne
    | some b =>
      have hba : b = a := by
        by_contra hba
        exact hne (by simp [hb, hba])
      subst hba
      exact ⟨b, ha, rfl, by rw [seized_ne held b hk, hb]; simp, rfl⟩

theorem acquired (h : Change reserved named k held held') (hnew : held' k' = some a)
    (hold : held k' ≠ some a) (ha : a ∈ reserved) : k' = k ∧ named a := by
  by_cases hk : k' = k
  · subst hk
    refine ⟨rfl, ?_⟩
    cases h with
    | kept => exact absurd hnew hold
    | lost => simp at hnew
    | granted hb _ =>
      rw [Function.update_self] at hnew
      cases hnew
      exact absurd ha hb
    | seized hb =>
      rw [seized_self] at hnew
      cases hnew
      exact hb
  · rcases h.other hk with heq | heq
    · exact absurd (heq ▸ hnew) hold
    · rw [heq] at hnew
      cases hnew

theorem mono {named' : α → Prop} (h : Change reserved named k held held')
    (himp : ∀ a, named a → named' a) : Change reserved named' k held held' := by
  cases h with
  | kept => exact .kept
  | lost => exact .lost
  | granted hb hfree => exact .granted hb hfree
  | seized hb => exact .seized (himp _ hb)

theorem of_lost (h : Change reserved named k (Function.update held k none) held') :
    Change reserved named k held held' := by
  cases h with
  | kept => exact .lost
  | lost =>
    rw [Function.update_idem]
    exact .lost
  | granted ha hfree =>
    rw [Function.update_idem]
    exact .granted ha fun k' hk' heq => hfree k' hk' (by rwa [Function.update_of_ne hk'])
  | seized ha =>
    rw [seized_update]
    exact .seized ha

end Change

/-! ## The records -/

/-- The addresses that are withheld, for good or from all but those who name them. -/
structure Rules (α : Type*) where
  excluded : Finset α
  reserved : Finset α

structure Leases (κ α : Type*) extends Rules α where
  allocated : Finset α
  allocations : KeyMap κ α
  /-- The top of the stack comes first. -/
  freed : List α
  freedSet : Finset α

namespace Leases

def held (l : Leases κ α) (k : κ) : Option α := l.allocations.get? k

def Open (l : Leases κ α) (a : α) : Prop :=
  a ∉ l.excluded ∧ a ∉ l.reserved ∧ a ∉ l.allocated

instance (l : Leases κ α) (a : α) : Decidable (l.Open a) :=
  inferInstanceAs (Decidable (a ∉ l.excluded ∧ a ∉ l.reserved ∧ a ∉ l.allocated))

def rememberFreed (l : Leases κ α) (a : α) : Leases κ α :=
  if a ∉ l.reserved ∧ a ∉ l.freedSet then
    { l with freed := a :: l.freed, freedSet := insert a l.freedSet }
  else l

def giveBack (l : Leases κ α) (a : α) : Leases κ α :=
  { l with allocated := l.allocated.erase a }.rememberFreed a

def release (l : Leases κ α) (k : κ) : Leases κ α :=
  match l.held k with
  | some a => { l with allocations := l.allocations.erase k }.giveBack a
  | none => l

def assign (l : Leases κ α) (k : κ) (a : α) : Leases κ α :=
  { l with
    allocated := insert a l.allocated
    allocations := l.allocations.insert k a }

/-- Gives `a` to `k`, whoever holds it; an address that `k` held before goes back. -/
def take (l : Leases κ α) (k : κ) (a : α) : Leases κ α :=
  let steal (l : Leases κ α) : Leases κ α :=
    { l with allocations := l.allocations.retain fun k' b => ¬ (b = a ∧ k' ≠ k) }.assign k a
  match l.held k with
  | some previous => if previous = a then l else steal (l.giveBack previous)
  | none => steal l

/-- Takes addresses off the stack until one can be assigned. -/
def reuseFrom (p : α → Bool) (k : κ) : List α → Leases κ α → Leases κ α × Option α
  | [], l => (l, none)
  | a :: rest, l =>
    let l := { l with freed := rest, freedSet := l.freedSet.erase a }
    if p a ∧ l.Open a then (l.assign k a, some a) else reuseFrom p k rest l

def reuse (p : α → Bool) (k : κ) (l : Leases κ α) : Leases κ α × Option α :=
  l.reuseFrom p k l.freed

/-! ### What each update leaves alone -/

variable (l : Leases κ α) (k : κ) (a : α)

section

omit [DecidableEq κ]

theorem rememberFreed_eq : ∃ freed freedSet,
    l.rememberFreed a = { l with freed := freed, freedSet := freedSet } := by
  unfold rememberFreed
  split
  · exact ⟨_, _, rfl⟩
  · exact ⟨l.freed, l.freedSet, rfl⟩

@[simp] theorem rules_giveBack : (l.giveBack a).toRules = l.toRules := by
  unfold giveBack
  obtain ⟨freed, freedSet, heq⟩ := rememberFreed_eq { l with allocated := l.allocated.erase a } a
  rw [heq]

@[simp] theorem allocations_giveBack : (l.giveBack a).allocations = l.allocations := by
  unfold giveBack
  obtain ⟨freed, freedSet, heq⟩ := rememberFreed_eq { l with allocated := l.allocated.erase a } a
  rw [heq]

@[simp] theorem allocated_giveBack : (l.giveBack a).allocated = l.allocated.erase a := by
  unfold giveBack
  obtain ⟨freed, freedSet, heq⟩ := rememberFreed_eq { l with allocated := l.allocated.erase a } a
  rw [heq]

end

@[simp] theorem rules_release : (l.release k).toRules = l.toRules := by
  unfold release
  split
  · rw [rules_giveBack]
  · rfl

@[simp] theorem rules_take : (l.take k a).toRules = l.toRules := by
  unfold take
  dsimp only
  split
  · split
    · rfl
    · simp [assign]
  · rfl

theorem held_release : (l.release k).held = Function.update l.held k none := by
  funext k'
  unfold release
  split
  · next b hb =>
    simp only [held, allocations_giveBack, KeyMap.get?_erase, Function.update_apply]
  · next hb =>
    by_cases hk : k' = k
    · rw [hk, Function.update_self, hb]
    · rw [Function.update_of_ne hk]

theorem release_of_none {l : Leases κ α} {k : κ} (h : l.held k = none) : l.release k = l := by
  unfold release
  rw [h]

theorem take_of_held {l : Leases κ α} {k : κ} {a : α} (h : l.held k = some a) :
    l.take k a = l := by
  unfold take
  rw [h]
  exact if_pos rfl

theorem held_assign : (l.assign k a).held = Function.update l.held k (some a) := by
  funext k'
  simp only [held, assign, KeyMap.get?_insert, Function.update_apply]

theorem held_steal {m : KeyMap κ α} (k' : κ) :
    ((m.retain fun k' b => ¬ (b = a ∧ k' ≠ k)).insert k a).get? k' = seized m.get? k a k' := by
  rw [KeyMap.get?_insert, KeyMap.get?_retain, seized]
  split
  · rfl
  · next hk =>
    congr 1
    funext b
    simp [hk]

/-! ### The records of an assignment -/

/-- The records of `l` beside the map are those of the assignment `held`: every held
address is `usable` and not excluded, and an address that is usable and open is on the
stack or `fresh`. -/
structure Represents (usable fresh : α → Prop) (held : κ → Option α) (l : Leases κ α) :
    Prop where
  exclusive : ∀ {k k' a}, held k = some a → held k' = some a → k = k'
  allocated : ∀ {a}, a ∈ l.allocated ↔ ∃ k, held k = some a
  heldUsable : ∀ {k a}, held k = some a → usable a ∧ a ∉ l.excluded
  nodup : l.freed.Nodup
  freedSet : ∀ {a}, a ∈ l.freedSet ↔ a ∈ l.freed
  stacked : ∀ {a}, a ∈ l.freed → usable a
  stocked : ∀ {a}, usable a → l.Open a → a ∈ l.freed ∨ fresh a

variable {usable fresh : α → Prop}

def Sound (usable fresh : α → Prop) (l : Leases κ α) : Prop := l.Represents usable fresh l.held

namespace Represents

variable {held : κ → Option α} {l : Leases κ α} {k : κ} {a : α}

omit [DecidableEq κ] [DecidableEq α] in
theorem withAllocations (h : l.Represents usable fresh held) (m : KeyMap κ α) :
    { l with allocations := m }.Represents usable fresh held :=
  ⟨h.exclusive, h.allocated, h.heldUsable, h.nodup, h.freedSet, h.stacked, h.stocked⟩

omit [DecidableEq κ] in
theorem mem_freed_rememberFreed (h : ∀ {a}, a ∈ l.freedSet ↔ a ∈ l.freed) {b : α} :
    b ∈ (l.rememberFreed a).freed ↔ b ∈ l.freed ∨ (b = a ∧ a ∉ l.reserved) := by
  unfold rememberFreed
  split
  · next hnew => simp [hnew.1, or_comm]
  · next hold =>
    rw [Classical.not_and_iff_not_or_not, not_not, not_not, h] at hold
    constructor
    · exact Or.inl
    · rintro (hb | ⟨rfl, hr⟩)
      · exact hb
      · exact hold.resolve_left hr

omit [DecidableEq κ] in
theorem stack_rememberFreed (hnodup : l.freed.Nodup) (h : ∀ {a}, a ∈ l.freedSet ↔ a ∈ l.freed) :
    (l.rememberFreed a).freed.Nodup ∧
      ∀ {b}, b ∈ (l.rememberFreed a).freedSet ↔ b ∈ (l.rememberFreed a).freed := by
  unfold rememberFreed
  split
  · next hnew =>
    refine ⟨List.nodup_cons.mpr ⟨fun hmem => hnew.2 (h.mpr hmem), hnodup⟩, fun {b} => ?_⟩
    rw [Finset.mem_insert, List.mem_cons, h]
  · exact ⟨hnodup, h⟩

theorem giveBack (h : l.Represents usable fresh held) (ha : held k = some a) :
    (l.giveBack a).Represents usable fresh (Function.update held k none) := by
  have hheld : ∀ {k' b}, Function.update held k none k' = some b ↔
      held k' = some b ∧ k' ≠ k := by
    intro k' b
    rw [Function.update_apply]
    split <;> simp [*]
  have hstack := @stack_rememberFreed κ α _ { l with allocated := l.allocated.erase a } a h.nodup
    h.freedSet
  have hmem : ∀ {b}, b ∈ (l.giveBack a).freed ↔ b ∈ l.freed ∨ (b = a ∧ a ∉ l.reserved) :=
    @mem_freed_rememberFreed κ α _ { l with allocated := l.allocated.erase a } a h.freedSet
  have hrules := l.rules_giveBack a
  refine ⟨?_, ?_, ?_, hstack.1, hstack.2, ?_, ?_⟩
  · intro k₁ k₂ b h1 h2
    exact h.exclusive (hheld.mp h1).1 (hheld.mp h2).1
  · intro b
    rw [allocated_giveBack, Finset.mem_erase, h.allocated]
    constructor
    · rintro ⟨hne, k', hk'⟩
      refine ⟨k', hheld.mpr ⟨hk', ?_⟩⟩
      rintro rfl
      exact hne (Option.some.inj (hk'.symm.trans ha))
    · rintro ⟨k', hk'⟩
      obtain ⟨hold, hne⟩ := hheld.mp hk'
      refine ⟨?_, k', hold⟩
      rintro rfl
      exact hne (h.exclusive hold ha)
  · intro k' b hb
    rw [hrules]
    exact h.heldUsable (hheld.mp hb).1
  · intro b hb
    rcases hmem.mp hb with hb | ⟨rfl, _⟩
    · exact h.stacked hb
    · exact (h.heldUsable ha).1
  · intro b hb hopen
    rw [Open, hrules, allocated_giveBack, Finset.mem_erase] at hopen
    obtain ⟨hexcl, hres, hfree⟩ := hopen
    rw [hmem]
    by_cases hba : b = a
    · exact .inl (.inr ⟨hba, hba ▸ hres⟩)
    · exact (h.stocked hb ⟨hexcl, hres, fun hal => hfree ⟨hba, hal⟩⟩).imp_left .inl

theorem seize (h : l.Represents usable fresh held) (hk : held k = none) (ha : usable a)
    (hexcl : a ∉ l.excluded) :
    { l with allocated := insert a l.allocated }.Represents usable fresh (seized held k a) := by
  refine ⟨?_, ?_, ?_, h.nodup, h.freedSet, h.stacked, ?_⟩
  · intro k₁ k₂ b h1 h2
    rcases seized_eq_some.mp h1 with ⟨rfl, rfl⟩ | ⟨_, hb1, hne1⟩ <;>
      rcases seized_eq_some.mp h2 with ⟨rfl, heq⟩ | ⟨_, hb2, hne2⟩
    · rfl
    · exact absurd rfl hne2
    · exact absurd heq hne1
    · exact h.exclusive hb1 hb2
  · intro b
    rw [Finset.mem_insert, h.allocated]
    constructor
    · rintro (rfl | ⟨k', hk'⟩)
      · exact ⟨k, seized_self held k b⟩
      · by_cases hba : b = a
        · exact ⟨k, hba ▸ seized_self held k a⟩
        · refine ⟨k', seized_eq_some.mpr (.inr ⟨?_, hk', hba⟩)⟩
          rintro rfl
          rw [hk] at hk'
          cases hk'
    · rintro ⟨k', hk'⟩
      rcases seized_eq_some.mp hk' with ⟨_, rfl⟩ | ⟨_, hb, _⟩
      · exact .inl rfl
      · exact .inr ⟨k', hb⟩
  · intro k' b hb
    rcases seized_eq_some.mp hb with ⟨_, rfl⟩ | ⟨_, hb, _⟩
    · exact ⟨ha, hexcl⟩
    · exact h.heldUsable hb
  · intro b hb hopen
    exact h.stocked hb ⟨hopen.1, hopen.2.1, fun hal => hopen.2.2 (Finset.mem_insert_of_mem hal)⟩

omit [DecidableEq κ] in
theorem pop {rest : List α} (h : l.Represents usable fresh held) (hfreed : l.freed = a :: rest) :
    { l with freed := rest, freedSet := l.freedSet.erase a }.Represents usable
      (fun b => fresh b ∨ b = a) held := by
  have hnodup : (a :: rest).Nodup := hfreed ▸ h.nodup
  refine ⟨h.exclusive, h.allocated, h.heldUsable, hnodup.of_cons, ?_, ?_, ?_⟩
  · intro b
    rw [Finset.mem_erase, h.freedSet, hfreed, List.mem_cons]
    constructor
    · rintro ⟨hne, rfl | hb⟩
      · exact absurd rfl hne
      · exact hb
    · intro hb
      refine ⟨?_, .inr hb⟩
      rintro rfl
      exact (List.nodup_cons.mp hnodup).1 hb
  · intro b hb
    exact h.stacked (hfreed ▸ List.mem_cons_of_mem a hb)
  · intro b hb hopen
    rcases h.stocked hb hopen with hmem | hfresh
    · rw [hfreed] at hmem
      rcases List.mem_cons.mp hmem with rfl | hmem
      · exact .inr (.inr rfl)
      · exact .inl hmem
    · exact .inr (.inl hfresh)

omit [DecidableEq κ] [DecidableEq α] in
/-- What is drawn may be forgotten once it is not open. -/
theorem settle {fresh' : α → Prop} (h : l.Represents usable fresh held)
    (hdrawn : ∀ b, usable b → l.Open b → fresh b → fresh' b) :
    l.Represents usable fresh' held :=
  ⟨h.exclusive, h.allocated, h.heldUsable, h.nodup, h.freedSet, h.stacked, fun hb hopen =>
    (h.stocked hb hopen).imp_right (hdrawn _ hb hopen)⟩

end Represents

namespace Sound

variable {l : Leases κ α} {k : κ} {a : α}

omit [DecidableEq α] in
theorem empty (rules : Rules α) (hfresh : ∀ a, usable a → fresh a) :
    Sound usable fresh (⟨rules, ∅, ∅, [], ∅⟩ : Leases κ α) := by
  refine ⟨?_, ?_, ?_, List.nodup_nil, ?_, ?_, fun ha _ => .inr (hfresh _ ha)⟩ <;>
    simp [held]

theorem release (h : l.Sound usable fresh) : (l.release k).Sound usable fresh := by
  unfold Sound
  rw [held_release]
  unfold Leases.release
  split
  · next a ha => exact (h.withAllocations _).giveBack ha
  · next hnone => rwa [← hnone, Function.update_eq_self]

theorem assign (h : l.Sound usable fresh) (hk : l.held k = none) (ha : usable a)
    (hopen : l.Open a) : (l.assign k a).Sound usable fresh := by
  have hfree : ∀ k' ≠ k, l.held k' ≠ some a := fun k' _ hk' =>
    hopen.2.2 (h.allocated.mpr ⟨k', hk'⟩)
  unfold Sound
  rw [held_assign, ← seized_eq_update hfree]
  exact (h.seize hk ha hopen.1).withAllocations _

theorem held_take (h : l.Sound usable fresh) : (l.take k a).held = seized l.held k a := by
  funext k'
  unfold take
  dsimp only
  split
  · next previous hprev =>
    split
    · -- The key has the address already, so nobody else has it.
      next heq =>
      subst heq
      rw [seized_eq_update fun k' hk hk' => hk (h.exclusive hk' hprev), ← hprev,
        Function.update_eq_self]
    · exact (held_steal k a k').trans (by rw [allocations_giveBack]; rfl)
  · exact held_steal k a k'

theorem take (h : l.Sound usable fresh) (ha : usable a) (hexcl : a ∉ l.excluded) :
    (l.take k a).Sound usable fresh := by
  unfold Sound
  rw [h.held_take]
  unfold Leases.take
  dsimp only
  split
  · next previous hprev =>
    split
    · next heq =>
      subst heq
      rw [seized_eq_update fun k' hk hk' => hk (h.exclusive hk' hprev), ← hprev,
        Function.update_eq_self]
      exact h
    · -- Whether the old address is dropped from the assignment first makes no difference.
      have hback := h.giveBack hprev
      rw [← seized_update l.held k a none]
      exact (hback.seize (Function.update_self k none l.held) ha
        (by rwa [rules_giveBack])).withAllocations _
  · next hnone => exact (h.seize hnone ha hexcl).withAllocations _

omit [DecidableEq α] in
theorem not_open_iff (h : l.Sound usable fresh) (hk : l.held k = none) :
    ¬ l.Open a ↔ (a ∉ l.excluded → a ∉ l.reserved → ∃ k' ≠ k, l.held k' = some a) := by
  have hheld : a ∈ l.allocated ↔ ∃ k' ≠ k, l.held k' = some a := by
    rw [h.allocated]
    constructor
    · rintro ⟨k', hk'⟩
      refine ⟨k', ?_, hk'⟩
      rintro rfl
      rw [hk] at hk'
      cases hk'
    · rintro ⟨k', _, hk'⟩
      exact ⟨k', hk'⟩
  unfold Open
  rw [← hheld]
  tauto

end Sound

/-! ### Searches -/

/-- What a search for an open address among those `drawn` leaves, started from `l` for a
key that holds nothing. -/
inductive Search (usable drawn fresh : α → Prop) (k : κ) (l : Leases κ α) :
    Leases κ α × Option α → Prop where
  | found {l' : Leases κ α} {a : α} : l'.Sound usable fresh → l'.toRules = l.toRules →
      l'.held = Function.update l.held k (some a) → usable a → drawn a → l.Open a →
      Search usable drawn fresh k l (l', some a)
  | spent {l' : Leases κ α} : l'.Sound usable fresh → l'.toRules = l.toRules →
      l'.allocated = l.allocated → l'.held = l.held → (∀ a, usable a → drawn a → ¬ l.Open a) →
      Search usable drawn fresh k l (l', none)

namespace Search

variable {drawn drawn' fresh' : α → Prop} {k : κ} {l l' : Leases κ α}
  {r : Leases κ α × Option α}

section

omit [DecidableEq α]

theorem sound (h : Search usable drawn fresh k l r) : r.1.Sound usable fresh := by
  cases h <;> assumption

theorem rules (h : Search usable drawn fresh k l r) : r.1.toRules = l.toRules := by
  cases h <;> assumption

theorem eq_none_iff (h : Search usable drawn fresh k l r) :
    r.2 = none ↔ ∀ a, usable a → drawn a → ¬ l.Open a := by
  cases h with
  | found _ _ _ ha hdrawn hopen =>
    exact iff_of_false (by simp) fun hno => hno _ ha hdrawn hopen
  | spent _ _ _ _ hno => exact iff_of_true rfl hno

theorem congr (h : Search usable drawn fresh k l r)
    (hdrawn : ∀ a, usable a → l.Open a → (drawn a ↔ drawn' a)) :
    Search usable drawn' fresh k l r := by
  cases h with
  | found hs hr hh ha hd ho => exact .found hs hr hh ha ((hdrawn _ ha ho).mp hd) ho
  | spent hs hr hal hh hno =>
    exact .spent hs hr hal hh fun a ha hd ho => hno a ha ((hdrawn a ha ho).mpr hd) ho

theorem mono_some {a : α} (h : Search usable drawn fresh k l (l', some a))
    (hdrawn : ∀ a, drawn a → drawn' a) : Search usable drawn' fresh k l (l', some a) := by
  cases h with
  | found hs hr hh ha hd ho => exact .found hs hr hh ha (hdrawn _ hd) ho

theorem held_some {a : α} (h : Search usable drawn fresh k l (l', some a)) :
    l'.held k = some a := by
  cases h with
  | found _ _ hheld _ _ _ => rw [hheld, Function.update_self]

theorem held_of_none (h : Search usable drawn fresh k l (l', none)) : l'.held = l.held := by
  cases h
  assumption

theorem andThen (h : Search usable drawn fresh k l (l', none))
    (h' : Search usable drawn' fresh' k l' r) :
    Search usable (fun a => drawn a ∨ drawn' a) fresh' k l r := by
  cases h with
  | spent _ hrules hallocated hheld hno =>
    have hopen : ∀ {a}, l'.Open a ↔ l.Open a := by
      intro a
      rw [Open, Open, hrules, hallocated]
    cases h' with
    | found hs hr hh ha hdrawn ho =>
      exact .found hs (hr.trans hrules) (hh.trans (by rw [hheld])) ha (.inr hdrawn) (hopen.mp ho)
    | spent hs hr hal hh hno' =>
      refine .spent hs (hr.trans hrules) (hal.trans hallocated) (hh.trans hheld) ?_
      rintro a ha (hd | hd) ho
      · exact hno a ha hd ho
      · exact hno' a ha hd (hopen.mpr ho)

end

theorem change (hl : l.Sound usable fresh') (h : Search usable drawn fresh k l r) :
    Change l.reserved (fun _ => False) k l.held r.1.held := by
  cases h with
  | found _ _ hheld _ _ hopen =>
    rw [hheld]
    exact .granted hopen.2.1 fun k' _ hk' => hopen.2.2 (hl.allocated.mpr ⟨k', hk'⟩)
  | spent _ _ _ hheld _ =>
    rw [hheld]
    exact .kept

end Search

theorem Sound.draw {l : Leases κ α} {k : κ} {a : α} (h : l.Sound usable fun b => fresh b ∨ b = a)
    (hk : l.held k = none) :
    (usable a → l.Open a → (l.assign k a).Sound usable fresh) ∧
      ((usable a → ¬ l.Open a) → l.Sound usable fresh) := by
  constructor
  · intro ha hopen
    refine (h.assign hk ha hopen).settle ?_
    rintro b _ hb (hfresh | rfl)
    · exact hfresh
    · exact absurd (Finset.mem_insert_self b l.allocated) hb.2.2
  · intro hclosed
    refine h.settle ?_
    rintro b hb hopen (hfresh | rfl)
    · exact hfresh
    · exact absurd hopen (hclosed hb)

theorem reuseFrom_search {p : α → Bool} {k : κ} (hp : ∀ a, usable a → p a = true)
    (stack : List α) : ∀ {l : Leases κ α}, l.Sound usable fresh → l.held k = none →
      l.freed = stack → Search usable (· ∈ stack) fresh k l (l.reuseFrom p k stack) := by
  induction stack with
  | nil =>
    intro l h _ _
    exact .spent h rfl rfl rfl fun a _ hmem => absurd hmem List.not_mem_nil
  | cons a rest ih =>
    intro l h hk hfreed
    have ha : usable a := h.stacked (hfreed ▸ List.mem_cons_self)
    have hpop : Sound usable (fun b => fresh b ∨ b = a)
        { l with freed := rest, freedSet := l.freedSet.erase a } := h.pop hfreed
    have hdraw := hpop.draw hk
    unfold reuseFrom
    dsimp only
    split
    · next hopen =>
      exact .found (hdraw.1 ha hopen.2) rfl (held_assign _ k a) ha List.mem_cons_self hopen.2
    · next hclosed =>
      have hnot : ¬ l.Open a := fun hopen => hclosed ⟨hp a ha, hopen⟩
      have hhead : Search usable (· = a) fresh k l
          ({ l with freed := rest, freedSet := l.freedSet.erase a }, none) := by
        refine .spent (hdraw.2 fun _ => hnot) rfl rfl rfl ?_
        rintro b _ rfl
        exact hnot
      simpa only [List.mem_cons] using hhead.andThen (ih (hdraw.2 fun _ => hnot) hk rfl)

theorem reuse_search {p : α → Bool} {k : κ} {l : Leases κ α} (h : l.Sound usable fresh)
    (hk : l.held k = none) (hp : ∀ a, usable a → p a = true) :
    Search usable (· ∈ l.freed) fresh k l (l.reuse p k) :=
  reuseFrom_search hp l.freed h hk rfl

end Leases

end Qeli.Lib
