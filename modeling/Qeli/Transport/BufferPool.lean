import Mathlib.Algebra.GroupWithZero.Nat
import Mathlib.Algebra.Order.BigOperators.Group.List
import Mathlib.Algebra.Order.Group.Nat
import Qeli.Lib.Run

/-!
# The buffer pool

`transport_core/buffer_pool.rs`: a fixed number of reusable buffers, lent out against the permits
of a semaphore. A permit and a buffer change hands in separate atomic steps (`Act`), and between
them the two counts disagree: what is kept is the number of permits that are free or in the hands
of a call, and the number of buffers that are stored, in use, or about to be allocated. Allocations
are numbered in the order in which they are made. Whether the allocator succeeds is up to the step.
-/

namespace Qeli.Transport

open Qeli.Lib

structure Buffer where
  allocation : Nat
  contents : List UInt8
  deriving DecidableEq, Repr

/-- `Vec::clear`. -/
def Buffer.clear (buffer : Buffer) : Buffer := { buffer with contents := [] }

/-- The fields of `PoolInner`, the top of the stored buffers first, and the number of the next
allocation. -/
structure PoolInner where
  available : List Buffer
  permits : Nat
  bufferCount : Nat
  bufferCapacity : Nat
  fresh : Nat
  deriving DecidableEq, Repr

inductive PoolError where
  | invalidInput (message : String)
  | other (message : String)
  deriving DecidableEq, Repr

/-- `usize::MAX >> 3`. -/
def maxPermits : Nat := 2 ^ 61 - 1

/-- `isize::MAX`. -/
def isizeMax : Nat := 2 ^ 63 - 1

/-- The first buffers of a pool; `reserve` is the allocator. -/
def initialBuffers (reserve : Nat → Except String Unit) (bufferCapacity : Nat) :
    Nat → Except PoolError (List Buffer)
  | 0 => .ok []
  | n + 1 => do
    let available ← initialBuffers reserve bufferCapacity n
    match reserve (n + 1) with
    | .error error => .error (.other ("could not reserve " ++ toString bufferCapacity ++
        "-byte pooled buffer: " ++ error))
    | .ok () => .ok (⟨n, []⟩ :: available)

def withInitialBuffers (reserve : Nat → Except String Unit)
    (bufferCount bufferCapacity initial : Nat) : Except PoolError PoolInner :=
  if bufferCount = 0 ∨ maxPermits < bufferCount then
    .error (.invalidInput "buffer pool count must fit the semaphore and be non-zero")
  else if bufferCapacity = 0 ∨ isizeMax < bufferCapacity then
    .error (.invalidInput "pooled buffer capacity must fit an allocation and be non-zero")
  else
    match reserve 0 with
    | .error error => .error (.other ("could not reserve pool slot metadata: " ++ error))
    | .ok () => do
      let available ← initialBuffers reserve bufferCapacity initial
      return ⟨available, bufferCount, bufferCount, bufferCapacity, initial⟩

def new (reserve : Nat → Except String Unit) (bufferCount bufferCapacity : Nat) :
    Except PoolError PoolInner :=
  withInitialBuffers reserve bufferCount bufferCapacity bufferCount

def newLazy (reserve : Nat → Except String Unit) (bufferCount bufferCapacity : Nat) :
    Except PoolError PoolInner :=
  withInitialBuffers reserve bufferCount bufferCapacity 0

/-! ## Calls -/

/-- A call of `acquire` or `try_acquire`, and what becomes of the buffer it returns. -/
inductive Phase where
  /-- in the queue of the semaphore -/
  | waiting
  /-- given a permit that it has not seen yet -/
  | granted
  | trying
  | permitted
  /-- no buffer was stored -/
  | missed
  /-- could not allocate, and still has its permit -/
  | failed
  | taken (buffer : Buffer)
  /-- the permit is forgotten -/
  | forgot (buffer : Buffer)
  | held (buffer : Buffer)
  | dropping (buffer : Buffer)
  /-- the buffer is stored, and its permit not yet added -/
  | pushed
  | ended
  deriving DecidableEq, Repr

inductive Event where
  | inner
  | allocated (allocation : Nat)
  | acquired (buffer : Buffer)
  deriving DecidableEq, Repr

inductive Act (s : PoolInner) : Phase → Event → PoolInner → Phase → Prop
  | grant (hfree : s.permits ≠ 0) :
    Act s .waiting .inner { s with permits := s.permits - 1 } .granted
  | resume : Act s .granted .inner s .permitted
  | cancel : Act s .waiting .inner s .ended
  | cancelGranted : Act s .granted .inner { s with permits := s.permits + 1 } .ended
  | tried (hfree : s.permits ≠ 0) :
    Act s .trying .inner { s with permits := s.permits - 1 } .permitted
  | exhausted (hnone : s.permits = 0) : Act s .trying .inner s .ended
  | pop {buffer : Buffer} {rest : List Buffer} (hstored : s.available = buffer :: rest) :
    Act s .permitted .inner { s with available := rest } (.taken buffer)
  | miss (hnone : s.available = []) : Act s .permitted .inner s .missed
  | allocate : Act s .missed (.allocated s.fresh) { s with fresh := s.fresh + 1 }
      (.taken ⟨s.fresh, []⟩)
  | fail : Act s .missed .inner s .failed
  | giveBack : Act s .failed .inner { s with permits := s.permits + 1 } .ended
  | forget {buffer : Buffer} : Act s (.taken buffer) .inner s (.forgot buffer)
  | build {buffer : Buffer} :
    Act s (.forgot buffer) (.acquired buffer.clear) s (.held buffer.clear)
  | write {buffer : Buffer} {contents : List UInt8} :
    Act s (.held buffer) .inner s (.held { buffer with contents })
  | drop {buffer : Buffer} : Act s (.held buffer) .inner s (.dropping buffer.clear)
  | push {buffer : Buffer} :
    Act s (.dropping buffer) .inner { s with available := buffer :: s.available } .pushed
  | release : Act s .pushed .inner { s with permits := s.permits + 1 } .ended

structure Pool where
  inner : PoolInner
  calls : List Phase
  deriving DecidableEq, Repr

inductive Step : Pool → Event → Pool → Prop
  | acquire {pool : Pool} : Step pool .inner { pool with calls := pool.calls ++ [.waiting] }
  | tryAcquire {pool : Pool} : Step pool .inner { pool with calls := pool.calls ++ [.trying] }
  | act {s s' : PoolInner} {front back : List Phase} {phase phase' : Phase} {event : Event}
    (hact : Act s phase event s' phase') :
    Step ⟨s, front ++ phase :: back⟩ event ⟨s', front ++ phase' :: back⟩

/-! ## Counts -/

def Phase.claims : Phase → Nat
  | .waiting => 0
  | .trying => 0
  | .ended => 0
  | _ => 1

def Phase.allocations : Phase → List Nat
  | .taken buffer => [buffer.allocation]
  | .forgot buffer => [buffer.allocation]
  | .held buffer => [buffer.allocation]
  | .dropping buffer => [buffer.allocation]
  | _ => []

/-- The buffer a call has, or is about to allocate. -/
def Phase.reserves : Phase → Nat
  | .missed => 1
  | phase => phase.allocations.length

def PoolInner.allocations (s : PoolInner) : List Nat := s.available.map (·.allocation)

def Pool.allocations (pool : Pool) : List Nat :=
  pool.inner.allocations ++ pool.calls.flatMap Phase.allocations

def Pool.held (pool : Pool) : List Buffer :=
  pool.calls.flatMap fun phase => if let .held buffer := phase then [buffer] else []

/-- Not between two of its steps. -/
def Phase.Settled : Phase → Prop
  | .waiting => True
  | .trying => True
  | .held _ => True
  | .ended => True
  | _ => False

section Acts

variable {s s' : PoolInner} {phase phase' : Phase} {event : Event}

theorem Act.count (h : Act s phase event s' phase') : s'.bufferCount = s.bufferCount := by
  cases h <;> rfl

theorem Act.permits (h : Act s phase event s' phase') :
    s'.permits + phase'.claims = s.permits + phase.claims := by
  cases h with
  | grant hfree | tried hfree => exact Nat.sub_add_cancel (Nat.pos_of_ne_zero hfree)
  | _ => rfl

theorem Act.reserved (h : Act s phase event s' phase') :
    s'.available.length + phase'.reserves ≤ s.available.length + phase.reserves ∨
      (s' = s ∧ s.available = [] ∧ phase = .permitted ∧ phase' = .missed) := by
  cases h with
  | pop hstored =>
    rw [hstored, List.length_cons]
    exact .inl (Nat.le_refl _)
  | miss hnone => exact .inr ⟨rfl, hnone, rfl, rfl⟩
  | fail => exact .inl (Nat.le_succ _)
  | push | _ => exact .inl (Nat.le_refl _)

theorem Act.moves (h : Act s phase event s' phase') :
    (s'.fresh = s.fresh ∧ (∀ a, event ≠ .allocated a) ∧
        (s'.allocations ++ phase'.allocations).Perm (s.allocations ++ phase.allocations)) ∨
      (s'.fresh = s.fresh + 1 ∧ event = .allocated s.fresh ∧
        (s'.allocations ++ phase'.allocations).Perm
          (s.fresh :: (s.allocations ++ phase.allocations))) := by
  cases h with
  | @pop buffer rest hstored =>
    refine .inl ⟨rfl, by simp, ?_⟩
    rw [PoolInner.allocations, PoolInner.allocations, hstored]
    simp [Phase.allocations]
  | allocate => exact .inr ⟨rfl, rfl, by simp [Phase.allocations, PoolInner.allocations]⟩
  | @push buffer =>
    refine .inl ⟨rfl, by simp, ?_⟩
    simpa [Phase.allocations, PoolInner.allocations] using
      (List.perm_append_singleton buffer.allocation _).symm
  | _ => exact .inl ⟨rfl, by simp, .refl _⟩

end Acts

/-! ## Runs -/

/-- What every reachable pool keeps. -/
structure Balanced (pool : Pool) : Prop where
  permits : pool.inner.permits + (pool.calls.map Phase.claims).sum = pool.inner.bufferCount
  reserved : pool.inner.available.length + (pool.calls.map Phase.reserves).sum ≤
    pool.inner.bufferCount
  numbered : pool.allocations.Perm (List.range pool.inner.fresh)

section Steps

variable {pool pool' : Pool} {event : Event}

theorem Phase.reserves_le (phase : Phase) :
    phase.allocations.length ≤ phase.reserves ∧ phase.reserves ≤ phase.claims := by
  cases phase <;> simp [Phase.allocations, Phase.reserves, Phase.claims]

theorem Balanced.began {phase : Phase} (h : Balanced pool) (hphase : phase.claims = 0) :
    Balanced { pool with calls := pool.calls ++ [phase] } := by
  obtain ⟨hallocations, hreserves⟩ := phase.reserves_le
  have hnone : phase.allocations = [] := List.length_eq_zero_iff.mp (by omega)
  refine ⟨?_, ?_, ?_⟩
  · simpa [hphase] using h.permits
  · simpa [show phase.reserves = 0 by omega] using h.reserved
  · simpa [Pool.allocations, hnone] using h.numbered

theorem Balanced.step (h : Balanced pool) (hstep : Step pool event pool') :
    Balanced pool' ∧ pool'.inner.bufferCount = pool.inner.bufferCount := by
  cases hstep with
  | acquire | tryAcquire => exact ⟨h.began rfl, rfl⟩
  | @act s s' front back phase phase' event hact =>
    obtain ⟨hpermits, hreserved, hnumbered⟩ := h
    simp only [List.map_append, List.map_cons, List.sum_append, List.sum_cons] at hpermits hreserved
    have hclaims := hact.permits
    refine ⟨⟨?_, ?_, ?_⟩, hact.count⟩
    · simp only [List.map_append, List.map_cons, List.sum_append, List.sum_cons, hact.count]
      omega
    · simp only [List.map_append, List.map_cons, List.sum_append, List.sum_cons, hact.count]
      obtain hless | ⟨rfl, hnone, rfl, rfl⟩ := hact.reserved
      · omega
      · -- every other call has a permit for what it reserves
        have hle : ∀ calls : List Phase,
            (calls.map Phase.reserves).sum ≤ (calls.map Phase.claims).sum := fun calls =>
          List.sum_le_sum fun phase _ => phase.reserves_le.2
        have hfront := hle front
        have hback := hle back
        simp only [hnone, List.length_nil, Phase.reserves, Phase.claims] at hpermits ⊢
        omega
    · have hgather : ∀ stored own : List Nat,
          (stored ++ (front.flatMap Phase.allocations ++ (own ++ back.flatMap Phase.allocations))).Perm
            (stored ++ own ++ (front.flatMap Phase.allocations ++ back.flatMap Phase.allocations)) :=
        fun stored own => by
          rw [List.append_assoc]
          exact (List.perm_append_comm_assoc ..).append_left stored
      simp only [Pool.allocations, List.flatMap_append, List.flatMap_cons] at hnumbered ⊢
      have hbefore := (hgather _ _).symm.trans hnumbered
      refine (hgather _ _).trans ?_
      obtain ⟨hfresh, -, hmoves⟩ | ⟨hfresh, -, hmoves⟩ := hact.moves
      · rw [hfresh]
        exact (hmoves.append_right _).trans hbefore
      · rw [hfresh, List.range_succ]
        refine (hmoves.append_right _).trans ?_
        exact (hbefore.cons _).trans (List.perm_append_singleton ..).symm

theorem Step.fresh (h : Step pool event pool') :
    pool.inner.fresh ≤ pool'.inner.fresh ∧
      ∀ a, event = .allocated a → pool'.inner.fresh = pool.inner.fresh + 1 := by
  cases h with
  | acquire | tryAcquire => exact ⟨Nat.le_refl _, fun a h => by cases h⟩
  | act hact =>
    obtain ⟨hfresh, hother, -⟩ | ⟨hfresh, -⟩ := hact.moves
    · exact ⟨hfresh.ge, fun a h => absurd h (hother a)⟩
    · exact ⟨hfresh ▸ Nat.le_succ _, fun _ _ => hfresh⟩

theorem Step.acquired {buffer : Buffer} (h : Step pool (.acquired buffer) pool') :
    buffer.contents = [] := by
  cases h with
  | act hact =>
    cases hact
    rfl

theorem Balanced.alive_le (h : Balanced pool) :
    pool.allocations.length ≤ pool.inner.bufferCount := by
  have hle : (pool.calls.flatMap Phase.allocations).length ≤ (pool.calls.map Phase.reserves).sum := by
    rw [List.length_flatMap]
    exact List.sum_le_sum fun phase _ => phase.reserves_le.1
  have hreserved := h.reserved
  rw [Pool.allocations, PoolInner.allocations, List.length_append, List.length_map]
  omega

theorem Balanced.conserved (h : Balanced pool) (hsettled : ∀ phase ∈ pool.calls, phase.Settled) :
    pool.inner.permits + pool.held.length = pool.inner.bufferCount := by
  rw [← h.permits, Pool.held, List.length_flatMap]
  congr 2
  refine List.map_congr_left fun phase hphase => ?_
  have hsettled := hsettled phase hphase
  cases phase with
  | held | waiting | trying | ended => rfl
  | _ => exact hsettled.elim

theorem Balanced.one_holder (h : Balanced pool) : (pool.held.map (·.allocation)).Nodup := by
  have hnodup : pool.allocations.Nodup := h.numbered.nodup_iff.mpr List.nodup_range
  refine List.Sublist.nodup ?_ (List.nodup_append.mp hnodup).2.1
  rw [Pool.held, List.map_flatMap]
  generalize pool.calls = calls
  induction calls with
  | nil => exact .slnil
  | cons phase calls ih =>
    rw [List.flatMap_cons, List.flatMap_cons]
    refine List.Sublist.append ?_ ih
    cases phase with
    | held => exact .refl _
    | _ => exact List.nil_sublist _

end Steps

/-! ## The pool -/

/-- What the pool promises after a run. -/
structure PoolLaw (count : Nat) (eager : Prop) (events : List Event) (pool : Pool) : Prop where
  alive_le : pool.allocations.length ≤ count
  one_holder : (pool.held.map (·.allocation)).Nodup
  starts_empty : ∀ buffer, .acquired buffer ∈ events → buffer.contents = []
  never_allocates : eager → ∀ a, .allocated a ∉ events
  conserved : (∀ phase ∈ pool.calls, phase.Settled) →
    pool.inner.permits + pool.held.length = count

section Law

variable {reserve : Nat → Except String Unit} {count capacity initial : Nat} {inner : PoolInner}
  {events : List Event} {pool : Pool}

theorem initialBuffers_allocations {available : List Buffer}
    (h : initialBuffers reserve capacity initial = .ok available) :
    available.map (·.allocation) = (List.range initial).reverse := by
  induction initial generalizing available with
  | zero =>
    cases h
    rfl
  | succ n ih =>
    rw [initialBuffers] at h
    obtain ⟨rest, hrest, h⟩ := of_bind_ok h
    split at h
    · cases h
    · cases h
      rw [List.map_cons, ih hrest, List.range_succ, List.reverse_append]
      rfl

theorem balanced_new (hinitial : initial ≤ count)
    (h : withInitialBuffers reserve count capacity initial = .ok inner) :
    Balanced ⟨inner, []⟩ ∧ inner.bufferCount = count ∧ inner.fresh = initial := by
  rw [withInitialBuffers] at h
  split at h
  · cases h
  split at h
  · cases h
  split at h
  · cases h
  obtain ⟨available, havailable, h⟩ := of_bind_ok h
  cases h
  have hnumbers := initialBuffers_allocations havailable
  refine ⟨⟨rfl, ?_, ?_⟩, rfl, rfl⟩
  · have hlength := congrArg List.length hnumbers
    simp only [List.length_map, List.length_reverse, List.length_range] at hlength
    simpa [hlength] using hinitial
  · simp only [Pool.allocations, PoolInner.allocations, List.flatMap_nil, List.append_nil, hnumbers]
    exact List.reverse_perm _

theorem balanced_of_run (h : Balanced ⟨inner, []⟩) (hrun : Run Step ⟨inner, []⟩ events pool) :
    Balanced pool ∧ pool.inner.bufferCount = inner.bufferCount ∧
      inner.fresh ≤ pool.inner.fresh :=
  hrun.preserves (P := fun pool => Balanced pool ∧ pool.inner.bufferCount = inner.bufferCount ∧
      inner.fresh ≤ pool.inner.fresh) ⟨h, rfl, Nat.le_refl _⟩ fun h hstep =>
    have hnext := h.1.step hstep
    ⟨hnext.1, hnext.2.trans h.2.1, h.2.2.trans hstep.fresh.1⟩

/-- **Buffers and permits are conserved**, in whatever order the steps of any number of calls
come, for a pool that allocates its buffers at once and for one that does not. -/
theorem pool_conservation (hnew : new reserve count capacity = .ok inner ∨
      newLazy reserve count capacity = .ok inner)
    (hrun : Run Step ⟨inner, []⟩ events pool) :
    PoolLaw count (new reserve count capacity = .ok inner) events pool := by
  have hstart : Balanced ⟨inner, []⟩ ∧ inner.bufferCount = count := by
    obtain hnew | hnew := hnew
    · obtain ⟨hbalanced, hcount, -⟩ := balanced_new (Nat.le_refl _) hnew
      exact ⟨hbalanced, hcount⟩
    · obtain ⟨hbalanced, hcount, -⟩ := balanced_new (Nat.zero_le _) hnew
      exact ⟨hbalanced, hcount⟩
  obtain ⟨hbalanced, hcount, -⟩ := balanced_of_run hstart.1 hrun
  rw [hstart.2] at hcount
  refine
    { alive_le := hcount ▸ hbalanced.alive_le
      one_holder := hbalanced.one_holder
      starts_empty := fun buffer hmem => ?_
      never_allocates := fun heager a hmem => ?_
      conserved := fun hsettled => hcount ▸ hbalanced.conserved hsettled }
  · obtain ⟨front, back, rfl⟩ := List.append_of_mem hmem
    obtain ⟨before, after, -, hstep, -⟩ := hrun.step_at
    exact hstep.acquired
  · -- all numbers below the count are taken from the start
    obtain ⟨-, -, hfull⟩ := balanced_new (Nat.le_refl _) heager
    obtain ⟨front, back, rfl⟩ := List.append_of_mem hmem
    obtain ⟨before, after, hfront, hstep, -⟩ := hrun.step_at
    obtain ⟨hbefore, hsame, hfresh⟩ := balanced_of_run hstart.1 hfront
    obtain ⟨hafter, hkept⟩ := hbefore.step hstep
    have halive := hafter.alive_le
    rw [hafter.numbered.length_eq, List.length_range, hstep.fresh.2 a rfl, hkept, hsame,
      hstart.2] at halive
    omega

/-- A pool of one buffer that is not allocated yet. -/
def oneLazy : PoolInner := ⟨[], 1, 1, 8, 0⟩

/-- The first call waits, fails to allocate and gives its permit back; the second one allocates and
holds the buffer, while a third gives up waiting. -/
theorem pool_conservation_one :
    let pool : Pool := ⟨⟨[], 0, 1, 8, 1⟩, [.ended, .held ⟨0, []⟩, .ended]⟩
    PoolLaw 1 (new (fun _ => .ok ()) 1 8 = .ok oneLazy)
      (List.replicate 12 .inner ++ [.allocated 0, .inner, .acquired ⟨0, []⟩]) pool ∧
      pool.inner.permits + pool.held.length = 1 := by
  intro pool
  have first : ∀ {s s' phase phase' event back}, Act s phase event s' phase' →
      Step ⟨s, phase :: back⟩ event ⟨s', phase' :: back⟩ := fun h => @Step.act _ _ [] _ _ _ _ h
  have second : ∀ {s s' a phase phase' event back}, Act s phase event s' phase' →
      Step ⟨s, a :: phase :: back⟩ event ⟨s', a :: phase' :: back⟩ :=
    fun h => @Step.act _ _ [_] _ _ _ _ h
  have third : ∀ {s s' a b phase phase' event}, Act s phase event s' phase' →
      Step ⟨s, [a, b, phase]⟩ event ⟨s', [a, b, phase']⟩ := fun h => @Step.act _ _ [_, _] [] _ _ _ h
  have hlaw : PoolLaw 1 (new (fun _ => .ok ()) 1 8 = .ok oneLazy)
      (List.replicate 12 .inner ++ [.allocated 0, .inner, .acquired ⟨0, []⟩]) pool :=
    pool_conservation (.inr rfl) <|
      .cons .acquire <| .cons (first (.grant (by decide))) <| .cons .acquire <|
      .cons (first .resume) <| .cons (first (.miss rfl)) <| .cons (first .fail) <|
      .cons (first .giveBack) <| .cons .acquire <| .cons (second (.grant (by decide))) <|
      .cons (third .cancel) <| .cons (second .resume) <| .cons (second (.miss rfl)) <|
      .cons (second .allocate) <| .cons (second .forget) <| .cons (second .build) .nil
  exact ⟨hlaw, hlaw.conserved (by simp [pool, Phase.Settled])⟩

end Law

end Qeli.Transport
