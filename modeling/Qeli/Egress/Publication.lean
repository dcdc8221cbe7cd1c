import Qeli.DataFrag.Envelope
import Qeli.Lib.Generation

/-!
# Publication of the downlink budget

`UdpActiveEgress` (`server/udp_handler.rs`) is where the server's writer takes the path of its
next datagram, together with the shared payload budget. Probe results, send failures and path
changes arrive with what their tasks captured earlier: an epoch, a peer, a budget revision.
Each call holds the write lock throughout, so a run is a list of calls. A call is compared
with the present only through `Accepts`; `apply_step` says what each call can do, and the
law of the budget follows from it.
-/

namespace Qeli.Egress

open Qeli.Lib Qeli.Wire

/-! ## The model -/

def ipv6MinUdpPayload : Nat := 1280 - 40 - 8
def ipv4MinUdpPayload : Nat := 576 - 20 - 8

def conservativeUdpPayloadBudget (outerIpv6 : Bool) : Nat :=
  if outerIpv6 then ipv6MinUdpPayload else ipv4MinUdpPayload

inductive SocketAddr where
  | v4 (ip port : Nat)
  | v6 (ip port flowinfo scopeId : Nat)
  deriving DecidableEq, Repr

def SocketAddr.isIpv6 : SocketAddr → Bool
  | v4 .. => false
  | v6 .. => true

def SocketAddr.isIpv4 : SocketAddr → Bool
  | v4 .. => true
  | v6 .. => false

inductive UdpEgressFraming where
  | unmasked
  | legacyQuic (connectionId : Bytes 4)
  | roamingCid (destinationCid : Bytes 8)
  deriving DecidableEq

def UdpEgressFraming.legacy (quicEnabled : Bool) (connectionId : Bytes 4) : UdpEgressFraming :=
  if quicEnabled then .legacyQuic connectionId else .unmasked

/-- Sockets are told apart by a number. -/
structure UdpEgressSnapshot where
  socket : Nat
  peer : SocketAddr
  framing : UdpEgressFraming
  pathEpoch : UInt64
  budgetRevision : UInt64
  deriving DecidableEq

def UdpEgressSnapshot.safePayloadBudget (self : UdpEgressSnapshot) : Nat :=
  conservativeUdpPayloadBudget self.peer.isIpv6

inductive UdpEgressCommitError where
  | staleEpoch
  | stalePeer
  | invalidEpoch
  | familyMismatch
  deriving DecidableEq, Repr

inductive UdpEgressPublishError (E : Type) where
  | state (error : UdpEgressCommitError)
  | publish (error : E)
  deriving DecidableEq, Repr

structure UdpEgressCommit where
  expectedEpoch : UInt64
  expectedPeer : SocketAddr
  nextEpoch : UInt64
  socket : Nat
  peer : SocketAddr
  destinationCid : Bytes 8
  deriving DecidableEq

structure UdpDrainingIngress where
  snapshot : UdpEgressSnapshot
  expiresAt : Nat
  deriving DecidableEq

/-- The egress, and the payload budget that it shares with the session. -/
structure UdpActiveEgress where
  current : UdpEgressSnapshot
  draining : Option UdpDrainingIngress
  hasDraining : Bool
  payloadBudget : Nat
  deriving DecidableEq

def checkedSucc (n : UInt64) : Option UInt64 :=
  if n.toNat = u64Max then none else some (n + 1)

namespace UdpActiveEgress

variable {E : Type}

def newLegacy (socket : Nat) (peer : SocketAddr) (quicEnabled : Bool) (connectionId : Bytes 4)
    (payloadBudget : Nat) : UdpActiveEgress :=
  ⟨⟨socket, peer, .legacy quicEnabled connectionId, 0, 0⟩, none, false, payloadBudget⟩

def newRoaming (socket : Nat) (peer : SocketAddr) (destinationCid : Bytes 8)
    (payloadBudget : Nat) : UdpActiveEgress :=
  ⟨⟨socket, peer, .roamingCid destinationCid, 0, 0⟩, none, false, payloadBudget⟩

def certifyPayloadBudget (self : UdpActiveEgress) (pathEpoch : UInt64) (peer : SocketAddr)
    (budgetRevision : UInt64) (certified : Nat) : UdpActiveEgress × Option Nat :=
  if self.current.pathEpoch ≠ pathEpoch ∨ self.current.peer ≠ peer ∨
      self.current.budgetRevision ≠ budgetRevision then
    (self, none)
  else
    let previous := self.payloadBudget
    let self := { self with payloadBudget := certified }
    if previous ≠ certified then
      ({ self with current :=
          { self.current with budgetRevision := self.current.budgetRevision + 1 } },
        some previous)
    else (self, some previous)

/-- The new path with the budget of its family; the old one drains. -/
def switchTo (self : UdpActiveEgress) (commit : UdpEgressCommit) (now : Nat) : UdpActiveEgress :=
  let drain : Option UdpDrainingIngress :=
    match self.current.framing with
    | .roamingCid _ => some ⟨self.current, now + DataFrag.reassemblyTimeout⟩
    | _ => none
  { current :=
      { socket := commit.socket
        peer := commit.peer
        framing := .roamingCid commit.destinationCid
        pathEpoch := commit.nextEpoch
        budgetRevision := self.current.budgetRevision + 1 }
    draining := drain
    hasDraining := drain.isSome
    payloadBudget := conservativeUdpPayloadBudget commit.peer.isIpv6 }

/-- The socket's own address, the clock and what becomes of the commit marker are the
environment's. -/
def commitRoamingWith (self : UdpActiveEgress) (commit : UdpEgressCommit)
    (localAddr : Option SocketAddr) (now : Nat) (publish : Nat → SocketAddr → Except E Unit) :
    UdpActiveEgress × Except (UdpEgressPublishError E) Unit :=
  match checkedSucc commit.expectedEpoch with
  | none => (self, .error (.state .invalidEpoch))
  | some next =>
    if commit.nextEpoch ≠ next then (self, .error (.state .invalidEpoch))
    else
      match localAddr with
      | none => (self, .error (.state .familyMismatch))
      | some addr =>
        if addr.isIpv4 ≠ commit.peer.isIpv4 then (self, .error (.state .familyMismatch))
        else if self.current.pathEpoch ≠ commit.expectedEpoch then
          (self, .error (.state .staleEpoch))
        else if self.current.peer ≠ commit.expectedPeer then (self, .error (.state .stalePeer))
        else
          match publish commit.socket commit.peer with
          | .error error => (self, .error (.publish error))
          | .ok () => (self.switchTo commit now, .ok ())

def downgradePayloadBudget (self : UdpActiveEgress) (attemptedEpoch : UInt64) :
    UdpActiveEgress × Nat :=
  if self.current.pathEpoch ≠ attemptedEpoch then (self, self.payloadBudget)
  else
    let safe := self.current.safePayloadBudget
    ({ self with
        payloadBudget := min self.payloadBudget safe
        current := { self.current with budgetRevision := self.current.budgetRevision + 1 } },
      safe)

end UdpActiveEgress

/-! ## Runs -/

inductive Call (E : Type) where
  | certify (pathEpoch : UInt64) (peer : SocketAddr) (budgetRevision : UInt64) (certified : Nat)
  | commit (commit : UdpEgressCommit) (localAddr : Option SocketAddr) (now : Nat)
      (publish : Nat → SocketAddr → Except E Unit)
  | downgrade (attemptedEpoch : UInt64)

variable {E : Type}

def apply (self : UdpActiveEgress) : Call E → UdpActiveEgress
  | .certify pathEpoch peer budgetRevision certified =>
    (self.certifyPayloadBudget pathEpoch peer budgetRevision certified).1
  | .commit commit localAddr now publish =>
    (self.commitRoamingWith commit localAddr now publish).1
  | .downgrade attemptedEpoch => (self.downgradePayloadBudget attemptedEpoch).1

/-- The call names what is current: for a certification the epoch, the peer and the revision,
for a downgrade the epoch; a commit is accepted when it succeeds. -/
def Accepts (self : UdpActiveEgress) : Call E → Prop
  | .certify pathEpoch peer budgetRevision _ =>
    self.current.pathEpoch = pathEpoch ∧ self.current.peer = peer ∧
      self.current.budgetRevision = budgetRevision
  | .commit commit localAddr now publish =>
    (self.commitRoamingWith commit localAddr now publish).2 = .ok ()
  | .downgrade attemptedEpoch => self.current.pathEpoch = attemptedEpoch

/-! ## What a call can do -/

theorem checkedSucc_eq_some {n next : UInt64} (h : checkedSucc n = some next) :
    next.toNat = n.toNat + 1 ∧ next = n + 1 := by
  unfold checkedSucc at h
  split at h
  · cases h
  · next hmax =>
    cases h
    have hlt := n.toNat_lt
    have hsum : (n + 1).toNat = (n.toNat + 1) % 2 ^ 64 := UInt64.toNat_add n 1
    unfold u64Max at hmax
    exact ⟨by omega, rfl⟩

theorem commit_cases (self : UdpActiveEgress) (commit : UdpEgressCommit)
    (localAddr : Option SocketAddr) (now : Nat) (publish : Nat → SocketAddr → Except E Unit) :
    (∃ error, self.commitRoamingWith commit localAddr now publish = (self, .error error)) ∨
      commit.nextEpoch.toNat = self.current.pathEpoch.toNat + 1 ∧
        self.commitRoamingWith commit localAddr now publish =
          (self.switchTo commit now, .ok ()) := by
  unfold UdpActiveEgress.commitRoamingWith
  split
  · exact .inl ⟨_, rfl⟩
  · next next hnext =>
    split
    · exact .inl ⟨_, rfl⟩
    · next hepoch =>
      split
      · exact .inl ⟨_, rfl⟩
      · split
        · exact .inl ⟨_, rfl⟩
        · split
          · exact .inl ⟨_, rfl⟩
          · next hcurrent =>
            split
            · exact .inl ⟨_, rfl⟩
            · split
              · exact .inl ⟨_, rfl⟩
              · refine .inr ⟨?_, rfl⟩
                rw [not_ne_iff.mp hepoch, (checkedSucc_eq_some hnext).1, not_ne_iff.mp hcurrent]

/-- One call: refused, and nothing changes, or accepted. -/
inductive Step (self : UdpActiveEgress) : Call E → UdpActiveEgress → Prop where
  | refused {stale : Call E} : ¬ Accepts self stale → Step self stale self
  | certified {certified revision} :
      (revision = self.current.budgetRevision ∧ self.payloadBudget = certified ∨
        revision = self.current.budgetRevision + 1) →
      Step self (.certify self.current.pathEpoch self.current.peer self.current.budgetRevision
          certified)
        { self with
          payloadBudget := certified
          current := { self.current with budgetRevision := revision } }
  | committed {commit localAddr now publish} :
      (self.commitRoamingWith commit localAddr now publish).2 = .ok () →
      commit.nextEpoch.toNat = self.current.pathEpoch.toNat + 1 →
      Step self (.commit commit localAddr now publish) (self.switchTo commit now)
  | downgraded :
      Step self (.downgrade self.current.pathEpoch)
        { self with
          payloadBudget := min self.payloadBudget self.current.safePayloadBudget
          current := { self.current with budgetRevision := self.current.budgetRevision + 1 } }

theorem apply_step (self : UdpActiveEgress) (call : Call E) : Step self call (apply self call) := by
  cases call with
  | certify pathEpoch peer budgetRevision certified =>
    dsimp only [apply, UdpActiveEgress.certifyPayloadBudget]
    split
    · next hstale =>
      refine .refused ?_
      rintro ⟨rfl, rfl, rfl⟩
      simp at hstale
    · next hcurrent =>
      obtain ⟨hepoch, hpeer, hrevision⟩ : self.current.pathEpoch = pathEpoch ∧
          self.current.peer = peer ∧ self.current.budgetRevision = budgetRevision := by
        simpa [not_or] using hcurrent
      subst hepoch hpeer hrevision
      split
      · exact .certified (.inr rfl)
      · next hsame => exact .certified (.inl ⟨rfl, not_ne_iff.mp hsame⟩)
  | commit commit localAddr now publish =>
    rcases commit_cases self commit localAddr now publish with ⟨error, herror⟩ | ⟨hepoch, hok⟩
    · rw [apply, herror]
      refine .refused fun haccepts => ?_
      rw [Accepts, herror] at haccepts
      cases haccepts
    · rw [apply, hok]
      exact .committed (by rw [hok]) hepoch
  | downgrade attemptedEpoch =>
    dsimp only [apply, UdpActiveEgress.downgradePayloadBudget]
    split
    · next hstale => exact .refused hstale
    · next hcurrent =>
      cases not_ne_iff.mp hcurrent
      exact .downgraded

variable {self : UdpActiveEgress} {call : Call E}

theorem apply_of_not_accepts (h : ¬ Accepts self call) : apply self call = self := by
  have hstep := apply_step self call
  generalize apply self call = self' at hstep
  cases hstep with
  | refused => rfl
  | certified => exact absurd ⟨rfl, rfl, rfl⟩ h
  | committed hok => exact absurd hok h
  | downgraded => exact absurd rfl h

def UdpActiveEgress.revision (self : UdpActiveEgress) : Nat := self.current.budgetRevision.toNat

theorem revision_step (self : UdpActiveEgress) (call : Call E) :
    (apply self call).revision = self.revision ∨
      (apply self call).revision = (self.revision + 1) % 2 ^ 64 := by
  have hstep := apply_step self call
  generalize apply self call = self' at hstep
  have hsucc : (self.current.budgetRevision + 1).toNat = (self.revision + 1) % 2 ^ 64 :=
    UInt64.toNat_add _ 1
  cases hstep with
  | refused => exact .inl rfl
  | certified hrevision =>
    rcases hrevision with ⟨rfl, _⟩ | rfl
    · exact .inl rfl
    · exact .inr hsucc
  | committed | downgraded => exact .inr hsucc

theorem epoch_step (self : UdpActiveEgress) (call : Call E) :
    self.current.pathEpoch.toNat ≤ (apply self call).current.pathEpoch.toNat := by
  have hstep := apply_step self call
  generalize apply self call = self' at hstep
  cases hstep with
  | refused | certified | downgraded => exact Nat.le_refl _
  | committed _ hepoch =>
    show self.current.pathEpoch.toNat ≤ _
    exact Nat.le_of_lt (by rw [UdpActiveEgress.switchTo, hepoch]; omega)

/-- How a call can raise the budget above a bound: it certifies more on what is current, or it
changes to a path whose conservative budget is more. -/
def Raises (bound : Nat) (self : UdpActiveEgress) (call : Call E) : Prop :=
  Accepts self call ∧
    ((∃ pathEpoch peer budgetRevision certified,
        call = .certify pathEpoch peer budgetRevision certified ∧ bound < certified) ∨
      ∃ commit localAddr now publish, call = .commit commit localAddr now publish ∧
        bound < conservativeUdpPayloadBudget commit.peer.isIpv6)

theorem raises_of_step {bound : Nat} (hbelow : self.payloadBudget ≤ bound)
    (habove : bound < (apply self call).payloadBudget) : Raises bound self call := by
  have hstep := apply_step self call
  generalize apply self call = self' at hstep habove
  cases hstep with
  | refused => exact absurd hbelow (Nat.not_le.mpr habove)
  | certified => exact ⟨⟨rfl, rfl, rfl⟩, .inl ⟨_, _, _, _, rfl, habove⟩⟩
  | committed hok => exact ⟨hok, .inr ⟨_, _, _, _, rfl, habove⟩⟩
  | downgraded =>
    have hmin : min self.payloadBudget self.current.safePayloadBudget ≤ bound :=
      (Nat.min_le_left _ _).trans hbelow
    exact absurd hmin (Nat.not_le.mpr habove)

/-! ## Over a run -/

def runCalls (self : UdpActiveEgress) (calls : List (Call E)) : UdpActiveEgress :=
  calls.foldl apply self

theorem runCalls_append (self : UdpActiveEgress) (calls calls' : List (Call E)) :
    runCalls self (calls ++ calls') = runCalls (runCalls self calls) calls' :=
  List.foldl_append

theorem epoch_runCalls (self : UdpActiveEgress) (calls : List (Call E)) :
    self.current.pathEpoch.toNat ≤ (runCalls self calls).current.pathEpoch.toNat := by
  induction calls generalizing self with
  | nil => exact Nat.le_refl _
  | cons call calls ih => exact (epoch_step self call).trans (ih (apply self call))

theorem raises_of_runCalls {bound : Nat} {calls : List (Call E)}
    (hbelow : self.payloadBudget ≤ bound)
    (habove : bound < (runCalls self calls).payloadBudget) :
    ∃ before call after, calls = before ++ call :: after ∧
      Raises bound (runCalls self before) call := by
  induction calls generalizing self with
  | nil => exact absurd hbelow (Nat.not_le.mpr habove)
  | cons call calls ih =>
    rcases Nat.lt_or_ge bound (apply self call).payloadBudget with hnow | hlater
    · exact ⟨[], call, calls, rfl, raises_of_step hbelow hnow⟩
    · obtain ⟨before, call', after, rfl, hraises⟩ := ih hlater habove
      exact ⟨call :: before, call', after, rfl, hraises⟩

theorem epoch_after_commit {before after : List (Call E)} {commit : UdpEgressCommit}
    {localAddr : Option SocketAddr} {now : Nat} {publish : Nat → SocketAddr → Except E Unit}
    (hok : Accepts (runCalls self before) (.commit commit localAddr now publish)) :
    (runCalls self (before ++ .commit commit localAddr now publish :: after)).current.pathEpoch ≠
      self.current.pathEpoch := by
  rcases commit_cases (runCalls self before) commit localAddr now publish with
    ⟨error, herror⟩ | ⟨hepoch, hswitch⟩
  · rw [Accepts, herror] at hok
    cases hok
  · have hbefore := epoch_runCalls self before
    have hafter := epoch_runCalls ((runCalls self before).switchTo commit now) after
    have hnext : ((runCalls self before).switchTo commit now).current.pathEpoch.toNat =
        (runCalls self before).current.pathEpoch.toNat + 1 := hepoch
    have hrun : runCalls self (before ++ .commit commit localAddr now publish :: after) =
        runCalls ((runCalls self before).switchTo commit now) after := by
      rw [runCalls_append, runCalls, List.foldl_cons, apply, hswitch]
      rfl
    intro hsame
    rw [hrun] at hsame
    rw [hsame] at hafter
    omega

def revisions (self : UdpActiveEgress) (calls : List (Call E)) : Nat :=
  changes apply UdpActiveEgress.revision self calls

theorem revision_after_downgrade {before after : List (Call E)} {attemptedEpoch : UInt64}
    (hepoch : Accepts (runCalls self before) (.downgrade attemptedEpoch : Call E))
    (hround : revisions self (before ++ .downgrade attemptedEpoch :: after) < 2 ^ 64) :
    (runCalls self (before ++ .downgrade attemptedEpoch :: after)).current.budgetRevision ≠
      self.current.budgetRevision := by
  have hmoved : (apply (before.foldl apply self) (.downgrade attemptedEpoch : Call E)).revision ≠
      (before.foldl apply self).revision := by
    have hstep := apply_step (before.foldl apply self) (.downgrade attemptedEpoch : Call E)
    generalize apply (before.foldl apply self) (.downgrade attemptedEpoch : Call E) = self' at hstep
    cases hstep with
    | refused hrefused => exact absurd hepoch hrefused
    | downgraded =>
      have hsucc : ((before.foldl apply self).current.budgetRevision + 1).toNat =
          ((before.foldl apply self).revision + 1) % 2 ^ 64 := UInt64.toNat_add _ 1
      show ((before.foldl apply self).current.budgetRevision + 1).toNat ≠ _
      rw [hsucc]
      omega
  intro hsame
  exact foldl_ne_of_changes revision_step self.current.budgetRevision.toNat_lt
    (changes_pos hmoved) hround (congrArg UInt64.toNat hsame)

/-! ## The law of the budget -/

/-- What a task captured here would certify or downgrade later. -/
def UdpActiveEgress.certifyLater (captured : UdpActiveEgress) (certified : Nat) : Call E :=
  .certify captured.current.pathEpoch captured.current.peer captured.current.budgetRevision
    certified

def UdpActiveEgress.downgradeLater (captured : UdpActiveEgress) : Call E :=
  .downgrade captured.current.pathEpoch

/-- From a state on, over all calls. -/
structure PublicationLaw (E : Type) (start : UdpActiveEgress) : Prop where
  committed : ∀ (calls : List (Call E)) (commit : UdpEgressCommit) localAddr now publish,
    Accepts (runCalls start calls) (.commit commit localAddr now publish) →
    (runCalls start (calls ++ [.commit commit localAddr now publish])).payloadBudget =
      conservativeUdpPayloadBudget commit.peer.isIpv6
  /-- Also when the marker could not be sent. -/
  failed : ∀ (calls : List (Call E)) (commit : UdpEgressCommit) localAddr now publish,
    ¬ Accepts (runCalls start calls) (.commit commit localAddr now publish) →
    runCalls start (calls ++ [.commit commit localAddr now publish]) = runCalls start calls
  downgraded : ∀ (calls : List (Call E)) attemptedEpoch,
    Accepts (runCalls start calls) (.downgrade attemptedEpoch : Call E) →
    (runCalls start (calls ++ [.downgrade attemptedEpoch])).payloadBudget ≤
      (runCalls start calls).current.safePayloadBudget
  /-- A bound that the budget keeps is passed by a certification of what is current then, or by
  a change to a path with a larger conservative budget. -/
  raised : ∀ (calls later : List (Call E)) bound,
    (runCalls start calls).payloadBudget ≤ bound →
    bound < (runCalls start (calls ++ later)).payloadBudget →
    ∃ before call after, later = before ++ call :: after ∧
      Raises bound (runCalls start (calls ++ before)) call
  /-- On one path only the certification is left. -/
  certified : ∀ (calls later : List (Call E)) bound,
    (runCalls start calls).payloadBudget ≤ bound →
    bound < (runCalls start (calls ++ later)).payloadBudget →
    (∀ before commit localAddr now publish after,
      later = before ++ .commit commit localAddr now publish :: after →
      ¬ Accepts (runCalls start (calls ++ before)) (.commit commit localAddr now publish)) →
    ∃ before pathEpoch peer budgetRevision certified after,
      later = before ++ .certify pathEpoch peer budgetRevision certified :: after ∧
      (runCalls start (calls ++ before)).current.pathEpoch = pathEpoch ∧
      (runCalls start (calls ++ before)).current.peer = peer ∧
      (runCalls start (calls ++ before)).current.budgetRevision = budgetRevision ∧
      bound < certified
  stale_after_commit : ∀ (calls before after : List (Call E)) (commit : UdpEgressCommit)
      localAddr now publish certified,
    Accepts (runCalls start (calls ++ before)) (.commit commit localAddr now publish) →
    let latest := runCalls start (calls ++ (before ++ .commit commit localAddr now publish :: after))
    apply latest ((runCalls start calls).certifyLater certified : Call E) = latest ∧
      apply latest ((runCalls start calls).downgradeLater : Call E) = latest
  stale_after_downgrade : ∀ (calls before after : List (Call E)) attemptedEpoch certified,
    Accepts (runCalls start (calls ++ before)) (.downgrade attemptedEpoch : Call E) →
    revisions (runCalls start calls) (before ++ .downgrade attemptedEpoch :: after) < 2 ^ 64 →
    let latest := runCalls start (calls ++ (before ++ .downgrade attemptedEpoch :: after))
    apply latest ((runCalls start calls).certifyLater certified : Call E) = latest

/-- **The downlink budget** is raised only by what is current: over every interleaving of
certifications, downgrades and path changes, with whatever they captured. -/
theorem payload_budget_publication (start : UdpActiveEgress) : PublicationLaw E start where
  committed calls commit localAddr now publish hok := by
    rw [runCalls_append]
    have hstep := apply_step (runCalls start calls) (.commit commit localAddr now publish)
    show (apply (runCalls start calls) (.commit commit localAddr now publish)).payloadBudget = _
    generalize apply (runCalls start calls) (.commit commit localAddr now publish) = self' at hstep
    cases hstep with
    | refused hrefused => exact absurd hok hrefused
    | committed => rfl
  failed calls commit localAddr now publish hfailed := by
    rw [runCalls_append]
    exact apply_of_not_accepts hfailed
  downgraded calls attemptedEpoch hepoch := by
    rw [runCalls_append]
    have hstep := apply_step (runCalls start calls) (.downgrade attemptedEpoch : Call E)
    show (apply (runCalls start calls) (.downgrade attemptedEpoch : Call E)).payloadBudget ≤ _
    generalize apply (runCalls start calls) (.downgrade attemptedEpoch : Call E) = self' at hstep
    cases hstep with
    | refused hrefused => exact absurd hepoch hrefused
    | downgraded => exact Nat.min_le_right _ _
  raised calls later bound hbelow habove := by
    rw [runCalls_append] at habove
    obtain ⟨before, call, after, hlater, hraises⟩ := raises_of_runCalls hbelow habove
    exact ⟨before, call, after, hlater, by rw [runCalls_append]; exact hraises⟩
  certified calls later bound hbelow habove hnone := by
    rw [runCalls_append] at habove
    obtain ⟨before, call, after, hlater, haccepts, hraises⟩ := raises_of_runCalls hbelow habove
    rw [← runCalls_append] at haccepts
    rcases hraises with ⟨pathEpoch, peer, budgetRevision, certified, rfl, hmore⟩ |
      ⟨commit, localAddr, now, publish, rfl, _⟩
    · exact ⟨before, pathEpoch, peer, budgetRevision, certified, after, hlater, haccepts.1,
        haccepts.2.1, haccepts.2.2, hmore⟩
    · exact absurd haccepts (hnone before commit localAddr now publish after hlater)
  stale_after_commit calls before after commit localAddr now publish certified hok := by
    rw [runCalls_append] at hok ⊢
    have hepoch : (runCalls (runCalls start calls)
        (before ++ .commit commit localAddr now publish :: after)).current.pathEpoch ≠
        (runCalls start calls).current.pathEpoch := epoch_after_commit hok
    exact ⟨apply_of_not_accepts fun haccepts => hepoch haccepts.1,
      apply_of_not_accepts fun haccepts => hepoch haccepts⟩
  stale_after_downgrade calls before after attemptedEpoch certified hepoch hround := by
    rw [runCalls_append] at hepoch ⊢
    have hrevision := revision_after_downgrade hepoch hround
    exact apply_of_not_accepts fun haccepts => hrevision haccepts.2.2

/-! ## A change of family -/

def v4Peer : SocketAddr := .v4 0x0a000001 4433
def v4Roamed : SocketAddr := .v4 0x0a000002 4433
def v6Peer : SocketAddr := .v6 1 4433 0 0

def sentCommit (expectedEpoch : UInt64) (expectedPeer peer : SocketAddr) : Call Empty :=
  .commit ⟨expectedEpoch, expectedPeer, expectedEpoch + 1, 1, peer, Vector.replicate 8 0⟩
    (some peer) 0 fun _ _ => .ok ()

/-- After a change to an IPv4 path the budget is the small one, and a change to an IPv6 path
takes it above that with no certification. -/
theorem family_change_raises_budget :
    let start := UdpActiveEgress.newRoaming 0 v4Peer (Vector.replicate 8 0) 1400
    let first := apply start (sentCommit 0 v4Peer v4Roamed)
    let second := apply first (sentCommit 1 v4Roamed v6Peer)
    first.current.peer = v4Roamed ∧
      first.payloadBudget = conservativeUdpPayloadBudget v4Roamed.isIpv6 ∧
      second.current.peer = v6Peer ∧
      first.payloadBudget < second.payloadBudget := by
  decide

/-! ## Snapshots -/

def UdpActiveEgress.snapshotIsCurrent (self : UdpActiveEgress) (snapshot : UdpEgressSnapshot) :
    Bool :=
  self.current.pathEpoch == snapshot.pathEpoch &&
    self.current.budgetRevision == snapshot.budgetRevision &&
    self.current.peer == snapshot.peer && self.current.socket == snapshot.socket

theorem apply_of_revision (h : (apply self call).revision = self.revision) :
    apply self call = self := by
  have hsucc : (self.current.budgetRevision + 1).toNat ≠ self.revision := by
    rw [UInt64.toNat_add, UdpActiveEgress.revision, UInt64.toNat_one]
    omega
  have hstep := apply_step self call
  generalize apply self call = self' at hstep h
  cases hstep with
  | refused => rfl
  | certified hrevision =>
    rcases hrevision with ⟨rfl, rfl⟩ | rfl
    · rfl
    · exact absurd h hsucc
  | committed | downgraded => exact absurd h hsucc

/-- **The check of a snapshot is exact**: unless the revisions go round, it is current exactly
if no call since then changed anything. -/
theorem snapshotIsCurrent_iff {calls : List (Call E)} (hround : revisions self calls < 2 ^ 64) :
    (runCalls self calls).snapshotIsCurrent self.current = true ↔
      ∀ before, before <+: calls → runCalls self before = self := by
  constructor
  · intro h
    have hnone : revisions self calls = 0 := by
      by_contra hmoved
      refine foldl_ne_of_changes revision_step self.current.budgetRevision.toNat_lt
        (Nat.pos_of_ne_zero hmoved) hround ?_
      simp_all [UdpActiveEgress.snapshotIsCurrent, UdpActiveEgress.revision, runCalls]
    clear h hround
    intro before hbefore
    induction before generalizing calls with
    | nil => rfl
    | cons call before ih =>
      obtain ⟨rest, rfl⟩ := hbefore
      rw [List.cons_append, revisions, changes] at hnone
      have hkept : apply self call = self := apply_of_revision (by
        by_contra hmoved
        simp [hmoved] at hnone)
      rw [hkept, if_pos rfl, Nat.zero_add] at hnone
      show runCalls (apply self call) before = self
      rw [hkept]
      exact ih hnone ⟨rest, rfl⟩
  · intro h
    rw [h calls (List.prefix_refl _)]
    simp [UdpActiveEgress.snapshotIsCurrent]

/-- A budget that was raised and set back is not the one of the snapshot. -/
theorem snapshotIsCurrent_iff_stale :
    let start := UdpActiveEgress.newLegacy 0 v4Peer true (Vector.replicate 4 0) 1400
    let calls : List (Call Empty) := [.certify 0 v4Peer 0 1500, .certify 0 v4Peer 1 1400]
    (runCalls start calls).payloadBudget = start.payloadBudget ∧
      (runCalls start calls).snapshotIsCurrent start.current = false := by
  intro start calls
  have hraised : runCalls start (calls.take 1) ≠ start := by decide +kernel
  have hstale := (snapshotIsCurrent_iff (by decide +kernel : revisions start calls < 2 ^ 64)).not.mpr
    fun h => hraised (h _ (List.take_prefix 1 calls))
  exact ⟨by decide +kernel, Bool.eq_false_iff.mpr hstale⟩

end Qeli.Egress
