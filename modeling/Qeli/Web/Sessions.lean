import Qeli.Lib.Bytes
import Qeli.Lib.Encoding

/-!
# Panel sessions

`web/auth.rs`: signed tokens that no table remembers, and the session generation that goes into
their key. A process loads the generation from its file when it first signs, with a compare and
swap on `SESSION_GEN`; a revocation replaces the file under its lock and then stores the new
generation. `Act` has a constructor for every access to the shared variable, the file and the
lock, and `Step` interleaves the calls of several threads in any order. Whether the file can be read,
the clock, random draws and the system calls that fail are up to the step. The calls are given
`sign` at their password hash and signing secret.
-/

namespace Qeli.Web

open Qeli.Lib

/-! ## Tokens -/

def sessionTtlSecs : Int := 86400

/-- The lifetime of a token under a configured `session_ttl_secs`. -/
def tokenTtl (configured : Int) : Int :=
  if 0 < configured then min configured (30 * 24 * 3600) else sessionTtlSecs

/-- `now() + ttl`, an `i64`. -/
def expiry (now configured : Int) : Int := (now + tokenTtl configured).bmod (2 ^ 64)

def intText (n : Int) : Str := if n < 0 then '-' :: Str.natText n.natAbs else Str.natText n.natAbs

def makeSessionToken (sign : Nat → Str → Str) (generation : Nat) (now configured : Int) : Str :=
  let payload := intText (expiry now configured)
  payload ++ '.' :: sign generation payload

def verifySessionToken (sign : Nat → Str → Str) (generation : Nat) (now : Int) (token : Str) :
    Bool :=
  match Str.splitOnce '.' token with
  | none => false
  | some (payload, sig) =>
    if sig ≠ sign generation payload then false
    else
      match Str.parseSigned (-2 ^ 63) (2 ^ 63 - 1) payload with
      | some exp => decide (now < exp)
      | none => false

/-! ## Signatures -/

/-- HKDF and HMAC with SHA-256. -/
structure Hashes where
  /-- `Hkdf::new` with a salt and key material, then `expand` of the info to a key. -/
  hkdf : List UInt8 → Vector UInt8 32 → List UInt8 → Vector UInt8 32
  hmac : Vector UInt8 32 → List UInt8 → Vector UInt8 32

def sessionInfo (generation : Nat) : Str :=
  "qeli-web-session-v1:".toList ++ Str.natText generation

def sessionKey (hashes : Hashes) (passwordHash : Str) (secret : Vector UInt8 32) (generation : Nat) :
    Vector UInt8 32 :=
  hashes.hkdf (Str.asBytes passwordHash) secret (Str.asBytes (sessionInfo generation))

def sign (hashes : Hashes) (passwordHash : Str) (secret : Vector UInt8 32) (generation : Nat)
    (payload : Str) : Str :=
  Str.hexText (hashes.hmac (sessionKey hashes passwordHash secret generation)
    (Str.asBytes payload)).toList

/-! ## Generations -/

inductive GenerationError where
  | unreadable
  | unparsable
  | reserved
  deriving DecidableEq, Repr

def readSessionGeneration (readable : Bool) (file : Option Str) :
    Except GenerationError (Option Nat) :=
  if !readable then .error .unreadable
  else
    match file with
    | none => .ok none
    | some contents =>
      match Str.parseUnsigned u64Max (Str.trim contents) with
      | none => .error .unparsable
      | some generation => if generation = u64Max then .error .reserved else .ok (some generation)

def nextGeneration (persisted cached : Nat) : Option Nat :=
  let current := if cached = u64Max then persisted else max persisted cached
  if current + 1 < u64Max then some (current + 1) else none

/-! ## Calls -/

inductive Call where
  | mint (now configured : Int)
  | verify (token : Str)
  | revoke
  deriving DecidableEq, Repr

/-- A call that goes on to sign a payload. -/
def Call.Signs : Call → Prop
  | .mint _ _ => True
  | .verify token => Str.splitOnce '.' token ≠ none
  | .revoke => False

/-- How far a call has come. -/
inductive Phase where
  | idle
  | signing (call : Call)
  | reading (call : Call)
  | swapping (call : Call) (loaded : Nat)
  | signed (call : Call) (generation : Nat)
  | locking
  | locked
  | persisted (generation : Nat)
  | writing (next : Nat)
  | publishing (next : Nat)
  | published (next : Nat)
  | ended
  deriving DecidableEq, Repr

def Call.begin : Call → Phase
  | .revoke => .locking
  | call => .signing call

/-- The state directory and the process's own variable. -/
structure Shared where
  file : Option Str
  sessionGen : Nat
  lock : Option Nat
  deriving DecidableEq, Repr

structure Panel where
  shared : Shared
  phases : Nat → Phase

def Panel.boot (file : Option Str) : Panel where
  shared := ⟨file, u64Max, none⟩
  phases := fun _ => .idle

/-- Calls in progress die with the process. -/
def Panel.restart (panel : Panel) : Panel where
  shared := ⟨panel.shared.file, u64Max, none⟩
  phases := fun id => if panel.phases id = .idle then .idle else .ended

/-- The lock goes with the call that holds it. -/
def Shared.release (s : Shared) (id : Nat) : Shared :=
  { s with lock := if s.lock = some id then none else s.lock }

/-- Where a revocation can return an error. -/
def Shared.Fails (s : Shared) : Phase → Prop
  | .locking => True
  | .locked => ∃ readable error, readSessionGeneration readable s.file = .error error
  | .persisted generation => nextGeneration generation s.sessionGen = none
  | .writing _ => True
  -- the new file is in place, but its directory could not be synced
  | .publishing _ => True
  | .published _ => True
  | _ => False

inductive Event where
  | began (id : Nat) (call : Call)
  | inner (id : Nat)
  | drew (id generation : Nat)
  | wrote (id generation : Nat)
  | stored (id generation : Nat)
  | minted (id : Nat) (token : Str)
  | verified (id : Nat) (now : Int) (answer : Bool)
  | revoked (id : Nat) (result : Option Nat)
  | restarted
  deriving DecidableEq, Repr

/-- What a call does next. -/
inductive Act (sign : Nat → Str → Str) (s : Shared) (id : Nat) :
    Phase → Event → Shared → Phase → Prop
  | began {call : Call} : Act sign s id .idle (.began id call) s call.begin
  | malformed {call : Call} {now : Int} (hsigns : ¬ call.Signs) :
    Act sign s id (.signing call) (.verified id now false) s .ended
  | cached {call : Call} (hsigns : call.Signs) (hgen : s.sessionGen ≠ u64Max) :
    Act sign s id (.signing call) (.inner id) s (.signed call s.sessionGen)
  | missing {call : Call} (hsigns : call.Signs) (hgen : s.sessionGen = u64Max) :
    Act sign s id (.signing call) (.inner id) s (.reading call)
  | read {call : Call} {readable : Bool} {generation : Option Nat}
    (hread : readSessionGeneration readable s.file = .ok generation) :
    Act sign s id (.reading call) (.inner id) s (.swapping call (generation.getD 0))
  | drew {call : Call} {readable : Bool} {error : GenerationError} {generation : Nat}
    (hread : readSessionGeneration readable s.file = .error error)
    (hdrawn : generation < u64Max - 1) :
    Act sign s id (.reading call) (.drew id generation) s (.swapping call generation)
  | swapped {call : Call} {loaded : Nat} (hgen : s.sessionGen = u64Max) :
    Act sign s id (.swapping call loaded) (.inner id) { s with sessionGen := loaded }
      (.signed call loaded)
  | existing {call : Call} {loaded : Nat} (hgen : s.sessionGen ≠ u64Max) :
    Act sign s id (.swapping call loaded) (.inner id) s (.signed call s.sessionGen)
  | minted {generation : Nat} {now configured : Int} :
    Act sign s id (.signed (.mint now configured) generation)
      (.minted id (makeSessionToken sign generation now configured)) s .ended
  | verified {generation : Nat} {token : Str} {now : Int} :
    Act sign s id (.signed (.verify token) generation)
      (.verified id now (verifySessionToken sign generation now token)) s .ended
  | locked (hlock : s.lock = none) :
    Act sign s id .locking (.inner id) { s with lock := some id } .locked
  | persisted {readable : Bool} {generation : Option Nat}
    (hread : readSessionGeneration readable s.file = .ok generation) :
    Act sign s id .locked (.inner id) s (.persisted (generation.getD 0))
  | next {generation next : Nat} (hnext : nextGeneration generation s.sessionGen = some next) :
    Act sign s id (.persisted generation) (.inner id) s (.writing next)
  | wrote {next : Nat} :
    Act sign s id (.writing next) (.wrote id next) { s with file := some (Str.natText next) }
      (.publishing next)
  | stored {next : Nat} :
    Act sign s id (.publishing next) (.stored id next) { s with sessionGen := next }
      (.published next)
  | revoked {next : Nat} :
    Act sign s id (.published next) (.revoked id (some next)) (s.release id) .ended
  | failed {phase : Phase} (hfails : s.Fails phase) :
    Act sign s id phase (.revoked id none) (s.release id) .ended

inductive Step (sign : Nat → Str → Str) : Panel → Event → Panel → Prop
  | act {panel : Panel} {id : Nat} {event : Event} {shared : Shared} {phase : Phase}
    (hact : Act sign panel.shared id (panel.phases id) event shared phase) :
    Step sign panel event ⟨shared, Function.update panel.phases id phase⟩
  | restarted {panel : Panel} : Step sign panel .restarted panel.restart

/-! ## Texts -/

section Texts

variable {sign : Nat → Str → Str}

theorem dot_notMem_intText (n : Int) : '.' ∉ intText n := by
  have hdigits : ∀ k, '.' ∉ Str.natText k := Str.notMem_natText (by decide)
  rw [intText]
  split
  · rw [List.mem_cons, not_or]
    exact ⟨by decide, hdigits _⟩
  · exact hdigits _

theorem parseSigned_intText {low high n : Int} (hlow : low ≤ n) (hhigh : n ≤ high) :
    Str.parseSigned low high (intText n) = some n := by
  rw [intText]
  split
  · obtain ⟨k, rfl⟩ := Int.exists_eq_neg_ofNat (show n ≤ 0 by omega)
    have hminus : Str.stripFront ['-'] ('-' :: Str.natText k) = some (Str.natText k) :=
      Str.stripFront_append ['-'] _
    rw [Int.natAbs_neg, Int.natAbs_natCast, Str.parseSigned, hminus]
    simp [Str.parseDigits_natText, hlow]
  · have hn : ((n.natAbs : Nat) : Int) = n := by omega
    rw [Str.parseSigned_natText (by omega), hn]

theorem splitOnce_makeSessionToken (generation : Nat) (now configured : Int) :
    Str.splitOnce '.' (makeSessionToken sign generation now configured) =
      some (intText (expiry now configured), sign generation (intText (expiry now configured))) :=
  Str.splitOnce_append (dot_notMem_intText _) _

theorem verify_makeSessionToken (generation generation' : Nat) (now now' configured : Int) :
    verifySessionToken sign generation' now' (makeSessionToken sign generation now configured) =
      (decide (sign generation (intText (expiry now configured)) =
          sign generation' (intText (expiry now configured))) &&
        decide (now' < expiry now configured)) := by
  have hexp : Str.parseSigned (-2 ^ 63) (2 ^ 63 - 1) (intText (expiry now configured)) =
      some (expiry now configured) := by
    have hlow : -(2 ^ 63) ≤ expiry now configured := Int.le_bmod (by decide)
    have hhigh : expiry now configured < 2 ^ 63 := Int.bmod_lt (by decide)
    exact parseSigned_intText (by omega) (by omega)
  rw [verifySessionToken, splitOnce_makeSessionToken]
  simp only [hexp]
  split
  · simp_all
  · simp_all

/-- The generation on file, zero where there is no file. -/
def onFile (file : Option Str) : Option Nat :=
  match readSessionGeneration true file with
  | .ok generation => some (generation.getD 0)
  | .error _ => none

theorem onFile_lt {file : Option Str} {generation : Nat} (h : onFile file = some generation) :
    generation < u64Max := by
  unfold onFile readSessionGeneration at h
  cases file with
  | none =>
    cases h
    decide
  | some contents =>
    cases hparsed : Str.parseUnsigned u64Max (Str.trim contents) with
    | none => simp [hparsed] at h
    | some n =>
      have hle : n ≤ u64Max := by simpa using (Option.filter_eq_some_iff.mp hparsed).2
      by_cases hmax : n = u64Max
      · simp [hparsed, hmax] at h
      · simp only [hparsed, hmax, if_false, Bool.not_true, Bool.false_eq_true, Option.getD_some,
          Option.some.injEq] at h
        omega

theorem onFile_of_read {readable : Bool} {file : Option Str} {generation : Option Nat}
    (h : readSessionGeneration readable file = .ok generation) :
    onFile file = some (generation.getD 0) := by
  cases readable with
  | false => cases h
  | true => rw [onFile, h]

theorem trim_natText (n : Nat) : Str.trim (Str.natText n) = Str.natText n := by
  have hblank : ∀ c ∈ Str.natText n, Str.isWhitespace c = false := fun c hc => by
    have hdigit := Str.isDigit_of_mem_natText hc
    have hrange : 48 ≤ c.toNat ∧ c.toNat ≤ 57 := by
      simpa [Char.isDigit, UInt32.le_iff_toNat_le] using hdigit
    simp only [Str.isWhitespace, Bool.or_eq_false_iff, Bool.and_eq_false_iff, decide_eq_false_iff_not,
      beq_eq_false_iff_ne]
    omega
  exact Str.Trimmed.trim ⟨fun c hc => hblank c (List.mem_of_mem_head? hc),
    fun c hc => hblank c (List.mem_of_mem_getLast? hc)⟩

theorem onFile_natText {n : Nat} (h : n < u64Max) : onFile (some (Str.natText n)) = some n := by
  rw [onFile, readSessionGeneration]
  simp only [Bool.not_true, Bool.false_eq_true, if_false, trim_natText,
    Str.parseUnsigned_natText h.le, h.ne, Option.getD_some]

theorem nextGeneration_eq_some {persisted cached next : Nat}
    (h : nextGeneration persisted cached = some next) : persisted < next ∧ next < u64Max := by
  rw [nextGeneration] at h
  obtain ⟨hroom, h⟩ := Option.ite_none_right_eq_some.mp h
  cases h
  refine ⟨Nat.lt_succ_of_le ?_, hroom⟩
  split
  · exact le_rfl
  · exact le_max_left ..

end Texts

end Qeli.Web
