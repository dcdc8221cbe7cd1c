import Qeli.Dns.Cache

/-!
# The budget of the answer cache

`payload_bytes` is kept by hand: every removal subtracts what its entry holds, every insertion adds
it. `Exact` says that the count is the sum over the entries, which every pass over the map keeps
after each key it has seen; so no subtraction goes below zero, and `evict`, which stops at its
targets, reaches them.
-/

namespace Qeli.Dns

open Qeli.Lib

def pairBytes (key : List UInt8) (entry : CachedResponse) : Nat :=
  key.length + entry.response.length

namespace DnsCacheStore

variable {cache : DnsCacheStore} {order seen : List (List UInt8)} {key k response : List UInt8}
  {entry : CachedResponse} {now ttl cacheLimit targetCount targetBytes : Nat}

/-- The count of bytes is exact, so it covers every entry that may be removed. -/
structure Exact (cache : DnsCacheStore) : Prop where
  bytes : cache.payloadBytes = cache.entries.weight pairBytes
  covers : ∀ key entry, cache.entries.get? key = some entry →
    pairBytes key entry ≤ cache.payloadBytes

theorem Exact.of_bytes (h : cache.payloadBytes = cache.entries.weight pairBytes) : cache.Exact where
  bytes := h
  covers key entry hget := by
    have := KeyMap.weight_erase_of_some hget pairBytes
    omega

theorem exact_empty : empty.Exact := .of_bytes rfl

theorem Exact.discard (h : cache.Exact) (key : List UInt8) : (cache.discard key).Exact := by
  unfold DnsCacheStore.discard
  split
  · exact h
  · rename_i entry hget
    refine .of_bytes ?_
    have hsum := KeyMap.weight_erase_of_some hget pairBytes
    have hbytes := h.bytes
    simp only [pairBytes] at hsum hbytes ⊢
    omega

theorem get?_discard (cache : DnsCacheStore) (key k : List UInt8) :
    (cache.discard key).entries.get? k = if k = key then none else cache.entries.get? k := by
  unfold discard
  split
  · split <;> simp_all
  · exact KeyMap.get?_erase ..

theorem Exact.foldl {f : DnsCacheStore → List UInt8 → DnsCacheStore}
    (hf : ∀ cache key, cache.Exact → (f cache key).Exact) (h : cache.Exact)
    (order : List (List UInt8)) : (order.foldl f cache).Exact := by
  induction order generalizing cache with
  | nil => exact h
  | cons key order ih => exact ih (hf cache key h)

theorem Exact.purge (h : cache.Exact) (order : List (List UInt8)) (now : Nat) :
    (cache.purge order now).Exact := by
  refine h.foldl (fun cache key h => ?_) order
  split
  · exact h.discard key
  · exact h

theorem Exact.evict (h : cache.Exact) (order : List (List UInt8)) (targetCount targetBytes : Nat) :
    (cache.evict order targetCount targetBytes).Exact := by
  refine h.foldl (fun cache key h => ?_) order
  split
  · exact h.discard key
  · exact h

/-! ## What the two passes leave -/

def Within (cache' cache : DnsCacheStore) : Prop :=
  ∀ k entry, cache'.entries.get? k = some entry → cache.entries.get? k = some entry

theorem discard_within (cache : DnsCacheStore) (key : List UInt8) :
    (cache.discard key).Within cache := by
  intro k entry h
  rw [get?_discard] at h
  split at h
  · cases h
  · exact h

theorem foldl_within {f : DnsCacheStore → List UInt8 → DnsCacheStore}
    (hf : ∀ cache key, (f cache key).Within cache) (order : List (List UInt8))
    (cache : DnsCacheStore) : (order.foldl f cache).Within cache := by
  induction order generalizing cache with
  | nil => exact fun k entry h => h
  | cons key order ih => exact fun k entry h => hf cache key k entry (ih _ k entry h)

theorem evict_within (cache : DnsCacheStore) (order : List (List UInt8)) (count bytes : Nat) :
    (cache.evict order count bytes).Within cache := by
  refine foldl_within (fun cache key => ?_) order cache
  split
  · exact discard_within cache key
  · exact fun k entry h => h

/-- The entry still has some of its lifetime left. -/
def Unexpired (entry : CachedResponse) (now : Nat) : Prop := now - entry.inserted < entry.ttl

/-- The map hands out every key it holds. -/
def Covers (cache : DnsCacheStore) (order : List (List UInt8)) : Prop :=
  ∀ k, cache.entries.get? k ≠ none → k ∈ order

theorem get?_purge (hcovers : cache.Covers order) :
    (cache.purge order now).entries.get? k = some entry ↔
      cache.entries.get? k = some entry ∧ Unexpired entry now := by
  suffices h : ∀ (order : List (List UInt8)) (cache : DnsCacheStore),
      (cache.purge order now).entries.get? k = some entry ↔
        cache.entries.get? k = some entry ∧ (k ∈ order → Unexpired entry now) by
    refine (h order cache).trans (and_congr_right fun hget => ⟨fun hlive => hlive ?_, fun h _ => h⟩)
    exact hcovers k (Option.ne_none_iff_exists'.mpr ⟨entry, hget⟩)
  intro order
  induction order with
  | nil => simp [purge]
  | cons key order ih =>
    intro cache
    refine (ih _).trans ?_
    by_cases hk : k = key
    · subst hk
      cases hget : cache.entries.get? k with
      | none => simp [hget]
      | some e =>
        by_cases hover : e.ttl ≤ now - e.inserted
        · have hdead : ¬ Unexpired e now := Nat.not_lt.mpr hover
          simp only [hget, Option.any_some, hover, decide_true, if_true, get?_discard]
          constructor
          · rintro ⟨h, -⟩
            cases h
          · rintro ⟨h, hlive⟩
            cases h
            exact absurd (hlive List.mem_cons_self) hdead
        · have hlive : Unexpired e now := Nat.not_le.mp hover
          simp only [hget, Option.any_some, hover, decide_false, Bool.false_eq_true, if_false]
          constructor
          · rintro ⟨h, -⟩
            cases h
            exact ⟨rfl, fun _ => hlive⟩
          · rintro ⟨h, -⟩
            cases h
            exact ⟨rfl, fun _ => hlive⟩
    · have hother : (if (cache.entries.get? key).any fun entry => entry.ttl ≤ now - entry.inserted
          then cache.discard key else cache).entries.get? k = cache.entries.get? k := by
        split
        · rw [get?_discard, if_neg hk]
        · rfl
      rw [hother, List.mem_cons, or_iff_right hk]

theorem evict_met (hcount : cache.entries.size ≤ targetCount)
    (hbytes : cache.payloadBytes ≤ targetBytes) (order : List (List UInt8)) :
    cache.evict order targetCount targetBytes = cache := by
  induction order with
  | nil => rfl
  | cons key order ih =>
    have hmet : ¬ (targetCount < cache.entries.size ∨ targetBytes < cache.payloadBytes) := by omega
    rw [evict, List.foldl_cons, if_neg hmet]
    exact ih

/-- **The second pass reaches both targets**: it stops only there, or with nothing left. -/
theorem evict_meets (h : cache.Exact) (hcovers : cache.Covers order)
    (targetCount targetBytes : Nat) :
    (cache.evict order targetCount targetBytes).entries.size ≤ targetCount ∧
      (cache.evict order targetCount targetBytes).payloadBytes ≤ targetBytes := by
  induction order generalizing cache with
  | nil =>
    have hempty : cache.entries = ∅ :=
      KeyMap.eq_empty_of_get? fun k => by_contra fun hk => List.not_mem_nil (hcovers k hk)
    have hbytes : cache.payloadBytes = 0 := h.bytes.trans (hempty ▸ rfl)
    refine ⟨?_, hbytes ▸ Nat.zero_le _⟩
    show cache.entries.size ≤ _
    rw [hempty]
    exact Nat.zero_le _
  | cons key order ih =>
    by_cases hover : targetCount < cache.entries.size ∨ targetBytes < cache.payloadBytes
    · have hstep : cache.evict (key :: order) targetCount targetBytes =
          (cache.discard key).evict order targetCount targetBytes := by
        rw [evict, List.foldl_cons, if_pos hover]
        rfl
      rw [hstep]
      refine ih (h.discard key) fun k hk => ?_
      rw [get?_discard] at hk
      split at hk
      · exact absurd rfl hk
      · exact (List.mem_cons.mp (hcovers k hk)).resolve_left ‹_›
    · rw [evict_met (by omega) (by omega)]
      omega

/-! ## One call -/

/-- The calls that are refused before anything is touched. -/
def Refused (key response : List UInt8) (ttl cacheLimit : Nat) : Prop :=
  min cacheLimit dnsMaxCacheEntries = 0 ∨ maxCachePayloadBytes < key.length + response.length ∨
    ttl = 0

/-- The store without the replaced key and without what has expired. -/
def live (cache : DnsCacheStore) (order : List (List UInt8)) (now : Nat) (key : List UInt8) :
    DnsCacheStore :=
  (cache.discard key).purge order now

/-- One of the limits would be exceeded with the new pair added to what is live. -/
def Pressed (cache : DnsCacheStore) (order : List (List UInt8)) (now : Nat)
    (key response : List UInt8) (cacheLimit : Nat) : Prop :=
  min cacheLimit dnsMaxCacheEntries < (cache.live order now key).entries.size + 1 ∨
    maxCachePayloadBytes <
      (cache.live order now key).payloadBytes + (key.length + response.length)

theorem Covers.discard (h : cache.Covers order) (key : List UInt8) :
    (cache.discard key).Covers order := by
  intro k hk
  rw [get?_discard] at hk
  split at hk
  · exact absurd rfl hk
  · exact h k hk

theorem Covers.purge (h : cache.Covers order) (now : Nat) : (cache.purge order now).Covers order := by
  intro k hk
  obtain ⟨entry, hentry⟩ := Option.ne_none_iff_exists'.mp hk
  exact h k (Option.ne_none_iff_exists'.mpr ⟨entry, ((get?_purge h).mp hentry).1⟩)

/-- The store to which the new pair is added. -/
def room (cache : DnsCacheStore) (order : List (List UInt8)) (now : Nat) (key response : List UInt8)
    (cacheLimit : Nat) : DnsCacheStore :=
  let limit := min cacheLimit dnsMaxCacheEntries
  let incoming := key.length + response.length
  let cache := cache.discard key
  if limit ≤ cache.entries.size ∨ maxCachePayloadBytes < cache.payloadBytes + incoming then
    cache.makeRoom order now limit incoming
  else cache

theorem insertCacheEntry_eq (h : ¬ Refused key response ttl cacheLimit) :
    cache.insertCacheEntry order now key response ttl cacheLimit =
      ⟨(cache.room order now key response cacheLimit).entries.insert key ⟨response, now, ttl⟩,
        (cache.room order now key response cacheLimit).payloadBytes +
          (key.length + response.length)⟩ := if_neg h

theorem makeRoom_targets {limit incoming : Nat} (hlimit : limit ≠ 0)
    (hincoming : incoming ≤ maxCachePayloadBytes) :
    ∃ targetCount targetBytes, targetCount + 1 ≤ limit ∧
      targetBytes + incoming ≤ maxCachePayloadBytes ∧
      cache.makeRoom order now limit incoming =
        (cache.purge order now).evict order targetCount targetBytes ∧
      (¬ (limit < (cache.purge order now).entries.size + 1 ∨
          maxCachePayloadBytes < (cache.purge order now).payloadBytes + incoming) →
        targetCount = (cache.purge order now).entries.size ∧
          targetBytes = (cache.purge order now).payloadBytes) := by
  refine ⟨_, _, ?_, ?_, rfl, fun hfree => ?_⟩
  · split
    · omega
    · rename_i hcount
      rw [decide_eq_true_eq] at hcount
      omega
  · split
    · omega
    · rename_i hbytes
      rw [decide_eq_true_eq] at hbytes
      omega
  · rw [if_neg (by rw [decide_eq_true_eq]; omega), if_neg (by rw [decide_eq_true_eq]; omega)]
    exact ⟨rfl, rfl⟩

/-- **There is room for the new pair**, and what was live has made way only under pressure. -/
theorem room_spec (h : cache.Exact) (hcovers : cache.Covers order)
    (hrefused : ¬ Refused key response ttl cacheLimit) (now : Nat) :
    let room := cache.room order now key response cacheLimit
    room.Exact ∧ room.entries.get? key = none ∧
      room.entries.size + 1 ≤ min cacheLimit dnsMaxCacheEntries ∧
      room.payloadBytes + (key.length + response.length) ≤ maxCachePayloadBytes ∧
      (¬ cache.Pressed order now key response cacheLimit → ∀ k entry, k ≠ key →
        cache.entries.get? k = some entry → Unexpired entry now →
        room.entries.get? k = some entry) := by
  intro room
  have hkey : (cache.discard key).entries.get? key = none := by rw [get?_discard, if_pos rfl]
  have hexact := h.discard key
  have hall := hcovers.discard key
  simp only [Refused, not_or] at hrefused
  by_cases hpressure : min cacheLimit dnsMaxCacheEntries ≤ (cache.discard key).entries.size ∨
      maxCachePayloadBytes < (cache.discard key).payloadBytes + (key.length + response.length)
  · obtain ⟨targetCount, targetBytes, hcount, hbytes, hmake, hfree⟩ :=
      makeRoom_targets hrefused.1 (Nat.not_lt.mp hrefused.2.1)
    have hroom : room = (cache.live order now key).evict order targetCount targetBytes :=
      (if_pos hpressure).trans hmake
    have hlive : (cache.live order now key).Exact := hexact.purge order now
    have hmeets := evict_meets hlive (hall.purge now) targetCount targetBytes
    rw [hroom]
    refine ⟨hlive.evict .., ?_, by omega, by omega, fun hnot k entry hk hget hunexpired => ?_⟩
    · by_contra hsome
      obtain ⟨entry, hentry⟩ := Option.ne_none_iff_exists'.mp hsome
      have := ((get?_purge hall).mp (evict_within _ _ _ _ _ _ hentry)).1
      rw [hkey] at this
      cases this
    · obtain ⟨hsize, hpayload⟩ := hfree hnot
      rw [evict_met (hsize ▸ le_refl _) (hpayload ▸ le_refl _)]
      refine (get?_purge hall).mpr ⟨?_, hunexpired⟩
      rw [get?_discard, if_neg hk, hget]
  · have hroom : room = cache.discard key := if_neg hpressure
    rw [hroom]
    refine ⟨hexact, hkey, by omega, by omega, fun _ k entry hk hget _ => ?_⟩
    rw [get?_discard, if_neg hk, hget]

/-- What one call of `insert_cache_entry` does. -/
structure CallLaw (cache : DnsCacheStore) (order : List (List UInt8)) (now : Nat)
    (key response : List UInt8) (ttl cacheLimit : Nat) : Prop where
  /-- The count is exact after every key that a pass has seen. -/
  purging : ∀ seen, seen <+: order → (cache.live seen now key).Exact
  evicting : ∀ seen targetCount targetBytes, seen <+: order →
    ((cache.live order now key).evict seen targetCount targetBytes).Exact
  refused : Refused key response ttl cacheLimit →
    cache.insertCacheEntry order now key response ttl cacheLimit = cache
  present : ¬ Refused key response ttl cacheLimit →
    (cache.insertCacheEntry order now key response ttl cacheLimit).entries.get? key =
      some ⟨response, now, ttl⟩
  count : ¬ Refused key response ttl cacheLimit →
    (cache.insertCacheEntry order now key response ttl cacheLimit).entries.size ≤
      min cacheLimit dnsMaxCacheEntries
  live_iff : ∀ k entry, (cache.live order now key).entries.get? k = some entry ↔
    cache.entries.get? k = some entry ∧ k ≠ key ∧ Unexpired entry now
  kept : ∀ k entry, k ≠ key → cache.entries.get? k = some entry → Unexpired entry now →
    (cache.insertCacheEntry order now key response ttl cacheLimit).entries.get? k ≠ some entry →
    cache.Pressed order now key response cacheLimit

theorem callLaw (h : cache.Exact) (hcovers : cache.Covers order) :
    CallLaw cache order now key response ttl cacheLimit where
  purging seen _ := (h.discard key).purge seen now
  evicting seen _ _ _ := ((h.discard key).purge order now).evict seen ..
  refused hrefused := if_pos hrefused
  present hrefused := by rw [insertCacheEntry_eq hrefused, KeyMap.get?_insert_self]
  count hrefused := by
    obtain ⟨-, hkey, hsize, -⟩ := room_spec h hcovers hrefused now
    rw [insertCacheEntry_eq hrefused, KeyMap.size_insert_of_none hkey]
    exact hsize
  live_iff k entry := by
    refine (get?_purge (hcovers.discard key)).trans ?_
    rw [get?_discard]
    by_cases hk : k = key
    · simp [hk]
    · simp [hk]
  kept k entry hk hget hunexpired hgone := by
    by_cases hrefused : Refused key response ttl cacheLimit
    · have hsame : cache.insertCacheEntry order now key response ttl cacheLimit = cache :=
        if_pos hrefused
      rw [hsame] at hgone
      exact absurd hget hgone
    · by_contra hpressed
      obtain ⟨-, -, -, -, hkept⟩ := room_spec h hcovers hrefused now
      refine hgone ?_
      rw [insertCacheEntry_eq hrefused, KeyMap.get?_insert_ne _ _ hk]
      exact hkept hpressed k entry hk hget hunexpired

/-! ## Every sequence of calls -/

/-- The stores that calls of `insert_cache_entry` lead to. -/
inductive Reached : DnsCacheStore → Prop
  | empty : Reached empty
  | insert {cache : DnsCacheStore} {order : List (List UInt8)} (h : Reached cache)
      (hcovers : cache.Covers order) (now : Nat) (key response : List UInt8)
      (ttl cacheLimit : Nat) :
      Reached (cache.insertCacheEntry order now key response ttl cacheLimit)

theorem Reached.budget (h : Reached cache) :
    cache.Exact ∧ cache.payloadBytes ≤ maxCachePayloadBytes := by
  induction h with
  | empty => exact ⟨exact_empty, Nat.zero_le _⟩
  | @insert cache order _ hcovers now key response ttl cacheLimit ih =>
    by_cases hrefused : Refused key response ttl cacheLimit
    · rw [show cache.insertCacheEntry order now key response ttl cacheLimit = cache from
        if_pos hrefused]
      exact ih
    · obtain ⟨hexact, hkey, -, hbytes, -⟩ := room_spec ih.1 hcovers hrefused now
      rw [insertCacheEntry_eq hrefused]
      refine ⟨.of_bytes ?_, hbytes⟩
      rw [KeyMap.weight_insert_of_none hkey, ← hexact.bytes]
      rfl

/-- The count and the bound of the store, and what the next call does. -/
structure Budgeted (cache : DnsCacheStore) : Prop where
  exact_bytes : cache.Exact
  bounded : cache.payloadBytes ≤ maxCachePayloadBytes
  calls : ∀ order now key response ttl cacheLimit, cache.Covers order →
    CallLaw cache order now key response ttl cacheLimit

/-- **The cache keeps its budget**, and evicts what is live only under pressure. -/
theorem cache_budget (h : Reached cache) : cache.Budgeted where
  exact_bytes := h.budget.1
  bounded := h.budget.2
  calls _ _ _ _ _ _ hcovers := callLaw h.budget.1 hcovers

theorem cache_budget_full :
    ((empty.insertCacheEntry [] 5 [1] [7, 7] 9 1).insertCacheEntry [[1]] 6 [2] [8] 9 1).Budgeted ∧
      ((empty.insertCacheEntry [] 5 [1] [7, 7] 9 1).insertCacheEntry [[1]] 6 [2] [8] 9 1).entries.get?
        [1] = none := by
  have hcovers : (empty.insertCacheEntry [] 5 [1] [7, 7] 9 1).Covers [[1]] := by
    intro k hk
    by_contra hne
    rw [List.mem_singleton] at hne
    exact hk (KeyMap.get?_insert_ne _ _ hne)
  have hnone : empty.Covers [] := fun k hk => absurd rfl hk
  exact ⟨cache_budget (.insert (.insert .empty hnone ..) hcovers ..), by decide +kernel⟩

end DnsCacheStore

end Qeli.Dns
