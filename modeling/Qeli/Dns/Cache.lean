import Qeli.Dns.Blocklist
import Qeli.Lib.KeyMap

/-!
# The answer cache of the resolver

The OPT record and the transaction signature as `server/dns/resolver.rs` finds them, the cache of
whole messages (`DnsCacheStore`), and the reply to a query for a blocked name. A reply is kept
under the query with a zero transaction id, with the lifetime its caller read from the records.
Times are nanoseconds.
-/

namespace Qeli.Dns

open Qeli.Lib

/-! ## The OPT record -/

structure Edns where
  start : Nat
  stop : Nat
  payload : Nat
  extendedRcode : Nat
  version : Nat
  flags : Nat
  hasOptions : Bool
  deriving DecidableEq, Repr

/-- The options of an OPT record, from `pos` to `stop`. -/
def validOptions (msg : List UInt8) (stop pos : Nat) : Bool :=
  if pos < stop then
    let headerEnd := pos + 4
    if stop < headerEnd then false
    else
      let next := headerEnd + u16At msg (pos + 2)
      if stop < next then false else validOptions msg stop next
  else true
termination_by stop - pos

def ednsVisit (msg : List UInt8) (opt : Option Edns) (rr : DnsRecord) : Option (Option Edns) :=
  if rr.rtype ≠ 41 then some opt
  else if opt.isSome ∨ rr.sec ≠ 2 ∨ msg.getD rr.start 0 ≠ 0 ∨ rr.data ≠ rr.start + 11 then none
  else
    let version := rr.ttl >>> 16 &&& 0xFF
    -- only the options of version 0 have a known format
    if version = 0 ∧ validOptions msg rr.stop rr.data = false then none
    else
      some (some {
        start := rr.start
        stop := rr.stop
        payload := rr.cls
        extendedRcode := rr.ttl >>> 24
        version
        flags := rr.ttl % 2 ^ 16
        hasOptions := rr.data != rr.stop })

/-- The OPT record, if there is one; `none` if the message or its OPT record is malformed. -/
def edns (msg : List UInt8) : Option (Option Edns) := walkRecords msg (ednsVisit msg) none

def dnsExtendedRcode (msg : List UInt8) : Option Nat :=
  (edns msg).map fun opt => opt.elim 0 (·.extendedRcode)

def appendEdns (msg : List UInt8) (payload rcode version flags : Nat) : List UInt8 :=
  let msg := msg ++ ([0, 0, 41] ++ beBytes 2 (max payload 512) ++ beBytes 1 rcode ++
    beBytes 1 version ++ beBytes 2 flags ++ [0, 0])
  patch msg 10 (beBytes 2 (u16At msg 10 + 1))

/-! ## Transaction signatures -/

def skipRecords (msg : List UInt8) : Nat → Nat → Option Nat
  | 0, pos => some pos
  | count + 1, pos => do
    let rr ← walkRecord msg 0 pos
    skipRecords msg count rr.stop

def additionalSectionStart (msg : List UInt8) : Option Nat := do
  let pos ← questionSectionEnd msg
  skipRecords msg (u16At msg 6 + u16At msg 8) pos

/-- `count` additional records: a TSIG, or a SIG that covers no type. -/
def signatureFrom (msg : List UInt8) : Nat → Nat → Option Bool
  | 0, _ => some false
  | count + 1, pos => do
    let rr ← walkRecord msg 2 pos
    if rr.rtype = 250 then some true
    else if rr.rtype = 24 ∧ rr.stop - rr.data < 2 then none
    else if rr.rtype = 24 ∧ u16At msg rr.data = 0 then some true
    else signatureFrom msg count rr.stop

def hasTransactionSignature (msg : List UInt8) : Option Bool := do
  let pos ← additionalSectionStart msg
  signatureFrom msg (u16At msg 10) pos

/-! ## The store -/

structure CachedResponse where
  response : List UInt8
  inserted : Nat
  ttl : Nat
  deriving DecidableEq, Repr

structure DnsCacheStore where
  entries : KeyMap (List UInt8) CachedResponse
  payloadBytes : Nat

def DnsCacheStore.empty : DnsCacheStore := ⟨∅, 0⟩

def maxCachePayloadBytes : Nat := 16 * 1024 * 1024

def dnsMaxCacheEntries : Nat := 10000

namespace DnsCacheStore

def discard (cache : DnsCacheStore) (key : List UInt8) : DnsCacheStore :=
  match cache.entries.get? key with
  | none => cache
  | some entry => ⟨cache.entries.erase key,
      cache.payloadBytes - (key.length + entry.response.length)⟩

/-- The first `retain`: without the entries whose lifetime is over. -/
def purge (cache : DnsCacheStore) (order : List (List UInt8)) (now : Nat) : DnsCacheStore :=
  order.foldl (fun cache key =>
    if (cache.entries.get? key).any fun entry => entry.ttl ≤ now - entry.inserted then
      cache.discard key
    else cache) cache

/-- The second `retain`: without the first entries, until both targets are met. -/
def evict (cache : DnsCacheStore) (order : List (List UInt8)) (targetCount targetBytes : Nat) :
    DnsCacheStore :=
  order.foldl (fun cache key =>
    if targetCount < cache.entries.size ∨ targetBytes < cache.payloadBytes then cache.discard key
    else cache) cache

def makeRoom (cache : DnsCacheStore) (order : List (List UInt8)) (now limit incoming : Nat) :
    DnsCacheStore :=
  let cache := cache.purge order now
  let countPressure := decide (limit ≤ cache.entries.size)
  let bytePressure := decide (maxCachePayloadBytes < cache.payloadBytes + incoming)
  let targetCount :=
    if countPressure then limit - max (limit / 10) 1 else cache.entries.size
  let targetBytes :=
    if bytePressure then min (maxCachePayloadBytes - incoming) (maxCachePayloadBytes * 9 / 10)
    else cache.payloadBytes
  cache.evict order targetCount targetBytes

/-- `insert_cache_entry`; `order` is the order in which the map hands out its keys. -/
def insertCacheEntry (cache : DnsCacheStore) (order : List (List UInt8)) (now : Nat)
    (key response : List UInt8) (ttl cacheLimit : Nat) : DnsCacheStore :=
  let limit := min cacheLimit dnsMaxCacheEntries
  let incoming := key.length + response.length
  if limit = 0 ∨ maxCachePayloadBytes < incoming ∨ ttl = 0 then cache
  else
    let cache := cache.discard key
    let cache :=
      if limit ≤ cache.entries.size ∨ maxCachePayloadBytes < cache.payloadBytes + incoming then
        cache.makeRoom order now limit incoming
      else cache
    ⟨cache.entries.insert key ⟨response, now, ttl⟩, cache.payloadBytes + incoming⟩

end DnsCacheStore

/-! ## The reply to a blocked name -/

def blockedResponse (query : List UInt8) : Option (List UInt8) := do
  let stop ← questionSectionEnd query
  let response := patch (query.take stop) 2
    [0x80 ||| (query.getD 2 0 &&& 0x79), 0x80 ||| (query.getD 3 0 &&& 0x10) ||| 0x03]
  let response := patch response 6 [0, 0, 0, 0, 0, 0]
  let opt ← edns query
  some (opt.elim response fun opt => appendEdns response opt.payload 0 0 (opt.flags &&& 0x8000))

end Qeli.Dns
