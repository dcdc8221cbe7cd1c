import Qeli.Lib.Bytes

/-!
# Inner IP packets

The bounded parser of `protocol/ip.rs` for untrusted IPv4 and IPv6 datagrams, and the
flow key of `protocol/mod.rs` that pins a flow to one bonded stream.
-/

namespace Qeli.Ip

open Qeli.Lib

/-- A byte that a length check has shown to be there. -/
def byteAt (packet : List UInt8) (i : Nat) : UInt8 := packet[i]?.getD 0

def u16At (packet : List UInt8) (i : Nat) : Nat := ofBE [byteAt packet i, byteAt packet (i + 1)]

/-- `packet.get(start..start + len)`. -/
def slice? (packet : List UInt8) (start len : Nat) : Option (List UInt8) :=
  if start + len ≤ packet.length then some ((packet.drop start).take len) else none

def ipv4MinHeader : Nat := 20

def ipv6Header : Nat := 40

def maxExtensionHeaders : Nat := 8

def maxExtensionBytes : Nat := 256

inductive IpVersion where
  | v4
  | v6
  deriving DecidableEq, Repr

inductive IpAddr where
  | v4 (octets : List UInt8)
  | v6 (octets : List UInt8)
  deriving DecidableEq, Repr

structure FragmentInfo where
  id : Nat
  offset : Nat
  more : Bool
  protocol : UInt8
  deriving DecidableEq, Repr

def FragmentInfo.isFragmented (self : FragmentInfo) : Bool := self.offset != 0 || self.more

structure IpPacketMeta where
  version : IpVersion
  source : IpAddr
  destination : IpAddr
  protocol : UInt8
  l4Offset : Option Nat
  fragment : Option FragmentInfo
  packetLen : Nat
  deriving DecidableEq, Repr

def IpPacketMeta.ports (self : IpPacketMeta) (packet : List UInt8) : Option (Nat × Nat) :=
  if self.protocol ≠ 6 ∧ self.protocol ≠ 17 then none
  else do
    let offset ← self.l4Offset
    let bytes ← slice? packet offset 4
    return (u16At bytes 0, u16At bytes 2)

inductive IpPacketError where
  | empty
  | unsupportedVersion (version : UInt8)
  | truncatedHeader
  | invalidIpv4HeaderLength
  | invalidIpv4Fragment
  | lengthMismatch
  | ipv6Jumbogram
  | truncatedExtension
  | extensionLimit
  | duplicateFragmentHeader
  | invalidIpv6Fragment
  deriving DecidableEq, Repr

/-! ## IPv4 -/

def headerLen (packet : List UInt8) : Nat := (byteAt packet 0 &&& 0x0f).toNat * 4

def flagsOffset (packet : List UInt8) : Nat := u16At packet 6

def fragmentOffset (packet : List UInt8) : Nat := flagsOffset packet &&& 0x1fff

def moreFragments (packet : List UInt8) : Bool := flagsOffset packet &&& 0x2000 != 0

def isFragment (packet : List UInt8) : Bool := fragmentOffset packet != 0 || moreFragments packet

/-- What an accepted IPv4 packet says of itself. -/
def ipv4Meta (packet : List UInt8) : IpPacketMeta where
  version := .v4
  source := .v4 ((packet.drop 12).take 4)
  destination := .v4 ((packet.drop 16).take 4)
  protocol := byteAt packet 9
  l4Offset := if !isFragment packet || fragmentOffset packet == 0 then some (headerLen packet)
    else none
  fragment := if isFragment packet then
      some
        { id := u16At packet 4
          offset := fragmentOffset packet
          more := moreFragments packet
          protocol := byteAt packet 9 }
    else none
  packetLen := u16At packet 2

def parseIpv4 (packet : List UInt8) : Except IpPacketError IpPacketMeta :=
  if packet.length < ipv4MinHeader then .error .truncatedHeader
  else
    let ihl := headerLen packet
    if ihl < ipv4MinHeader ∨ packet.length < ihl then .error .invalidIpv4HeaderLength
    else
      let totalLen := u16At packet 2
      if totalLen < ihl ∨ totalLen ≠ packet.length then .error .lengthMismatch
      else
        let payloadLen := totalLen - ihl
        let fragmentEnd := fragmentOffset packet * 8 + payloadLen
        if flagsOffset packet &&& 0x8000 ≠ 0 ∨
            (flagsOffset packet &&& 0x4000 ≠ 0 ∧ isFragment packet) ∨
            (isFragment packet ∧ payloadLen = 0) ∨
            (isFragment packet ∧ u16Max - ipv4MinHeader < fragmentEnd) ∨
            (moreFragments packet ∧ payloadLen % 8 ≠ 0) then
          .error .invalidIpv4Fragment
        else .ok (ipv4Meta packet)

/-! ## IPv6 -/

/-- The position in a chain of extension headers. -/
structure Chain where
  next : UInt8
  offset : Nat
  extensionBytes : Nat
  fragment : Option FragmentInfo
  deriving DecidableEq, Repr

/-- The length of the extension header that comes next, if one does. -/
def extensionLen (packet : List UInt8) (chain : Chain) : Except IpPacketError (Option Nat) :=
  if chain.next = 0 ∨ chain.next = 43 ∨ chain.next = 60 then
    match slice? packet chain.offset 2 with
    | none => .error .truncatedExtension
    | some header => .ok (some (((byteAt header 1).toNat + 1) * 8))
  else if chain.next = 44 then
    if chain.fragment.isSome then .error .duplicateFragmentHeader else .ok (some 8)
  else if chain.next = 51 then
    match slice? packet chain.offset 2 with
    | none => .error .truncatedExtension
    | some header => .ok (some (((byteAt header 1).toNat + 2) * 4))
  else .ok none

def fragmentHeader (totalLen offset : Nat) (header : List UInt8) :
    Except IpPacketError FragmentInfo :=
  let wire := u16At header 2
  let fragmentPayloadLen := totalLen - (offset + 8)
  let fragmentOffset := wire >>> 3
  let more := wire &&& 1 != 0
  let fragmentEnd := fragmentOffset * 8 + fragmentPayloadLen
  let reassembledPayloadLen := (offset - ipv6Header) + fragmentEnd
  if byteAt header 1 ≠ 0 ∨ wire &&& 0x0006 ≠ 0 ∨ (more ∧ fragmentPayloadLen % 8 ≠ 0) ∨
      ((fragmentOffset ≠ 0 ∨ more) ∧ fragmentPayloadLen = 0) ∨ u16Max < reassembledPayloadLen then
    .error .invalidIpv6Fragment
  else
    .ok
      { id := ofBE (header.drop 4 |>.take 4)
        offset := fragmentOffset
        more
        protocol := byteAt header 0 }

/-- The loop over the extension headers, of which so many more are allowed. -/
def walkExtensions (packet : List UInt8) (totalLen : Nat) :
    Nat → Chain → Except IpPacketError Chain
  | 0, chain =>
    match extensionLen packet chain with
    | .error error => .error error
    | .ok none => .ok chain
    | .ok (some _) => .error .extensionLimit
  | allowed + 1, chain =>
    match extensionLen packet chain with
    | .error error => .error error
    | .ok none => .ok chain
    | .ok (some len) =>
      if maxExtensionBytes < chain.extensionBytes + len then .error .extensionLimit
      else
        match slice? packet chain.offset len with
        | none => .error .truncatedExtension
        | some header =>
          let moved : Chain :=
            { next := byteAt header 0
              offset := chain.offset + len
              extensionBytes := chain.extensionBytes + len
              fragment := chain.fragment }
          if chain.next = 44 then
            match fragmentHeader totalLen chain.offset header with
            | .error error => .error error
            | .ok fragment =>
              -- a later fragment starts anywhere in the payload
              if fragment.offset ≠ 0 then .ok { moved with fragment := some fragment }
              else walkExtensions packet totalLen allowed { moved with fragment := some fragment }
          else walkExtensions packet totalLen allowed moved

def parseIpv6 (packet : List UInt8) : Except IpPacketError IpPacketMeta :=
  if packet.length < ipv6Header then .error .truncatedHeader
  else
    let payloadLen := u16At packet 4
    if payloadLen = 0 ∧ packet.length ≠ ipv6Header then .error .ipv6Jumbogram
    else
      let totalLen := ipv6Header + payloadLen
      if totalLen ≠ packet.length then .error .lengthMismatch
      else
        match walkExtensions packet totalLen maxExtensionHeaders
            ⟨byteAt packet 6, ipv6Header, 0, none⟩ with
        | .error error => .error error
        | .ok chain =>
          .ok
            { version := .v6
              source := .v6 ((packet.drop 8).take 16)
              destination := .v6 ((packet.drop 24).take 16)
              protocol := chain.next
              l4Offset := if chain.fragment.all (·.offset == 0) then some chain.offset else none
              fragment := chain.fragment
              packetLen := totalLen }

def parseIpPacket (packet : List UInt8) : Except IpPacketError IpPacketMeta :=
  match packet with
  | [] => .error .empty
  | first :: _ =>
    if first >>> 4 = 4 then parseIpv4 packet
    else if first >>> 4 = 6 then parseIpv6 packet
    else .error (.unsupportedVersion (first >>> 4))

/-! ## Flows -/

/-- What the flow hash is taken of. -/
inductive FlowKey where
  | fragment (version : IpVersion) (source destination : IpAddr) (protocol : UInt8) (id : Nat)
  | flow (version : IpVersion) (source destination : IpAddr) (protocol : UInt8)
      (ports : Option (Nat × Nat))
  | raw (packet : List UInt8)
  deriving DecidableEq, Repr

def flowKey (packet : List UInt8) : FlowKey :=
  match parseIpPacket packet with
  | .error _ => .raw packet
  | .ok info =>
    match info.fragment.filter (·.isFragmented) with
    | some fragment =>
      .fragment info.version info.source info.destination fragment.protocol fragment.id
    | none => .flow info.version info.source info.destination info.protocol (info.ports packet)

/-- `hasher` is the standard library's hasher over the key. -/
def flowHash (hasher : FlowKey → UInt64) (packet : List UInt8) : UInt64 := hasher (flowKey packet)

end Qeli.Ip
