import Qeli.Ip.Packet
import Qeli.Lib.Checked

/-!
# What the parser reads and what it accepts

`parse_ip_packet` once more, with every index, slice and subtraction of its body as an operation
that may stop the program (`Lib.Checked`): `parseIpPacketChecked` is the function as written,
`parseIpPacket` its result, and no byte string stops it. `Walked` has a constructor for each way
the loop over the IPv6 extension headers goes on or ends; what holds of an accepted packet follows
by induction over it. The limit on reassembled datagrams does not count the IPv6 base header, nor
IPv4 options.
-/

namespace Qeli.Ip

open Qeli.Lib

/-! ## The parser as written -/

/-- `u16::from_be_bytes([bytes[i], bytes[i + 1]])`. -/
def u16Checked (bytes : List UInt8) (i : Nat) : Option Nat := do
  let high ← bytes[i]?
  let low ← bytes[i + 1]?
  return ofBE [high, low]

def parseIpv4Checked (packet : List UInt8) : Option (Except IpPacketError IpPacketMeta) := do
  if packet.length < ipv4MinHeader then return .error .truncatedHeader
  else
    let ihl := ((← packet[0]?) &&& 0x0f).toNat * 4
    if ihl < ipv4MinHeader ∨ packet.length < ihl then return .error .invalidIpv4HeaderLength
    else
      let totalLen ← u16Checked packet 2
      if totalLen < ihl ∨ totalLen ≠ packet.length then return .error .lengthMismatch
      else
        let flagsOffset ← u16Checked packet 6
        let payloadLen ← Checked.sub totalLen ihl
        let offset := flagsOffset &&& 0x1fff
        let more := flagsOffset &&& 0x2000 != 0
        let fragmented := offset != 0 || more
        let fragmentEnd := offset * 8 + payloadLen
        if flagsOffset &&& 0x8000 ≠ 0 ∨ (flagsOffset &&& 0x4000 ≠ 0 ∧ fragmented) ∨
            (fragmented ∧ payloadLen = 0) ∨ (fragmented ∧ u16Max - ipv4MinHeader < fragmentEnd) ∨
            (more ∧ payloadLen % 8 ≠ 0) then
          return .error .invalidIpv4Fragment
        else
          let id ← u16Checked packet 4
          let protocol ← packet[9]?
          let source ← Checked.elements packet 12 4
          let destination ← Checked.elements packet 16 4
          return .ok
            { version := .v4
              source := .v4 source
              destination := .v4 destination
              protocol
              l4Offset := if !fragmented || offset == 0 then some ihl else none
              fragment := if fragmented then some { id, offset, more, protocol } else none
              packetLen := totalLen }

/-- The two `get(..)` return an `Option` and stop nothing. -/
def extensionLenChecked (packet : List UInt8) (chain : Chain) :
    Option (Except IpPacketError (Option Nat)) := do
  if chain.next = 0 ∨ chain.next = 43 ∨ chain.next = 60 then
    match slice? packet chain.offset 2 with
    | none => return .error .truncatedExtension
    | some header => return .ok (some (((← header[1]?).toNat + 1) * 8))
  else if chain.next = 44 then
    if chain.fragment.isSome then return .error .duplicateFragmentHeader else return .ok (some 8)
  else if chain.next = 51 then
    match slice? packet chain.offset 2 with
    | none => return .error .truncatedExtension
    | some header => return .ok (some (((← header[1]?).toNat + 2) * 4))
  else return .ok none

def fragmentHeaderChecked (totalLen offset : Nat) (header : List UInt8) :
    Option (Except IpPacketError FragmentInfo) := do
  let wire ← u16Checked header 2
  let fragmentPayloadLen ← Checked.sub totalLen (offset + 8)
  let fragmentOffset := wire >>> 3
  let more := wire &&& 1 != 0
  let fragmentEnd := fragmentOffset * 8 + fragmentPayloadLen
  let reassembledPayloadLen := (← Checked.sub offset ipv6Header) + fragmentEnd
  if (← header[1]?) ≠ 0 ∨ wire &&& 0x0006 ≠ 0 ∨ (more ∧ fragmentPayloadLen % 8 ≠ 0) ∨
      ((fragmentOffset ≠ 0 ∨ more) ∧ fragmentPayloadLen = 0) ∨ u16Max < reassembledPayloadLen then
    return .error .invalidIpv6Fragment
  else
    return .ok
      { id := ofBE (← Checked.elements header 4 4)
        offset := fragmentOffset
        more
        protocol := ← header[0]? }

def walkExtensionsChecked (packet : List UInt8) (totalLen : Nat) :
    Nat → Chain → Option (Except IpPacketError Chain)
  | allowed, chain => do
    match ← extensionLenChecked packet chain with
    | .error error => return .error error
    | .ok none => return .ok chain
    | .ok (some len) =>
      match allowed with
      | 0 => return .error .extensionLimit
      | allowed + 1 =>
        if maxExtensionBytes < chain.extensionBytes + len then return .error .extensionLimit
        else
          match slice? packet chain.offset len with
          | none => return .error .truncatedExtension
          | some header =>
            let moved : Chain :=
              { next := ← header[0]?
                offset := chain.offset + len
                extensionBytes := chain.extensionBytes + len
                fragment := chain.fragment }
            if chain.next = 44 then
              match ← fragmentHeaderChecked totalLen chain.offset header with
              | .error error => return .error error
              | .ok fragment =>
                if fragment.offset ≠ 0 then return .ok { moved with fragment := some fragment }
                else
                  walkExtensionsChecked packet totalLen allowed
                    { moved with fragment := some fragment }
            else walkExtensionsChecked packet totalLen allowed moved

def parseIpv6Checked (packet : List UInt8) : Option (Except IpPacketError IpPacketMeta) := do
  if packet.length < ipv6Header then return .error .truncatedHeader
  else
    let payloadLen ← u16Checked packet 4
    if payloadLen = 0 ∧ packet.length ≠ ipv6Header then return .error .ipv6Jumbogram
    else
      let totalLen := ipv6Header + payloadLen
      if totalLen ≠ packet.length then return .error .lengthMismatch
      else
        let source ← Checked.range packet 8 24
        let destination ← Checked.range packet 24 40
        match ← walkExtensionsChecked packet totalLen maxExtensionHeaders
            ⟨← packet[6]?, ipv6Header, 0, none⟩ with
        | .error error => return .error error
        | .ok chain =>
          return .ok
            { version := .v6
              source := .v6 source
              destination := .v6 destination
              protocol := chain.next
              l4Offset := if chain.fragment.all (·.offset == 0) then some chain.offset else none
              fragment := chain.fragment
              packetLen := totalLen }

def parseIpPacketChecked (packet : List UInt8) : Option (Except IpPacketError IpPacketMeta) :=
  match packet with
  | [] => some (.error .empty)
  | first :: _ =>
    if first >>> 4 = 4 then parseIpv4Checked packet
    else if first >>> 4 = 6 then parseIpv6Checked packet
    else some (.error (.unsupportedVersion (first >>> 4)))

section Checked

theorem slice?_eq_some {packet : List UInt8} {start n : Nat} {header : List UInt8} :
    slice? packet start n = some header ↔
      start + n ≤ packet.length ∧ header = (packet.drop start).take n := by
  rw [slice?]
  split
  · rw [Option.some.injEq, eq_comm, and_iff_right ‹_›]
  · simp_all

variable {packet : List UInt8} {totalLen i : Nat} {chain : Chain}

theorem index_eq (h : i < packet.length) : packet[i]? = some (byteAt packet i) := by
  rw [byteAt, List.getElem?_eq_getElem h, Option.getD_some]

theorem u16Checked_eq (h : i + 1 < packet.length) : u16Checked packet i = some (u16At packet i) := by
  rw [u16Checked, index_eq (Nat.lt_of_succ_lt h), index_eq h]
  rfl

theorem parseIpv4Checked_eq (packet : List UInt8) :
    parseIpv4Checked packet = some (parseIpv4 packet) := by
  by_cases hlen : packet.length < ipv4MinHeader
  · rw [parseIpv4Checked, parseIpv4, if_pos hlen, if_pos hlen]
    rfl
  rw [parseIpv4Checked, parseIpv4, if_neg hlen, if_neg hlen]
  rw [ipv4MinHeader] at hlen
  rw [index_eq (by omega), u16Checked_eq (by omega), u16Checked_eq (by omega),
    u16Checked_eq (by omega), index_eq (by omega), Checked.elements_eq (by omega),
    Checked.elements_eq (by omega)]
  by_cases hihl : headerLen packet < ipv4MinHeader ∨ packet.length < headerLen packet
  · exact (if_pos hihl).trans (congrArg some (if_pos hihl).symm)
  refine (if_neg hihl).trans (.trans ?_ (congrArg some (if_neg hihl).symm))
  by_cases htotal : u16At packet 2 < headerLen packet ∨ u16At packet 2 ≠ packet.length
  · exact (if_pos htotal).trans (congrArg some (if_pos htotal).symm)
  refine (if_neg htotal).trans (.trans ?_ (congrArg some (if_neg htotal).symm))
  have hsub : Checked.sub (u16At packet 2) (headerLen packet) = _ := Checked.sub_eq (by omega)
  show (Checked.sub (u16At packet 2) (headerLen packet)).bind _ = _
  rw [hsub, Option.bind_some]
  exact (apply_ite some _ _ _).symm

theorem extensionLenChecked_eq (packet : List UInt8) (chain : Chain) :
    extensionLenChecked packet chain = some (extensionLen packet chain) := by
  have hread : ∀ header, slice? packet chain.offset 2 = some header →
      header[1]? = some (byteAt header 1) := fun header h => by
    obtain ⟨hfits, rfl⟩ := slice?_eq_some.mp h
    exact index_eq (by rw [List.length_take, List.length_drop]; omega)
  unfold extensionLenChecked extensionLen
  generalize slice? packet chain.offset 2 = header at hread
  cases header with
  | none =>
    split
    · rfl
    split
    · split <;> rfl
    · split <;> rfl
  | some header =>
    simp only [hread header rfl]
    split
    · rfl
    split
    · split <;> rfl
    · split <;> rfl

theorem le_extensionLen {len : Nat} (h : extensionLen packet chain = .ok (some len)) : 8 ≤ len := by
  rw [extensionLen] at h
  split at h
  · split at h <;> cases h
    omega
  split at h
  · split at h <;> cases h
    exact le_rfl
  split at h
  · split at h <;> cases h
    omega
  · cases h

theorem fragmentHeaderChecked_eq {start : Nat} {header : List UInt8} (hheader : 8 ≤ header.length)
    (hstart : ipv6Header ≤ start) (hend : start + 8 ≤ totalLen) :
    fragmentHeaderChecked totalLen start header = some (fragmentHeader totalLen start header) := by
  rw [fragmentHeaderChecked, u16Checked_eq (by omega), Checked.sub_eq hend, Checked.sub_eq hstart,
    index_eq (show 1 < header.length by omega), index_eq (show 0 < header.length by omega),
    Checked.elements_eq (by omega)]
  exact (apply_ite some _ _ _).symm

theorem walkExtensionsChecked_eq (allowed : Nat) (hstart : ipv6Header ≤ chain.offset) :
    walkExtensionsChecked packet packet.length allowed chain =
      some (walkExtensions packet packet.length allowed chain) := by
  induction allowed generalizing chain with
  | zero =>
    rw [walkExtensionsChecked, extensionLenChecked_eq, walkExtensions]
    obtain error | _ | len := extensionLen packet chain <;> rfl
  | succ allowed ih =>
    rw [walkExtensionsChecked, extensionLenChecked_eq, walkExtensions]
    cases hlen : extensionLen packet chain with
    | error => rfl
    | ok size =>
      obtain _ | len := size
      · rfl
      show (if maxExtensionBytes < chain.extensionBytes + len then _ else _) = some (ite _ _ _)
      by_cases hbytes : maxExtensionBytes < chain.extensionBytes + len
      · rw [if_pos hbytes, if_pos hbytes]
        rfl
      rw [if_neg hbytes, if_neg hbytes]
      cases hslice : slice? packet chain.offset len with
      | none => rfl
      | some header =>
        obtain ⟨hfits, rfl⟩ := slice?_eq_some.mp hslice
        have hmin := le_extensionLen hlen
        have hheader : ((packet.drop chain.offset).take len).length = len := by
          rw [List.length_take, List.length_drop]
          omega
        dsimp only
        rw [index_eq (by omega), fragmentHeaderChecked_eq (by omega) hstart (by omega)]
        show (if chain.next = 44 then _ else _) = some (ite _ _ _)
        split
        · obtain error | fragment := fragmentHeader packet.length chain.offset _
          · rfl
          · show (if fragment.offset ≠ 0 then _ else _) = some (ite _ _ _)
            split
            · rfl
            · exact ih (Nat.le_add_right_of_le hstart)
        · exact ih (Nat.le_add_right_of_le hstart)

theorem parseIpv6Checked_eq (packet : List UInt8) :
    parseIpv6Checked packet = some (parseIpv6 packet) := by
  by_cases hlen : packet.length < ipv6Header
  · rw [parseIpv6Checked, parseIpv6, if_pos hlen, if_pos hlen]
    rfl
  rw [parseIpv6Checked, parseIpv6, if_neg hlen, if_neg hlen]
  rw [ipv6Header] at hlen
  rw [u16Checked_eq (by omega), Checked.range_eq (by decide) (by omega),
    Checked.range_eq (by decide) (by omega), index_eq (by omega)]
  by_cases hjumbo : u16At packet 4 = 0 ∧ packet.length ≠ ipv6Header
  · exact (if_pos hjumbo).trans (congrArg some (if_pos hjumbo).symm)
  refine (if_neg hjumbo).trans (.trans ?_ (congrArg some (if_neg hjumbo).symm))
  by_cases htotal : ipv6Header + u16At packet 4 ≠ packet.length
  · exact (if_pos htotal).trans (congrArg some (if_pos htotal).symm)
  refine (if_neg htotal).trans (.trans ?_ (congrArg some (if_neg htotal).symm))
  rw [not_not.mp htotal]
  show (walkExtensionsChecked _ _ _ _).bind _ = _
  rw [walkExtensionsChecked_eq _ le_rfl]
  obtain error | chain := walkExtensions packet packet.length maxExtensionHeaders _ <;> rfl

/-- **No byte string stops the parser.** -/
theorem parseIpPacketChecked_eq (packet : List UInt8) :
    parseIpPacketChecked packet = some (parseIpPacket packet) := by
  cases packet with
  | nil => rfl
  | cons first rest =>
    rw [parseIpPacketChecked, parseIpv4Checked_eq, parseIpv6Checked_eq, parseIpPacket]
    split
    · rfl
    · split <;> rfl

end Checked

/-! ## The walk over the extension headers -/

/-- The position behind a header of `len` bytes. -/
def Chain.moved (chain : Chain) (packet : List UInt8) (len : Nat) : Chain where
  next := byteAt packet chain.offset
  offset := chain.offset + len
  extensionBytes := chain.extensionBytes + len
  fragment := chain.fragment

section Walk

variable {packet packet' : List UInt8} {totalLen allowed len : Nat} {chain last : Chain}
  {fragment : FragmentInfo}

theorem byteAt_slice {start n i : Nat} (h : i < n) :
    byteAt ((packet.drop start).take n) i = byteAt packet (start + i) := by
  rw [byteAt, List.getElem?_take, if_pos h, List.getElem?_drop, byteAt]

/-- The loop, a constructor for each way it goes on or ends. -/
inductive Walked (packet : List UInt8) (totalLen : Nat) : Nat → Chain → Chain → Prop
  | done {allowed : Nat} {chain : Chain} (hnone : extensionLen packet chain = .ok none) :
    Walked packet totalLen allowed chain chain
  | later {allowed : Nat} {chain : Chain} {fragment : FragmentInfo} (hnext : chain.next = 44)
    (hbytes : chain.extensionBytes + 8 ≤ maxExtensionBytes)
    (hfits : chain.offset + 8 ≤ packet.length)
    (hfragment : fragmentHeader totalLen chain.offset ((packet.drop chain.offset).take 8) =
      .ok fragment) (hfresh : chain.fragment = none) (hoffset : fragment.offset ≠ 0) :
    Walked packet totalLen (allowed + 1) chain
      { chain.moved packet 8 with fragment := some fragment }
  | first {allowed : Nat} {chain last : Chain} {fragment : FragmentInfo} (hnext : chain.next = 44)
    (hbytes : chain.extensionBytes + 8 ≤ maxExtensionBytes)
    (hfits : chain.offset + 8 ≤ packet.length)
    (hfragment : fragmentHeader totalLen chain.offset ((packet.drop chain.offset).take 8) =
      .ok fragment) (hfresh : chain.fragment = none) (hoffset : fragment.offset = 0)
    (hrest : Walked packet totalLen allowed
      { chain.moved packet 8 with fragment := some fragment } last) :
    Walked packet totalLen (allowed + 1) chain last
  | header {allowed len : Nat} {chain last : Chain} (hnext : chain.next ≠ 44)
    (hlen : extensionLen packet chain = .ok (some len))
    (hbytes : chain.extensionBytes + len ≤ maxExtensionBytes)
    (hfits : chain.offset + len ≤ packet.length)
    (hrest : Walked packet totalLen allowed (chain.moved packet len) last) :
    Walked packet totalLen (allowed + 1) chain last

theorem extensionLen_fragment (hnext : chain.next = 44) :
    extensionLen packet chain = .ok (some len) ↔ chain.fragment = none ∧ len = 8 := by
  rw [extensionLen, if_neg (by rw [hnext]; decide), if_pos hnext]
  cases chain.fragment <;> simp [eq_comm]

theorem walkExtensions_succ (hlen : extensionLen packet chain = .ok (some len))
    (hbytes : chain.extensionBytes + len ≤ maxExtensionBytes)
    (hfits : chain.offset + len ≤ packet.length) :
    walkExtensions packet totalLen (allowed + 1) chain =
      if chain.next = 44 then
        match fragmentHeader totalLen chain.offset ((packet.drop chain.offset).take len) with
        | .error error => .error error
        | .ok fragment =>
          if fragment.offset ≠ 0 then .ok { chain.moved packet len with fragment := some fragment }
          else
            walkExtensions packet totalLen allowed
              { chain.moved packet len with fragment := some fragment }
      else walkExtensions packet totalLen allowed (chain.moved packet len) := by
  have hfirst : byteAt ((packet.drop chain.offset).take len) 0 = byteAt packet chain.offset :=
    byteAt_slice (Nat.lt_of_lt_of_le (by decide) (le_extensionLen hlen))
  rw [walkExtensions, hlen]
  dsimp only
  rw [if_neg (Nat.not_lt.mpr hbytes), slice?_eq_some.mpr ⟨hfits, rfl⟩]
  dsimp only
  rw [hfirst]
  rfl

theorem walked_of_walkExtensions (h : walkExtensions packet totalLen allowed chain = .ok last) :
    Walked packet totalLen allowed chain last := by
  induction allowed generalizing chain with
  | zero =>
    rw [walkExtensions] at h
    split at h <;> cases h
    exact .done ‹_›
  | succ allowed ih =>
    cases hlen : extensionLen packet chain with
    | error => simp [walkExtensions, hlen] at h
    | ok size =>
      obtain _ | len := size
      · simp only [walkExtensions, hlen] at h
        cases h
        exact .done hlen
      by_cases hbytes : maxExtensionBytes < chain.extensionBytes + len
      · simp [walkExtensions, hlen, hbytes] at h
      by_cases hfits : packet.length < chain.offset + len
      · simp [walkExtensions, hlen, hbytes, slice?, Nat.not_le.mpr hfits] at h
      rw [Nat.not_lt] at hbytes hfits
      rw [walkExtensions_succ hlen hbytes hfits] at h
      split at h
      · rename_i hnext
        obtain ⟨hfresh, rfl⟩ := (extensionLen_fragment hnext).mp hlen
        split at h
        · cases h
        rename_i fragment hfragment
        split at h
        · rename_i hoffset
          cases h
          exact .later hnext hbytes hfits hfragment hfresh hoffset
        · rename_i hoffset
          exact .first hnext hbytes hfits hfragment hfresh (not_not.mp hoffset) (ih h)
      · exact .header ‹_› hlen hbytes hfits (ih h)

/-! ## Chains -/

/-- The size of an extension header of type `next` at `offset`. -/
def extensionSize (packet : List UInt8) (next : UInt8) (offset : Nat) : Option Nat :=
  if next = 0 ∨ next = 43 ∨ next = 60 then some (((byteAt packet (offset + 1)).toNat + 1) * 8)
  else if next = 44 then some 8
  else if next = 51 then some (((byteAt packet (offset + 1)).toNat + 2) * 4)
  else none

/-- Extension headers of these sizes lead from one position to another, inside the packet. -/
inductive Extensions (packet : List UInt8) : UInt8 → Nat → List Nat → UInt8 → Nat → Prop
  | nil {next : UInt8} {offset : Nat} : Extensions packet next offset [] next offset
  | cons {next last : UInt8} {offset len stop : Nat} {lens : List Nat}
    (hsize : extensionSize packet next offset = some len) (hfits : offset + len ≤ packet.length)
    (hrest : Extensions packet (byteAt packet offset) (offset + len) lens last stop) :
    Extensions packet next offset (len :: lens) last stop

theorem extensionLen_size {size : Option Nat} (h : extensionLen packet chain = .ok size) :
    extensionSize packet chain.next chain.offset = size := by
  rw [extensionLen] at h
  rw [extensionSize]
  split at h
  · rename_i htype
    rw [if_pos htype]
    split at h
    · cases h
    · rename_i header hheader
      obtain ⟨-, rfl⟩ := slice?_eq_some.mp hheader
      rw [byteAt_slice (by decide)] at h
      exact Except.ok.inj h
  rw [if_neg ‹_›]
  split at h
  · rw [if_pos ‹_›]
    split at h
    · cases h
    · exact Except.ok.inj h
  rw [if_neg ‹_›]
  split at h
  · rw [if_pos ‹_›]
    split at h
    · cases h
    · rename_i header hheader
      obtain ⟨-, rfl⟩ := slice?_eq_some.mp hheader
      rw [byteAt_slice (by decide)] at h
      exact Except.ok.inj h
  · rw [if_neg ‹_›]
    exact Except.ok.inj h

theorem extensionSize_fragment : extensionSize packet 44 len = some 8 := rfl

theorem Walked.extensions (h : Walked packet totalLen allowed chain last) :
    ∃ lens, Extensions packet chain.next chain.offset lens last.next last.offset ∧
      lens.length ≤ allowed ∧ last.extensionBytes = chain.extensionBytes + lens.sum ∧
      (chain.extensionBytes ≤ maxExtensionBytes → last.extensionBytes ≤ maxExtensionBytes) ∧
      (chain.offset ≤ packet.length → last.offset ≤ packet.length) := by
  induction h with
  | done => exact ⟨[], .nil, Nat.zero_le _, rfl, id, id⟩
  | later hnext hbytes hfits hfragment hfresh hoffset =>
    refine ⟨[8], ?_, by simp, rfl, fun _ => hbytes, fun _ => hfits⟩
    rw [hnext]
    exact .cons extensionSize_fragment hfits .nil
  | first hnext hbytes hfits hfragment hfresh hoffset hrest ih =>
    obtain ⟨lens, hchain, hcount, hsum, hlimit, hinside⟩ := ih
    refine ⟨8 :: lens, ?_, by simpa using hcount, ?_, fun _ => hlimit hbytes, fun _ => hinside hfits⟩
    · rw [hnext]
      exact .cons extensionSize_fragment hfits hchain
    · rw [hsum, List.sum_cons]
      simp only [Chain.moved]
      omega
  | header hnext hlen hbytes hfits hrest ih =>
    obtain ⟨lens, hchain, hcount, hsum, hlimit, hinside⟩ := ih
    refine ⟨_ :: lens, .cons (extensionLen_size hlen) hfits hchain, by simpa using hcount, ?_,
      fun _ => hlimit hbytes, fun _ => hinside hfits⟩
    rw [hsum, List.sum_cons]
    simp only [Chain.moved]
    omega

/-- The walk ends before something that is no extension header, or in a later fragment. -/
theorem Walked.ends (h : Walked packet totalLen allowed chain last) :
    extensionSize packet last.next last.offset = none ∨
      ∃ fragment, last.fragment = some fragment ∧ fragment.offset ≠ 0 := by
  induction h with
  | done hnone => exact .inl (extensionLen_size hnone)
  | later hnext hbytes hfits hfragment hfresh hoffset => exact .inr ⟨_, rfl, hoffset⟩
  | first hnext hbytes hfits hfragment hfresh hoffset hrest ih
  | header hnext hlen hbytes hfits hrest ih => exact ih

theorem Walked.fragmented (h : Walked packet totalLen allowed chain last) :
    last.fragment = chain.fragment ∨
      (chain.fragment = none ∧ ∃ fragment lens start, last.fragment = some fragment ∧
        Extensions packet chain.next chain.offset lens 44 start ∧ start + 8 ≤ packet.length ∧
        fragmentHeader totalLen start ((packet.drop start).take 8) = .ok fragment ∧
        (fragment.offset ≠ 0 → last.offset = start + 8)) := by
  induction h with
  | done => exact .inl rfl
  | later hnext hbytes hfits hfragment hfresh hoffset =>
    refine .inr ⟨hfresh, _, [], _, rfl, ?_, hfits, hfragment, fun _ => rfl⟩
    rw [hnext]
    exact .nil
  | first hnext hbytes hfits hfragment hfresh hoffset hrest ih =>
    obtain hsame | ⟨hnone, -⟩ := ih
    · refine .inr ⟨hfresh, _, [], _, hsame, ?_, hfits, hfragment, fun h => absurd hoffset h⟩
      rw [hnext]
      exact .nil
    · cases hnone
  | header hnext hlen hbytes hfits hrest ih =>
    obtain hsame | ⟨hnone, fragment, lens, start, hsome, hchain, hend, hfragment, hlast⟩ := ih
    · exact .inl hsame
    · exact .inr ⟨hnone, fragment, _, start, hsome, .cons (extensionLen_size hlen) hfits hchain, hend,
        hfragment, hlast⟩

theorem fragmentHeader_spec {start : Nat} {header : List UInt8}
    (h : fragmentHeader totalLen start header = .ok fragment) :
    fragment.protocol = byteAt header 0 ∧
      (fragment.more = true → 0 < totalLen - (start + 8) ∧ (totalLen - (start + 8)) % 8 = 0) ∧
      (start - ipv6Header) + (fragment.offset * 8 + (totalLen - (start + 8))) ≤ u16Max := by
  rw [fragmentHeader] at h
  split at h
  · cases h
  · rename_i hvalid
    cases h
    simp only [not_or, not_and, not_not, Nat.not_lt] at hvalid ⊢
    obtain ⟨-, -, hmultiple, hpositive, hlimit⟩ := hvalid
    refine ⟨trivial, fun hmore => ⟨?_, hmultiple hmore⟩, hlimit⟩
    exact Nat.pos_of_ne_zero (hpositive (.inr hmore))

theorem extensionLen_none (h : extensionLen packet chain = .ok none) :
    extensionLen packet' chain = .ok none := by
  rw [extensionLen] at h ⊢
  split at h
  · split at h <;> cases h
  split at h
  · split at h <;> cases h
  split at h
  · split at h <;> cases h
  rename_i hoptions hfragment hauthentication
  rw [if_neg hoptions, if_neg hfragment, if_neg hauthentication]

theorem Walked.offset_le (h : Walked packet totalLen allowed chain last) :
    chain.offset ≤ last.offset := by
  induction h with
  | done => exact le_rfl
  | later => exact Nat.le_add_right ..
  | first hnext hbytes hfits hfragment hfresh hoffset hrest ih
  | header hnext hlen hbytes hfits hrest ih => exact (Nat.le_add_right ..).trans ih

/-! ## What is not interpreted -/

/-- Two packets of one length with the same first bytes. -/
structure SameUpTo (stop : Nat) (packet packet' : List UInt8) : Prop where
  length : packet'.length = packet.length
  bytes : ∀ i < stop, packet'[i]? = packet[i]?

section SameUpTo

variable {stop start n i : Nat} (h : SameUpTo stop packet packet')
include h

theorem SameUpTo.byteAt (hi : i < stop) : byteAt packet' i = Ip.byteAt packet i := by
  rw [Ip.byteAt, h.bytes i hi, Ip.byteAt]

theorem SameUpTo.u16At (hi : i + 1 < stop) : u16At packet' i = Ip.u16At packet i := by
  rw [Ip.u16At, h.byteAt (by omega), h.byteAt hi, Ip.u16At]

theorem SameUpTo.slice (hle : start + n ≤ stop) :
    (packet'.drop start).take n = (packet.drop start).take n := by
  refine List.ext_getElem? fun i => ?_
  rw [List.getElem?_take, List.getElem?_take]
  split
  · rw [List.getElem?_drop, List.getElem?_drop, h.bytes _ (by omega)]
  · rfl

theorem SameUpTo.extensionLen (hlen : extensionLen packet chain = .ok (some len))
    (hle : chain.offset + len ≤ stop) : Ip.extensionLen packet' chain = .ok (some len) := by
  have hmin := le_extensionLen hlen
  rw [← hlen, Ip.extensionLen, Ip.extensionLen, slice?, slice?, h.length, h.slice (by omega)]

/-- A walk does not depend on what is behind the position it ends at. -/
theorem SameUpTo.walkExtensions (hwalk : Walked packet totalLen allowed chain last)
    (hle : last.offset ≤ stop) : walkExtensions packet' totalLen allowed chain = .ok last := by
  have hmoved : ∀ chain : Chain, ∀ len, 0 < len → chain.offset + len ≤ stop →
      chain.moved packet' len = chain.moved packet len := fun chain len hpos hle => by
    rw [Chain.moved, h.byteAt (by omega)]
    rfl
  induction hwalk with
  | @done allowed chain hnone =>
    have hnone' : Ip.extensionLen packet' chain = .ok none := extensionLen_none hnone
    cases allowed <;> rw [Ip.walkExtensions, hnone']
  | later hnext hbytes hfits hfragment hfresh hoffset =>
    have hlen : Ip.extensionLen packet _ = _ := (extensionLen_fragment hnext).mpr ⟨hfresh, rfl⟩
    rw [walkExtensions_succ (h.extensionLen hlen hle) hbytes (by rw [h.length]; exact hfits),
      if_pos hnext, h.slice hle, hfragment, hmoved _ 8 (by decide) hle]
    exact if_pos hoffset
  | first hnext hbytes hfits hfragment hfresh hoffset hrest ih =>
    have hle' := hrest.offset_le.trans hle
    have hlen : Ip.extensionLen packet _ = _ := (extensionLen_fragment hnext).mpr ⟨hfresh, rfl⟩
    rw [walkExtensions_succ (h.extensionLen hlen hle') hbytes (by rw [h.length]; exact hfits),
      if_pos hnext, h.slice hle', hfragment, hmoved _ 8 (by decide) hle']
    exact (if_neg (not_not.mpr hoffset)).trans (ih hle)
  | header hnext hlen hbytes hfits hrest ih =>
    have hle' := hrest.offset_le.trans hle
    have hmin := le_extensionLen hlen
    rw [walkExtensions_succ (h.extensionLen hlen hle') hbytes (by rw [h.length]; exact hfits),
      if_neg hnext, hmoved _ _ (by omega) hle']
    exact ih hle

theorem SameUpTo.parseIpv4 (hstop : 20 ≤ stop) : parseIpv4 packet' = Ip.parseIpv4 packet := by
  have hheader : headerLen packet' = headerLen packet := by
    rw [headerLen, h.byteAt (by omega)]
    rfl
  have hflags : flagsOffset packet' = flagsOffset packet := h.u16At (by omega)
  have hoffset : fragmentOffset packet' = fragmentOffset packet := by
    rw [fragmentOffset, hflags]
    rfl
  have hmore : moreFragments packet' = moreFragments packet := by
    rw [moreFragments, hflags]
    rfl
  have hfragment : isFragment packet' = isFragment packet := by
    rw [isFragment, hoffset, hmore]
    rfl
  have hmeta : ipv4Meta packet' = ipv4Meta packet := by
    rw [ipv4Meta, hheader, hoffset, hmore, hfragment, h.u16At (by omega), h.u16At (by omega),
      h.byteAt (by omega), h.slice (by omega), h.slice (by omega)]
    rfl
  rw [Ip.parseIpv4, Ip.parseIpv4, h.length, hheader, hflags, hoffset, hmore, hfragment, hmeta,
    h.u16At (by omega)]

theorem SameUpTo.parseIpv6 (hstop : ipv6Header ≤ stop)
    (hwalk : Walked packet packet.length maxExtensionHeaders
      ⟨Ip.byteAt packet 6, ipv6Header, 0, none⟩ last)
    (hlast : last.offset ≤ stop) (htotal : ipv6Header + Ip.u16At packet 4 = packet.length) :
    parseIpv6 packet' = Ip.parseIpv6 packet := by
  rw [ipv6Header] at hstop
  have hself : SameUpTo stop packet packet := ⟨rfl, fun _ _ => rfl⟩
  rw [Ip.parseIpv6, Ip.parseIpv6, h.length, h.u16At (by omega), h.byteAt (by omega),
    h.slice (by omega), h.slice (by omega)]
  simp only [htotal, h.walkExtensions hwalk hlast, hself.walkExtensions hwalk hlast]

end SameUpTo

end Walk

/-! ## Accepted packets -/

/-- The payload of a fragment begins at `start`. A datagram is counted without IPv4 options and
without the IPv6 base header. -/
structure FragmentAt (packet : List UInt8) (version : IpVersion) (fragment : FragmentInfo)
    (start : Nat) : Prop where
  inside : start ≤ packet.length
  header_v4 : version = .v4 → start = headerLen packet
  chain_v6 : version = .v6 → ∃ lens offset,
    Extensions packet (byteAt packet 6) ipv6Header lens 44 offset ∧ start = offset + 8
  whole_units : fragment.more = true →
    0 < packet.length - start ∧ (packet.length - start) % 8 = 0
  reassembled_v4 : version = .v4 →
    ipv4MinHeader + (fragment.offset * 8 + (packet.length - start)) ≤ u16Max
  reassembled_v6 : version = .v6 →
    (start - 8 - ipv6Header) + (fragment.offset * 8 + (packet.length - start)) ≤ u16Max
  unread : fragment.offset ≠ 0 → ∀ packet', SameUpTo start packet packet' →
    parseIpPacket packet' = parseIpPacket packet

structure Accepted (packet : List UInt8) (info : IpPacketMeta) : Prop where
  length : info.packetLen = packet.length
  header_v4 : info.version = .v4 → ∀ offset, info.l4Offset = some offset →
    offset = headerLen packet ∧ ipv4MinHeader ≤ offset ∧ offset ≤ packet.length
  chain_v6 : info.version = .v6 → ∀ offset, info.l4Offset = some offset → ∃ lens,
    Extensions packet (byteAt packet 6) ipv6Header lens info.protocol offset ∧
      extensionSize packet info.protocol offset = none ∧ lens.length ≤ maxExtensionHeaders ∧
      lens.sum ≤ maxExtensionBytes ∧ ipv6Header ≤ offset ∧ offset ≤ packet.length
  absent : info.l4Offset = none ↔ ∃ fragment, info.fragment = some fragment ∧ fragment.offset ≠ 0
  portless : info.l4Offset = none → info.ports packet = none
  fragments : ∀ fragment, info.fragment = some fragment →
    ∃ start, FragmentAt packet info.version fragment start

section Acceptance

variable {packet packet' : List UInt8} {info info' : IpPacketMeta}

theorem IpPacketMeta.ports_none (h : info.l4Offset = none) : info.ports packet = none := by
  rw [IpPacketMeta.ports, h]
  split
  · rfl
  · rfl

theorem parseIpv4_spec (h : parseIpv4 packet = .ok info) :
    info = ipv4Meta packet ∧ ipv4MinHeader ≤ headerLen packet ∧
      headerLen packet ≤ packet.length ∧ u16At packet 2 = packet.length ∧
      (isFragment packet = true → 0 < packet.length - headerLen packet ∧
        ipv4MinHeader + (fragmentOffset packet * 8 + (packet.length - headerLen packet)) ≤ u16Max) ∧
      (moreFragments packet = true → (packet.length - headerLen packet) % 8 = 0) := by
  simp only [parseIpv4] at h
  split at h
  · cases h
  split at h
  · cases h
  split at h
  · cases h
  rename_i hheader htotal
  split at h
  · cases h
  rename_i hvalid
  simp only [not_or, not_and, not_not, Nat.not_lt] at hheader htotal hvalid
  rw [htotal.2] at hvalid
  obtain ⟨-, -, hpositive, hlimit, hunits⟩ := hvalid
  refine ⟨(Except.ok.inj h).symm, hheader.1, hheader.2, htotal.2, fun hfragment => ⟨?_, ?_⟩, hunits⟩
  · exact Nat.pos_of_ne_zero (hpositive hfragment)
  · have := hlimit hfragment
    rw [u16Max, ipv4MinHeader] at *
    omega

theorem parseIpPacket_eq {first : UInt8} (h : packet[0]? = some first) :
    parseIpPacket packet =
      if first >>> 4 = 4 then parseIpv4 packet
      else if first >>> 4 = 6 then parseIpv6 packet
      else .error (.unsupportedVersion (first >>> 4)) := by
  obtain _ | ⟨head, rest⟩ := packet
  · cases h
  · cases h
    rfl

theorem parseIpPacket_cases (h : parseIpPacket packet = .ok info) :
    ∃ first : UInt8, packet[0]? = some first ∧
      ((first >>> 4 = 4 ∧ parseIpv4 packet = .ok info) ∨
        (first >>> 4 = 6 ∧ parseIpv6 packet = .ok info)) := by
  obtain _ | ⟨first, rest⟩ := packet
  · cases h
  refine ⟨first, rfl, ?_⟩
  rw [parseIpPacket] at h
  split at h
  · exact .inl ⟨‹_›, h⟩
  split at h
  · exact .inr ⟨‹_›, h⟩
  · cases h

theorem accepted_v4 {first : UInt8} (hfirst : packet[0]? = some first) (h4 : first >>> 4 = 4)
    (h : parseIpv4 packet = .ok info) : Accepted packet info := by
  obtain ⟨rfl, hmin, hlen, htotal, hfragment, hunits⟩ := parseIpv4_spec h
  refine
    { length := htotal
      header_v4 := fun _ offset h => ?_
      chain_v6 := fun h => IpVersion.noConfusion h
      absent := ?_
      portless := IpPacketMeta.ports_none
      fragments := fun fragment h => ?_ }
  · obtain ⟨-, h⟩ := Option.ite_none_right_eq_some.mp h
    cases h
    exact ⟨rfl, hmin, hlen⟩
  · simp only [ipv4Meta]
    cases hfrag : isFragment packet with
    | false | true => simp
  · obtain ⟨hfrag, h⟩ := Option.ite_none_right_eq_some.mp h
    cases h
    refine
      ⟨headerLen packet,
        { inside := hlen
          header_v4 := fun _ => rfl
          chain_v6 := fun h => IpVersion.noConfusion h
          whole_units := fun hmore => ⟨(hfragment hfrag).1, hunits hmore⟩
          reassembled_v4 := fun _ => (hfragment hfrag).2
          reassembled_v6 := fun h => IpVersion.noConfusion h
          unread := fun _ packet' hsame => ?_ }⟩
    rw [parseIpPacket_eq hfirst, if_pos h4, ← hsame.parseIpv4 hmin,
      parseIpPacket_eq ((hsame.bytes 0 (Nat.lt_of_lt_of_le (by decide) hmin)).trans hfirst),
      if_pos h4]

/-- An accepted IPv6 packet is what a walk over its extension headers has found. -/
theorem parseIpv6_spec (h : parseIpv6 packet = .ok info) :
    ipv6Header ≤ packet.length ∧ ipv6Header + u16At packet 4 = packet.length ∧ ∃ chain,
      Walked packet packet.length maxExtensionHeaders ⟨byteAt packet 6, ipv6Header, 0, none⟩ chain ∧
      info =
        { version := .v6
          source := .v6 ((packet.drop 8).take 16)
          destination := .v6 ((packet.drop 24).take 16)
          protocol := chain.next
          l4Offset := if chain.fragment.all (·.offset == 0) then some chain.offset else none
          fragment := chain.fragment
          packetLen := packet.length } := by
  simp only [parseIpv6] at h
  split at h
  · cases h
  rename_i hshort
  split at h
  · cases h
  split at h
  · cases h
  rename_i htotal
  rw [not_not] at htotal
  rw [htotal] at h
  split at h
  · cases h
  rename_i chain hwalk
  exact ⟨Nat.not_lt.mp hshort, htotal, chain, walked_of_walkExtensions hwalk,
    (Except.ok.inj h).symm⟩

theorem accepted_v6 {first : UInt8} (hfirst : packet[0]? = some first) (h6 : first >>> 4 = 6)
    (h : parseIpv6 packet = .ok info) : Accepted packet info := by
  obtain ⟨hlen, htotal, chain, hwalk, rfl⟩ := parseIpv6_spec h
  obtain ⟨lens, hchain, hcount, hsum, hlimit, hinside⟩ := hwalk.extensions
  refine
    { length := rfl
      header_v4 := fun h => IpVersion.noConfusion h
      chain_v6 := fun _ offset h => ?_
      absent := ?_
      portless := IpPacketMeta.ports_none
      fragments := fun fragment h => ?_ }
  · obtain ⟨hwhole, h⟩ := Option.ite_none_right_eq_some.mp h
    cases h
    refine ⟨lens, hchain, ?_, hcount, ?_, hwalk.offset_le, hinside hlen⟩
    · obtain hend | ⟨fragment, hfragment, hoffset⟩ := hwalk.ends
      · exact hend
      · rw [hfragment, Option.all_some, beq_iff_eq] at hwhole
        exact absurd hwhole hoffset
    · have := hlimit (Nat.zero_le _)
      rw [hsum] at this
      omega
  · show (if chain.fragment.all (·.offset == 0) then some chain.offset else none) = none ↔ _
    cases chain.fragment with
    | none | some fragment => simp
  · obtain hnone | ⟨-, found, lens, start, hfound, hbefore, hfits, hheader, hlast⟩ :=
      hwalk.fragmented
    · exact absurd (hnone.symm.trans h) (by simp)
    cases hfound.symm.trans h
    obtain ⟨-, hunits, hreassembled⟩ := fragmentHeader_spec hheader
    refine
      ⟨start + 8,
        { inside := hfits
          header_v4 := fun h => IpVersion.noConfusion h
          chain_v6 := fun _ => ⟨lens, start, hbefore, rfl⟩
          whole_units := hunits
          reassembled_v4 := fun h => IpVersion.noConfusion h
          reassembled_v6 := fun _ => hreassembled
          unread := fun hoffset packet' hsame => ?_ }⟩
    have hstop : ipv6Header ≤ start + 8 := hlast hoffset ▸ hwalk.offset_le
    have h4 : ¬first >>> 4 = 4 := fun h4 => absurd (h4.symm.trans h6) (by decide)
    rw [parseIpPacket_eq hfirst, if_neg h4, if_pos h6,
      ← hsame.parseIpv6 hstop hwalk (hlast hoffset).le htotal,
      parseIpPacket_eq ((hsame.bytes 0 (Nat.lt_of_lt_of_le (by decide) hstop)).trans hfirst),
      if_neg h4, if_pos h6]

theorem accepted_of_parse (h : parseIpPacket packet = .ok info) : Accepted packet info := by
  obtain ⟨first, hfirst, ⟨h4, h⟩ | ⟨h6, h⟩⟩ := parseIpPacket_cases h
  · exact accepted_v4 hfirst h4 h
  · exact accepted_v6 hfirst h6 h

/-! ## Flows of fragments -/

/-- The family of an address is the version of its packet. -/
def IpAddr.version : IpAddr → IpVersion
  | .v4 _ => .v4
  | .v6 _ => .v6

theorem version_of_parse (h : parseIpPacket packet = .ok info) :
    info.version = info.source.version := by
  obtain ⟨-, -, ⟨-, h⟩ | ⟨-, h⟩⟩ := parseIpPacket_cases h
  · obtain ⟨rfl, -⟩ := parseIpv4_spec h
    rfl
  · obtain ⟨-, -, chain, -, rfl⟩ := parseIpv6_spec h
    rfl

theorem flowKey_fragment {fragment : FragmentInfo} (h : parseIpPacket packet = .ok info)
    (hfragment : info.fragment = some fragment) (hproper : fragment.isFragmented = true) :
    flowKey packet = .fragment info.source.version info.source info.destination fragment.protocol
      fragment.id := by
  rw [flowKey, h]
  simp only [hfragment, Option.filter_some, hproper, if_true, version_of_parse h]

end Acceptance

/-! ## The parser -/

/-- What the parser promises of every packet. -/
structure ParserSafety (packet : List UInt8) : Prop where
  returns : parseIpPacketChecked packet = some (parseIpPacket packet)
  accepted : ∀ info, parseIpPacket packet = .ok info → Accepted packet info
  one_flow : ∀ info fragment, parseIpPacket packet = .ok info → info.fragment = some fragment →
    fragment.isFragmented = true → ∀ packet' info' fragment', parseIpPacket packet' = .ok info' →
    info'.fragment = some fragment' → fragment'.isFragmented = true →
    info'.source = info.source → info'.destination = info.destination →
    fragment'.id = fragment.id → fragment'.protocol = fragment.protocol →
    ∀ hasher, flowHash hasher packet' = flowHash hasher packet

/-- An IPv6 packet whose Fragment header says `wire`, with these bytes behind it. -/
def fragmentPacket (wire : List UInt8) (payload : List UInt8) : List UInt8 :=
  [0x60, 0, 0, 0, 0, 8 + payload.length.toUInt8, 44, 64] ++ List.replicate 32 1 ++
    [17, 0] ++ wire ++ [0, 0, 0, 1] ++ payload

end Qeli.Ip
