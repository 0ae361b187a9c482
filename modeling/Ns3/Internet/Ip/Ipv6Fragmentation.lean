/-
  The extension headers before a fragment header
  (src/internet/model/ipv6-extension-header.cc).

  GetFragments, Process and Fragments of Ipv6ExtensionFragment,
  src/internet/model/ipv6-extension.cc.

  A packet is the bytes after its IPv6 header.  The identification, which the source draws
  at random, is a parameter.
-/
import Ns3.Internet.Ip.FragmentList
import Ns3.Lib.Wrap
import Ns3.Network.BufferIterator

namespace Ns3.Ip

open Lib BufferIterator

def IPV6_EXT_HOP_BY_HOP : UInt8 := 0
def IPV6_EXT_ROUTING : UInt8 := 43
def IPV6_EXT_FRAGMENTATION : UInt8 := 44
def IPV6_EXT_DESTINATION : UInt8 := 60

/-- The classes of extension headers that come before a fragment header. -/
inductive ExtensionHeader where
  | hopByHop (nextHeader length : UInt8) (optionData : List UInt8)
  | destination (nextHeader length : UInt8) (optionData : List UInt8)
  | looseRouting (nextHeader length typeRouting segmentsLeft : UInt8)
      (routersAddress : List (List UInt8))
  deriving DecidableEq, Repr

namespace ExtensionHeader

def nextHeader : ExtensionHeader → UInt8
  | hopByHop nextHeader _ _ => nextHeader
  | destination nextHeader _ _ => nextHeader
  | looseRouting nextHeader _ _ _ _ => nextHeader

def setNextHeader (h : ExtensionHeader) (nextHeader : UInt8) : ExtensionHeader :=
  match h with
  | hopByHop _ length optionData => hopByHop nextHeader length optionData
  | destination _ length optionData => destination nextHeader length optionData
  | looseRouting _ length typeRouting segmentsLeft routersAddress =>
    looseRouting nextHeader length typeRouting segmentsLeft routersAddress

/-- `m_length`. -/
def lengthField : ExtensionHeader → UInt8
  | hopByHop _ length _ => length
  | destination _ length _ => length
  | looseRouting _ length _ _ _ => length

/-- `GetLength`. -/
def length (h : ExtensionHeader) : Nat := (h.lengthField.toNat + 1) * 8

/-- `CalculatePad` of `OptionField`, for an alignment to 8 bytes. -/
def calculatePad (optionData : List UInt8) : Nat := wsub 32 0 (optionData.length + 2) % 8

/-- `Serialize` of `OptionField`. -/
def serializeOptions (optionData : List UInt8) : List UInt8 :=
  optionData ++
    match calculatePad optionData with
    | 0 => []
    | 1 => [0]
    | fill + 2 => [1, UInt8.ofNat fill] ++ List.replicate fill 0

def serializedSize : ExtensionHeader → Nat
  | hopByHop _ _ optionData => 2 + (optionData.length + calculatePad optionData)
  | destination _ _ optionData => 2 + (optionData.length + calculatePad optionData)
  | looseRouting _ _ _ _ routersAddress => 8 + routersAddress.length * 16

def serialize (h : ExtensionHeader) : List UInt8 :=
  match h with
  | hopByHop nextHeader _ optionData =>
    [nextHeader, UInt8.ofNat (h.serializedSize / 8 - 1)] ++ serializeOptions optionData
  | destination nextHeader _ optionData =>
    [nextHeader, UInt8.ofNat (h.serializedSize / 8 - 1)] ++ serializeOptions optionData
  | looseRouting nextHeader _ typeRouting segmentsLeft routersAddress =>
    [nextHeader, UInt8.ofNat (routersAddress.length * 2), typeRouting, segmentsLeft, 0, 0, 0, 0] ++
      routersAddress.flatten

/-- The options that `Deserialize` of the first two classes reads. -/
def readOptions (start : List UInt8) : Except Fault (UInt8 × UInt8 × List UInt8) := do
  let (nextHeader, i) ← readU8 start
  let (length, i) ← readU8 i
  let (optionData, _) ← read i ((length.toNat + 1) * 8 - 2)
  pure (nextHeader, length, optionData)

/-- The loop of `Ipv6ExtensionLooseRoutingHeader::Deserialize`. -/
def readAddresses : Nat → List UInt8 → Except Fault (List (List UInt8))
  | 0, _ => .ok []
  | addressNum + 1, i => do
      let (buff, i) ← read i 16
      let routersAddress ← readAddresses addressNum i
      pure (buff :: routersAddress)

def deserializeHopByHop (start : List UInt8) : Except Fault ExtensionHeader := do
  let (nextHeader, length, optionData) ← readOptions start
  pure (hopByHop nextHeader length optionData)

def deserializeDestination (start : List UInt8) : Except Fault ExtensionHeader := do
  let (nextHeader, length, optionData) ← readOptions start
  pure (destination nextHeader length optionData)

def deserializeLooseRouting (start : List UInt8) : Except Fault ExtensionHeader := do
  let (nextHeader, i) ← readU8 start
  let (length, i) ← readU8 i
  let (typeRouting, i) ← readU8 i
  let (segmentsLeft, i) ← readU8 i
  let (_, i) ← readNtohU32 i
  let routersAddress ← readAddresses (length.toNat / 2) i
  pure (looseRouting nextHeader length typeRouting segmentsLeft routersAddress)

theorem serialize_cons (h : ExtensionHeader) : ∃ tail, h.serialize = h.nextHeader :: tail := by
  cases h with
  | hopByHop nextHeader length optionData => exact ⟨_, rfl⟩
  | destination nextHeader length optionData => exact ⟨_, rfl⟩
  | looseRouting nextHeader length typeRouting segmentsLeft routersAddress => exact ⟨_, rfl⟩

@[simp] theorem nextHeader_setNextHeader (h : ExtensionHeader) (nextHeader : UInt8) :
    (h.setNextHeader nextHeader).nextHeader = nextHeader := by
  cases h with
  | hopByHop _ length optionData => rfl
  | destination _ length optionData => rfl
  | looseRouting _ length typeRouting segmentsLeft routersAddress => rfl

end ExtensionHeader

/-! ## Fragments of IPv6 packets -/

namespace V6

/-! ## The fragment header -/

/-- `Ipv6ExtensionFragmentHeader`: the offset holds the more-fragments bit. -/
structure FragmentHeader where
  nextHeader : UInt8 := 0
  offset : Nat := 0
  identification : UInt32 := 0
  deriving DecidableEq, Repr

namespace FragmentHeader

def setOffset (h : FragmentHeader) (offset : Nat) : FragmentHeader :=
  { h with offset := h.offset % 2 + offset / 8 * 8 }

def getOffset (h : FragmentHeader) : Nat := h.offset / 2 * 2

def setMoreFragment (h : FragmentHeader) (moreFragment : Bool) : FragmentHeader :=
  { h with offset := h.offset / 2 * 2 + moreFragment.toNat }

def getMoreFragment (h : FragmentHeader) : Bool := decide (h.offset % 2 = 1)

def serialize (h : FragmentHeader) : List UInt8 :=
  [h.nextHeader, 0] ++ writeHtonU16 (UInt16.ofNat h.offset) ++ writeHtonU32 h.identification

def removeFrom (p : Packet) : Except Fault (FragmentHeader × Packet) := do
  let (nextHeader, i) ← readU8 p
  let (_, i) ← readU8 i
  let (offset, i) ← readNtohU16 i
  let (identification, _) ← readNtohU32 i
  pure ({ nextHeader, offset := offset.toNat, identification },
    p.removeAtStart 8)

end FragmentHeader

/-! ## GetFragments -/

def moreHeader (nextHeader : UInt8) (p : Packet) : Bool :=
  nextHeader == IPV6_EXT_HOP_BY_HOP || nextHeader == IPV6_EXT_ROUTING ||
    (nextHeader == IPV6_EXT_DESTINATION && p.headD 0 == IPV6_EXT_ROUTING)

def readHeader (nextHeader : UInt8) (p : Packet) : Except Fault ExtensionHeader :=
  if nextHeader = IPV6_EXT_HOP_BY_HOP then ExtensionHeader.deserializeHopByHop p
  else if nextHeader = IPV6_EXT_ROUTING then
    -- only the type of the loose routing header is registered
    if p.getD 2 0 = 0 then ExtensionHeader.deserializeLooseRouting p else .error .nullDereference
  else ExtensionHeader.deserializeDestination p

/-- A packet, cut where its fragmentable part begins. -/
structure Parts where
  headers : List ExtensionHeader
  /-- `unfragmentablePartSize`, of lengths that are kept in a `uint8_t` -/
  size : Nat
  nextHeader : UInt8
  p : Packet
  deriving DecidableEq, Repr

def headerLoop : Nat → UInt8 → Packet → Except Fault Parts
  | 0, _, _ => .error .noProgress
  | fuel + 1, nextHeader, p => do
      let header ← readHeader nextHeader p
      let p := p.removeAtStart header.serializedSize
      if moreHeader header.nextHeader p then do
        let parts ← headerLoop fuel header.nextHeader p
        pure { parts with
          headers := header :: parts.headers
          size := header.length % 2 ^ 8 + parts.size }
      else
        pure { headers := [header.setNextHeader IPV6_EXT_FRAGMENTATION]
               size := header.length % 2 ^ 8
               nextHeader := header.nextHeader
               p }

def partsOf (fuel : Nat) (nextHeader : UInt8) (packet : Packet) : Except Fault Parts :=
  if moreHeader nextHeader packet then headerLoop fuel nextHeader packet
  else .ok { headers := [], size := 0, nextHeader, p := packet }

def addHeaders (fragment : Packet) (headers : List ExtensionHeader) : Packet :=
  headers.foldl (fun fragment header => header.serialize ++ fragment) fragment

def fragmentLoop (parts : Parts) (maxFragmentablePartSize : Nat) (identification : UInt32) :
    Nat → Nat → Except Fault (List Packet)
  | 0, _ => .error .noProgress
  | fuel + 1, offset => do
      let moreFragment := decide ((offset + maxFragmentablePartSize) % 2 ^ 32 < parts.p.length)
      let currentFragmentablePartSize :=
        if moreFragment then maxFragmentablePartSize - maxFragmentablePartSize % 8
        else wsub 32 parts.p.length offset
      let fragmentHeader : FragmentHeader :=
        { nextHeader := parts.nextHeader, identification }
      let fragmentHeader := (fragmentHeader.setOffset offset).setMoreFragment moreFragment
      -- the assertion of `Packet::CreateFragment`
      nsAssert (decide (offset + currentFragmentablePartSize ≤ parts.p.length))
      let fragment := parts.p.createFragment offset currentFragmentablePartSize
      let fragment := addHeaders (fragmentHeader.serialize ++ fragment) parts.headers
      if moreFragment then do
        let rest ← fragmentLoop parts maxFragmentablePartSize identification fuel
          ((offset + currentFragmentablePartSize) % 2 ^ 16)
        pure (fragment :: rest)
      else pure [fragment]

/-- `maxFragmentablePartSize`: what an IPv6 header of 40 bytes, the extension headers and the
fragment header leave. -/
def maxFragmentablePartSize (maxFragmentSize : UInt32) (parts : Parts) : Nat :=
  wsub 32 (wsub 32 (wsub 32 maxFragmentSize.toNat 40) parts.size) 8

def getFragments (fuel : Nat) (nextHeader : UInt8) (packet : Packet) (maxFragmentSize : UInt32)
    (identification : UInt32) : Except Fault (List Packet) := do
  let parts ← partsOf fuel nextHeader packet
  fragmentLoop parts (maxFragmentablePartSize maxFragmentSize parts) identification fuel 0

/-! ## Fragments -/

structure Fragments extends FragmentList where
  unfragmentable : Option Packet := none
  deriving DecidableEq, Repr

/-- The loop of `IsEntire`. -/
def contiguous : Nat → List (Packet × Nat) → Bool
  | _, [] => true
  | lastEndOffset, it :: rest =>
    if lastEndOffset ≠ it.2 then false
    else contiguous ((lastEndOffset + it.1.length) % 2 ^ 16) rest

def isEntire (s : FragmentList) : Bool :=
  !s.moreFragment && !s.fragments.isEmpty && contiguous 0 s.fragments

def getPacket (s : Fragments) : Except Fault Packet :=
  match s.unfragmentable with
  | none => .error .nullDereference
  | some unfragmentable =>
    .ok (s.fragments.foldl (fun p it => p.addAtEnd it.1) unfragmentable)

/-! ## Process -/

/-- What `Process` does with the fragments of a key: `SetUnfragmentablePart` for the fragment of
offset 0, and `AddFragment`. -/
def Fragments.receive (s : Fragments) (unfragmentablePart : Packet) (f : Fragment) : Fragments where
  toFragmentList := s.toFragmentList.addFragment f
  unfragmentable := if f.fragmentOffset = 0 then some unfragmentablePart else s.unfragmentable

/-- `FragmentKey_t`: the source address and the identification. -/
abbrev FragmentKey : Type := Vector UInt8 16 × UInt32

/-- `m_fragments`. -/
abbrev FragmentsMap : Type := FragmentKey → Option Fragments

/-- `Process` of a packet from `source` whose fragment header is at `offset`: the map after it,
and the packet when it is entire. -/
def process (m : FragmentsMap) (source : Vector UInt8 16) (packet : Packet) (offset : UInt8) :
    Except Fault (FragmentsMap × Option Packet) := do
  let p := packet.removeAtStart offset.toNat
  let (fragmentHeader, p) ← FragmentHeader.removeFrom p
  let moreFragment := fragmentHeader.getMoreFragment
  let fragmentOffset := fragmentHeader.getOffset
  let fragmentKey := (source, fragmentHeader.identification)
  let fragments := ((m fragmentKey).getD {}).receive (packet.take offset.toNat)
    { data := p, fragmentOffset, moreFragment }
  if isEntire fragments.toFragmentList then do
    let packet ← getPacket fragments
    pure (Function.update m fragmentKey none, some packet)
  else pure (Function.update m fragmentKey (some fragments), none)

/-- Packets arrive one after the other: the map after them, and what `Process` gives for each. -/
def processAll (source : Vector UInt8 16) (offset : UInt8) (m : FragmentsMap) :
    List Packet → Except Fault (FragmentsMap × List (Option Packet))
  | [] => .ok (m, [])
  | packet :: arrivals => do
      let (m, report) ← process m source packet offset
      let (m, reports) ← processAll source offset m arrivals
      pure (m, report :: reports)

end V6

end Ns3.Ip
