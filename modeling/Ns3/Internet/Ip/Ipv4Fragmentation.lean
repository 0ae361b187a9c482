/-
  Fragments of IPv4 datagrams
  (DoFragmentation, ProcessFragment and Fragments,
  src/internet/model/ipv4-l3-protocol.cc).

  A datagram is its header and its payload.  Headers without options are modelled, as
  DoFragmentation asserts.
-/
import Ns3.Core.Fault
import Ns3.Internet.Ip.FragmentList
import Ns3.Lib.Wrap

namespace Ns3.Ip

open Lib

/-- The fields of `Ipv4Header` that fragmentation uses. -/
structure Ipv4Header where
  source : UInt32
  destination : UInt32
  identification : UInt16
  protocol : UInt8
  headerSize : Nat := 20
  fragmentOffset : Nat := 0
  moreFragments : Bool := false
  payloadSize : Nat := 0
  deriving DecidableEq, Repr

namespace Ipv4Header

def isLastFragment (h : Ipv4Header) : Bool := !h.moreFragments

def setFragmentOffset (h : Ipv4Header) (offsetBytes : Nat) : Except Fault Ipv4Header :=
  if offsetBytes % 8 ≠ 0 then .error .aborted else .ok { h with fragmentOffset := offsetBytes }

end Ipv4Header

/-- `Ipv4PayloadHeaderPair`. -/
structure Ipv4Datagram where
  payload : Packet
  header : Ipv4Header
  deriving DecidableEq, Repr

/-! ## DoFragmentation -/

def fragmentLoop (p : Packet) (ipv4Header : Ipv4Header) (fragmentSize : Nat) :
    Nat → Nat → Except Fault (List Ipv4Datagram)
  | 0, _ => .error .noProgress
  | fuel + 1, offset => do
      let moreFragment := decide ((offset + fragmentSize) % 2 ^ 32 < p.length)
      let currentFragmentablePartSize :=
        if moreFragment then fragmentSize else wsub 32 p.length offset
      -- the assertion of `Packet::CreateFragment`
      nsAssert (decide (offset + currentFragmentablePartSize ≤ p.length))
      let fragment := p.createFragment offset currentFragmentablePartSize
      let fragmentHeader ←
        { ipv4Header with moreFragments := moreFragment || !ipv4Header.isLastFragment
          }.setFragmentOffset ((offset + ipv4Header.fragmentOffset) % 2 ^ 16)
      let fragmentHeader :=
        { fragmentHeader with payloadSize := currentFragmentablePartSize % 2 ^ 16 }
      if moreFragment then do
        let rest ← fragmentLoop p ipv4Header fragmentSize fuel
          ((offset + currentFragmentablePartSize) % 2 ^ 16)
        pure (⟨fragment, fragmentHeader⟩ :: rest)
      else pure [⟨fragment, fragmentHeader⟩]

def doFragmentation (fuel : Nat) (d : Ipv4Datagram) (outIfaceMtu : UInt32) :
    Except Fault (List Ipv4Datagram) := do
  nsAssert (decide (d.header.headerSize = 5 * 4))
  let fragmentSize := wsub 32 outIfaceMtu.toNat d.header.headerSize / 8 * 8
  fragmentLoop d.payload d.header fragmentSize fuel 0

/-! ## Fragments -/

/-- The loop of `IsEntire`. -/
def contiguous : Nat → List (Packet × Nat) → Bool
  | _, [] => true
  | lastEndOffset, it :: rest =>
    if lastEndOffset < it.2 then false
    else contiguous (max lastEndOffset ((it.1.length + it.2) % 2 ^ 16)) rest

def isEntire (s : FragmentList) : Bool :=
  !s.moreFragment && !s.fragments.isEmpty && contiguous 0 s.fragments

/-- The loop of `GetPacket`: the payload so far, continued. -/
def joinFragments (p : Packet) (lastEndOffset : Nat) : List (Packet × Nat) → Packet
  | [] => p
  | it :: rest =>
    let p :=
      if lastEndOffset > it.2 then
        -- the fragments overlap, and what is there already stays
        let newStart := lastEndOffset - it.2
        if it.1.length > newStart then
          p.addAtEnd (it.1.createFragment newStart (it.1.length - newStart))
        else p
      else p.addAtEnd it.1
    joinFragments p (p.length % 2 ^ 16) rest

def getPacket (s : FragmentList) : Except Fault Packet :=
  match s.fragments with
  | [] => .error .badIterator
  | it :: rest => .ok (joinFragments it.1 (it.1.length % 2 ^ 16) rest)

/-! ## ProcessFragment -/

/-- `FragmentKey_t`: the addresses, the identification and the protocol. -/
abbrev FragmentKey : Type := UInt32 × UInt32 × UInt16 × UInt8

def Ipv4Header.key (h : Ipv4Header) : FragmentKey :=
  (h.source, h.destination, h.identification, h.protocol)

/-- `m_fragments`. -/
abbrev FragmentsMap : Type := FragmentKey → Option FragmentList

/-- A fragment as `ProcessFragment` hands it to `AddFragment`. -/
def Ipv4Datagram.fragment (d : Ipv4Datagram) : Fragment :=
  { data := d.payload
    fragmentOffset := d.header.fragmentOffset
    moreFragment := !d.header.isLastFragment }

def processFragment (m : FragmentsMap) (d : Ipv4Datagram) :
    Except Fault (FragmentsMap × Option Packet) := do
  let key := d.header.key
  let fragments := ((m key).getD {}).addFragment d.fragment
  if isEntire fragments then do
    let packet ← getPacket fragments
    pure (Function.update m key none, some packet)
  else pure (Function.update m key (some fragments), none)

def processAll (m : FragmentsMap) : List Ipv4Datagram → Except Fault (List (Option Packet))
  | [] => .ok []
  | d :: arrivals => do
      let (m, report) ← processFragment m d
      let reports ← processAll m arrivals
      pure (report :: reports)

end Ns3.Ip
