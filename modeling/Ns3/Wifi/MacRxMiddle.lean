/-
  Duplicate filtering and defragmentation of received MPDUs
  (OriginatorRxStatus and MacRxMiddle, src/wifi/model/mac-rx-middle.cc).

  A receiver keeps one status for each originator, and one for each originator and TID
  of QoS data.  An MSDU cut into fragments is put together again in its status.
-/
import Ns3.Network.Packet
import Ns3.Wifi.CtrlBAckResponseHeader

namespace Ns3

def Mac48Address.isGroup (address : Mac48Address) : Bool :=
  address.val.head? |>.elim false fun byte => byte &&& 0x01 == 0x01

/-- `m_ctrlType`. -/
inductive FrameType where
  | mgt
  | ctl
  | data
  deriving DecidableEq, Repr

/-- The fields of `WifiMacHeader` that are read here. -/
structure WifiMacHeader where
  ctrlType : FrameType
  ctrlSubtype : Nat
  ctrlMoreFrag : Bool
  ctrlRetry : Bool
  addr1 : Mac48Address
  addr2 : Mac48Address
  seqFrag : Nat
  seqSeq : Nat
  qosTid : Nat
  deriving DecidableEq

namespace WifiMacHeader

def isData (hdr : WifiMacHeader) : Bool := hdr.ctrlType = .data

def isMgt (hdr : WifiMacHeader) : Bool := hdr.ctrlType = .mgt

def isQosData (hdr : WifiMacHeader) : Bool := hdr.isData && hdr.ctrlSubtype &&& 0x08 != 0

def getSequenceControl (hdr : WifiMacHeader) : Nat :=
  ((hdr.seqSeq <<< 4) ||| hdr.seqFrag) % 2 ^ 16

end WifiMacHeader

/-- A received MPDU: its original header and its packet. -/
structure RxMpdu where
  hdr : WifiMacHeader
  packet : Packet
  deriving DecidableEq

/-- What is kept for one originator and traffic identifier. -/
structure OriginatorRxStatus where
  defragmenting : Bool
  lastSequenceControl : Nat
  fragments : List Packet
  deriving DecidableEq

namespace OriginatorRxStatus

def initial : OriginatorRxStatus :=
  { defragmenting := false, lastSequenceControl := 0xffff, fragments := [] }

def accumulateFirstFragment (s : OriginatorRxStatus) (packet : Packet) :
    Except Fault OriginatorRxStatus := do
  nsAssert (!s.defragmenting)
  .ok { s with defragmenting := true, fragments := s.fragments ++ [packet] }

def accumulateLastFragment (s : OriginatorRxStatus) (packet : Packet) :
    Except Fault (OriginatorRxStatus × Packet) := do
  nsAssert s.defragmenting
  let full := (s.fragments ++ [packet]).foldl Packet.addAtEnd []
  .ok ({ s with defragmenting := false, fragments := [] }, full)

def accumulateFragment (s : OriginatorRxStatus) (packet : Packet) :
    Except Fault OriginatorRxStatus := do
  nsAssert s.defragmenting
  .ok { s with fragments := s.fragments ++ [packet] }

/-- The same sequence number, and the fragment number after the last. -/
def isNextFragment (s : OriginatorRxStatus) (sequenceControl : Nat) : Bool :=
  sequenceControl >>> 4 = s.lastSequenceControl >>> 4 ∧
    sequenceControl &&& 0x0f = (s.lastSequenceControl &&& 0x0f) + 1

def setSequenceControl (s : OriginatorRxStatus) (sequenceControl : Nat) : OriginatorRxStatus :=
  { s with lastSequenceControl := sequenceControl }

/-- `IsDuplicate`: the last frame once more, with the retry bit. -/
def isDuplicate (originator : OriginatorRxStatus) (hdr : WifiMacHeader) : Bool :=
  hdr.ctrlRetry && originator.lastSequenceControl == hdr.getSequenceControl

/-- `HandleFragments`: fragments are collected, out of order they are dropped. -/
def handleFragments (originator : OriginatorRxStatus) (packet : Packet) (hdr : WifiMacHeader) :
    Except Fault (OriginatorRxStatus × Option Packet) := do
  if originator.defragmenting then
    if hdr.ctrlMoreFrag then
      if originator.isNextFragment hdr.getSequenceControl then
        let originator ← originator.accumulateFragment packet
        .ok (originator.setSequenceControl hdr.getSequenceControl, none)
      else
        .ok (originator, none)
    else
      if originator.isNextFragment hdr.getSequenceControl then
        let (originator, p) ← originator.accumulateLastFragment packet
        .ok (originator.setSequenceControl hdr.getSequenceControl, some p)
      else
        .ok (originator, none)
  else
    if hdr.ctrlMoreFrag then
      let originator ← originator.accumulateFirstFragment packet
      .ok (originator.setSequenceControl hdr.getSequenceControl, none)
    else
      .ok (originator, some packet)

/-- `MacRxMiddle::Receive`, on the status it looks up: what is forwarded, if anything. -/
def receive (originator : OriginatorRxStatus) (mpdu : RxMpdu) :
    Except Fault (OriginatorRxStatus × Option RxMpdu) := do
  if originator.isDuplicate mpdu.hdr then
    .ok (originator, none)
  else
    let (originator, aggregate) ← originator.handleFragments mpdu.packet mpdu.hdr
    match aggregate with
    | none => .ok (originator, none)
    | some aggregate =>
      let originator :=
        if mpdu.hdr.addr1.isGroup then originator
        else originator.setSequenceControl mpdu.hdr.getSequenceControl
      .ok (originator, some { mpdu with packet := aggregate })

end OriginatorRxStatus

/-- A key of `m_qosOriginatorStatus` or of `m_originatorStatus`. -/
inductive OriginatorKey where
  | qos (source : Mac48Address) (tid : Nat)
  | other (source : Mac48Address)
  deriving DecidableEq

/-- The key under which `Lookup` finds the status. -/
def WifiMacHeader.originatorKey (hdr : WifiMacHeader) : OriginatorKey :=
  if hdr.isQosData && !hdr.addr2.isGroup then .qos hdr.addr2 hdr.qosTid else .other hdr.addr2

/-- `MacRxMiddle`: a key without an entry stands for a new status, which `Lookup` makes. -/
structure MacRxMiddle where
  originatorStatus : OriginatorKey → OriginatorRxStatus

namespace MacRxMiddle

def initial : MacRxMiddle := ⟨fun _ => .initial⟩

/-- `Receive`, with what the callback is given, if it is called. -/
def receive (m : MacRxMiddle) (mpdu : RxMpdu) : Except Fault (MacRxMiddle × Option RxMpdu) := do
  nsAssert (mpdu.hdr.isData || mpdu.hdr.isMgt)
  let key := mpdu.hdr.originatorKey
  let (originator, forwarded) ← (m.originatorStatus key).receive mpdu
  .ok (⟨Function.update m.originatorStatus key originator⟩, forwarded)

def receiveAll (m : MacRxMiddle) : List RxMpdu → Except Fault (MacRxMiddle × List RxMpdu)
  | [] => .ok (m, [])
  | mpdu :: rest => do
      let (m, forwarded) ← m.receive mpdu
      let (m, later) ← m.receiveAll rest
      .ok (m, forwarded.toList ++ later)

end MacRxMiddle

def OriginatorRxStatus.receiveAll (s : OriginatorRxStatus) :
    List RxMpdu → Except Fault (OriginatorRxStatus × List RxMpdu)
  | [] => .ok (s, [])
  | mpdu :: rest => do
      let (s, forwarded) ← s.receive mpdu
      let (s, later) ← s.receiveAll rest
      .ok (s, forwarded.toList ++ later)

end Ns3
