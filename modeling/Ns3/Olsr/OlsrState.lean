/-
  What an OLSR node knows of its surroundings
  (src/olsr/model/olsr-repositories.h, olsr-state.h, olsr-state.cc), and what a MID message
  changes of it (RoutingProtocol::ProcessMid, src/olsr/model/olsr-routing-protocol.cc).
-/
import Mathlib.Data.Finset.Insert
import Ns3.Core.Fault
import Ns3.Lib.Keyed
import Ns3.Network.Ipv4Address

namespace Ns3

namespace Olsr

/-- `Willingness`, a `uint8_t`. -/
abbrev Willingness : Type := Nat

def Willingness.NEVER : Willingness := 0

def Willingness.ALWAYS : Willingness := 7

inductive Status where
  | notSym
  | sym
  deriving DecidableEq, Repr

structure LinkTuple where
  localIfaceAddr : Ipv4Address
  neighborIfaceAddr : Ipv4Address
  symTime : Time
  asymTime : Time
  time : Time
  deriving DecidableEq, Repr

structure NeighborTuple where
  neighborMainAddr : Ipv4Address
  status : Status
  willingness : Willingness
  deriving DecidableEq, Repr

structure TwoHopNeighborTuple where
  neighborMainAddr : Ipv4Address
  twoHopNeighborAddr : Ipv4Address
  expirationTime : Time
  deriving DecidableEq, Repr

structure TopologyTuple where
  destAddr : Ipv4Address
  lastAddr : Ipv4Address
  sequenceNumber : Nat
  expirationTime : Time
  deriving DecidableEq, Repr

structure MprSelectorTuple where
  mainAddr : Ipv4Address
  expirationTime : Time
  deriving DecidableEq, Repr

structure DuplicateTuple where
  address : Ipv4Address
  sequenceNumber : Nat
  retransmitted : Bool
  ifaceList : List Ipv4Address
  expirationTime : Time
  deriving DecidableEq, Repr

structure IfaceAssocTuple where
  ifaceAddr : Ipv4Address
  mainAddr : Ipv4Address
  time : Time
  deriving DecidableEq, Repr

/-- `OlsrState`, and the main address of the node it belongs to. -/
structure OlsrState where
  mainAddress : Ipv4Address
  linkSet : List LinkTuple
  neighborSet : List NeighborTuple
  twoHopNeighborSet : List TwoHopNeighborTuple
  topologySet : List TopologyTuple
  mprSet : Finset Ipv4Address
  mprSelectorSet : List MprSelectorTuple
  duplicateSet : List DuplicateTuple
  ifaceAssocSet : List IfaceAssocTuple

namespace OlsrState

def findNeighborTuple (s : OlsrState) (mainAddr : Ipv4Address) : Option NeighborTuple :=
  s.neighborSet.find? fun it => it.neighborMainAddr = mainAddr

def findSymNeighborTuple (s : OlsrState) (mainAddr : Ipv4Address) : Option NeighborTuple :=
  s.neighborSet.find? fun it => it.neighborMainAddr = mainAddr ∧ it.status = .sym

/-- A tuple of the same main address is overwritten, otherwise the tuple comes last. -/
def insertNeighborTuple (s : OlsrState) (tuple : NeighborTuple) : OlsrState :=
  { s with neighborSet := Lib.Keyed.put NeighborTuple.neighborMainAddr tuple s.neighborSet }

def findSymLinkTuple (s : OlsrState) (ifaceAddr : Ipv4Address) (now : Time) : Option LinkTuple :=
  (s.linkSet.find? fun it => it.neighborIfaceAddr = ifaceAddr).filter fun it => it.symTime > now

def findMprSelectorTuple (s : OlsrState) (mainAddr : Ipv4Address) : Option MprSelectorTuple :=
  s.mprSelectorSet.find? fun it => it.mainAddr = mainAddr

def findDuplicateTuple (s : OlsrState) (addr : Ipv4Address) (sequenceNumber : Nat) :
    Option DuplicateTuple :=
  s.duplicateSet.find? fun it => it.address = addr ∧ it.sequenceNumber = sequenceNumber

def getMainAddress (s : OlsrState) (ifaceAddr : Ipv4Address) : Ipv4Address :=
  match s.ifaceAssocSet.find? fun it => it.ifaceAddr = ifaceAddr with
  | some tuple => tuple.mainAddr
  | none => ifaceAddr

end OlsrState

/-! ## Associations of interfaces -/

/-- A MID message, with the validity time that `GetVTime` returns. -/
structure MidMessage where
  originator : Ipv4Address
  vTime : Time
  interfaceAddresses : List Ipv4Address
  deriving DecidableEq, Repr

/-- Step 2 of `ProcessMid`, for one interface address. -/
def recordInterface (originator : Ipv4Address) (time : Time) (set : List IfaceAssocTuple)
    (addr : Ipv4Address) : List IfaceAssocTuple :=
  if set.any fun it => it.ifaceAddr = addr ∧ it.mainAddr = originator then
    set.map fun it =>
      if it.ifaceAddr = addr ∧ it.mainAddr = originator then { it with time } else it
  else set ++ [⟨addr, originator, time⟩]

/-- `RoutingProtocol::ProcessMid`. The neighbors are renamed in their places, so two tuples may have
one main address afterwards. -/
def OlsrState.processMid (s : OlsrState) (msg : MidMessage) (senderIface : Ipv4Address)
    (now : Time) : OlsrState :=
  match s.findSymLinkTuple senderIface now with
  | none => s
  | some _ =>
    let record := recordInterface msg.originator (now + msg.vTime)
    let s := { s with ifaceAssocSet := msg.interfaceAddresses.foldl record s.ifaceAssocSet }
    { s with
      neighborSet := s.neighborSet.map fun neighbor =>
        { neighbor with neighborMainAddr := s.getMainAddress neighbor.neighborMainAddr }
      twoHopNeighborSet := s.twoHopNeighborSet.map fun twoHopNeighbor =>
        { twoHopNeighbor with
          neighborMainAddr := s.getMainAddress twoHopNeighbor.neighborMainAddr
          twoHopNeighborAddr := s.getMainAddress twoHopNeighbor.twoHopNeighborAddr } }

end Olsr

end Ns3
