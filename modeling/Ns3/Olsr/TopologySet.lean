/-
  The topology set of a node, and the TC messages of an originator
  (RoutingProtocol::ProcessTc and its neighbors, src/olsr/model/olsr-routing-protocol.cc; the
  topology set of olsr-state.cc).

  The originator keeps count of how often its ANSN has been incremented; the number it sends is
  that count modulo 2^16.  The messages it has sent can arrive at the node at any time, any
  number of times, or never.
-/
import Ns3.Lib.Run
import Ns3.Olsr.OlsrState

namespace Ns3

namespace Olsr

def OLSR_MAX_SEQ_NUM : Nat := 65535

/-! ## The topology set -/

def findTopologyTuple (set : List TopologyTuple) (destAddr lastAddr : Ipv4Address) :
    Option TopologyTuple :=
  set.find? fun it => it.destAddr = destAddr ∧ it.lastAddr = lastAddr

def findNewerTopologyTuple (set : List TopologyTuple) (lastAddr : Ipv4Address) (ansn : Nat) :
    Option TopologyTuple :=
  set.find? fun it => it.lastAddr = lastAddr ∧ it.sequenceNumber > ansn

/-- `EraseTopologyTuple`: the first tuple that is equal but for its expiration time. -/
def eraseTopologyTuple (set : List TopologyTuple) (tuple : TopologyTuple) : List TopologyTuple :=
  set.eraseP fun it => it.destAddr = tuple.destAddr ∧ it.lastAddr = tuple.lastAddr ∧
    it.sequenceNumber = tuple.sequenceNumber

def eraseOlderTopologyTuples (set : List TopologyTuple) (lastAddr : Ipv4Address) (ansn : Nat) :
    List TopologyTuple :=
  set.filter fun it => ¬(it.lastAddr = lastAddr ∧ it.sequenceNumber < ansn)

def refreshTopologyTuple (destAddr lastAddr : Ipv4Address) (expirationTime : Time) :
    List TopologyTuple → List TopologyTuple
  | [] => []
  | it :: rest =>
    if it.destAddr = destAddr ∧ it.lastAddr = lastAddr then
      { it with expirationTime } :: rest
    else it :: refreshTopologyTuple destAddr lastAddr expirationTime rest

/-- Step 4 of `ProcessTc`, for one advertised neighbor. -/
def recordNeighbor (originator : Ipv4Address) (ansn : Nat) (expirationTime : Time)
    (set : List TopologyTuple) (addr : Ipv4Address) : List TopologyTuple :=
  match findTopologyTuple set addr originator with
  | some _ => refreshTopologyTuple addr originator expirationTime set
  | none => set ++ [⟨addr, originator, ansn, expirationTime⟩]

/-- A TC message as `ProcessTc` reads it. -/
structure TcMessage where
  originator : Ipv4Address
  ansn : Nat
  neighborAddresses : List Ipv4Address
  vTime : Time
  deriving DecidableEq, Repr

namespace OlsrState

def processTc (s : OlsrState) (msg : TcMessage) (senderIface : Ipv4Address) (now : Time) :
    OlsrState :=
  match s.findSymLinkTuple senderIface now with
  | none => s
  | some _ =>
    match findNewerTopologyTuple s.topologySet msg.originator msg.ansn with
    | some _ => s
    | none =>
      let kept := eraseOlderTopologyTuples s.topologySet msg.originator msg.ansn
      let record := recordNeighbor msg.originator msg.ansn (now + msg.vTime)
      { s with topologySet := msg.neighborAddresses.foldl record kept }

/-- `RoutingProtocol::TopologyTupleTimerExpire`, when the timer goes off. -/
def topologyTupleTimerExpire (s : OlsrState) (destAddr lastAddr : Ipv4Address) (now : Time) :
    OlsrState :=
  match findTopologyTuple s.topologySet destAddr lastAddr with
  | none => s
  | some tuple =>
    if tuple.expirationTime < now then
      { s with topologySet := eraseTopologyTuple s.topologySet tuple }
    else s

end OlsrState

/-! ## The originator -/

/-- The part of a node that its TC messages come from. -/
structure Originator where
  increments : Nat
  ansn : Nat
  mprSelectorSet : List Ipv4Address

/-- What happens at the originator. -/
inductive OriginatorEvent where
  | addMprSelectorTuple (mainAddr : Ipv4Address)
  | removeMprSelectorTuple (mainAddr : Ipv4Address)
  | addNeighborTuple
  | removeNeighborTuple
  | neighborLoss (mainAddr : Ipv4Address)
  | sendTc
  deriving DecidableEq, Repr

/-- A TC message that was sent, and how often the ANSN had been incremented by then. -/
structure SentTc where
  increments : Nat
  ansn : Nat
  neighborAddresses : List Ipv4Address
  deriving DecidableEq, Repr

namespace Originator

def new : Originator := { increments := 0, ansn := OLSR_MAX_SEQ_NUM, mprSelectorSet := [] }

def incrementAnsn (o : Originator) : Originator :=
  { o with increments := o.increments + 1, ansn := (o.ansn + 1) % (OLSR_MAX_SEQ_NUM + 1) }

def handle (o : Originator) : OriginatorEvent → Originator × List SentTc
  | .addMprSelectorTuple mainAddr =>
    ({ o with mprSelectorSet := o.mprSelectorSet ++ [mainAddr] }.incrementAnsn, [])
  | .removeMprSelectorTuple mainAddr =>
    ({ o with mprSelectorSet := o.mprSelectorSet.erase mainAddr }.incrementAnsn, [])
  | .addNeighborTuple => (o.incrementAnsn, [])
  | .removeNeighborTuple => (o.incrementAnsn, [])
  | .neighborLoss mainAddr =>
    ({ o with mprSelectorSet := o.mprSelectorSet.filter (· ≠ mainAddr) }, [])
  | .sendTc => (o, [⟨o.increments, o.ansn, o.mprSelectorSet⟩])

end Originator

/-! ## Both together -/

/-- An originator, the TC messages it has sent, and a node that hears of it.  `newest` is the
place of the newest message that the node has processed since it last knew nothing of the
originator. -/
structure TcSystem where
  originator : Originator
  sent : List SentTc
  node : OlsrState
  newest : Option Nat

/-- What happens.  A message that arrives is told by its place among those sent. -/
inductive TcEvent where
  | originator (e : OriginatorEvent)
  | receive (place : Nat) (vTime : Time) (senderIface : Ipv4Address) (now : Time)
  | receiveOther (msg : TcMessage) (senderIface : Ipv4Address) (now : Time)
  | topologyTupleTimerExpire (destAddr lastAddr : Ipv4Address) (now : Time)
  /-- anything else that happens at the node -/
  | other (node : OlsrState)

namespace TcSystem

/-- The tuples of an originator: which neighbors, and under which numbers. -/
def heldOf (o : Ipv4Address) (set : List TopologyTuple) : List (Ipv4Address × Nat) :=
  (set.filter fun it => it.lastAddr = o).map fun it => (it.destAddr, it.sequenceNumber)

/-- What the node holds of the originator. -/
def held (σ : TcSystem) (o : Ipv4Address) : List (Ipv4Address × Nat) :=
  heldOf o σ.node.topologySet

def messageAt (o : Ipv4Address) (tc : SentTc) (vTime : Time) : TcMessage :=
  ⟨o, tc.ansn, tc.neighborAddresses, vTime⟩

def newestAfter (σ : TcSystem) (o : Ipv4Address) (place : Nat) : Option Nat :=
  if σ.held o = [] then some place
  else
    match σ.newest with
    | none => some place
    | some i => some (max i place)

/-- One event at the originator, the receiver or its timers. -/
inductive Step (o : Ipv4Address) : TcSystem → TcEvent → TcSystem → Prop where
  | originator {σ : TcSystem} {e : OriginatorEvent} :
      Step o σ (.originator e)
        { σ with
          originator := (σ.originator.handle e).1
          sent := σ.sent ++ (σ.originator.handle e).2 }
  | receive {σ : TcSystem} {place : Nat} {tc : SentTc} {vTime : Time} {senderIface : Ipv4Address}
      {now : Time} : σ.sent[place]? = some tc →
      (σ.node.findSymLinkTuple senderIface now).isSome →
      Step o σ (.receive place vTime senderIface now)
        { σ with
          node := σ.node.processTc (messageAt o tc vTime) senderIface now
          newest := σ.newestAfter o place }
  | discard {σ : TcSystem} {place : Nat} {tc : SentTc} {vTime : Time} {senderIface : Ipv4Address}
      {now : Time} : σ.sent[place]? = some tc →
      σ.node.findSymLinkTuple senderIface now = none →
      Step o σ (.receive place vTime senderIface now)
        { σ with node := σ.node.processTc (messageAt o tc vTime) senderIface now }
  | receiveOther {σ : TcSystem} {msg : TcMessage} {senderIface : Ipv4Address} {now : Time} :
      msg.originator ≠ o →
      Step o σ (.receiveOther msg senderIface now)
        { σ with node := σ.node.processTc msg senderIface now }
  | expire {σ : TcSystem} {destAddr lastAddr : Ipv4Address} {now : Time} :
      Step o σ (.topologyTupleTimerExpire destAddr lastAddr now)
        { σ with node := σ.node.topologyTupleTimerExpire destAddr lastAddr now }
  | other {σ : TcSystem} {node : OlsrState} : node.topologySet = σ.node.topologySet →
      Step o σ (.other node) { σ with node }

/-- A run in which the originator has just been started, and the node knows nothing of it. -/
def Starts (o : Ipv4Address) (σ : TcSystem) : Prop :=
  σ.originator = .new ∧ σ.sent = [] ∧ σ.held o = [] ∧ σ.newest = none

end TcSystem

end Olsr

end Ns3
