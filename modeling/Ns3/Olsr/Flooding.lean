/-
  How messages spread through a network
  (RoutingProtocol::RecvOlsr, ForwardDefault, QueueMessage and SendQueuedMessages,
  src/olsr/model/olsr-routing-protocol.cc).

  The nodes do not move and have one interface each.  A transmission reaches all neighbors
  of the sender at once.  What a node reads in a message is not part of this model, only
  that it does so.
-/
import Mathlib.Logic.Function.Basic
import Ns3.Lib.ShortestPath
import Ns3.Lib.Run
import Ns3.Olsr.OlsrState

namespace Ns3

namespace Olsr

inductive MessageType where
  | hello
  | tc
  | mid
  | hna
  deriving DecidableEq, Repr

structure MessageHeader where
  messageType : MessageType
  originatorAddress : Ipv4Address
  timeToLive : Nat
  hopCount : Nat
  messageSequenceNumber : Nat
  deriving DecidableEq, Repr

namespace MessageHeader

def key (msg : MessageHeader) : Ipv4Address × Nat :=
  (msg.originatorAddress, msg.messageSequenceNumber)

/-- The message that `SendTc` queues. -/
def newTc (originator : Ipv4Address) (sequenceNumber : Nat) : MessageHeader :=
  { messageType := .tc, originatorAddress := originator, timeToLive := 255, hopCount := 0
    messageSequenceNumber := sequenceNumber }

end MessageHeader

def OLSR_DUP_HOLD_TIME : Time := 30 * 10 ^ 9

/-- A node: its state and `m_queuedMessages`; the keys of the messages it has read, and of those
it has queued for retransmission. -/
structure FloodNode where
  state : OlsrState
  queuedMessages : List MessageHeader
  received : List (Ipv4Address × Nat)
  forwarded : List (Ipv4Address × Nat)

namespace FloodNode

/-- The change that `ForwardDefault` makes to the duplicate tuple it was given. -/
def updateDuplicate (msg : MessageHeader) (now : Time) (retransmitted : Bool)
    (localIface : Ipv4Address) : List DuplicateTuple → List DuplicateTuple
  | [] => []
  | it :: rest =>
    if it.address = msg.originatorAddress ∧ it.sequenceNumber = msg.messageSequenceNumber then
      { it with
        expirationTime := now + OLSR_DUP_HOLD_TIME
        retransmitted, ifaceList := it.ifaceList ++ [localIface] } :: rest
    else it :: updateDuplicate msg now retransmitted localIface rest

/-- Whether `ForwardDefault` queues the message. -/
def retransmits (state : OlsrState) (msg : MessageHeader) (senderAddress : Ipv4Address) : Bool :=
  msg.timeToLive > 1 ∧ (state.findMprSelectorTuple (state.getMainAddress senderAddress)).isSome

def queueRelayed (node : FloodNode) (msg : MessageHeader) : FloodNode :=
  { node with
    queuedMessages := node.queuedMessages ++
      [{ msg with
          timeToLive := msg.timeToLive - 1
          hopCount := (msg.hopCount + 1) % 2 ^ 8 }]
    forwarded := node.forwarded ++ [msg.key] }

/-- The duplicate tuple that `ForwardDefault` makes. -/
def newDuplicate (msg : MessageHeader) (now : Time) (retransmitted : Bool)
    (localIface : Ipv4Address) : DuplicateTuple :=
  { address := msg.originatorAddress
    sequenceNumber := msg.messageSequenceNumber
    retransmitted, ifaceList := [localIface]
    expirationTime := now + OLSR_DUP_HOLD_TIME }

def noteDuplicate (node : FloodNode) (msg : MessageHeader) (duplicated : Option DuplicateTuple)
    (now : Time) (retransmitted : Bool) (localIface : Ipv4Address) : FloodNode :=
  let duplicateSet :=
    match duplicated with
    | some _ => updateDuplicate msg now retransmitted localIface node.state.duplicateSet
    | none => node.state.duplicateSet ++ [newDuplicate msg now retransmitted localIface]
  { node with state := { node.state with duplicateSet } }

def forwardDefault (node : FloodNode) (msg : MessageHeader) (duplicated : Option DuplicateTuple)
    (localIface senderAddress : Ipv4Address) (now : Time) : FloodNode :=
  if (node.state.findSymLinkTuple senderAddress now).isNone then node
  else if duplicated.any fun d => d.retransmitted then node
  else if retransmits node.state msg senderAddress then
    (node.queueRelayed msg).noteDuplicate msg duplicated now true localIface
  else node.noteDuplicate msg duplicated now false localIface

def read (node : FloodNode) (msg : MessageHeader) (duplicated : Option DuplicateTuple) :
    FloodNode :=
  if duplicated.isNone then { node with received := node.received ++ [msg.key] } else node

/-- `RecvOlsr`, for one message of a packet. -/
def recvOlsr (node : FloodNode) (msg : MessageHeader) (receiverIfaceAddr sender : Ipv4Address)
    (now : Time) : FloodNode :=
  if msg.timeToLive = 0 ∨ msg.originatorAddress = node.state.mainAddress then node
  else
    let duplicated :=
      node.state.findDuplicateTuple msg.originatorAddress msg.messageSequenceNumber
    let doForwarding := !duplicated.any fun d => d.ifaceList.contains receiverIfaceAddr
    if doForwarding ∧ msg.messageType ≠ .hello then
      (node.read msg duplicated).forwardDefault msg duplicated receiverIfaceAddr sender now
    else node.read msg duplicated

end FloodNode

/-! ## The network -/

/-- Who hears whom. -/
structure Network where
  nodes : Finset Ipv4Address
  Adj : Ipv4Address → Ipv4Address → Prop
  [decidableAdj : DecidableRel Adj]
  symm : ∀ u v, Adj u v → Adj v u
  irrefl : ∀ u, ¬Adj u u
  mem_of_adj : ∀ u v, Adj u v → u ∈ nodes

attribute [instance] Network.decidableAdj

namespace Network

def Connected (net : Network) : Prop :=
  ∀ u ∈ net.nodes, ∀ v ∈ net.nodes, ∃ d, Lib.Walk (Lib.UnitEdge net.Adj) u v d

/-- No two nodes are more than `k` edges apart. -/
def DiameterLE (net : Network) (k : Nat) : Prop :=
  ∀ u ∈ net.nodes, ∀ v ∈ net.nodes, ∃ d ≤ k, Lib.Walk (Lib.UnitEdge net.Adj) u v d

/-- The nodes, and every message sent. -/
structure State where
  node : Ipv4Address → FloodNode
  log : List (Ipv4Address × MessageHeader)

/-- What happens: a node makes a message, or transmits the queued message at a position. -/
inductive Event where
  | originate (u : Ipv4Address) (msg : MessageHeader)
  | transmit (u : Ipv4Address) (i : Nat) (now : Time)

def queueMessage (σ : State) (u : Ipv4Address) (msg : MessageHeader) : State :=
  { σ with
    node := Function.update σ.node u
      { σ.node u with queuedMessages := (σ.node u).queuedMessages ++ [msg] } }

/-- The message at a position of the queue is sent, and received by all neighbors. -/
def transmit (net : Network) (σ : State) (u : Ipv4Address) (i : Nat) (msg : MessageHeader)
    (now : Time) : State :=
  { node := fun v =>
      if v = u then { σ.node u with queuedMessages := (σ.node u).queuedMessages.eraseIdx i }
      else if net.Adj u v then (σ.node v).recvOlsr msg v u now
      else σ.node v
    log := σ.log ++ [(u, msg)] }

/-- One event; messages with the key `κ` are not made again, and time does not pass `horizon`. -/
inductive Step (net : Network) (κ : Ipv4Address × Nat) (horizon : Time) :
    State → Event → State → Prop where
  | originate {σ : State} {u : Ipv4Address} {msg : MessageHeader} : u ∈ net.nodes →
      msg.key ≠ κ → Step net κ horizon σ (.originate u msg) (queueMessage σ u msg)
  | transmit {σ : State} {u : Ipv4Address} {i : Nat} {now : Time} {msg : MessageHeader} :
      u ∈ net.nodes → now ≤ horizon → (σ.node u).queuedMessages[i]? = some msg →
      Step net κ horizon σ (.transmit u i now) (net.transmit σ u i msg now)

end Network

end Olsr

end Ns3
