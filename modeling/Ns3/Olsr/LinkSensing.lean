/-
  The link set and the neighbor set
  (RoutingProtocol::LinkSensing, PopulateNeighborSet, NeighborLoss, LinkTupleAdded,
  RemoveLinkTuple, LinkTupleUpdated, LinkTupleTimerExpire,
  src/olsr/model/olsr-routing-protocol.cc; olsr-state.cc).

  The timers of the link tuples are kept as the list of what has been scheduled.  The rest of
  `ProcessHello`, the MPR computation and the routing table leave the two sets alone.
-/
import Ns3.Lib.Run
import Ns3.Olsr.OlsrState

namespace Ns3

namespace Olsr

open Lib

def Willingness.DEFAULT : Willingness := 3

inductive LinkType where
  | unspecLink
  | asymLink
  | symLink
  | lostLink
  deriving DecidableEq, Repr

def LinkType.ofCode (linkCode : Nat) : LinkType :=
  match linkCode % 4 with
  | 0 => .unspecLink
  | 1 => .asymLink
  | 2 => .symLink
  | _ => .lostLink

/-- A link message of a HELLO. -/
structure HelloLinkMessage where
  linkCode : Nat
  neighborInterfaceAddresses : List Ipv4Address
  deriving DecidableEq, Repr

/-- A HELLO message, with the validity time that `GetVTime` returns. -/
structure HelloMessage where
  originator : Ipv4Address
  vTime : Time
  willingness : Willingness
  linkMessages : List HelloLinkMessage
  deriving DecidableEq, Repr

namespace HelloLinkMessage

/-- The link code is one that is advertised validly: the neighbor type is NOT_NEIGH, SYM_NEIGH or
MPR_NEIGH, and a symmetric link is not one of NOT_NEIGH. -/
def valid (m : HelloLinkMessage) : Bool :=
  let neighborType := m.linkCode / 4 % 4
  !((LinkType.ofCode m.linkCode = .symLink && neighborType = 0) ||
    (neighborType ≠ 1 && neighborType ≠ 2 && neighborType ≠ 0))

end HelloLinkMessage

def second : Time := 10 ^ 9

def microsecond : Time := 10 ^ 3

namespace OlsrState

def findLinkTuple (s : OlsrState) (ifaceAddr : Ipv4Address) : Option LinkTuple :=
  s.linkSet.find? fun it => it.neighborIfaceAddr = ifaceAddr

/-- The link tuple of an interface has changed in its place, or `InsertLinkTuple`. -/
def writeLinkTuple (s : OlsrState) (tuple : LinkTuple) : OlsrState :=
  { s with linkSet := Keyed.put LinkTuple.neighborIfaceAddr tuple s.linkSet }

def eraseLinkTuple (s : OlsrState) (tuple : LinkTuple) : OlsrState :=
  { s with linkSet := s.linkSet.eraseP fun it =>
      it.localIfaceAddr = tuple.localIfaceAddr ∧ it.neighborIfaceAddr = tuple.neighborIfaceAddr }

def eraseNeighborTuple (s : OlsrState) (mainAddr : Ipv4Address) : OlsrState :=
  { s with neighborSet := s.neighborSet.eraseP fun it => it.neighborMainAddr = mainAddr }

def linkTupleAdded (s : OlsrState) (tuple : LinkTuple) (willingness : Willingness) (now : Time) :
    OlsrState :=
  let nb : NeighborTuple :=
    { neighborMainAddr := s.getMainAddress tuple.neighborIfaceAddr
      status := if tuple.symTime ≥ now then .sym else .notSym
      willingness }
  s.insertNeighborTuple nb

def linkTupleUpdated (s : OlsrState) (tuple : LinkTuple) (willingness : Willingness)
    (now : Time) : OlsrState :=
  let mainAddr := s.getMainAddress tuple.neighborIfaceAddr
  let s := match s.findNeighborTuple mainAddr with
    | none => s.linkTupleAdded tuple willingness now
    | some _ => s
  match s.findNeighborTuple mainAddr with
  | none => s
  | some nb =>
    let hasSymmetricLink := s.linkSet.any fun it =>
      s.getMainAddress it.neighborIfaceAddr = nb.neighborMainAddr ∧ it.symTime ≥ now
    -- the tuple that was found changes in its place
    let nb := { nb with status := if hasSymmetricLink then .sym else .notSym }
    s.insertNeighborTuple nb

def removeLinkTuple (s : OlsrState) (tuple : LinkTuple) : OlsrState :=
  (s.eraseNeighborTuple (s.getMainAddress tuple.neighborIfaceAddr)).eraseLinkTuple tuple

/-- `RoutingProtocol::NeighborLoss`, up to the computations at its end. -/
def neighborLoss (s : OlsrState) (tuple : LinkTuple) (now : Time) : OlsrState :=
  let s := s.linkTupleUpdated tuple .DEFAULT now
  let mainAddr := s.getMainAddress tuple.neighborIfaceAddr
  { s with
    twoHopNeighborSet := s.twoHopNeighborSet.filter fun it => it.neighborMainAddr ≠ mainAddr
    mprSelectorSet := s.mprSelectorSet.filter fun it => it.mainAddr ≠ mainAddr }

def populateNeighborSet (s : OlsrState) (msg : HelloMessage) : OlsrState :=
  match s.findNeighborTuple msg.originator with
  | none => s
  | some nb =>
    let nb := { nb with willingness := msg.willingness }
    s.insertNeighborTuple nb

end OlsrState

/-- The loop of `LinkSensing`, for one link message: the link tuple, and whether it was updated. The
addresses after the receiving interface's are not looked at. -/
def senseLinkMessage (vTime holdTime : Time) (receiverIface : Ipv4Address) (now : Time)
    (state : LinkTuple × Bool) (m : HelloLinkMessage) : Except Fault (LinkTuple × Bool) :=
  if m.valid ∧ receiverIface ∈ m.neighborInterfaceAddresses then
    match LinkType.ofCode m.linkCode with
    | .lostLink => pure ({ state.1 with symTime := now - second }, true)
    | .symLink | .asymLink =>
      pure ({ state.1 with symTime := now + vTime, time := now + vTime + holdTime }, true)
    | .unspecLink => .error .fatalError
  else pure state

/-- The link tuple that `LinkSensing` finds or creates: it was there, or is new. -/
def linkTupleFor (s : OlsrState) (vTime : Time) (receiverIface senderIface : Ipv4Address)
    (now : Time) : LinkTuple × Bool :=
  match s.findLinkTuple senderIface with
  | some tuple => ({ tuple with asymTime := now + vTime }, true)
  | none =>
    ({ localIfaceAddr := receiverIface
       neighborIfaceAddr := senderIface
       symTime := now - second
       asymTime := now + vTime
       time := now + vTime }, false)

def delayed (time now : Time) : Time :=
  if time < now then now + microsecond else time + microsecond

/-- `RoutingProtocol::LinkSensing`: the state, and what is scheduled for the sender. -/
def linkSensing (s : OlsrState) (helloInterval : Time) (msg : HelloMessage)
    (receiverIface senderIface : Ipv4Address) (now : Time) :
    Except Fault (OlsrState × List (Time × Ipv4Address)) := do
  nsAssert (msg.vTime > 0)
  let (tuple, updated) ← msg.linkMessages.foldlM
    (senseLinkMessage msg.vTime (3 * helloInterval) receiverIface now)
    (linkTupleFor s msg.vTime receiverIface senderIface now)
  let tuple := { tuple with time := max tuple.time tuple.asymTime }
  let created := (s.findLinkTuple senderIface).isNone
  let s := s.writeLinkTuple tuple
  let s := if updated then s.linkTupleUpdated tuple msg.willingness now else s
  if created then
    pure (s.linkTupleAdded tuple msg.willingness now,
      [(delayed (min tuple.time tuple.symTime) now, senderIface)])
  else pure (s, [])

/-! ## A node and its timers -/

/-- A node, the timers of its link tuples, and the time of the last event. -/
structure SensingNode where
  state : OlsrState
  linkTupleTimerFirstTime : Bool
  timers : List (Time × Ipv4Address)
  now : Time

def linkTupleTimerExpire (n : SensingNode) (neighborIfaceAddr : Ipv4Address) (now : Time) :
    SensingNode :=
  match n.state.findLinkTuple neighborIfaceAddr with
  | none => n
  | some tuple =>
    if tuple.time < now then { n with state := n.state.removeLinkTuple tuple }
    else if tuple.symTime < now then
      let n := if n.linkTupleTimerFirstTime then { n with linkTupleTimerFirstTime := false }
        else { n with state := n.state.neighborLoss tuple now }
      { n with timers := n.timers ++ [(delayed tuple.time now, neighborIfaceAddr)] }
    else
      { n with timers :=
          n.timers ++ [(delayed (min tuple.time tuple.symTime) now, neighborIfaceAddr)] }

/-- What happens to a node: a HELLO, the timer at a place among those scheduled, or anything that
is not about links. -/
inductive SensingEvent where
  | hello (msg : HelloMessage) (receiverIface senderIface : Ipv4Address)
  | timer (place : Nat)
  | other
  deriving DecidableEq, Repr

def SameLinks (s s' : OlsrState) : Prop :=
  s'.linkSet = s.linkSet ∧ s'.neighborSet = s.neighborSet ∧ s'.ifaceAssocSet = s.ifaceAssocSet

/-- Nothing that is scheduled is overdue at `now`. -/
def OnTime (n : SensingNode) (now : Time) : Prop :=
  n.now ≤ now ∧ ∀ p ∈ n.timers, now ≤ p.1

instance (n : SensingNode) (now : Time) : Decidable (OnTime n now) :=
  inferInstanceAs (Decidable (_ ∧ _))

/-- One step, at a time not before the last one nor after any timer. What follows in the same event
leaves the links and the neighbors alone. -/
inductive SensingStep (helloInterval : Time) :
    SensingNode → SensingEvent × Time → SensingNode → Prop where
  | hello {n : SensingNode} {msg : HelloMessage} {receiverIface senderIface : Ipv4Address}
      {now : Time} {s s' : OlsrState} {scheduled : List (Time × Ipv4Address)} :
      OnTime n now →
      linkSensing n.state helloInterval msg receiverIface senderIface now = .ok (s, scheduled) →
      SameLinks (s.populateNeighborSet msg) s' →
      SensingStep helloInterval n (.hello msg receiverIface senderIface, now)
        { n with state := s', timers := n.timers ++ scheduled, now }
  | timer {n : SensingNode} {place : Nat} {now : Time} {neighborIfaceAddr : Ipv4Address}
      {n' : SensingNode} {s' : OlsrState} :
      OnTime n now → n.timers[place]? = some (now, neighborIfaceAddr) →
      linkTupleTimerExpire { n with timers := n.timers.eraseIdx place } neighborIfaceAddr now =
        n' →
      SameLinks n'.state s' →
      SensingStep helloInterval n (.timer place, now) { n' with state := s', now }
  | other {n : SensingNode} {now : Time} {s' : OlsrState} :
      OnTime n now → SameLinks n.state s' →
      SensingStep helloInterval n (.other, now) { n with state := s', now }

end Olsr

end Ns3
