/-
  The computation of the routing table
  (RoutingProtocol::RoutingTableComputation, src/olsr/model/olsr-routing-protocol.cc).

  The last step of the source, which writes the routes of associated networks to another
  table, is in Olsr/HnaRoutes.lean.
-/
import Mathlib.Logic.Function.Basic
import Ns3.Olsr.OlsrState

namespace Ns3

namespace Olsr

structure RoutingTableEntry where
  destAddr : Ipv4Address
  nextAddr : Ipv4Address
  interface : Nat
  distance : Nat
  deriving DecidableEq, Repr

/-- `m_table`. -/
abbrev RoutingTable : Type := Ipv4Address → Option RoutingTableEntry

namespace RoutingTable

def clear : RoutingTable := fun _ => none

def lookup (table : RoutingTable) (dest : Ipv4Address) : Option RoutingTableEntry := table dest

def addEntry (table : RoutingTable) (dest next : Ipv4Address) (interface distance : Nat) :
    Except Fault RoutingTable := do
  nsAssert (distance > 0)
  .ok (Function.update table dest (some ⟨dest, next, interface, distance⟩))

/-- `AddEntry`, to the interface that has an address; `m_ipv4` lists the addresses of each
interface. -/
def addEntryTo (ipv4 : List (List Ipv4Address)) (table : RoutingTable) (dest next : Ipv4Address)
    (interfaceAddress : Ipv4Address) (distance : Nat) : Except Fault RoutingTable := do
  nsAssert (distance > 0)
  match ipv4.findIdx? fun addresses => addresses.contains interfaceAddress with
  | some i => table.addEntry dest next i distance
  | none => .error .assertFailed

/-- `FindSendEntry`, for so many rounds of its loop. -/
def findSendEntry (table : RoutingTable) :
    Nat → RoutingTableEntry → Except Fault (Option RoutingTableEntry)
  | fuel, entry =>
    if entry.destAddr = entry.nextAddr then .ok (some entry)
    else
      match fuel with
      | 0 => .error .noProgress
      | fuel + 1 =>
        match table.lookup entry.nextAddr with
        | none => .ok none
        | some next => table.findSendEntry fuel next

end RoutingTable

namespace OlsrState

def linkStep (s : OlsrState) (now : Time) (ipv4 : List (List Ipv4Address)) (n : NeighborTuple)
    (state : RoutingTable × Bool × Option LinkTuple) (l : LinkTuple) :
    Except Fault (RoutingTable × Bool × Option LinkTuple) := do
  let (table, nbMainAddr, lt) := state
  if s.getMainAddress l.neighborIfaceAddr = n.neighborMainAddr ∧ l.time ≥ now then
    let table ← table.addEntryTo ipv4 l.neighborIfaceAddr l.neighborIfaceAddr l.localIfaceAddr 1
    .ok (table, nbMainAddr || l.neighborIfaceAddr == n.neighborMainAddr, some l)
  else
    .ok (table, nbMainAddr, lt)

def neighborStep (s : OlsrState) (now : Time) (ipv4 : List (List Ipv4Address))
    (table : RoutingTable) (n : NeighborTuple) : Except Fault RoutingTable := do
  if n.status = .sym then
    let (table, nbMainAddr, lt) ← s.linkSet.foldlM (s.linkStep now ipv4 n) (table, false, none)
    match lt with
    | some lt =>
      if nbMainAddr then .ok table
      else table.addEntryTo ipv4 n.neighborMainAddr lt.neighborIfaceAddr lt.localIfaceAddr 1
    | none => .ok table
  else .ok table

/-- The tuple has a 2-hop neighbor that is neither a symmetric neighbor nor the node, and
its neighbor is not known to be unwilling. -/
def nb2hopOk (s : OlsrState) (t : TwoHopNeighborTuple) : Bool :=
  (s.findSymNeighborTuple t.twoHopNeighborAddr).isNone && t.twoHopNeighborAddr != s.mainAddress &&
    s.neighborSet.any fun n =>
      n.neighborMainAddr = t.neighborMainAddr ∧ n.willingness ≠ Willingness.NEVER

def twoHopStep (s : OlsrState) (table : RoutingTable) (t : TwoHopNeighborTuple) :
    Except Fault RoutingTable :=
  if s.nb2hopOk t then
    match table.lookup t.neighborMainAddr with
    | some entry => table.addEntry t.twoHopNeighborAddr entry.nextAddr entry.interface 2
    | none => .ok table
  else .ok table

def topologyStep (h : Nat) (state : RoutingTable × Bool) (t : TopologyTuple) :
    Except Fault (RoutingTable × Bool) :=
  let (table, added) := state
  match table.lookup t.destAddr, table.lookup t.lastAddr with
  | none, some last =>
    if last.distance = h then do
      let table ← table.addEntry t.destAddr last.nextAddr last.interface (h + 1)
      .ok (table, true)
    else .ok (table, added)
  | _, _ => .ok (table, added)

/-- Step 3.1, for so many more values of `h`. -/
def topologyLoop (s : OlsrState) : Nat → Nat → RoutingTable → Except Fault RoutingTable
  | 0, _, _ => .error .noProgress
  | fuel + 1, h, table => do
      let (table, added) ← s.topologySet.foldlM (topologyStep h) (table, false)
      if added then s.topologyLoop fuel (h + 1) table else .ok table

def ifaceAssocStep (table : RoutingTable) (tuple : IfaceAssocTuple) : Except Fault RoutingTable :=
  match table.lookup tuple.mainAddr, table.lookup tuple.ifaceAddr with
  | some entry, none => table.addEntry tuple.ifaceAddr entry.nextAddr entry.interface entry.distance
  | _, _ => .ok table

/-- `RoutingTableComputation`: every round of the loop but the last gives a route to another
destination. -/
def routingTableComputation (s : OlsrState) (now : Time) (ipv4 : List (List Ipv4Address)) :
    Except Fault RoutingTable := do
  let table ← s.neighborSet.foldlM (s.neighborStep now ipv4) .clear
  let table ← s.twoHopNeighborSet.foldlM s.twoHopStep table
  let table ← s.topologyLoop (s.topologySet.length + 1) 2 table
  s.ifaceAssocSet.foldlM ifaceAssocStep table

end OlsrState

end Olsr

end Ns3
