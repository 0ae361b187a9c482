/-
  The FqCoDel queue disc
  (src/traffic-control/model/fq-codel-queue-disc.cc).

  A flow is known by its place in `m_classes`; `m_newFlows` and `m_oldFlows` are lists
  of such places.  The attributes do not change while packets flow.
-/
import Ns3.TrafficControl.CoDelQueueDisc

namespace Ns3

open Ns3.Lib

inductive FlowStatus where
  | inactive
  | newFlow
  | oldFlow
  deriving DecidableEq, Repr, Inhabited

structure FqCoDelFlow (α : Type) where
  /-- `m_deficit`; its overflow is undefined, and does not happen here -/
  deficit : Int := 0
  status : FlowStatus := .inactive
  index : Nat
  /-- `GetQueueDisc()` -/
  queueDisc : CoDelQueueDisc α
  deriving DecidableEq, Repr, Inhabited

/-- The attributes of a `FqCoDelQueueDisc`, and what classifies its packets. -/
structure FqCoDelAttributes (α : Type) where
  flows : Nat
  setWays : Nat
  quantum : Nat
  dropBatchSize : Nat
  enableSetAssociativeHash : Bool
  /-- `GetMaxSize()`, in packets -/
  maxSize : Nat
  perturbation : Nat
  /-- the packet filters, what each answers -/
  filters : List (α → Int)
  hash : α → Nat → Nat
  /-- the CoDel queue disc that the factory makes -/
  codel : CoDelQueueDisc α

def PF_NO_MATCH : Int := -1

namespace FqCoDelAttributes

variable {α : Type}

/-- The first filter that matches. -/
def classify (filters : List (α → Int)) (packet : α) : Int :=
  match filters with
  | [] => PF_NO_MATCH
  | f :: rest => if f packet = PF_NO_MATCH then classify rest packet else f packet

/-- The hash of the packet, or what its filter says; without a match it is dropped. -/
def flowHash (a : FqCoDelAttributes α) (packet : α) : Option Nat :=
  if a.filters.length = 0 then some (a.hash packet a.perturbation % 2 ^ 32)
  else
    let ret := classify a.filters packet
    if ret ≠ PF_NO_MATCH then some (ret % 2 ^ 32).toNat else none

def outerHash (a : FqCoDelAttributes α) (flowHash : Nat) : Nat :=
  let h := flowHash % a.flows
  h - h % a.setWays

/-- The queues of the set of a flow hash, in the order they are tried.  The bound of the
loop is a `uint32_t`. -/
def wayQueues (a : FqCoDelAttributes α) (flowHash : Nat) : List Nat :=
  let outer := a.outerHash flowHash
  List.range' outer (wadd 32 outer a.setWays - outer)

/-- What `CheckConfig` makes sure of. -/
def CheckConfig (a : FqCoDelAttributes α) : Prop :=
  a.quantum ≠ 0 ∧ (a.enableSetAssociativeHash = true → a.flows % a.setWays = 0)

instance (a : FqCoDelAttributes α) : Decidable a.CheckConfig :=
  inferInstanceAs (Decidable (_ ∧ _))

def createFlow (a : FqCoDelAttributes α) (h : Nat) : FqCoDelFlow α :=
  { index := h, queueDisc := { a.codel with queue := [] } }

end FqCoDelAttributes

structure FqCoDelQueueDisc (α : Type) where
  newFlows : List Nat := []
  oldFlows : List Nat := []
  flowsIndices : List (Nat × Nat) := []
  tags : List (Nat × Nat) := []
  classes : List (FqCoDelFlow α) := []
  nPackets : Nat := 0
  deriving DecidableEq, Repr, Inhabited

namespace FqCoDelQueueDisc

variable {α : Type}

def flow (d : FqCoDelQueueDisc α) (k : Nat) : FqCoDelFlow α := d.classes.getD k default

def setFlow (d : FqCoDelQueueDisc α) (k : Nat) (f : FqCoDelFlow α) : FqCoDelQueueDisc α :=
  { d with classes := d.classes.set k f }

/-- The test of the loop of `SetAssociativeHash`: the queue has not been created, or is
associated with the flow, or is inactive. -/
def usable (d : FqCoDelQueueDisc α) (flowHash i : Nat) : Bool :=
  match d.flowsIndices.lookup i with
  | none => true
  | some k => d.tags.lookup i = some flowHash || (d.flow k).status = .inactive

/-- `SetAssociativeHash`: the first usable queue of the set, else its first. -/
def setAssociativeHash (a : FqCoDelAttributes α) (d : FqCoDelQueueDisc α) (flowHash : Nat) :
    Except Fault (FqCoDelQueueDisc α × Nat) :=
  if a.flows = 0 ∨ a.setWays = 0 then .error .divideByZero
  else
    match (a.wayQueues flowHash).find? (d.usable flowHash) with
    | some i => .ok ({ d with tags := (i, flowHash) :: d.tags }, i)
    | none =>
      -- all the queues of the set are used
      .ok ({ d with tags := (a.outerHash flowHash, flowHash) :: d.tags }, a.outerHash flowHash)

def queueOf (a : FqCoDelAttributes α) (d : FqCoDelQueueDisc α) (flowHash : Nat) :
    Except Fault (FqCoDelQueueDisc α × Nat) :=
  if a.enableSetAssociativeHash then d.setAssociativeHash a flowHash
  else if a.flows = 0 then .error .divideByZero
  else .ok (d, flowHash % a.flows)

/-- The flow of a queue is created when its first packet comes. -/
def findFlow (a : FqCoDelAttributes α) (d : FqCoDelQueueDisc α) (h : Nat) :
    FqCoDelQueueDisc α × Nat :=
  match d.flowsIndices.lookup h with
  | none =>
    ({ d with
        classes := d.classes ++ [a.createFlow h]
        flowsIndices := (h, d.classes.length) :: d.flowsIndices }, d.classes.length)
  | some k => (d, k)

/-- An inactive flow becomes a new one, with a full quantum. -/
def activate (a : FqCoDelAttributes α) (d : FqCoDelQueueDisc α) (k : Nat) : FqCoDelQueueDisc α :=
  if (d.flow k).status = .inactive then
    let f := { d.flow k with status := .newFlow, deficit := signed 32 a.quantum }
    { d.setFlow k f with newFlows := d.newFlows ++ [k] }
  else d

/-- `flow->GetQueueDisc()->Enqueue(item)`, with the count of packets that follows it. -/
def enqueueChild (d : FqCoDelQueueDisc α) (k : Nat) (item : QueueDiscItem α) (now : Time) :
    FqCoDelQueueDisc α :=
  let (child, added) := (d.flow k).queueDisc.enqueue item now
  { d.setFlow k { d.flow k with queueDisc := child } with
    nPackets := if added then wadd 32 d.nPackets 1 else d.nPackets }

/-- The flow with the largest backlog. -/
def fatFlow : List (FqCoDelFlow α) → (i maxBacklog index : Nat) → Nat × Nat
  | [], _, maxBacklog, index => (maxBacklog, index)
  | f :: rest, i, maxBacklog, index =>
    let bytes := CoDelQueueDisc.nBytes f.queueDisc.queue
    if bytes > maxBacklog then fatFlow rest (i + 1) bytes i
    else fatFlow rest (i + 1) maxBacklog index

/-- The loop that drops from the head of the fat flow: what remains of its queue and how
many packets went. -/
def dropBatch (dropBatchSize threshold : Nat) :
    List (QueueDiscItem α) → (count len : Nat) → Except Fault (List (QueueDiscItem α) × Nat)
  | [], _, _ => .error .nullDereference
  | item :: rest, count, len =>
    let len := wadd 32 len item.size
    let count := wadd 32 count 1
    if count < dropBatchSize ∧ len < threshold then dropBatch dropBatchSize threshold rest count len
    else .ok (rest, count)

/-- `FqCoDelDrop`: half of the largest backlog goes, or a batch. -/
def fqCoDelDrop (a : FqCoDelAttributes α) (d : FqCoDelQueueDisc α) :
    Except Fault (FqCoDelQueueDisc α) := do
  let (maxBacklog, index) := fatFlow d.classes 0 0 0
  let f := d.flow index
  let (queue, count) ← dropBatch a.dropBatchSize (maxBacklog / 2) f.queueDisc.queue 0 0
  pure { d.setFlow index { f with queueDisc := { f.queueDisc with queue } } with
    nPackets := wsub 32 d.nPackets count }

/-- `DoEnqueue`. -/
def doEnqueue (a : FqCoDelAttributes α) (d : FqCoDelQueueDisc α) (item : QueueDiscItem α)
    (now : Time) : Except Fault (FqCoDelQueueDisc α × Bool) :=
  match a.flowHash item.packet with
  | none => .ok (d, false)
  | some flowHash => do
      let (d, h) ← d.queueOf a flowHash
      let (d, k) := d.findFlow a h
      let d := (d.activate a k).enqueueChild k item now
      if d.nPackets > a.maxSize then
        let d ← d.fqCoDelDrop a
        pure (d, true)
      else pure (d, true)

/-- How one round of the loops of `DoDequeue` ends. -/
inductive Visit (α : Type) where
  | nothing
  | again
  | sent (k : Nat) (item : QueueDiscItem α)
  deriving DecidableEq, Repr

/-- The part of the `do` loop that follows the two `while` loops: the flow found, which
is the first of the new flows or else of the old ones, is asked for a packet. -/
def serve (d : FqCoDelQueueDisc α) (k : Nat) (now : Time) :
    Except Fault (FqCoDelQueueDisc α × Visit α) := do
  let f := d.flow k
  let (child, dropped, out) ← f.queueDisc.doDequeue now
  let f := { f with queueDisc := child }
  match out with
  | none =>
    match d.newFlows with
    | _ :: rest =>
      pure ({ d.setFlow k { f with status := .oldFlow } with
        newFlows := rest, oldFlows := d.oldFlows ++ [k] }, .again)
    | [] =>
      pure ({ d.setFlow k { f with status := .inactive } with
        oldFlows := d.oldFlows.tail }, .again)
  | some item =>
    let f := { f with deficit := f.deficit + signed 32 (wsub 32 0 item.size) }
    pure ({ d.setFlow k f with nPackets := wsub 32 d.nPackets (dropped.length + 1) }, .sent k item)

/-- One round of the loops of `DoDequeue`: the body of one of the two `while` loops, or
what follows them once a flow with a positive deficit is found. -/
def visit (a : FqCoDelAttributes α) (d : FqCoDelQueueDisc α) (now : Time) :
    Except Fault (FqCoDelQueueDisc α × Visit α) :=
  match d.newFlows with
  | k :: rest =>
    let f := d.flow k
    if f.deficit ≤ 0 then
      .ok ({ d.setFlow k { f with deficit := f.deficit + signed 32 a.quantum, status := .oldFlow }
        with newFlows := rest, oldFlows := d.oldFlows ++ [k] }, .again)
    else d.serve k now
  | [] =>
    match d.oldFlows with
    | k :: rest =>
      let f := d.flow k
      if f.deficit ≤ 0 then
        .ok ({ d.setFlow k { f with deficit := f.deficit + signed 32 a.quantum }
          with oldFlows := rest ++ [k] }, .again)
      else d.serve k now
    | [] => .ok (d, .nothing)

/-- `DoDequeue`, whose loops make `fuel` rounds at most: the item it returns, with the
flow that it comes from. -/
def doDequeue (a : FqCoDelAttributes α) :
    (fuel : Nat) → FqCoDelQueueDisc α → Time →
      Except Fault (FqCoDelQueueDisc α × Option (Nat × QueueDiscItem α))
  | 0, _, _ => .error .noProgress
  | fuel + 1, d, now => do
      let (d, outcome) ← d.visit a now
      match outcome with
      | .nothing => pure (d, none)
      | .again => doDequeue a fuel d now
      | .sent k item => pure (d, some (k, item))

end FqCoDelQueueDisc

end Ns3
