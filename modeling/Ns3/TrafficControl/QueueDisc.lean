/-
  Queue discs with their classes and internal queues
  (src/traffic-control/model/queue-disc.cc, src/network/utils/queue.h).

  A queue disc is a tree.  What the base class does with its counters is modelled as it
  is; what a subclass does in DoEnqueue, DoDequeue and DoPeek is a script of the calls it
  makes on its internal queues and classes.  The traces of a class or an internal queue
  are returned as a list of notices, which the parent handles in order.
-/
import Ns3.TrafficControl.CoDelQueueDisc
import Ns3.Lib.Custody

namespace Ns3

open Ns3.Lib

/-- A `QueueDiscItem` as the counters see it. -/
structure QueuedItem where
  /-- which item it is -/
  uid : Nat
  /-- `GetSize()` -/
  size : Nat
  /-- `GetTxQueueIndex()` -/
  txQueueIndex : Nat
  deriving DecidableEq, Repr, Inhabited

/-- A count of packets, a `uint32_t`, and of bytes, a `uint64_t`. -/
@[ext] structure Counter where
  packets : Nat := 0
  bytes : Nat := 0
  deriving DecidableEq, Repr, Inhabited

def Counter.add (c : Counter) (item : QueuedItem) : Counter :=
  ⟨wadd 32 c.packets 1, wadd 64 c.bytes item.size⟩

structure DiscStats where
  /-- `nTotalReceivedPackets`, `nTotalReceivedBytes` -/
  received : Counter := {}
  /-- `nTotalEnqueuedPackets`, `nTotalEnqueuedBytes` -/
  enqueued : Counter := {}
  /-- `nTotalDequeuedPackets`, `nTotalDequeuedBytes` -/
  dequeued : Counter := {}
  /-- `nTotalDroppedPackets`, `nTotalDroppedBytes` -/
  dropped : Counter := {}
  /-- `nTotalDroppedPacketsBeforeEnqueue`, `nTotalDroppedBytesBeforeEnqueue` -/
  droppedBeforeEnqueue : Counter := {}
  /-- `nTotalDroppedPacketsAfterDequeue`, `nTotalDroppedBytesAfterDequeue` -/
  droppedAfterDequeue : Counter := {}
  /-- `nTotalRequeuedPackets`, `nTotalRequeuedBytes` -/
  requeued : Counter := {}
  deriving DecidableEq, Repr, Inhabited

/-- What a queue disc keeps of its own. -/
structure DiscState where
  nPackets : Nat := 0
  nBytes : Nat := 0
  stats : DiscStats := {}
  requeued : Option QueuedItem := none
  peeked : Bool := false
  deriving DecidableEq, Repr, Inhabited

namespace DiscState

def packetEnqueued (s : DiscState) (item : QueuedItem) : DiscState × List (Notice QueuedItem) :=
  ({ s with
      nPackets := wadd 32 s.nPackets 1
      nBytes := wadd 32 s.nBytes item.size
      stats := { s.stats with enqueued := s.stats.enqueued.add item } }, [.enqueue item])

def packetDequeued (s : DiscState) (item : QueuedItem) : DiscState × List (Notice QueuedItem) :=
  if s.peeked then (s, [])
  else
    ({ s with
        nPackets := wsub 32 s.nPackets 1
        nBytes := wsub 32 s.nBytes item.size
        stats := { s.stats with dequeued := s.stats.dequeued.add item } }, [.dequeue item])

def dropBeforeEnqueue (s : DiscState) (item : QueuedItem) : DiscState × List (Notice QueuedItem) :=
  ({ s with
      stats := { s.stats with
        dropped := s.stats.dropped.add item
        droppedBeforeEnqueue := s.stats.droppedBeforeEnqueue.add item } },
    [.dropBeforeEnqueue item])

def dropAfterDequeue (s : DiscState) (item : QueuedItem) : DiscState × List (Notice QueuedItem) :=
  let s := { s with
    stats := { s.stats with
      dropped := s.stats.dropped.add item
      droppedAfterDequeue := s.stats.droppedAfterDequeue.add item } }
  if s.peeked then
    -- `m_peeked` is false while PacketDequeued runs
    let (s, notices) := packetDequeued { s with peeked := false } item
    ({ s with peeked := true }, notices ++ [.dropAfterDequeue item])
  else (s, [.dropAfterDequeue item])

/-- The callbacks that `AddInternalQueue` and `AddQueueDiscClass` connect. -/
def notify (s : DiscState) : Notice QueuedItem → DiscState × List (Notice QueuedItem)
  | .enqueue item => s.packetEnqueued item
  | .dequeue item => s.packetDequeued item
  | .dropBeforeEnqueue item => s.dropBeforeEnqueue item
  | .dropAfterDequeue item => s.dropAfterDequeue item

/-- The notices of one call, in order. -/
def notifyAll (s : DiscState) : List (Notice QueuedItem) → DiscState × List (Notice QueuedItem)
  | [] => (s, [])
  | n :: rest =>
    let (s, notices) := s.notify n
    let (s, notices') := s.notifyAll rest
    (s, notices ++ notices')

end DiscState

structure InternalQueue where
  maxSize : QueueSize
  packets : List QueuedItem := []
  nPackets : Nat := 0
  nBytes : Nat := 0
  deriving DecidableEq, Repr, Inhabited

namespace InternalQueue

/-- `GetCurrentSize() + item > GetMaxSize()`. -/
def isFull (q : InternalQueue) (item : QueuedItem) : Bool :=
  match q.maxSize.unit with
  | .packets => wadd 32 q.nPackets 1 > q.maxSize.value
  | .bytes => wadd 32 q.nBytes item.size > q.maxSize.value

def enqueue (q : InternalQueue) (pos : Nat) (item : QueuedItem) :
    InternalQueue × List (Notice QueuedItem) × Bool :=
  if q.isFull item then (q, [.dropBeforeEnqueue item], false)
  else
    ({ q with
        packets := q.packets.take pos ++ item :: q.packets.drop pos
        nBytes := wadd 32 q.nBytes item.size
        nPackets := wadd 32 q.nPackets 1 }, [.enqueue item], true)

/-- `DoDequeue(pos)`. -/
def dequeue (q : InternalQueue) (pos : Nat) :
    Except Fault (InternalQueue × List (Notice QueuedItem) × Option QueuedItem) :=
  if q.nPackets = 0 then .ok (q, [], none)
  else
    match q.packets[pos]? with
    | none => .error .badIterator
    | some item => do
        nsAssert (q.nBytes ≥ item.size)
        nsAssert (q.nPackets > 0)
        pure ({ q with
          packets := q.packets.eraseIdx pos
          nBytes := wsub 32 q.nBytes item.size
          nPackets := wsub 32 q.nPackets 1 }, [.dequeue item], some item)

def remove (q : InternalQueue) (pos : Nat) :
    Except Fault (InternalQueue × List (Notice QueuedItem) × Option QueuedItem) := do
  let (q, notices, item) ← q.dequeue pos
  match item with
  | none => pure (q, notices, none)
  | some item => pure (q, notices ++ [.dropAfterDequeue item], some item)

end InternalQueue

/-- A queue disc with its internal queues and the queue discs of its classes. -/
inductive QueueDisc where
  /-- `reaches` tells whether the subclass takes packets out of an internal queue of a
  class, as the Fq queue discs do, or may peek its classes, as the others do -/
  | mk (state : DiscState) (reaches : Bool) (queues : List InternalQueue)
      (classes : List QueueDisc)

mutual

/-- What a subclass does in `DoDequeue`. -/
inductive DequeueScript where
  | null
  /-- it dequeues from an internal queue, and keeps the packet or drops it -/
  | fromQueue (i pos : Nat) (keep : Bool) (next : DequeueScript)
  /-- it removes a packet from an internal queue -/
  | removeQueue (i pos : Nat) (next : DequeueScript)
  /-- it dequeues from a class, and keeps the packet or drops it -/
  | fromClass (i : Nat) (child : DequeueScript) (keep : Bool) (next : DequeueScript)
  | peekClass (i : Nat) (child : PeekScript) (next : DequeueScript)
  /-- it dequeues from an internal queue of a class and drops the packet -/
  | reachQueue (i j pos : Nat) (next : DequeueScript)

/-- What a subclass does in `DoPeek`. -/
inductive PeekScript where
  | null
  /-- the base class: it dequeues and keeps the packet -/
  | byDequeue (script : DequeueScript)
  | fromQueue (i pos : Nat) (next : PeekScript)
  | fromClass (i : Nat) (child : PeekScript) (next : PeekScript)

end

/-- What a subclass does in `DoEnqueue`.  It may drop other packets before and after. -/
inductive EnqueueScript where
  | first (drops : DequeueScript) (next : EnqueueScript)
  /-- it creates a class with internal queues of these sizes -/
  | create (reaches : Bool) (sizes : List QueueSize) (next : EnqueueScript)
  | drop (drops : DequeueScript)
  | toQueue (i pos : Nat) (drops : DequeueScript)
  | toClass (i : Nat) (child : EnqueueScript) (drops : DequeueScript)

namespace QueueDisc

def state : QueueDisc → DiscState
  | mk s _ _ _ => s

def withState : QueueDisc → DiscState → QueueDisc
  | mk _ r qs cs, s => mk s r qs cs

/-- What a call returns: the disc, the notices and a result. -/
abbrev Outcome (β : Type) : Type := QueueDisc × List (Notice QueuedItem) × β

variable {β : Type}

def onQueue (d : QueueDisc) (i : Nat)
    (call : InternalQueue → Except Fault (InternalQueue × List (Notice QueuedItem) × β)) :
    Except Fault (Outcome β) :=
  match d with
  | mk s r qs cs =>
    match qs[i]? with
    | none => .error .badIterator
    | some q => do
        let (q, notices, result) ← call q
        let (s, notices) := s.notifyAll notices
        pure (mk s r (qs.set i q) cs, notices, result)

def onClass (d : QueueDisc) (i : Nat) (call : QueueDisc → Except Fault (Outcome β)) :
    Except Fault (Outcome β) :=
  match d with
  | mk s r qs cs =>
    match cs[i]? with
    | none => .error .badIterator
    | some c => do
        let (c, notices, result) ← call c
        let (s, notices) := s.notifyAll notices
        pure (mk s r qs (cs.set i c), notices, result)

def dropIfAny (d : QueueDisc) (item : Option QueuedItem) : QueueDisc × List (Notice QueuedItem) :=
  match item with
  | none => (d, [])
  | some item =>
    let (s, notices) := d.state.dropAfterDequeue item
    (d.withState s, notices)

/-- `Dequeue`, over what the subclass does in `DoDequeue`. -/
def dequeue (doDequeue : QueueDisc → Except Fault (Outcome (Option QueuedItem))) (d : QueueDisc) :
    Except Fault (Outcome (Option QueuedItem)) := do
  let (d, notices, item) ←
    match d.state.requeued with
    | some item =>
      let s := { d.state with requeued := none }
      if s.peeked then
        let (s, notices) := DiscState.packetDequeued { s with peeked := false } item
        pure (d.withState s, notices, some item)
      else pure (d.withState s, [], some item)
    | none => doDequeue d
  let s := d.state
  nsAssert (s.nPackets = wsub 32 s.stats.enqueued.packets s.stats.dequeued.packets)
  nsAssert (s.nBytes = wsub 64 s.stats.enqueued.bytes s.stats.dequeued.bytes)
  pure (d, notices, item)

/-- `QueueDisc::DoPeek`, over what the subclass does in `DoDequeue`. -/
def peekByDequeue (doDequeue : QueueDisc → Except Fault (Outcome (Option QueuedItem)))
    (d : QueueDisc) : Except Fault (Outcome (Option QueuedItem)) :=
  match d.state.requeued with
  | some item => pure (d, [], some item)
  | none => do
      let (d, notices, item) ← dequeue doDequeue (d.withState { d.state with peeked := true })
      match item with
      | some item => pure (d.withState { d.state with requeued := some item }, notices, some item)
      | none => pure (d.withState { d.state with requeued := none, peeked := false }, notices, none)

/-- The subclass keeps the packet it has and returns it, or drops it and goes on. -/
def goOn (keep : Bool) (next : QueueDisc → Except Fault (Outcome (Option QueuedItem)))
    (outcome : Except Fault (Outcome (Option QueuedItem))) :
    Except Fault (Outcome (Option QueuedItem)) := do
  let (d, notices, item) ← outcome
  if keep && item.isSome then pure (d, notices, item)
  else
    let (d, notices') := d.dropIfAny item
    let (d, notices'', item) ← next d
    pure (d, notices ++ notices' ++ notices'', item)

/-- The subclass goes on, whatever was returned. -/
def andThen (next : QueueDisc → Except Fault (Outcome (Option QueuedItem)))
    (outcome : Except Fault (Outcome β)) : Except Fault (Outcome (Option QueuedItem)) := do
  let (d, notices, _) ← outcome
  let (d, notices', item) ← next d
  pure (d, notices ++ notices', item)

mutual

def doDequeue : DequeueScript → QueueDisc → Except Fault (Outcome (Option QueuedItem))
  | .null, d => pure (d, [], none)
  | .fromQueue i pos keep next, d => goOn keep (doDequeue next) (d.onQueue i (·.dequeue pos))
  | .removeQueue i pos next, d => andThen (doDequeue next) (d.onQueue i (·.remove pos))
  | .fromClass i child keep next, d =>
    goOn keep (doDequeue next) (d.onClass i (dequeue (doDequeue child)))
  | .peekClass i child next, d =>
    -- a disc that reaches into its classes does not peek them
    match d with
    | mk _ true _ _ => .error .fatalError
    | mk _ false _ _ => andThen (doDequeue next) (d.onClass i (doPeek child))
  | .reachQueue i j pos next, d =>
    match d with
    | mk _ false _ _ => .error .fatalError
    | mk _ true _ _ =>
      goOn false (doDequeue next) (d.onClass i fun c => c.onQueue j (·.dequeue pos))

def doPeek : PeekScript → QueueDisc → Except Fault (Outcome (Option QueuedItem))
  | .null, d => pure (d, [], none)
  | .byDequeue script, d => peekByDequeue (doDequeue script) d
  | .fromQueue i pos next, d =>
    match d with
    | mk _ _ qs _ =>
      match (qs[i]?).bind (·.packets[pos]?) with
      | some item => pure (d, [], some item)
      | none => doPeek next d
  | .fromClass i child next, d => do
      match d with
      | mk _ true _ _ => .error .fatalError
      | mk _ false _ _ =>
        let (d, notices, item) ← d.onClass i (doPeek child)
        match item with
        | some item => pure (d, notices, some item)
        | none =>
          let (d, notices', item) ← doPeek next d
          pure (d, notices ++ notices', item)

end

/-- `Enqueue`, over what the subclass does in `DoEnqueue`. -/
def enqueue (doEnqueue : QueueDisc → Except Fault (Outcome Bool)) (item : QueuedItem)
    (d : QueueDisc) : Except Fault (Outcome Bool) := do
  let s := d.state
  let s := { s with stats := { s.stats with received := s.stats.received.add item } }
  let (d, notices, retval) ← doEnqueue (d.withState s)
  let t := d.state.stats
  nsAssert (t.received.packets = wadd 32 t.droppedBeforeEnqueue.packets t.enqueued.packets)
  nsAssert (t.received.bytes = wadd 64 t.droppedBeforeEnqueue.bytes t.enqueued.bytes)
  pure (d, notices, retval)

/-- The packets that the subclass drops in an enqueue. -/
def dropping (drops : DequeueScript) (outcome : Except Fault (Outcome β)) :
    Except Fault (Outcome β) := do
  let (d, notices, result) ← outcome
  let (d, notices', item) ← doDequeue drops d
  let (d, notices'') := d.dropIfAny item
  pure (d, notices ++ notices' ++ notices'', result)

def empty (reaches : Bool) (sizes : List QueueSize) : QueueDisc :=
  mk {} reaches (sizes.map fun size => { maxSize := size }) []

def doEnqueue (item : QueuedItem) : EnqueueScript → QueueDisc → Except Fault (Outcome Bool)
  | .first drops next, d => do
      let (d, notices, _) ← dropping drops (pure (d, [], ()))
      let (d, notices', result) ← doEnqueue item next d
      pure (d, notices ++ notices', result)
  | .create reaches sizes next, d =>
    match d with
    | mk s r qs cs => doEnqueue item next (mk s r qs (cs ++ [empty reaches sizes]))
  | .drop drops, d =>
    let (s, notices) := d.state.dropBeforeEnqueue item
    dropping drops (pure (d.withState s, notices, false))
  | .toQueue i pos drops, d => dropping drops (d.onQueue i fun q => pure (q.enqueue pos item))
  | .toClass i child drops, d => dropping drops (d.onClass i (enqueue (doEnqueue item child) item))

end QueueDisc

end Ns3
