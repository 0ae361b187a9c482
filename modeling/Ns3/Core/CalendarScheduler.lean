/-
  The calendar queue
  (src/core/model/calendar-scheduler.cc).

  `m_buckets` is a list of buckets, indexed as the array is.
-/
import Ns3.Core.SortedEvents
import Ns3.Lib.Wrap

namespace Ns3

open Ns3.Lib

def EventKey.gt (a b : EventKey) : Bool :=
  decide (b.ts < a.ts) || (decide (a.ts = b.ts) && decide (b.uid < a.uid))

/-- `CalendarScheduler`; `reverse` chooses `NextEvent`, `Order` and `Pop`. -/
structure CalendarScheduler where
  reverse : Bool
  buckets : List (List Event)
  nBuckets : Nat
  width : Nat
  lastBucket : Nat
  bucketTop : Nat
  lastPrio : Nat
  qSize : Nat
  deriving DecidableEq, Repr

namespace CalendarScheduler

variable (s : CalendarScheduler)

/-- `NextEvent`, of a bucket that may be empty. -/
def nextEvent (bucket : List Event) : Option Event :=
  if s.reverse then bucket.getLast? else bucket.head?

def order (a b : EventKey) : Bool := if s.reverse then a.gt b else a.lt b

def pop (bucket : List Event) : List Event :=
  if s.reverse then bucket.dropLast else bucket.tail

/-- `m_buckets[i]`. -/
def bucketAt (i : Nat) : Except Fault (List Event) :=
  match s.buckets[i]? with
  | some bucket => .ok bucket
  | none => .error .badIterator

def hash (ts : Nat) : Except Fault Nat :=
  if s.width = 0 ∨ s.nBuckets = 0 then .error .divideByZero else .ok (ts / s.width % s.nBuckets)

/-- `Init`, which leaves the number of events. -/
def init (nBuckets width startPrio : Nat) : Except Fault CalendarScheduler := do
  let s := { s with
    buckets := List.replicate nBuckets []
    nBuckets, width, lastPrio := startPrio }
  let lastBucket ← s.hash startPrio
  pure { s with
    lastBucket, bucketTop := (startPrio / width + 1) * width % 2 ^ 64 }

/-- The constructor and `SetReverse`. -/
def create (reverse : Bool) : Except Fault CalendarScheduler :=
  init { reverse, buckets := [], nBuckets := 0, width := 0, lastBucket := 0,
         bucketTop := 0, lastPrio := 0, qSize := 0 } 2 1 0

/-- Behind the events of its bucket that come before it. -/
def insertLoop (ev : Event) : List Event → List Event
  | [] => [ev]
  | i :: rest => if s.order ev.key i.key then ev :: i :: rest else i :: insertLoop ev rest

/-- `DoInsert`, into the bucket of its time. -/
def doInsert (ev : Event) : Except Fault CalendarScheduler := do
  let bucket ← s.hash ev.key.ts
  let events ← s.bucketAt bucket
  pure { s with buckets := s.buckets.set bucket (s.insertLoop ev events) }

def isEmpty : Bool := s.qSize = 0

/-- What the loop of `PeekNext` and `DoRemoveNext` finds: an event below the top of its bucket, or
the smallest of the next events. -/
inductive Scan where
  | found (bucket bucketTop : Nat) (next : Event)
  | minimum (min : Option (Nat × Event))
  deriving DecidableEq, Repr

def smaller (i : Nat) (next : Option Event) (minKey : EventKey) (min : Option (Nat × Event)) :
    EventKey × Option (Nat × Event) :=
  match next with
  | some next => if next.key.lt minKey then (next.key, some (i, next)) else (minKey, min)
  | none => (minKey, min)

/-- The loop of `PeekNext` and `DoRemoveNext`. -/
def scanLoop : (fuel : Nat) → (i bucketTop : Nat) → (minKey : EventKey) →
    (min : Option (Nat × Event)) → Except Fault Scan
  | 0, _, _, _, _ => .error .noProgress
  | fuel + 1, i, bucketTop, minKey, min => do
      let bucket ← s.bucketAt i
      match (s.nextEvent bucket).filter fun next => next.key.ts < bucketTop with
      | some next => pure (.found i bucketTop next)
      | none =>
        let (minKey, min) := smaller i (s.nextEvent bucket) minKey min
        let i := (i + 1) % s.nBuckets
        let bucketTop := wadd 64 bucketTop s.width
        if i ≠ s.lastBucket then scanLoop fuel i bucketTop minKey min else pure (.minimum min)

/-- The search from the current bucket on, through all of them. -/
def scan (minKey : EventKey) : Except Fault Scan :=
  s.scanLoop s.nBuckets s.lastBucket s.bucketTop minKey none

/-- `PeekNext`: the scan from the current bucket, without moving it. -/
def peekNext : Except Fault Event := do
  nsAssert (!s.isEmpty)
  let minEvent : Event :=
    { impl := 0, key := { ts := 2 ^ 64 - 1, uid := 2 ^ 32 - 1, context := 0 } }
  let scan ← s.scan minEvent.key
  match scan with
  | .found _ _ next => pure next
  | .minimum (some (_, next)) => pure next
  | .minimum none => pure minEvent

/-- `DoRemoveNext`: the current bucket moves to that of the event. -/
def doRemoveNext : Except Fault (Event × CalendarScheduler) := do
  nsAssert (!s.isEmpty)
  let scan ← s.scan { ts := 2 ^ 64 - 1, uid := 0, context := 0xffffffff }
  match scan with
  | .found i bucketTop next => do
      let bucket ← s.bucketAt i
      pure (next, { s with
        lastBucket := i
        lastPrio := next.key.ts
        bucketTop, buckets := s.buckets.set i (s.pop bucket) })
  | .minimum (some (minBucket, min)) => do
      let lastBucket ← s.hash min.key.ts
      let bucket ← s.bucketAt minBucket
      match s.nextEvent bucket with
      | some next => pure (next, { s with
          lastPrio := min.key.ts
          lastBucket, bucketTop := (min.key.ts / s.width + 1) * s.width % 2 ^ 64
          buckets := s.buckets.set minBucket (s.pop bucket) })
      | none => .error .badIterator
  | .minimum none => .error .badIterator

/-! ## Resizing -/

def nSamples : Nat := Nat.min 25 (if s.qSize ≤ 5 then s.qSize else 5 + s.qSize / 10)

/-- "Gather requested events". -/
def gather : (n : Nat) → CalendarScheduler → Except Fault (List Event × CalendarScheduler)
  | 0, s => .ok ([], s)
  | n + 1, s => do
      let (ev, s) ← s.doRemoveNext
      let (samples, s) ← gather n s
      pure (ev :: samples, s)

/-- "Put them back", and the loop of `DoResize`. -/
def insertAll : List Event → CalendarScheduler → Except Fault CalendarScheduler
  | [], s => .ok s
  | ev :: rest, s => do
      let s ← s.doInsert ev
      insertAll rest s

def separations (samples : List Event) : List Nat :=
  List.zipWith (fun cur next => wsub 64 next.key.ts cur.key.ts) samples samples.tail

/-- "Inter-time average over samples". -/
def widthOf (nSamples : Nat) (samples : List Event) : Nat :=
  let totalSeparation := (separations samples).foldl (wadd 64) 0
  let twiceAvg := totalSeparation / (nSamples - 1) * 2 % 2 ^ 64
  let totalSeparation :=
    ((separations samples).filter fun diff => diff ≤ twiceAvg).foldl (wadd 64) 0
  Nat.max (totalSeparation * 3 % 2 ^ 64) 1

/-- `CalculateNewWidth`, which leaves the events as they are. -/
def calculateNewWidth : Except Fault (Nat × CalendarScheduler) :=
  if s.qSize < 2 then .ok (1, s)
  else do
    let (samples, t) ← gather s.nSamples s
    let t ← insertAll samples t
    pure (widthOf s.nSamples samples, { t with
      lastBucket := s.lastBucket
      bucketTop := s.bucketTop
      lastPrio := s.lastPrio })

/-- `DoResize`: every event is put into a new calendar. -/
def doResize (newSize newWidth : Nat) : Except Fault CalendarScheduler := do
  let t ← s.init newSize newWidth s.lastPrio
  insertAll s.buckets.flatten t

def resize (newSize : Nat) : Except Fault CalendarScheduler := do
  let (newWidth, s) ← s.calculateNewWidth
  s.doResize newSize newWidth

/-- `ResizeUp`: more than two events a bucket. -/
def resizeUp : Except Fault CalendarScheduler :=
  if s.nBuckets * 2 < s.qSize ∧ s.nBuckets < 32768 then s.resize (s.nBuckets * 2) else .ok s

/-- `ResizeDown`: fewer than one event in two buckets. -/
def resizeDown : Except Fault CalendarScheduler :=
  if s.qSize < s.nBuckets / 2 then s.resize (s.nBuckets / 2) else .ok s

/-! ## Calls -/

def insert (ev : Event) : Except Fault CalendarScheduler := do
  let s ← s.doInsert ev
  resizeUp { s with qSize := wadd 32 s.qSize 1 }

def removeNext : Except Fault (Event × CalendarScheduler) := do
  nsAssert (!s.isEmpty)
  let (ev, s) ← s.doRemoveNext
  let s ← resizeDown { s with qSize := wsub 32 s.qSize 1 }
  pure (ev, s)

def remove (ev : Event) : Except Fault CalendarScheduler := do
  nsAssert (!s.isEmpty)
  let bucket ← s.hash ev.key.ts
  let events ← s.bucketAt bucket
  let events ← ListScheduler.removeLoop ev events
  resizeDown { s with
    buckets := s.buckets.set bucket events
    qSize := wsub 32 s.qSize 1 }

end CalendarScheduler

end Ns3
