/-
  The simulator
  (src/core/model/default-simulator-impl.cc, event-id.h, event-impl.cc).

  Calls from the thread that runs the simulation.  An `EventImpl` is named by its address,
  0 being the null pointer; the simulator's state includes which of them are cancelled.
-/
import Ns3.Core.SortedEvents
import Ns3.Lib.Wrap

namespace Ns3

open Ns3.Lib

/-- A handle on an event. -/
structure EventId where
  impl : Nat := 0
  ts : Nat := 0
  context : Nat := 0
  uid : Nat := 0
  deriving DecidableEq, Repr

namespace EventId

/-- `EventId::UID`. -/
def INVALID : Nat := 0

/-- `EventId::UID`. -/
def DESTROY : Nat := 2

/-- `EventId::UID`. -/
def VALID : Nat := 4

end EventId

/-- The simulator over a scheduler of states `σ`. -/
structure DefaultSimulatorImpl (σ : Type) where
  events : σ
  uid : Nat := EventId.VALID
  currentUid : Nat := EventId.INVALID
  currentTs : Nat := 0
  currentContext : Nat := 0xffffffff
  unscheduledEvents : Int := 0
  eventCount : Nat := 0
  destroyEvents : List EventId := []
  /-- the `EventImpl`s whose `m_cancel` is set -/
  cancelled : List Nat := []
  deriving DecidableEq, Repr

namespace DefaultSimulatorImpl

variable {σ : Type} (ops : SchedulerOps σ) (sim : DefaultSimulatorImpl σ)

/-- The event that `Schedule` and `ScheduleWithContext` insert. -/
def newEvent (tAbsolute : Int) (context impl : Nat) : Event :=
  { impl, key := { ts := (tAbsolute % 2 ^ 64).toNat, uid := sim.uid, context } }

/-- What `Schedule` and `ScheduleWithContext` do with the absolute time. -/
def insertEvent (tAbsolute : Int) (context impl : Nat) :
    Except Fault (EventId × DefaultSimulatorImpl σ) := do
  let ev := sim.newEvent tAbsolute context impl
  let events ← ops.insert sim.events ev
  pure ({ impl, ts := ev.key.ts, context, uid := ev.key.uid },
    { sim with
      events, uid := wadd 32 sim.uid 1
      unscheduledEvents := sim.unscheduledEvents + 1 })

def schedule (delay : Time) (impl : Nat) : Except Fault (EventId × DefaultSimulatorImpl σ) := do
  nsAssert (decide (0 ≤ delay))
  sim.insertEvent ops (delay + sim.currentTs) sim.currentContext impl

def scheduleWithContext (context : Nat) (delay : Time) (impl : Nat) :
    Except Fault (EventId × DefaultSimulatorImpl σ) :=
  sim.insertEvent ops (delay + sim.currentTs) context impl

def scheduleNow (impl : Nat) : Except Fault (EventId × DefaultSimulatorImpl σ) :=
  sim.schedule ops 0 impl

def scheduleDestroy (impl : Nat) : EventId × DefaultSimulatorImpl σ :=
  let id : EventId :=
    { impl, ts := sim.currentTs, context := 0xffffffff, uid := EventId.DESTROY }
  (id, { sim with destroyEvents := sim.destroyEvents ++ [id], uid := wadd 32 sim.uid 1 })

def isExpired (id : EventId) : Bool :=
  if id.uid = EventId.DESTROY then
    if id.impl = 0 || sim.cancelled.contains id.impl then true
    else !sim.destroyEvents.contains id
  else
    id.impl = 0 || decide (id.ts < sim.currentTs) ||
      (id.ts = sim.currentTs && decide (id.uid ≤ sim.currentUid)) ||
      sim.cancelled.contains id.impl

def remove (id : EventId) : Except Fault (DefaultSimulatorImpl σ) :=
  if id.uid = EventId.DESTROY then .ok { sim with destroyEvents := sim.destroyEvents.erase id }
  else if sim.isExpired id then .ok sim
  else do
    let event : Event :=
      { impl := id.impl, key := { ts := id.ts, uid := id.uid, context := id.context } }
    let events ← ops.remove sim.events event
    pure { sim with
      events, cancelled := event.impl :: sim.cancelled
      unscheduledEvents := sim.unscheduledEvents - 1 }

def cancel (id : EventId) : DefaultSimulatorImpl σ :=
  if !sim.isExpired id then { sim with cancelled := id.impl :: sim.cancelled } else sim

/-- `ProcessOneEvent`, up to the calls that the event makes: the event, and whether `Invoke`
notifies it. -/
def processOneEvent : Except Fault (Event × Bool × DefaultSimulatorImpl σ) := do
  let (next, events) ← ops.removeNext sim.events
  nsAssert (decide (sim.currentTs ≤ next.key.ts))
  pure (next, !sim.cancelled.contains next.impl,
    { sim with
      events, unscheduledEvents := sim.unscheduledEvents - 1
      eventCount := sim.eventCount + 1
      currentTs := next.key.ts
      currentContext := next.key.context
      currentUid := next.key.uid })

end DefaultSimulatorImpl

end Ns3
