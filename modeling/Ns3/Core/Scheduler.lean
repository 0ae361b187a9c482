/-
  Events and their order (src/core/model/scheduler.h).
-/
import Mathlib.Data.Prod.Lex
import Mathlib.Data.Nat.Basic

namespace Ns3

/-- What events are ordered by. -/
structure EventKey where
  ts : Nat
  uid : Nat
  context : Nat := 0
  deriving DecidableEq, Repr, Inhabited

/-- `Scheduler::Event`; `impl` is the address of the `EventImpl`. -/
structure Event where
  impl : Nat
  key : EventKey
  deriving DecidableEq, Repr, Inhabited

namespace EventKey

/-- `operator<`. -/
def lt (a b : EventKey) : Bool :=
  decide (a.ts < b.ts) || (decide (a.ts = b.ts) && decide (a.uid < b.uid))

/-- What the order of events compares: the time, and then the uid. -/
def rank (a : EventKey) : Nat ×ₗ Nat := toLex (a.ts, a.uid)

theorem lt_iff {a b : EventKey} : a.lt b = true ↔ a.rank < b.rank := by
  rw [rank, rank, Prod.Lex.toLex_lt_toLex]
  simp [lt]

theorem uid_eq_of_rank {a b : EventKey} (h : a.rank = b.rank) : a.uid = b.uid :=
  congrArg (fun r => (ofLex r).2) h

end EventKey

def Event.rank (e : Event) : Nat ×ₗ Nat := e.key.rank

end Ns3
