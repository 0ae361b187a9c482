/-
  The CoDel queue disc
  (src/traffic-control/model/codel-queue-disc.cc, over the internal queue of
  src/network/utils/queue.h).

  A time in CoDel's representation is an unsigned 32-bit word.  `now` is what
  `Simulator::Now()` returns during a call.
-/
import Ns3.Core.Fault
import Ns3.Lib.Wrap
import Mathlib.Data.List.Basic
import Mathlib.Algebra.BigOperators.Group.List.Basic

namespace Ns3

open Ns3.Lib

inductive QueueSizeUnit where
  | packets
  | bytes
  deriving DecidableEq, Repr, Inhabited

structure QueueSize where
  unit : QueueSizeUnit
  value : Nat
  deriving DecidableEq, Repr, Inhabited

/-- A queued packet. -/
structure QueueDiscItem (α : Type) where
  /-- the packet with its headers, as it arrived -/
  packet : α
  /-- `GetSize()` -/
  size : Nat
  /-- `GetTimeStamp()` -/
  timeStamp : Time
  /-- the `IP_DSFIELD` octet, where `GetUint8Value` knows one -/
  dsField : Option Nat
  deriving DecidableEq, Repr, Inhabited

namespace QueueDiscItem

variable {α : Type}

/-- `Mark`: the codepoint becomes CE, unless the packet is not ECN-capable. -/
def mark (item : QueueDiscItem α) : Option (QueueDiscItem α) :=
  match item.dsField with
  | none => none
  | some tos => if tos % 4 = 0 then none else some { item with dsField := some (tos / 4 * 4 + 3) }

theorem mark_eq_some {item marked : QueueDiscItem α} (h : item.mark = some marked) :
    marked.packet = item.packet ∧ marked.size = item.size := by
  unfold mark at h
  split at h
  · cases h
  · split at h
    · cases h
    · cases h
      exact ⟨rfl, rfl⟩

end QueueDiscItem

def reciprocalDivide (a r : Nat) : Nat := a * r % 2 ^ 64 / 2 ^ 32 % 2 ^ 32

def coDelGetTime (now : Time) : Nat := (now % 2 ^ 64 / 2 ^ 10 % 2 ^ 32).toNat

/-- The disc: its attributes and its state. -/
structure CoDelQueueDisc (α : Type) where
  useEcn : Bool
  useL4s : Bool
  minBytes : Nat
  interval : Time
  target : Time
  ceThreshold : Time
  /-- `GetMaxSize()`, also that of the internal queue -/
  maxSize : QueueSize
  count : Nat := 0
  lastCount : Nat := 0
  dropping : Bool := false
  recInvSqrt : Nat := 2 ^ 16 - 1
  firstAboveTime : Nat := 0
  dropNext : Nat := 0
  /-- `GetInternalQueue(0)`, its head first -/
  queue : List (QueueDiscItem α) := []
  deriving DecidableEq, Repr, Inhabited

namespace CoDelQueueDisc

variable {α : Type}

def nBytes (queue : List (QueueDiscItem α)) : Nat := (queue.map (·.size)).sum % 2 ^ 32

/-- `NewtonStep`: the reciprocal of the root of the count, in fixed point. -/
def newtonStep (recInvSqrt count : Nat) : Nat :=
  let invsqrt := recInvSqrt * 2 ^ 16 % 2 ^ 32
  let invsqrt2 := invsqrt * invsqrt / 2 ^ 32 % 2 ^ 32
  let val := wsub 64 (3 * 2 ^ 32) (count * invsqrt2)
  let val := val / 4
  let val := val * invsqrt % 2 ^ 64 / 2 ^ 31
  val / 2 ^ 16 % 2 ^ 16

/-- `ControlLaw`: the interval divided by the root of the count, after `t`. -/
def controlLaw (t interval recInvSqrt : Nat) : Nat :=
  wadd 32 t (reciprocalDivide interval (recInvSqrt * 2 ^ 16 % 2 ^ 32))

def coDelTimeAfter (a b : Nat) : Bool := (a : Int) - b > 0

def coDelTimeAfterEq (a b : Nat) : Bool := (a : Int) - b ≥ 0

def coDelTimeBefore (a b : Nat) : Bool := (a : Int) - b < 0

def time2CoDel (t : Time) : Nat := (t / 2 ^ 10 % 2 ^ 32).toNat

/-- `GetCurrentSize() + item > GetMaxSize()`. -/
def isFull (c : CoDelQueueDisc α) (item : QueueDiscItem α) : Bool :=
  match c.maxSize.unit with
  | .packets => wadd 32 c.queue.length 1 > c.maxSize.value
  | .bytes => wadd 32 (nBytes c.queue) item.size > c.maxSize.value

/-- `QueueDisc::Enqueue` with CoDel's `DoEnqueue`.  The internal queue makes the same
comparison again. -/
def enqueue (c : CoDelQueueDisc α) (item : QueueDiscItem α) (now : Time) :
    CoDelQueueDisc α × Bool :=
  if c.isFull item then (c, false)
  else ({ c with queue := c.queue ++ [{ item with timeStamp := now }] }, true)

/-- `OkToDrop`; `coNow` is the current time in CoDel's representation. -/
def okToDrop (c : CoDelQueueDisc α) (item : Option (QueueDiscItem α)) (now : Time) (coNow : Nat) :
    CoDelQueueDisc α × Bool :=
  match item with
  | none => ({ c with firstAboveTime := 0 }, false)
  | some item =>
    let sojournTime := time2CoDel (now - item.timeStamp)
    if coDelTimeBefore sojournTime (time2CoDel c.target) || nBytes c.queue < c.minBytes then
      ({ c with firstAboveTime := 0 }, false)
    else if c.firstAboveTime = 0 then
      ({ c with firstAboveTime := wadd 32 coNow (time2CoDel c.interval) }, false)
    else (c, coDelTimeAfter coNow c.firstAboveTime)

/-- What a call of `DoDequeue` has in hand when it reaches `end`: the disc, the items it
dropped, the item, and `isMarked`. -/
structure AtEnd (α : Type) where
  disc : CoDelQueueDisc α
  /-- the items handed to `DropAfterDequeue`, in order -/
  dropped : List (QueueDiscItem α)
  item : Option (QueueDiscItem α)
  isMarked : Bool

/-- A packet is marked instead of dropped, when both allow it. -/
def tryMark (c : CoDelQueueDisc α) (item : QueueDiscItem α) : Option (QueueDiscItem α) :=
  if c.useEcn then item.mark else none

/-- The `while` loop of the dropping state.  `queue` is the internal queue, whose items
the loop takes one by one. -/
def dropLoop (now : Time) (coNow : Nat) :
    List (QueueDiscItem α) → CoDelQueueDisc α → QueueDiscItem α → AtEnd α
  | queue, c, item =>
    if c.dropping && coDelTimeAfterEq coNow c.dropNext then
      let count := wadd 32 c.count 1
      let c := { c with count, recInvSqrt := newtonStep c.recInvSqrt count }
      match c.tryMark item with
      | some marked =>
        let dropNext := controlLaw coNow (time2CoDel c.interval) c.recInvSqrt
        { disc := { c with queue, dropNext }
          dropped := [], item := some marked, isMarked := true }
      | none =>
        match queue with
        | [] =>
          let (c, _) := okToDrop { c with queue := [] } none now coNow
          { disc := { c with dropping := false }
            dropped := [item], item := none, isMarked := false }
        | next :: rest =>
          let (c, ok) := okToDrop { c with queue := rest } (some next) now coNow
          let c :=
            if ok then
              { c with dropNext := controlLaw c.dropNext (time2CoDel c.interval) c.recInvSqrt }
            else { c with dropping := false }
          let final := dropLoop now coNow rest c next
          { final with dropped := item :: final.dropped }
    else { disc := { c with queue }, dropped := [], item := some item, isMarked := false }

/-- The dropping state begins, or goes on from the count it ended with. -/
def enterDropping (c : CoDelQueueDisc α) (coNow : Nat) : CoDelQueueDisc α :=
  -- `int delta = m_count - m_lastCount`
  let delta := signed 32 (wsub 32 c.count c.lastCount)
  let goesOn := delta > 1 && coDelTimeBefore (wsub 32 coNow c.dropNext)
    (16 * time2CoDel c.interval % 2 ^ 32)
  let count := if goesOn then delta.toNat else 1
  let recInvSqrt := if goesOn then newtonStep c.recInvSqrt count else 2 ^ 16 - 1
  { c with
    dropping := true
    count, recInvSqrt, lastCount := count
    dropNext := controlLaw coNow (time2CoDel c.interval) recInvSqrt }

/-- The first drop, or mark, of a dropping state. -/
def startDropping (c : CoDelQueueDisc α) (item : QueueDiscItem α) (now : Time) (coNow : Nat) :
    AtEnd α :=
  match c.tryMark item with
  | some marked =>
    { disc := c.enterDropping coNow, dropped := [], item := some marked, isMarked := true }
  | none =>
    match c.queue with
    | [] =>
      let (c, _) := okToDrop c none now coNow
      { disc := c.enterDropping coNow, dropped := [item], item := none, isMarked := false }
    | next :: rest =>
      let (c, _) := okToDrop { c with queue := rest } (some next) now coNow
      { disc := c.enterDropping coNow, dropped := [item], item := some next
        isMarked := false }

/-- What follows the label `end`. -/
def finish (now : Time) (s : AtEnd α) :
    Except Fault (CoDelQueueDisc α × List (QueueDiscItem α) × Option (QueueDiscItem α)) :=
  match s.item with
  | none => .error .nullDereference
  | some item =>
    let ldelay := time2CoDel (now - item.timeStamp)
    if !s.isMarked && !s.disc.useL4s && s.disc.useEcn &&
        coDelTimeAfter ldelay (time2CoDel s.disc.ceThreshold) then
      .ok (s.disc, s.dropped, some (item.mark.getD item))
    else .ok (s.disc, s.dropped, some item)

/-- `(tosByte & 0x3) == 1 || (tosByte & 0x3) == 3`. -/
def isL4s (item : QueueDiscItem α) : Bool :=
  match item.dsField with
  | none => false
  | some tos => tos % 4 = 1 || tos % 4 = 3

/-- `DoDequeue`. -/
def doDequeue (c : CoDelQueueDisc α) (now : Time) :
    Except Fault (CoDelQueueDisc α × List (QueueDiscItem α) × Option (QueueDiscItem α)) :=
  match c.queue with
  | [] => .ok ({ c with dropping := false }, [], none)
  | item :: rest =>
    let c := { c with queue := rest }
    if c.useL4s && isL4s item then
      let ldelay := time2CoDel (now - item.timeStamp)
      if coDelTimeAfter ldelay (time2CoDel c.ceThreshold) then
        .ok (c, [], some (item.mark.getD item))
      else .ok (c, [], some item)
    else
      let coNow := coDelGetTime now
      let (c, ok) := c.okToDrop (some item) now coNow
      if c.dropping then
        if !ok then
          finish now
            { disc := { c with dropping := false }
              dropped := [], item := some item, isMarked := false }
        else finish now (dropLoop now coNow rest c item)
      else if ok then finish now (c.startDropping item now coNow)
      else finish now { disc := c, dropped := [], item := some item, isMarked := false }

/-! ## What a dequeue does to the queue -/

variable {queue rest : List (QueueDiscItem α)} {out : Option (QueueDiscItem α)}

variable {c : CoDelQueueDisc α} {dropped : List (QueueDiscItem α)}

@[simp] theorem okToDrop_queue (c : CoDelQueueDisc α) (item : Option (QueueDiscItem α))
    (now : Time) (coNow : Nat) : (c.okToDrop item now coNow).1.queue = c.queue := by
  unfold okToDrop
  cases item with
  | none => rfl
  | some item =>
    simp only
    split
    · rfl
    · split <;> rfl

@[simp] theorem enterDropping_queue (c : CoDelQueueDisc α) (coNow : Nat) :
    (c.enterDropping coNow).queue = c.queue := rfl

variable {item marked : QueueDiscItem α}

theorem tryMark_eq_some (h : c.tryMark item = some marked) :
    marked.packet = item.packet ∧ marked.size = item.size := by
  unfold tryMark at h
  split at h
  · exact QueueDiscItem.mark_eq_some h
  · cases h

theorem mark_getD (item : QueueDiscItem α) :
    (item.mark.getD item).packet = item.packet ∧ (item.mark.getD item).size = item.size := by
  cases h : item.mark with
  | none => exact ⟨rfl, rfl⟩
  | some marked => exact QueueDiscItem.mark_eq_some h

/-- The items `dropped` and then `item`, up to a mark, are taken from the front of
`queue`, and `rest` remains. -/
def Taken (queue dropped : List (QueueDiscItem α)) (item : QueueDiscItem α)
    (rest : List (QueueDiscItem α)) : Prop :=
  ∃ head, queue = dropped ++ head :: rest ∧ item.packet = head.packet ∧ item.size = head.size

theorem Taken.head (item : QueueDiscItem α) (rest : List (QueueDiscItem α)) :
    Taken (item :: rest) [] item rest := ⟨item, rfl, rfl, rfl⟩

theorem Taken.of_same (h : Taken queue dropped item rest)
    (hmark : marked.packet = item.packet ∧ marked.size = item.size) :
    Taken queue dropped marked rest := by
  obtain ⟨head, hq, hp, hs⟩ := h
  exact ⟨head, hq, hmark.1.trans hp, hmark.2.trans hs⟩

theorem Taken.cons (h : Taken queue dropped item rest) (first : QueueDiscItem α) :
    Taken (first :: queue) (first :: dropped) item rest := by
  obtain ⟨head, rfl, hp, hs⟩ := h
  exact ⟨head, rfl, hp, hs⟩

theorem dropLoop_taken (now : Time) (coNow : Nat) (queue : List (QueueDiscItem α))
    (c : CoDelQueueDisc α) (item out : QueueDiscItem α)
    (h : (dropLoop now coNow queue c item).item = some out) :
    Taken (item :: queue) (dropLoop now coNow queue c item).dropped out
      (dropLoop now coNow queue c item).disc.queue := by
  induction queue generalizing c item with
  | nil =>
    unfold dropLoop at h ⊢
    split at h
    · next hgo =>
        rw [if_pos hgo]
        simp only at h ⊢
        split at h
        · next marked hmark =>
            cases h
            exact (Taken.head item []).of_same (tryMark_eq_some hmark)
        · cases h
    · next hgo =>
        rw [if_neg hgo]
        obtain rfl := Option.some.inj h
        exact Taken.head item []
  | cons next rest ih =>
    unfold dropLoop at h ⊢
    split at h
    · next hgo =>
        rw [if_pos hgo]
        simp only at h ⊢
        split at h
        · next marked hmark =>
            cases h
            exact (Taken.head item _).of_same (tryMark_eq_some hmark)
        · exact (ih _ _ h).cons item
    · next hgo =>
        rw [if_neg hgo]
        obtain rfl := Option.some.inj h
        exact Taken.head item _

theorem startDropping_taken (c : CoDelQueueDisc α) (item out : QueueDiscItem α) (now : Time)
    (coNow : Nat) (h : (c.startDropping item now coNow).item = some out) :
    Taken (item :: c.queue) (c.startDropping item now coNow).dropped out
      (c.startDropping item now coNow).disc.queue := by
  unfold startDropping at h ⊢
  split at h
  · next marked hmark =>
      cases h
      rw [enterDropping_queue]
      exact (Taken.head item c.queue).of_same (tryMark_eq_some hmark)
  · split at h
    · cases h
    · next next rest hqueue =>
        obtain rfl := Option.some.inj h
        simp only [enterDropping_queue, okToDrop_queue]
        rw [hqueue]
        exact (Taken.head next rest).cons item

theorem finish_eq_ok {now : Time} {s : AtEnd α} (h : finish now s = .ok (c, dropped, out)) :
    c = s.disc ∧ dropped = s.dropped ∧ ∃ item marked, s.item = some item ∧ out = some marked ∧
      marked.packet = item.packet ∧ marked.size = item.size := by
  unfold finish at h
  split at h
  · cases h
  · next item hitem =>
      simp only at h
      split at h
      · obtain ⟨rfl, rfl, rfl⟩ := pair_of_ok h |>.imp id Prod.mk.inj
        exact ⟨rfl, rfl, item, _, hitem, rfl, mark_getD item⟩
      · obtain ⟨rfl, rfl, rfl⟩ := pair_of_ok h |>.imp id Prod.mk.inj
        exact ⟨rfl, rfl, item, _, hitem, rfl, rfl, rfl⟩

theorem doDequeue_eq_ok {c' : CoDelQueueDisc α} {now : Time}
    (h : c.doDequeue now = .ok (c', dropped, out)) :
    (out = none ∧ dropped = [] ∧ c.queue = [] ∧ c'.queue = []) ∨
      ∃ item, out = some item ∧ Taken c.queue dropped item c'.queue := by
  unfold doDequeue at h
  split at h
  · next hqueue =>
      obtain ⟨rfl, rfl, rfl⟩ := pair_of_ok h |>.imp id Prod.mk.inj
      exact .inl ⟨rfl, rfl, hqueue, hqueue⟩
  · next item rest hqueue =>
      refine .inr ?_
      rw [hqueue]
      -- what reaches `end` with an item returns it
      have hend : ∀ s : AtEnd α, finish now s = .ok (c', dropped, out) →
          (∀ x, s.item = some x → Taken (item :: rest) s.dropped x s.disc.queue) →
          ∃ x, out = some x ∧ Taken (item :: rest) dropped x c'.queue := by
        intro s hs htaken
        obtain ⟨rfl, rfl, x, marked, hx, hout, hmark⟩ := finish_eq_ok hs
        exact ⟨marked, hout, (htaken x hx).of_same hmark⟩
      simp only at h
      split at h
      · split at h
        · obtain ⟨rfl, rfl, rfl⟩ := pair_of_ok h |>.imp id Prod.mk.inj
          exact ⟨_, rfl, (Taken.head item rest).of_same (mark_getD item)⟩
        · obtain ⟨rfl, rfl, rfl⟩ := pair_of_ok h |>.imp id Prod.mk.inj
          exact ⟨_, rfl, Taken.head item rest⟩
      · have hok := okToDrop_queue { c with queue := rest } (some item) now (coDelGetTime now)
        split at h
        · split at h
          · refine hend _ h fun x hx => ?_
            cases hx
            simp only [hok]
            exact Taken.head item rest
          · exact hend _ h fun x hx => dropLoop_taken _ _ _ _ _ _ hx
        · split at h
          · refine hend _ h fun x hx => ?_
            have := startDropping_taken _ _ _ _ _ hx
            rwa [hok] at this
          · refine hend _ h fun x hx => ?_
            cases hx
            simp only [hok]
            exact Taken.head item rest

theorem finish_ends (now : Time) (s : AtEnd α) : Ends (finish now s) := by
  unfold finish
  split
  · exact nofun
  · simp only
    split
    · exact .ok _
    · exact .ok _

theorem doDequeue_ends (c : CoDelQueueDisc α) (now : Time) : Ends (c.doDequeue now) := by
  unfold doDequeue
  split
  · exact .ok _
  · simp only
    split
    · split
      · exact .ok _
      · exact .ok _
    · split
      · split
        · exact finish_ends _ _
        · exact finish_ends _ _
      · split
        · exact finish_ends _ _
        · exact finish_ends _ _

theorem enqueue_cases (c : CoDelQueueDisc α) (item : QueueDiscItem α) (now : Time) :
    c.enqueue item now = (c, false) ∨
      c.enqueue item now =
        ({ c with queue := c.queue ++ [{ item with timeStamp := now }] }, true) := by
  unfold enqueue
  split
  · exact .inl rfl
  · exact .inr rfl

end CoDelQueueDisc

end Ns3
