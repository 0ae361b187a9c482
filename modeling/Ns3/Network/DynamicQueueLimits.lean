/-
  Dynamic queue limits
  (src/network/utils/dynamic-queue-limits.cc).

  The totals that were ever queued and completed are 32-bit words that wrap.  The limit is meant
  to follow from differences of them alone, which is what `Flow` keeps.  A difference of two words
  converted to `int32_t` first need not be an `int32_t`, and its overflow is undefined.
-/
import Ns3.Core.Fault
import Ns3.Lib.Wrap
import Mathlib.Algebra.Order.Ring.Nat

namespace Ns3

open Lib

/-- Why a call on the queue limits does not return. -/
inductive DqlFault where
  /-- `NS_ASSERT` failed -/
  | assertFailed
  /-- a signed subtraction overflowed -/
  | signedOverflow
  deriving DecidableEq, Repr

def UINTMAX : Nat := 2 ^ 32 - 1

def DQL_MAX_OBJECT : Nat := UINTMAX / 16

def DQL_MAX_LIMIT : Nat := UINTMAX / 2 - DQL_MAX_OBJECT

structure DynamicQueueLimits where
  /-- `m_numQueued`, total ever queued -/
  numQueued : Nat
  /-- `m_adjLimit`, limit + num_completed -/
  adjLimit : Nat
  /-- `m_lastObjCnt`, count at last queuing -/
  lastObjCnt : Nat := 0
  limit : Nat := 0
  /-- `m_numCompleted`, total ever completed -/
  numCompleted : Nat
  prevOvlimit : Nat := 0
  prevNumQueued : Nat
  prevLastObjCnt : Nat := 0
  lowestSlack : Nat := UINTMAX
  slackStartTime : Time
  maxLimit : Nat
  minLimit : Nat
  slackHoldTime : Time
  deriving DecidableEq, Repr

namespace DynamicQueueLimits

/-- `Posdiff`, of two words converted to `int32_t`. -/
def posdiff (a b : Nat) : Except DqlFault Nat :=
  let difference := signed 32 a - signed 32 b
  if -2 ^ 31 ≤ difference ∧ difference < 2 ^ 31 then .ok (max difference 0).toNat
  else .error .signedOverflow

/-- The totals of a constructed object, were they to start at `total`. -/
def startingAt (total : Nat) (now : Time) (minLimit maxLimit : Nat) (slackHoldTime : Time) :
    DynamicQueueLimits :=
  { numQueued := total, adjLimit := total, numCompleted := total, prevNumQueued := total
    slackStartTime := now, maxLimit, minLimit, slackHoldTime }

/-- `Reset`; it leaves `m_adjLimit`. -/
def reset (d : DynamicQueueLimits) (now : Time) : DynamicQueueLimits :=
  { d with
    limit := 0, numQueued := 0, numCompleted := 0, lastObjCnt := 0, prevNumQueued := 0
    prevLastObjCnt := 0, prevOvlimit := 0, lowestSlack := UINTMAX, slackStartTime := now }

def queued (d : DynamicQueueLimits) (count : Nat) : Except DqlFault DynamicQueueLimits :=
  if count ≤ DQL_MAX_OBJECT then
    .ok { d with lastObjCnt := count, numQueued := wadd 32 d.numQueued count }
  else .error .assertFailed

/-- `Available`: negative once more is queued than the limit allows. -/
def available (d : DynamicQueueLimits) : Int := signed 32 (wsub 32 d.adjLimit d.numQueued)

def increaseLimit (d : DynamicQueueLimits) (completed : Nat) (now : Time) :
    Except DqlFault (DynamicQueueLimits × Nat) := do
  let grown ← posdiff completed d.prevNumQueued
  pure ({ d with slackStartTime := now, lowestSlack := UINTMAX },
    wadd 32 d.limit (wadd 32 grown d.prevOvlimit))

def slackLastObjs (d : DynamicQueueLimits) : Except DqlFault Nat :=
  if d.prevOvlimit ≠ 0 then posdiff d.prevLastObjCnt d.prevOvlimit else .ok 0

def checkDecreaseLimit (d : DynamicQueueLimits) (completed : Nat) (now : Time) :
    Except DqlFault (DynamicQueueLimits × Nat) := do
  let slack ← posdiff (wadd 32 d.limit d.prevOvlimit)
    (2 * wsub 32 completed d.numCompleted % 2 ^ 32)
  let slackLastObjs ← d.slackLastObjs
  let slack := max slack slackLastObjs
  let lowestSlack := if slack < d.lowestSlack then slack else d.lowestSlack
  if now > d.slackStartTime + d.slackHoldTime then
    let limit ← posdiff d.limit lowestSlack
    pure ({ d with slackStartTime := now, lowestSlack := UINTMAX }, limit)
  else pure ({ d with lowestSlack }, d.limit)

/-- Completed up to `completed`: the slack that is kept, and the limit before its bounds. -/
def adaptLimit (d : DynamicQueueLimits) (completed ovlimit : Nat) (now : Time) :
    Except DqlFault (DynamicQueueLimits × Nat) :=
  let inprogress := wsub 32 d.numQueued completed
  let prevInprogress := wsub 32 d.prevNumQueued d.numCompleted
  let allPrevCompleted := decide (0 ≤ signed 32 (wsub 32 completed d.prevNumQueued))
  if (ovlimit ≠ 0 && inprogress = 0) || (d.prevOvlimit ≠ 0 && allPrevCompleted) then
    d.increaseLimit completed now
  else if inprogress ≠ 0 && prevInprogress ≠ 0 && !allPrevCompleted then
    d.checkDecreaseLimit completed now
  else .ok (d, d.limit)

/-- The limit with its bounds, and what the next completion is told. -/
def updateLimit (d : DynamicQueueLimits) (completed ovlimit limit : Nat) : DynamicQueueLimits :=
  let limit := min (max limit d.minLimit) d.maxLimit
  { d with
    limit, adjLimit := wadd 32 limit completed
    prevOvlimit := if limit = d.limit then ovlimit else 0
    prevLastObjCnt := d.lastObjCnt, numCompleted := completed, prevNumQueued := d.numQueued }

/-- `Completed`: objects leave, and the limit follows the starvation or the slack. -/
def completed (d : DynamicQueueLimits) (count : Nat) (now : Time) :
    Except DqlFault DynamicQueueLimits :=
  if count ≤ wsub 32 d.numQueued d.numCompleted then do
    let completed := wadd 32 d.numCompleted count
    let ovlimit ← posdiff (wsub 32 d.numQueued d.numCompleted) d.limit
    let (d, limit) ← d.adaptLimit completed ovlimit now
    pure (d.updateLimit completed ovlimit limit)
  else .error .assertFailed

end DynamicQueueLimits

/-! ## The limits over the bytes in flight -/

/-- Queue limits without totals. -/
structure Flow where
  inFlight : Nat := 0
  /-- those of them that were queued before the last completion -/
  prevInFlight : Nat := 0
  /-- the count at last queuing -/
  lastObjCnt : Nat := 0
  limit : Nat := 0
  /-- how far over the limit the last completion found the queue -/
  prevOvlimit : Nat := 0
  /-- the count at the last queuing before the last completion -/
  prevLastObjCnt : Nat := 0
  lowestSlack : Nat := UINTMAX
  /-- since when -/
  slackStartTime : Time
  maxLimit : Nat
  minLimit : Nat
  /-- how long a slack has to last -/
  slackHoldTime : Time

namespace Flow

def queued (f : Flow) (count : Nat) : Flow :=
  { f with lastObjCnt := count, inFlight := f.inFlight + count }

def reset (f : Flow) (now : Time) : Flow :=
  { slackStartTime := now, maxLimit := f.maxLimit, minLimit := f.minLimit
    slackHoldTime := f.slackHoldTime }

/-- The queue was starved: it is empty and was over the limit, or it was over the limit before and
all that was in flight then is completed. -/
def Starved (f : Flow) (count : Nat) : Prop :=
  (f.limit < f.inFlight ∧ count = f.inFlight) ∨ (0 < f.prevOvlimit ∧ f.prevInFlight ≤ count)

instance (f : Flow) (count : Nat) : Decidable (f.Starved count) :=
  inferInstanceAs (Decidable (_ ∨ _))

/-- The slack; twice the count is taken as an `int32_t`. -/
def slack (f : Flow) (count : Nat) : Nat :=
  max ((f.limit + f.prevOvlimit : Nat) - signed 32 (2 * count)).toNat
    (if f.prevOvlimit = 0 then 0 else f.prevLastObjCnt - f.prevOvlimit)

/-- The slack that is kept, and the limit before its bounds. -/
def adaptLimit (f : Flow) (count : Nat) (now : Time) : Flow × Nat :=
  if f.Starved count then
    ({ f with slackStartTime := now, lowestSlack := UINTMAX },
      f.limit + (count - f.prevInFlight) + f.prevOvlimit)
  else if count < f.prevInFlight then
    let lowestSlack := min (f.slack count) f.lowestSlack
    if f.slackStartTime + f.slackHoldTime < now then
      ({ f with slackStartTime := now, lowestSlack := UINTMAX }, f.limit - lowestSlack)
    else ({ f with lowestSlack }, f.limit)
  else (f, f.limit)

def completed (f : Flow) (count : Nat) (now : Time) : Flow :=
  let g := (f.adaptLimit count now).1
  let limit := min (max (f.adaptLimit count now).2 f.minLimit) f.maxLimit
  { g with
    limit, inFlight := f.inFlight - count, prevInFlight := f.inFlight - count
    prevOvlimit := if limit = f.limit then f.inFlight - f.limit else 0
    prevLastObjCnt := f.lastObjCnt }

/-- How large the numbers get. -/
structure Bounded (f : Flow) : Prop where
  inFlight : f.inFlight < 2 ^ 31
  prevInFlight : f.prevInFlight ≤ f.inFlight
  lastObjCnt : f.lastObjCnt ≤ DQL_MAX_OBJECT
  limit : f.limit ≤ DQL_MAX_LIMIT
  ovlimit : f.limit + f.prevOvlimit < 2 ^ 31
  prevLastObjCnt : f.prevLastObjCnt ≤ DQL_MAX_OBJECT
  minLimit : f.minLimit ≤ f.maxLimit
  maxLimit : f.maxLimit ≤ DQL_MAX_LIMIT

variable {f : Flow} {count : Nat} {now : Time}

theorem Bounded.queued (h : f.Bounded) (havailable : f.inFlight ≤ f.limit)
    (hcount : count ≤ DQL_MAX_OBJECT) : (f.queued count).Bounded := by
  have hmax : DQL_MAX_LIMIT + DQL_MAX_OBJECT < 2 ^ 31 := by decide
  have hlimit := h.limit
  have hin : f.inFlight + count < 2 ^ 31 := by omega
  exact { h with
    inFlight := hin, lastObjCnt := hcount, prevInFlight := Nat.le_add_right_of_le h.prevInFlight }

theorem Bounded.reset (h : f.Bounded) : (f.reset now).Bounded where
  inFlight := Nat.two_pow_pos 31
  prevInFlight := Nat.le_refl 0
  lastObjCnt := Nat.zero_le _
  limit := Nat.zero_le _
  ovlimit := Nat.two_pow_pos 31
  prevLastObjCnt := Nat.zero_le _
  minLimit := h.minLimit
  maxLimit := h.maxLimit

theorem adaptLimit_fst (f : Flow) (count : Nat) (now : Time) :
    ∃ lowestSlack slackStartTime, (f.adaptLimit count now).1 = { f with
      lowestSlack := lowestSlack, slackStartTime } := by
  rw [adaptLimit]
  split
  · exact ⟨_, _, rfl⟩
  split
  · dsimp only
    split <;> exact ⟨_, _, rfl⟩
  · exact ⟨_, _, rfl⟩

theorem limit_completed (h : f.minLimit ≤ f.maxLimit) (count : Nat) (now : Time) :
    f.minLimit ≤ (f.completed count now).limit ∧ (f.completed count now).limit ≤ f.maxLimit :=
  ⟨Nat.le_min.mpr ⟨Nat.le_max_right _ _, h⟩, Nat.min_le_right _ _⟩

theorem config_completed (f : Flow) (count : Nat) (now : Time) :
    (f.completed count now).minLimit = f.minLimit ∧
      (f.completed count now).maxLimit = f.maxLimit := by
  obtain ⟨lowestSlack, slackStartTime, hadapt⟩ := f.adaptLimit_fst count now
  rw [completed, hadapt]
  exact ⟨rfl, rfl⟩

theorem Bounded.completed (h : f.Bounded) (count : Nat) (now : Time) :
    (f.completed count now).Bounded := by
  obtain ⟨hmin, hmax⟩ := f.config_completed count now
  obtain ⟨-, hle⟩ := limit_completed h.minLimit count now
  have hin := h.inFlight
  have hlimit := h.maxLimit
  have hsmall : DQL_MAX_LIMIT < 2 ^ 31 := by decide
  have hobj : (f.completed count now).lastObjCnt = f.lastObjCnt := by
    obtain ⟨lowestSlack, slackStartTime, hadapt⟩ := f.adaptLimit_fst count now
    rw [Flow.completed, hadapt]
  refine ⟨?_, le_rfl, hobj.symm ▸ h.lastObjCnt, hle.trans hlimit, ?_, h.lastObjCnt,
    ?_, ?_⟩
  · exact (Nat.sub_le _ _).trans_lt hin
  · change (f.completed count now).limit + (if (f.completed count now).limit = f.limit then
      f.inFlight - f.limit else 0) < 2 ^ 31
    split <;> omega
  · rw [hmin, hmax]
    exact h.minLimit
  · rw [hmax]
    exact hlimit

end Flow

namespace DynamicQueueLimits

/-- What the totals amount to. -/
def flow (d : DynamicQueueLimits) : Flow :=
  { inFlight := wsub 32 d.numQueued d.numCompleted
    prevInFlight := wsub 32 d.prevNumQueued d.numCompleted
    lastObjCnt := d.lastObjCnt, limit := d.limit, prevOvlimit := d.prevOvlimit
    prevLastObjCnt := d.prevLastObjCnt, lowestSlack := d.lowestSlack
    slackStartTime := d.slackStartTime, maxLimit := d.maxLimit, minLimit := d.minLimit
    slackHoldTime := d.slackHoldTime }

/-- The totals are words, and no difference of them is large. -/
structure Kept (d : DynamicQueueLimits) : Prop where
  flow : d.flow.Bounded
  numQueued : d.numQueued < 2 ^ 32
  numCompleted : d.numCompleted < 2 ^ 32
  prevNumQueued : d.prevNumQueued < 2 ^ 32
  adjLimit : d.adjLimit = wadd 32 d.limit d.numCompleted

variable {d : DynamicQueueLimits} {count : Nat} {now : Time}

/-! ## Words and differences -/

theorem posdiff_eq {a b : Nat} (ha : a < 2 ^ 31) (hb : b < 2 ^ 31) :
    posdiff a b = .ok (a - b) := by
  rw [posdiff, signed_eq ha, signed_eq hb]
  rw [if_pos (by omega)]
  congr 1
  omega

theorem wadd_wsub {q c : Nat} (hq : q < 2 ^ 32) : wadd 32 c (wsub 32 q c) = q := by
  rw [wadd, wsub]
  omega

variable {c n m : Nat}

theorem wsub_wadd (hn : n < 2 ^ 31) (hm : m ≤ n) : wsub 32 (wadd 32 c n) (wadd 32 c m) = n - m := by
  rw [wsub, wadd, wadd]
  omega

theorem wsub_wadd_self (hn : n < 2 ^ 31) : wsub 32 (wadd 32 c n) c = n := by
  rw [wsub, wadd]
  omega

theorem signed_nonneg_iff (hn : n < 2 ^ 31) (hm : m < 2 ^ 31) :
    0 ≤ signed 32 (wsub 32 (wadd 32 c n) (wadd 32 c m)) ↔ m ≤ n := by
  rw [wsub, wadd, wadd, signed]
  split <;> omega

/-- Only the larger of two totals has its top bit. -/
def Straddles (a b : Nat) : Prop := b < 2 ^ 31 ∧ 2 ^ 31 ≤ a

instance (a b : Nat) : Decidable (Straddles a b) := inferInstanceAs (Decidable (_ ∧ _))

theorem signed_sub_totals (hn : n < 2 ^ 31) (hm : m ≤ n) :
    signed 32 (wadd 32 c n) - signed 32 (wadd 32 c m) =
      if Straddles (wadd 32 c n) (wadd 32 c m) then (n : Int) - m - 2 ^ 32 else (n : Int) - m := by
  have hlt := wadd_lt 32 c n
  have hlt' := wadd_lt 32 c m
  have hdiff : wadd 32 c n = wadd 32 c m + (n - m) ∨
      wadd 32 c n + 2 ^ 32 = wadd 32 c m + (n - m) := by
    rw [wadd, wadd]
    omega
  by_cases hcross : Straddles (wadd 32 c n) (wadd 32 c m)
  · rw [if_pos hcross]
    obtain ⟨hlow, hhigh⟩ := hcross
    rw [signed, if_neg (by omega), signed_eq hlow]
    omega
  · rw [if_neg hcross]
    rw [Straddles] at hcross
    rw [signed, signed]
    split <;> split <;> omega

theorem posdiff_totals (hn : n < 2 ^ 31) (hm : m ≤ n) :
    posdiff (wadd 32 c n) (wadd 32 c m) =
      if Straddles (wadd 32 c n) (wadd 32 c m) then .error .signedOverflow
      else .ok (n - m) := by
  rw [posdiff, signed_sub_totals hn hm]
  by_cases hcross : Straddles (wadd 32 c n) (wadd 32 c m)
  · rw [if_pos hcross, if_pos hcross]
    exact if_neg (by omega)
  · rw [if_neg hcross, if_neg hcross]
    refine (if_pos (by omega)).trans ?_
    congr 1
    omega

theorem posdiff_double {a : Nat} (ha : a < 2 ^ 31) (hn : n < 2 ^ 31) :
    posdiff a (2 * n % 2 ^ 32) =
      if 2 ^ 31 ≤ 2 * n ∧ 2 * n ≤ 2 ^ 31 + a then .error .signedOverflow
      else .ok ((a : Int) - signed 32 (2 * n)).toNat := by
  rw [Nat.mod_eq_of_lt (by omega), posdiff, signed_eq ha]
  by_cases hover : 2 ^ 31 ≤ 2 * n ∧ 2 * n ≤ 2 ^ 31 + a
  · rw [if_pos hover, signed, if_neg (by omega)]
  · have hrange : -2 ^ 31 ≤ (a : Int) - signed 32 (2 * n) ∧
        (a : Int) - signed 32 (2 * n) < 2 ^ 31 := by
      rw [signed]
      split <;> omega
    rw [if_neg hover]
    refine (if_pos hrange).trans ?_
    congr 1
    omega

/-! ## A completion -/

/-- A signed subtraction of the completion overflows: totals on both sides of the largest `int32_t`
are subtracted, or twice the count. -/
def Overflows (d : DynamicQueueLimits) (count : Nat) : Prop :=
  (d.flow.Starved count ∧ Straddles (wadd 32 d.numCompleted count) d.prevNumQueued) ∨
    (count < d.flow.prevInFlight ∧ 2 ^ 31 ≤ 2 * count ∧
      2 * count ≤ 2 ^ 31 + (d.limit + d.prevOvlimit))

instance (d : DynamicQueueLimits) (count : Nat) : Decidable (d.Overflows count) :=
  inferInstanceAs (Decidable (_ ∨ _))

def withSlack (d : DynamicQueueLimits) (f : Flow) : DynamicQueueLimits :=
  { d with lowestSlack := f.lowestSlack, slackStartTime := f.slackStartTime }

theorem Kept.posdiff_prev (h : d.Kept) (hcount : count ≤ d.flow.inFlight)
    (hall : d.flow.prevInFlight ≤ count) :
    posdiff (wadd 32 d.numCompleted count) d.prevNumQueued =
      if Straddles (wadd 32 d.numCompleted count) d.prevNumQueued then .error .signedOverflow
      else .ok (count - d.flow.prevInFlight) := by
  have hin := h.flow.inFlight
  have hprev : wadd 32 d.numCompleted d.flow.prevInFlight = d.prevNumQueued :=
    wadd_wsub h.prevNumQueued
  rw [← hprev]
  exact posdiff_totals (by omega) hall

theorem increaseLimit_eq (h : d.Kept) (hcount : count ≤ d.flow.inFlight)
    (hstarved : d.flow.Starved count) :
    d.increaseLimit (wadd 32 d.numCompleted count) now =
      if d.Overflows count then .error .signedOverflow
      else .ok (d.withSlack (d.flow.adaptLimit count now).1,
        (d.flow.adaptLimit count now).2) := by
  have hin := h.flow.inFlight
  have hle := h.flow.prevInFlight
  have hlimit : d.limit + d.prevOvlimit < 2 ^ 31 := h.flow.ovlimit
  have hall : d.flow.prevInFlight ≤ count := by
    rcases hstarved with ⟨-, hall⟩ | ⟨-, hall⟩ <;> omega
  have hiff : d.Overflows count ↔
      Straddles (wadd 32 d.numCompleted count) d.prevNumQueued := by
    rw [Overflows, and_iff_right hstarved]
    exact or_iff_left fun hdouble => by omega
  rw [increaseLimit, h.posdiff_prev hcount hall, Flow.adaptLimit, if_pos hstarved,
    if_congr hiff rfl rfl]
  split
  · rfl
  · have hsum : wadd 32 d.limit (wadd 32 (count - d.flow.prevInFlight) d.prevOvlimit) =
        d.limit + (count - d.flow.prevInFlight) + d.prevOvlimit := by
      rw [wadd, wadd]
      omega
    simp only [bind, Except.bind, pure, Except.pure, hsum]
    rfl

theorem checkDecreaseLimit_eq (h : d.Kept) (hcount : count < d.flow.prevInFlight) :
    d.checkDecreaseLimit (wadd 32 d.numCompleted count) now =
      if d.Overflows count then .error .signedOverflow
      else .ok (d.withSlack (d.flow.adaptLimit count now).1,
        (d.flow.adaptLimit count now).2) := by
  have hin := h.flow.inFlight
  have hle := h.flow.prevInFlight
  have hover : d.limit + d.prevOvlimit < 2 ^ 31 := h.flow.ovlimit
  have hobj : d.prevLastObjCnt ≤ DQL_MAX_OBJECT := h.flow.prevLastObjCnt
  have hnot : ¬d.flow.Starved count := by
    rintro (⟨-, hall⟩ | ⟨-, hall⟩) <;> omega
  have hiff : d.Overflows count ↔
      2 ^ 31 ≤ 2 * count ∧ 2 * count ≤ 2 ^ 31 + (d.limit + d.prevOvlimit) := by
    rw [Overflows, and_iff_right hcount]
    exact or_iff_right fun hcross => hnot hcross.1
  have hsum : wadd 32 d.limit d.prevOvlimit = d.limit + d.prevOvlimit := wadd_eq (by omega)
  rw [checkDecreaseLimit, hsum, wsub_wadd_self (by omega), posdiff_double hover (by omega),
    Flow.adaptLimit, if_neg hnot, if_pos hcount, if_congr hiff rfl rfl]
  split
  · rfl
  · next hdouble =>
    have hlast : d.slackLastObjs =
        .ok (if d.prevOvlimit = 0 then 0 else d.prevLastObjCnt - d.prevOvlimit) := by
      have hmax : DQL_MAX_OBJECT < 2 ^ 31 := by decide
      rw [slackLastObjs]
      by_cases hzero : d.prevOvlimit = 0
      · rw [if_neg (not_not_intro hzero), if_pos hzero]
      · rw [if_pos hzero, if_neg hzero, posdiff_eq (by omega) (by omega)]
    have hslack : d.flow.slack count < 2 ^ 31 := by
      have hmax : DQL_MAX_OBJECT < 2 ^ 31 := by decide
      have hdiff : ((d.limit + d.prevOvlimit : Nat) - signed 32 (2 * count)).toNat < 2 ^ 31 := by
        rw [signed]
        split <;> omega
      rw [Flow.slack]
      refine Nat.max_lt.mpr ⟨hdiff, ?_⟩
      change (if d.prevOvlimit = 0 then 0 else d.prevLastObjCnt - d.prevOvlimit) < _
      split <;> omega
    have hlowest : (if d.flow.slack count < d.lowestSlack then d.flow.slack count
        else d.lowestSlack) = min (d.flow.slack count) d.lowestSlack := by
      rw [Nat.min_def]
      split <;> split <;> omega
    rw [hlast]
    change (if now > d.slackStartTime + d.slackHoldTime then
        posdiff d.limit (if d.flow.slack count < d.lowestSlack then d.flow.slack count
          else d.lowestSlack) >>= _ else _) = _
    rw [hlowest]
    by_cases hlate : d.slackStartTime + d.slackHoldTime < now
    · rw [if_pos hlate, posdiff_eq (by omega) (by omega)]
      rw [if_pos (show d.flow.slackStartTime + d.flow.slackHoldTime < now from hlate)]
      rfl
    · rw [if_neg hlate]
      change Except.ok ({ d with
        lowestSlack := if d.flow.slack count < d.lowestSlack then d.flow.slack count
          else d.lowestSlack }, d.limit) = _
      rw [hlowest]
      rw [if_neg (show ¬d.flow.slackStartTime + d.flow.slackHoldTime < now from hlate)]
      rfl

theorem adaptLimit_eq (h : d.Kept) (hcount : count ≤ d.flow.inFlight) :
    d.adaptLimit (wadd 32 d.numCompleted count) (d.flow.inFlight - d.limit) now =
      if d.Overflows count then .error .signedOverflow
      else .ok (d.withSlack (d.flow.adaptLimit count now).1,
        (d.flow.adaptLimit count now).2) := by
  have hin := h.flow.inFlight
  have hle := h.flow.prevInFlight
  have hprogress : wsub 32 d.numQueued (wadd 32 d.numCompleted count) =
      d.flow.inFlight - count := by
    rw [← wadd_wsub (c := d.numCompleted) h.numQueued]
    exact wsub_wadd hin hcount
  have hprev : 0 ≤ signed 32 (wsub 32 (wadd 32 d.numCompleted count) d.prevNumQueued) ↔
      d.flow.prevInFlight ≤ count := by
    rw [← wadd_wsub (c := d.numCompleted) h.prevNumQueued]
    exact signed_nonneg_iff (by omega) (by exact hle.trans_lt hin)
  have hstarved : ((d.flow.inFlight - d.limit ≠ 0 && d.flow.inFlight - count = 0) ||
      (d.prevOvlimit ≠ 0 && decide (d.flow.prevInFlight ≤ count))) = true ↔
        d.flow.Starved count := by
    simp only [Bool.or_eq_true, Bool.and_eq_true, decide_eq_true_eq]
    change _ ↔ (d.limit < _ ∧ _) ∨ (0 < d.prevOvlimit ∧ _)
    omega
  rw [adaptLimit, hprogress, decide_eq_decide.mpr hprev]
  by_cases hcase : d.flow.Starved count
  · rw [if_pos (hstarved.mpr hcase), increaseLimit_eq h hcount hcase]
  · rw [if_neg (mt hstarved.mp hcase)]
    change (if (d.flow.inFlight - count ≠ 0 && d.flow.prevInFlight ≠ 0 && _) = true
      then _ else _) = _
    have hbusy : (d.flow.inFlight - count ≠ 0 && d.flow.prevInFlight ≠ 0 &&
        !decide (d.flow.prevInFlight ≤ count)) = true ↔ count < d.flow.prevInFlight := by
      simp only [Bool.and_eq_true, Bool.not_eq_true', decide_eq_true_eq, decide_eq_false_iff_not]
      omega
    by_cases hlt : count < d.flow.prevInFlight
    · rw [if_pos (hbusy.mpr hlt), checkDecreaseLimit_eq h hlt]
    · have hnot : ¬d.Overflows count := by
        rintro (hcross | hdouble)
        · exact hcase hcross.1
        · exact hlt hdouble.1
      rw [if_neg (mt hbusy.mp hlt), if_neg hnot, Flow.adaptLimit, if_neg hcase, if_neg hlt]
      rfl

theorem Kept.completed (h : d.Kept) (hcount : count ≤ d.flow.inFlight) :
    if d.Overflows count then d.completed count now = .error .signedOverflow
    else ∃ d', d.completed count now = .ok d' ∧ d'.Kept ∧
      d'.flow = d.flow.completed count now := by
  have hin := h.flow.inFlight
  have hlimit : d.limit ≤ DQL_MAX_LIMIT := h.flow.limit
  have hsmall : DQL_MAX_LIMIT < 2 ^ 31 := by decide
  have hrun : d.completed count now = d.adaptLimit (wadd 32 d.numCompleted count)
      (d.flow.inFlight - d.limit) now >>= fun r =>
        .ok (r.1.updateLimit (wadd 32 d.numCompleted count) (d.flow.inFlight - d.limit) r.2) := by
    refine (if_pos hcount).trans ?_
    change (posdiff d.flow.inFlight d.limit >>= _) = _
    rw [posdiff_eq hin (by omega)]
    rfl
  rw [hrun, adaptLimit_eq h hcount]
  split
  · rfl
  · have hprogress : wsub 32 d.numQueued (wadd 32 d.numCompleted count) =
        d.flow.inFlight - count := by
      rw [← wadd_wsub (c := d.numCompleted) h.numQueued]
      exact wsub_wadd hin hcount
    obtain ⟨lowestSlack, slackStartTime, hadapt⟩ := d.flow.adaptLimit_fst count now
    have hflow : ((d.withSlack (d.flow.adaptLimit count now).1).updateLimit
        (wadd 32 d.numCompleted count) (d.flow.inFlight - d.limit)
        (d.flow.adaptLimit count now).2).flow = d.flow.completed count now := by
      rw [Flow.completed, hadapt, ← hprogress]
      rfl
    refine ⟨_, rfl, ?_, hflow⟩
    exact ⟨hflow.symm ▸ h.flow.completed count now, h.numQueued, wadd_lt _ _ _, h.numQueued, rfl⟩

theorem Kept.available (h : d.Kept) : d.available = (d.limit : Int) - d.flow.inFlight := by
  have hin := h.flow.inFlight
  have hlimit : d.limit ≤ DQL_MAX_LIMIT := h.flow.limit
  have hsmall : DQL_MAX_LIMIT < 2 ^ 31 := by decide
  have hword : wsub 32 d.adjLimit d.numQueued = wsub 32 d.limit d.flow.inFlight := by
    rw [h.adjLimit, ← wadd_wsub (c := d.numCompleted) h.numQueued]
    rw [show wadd 32 d.numCompleted (wsub 32 d.numQueued d.numCompleted) =
      wadd 32 d.flow.inFlight d.numCompleted from congrArg (· % 2 ^ 32) (Nat.add_comm _ _)]
    exact wsub_wadd_wadd _ _ _ _
  rw [DynamicQueueLimits.available, hword, wsub, signed]
  split <;> omega

end DynamicQueueLimits

/-! ## Runs -/

/-- A call on the queue limits. -/
inductive DqlStep where
  | queued (count : Nat)
  | completed (count : Nat) (now : Time)
  | reset (now : Time)

def DqlStep.inFlight (n : Nat) : DqlStep → Nat
  | .queued count => n + count
  | .completed count _ => n - count
  | .reset _ => 0

namespace Flow

def step (f : Flow) : DqlStep → Flow
  | .queued count => f.queued count
  | .completed count now => f.completed count now
  | .reset now => f.reset now

/-- Objects are of a permitted size and queued within the limit, and no more is completed than is
in flight. -/
def Allowed (f : Flow) : DqlStep → Prop
  | .queued count => f.inFlight ≤ f.limit ∧ count ≤ DQL_MAX_OBJECT
  | .completed count _ => count ≤ f.inFlight
  | .reset _ => True

end Flow

namespace DynamicQueueLimits

variable {d d₀ : DynamicQueueLimits} {s : DqlStep} {minLimit maxLimit : Nat}

def step (d : DynamicQueueLimits) : DqlStep → Except DqlFault DynamicQueueLimits
  | .queued count => d.queued count
  | .completed count now => d.completed count now
  | .reset now => .ok (d.reset now)

def run (d : DynamicQueueLimits) : List DqlStep → Except DqlFault (List DynamicQueueLimits)
  | [] => .ok []
  | s :: steps => do
      let d ← d.step s
      let after ← d.run steps
      .ok (d :: after)

/-- `P` holds before each call of a run. -/
def Along (P : DynamicQueueLimits → DqlStep → Prop) (d : DynamicQueueLimits) :
    List DqlStep → Prop
  | [] => True
  | s :: steps => P d s ∧ ∀ d', d.step s = .ok d' → Along P d' steps

/-- `Queued` is only called while `Available()` is non-negative, with at most `DQL_MAX_OBJECT`,
and `Completed` with no more than is queued. -/
def Allowed (d : DynamicQueueLimits) : DqlStep → Prop
  | .queued count => 0 ≤ d.available ∧ count ≤ DQL_MAX_OBJECT
  | .completed count _ => count ≤ wsub 32 d.numQueued d.numCompleted
  | .reset _ => True

/-- The call overflows no subtraction, and `Reset` finds `m_adjLimit` zero, as it leaves it. -/
def Meets (d : DynamicQueueLimits) : DqlStep → Prop
  | .queued _ => True
  | .completed count _ => ¬d.Overflows count
  | .reset _ => d.adjLimit = 0

def observed (d : DynamicQueueLimits) : Nat × Int := (d.limit, d.available)

/-- `Available()` is the limit less the `n` bytes in flight at each time, and the limit is within
its bounds after each completion. -/
def Sound (minLimit maxLimit : Nat) : Nat → List DqlStep → List DynamicQueueLimits → Prop
  | n, s :: steps, d :: after => d.available = (d.limit : Int) - s.inFlight n ∧
      (∀ count now, s = .completed count now → minLimit ≤ d.limit ∧ d.limit ≤ maxLimit) ∧
      Sound minLimit maxLimit (s.inFlight n) steps after
  | _, [], [] => True
  | _, _, _ => False

theorem Kept.allowed (h : d.Kept) (hs : d.Allowed s) : d.flow.Allowed s := by
  cases s with
  | queued count =>
    obtain ⟨havailable, hcount⟩ := hs
    rw [h.available] at havailable
    exact ⟨by change d.flow.inFlight ≤ d.limit; omega, hcount⟩
  | completed count now => exact hs
  | reset now => trivial

theorem Kept.queued (h : d.Kept) {count : Nat} (hs : d.flow.Allowed (.queued count)) :
    ∃ d', d.queued count = .ok d' ∧ d'.Kept ∧ d'.flow = d.flow.queued count := by
  obtain ⟨havailable, hcount⟩ := hs
  have hbounded := h.flow.queued havailable hcount
  have hword : wsub 32 (wadd 32 d.numQueued count) d.numCompleted = d.flow.inFlight + count := by
    have hin : d.flow.inFlight + count < 2 ^ 31 := hbounded.inFlight
    have hq := wadd_wsub (c := d.numCompleted) h.numQueued
    have hsum : wadd 32 d.numQueued count = wadd 32 d.numCompleted (d.flow.inFlight + count) := by
      rw [← hq]
      change wadd 32 (wadd 32 d.numCompleted d.flow.inFlight) count = _
      rw [wadd_assoc, wadd_eq (b := count) (by omega)]
    rw [hsum, wsub_wadd_self hin]
  have hflow : ({ d with lastObjCnt := count, numQueued := wadd 32 d.numQueued count } :
      DynamicQueueLimits).flow = d.flow.queued count := by
    rw [Flow.queued, ← hword]
    rfl
  refine ⟨_, if_pos hcount, ?_, hflow⟩
  exact ⟨hflow.symm ▸ hbounded, wadd_lt _ _ _, h.numCompleted, h.prevNumQueued, h.adjLimit⟩

/-- A call that keeps the totals and does to the bytes in flight what it would do without them. -/
structure Does (d : DynamicQueueLimits) (s : DqlStep) (d' : DynamicQueueLimits) : Prop where
  kept : d'.Kept
  flow : d'.flow = d.flow.step s

theorem Kept.step (h : d.Kept) (hs : d.flow.Allowed s) :
    (d.Meets s → ∃ d', d.step s = .ok d' ∧ d.Does s d') ∧
      (¬d.Meets s → ∀ d', d.step s = .ok d' →
        d'.available ≠ (d'.limit : Int) - s.inFlight d.flow.inFlight) := by
  cases s with
  | queued count =>
    refine ⟨fun _ => ?_, fun hnot => absurd trivial hnot⟩
    obtain ⟨d', hok, hkept, hflow⟩ := h.queued hs
    exact ⟨d', hok, hkept, hflow⟩
  | completed count now =>
    have hstep : if _ then d.completed count now = _ else _ := h.completed hs
    constructor
    · intro hmeets
      rw [if_neg hmeets] at hstep
      obtain ⟨d', hok, hkept, hflow⟩ := hstep
      exact ⟨d', hok, hkept, hflow⟩
    · intro hover d' hok
      rw [if_pos (not_not.mp hover)] at hstep
      cases hstep.symm.trans hok
  | reset now =>
    constructor
    · intro hadj
      have hzero : wsub 32 0 0 = 0 := wsub_eq (Nat.two_pow_pos 32) (Nat.le_refl 0)
      have hflow : (d.reset now).flow = d.flow.reset now := by
        rw [DynamicQueueLimits.flow, DynamicQueueLimits.reset, Flow.reset]
        simp only [hzero]
        rfl
      exact ⟨_, rfl, ⟨hflow.symm ▸ h.flow.reset, Nat.two_pow_pos 32, Nat.two_pow_pos 32,
        Nat.two_pow_pos 32, hadj⟩, hflow⟩
    · intro hadj d' hok
      cases hok
      have hlt : d.adjLimit < 2 ^ 32 := h.adjLimit ▸ wadd_lt _ _ _
      change signed 32 (wsub 32 d.adjLimit 0) ≠ (0 : Int) - 0
      have hne : d.adjLimit ≠ 0 := hadj
      rw [wsub_eq hlt (Nat.zero_le _), Nat.sub_zero, signed]
      split <;> omega

variable {d' : DynamicQueueLimits}

theorem Does.inFlight (h : d.Does s d') : d'.flow.inFlight = s.inFlight d.flow.inFlight := by
  rw [h.flow]
  cases s <;> rfl

theorem Does.config (h : d.Does s d') : d'.minLimit = d.minLimit ∧ d'.maxLimit = d.maxLimit := by
  have hconfig : (d.flow.step s).minLimit = d.minLimit ∧ (d.flow.step s).maxLimit = d.maxLimit := by
    cases s with
    | queued count => exact ⟨rfl, rfl⟩
    | completed count now => exact d.flow.config_completed count now
    | reset now => exact ⟨rfl, rfl⟩
  rwa [← h.flow] at hconfig

theorem Does.limit (h : d.Does s d') (hmin : d.minLimit ≤ d.maxLimit) (count : Nat) (now : Time)
    (hs : s = .completed count now) : d.minLimit ≤ d'.limit ∧ d'.limit ≤ d.maxLimit := by
  have hbounds := Flow.limit_completed (f := d.flow) hmin count now
  have hflow := h.flow
  rw [hs] at hflow
  change _ = d.flow.completed count now at hflow
  rwa [← hflow] at hbounds

theorem Does.same {d₀' : DynamicQueueLimits} (h : d.Does s d') (h₀ : d₀.Does s d₀')
    (hflow : d.flow = d₀.flow) : d'.flow = d₀'.flow ∧ d'.observed = d₀'.observed := by
  have hsame : d'.flow = d₀'.flow := by rw [h.flow, h₀.flow, hflow]
  have hlimit : d'.limit = d₀'.limit := congrArg Flow.limit hsame
  refine ⟨hsame, ?_⟩
  rw [observed, observed, h.kept.available, h₀.kept.available, hsame, hlimit]

variable {steps : List DqlStep}

theorem run_cons_eq_ok {after : List DynamicQueueLimits} :
    d.run (s :: steps) = .ok after ↔
      ∃ d' rest, d.step s = .ok d' ∧ d'.run steps = .ok rest ∧ after = d' :: rest := by
  rw [run]
  cases hstep : d.step s with
  | error e => simp [bind, Except.bind]
  | ok d' =>
    cases hrest : d'.run steps with
    | error e => simp [bind, Except.bind, hrest]
    | ok rest => simp [bind, Except.bind, hrest, eq_comm]

variable {P : DynamicQueueLimits → DqlStep → Prop}

theorem along_cons_iff (hstep : d.step s = .ok d') :
    d.Along P (s :: steps) ↔ P d s ∧ d'.Along P steps := by
  refine and_congr_right fun _ => ⟨fun h => h d' hstep, fun h x hx => ?_⟩
  cases hstep.symm.trans hx
  exact h

theorem along_cons_of_error {e : DqlFault} (hstep : d.step s = .error e) :
    d.Along P (s :: steps) ↔ P d s := by
  refine and_iff_left fun d' hok => ?_
  rw [hstep] at hok
  cases hok

instance Along.decidable (P : DynamicQueueLimits → DqlStep → Prop) [∀ d s, Decidable (P d s)]
    (d : DynamicQueueLimits) : (steps : List DqlStep) → Decidable (d.Along P steps)
  | [] => inferInstanceAs (Decidable True)
  | s :: steps =>
    match hstep : d.step s with
    | .error _ => decidable_of_iff _ (along_cons_of_error hstep).symm
    | .ok d' =>
      have := Along.decidable P d' steps
      decidable_of_iff _ (along_cons_iff hstep).symm

instance (d : DynamicQueueLimits) : (s : DqlStep) → Decidable (d.Allowed s)
  | .queued _ => inferInstanceAs (Decidable (_ ∧ _))
  | .completed _ _ => inferInstanceAs (Decidable (_ ≤ _))
  | .reset _ => inferInstanceAs (Decidable True)

instance (d : DynamicQueueLimits) : (s : DqlStep) → Decidable (d.Meets s)
  | .queued _ => inferInstanceAs (Decidable True)
  | .completed _ _ => inferInstanceAs (Decidable (¬_))
  | .reset _ => inferInstanceAs (Decidable (_ = _))

/-- Objects with equal flows behave alike, wherever their counters start. -/
theorem Kept.runs (h : d.Kept) (h₀ : d₀.Kept) (hflow : d.flow = d₀.flow) (steps : List DqlStep)
    (hallowed : d₀.Along Allowed steps) :
    (∃ after after₀, d.run steps = .ok after ∧ d₀.run steps = .ok after₀ ∧
      after.map observed = after₀.map observed ∧
        Sound d.minLimit d.maxLimit d.flow.inFlight steps after) ↔
      d.Along Meets steps ∧ d₀.Along Meets steps := by
  induction steps generalizing d d₀ with
  | nil => exact ⟨fun _ => ⟨trivial, trivial⟩, fun _ => ⟨[], [], rfl, rfl, rfl, trivial⟩⟩
  | cons s steps ih =>
    have hs₀ := h₀.allowed hallowed.1
    obtain ⟨hgood₀, hbad₀⟩ := h₀.step hs₀
    obtain ⟨hgood, hbad⟩ := h.step (hflow ▸ hs₀)
    constructor
    · rintro ⟨after, after₀, hrun, hrun₀, hsame, hsound⟩
      obtain ⟨d', rest, hstep, hmore, rfl⟩ := run_cons_eq_ok.mp hrun
      obtain ⟨d₀', rest₀, hstep₀, hmore₀, rfl⟩ := run_cons_eq_ok.mp hrun₀
      obtain ⟨havailable, -, hsound⟩ := hsound
      rw [List.map_cons, List.map_cons, List.cons.injEq] at hsame
      obtain ⟨hobserved, hsame⟩ := hsame
      obtain ⟨hlimit, hseen⟩ := Prod.mk.inj hobserved
      have hmeets : d.Meets s := not_not.mp fun hnot => hbad hnot d' hstep havailable
      have hmeets₀ : d₀.Meets s := not_not.mp fun hnot => hbad₀ hnot d₀' hstep₀ (by
        rw [← hlimit, ← hseen, ← hflow]
        exact havailable)
      obtain ⟨x, hok, hdoes⟩ := hgood hmeets
      obtain ⟨x₀, hok₀, hdoes₀⟩ := hgood₀ hmeets₀
      cases hok.symm.trans hstep
      cases hok₀.symm.trans hstep₀
      rw [← hdoes.config.1, ← hdoes.config.2, ← hdoes.inFlight] at hsound
      have hrest := (ih hdoes.kept hdoes₀.kept (hdoes.same hdoes₀ hflow).1
        (hallowed.2 _ hstep₀)).mp ⟨rest, rest₀, hmore, hmore₀, hsame, hsound⟩
      exact ⟨(along_cons_iff hstep).mpr ⟨hmeets, hrest.1⟩,
        (along_cons_iff hstep₀).mpr ⟨hmeets₀, hrest.2⟩⟩
    · rintro ⟨⟨hmeets, hmore⟩, hmeets₀, hmore₀⟩
      obtain ⟨d', hstep, hdoes⟩ := hgood hmeets
      obtain ⟨d₀', hstep₀, hdoes₀⟩ := hgood₀ hmeets₀
      obtain ⟨hnext, hobserved⟩ := hdoes.same hdoes₀ hflow
      obtain ⟨rest, rest₀, hrun, hrun₀, hsame, hsound⟩ := (ih hdoes.kept hdoes₀.kept hnext
        (hallowed.2 _ hstep₀)).mpr ⟨hmore _ hstep, hmore₀ _ hstep₀⟩
      refine ⟨d' :: rest, d₀' :: rest₀, run_cons_eq_ok.mpr ⟨d', rest, hstep, hrun, rfl⟩,
        run_cons_eq_ok.mpr ⟨d₀', rest₀, hstep₀, hrun₀, rfl⟩, ?_, ?_, ?_, ?_⟩
      · rw [List.map_cons, List.map_cons, hsame, hobserved]
      · rw [hdoes.kept.available, hdoes.inFlight]
      · exact hdoes.limit h.flow.minLimit
      · rwa [hdoes.config.1, hdoes.config.2, hdoes.inFlight] at hsound

theorem kept_startingAt {total : Nat} (htotal : total < 2 ^ 32) (now : Time)
    (hmin : minLimit ≤ maxLimit) (hmax : maxLimit ≤ DQL_MAX_LIMIT) (slackHoldTime : Time) :
    (startingAt total now minLimit maxLimit slackHoldTime).Kept ∧
      (startingAt total now minLimit maxLimit slackHoldTime).flow =
        { slackStartTime := now, maxLimit, minLimit, slackHoldTime } := by
  have hzero : wsub 32 total total = 0 := by
    rw [wsub_eq htotal le_rfl, Nat.sub_self]
  have hflow : (startingAt total now minLimit maxLimit slackHoldTime).flow =
      { slackStartTime := now, maxLimit, minLimit, slackHoldTime } := by
    rw [flow, startingAt]
    simp only [hzero]
  refine ⟨⟨?_, htotal, htotal, htotal, ?_⟩, hflow⟩
  · rw [hflow]
    exact ⟨Nat.two_pow_pos 31, Nat.le_refl 0, Nat.zero_le _, Nat.zero_le _, Nat.two_pow_pos 31,
      Nat.zero_le _, hmin, hmax⟩
  · change total = wadd 32 0 total
    rw [wadd, Nat.zero_add, Nat.mod_eq_of_lt htotal]

/-- **Dynamic queue limits** do not depend on how much was ever sent, exactly in the runs whose
calls meet the condition. -/
theorem startingAt_iff {total : Nat} (htotal : total < 2 ^ 32) (now : Time)
    (hmin : minLimit ≤ maxLimit) (hmax : maxLimit ≤ DQL_MAX_LIMIT) (slackHoldTime : Time)
    (steps : List DqlStep)
    (hallowed : (startingAt 0 now minLimit maxLimit slackHoldTime).Along Allowed steps) :
    (∃ after after₀, (startingAt total now minLimit maxLimit slackHoldTime).run steps = .ok after ∧
      (startingAt 0 now minLimit maxLimit slackHoldTime).run steps = .ok after₀ ∧
        after.map observed = after₀.map observed ∧ Sound minLimit maxLimit 0 steps after) ↔
      (startingAt total now minLimit maxLimit slackHoldTime).Along Meets steps ∧
        (startingAt 0 now minLimit maxLimit slackHoldTime).Along Meets steps := by
  obtain ⟨hkept, hflow⟩ := kept_startingAt htotal now hmin hmax slackHoldTime
  obtain ⟨hkept₀, hflow₀⟩ := kept_startingAt (Nat.two_pow_pos 32) now hmin hmax slackHoldTime
  have hruns := hkept.runs hkept₀ (hflow.trans hflow₀.symm) steps hallowed
  rwa [hflow] at hruns

def sendOne (count : Nat) : List DqlStep := [.queued count, .completed count 0]

/-- Two objects are queued and completed, by a queue whose totals are about to wrap. -/
theorem startingAt_two_objects :
    ∃ after after₀, (startingAt (2 ^ 32 - 2) 0 0 100 0).run (sendOne 5 ++ sendOne 3) = .ok after ∧
      (startingAt 0 0 0 100 0).run (sendOne 5 ++ sendOne 3) = .ok after₀ ∧
        after.map observed = after₀.map observed ∧
          Sound 0 100 0 (sendOne 5 ++ sendOne 3) after :=
  (startingAt_iff (by decide) 0 (by decide) (by decide) 0 (sendOne 5 ++ sendOne 3)
    (by decide)).mpr ⟨by decide, by decide⟩

def twoGigabytes : List DqlStep :=
  (List.replicate 8 (sendOne DQL_MAX_OBJECT)).flatten ++ sendOne 8

/-- With a limit that stays 0 the ninth completion takes the totals past the largest `int32_t`. -/
theorem totals_overflow : (startingAt 0 0 0 0 0).Along Allowed twoGigabytes ∧
    ¬∃ after, (startingAt 0 0 0 0 0).run twoGigabytes = .ok after := by
  refine ⟨by decide +kernel, ?_⟩
  rintro ⟨after, hrun⟩
  have hstop : (startingAt 0 0 0 0 0).run twoGigabytes = .error .signedOverflow := by
    decide +kernel
  rw [hstop] at hrun
  cases hrun

end DynamicQueueLimits

end Ns3
