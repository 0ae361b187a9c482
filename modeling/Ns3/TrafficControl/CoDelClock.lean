/-
  CoDel's 32-bit clock, and runs at other times
  (src/traffic-control/model/codel-queue-disc.cc).

  A CoDel time counts units of 1024 ns in a 32-bit word, but two words are compared as if the
  clock never wrapped.  A run that is moved in time decides as before while the words that are
  compared keep their order.
-/
import Ns3.TrafficControl.CoDelQueueDisc

namespace Ns3

open Ns3.Lib

def QueueDiscItem.later {α : Type} (k : Time) (item : QueueDiscItem α) : QueueDiscItem α :=
  { item with timeStamp := item.timeStamp + k }

namespace CoDelQueueDisc

variable {α : Type}

/-! ## Comparisons -/

/-- The three comparisons of the words of two times tell their order. -/
def Ordered (a b : Nat) : Prop :=
  (coDelTimeAfter (a % 2 ^ 32) (b % 2 ^ 32) = true ↔ b < a) ∧
    (coDelTimeAfterEq (a % 2 ^ 32) (b % 2 ^ 32) = true ↔ b ≤ a) ∧
    (coDelTimeBefore (a % 2 ^ 32) (b % 2 ^ 32) = true ↔ a < b)

section

variable {a b m : Nat}

@[simp] theorem coDelTimeAfter_iff : coDelTimeAfter a b = true ↔ b < a := by
  rw [coDelTimeAfter, decide_eq_true_iff]
  omega

@[simp] theorem coDelTimeAfterEq_iff : coDelTimeAfterEq a b = true ↔ b ≤ a := by
  rw [coDelTimeAfterEq, decide_eq_true_iff]
  omega

@[simp] theorem coDelTimeBefore_iff : coDelTimeBefore a b = true ↔ a < b := by
  rw [coDelTimeBefore, decide_eq_true_iff]
  omega

theorem ordered_iff (hab : a < b + 2 ^ 31) (hba : b < a + 2 ^ 31) :
    Ordered a b ↔ a / 2 ^ 32 = b / 2 ^ 32 := by
  rw [Ordered, coDelTimeAfter_iff, coDelTimeAfterEq_iff, coDelTimeBefore_iff]
  omega

theorem coDelTimeAfter_moved (ha : a < 2 ^ 32) (hb : b < 2 ^ 32) (hm : m < 2 ^ 32)
    (h : SameLap 32 m a b) : coDelTimeAfter (wadd 32 a m) (wadd 32 b m) = coDelTimeAfter a b := by
  rw [Bool.eq_iff_iff, coDelTimeAfter_iff, coDelTimeAfter_iff, wadd_lt_wadd_iff hb ha hm h.symm]

theorem coDelTimeAfterEq_moved (ha : a < 2 ^ 32) (hb : b < 2 ^ 32) (hm : m < 2 ^ 32)
    (h : SameLap 32 m a b) :
    coDelTimeAfterEq (wadd 32 a m) (wadd 32 b m) = coDelTimeAfterEq a b := by
  rw [Bool.eq_iff_iff, coDelTimeAfterEq_iff, coDelTimeAfterEq_iff, ← Nat.not_lt, ← Nat.not_lt,
    wadd_lt_wadd_iff ha hb hm h]

theorem controlLaw_moved (t interval recInvSqrt m : Nat) :
    controlLaw (wadd 32 t m) interval recInvSqrt = wadd 32 (controlLaw t interval recInvSqrt) m :=
  wadd_right_comm _ _ _ _

theorem coDelGetTime_lt (now : Time) : coDelGetTime now < 2 ^ 32 := by
  rw [coDelGetTime]
  omega

end

/-! ## A disc at another time -/

/-- A deadline, 0 if it is not set, and the same deadline `m` units later. -/
def Deadline (m a b : Nat) : Prop :=
  a = 0 ∧ b = 0 ∨ a ≠ 0 ∧ b ≠ 0 ∧ a < 2 ^ 32 ∧ b = wadd 32 a m

def moved (k : Time) (firstAboveTime dropNext : Nat) (c : CoDelQueueDisc α) : CoDelQueueDisc α :=
  { c with firstAboveTime, dropNext, queue := c.queue.map (·.later k) }

/-- The item did not wait long enough to be dropped, or too little is queued behind it. -/
def Below (c : CoDelQueueDisc α) (item : QueueDiscItem α) (now : Time) : Prop :=
  coDelTimeBefore (time2CoDel (now - item.timeStamp)) (time2CoDel c.target) = true ∨
    nBytes c.queue < c.minBytes

/-- What `OkToDrop` compares, or sets, is not taken across the wrap by the move. -/
structure OkToDropSteady (m : Nat) (c : CoDelQueueDisc α) (item : QueueDiscItem α) (now : Time)
    (coNow : Nat) : Prop where
  compared : ¬c.Below item now → c.firstAboveTime ≠ 0 → SameLap 32 m coNow c.firstAboveTime
  /-- 0 would unset the deadline -/
  set : ¬c.Below item now → c.firstAboveTime = 0 →
    (wadd 32 coNow (time2CoDel c.interval) = 0 ↔
      wadd 32 (wadd 32 coNow (time2CoDel c.interval)) m = 0)

section

variable {k : Time} {m f d : Nat} {c : CoDelQueueDisc α} {item : Option (QueueDiscItem α)}
  {now : Time} {coNow : Nat}

theorem nBytes_later (queue : List (QueueDiscItem α)) :
    nBytes (queue.map (·.later k)) = nBytes queue := by
  rw [nBytes, nBytes, List.map_map]
  rfl

theorem sojourn_later (item : QueueDiscItem α) :
    now + k - (item.later k).timeStamp = now - item.timeStamp :=
  Int.add_sub_add_right _ _ _

variable {item : QueueDiscItem α}

theorem okToDrop_below (h : c.Below item now) :
    c.okToDrop (some item) now coNow = ({ c with firstAboveTime := 0 }, false) := by
  have hbelow : (coDelTimeBefore (time2CoDel (now - item.timeStamp)) (time2CoDel c.target) ||
      decide (nBytes c.queue < c.minBytes)) = true := by
    rwa [Bool.or_eq_true, decide_eq_true_iff]
  rw [okToDrop, if_pos hbelow]

theorem okToDrop_above (h : ¬c.Below item now) :
    c.okToDrop (some item) now coNow =
      if c.firstAboveTime = 0 then
        ({ c with firstAboveTime := wadd 32 coNow (time2CoDel c.interval) }, false)
      else (c, coDelTimeAfter coNow c.firstAboveTime) := by
  have habove : ¬(coDelTimeBefore (time2CoDel (now - item.timeStamp)) (time2CoDel c.target) ||
      decide (nBytes c.queue < c.minBytes)) = true := by
    rwa [Bool.or_eq_true, decide_eq_true_iff]
  rw [okToDrop, if_neg habove]

theorem below_moved (item : QueueDiscItem α) :
    (c.moved k f d).Below (item.later k) (now + k) ↔ c.Below item now := by
  rw [Below, Below, sojourn_later, moved, nBytes_later]

theorem okToDrop_moved (item : QueueDiscItem α) (hm : m < 2 ^ 32) (hnow : coNow < 2 ^ 32)
    (hdeadline : Deadline m c.firstAboveTime f) (hsteady : c.OkToDropSteady m item now coNow)
    {later : Nat} (hclock : ¬c.Below item now → later = wadd 32 coNow m) :
    ∃ f', Deadline m (c.okToDrop (some item) now coNow).1.firstAboveTime f' ∧
      (c.moved k f d).okToDrop (some (item.later k)) (now + k) later =
        ((c.okToDrop (some item) now coNow).1.moved k f' d,
          (c.okToDrop (some item) now coNow).2) := by
  by_cases hbelow : c.Below item now
  · rw [okToDrop_below hbelow, okToDrop_below ((below_moved item).mpr hbelow)]
    exact ⟨0, .inl ⟨rfl, rfl⟩, rfl⟩
  rw [okToDrop_above hbelow, okToDrop_above (mt (below_moved item).mp hbelow), hclock hbelow]
  rcases hdeadline with ⟨hzero, hzero'⟩ | ⟨hset, hset', hlt, hf⟩
  · have hmoved : (c.moved k f d).firstAboveTime = 0 := hzero'
    rw [if_pos hzero, if_pos hmoved, wadd_right_comm]
    refine ⟨_, ?_, rfl⟩
    have hsame := hsteady.set hbelow hzero
    by_cases hunset : wadd 32 coNow (time2CoDel c.interval) = 0
    · exact .inl ⟨hunset, hsame.mp hunset⟩
    · exact .inr ⟨hunset, fun h => hunset (hsame.mpr h), wadd_lt _ _ _, rfl⟩
  · have hmoved : ¬(c.moved k f d).firstAboveTime = 0 := hset'
    rw [if_neg hset, if_neg hmoved]
    refine ⟨f, .inr ⟨hset, hset', hlt, hf⟩, ?_⟩
    change (c.moved k f d, coDelTimeAfter (wadd 32 coNow m) f) = _
    rw [hf, coDelTimeAfter_moved hnow hlt hm (hsteady.compared hbelow hset)]

end

/-! ## The dropping state -/

def counted (c : CoDelQueueDisc α) : CoDelQueueDisc α :=
  { c with count := wadd 32 c.count 1, recInvSqrt := newtonStep c.recInvSqrt (wadd 32 c.count 1) }

def scheduled (next : CoDelQueueDisc α × Bool) : CoDelQueueDisc α :=
  if next.2 then
    { next.1 with
      dropNext := controlLaw next.1.dropNext (time2CoDel next.1.interval) next.1.recInvSqrt }
  else { next.1 with dropping := false }

/-- What the loop compares is not taken across the wrap by the move. -/
def LoopSteady (m : Nat) (now : Time) (coNow : Nat) :
    List (QueueDiscItem α) → CoDelQueueDisc α → QueueDiscItem α → Prop
  | [], c, _ => c.dropping = true → SameLap 32 m coNow c.dropNext
  | next :: rest, c, item =>
    (c.dropping = true → SameLap 32 m coNow c.dropNext) ∧
      (c.dropping = true → coDelTimeAfterEq coNow c.dropNext = true →
        c.counted.tryMark item = none →
          OkToDropSteady m { c.counted with queue := rest } next now coNow ∧
            LoopSteady m now coNow rest
              (scheduled (okToDrop { c.counted with queue := rest } (some next) now coNow)) next)

/-- What a call has in hand, at another time. -/
def AtEnd.moved (k : Time) (firstAboveTime dropNext : Nat) (s : AtEnd α) : AtEnd α where
  disc := s.disc.moved k firstAboveTime dropNext
  dropped := s.dropped.map (·.later k)
  item := s.item.map (·.later k)
  isMarked := s.isMarked

variable {rest : List (QueueDiscItem α)}

section

variable {k : Time} {m f d : Nat} {c : CoDelQueueDisc α} {item : QueueDiscItem α}
  {queue : List (QueueDiscItem α)} {now : Time} {coNow : Nat}

theorem mark_later (item : QueueDiscItem α) :
    (item.later k).mark = item.mark.map (·.later k) := by
  rw [QueueDiscItem.mark, QueueDiscItem.mark, QueueDiscItem.later]
  dsimp only
  cases item.dsField with
  | none => rfl
  | some tos =>
    dsimp only
    split <;> rfl

theorem tryMark_moved (c : CoDelQueueDisc α) (item : QueueDiscItem α) :
    (c.moved k f d).tryMark (item.later k) = (c.tryMark item).map (·.later k) := by
  rw [tryMark, tryMark, mark_later, moved]
  dsimp only
  split <;> rfl

theorem counted_tryMark_moved (c : CoDelQueueDisc α) (item : QueueDiscItem α) :
    (c.moved k f d).counted.tryMark (item.later k) =
      (c.counted.tryMark item).map (·.later k) :=
  tryMark_moved c.counted item

theorem dropLoop_stop (h : ¬(c.dropping = true ∧ coDelTimeAfterEq coNow c.dropNext = true)) :
    dropLoop now coNow queue c item =
      { disc := { c with queue }
        dropped := []
        item := some item
        isMarked := false } := by
  rw [← Bool.and_eq_true] at h
  cases queue with
  | nil => rw [dropLoop, if_neg h]
  | cons next rest => rw [dropLoop, if_neg h]

section

variable (h : c.dropping = true ∧ coDelTimeAfterEq coNow c.dropNext = true)

include h

theorem dropLoop_mark {marked : QueueDiscItem α} (hmark : c.counted.tryMark item = some marked) :
    dropLoop now coNow queue c item =
      { disc := { c.counted with
          queue, dropNext := controlLaw coNow (time2CoDel c.interval) c.counted.recInvSqrt }
        dropped := [], item := some marked, isMarked := true } := by
  rw [← Bool.and_eq_true] at h
  cases queue with
  | nil =>
    rw [dropLoop, if_pos h]
    simp only [counted] at hmark ⊢
    rw [hmark]
  | cons next rest =>
    rw [dropLoop, if_pos h]
    simp only [counted] at hmark ⊢
    rw [hmark]

theorem dropLoop_nil (hmark : c.counted.tryMark item = none) :
    dropLoop now coNow [] c item =
      { disc := { c.counted with queue := [], firstAboveTime := 0, dropping := false }
        dropped := [item], item := none, isMarked := false } := by
  rw [← Bool.and_eq_true] at h
  rw [dropLoop, if_pos h]
  simp only [counted] at hmark ⊢
  rw [hmark]
  rfl

theorem dropLoop_cons {next : QueueDiscItem α} (hmark : c.counted.tryMark item = none) :
    dropLoop now coNow (next :: rest) c item =
      let final := dropLoop now coNow rest
        (scheduled (okToDrop { c.counted with queue := rest } (some next) now coNow)) next
      { final with dropped := item :: final.dropped } := by
  rw [← Bool.and_eq_true] at h
  rw [dropLoop, if_pos h]
  simp only [counted] at hmark ⊢
  rw [hmark]
  rfl

end

theorem scheduled_lt (next : CoDelQueueDisc α × Bool) (h : next.1.dropNext < 2 ^ 32) :
    (scheduled next).dropNext < 2 ^ 32 := by
  rw [scheduled]
  split
  · exact wadd_lt _ _ _
  · exact h

theorem scheduled_firstAboveTime (next : CoDelQueueDisc α × Bool) :
    (scheduled next).firstAboveTime = next.1.firstAboveTime := by
  rw [scheduled]
  split <;> rfl

theorem scheduled_moved (next : CoDelQueueDisc α × Bool) :
    scheduled (next.1.moved k f (wadd 32 next.1.dropNext m), next.2) =
      (scheduled next).moved k f (wadd 32 (scheduled next).dropNext m) := by
  obtain ⟨c, ok⟩ := next
  cases ok with
  | false => rfl
  | true =>
    change CoDelQueueDisc.mk .. = CoDelQueueDisc.mk ..
    simp only [scheduled, moved, if_true, controlLaw_moved]

theorem okToDrop_dropNext (c : CoDelQueueDisc α) (item : Option (QueueDiscItem α)) (now : Time)
    (coNow : Nat) : (c.okToDrop item now coNow).1.dropNext = c.dropNext := by
  cases item with
  | none => rfl
  | some item =>
    by_cases hbelow : c.Below item now
    · rw [okToDrop_below hbelow]
    · rw [okToDrop_above hbelow]
      split <;> rfl

def LoopMoved (k : Time) (m : Nat) (now : Time) (coNow : Nat) (queue : List (QueueDiscItem α))
    (c : CoDelQueueDisc α) (item : QueueDiscItem α) (f : Nat) : Prop :=
  ∃ f', Deadline m (dropLoop now coNow queue c item).disc.firstAboveTime f' ∧
    (dropLoop now coNow queue c item).disc.dropNext < 2 ^ 32 ∧
    dropLoop (now + k) (wadd 32 coNow m) (queue.map (·.later k))
        (c.moved k f (wadd 32 c.dropNext m)) (item.later k) =
      (dropLoop now coNow queue c item).moved k f'
        (wadd 32 (dropLoop now coNow queue c item).disc.dropNext m)

section

variable (hm : m < 2 ^ 32) (hnow : coNow < 2 ^ 32) (hlt : c.dropNext < 2 ^ 32)

include hm hnow hlt

theorem loop_goes_moved (hsame : c.dropping = true → SameLap 32 m coNow c.dropNext) :
    (c.moved k f (wadd 32 c.dropNext m)).dropping = true ∧
        coDelTimeAfterEq (wadd 32 coNow m) (c.moved k f (wadd 32 c.dropNext m)).dropNext = true ↔
      c.dropping = true ∧ coDelTimeAfterEq coNow c.dropNext = true := by
  change c.dropping = true ∧ coDelTimeAfterEq _ (wadd 32 c.dropNext m) = true ↔ _
  refine and_congr_right fun hdropping => ?_
  rw [coDelTimeAfterEq_moved hnow hlt hm (hsame hdropping)]

theorem loopMoved_last (hdeadline : Deadline m c.firstAboveTime f)
    (hsame : c.dropping = true → SameLap 32 m coNow c.dropNext)
    (hlast : c.dropping = true → coDelTimeAfterEq coNow c.dropNext = true →
      c.counted.tryMark item ≠ none) :
    LoopMoved k m now coNow queue c item f := by
  have hgo := loop_goes_moved (k := k) (f := f) hm hnow hlt hsame
  by_cases h : c.dropping = true ∧ coDelTimeAfterEq coNow c.dropNext = true
  · obtain ⟨marked, hmark⟩ := Option.ne_none_iff_exists'.mp (hlast h.1 h.2)
    have hmark' : (c.moved k f (wadd 32 c.dropNext m)).counted.tryMark (item.later k) =
        some (marked.later k) := by
      rw [counted_tryMark_moved, hmark]
      rfl
    rw [LoopMoved, dropLoop_mark h hmark, dropLoop_mark (hgo.mpr h) hmark']
    refine ⟨f, hdeadline, wadd_lt _ _ _, ?_⟩
    rw [controlLaw_moved]
    rfl
  · rw [LoopMoved, dropLoop_stop h, dropLoop_stop (mt hgo.mp h)]
    exact ⟨f, hdeadline, hlt, rfl⟩

theorem dropLoop_moved (hdeadline : Deadline m c.firstAboveTime f)
    (hsteady : LoopSteady m now coNow queue c item) : LoopMoved k m now coNow queue c item f := by
  induction queue generalizing c item f with
  | nil =>
    have hgo := loop_goes_moved (k := k) (f := f) hm hnow hlt hsteady
    by_cases hdrops : (c.dropping = true ∧ coDelTimeAfterEq coNow c.dropNext = true) ∧
        c.counted.tryMark item = none
    · obtain ⟨h, hmark⟩ := hdrops
      have hmark' : (c.moved k f (wadd 32 c.dropNext m)).counted.tryMark (item.later k) =
          none := by
        rw [counted_tryMark_moved, hmark]
        rfl
      rw [LoopMoved, dropLoop_nil h hmark, List.map_nil, dropLoop_nil (hgo.mpr h) hmark']
      exact ⟨0, .inl ⟨rfl, rfl⟩, hlt, rfl⟩
    · exact loopMoved_last hm hnow hlt hdeadline hsteady
        fun hd ha hmark => hdrops ⟨⟨hd, ha⟩, hmark⟩
  | cons next rest ih =>
    obtain ⟨hsame, hrest⟩ := hsteady
    have hgo := loop_goes_moved (k := k) (f := f) hm hnow hlt hsame
    by_cases hdrops : (c.dropping = true ∧ coDelTimeAfterEq coNow c.dropNext = true) ∧
        c.counted.tryMark item = none
    · obtain ⟨h, hmark⟩ := hdrops
      have hmark' : (c.moved k f (wadd 32 c.dropNext m)).counted.tryMark (item.later k) =
          none := by
        rw [counted_tryMark_moved, hmark]
        rfl
      obtain ⟨hok, hloop⟩ := hrest h.1 h.2 hmark
      obtain ⟨f₁, hdeadline₁, heq⟩ := okToDrop_moved (k := k) (d := wadd 32 c.dropNext m)
        (c := { c.counted with queue := rest }) next hm hnow hdeadline hok fun _ => rfl
      have hnext : (okToDrop { c.counted with queue := rest } (some next) now coNow).1.dropNext =
          c.dropNext := okToDrop_dropNext _ _ _ _
      rw [← hnext] at hlt heq
      rw [← scheduled_firstAboveTime] at hdeadline₁
      obtain ⟨f₂, hdeadline₂, hlt₂, hih⟩ := ih (scheduled_lt _ hlt) hdeadline₁ hloop
      have hcounted : { (c.moved k f (wadd 32 c.dropNext m)).counted with
          queue := rest.map (·.later k) } = CoDelQueueDisc.moved k f (wadd 32 c.dropNext m)
            { c.counted with queue := rest } := rfl
      rw [LoopMoved, dropLoop_cons h hmark, List.map_cons, dropLoop_cons (hgo.mpr h) hmark']
      refine ⟨f₂, hdeadline₂, hlt₂, ?_⟩
      rw [hcounted, ← hnext, heq, scheduled_moved]
      dsimp only
      rw [hih]
      rfl
    · exact loopMoved_last hm hnow hlt hdeadline hsame
        fun hd ha hmark => hdrops ⟨⟨hd, ha⟩, hmark⟩

end

def Scheduled (m : Nat) (c : CoDelQueueDisc α) (d : Nat) : Prop :=
  c.dropping = true ∨ c.count ≠ c.lastCount → c.dropNext < 2 ^ 32 ∧ d = wadd 32 c.dropNext m

/-- The last drop rate is a good starting point. -/
def goesOn (c : CoDelQueueDisc α) (coNow : Nat) : Bool :=
  signed 32 (wsub 32 c.count c.lastCount) > 1 && coDelTimeBefore (wsub 32 coNow c.dropNext)
    (16 * time2CoDel c.interval % 2 ^ 32)

def entered (c : CoDelQueueDisc α) (coNow : Nat) (goesOn : Bool) : CoDelQueueDisc α :=
  let count := if goesOn then (signed 32 (wsub 32 c.count c.lastCount)).toNat else 1
  let recInvSqrt := if goesOn then newtonStep c.recInvSqrt count else 2 ^ 16 - 1
  { c with
    dropping := true
    count, recInvSqrt, lastCount := count
    dropNext := controlLaw coNow (time2CoDel c.interval) recInvSqrt }

theorem enterDropping_eq (c : CoDelQueueDisc α) (coNow : Nat) :
    c.enterDropping coNow = c.entered coNow (c.goesOn coNow) := rfl

theorem goesOn_moved (hscheduled : c.count ≠ c.lastCount → d = wadd 32 c.dropNext m) :
    (c.moved k f d).goesOn (wadd 32 coNow m) = c.goesOn coNow := by
  change (decide (signed 32 (wsub 32 c.count c.lastCount) > 1) &&
    coDelTimeBefore (wsub 32 (wadd 32 coNow m) d) _) = _
  by_cases hcount : c.count = c.lastCount
  · have hzero : signed 32 (wsub 32 c.count c.lastCount) = 0 := by
      rw [hcount, wsub, signed]
      omega
    rw [goesOn, hzero]
    rfl
  · rw [hscheduled hcount, wsub_wadd_wadd]
    rfl

theorem enterDropping_moved (hscheduled : c.count ≠ c.lastCount → d = wadd 32 c.dropNext m) :
    (c.moved k f d).enterDropping (wadd 32 coNow m) =
      (c.enterDropping coNow).moved k f (wadd 32 (c.enterDropping coNow).dropNext m) := by
  rw [enterDropping_eq, enterDropping_eq, goesOn_moved hscheduled, entered, entered]
  simp only [moved, controlLaw_moved]

/-- What `DoDequeue` compares when it enters the dropping state is not taken across the wrap. -/
def StartSteady (m : Nat) (now : Time) (coNow : Nat) (c : CoDelQueueDisc α)
    (item : QueueDiscItem α) : Prop :=
  c.tryMark item = none → ∀ next rest, c.queue = next :: rest →
    OkToDropSteady m { c with queue := rest } next now coNow

theorem okToDrop_count (c : CoDelQueueDisc α) (item : Option (QueueDiscItem α)) (now : Time)
    (coNow : Nat) :
    (c.okToDrop item now coNow).1.count = c.count ∧
      (c.okToDrop item now coNow).1.lastCount = c.lastCount ∧
      (c.okToDrop item now coNow).1.dropping = c.dropping := by
  cases item with
  | none => exact ⟨rfl, rfl, rfl⟩
  | some item =>
    by_cases hbelow : c.Below item now
    · rw [okToDrop_below hbelow]
      exact ⟨rfl, rfl, rfl⟩
    · rw [okToDrop_above hbelow]
      split
      · exact ⟨rfl, rfl, rfl⟩
      · exact ⟨rfl, rfl, rfl⟩

theorem startDropping_moved (hm : m < 2 ^ 32) (hnow : coNow < 2 ^ 32)
    (hdeadline : Deadline m c.firstAboveTime f)
    (hscheduled : c.count ≠ c.lastCount → d = wadd 32 c.dropNext m)
    (hsteady : StartSteady m now coNow c item) :
    ∃ f', Deadline m (c.startDropping item now coNow).disc.firstAboveTime f' ∧
      (c.startDropping item now coNow).disc.dropNext < 2 ^ 32 ∧
      (c.moved k f d).startDropping (item.later k) (now + k) (wadd 32 coNow m) =
        (c.startDropping item now coNow).moved k f'
          (wadd 32 (c.startDropping item now coNow).disc.dropNext m) := by
  have hmark := tryMark_moved (k := k) (f := f) (d := d) c item
  rw [startDropping, startDropping, hmark]
  cases hmarked : c.tryMark item with
  | some marked =>
    refine ⟨f, hdeadline, wadd_lt _ _ _, ?_⟩
    dsimp only [Option.map_some]
    rw [enterDropping_moved hscheduled]
    rfl
  | none =>
    cases hqueue : c.queue with
    | nil =>
      have hmoved : (c.moved k f d).queue = [] := by
        rw [moved, hqueue]
        rfl
      have hnone : (c.moved k f d).okToDrop none (now + k) (wadd 32 coNow m) =
          ((c.okToDrop none now coNow).1.moved k 0 d, false) := rfl
      have hscheduled' : (c.okToDrop none now coNow).1.count ≠
          (c.okToDrop none now coNow).1.lastCount →
          d = wadd 32 (c.okToDrop none now coNow).1.dropNext m := hscheduled
      rw [hmoved]
      refine ⟨0, .inl ⟨rfl, rfl⟩, wadd_lt _ _ _, ?_⟩
      dsimp only [Option.map_none]
      rw [hnone]
      dsimp only
      rw [enterDropping_moved hscheduled']
      rfl
    | cons next rest =>
      have hmoved : (c.moved k f d).queue = next.later k :: rest.map (·.later k) := by
        rw [moved, hqueue]
        rfl
      obtain ⟨f', hdeadline', heq⟩ := okToDrop_moved (k := k) (d := d)
        (c := { c with queue := rest }) next hm hnow hdeadline (hsteady hmarked next rest hqueue)
        fun _ => rfl
      obtain ⟨hcount, hlast, -⟩ :=
        okToDrop_count { c with queue := rest } (some next) now coNow
      have hnext := okToDrop_dropNext { c with queue := rest } (some next) now coNow
      have hscheduled' : (okToDrop { c with queue := rest } (some next) now coNow).1.count ≠
          (okToDrop { c with queue := rest } (some next) now coNow).1.lastCount →
          d = wadd 32 (okToDrop { c with queue := rest } (some next) now coNow).1.dropNext m := by
        rw [hcount, hlast, hnext]
        exact hscheduled
      have hrest : { c.moved k f d with queue := rest.map (·.later k) } =
          CoDelQueueDisc.moved k f d { c with queue := rest } := rfl
      rw [hmoved]
      refine ⟨f', hdeadline', wadd_lt _ _ _, ?_⟩
      dsimp only [Option.map_none]
      rw [hrest, heq]
      dsimp only
      rw [enterDropping_moved hscheduled']
      rfl

end

/-! ## A dequeue -/

/-- What `DoDequeue` compares is not taken across the wrap by the move, and the clock, where it is
read, moves by `m`. -/
structure DequeueSteady (k : Time) (m : Nat) (c : CoDelQueueDisc α) (now : Time)
    (item : QueueDiscItem α) (rest : List (QueueDiscItem α)) : Prop where
  clock : ¬Below { c with queue := rest } item now →
    coDelGetTime (now + k) = wadd 32 (coDelGetTime now) m
  first : OkToDropSteady m { c with queue := rest } item now (coDelGetTime now)
  loop : c.dropping = true →
    (okToDrop { c with queue := rest } (some item) now (coDelGetTime now)).2 = true →
      LoopSteady m now (coDelGetTime now) rest
        (okToDrop { c with queue := rest } (some item) now (coDelGetTime now)).1 item
  start : c.dropping = false →
    (okToDrop { c with queue := rest } (some item) now (coDelGetTime now)).2 = true →
      StartSteady m now (coDelGetTime now)
        (okToDrop { c with queue := rest } (some item) now (coDelGetTime now)).1 item

def later (k : Time) (firstAboveTime dropNext : Nat)
    (r : CoDelQueueDisc α × List (QueueDiscItem α) × Option (QueueDiscItem α)) :
    CoDelQueueDisc α × List (QueueDiscItem α) × Option (QueueDiscItem α) :=
  (r.1.moved k firstAboveTime dropNext, r.2.1.map (·.later k), r.2.2.map (·.later k))

variable {item : QueueDiscItem α}

section

variable {k : Time} {m f d : Nat} {c c' : CoDelQueueDisc α} {now : Time}

theorem finish_moved (s : AtEnd α) :
    finish (now + k) (s.moved k f d) = (finish now s).map (later k f d) := by
  rw [finish, finish, AtEnd.moved]
  dsimp only
  cases s.item with
  | none => rfl
  | some item =>
    simp only [Option.map_some, sojourn_later]
    change (if (!s.isMarked && !s.disc.useL4s && s.disc.useEcn &&
      coDelTimeAfter (time2CoDel (now - item.timeStamp)) (time2CoDel s.disc.ceThreshold)) = true
      then _ else _) = _
    split
    · have hmark : (item.later k).mark.getD (item.later k) = (item.mark.getD item).later k := by
        rw [mark_later]
        cases item.mark <;> rfl
      rw [hmark]
      rfl
    · rfl

theorem doDequeue_l4s (hqueue : c.queue = item :: rest) (hl4s : (c.useL4s && isL4s item) = true) :
    c.doDequeue now = .ok ({ c with queue := rest }, [], some
      (if coDelTimeAfter (time2CoDel (now - item.timeStamp)) (time2CoDel c.ceThreshold) then
        item.mark.getD item else item)) := by
  rw [doDequeue, hqueue]
  dsimp only
  rw [if_pos hl4s]
  split <;> rfl

theorem doDequeue_cons (hqueue : c.queue = item :: rest) (hl4s : (c.useL4s && isL4s item) = false)
    {next : CoDelQueueDisc α × Bool}
    (hnext : okToDrop { c with queue := rest } (some item) now (coDelGetTime now) = next) :
    c.doDequeue now = finish now
      (match c.dropping, next.2 with
      | true, false =>
        { disc := { next.1 with dropping := false }, dropped := [], item := some item
          isMarked := false }
      | true, true => dropLoop now (coDelGetTime now) rest next.1 item
      | false, true => next.1.startDropping item now (coDelGetTime now)
      | false, false =>
        { disc := next.1, dropped := [], item := some item, isMarked := false }) := by
  have hdropping :=
    (okToDrop_count { c with queue := rest } (some item) now (coDelGetTime now)).2.2
  rw [hnext] at hdropping
  obtain ⟨c₁, ok⟩ := next
  rw [doDequeue, hqueue]
  dsimp only at hdropping ⊢
  rw [if_neg (Bool.not_eq_true _ ▸ hl4s), hnext]
  dsimp only
  rw [hdropping]
  cases c.dropping <;> cases ok <;> rfl

/-- The disc `c'` is `c`, moved by `k`. -/
structure Moved (k : Time) (m : Nat) (c c' : CoDelQueueDisc α) (f d : Nat) : Prop where
  eq : c' = c.moved k f d
  deadline : Deadline m c.firstAboveTime f
  scheduled : c.Scheduled m d

theorem finish_returns {s s' : AtEnd α} (hs : s' = s.moved k f d)
    (hdeadline : Deadline m s.disc.firstAboveTime f) (hscheduled : s.disc.Scheduled m d) :
    ∃ f' d', finish (now + k) s' = (finish now s).map (later k f' d') ∧
      ∀ r, finish now s = .ok r → Moved k m r.1 (r.1.moved k f' d') f' d' := by
  refine ⟨f, d, ?_, fun r hr => ?_⟩
  · rw [hs, finish_moved]
  · obtain ⟨c, dropped, out⟩ := r
    obtain ⟨rfl, -⟩ := finish_eq_ok hr
    exact ⟨rfl, hdeadline, hscheduled⟩

theorem doDequeue_moved (hm : m < 2 ^ 32) (hmoved : Moved k m c c' f d)
    (hsteady : ∀ item rest, c.queue = item :: rest → (c.useL4s && isL4s item) = false →
      DequeueSteady k m c now item rest) :
    ∃ f' d', c'.doDequeue (now + k) = (c.doDequeue now).map (later k f' d') ∧
      ∀ r, c.doDequeue now = .ok r → Moved k m r.1 (r.1.moved k f' d') f' d' := by
  obtain ⟨rfl, hdeadline, hscheduled⟩ := hmoved
  have hnow := coDelGetTime_lt now
  cases hqueue : c.queue with
  | nil =>
    have hempty : (c.moved k f d).queue = [] := by
      rw [moved, hqueue]
      rfl
    rw [doDequeue, hempty, doDequeue, hqueue]
    refine ⟨f, d, rfl, fun r hr => ?_⟩
    cases hr
    exact ⟨rfl, hdeadline, fun h => hscheduled (.inr (h.resolve_left Bool.false_ne_true))⟩
  | cons item rest =>
    have hqueue' : (c.moved k f d).queue = item.later k :: rest.map (·.later k) := by
      rw [moved, hqueue]
      rfl
    have hrest : { c.moved k f d with queue := rest.map (·.later k) } =
        CoDelQueueDisc.moved k f d { c with queue := rest } := rfl
    cases hl4s : c.useL4s && isL4s item with
    | true =>
      have hl4s' : ((c.moved k f d).useL4s && isL4s (item.later k)) = true := hl4s
      rw [doDequeue_l4s hqueue hl4s, doDequeue_l4s hqueue' hl4s', sojourn_later]
      refine ⟨f, d, ?_, fun r hr => ?_⟩
      · rw [mark_later, hrest]
        change Except.ok (_, _, some (if coDelTimeAfter _ (time2CoDel c.ceThreshold) = true
          then _ else _)) = _
        cases item.mark <;> split <;> rfl
      · cases hr
        exact ⟨rfl, hdeadline, hscheduled⟩
    | false =>
      have hl4s' : ((c.moved k f d).useL4s && isL4s (item.later k)) = false := hl4s
      obtain ⟨hclock, hfirst, hloop, hstart⟩ := hsteady item rest hqueue hl4s
      obtain ⟨f₁, hdeadline₁, heq⟩ := okToDrop_moved (k := k) (d := d)
        (c := { c with queue := rest }) item hm hnow hdeadline hfirst hclock
      rw [← hrest] at heq
      obtain ⟨hcount, hlast, hdropping⟩ :=
        okToDrop_count { c with queue := rest } (some item) now (coDelGetTime now)
      have hdropNext :=
        okToDrop_dropNext { c with queue := rest } (some item) now (coDelGetTime now)
      -- a packet below the target is not dropped, so what follows reads the clock above it only
      have hread : (okToDrop { c with queue := rest } (some item) now (coDelGetTime now)).2 = true →
          coDelGetTime (now + k) = wadd 32 (coDelGetTime now) m := by
        refine fun hok => hclock fun hbelow => ?_
        rw [okToDrop_below hbelow] at hok
        cases hok
      rw [doDequeue_cons hqueue' hl4s' heq, doDequeue_cons hqueue hl4s rfl]
      generalize okToDrop { c with queue := rest } (some item) now (coDelGetTime now) = next
        at hread hloop hstart hdeadline₁ hcount hlast hdropping hdropNext ⊢
      have hkept : next.1.Scheduled m d := by
        rw [Scheduled, hdropping, hcount, hlast, hdropNext]
        exact hscheduled
      have hthen {c₁ : CoDelQueueDisc α} {d' : Nat} (hlt : c₁.dropNext < 2 ^ 32)
          (heq : d' = wadd 32 c₁.dropNext m) : c₁.Scheduled m d' := fun _ => ⟨hlt, heq⟩
      have hstays : (c.moved k f d).dropping = c.dropping := rfl
      rw [hstays]
      cases hd : c.dropping <;> cases hok : next.2
      · exact finish_returns rfl hdeadline₁ hkept
      · obtain ⟨f₂, hdeadline₂, hlt, hstarted⟩ := startDropping_moved (k := k) hm hnow
          hdeadline₁ (fun hne => (hkept (.inr hne)).2) (hstart hd hok)
        rw [← hread hok] at hstarted
        exact finish_returns hstarted hdeadline₂ (hthen hlt rfl)
      · obtain ⟨hlt, heq⟩ := hkept (.inl (hdropping.trans hd))
        exact finish_returns (s := { disc := { next.1 with dropping := false }, dropped := []
                                     item := some item, isMarked := false })
          rfl hdeadline₁ (hthen hlt heq)
      · obtain ⟨hlt, heq⟩ := hkept (.inl (hdropping.trans hd))
        obtain ⟨f₂, hdeadline₂, hlt₂, hdropped⟩ := dropLoop_moved (k := k) hm hnow hlt
          hdeadline₁ (hloop hd hok)
        rw [← heq, ← hread hok] at hdropped
        exact finish_returns hdropped hdeadline₂ (hthen hlt₂ rfl)

end

/-! ## Runs -/

/-- A call on the disc, and when it is made. -/
inductive Event (α : Type) where
  | enqueue (item : QueueDiscItem α) (now : Time)
  | dequeue (now : Time)

def Event.later (k : Time) : Event α → Event α
  | .enqueue item now => .enqueue item (now + k)
  | .dequeue now => .dequeue (now + k)

/-- An item without its time stamp: the packet, its size and its mark. -/
def seen (item : QueueDiscItem α) : α × Nat × Option Nat := (item.packet, item.size, item.dsField)

/-- What a call decides. -/
inductive Decision (α : Type) where
  /-- the item was queued, or dropped -/
  | enqueued (queued : Bool)
  /-- the items that were dropped, and the one that was returned -/
  | dequeued (dropped : List (α × Nat × Option Nat)) (item : Option (α × Nat × Option Nat))
  | stopped (fault : Fault)
  deriving DecidableEq, Repr

def decisions : CoDelQueueDisc α → List (Event α) → List (Decision α)
  | _, [] => []
  | c, .enqueue item now :: events =>
    .enqueued (c.enqueue item now).2 :: decisions (c.enqueue item now).1 events
  | c, .dequeue now :: events =>
    match c.doDequeue now with
    | .error fault => [.stopped fault]
    | .ok (c, dropped, item) =>
      .dequeued (dropped.map seen) (item.map seen) :: decisions c events

/-- No comparison of a run is taken across the wrap when the run is moved. -/
def Steady (k : Time) (m : Nat) : CoDelQueueDisc α → List (Event α) → Prop
  | _, [] => True
  | c, .enqueue item now :: events => Steady k m (c.enqueue item now).1 events
  | c, .dequeue now :: events =>
    (∀ item rest, c.queue = item :: rest → (c.useL4s && isL4s item) = false →
      DequeueSteady k m c now item rest) ∧
    ∀ r, c.doDequeue now = .ok r → Steady k m r.1 events

/-- A disc as the constructor leaves it. -/
structure Fresh (c : CoDelQueueDisc α) : Prop where
  count : c.count = 0
  lastCount : c.lastCount = 0
  dropping : c.dropping = false
  recInvSqrt : c.recInvSqrt = 2 ^ 16 - 1
  firstAboveTime : c.firstAboveTime = 0
  dropNext : c.dropNext = 0
  queue : c.queue = []

section

variable {k : Time} {m f d : Nat} {c c' : CoDelQueueDisc α} {events : List (Event α)}

theorem enqueue_moved (item : QueueDiscItem α) (now : Time) :
    (c.moved k f d).enqueue item (now + k) =
      ((c.enqueue item now).1.moved k f d, (c.enqueue item now).2) := by
  have hfull : (c.moved k f d).isFull item = c.isFull item := by
    rw [isFull, isFull, moved]
    dsimp only
    rw [nBytes_later, List.length_map]
  rw [enqueue, enqueue, hfull]
  split
  · rfl
  · rw [moved, moved]
    dsimp only
    rw [List.map_append]
    rfl

theorem enqueue_state (item : QueueDiscItem α) (now : Time) (hmoved : Moved k m c c' f d) :
    Moved k m (c.enqueue item now).1 (c'.enqueue item (now + k)).1 f d := by
  obtain ⟨rfl, hdeadline, hscheduled⟩ := hmoved
  rw [enqueue_moved]
  rcases c.enqueue_cases item now with heq | heq
  · rw [heq]
    exact ⟨rfl, hdeadline, hscheduled⟩
  · rw [heq]
    exact ⟨rfl, hdeadline, hscheduled⟩

theorem seen_later (items : List (QueueDiscItem α)) :
    (items.map (·.later k)).map seen = items.map seen := by
  rw [List.map_map]
  rfl

/-- Moving the clock moves no decision while the steps stay clear of its wrap. -/
theorem decisions_moved (hm : m < 2 ^ 32) (hmoved : Moved k m c c' f d)
    (hsteady : Steady k m c events) :
    decisions c' (events.map (·.later k)) = decisions c events := by
  induction events generalizing c c' f d with
  | nil => rfl
  | cons event events ih =>
    cases event with
    | enqueue item now =>
      have hnext := enqueue_state item now hmoved
      have hqueued : (c'.enqueue item (now + k)).2 = (c.enqueue item now).2 := by
        rw [hmoved.eq, enqueue_moved]
      change Decision.enqueued _ :: decisions _ (events.map _) = _ :: _
      rw [hqueued, ih hnext hsteady]
    | dequeue now =>
      obtain ⟨hstep, hrest⟩ := hsteady
      obtain ⟨f', d', heq, hnext⟩ := doDequeue_moved hm hmoved hstep
      rw [List.map_cons, Event.later, decisions, decisions, heq]
      cases hr : c.doDequeue now with
      | error fault => rfl
      | ok r =>
        change Decision.dequeued ((r.2.1.map (·.later k)).map seen)
          ((r.2.2.map (·.later k)).map seen) :: decisions (r.1.moved k f' d') _ = _
        rw [seen_later, Option.map_map, ih (hnext r hr) (hrest r hr)]
        rfl

theorem Fresh.moved (hfresh : c.Fresh) (k : Time) (m : Nat) : Moved k m c c 0 0 := by
  obtain ⟨hcount, hlast, hdropping, -, hfirst, hnext, hqueue⟩ := hfresh
  refine ⟨?_, .inl ⟨hfirst, rfl⟩, fun h => ?_⟩
  · rw [CoDelQueueDisc.moved, hqueue]
    cases c
    simp_all
  · rw [hdropping, hcount, hlast] at h
    exact absurd h (by decide)

/-- **CoDel's clock**: two times less than half a turn apart are ordered right exactly if the
clock does not wrap between them, and a run that is moved drops and marks the same packets if it
takes none of its comparisons across the wrap. -/
theorem clock_shift (hfresh : c.Fresh) (hm : m < 2 ^ 32) (hsteady : Steady k m c events) :
    (∀ a b, a < b + 2 ^ 31 → b < a + 2 ^ 31 → (Ordered a b ↔ a / 2 ^ 32 = b / 2 ^ 32)) ∧
      decisions c (events.map (·.later k)) = decisions c events :=
  ⟨fun _ _ hab hba => ordered_iff hab hba, decisions_moved hm (hfresh.moved k m) hsteady⟩

end

def defaultDisc : CoDelQueueDisc Nat where
  useEcn := false
  useL4s := false
  minBytes := 1500
  interval := 100000000
  target := 5000000
  ceThreshold := Time.max
  maxSize := ⟨.packets, 1000⟩

def arrival (packet : Nat) : Event Nat := .enqueue ⟨packet, 1500, 0, none⟩ 0

theorem defaultDisc_fresh : defaultDisc.Fresh := ⟨rfl, rfl, rfl, rfl, rfl, rfl, rfl⟩

/-- A packet that waits for 10 ms, and the same a second later. -/
theorem clock_shift_one :
    (∀ a b, a < b + 2 ^ 31 → b < a + 2 ^ 31 → (Ordered a b ↔ a / 2 ^ 32 = b / 2 ^ 32)) ∧
      decisions defaultDisc ([arrival 1, arrival 2, .dequeue 10000000].map (·.later 1024000000)) =
        decisions defaultDisc [arrival 1, arrival 2, .dequeue 10000000] := by
  refine clock_shift (m := 1000000) defaultDisc_fresh (by decide) ⟨?_, fun _ _ => trivial⟩
  rintro item rest hqueue -
  obtain ⟨rfl, rfl⟩ := List.cons.inj hqueue
  refine ⟨fun _ => by decide, ⟨fun _ h => absurd rfl h, fun _ _ => by decide⟩, ?_, ?_⟩
  · exact fun h => absurd h (by decide)
  · exact fun _ h => absurd h (by decide)

def fourPackets : List (Event Nat) :=
  [arrival 1, arrival 2, arrival 3, arrival 4, .dequeue 10000000, .dequeue 120000000]

/-- The second dequeue drops a packet.  When the run is moved so that the clock wraps 115 ms after
the packets arrive, it drops none. -/
theorem wrap_stops_drop :
    decisions defaultDisc fourPackets =
        [.enqueued true, .enqueued true, .enqueued true, .enqueued true,
          .dequeued [] (some (1, 1500, none)),
          .dequeued [(2, 1500, none)] (some (3, 1500, none))] ∧
      decisions defaultDisc (fourPackets.map (·.later (2 ^ 42 - 115000320))) =
        [.enqueued true, .enqueued true, .enqueued true, .enqueued true,
          .dequeued [] (some (1, 1500, none)), .dequeued [] (some (2, 1500, none))] ∧
      ¬Ordered (2 ^ 32 + 5) (2 ^ 32 - 5) :=
  ⟨by decide, by decide, fun h => absurd (h.1.mpr (by decide)) (by decide)⟩

end CoDelQueueDisc

end Ns3
