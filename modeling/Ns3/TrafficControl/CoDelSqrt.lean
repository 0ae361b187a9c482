/-
  The range of CoDel's inverse square root
  (src/traffic-control/model/codel-queue-disc.cc).

  `m_recInvSqrt` is a 16-bit fraction, refined by one step of Newton's iteration for every packet
  that is dropped.  A step never ends above `2 ^ 16 / √m_count`, wherever it starts, and an
  estimate in that range is a start for the next step as long as the count grows by one.
-/
import Ns3.TrafficControl.CoDelClock
import Ns3.Lib.Run
import Mathlib.Tactic.Linarith
import Mathlib.Tactic.Ring

namespace Ns3

open Ns3.Lib

namespace CoDelQueueDisc

variable {α : Type}

/-! ## One step -/

/-- What `NewtonStep` computes is what it means: no difference and no product leaves its word,
and the result is at most `2 ^ 16 / √count`. -/
structure NewtonSound (recInvSqrt count : Nat) : Prop where
  difference : count * recInvSqrt ^ 2 ≤ 3 * 2 ^ 32
  product : (3 * 2 ^ 32 - count * recInvSqrt ^ 2) / 4 * (recInvSqrt * 2 ^ 16) < 2 ^ 64
  bound : count * newtonStep recInvSqrt count ^ 2 ≤ 2 ^ 32

section

variable {r count : Nat}

theorem mul_sq_le {n x : Nat} (hx : x ≤ 3 * n) : x * (3 * n - x) ^ 2 ≤ 4 * n ^ 3 := by
  obtain ⟨v, hv⟩ := Nat.exists_eq_add_of_le hx
  rw [hv, Nat.add_sub_cancel_left]
  have hcube : (4 * n ^ 3 - x * v ^ 2 : Int) = (v - 2 * n) ^ 2 * (v + n) := by
    have hx' : (x : Int) = 3 * n - v := by omega
    rw [hx']
    ring
  have hpos : (0 : Int) ≤ (v - 2 * n) ^ 2 * (v + n) := by positivity
  have hle : (x * v ^ 2 : Int) ≤ 4 * n ^ 3 := by linarith
  exact_mod_cast hle

theorem product_lt (hr : r < 2 ^ 16) (x : Nat) : (3 * 2 ^ 32 - x) / 4 * (r * 2 ^ 16) < 2 ^ 64 :=
  calc (3 * 2 ^ 32 - x) / 4 * (r * 2 ^ 16) ≤ 3 * 2 ^ 30 * 2 ^ 32 :=
        Nat.mul_le_mul (by omega) (by omega)
    _ < 2 ^ 64 := by norm_num

theorem newtonStep_eq (hr : r < 2 ^ 16) (hx : count * r ^ 2 ≤ 3 * 2 ^ 32) :
    newtonStep r count =
      (3 * 2 ^ 32 - count * r ^ 2) / 4 * (r * 2 ^ 16) / 2 ^ 31 / 2 ^ 16 % 2 ^ 16 := by
  have hshift : r * 2 ^ 16 % 2 ^ 32 = r * 2 ^ 16 := Nat.mod_eq_of_lt (by omega)
  have hsq : r ^ 2 < 2 ^ 32 := by nlinarith
  have hhigh : r * 2 ^ 16 * (r * 2 ^ 16) / 2 ^ 32 % 2 ^ 32 = r ^ 2 := by
    have hmul : r * 2 ^ 16 * (r * 2 ^ 16) = r ^ 2 * 2 ^ 32 := by ring
    rw [hmul, Nat.mul_div_cancel _ (by norm_num), Nat.mod_eq_of_lt hsq]
  have hsub := wsub_eq (w := 64) (a := 3 * 2 ^ 32) (by norm_num) hx
  rw [newtonStep, hshift, hhigh, hsub, Nat.mod_eq_of_lt (product_lt hr _)]

theorem newtonStep_sound (hr : r < 2 ^ 16) (hx : count * r ^ 2 ≤ 3 * 2 ^ 32) :
    NewtonSound r count := by
  refine ⟨hx, product_lt hr _, ?_⟩
  have hstep : newtonStep r count * 2 ^ 33 ≤ (3 * 2 ^ 32 - count * r ^ 2) * r := by
    rw [newtonStep_eq hr hx]
    generalize 3 * 2 ^ 32 - count * r ^ 2 = y
    have hmul : y / 4 * (r * 2 ^ 16) = y / 4 * r * 2 ^ 16 := (Nat.mul_assoc _ _ _).symm
    have hquarter : y / 4 * r * 4 ≤ y * r := by
      have := Nat.mul_le_mul_right r (Nat.div_mul_le_self y 4)
      linarith
    rw [hmul]
    omega
  have hcube := mul_sq_le hx
  have hsq := Nat.pow_le_pow_left hstep 2
  have hall : count * newtonStep r count ^ 2 * 2 ^ 66 ≤ 2 ^ 32 * 2 ^ 66 :=
    calc count * newtonStep r count ^ 2 * 2 ^ 66
          = count * (newtonStep r count * 2 ^ 33) ^ 2 := by ring
      _ ≤ count * ((3 * 2 ^ 32 - count * r ^ 2) * r) ^ 2 := Nat.mul_le_mul_left count hsq
      _ = count * r ^ 2 * (3 * 2 ^ 32 - count * r ^ 2) ^ 2 := by ring
      _ ≤ 4 * (2 ^ 32) ^ 3 := hcube
      _ = 2 ^ 32 * 2 ^ 66 := by norm_num
  exact Nat.le_of_mul_le_mul_right hall (by norm_num)

theorem newtonStep_lt (r count : Nat) : newtonStep r count < 2 ^ 16 := Nat.mod_lt _ (by norm_num)

theorem controlLaw_within (hr : r < 2 ^ 16) (t : Nat) {interval : Nat} (hi : interval < 2 ^ 32) :
    ∃ d ≤ interval, controlLaw t interval r = wadd 32 t d := by
  refine ⟨reciprocalDivide interval (r * 2 ^ 16 % 2 ^ 32), ?_, rfl⟩
  rw [Nat.mod_eq_of_lt (by omega : r * 2 ^ 16 < 2 ^ 32), reciprocalDivide]
  have hle : interval * (r * 2 ^ 16) ≤ interval * 2 ^ 32 := Nat.mul_le_mul_left _ (by omega)
  omega

end

/-! ## The range -/

/-- The estimate is at most `2 ^ 16 / √m_count`, and `m_count` has not wrapped since the dropping
state was entered. -/
structure InRange (c : CoDelQueueDisc α) : Prop where
  word : c.recInvSqrt < 2 ^ 16
  square : c.count * c.recInvSqrt ^ 2 ≤ 2 ^ 32
  count_lt : c.count < 2 ^ 32
  lastCount_le : c.lastCount ≤ c.count

/-- `ControlLaw` schedules at most an interval later. -/
def Timely (c : CoDelQueueDisc α) : Prop :=
  ∀ t, ∃ d ≤ time2CoDel c.interval,
    controlLaw t (time2CoDel c.interval) c.recInvSqrt = wadd 32 t d

/-- `m_count` is not about to wrap. -/
def CountFits (c : CoDelQueueDisc α) : Prop := c.count < 2 ^ 32 - 1

/-- The disc is in range, and stays so when it counts a drop and schedules the next. -/
structure CountSound (c : CoDelQueueDisc α) : Prop where
  inRange : c.InRange
  newton : NewtonSound c.recInvSqrt (wadd 32 c.count 1)
  timely : c.counted.Timely

/-- The disc is in range, and stays so when it enters the dropping state. -/
structure EnterSound (c : CoDelQueueDisc α) (coNow : Nat) : Prop where
  inRange : c.InRange
  newton : c.goesOn coNow = true →
    NewtonSound c.recInvSqrt (signed 32 (wsub 32 c.count c.lastCount)).toNat
  timely : (c.enterDropping coNow).Timely

def AlongLoop (P : CoDelQueueDisc α → Prop) (now : Time) (coNow : Nat) :
    List (QueueDiscItem α) → CoDelQueueDisc α → QueueDiscItem α → Prop
  | [], c, _ => c.dropping = true → coDelTimeAfterEq coNow c.dropNext = true → P c
  | next :: rest, c, item =>
    c.dropping = true → coDelTimeAfterEq coNow c.dropNext = true →
      P c ∧ (c.counted.tryMark item = none → AlongLoop P now coNow rest
        (scheduled (okToDrop { c.counted with queue := rest } (some next) now coNow)) next)

/-- Every disc of a dequeue that counts a drop satisfies `P`, and the disc that enters the
dropping state satisfies `Q`. -/
def AlongDequeue (P : CoDelQueueDisc α → Prop) (Q : CoDelQueueDisc α → Nat → Prop)
    (c : CoDelQueueDisc α) (now : Time) : Prop :=
  ∀ item rest, c.queue = item :: rest → (c.useL4s && isL4s item) = false →
    (okToDrop { c with queue := rest } (some item) now (coDelGetTime now)).2 = true →
      if c.dropping then
        AlongLoop P now (coDelGetTime now) rest
          (okToDrop { c with queue := rest } (some item) now (coDelGetTime now)).1 item
      else Q (okToDrop { c with queue := rest } (some item) now (coDelGetTime now)).1
        (coDelGetTime now)

section

variable {c d : CoDelQueueDisc α} {item : QueueDiscItem α} {queue : List (QueueDiscItem α)}
  {now : Time} {coNow : Nat}

theorem time2CoDel_lt (t : Time) : time2CoDel t < 2 ^ 32 := by
  rw [time2CoDel]
  omega

theorem InRange.congr (h : c.InRange) (hcount : d.count = c.count)
    (hlast : d.lastCount = c.lastCount) (hr : d.recInvSqrt = c.recInvSqrt) : d.InRange := by
  obtain ⟨hword, hsquare, hlt, hle⟩ := h
  refine ⟨?_, ?_, ?_, ?_⟩
  · rwa [hr]
  · rwa [hcount, hr]
  · rwa [hcount]
  · rwa [hcount, hlast]

theorem okToDrop_recInvSqrt (c : CoDelQueueDisc α) (item : Option (QueueDiscItem α)) (now : Time)
    (coNow : Nat) : (c.okToDrop item now coNow).1.recInvSqrt = c.recInvSqrt := by
  cases item with
  | none => rfl
  | some item =>
    by_cases hbelow : c.Below item now
    · rw [okToDrop_below hbelow]
    · rw [okToDrop_above hbelow]
      split <;> rfl

theorem InRange.okToDrop (h : c.InRange) (item : Option (QueueDiscItem α)) (now : Time)
    (coNow : Nat) : (c.okToDrop item now coNow).1.InRange := by
  obtain ⟨hcount, hlast, -⟩ := okToDrop_count c item now coNow
  exact h.congr hcount hlast (okToDrop_recInvSqrt c item now coNow)

theorem InRange.scheduled {next : CoDelQueueDisc α × Bool} (h : next.1.InRange) :
    (scheduled next).InRange := by
  rw [CoDelQueueDisc.scheduled]
  split
  · exact h.congr rfl rfl rfl
  · exact h.congr rfl rfl rfl

theorem InRange.timely (h : c.InRange) : c.Timely :=
  fun t => controlLaw_within h.word t (time2CoDel_lt c.interval)

theorem InRange.counted (h : c.InRange) (hfits : c.CountFits) :
    NewtonSound c.recInvSqrt (wadd 32 c.count 1) ∧ c.counted.InRange := by
  obtain ⟨hword, hsquare, -, hle⟩ := h
  have hnext : wadd 32 c.count 1 = c.count + 1 := wadd_eq (Nat.add_lt_of_lt_sub hfits)
  have hr : c.recInvSqrt ^ 2 ≤ 2 ^ 32 := by nlinarith
  have hnewton : NewtonSound c.recInvSqrt (wadd 32 c.count 1) := by
    refine newtonStep_sound hword ?_
    rw [hnext, Nat.add_mul, Nat.one_mul]
    omega
  refine ⟨hnewton, newtonStep_lt _ _, hnewton.bound, wadd_lt _ _ _, ?_⟩
  change c.lastCount ≤ wadd 32 c.count 1
  omega

theorem InRange.goesOn (h : c.InRange) (hgoes : c.goesOn coNow = true) :
    (signed 32 (wsub 32 c.count c.lastCount)).toNat = c.count - c.lastCount := by
  have hdelta : 1 < signed 32 (wsub 32 c.count c.lastCount) := by
    rw [CoDelQueueDisc.goesOn, Bool.and_eq_true, decide_eq_true_iff] at hgoes
    exact hgoes.1
  rw [wsub_eq h.count_lt h.lastCount_le] at hdelta ⊢
  have hlt := h.count_lt
  rw [signed] at hdelta ⊢
  split <;> omega

theorem InRange.entered (h : c.InRange) :
    (c.goesOn coNow = true →
      NewtonSound c.recInvSqrt (signed 32 (wsub 32 c.count c.lastCount)).toNat) ∧
      (c.enterDropping coNow).InRange := by
  rw [enterDropping_eq]
  cases hgoes : c.goesOn coNow with
  | true =>
    have hle : (signed 32 (wsub 32 c.count c.lastCount)).toNat ≤ c.count := by
      rw [h.goesOn hgoes]
      exact Nat.sub_le _ _
    have hsquare := (Nat.mul_le_mul_right (c.recInvSqrt ^ 2) hle).trans h.square
    have hnewton := newtonStep_sound h.word (hsquare.trans (by norm_num))
    exact ⟨fun _ => hnewton, newtonStep_lt _ _, hnewton.bound, hle.trans_lt h.count_lt, le_rfl⟩
  | false =>
    -- the count and the estimate start again
    have hcount : (c.entered coNow false).count = 1 := rfl
    have hr : (c.entered coNow false).recInvSqrt = 2 ^ 16 - 1 := rfl
    refine ⟨fun hfalse => absurd hfalse Bool.false_ne_true, ?_, ?_, ?_, le_rfl⟩
    · rw [hr]
      decide
    · rw [hcount, hr]
      decide
    · rw [hcount]
      decide

/-! ## Dequeues -/

theorem dropLoop_inRange (h : c.InRange) (hfits : AlongLoop CountFits now coNow queue c item) :
    AlongLoop CountSound now coNow queue c item ∧
      (dropLoop now coNow queue c item).disc.InRange := by
  induction queue generalizing c item with
  | nil =>
    by_cases hgo : c.dropping = true ∧ coDelTimeAfterEq coNow c.dropNext = true
    · obtain ⟨hnewton, hcounted⟩ := h.counted (hfits hgo.1 hgo.2)
      refine ⟨fun _ _ => ⟨h, hnewton, hcounted.timely⟩, ?_⟩
      cases hmark : c.counted.tryMark item with
      | some marked =>
        rw [dropLoop_mark hgo hmark]
        exact hcounted.congr rfl rfl rfl
      | none =>
        rw [dropLoop_nil hgo hmark]
        exact hcounted.congr rfl rfl rfl
    · rw [dropLoop_stop hgo]
      exact ⟨fun hd ha => absurd ⟨hd, ha⟩ hgo, h.congr rfl rfl rfl⟩
  | cons next rest ih =>
    by_cases hgo : c.dropping = true ∧ coDelTimeAfterEq coNow c.dropNext = true
    · obtain ⟨hfit, hrest⟩ := hfits hgo.1 hgo.2
      obtain ⟨hnewton, hcounted⟩ := h.counted hfit
      have hsound : c.CountSound := ⟨h, hnewton, hcounted.timely⟩
      cases hmark : c.counted.tryMark item with
      | some marked =>
        rw [dropLoop_mark hgo hmark]
        refine ⟨fun _ _ => ⟨hsound, fun hnone => ?_⟩, hcounted.congr rfl rfl rfl⟩
        rw [hmark] at hnone
        cases hnone
      | none =>
        have hqueue : InRange { c.counted with queue := rest } := hcounted.congr rfl rfl rfl
        obtain ⟨hloop, hlast⟩ := ih (hqueue.okToDrop (some next) now coNow).scheduled (hrest hmark)
        rw [dropLoop_cons hgo hmark]
        exact ⟨fun _ _ => ⟨hsound, fun _ => hloop⟩, hlast⟩
    · rw [dropLoop_stop hgo]
      exact ⟨fun hd ha => absurd ⟨hd, ha⟩ hgo, h.congr rfl rfl rfl⟩

theorem startDropping_inRange (h : c.InRange) : (c.startDropping item now coNow).disc.InRange := by
  rw [startDropping]
  cases c.tryMark item with
  | some marked => exact h.entered.2
  | none =>
    cases c.queue with
    | nil => exact (h.okToDrop none now coNow).entered.2
    | cons next rest =>
      have hrest : InRange { c with queue := rest } := h.congr rfl rfl rfl
      exact (hrest.okToDrop (some next) now coNow).entered.2

/-- The reciprocal stays in range through the drops of one dequeue. -/
theorem doDequeue_inRange (h : c.InRange)
    (hfits : AlongDequeue CountFits (fun _ _ => True) c now) :
    AlongDequeue CountSound EnterSound c now ∧ ∀ r, c.doDequeue now = .ok r → r.1.InRange := by
  have hrest (rest : List (QueueDiscItem α)) : InRange { c with queue := rest } :=
    h.congr rfl rfl rfl
  constructor
  · intro item rest hqueue hl4s hok
    have hgoes := hfits item rest hqueue hl4s hok
    have hin := (hrest rest).okToDrop (some item) now (coDelGetTime now)
    split
    · next hdropping =>
      rw [if_pos hdropping] at hgoes
      exact (dropLoop_inRange hin hgoes).1
    · exact ⟨hin, hin.entered.1, hin.entered.2.timely⟩
  · rintro ⟨c', dropped, out⟩ hr
    cases hqueue : c.queue with
    | nil =>
      rw [doDequeue, hqueue] at hr
      cases hr
      exact h.congr rfl rfl rfl
    | cons item rest =>
      have hin := (hrest rest).okToDrop (some item) now (coDelGetTime now)
      cases hl4s : c.useL4s && isL4s item with
      | true =>
        rw [doDequeue_l4s hqueue hl4s] at hr
        cases hr
        exact hrest rest
      | false =>
        have hgoes := hfits item rest hqueue hl4s
        rw [doDequeue_cons hqueue hl4s rfl] at hr
        obtain ⟨rfl, -⟩ := finish_eq_ok hr
        generalize okToDrop { c with queue := rest } (some item) now (coDelGetTime now) = next
          at hin hgoes
        cases hdropping : c.dropping <;> cases hok : next.2
        · exact hin
        · exact startDropping_inRange hin
        · exact hin.congr rfl rfl rfl
        · have hloop := hgoes hok
          rw [if_pos hdropping] at hloop
          exact (dropLoop_inRange hin hloop).2

end

/-! ## Runs -/

/-- A call that returns, and in which `m_count` does not wrap. -/
inductive FittingStep : CoDelQueueDisc α → Event α → CoDelQueueDisc α → Prop where
  | enqueue {c : CoDelQueueDisc α} {item : QueueDiscItem α} {now : Time} :
      FittingStep c (.enqueue item now) (c.enqueue item now).1
  | dequeue {c c' : CoDelQueueDisc α} {now : Time} {dropped : List (QueueDiscItem α)}
      {out : Option (QueueDiscItem α)} :
      AlongDequeue CountFits (fun _ _ => True) c now → c.doDequeue now = .ok (c', dropped, out) →
      FittingStep c (.dequeue now) c'

section

variable {c c' : CoDelQueueDisc α} {event : Event α} {events : List (Event α)}

theorem FittingStep.inRange (hstep : FittingStep c event c') (h : c.InRange) : c'.InRange := by
  cases hstep with
  | @enqueue item now =>
    rcases c.enqueue_cases item now with heq | heq
    · rw [heq]
      exact h
    · rw [heq]
      exact h.congr rfl rfl rfl
  | dequeue hfits hr => exact (doDequeue_inRange h hfits).2 _ hr

theorem Fresh.inRange (hfresh : c.Fresh) : c.InRange := by
  refine ⟨?_, ?_, ?_, ?_⟩
  · rw [hfresh.recInvSqrt]
    decide
  · rw [hfresh.count, Nat.zero_mul]
    exact Nat.zero_le _
  · rw [hfresh.count]
    decide
  · rw [hfresh.count, hfresh.lastCount]

/-- **CoDel's inverse square root** stays in range: where a run without a wrap of `m_count` ends,
the estimate is at most `2 ^ 16 / √m_count`, and so it is at its next use; there no word overflows,
and the next drop is scheduled within the interval. -/
theorem recInvSqrt_bounded (hfresh : c.Fresh) (hrun : Run FittingStep c events c') :
    c'.count * c'.recInvSqrt ^ 2 ≤ 2 ^ 32 ∧
      ∀ now, AlongDequeue CountFits (fun _ _ => True) c' now →
        AlongDequeue CountSound EnterSound c' now := by
  have hin : c'.InRange := hrun.invariant hfresh.inRange fun _ _ _ h hstep => hstep.inRange h
  exact ⟨hin.square, fun _ hfits => (doDequeue_inRange hin hfits).1⟩

end

/-- Three packets wait for a second, and the first is taken. -/
def oneTaken : CoDelQueueDisc Nat where
  __ := defaultDisc
  firstAboveTime := 1074218
  queue := [⟨2, 1500, 0, none⟩, ⟨3, 1500, 0, none⟩]

/-- A second later the dropping state is entered. -/
theorem recInvSqrt_bounded_one :
    Run FittingStep defaultDisc [arrival 1, arrival 2, arrival 3, .dequeue 1000000000] oneTaken ∧
      oneTaken.count * oneTaken.recInvSqrt ^ 2 ≤ 2 ^ 32 ∧
      AlongDequeue CountSound EnterSound oneTaken 2000000000 := by
  have hrun : Run FittingStep defaultDisc
      [arrival 1, arrival 2, arrival 3, .dequeue 1000000000] oneTaken := by
    refine .cons .enqueue (.cons .enqueue (.cons .enqueue (.single (.dequeue ?_ rfl))))
    -- the first dequeue only starts the clock
    rintro item rest hqueue - hok
    obtain ⟨rfl, rfl⟩ := List.cons.inj hqueue
    exact absurd hok (by decide)
  obtain ⟨hsquare, hnext⟩ := recInvSqrt_bounded defaultDisc_fresh hrun
  refine ⟨hrun, hsquare, hnext 2000000000 fun item rest _ _ _ => ?_⟩
  have hdropping : ¬oneTaken.dropping = true := by decide
  rw [if_neg hdropping]
  trivial

end CoDelQueueDisc

end Ns3
