/-
  When a CoDel dequeue uses an item it does not have
  (src/traffic-control/model/codel-queue-disc.cc).

  `DoDequeue` reads the time stamp of the item it is about to return without asking whether its
  drops left one.
-/
import Ns3.TrafficControl.CoDelClock

namespace Ns3

open Ns3.Lib

namespace CoDelQueueDisc

variable {α : Type}

/-! ## The drops of a call -/

/-- When the next drop is due, and what the drop after it is computed from. -/
structure Schedule where
  dropNext : Nat
  count : Nat
  recInvSqrt : Nat

def Schedule.next (interval : Nat) (s : Schedule) : Schedule where
  dropNext := controlLaw s.dropNext interval (newtonStep s.recInvSqrt (wadd 32 s.count 1))
  count := wadd 32 s.count 1
  recInvSqrt := newtonStep s.recInvSqrt (wadd 32 s.count 1)

def Schedule.Due (interval coNow : Nat) : Nat → Schedule → Prop
  | 0, _ => True
  | n + 1, s => s.dropNext ≤ coNow ∧ (s.next interval).Due interval coNow n

def schedule (c : CoDelQueueDisc α) : Schedule := ⟨c.dropNext, c.count, c.recInvSqrt⟩

def Droppable (c : CoDelQueueDisc α) (now : Time) (item : QueueDiscItem α) : Prop :=
  time2CoDel c.target ≤ time2CoDel (now - item.timeStamp) ∧ c.tryMark item = none

/-- A dequeue drops whatever is queued. -/
structure DropsAll (c : CoDelQueueDisc α) (now : Time) : Prop where
  minBytes : c.minBytes = 0
  queued : c.queue ≠ []
  classic : ∀ item ∈ c.queue.head?, (c.useL4s && isL4s item) = false
  droppable : ∀ item ∈ c.queue, c.Droppable now item
  set : c.firstAboveTime ≠ 0
  expired : c.firstAboveTime < coDelGetTime now
  due : if c.dropping then
      c.schedule.Due (time2CoDel c.interval) (coDelGetTime now) c.queue.length
    else c.queue.length = 1

section

variable {c : CoDelQueueDisc α} {item : QueueDiscItem α} {queue rest : List (QueueDiscItem α)}
  {now : Time} {coNow : Nat}

theorem not_below_iff : ¬c.Below item now ↔
    time2CoDel c.target ≤ time2CoDel (now - item.timeStamp) ∧ c.minBytes ≤ nBytes c.queue := by
  rw [Below, coDelTimeBefore_iff, not_or, Nat.not_lt, Nat.not_lt]

theorem okToDrop_eq_true_iff :
    (c.okToDrop (some item) now coNow).2 = true ↔
      ¬c.Below item now ∧ c.firstAboveTime ≠ 0 ∧ c.firstAboveTime < coNow := by
  by_cases hbelow : c.Below item now
  · rw [okToDrop_below hbelow]
    simp [hbelow]
  · rw [okToDrop_above hbelow]
    split
    · next hzero => simp [hzero]
    · next hset => simp [hbelow, hset]

theorem okToDrop_of_true (h : (c.okToDrop (some item) now coNow).2 = true) :
    c.okToDrop (some item) now coNow = (c, true) := by
  obtain ⟨habove, hset, hexpired⟩ := okToDrop_eq_true_iff.mp h
  rw [okToDrop_above habove, if_neg hset, coDelTimeAfter_iff.mpr hexpired]

theorem dropLoop_item_eq_none_iff (hdropping : c.dropping = true) (hset : c.firstAboveTime ≠ 0)
    (hexpired : c.firstAboveTime < coNow) (item : QueueDiscItem α) :
    (dropLoop now coNow queue c item).item = none ↔
      c.tryMark item = none ∧ (∀ x ∈ queue, c.Droppable now x) ∧
        (queue ≠ [] → c.minBytes = 0) ∧
        c.schedule.Due (time2CoDel c.interval) coNow (queue.length + 1) := by
  induction queue generalizing c item with
  | nil =>
    by_cases hgoes : c.dropNext ≤ coNow
    · have hloop := And.intro hdropping (coDelTimeAfterEq_iff.mpr hgoes)
      cases hmark : c.tryMark item with
      | some marked =>
        rw [dropLoop_mark hloop hmark]
        simp
      | none =>
        rw [dropLoop_nil hloop hmark]
        simpa [Schedule.Due, schedule] using hgoes
    · rw [dropLoop_stop fun h => hgoes (coDelTimeAfterEq_iff.mp h.2)]
      simp [Schedule.Due, schedule, hgoes]
  | cons next rest ih =>
    by_cases hgoes : c.dropNext ≤ coNow
    swap
    · rw [dropLoop_stop fun h => hgoes (coDelTimeAfterEq_iff.mp h.2)]
      simp [Schedule.Due, schedule, hgoes]
    have hloop := And.intro hdropping (coDelTimeAfterEq_iff.mpr hgoes)
    cases hmark : c.tryMark item with
    | some marked =>
      rw [dropLoop_mark hloop hmark]
      simp
    | none =>
      rw [dropLoop_cons hloop hmark]
      dsimp only
      cases hok : (okToDrop { c.counted with queue := rest } (some next) now coNow).2 with
      | false =>
        -- the loop leaves the dropping state, and `next` is left
        have hleft : (scheduled
            (okToDrop { c.counted with queue := rest } (some next) now coNow)).dropping =
              false := by
          rw [scheduled, hok]
          rfl
        rw [dropLoop_stop fun h => Bool.false_ne_true (hleft.symm.trans h.1)]
        refine ⟨fun h => (by cases h), ?_⟩
        rintro ⟨-, hdrop, hmin, -⟩
        have hbytes : c.minBytes ≤ nBytes rest :=
          (hmin (List.cons_ne_nil _ _)).symm ▸ Nat.zero_le _
        have hdrops : (okToDrop { c.counted with queue := rest } (some next) now coNow).2 =
            true :=
          okToDrop_eq_true_iff.mpr ⟨not_below_iff.mpr
            ⟨(hdrop next (.head _)).1, hbytes⟩, hset, hexpired⟩
        exact absurd (hdrops.symm.trans hok) Bool.true_eq_false.mp
      | true =>
        have habove := (okToDrop_eq_true_iff.mp hok).1
        rw [okToDrop_of_true hok]
        have hrest := ih (c := scheduled ({ c.counted with queue := rest }, true))
          hdropping hset hexpired next
        refine hrest.trans ?_
        obtain ⟨hlate, hbytes⟩ := not_below_iff.mp habove
        have hmin : (rest ≠ [] → c.minBytes = 0) ↔ c.minBytes = 0 := by
          refine ⟨fun h => ?_, fun h _ => h⟩
          by_cases hrest : rest = []
          · rw [hrest] at hbytes
            exact Nat.le_zero.mp hbytes
          · exact h hrest
        have hnext : c.Droppable now next ↔ c.tryMark next = none := and_iff_right hlate
        have hdue : c.schedule.Due (time2CoDel c.interval) coNow (rest.length + 2) ↔
            (c.schedule.next (time2CoDel c.interval)).Due (time2CoDel c.interval) coNow
              (rest.length + 1) := and_iff_right hgoes
        rw [List.forall_mem_cons, hnext, List.length_cons, hdue]
        change _ ∧ _ ∧ (rest ≠ [] → c.minBytes = 0) ∧ _ ↔ _
        rw [hmin]
        simp only [ne_eq, reduceCtorEq, not_false_eq_true, forall_const, true_and, and_assoc]
        rfl

/-! ## A dequeue -/

theorem finish_returns_iff (s : AtEnd α) : (∃ r, finish now s = .ok r) ↔ s.item ≠ none := by
  rw [finish]
  cases s.item with
  | none => simp
  | some item =>
    dsimp only
    split <;> simp

theorem startDropping_item_eq_none_iff :
    (c.startDropping item now coNow).item = none ↔ c.tryMark item = none ∧ c.queue = [] := by
  rw [startDropping]
  cases c.tryMark item with
  | some marked => simp
  | none => cases c.queue <;> simp

theorem dropsAll_iff (hqueue : c.queue = item :: rest)
    (hl4s : (c.useL4s && isL4s item) = false) :
    c.DropsAll now ↔
      (okToDrop { c with queue := rest } (some item) now (coDelGetTime now)).2 = true ∧
        if c.dropping then
          (dropLoop now (coDelGetTime now) rest { c with queue := rest } item).item = none
        else (startDropping { c with queue := rest } item now (coDelGetTime now)).item = none := by
  have hclassic : ∀ x ∈ c.queue.head?, (c.useL4s && isL4s x) = false := by
    rw [hqueue]
    rintro x hx
    cases hx
    exact hl4s
  rw [okToDrop_eq_true_iff, not_below_iff]
  constructor
  · rintro ⟨hmin, hne, -, hdrop, hset, hexpired, hdue⟩
    rw [hqueue, List.forall_mem_cons] at hdrop
    refine ⟨⟨⟨hdrop.1.1, hmin.symm ▸ Nat.zero_le _⟩, hset, hexpired⟩, ?_⟩
    rw [hqueue] at hdue
    by_cases hdropping : c.dropping = true
    · rw [if_pos hdropping] at hdue ⊢
      exact (dropLoop_item_eq_none_iff (c := { c with queue := rest }) hdropping hset
        hexpired _).mpr ⟨hdrop.1.2, hdrop.2, fun _ => hmin, hdue⟩
    · rw [if_neg hdropping] at hdue ⊢
      exact startDropping_item_eq_none_iff.mpr
        ⟨hdrop.1.2, List.length_eq_zero_iff.mp (Nat.succ.inj hdue)⟩
  · rintro ⟨⟨⟨hlate, hbytes⟩, hset, hexpired⟩, hnone⟩
    have hmin (h : rest ≠ [] → c.minBytes = 0) : c.minBytes = 0 := by
      by_cases hrest : rest = []
      · rw [hrest] at hbytes
        exact Nat.le_zero.mp hbytes
      · exact h hrest
    by_cases hdropping : c.dropping = true
    · rw [if_pos hdropping] at hnone
      obtain ⟨hmark, hdrop, hbound, hdue⟩ :=
        (dropLoop_item_eq_none_iff (c := { c with queue := rest }) hdropping hset hexpired _).mp
          hnone
      refine ⟨hmin hbound, hqueue ▸ List.cons_ne_nil _ _, hclassic, ?_, hset, hexpired, ?_⟩
      · rw [hqueue, List.forall_mem_cons]
        exact ⟨⟨hlate, hmark⟩, hdrop⟩
      · rw [if_pos hdropping, hqueue]
        exact hdue
    · rw [if_neg hdropping] at hnone
      obtain ⟨hmark, hrest⟩ := startDropping_item_eq_none_iff.mp hnone
      have hrest : rest = [] := hrest
      refine ⟨hmin fun h => absurd hrest h, hqueue ▸ List.cons_ne_nil _ _, hclassic, ?_, hset,
        hexpired, ?_⟩
      · rw [hqueue, hrest, List.forall_mem_cons]
        exact ⟨⟨hlate, hmark⟩, List.forall_mem_nil _⟩
      · rw [if_neg hdropping, hqueue, hrest]
        rfl

end

/-- **CoDel's dequeue** ends, and returns unless it drops whatever is queued. -/
theorem doDequeue_returns_iff (c : CoDelQueueDisc α) (now : Time) :
    Ends (c.doDequeue now) ∧ ((∃ r, c.doDequeue now = .ok r) ↔ ¬c.DropsAll now) := by
  refine ⟨doDequeue_ends c now, ?_⟩
  cases hqueue : c.queue with
  | nil =>
    rw [doDequeue, hqueue]
    exact iff_of_true ⟨_, rfl⟩ fun h => h.queued hqueue
  | cons item rest =>
    cases hl4s : c.useL4s && isL4s item with
    | true =>
      rw [doDequeue_l4s hqueue hl4s]
      refine iff_of_true ⟨_, rfl⟩ fun h => ?_
      have hclassic := h.classic item (by rw [hqueue]; rfl)
      exact Bool.false_ne_true (hclassic.symm.trans hl4s)
    | false =>
      rw [dropsAll_iff hqueue hl4s, doDequeue_cons hqueue hl4s rfl, finish_returns_iff]
      cases hok : (okToDrop { c with queue := rest } (some item) now (coDelGetTime now)).2 with
      | false => cases c.dropping <;> simp
      | true =>
        rw [okToDrop_of_true hok]
        cases c.dropping <;> simp

/-- The attributes allow a disc that drops its last packet. -/
def emptied : CoDelQueueDisc Nat := { defaultDisc with minBytes := 0 }

/-- Two packets arrive.  The first dequeue starts the clock, the second drops the only packet
left and reads the time stamp of none. -/
theorem emptied_stops :
    decisions emptied [arrival 1, arrival 2, .dequeue 1000000000, .dequeue 2000000000] =
      [.enqueued true, .enqueued true, .dequeued [] (some (1, 1500, none)),
        .stopped .nullDereference] ∧
      ¬∀ (c : CoDelQueueDisc Nat) (now : Time), ∃ r, c.doDequeue now = .ok r := by
  refine ⟨by decide, fun h => ?_⟩
  obtain ⟨r, hr⟩ := h { emptied with firstAboveTime := 1, queue := [⟨2, 1500, 0, none⟩] } 2000000000
  cases hr

end CoDelQueueDisc

end Ns3
