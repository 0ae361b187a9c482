/-
  What a scheduler is for: a sorted list of events.

  This is the abstract scheduler that the schedulers of the repository are compared with:
  it keeps the events in order of their time and uid, and always hands out the first one.
  The scheduler on a linked list (src/core/model/list-scheduler.cc) is that list itself.
-/
import Mathlib.Data.List.Sort
import Mathlib.Data.List.Nodup
import Ns3.Core.Fault
import Ns3.Core.Scheduler

namespace Ns3

/-- The virtual methods of a `Scheduler` with state `σ` that the simulator calls. -/
structure SchedulerOps (σ : Type) where
  insert : σ → Event → Except Fault σ
  isEmpty : σ → Bool
  removeNext : σ → Except Fault (Event × σ)
  remove : σ → Event → Except Fault σ

def uids (l : List Event) : List Nat := l.map fun e => e.key.uid

/-- A sorted list of events with different uids. -/
structure SortedEvents where
  events : List Event
  sorted : events.Pairwise fun a b => a.rank ≤ b.rank
  distinct : (uids events).Nodup

/-- A call of a scheduler, with the event it returns. -/
inductive SchedulerCall where
  | insert (ev : Event)
  | removeNext (ev : Event)
  | remove (ev : Event)
  deriving DecidableEq, Repr

variable {ev : Event}

namespace SortedEvents

variable {s s' : SortedEvents} {call : SchedulerCall}

def empty : SortedEvents := ⟨[], .nil, .nil⟩

def insert (s : SortedEvents) (ev : Event) (hnew : ev.key.uid ∉ uids s.events) :
    SortedEvents where
  events := s.events.orderedInsert (fun a b => a.rank ≤ b.rank) ev
  sorted := by
    have : Std.Total (fun a b : Event => a.rank ≤ b.rank) := ⟨fun a b => le_total a.rank b.rank⟩
    have : IsTrans Event fun a b => a.rank ≤ b.rank := ⟨fun _ _ _ => le_trans⟩
    exact s.sorted.orderedInsert ev s.events
  distinct := by
    have hperm : (uids (s.events.orderedInsert (fun a b => a.rank ≤ b.rank) ev)).Perm
        (ev.key.uid :: uids s.events) := (List.perm_orderedInsert _ ev s.events).map _
    exact hperm.nodup_iff.mpr (List.nodup_cons.mpr ⟨hnew, s.distinct⟩)

def tail (s : SortedEvents) : SortedEvents where
  events := s.events.tail
  sorted := s.sorted.tail
  distinct := s.distinct.sublist ((List.tail_sublist s.events).map _)

def erase (s : SortedEvents) (ev : Event) : SortedEvents where
  events := s.events.erase ev
  sorted := s.sorted.sublist List.erase_sublist
  distinct := s.distinct.sublist (List.erase_sublist.map _)

/-- One call of a scheduler, as it should be answered. -/
inductive Step (s : SortedEvents) : SchedulerCall → SortedEvents → Prop where
  | insert {ev : Event} (hnew : ev.key.uid ∉ uids s.events) :
      Step s (.insert ev) (s.insert ev hnew)
  | removeNext {ev : Event} (hfirst : s.events.head? = some ev) : Step s (.removeNext ev) s.tail
  | remove {ev : Event} (hmem : ev ∈ s.events) : Step s (.remove ev) (s.erase ev)

theorem events_insert_perm (s : SortedEvents) (hnew : ev.key.uid ∉ uids s.events) :
    (s.insert ev hnew).events.Perm (ev :: s.events) :=
  List.perm_orderedInsert _ ev s.events

theorem eq_of_uid {e : Event} (hev : ev ∈ s.events) (he : e ∈ s.events)
    (huid : ev.key.uid = e.key.uid) : ev = e :=
  List.inj_on_of_nodup_map s.distinct hev he huid

theorem head?_eq_some_iff :
    s.events.head? = some ev ↔ ev ∈ s.events ∧ ∀ e ∈ s.events, ev.rank ≤ e.rank := by
  constructor
  · intro hfirst
    obtain ⟨rest, hevents⟩ := List.head?_eq_some_iff.mp hfirst
    have hsorted := s.sorted
    rw [hevents] at hsorted ⊢
    refine ⟨.head _, fun e he => ?_⟩
    rcases List.mem_cons.mp he with rfl | hrest
    · exact le_refl _
    · exact (List.pairwise_cons.mp hsorted).1 e hrest
  · rintro ⟨hmem, hmin⟩
    cases hevents : s.events with
    | nil =>
      rw [hevents] at hmem
      cases hmem
    | cons first rest =>
      have hsorted := s.sorted
      rw [hevents] at hsorted
      have hfirst : first ∈ s.events := by
        rw [hevents]
        exact .head _
      have hle : first.rank ≤ ev.rank := by
        rw [hevents] at hmem
        rcases List.mem_cons.mp hmem with rfl | hrest
        · exact le_refl _
        · exact (List.pairwise_cons.mp hsorted).1 ev hrest
      have hrank : first.rank = ev.rank := le_antisymm hle (hmin first hfirst)
      rw [List.head?_cons, eq_of_uid hfirst hmem (EventKey.uid_eq_of_rank hrank)]

theorem rank_lt_of_mem_tail {e : Event} (hfirst : s.events.head? = some ev)
    (he : e ∈ s.tail.events) : ev.rank < e.rank := by
  obtain ⟨rest, hevents⟩ := List.head?_eq_some_iff.mp hfirst
  have hsorted := s.sorted
  have hdistinct := s.distinct
  dsimp only [tail] at he
  rw [hevents, List.tail_cons] at he
  rw [hevents] at hsorted hdistinct
  apply lt_of_le_of_ne ((List.pairwise_cons.mp hsorted).1 e he)
  intro hrank
  have huid : ev.key.uid = e.key.uid := EventKey.uid_eq_of_rank hrank
  apply (List.nodup_cons.mp hdistinct).1
  exact List.mem_map.mpr ⟨e, he, huid.symm⟩

end SortedEvents

/-- A scheduler is correct when it does what a sorted list does; `Stores s l` says that it
stores the events of `l`. -/
structure SchedulerOps.Correct {σ : Type} (ops : SchedulerOps σ)
    (Stores : σ → SortedEvents → Prop) : Prop where
  insert : ∀ {s l ev}, Stores s l → ∀ hnew : ev.key.uid ∉ uids l.events,
    ∃ s', ops.insert s ev = .ok s' ∧ Stores s' (l.insert ev hnew)
  isEmpty : ∀ {s l}, Stores s l → (ops.isEmpty s = true ↔ l.events = [])
  removeNext : ∀ {s l ev}, Stores s l → l.events.head? = some ev →
    ∃ s', ops.removeNext s = .ok (ev, s') ∧ Stores s' l.tail
  remove : ∀ {s l ev}, Stores s l → ev ∈ l.events →
    ∃ s', ops.remove s ev = .ok s' ∧ Stores s' (l.erase ev)

/-! ## The scheduler on a linked list -/

/-- `m_events`, in order. -/
structure ListScheduler where
  events : List Event := []
  deriving DecidableEq, Repr

namespace ListScheduler

def insertLoop (ev : Event) : List Event → List Event
  | [] => [ev]
  | i :: rest => if ev.key.lt i.key then ev :: i :: rest else i :: insertLoop ev rest

def insert (s : ListScheduler) (ev : Event) : Except Fault ListScheduler :=
  .ok { events := insertLoop ev s.events }

def isEmpty (s : ListScheduler) : Bool := s.events.isEmpty

def removeNext (s : ListScheduler) : Except Fault (Event × ListScheduler) :=
  match s.events with
  | [] => .error .badIterator
  | next :: rest => .ok (next, { events := rest })

def removeLoop (ev : Event) : List Event → Except Fault (List Event)
  | [] => .error .assertFailed
  | i :: rest =>
    if i.key.uid = ev.key.uid then do
      nsAssert (ev.impl = i.impl)
      pure rest
    else do
      let rest ← removeLoop ev rest
      pure (i :: rest)

def remove (s : ListScheduler) (ev : Event) : Except Fault ListScheduler := do
  let events ← removeLoop ev s.events
  pure { events }

def ops : SchedulerOps ListScheduler where
  insert := insert
  isEmpty := isEmpty
  removeNext := removeNext
  remove := remove

def Stores (s : ListScheduler) (l : SortedEvents) : Prop := s.events = l.events

theorem insertLoop_eq {l : List Event} (hnew : ev.key.uid ∉ uids l) :
    insertLoop ev l = l.orderedInsert (fun a b => a.rank ≤ b.rank) ev := by
  induction l with
  | nil => rfl
  | cons i rest ih =>
    obtain ⟨hne, hrest⟩ : ev.key.uid ≠ i.key.uid ∧ ev.key.uid ∉ uids rest := by
      simpa [uids] using hnew
    rw [insertLoop, List.orderedInsert_cons, ih hrest]
    have hcond : ev.key.lt i.key = true ↔ ev.rank ≤ i.rank := by
      rw [EventKey.lt_iff]
      refine ⟨le_of_lt, fun hle => lt_of_le_of_ne hle fun heq => ?_⟩
      exact hne (EventKey.uid_eq_of_rank heq)
    simp only [hcond]

theorem removeLoop_eq {l : List Event} (hdistinct : (uids l).Nodup) (hmem : ev ∈ l) :
    removeLoop ev l = .ok (l.erase ev) := by
  induction l with
  | nil => cases hmem
  | cons i rest ih =>
    rw [removeLoop]
    obtain ⟨hnot, hrest⟩ := List.nodup_cons.mp hdistinct
    rcases List.mem_cons.mp hmem with rfl | hin
    · rw [if_pos rfl, List.erase_cons_head, nsAssert, if_pos (decide_eq_true rfl)]
      rfl
    · have hne : i.key.uid ≠ ev.key.uid := by
        intro heq
        apply hnot
        exact List.mem_map.mpr ⟨ev, hin, heq.symm⟩
      have hne' : i ≠ ev := fun heq => hne (heq ▸ rfl)
      rw [if_neg hne, ih hrest hin, List.erase_cons_tail (by simpa using hne')]
      rfl

theorem correct : ops.Correct Stores where
  insert := by
    intro s l ev hstores hnew
    refine ⟨_, rfl, ?_⟩
    rw [Stores] at hstores ⊢
    dsimp only
    rw [hstores, insertLoop_eq hnew]
    rfl
  isEmpty := by
    intro s l hstores
    rw [← hstores]
    exact List.isEmpty_iff
  removeNext := by
    intro s l ev hstores hfirst
    obtain ⟨rest, hevents⟩ := List.head?_eq_some_iff.mp hfirst
    refine ⟨{ events := rest }, ?_, ?_⟩
    · dsimp only [ops, removeNext]
      rw [show s.events = ev :: rest from hstores.trans hevents]
    · dsimp only [Stores, SortedEvents.tail]
      rw [hevents, List.tail_cons]
  remove := by
    intro s l ev hstores hmem
    refine ⟨{ events := l.events.erase ev }, ?_, rfl⟩
    dsimp only [ops, remove]
    rw [show s.events = l.events from hstores, removeLoop_eq l.distinct hmem]
    rfl

end ListScheduler

end Ns3
