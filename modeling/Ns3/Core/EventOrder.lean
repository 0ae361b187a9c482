/-
  The order in which the simulator runs events.

  A run is any sequence of calls and of events taken from the scheduler: the calls that an
  event makes follow it.  Beside the simulator it records the events in the order they were
  scheduled, the ones that ran, and the ones that were cancelled or removed before.  The
  invariant rests on the uids, which grow from `UID::VALID` until the counter wraps.
-/
import Ns3.Core.DefaultSimulatorImpl
import Ns3.Lib.Run
import Mathlib.Data.List.Sublists

namespace Ns3

open Ns3.Lib

def EventId.event (id : EventId) : Event :=
  { impl := id.impl, key := { ts := id.ts, uid := id.uid, context := id.context } }

def Event.id (ev : Event) : EventId :=
  { impl := ev.impl, ts := ev.key.ts, context := ev.key.context, uid := ev.key.uid }

/-- What happens in a simulation. -/
inductive SimulatorCall where
  | schedule (delay : Time) (impl : Nat)
  | scheduleNow (impl : Nat)
  | scheduleWithContext (context : Nat) (delay : Time) (impl : Nat)
  | scheduleDestroy (impl : Nat)
  | cancel (ev : Event)
  | remove (ev : Event)
  | processOneEvent
  deriving DecidableEq, Repr

/-- A simulator, with the events that were scheduled, ran, and were cancelled or removed before they
ran, each in this order. -/
structure SimulatorRun (σ : Type) where
  sim : DefaultSimulatorImpl σ
  scheduled : List Event := []
  ran : List Event := []
  dropped : List Event := []

namespace SimulatorRun

variable {σ : Type} {ops : SchedulerOps σ} {st st' : SimulatorRun σ} {ev : Event}
  {call : SimulatorCall} {calls : List SimulatorCall}

/-- The `EventImpl` is a new object, and the absolute time is in the range of a `Time`. -/
def Admits (st : SimulatorRun σ) (delay : Time) (impl : Nat) : Prop :=
  impl ≠ 0 ∧ (∀ e ∈ st.scheduled, e.impl ≠ impl) ∧ delay + st.sim.currentTs < 2 ^ 63

/-- The events that are cancelled or removed before they ran, after a call for `ev`. -/
def drop (st : SimulatorRun σ) (ev : Event) : List Event :=
  if ev ∈ st.ran then st.dropped else ev :: st.dropped

/-- One call that returns. -/
inductive Step (ops : SchedulerOps σ) (st : SimulatorRun σ) :
    SimulatorCall → SimulatorRun σ → Prop where
  | schedule {delay : Time} {impl : Nat} {id : EventId} {sim : DefaultSimulatorImpl σ}
      (hadmits : st.Admits delay impl) (h : st.sim.schedule ops delay impl = .ok (id, sim)) :
      Step ops st (.schedule delay impl)
        { st with sim, scheduled := st.scheduled ++ [id.event] }
  | scheduleNow {impl : Nat} {id : EventId} {sim : DefaultSimulatorImpl σ}
      (hadmits : st.Admits 0 impl) (h : st.sim.scheduleNow ops impl = .ok (id, sim)) :
      Step ops st (.scheduleNow impl)
        { st with sim, scheduled := st.scheduled ++ [id.event] }
  | scheduleWithContext {context : Nat} {delay : Time} {impl : Nat} {id : EventId}
      {sim : DefaultSimulatorImpl σ} (hadmits : st.Admits delay impl)
      (h : st.sim.scheduleWithContext ops context delay impl = .ok (id, sim)) :
      Step ops st (.scheduleWithContext context delay impl)
        { st with sim, scheduled := st.scheduled ++ [id.event] }
  | scheduleDestroy {impl : Nat} :
      Step ops st (.scheduleDestroy impl) { st with sim := (st.sim.scheduleDestroy impl).2 }
  | cancel {ev : Event} (hmem : ev ∈ st.scheduled) :
      Step ops st (.cancel ev) { st with sim := st.sim.cancel ev.id, dropped := st.drop ev }
  | remove {ev : Event} {sim : DefaultSimulatorImpl σ} (hmem : ev ∈ st.scheduled)
      (h : st.sim.remove ops ev.id = .ok sim) :
      Step ops st (.remove ev) { st with sim, dropped := st.drop ev }
  | processOneEvent {next : Event} {notified : Bool} {sim : DefaultSimulatorImpl σ}
      (hmore : ops.isEmpty st.sim.events = false)
      (h : st.sim.processOneEvent ops = .ok (next, notified, sim)) :
      Step ops st .processOneEvent
        { st with sim, ran := if notified then st.ran ++ [next] else st.ran }

/-- A call that takes a uid finds one that is not reserved, and a delay is not negative. -/
def Within (st : SimulatorRun σ) : SimulatorCall → Prop
  | .schedule _ _ | .scheduleNow _ | .scheduleDestroy _ => EventId.VALID ≤ st.sim.uid
  | .scheduleWithContext _ delay _ => EventId.VALID ≤ st.sim.uid ∧ 0 ≤ delay
  | _ => True

/-- `a` is due before `b`: at an earlier time, or at the same time and scheduled first. -/
def Before (scheduled : List Event) (a b : Event) : Prop :=
  a.key.ts < b.key.ts ∨ (a.key.ts = b.key.ts ∧ [a, b].Sublist scheduled)

/-- The simulator does what it is for: events run in order of time, and first scheduled,
first run; each runs at most once, and runs unless it was cancelled or removed before;
`IsExpired` tells which ones are still to run; and the next event can be processed. -/
structure Sound (ops : SchedulerOps σ) (st : SimulatorRun σ) : Prop where
  ordered : st.ran.Pairwise (Before st.scheduled)
  scheduled : ∀ ev ∈ st.ran, ev ∈ st.scheduled
  once : st.ran.Nodup
  not_dropped : ∀ ev ∈ st.ran, ev ∉ st.dropped
  complete : ops.isEmpty st.sim.events = true →
    ∀ ev ∈ st.scheduled, ev ∈ st.ran ∨ ev ∈ st.dropped
  expired : ∀ ev ∈ st.scheduled,
    (st.sim.isExpired ev.id = false ↔ ev ∉ st.ran ∧ ev ∉ st.dropped)
  progress : ops.isEmpty st.sim.events = false →
    ∃ next notified sim, st.sim.processOneEvent ops = .ok (next, notified, sim)
  removes : ∀ ev ∈ st.scheduled, ∃ sim, st.sim.remove ops ev.id = .ok sim

/-! ## The invariant -/

/-- The bound of the uids that were taken: the counter, or all of them when it has just
wrapped. -/
def uidLimit (st : SimulatorRun σ) : Nat := if st.sim.uid = 0 then 2 ^ 32 else st.sim.uid

def current (st : SimulatorRun σ) : Nat ×ₗ Nat := toLex (st.sim.currentTs, st.sim.currentUid)

/-- What holds in every state: the scheduler stores the events of `l`. -/
structure Holds (Stores : σ → SortedEvents → Prop) (st : SimulatorRun σ) (l : SortedEvents) :
    Prop where
  stores : Stores st.sim.events l
  uid_lt : st.sim.uid < 2 ^ 32
  current_lt : st.sim.currentUid < st.uidLimit
  uids_lt : ∀ ev ∈ st.scheduled, EventId.VALID ≤ ev.key.uid ∧ ev.key.uid < st.uidLimit
  increasing : st.scheduled.Pairwise fun a b => a.key.uid < b.key.uid
  impls : (st.scheduled.map Event.impl).Nodup
  impl_ne : ∀ ev ∈ st.scheduled, ev.impl ≠ 0
  stored : ∀ ev ∈ l.events, ev ∈ st.scheduled ∧ st.current < ev.rank
  ran_le : ∀ ev ∈ st.ran, ev ∈ st.scheduled ∧ ev.rank ≤ st.current
  ran_lt : st.ran.Pairwise fun a b => a.rank < b.rank
  covered : ∀ ev ∈ st.scheduled, ev ∈ l.events ∨ ev ∈ st.ran ∨ ev ∈ st.dropped
  flags : ∀ ev ∈ st.scheduled, (ev.impl ∈ st.sim.cancelled ↔ ev ∈ st.dropped)
  apart : ∀ ev ∈ st.ran, ev ∉ st.dropped
  cancelled_impl : ∀ i ∈ st.sim.cancelled, ∃ ev ∈ st.scheduled, ev.impl = i
  dropped_mem : ∀ ev ∈ st.dropped, ev ∈ st.scheduled

variable {Stores : σ → SortedEvents → Prop} {l : SortedEvents}

theorem sublist_of_uid_lt {l : List Event} (h : l.Pairwise fun a b => a.key.uid < b.key.uid)
    {a b : Event} (ha : a ∈ l) (hb : b ∈ l) (hlt : a.key.uid < b.key.uid) : [a, b].Sublist l := by
  induction l with
  | nil => cases ha
  | cons x xs ih =>
    obtain ⟨hx, hxs⟩ := List.pairwise_cons.mp h
    rcases List.mem_cons.mp ha with rfl | hain
    · rcases List.mem_cons.mp hb with rfl | hbin
      · exact absurd hlt (Nat.lt_irrefl _)
      · exact (List.singleton_sublist.mpr hbin).cons_cons a
    · rcases List.mem_cons.mp hb with rfl | hbin
      · exact absurd (hx a hain) (Nat.lt_asymm hlt)
      · exact (ih hxs hain hbin).cons x

section

variable (h : Holds Stores st l) (hev : ev ∈ st.scheduled)

include h hev

theorem Holds.isExpired_iff :
    st.sim.isExpired ev.id = false ↔ st.current < ev.rank ∧ ev ∉ st.dropped := by
  have huid : ev.id.uid ≠ EventId.DESTROY := by
    have hvalid := (h.uids_lt ev hev).1
    dsimp only [EventId.VALID, EventId.DESTROY, Event.id] at hvalid ⊢
    omega
  have himpl : ev.id.impl ≠ 0 := h.impl_ne ev hev
  rw [DefaultSimulatorImpl.isExpired, if_neg huid, ← h.flags ev hev, current, Event.rank,
    EventKey.rank, Prod.Lex.toLex_lt_toLex]
  simp only [Bool.or_eq_false_iff, Bool.and_eq_false_iff, decide_eq_false_iff_not,
    List.contains_eq_mem, himpl, not_false_eq_true, true_and]
  change (¬ev.key.ts < st.sim.currentTs ∧
    (¬ev.key.ts = st.sim.currentTs ∨ ¬ev.key.uid ≤ st.sim.currentUid)) ∧ _ ↔
    (st.sim.currentTs < ev.key.ts ∨ st.sim.currentTs = ev.key.ts ∧
      st.sim.currentUid < ev.key.uid) ∧ _
  refine and_congr ?_ Iff.rfl
  omega

theorem Holds.expired : st.sim.isExpired ev.id = false ↔ ev ∉ st.ran ∧ ev ∉ st.dropped := by
  rw [h.isExpired_iff hev]
  constructor
  · rintro ⟨hlt, hnot⟩
    exact ⟨fun hran => absurd (h.ran_le ev hran).2 (not_le.mpr hlt), hnot⟩
  · rintro ⟨hran, hnot⟩
    rcases h.covered ev hev with hstored | hin | hin
    · exact ⟨(h.stored ev hstored).2, hnot⟩
    · exact absurd hin hran
    · exact absurd hin hnot

theorem Holds.stored_of_not_expired (hnot : st.sim.isExpired ev.id = false) : ev ∈ l.events := by
  obtain ⟨hran, hdropped⟩ := (h.expired hev).mp hnot
  rcases h.covered ev hev with hstored | hin | hin
  · exact hstored
  · exact absurd hin hran
  · exact absurd hin hdropped

theorem Holds.eq_of_impl {e : Event} (he : e ∈ st.scheduled) (himpl : ev.impl = e.impl) : ev = e :=
  List.inj_on_of_nodup_map h.impls hev he himpl

end

/-! ## The calls -/

variable {events : σ}

theorem uidLimit_eq (huid : EventId.VALID ≤ st.sim.uid) : st.uidLimit = st.sim.uid := by
  rw [uidLimit, if_neg]
  dsimp only [EventId.VALID] at huid
  omega

theorem Holds.uid_new (h : Holds Stores st l) (huid : EventId.VALID ≤ st.sim.uid) :
    st.sim.uid ∉ uids l.events := by
  intro hmem
  obtain ⟨e, he, heq⟩ := List.mem_map.mp hmem
  have hlt := (h.uids_lt e (h.stored e he).1).2
  rw [uidLimit_eq huid] at hlt
  omega

def inserted (st : SimulatorRun σ) (ev : Event) (events : σ) : SimulatorRun σ :=
  { st with
    sim := { st.sim with
      events, uid := wadd 32 st.sim.uid 1
      unscheduledEvents := st.sim.unscheduledEvents + 1 }
    scheduled := st.scheduled ++ [ev] }

theorem Holds.uidLimit_inserted (h : Holds Stores st l) (ev : Event) (events : σ) :
    (st.inserted ev events).uidLimit = st.sim.uid + 1 := by
  have hlt := h.uid_lt
  dsimp only [uidLimit, inserted, wadd]
  split
  · omega
  · omega

theorem Holds.inserted (h : Holds Stores st l) (huid : EventId.VALID ≤ st.sim.uid)
    (hev : ev.key.uid = st.sim.uid) (hts : st.sim.currentTs ≤ ev.key.ts) (hne : ev.impl ≠ 0)
    (hfresh : ∀ e ∈ st.scheduled, e.impl ≠ ev.impl) (hnew : ev.key.uid ∉ uids l.events)
    (hstores : Stores events (l.insert ev hnew)) :
    Holds Stores (st.inserted ev events) (l.insert ev hnew) := by
  have hlimit := uidLimit_eq huid
  have hbound := h.uidLimit_inserted ev events
  have hsplit : ∀ e ∈ (l.insert ev hnew).events, e = ev ∨ e ∈ l.events := fun e he =>
    List.mem_cons.mp ((l.events_insert_perm hnew).mem_iff.mp he)
  have hlater : st.current < ev.rank := by
    rw [current, Event.rank, EventKey.rank, Prod.Lex.toLex_lt_toLex]
    have hcurrent := h.current_lt
    dsimp only
    omega
  have hmem : ∀ e, e ∈ (st.inserted ev events).scheduled ↔ e ∈ st.scheduled ∨ e = ev := by
    intro e
    exact List.mem_append.trans (or_congr_right List.mem_singleton)
  refine ⟨hstores, wadd_lt 32 _ _, ?_, ?_, ?_, ?_, ?_, ?_, ?_, h.ran_lt, ?_, ?_, h.apart,
    ?_, ?_⟩
  · have hcurrent := h.current_lt
    rw [hbound]
    dsimp only [SimulatorRun.inserted]
    omega
  · intro e he
    rw [hbound]
    rcases (hmem e).mp he with hold | rfl
    · have hold' := h.uids_lt e hold
      omega
    · omega
  · apply List.pairwise_append.mpr
    refine ⟨h.increasing, List.pairwise_singleton _ _, fun a ha b hb => ?_⟩
    have hlt := (h.uids_lt a ha).2
    rw [List.mem_singleton.mp hb]
    omega
  · dsimp only [SimulatorRun.inserted]
    rw [List.map_append, List.nodup_append]
    refine ⟨h.impls, List.nodup_singleton _, ?_⟩
    intro x hx y hy heq
    obtain ⟨e, he, rfl⟩ := List.mem_map.mp hx
    exact hfresh e he (heq.trans (List.mem_singleton.mp hy))
  · intro e he
    rcases (hmem e).mp he with hold | rfl
    · exact h.impl_ne e hold
    · exact hne
  · intro e he
    rcases hsplit e he with rfl | hold
    · exact ⟨(hmem e).mpr (.inr rfl), hlater⟩
    · exact ⟨(hmem e).mpr (.inl (h.stored e hold).1), (h.stored e hold).2⟩
  · intro e he
    exact ⟨(hmem e).mpr (.inl (h.ran_le e he).1), (h.ran_le e he).2⟩
  · intro e he
    rcases (hmem e).mp he with hold | rfl
    · rcases h.covered e hold with hstored | hran
      · exact .inl ((l.events_insert_perm hnew).mem_iff.mpr (.tail _ hstored))
      · exact .inr hran
    · exact .inl ((l.events_insert_perm hnew).mem_iff.mpr (.head _))
  · intro e he
    rcases (hmem e).mp he with hold | rfl
    · exact h.flags e hold
    · apply iff_of_false
      · intro hin
        obtain ⟨e', he', himpl⟩ := h.cancelled_impl _ hin
        exact hfresh e' he' himpl
      · intro hin
        exact hfresh e (h.dropped_mem e hin) rfl
  · intro i hi
    obtain ⟨e, he, himpl⟩ := h.cancelled_impl i hi
    exact ⟨e, (hmem e).mpr (.inl he), himpl⟩
  · intro e he
    exact (hmem e).mpr (.inl (h.dropped_mem e he))

theorem le_absolute {d : Int} {t : Nat} (hd : 0 ≤ d) (hrange : d + t < 2 ^ 63) :
    t ≤ ((d + t) % 2 ^ 64).toNat := by
  omega

variable {sim : DefaultSimulatorImpl σ}

theorem Holds.insertEvent (hcorrect : ops.Correct Stores) (h : Holds Stores st l) {delay : Time}
    {impl : Nat} (hadmits : st.Admits delay impl) (huid : EventId.VALID ≤ st.sim.uid)
    (hdelay : 0 ≤ delay) (context : Nat) {id : EventId}
    (hcall : st.sim.insertEvent ops (delay + st.sim.currentTs) context impl = .ok (id, sim)) :
    ∃ l', Holds Stores { st with sim, scheduled := st.scheduled ++ [id.event] } l' := by
  obtain ⟨himpl, hfresh, hrange⟩ := hadmits
  have hnew := h.uid_new huid
  obtain ⟨events, hinsert, hstores⟩ := @SchedulerOps.Correct.insert _ _ _ hcorrect _ _
    (st.sim.newEvent (delay + st.sim.currentTs) context impl) h.stores hnew
  rw [DefaultSimulatorImpl.insertEvent, hinsert] at hcall
  cases hcall
  refine ⟨_, h.inserted huid rfl ?_ himpl hfresh hnew hstores⟩
  exact le_absolute hdelay hrange

theorem Holds.scheduleDestroy (h : Holds Stores st l) (huid : EventId.VALID ≤ st.sim.uid)
    (impl : Nat) : Holds Stores { st with sim := (st.sim.scheduleDestroy impl).2 } l := by
  have hlimit := uidLimit_eq huid
  have hbound := h.uidLimit_inserted default st.sim.events
  have hgrows : st.uidLimit ≤ uidLimit { st with sim := (st.sim.scheduleDestroy impl).2 } := by
    have : uidLimit { st with sim := (st.sim.scheduleDestroy impl).2 } = st.sim.uid + 1 := hbound
    omega
  refine ⟨h.stores, wadd_lt 32 _ _, h.current_lt.trans_le hgrows, ?_, h.increasing,
    h.impls, h.impl_ne, h.stored, h.ran_le, h.ran_lt, h.covered, h.flags, h.apart,
    h.cancelled_impl, h.dropped_mem⟩
  intro e he
  exact ⟨(h.uids_lt e he).1, Nat.lt_of_lt_of_le (h.uids_lt e he).2 hgrows⟩

theorem mem_drop {e : Event} : e ∈ st.drop ev ↔ e ∈ st.dropped ∨ (e = ev ∧ ev ∉ st.ran) := by
  rw [drop]
  split
  · rename_i hran
    simp [hran]
  · rename_i hran
    rw [List.mem_cons]
    simp [hran, or_comm]

section

variable (h : Holds Stores st l) (hev : ev ∈ st.scheduled)

include h hev

theorem Holds.drop_expired (hexpired : st.sim.isExpired ev.id = true) :
    Holds Stores { st with dropped := st.drop ev } l := by
  have hdrop : ∀ e, e ∈ st.drop ev ↔ e ∈ st.dropped := by
    intro e
    rw [mem_drop]
    constructor
    · rintro (hin | ⟨rfl, hran⟩)
      · exact hin
      · by_contra hnot
        rw [(h.expired hev).mpr ⟨hran, hnot⟩] at hexpired
        cases hexpired
    · exact .inl
  refine ⟨h.stores, h.uid_lt, h.current_lt, h.uids_lt, h.increasing, h.impls, h.impl_ne, h.stored,
    h.ran_le, h.ran_lt, ?_, ?_, ?_, h.cancelled_impl, ?_⟩
  · intro e he
    rw [hdrop]
    exact h.covered e he
  · intro e he
    rw [hdrop]
    exact h.flags e he
  · intro e he
    rw [hdrop]
    exact h.apart e he
  · intro e he
    exact h.dropped_mem e ((hdrop e).mp he)

theorem Holds.drop_pending (hpending : st.sim.isExpired ev.id = false) {l' : SortedEvents}
    {count : Int} (hstores : Stores events l') (hsub : ∀ e ∈ l'.events, e ∈ l.events)
    (hkept : ∀ e ∈ l.events, e ∈ l'.events ∨ e = ev) :
    Holds Stores
      { st with
        sim := { st.sim with
          events, cancelled := ev.impl :: st.sim.cancelled
          unscheduledEvents := count }
        dropped := st.drop ev } l' := by
  obtain ⟨hran, hdropped⟩ := (h.expired hev).mp hpending
  refine ⟨hstores, h.uid_lt, h.current_lt, h.uids_lt, h.increasing, h.impls, h.impl_ne,
    fun e he => h.stored e (hsub e he), h.ran_le, h.ran_lt, ?_, ?_, ?_, ?_, ?_⟩
  · intro e he
    rw [mem_drop]
    rcases h.covered e he with hstored | hin | hin
    · rcases hkept e hstored with hstored' | rfl
      · exact .inl hstored'
      · exact .inr (.inr (.inr ⟨rfl, hran⟩))
    · exact .inr (.inl hin)
    · exact .inr (.inr (.inl hin))
  · intro e he
    rw [mem_drop]
    dsimp only
    rw [List.mem_cons, h.flags e he]
    constructor
    · rintro (himpl | hin)
      · exact .inr ⟨h.eq_of_impl he hev himpl, hran⟩
      · exact .inl hin
    · rintro (hin | ⟨rfl, -⟩)
      · exact .inr hin
      · exact .inl rfl
  · intro e he hin
    rcases mem_drop.mp hin with hin | ⟨rfl, -⟩
    · exact h.apart e he hin
    · exact hran he
  · intro i hi
    rcases List.mem_cons.mp hi with rfl | hin
    · exact ⟨ev, hev, rfl⟩
    · exact h.cancelled_impl i hin
  · intro e he
    rcases mem_drop.mp he with hin | ⟨rfl, -⟩
    · exact h.dropped_mem e hin
    · exact hev

theorem Holds.cancel :
    Holds Stores { st with sim := st.sim.cancel ev.id, dropped := st.drop ev } l := by
  rw [DefaultSimulatorImpl.cancel]
  cases hexpired : st.sim.isExpired ev.id with
  | true => exact h.drop_expired hev hexpired
  | false => exact h.drop_pending hev hexpired h.stores (fun _ he => he) fun _ he => .inl he

end

theorem Holds.remove (hcorrect : ops.Correct Stores) (h : Holds Stores st l)
    (hev : ev ∈ st.scheduled) :
    ∃ sim l', st.sim.remove ops ev.id = .ok sim ∧
      Holds Stores { st with sim, dropped := st.drop ev } l' := by
  have huid : ev.id.uid ≠ EventId.DESTROY := by
    have hvalid := (h.uids_lt ev hev).1
    dsimp only [EventId.VALID, EventId.DESTROY, Event.id] at hvalid ⊢
    omega
  rw [DefaultSimulatorImpl.remove, if_neg huid]
  cases hexpired : st.sim.isExpired ev.id with
  | true => exact ⟨_, l, rfl, h.drop_expired hev hexpired⟩
  | false =>
    have hstored := h.stored_of_not_expired hev hexpired
    obtain ⟨events, hremove, hstores⟩ := hcorrect.remove h.stores hstored
    have hcall : (do
        let events ← ops.remove st.sim.events ev
        pure { st.sim with
          events, cancelled := ev.impl :: st.sim.cancelled
          unscheduledEvents := st.sim.unscheduledEvents - 1 } : Except Fault _) =
        .ok { st.sim with
          events, cancelled := ev.impl :: st.sim.cancelled
          unscheduledEvents := st.sim.unscheduledEvents - 1 } := by
      rw [hremove]
      rfl
    refine ⟨_, l.erase ev, hcall, h.drop_pending hev hexpired hstores ?_ ?_⟩
    · exact fun e he => List.mem_of_mem_erase he
    · intro e he
      by_cases heq : e = ev
      · exact .inr heq
      · exact .inl ((List.mem_erase_of_ne heq).mpr he)

theorem processOneEvent_eq {next : Event} (hremove : ops.removeNext sim.events = .ok (next, events))
    (hts : sim.currentTs ≤ next.key.ts) :
    sim.processOneEvent ops = .ok (next, !sim.cancelled.contains next.impl,
      { sim with
        events, unscheduledEvents := sim.unscheduledEvents - 1
        eventCount := sim.eventCount + 1
        currentTs := next.key.ts
        currentContext := next.key.context
        currentUid := next.key.uid }) := by
  rw [DefaultSimulatorImpl.processOneEvent, hremove]
  dsimp only [bind, Except.bind]
  rw [nsAssert, if_pos (decide_eq_true hts)]
  rfl

/-- Whatever scheduler is below, the event that runs is the first one stored. -/
theorem Holds.processOneEvent (hcorrect : ops.Correct Stores) (h : Holds Stores st l)
    (hmore : ops.isEmpty st.sim.events = false) :
    ∃ next notified sim l', st.sim.processOneEvent ops = .ok (next, notified, sim) ∧
      Holds Stores
        { st with sim, ran := if notified then st.ran ++ [next] else st.ran } l' := by
  have hne : l.events ≠ [] := by
    intro hnil
    rw [(hcorrect.isEmpty h.stores).mpr hnil] at hmore
    cases hmore
  obtain ⟨next, rest, hevents⟩ := List.exists_cons_of_ne_nil hne
  have hfirst : l.events.head? = some next := by rw [hevents, List.head?_cons]
  have hmem : next ∈ l.events := by
    rw [hevents]
    exact .head _
  obtain ⟨events, hremove, hstores⟩ := hcorrect.removeNext h.stores hfirst
  obtain ⟨hsched, hlt⟩ := h.stored next hmem
  have htime : st.sim.currentTs ≤ next.key.ts := by
    rw [current, Event.rank, EventKey.rank, Prod.Lex.toLex_lt_toLex] at hlt
    dsimp only at hlt
    omega
  have hcall := processOneEvent_eq hremove htime
  have hnotified : (!st.sim.cancelled.contains next.impl) = true ↔ next ∉ st.dropped := by
    rw [← h.flags next hsched]
    simp
  have hran : ∀ e, e ∈ (if (!st.sim.cancelled.contains next.impl) = true then st.ran ++ [next]
      else st.ran) ↔ e ∈ st.ran ∨ (e = next ∧ next ∉ st.dropped) := by
    intro e
    split
    · rename_i hyes
      rw [List.mem_append, List.mem_singleton]
      simp [hnotified.mp hyes]
    · rename_i hno
      rw [hnotified] at hno
      simp [hno]
  have hlater : ∀ e ∈ l.tail.events, next.rank < e.rank := fun e he =>
    SortedEvents.rank_lt_of_mem_tail hfirst he
  refine ⟨next, _, _, l.tail, hcall, hstores, h.uid_lt, (h.uids_lt next hsched).2, h.uids_lt,
    h.increasing, h.impls, h.impl_ne, ?_, ?_, ?_, ?_, h.flags, ?_, h.cancelled_impl, h.dropped_mem⟩
  · intro e he
    exact ⟨(h.stored e (List.mem_of_mem_tail he)).1, hlater e he⟩
  · intro e he
    rcases (hran e).mp he with hold | ⟨rfl, -⟩
    · exact ⟨(h.ran_le e hold).1, ((h.ran_le e hold).2.trans_lt hlt).le⟩
    · exact ⟨hsched, le_refl _⟩
  · dsimp only
    split
    · apply List.pairwise_append.mpr
      refine ⟨h.ran_lt, List.pairwise_singleton _ _, fun a ha b hb => ?_⟩
      rw [List.mem_singleton.mp hb]
      exact (h.ran_le a ha).2.trans_lt hlt
    · exact h.ran_lt
  · intro e he
    rcases h.covered e he with hstored | hin | hin
    · rw [hevents] at hstored
      rcases List.mem_cons.mp hstored with rfl | hrest
      · by_cases hdropped : e ∈ st.dropped
        · exact .inr (.inr hdropped)
        · exact .inr (.inl ((hran e).mpr (.inr ⟨rfl, hdropped⟩)))
      · left
        dsimp only [SortedEvents.tail]
        rw [hevents]
        exact hrest
    · exact .inr (.inl ((hran e).mpr (.inl hin)))
    · exact .inr (.inr hin)
  · intro e he
    rcases (hran e).mp he with hold | ⟨rfl, hnot⟩
    · exact h.apart e hold
    · exact hnot

/-! ## Runs -/

def WithinStep (ops : SchedulerOps σ) (st : SimulatorRun σ) (call : SimulatorCall)
    (st' : SimulatorRun σ) : Prop :=
  Step ops st call st' ∧ st.Within call

/-- **Step lemma.** -/
theorem Holds.step (hcorrect : ops.Correct Stores) (h : Holds Stores st l)
    (hstep : WithinStep ops st call st') : ∃ l', Holds Stores st' l' := by
  obtain ⟨hstep, hwithin⟩ := hstep
  cases hstep with
  | @schedule delay impl id sim hadmits hcall =>
    obtain ⟨u, hpositive, hcall⟩ := bind_eq_ok.mp hcall
    have hdelay : 0 ≤ delay := of_decide_eq_true (nsAssert_eq_ok.mp hpositive)
    exact h.insertEvent hcorrect hadmits hwithin hdelay _ hcall
  | @scheduleNow impl id sim hadmits hcall =>
    obtain ⟨u, -, hcall⟩ := bind_eq_ok.mp hcall
    exact h.insertEvent hcorrect hadmits hwithin (le_refl _) _ hcall
  | @scheduleWithContext context delay impl id sim hadmits hcall =>
    exact h.insertEvent hcorrect hadmits hwithin.1 hwithin.2 _ hcall
  | scheduleDestroy => exact ⟨l, h.scheduleDestroy hwithin _⟩
  | cancel hmem => exact ⟨l, h.cancel hmem⟩
  | @remove ev sim hmem hcall =>
    obtain ⟨sim', l', hok, h'⟩ := h.remove hcorrect hmem
    rw [hcall] at hok
    cases hok
    exact ⟨l', h'⟩
  | @processOneEvent next notified sim hmore hcall =>
    obtain ⟨next', notified', sim', l', hok, h'⟩ := h.processOneEvent hcorrect hmore
    rw [hcall] at hok
    cases hok
    exact ⟨l', h'⟩

def initial (events : σ) : SimulatorRun σ := { sim := { events } }

theorem holds_initial (hstores : Stores events SortedEvents.empty) :
    Holds Stores (initial events) SortedEvents.empty := by
  refine ⟨hstores, ?_, ?_, ?_, .nil, .nil, ?_, ?_, ?_, .nil, ?_, ?_, ?_, ?_, ?_⟩
  · change 4 < 2 ^ 32
    decide
  · change 0 < 4
    decide
  all_goals exact List.forall_mem_nil _

theorem Holds.sound (hcorrect : ops.Correct Stores) (h : Holds Stores st l) : st.Sound ops where
  ordered := by
    refine h.ran_lt.imp_of_mem fun {a b} ha hb hlt => ?_
    rw [Event.rank, Event.rank, EventKey.rank, EventKey.rank, Prod.Lex.toLex_lt_toLex] at hlt
    rcases hlt with hts | ⟨hts, huid⟩
    · exact .inl hts
    · exact .inr ⟨hts, sublist_of_uid_lt h.increasing (h.ran_le a ha).1 (h.ran_le b hb).1 huid⟩
  scheduled ev hev := (h.ran_le ev hev).1
  once := h.ran_lt.imp fun hlt heq => absurd (heq ▸ hlt) (lt_irrefl _)
  not_dropped := h.apart
  complete hempty ev hev := by
    have hnil := (hcorrect.isEmpty h.stores).mp hempty
    rcases h.covered ev hev with hstored | hin
    · rw [hnil] at hstored
      cases hstored
    · exact hin
  expired ev hev := h.expired hev
  progress hmore := by
    obtain ⟨next, notified, sim, -, hok, -⟩ := h.processOneEvent hcorrect hmore
    exact ⟨next, notified, sim, hok⟩
  removes ev hev := by
    obtain ⟨sim, -, hok, -⟩ := h.remove hcorrect hev
    exact ⟨sim, hok⟩

/-- **The simulator runs events in order** in every run over a correct scheduler whose calls find
the uid counter unwrapped and whose delays are not negative. -/
theorem runs_in_order (hcorrect : ops.Correct Stores) {events : σ}
    (hstores : Stores events SortedEvents.empty)
    (hrun : Run (WithinStep ops) (initial events) calls st) : st.Sound ops := by
  obtain ⟨l, h⟩ := hrun.invariant (P := fun st => ∃ l, Holds Stores st l)
    ⟨_, holds_initial hstores⟩ fun _ _ _ ⟨_, h⟩ hstep => h.step hcorrect hstep
  exact h.sound hcorrect

/-! ## Runs over the list scheduler -/

instance (st : SimulatorRun σ) (delay : Time) (impl : Nat) : Decidable (st.Admits delay impl) :=
  inferInstanceAs (Decidable (_ ∧ _ ∧ _))

instance (st : SimulatorRun σ) (call : SimulatorCall) : Decidable (st.Within call) :=
  match call with
  | .schedule _ _ | .scheduleNow _ | .scheduleDestroy _ =>
    inferInstanceAs (Decidable (EventId.VALID ≤ st.sim.uid))
  | .scheduleWithContext _ delay _ =>
    inferInstanceAs (Decidable (EventId.VALID ≤ st.sim.uid ∧ 0 ≤ delay))
  | .cancel _ | .remove _ | .processOneEvent => inferInstanceAs (Decidable True)

/-- Events at times 5 and 0; the second one at time 0 is cancelled by the first. -/
theorem runs_in_order_cancelled :
    ∃ st, Run (WithinStep ListScheduler.ops) (initial {})
        [.schedule 5 1, .scheduleNow 2, .scheduleNow 3, .processOneEvent,
          .cancel { impl := 3, key := { ts := 0, uid := 6, context := 0xffffffff } },
          .processOneEvent, .processOneEvent] st ∧
      st.ran.map Event.impl = [2, 1] ∧ st.Sound ListScheduler.ops := by
  have hrun : ∃ st, Run (WithinStep ListScheduler.ops) (initial {})
      [.schedule 5 1, .scheduleNow 2, .scheduleNow 3, .processOneEvent,
        .cancel { impl := 3, key := { ts := 0, uid := 6, context := 0xffffffff } },
        .processOneEvent, .processOneEvent] st ∧ st.ran.map Event.impl = [2, 1] :=
    ⟨_, .cons ⟨.schedule (by decide) rfl, by decide⟩
      (.cons ⟨.scheduleNow (by decide) rfl, by decide⟩
      (.cons ⟨.scheduleNow (by decide) rfl, by decide⟩ (.cons ⟨.processOneEvent rfl rfl, trivial⟩
        (.cons ⟨.cancel (by decide), trivial⟩ (.cons ⟨.processOneEvent rfl rfl, trivial⟩
          (.cons ⟨.processOneEvent rfl rfl, trivial⟩ .nil)))))), rfl⟩
  obtain ⟨st, hrun, hran⟩ := hrun
  exact ⟨st, hrun, hran, runs_in_order ListScheduler.correct rfl hrun⟩

/-- A simulation at time 0, with nothing to run, after `n` events were scheduled and
removed. -/
structure Cleared (n : Nat) (st : SimulatorRun ListScheduler) : Prop where
  events : st.sim.events = {}
  uid : st.sim.uid = EventId.VALID + n
  currentTs : st.sim.currentTs = 0
  currentUid : st.sim.currentUid = EventId.INVALID
  ran : st.ran = []
  scheduled : ∀ ev ∈ st.scheduled, ev.impl ≤ n
  cancelled : ∀ impl ∈ st.sim.cancelled, impl ≤ n
  dropped : ∀ ev ∈ st.dropped, ev.impl ≤ n

namespace Cleared

variable {n : Nat} {st st' : SimulatorRun ListScheduler}

def now (st : SimulatorRun ListScheduler) (impl uid : Nat) : Event :=
  { impl, key := { ts := 0, uid, context := st.sim.currentContext } }

theorem scheduleNow {l : List Event} (impl : Nat) (hevents : st.sim.events = { events := l })
    (hts : st.sim.currentTs = 0) (hne : impl ≠ 0) (hfresh : ∀ e ∈ st.scheduled, e.impl ≠ impl) :
    Step ListScheduler.ops st (.scheduleNow impl)
      { st with
        sim := { st.sim with
          events := { events := ListScheduler.insertLoop (now st impl st.sim.uid) l }
          uid := wadd 32 st.sim.uid 1
          unscheduledEvents := st.sim.unscheduledEvents + 1 }
        scheduled := st.scheduled ++ [now st impl st.sim.uid] } := by
  obtain ⟨⟨events, uid, currentUid, currentTs, context, count, total, destroys, cancelled⟩,
    scheduled, ran, dropped⟩ := st
  obtain rfl : events = _ := hevents
  obtain rfl : currentTs = 0 := hts
  have hrange : (0 : Int) + (0 : Nat) < 2 ^ 63 := by decide
  exact @Step.scheduleNow _ ListScheduler.ops _ impl
    { impl, ts := 0, context, uid } _ ⟨hne, hfresh, hrange⟩ rfl

theorem remove (hevents : st.sim.events = { events := [ev] }) (hmem : ev ∈ st.scheduled)
    (huid : ev.id.uid ≠ EventId.DESTROY) (hpending : st.sim.isExpired ev.id = false) :
    Step ListScheduler.ops st (.remove ev)
      { st with
        sim := { st.sim with
          events := {}
          cancelled := ev.impl :: st.sim.cancelled
          unscheduledEvents := st.sim.unscheduledEvents - 1 }
        dropped := st.drop ev } := by
  apply Step.remove hmem
  have hloop : ListScheduler.ops.remove st.sim.events ev = .ok {} := by
    rw [hevents]
    change (do
      let events ← ListScheduler.removeLoop ev [ev]
      pure { events } : Except Fault ListScheduler) = _
    rw [ListScheduler.removeLoop, if_pos rfl, nsAssert, if_pos (decide_eq_true rfl)]
    rfl
  rw [DefaultSimulatorImpl.remove, if_neg huid, hpending]
  change (do
    let events ← ListScheduler.ops.remove st.sim.events ev
    pure { st.sim with
      events, cancelled := ev.impl :: st.sim.cancelled
      unscheduledEvents := st.sim.unscheduledEvents - 1 } : Except Fault _) = _
  rw [hloop]
  rfl

theorem succ (h : Cleared n st) (hn : EventId.VALID + n + 1 < 2 ^ 32) :
    ∃ st', Run (Step ListScheduler.ops) st
      [.scheduleNow (n + 1), .remove (now st (n + 1) (EventId.VALID + n))] st' ∧
      Cleared (n + 1) st' := by
  have hnew : ∀ e ∈ st.scheduled, e.impl ≠ n + 1 := by
    intro e he
    have hle := h.scheduled e he
    omega
  have hfirst := scheduleNow (l := []) (n + 1) h.events h.currentTs (Nat.succ_ne_zero n) hnew
  rw [h.uid] at hfirst
  have hpending : st.sim.isExpired (now st (n + 1) (EventId.VALID + n)).id = false := by
    rw [DefaultSimulatorImpl.isExpired, if_neg]
    · have hcancelled : n + 1 ∉ st.sim.cancelled := by
        intro hmem
        have hle := h.cancelled _ hmem
        omega
      simp [now, Event.id, h.currentTs, h.currentUid, EventId.VALID, EventId.INVALID, hcancelled]
    · change EventId.VALID + n ≠ EventId.DESTROY
      dsimp only [EventId.VALID, EventId.DESTROY]
      omega
  refine ⟨_, .cons hfirst (.single (remove rfl ?_ ?_ hpending)), rfl, ?_, h.currentTs,
    h.currentUid, h.ran, ?_, ?_, ?_⟩
  · exact List.mem_append_right _ (List.mem_singleton_self _)
  · change EventId.VALID + n ≠ EventId.DESTROY
    dsimp only [EventId.VALID, EventId.DESTROY]
    omega
  · exact wadd_eq hn
  · intro e he
    rcases List.mem_append.mp he with hold | hnew
    · exact Nat.le_succ_of_le (h.scheduled e hold)
    · rw [List.mem_singleton.mp hnew]
      exact le_refl _
  · intro i hi
    rcases List.mem_cons.mp hi with rfl | hold
    · exact le_refl _
    · exact Nat.le_succ_of_le (h.cancelled i hold)
  · intro e he
    rcases mem_drop.mp he with hold | ⟨rfl, -⟩
    · exact Nat.le_succ_of_le (h.dropped e hold)
    · exact le_refl _

theorem reached (hn : EventId.VALID + n < 2 ^ 32) :
    ∃ calls st, Run (Step ListScheduler.ops) (initial {}) calls st ∧ Cleared n st := by
  induction n with
  | zero =>
    refine ⟨[], _, .nil, rfl, rfl, rfl, rfl, rfl, ?_, ?_, ?_⟩
    all_goals exact List.forall_mem_nil _
  | succ n ih =>
    obtain ⟨calls, st, hrun, h⟩ := ih (by omega)
    obtain ⟨st', hmore, h'⟩ := h.succ hn
    exact ⟨_, st', hrun.append hmore, h'⟩

theorem processOneEvent {next : Event} {rest : List Event}
    (hevents : st.sim.events = { events := next :: rest })
    (hts : st.sim.currentTs ≤ next.key.ts) (hcancelled : next.impl ∉ st.sim.cancelled) :
    Step ListScheduler.ops st .processOneEvent
      { st with
        sim := { st.sim with
          events := { events := rest }
          unscheduledEvents := st.sim.unscheduledEvents - 1
          eventCount := st.sim.eventCount + 1
          currentTs := next.key.ts
          currentContext := next.key.context
          currentUid := next.key.uid }
        ran := st.ran ++ [next] } := by
  have hnotified : (!st.sim.cancelled.contains next.impl) = true := by simpa using hcancelled
  have hremove : ListScheduler.ops.removeNext st.sim.events = .ok (next, { events := rest }) := by
    rw [hevents]
    rfl
  have hcall := processOneEvent_eq hremove hts
  rw [hnotified] at hcall
  apply Step.processOneEvent _ hcall
  rw [hevents]
  rfl

/-- The next identifier is 0: the event scheduled last runs first. -/
theorem wraps (h : Cleared n st) (hn : EventId.VALID + n = 2 ^ 32 - 1) :
    ∃ st', Run (Step ListScheduler.ops) st [.scheduleNow (n + 1), .scheduleNow (n + 2)] st' ∧
      st'.sim.events = { events := [now st (n + 2) 0, now st (n + 1) (2 ^ 32 - 1)] } ∧
      st'.scheduled = st.scheduled ++ [now st (n + 1) (2 ^ 32 - 1), now st (n + 2) 0] ∧
      st'.sim.currentTs = 0 ∧ st'.sim.currentUid = 0 ∧ st'.ran = [] ∧
      st'.sim.cancelled = st.sim.cancelled ∧ st'.dropped = st.dropped := by
  have hnew : ∀ e ∈ st.scheduled, e.impl ≠ n + 1 ∧ e.impl ≠ n + 2 := by
    intro e he
    have hle := h.scheduled e he
    omega
  have hfirst := scheduleNow (l := []) (n + 1) h.events h.currentTs (Nat.succ_ne_zero n)
    fun e he => (hnew e he).1
  rw [h.uid, hn] at hfirst
  let next : SimulatorRun ListScheduler := { st with
    sim := { st.sim with
      events := { events := [now st (n + 1) (2 ^ 32 - 1)] }
      uid := wadd 32 (2 ^ 32 - 1) 1
      unscheduledEvents := st.sim.unscheduledEvents + 1 }
    scheduled := st.scheduled ++ [now st (n + 1) (2 ^ 32 - 1)] }
  have hevents : next.sim.events = { events := [now st (n + 1) (2 ^ 32 - 1)] } := rfl
  have hsecond := scheduleNow (n + 2) hevents h.currentTs (Nat.succ_ne_zero _) (by
    intro e he
    rcases List.mem_append.mp he with hold | hin
    · exact (hnew e hold).2
    · rw [List.mem_singleton.mp hin]
      exact Nat.ne_of_lt (Nat.lt_succ_self (n + 1)))
  refine ⟨_, .cons hfirst (.single hsecond), rfl, ?_, h.currentTs, h.currentUid, h.ran, rfl, rfl⟩
  exact List.append_assoc st.scheduled _ _

end Cleared

theorem not_sublist_swap {l : List Event} {a b : Event} (hne : a ≠ b) (hb : b ∉ l) :
    ¬[b, a].Sublist (l ++ [a, b]) := by
  intro hsub
  obtain ⟨front, back, heq, hfront, hback⟩ := List.sublist_append_iff.mp hsub
  rcases front with _ | ⟨x, front⟩
  · obtain rfl : [b, a] = back := heq
    cases hback with
    | cons _ hrest => exact absurd hrest.length_le (Nat.not_succ_le_self 1)
    | cons_cons _ _ => exact hne rfl
  · obtain ⟨rfl, -⟩ := List.cons.inj heq
    exact hb (hfront.subset (.head _))

/-- **The order is lost when the counter wraps**: of two events for the same time the second runs
first. A negative delay of `ScheduleWithContext` gives an event that cannot be processed. -/
theorem order_lost :
    (∃ calls st, Run (Step ListScheduler.ops) (initial {}) calls st ∧
      ∃ a b, [a, b].Sublist st.scheduled ∧ a.key.ts = b.key.ts ∧
        st.sim.isExpired b.id = true ∧ b ∉ st.ran ∧ b ∉ st.dropped ∧ ¬st.Sound ListScheduler.ops ∧
        ∃ st', Run (Step ListScheduler.ops) st [.processOneEvent, .processOneEvent] st' ∧
          st'.ran = [b, a] ∧ ¬st'.Sound ListScheduler.ops) ∧
    ∃ st, Run (Step ListScheduler.ops) (initial {})
        [.schedule 10 1, .processOneEvent, .scheduleWithContext 0 (-5) 2] st ∧
      st.sim.processOneEvent ListScheduler.ops = .error .assertFailed ∧
      ¬st.Sound ListScheduler.ops := by
  constructor
  · obtain ⟨calls, st, hrun, h⟩ := Cleared.reached (n := 2 ^ 32 - 5) (by decide)
    obtain ⟨st', hmore, hevents, hscheduled, hts, huid, hran, hcancelled, hdropped⟩ :=
      h.wraps (by decide)
    let a := Cleared.now st (2 ^ 32 - 4) (2 ^ 32 - 1)
    let b := Cleared.now st (2 ^ 32 - 3) 0
    have himpl : a.impl ≠ b.impl := by
      change 2 ^ 32 - 4 ≠ 2 ^ 32 - 3
      decide
    have hne : a ≠ b := fun heq => himpl (congrArg Event.impl heq)
    have hlate : ¬a.impl ≤ 2 ^ 32 - 5 ∧ ¬b.impl ≤ 2 ^ 32 - 5 := by
      change ¬2 ^ 32 - 4 ≤ 2 ^ 32 - 5 ∧ ¬2 ^ 32 - 3 ≤ 2 ^ 32 - 5
      decide
    have hexpired : st'.sim.isExpired b.id = true := by
      rw [DefaultSimulatorImpl.isExpired, hts, huid, if_neg]
      · rfl
      · change 0 ≠ EventId.DESTROY
        decide
    have hb : b ∈ st'.scheduled := by
      rw [hscheduled]
      exact List.mem_append_right _ (.tail _ (List.mem_singleton_self _))
    have hbran : b ∉ st'.ran := by
      rw [hran]
      exact List.not_mem_nil
    have hbdropped : b ∉ st'.dropped := by
      rw [hdropped]
      exact fun hmem => hlate.2 (h.dropped b hmem)
    refine ⟨_, st', hrun.append hmore, a, b, ?_, rfl, hexpired, hbran, hbdropped, ?_, ?_⟩
    · rw [hscheduled]
      exact List.sublist_append_right _ _
    · intro hsound
      rw [(hsound.expired b hb).mpr ⟨hbran, hbdropped⟩] at hexpired
      cases hexpired
    · have hcancel : a.impl ∉ st'.sim.cancelled ∧ b.impl ∉ st'.sim.cancelled := by
        rw [hcancelled]
        exact ⟨fun hmem => hlate.1 (h.cancelled _ hmem), fun hmem => hlate.2 (h.cancelled _ hmem)⟩
      have hfirst := Cleared.processOneEvent hevents hts.le hcancel.2
      have hevents' : ({ events := [a] } : ListScheduler) = { events := a :: [] } := rfl
      refine ⟨_, .cons hfirst (.single (Cleared.processOneEvent hevents' (le_refl _) hcancel.1)),
        ?_, ?_⟩
      · dsimp only
        rw [hran]
        rfl
      · intro hsound
        have hordered := hsound.ordered
        dsimp only at hordered
        rw [hran, hscheduled] at hordered
        rcases List.rel_of_pairwise_cons hordered (List.mem_singleton_self _) with hlt | ⟨-, hsub⟩
        · exact absurd hlt (lt_irrefl _)
        · exact not_sublist_swap hne (fun hmem => hlate.2 (h.scheduled b hmem)) hsub
  · have hrun : ∃ st, Run (Step ListScheduler.ops) (initial {})
        [.schedule 10 1, .processOneEvent, .scheduleWithContext 0 (-5) 2] st ∧
        st.sim.processOneEvent ListScheduler.ops = .error .assertFailed ∧
        ListScheduler.ops.isEmpty st.sim.events = false :=
      ⟨_, .cons (.schedule (by decide) rfl) (.cons (.processOneEvent rfl rfl)
        (.cons (.scheduleWithContext (by decide) rfl) .nil)), rfl, rfl⟩
    obtain ⟨st, hrun, hfails, hmore⟩ := hrun
    refine ⟨st, hrun, hfails, fun hsound => ?_⟩
    obtain ⟨next, notified, sim, hok⟩ := hsound.progress hmore
    rw [hfails] at hok
    cases hok

end SimulatorRun

end Ns3
