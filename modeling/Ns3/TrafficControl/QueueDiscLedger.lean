/-
  What a queue disc counts of the packets that move
  through it (src/traffic-control/model/queue-disc.cc).

  A packet that is taken out is dropped, kept in m_requeued or handed out.  Each call of the
  base class, and each script of a subclass, keeps these in balance with the notices it gives,
  and the counters count the notices.
-/
import Ns3.TrafficControl.QueueDisc

namespace Ns3

open Ns3.Lib Ns3.Lib.Notice

/-! ## Counters -/

namespace Counter

def addAll (c : Counter) (items : List QueuedItem) : Counter := items.foldl add c

def bytesOf (items : List QueuedItem) : Nat := (items.map QueuedItem.size).sum

variable {c : Counter} {items items' : List QueuedItem}

@[simp] theorem addAll_append : c.addAll (items ++ items') = (c.addAll items).addAll items' :=
  List.foldl_append

theorem addAll_mod (packets bytes : Nat) (items : List QueuedItem) :
    addAll ⟨packets % 2 ^ 32, bytes % 2 ^ 64⟩ items =
      ⟨(packets + items.length) % 2 ^ 32, (bytes + bytesOf items) % 2 ^ 64⟩ := by
  induction items generalizing packets bytes with
  | nil => rfl
  | cons item items ih =>
    change addAll ⟨(packets % 2 ^ 32 + 1) % 2 ^ 32, (bytes % 2 ^ 64 + item.size) % 2 ^ 64⟩ items = _
    rw [Nat.mod_add_mod, Nat.mod_add_mod, ih, bytesOf, bytesOf, List.map_cons, List.sum_cons,
      List.length_cons, Nat.add_assoc, Nat.add_assoc, Nat.add_comm 1]

def plus (c d : Counter) : Counter := ⟨wadd 32 c.packets d.packets, wadd 64 c.bytes d.bytes⟩

theorem add_plus (c d : Counter) (item : QueuedItem) :
    (c.plus d).add item = (c.add item).plus d :=
  Counter.ext (wadd_right_comm _ _ _ _) (wadd_right_comm _ _ _ _)

theorem plus_add (c d : Counter) (item : QueuedItem) :
    (c.plus d).add item = c.plus (d.add item) :=
  Counter.ext (wadd_assoc _ _ _ _) (wadd_assoc _ _ _ _)

theorem addAll_empty (items : List QueuedItem) :
    addAll {} items = ⟨items.length % 2 ^ 32, bytesOf items % 2 ^ 64⟩ := by
  have h := addAll_mod 0 0 items
  rwa [Nat.zero_add, Nat.zero_add] at h

end Counter

def DiscStats.DropsAgree (t : DiscStats) : Prop :=
  t.dropped = t.droppedBeforeEnqueue.plus t.droppedAfterDequeue

theorem DiscStats.DropsAgree.drop {t : DiscStats} (h : t.DropsAgree) (item : QueuedItem) :
    t.dropped.add item = t.droppedBeforeEnqueue.plus (t.droppedAfterDequeue.add item) := by
  rw [show t.dropped = _ from h, Counter.plus_add]

namespace DiscState

/-- `nTotalSentPackets` and `nTotalSentBytes`, as `GetStats` computes them. -/
def sent (s : DiscState) : Counter where
  packets := wsub 32 (wsub 32 s.stats.dequeued.packets (if s.requeued.isSome then 1 else 0))
    s.stats.droppedAfterDequeue.packets
  bytes := wsub 64 (wsub 64 s.stats.dequeued.bytes (s.requeued.elim 0 QueuedItem.size))
    s.stats.droppedAfterDequeue.bytes

def getStats (s : DiscState) : Except Fault (DiscStats × Counter) := do
  let t := s.stats
  nsAssert (t.dropped.packets =
    wadd 32 t.droppedBeforeEnqueue.packets t.droppedAfterDequeue.packets)
  nsAssert (t.dropped.bytes = wadd 64 t.droppedBeforeEnqueue.bytes t.droppedAfterDequeue.bytes)
  pure (t, s.sent)

/-- A call that gave these notices counted what they tell. -/
structure Tallied (s s' : DiscState) (notices : List (Notice QueuedItem)) : Prop where
  dequeued : s'.stats.dequeued = s.stats.dequeued.addAll (taken notices)
  droppedAfterDequeue :
    s'.stats.droppedAfterDequeue = s.stats.droppedAfterDequeue.addAll (discarded notices)
  agree : s.stats.DropsAgree → s'.stats.DropsAgree

/-- It left `m_requeued` alone. -/
structure Counted (s s' : DiscState) (notices : List (Notice QueuedItem)) : Prop
    extends Tallied s s' notices where
  requeued : s'.requeued = s.requeued
  peeked : s'.peeked = s.peeked

def kept (s : DiscState) : Multiset QueuedItem := if s.peeked then 0 else s.requeued.toList

section

variable {s s' s'' : DiscState} {notices notices' : List (Notice QueuedItem)}

theorem getStats_eq (h : s.stats.DropsAgree) : s.getStats = .ok (s.stats, s.sent) := by
  have hpackets : s.stats.dropped.packets =
      wadd 32 s.stats.droppedBeforeEnqueue.packets s.stats.droppedAfterDequeue.packets :=
    congrArg Counter.packets h
  have hbytes : s.stats.dropped.bytes =
      wadd 64 s.stats.droppedBeforeEnqueue.bytes s.stats.droppedAfterDequeue.bytes :=
    congrArg Counter.bytes h
  rw [getStats, nsAssert_of hpackets, nsAssert_of hbytes]
  rfl

theorem Tallied.refl (s : DiscState) : s.Tallied s [] :=
  ⟨rfl, rfl, id⟩

theorem Tallied.trans (h : s.Tallied s' notices) (h' : s'.Tallied s'' notices') :
    s.Tallied s'' (notices ++ notices') where
  dequeued := by rw [h'.dequeued, h.dequeued, taken_append, Counter.addAll_append]
  droppedAfterDequeue := by
    rw [h'.droppedAfterDequeue, h.droppedAfterDequeue, discarded_append, Counter.addAll_append]
  agree := h'.agree ∘ h.agree

theorem Counted.refl (s : DiscState) : s.Counted s [] :=
  ⟨.refl s, rfl, rfl⟩

theorem Counted.trans (h : s.Counted s' notices) (h' : s'.Counted s'' notices') :
    s.Counted s'' (notices ++ notices') where
  toTallied := h.toTallied.trans h'.toTallied
  requeued := h'.requeued.trans h.requeued
  peeked := h'.peeked.trans h.peeked

section

variable (s : DiscState) (item : QueuedItem)

theorem dropBeforeEnqueue_counted :
    s.Counted (s.dropBeforeEnqueue item).1 (s.dropBeforeEnqueue item).2 := by
  have hagree (h : s.stats.DropsAgree) : s.stats.dropped.add item =
      (s.stats.droppedBeforeEnqueue.add item).plus s.stats.droppedAfterDequeue := by
    rw [show s.stats.dropped = _ from h, Counter.add_plus]
  exact ⟨⟨rfl, rfl, hagree⟩, rfl, rfl⟩

theorem counted_dequeue (nPackets nBytes : Nat) :
    s.Counted { s with
        nPackets, nBytes, stats := { s.stats with dequeued := s.stats.dequeued.add item } }
      [.dequeue item] :=
  ⟨⟨rfl, rfl, id⟩, rfl, rfl⟩

theorem packetDequeued_counted : s.Counted (s.packetDequeued item).1 (s.packetDequeued item).2 := by
  rw [packetDequeued]
  split
  · exact .refl s
  · exact counted_dequeue s item _ _

theorem counted_drop (nPackets nBytes : Nat) :
    s.Counted { s with
        nPackets, nBytes
        stats := { s.stats with
          dequeued := s.stats.dequeued.add item
          dropped := s.stats.dropped.add item
          droppedAfterDequeue := s.stats.droppedAfterDequeue.add item } }
      [.dequeue item, .dropAfterDequeue item] :=
  ⟨⟨rfl, rfl, fun h => h.drop item⟩, rfl, rfl⟩

end

theorem dropAfterDequeue_eq (item : QueuedItem) (hpeeked : s.peeked = true) :
    s.dropAfterDequeue item =
      ({ s with
        nPackets := wsub 32 s.nPackets 1
        nBytes := wsub 32 s.nBytes item.size
        stats := { s.stats with
          dequeued := s.stats.dequeued.add item
          dropped := s.stats.dropped.add item
          droppedAfterDequeue := s.stats.droppedAfterDequeue.add item } },
        [.dequeue item, .dropAfterDequeue item]) := by
  simp only [dropAfterDequeue, packetDequeued, hpeeked, if_true, Bool.false_eq_true, if_false,
    List.singleton_append]

theorem dropAfterDequeue_counted (s : DiscState) (item : QueuedItem) :
    s.Counted (s.dropAfterDequeue item).1 (s.dropAfterDequeue item).2 := by
  by_cases hpeeked : s.peeked = true
  · rw [dropAfterDequeue_eq item hpeeked]
    exact s.counted_drop item _ _
  · rw [dropAfterDequeue]
    dsimp only
    rw [if_neg hpeeked]
    exact ⟨⟨rfl, rfl, fun h => h.drop item⟩, rfl, rfl⟩

theorem notify_counted (s : DiscState) (n : Notice QueuedItem) :
    s.Counted (s.notify n).1 (s.notify n).2 := by
  cases n with
  | enqueue item => exact ⟨⟨rfl, rfl, id⟩, rfl, rfl⟩
  | dequeue item => exact s.packetDequeued_counted item
  | dropBeforeEnqueue item => exact s.dropBeforeEnqueue_counted item
  | dropAfterDequeue item => exact s.dropAfterDequeue_counted item

theorem notify_passes (hpeeked : s.peeked = false) (n : Notice QueuedItem) :
    (s.notify n).2 = [n] := by
  cases n with
  | enqueue item => rfl
  | dequeue item => rw [notify, packetDequeued, hpeeked]; rfl
  | dropBeforeEnqueue item => rfl
  | dropAfterDequeue item => rw [notify, dropAfterDequeue, hpeeked]; rfl

theorem notify_hides (hpeeked : s.peeked = true) (n : Notice QueuedItem) :
    Leaves (s.notify n).2 0 := by
  cases n with
  | enqueue item => rfl
  | dequeue item => rw [notify, packetDequeued, hpeeked]; rfl
  | dropBeforeEnqueue item => rfl
  | dropAfterDequeue item => rw [notify, dropAfterDequeue, hpeeked]; rfl

theorem notifyAll_counted (s : DiscState) (notices : List (Notice QueuedItem)) :
    s.Counted (s.notifyAll notices).1 (s.notifyAll notices).2 := by
  induction notices generalizing s with
  | nil => exact .refl s
  | cons n notices ih => exact (s.notify_counted n).trans (ih _)

theorem notifyAll_leaves {hand : Multiset QueuedItem} (h : Leaves notices hand) :
    Leaves (s.notifyAll notices).2 (if s.peeked then 0 else hand) := by
  by_cases hpeeked : s.peeked = true
  · rw [if_pos hpeeked]
    clear h
    induction notices generalizing s with
    | nil => exact leaves_nil
    | cons n notices ih =>
      have hnext : (s.notify n).1.peeked = true := (s.notify_counted n).peeked.trans hpeeked
      exact (notify_hides hpeeked n).append (ih hnext)
  · rw [if_neg hpeeked]
    rw [Bool.not_eq_true] at hpeeked
    suffices hall : (s.notifyAll notices).2 = notices by rwa [hall]
    clear h
    induction notices generalizing s with
    | nil => rfl
    | cons n notices ih =>
      have hnext : (s.notify n).1.peeked = false := (s.notify_counted n).peeked.trans hpeeked
      change (s.notify n).2 ++ ((s.notify n).1.notifyAll notices).2 = _
      rw [notify_passes hpeeked, ih hnext]
      rfl

end

end DiscState

/-! ## Queue discs with their classes -/

namespace QueueDisc

/-- The queue discs below hold a packet back only for a peek, and are not peeked where the disc
reaches into them. -/
inductive ClassesSettled : QueueDisc → Prop where
  | mk {s : DiscState} {reaches : Bool} {qs : List InternalQueue} {cs : List QueueDisc}
      (hheld : ∀ c ∈ cs, c.state.peeked = c.state.requeued.isSome)
      (hreached : reaches = true → ∀ c ∈ cs, c.state.peeked = false)
      (hclasses : ∀ c ∈ cs, c.ClassesSettled) : ClassesSettled (mk s reaches qs cs)

/-- A queue disc as it may be below another. -/
structure Settled (reaches : Bool) (c : QueueDisc) : Prop where
  held : c.state.peeked = c.state.requeued.isSome
  reached : reaches = true → c.state.peeked = false
  classes : c.ClassesSettled

/-- A call that counts what it tells, and leaves `hand` taken out and not discarded. -/
structure Hands (d d' : QueueDisc) (notices : List (Notice QueuedItem))
    (hand : Multiset QueuedItem) : Prop where
  counted : d.state.Counted d'.state notices
  leaves : Leaves notices hand
  classes : d'.ClassesSettled

def takeRequeued (d : QueueDisc) (item : QueuedItem) : Outcome (Option QueuedItem) :=
  let s := { d.state with requeued := none }
  if s.peeked then
    let (s, notices) := DiscState.packetDequeued { s with peeked := false } item
    (d.withState s, notices, some item)
  else (d.withState s, [], some item)

/-- A call from outside, which counts what it tells and hands packets out.  Whatever was taken
out is kept, discarded or handed out. -/
structure Balanced (d d' : QueueDisc) (notices : List (Notice QueuedItem))
    (handed : Multiset QueuedItem) : Prop where
  tallied : d.state.Tallied d'.state notices
  balance : (taken notices : Multiset QueuedItem) + d.state.kept =
    discarded notices + d'.state.kept + handed
  held : d'.state.peeked = true → d'.state.requeued.isSome = true
  classes : d'.ClassesSettled

/-- What a disc has in hand of a packet from below: nothing, while it peeks. -/
def inHand (d : QueueDisc) (item : Option QueuedItem) : Multiset QueuedItem :=
  if d.state.peeked then 0 else item.toList

def HandsOut (doDequeue : QueueDisc → Except Fault (Outcome (Option QueuedItem))) : Prop :=
  ∀ d d' n item, d.ClassesSettled → doDequeue d = .ok (d', n, item) → d.Hands d' n (d.inHand item)

section

variable {β : Type} {d d' d'' : QueueDisc} {s : DiscState} {reaches : Bool}
  {qs : List InternalQueue} {cs : List QueueDisc} {c : QueueDisc} {i : Nat}
  {notices notices' : List (Notice QueuedItem)} {hand hand' : Multiset QueuedItem}
  {item : Option QueuedItem} {x : β}

theorem ClassesSettled.withState (h : d.ClassesSettled) (s : DiscState) :
    (d.withState s).ClassesSettled := by
  cases h with
  | mk hheld hreached hclasses => exact .mk hheld hreached hclasses

@[simp] theorem state_withState (d : QueueDisc) (s : DiscState) : (d.withState s).state = s := by
  cases d
  rfl

theorem classesSettled_iff :
    ClassesSettled (mk s reaches qs cs) ↔ ∀ c ∈ cs, c.Settled reaches := by
  constructor
  · rintro (⟨hheld, hreached, hclasses⟩) c hc
    exact ⟨hheld c hc, fun hr => hreached hr c hc, hclasses c hc⟩
  · intro h
    exact .mk (fun c hc => (h c hc).held) (fun hr c hc => (h c hc).reached hr)
      fun c hc => (h c hc).classes

theorem Hands.trans (h : d.Hands d' notices hand) (h' : d'.Hands d'' notices' hand') :
    d.Hands d'' (notices ++ notices') (hand + hand') :=
  ⟨h.counted.trans h'.counted, h.leaves.append h'.leaves, h'.classes⟩

theorem Hands.refl (h : d.ClassesSettled) : d.Hands d [] 0 :=
  ⟨.refl d.state, leaves_nil, h⟩

theorem onQueue_hands {call : InternalQueue →
      Except Fault (InternalQueue × List (Notice QueuedItem) × β)}
    (hd : d.ClassesSettled)
    (hcall : ∀ q q' m, call q = .ok (q', m, x) → Leaves m hand)
    (h : d.onQueue i call = .ok (d', notices, x)) :
    d.Hands d' notices (if d.state.peeked then 0 else hand) := by
  cases d with
  | mk s reaches qs cs =>
    rw [onQueue] at h
    split at h
    · exact nomatch h
    · rename_i q hq
      obtain ⟨⟨q', m, y⟩, hcalled, h⟩ := bind_eq_ok.mp h
      cases h
      exact ⟨s.notifyAll_counted m, DiscState.notifyAll_leaves (hcall q q' m hcalled),
        classesSettled_iff.mpr (classesSettled_iff.mp hd)⟩

theorem onClass_hands {call : QueueDisc → Except Fault (Outcome β)}
    (hd : ClassesSettled (mk s reaches qs cs))
    (hcall : ∀ c c' m, c.Settled reaches → call c = .ok (c', m, x) →
      Leaves m hand ∧ c'.Settled reaches)
    (h : (mk s reaches qs cs).onClass i call = .ok (d', notices, x)) :
    (mk s reaches qs cs).Hands d' notices (if s.peeked then 0 else hand) ∧
      ∃ s' cs', d' = mk s' reaches qs cs' := by
  rw [onClass] at h
  split at h
  · exact nomatch h
  · rename_i c hc
    obtain ⟨⟨c', m, y⟩, hcalled, h⟩ := bind_eq_ok.mp h
    cases h
    have hsettled := classesSettled_iff.mp hd
    obtain ⟨hleaves, hc'⟩ := hcall c c' m (hsettled c (List.mem_of_getElem? hc)) hcalled
    refine ⟨⟨s.notifyAll_counted m, DiscState.notifyAll_leaves hleaves, ?_⟩, _, _, rfl⟩
    refine classesSettled_iff.mpr fun c₀ hc₀ => ?_
    rcases List.mem_or_eq_of_mem_set hc₀ with hmem | rfl
    · exact hsettled c₀ hmem
    · exact hc'

theorem Hands.inHand (h : d.Hands d' notices hand) : d'.inHand item = d.inHand item := by
  rw [QueueDisc.inHand, QueueDisc.inHand, h.counted.peeked]

theorem Hands.drop (h : d.Hands d' notices (d.inHand item)) :
    d.Hands (d'.dropIfAny item).1 (notices ++ (d'.dropIfAny item).2) 0 := by
  have hpeeked := h.counted.peeked
  cases item with
  | none =>
    have hnone : d.inHand none = 0 := ite_self 0
    rw [hnone] at h
    exact h.trans (.refl h.classes)
  | some item =>
    have hcounted : d'.state.Counted (d'.dropIfAny (some item)).1.state
        (d'.dropIfAny (some item)).2 := by
      rw [dropIfAny, state_withState]
      exact d'.state.dropAfterDequeue_counted item
    refine ⟨h.counted.trans hcounted, ?_, h.classes.withState _⟩
    have hleaves := h.leaves
    change Leaves (notices ++ (d'.state.dropAfterDequeue item).2) 0
    rw [QueueDisc.inHand] at hleaves
    by_cases hp : d.state.peeked = true
    · rw [if_pos hp] at hleaves
      rw [DiscState.dropAfterDequeue_eq item (hpeeked.trans hp)]
      have hboth : Leaves [.dequeue item, .dropAfterDequeue item] 0 := rfl
      exact hleaves.append hboth
    · rw [if_neg hp] at hleaves
      have htold : (d'.state.dropAfterDequeue item).2 = [.dropAfterDequeue item] :=
        DiscState.notify_passes (hpeeked.trans (Bool.not_eq_true _ ▸ hp)) (.dropAfterDequeue item)
      rw [htold]
      exact hleaves.discard

variable {next : QueueDisc → Except Fault (Outcome (Option QueuedItem))}

section

variable (hnext : HandsOut next)

include hnext

theorem goOn_hands {keep : Bool} {outcome : Except Fault (Outcome (Option QueuedItem))}
    (hout : ∀ d₁ n item, outcome = .ok (d₁, n, item) → d.Hands d₁ n (d.inHand item))
    (h : goOn keep next outcome = .ok (d', notices, item)) :
    d.Hands d' notices (d.inHand item) := by
  obtain ⟨⟨d₁, n₁, item₁⟩, hfirst, h⟩ := bind_eq_ok.mp h
  have hhands := hout d₁ n₁ item₁ hfirst
  dsimp only at h
  split at h
  · cases h
    exact hhands
  · obtain ⟨⟨d₂, n₂, item₂⟩, hrest, ⟨⟩⟩ := bind_pure_eq_ok.mp h
    have hdropped := hhands.drop
    have hlast := hnext _ _ _ _ hdropped.classes hrest
    rw [hdropped.inHand] at hlast
    rw [← zero_add (d.inHand _)]
    exact hdropped.trans hlast

theorem andThen_hands {outcome : Except Fault (Outcome β)}
    (hout : ∀ d₁ n x, outcome = .ok (d₁, n, x) → d.Hands d₁ n 0)
    (h : andThen next outcome = .ok (d', notices, item)) : d.Hands d' notices (d.inHand item) := by
  obtain ⟨⟨d₁, n₁, x⟩, hfirst, h⟩ := bind_eq_ok.mp h
  have hhands := hout d₁ n₁ x hfirst
  obtain ⟨⟨d₂, n₂, item₂⟩, hrest, ⟨⟩⟩ := bind_pure_eq_ok.mp h
  have hlast := hnext _ _ _ _ hhands.classes hrest
  rw [hhands.inHand] at hlast
  rw [← zero_add (d.inHand _)]
  exact hhands.trans hlast

end

theorem Balanced.refl (hd : d.ClassesSettled)
    (hheld : d.state.peeked = true → d.state.requeued.isSome = true) : d.Balanced d [] 0 :=
  ⟨.refl _, (add_zero _).symm, hheld, hd⟩

theorem Balanced.trans (h : d.Balanced d' notices hand) (h' : d'.Balanced d'' notices' hand') :
    d.Balanced d'' (notices ++ notices') (hand + hand') where
  tallied := h.tallied.trans h'.tallied
  balance := by
    have hfirst := h.balance
    have hsecond := h'.balance
    rw [taken_append, discarded_append, ← Multiset.coe_add, ← Multiset.coe_add]
    generalize (taken notices : Multiset QueuedItem) = t, d.state.kept = k at hfirst ⊢
    calc t + taken notices' + k = t + k + taken notices' := add_right_comm _ _ _
      _ = discarded notices + hand + (taken notices' + d'.state.kept) := by
        rw [hfirst]
        abel
      _ = _ := by
        rw [hsecond]
        abel
  held := h'.held
  classes := h'.classes

theorem Hands.balanced_zero (h : d.Hands d' notices 0)
    (hheld : d.state.peeked = true → d.state.requeued.isSome = true) : d.Balanced d' notices 0 where
  tallied := h.counted.toTallied
  balance := by
    have hkept : d'.state.kept = d.state.kept := by
      rw [DiscState.kept, DiscState.kept, h.counted.peeked, h.counted.requeued]
    rw [hkept, show (taken notices : Multiset QueuedItem) = _ from h.leaves, add_zero, add_zero]
  held := by rwa [h.counted.peeked, h.counted.requeued]
  classes := h.classes

theorem Hands.balanced (h : d.Hands d' notices hand) (hnone : d.state.kept = 0)
    (hnone' : d'.state.kept = 0)
    (hheld : d'.state.peeked = true → d'.state.requeued.isSome = true) :
    d.Balanced d' notices hand :=
  ⟨h.counted.toTallied, by rw [hnone, hnone', add_zero, add_zero]; exact h.leaves, hheld, h.classes⟩

theorem ClassesSettled.balanced (hd : d.ClassesSettled)
    (htallied : d''.state.Tallied s notices)
    (hbalance : (taken notices : Multiset QueuedItem) + d''.state.kept =
      discarded notices + s.kept + hand)
    (hheld : s.peeked = true → s.requeued.isSome = true) :
    d''.Balanced (d.withState s) notices hand := by
  refine ⟨?_, ?_, ?_, hd.withState _⟩ <;> rwa [state_withState]

theorem kept_of_none (h : s.requeued = none) : s.kept = 0 := by
  rw [DiscState.kept, h]
  exact ite_self 0

theorem kept_of_peeked (h : s.peeked = true) : s.kept = 0 := if_pos h

theorem takeRequeued_balanced {it : QueuedItem} (hd : d.ClassesSettled)
    (hsome : d.state.requeued = some it) (h : takeRequeued d it = (d', notices, item)) :
    d.Balanced d' notices item.toList ∧ d'.state.requeued = none ∧ d'.state.peeked = false := by
  rw [takeRequeued] at h
  dsimp only at h
  by_cases hp : d.state.peeked = true
  · rw [if_pos hp] at h
    cases h
    have htallied := (DiscState.packetDequeued_counted
      { d.state with requeued := none, peeked := false } it)
    have hnone : d.state.kept = 0 := kept_of_peeked hp
    have htold : (DiscState.packetDequeued
        { d.state with requeued := none, peeked := false } it).2 = [.dequeue it] :=
      DiscState.notify_passes rfl (.dequeue it)
    rw [htold] at htallied ⊢
    rw [state_withState, htallied.requeued, htallied.peeked]
    refine ⟨hd.balanced
      ⟨htallied.dequeued, htallied.droppedAfterDequeue, htallied.agree⟩ ?_ ?_, rfl, rfl⟩
    · rw [hnone, kept_of_none htallied.requeued]
      rfl
    · rw [htallied.peeked]
      exact nofun
  · rw [if_neg hp] at h
    cases h
    rw [Bool.not_eq_true] at hp
    have hkept : d.state.kept = {it} := by
      rw [DiscState.kept, hp, hsome]
      rfl
    rw [state_withState]
    refine ⟨hd.balanced ⟨rfl, rfl, id⟩ ?_
      fun h => absurd (hp.symm.trans h) Bool.false_ne_true, rfl, hp⟩
    rw [hkept, kept_of_none rfl]
    rfl

variable {doDequeue : QueueDisc → Except Fault (Outcome (Option QueuedItem))}

theorem dequeue_inv (h : dequeue doDequeue d = .ok (d', notices, item)) :
    (∃ it, d.state.requeued = some it ∧ takeRequeued d it = (d', notices, item)) ∨
      d.state.requeued = none ∧ doDequeue d = .ok (d', notices, item) := by
  rw [dequeue] at h
  split at h
  · rename_i it hsome
    refine .inl ⟨it, hsome, ?_⟩
    rw [takeRequeued]
    dsimp only at h ⊢
    by_cases hp : d.state.peeked = true
    · rw [if_pos hp] at h ⊢
      obtain ⟨_, hgot, h⟩ := bind_eq_ok.mp h
      obtain ⟨_, -, h⟩ := bind_eq_ok.mp h
      obtain ⟨_, -, h⟩ := bind_eq_ok.mp h
      exact (Except.ok.inj hgot).trans (Except.ok.inj h)
    · rw [if_neg hp] at h ⊢
      obtain ⟨_, hgot, h⟩ := bind_eq_ok.mp h
      obtain ⟨_, -, h⟩ := bind_eq_ok.mp h
      obtain ⟨_, -, h⟩ := bind_eq_ok.mp h
      exact (Except.ok.inj hgot).trans (Except.ok.inj h)
  · rename_i hnone
    obtain ⟨_, hgot, h⟩ := bind_eq_ok.mp h
    obtain ⟨_, -, h⟩ := bind_eq_ok.mp h
    obtain ⟨_, -, h⟩ := bind_eq_ok.mp h
    rw [← Except.ok.inj h]
    exact .inr ⟨hnone, hgot⟩

theorem dequeue_balanced (hdo : HandsOut doDequeue)
    (hd : d.ClassesSettled) (hheld : d.state.peeked = true → d.state.requeued.isSome = true)
    (h : dequeue doDequeue d = .ok (d', notices, item)) :
    d.Balanced d' notices item.toList ∧ d'.state.requeued = none ∧ d'.state.peeked = false := by
  rcases dequeue_inv h with ⟨it, hsome, htake⟩ | ⟨hnone, hgot⟩
  · exact takeRequeued_balanced hd hsome htake
  · have hhands := hdo _ _ _ _ hd hgot
    have hpeeked : d.state.peeked = false := by
      rw [← Bool.not_eq_true]
      intro hp
      have hsome := hheld hp
      rw [hnone] at hsome
      exact absurd hsome Bool.false_ne_true
    have hnone' : d'.state.requeued = none := hhands.counted.requeued.trans hnone
    have hpeeked' : d'.state.peeked = false := hhands.counted.peeked.trans hpeeked
    have hin : d.inHand item = item.toList := by rw [QueueDisc.inHand, hpeeked]; rfl
    rw [hin] at hhands
    refine ⟨hhands.balanced (kept_of_none hnone) (kept_of_none hnone') ?_, hnone', hpeeked'⟩
    exact fun h => absurd (hpeeked'.symm.trans h) Bool.false_ne_true

/-- `m_requeued` is left alone, or was empty and holds what was peeked. -/
def Holds (s s' : DiscState) : Prop :=
  s'.requeued = s.requeued ∧ s'.peeked = s.peeked ∨
    s.requeued = none ∧ s'.peeked = s'.requeued.isSome

theorem Holds.trans {s' s'' : DiscState} (h : Holds s s') (h' : Holds s' s'') : Holds s s'' := by
  rcases h with ⟨hrequeued, hpeeked⟩ | ⟨hnone, hheld⟩
  · rw [Holds, ← hrequeued, ← hpeeked]
    exact h'
  · rcases h' with ⟨hrequeued, hpeeked⟩ | ⟨-, hheld'⟩
    · exact .inr ⟨hnone, by rw [hpeeked, hrequeued, hheld]⟩
    · exact .inr ⟨hnone, hheld'⟩

theorem Holds.settled {s' : DiscState} (h : Holds s s') (heq : s.peeked = s.requeued.isSome) :
    s'.peeked = s'.requeued.isSome := by
  rcases h with ⟨hrequeued, hpeeked⟩ | ⟨-, hheld⟩
  · rw [hrequeued, hpeeked, heq]
  · exact hheld

theorem peekByDequeue_balanced (hdo : HandsOut doDequeue)
    (hd : d.ClassesSettled) (hheld : d.state.peeked = true → d.state.requeued.isSome = true)
    (h : peekByDequeue doDequeue d = .ok (d', notices, item)) :
    d.Balanced d' notices 0 ∧ Holds d.state d'.state := by
  rw [peekByDequeue] at h
  split at h
  · rw [← (pair_of_ok h).1, ← (Prod.mk.inj (pair_of_ok h).2).1]
    exact ⟨.refl hd hheld, .inl ⟨rfl, rfl⟩⟩
  · rename_i hnone
    obtain ⟨⟨d₁, n₁, item₁⟩, hgot, h⟩ := bind_eq_ok.mp h
    rcases dequeue_inv hgot with ⟨it, hsome, -⟩ | ⟨-, hgot⟩
    · rw [state_withState] at hsome
      exact nomatch hnone.symm.trans hsome
    have hhands := hdo _ _ _ _ (hd.withState _) hgot
    have htallied := hhands.counted.toTallied
    have hpeeked := hhands.counted.peeked
    have hleaves := hhands.leaves
    rw [state_withState] at htallied hpeeked
    rw [QueueDisc.inHand, state_withState, if_pos rfl] at hleaves
    have hkept : d.state.kept = 0 := kept_of_none hnone
    cases item₁ with
    | some it =>
      cases h
      have hkept' : DiscState.kept { d₁.state with requeued := some it } = 0 :=
        kept_of_peeked hpeeked
      rw [state_withState]
      refine ⟨hhands.classes.balanced
        ⟨htallied.dequeued, htallied.droppedAfterDequeue, htallied.agree⟩ ?_ fun _ => rfl,
        .inr ⟨hnone, hpeeked⟩⟩
      rw [hkept, hkept', add_zero, add_zero]
      exact hleaves
    | none =>
      cases h
      rw [state_withState]
      refine ⟨hhands.classes.balanced
        ⟨htallied.dequeued, htallied.droppedAfterDequeue, htallied.agree⟩ ?_ nofun,
        .inr ⟨hnone, rfl⟩⟩
      rw [hkept, kept_of_none rfl, add_zero, add_zero]
      exact hleaves

theorem Settled.kept (hc : c.Settled reaches) : c.state.kept = 0 := by
  have hheld := hc.held
  rw [DiscState.kept]
  split
  · rfl
  · rename_i hp
    rw [hheld, Bool.not_eq_true, Option.isSome_eq_false_iff, Option.isNone_iff_eq_none] at hp
    rw [hp]
    rfl

theorem Balanced.leaves (h : d.Balanced d' notices hand) (hd : d.state.kept = 0)
    (hd' : d'.state.kept = 0) : Leaves notices hand := by
  have hbalance := h.balance
  rwa [hd, hd', add_zero, add_zero] at hbalance

theorem Settled.held_imp (hc : c.Settled reaches) (hp : c.state.peeked = true) :
    c.state.requeued.isSome = true := hc.held.symm.trans hp

theorem dequeue_settled (hdo : HandsOut doDequeue) (hc : d.Settled reaches)
    (h : dequeue doDequeue d = .ok (d', notices, item)) :
    Leaves notices item.toList ∧ d'.Settled reaches := by
  obtain ⟨hbalanced, hnone, hpeeked⟩ := dequeue_balanced hdo hc.classes hc.held_imp h
  have hd' : d'.Settled reaches :=
    ⟨by rw [hpeeked, hnone]; rfl, fun _ => hpeeked, hbalanced.classes⟩
  exact ⟨hbalanced.leaves hc.kept hd'.kept, hd'⟩

theorem peek_settled {doPeek : QueueDisc → Except Fault (Outcome (Option QueuedItem))}
    (hdo : ∀ d d' n item, d.ClassesSettled →
      (d.state.peeked = true → d.state.requeued.isSome = true) → doPeek d = .ok (d', n, item) →
      d.Balanced d' n 0 ∧ Holds d.state d'.state)
    (hc : d.Settled false) (h : doPeek d = .ok (d', notices, item)) :
    Leaves notices 0 ∧ d'.Settled false := by
  obtain ⟨hbalanced, hheld⟩ := hdo d d' notices item hc.classes hc.held_imp h
  have hd' : d'.Settled false := ⟨hheld.settled hc.held, nofun, hbalanced.classes⟩
  exact ⟨hbalanced.leaves hc.kept hd'.kept, hd'⟩

theorem Hands.settled (h : d.Hands d' notices hand) (hc : d.Settled reaches) : d'.Settled reaches :=
  ⟨by rw [h.counted.peeked, h.counted.requeued, hc.held],
    fun hr => h.counted.peeked.trans (hc.reached hr), h.classes⟩

variable {q q' : InternalQueue} {pos : Nat}

theorem queue_dequeue_leaves (h : q.dequeue pos = .ok (q', notices, item)) :
    Leaves notices item.toList := by
  rw [InternalQueue.dequeue] at h
  split at h
  · cases h
    exact leaves_nil
  · split at h
    · exact nomatch h
    · obtain ⟨_, -, h⟩ := bind_eq_ok.mp h
      obtain ⟨_, -, ⟨⟩⟩ := bind_pure_eq_ok.mp h
      rfl

theorem queue_enqueue_leaves {new : QueuedItem} {retval : Bool}
    (h : Except.ok (q.enqueue pos new) = (.ok (q', notices, retval) :
      Except Fault (InternalQueue × List (Notice QueuedItem) × Bool))) : Leaves notices 0 := by
  have heq := Except.ok.inj h
  rw [InternalQueue.enqueue] at heq
  split at heq
  · cases heq
    rfl
  · cases heq
    rfl

theorem queue_remove_leaves (h : q.remove pos = .ok (q', notices, item)) : Leaves notices 0 := by
  rw [InternalQueue.remove] at h
  obtain ⟨⟨q₁, n₁, item₁⟩, hgot, h⟩ := bind_eq_ok.mp h
  have hleaves := queue_dequeue_leaves hgot
  cases item₁ with
  | none =>
    cases h
    exact hleaves
  | some it =>
    cases h
    exact hleaves.discard

end

mutual

theorem doDequeue_hands : ∀ (script : DequeueScript) (d d' : QueueDisc)
    (notices : List (Notice QueuedItem)) (item : Option QueuedItem), d.ClassesSettled →
    doDequeue script d = .ok (d', notices, item) → d.Hands d' notices (d.inHand item)
  | .null, d, d', notices, item, hd, h => by
    rw [doDequeue] at h
    cases h
    have hnone : d.inHand none = 0 := ite_self 0
    rw [hnone]
    exact .refl hd
  | .fromQueue i pos keep next, d, d', notices, item, hd, h => by
    rw [doDequeue] at h
    refine goOn_hands (doDequeue_hands next) (fun d₁ n x hx => ?_) h
    exact onQueue_hands hd (fun q q' m hq => queue_dequeue_leaves hq) hx
  | .removeQueue i pos next, d, d', notices, item, hd, h => by
    rw [doDequeue] at h
    refine andThen_hands (doDequeue_hands next) (fun d₁ n x hx => ?_) h
    have hhands := onQueue_hands hd (fun q q' m hq => queue_remove_leaves hq) hx
    rwa [ite_self] at hhands
  | .fromClass i child keep next, .mk s reaches qs cs, d', notices, item, hd, h => by
    rw [doDequeue] at h
    refine goOn_hands (doDequeue_hands next) (fun d₁ n x hx => ?_) h
    refine (onClass_hands hd (fun c c' m hc hcall => ?_) hx).1
    exact dequeue_settled (doDequeue_hands child) hc hcall
  | .peekClass i child next, .mk s false qs cs, d', notices, item, hd, h => by
    rw [doDequeue] at h
    refine andThen_hands (doDequeue_hands next) (fun d₁ n x hx => ?_) h
    have hhands := (onClass_hands hd (fun c c' m hc hcall =>
      peek_settled (fun d d' n item => doPeek_balanced child d d' n item) hc hcall) hx).1
    rwa [ite_self] at hhands
  | .peekClass i child next, .mk s true qs cs, d', notices, item, hd, h => by
    rw [doDequeue] at h
    exact nomatch h
  | .reachQueue i j pos next, .mk s true qs cs, d', notices, item, hd, h => by
    rw [doDequeue] at h
    refine goOn_hands (doDequeue_hands next) (fun d₁ n x hx => ?_) h
    refine (onClass_hands hd (fun c c' m hc hcall => ?_) hx).1
    have hhands := onQueue_hands hc.classes (fun q q' m hq => queue_dequeue_leaves hq) hcall
    have hleaves := hhands.leaves
    rw [hc.reached rfl] at hleaves
    exact ⟨hleaves, hhands.settled hc⟩
  | .reachQueue i j pos next, .mk s false qs cs, d', notices, item, hd, h => by
    rw [doDequeue] at h
    exact nomatch h

theorem doPeek_balanced : ∀ (script : PeekScript) (d d' : QueueDisc)
    (notices : List (Notice QueuedItem)) (item : Option QueuedItem), d.ClassesSettled →
    (d.state.peeked = true → d.state.requeued.isSome = true) →
    doPeek script d = .ok (d', notices, item) → d.Balanced d' notices 0 ∧ Holds d.state d'.state
  | .null, d, d', notices, item, hd, hheld, h => by
    rw [doPeek] at h
    cases h
    exact ⟨.refl hd hheld, .inl ⟨rfl, rfl⟩⟩
  | .byDequeue script, d, d', notices, item, hd, hheld, h => by
    rw [doPeek] at h
    exact peekByDequeue_balanced (doDequeue_hands script) hd hheld h
  | .fromQueue i pos next, .mk s reaches qs cs, d', notices, item, hd, hheld, h => by
    rw [doPeek] at h
    split at h
    · cases h
      exact ⟨.refl hd hheld, .inl ⟨rfl, rfl⟩⟩
    · exact doPeek_balanced next _ _ _ _ hd hheld h
  | .fromClass i child next, .mk s true qs cs, d', notices, item, hd, hheld, h => by
    rw [doPeek] at h
    exact nomatch h
  | .fromClass i child next, .mk s false qs cs, d', notices, item, hd, hheld, h => by
    rw [doPeek] at h
    obtain ⟨⟨d₁, n₁, item₁⟩, hpeek, h⟩ := bind_eq_ok.mp h
    have hhands := (onClass_hands hd (fun c c' m hc hcall =>
      peek_settled (fun d d' n item => doPeek_balanced child d d' n item) hc hcall) hpeek).1
    rw [ite_self] at hhands
    have hkept : Holds s d₁.state := .inl ⟨hhands.counted.requeued, hhands.counted.peeked⟩
    have hfirst := hhands.balanced_zero hheld
    cases item₁ with
    | some it =>
      cases h
      exact ⟨hfirst, hkept⟩
    | none =>
      obtain ⟨⟨d₂, n₂, item₂⟩, hrest, ⟨⟩⟩ := bind_pure_eq_ok.mp h
      obtain ⟨hsecond, hkept'⟩ := doPeek_balanced next _ _ _ _ hfirst.classes hfirst.held hrest
      exact ⟨hfirst.trans hsecond, hkept.trans hkept'⟩

end

section

variable {β : Type} {d d' : QueueDisc} {notices : List (Notice QueuedItem)} {reaches : Bool}
  {item : QueuedItem} {x : β}

theorem dropping_hands {drops : DequeueScript} {outcome : Except Fault (Outcome β)}
    (hout : ∀ d₁ n x, outcome = .ok (d₁, n, x) → d.Hands d₁ n 0)
    (h : dropping drops outcome = .ok (d', notices, x)) : d.Hands d' notices 0 := by
  rw [dropping] at h
  obtain ⟨⟨d₁, n₁, x₁⟩, hfirst, h⟩ := bind_eq_ok.mp h
  obtain ⟨⟨d₂, n₂, item₂⟩, hdrops, ⟨⟩⟩ := bind_pure_eq_ok.mp h
  have hhands := hout d₁ n₁ _ hfirst
  rw [List.append_assoc]
  exact hhands.trans (doDequeue_hands drops d₁ d₂ n₂ item₂ hhands.classes hdrops).drop

theorem empty_settled (sizes : List QueueSize) (reaches' : Bool) :
    (empty reaches sizes).Settled reaches' :=
  ⟨rfl, fun _ => rfl, classesSettled_iff.mpr nofun⟩

theorem enqueue_hands {doEnqueue : QueueDisc → Except Fault (Outcome Bool)} {retval : Bool}
    (hdo : ∀ d d' n r, d.ClassesSettled → doEnqueue d = .ok (d', n, r) → d.Hands d' n 0)
    (hd : d.ClassesSettled) (h : enqueue doEnqueue item d = .ok (d', notices, retval)) :
    d.Hands d' notices 0 := by
  rw [enqueue] at h
  obtain ⟨⟨d₁, n₁, r₁⟩, hput, h⟩ := bind_eq_ok.mp h
  obtain ⟨_, -, h⟩ := bind_eq_ok.mp h
  obtain ⟨_, -, ⟨⟩⟩ := bind_pure_eq_ok.mp h
  have hhands := hdo _ _ _ _ (hd.withState _) hput
  have hcounted := hhands.counted
  rw [state_withState] at hcounted
  exact ⟨⟨⟨hcounted.dequeued, hcounted.droppedAfterDequeue, hcounted.agree⟩, hcounted.requeued,
    hcounted.peeked⟩, hhands.leaves, hhands.classes⟩

theorem doEnqueue_hands (script : EnqueueScript) : ∀ (d d' : QueueDisc)
    (notices : List (Notice QueuedItem)) (retval : Bool), d.ClassesSettled →
    doEnqueue item script d = .ok (d', notices, retval) → d.Hands d' notices 0 := by
  induction script with
  | first drops next ih =>
    intro d d' notices retval hd h
    rw [doEnqueue] at h
    obtain ⟨⟨d₁, n₁, _⟩, hfirst, h⟩ := bind_eq_ok.mp h
    obtain ⟨⟨d₂, n₂, r₂⟩, hrest, ⟨⟩⟩ := bind_pure_eq_ok.mp h
    have hhands := dropping_hands (fun d₁ n x hx => by cases hx; exact .refl hd) hfirst
    exact hhands.trans (ih _ _ _ _ hhands.classes hrest)
  | create reaches' sizes next ih =>
    rintro (⟨s, reaches, qs, cs⟩) d' notices retval hd h
    rw [doEnqueue] at h
    have hcreated : ClassesSettled (mk s reaches qs (cs ++ [empty reaches' sizes])) := by
      refine classesSettled_iff.mpr fun c hc => ?_
      rcases List.mem_append.mp hc with hc | hc
      · exact classesSettled_iff.mp hd c hc
      · rw [List.mem_singleton.mp hc]
        exact empty_settled sizes reaches
    have hhands := ih _ _ _ _ hcreated h
    exact ⟨hhands.counted, hhands.leaves, hhands.classes⟩
  | drop drops =>
    intro d d' notices retval hd h
    rw [doEnqueue] at h
    refine dropping_hands (fun d₁ n x hx => ?_) h
    cases hx
    refine ⟨?_, rfl, hd.withState _⟩
    rw [state_withState]
    exact d.state.dropBeforeEnqueue_counted item
  | toQueue i pos drops =>
    intro d d' notices retval hd h
    rw [doEnqueue] at h
    refine dropping_hands (fun d₁ n x hx => ?_) h
    have hhands := onQueue_hands hd (fun q q' m hq => queue_enqueue_leaves hq) hx
    rwa [ite_self] at hhands
  | toClass i child drops ih =>
    rintro (⟨s, reaches, qs, cs⟩) d' notices retval hd h
    rw [doEnqueue] at h
    refine dropping_hands (fun d₁ n x hx => ?_) h
    have hhands := (onClass_hands hd (fun c c' m hc hcall => by
      have hchild := enqueue_hands ih hc.classes hcall
      exact ⟨hchild.leaves, hchild.settled hc⟩) hx).1
    rwa [ite_self] at hhands

end

end QueueDisc

end Ns3
