/-
  The heap scheduler and the sorted list.

  `Remove` takes the last event of the vector into the place of the one it removes, and
  only moves it down.  That restores heap order unless the last event comes before the
  parent of that place, and then nothing does.
-/
import Ns3.Core.HeapScheduler
import Ns3.Core.SortedEvents
import Ns3.Lib.Run

namespace Ns3.HeapScheduler

open Ns3.Lib Ns3.Lib.Heap

variable {s s' t : HeapScheduler} {l : SortedEvents} {i : Nat} {ev : Event}
  {call : SchedulerCall} {calls : List SchedulerCall}

/-! ## The stored events -/

/-- The vector holds the events of the list, behind the empty event. -/
structure Represents (s : HeapScheduler) (l : SortedEvents) : Prop where
  first : s.heap[0]? = some emptyEvent
  perm : s.heap.toList.Perm (emptyEvent :: l.events)

theorem Represents.rearranged (h : s.Represents l) (hsame : s.Rearranged s') : s'.Represents l where
  first := hsame.first.trans h.first
  perm := (Array.perm_iff_toList_perm.mp hsame.perm).trans h.perm

theorem Represents.size_eq (h : s.Represents l) : s.heap.size = l.events.length + 1 := by
  rw [← Array.length_toList, h.perm.length_eq, List.length_cons]

def stored (s : HeapScheduler) : List Event := s.heap.toList.tail

theorem Represents.toList_eq (h : s.Represents l) : s.heap.toList = emptyEvent :: s.stored := by
  have hhead : s.heap.toList.head? = some emptyEvent := by
    rw [List.head?_eq_getElem?, Array.getElem?_toList]
    exact h.first
  obtain ⟨rest, hrest⟩ := List.head?_eq_some_iff.mp hhead
  rw [stored, hrest, List.tail_cons]

theorem Represents.stored_perm (h : s.Represents l) : s.stored.Perm l.events := by
  have hperm := h.perm
  rw [h.toList_eq] at hperm
  exact hperm.cons_inv

theorem Represents.mem_iff (h : s.Represents l) :
    ev ∈ l.events ↔ ∃ i, 1 ≤ i ∧ s.view i = some ev := by
  rw [← h.stored_perm.mem_iff, List.mem_iff_getElem?]
  have hview : ∀ i, s.view (i + 1) = s.stored[i]? := by
    intro i
    rw [view, ← Array.getElem?_toList, h.toList_eq, List.getElem?_cons_succ]
  constructor
  · rintro ⟨i, hi⟩
    exact ⟨i + 1, Nat.le_add_left _ _, (hview i).trans hi⟩
  · rintro ⟨i, hone, hi⟩
    obtain ⟨j, rfl⟩ := Nat.exists_eq_add_of_le' hone
    exact ⟨j, (hview j).symm.trans hi⟩

/-! ## `Insert` -/

theorem Represents.push (h : s.Represents l) (hnew : ev.key.uid ∉ uids l.events) :
    Represents { heap := s.heap.push ev } (l.insert ev hnew) where
  first := by
    have hpos : 0 < s.heap.size := by
      rw [h.size_eq]
      exact Nat.succ_pos _
    dsimp only
    rw [Array.getElem?_push_lt hpos, ← Array.getElem?_eq_getElem hpos, h.first]
  perm := by
    dsimp only
    rw [Array.toList_push]
    calc (s.heap.toList ++ [ev]).Perm (ev :: s.heap.toList) := List.perm_append_singleton ev _
      _ |>.Perm (ev :: emptyEvent :: l.events) := h.perm.cons ev
      _ |>.Perm (emptyEvent :: ev :: l.events) := List.Perm.swap _ _ _
      _ |>.Perm (emptyEvent :: (l.insert ev hnew).events) :=
        (l.events_insert_perm hnew).symm.cons _

theorem orderedUp_push (hord : s.Ordered) (ev : Event) :
    OrderedUp Event.rank (view { heap := s.heap.push ev }) s.heap.size := by
  have hview : ∀ i, i ≠ s.heap.size → view { heap := s.heap.push ev } i = s.view i := by
    intro i hi
    dsimp only [view]
    rw [Array.getElem?_push, if_neg hi]
  have hbeyond : ∀ i b, view { heap := s.heap.push ev } i = some b → i ≤ s.heap.size := by
    intro i b hb
    have hlt := lt_size_of_view hb
    rw [Array.size_push] at hlt
    exact Nat.le_of_lt_succ hlt
  constructor
  · intro i hi hne a ha b hb
    have hle := hbeyond i b hb
    rw [hview i hne] at hb
    rw [hview _ (by omega)] at ha
    exact hord i hi a ha b hb
  · intro htwo i hchild a _ b hb
    have hle := hbeyond i b hb
    omega

theorem insert_spec (hord : s.Ordered) (hrep : s.Represents l)
    (hnew : ev.key.uid ∉ uids l.events) :
    ∃ s', s.insert ev = .ok s' ∧ s'.Ordered ∧ s'.Represents (l.insert ev hnew) := by
  have hpos : 1 ≤ s.heap.size := by
    rw [hrep.size_eq]
    exact Nat.le_add_left _ _
  have hlast : last { heap := s.heap.push ev } = s.heap.size := by
    rw [last, Array.size_push, Nat.add_sub_cancel]
  obtain ⟨s', hs', hord', hsame⟩ := bottomUpLoop_spec (orderedUp_push hord ev) hpos
    (by rw [Array.size_push]; omega)
    (show s.heap.size < (s.heap.push ev).size by rw [Array.size_push]; omega)
  refine ⟨s', ?_, hord', (hrep.push hnew).rearranged hsame⟩
  rw [insert, bottomUp, hlast]
  exact hs'

/-! ## Taking an event out -/

theorem Represents.popBack (hrep : s.Represents l) (hi : s.view i = some ev) (hone : 1 ≤ i)
    (hsame : s.Rearranged t) (hview : t.view = exchange s.view i s.last) :
    t.popBack.Represents (l.erase ev) := by
  have hlt := lt_size_of_view hi
  have hsize := hsame.size_eq
  have hmem : ev ∈ l.events := hrep.mem_iff.mpr ⟨i, hone, hi⟩
  have hend : t.heap.toList.getLast? = some ev := by
    have : t.view s.last = some ev := by rw [hview, exchange_right, hi]
    rw [List.getLast?_eq_getElem?, Array.length_toList, hsize, Array.getElem?_toList]
    exact this
  constructor
  · dsimp only [HeapScheduler.popBack]
    rw [Array.getElem?_pop, if_pos (by omega), hsame.first, hrep.first]
  · dsimp only [HeapScheduler.popBack]
    rw [Array.toList_pop]
    have hsplit : t.heap.toList.dropLast ++ [ev] = t.heap.toList :=
      List.dropLast_append_getLast? ev hend
    have hperm : (ev :: t.heap.toList.dropLast).Perm (ev :: emptyEvent :: l.events.erase ev) :=
      calc (ev :: t.heap.toList.dropLast).Perm (t.heap.toList.dropLast ++ [ev]) :=
          (List.perm_append_singleton ev _).symm
        _ |>.Perm s.heap.toList := by
          rw [hsplit]
          exact Array.perm_iff_toList_perm.mp hsame.perm
        _ |>.Perm (emptyEvent :: l.events) := hrep.perm
        _ |>.Perm (emptyEvent :: ev :: l.events.erase ev) := (List.perm_cons_erase hmem).cons _
        _ |>.Perm (ev :: emptyEvent :: l.events.erase ev) := List.Perm.swap _ _ _
    exact hperm.cons_inv

theorem view_popBack {j : Nat} {b : Event} (hsame : s.Rearranged t)
    (hview : t.view = exchange s.view i s.last) (hb : t.popBack.view j = some b) :
    j < s.last ∧ (j = i → s.view s.last = some b) ∧ (j ≠ i → s.view j = some b) := by
  dsimp only [view, HeapScheduler.popBack] at hb
  rw [Array.getElem?_pop, hsame.size_eq] at hb
  split at hb
  · rename_i hlt
    have hb' : t.view j = some b := hb
    rw [hview] at hb'
    refine ⟨hlt, fun heq => ?_, fun hne => ?_⟩
    · rw [heq, exchange_left] at hb'
      exact hb'
    · rw [exchange_of_ne hne (Nat.ne_of_lt (show j < s.last from hlt))] at hb'
      exact hb'
  · cases hb

/-- `Remove` at `i` leaves heap order to `TopDown`: the place is the root or the last one,
or the last event does not come before its parent. -/
def Sinks (s : HeapScheduler) (i : Nat) : Prop :=
  i = root ∨ i = s.last ∨ s.isLessStrictly s.last (parent i) = false

instance (s : HeapScheduler) (i : Nat) : Decidable (s.Sinks i) :=
  inferInstanceAs (Decidable (_ ∨ _ ∨ _))

theorem orderedDown_popBack (hord : s.Ordered) (hsame : s.Rearranged t)
    (hview : t.view = exchange s.view i s.last) (hsinks : s.Sinks i) :
    OrderedDown Event.rank t.popBack.view i := by
  constructor
  · intro j hj hparent a ha b hb
    obtain ⟨-, -, ha'⟩ := view_popBack hsame hview ha
    obtain ⟨hlt, hbi, hb'⟩ := view_popBack hsame hview hb
    by_cases hji : j = i
    · rcases hsinks with hroot | hlast | hless
      · rw [hji, hroot, root] at hj
        omega
      · omega
      · apply inOrder_of_not_less hless a _ b (hbi hji)
        rw [parent, ← hji]
        exact ha' hparent
    · exact hord j hj a (ha' hparent) b (hb' hji)
  · intro htwo j hparent a ha b hb
    obtain ⟨-, -, ha'⟩ := view_popBack hsame hview ha
    obtain ⟨hlt, -, hb'⟩ := view_popBack hsame hview hb
    have hin : i < s.heap.size := by
      dsimp only [last] at hlt
      omega
    obtain ⟨y, hy⟩ := exists_view hin
    have hbelow : InOrder Event.rank s.view i j := hparent ▸ hord j (by omega)
    exact ((hord i htwo).trans hbelow hy) a (ha' (by omega)) b (hb' (by omega))

theorem not_ordered_popBack (hord : s.Ordered) (hone : 1 ≤ i) (hlt : i < s.heap.size)
    (hsame : s.Rearranged t) (hview : t.view = exchange s.view i s.last) (hsinks : ¬s.Sinks i) :
    t.popBack.topDown i = .ok t.popBack ∧ ¬t.popBack.Ordered := by
  obtain ⟨hroot, hlast, hless⟩ :
      i ≠ root ∧ i ≠ s.last ∧ s.isLessStrictly s.last (parent i) = true := by
    simpa [Sinks] using hsinks
  dsimp only [root] at hroot
  have hparent : i / 2 < s.heap.size := by omega
  obtain ⟨x, hx⟩ := exists_view (s := s) (i := s.last) (by dsimp only [last]; omega)
  obtain ⟨y, hy⟩ := exists_view hparent
  obtain ⟨z, hz⟩ := exists_view hlt
  have hxy : x.rank < y.rank := (isLessStrictly_iff hx hy).mp hless
  have hpop : ∀ j, j < s.last → t.popBack.view j = if j = i then some x else s.view j := by
    intro j hj
    have hj' : j < t.heap.size - 1 := by
      rw [hsame.size_eq]
      exact hj
    have heq : t.popBack.view j = t.view j := by
      dsimp only [view, HeapScheduler.popBack]
      rw [Array.getElem?_pop, if_pos hj']
    rw [heq, hview, exchange]
    split
    · exact hx
    · rw [if_neg (Nat.ne_of_lt hj)]
  have hilast : i < s.last := by
    dsimp only [last] at hlast ⊢
    omega
  have hati : t.popBack.view i = some x := by rw [hpop i hilast, if_pos rfl]
  have hatp : t.popBack.view (i / 2) = some y := by
    rw [hpop (i / 2) (by omega), if_neg (by omega)]
    exact hy
  constructor
  · apply topDownLoop_stay
    intro j hj hjlt
    obtain ⟨b, hb⟩ := exists_view hjlt
    obtain ⟨-, -, hb'⟩ := view_popBack hsame hview hb
    have hold : s.view j = some b := hb' (by omega)
    apply (isLessStrictly_iff hati hb).mpr
    have hzb : z.rank ≤ b.rank := hord j (by omega) z (by rw [hj]; exact hz) b hold
    exact hxy.trans_le ((hord i (by omega) y hy z hz).trans hzb)
  · intro hord'
    exact absurd (hord' i (by omega) y hatp x hati) (not_le.mpr hxy)

theorem takeOut_spec (hord : s.Ordered) (hrep : s.Represents l) (hone : 1 ≤ i)
    (hi : s.view i = some ev) (hsinks : s.Sinks i) :
    ∃ t s', s.exch i s.last = .ok t ∧ t.popBack.topDown i = .ok s' ∧ s'.Ordered ∧
      s'.Represents (l.erase ev) := by
  have hlt := lt_size_of_view hi
  obtain ⟨t, ht, hview, hsame⟩ := exch_spec (s := s) (a := i) (b := s.last) hone
    (by dsimp only [last]; omega) hlt (by dsimp only [last]; omega)
  obtain ⟨s', hs', hord', hsame'⟩ := topDownLoop_spec (s := t.popBack)
    (orderedDown_popBack hord hsame hview hsinks) hone
    (show t.popBack.heap.size - i < t.popBack.heap.size + 1 by omega)
  exact ⟨t, s', ht, hs', hord', (hrep.popBack hi hone hsame hview).rearranged hsame'⟩

theorem head?_eq_root (hord : s.Ordered) (hrep : s.Represents l) (hroot : s.view 1 = some ev) :
    l.events.head? = some ev := by
  apply SortedEvents.head?_eq_some_iff.mpr
  refine ⟨hrep.mem_iff.mpr ⟨1, Nat.le_refl 1, hroot⟩, fun e he => ?_⟩
  obtain ⟨i, hi, he⟩ := hrep.mem_iff.mp he
  have hgaps : ∀ i, 2 ≤ i → (s.view i).isSome → (s.view (i / 2)).isSome := by
    intro i _ hsome
    rw [view_isSome] at hsome ⊢
    omega
  exact hord.root hgaps i hi ev hroot e he

theorem removeNext_spec (hord : s.Ordered) (hrep : s.Represents l)
    (hfirst : l.events.head? = some ev) :
    ∃ s', s.removeNext = .ok (ev, s') ∧ s'.Ordered ∧ s'.Represents l.tail := by
  obtain ⟨rest, hevents⟩ := List.head?_eq_some_iff.mp hfirst
  have hsize := hrep.size_eq
  rw [hevents, List.length_cons] at hsize
  obtain ⟨first, hroot⟩ := exists_view (s := s) (i := 1) (by omega)
  obtain rfl : first = ev := by
    have hhead := head?_eq_root hord hrep hroot
    rw [hfirst] at hhead
    exact (Option.some.inj hhead).symm
  obtain ⟨t, s', ht, hs', hord', hrep'⟩ := takeOut_spec hord hrep (Nat.le_refl 1) hroot (.inl rfl)
  refine ⟨s', ?_, hord', ?_⟩
  · rw [removeNext, event, root, show s.heap[1]? = some first from hroot, ht]
    dsimp only [bind, Except.bind]
    rw [hs']
    rfl
  · have herase : l.erase first = l.tail := by
      dsimp only [SortedEvents.erase, SortedEvents.tail]
      congr 1
      rw [hevents, List.erase_cons_head, List.tail_cons]
    rw [← herase]
    exact hrep'

/-! ## `Remove` -/

theorem find?_eq_some {uid : Nat} (h : s.find? uid = some i) :
    1 ≤ i ∧ ∃ ev, s.view i = some ev ∧ ev.key.uid = uid := by
  rw [find?, List.find?_eq_some_iff_append] at h
  obtain ⟨hany, before, after, hsplit, -⟩ := h
  have hmem : i ∈ List.range' 1 (s.heap.size - 1) := by
    rw [hsplit]
    exact List.mem_append_right _ (.head _)
  refine ⟨(List.mem_range'_1.mp hmem).1, ?_⟩
  obtain ⟨ev, hev, huid⟩ := (Option.any_eq_true _ _).mp hany
  exact ⟨ev, hev, of_decide_eq_true huid⟩

theorem Represents.find?_eq (hrep : s.Represents l) (hmem : ev ∈ l.events) :
    ∃ i, s.find? ev.key.uid = some i ∧ 1 ≤ i ∧ s.view i = some ev := by
  obtain ⟨j, hj, hev⟩ := hrep.mem_iff.mp hmem
  have hlt := lt_size_of_view hev
  cases hfind : s.find? ev.key.uid with
  | none =>
    rw [find?, List.find?_eq_none] at hfind
    have hnot := hfind j (List.mem_range'_1.mpr ⟨hj, by omega⟩)
    rw [show s.heap[j]? = some ev from hev] at hnot
    exact absurd (decide_eq_true rfl) hnot
  | some i =>
    obtain ⟨hi, e, he, huid⟩ := find?_eq_some hfind
    obtain rfl : e = ev := SortedEvents.eq_of_uid (hrep.mem_iff.mpr ⟨i, hi, he⟩) hmem huid
    exact ⟨i, rfl, hi, he⟩

theorem remove_eq (hfind : s.find? ev.key.uid = some i) (hi : s.view i = some ev) :
    s.remove ev = (do
      let t ← s.exch i s.last
      t.popBack.topDown i) := by
  rw [remove, hfind]
  dsimp only
  rw [event, show s.heap[i]? = some ev from hi]
  dsimp only [bind, Except.bind]
  rw [nsAssert, if_pos (decide_eq_true rfl)]

theorem remove_spec (hord : s.Ordered) (hrep : s.Represents l) (hfind : s.find? ev.key.uid = some i)
    (hone : 1 ≤ i) (hi : s.view i = some ev) :
    ∃ s', s.remove ev = .ok s' ∧ s'.Represents (l.erase ev) ∧ (s'.Ordered ↔ s.Sinks i) := by
  rw [remove_eq hfind hi]
  by_cases hsinks : s.Sinks i
  · obtain ⟨t, s', ht, hs', hord', hrep'⟩ := takeOut_spec hord hrep hone hi hsinks
    refine ⟨s', ?_, hrep', iff_of_true hord' hsinks⟩
    rw [ht]
    exact hs'
  · have hlt := lt_size_of_view hi
    obtain ⟨t, ht, hview, hsame⟩ := exch_spec (s := s) (a := i) (b := s.last) hone
      (by dsimp only [last]; omega) hlt (by dsimp only [last]; omega)
    obtain ⟨hstay, hlost⟩ := not_ordered_popBack hord hone hlt hsame hview hsinks
    refine ⟨t.popBack, ?_, hrep.popBack hi hone hsame hview, iff_of_false hlost hsinks⟩
    rw [ht]
    exact hstay

/-! ## Calls -/

/-- One call that returns what its label says.  New events have new uids, and only stored
events are removed. -/
def next (s : HeapScheduler) : SchedulerCall → Option HeapScheduler
  | .insert ev => if ev.key.uid ∉ uids s.stored then (s.insert ev).toOption else none
  | .removeNext ev =>
    match s.removeNext with
    | .ok (ev', s') => if ev' = ev then some s' else none
    | .error _ => none
  | .remove ev => if ev ∈ s.stored then (s.remove ev).toOption else none

def Step (s : HeapScheduler) (call : SchedulerCall) (s' : HeapScheduler) : Prop :=
  s.next call = some s'

/-- A call leaves heap order to the sift it makes. -/
def Meets (s : HeapScheduler) : SchedulerCall → Prop
  | .remove ev => ∀ i, s.find? ev.key.uid = some i → s.Sinks i
  | _ => True

theorem Represents.uids_iff (hrep : s.Represents l) (uid : Nat) :
    uid ∈ uids s.stored ↔ uid ∈ uids l.events :=
  (hrep.stored_perm.map _).mem_iff

/-- **Step lemma**: a heap in order makes every call that the list makes, with its result. -/
theorem step_of_sorted {l' : SortedEvents} (hord : s.Ordered) (hrep : s.Represents l)
    (hstep : l.Step call l') :
    ∃ s', s.Step call s' ∧ s'.Represents l' ∧ (s'.Ordered ↔ s.Meets call) := by
  cases hstep with
  | insert hnew =>
    rename_i ev
    obtain ⟨s', hs', hord', hrep'⟩ := insert_spec hord hrep hnew
    refine ⟨s', ?_, hrep', iff_of_true hord' trivial⟩
    rw [Step, next, if_pos (mt (hrep.uids_iff _).mp hnew), hs']
    rfl
  | removeNext hfirst =>
    obtain ⟨s', hs', hord', hrep'⟩ := removeNext_spec hord hrep hfirst
    refine ⟨s', ?_, hrep', iff_of_true hord' trivial⟩
    rw [Step, next, hs']
    exact if_pos rfl
  | remove hmem =>
    obtain ⟨i, hfind, hone, hi⟩ := hrep.find?_eq hmem
    obtain ⟨s', hs', hrep', hiff⟩ := remove_spec hord hrep hfind hone hi
    refine ⟨s', ?_, hrep', hiff.trans ⟨fun hsinks j hj => ?_, fun hmeets => hmeets i hfind⟩⟩
    · rw [Step, next, if_pos (hrep.stored_perm.mem_iff.mpr hmem), hs']
      rfl
    · rw [hfind] at hj
      exact Option.some.inj hj ▸ hsinks

/-- **Step lemma**, from the heap to the list. -/
theorem sorted_of_step (hord : s.Ordered) (hrep : s.Represents l) (hstep : s.Step call s') :
    ∃ l', l.Step call l' ∧ s'.Represents l' ∧ (s'.Ordered ↔ s.Meets call) := by
  have hsorted : ∃ l', l.Step call l' := by
    cases call with
    | insert ev =>
      rw [Step, next] at hstep
      split at hstep
      · rename_i hnew
        exact ⟨_, .insert (mt (hrep.uids_iff _).mpr hnew)⟩
      · cases hstep
    | removeNext ev =>
      cases hevents : l.events with
      | nil =>
        have hsize := hrep.size_eq
        rw [hevents] at hsize
        have hnone : s.heap[1]? = none := Array.getElem?_eq_none (Nat.le_of_eq hsize)
        rw [Step, next, removeNext, event, root, hnone] at hstep
        cases hstep
      | cons first rest =>
        have hfirst : l.events.head? = some first := by rw [hevents, List.head?_cons]
        obtain ⟨t, ht, -⟩ := removeNext_spec hord hrep hfirst
        rw [Step, next, ht] at hstep
        dsimp only at hstep
        split at hstep
        · rename_i heq
          exact ⟨_, .removeNext (heq ▸ hfirst)⟩
        · cases hstep
    | remove ev =>
      rw [Step, next] at hstep
      split at hstep
      · rename_i hmem
        exact ⟨_, .remove (hrep.stored_perm.mem_iff.mp hmem)⟩
      · cases hstep
  obtain ⟨l', hl'⟩ := hsorted
  obtain ⟨t, ht, hrep', hiff⟩ := step_of_sorted hord hrep hl'
  rw [Step] at hstep ht
  obtain rfl : t = s' := Option.mem_unique ht hstep
  exact ⟨l', hl', hrep', hiff⟩

def empty : HeapScheduler := {}

theorem represents_empty : empty.Represents SortedEvents.empty := ⟨rfl, .refl _⟩

theorem ordered_empty : empty.Ordered := by
  intro i hi a _ b hb
  have hlt : i < 1 := lt_size_of_view hb
  omega

/-! ## Runs -/

def OrderedAlong (calls : List SchedulerCall) : Prop :=
  ∀ pre t, pre <+: calls → Run Step empty pre t → t.Ordered

def MeetsAlong (calls : List SchedulerCall) : Prop :=
  ∀ pre call t, pre ++ [call] <+: calls → Run Step empty pre t → t.Meets call

/-- The run has the results of a run of the sorted list, and makes every call that the
list then makes, with its result. -/
def RefinesSorted (calls : List SchedulerCall) (s : HeapScheduler) : Prop :=
  ∃ l, Run SortedEvents.Step SortedEvents.empty calls l ∧ s.Represents l ∧
    ∀ call l', l.Step call l' → ∃ s', s.Step call s'

/-- **Run lemma.**  While heap order holds, the run is one of the sorted list. -/
theorem exists_sorted_run (hrun : Run Step empty calls s) (hord : OrderedAlong calls) :
    ∃ l, Run SortedEvents.Step SortedEvents.empty calls l ∧ s.Represents l := by
  induction hrun with
  | nil => exact ⟨_, .nil, represents_empty⟩
  | @snoc calls t u call hprev hlast ih =>
    have hpre : OrderedAlong calls := fun pre t hpre =>
      hord pre t (hpre.trans (List.prefix_append _ _))
    obtain ⟨l, hl, hrep⟩ := ih hpre
    obtain ⟨l', hl', hrep', -⟩ :=
      sorted_of_step (hord _ _ (List.prefix_append _ _) hprev) hrep hlast
    exact ⟨l', .snoc hl hl', hrep'⟩

def InStep (s : HeapScheduler) : Prop := s.Ordered ∧ ∃ l, s.Represents l

/-- `InStep` is kept exactly by the calls that meet the condition. -/
theorem inStep_iff (hin : s.InStep) (hstep : s.Step call s') : s'.InStep ↔ s.Meets call := by
  obtain ⟨hord, l, hrep⟩ := hin
  obtain ⟨l', -, hrep', hiff⟩ := sorted_of_step hord hrep hstep
  exact ⟨fun h => hiff.mp h.1, fun h => ⟨hiff.mpr h, l', hrep'⟩⟩

/-- **The heap scheduler refines a sorted list** along a run, and keeps heap order,
exactly if no `Remove` moves the last event below a parent that it comes before. -/
theorem heap_refines_sorted (hrun : Run Step empty calls s) :
    (OrderedAlong calls ∧ RefinesSorted calls s) ↔ MeetsAlong calls := by
  have hexact : (∀ pre t, pre <+: calls → Run Step empty pre t → t.InStep) ↔ MeetsAlong calls :=
    Run.invariant_iff (I := fun _ => True) trivial ⟨ordered_empty, _, represents_empty⟩
      (fun _ _ _ _ _ => trivial) (fun _ _ _ _ hin hstep => inStep_iff hin hstep) hrun
  rw [← hexact]
  constructor
  · rintro ⟨hord, -⟩ pre t hpre ht
    obtain ⟨l, -, hrep⟩ := exists_sorted_run ht fun pre' t' hpre' => hord pre' t' (hpre'.trans hpre)
    exact ⟨hord pre t hpre ht, l, hrep⟩
  · intro hin
    have hord : OrderedAlong calls := fun pre t hpre ht => (hin pre t hpre ht).1
    refine ⟨hord, ?_⟩
    obtain ⟨l, hl, hrep⟩ := exists_sorted_run hrun hord
    refine ⟨l, hl, hrep, fun call l' hstep => ?_⟩
    obtain ⟨s', hs', -⟩ := step_of_sorted (hord calls s (List.prefix_refl _) hrun) hrep hstep
    exact ⟨s', hs'⟩

def eventAt (ts : Nat) : Event := { impl := ts, key := { ts, uid := ts } }

/-- An event is removed and the last one moves into its place. -/
theorem heap_refines_sorted_remove :
    OrderedAlong [.insert (eventAt 1), .insert (eventAt 2), .remove (eventAt 1)] ∧
      RefinesSorted [.insert (eventAt 1), .insert (eventAt 2), .remove (eventAt 1)]
        { heap := #[emptyEvent, eventAt 2] } := by
  have hrun : Run Step empty [.insert (eventAt 1), .insert (eventAt 2), .remove (eventAt 1)]
      { heap := #[emptyEvent, eventAt 2] } := Run.of_foldlM (fun _ _ _ h => h) (by decide)
  have hprev : Run Step empty [.insert (eventAt 1), .insert (eventAt 2)]
      { heap := #[emptyEvent, eventAt 1, eventAt 2] } :=
    Run.of_foldlM (fun _ _ _ h => h) (by decide)
  apply (heap_refines_sorted hrun).mpr
  intro pre call t hpre ht
  obtain ⟨rfl, rfl⟩ | ⟨_, rfl, hpre₁⟩ := before_cons hpre
  · trivial
  obtain ⟨rfl, rfl⟩ | ⟨_, rfl, hpre₂⟩ := before_cons hpre₁
  · trivial
  obtain ⟨rfl, rfl⟩ := before_singleton hpre₂
  obtain rfl := ht.deterministic hprev
  intro i hi
  have hone : (HeapScheduler.mk #[emptyEvent, eventAt 1, eventAt 2]).find? (eventAt 1).key.uid =
      some 1 := by decide
  rw [hone] at hi
  cases hi
  decide

/-- The last event moves below a parent that it comes before, and later the event at 10 is handed
out while the event at 4 is stored. -/
theorem heap_order_lost :
    (∃ s, Run Step empty [.insert (eventAt 1), .insert (eventAt 10), .insert (eventAt 2),
        .insert (eventAt 11), .insert (eventAt 12), .insert (eventAt 3), .insert (eventAt 4),
        .remove (eventAt 11)] s ∧ ¬s.Ordered) ∧
    (∃ s t, Run Step empty [.insert (eventAt 1), .insert (eventAt 10), .insert (eventAt 2),
        .insert (eventAt 11), .insert (eventAt 12), .insert (eventAt 3), .insert (eventAt 4),
        .remove (eventAt 11), .insert (eventAt 20), .removeNext (eventAt 1),
        .removeNext (eventAt 2), .removeNext (eventAt 3)] s ∧
      s.removeNext = .ok (eventAt 10, t) ∧ eventAt 4 ∈ s.stored) := by
  refine ⟨⟨{ heap := #[emptyEvent, eventAt 1, eventAt 10, eventAt 2, eventAt 4, eventAt 12,
      eventAt 3] }, ?_, ?_⟩,
      { heap := #[emptyEvent, eventAt 10, eventAt 4, eventAt 20, eventAt 12] },
    { heap := #[emptyEvent, eventAt 4, eventAt 12, eventAt 20] }, ?_, ?_, ?_⟩
  · exact Run.of_foldlM (fun _ _ _ h => h) (by decide +kernel)
  · intro hord
    exact absurd (hord 4 (by decide) (eventAt 10) rfl (eventAt 4) rfl) (by decide)
  · exact Run.of_foldlM (fun _ _ _ h => h) (by decide +kernel)
  · decide +kernel
  · decide

end Ns3.HeapScheduler
