/-
  A scheduler on a binary heap
  (src/core/model/heap-scheduler.cc).

  The heap is a vector whose position 0 holds an empty event; the root is position 1.
  Loops count their rounds down: that the count is enough is proved below.

  Each operation of the scheduler is described by what stands at the positions of the
  vector, so that the rules for heaps apply, and by the fact that it only rearranges it.
-/
import Ns3.Core.Fault
import Ns3.Core.Scheduler
import Ns3.Lib.Heap

namespace Ns3

def emptyEvent : Event := { impl := 0, key := { ts := 0, uid := 0 } }

/-- A binary heap from position 1 on; position 0 holds an empty event. -/
structure HeapScheduler where
  heap : Array Event := #[emptyEvent]
  deriving DecidableEq, Repr

namespace HeapScheduler

def parent (id : Nat) : Nat := id / 2

def leftChild (id : Nat) : Nat := id * 2

def rightChild (id : Nat) : Nat := id * 2 + 1

def root : Nat := 1

def isRoot (id : Nat) : Bool := id = root

def last (s : HeapScheduler) : Nat := s.heap.size - 1

def isBottom (s : HeapScheduler) (id : Nat) : Bool := decide (s.heap.size ≤ id)

def isEmpty (s : HeapScheduler) : Bool := s.heap.size = 1

def exch (s : HeapScheduler) (a b : Nat) : Except Fault HeapScheduler :=
  if h : b < s.heap.size ∧ a < s.heap.size then .ok { heap := s.heap.swap a b h.2 h.1 }
  else .error .assertFailed

/-- `IsLessStrictly`, for positions of the vector. -/
def isLessStrictly (s : HeapScheduler) (a b : Nat) : Bool :=
  match s.heap[a]?, s.heap[b]? with
  | some x, some y => x.key.lt y.key
  | _, _ => false

def smallest (s : HeapScheduler) (a b : Nat) : Nat := if s.isLessStrictly a b then a else b

def bottomUpLoop : Nat → HeapScheduler → Nat → Except Fault HeapScheduler
  | 0, _, _ => .error .noProgress
  | fuel + 1, s, index =>
    if !isRoot index && s.isLessStrictly index (parent index) then do
      let s ← s.exch index (parent index)
      bottomUpLoop fuel s (parent index)
    else .ok s

/-- `BottomUp`: the last event rises. -/
def bottomUp (s : HeapScheduler) : Except Fault HeapScheduler :=
  bottomUpLoop s.heap.size s s.last

def topDownLoop : Nat → HeapScheduler → Nat → Except Fault HeapScheduler
  | 0, _, _ => .error .noProgress
  | fuel + 1, s, index =>
    if !s.isBottom (rightChild index) then
      let tmp := s.smallest (leftChild index) (rightChild index)
      if s.isLessStrictly index tmp then .ok s
      else do
        let s ← s.exch index tmp
        topDownLoop fuel s tmp
    else if s.isBottom index then .ok s
    else if s.isBottom (leftChild index) then .ok s
    else if s.isLessStrictly index (leftChild index) then .ok s
    else s.exch index (leftChild index)

/-- `TopDown`: the event at `start` sinks. -/
def topDown (s : HeapScheduler) (start : Nat) : Except Fault HeapScheduler :=
  topDownLoop (s.heap.size + 1) s start

/-- `m_heap[id]`. -/
def event (s : HeapScheduler) (id : Nat) : Except Fault Event :=
  match s.heap[id]? with
  | some ev => .ok ev
  | none => .error .badIterator

/-- `m_heap.pop_back()`. -/
def popBack (s : HeapScheduler) : HeapScheduler := { heap := s.heap.pop }

def insert (s : HeapScheduler) (ev : Event) : Except Fault HeapScheduler :=
  bottomUp { heap := s.heap.push ev }

def peekNext (s : HeapScheduler) : Except Fault Event := s.event root

/-- `RemoveNext`: the last event takes the place of the root. -/
def removeNext (s : HeapScheduler) : Except Fault (Event × HeapScheduler) := do
  let next ← s.event root
  let s ← s.exch root s.last
  let s ← s.popBack.topDown root
  pure (next, s)

/-- The position of the event that `Remove` looks for. -/
def find? (s : HeapScheduler) (uid : Nat) : Option Nat :=
  (List.range' 1 (s.heap.size - 1)).find? fun i => s.heap[i]?.any fun ev => ev.key.uid = uid

/-- `Remove`: the last event takes the place of the one removed, and only sinks. -/
def remove (s : HeapScheduler) (ev : Event) : Except Fault HeapScheduler :=
  match s.find? ev.key.uid with
  | none => .error .assertFailed
  | some i => do
      let found ← s.event i
      nsAssert (found.impl = ev.impl)
      let s ← s.exch i s.last
      s.popBack.topDown i

/-! ## The sifts of the heap scheduler restore heap order -/

open Ns3.Lib Ns3.Lib.Heap

variable {s s' : HeapScheduler} {a b i index fuel : Nat} {ev : Event}

def view (s : HeapScheduler) (i : Nat) : Option Event := s.heap[i]?

/-- **Heap order**: no event comes before its parent. -/
def Ordered (s : HeapScheduler) : Prop := Heap.Ordered Event.rank s.view

/-- The vector holds the same events in another order, with the same one at position 0. -/
structure Rearranged (s s' : HeapScheduler) : Prop where
  perm : s'.heap.Perm s.heap
  first : s'.heap[0]? = s.heap[0]?

theorem Rearranged.refl (s : HeapScheduler) : s.Rearranged s := ⟨.refl _, rfl⟩

theorem Rearranged.trans {t : HeapScheduler} (h : s.Rearranged s') (h' : s'.Rearranged t) :
    s.Rearranged t :=
  ⟨h'.perm.trans h.perm, h'.first.trans h.first⟩

theorem Rearranged.size_eq (h : s.Rearranged s') : s'.heap.size = s.heap.size :=
  h.perm.size_eq

theorem view_isSome : (s.view i).isSome ↔ i < s.heap.size := by
  simp [view]

theorem exists_view (h : i < s.heap.size) : ∃ ev, s.view i = some ev :=
  Option.isSome_iff_exists.mp (view_isSome.mpr h)

theorem lt_size_of_view (h : s.view i = some ev) : i < s.heap.size :=
  view_isSome.mp (Option.isSome_iff_exists.mpr ⟨ev, h⟩)

theorem exch_spec (ha : 1 ≤ a) (hb : 1 ≤ b) (hla : a < s.heap.size) (hlb : b < s.heap.size) :
    ∃ s', s.exch a b = .ok s' ∧ s'.view = exchange s.view a b ∧ s.Rearranged s' := by
  refine ⟨{ heap := s.heap.swap a b hla hlb }, ?_, ?_, Array.swap_perm hla hlb, ?_⟩
  · rw [exch, dif_pos ⟨hlb, hla⟩]
  · funext k
    dsimp only [view, exchange]
    rw [Array.getElem?_swap]
    by_cases hkb : b = k
    · rw [if_pos hkb]
      by_cases hka : k = a
      · rw [if_pos hka, Array.getElem?_eq_getElem hlb]
        simp only [hkb, hka]
      · rw [if_neg hka, if_pos hkb.symm, Array.getElem?_eq_getElem hla]
    · rw [if_neg hkb, if_neg (Ne.symm hkb)]
      by_cases hka : k = a
      · rw [if_pos hka.symm, if_pos hka, Array.getElem?_eq_getElem hlb]
      · rw [if_neg (Ne.symm hka), if_neg hka]
  · dsimp only
    rw [Array.getElem?_swap, if_neg (by omega), if_neg (by omega)]

theorem isLessStrictly_iff {x y : Event} (hx : s.view a = some x) (hy : s.view b = some y) :
    s.isLessStrictly a b = true ↔ x.rank < y.rank := by
  rw [isLessStrictly, show s.heap[a]? = some x from hx, show s.heap[b]? = some y from hy]
  exact EventKey.lt_iff

theorem inOrder_of_not_less (h : s.isLessStrictly a b = false) :
    InOrder Event.rank s.view b a := by
  intro y hy x hx
  apply not_lt.mp
  intro hlt
  rw [(isLessStrictly_iff hx hy).mpr hlt] at h
  cases h

theorem inOrder_of_less (h : s.isLessStrictly a b = true) : InOrder Event.rank s.view a b := by
  intro x hx y hy
  exact ((isLessStrictly_iff hx hy).mp h).le

theorem isRoot_iff : isRoot i = true ↔ i = 1 := decide_eq_true_iff

/-! ## Up -/

theorem bottomUpLoop_spec (hup : OrderedUp Event.rank s.view index) (hindex : 1 ≤ index)
    (hlt : index < s.heap.size) (hfuel : index < fuel) :
    ∃ s', bottomUpLoop fuel s index = .ok s' ∧ s'.Ordered ∧ s.Rearranged s' := by
  induction fuel generalizing s index with
  | zero => omega
  | succ fuel ih =>
    rw [bottomUpLoop]
    split
    · rename_i hcond
      obtain ⟨hnot, hless⟩ := (Bool.and_eq_true _ _).mp hcond
      have hroot : index ≠ 1 := fun heq => by
        rw [isRoot_iff.mpr heq] at hnot
        cases hnot
      obtain ⟨x, hx⟩ := exists_view hlt
      obtain ⟨y, hy⟩ := exists_view (s := s) (i := index / 2) (by omega)
      obtain ⟨t, ht, hview, hsame⟩ := exch_spec (s := s) (a := index) (b := index / 2)
        hindex (by omega) hlt (by omega)
      have hup' : OrderedUp Event.rank t.view (index / 2) := by
        rw [hview]
        exact hup.exchange (by omega) hx hy ((isLessStrictly_iff hx hy).mp hless)
      obtain ⟨s', hs', hord, hsame'⟩ := ih hup' (by omega)
        (by rw [hsame.size_eq]; omega) (by omega)
      refine ⟨s', ?_, hord, hsame.trans hsame'⟩
      rw [parent, ht]
      exact hs'
    · rename_i hcond
      refine ⟨s, rfl, hup.finish ?_, .refl s⟩
      intro htwo
      apply inOrder_of_not_less
      have hroot : isRoot index = false :=
        Bool.eq_false_iff.mpr fun h => Nat.ne_of_gt htwo (isRoot_iff.mp h)
      simpa [hroot, parent] using hcond

/-! ## Down -/

theorem inOrder_smallest (hi : i / 2 = index) :
    InOrder Event.rank s.view (s.smallest (leftChild index) (rightChild index)) i := by
  have hchild : i = index * 2 ∨ i = index * 2 + 1 := by omega
  rw [smallest, leftChild, rightChild]
  split
  · rename_i hless
    rcases hchild with rfl | rfl
    · intro x hx y hy
      rw [hx] at hy
      cases hy
      exact le_refl _
    · exact inOrder_of_less hless
  · rename_i hless
    rcases hchild with rfl | rfl
    · exact inOrder_of_not_less (by simpa using hless)
    · intro x hx y hy
      rw [hx] at hy
      cases hy
      exact le_refl _

theorem smallest_child (s : HeapScheduler) (index : Nat) :
    s.smallest (leftChild index) (rightChild index) / 2 = index ∧
      s.smallest (leftChild index) (rightChild index) ≤ rightChild index := by
  rw [smallest, leftChild, rightChild]
  split
  · omega
  · omega

theorem inOrder_of_isBottom (h : s.isBottom i = true) : InOrder Event.rank s.view index i := by
  intro x _ y hy
  have hlt := lt_size_of_view hy
  exact absurd hlt (Nat.not_lt.mpr (of_decide_eq_true h))

theorem topDownLoop_spec (hdown : OrderedDown Event.rank s.view index) (hindex : 1 ≤ index)
    (hfuel : s.heap.size - index < fuel) :
    ∃ s', topDownLoop fuel s index = .ok s' ∧ s'.Ordered ∧ s.Rearranged s' := by
  induction fuel generalizing s index with
  | zero => omega
  | succ fuel ih =>
    rw [topDownLoop]
    obtain ⟨hchild, hright⟩ := smallest_child s index
    have hchildren : ∀ i, i / 2 = index → i = leftChild index ∨ i = rightChild index := by
      intro i hi
      dsimp only [leftChild, rightChild]
      omega
    split
    · rename_i hnot
      have hinside : rightChild index < s.heap.size := by
        simpa [isBottom] using hnot
      dsimp only
      split
      · rename_i hless
        refine ⟨s, rfl, hdown.finish fun i hi => ?_, .refl s⟩
        obtain ⟨z, hz⟩ := exists_view (s := s) (hright.trans_lt hinside)
        exact (inOrder_of_less hless).trans (inOrder_smallest hi) hz
      · rename_i hless
        have hltr : index < rightChild index := by
          dsimp only [rightChild]
          omega
        obtain ⟨x, hx⟩ := exists_view (s := s) (hltr.trans hinside)
        obtain ⟨z, hz⟩ := exists_view (s := s) (hright.trans_lt hinside)
        obtain ⟨t, ht, hview, hsame⟩ := exch_spec (s := s) (a := index)
          (b := s.smallest (leftChild index) (rightChild index)) hindex (by omega)
          (hltr.trans hinside) (hright.trans_lt hinside)
        have hdown' : OrderedDown Event.rank t.view
            (s.smallest (leftChild index) (rightChild index)) := by
          rw [hview]
          exact hdown.exchange hindex hchild hx hz
            (inOrder_of_not_less (by simpa using hless) z hz x hx) fun i hi => inOrder_smallest hi
        obtain ⟨s', hs', hord, hsame'⟩ := ih hdown' (by omega)
          (by rw [hsame.size_eq]; omega)
        refine ⟨s', ?_, hord, hsame.trans hsame'⟩
        rw [ht]
        exact hs'
    · rename_i hright'
      have hbottom : s.isBottom (rightChild index) = true := by simpa using hright'
      split
      · rename_i hbelow
        have hle : s.heap.size ≤ index := of_decide_eq_true hbelow
        refine ⟨s, rfl, hdown.finish fun i hi => inOrder_of_isBottom ?_, .refl s⟩
        exact decide_eq_true (by omega)
      · rename_i hnot
        have hlt : index < s.heap.size := by simpa [isBottom] using hnot
        split
        · rename_i hleft
          refine ⟨s, rfl, hdown.finish fun i hi => ?_, .refl s⟩
          rcases hchildren i hi with rfl | rfl
          · exact inOrder_of_isBottom hleft
          · exact inOrder_of_isBottom hbottom
        · rename_i hleft
          have hltl : leftChild index < s.heap.size := by simpa [isBottom] using hleft
          split
          · rename_i hless
            refine ⟨s, rfl, hdown.finish fun i hi => ?_, .refl s⟩
            rcases hchildren i hi with rfl | rfl
            · exact inOrder_of_less hless
            · exact inOrder_of_isBottom hbottom
          · rename_i hless
            obtain ⟨x, hx⟩ := exists_view hlt
            obtain ⟨z, hz⟩ := exists_view hltl
            obtain ⟨t, ht, hview, hsame⟩ := exch_spec (s := s) (a := index)
              (b := leftChild index) hindex (by dsimp only [leftChild]; omega) hlt hltl
            have hmin : ∀ i, i / 2 = index → InOrder Event.rank s.view (leftChild index) i := by
              intro i hi
              rcases hchildren i hi with rfl | rfl
              · intro u hu v hv
                rw [hu] at hv
                cases hv
                exact le_refl _
              · exact inOrder_of_isBottom hbottom
            have hdown' : OrderedDown Event.rank t.view (leftChild index) := by
              rw [hview]
              exact hdown.exchange hindex (by dsimp only [leftChild]; omega) hx hz
                (inOrder_of_not_less (by simpa using hless) z hz x hx) hmin
            refine ⟨t, ht, hdown'.finish fun i hi => inOrder_of_isBottom ?_, hsame⟩
            have hle : s.heap.size ≤ rightChild index := of_decide_eq_true hbottom
            apply decide_eq_true
            rw [hsame.size_eq]
            dsimp only [leftChild, rightChild] at hi hle
            omega

theorem topDownLoop_stay (h : ∀ i, i / 2 = index → i < s.heap.size → s.isLessStrictly index i) :
    topDownLoop (fuel + 1) s index = .ok s := by
  obtain ⟨hchild, hright⟩ := smallest_child s index
  rw [topDownLoop]
  split
  · rename_i hnot
    have hinside : rightChild index < s.heap.size := by simpa [isBottom] using hnot
    dsimp only
    rw [if_pos (h _ hchild (hright.trans_lt hinside))]
  · split
    · rfl
    · split
      · rfl
      · rename_i hleft
        have hltl : leftChild index < s.heap.size := by simpa [isBottom] using hleft
        rw [if_pos (h _ (by dsimp only [leftChild]; omega) hltl)]

end HeapScheduler

end Ns3
