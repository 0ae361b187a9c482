/-
  Items that move through a component, and the notices it gives.

  An item arrives, is taken in or refused, is kept, is taken out, and then discarded or
  handed on.  A component that tells its owner of each of these moves lets the owner keep
  count of what the component holds.

  Each value of the map keeps a queue of items.  The rules say how all the items kept change
  when one value is set.
-/
import Mathlib.Algebra.BigOperators.Group.List.Basic
import Mathlib.Algebra.Order.Group.Multiset
import Mathlib.Data.Multiset.AddSub
import Mathlib.Tactic.Abel
import Ns3.Lib.SortedMap

namespace Ns3.Lib

/-- What a component tells of an item. -/
inductive Notice (α : Type*) where
  | enqueue (item : α)
  | dequeue (item : α)
  /-- the item has been refused -/
  | dropBeforeEnqueue (item : α)
  /-- an item that was taken out has been discarded -/
  | dropAfterDequeue (item : α)
  deriving DecidableEq, Repr

variable {α : Type*}

/-! ## What notices tell in total -/

namespace Notice

def taken (notices : List (Notice α)) : List α :=
  notices.filterMap fun
    | .dequeue item => some item
    | _ => none

def discarded (notices : List (Notice α)) : List α :=
  notices.filterMap fun
    | .dropAfterDequeue item => some item
    | _ => none

def Leaves (notices : List (Notice α)) (hand : Multiset α) : Prop :=
  (taken notices : Multiset α) = discarded notices + hand

variable {notices notices' : List (Notice α)} {hand hand' : Multiset α}

@[simp] theorem taken_append : taken (notices ++ notices') = taken notices ++ taken notices' :=
  List.filterMap_append

@[simp] theorem discarded_append :
    discarded (notices ++ notices') = discarded notices ++ discarded notices' :=
  List.filterMap_append

theorem leaves_nil : Leaves ([] : List (Notice α)) 0 := rfl

theorem Leaves.append (h : Leaves notices hand) (h' : Leaves notices' hand') :
    Leaves (notices ++ notices') (hand + hand') := by
  rw [Leaves] at h h' ⊢
  rw [taken_append, discarded_append, ← Multiset.coe_add, ← Multiset.coe_add, h, h']
  abel

theorem Leaves.discard {item : α} (h : Leaves notices {item}) :
    Leaves (notices ++ [.dropAfterDequeue item]) 0 := by
  rw [Leaves] at h ⊢
  have htaken : taken [.dropAfterDequeue item] = ([] : List α) := rfl
  have hdiscarded : discarded [.dropAfterDequeue item] = [item] := rfl
  rw [taken_append, discarded_append, htaken, hdiscarded, List.append_nil, add_zero, h,
    ← Multiset.coe_add, Multiset.coe_singleton]

end Notice

/-! ## What the values of a map hold -/

namespace SortedMap

variable {β : Type*} {m : SortedMap α} {k : Nat} {a b : α} (q : α → List β)

theorem insertEntry_insertEntry (es : List (Nat × α)) :
    insertEntry k b (insertEntry k a es) = insertEntry k b es := by
  induction es with
  | nil => simp [insertEntry]
  | cons e es ih =>
    by_cases hlt : k < e.1
    · simp [insertEntry, hlt]
    · by_cases heq : k = e.1
      · simp [insertEntry, heq]
      · simp only [insertEntry, if_neg hlt, if_neg heq, ih]

@[simp] theorem insert_insert : (m.insert k a).insert k b = m.insert k b := by
  simp only [insert, insertEntry_insertEntry]

@[simp] theorem find?_insert_self : (m.insert k a).find? k = some a :=
  find?_eq_some.mpr (mem_insert.mpr (.inl rfl))

/-- Everything that the values of these entries hold. -/
def heldBy (es : List (Nat × α)) : Multiset β := (es.map fun e => (q e.2 : Multiset β)).sum

/-- Everything that the values of the map hold. -/
def held (m : SortedMap α) : Multiset β := heldBy q m.entries

theorem heldBy_cons (e : Nat × α) (es : List (Nat × α)) :
    heldBy q (e :: es) = q e.2 + heldBy q es := by
  rw [heldBy, List.map_cons, List.sum_cons, heldBy]

variable {es : List (Nat × α)}

theorem heldBy_insertEntry_of_not_mem (h : ∀ e ∈ es, e.1 ≠ k) :
    heldBy q (insertEntry k a es) = q a + heldBy q es := by
  induction es with
  | nil => rfl
  | cons e es ih =>
    have hne : k ≠ e.1 := fun heq => h e (.head _) heq.symm
    have hrest := ih fun e' he' => h e' (.tail _ he')
    by_cases hlt : k < e.1
    · rw [insertEntry, if_pos hlt, heldBy_cons]
    · rw [insertEntry, if_neg hlt, if_neg hne, heldBy_cons, hrest, heldBy_cons]
      abel

theorem heldBy_insertEntry_of_mem (hs : es.Pairwise fun e e' => e.1 < e'.1) (h : (k, b) ∈ es) :
    heldBy q (insertEntry k a es) + q b = heldBy q es + q a := by
  induction es with
  | nil => cases h
  | cons e es ih =>
    have hlater : ∀ e' ∈ es, e.1 < e'.1 := fun e' he' => List.rel_of_pairwise_cons hs he'
    rcases List.mem_cons.mp h with rfl | hmem
    · rw [insertEntry, if_neg (Nat.lt_irrefl k), if_pos rfl, heldBy_cons, heldBy_cons]
      abel
    · have hlt : e.1 < k := hlater _ hmem
      rw [insertEntry, if_neg (Nat.lt_asymm hlt), if_neg (Nat.ne_of_gt hlt), heldBy_cons,
        heldBy_cons, add_assoc, ih hs.tail hmem, add_assoc]

theorem held_insert_of_none (h : m.find? k = none) : (m.insert k a).held q = q a + m.held q := by
  refine heldBy_insertEntry_of_not_mem q fun e he heq => ?_
  have hin : m.find? k = some e.2 := find?_eq_some.mpr (heq ▸ he)
  rw [h] at hin
  cases hin

theorem held_insert_of_some (h : m.find? k = some b) :
    (m.insert k a).held q + q b = m.held q + q a :=
  heldBy_insertEntry_of_mem q m.sorted (find?_eq_some.mp h)

theorem held_insert_of_eq (h : m.find? k = some b) (hq : q a = q b) :
    (m.insert k a).held q = m.held q := by
  have hset := held_insert_of_some q (a := a) h
  rw [hq] at hset
  exact add_right_cancel hset

theorem held_eq_zero (h : ∀ e ∈ m, q e.2 = []) : m.held q = 0 := by
  refine List.sum_eq_zero fun s hs => ?_
  obtain ⟨e, he, rfl⟩ := List.mem_map.mp hs
  rw [h e he]
  rfl

end SortedMap

end Ns3.Lib
