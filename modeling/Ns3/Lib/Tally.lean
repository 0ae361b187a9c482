/-
  Weighted counts over a list.

  A component that caches "the total weight of the elements with this flag" is
  right when the cached number is a tally of its list.  The rules below say how a
  tally moves when elements are added, removed, joined or re-flagged.
-/
import Mathlib.Algebra.BigOperators.Group.List.Basic
import Mathlib.Algebra.Order.Ring.Nat

namespace Ns3.Lib

variable {α : Type*} (weight : α → Nat)

def total (l : List α) : Nat := (l.map weight).sum

/-- Total weight of the elements of a list that satisfy `p`. -/
def tally (p : α → Bool) (l : List α) : Nat := total weight (l.filter p)

@[simp] theorem total_nil : total weight [] = 0 := rfl

@[simp] theorem total_cons (a : α) (l : List α) :
    total weight (a :: l) = weight a + total weight l := by
  simp [total]

@[simp] theorem total_append (l r : List α) :
    total weight (l ++ r) = total weight l + total weight r := by
  simp [total]

@[simp] theorem tally_cons (p : α → Bool) (a : α) (l : List α) :
    tally weight p (a :: l) = (if p a then weight a else 0) + tally weight p l := by
  unfold tally
  rw [List.filter_cons]
  split <;> simp

@[simp] theorem tally_append (p : α → Bool) (l r : List α) :
    tally weight p (l ++ r) = tally weight p l + tally weight p r := by
  simp [tally]

theorem tally_le_total (p : α → Bool) (l : List α) : tally weight p l ≤ total weight l := by
  induction l with
  | nil => exact Nat.le_refl 0
  | cons a l ih =>
    rw [tally_cons, total_cons]
    split <;> omega

variable {l : List α}

theorem tally_add_le_total {p q : α → Bool} (h : ∀ a ∈ l, ¬(p a = true ∧ q a = true)) :
    tally weight p l + tally weight q l ≤ total weight l := by
  induction l with
  | nil => exact Nat.le_refl 0
  | cons a l ih =>
    have hhead := h a (.head _)
    have htail := ih fun b hb => h b (.tail _ hb)
    rw [tally_cons, tally_cons, total_cons]
    split
    · split
      · exact absurd ⟨by assumption, by assumption⟩ hhead
      · omega
    · split <;> omega

variable {p : α → Bool}

theorem tally_eq_zero (h : ∀ a ∈ l, p a = false) : tally weight p l = 0 := by
  have hfilter : l.filter p = [] := List.filter_eq_nil_iff.mpr fun a ha => by simp [h a ha]
  rw [tally, hfilter, total_nil]

theorem tally_eq_total (h : ∀ a ∈ l, p a = true) : tally weight p l = total weight l := by
  rw [tally, List.filter_eq_self.mpr h]

theorem tally_map {f : α → α} (hweight : ∀ a, weight (f a) = weight a) (l : List α) :
    tally weight p (l.map f) = tally weight (fun a => p (f a)) l := by
  induction l with
  | nil => rfl
  | cons a l ih => rw [List.map_cons, tally_cons, tally_cons, ih, hweight]

end Ns3.Lib
