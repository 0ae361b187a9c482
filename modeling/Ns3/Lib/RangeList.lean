/-
  A set kept as an ascending list of closed ranges.

  The list stands for the points that lie in one of its ranges.  Growing one range
  by a point that no range holds, or putting a one-point range between two others,
  adds exactly that point, as long as the ranges stay apart.
-/
import Mathlib.Order.Interval.Set.Basic
import Mathlib.Data.List.Pairwise

namespace Ns3.Lib

/-- Words, ordered as the unsigned numbers they are. -/
instance BitVec.linearOrder {w : Nat} : LinearOrder (BitVec w) where
  le_refl := BitVec.le_refl
  le_trans := fun _ _ _ => BitVec.le_trans
  le_antisymm := fun _ _ => BitVec.le_antisymm
  le_total := BitVec.le_total
  lt_iff_le_not_ge := by
    intro a b
    simp only [BitVec.lt_def, BitVec.le_def]
    omega
  toDecidableLE := inferInstance

variable {α : Type*} [LinearOrder α]

/-- The closed range from `lo` to `hi`. -/
structure Range (α : Type*) where
  lo : α
  hi : α
  deriving DecidableEq, Repr

namespace Range

variable {r r' : Range α} {rs before after : List (Range α)} {x y : α}

def Holds (r : Range α) (x : α) : Prop := r.lo ≤ x ∧ x ≤ r.hi

instance (r : Range α) (x : α) : Decidable (r.Holds x) :=
  inferInstanceAs (Decidable (_ ∧ _))

def Covered (rs : List (Range α)) (x : α) : Prop := ∃ r ∈ rs, r.Holds x

theorem not_covered_nil : ¬Covered ([] : List (Range α)) x := by
  rintro ⟨r, hr, -⟩
  cases hr

theorem covered_cons : Covered (r :: rs) x ↔ r.Holds x ∨ Covered rs x := by
  simp [Covered]

theorem covered_grow (hgrow : r'.Holds x ↔ r.Holds x ∨ x = y) :
    Covered (r' :: rs) x ↔ Covered (r :: rs) x ∨ x = y := by
  rw [covered_cons, covered_cons, hgrow]
  tauto

variable {rs' : List (Range α)}

theorem covered_grow_tail (hgrow : Covered rs' x ↔ Covered rs x ∨ x = y) :
    Covered (r :: rs') x ↔ Covered (r :: rs) x ∨ x = y := by
  rw [covered_cons, covered_cons, hgrow, or_assoc]

/-- The ranges are not empty, ascend and are disjoint. -/
structure Ascending (rs : List (Range α)) : Prop where
  proper : ∀ r ∈ rs, r.lo ≤ r.hi
  apart : rs.Pairwise fun r r' => r.hi < r'.lo

namespace Ascending

theorem nil : Ascending ([] : List (Range α)) := ⟨nofun, .nil⟩

theorem tail (h : Ascending (r :: rs)) : Ascending rs :=
  ⟨fun r' hr' => h.proper r' (.tail _ hr'), h.apart.tail⟩

theorem head_le (h : Ascending (r :: rs)) : r.lo ≤ r.hi := h.proper r (.head _)

theorem head_lt (h : Ascending (r :: rs)) (hr' : r' ∈ rs) : r.hi < r'.lo :=
  List.rel_of_pairwise_cons h.apart hr'

theorem cons (h : Ascending rs) (hr : r.lo ≤ r.hi) (hlt : ∀ r' ∈ rs, r.hi < r'.lo) :
    Ascending (r :: rs) := by
  refine ⟨?_, List.pairwise_cons.mpr ⟨hlt, h.apart⟩⟩
  intro r' hr'
  rcases List.mem_cons.mp hr' with rfl | hr'
  · exact hr
  · exact h.proper r' hr'

theorem lt_of_covered (h : Ascending (r :: rs)) (hx : Covered rs x) : r.hi < x := by
  obtain ⟨r', hr', hlo, -⟩ := hx
  exact (h.head_lt hr').trans_le hlo

theorem not_covered_of_lt (h : Ascending (r :: rs)) (hx : x < r.lo) : ¬Covered (r :: rs) x := by
  intro hc
  rcases covered_cons.mp hc with hr | hrs
  · exact absurd hr.1 (not_le.mpr hx)
  · exact absurd (h.head_le.trans_lt (h.lt_of_covered hrs)) (not_lt.mpr hx.le)

theorem eq_of_holds (h : Ascending rs) (hr : r ∈ rs) (hr' : r' ∈ rs) (hx : r.Holds x)
    (hx' : r'.Holds x) : r = r' := by
  induction rs with
  | nil => cases hr
  | cons r₀ rs ih =>
    rcases List.mem_cons.mp hr with heq | hmem <;> rcases List.mem_cons.mp hr' with heq' | hmem'
    · rw [heq, heq']
    · subst heq
      exact absurd (h.lt_of_covered ⟨r', hmem', hx'⟩) (not_lt.mpr hx.2)
    · subst heq'
      exact absurd (h.lt_of_covered ⟨r, hmem, hx⟩) (not_lt.mpr hx'.2)
    · exact ih h.tail hmem hmem'

theorem cons_point (h : Ascending rs) (hy : ∀ r ∈ rs, y < r.lo) : Ascending (⟨y, y⟩ :: rs) :=
  h.cons le_rfl hy

theorem replace_head (h : Ascending (r :: rs)) (hr' : r'.lo ≤ r'.hi)
    (hlt : ∀ r ∈ rs, r'.hi < r.lo) : Ascending (r' :: rs) :=
  h.tail.cons hr' hlt

theorem replace_tail (h : Ascending (r :: rs)) (h' : Ascending rs')
    (hcov : ∀ x, Covered rs' x ↔ Covered rs x ∨ x = y) (hy : r.hi < y) : Ascending (r :: rs') := by
  refine h'.cons h.head_le ?_
  intro r' hr'
  rcases (hcov r'.lo).mp ⟨r', hr', le_rfl, h'.proper r' hr'⟩ with hc | rfl
  · exact h.lt_of_covered hc
  · exact hy

end Ascending

end Range

end Ns3.Lib
