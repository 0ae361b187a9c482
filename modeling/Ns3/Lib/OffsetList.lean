/-
  Lists that are kept in the order of a key.

  An element is placed after all those whose key is not greater, so that elements of one
  key stay in the order they came in.  The last element is then the latest one of the
  greatest key.  The elements may stand for intervals that start at the key: a walk in
  that order finds out whether they cover a stretch without a gap.
-/
import Mathlib.Data.List.Basic
import Mathlib.Data.List.Induction
import Mathlib.Data.List.TakeWhile
import Mathlib.Data.Nat.Basic
import Mathlib.Order.Lattice

namespace Ns3.Lib

variable {α : Type*}

/-! ## Placing an element -/

section

variable (key : α → Nat)

/-- `x` is placed before the first element with a greater key. -/
def insertAfter (x : α) (l : List α) : List α :=
  l.takeWhile (fun y => decide (key y ≤ key x)) ++ x ::
    l.dropWhile (fun y => decide (key y ≤ key x))

def placed (l : List α) : List α := l.foldl (fun acc x => insertAfter key x acc) []

variable {key} {x a : α} {l : List α}

theorem insertAfter_perm : (insertAfter key x l).Perm (x :: l) := by
  have hsplit := List.takeWhile_append_dropWhile (p := fun y => decide (key y ≤ key x)) (l := l)
  have hmiddle : (insertAfter key x l).Perm (x :: (l.takeWhile (fun y => decide (key y ≤ key x)) ++
      l.dropWhile (fun y => decide (key y ≤ key x)))) := List.perm_middle
  rwa [hsplit] at hmiddle

theorem key_lt_of_mem_dropWhile (hl : l.Pairwise fun y z => key y ≤ key z) {z : α}
    (hz : z ∈ l.dropWhile fun y => decide (key y ≤ key x)) : key x < key z := by
  induction l with
  | nil => cases hz
  | cons y l ih =>
    rw [List.pairwise_cons] at hl
    rw [List.dropWhile_cons] at hz
    split at hz
    · exact ih hl.2 hz
    · rename_i hy
      rw [decide_eq_true_iff, Nat.not_le] at hy
      rcases List.mem_cons.mp hz with rfl | hz
      · exact hy
      · exact hy.trans_le (hl.1 z hz)

theorem key_le_of_mem_takeWhile {z : α} (hz : z ∈ l.takeWhile fun y => decide (key y ≤ key x)) :
    key z ≤ key x := by
  have hle := List.mem_takeWhile_imp hz
  exact of_decide_eq_true hle

theorem insertAfter_sorted (hl : l.Pairwise fun y z => key y ≤ key z) :
    (insertAfter key x l).Pairwise fun y z => key y ≤ key z := by
  have hafter := hl.sublist (List.dropWhile_sublist fun y => decide (key y ≤ key x))
  have hbefore := hl.sublist (List.takeWhile_sublist fun y => decide (key y ≤ key x))
  apply List.pairwise_append.mpr
  refine ⟨hbefore, List.pairwise_cons.mpr ⟨?_, hafter⟩, ?_⟩
  · intro z hz
    exact Nat.le_of_lt (key_lt_of_mem_dropWhile hl hz)
  · intro y hy z hz
    have hle := key_le_of_mem_takeWhile hy
    rcases List.mem_cons.mp hz with rfl | hz
    · exact hle
    · exact hle.trans (Nat.le_of_lt (key_lt_of_mem_dropWhile hl hz))

theorem getLast?_insertAfter : (insertAfter key x l).getLast? =
    if l.dropWhile (fun y => decide (key y ≤ key x)) = [] then some x else l.getLast? := by
  have hsplit := List.takeWhile_append_dropWhile (p := fun y => decide (key y ≤ key x)) (l := l)
  rw [insertAfter, List.getLast?_append]
  split
  · rename_i hnone
    rw [hnone]
    rfl
  · rename_i hsome
    obtain ⟨b, rest, hdrop⟩ := List.exists_cons_of_ne_nil hsome
    conv_rhs => rw [← hsplit, List.getLast?_append]
    rw [hdrop, List.getLast?_cons_cons]

theorem placed_concat (l : List α) (x : α) :
    placed key (l ++ [x]) = insertAfter key x (placed key l) := by
  rw [placed, List.foldl_append]
  rfl

theorem placed_perm (l : List α) : (placed key l).Perm l := by
  induction l using List.reverseRecOn with
  | nil => exact .refl _
  | append_singleton l x ih =>
    rw [placed_concat]
    exact insertAfter_perm.trans ((ih.cons x).trans (List.perm_append_singleton x l).symm)

theorem placed_sorted (l : List α) : (placed key l).Pairwise fun y z => key y ≤ key z := by
  induction l using List.reverseRecOn with
  | nil => exact .nil
  | append_singleton l x ih =>
    rw [placed_concat]
    exact insertAfter_sorted ih

/-- `a` is the latest element of the greatest key. -/
def LatestGreatest (key : α → Nat) (l : List α) (a : α) : Prop :=
  ∃ before after, l = before ++ a :: after ∧ (∀ b ∈ before, key b ≤ key a) ∧
    ∀ b ∈ after, key b < key a

/-- **The last element** that was placed is the latest one of the greatest key. -/
theorem LatestGreatest.getLast? (h : LatestGreatest key l a) :
    (placed key l).getLast? = some a := by
  obtain ⟨before, after, rfl, hbefore, hafter⟩ := h
  induction after using List.reverseRecOn with
  | nil =>
    have hall : (placed key before).dropWhile (fun y => decide (key y ≤ key a)) = [] := by
      apply List.dropWhile_eq_nil_iff.mpr
      intro y hy
      exact decide_eq_true (hbefore y ((placed_perm before).mem_iff.mp hy))
    rw [placed_concat, getLast?_insertAfter, if_pos hall]
  | append_singleton after x ih =>
    have hlast := ih fun b hb => hafter b (List.mem_append_left _ hb)
    have hx := hafter x (List.mem_append_right _ (List.mem_singleton_self x))
    have hmem : a ∈ placed key (before ++ a :: after) := List.mem_of_getLast? hlast
    have hsome : (placed key (before ++ a :: after)).dropWhile
        (fun y => decide (key y ≤ key x)) ≠ [] := by
      intro hnone
      have hle := of_decide_eq_true (List.dropWhile_eq_nil_iff.mp hnone a hmem)
      exact absurd hx (Nat.not_lt.mpr hle)
    rw [show before ++ a :: (after ++ [x]) = before ++ a :: after ++ [x] by
      rw [List.append_assoc, List.cons_append], placed_concat, getLast?_insertAfter,
      if_neg hsome, hlast]

theorem exists_latestGreatest (hl : l ≠ []) : ∃ a, LatestGreatest key l a := by
  induction l using List.reverseRecOn with
  | nil => exact absurd rfl hl
  | append_singleton l x ih =>
    by_cases hall : ∀ b ∈ l, key b ≤ key x
    · exact ⟨x, l, [], rfl, hall, List.forall_mem_nil _⟩
    · have hne : l ≠ [] := by
        rintro rfl
        exact hall fun _ hb => absurd hb List.not_mem_nil
      obtain ⟨a, before, after, rfl, hbefore, hafter⟩ := ih hne
      refine ⟨a, before, after ++ [x], by rw [List.append_assoc, List.cons_append], hbefore, ?_⟩
      intro b hb
      rcases List.mem_append.mp hb with hb | hb
      · exact hafter b hb
      · obtain rfl := List.mem_singleton.mp hb
        by_contra hle
        rw [Nat.not_lt] at hle
        apply hall
        intro c hc
        rcases List.mem_append.mp hc with hc | hc
        · exact (hbefore c hc).trans hle
        · rcases List.mem_cons.mp hc with rfl | hc
          · exact hle
          · exact (Nat.le_of_lt (hafter c hc)).trans hle

theorem getLast?_placed : (placed key l).getLast? = some a ↔ LatestGreatest key l a := by
  constructor
  · intro hlast
    have hne : l ≠ [] := by
      rintro rfl
      cases hlast
    obtain ⟨b, hb⟩ : ∃ b, LatestGreatest key l b := exists_latestGreatest hne
    obtain rfl : b = a := Option.mem_unique hb.getLast? hlast
    exact hb
  · exact LatestGreatest.getLast?

end

/-! ## Covering without a gap -/

section

variable (start stop : α → Nat)

/-- Each element starts no later than where those before it, or `e`, have reached. -/
def NoGap : Nat → List α → Prop
  | _, [] => True
  | e, x :: l => start x ≤ e ∧ NoGap (max e (stop x)) l

/-- How far the elements reach from `e`. -/
def reach (e : Nat) (l : List α) : Nat := l.foldl (fun e x => max e (stop x)) e

variable {start stop} {e n : Nat} {l : List α}

theorem le_reach : e ≤ reach stop e l := by
  induction l generalizing e with
  | nil => exact le_rfl
  | cons x l ih => exact (Nat.le_max_left _ _).trans ih

theorem stop_le_reach {x : α} (hx : x ∈ l) : stop x ≤ reach stop e l := by
  induction l generalizing e with
  | nil => cases hx
  | cons y l ih =>
    rcases List.mem_cons.mp hx with rfl | hx
    · exact (Nat.le_max_right _ _).trans le_reach
    · exact ih hx

theorem NoGap.covers (h : NoGap start stop e l) {i : Nat} (hlo : e ≤ i)
    (hhi : i < reach stop e l) : ∃ x ∈ l, start x ≤ i ∧ i < stop x := by
  induction l generalizing e with
  | nil => exact absurd hhi (Nat.not_lt.mpr hlo)
  | cons x l ih =>
    by_cases hx : i < stop x
    · exact ⟨x, .head _, h.1.trans hlo, hx⟩
    · obtain ⟨y, hy, hcover⟩ := ih h.2 (max_le hlo (Nat.not_lt.mp hx)) hhi
      exact ⟨y, List.mem_cons_of_mem _ hy, hcover⟩

/-- **Covering from `e` on**, in the order of the starts, leaves no gap. -/
theorem noGap_of_covers (hl : l.Pairwise fun x y => start x ≤ start y)
    (hn : ∀ x ∈ l, start x ≤ n)
    (hcover : ∀ i, e ≤ i → i < n → ∃ x ∈ l, start x ≤ i ∧ i < stop x) : NoGap start stop e l := by
  induction l generalizing e with
  | nil => trivial
  | cons x l ih =>
    rw [List.pairwise_cons] at hl
    have hstart : start x ≤ e := by
      by_contra hlt
      rw [Nat.not_le] at hlt
      obtain ⟨y, hy, hle, -⟩ :=
        hcover e (Nat.le_refl e) (hlt.trans_le (hn x (.head _)))
      have hxy : start x ≤ start y := by
        rcases List.mem_cons.mp hy with rfl | hy
        · exact le_rfl
        · exact hl.1 y hy
      omega
    refine ⟨hstart, ih hl.2 (fun y hy => hn y (.tail _ hy)) ?_⟩
    intro i hi hin
    obtain ⟨y, hy, hcovered⟩ := hcover i ((Nat.le_max_left _ _).trans hi) hin
    rcases List.mem_cons.mp hy with rfl | hy
    · exact absurd hcovered.2 (Nat.not_lt.mpr ((Nat.le_max_right _ _).trans hi))
    · exact ⟨y, hy, hcovered⟩

/-! ## The covered prefix -/

/-- The elements cover everything from 0 on up to `n`, and not `n`. -/
def LongestPrefix (start stop : α → Nat) (l : List α) (n : Nat) : Prop :=
  (∀ i < n, ∃ x ∈ l, start x ≤ i ∧ i < stop x) ∧ ¬∃ x ∈ l, start x ≤ n ∧ n < stop x

theorem LongestPrefix.unique {m : Nat} (hn : LongestPrefix start stop l n)
    (hm : LongestPrefix start stop l m) : n = m := by
  rcases Nat.lt_trichotomy n m with hlt | heq | hlt
  · exact absurd (hm.1 n hlt) hn.2
  · exact heq
  · exact absurd (hn.1 m hlt) hm.2

/-- How far the elements reach from `e` without a gap, one after the other. -/
def extent (start stop : α → Nat) (e : Nat) (l : List α) : Nat :=
  l.foldl (fun e x => if start x ≤ e then max e (stop x) else e) e

theorem extent_cons {x : α} : extent start stop e (x :: l) =
    extent start stop (if start x ≤ e then max e (stop x) else e) l := rfl

theorem le_extent : e ≤ extent start stop e l := by
  induction l generalizing e with
  | nil => exact le_rfl
  | cons x l ih =>
    rw [extent_cons]
    refine Nat.le_trans ?_ ih
    split
    · exact Nat.le_max_left _ _
    · exact le_rfl

theorem extent_covers {i : Nat} (hlo : e ≤ i) (hhi : i < extent start stop e l) :
    ∃ x ∈ l, start x ≤ i ∧ i < stop x := by
  induction l generalizing e with
  | nil => exact absurd hhi (Nat.not_lt.mpr hlo)
  | cons x l ih =>
    rw [extent_cons] at hhi
    by_cases hx : start x ≤ i ∧ i < stop x
    · exact ⟨x, .head _, hx⟩
    · have hnext : (if start x ≤ e then max e (stop x) else e) ≤ i := by
        split
        · rename_i hstart
          exact max_le hlo (Nat.not_lt.mp fun hlt => hx ⟨hstart.trans hlo, hlt⟩)
        · exact hlo
      obtain ⟨y, hy, hcover⟩ := ih hnext hhi
      exact ⟨y, List.mem_cons_of_mem _ hy, hcover⟩

theorem extent_eq_of_gap (hgap : ∀ x ∈ l, e < start x) : extent start stop e l = e := by
  induction l with
  | nil => rfl
  | cons x l ih =>
    rw [extent_cons, if_neg (Nat.not_le.mpr (hgap x (.head _)))]
    exact ih fun y hy => hgap y (.tail _ hy)

theorem not_covered_extent (hl : l.Pairwise fun x y => start x ≤ start y) :
    ¬∃ x ∈ l, start x ≤ extent start stop e l ∧ extent start stop e l < stop x := by
  induction l generalizing e with
  | nil => exact fun ⟨x, hx, _⟩ => absurd hx List.not_mem_nil
  | cons x l ih =>
    rw [List.pairwise_cons] at hl
    rintro ⟨y, hy, hstart, hstop⟩
    by_cases hx : start x ≤ e
    · rw [extent_cons, if_pos hx] at hstart hstop
      rcases List.mem_cons.mp hy with rfl | hy
      · have hle : stop y ≤ extent start stop (max e (stop y)) l :=
          (Nat.le_max_right _ _).trans le_extent
        omega
      · exact ih hl.2 ⟨y, hy, hstart, hstop⟩
    · have hgap : ∀ y ∈ x :: l, e < start y := by
        intro z hz
        rcases List.mem_cons.mp hz with rfl | hz
        · exact Nat.not_le.mp hx
        · exact (Nat.not_le.mp hx).trans_le (hl.1 z hz)
      rw [extent_eq_of_gap hgap] at hstart
      exact absurd (hgap y hy) (Nat.not_lt.mpr hstart)

/-- **The longest prefix** that is covered is as far as the elements reach, in the order of the
starts. -/
theorem longestPrefix_iff (hl : l.Pairwise fun x y => start x ≤ start y) :
    LongestPrefix start stop l n ↔ n = extent start stop 0 l := by
  have hextent : LongestPrefix start stop l (extent start stop 0 l) :=
    ⟨fun _ hi => extent_covers (Nat.zero_le _) hi, not_covered_extent hl⟩
  exact ⟨fun h => h.unique hextent, fun h => h ▸ hextent⟩

end

end Ns3.Lib
