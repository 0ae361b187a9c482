/-
  A list of intervals, the latest one first.

  A new interval goes to the front of the list, after it has absorbed the
  intervals of the list that meet it end to end; only so many are kept.  Nothing
  is done about intervals that overlap the new one: what the list is then worth
  depends on there being none.
-/
import Mathlib.Data.List.Basic

namespace Ns3.Lib

/-- The interval `[b.1, b.2)`. -/
abbrev Block : Type := Nat × Nat

namespace Block

/-- The offset lies in the block. -/
def Has (b : Block) (k : Nat) : Prop := b.1 ≤ k ∧ k < b.2

def Clear (a b : Block) : Prop := a.2 ≤ b.1 ∨ b.2 ≤ a.1

/-- The blocks neither overlap nor meet. -/
def Apart (a b : Block) : Prop := a.2 < b.1 ∨ b.2 < a.1

instance (b : Block) (k : Nat) : Decidable (b.Has k) := inferInstanceAs (Decidable (_ ∧ _))

instance (a b : Block) : Decidable (Apart a b) := inferInstanceAs (Decidable (_ ∨ _))

theorem clear_of_not_has {a b : Block} (ha : a.1 < a.2) (hb : b.1 < b.2)
    (h : ∀ k, a.Has k → ¬b.Has k) : Clear a b := by
  unfold Clear
  by_contra hover
  have hboth := h (max a.1 b.1) ⟨by omega, by omega⟩
  exact hboth ⟨by omega, by omega⟩

/-- The first block of the list that meets `new` end to end is joined with it: the
joined block, and the other blocks. -/
def meet (new : Block) : List Block → Option (Block × List Block)
  | [] => none
  | current :: rest =>
    if new.1 = current.2 then some ((current.1, new.2), rest)
    else if new.2 = current.1 then some ((new.1, current.2), rest)
    else (meet new rest).map fun found => (found.1, current :: found.2)

/-- The block joined with the blocks it meets, one after another, in front of the
other blocks. -/
def join : Nat → Block → List Block → List Block
  | 0, new, list => new :: list
  | turns + 1, new, list =>
    match meet new list with
    | none => new :: list
    | some (joined, rest) => join turns joined rest

/-- The new block at the front of the list, of which only `limit` are kept. -/
def report (limit : Nat) (new : Block) (list : List Block) : List Block :=
  let list := join list.length new list
  if limit < list.length then list.dropLast else list

/-! ## Joining with one block -/

/-- What joining a block with a block of the list leaves. -/
structure Joins (new : Block) (list : List Block) (joined : Block) (rest : List Block) :
    Prop where
  sublist : rest.Sublist list
  length : rest.length + 1 = list.length
  fst_le : joined.1 ≤ new.1
  le_snd : new.2 ≤ joined.2
  met : ∃ other ∈ list, ∀ k, joined.Has k ↔ (new.Has k ∨ other.Has k)

theorem meet_none {new : Block} {list : List Block} (h : meet new list = none) :
    ∀ b ∈ list, new.1 ≠ b.2 ∧ new.2 ≠ b.1 := by
  induction list with
  | nil =>
    intro b hmem
    cases hmem
  | cons current rest ih =>
    rw [meet] at h
    split at h
    · cases h
    · rename_i hleft
      split at h
      · cases h
      · rename_i hright
        intro b hmem
        rcases List.mem_cons.mp hmem with rfl | hin
        · exact ⟨hleft, hright⟩
        · exact ih (Option.map_eq_none_iff.mp h) b hin

variable {list rest : List Block} {new joined : Block}

theorem meet_some (hnew : new.1 < new.2) (hlist : ∀ b ∈ list, b.1 < b.2)
    (h : meet new list = some (joined, rest)) : Joins new list joined rest := by
  induction list generalizing rest with
  | nil => cases h
  | cons current others ih =>
    obtain ⟨hcurrent, hothers⟩ := List.forall_mem_cons.mp hlist
    rw [meet] at h
    split at h
    · rename_i hleft
      cases h
      refine ⟨List.sublist_cons_self _ _, rfl, ?_, Nat.le_refl _, current, .head _, ?_⟩
      · dsimp only
        omega
      · intro k
        unfold Has
        dsimp only
        omega
    · split at h
      · rename_i hright
        cases h
        refine ⟨List.sublist_cons_self _ _, rfl, Nat.le_refl _, ?_, current,
          .head _, ?_⟩
        · dsimp only
          omega
        · intro k
          unfold Has
          dsimp only
          omega
      · obtain ⟨⟨joined', rest'⟩, hmeet, heq⟩ := Option.map_eq_some_iff.mp h
        cases heq
        obtain ⟨hsub, hlength, hfst, hsnd, other, hmem, hhas⟩ := ih hothers hmeet
        refine ⟨hsub.cons_cons current, ?_, hfst, hsnd, other, List.mem_cons_of_mem _ hmem, hhas⟩
        simp only [List.length_cons, hlength]

/-! ## The block in front, and what the list covers -/

/-- **Join rule.**  The block in front contains the new one, the others were there
before, and nothing is covered that was not. -/
theorem join_spec {turns : Nat} {new : Block} {list : List Block} (hnew : new.1 < new.2)
    (hlist : ∀ b ∈ list, b.1 < b.2) :
    ∃ front rest, join turns new list = front :: rest ∧ rest.Sublist list ∧
      front.1 ≤ new.1 ∧ new.2 ≤ front.2 ∧
      ∀ k, front.Has k → new.Has k ∨ ∃ b ∈ list, b.Has k := by
  induction turns generalizing new list with
  | zero =>
    exact ⟨new, list, rfl, List.Sublist.refl _, Nat.le_refl _, Nat.le_refl _, fun _ => .inl⟩
  | succ turns ih =>
    rw [join]
    cases hmeet : meet new list with
    | none =>
      exact ⟨new, list, rfl, List.Sublist.refl _, Nat.le_refl _, Nat.le_refl _, fun _ => .inl⟩
    | some found =>
      obtain ⟨joined, others⟩ := found
      obtain ⟨hsub, _, hfst, hsnd, other, hmem, hhas⟩ := meet_some hnew hlist hmeet
      obtain ⟨front, rest, heq, hrest, hfront, hback, hcover⟩ :=
        @ih joined others (by omega) fun b hb => hlist b (hsub.subset hb)
      refine ⟨front, rest, heq, hrest.trans hsub, by omega, by omega, ?_⟩
      intro k hk
      rcases hcover k hk with hin | ⟨b, hb, hin⟩
      · rcases (hhas k).mp hin with hin | hin
        · exact .inl hin
        · exact .inr ⟨other, hmem, hin⟩
      · exact .inr ⟨b, hsub.subset hb, hin⟩

theorem meet_clear (hnew : new.1 < new.2) (hlist : ∀ b ∈ list, b.1 < b.2)
    (happart : list.Pairwise Apart) (hclear : ∀ b ∈ list, Clear new b)
    (h : meet new list = some (joined, rest)) : ∀ b ∈ rest, Clear joined b := by
  induction list generalizing rest with
  | nil => cases h
  | cons current others ih =>
    obtain ⟨hcurrent, hothers⟩ := List.forall_mem_cons.mp hlist
    obtain ⟨hclearCurrent, hclearOthers⟩ := List.forall_mem_cons.mp hclear
    obtain ⟨hapartCurrent, hapartOthers⟩ := List.pairwise_cons.mp happart
    rw [meet] at h
    split at h
    · rename_i hleft
      cases h
      intro b hb
      have hfar := hapartCurrent b hb
      have hfree := hclearOthers b hb
      have hvalid := hothers b hb
      unfold Apart at hfar
      unfold Clear at hfree ⊢
      dsimp only
      omega
    · split at h
      · rename_i hright
        cases h
        intro b hb
        have hfar := hapartCurrent b hb
        have hfree := hclearOthers b hb
        have hvalid := hothers b hb
        unfold Apart at hfar
        unfold Clear at hfree ⊢
        dsimp only
        omega
      · rename_i hleft hright
        obtain ⟨⟨joined', rest'⟩, hmeet, heq⟩ := Option.map_eq_some_iff.mp h
        cases heq
        obtain ⟨_, _, hfst, hsnd, other, hmem, hhas⟩ := meet_some hnew hothers hmeet
        intro b hb
        rcases List.mem_cons.mp hb with rfl | hin
        · -- the joined block covers the new one and one apart from `b`
          have hfar := hapartCurrent other hmem
          have hjoined : joined'.1 < joined'.2 := by omega
          refine clear_of_not_has hjoined hcurrent fun k hk hin => ?_
          unfold Apart at hfar
          unfold Clear at hclearCurrent
          unfold Has at hin
          rcases (hhas k).mp hk with hold | hold <;> unfold Has at hold <;> omega
        · exact ih hothers hapartOthers hclearOthers hmeet b hin

theorem pairwise_apart_cons (happart : list.Pairwise Apart)
    (hfar : ∀ b ∈ list, new.1 ≠ b.2 ∧ new.2 ≠ b.1) (hclear : ∀ b ∈ list, Clear new b) :
    (new :: list).Pairwise Apart := by
  refine List.pairwise_cons.mpr ⟨fun b hb => ?_, happart⟩
  have hfar := hfar b hb
  have hfree := hclear b hb
  unfold Clear at hfree
  unfold Apart
  omega

/-- **Apart rule.**  If the blocks are pairwise apart and the new one overlaps none of
them, they are pairwise apart after the join. -/
theorem join_apart {turns : Nat} (hturns : list.length ≤ turns) (hnew : new.1 < new.2)
    (hlist : ∀ b ∈ list, b.1 < b.2) (happart : list.Pairwise Apart)
    (hclear : ∀ b ∈ list, Clear new b) : (join turns new list).Pairwise Apart := by
  induction turns generalizing new list with
  | zero =>
    obtain rfl := List.length_eq_zero_iff.mp (Nat.le_zero.mp hturns)
    exact List.pairwise_singleton _ _
  | succ turns ih =>
    rw [join]
    cases hmeet : meet new list with
    | none => exact pairwise_apart_cons happart (meet_none hmeet) hclear
    | some found =>
      obtain ⟨joined, others⟩ := found
      have hjoins := meet_some hnew hlist hmeet
      have hlength := hjoins.length
      have hfst := hjoins.fst_le
      have hsnd := hjoins.le_snd
      have hsub := hjoins.sublist
      have hclear' := meet_clear hnew hlist happart hclear hmeet
      apply ih (by omega) (by omega) (fun b hb => hlist b (hsub.subset hb))
        (happart.sublist hsub) hclear'

/-! ## Reporting a block -/

variable {limit : Nat} {new : Block} {list : List Block}

theorem report_sublist : (report limit new list).Sublist (join list.length new list) := by
  unfold report
  dsimp only
  split
  · exact List.dropLast_sublist _
  · exact List.Sublist.refl _

theorem join_length {turns : Nat} (hnew : new.1 < new.2) (hlist : ∀ b ∈ list, b.1 < b.2) :
    (join turns new list).length ≤ list.length + 1 := by
  obtain ⟨front, rest, heq, hsub, _⟩ := @join_spec turns new list hnew hlist
  rw [heq, List.length_cons]
  exact Nat.succ_le_succ hsub.length_le

/-- **Report rule**, size: the list never outgrows its limit. -/
theorem report_length (hnew : new.1 < new.2) (hlist : ∀ b ∈ list, b.1 < b.2)
    (hlimit : list.length ≤ limit) : (report limit new list).length ≤ limit := by
  have hjoin := @join_length new list list.length hnew hlist
  unfold report
  dsimp only
  split
  · rw [List.length_dropLast]
    omega
  · omega

/-- **Report rule**, front: the block in front contains the new one. -/
theorem report_front (hlimit : 0 < limit) (hnew : new.1 < new.2) (hlist : ∀ b ∈ list, b.1 < b.2) :
    ∃ front rest, report limit new list = front :: rest ∧ front.1 ≤ new.1 ∧ new.2 ≤ front.2 := by
  obtain ⟨front, rest, heq, _, hfst, hsnd, _⟩ := @join_spec list.length new list hnew hlist
  unfold report
  dsimp only
  rw [heq]
  split
  · rename_i hlong
    cases rest with
    | nil =>
      simp only [List.length_singleton] at hlong
      omega
    | cons second rest => exact ⟨front, (second :: rest).dropLast, rfl, hfst, hsnd⟩
  · exact ⟨front, rest, rfl, hfst, hsnd⟩

/-- **Report rule**, cover: every block reported is an interval, and covers nothing
but what the new block and the list covered. -/
theorem report_mem (hnew : new.1 < new.2) (hlist : ∀ b ∈ list, b.1 < b.2) :
    ∀ b ∈ report limit new list, b.1 < b.2 ∧
      ∀ k, b.Has k → new.Has k ∨ ∃ b' ∈ list, b'.Has k := by
  obtain ⟨front, rest, heq, hsub, hfst, hsnd, hcover⟩ :=
    @join_spec list.length new list hnew hlist
  intro b hb
  have hmem := report_sublist.subset hb
  rw [heq] at hmem
  rcases List.mem_cons.mp hmem with rfl | hin
  · exact ⟨by omega, hcover⟩
  · exact ⟨hlist b (hsub.subset hin), fun k hk => .inr ⟨b, hsub.subset hin, hk⟩⟩

/-- **Report rule**, apart: reporting a block that overlaps none of the list keeps
the list pairwise apart. -/
theorem report_apart (hnew : new.1 < new.2) (hlist : ∀ b ∈ list, b.1 < b.2)
    (happart : list.Pairwise Apart) (hclear : ∀ b ∈ list, Clear new b) :
    (report limit new list).Pairwise Apart :=
  (join_apart (Nat.le_refl _) hnew hlist happart hclear).sublist report_sublist

end Block

end Ns3.Lib
