/-
  The order in which keyed elements leave a set of queues.

  Elements are offered one at a time; each is appended to one of several lanes or
  refused, lanes lose elements at any time, and elements leave from the front of a
  lane.  When every key has its elements in one lane at a time, the elements of a key
  leave in the order they were offered.

  The members stand in a line.  The first spends its credit; once that is used up it is
  given `Q` more and goes to the end.  Between two turns of one member there is a turn of
  every other that stays in line, so what two of them spend differs by their credits and
  one `Q`.
-/
import Mathlib.Data.Int.Basic
import Mathlib.Data.List.Basic
import Mathlib.Data.List.Nodup
import Mathlib.Data.List.Sublists
import Mathlib.Order.Lattice
import Mathlib.Tactic.Linarith

namespace Ns3.Lib

variable {α ι κ : Type*} [DecidableEq κ]

def ofKey (key : α → κ) (x : κ) (l : List α) : List α := l.filter fun p => key p = x

variable {key : α → κ} {x : κ} {l l' : List α} {p : α}

@[simp] theorem ofKey_append : ofKey key x (l ++ l') = ofKey key x l ++ ofKey key x l' :=
  List.filter_append ..

theorem ofKey_single (h : key p = x) : ofKey key x [p] = [p] := by simp [ofKey, h]

theorem ofKey_single_ne (h : key p ≠ x) : ofKey key x [p] = [] := by simp [ofKey, h]

theorem ofKey_cons (h : key p = x) : ofKey key x (p :: l) = p :: ofKey key x l := by
  simp [ofKey, h]

theorem ofKey_sublist (h : l.Sublist l') : (ofKey key x l).Sublist (ofKey key x l') :=
  h.filter _

theorem ofKey_eq_nil (h : ∀ q ∈ l, key q ≠ x) : ofKey key x l = [] := by
  rw [ofKey, List.filter_eq_nil_iff]
  intro q hq
  simpa using h q hq

variable (key) in
/-- No key has elements in two lanes. -/
def SingleLane (lane : ι → List α) : Prop :=
  ∀ i j, ∀ p ∈ lane i, ∀ q ∈ lane j, key p = key q → i = j

variable (key) in
/-- What has left, followed by what waits in any one lane, is for each key a part of what
was offered, in the same order. -/
def InOrder (lane : ι → List α) (offered sent : List α) : Prop :=
  ∀ x i, (ofKey key x sent ++ ofKey key x (lane i)).Sublist (ofKey key x offered)

variable {lane lane' : ι → List α} {offered sent : List α} {i : ι}

section SingleLane

omit [DecidableEq κ]

theorem SingleLane.arrive (hsep : SingleLane key lane) (hi : lane' i = lane i ++ [p])
    (hj : ∀ j, j ≠ i → lane' j = lane j)
    (hown : ∀ j, ∀ q ∈ lane j, key q = key p → j = i) : SingleLane key lane' := by
  -- whatever waits in a lane waited there before, or is the new element
  have hfrom : ∀ j, ∀ q ∈ lane' j, q ∈ lane j ∨ (j = i ∧ q = p) := by
    intro j q hq
    by_cases h : j = i
    · subst h
      rw [hi] at hq
      rcases List.mem_append.mp hq with hq | hq
      · exact .inl hq
      · exact .inr ⟨rfl, List.mem_singleton.mp hq⟩
    · rw [hj j h] at hq
      exact .inl hq
  intro j k q hq r hr hkey
  rcases hfrom j q hq with hq | ⟨rfl, rfl⟩
  · rcases hfrom k r hr with hr | ⟨rfl, rfl⟩
    · exact hsep j k q hq r hr hkey
    · exact hown j q hq hkey
  · rcases hfrom k r hr with hr | ⟨rfl, rfl⟩
    · exact (hown k r hr hkey.symm).symm
    · rfl

theorem SingleLane.thin (hsep : SingleLane key lane) (hsub : ∀ j, (lane' j).Sublist (lane j)) :
    SingleLane key lane' :=
  fun j k p hp q hq hkey => hsep j k p ((hsub j).subset hp) q ((hsub k).subset hq) hkey

end SingleLane

namespace InOrder

section

variable (h : InOrder key lane offered sent)

include h

theorem refuse : InOrder key lane (offered ++ [p]) sent := by
  intro x i
  rw [ofKey_append]
  exact (h x i).trans (List.sublist_append_left _ _)

theorem arrive (hi : lane' i = lane i ++ [p]) (hj : ∀ j, j ≠ i → lane' j = lane j) :
    InOrder key lane' (offered ++ [p]) sent := by
  intro x j
  by_cases hij : j = i
  · subst hij
    rw [hi, ofKey_append, ofKey_append, ← List.append_assoc]
    exact (h x j).append (List.Sublist.refl _)
  · rw [hj j hij]
    exact h.refuse x j

theorem thin (hsub : ∀ j, (lane' j).Sublist (lane j)) : InOrder key lane' offered sent :=
  fun x j => ((List.Sublist.refl _).append (ofKey_sublist (hsub j))).trans (h x j)

theorem leave (hsep : SingleLane key lane) {dropped rest : List α}
    (hi : lane i = dropped ++ p :: rest) (hi' : lane' i = rest)
    (hj : ∀ j, j ≠ i → lane' j = lane j) :
    InOrder key lane' offered (sent ++ [p]) := by
  have hsub : ∀ j, (lane' j).Sublist (lane j) := by
    intro j
    by_cases hij : j = i
    · subst hij
      rw [hi', hi]
      exact (List.sublist_cons_self p rest).trans (List.sublist_append_right dropped _)
    · rw [hj j hij]
  intro x j
  by_cases hx : key p = x
  · rw [ofKey_append, ofKey_single hx, List.append_assoc, List.singleton_append]
    have hlane : (ofKey key x sent ++ p :: ofKey key x rest).Sublist (ofKey key x offered) := by
      rw [← ofKey_cons hx]
      refine ((List.Sublist.refl _).append (ofKey_sublist ?_)).trans (h x i)
      rw [hi]
      exact List.sublist_append_right _ _
    by_cases hij : j = i
    · subst hij
      rw [hi']
      exact hlane
    · -- the other lanes hold nothing of this key
      have hnone : ofKey key x (lane' j) = [] := by
        refine ofKey_eq_nil fun q hq hqx => hij ?_
        rw [hj j hij] at hq
        exact hsep j i q hq p (by rw [hi]; simp) (hqx.trans hx.symm)
      rw [hnone]
      exact ((List.Sublist.refl _).append ((List.nil_sublist _).cons_cons p)).trans hlane
  · rw [ofKey_append, ofKey_single_ne hx, List.append_nil]
    exact h.thin hsub x j

theorem sent_sublist (i : ι) (x : κ) : (ofKey key x sent).Sublist (ofKey key x offered) :=
  (List.sublist_append_left _ _).trans (h x i)

end

end InOrder

/-! ## Two members of a round robin with credits -/

variable {l rest : List ι} {j k : ι}

/-- `i` stands before `j`. -/
def Before (l : List ι) (i j : ι) : Prop := [i, j].Sublist l

namespace Before

theorem total (hi : i ∈ l) (hj : j ∈ l) (hne : i ≠ j) : Before l i j ∨ Before l j i := by
  obtain ⟨front, back, rfl⟩ := List.append_of_mem hi
  rcases List.mem_append.mp hj with hj | hj
  · refine .inr ?_
    exact (List.singleton_sublist.mpr hj).append (List.singleton_sublist.mpr (.head _))
  · rcases List.mem_cons.mp hj with rfl | hj
    · exact absurd rfl hne
    · refine .inl (List.Sublist.trans ?_ (List.sublist_append_right front _))
      exact (List.singleton_sublist.mpr hj).cons_cons i

theorem mem_tail (h : Before l i j) : j ∈ l.tail := by
  cases l with
  | nil => exact absurd h.length_le (by simp)
  | cons x l =>
    rcases List.sublist_cons_iff.mp h with h | ⟨r, hr, hsub⟩
    · exact h.subset (by simp)
    · obtain ⟨-, rfl⟩ := List.cons.inj hr
      exact List.singleton_sublist.mp hsub

theorem ne_head (h : Before (k :: rest) i j) (hnodup : (k :: rest).Nodup) : j ≠ k := by
  rintro rfl
  exact (List.nodup_cons.mp hnodup).1 h.mem_tail

theorem of_cons (h : Before (k :: rest) i j) (hi : i ≠ k) : Before rest i j := by
  rcases List.sublist_cons_iff.mp h with h | ⟨r, hr, -⟩
  · exact h
  · exact absurd (List.cons.inj hr).1 hi

theorem rotate (h : Before (k :: rest) i j) (hi : i ≠ k) : Before (rest ++ [k]) i j :=
  (h.of_cons hi).trans (List.sublist_append_left _ _)

theorem swap (h : Before (i :: rest) i j) : Before (rest ++ [i]) j i :=
  (List.singleton_sublist.mpr h.mem_tail).append (List.Sublist.refl [i])

end Before

/-- What `i` and `j` have spent, with the credit left, differs by `c`, and by one more `Q` while `i`
has had one turn more. -/
def Turns (Q M c : ℤ) (l : List ι) (i j : ι) (spent credit : ι → ℤ) : Prop :=
  (Before l i j ∧ spent i + credit i = spent j + credit j + c) ∨
    (Before l j i ∧ spent i + credit i = spent j + credit j + c + Q ∧ Q - M < credit i)

namespace Turns

variable {Q M c : ℤ} {spent spent' credit credit' : ι → ℤ}

theorem start (h : Before l i j) :
    Turns Q M ((spent i + credit i) - (spent j + credit j)) l i j spent credit :=
  .inl ⟨h, by omega⟩

theorem congr (h : Turns Q M c l i j spent credit) (hspent : ∀ x, spent' x = spent x)
    (hcredit : ∀ x, credit' x = credit x) : Turns Q M c l i j spent' credit' := by
  rw [funext hspent, funext hcredit]
  exact h

section

variable (h : Turns Q M c (k :: rest) i j spent credit)

include h

theorem turn (hnodup : (k :: rest).Nodup) (hM : -M < credit k) (hk : credit' k = credit k + Q)
    (hother : ∀ x, x ≠ k → credit' x = credit x) : Turns Q M c (rest ++ [k]) i j spent credit' := by
  rcases h with ⟨hbefore, hsum⟩ | ⟨hbefore, hsum, hlt⟩
  · have hj := hbefore.ne_head hnodup
    by_cases hi : i = k
    · subst hi
      refine .inr ⟨hbefore.swap, ?_, ?_⟩
      · rw [hk, hother j hj]
        linarith
      · rw [hk]
        linarith
    · refine .inl ⟨hbefore.rotate hi, ?_⟩
      rw [hother i hi, hother j hj]
      exact hsum
  · have hi := hbefore.ne_head hnodup
    by_cases hj : j = k
    · subst hj
      refine .inl ⟨hbefore.swap, ?_⟩
      rw [hk, hother i hi]
      linarith
    · refine .inr ⟨hbefore.rotate hj, ?_, ?_⟩
      · rw [hother i hi, hother j hj]
        exact hsum
      · rw [hother i hi]
        exact hlt

theorem leave (hi : i ≠ k) (hj : j ≠ k) : Turns Q M c rest i j spent credit := by
  rcases h with ⟨hbefore, hsum⟩ | ⟨hbefore, hsum⟩
  · exact .inl ⟨hbefore.of_cons hi, hsum⟩
  · exact .inr ⟨hbefore.of_cons hj, hsum⟩

theorem spend (hnodup : (k :: rest).Nodup) (hsum : ∀ x, spent' x + credit' x = spent x + credit x)
    (hother : ∀ x, x ≠ k → credit' x = credit x) : Turns Q M c (k :: rest) i j spent' credit' := by
  rcases h with ⟨hbefore, heq⟩ | ⟨hbefore, heq, hlt⟩
  · exact .inl ⟨hbefore, by rw [hsum i, hsum j]; exact heq⟩
  · refine .inr ⟨hbefore, by rw [hsum i, hsum j]; exact heq, ?_⟩
    rw [hother i (hbefore.ne_head hnodup)]
    exact hlt

end

/-- **Fairness.** When `j` stood behind `i` at first, what the two have spent since differs by `Q`,
`M` and the larger of the two at most. -/
theorem bound {spent₀ credit₀ : ι → ℤ}
    (h : Turns Q M ((spent₀ i + credit₀ i) - (spent₀ j + credit₀ j)) l i j spent credit)
    (hrange : ∀ x, x = i ∨ x = j → -M < credit x ∧ credit x ≤ Q)
    (hrange₀ : ∀ x, x = i ∨ x = j → -M < credit₀ x ∧ credit₀ x ≤ Q)
    (hbehind : ∀ x ∈ l.tail, min 0 (Q - M) < credit x) (hbehind₀ : min 0 (Q - M) < credit₀ j) :
    |(spent i - spent₀ i) - (spent j - spent₀ j)| ≤ Q + M + max Q M := by
  obtain ⟨hi, hi'⟩ := hrange i (.inl rfl)
  obtain ⟨hj, hj'⟩ := hrange j (.inr rfl)
  obtain ⟨hi₀, hi₀'⟩ := hrange₀ i (.inl rfl)
  obtain ⟨hj₀, hj₀'⟩ := hrange₀ j (.inr rfl)
  rw [abs_le]
  rcases h with ⟨hbefore, hsum⟩ | ⟨-, hsum, hlt⟩
  · have := hbehind j hbefore.mem_tail
    omega
  · omega

end Turns

end Ns3.Lib
