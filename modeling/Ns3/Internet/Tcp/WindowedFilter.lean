/-
  BBR's windowed maximum filter
  (src/internet/model/windowed-filter.h, as TcpBbr::InitPacingRate sets it up,
  src/internet/model/tcp-bbr.cc).

  Three samples are kept.  Each stands for what came after it: no later sample is larger.  The
  zero value marks a filter that has not been updated, but a sample can have that value too.
-/
import Ns3.Lib.Wrap
import Mathlib.Algebra.Order.Ring.Nat
import Mathlib.Data.List.Basic

namespace Ns3

open Lib

/-- `WindowedFilter::Sample`, of a bit rate, and how many samples came before it. -/
structure Sample where
  sample : Nat
  /-- `time`, a round count -/
  time : Nat
  /-- which sample it is; the code does not keep this -/
  arrival : Nat
  deriving DecidableEq, Repr

def maxFilter (lhs rhs : Nat) : Bool := if rhs = 0 || lhs = 0 then false else lhs ≥ rhs

/-- `MaxBandwidthFilter_t`. -/
structure WindowedFilter where
  windowLength : Nat
  zeroValue : Nat
  first : Sample
  second : Sample
  third : Sample
  deriving DecidableEq, Repr

namespace WindowedFilter

/-- The constructor, with `zeroTime` 0. -/
def new (windowLength zeroValue : Nat) : WindowedFilter :=
  { windowLength, zeroValue, first := ⟨zeroValue, 0, 0⟩, second := ⟨zeroValue, 0, 0⟩
    third := ⟨zeroValue, 0, 0⟩ }

def reset (f : WindowedFilter) (new : Sample) : WindowedFilter :=
  { f with first := new, second := new, third := new }

/-- The sample is older than `window` at `now`; times are 32-bit words. -/
def olderThan (s : Sample) (window now : Nat) : Bool := wsub 32 now s.time > window

/-- The new sample takes the place of the estimates it is as good as. -/
def refresh (f : WindowedFilter) (new : Sample) : WindowedFilter :=
  if maxFilter new.sample f.second.sample then { f with second := new, third := new }
  else if maxFilter new.sample f.third.sample then { f with third := new }
  else f

/-- The best estimate has expired: the others move up. -/
def promote (f : WindowedFilter) (new : Sample) : WindowedFilter :=
  let f := { f with first := f.second, second := f.third, third := new }
  if olderThan f.first f.windowLength new.time then { f with first := f.second, second := f.third }
  else f

def update (f : WindowedFilter) (new : Sample) : WindowedFilter :=
  if f.first.sample = f.zeroValue || maxFilter new.sample f.first.sample ||
      olderThan f.third f.windowLength new.time then f.reset new
  else
    let f := f.refresh new
    if olderThan f.first f.windowLength new.time then f.promote new
    else if f.second.sample = f.first.sample &&
        olderThan f.second (f.windowLength >>> 2) new.time then
      { f with second := new, third := new }
    else if f.third.sample = f.second.sample &&
        olderThan f.third (f.windowLength >>> 1) new.time then
      { f with third := new }
    else f

def getBest (f : WindowedFilter) : Nat := f.first.sample

/-! ## What an estimate stands for -/

/-- The sample came in, and none that came after it is larger. -/
def Stands (history : List Sample) (s : Sample) : Prop :=
  s ∈ history ∧ ∀ u ∈ history, s.arrival < u.arrival → u.sample ≤ s.sample

/-- The estimates are in order, and stand for what came after them. -/
structure Ranked (history : List Sample) (f : WindowedFilter) : Prop where
  second_le : f.second.sample ≤ f.first.sample
  third_le : f.third.sample ≤ f.second.sample
  first_time : f.first.time ≤ f.second.time
  second_time : f.second.time ≤ f.third.time
  first : Stands history f.first
  second : Stands history f.second
  third : Stands history f.third

/-- What may come next: a positive sample, later than all before. -/
structure Follows (history : List Sample) (new : Sample) : Prop where
  pos : 0 < new.sample
  arrival : ∀ u ∈ history, u.arrival < new.arrival
  time : ∀ u ∈ history, u.time ≤ new.time
  lt : new.time < 2 ^ 32

section

variable {history : List Sample} {f : WindowedFilter} {new s : Sample} {window : Nat}

theorem Stands.snoc (h : Stands history s) (hle : new.sample ≤ s.sample) :
    Stands (history ++ [new]) s := by
  refine ⟨List.mem_append_left _ h.1, fun u hu hlt => ?_⟩
  rcases List.mem_append.mp hu with hu | hu
  · exact h.2 u hu hlt
  · rw [List.mem_singleton.mp hu]
    exact hle

theorem Follows.stands (hnew : Follows history new) : Stands (history ++ [new]) new := by
  refine ⟨List.mem_append_right _ (List.mem_singleton_self _), fun u hu hlt => ?_⟩
  rcases List.mem_append.mp hu with hu | hu
  · exact absurd hlt (Nat.lt_asymm (hnew.arrival u hu))
  · rw [List.mem_singleton.mp hu]

theorem olderThan_iff (new : Sample) (hlt : new.time < 2 ^ 32) (hle : s.time ≤ new.time) :
    olderThan s window new.time = true ↔ window < new.time - s.time := by
  rw [olderThan, wsub_eq hlt hle, decide_eq_true_iff]

theorem lt_of_not_maxFilter {a b : Nat} (ha : 0 < a) (hb : 0 < b) (h : ¬maxFilter a b = true) :
    a < b := by
  rw [maxFilter] at h
  simp only [Bool.or_eq_true, decide_eq_true_eq, Nat.ne_of_gt ha, Nat.ne_of_gt hb, or_self,
    if_false] at h
  omega

theorem le_of_maxFilter {a b : Nat} (h : maxFilter a b = true) : b ≤ a := by
  rw [maxFilter] at h
  split at h
  · exact absurd h Bool.false_ne_true
  · exact of_decide_eq_true h

theorem Ranked.reset (hnew : Follows history new) : Ranked (history ++ [new]) (f.reset new) :=
  ⟨le_rfl, le_rfl, le_rfl, le_rfl, hnew.stands, hnew.stands, hnew.stands⟩

theorem Ranked.refresh (h : Ranked history f) (hnew : Follows history new)
    (hpos : ∀ u ∈ history, 0 < u.sample) (hlt : new.sample < f.first.sample) :
    Ranked (history ++ [new]) (f.refresh new) := by
  have hfirst := h.first.snoc (Nat.le_of_lt hlt)
  rw [WindowedFilter.refresh]
  split
  · exact ⟨Nat.le_of_lt hlt, le_rfl, hnew.time _ h.first.1, le_rfl, hfirst, hnew.stands,
      hnew.stands⟩
  · next hsecond =>
      have hsecond := Nat.le_of_lt (lt_of_not_maxFilter hnew.pos (hpos _ h.second.1) hsecond)
      split
      · exact ⟨h.second_le, hsecond, h.first_time, hnew.time _ h.second.1, hfirst,
          h.second.snoc hsecond, hnew.stands⟩
      · next hthird =>
          have hthird := Nat.le_of_lt (lt_of_not_maxFilter hnew.pos (hpos _ h.third.1) hthird)
          exact ⟨h.second_le, h.third_le, h.first_time, h.second_time, hfirst,
            h.second.snoc hsecond, h.third.snoc hthird⟩

theorem update_of_zero (h : f.first.sample = f.zeroValue) : f.update new = f.reset new := by
  rw [WindowedFilter.update, if_pos]
  rw [h, decide_eq_true rfl]
  rfl

theorem refresh_first : (f.refresh new).first = f.first := by
  rw [WindowedFilter.refresh]
  split
  · rfl
  · split <;> rfl

theorem refresh_windowLength : (f.refresh new).windowLength = f.windowLength := by
  rw [WindowedFilter.refresh]
  split
  · rfl
  · split <;> rfl

theorem refresh_zeroValue : (f.refresh new).zeroValue = f.zeroValue := by
  rw [WindowedFilter.refresh]
  split
  · rfl
  · split <;> rfl

theorem promote_config : (f.promote new).windowLength = f.windowLength ∧
    (f.promote new).zeroValue = f.zeroValue := by
  rw [WindowedFilter.promote]
  dsimp only
  split <;> exact ⟨rfl, rfl⟩

theorem update_config : (f.update new).windowLength = f.windowLength ∧
    (f.update new).zeroValue = f.zeroValue := by
  have hrefresh : (f.refresh new).windowLength = f.windowLength ∧
      (f.refresh new).zeroValue = f.zeroValue := ⟨refresh_windowLength, refresh_zeroValue⟩
  rw [WindowedFilter.update]
  split
  · exact ⟨rfl, rfl⟩
  dsimp only
  split
  · exact ⟨promote_config.1.trans hrefresh.1, promote_config.2.trans hrefresh.2⟩
  split
  · exact hrefresh
  split <;> exact hrefresh

theorem olderThan_self (new : Sample) (window : Nat) : olderThan new window new.time = false := by
  rw [olderThan, wsub, decide_eq_false_iff_not]
  omega

theorem refresh_third (hpos : 0 < new.sample) (hthird : 0 < f.third.sample) :
    (f.refresh new).third = new ∨
      (f.refresh new).third = f.third ∧ new.sample < f.third.sample := by
  rw [WindowedFilter.refresh]
  split
  · exact .inl rfl
  · split
    · exact .inl rfl
    · next hthird' => exact .inr ⟨rfl, lt_of_not_maxFilter hpos hthird hthird'⟩

section

variable (h : Ranked history f) (hnew : Stands history new) (hle : new.sample ≤ f.third.sample)
  (htime : f.third.time ≤ new.time)

include h hnew hle htime

theorem Ranked.take_third : Ranked history { f with third := new } :=
  ⟨h.second_le, hle.trans h.third_le, h.first_time, h.second_time.trans htime, h.first, h.second,
    hnew⟩

theorem Ranked.take_second : Ranked history { f with second := new, third := new } :=
  ⟨(hle.trans h.third_le).trans h.second_le, le_rfl,
    (h.first_time.trans h.second_time).trans htime, le_rfl, h.first, hnew, hnew⟩

theorem Ranked.promote (hthird : olderThan f.third f.windowLength new.time = false) :
    Ranked history (f.promote new) ∧
      olderThan (f.promote new).first f.windowLength new.time = false := by
  rw [WindowedFilter.promote]
  dsimp only
  split
  · exact ⟨⟨hle, le_rfl, htime, le_rfl, h.third, hnew, hnew⟩, hthird⟩
  · next hsecond =>
      exact ⟨⟨h.third_le, hle, h.second_time, htime, h.second, h.third, hnew⟩,
        Bool.not_eq_true _ ▸ hsecond⟩

end

theorem Ranked.update (h : Ranked history f) (hnew : Follows history new)
    (hpos : ∀ u ∈ history, 0 < u.sample) :
    Ranked (history ++ [new]) (f.update new) ∧
      olderThan (f.update new).first f.windowLength new.time = false := by
  rw [WindowedFilter.update]
  split
  · exact ⟨.reset hnew, olderThan_self new _⟩
  · next hreset =>
      simp only [Bool.or_eq_true, decide_eq_true_eq, not_or] at hreset
      obtain ⟨⟨-, hbest⟩, hthird⟩ := hreset
      have hlt := lt_of_not_maxFilter hnew.pos (hpos _ h.first.1) hbest
      have hranked := h.refresh hnew hpos hlt
      have hstands := hnew.stands
      have hwindow : (f.refresh new).windowLength = f.windowLength := refresh_windowLength
      obtain ⟨hle, htime, hthird⟩ : new.sample ≤ (f.refresh new).third.sample ∧
          (f.refresh new).third.time ≤ new.time ∧
          olderThan (f.refresh new).third (f.refresh new).windowLength new.time = false := by
        rw [hwindow]
        rcases refresh_third hnew.pos (hpos _ h.third.1) with heq | ⟨heq, hle⟩
        · rw [heq]
          exact ⟨le_rfl, le_rfl, olderThan_self new _⟩
        · rw [heq]
          exact ⟨Nat.le_of_lt hle, hnew.time _ h.third.1, Bool.not_eq_true _ ▸ hthird⟩
      rw [← hwindow]
      dsimp only
      split
      · exact hranked.promote hstands hle htime hthird
      · next hfirst =>
          have hfirst := Bool.not_eq_true _ ▸ hfirst
          split
          · exact ⟨hranked.take_second hstands hle htime, hfirst⟩
          · split
            · exact ⟨hranked.take_third hstands hle htime, hfirst⟩
            · exact ⟨hranked, hfirst⟩

theorem Ranked.decreases_iff (h : Ranked history f) (hnew : Follows history new) :
    ((f.update new).getBest < f.getBest → olderThan f.first f.windowLength new.time = true) ↔
      ¬(f.getBest = f.zeroValue ∧ new.sample < f.getBest ∧
        olderThan f.first f.windowLength new.time = false) := by
  constructor
  · rintro himp ⟨hzero, hlt, hyoung⟩
    have hold := himp (by rw [update_of_zero hzero]; exact hlt)
    exact Bool.false_ne_true (hyoung.symm.trans hold)
  · intro hnot hdecrease
    by_contra hyoung
    have hyoung : olderThan f.first f.windowLength new.time = false := Bool.not_eq_true _ ▸ hyoung
    rw [WindowedFilter.update] at hdecrease
    split at hdecrease
    · next hreset =>
        simp only [Bool.or_eq_true, decide_eq_true_eq] at hreset
        rcases hreset with (hzero | hbest) | hthird
        · exact hnot ⟨hzero, hdecrease, hyoung⟩
        · exact absurd (le_of_maxFilter hbest) (Nat.not_le.mpr hdecrease)
        · -- the best is as old as the third
          have hfirst := hnew.time _ h.first.1
          rw [olderThan_iff new hnew.lt (hnew.time _ h.third.1)] at hthird
          refine Bool.eq_false_iff.mp hyoung ((olderThan_iff new hnew.lt hfirst).mpr ?_)
          have := h.first_time
          have := h.second_time
          omega
    · have hbest : (f.refresh new).first = f.first := refresh_first
      have hwindow : (f.refresh new).windowLength = f.windowLength := refresh_windowLength
      dsimp only at hdecrease
      rw [hbest, hwindow, if_neg (Bool.eq_false_iff.mp hyoung)] at hdecrease
      refine absurd hdecrease (Nat.not_lt.mpr (Nat.le_of_eq ?_))
      split
      · rfl
      · split
        · rfl
        · exact congrArg Sample.sample hbest.symm

end

/-! ## Runs -/

/-- The samples of a run, given by their bit rates and round counts. -/
def samples (updates : List (Nat × Nat)) : List Sample :=
  updates.mapIdx fun i u => ⟨u.1, u.2, i⟩

/-- The filter that `InitPacingRate` sets up, after a run of updates. -/
def after (windowLength zeroValue : Nat) (updates : List (Nat × Nat)) : WindowedFilter :=
  (samples updates).foldl update (new windowLength zeroValue)

/-- The samples are positive, and the round counts do not decrease. -/
structure Rounds (updates : List (Nat × Nat)) : Prop where
  pos : ∀ u ∈ updates, 0 < u.1
  sorted : updates.Pairwise fun u v => u.2 ≤ v.2
  lt : ∀ u ∈ updates, u.2 < 2 ^ 32

/-- The filter can be trusted at update `u`, which follows `updates`. -/
structure Trusted (windowLength zeroValue : Nat) (updates : List (Nat × Nat)) (u : Nat × Nat) :
    Prop where
  /-- the estimates are in order, and no later sample is larger -/
  ranked : Ranked (samples (updates ++ [u])) (after windowLength zeroValue (updates ++ [u]))
  /-- the best is not older than the window -/
  recent : u.2 ≤ (after windowLength zeroValue (updates ++ [u])).first.time + windowLength
  /-- the best of earlier updates is not exchanged for a smaller one before it expires -/
  decreases : updates ≠ [] →
    (after windowLength zeroValue (updates ++ [u])).getBest <
      (after windowLength zeroValue updates).getBest →
    (after windowLength zeroValue updates).first.time + windowLength < u.2

/-- The best is the zero value, it has not expired, and the new sample is smaller. -/
def ZeroBest (windowLength zeroValue : Nat) (updates : List (Nat × Nat)) (u : Nat × Nat) : Prop :=
  (after windowLength zeroValue updates).getBest = zeroValue ∧ u.1 < zeroValue ∧
    u.2 ≤ (after windowLength zeroValue updates).first.time + windowLength

section

variable {windowLength zeroValue : Nat} {updates rest : List (Nat × Nat)} {u : Nat × Nat}

theorem samples_concat (updates : List (Nat × Nat)) (u : Nat × Nat) :
    samples (updates ++ [u]) = samples updates ++ [⟨u.1, u.2, updates.length⟩] :=
  List.mapIdx_concat

theorem after_concat (windowLength zeroValue : Nat) (updates : List (Nat × Nat)) (u : Nat × Nat) :
    after windowLength zeroValue (updates ++ [u]) =
      (after windowLength zeroValue updates).update ⟨u.1, u.2, updates.length⟩ := by
  rw [after, samples_concat, List.foldl_append]
  rfl

theorem mem_samples {s : Sample} (h : s ∈ samples updates) :
    (s.sample, s.time) ∈ updates ∧ s.arrival < updates.length := by
  obtain ⟨i, hi, rfl⟩ := List.mem_mapIdx.mp h
  exact ⟨List.getElem_mem hi, hi⟩

theorem Rounds.of_append (h : Rounds (updates ++ rest)) : Rounds updates :=
  ⟨fun u hu => h.pos u (List.mem_append_left _ hu), (List.pairwise_append.mp h.sorted).1,
    fun u hu => h.lt u (List.mem_append_left _ hu)⟩

theorem Rounds.follows (h : Rounds (updates ++ [u])) :
    Follows (samples updates) ⟨u.1, u.2, updates.length⟩ := by
  have hu := List.mem_append_right updates (List.mem_singleton_self u)
  refine ⟨h.pos u hu, fun s hs => (mem_samples hs).2, fun s hs => ?_, h.lt u hu⟩
  exact (List.pairwise_append.mp h.sorted).2.2 _ (mem_samples hs).1 u (List.mem_singleton_self u)

theorem Rounds.samples_pos (h : Rounds updates) : ∀ s ∈ samples updates, 0 < s.sample :=
  fun _ hs => h.pos _ (mem_samples hs).1

theorem after_config (windowLength zeroValue : Nat) (updates : List (Nat × Nat)) :
    (after windowLength zeroValue updates).windowLength = windowLength ∧
      (after windowLength zeroValue updates).zeroValue = zeroValue := by
  induction updates using List.reverseRecOn with
  | nil => exact ⟨rfl, rfl⟩
  | append_singleton updates u ih =>
    rw [after_concat]
    exact ⟨update_config.1.trans ih.1, update_config.2.trans ih.2⟩

theorem run_ranked (windowLength zeroValue : Nat) (h : Rounds updates) (hne : updates ≠ []) :
    Ranked (samples updates) (after windowLength zeroValue updates) := by
  induction updates using List.reverseRecOn with
  | nil => exact absurd rfl hne
  | append_singleton updates u ih =>
    rw [samples_concat, after_concat]
    by_cases hfirst : updates = []
    · subst hfirst
      rw [update_of_zero rfl]
      exact .reset h.follows
    · exact ((ih h.of_append hfirst).update h.follows h.of_append.samples_pos).1

theorem run_recent (h : Rounds (updates ++ [u])) :
    u.2 ≤ (after windowLength zeroValue (updates ++ [u])).first.time + windowLength := by
  have hlt := h.follows.lt
  have hrecent : olderThan (after windowLength zeroValue (updates ++ [u])).first windowLength u.2 =
      false := by
    rw [after_concat]
    by_cases hfirst : updates = []
    · subst hfirst
      rw [update_of_zero rfl]
      exact olderThan_self _ _
    · have hbefore := run_ranked windowLength zeroValue
        h.of_append hfirst
      have hupdate := (hbefore.update h.follows h.of_append.samples_pos).2
      rwa [(after_config windowLength zeroValue updates).1] at hupdate
  have hranked := run_ranked windowLength zeroValue h (by simp)
  have hle : (after windowLength zeroValue (updates ++ [u])).first.time ≤ u.2 := by
    have hmem := hranked.first.1
    rw [samples_concat] at hmem
    rcases List.mem_append.mp hmem with hmem | hmem
    · exact h.follows.time _ hmem
    · rw [List.mem_singleton.mp hmem]
  have hnot := mt (olderThan_iff ⟨u.1, u.2, updates.length⟩ hlt hle).mpr
    (Bool.eq_false_iff.mp hrecent)
  dsimp only at hnot
  omega

theorem trusted_iff (h : Rounds (updates ++ [u])) :
    Trusted windowLength zeroValue updates u ↔
      (updates ≠ [] → ¬ZeroBest windowLength zeroValue updates u) := by
  have hranked := run_ranked windowLength zeroValue h (by simp)
  have hone (hne : updates ≠ []) :
      ((after windowLength zeroValue (updates ++ [u])).getBest <
          (after windowLength zeroValue updates).getBest →
        (after windowLength zeroValue updates).first.time + windowLength < u.2) ↔
      ¬ZeroBest windowLength zeroValue updates u := by
    have hbefore := run_ranked windowLength zeroValue
      h.of_append hne
    have hle := h.follows.time _ hbefore.first.1
    obtain ⟨hwindow, hzero⟩ := after_config windowLength zeroValue updates
    have hold : olderThan (after windowLength zeroValue updates).first windowLength u.2 = true ↔
        (after windowLength zeroValue updates).first.time + windowLength < u.2 := by
      rw [olderThan_iff ⟨u.1, u.2, updates.length⟩ h.follows.lt hle]
      dsimp only at hle ⊢
      omega
    have hiff := hbefore.decreases_iff h.follows
    rw [← after_concat, hwindow, hzero, hold, ← Bool.not_eq_true, hold, Nat.not_lt] at hiff
    refine hiff.trans (not_congr ?_)
    rw [ZeroBest]
    refine and_congr_right fun hbest => ?_
    rw [hbest]
  constructor
  · intro htrusted hne
    exact (hone hne).mp (htrusted.decreases hne)
  · intro hnot
    exact ⟨hranked, run_recent h, fun hne => (hone hne).mpr (hnot hne)⟩

/-- **BBR's filter** can be trusted at every update exactly if no update finds the zero value as a
best that has not expired and brings a smaller sample. -/
theorem run_trusted_iff (windowLength zeroValue : Nat) (h : Rounds updates) :
    (∀ done u rest, updates = done ++ u :: rest → Trusted windowLength zeroValue done u) ↔
      ∀ done u rest, updates = done ++ u :: rest → done ≠ [] →
        ¬ZeroBest windowLength zeroValue done u := by
  have hstep (done : List (Nat × Nat)) (u : Nat × Nat) (rest : List (Nat × Nat))
      (hsplit : updates = done ++ u :: rest) :
      Trusted windowLength zeroValue done u ↔
        (done ≠ [] → ¬ZeroBest windowLength zeroValue done u) := by
    have hrounds : Rounds ((done ++ [u]) ++ rest) := by
      rw [List.append_assoc]
      exact hsplit ▸ h
    exact trusted_iff hrounds.of_append
  exact ⟨fun hall done u rest hsplit => (hstep done u rest hsplit).mp (hall done u rest hsplit),
    fun hall done u rest hsplit => (hstep done u rest hsplit).mpr (hall done u rest hsplit)⟩

end

/-- Three rounds with falling bit rates, none of them the zero value. -/
theorem falling_trusted :
    Trusted 10 1000 [] (900, 1) ∧ Trusted 10 1000 [(900, 1)] (800, 2) ∧
      Trusted 10 1000 [(900, 1), (800, 2)] (700, 3) := by
  have hall : ∀ done u rest,
      [(900, 1), (800, 2), (700, 3)] = done ++ u :: rest → Trusted 10 1000 done u := by
    refine (run_trusted_iff 10 1000 ⟨by decide, by decide, by decide⟩).mpr ?_
    intro done u rest hsplit hne hzero
    have hcases : done = [(900, 1)] ∨ done = [(900, 1), (800, 2)] := by
      rcases done with _ | ⟨a, _ | ⟨b, _ | ⟨c, done⟩⟩⟩ <;> simp_all
    rcases hcases with rfl | rfl
    · exact absurd hzero.1 (by decide)
    · exact absurd hzero.1 (by decide)
  exact ⟨hall _ _ _ rfl, hall [_] _ _ rfl, hall [_, _] _ _ rfl⟩

/-- The first sample is as large as the zero value, and is dropped for a tenth of it one round
later. -/
theorem zero_best_dropped :
    (after 10 1000 [(1000, 1)]).getBest = 1000 ∧
      (after 10 1000 [(1000, 1), (100, 2)]).getBest = 100 ∧
      ¬Trusted 10 1000 [(1000, 1)] (100, 2) := by
  refine ⟨by decide, by decide, fun h => ?_⟩
  exact absurd (h.decreases (by decide) (by decide)) (by decide)

end WindowedFilter

end Ns3
