/-
  Where the calendar queue keeps events, and how it finds them.

  A year is the time of one bucket.  Every event is in the bucket of its year, and no event
  is in a year before the current one.  The search goes through the years, one bucket each,
  until it finds an event in the year of its bucket; after a whole round it falls back to
  the smallest event that it has seen.  The top of a bucket may overflow, but then no event
  is left in this year or after it.
-/
import Ns3.Core.CalendarScheduler
import Mathlib.Tactic.Ring

namespace Ns3.CalendarScheduler

open Ns3.Lib

variable {s t : CalendarScheduler} {L : List Event} {b bucket : List Event} {ev next e : Event}
  {i k : Nat}

/-! ## Buckets -/

def before (s : CalendarScheduler) (a b : Event) : Prop :=
  if s.reverse then b.rank ≤ a.rank else a.rank ≤ b.rank

theorem before_reverse (h : s.reverse = true) {a b : Event} : s.before a b ↔ b.rank ≤ a.rank := by
  rw [before, if_pos h]

theorem before_forward (h : ¬s.reverse = true) {a b : Event} : s.before a b ↔ a.rank ≤ b.rank := by
  rw [before, if_neg h]

theorem before_trans {a b c : Event} (hab : s.before a b) (hbc : s.before b c) : s.before a c := by
  rw [before] at *
  split at hab
  · rename_i hreverse
    rw [if_pos hreverse] at hbc ⊢
    exact hbc.trans hab
  · rename_i hreverse
    rw [if_neg hreverse] at hbc ⊢
    exact hab.trans hbc

theorem before_total (a b : Event) : s.before a b ∨ s.before b a := by
  rw [before, before]
  split
  · exact le_total _ _
  · exact le_total _ _

def Sorted (s : CalendarScheduler) (bucket : List Event) : Prop := bucket.Pairwise s.before

theorem nextEvent_eq_none : s.nextEvent b = none ↔ b = [] := by
  rw [nextEvent]
  split
  · exact List.getLast?_eq_none_iff
  · exact List.head?_eq_none_iff

theorem nextEvent_spec (hsorted : s.Sorted b) (hnext : s.nextEvent b = some next) :
    (∀ e ∈ b, next.rank ≤ e.rank) ∧ (next :: s.pop b).Perm b ∧ s.Sorted (s.pop b) := by
  rw [nextEvent] at hnext
  rw [pop]
  split at hnext
  · rename_i hreverse
    rw [if_pos hreverse]
    rw [Sorted] at hsorted ⊢
    have hsplit : b.dropLast ++ [next] = b := List.dropLast_append_getLast? next hnext
    have hpair := hsorted
    rw [← hsplit, List.pairwise_append] at hpair
    refine ⟨fun e he => ?_, ?_, hpair.1⟩
    · rw [← hsplit] at he
      rcases List.mem_append.mp he with hin | hin
      · exact (before_reverse hreverse).mp (hpair.2.2 e hin next (List.mem_singleton_self _))
      · rw [List.mem_singleton.mp hin]
    · calc (next :: b.dropLast).Perm (b.dropLast ++ [next]) := (List.perm_append_singleton _ _).symm
        _ |>.Perm b := .of_eq hsplit
  · rename_i hreverse
    rw [if_neg hreverse]
    rw [Sorted] at hsorted ⊢
    obtain ⟨rest, rfl⟩ := List.head?_eq_some_iff.mp hnext
    obtain ⟨hfirst, hrest⟩ := List.pairwise_cons.mp hsorted
    refine ⟨fun e he => ?_, .refl _, hrest⟩
    rcases List.mem_cons.mp he with rfl | hin
    · exact le_refl _
    · exact (before_forward hreverse).mp (hfirst e hin)

theorem order_iff (hne : ev.key.uid ≠ e.key.uid) :
    s.order ev.key e.key = true ↔ s.before ev e := by
  have hgt : ev.key.gt e.key = e.key.lt ev.key := by
    rw [EventKey.gt, EventKey.lt, decide_eq_decide.mpr (eq_comm (a := ev.key.ts))]
  have hrank : ev.rank ≠ e.rank := fun heq => hne (EventKey.uid_eq_of_rank heq)
  rw [order, before]
  split
  · rw [hgt, EventKey.lt_iff]
    exact ⟨le_of_lt, fun hle => lt_of_le_of_ne hle hrank.symm⟩
  · rw [EventKey.lt_iff]
    exact ⟨le_of_lt, fun hle => lt_of_le_of_ne hle hrank⟩

theorem insertLoop_spec (hsorted : s.Sorted b) (hnew : ev.key.uid ∉ uids b) :
    (s.insertLoop ev b).Perm (ev :: b) ∧ s.Sorted (s.insertLoop ev b) := by
  induction b with
  | nil => exact ⟨.refl _, List.pairwise_singleton _ _⟩
  | cons i rest ih =>
    obtain ⟨hne, hrest⟩ : ev.key.uid ≠ i.key.uid ∧ ev.key.uid ∉ uids rest := by
      simpa [uids] using hnew
    obtain ⟨hfirst, hsorted'⟩ := List.pairwise_cons.mp hsorted
    rw [insertLoop]
    split
    · rename_i horder
      have hbefore := (order_iff hne).mp horder
      refine ⟨.refl _, List.pairwise_cons.mpr ⟨fun e he => ?_, hsorted⟩⟩
      rcases List.mem_cons.mp he with rfl | hin
      · exact hbefore
      · exact before_trans hbefore (hfirst e hin)
    · rename_i horder
      have hbefore : s.before i ev := by
        rcases before_total (s := s) ev i with h | h
        · exact absurd ((order_iff hne).mpr h) horder
        · exact h
      obtain ⟨hperm, hinserted⟩ := ih hsorted' hrest
      refine ⟨(hperm.cons i).trans (List.Perm.swap _ _ _),
        List.pairwise_cons.mpr ⟨fun e he => ?_, hinserted⟩⟩
      rcases List.mem_cons.mp (hperm.mem_iff.mp he) with rfl | hin
      · exact hbefore
      · exact hfirst e hin

/-! ## The array of buckets -/

theorem flatten_set {buckets : List (List Event)} (hi : buckets[i]? = some b) :
    ∃ rest, buckets.flatten.Perm (b ++ rest) ∧
      ∀ b', (buckets.set i b').flatten.Perm (b' ++ rest) := by
  induction buckets generalizing i with
  | nil => cases hi
  | cons c cs ih =>
    cases i with
    | zero =>
      obtain rfl : c = b := Option.some.inj hi
      exact ⟨cs.flatten, .refl _, fun b' => .refl _⟩
    | succ i =>
      obtain ⟨rest, hperm, hset⟩ := ih hi
      refine ⟨c ++ rest, ?_, fun b' => ?_⟩
      · calc (c ++ cs.flatten).Perm (c ++ (b ++ rest)) := hperm.append_left c
          _ |>.Perm (b ++ (c ++ rest)) := by
            rw [← List.append_assoc, ← List.append_assoc]
            exact List.perm_append_comm.append_right rest
      · calc (c ++ (cs.set i b').flatten).Perm (c ++ (b' ++ rest)) := (hset b').append_left c
          _ |>.Perm (b' ++ (c ++ rest)) := by
            rw [← List.append_assoc, ← List.append_assoc]
            exact List.perm_append_comm.append_right rest

/-- The events of `L` are in the buckets of their years, which are in order. -/
structure Placed (s : CalendarScheduler) (L : List Event) : Prop where
  length : s.buckets.length = s.nBuckets
  nonempty : 0 < s.nBuckets
  width_pos : 0 < s.width
  width_lt : s.width < 2 ^ 64
  perm : s.buckets.flatten.Perm L
  placed : ∀ i b, s.buckets[i]? = some b → ∀ e ∈ b, e.key.ts / s.width % s.nBuckets = i
  sorted : ∀ b ∈ s.buckets, s.Sorted b
  range : ∀ e ∈ L, e.key.ts < 2 ^ 63
  distinct : (uids L).Nodup

namespace Placed

section

variable (h : s.Placed L)

include h

theorem of_perm {L' : List Event} (hperm : L.Perm L') : s.Placed L' :=
  { h with
    perm := h.perm.trans hperm
    range := fun e he => h.range e (hperm.mem_iff.mpr he)
    distinct := (hperm.map _).nodup_iff.mp h.distinct }

theorem hash_eq (ts : Nat) : s.hash ts = .ok (ts / s.width % s.nBuckets) := by
  have hpos := h.width_pos
  have hpos' := h.nonempty
  rw [hash, if_neg (by omega)]

theorem bucketAt_eq (hi : i < s.nBuckets) :
    ∃ b, s.bucketAt i = .ok b ∧ s.buckets[i]? = some b ∧ s.Sorted b := by
  have hlt : i < s.buckets.length := by
    rw [h.length]
    exact hi
  have hget := List.getElem?_eq_getElem hlt
  refine ⟨s.buckets[i], ?_, hget, h.sorted _ (List.getElem_mem hlt)⟩
  rw [bucketAt, hget]

theorem mem_of_bucket (hb : s.buckets[i]? = some b) (he : e ∈ b) : e ∈ L :=
  h.perm.mem_iff.mp (List.mem_flatten.mpr ⟨b, List.mem_of_getElem? hb, he⟩)

theorem mem_bucket (he : e ∈ L) (hb : s.buckets[e.key.ts / s.width % s.nBuckets]? = some b) :
    e ∈ b := by
  obtain ⟨c, hc, hin⟩ := List.mem_flatten.mp (h.perm.mem_iff.mpr he)
  obtain ⟨j, hj⟩ := List.mem_iff_getElem?.mp hc
  have hplace := h.placed j c hj e hin
  rw [hplace, hj] at hb
  exact Option.some.inj hb ▸ hin

theorem replace (hb : s.buckets[i]? = some b) {b' L' : List Event} (hsorted : s.Sorted b')
    (hplaced : ∀ e ∈ b', e.key.ts / s.width % s.nBuckets = i)
    (hperm : ∀ rest, L.Perm (b ++ rest) → (b' ++ rest).Perm L')
    (hrange : ∀ e ∈ L', e.key.ts < 2 ^ 63) (hdistinct : (uids L').Nodup) :
    Placed { s with buckets := s.buckets.set i b' } L' := by
  obtain ⟨rest, hflat, hset⟩ := flatten_set hb
  refine ⟨?_, h.nonempty, h.width_pos, h.width_lt, ?_, ?_, ?_, hrange, hdistinct⟩
  · exact (List.length_set ..).trans h.length
  · exact (hset b').trans (hperm rest (h.perm.symm.trans hflat))
  · intro j c hj
    dsimp only at hj
    rw [List.getElem?_set] at hj
    split at hj
    · rename_i heq
      split at hj
      · cases hj
        rw [← heq]
        exact hplaced
      · cases hj
    · exact h.placed j c hj
  · intro c hc
    rcases List.mem_or_eq_of_mem_set hc with hold | rfl
    · exact h.sorted c hold
    · exact hsorted

theorem doInsert (hnew : ev.key.uid ∉ uids L) (hts : ev.key.ts < 2 ^ 63) :
    ∃ buckets, s.doInsert ev = .ok { s with buckets } ∧
      Placed { s with buckets } (ev :: L) := by
  obtain ⟨b, hb, hget, hsorted⟩ := h.bucketAt_eq (i := ev.key.ts / s.width % s.nBuckets)
    (Nat.mod_lt _ h.nonempty)
  have hnew' : ev.key.uid ∉ uids b := by
    intro hmem
    obtain ⟨e, he, huid⟩ := List.mem_map.mp hmem
    exact hnew (List.mem_map.mpr ⟨e, h.mem_of_bucket hget he, huid⟩)
  obtain ⟨hperm, hsorted'⟩ := insertLoop_spec hsorted hnew'
  refine ⟨s.buckets.set (ev.key.ts / s.width % s.nBuckets) (s.insertLoop ev b), ?_, ?_⟩
  · rw [CalendarScheduler.doInsert, h.hash_eq, ok_bind, hb, ok_bind]
    rfl
  · apply h.replace hget hsorted'
    · intro e he
      rcases List.mem_cons.mp (hperm.mem_iff.mp he) with rfl | hold
      · rfl
      · exact h.placed _ b hget e hold
    · intro rest hrest
      exact (hperm.append_right rest).trans (hrest.symm.cons ev)
    · intro e he
      rcases List.mem_cons.mp he with rfl | hold
      · exact hts
      · exact h.range e hold
    · exact List.nodup_cons.mpr ⟨hnew, h.distinct⟩

theorem pop (hb : s.buckets[i]? = some b) (hnext : s.nextEvent b = some next) :
    Placed { s with buckets := s.buckets.set i (s.pop b) } (L.erase next) := by
  obtain ⟨-, hperm, hsorted⟩ := nextEvent_spec (h.sorted b (List.mem_of_getElem? hb)) hnext
  have hmem : next ∈ L := h.mem_of_bucket hb (hperm.mem_iff.mp (.head _))
  apply h.replace hb hsorted
  · intro e he
    exact h.placed _ b hb e (hperm.mem_iff.mp (.tail _ he))
  · intro rest hrest
    have hcons : (next :: (s.pop b ++ rest)).Perm (next :: L.erase next) :=
      calc (next :: (s.pop b ++ rest)).Perm (b ++ rest) := hperm.append_right rest
        _ |>.Perm L := hrest.symm
        _ |>.Perm (next :: L.erase next) := List.perm_cons_erase hmem
    exact hcons.cons_inv
  · intro e he
    exact h.range e (List.mem_of_mem_erase he)
  · exact h.distinct.sublist (List.erase_sublist.map _)

end

end Placed

/-! ## The current bucket -/

/-- No event is before the time of the event that was removed last, which determines the
current bucket and its top. -/
structure Cursor (s : CalendarScheduler) (L : List Event) : Prop where
  lastPrio_lt : s.lastPrio < 2 ^ 63
  lastBucket : s.lastBucket = s.lastPrio / s.width % s.nBuckets
  bucketTop : s.bucketTop = (s.lastPrio / s.width + 1) * s.width
  le : ∀ e ∈ L, s.lastPrio ≤ e.key.ts

theorem top_lt {ts width y : Nat} (hts : ts < 2 ^ 63) (hwidth : width < 2 ^ 64)
    (hy : y ≤ ts / width) :
    (y + 1) * width < 2 ^ 64 := by
  rcases Nat.eq_zero_or_pos y with rfl | hpos
  · omega
  · have hle : y * width ≤ ts :=
      (Nat.mul_le_mul_right width hy).trans (Nat.div_mul_le_self ts width)
    have hone : 1 * width ≤ y * width := Nat.mul_le_mul_right width hpos
    rw [Nat.add_mul]
    omega

def Finds (s : CalendarScheduler) (L : List Event) : Scan → Prop
  | .found i bucketTop next =>
    next ∈ L ∧ (∀ e ∈ L, next.rank ≤ e.rank) ∧ i = next.key.ts / s.width % s.nBuckets ∧
      bucketTop = (next.key.ts / s.width + 1) * s.width
  | .minimum (some (i, next)) =>
    next ∈ L ∧ (∀ e ∈ L, next.rank ≤ e.rank) ∧ i = next.key.ts / s.width % s.nBuckets
  | .minimum none => L = []

def Smallest (s : CalendarScheduler) (L : List Event) (year k : Nat) (minKey : EventKey) :
    Option (Nat × Event) → Prop
  | some (i, min) =>
    minKey = min.key ∧ min ∈ L ∧ i = min.key.ts / s.width % s.nBuckets ∧
      ∀ e ∈ L, ∀ j < k, e.key.ts / s.width % s.nBuckets = (year + j) % s.nBuckets →
        min.rank ≤ e.rank
  | none =>
    (∀ e ∈ L, e.rank < minKey.rank) ∧
      ∀ e ∈ L, ∀ j < k, e.key.ts / s.width % s.nBuckets ≠ (year + j) % s.nBuckets

section Search

variable {year : Nat} {minKey : EventKey} {min : Option (Nat × Event)}

theorem rank_le_of_year (hyear : next.key.ts / s.width < e.key.ts / s.width) :
    next.rank ≤ e.rank := by
  have hlt : next.key.ts < e.key.ts := by
    by_contra hle
    exact absurd (Nat.div_le_div_right (c := s.width) (Nat.le_of_not_lt hle)) (Nat.not_le.mpr hyear)
  rw [Event.rank, Event.rank, EventKey.rank, EventKey.rank]
  exact (Prod.Lex.toLex_lt_toLex.mpr (.inl hlt)).le

section

variable (h : s.Placed L) (hyear : ∀ e ∈ L, year ≤ e.key.ts / s.width)
  (hb : s.buckets[year % s.nBuckets]? = some b)

include h hyear hb

theorem found_spec (hnext : s.nextEvent b = some next)
    (hlt : next.key.ts < (year + 1) * s.width % 2 ^ 64) :
    s.Finds L (.found (year % s.nBuckets) ((year + 1) * s.width % 2 ^ 64) next) := by
  obtain ⟨hmin, hperm, -⟩ := nextEvent_spec (h.sorted b (List.mem_of_getElem? hb)) hnext
  have hin : next ∈ b := hperm.mem_iff.mp (.head _)
  have hmem := h.mem_of_bucket hb hin
  have htop := top_lt (h.range next hmem) h.width_lt (hyear next hmem)
  rw [Nat.mod_eq_of_lt htop] at hlt ⊢
  have heq : next.key.ts / s.width = year := by
    have hle := hyear next hmem
    have hdiv := (Nat.div_lt_iff_lt_mul h.width_pos).mpr hlt
    omega
  refine ⟨hmem, fun e he => ?_, by rw [heq], by rw [heq]⟩
  rcases Nat.lt_or_ge year (e.key.ts / s.width) with hlater | hsame
  · exact rank_le_of_year (heq.symm ▸ hlater)
  · have hyear' : e.key.ts / s.width = year := Nat.le_antisymm hsame (hyear e he)
    exact hmin e (h.mem_bucket he (by rw [hyear']; exact hb))

theorem later_year
    (hnone : (s.nextEvent b).filter (fun next => next.key.ts < (year + 1) * s.width % 2 ^ 64) =
      none) :
    ∀ e ∈ L, year + 1 ≤ e.key.ts / s.width := by
  intro e he
  by_contra hnot
  have heq : e.key.ts / s.width = year := by
    have hle := hyear e he
    omega
  have hin : e ∈ b := h.mem_bucket he (by rw [heq]; exact hb)
  cases hnext : s.nextEvent b with
  | none =>
    rw [nextEvent_eq_none.mp hnext] at hin
    cases hin
  | some next =>
    obtain ⟨hmin, hperm, -⟩ := nextEvent_spec (h.sorted b (List.mem_of_getElem? hb)) hnext
    rw [hnext, Option.filter_some] at hnone
    have htop := top_lt (h.range e he) h.width_lt (hyear e he)
    rw [Nat.mod_eq_of_lt htop] at hnone
    have hts : next.key.ts ≤ e.key.ts := by
      have hrank := hmin e hin
      rw [Event.rank, Event.rank, EventKey.rank, EventKey.rank, Prod.Lex.toLex_le_toLex] at hrank
      dsimp only at hrank
      omega
    have hbelow : e.key.ts < (year + 1) * s.width :=
      (Nat.div_lt_iff_lt_mul h.width_pos).mp (by omega)
    rw [if_pos (decide_eq_true (by omega))] at hnone
    cases hnone

end

theorem Smallest.step (h : s.Placed L) (hsmallest : s.Smallest L year k minKey min)
    (hb : s.buckets[(year + k) % s.nBuckets]? = some b) :
    s.Smallest L year (k + 1) (smaller ((year + k) % s.nBuckets) (s.nextEvent b) minKey min).1
      (smaller ((year + k) % s.nBuckets) (s.nextEvent b) minKey min).2 := by
  have hsorted := h.sorted b (List.mem_of_getElem? hb)
  cases hnext : s.nextEvent b with
  | none =>
    have hempty : ∀ e ∈ L, e.key.ts / s.width % s.nBuckets ≠ (year + k) % s.nBuckets := by
      intro e he heq
      have hin : e ∈ b := h.mem_bucket he (by rw [heq]; exact hb)
      rw [nextEvent_eq_none.mp hnext] at hin
      cases hin
    rw [smaller]
    rcases min with _ | ⟨i, min⟩
    · obtain ⟨hkey, hseen⟩ := hsmallest
      refine ⟨hkey, fun e he j hj => ?_⟩
      rcases Nat.lt_succ_iff_lt_or_eq.mp hj with hlt | rfl
      · exact hseen e he j hlt
      · exact hempty e he
    · obtain ⟨hkey, hmem, hi, hseen⟩ := hsmallest
      refine ⟨hkey, hmem, hi, fun e he j hj heq => ?_⟩
      rcases Nat.lt_succ_iff_lt_or_eq.mp hj with hlt | rfl
      · exact hseen e he j hlt heq
      · exact absurd heq (hempty e he)
  | some next =>
    obtain ⟨hmin, hperm, -⟩ := nextEvent_spec hsorted hnext
    have hin : next ∈ b := hperm.mem_iff.mp (.head _)
    have hmem := h.mem_of_bucket hb hin
    have hplace := h.placed _ b hb next hin
    have hbucket : ∀ e ∈ L, e.key.ts / s.width % s.nBuckets = (year + k) % s.nBuckets →
        next.rank ≤ e.rank := fun e he heq => hmin e (h.mem_bucket he (by rw [heq]; exact hb))
    rw [smaller]
    split
    · rename_i hless
      rw [EventKey.lt_iff] at hless
      refine ⟨rfl, hmem, hplace.symm, fun e he j hj heq => ?_⟩
      rcases Nat.lt_succ_iff_lt_or_eq.mp hj with hlt | rfl
      · rcases min with _ | ⟨i, min⟩
        · exact absurd heq (hsmallest.2 e he j hlt)
        · obtain ⟨rfl, -, -, hseen⟩ := hsmallest
          exact hless.le.trans (hseen e he j hlt heq)
      · exact hbucket e he heq
    · rename_i hnot
      rw [EventKey.lt_iff, not_lt] at hnot
      rcases min with _ | ⟨i, min⟩
      · exact absurd (hsmallest.1 next hmem) (not_lt.mpr hnot)
      · obtain ⟨rfl, hmem', hi, hseen⟩ := hsmallest
        refine ⟨rfl, hmem', hi, fun e he j hj heq => ?_⟩
        rcases Nat.lt_succ_iff_lt_or_eq.mp hj with hlt | rfl
        · exact hseen e he j hlt heq
        · exact hnot.trans (hbucket e he heq)

theorem Smallest.finds (h : s.Placed L) (hyear : ∀ e ∈ L, year ≤ e.key.ts / s.width)
    (hsmallest : s.Smallest L year s.nBuckets minKey min) : s.Finds L (.minimum min) := by
  have hround : ∀ e ∈ L, ∃ j < s.nBuckets,
      e.key.ts / s.width % s.nBuckets = (year + j) % s.nBuckets := by
    intro e he
    refine ⟨(e.key.ts / s.width - year) % s.nBuckets, Nat.mod_lt _ h.nonempty, ?_⟩
    rw [Nat.add_mod_mod, Nat.add_sub_cancel' (hyear e he)]
  rcases min with _ | ⟨i, min⟩
  · apply List.eq_nil_iff_forall_not_mem.mpr
    intro e he
    obtain ⟨j, hj, heq⟩ := hround e he
    exact hsmallest.2 e he j hj heq
  · obtain ⟨-, hmem, hi, hseen⟩ := hsmallest
    refine ⟨hmem, fun e he => ?_, hi⟩
    obtain ⟨j, hj, heq⟩ := hround e he
    exact hseen e he j hj heq

theorem scanLoop_round (h : s.Placed L) (hyear : ∀ e ∈ L, year + k ≤ e.key.ts / s.width)
    (hsmallest : s.Smallest L year k minKey min) (fuel : Nat) :
    (∃ found, s.scanLoop (fuel + 1) ((year + k) % s.nBuckets)
        ((year + k + 1) * s.width % 2 ^ 64) minKey min = .ok found ∧ s.Finds L found) ∨
      ∃ minKey' min', s.scanLoop (fuel + 1) ((year + k) % s.nBuckets)
          ((year + k + 1) * s.width % 2 ^ 64) minKey min =
          (if (year + (k + 1)) % s.nBuckets ≠ s.lastBucket then
            s.scanLoop fuel ((year + (k + 1)) % s.nBuckets)
              ((year + (k + 1) + 1) * s.width % 2 ^ 64) minKey' min'
          else .ok (.minimum min')) ∧
        s.Smallest L year (k + 1) minKey' min' ∧
        ∀ e ∈ L, year + (k + 1) ≤ e.key.ts / s.width := by
  obtain ⟨b, hb, hget, -⟩ := h.bucketAt_eq (i := (year + k) % s.nBuckets) (Nat.mod_lt _ h.nonempty)
  cases hfilter : (s.nextEvent b).filter
      fun next => next.key.ts < (year + k + 1) * s.width % 2 ^ 64 with
  | some next =>
    left
    obtain ⟨hnext, hlt⟩ := Option.filter_eq_some_iff.mp hfilter
    refine ⟨_, ?_, found_spec h hyear hget hnext (of_decide_eq_true hlt)⟩
    rw [scanLoop, hb, ok_bind, hfilter]
    rfl
  | none =>
    right
    refine ⟨_, _, ?_, hsmallest.step h hget, later_year h hyear hget hfilter⟩
    have hindex : ((year + k) % s.nBuckets + 1) % s.nBuckets = (year + (k + 1)) % s.nBuckets :=
      Nat.mod_add_mod _ _ _
    have htop : wadd 64 ((year + k + 1) * s.width % 2 ^ 64) s.width =
        (year + (k + 1) + 1) * s.width % 2 ^ 64 := by
      rw [wadd, Nat.mod_add_mod]
      congr 1
      ring
    rw [scanLoop, hb, ok_bind, hfilter]
    dsimp only
    rw [hindex, htop]
    rfl

theorem scanLoop_spec (h : s.Placed L) (hlast : s.lastBucket = year % s.nBuckets) {fuel : Nat}
    (hfuel : k + (fuel + 1) = s.nBuckets) (hyear : ∀ e ∈ L, year + k ≤ e.key.ts / s.width)
    (hsmallest : s.Smallest L year k minKey min) :
    ∃ found, s.scanLoop (fuel + 1) ((year + k) % s.nBuckets) ((year + k + 1) * s.width % 2 ^ 64)
        minKey min = .ok found ∧ s.Finds L found := by
  induction fuel generalizing k minKey min with
  | zero =>
    rcases scanLoop_round h hyear hsmallest 0 with hfound | ⟨minKey', min', hloop, hsmallest', -⟩
    · exact hfound
    · have hall : k + 1 = s.nBuckets := hfuel
      rw [hall] at hsmallest' hloop
      rw [if_neg (by rw [hlast, Nat.add_mod_right]; exact not_not.mpr rfl)] at hloop
      exact ⟨_, hloop, hsmallest'.finds h fun e he => Nat.le_of_add_right_le (hyear e he)⟩
  | succ fuel ih =>
    rcases scanLoop_round h hyear hsmallest (fuel + 1) with
      hfound | ⟨minKey', min', hloop, hsmallest', hyear'⟩
    · exact hfound
    · have hmore : (year + (k + 1)) % s.nBuckets ≠ s.lastBucket := by
        rw [hlast]
        intro heq
        have hmod : (k + 1) % s.nBuckets = 0 := by
          have hsub := Nat.sub_mod_eq_zero_of_mod_eq heq
          rwa [Nat.add_sub_cancel_left] at hsub
        rw [Nat.mod_eq_of_lt (by omega)] at hmod
        exact absurd hmod (Nat.succ_ne_zero k)
      rw [if_pos hmore] at hloop
      rw [hloop]
      exact ih (by omega) hyear' hsmallest'

theorem scan_spec (h : s.Placed L) (hcursor : s.Cursor L) (hkey : ∀ e ∈ L, e.rank < minKey.rank) :
    ∃ found, s.scan minKey = .ok found ∧ s.Finds L found := by
  have hyear : ∀ e ∈ L, s.lastPrio / s.width + 0 ≤ e.key.ts / s.width := fun e he =>
    Nat.div_le_div_right (hcursor.le e he)
  have hnone : s.Smallest L (s.lastPrio / s.width) 0 minKey none :=
    ⟨hkey, fun _ _ j hj => absurd hj (Nat.not_lt_zero j)⟩
  obtain ⟨fuel, hfuel⟩ := Nat.exists_eq_add_one.mpr h.nonempty
  have htop : (s.lastPrio / s.width + 0 + 1) * s.width % 2 ^ 64 = s.bucketTop := by
    rw [Nat.add_zero, Nat.mod_eq_of_lt (top_lt hcursor.lastPrio_lt h.width_lt (le_refl _)),
      hcursor.bucketTop]
  obtain ⟨found, hloop, hfinds⟩ := scanLoop_spec h hcursor.lastBucket
    (show 0 + (fuel + 1) = s.nBuckets by omega) hyear hnone
  rw [htop, Nat.add_zero (s.lastPrio / s.width), ← hcursor.lastBucket, ← hfuel] at hloop
  exact ⟨found, hloop, hfinds⟩

end Search

end Ns3.CalendarScheduler
