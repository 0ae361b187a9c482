/-
  The calendar queue and the sorted list.

  Every call keeps the events in the buckets of their years and the current bucket at the
  time of the event that was removed last.  A resize takes some events out and puts them
  back, and then puts all of them into new buckets; neither changes which events are stored.
  The simulator never schedules an event before the one it is running, and so takes the same
  steps over the queue and over the list.
-/
import Ns3.Core.CalendarOrder
import Ns3.Core.EventOrder
import Mathlib.Data.Finset.Card
import Mathlib.Order.Interval.Finset.Nat

namespace Ns3

open Ns3.Lib

namespace CalendarScheduler

variable {s s' t : CalendarScheduler} {L : List Event} {l : SortedEvents} {ev next e : Event}
  {calls : List SchedulerCall} {call : SchedulerCall}

/-! ## Taking the smallest event -/

section

variable (h : s.Placed L)

include h

theorem Placed.nextEvent_of_min (hmem : next ∈ L) (hmin : ∀ e ∈ L, next.rank ≤ e.rank) :
    ∃ b, s.bucketAt (next.key.ts / s.width % s.nBuckets) = .ok b ∧
      s.buckets[next.key.ts / s.width % s.nBuckets]? = some b ∧ s.nextEvent b = some next := by
  obtain ⟨b, hb, hget, hsorted⟩ := h.bucketAt_eq (Nat.mod_lt (next.key.ts / s.width) h.nonempty)
  refine ⟨b, hb, hget, ?_⟩
  have hin := h.mem_bucket hmem hget
  cases hnext : s.nextEvent b with
  | none =>
    rw [nextEvent_eq_none.mp hnext] at hin
    cases hin
  | some first =>
    obtain ⟨hfirst, hperm, -⟩ := nextEvent_spec hsorted hnext
    have hfirstmem := h.mem_of_bucket hget (hperm.mem_iff.mp (.head _))
    have hrank : first.rank = next.rank := le_antisymm (hfirst next hin) (hmin first hfirstmem)
    exact congrArg some (List.inj_on_of_nodup_map h.distinct hfirstmem hmem
      (EventKey.uid_eq_of_rank hrank))

theorem Cursor.moved (hmem : next ∈ L) (hmin : ∀ e ∈ L, next.rank ≤ e.rank)
    (buckets : List (List Event)) :
    Cursor { s with
      buckets, lastBucket := next.key.ts / s.width % s.nBuckets
      bucketTop := (next.key.ts / s.width + 1) * s.width
      lastPrio := next.key.ts } (L.erase next) := by
  refine ⟨h.range next hmem, rfl, rfl, fun e he => ?_⟩
  have hrank := hmin e (List.mem_of_mem_erase he)
  rw [Event.rank, Event.rank, EventKey.rank, EventKey.rank, Prod.Lex.toLex_le_toLex] at hrank
  dsimp only at hrank ⊢
  omega

theorem Placed.rank_lt (uid context : Nat) :
    ∀ e ∈ L, e.rank < ({ ts := 2 ^ 64 - 1, uid, context } : EventKey).rank := by
  intro e he
  have hrange := h.range e he
  apply Prod.Lex.toLex_lt_toLex.mpr
  left
  dsimp only
  omega

theorem scan_min (hcursor : s.Cursor L) (uid context : Nat) (hmem : next ∈ L)
    (hmin : ∀ e ∈ L, next.rank ≤ e.rank) :
    s.scan { ts := 2 ^ 64 - 1, uid, context } =
        .ok (.found (next.key.ts / s.width % s.nBuckets) ((next.key.ts / s.width + 1) * s.width)
          next) ∨
      s.scan { ts := 2 ^ 64 - 1, uid, context } =
        .ok (.minimum (some (next.key.ts / s.width % s.nBuckets, next))) := by
  obtain ⟨found, hscan, hfinds⟩ := scan_spec h hcursor (h.rank_lt uid context)
  have hsame : ∀ first, first ∈ L → (∀ e ∈ L, first.rank ≤ e.rank) → first = next := by
    intro first hfirst hleast
    exact List.inj_on_of_nodup_map h.distinct hfirst hmem
      (EventKey.uid_eq_of_rank (le_antisymm (hleast next hmem) (hmin first hfirst)))
  cases found with
  | found i bucketTop first =>
    obtain ⟨hfirst, hleast, rfl, rfl⟩ := hfinds
    obtain rfl := hsame first hfirst hleast
    exact .inl hscan
  | minimum min =>
    rcases min with _ | ⟨i, first⟩
    · rw [Finds] at hfinds
      rw [hfinds] at hmem
      cases hmem
    · obtain ⟨hfirst, hleast, rfl⟩ := hfinds
      obtain rfl := hsame first hfirst hleast
      exact .inr hscan

section

variable (hcursor : s.Cursor L) (hq : s.isEmpty = false) (hmem : next ∈ L)
  (hmin : ∀ e ∈ L, next.rank ≤ e.rank)

include hcursor hq hmem hmin

theorem peekNext_spec : s.peekNext = .ok next := by
  rw [peekNext, hq]
  dsimp only
  rcases scan_min h hcursor (2 ^ 32 - 1) 0 hmem hmin with hscan | hscan
  · rw [hscan]
    rfl
  · rw [hscan]
    rfl

theorem doRemoveNext_spec :
    ∃ buckets lastBucket bucketTop,
      s.doRemoveNext = .ok (next, { s with
        buckets, lastBucket, bucketTop, lastPrio := next.key.ts }) ∧
      Placed { s with
        buckets, lastBucket, bucketTop, lastPrio := next.key.ts } (L.erase next) ∧
      Cursor { s with
        buckets, lastBucket, bucketTop, lastPrio := next.key.ts } (L.erase next) := by
  obtain ⟨b, hb, hget, hnext⟩ := h.nextEvent_of_min hmem hmin
  have hplaced := h.pop hget hnext
  have htop : (next.key.ts / s.width + 1) * s.width % 2 ^ 64 =
      (next.key.ts / s.width + 1) * s.width :=
    Nat.mod_eq_of_lt (top_lt (h.range next hmem) h.width_lt (le_refl _))
  refine ⟨_, next.key.ts / s.width % s.nBuckets, (next.key.ts / s.width + 1) * s.width, ?_,
    { hplaced with }, Cursor.moved h hmem hmin _⟩
  have hassert : nsAssert (!false) = .ok () := rfl
  rw [doRemoveNext, hq, hassert, ok_bind]
  rcases scan_min h hcursor 0 0xffffffff hmem hmin with hscan | hscan
  · rw [hscan, ok_bind]
    dsimp only
    rw [hb]
    rfl
  · rw [hscan, ok_bind]
    dsimp only
    rw [h.hash_eq, ok_bind, hb, ok_bind, hnext, htop]
    rfl

end

end

/-! ## Resizing -/

theorem exists_min (hne : L ≠ []) : ∃ next ∈ L, ∀ e ∈ L, next.rank ≤ e.rank := by
  induction L with
  | nil => exact absurd rfl hne
  | cons a L ih =>
    rcases L with _ | ⟨c, L⟩
    · exact ⟨a, .head _, fun e he => by rw [List.mem_singleton.mp he]⟩
    · obtain ⟨next, hmem, hmin⟩ := ih (List.cons_ne_nil c L)
      rcases le_total a.rank next.rank with hle | hle
      · refine ⟨a, .head _, fun e he => ?_⟩
        rcases List.mem_cons.mp he with rfl | hin
        · exact le_refl _
        · exact hle.trans (hmin e hin)
      · refine ⟨next, List.mem_cons_of_mem _ hmem, fun e he => ?_⟩
        rcases List.mem_cons.mp he with rfl | hin
        · exact hle
        · exact hmin e hin

theorem gather_spec (h : s.Placed L) (hcursor : s.Cursor L) (hq : s.isEmpty = false) {n : Nat}
    (hn : n ≤ L.length) :
    ∃ samples rest buckets lastBucket bucketTop lastPrio,
      gather n s = .ok (samples, { s with
        buckets, lastBucket, bucketTop, lastPrio }) ∧
      L.Perm (samples ++ rest) ∧
      Placed { s with
        buckets, lastBucket, bucketTop, lastPrio } rest := by
  induction n generalizing s L with
  | zero => exact ⟨[], L, _, _, _, _, rfl, .refl _, h⟩
  | succ n ih =>
    have hne : L ≠ [] := by
      rintro rfl
      cases hn
    obtain ⟨next, hmem, hmin⟩ := exists_min hne
    obtain ⟨buckets, lastBucket, bucketTop, hremove, hplaced, hcursor'⟩ :=
      doRemoveNext_spec h hcursor hq hmem hmin
    have hlength : n ≤ (L.erase next).length := by
      rw [List.length_erase_of_mem hmem]
      omega
    obtain ⟨samples, rest, _, _, _, _, hgather, hperm, hplaced'⟩ := ih hplaced hcursor' hq hlength
    refine ⟨next :: samples, rest, _, _, _, _, ?_, ?_, hplaced'⟩
    · rw [gather, hremove, ok_bind]
      dsimp only
      rw [hgather]
      rfl
    · exact (List.perm_cons_erase hmem).trans (hperm.cons next)

theorem insertAll_spec (evs : List Event) (h : s.Placed L) (hnew : (uids (evs ++ L)).Nodup)
    (hrange : ∀ e ∈ evs, e.key.ts < 2 ^ 63) :
    ∃ buckets, insertAll evs s = .ok { s with buckets } ∧
      Placed { s with buckets } (evs ++ L) := by
  induction evs generalizing s L with
  | nil => exact ⟨_, rfl, h⟩
  | cons ev evs ih =>
    have hperm : (ev :: evs ++ L).Perm (evs ++ ev :: L) := List.perm_middle.symm
    have hnew' : ev.key.uid ∉ uids L := by
      have hnot := (List.nodup_cons.mp hnew).1
      intro hmem
      apply hnot
      obtain ⟨e, he, huid⟩ := List.mem_map.mp hmem
      exact List.mem_map.mpr ⟨e, List.mem_append_right _ he, huid⟩
    obtain ⟨buckets, hinsert, hplaced⟩ := h.doInsert hnew' (hrange ev (.head _))
    obtain ⟨buckets', hall, hplaced'⟩ := ih hplaced ((hperm.map _).nodup_iff.mp hnew)
      fun e he => hrange e (.tail _ he)
    refine ⟨buckets', ?_, hplaced'.of_perm hperm.symm⟩
    rw [insertAll, hinsert, ok_bind]
    exact hall

theorem widthOf_range (n : Nat) (samples : List Event) :
    0 < widthOf n samples ∧ widthOf n samples < 2 ^ 64 := by
  rw [widthOf]
  constructor
  · exact Nat.one_pos.trans_le (Nat.le_max_right _ _)
  · exact Nat.max_lt.mpr ⟨Nat.mod_lt _ (Nat.two_pow_pos 64), by decide⟩

theorem calculateNewWidth_spec (h : s.Placed L) (hcursor : s.Cursor L) (hq : s.qSize = L.length) :
    ∃ width buckets, s.calculateNewWidth = .ok (width, { s with buckets }) ∧
      0 < width ∧ width < 2 ^ 64 ∧ Placed { s with buckets } L := by
  rw [calculateNewWidth]
  split
  · exact ⟨1, s.buckets, rfl, by decide, by decide, h⟩
  · rename_i hmany
    have hempty : s.isEmpty = false := decide_eq_false (by omega)
    have hn : s.nSamples ≤ L.length := by
      rw [nSamples, ← hq]
      have hle : Nat.min 25 (if s.qSize ≤ 5 then s.qSize else 5 + s.qSize / 10) ≤
          if s.qSize ≤ 5 then s.qSize else 5 + s.qSize / 10 := Nat.min_le_right _ _
      refine hle.trans ?_
      split
      · exact le_refl _
      · omega
    obtain ⟨samples, rest, buckets, lastBucket, bucketTop, lastPrio, hgather, hperm, hplaced⟩ :=
      gather_spec h hcursor hempty hn
    obtain ⟨buckets', hinsert, hplaced'⟩ := insertAll_spec samples hplaced
      ((hperm.map _).nodup_iff.mp h.distinct)
      fun e he => h.range e (hperm.mem_iff.mpr (List.mem_append_left _ he))
    obtain ⟨hpos, hlt⟩ := widthOf_range s.nSamples samples
    refine ⟨widthOf s.nSamples samples, buckets', ?_, hpos, hlt, ?_⟩
    · rw [hgather, ok_bind]
      dsimp only
      rw [hinsert]
      rfl
    · exact { hplaced'.of_perm hperm.symm with }

theorem doResize_spec (h : s.Placed L) (hcursor : s.Cursor L) {newSize newWidth : Nat}
    (hsize : 0 < newSize) (hpos : 0 < newWidth) (hlt : newWidth < 2 ^ 64) :
    ∃ t, s.doResize newSize newWidth = .ok t ∧ t.Placed L ∧ t.Cursor L ∧ t.qSize = s.qSize ∧
      t.lastPrio = s.lastPrio ∧ t.nBuckets = newSize := by
  let t : CalendarScheduler := { s with
    buckets := List.replicate newSize []
    nBuckets := newSize
    width := newWidth
    lastBucket := s.lastPrio / newWidth % newSize
    bucketTop := (s.lastPrio / newWidth + 1) * newWidth % 2 ^ 64 }
  have hinit : s.init newSize newWidth s.lastPrio = .ok t := by
    rw [init, hash, if_neg (by dsimp only; omega)]
    rfl
  have hempty : t.Placed [] := by
    refine ⟨List.length_replicate, hsize, hpos, hlt, ?_, ?_, ?_, ?_, .nil⟩
    · exact .of_eq (List.flatten_replicate_nil)
    · intro i b hb e he
      rw [List.eq_of_mem_replicate (List.mem_of_getElem? hb)] at he
      cases he
    · intro b hb
      rw [List.eq_of_mem_replicate hb]
      exact .nil
    · exact List.forall_mem_nil _
  obtain ⟨buckets, hinsert, hplaced⟩ := insertAll_spec s.buckets.flatten hempty
    (by rw [List.append_nil]; exact (h.perm.map _).nodup_iff.mpr h.distinct)
    fun e he => h.range e (h.perm.mem_iff.mp he)
  rw [List.append_nil] at hplaced
  refine ⟨{ t with buckets }, ?_, hplaced.of_perm h.perm, ?_, rfl, rfl, rfl⟩
  · rw [doResize, hinit]
    exact hinsert
  · exact ⟨hcursor.lastPrio_lt, rfl,
      Nat.mod_eq_of_lt (top_lt hcursor.lastPrio_lt hlt (le_refl _)), hcursor.le⟩

/-! ## The queue -/

/-- The queue stores the events of `l`, and removed the last one at time `now`. -/
structure Stores (s : CalendarScheduler) (l : SortedEvents) (now : Nat) : Prop where
  placed : s.Placed l.events
  cursor : s.Cursor l.events
  qSize : s.qSize = l.events.length
  now_eq : s.lastPrio = now
  /-- the uids are those that the simulator gives events -/
  valid : ∀ e ∈ l.events, EventId.VALID ≤ e.key.uid ∧ e.key.uid < 2 ^ 32

variable {now : Nat}

theorem length_lt (hdistinct : (uids L).Nodup)
    (hvalid : ∀ e ∈ L, EventId.VALID ≤ e.key.uid ∧ e.key.uid < 2 ^ 32) : L.length + 1 < 2 ^ 32 := by
  have hsub : (uids L).toFinset ⊆ Finset.Ico EventId.VALID (2 ^ 32) := by
    intro uid huid
    obtain ⟨e, he, rfl⟩ := List.mem_map.mp (List.mem_toFinset.mp huid)
    exact Finset.mem_Ico.mpr (hvalid e he)
  have hcard := Finset.card_le_card hsub
  rw [List.toFinset_card_of_nodup hdistinct, Nat.card_Ico, uids, List.length_map] at hcard
  dsimp only [EventId.VALID] at hcard
  omega

theorem Stores.isEmpty_iff (h : s.Stores l now) : s.isEmpty = true ↔ l.events = [] := by
  rw [isEmpty, decide_eq_true_iff, h.qSize, List.length_eq_zero_iff]

section

variable (hplaced : s.Placed L) (hcursor : s.Cursor L) (hq : s.qSize = L.length)

include hplaced hcursor hq

theorem resize_spec {newSize : Nat} (hsize : 0 < newSize) :
    ∃ t, s.resize newSize = .ok t ∧ t.Placed L ∧ t.Cursor L ∧ t.qSize = s.qSize ∧
      t.lastPrio = s.lastPrio := by
  obtain ⟨width, buckets, hwidth, hpos, hlt, hplaced'⟩ := calculateNewWidth_spec hplaced hcursor hq
  have hcursor' : Cursor { s with buckets } L := { hcursor with }
  obtain ⟨t, hresize, ht, ht', hq', hprio, -⟩ := doResize_spec hplaced' hcursor' hsize hpos hlt
  refine ⟨t, ?_, ht, ht', hq', hprio⟩
  rw [resize, hwidth, ok_bind]
  exact hresize

theorem resizeUp_spec :
    ∃ t, s.resizeUp = .ok t ∧ t.Placed L ∧ t.Cursor L ∧ t.qSize = s.qSize ∧
      t.lastPrio = s.lastPrio := by
  rw [resizeUp]
  split
  · exact resize_spec hplaced hcursor hq (Nat.mul_pos hplaced.nonempty Nat.two_pos)
  · exact ⟨s, rfl, hplaced, hcursor, rfl, rfl⟩

theorem resizeDown_spec :
    ∃ t, s.resizeDown = .ok t ∧ t.Placed L ∧ t.Cursor L ∧ t.qSize = s.qSize ∧
      t.lastPrio = s.lastPrio := by
  rw [resizeDown]
  split
  · rename_i hfew
    exact resize_spec hplaced hcursor hq (Nat.zero_lt_of_lt hfew)
  · exact ⟨s, rfl, hplaced, hcursor, rfl, rfl⟩

end

theorem Placed.with_qSize (h : s.Placed L) (qSize : Nat) : Placed { s with qSize } L :=
  { h with }

theorem Cursor.with_qSize (h : s.Cursor L) (qSize : Nat) : Cursor { s with qSize } L :=
  { h with }

theorem Cursor.of_perm (h : s.Cursor L) {L' : List Event} (hperm : L.Perm L') : s.Cursor L' :=
  { h with le := fun e he => h.le e (hperm.mem_iff.mpr he) }

section

variable (h : s.Stores l now)

include h

theorem insert_spec (hnew : ev.key.uid ∉ uids l.events)
    (hvalid : EventId.VALID ≤ ev.key.uid ∧ ev.key.uid < 2 ^ 32) (hnow : now ≤ ev.key.ts)
    (hts : ev.key.ts < 2 ^ 63) : ∃ t, s.insert ev = .ok t ∧ t.Stores (l.insert ev hnew) now := by
  obtain ⟨buckets, hinsert, hplaced⟩ := h.placed.doInsert hnew hts
  have hlength := length_lt h.placed.distinct h.valid
  have hq : wadd 32 s.qSize 1 = (ev :: l.events).length := by
    rw [h.qSize, List.length_cons]
    exact wadd_eq (by omega)
  have hcursor :
      Cursor { s with buckets, qSize := wadd 32 s.qSize 1 } (ev :: l.events) := by
    refine { h.cursor with le := fun e he => ?_ }
    rcases List.mem_cons.mp he with rfl | hold
    · exact h.now_eq.le.trans hnow
    · exact h.cursor.le e hold
  have hplaced' :
      Placed { s with buckets, qSize := wadd 32 s.qSize 1 } (ev :: l.events) :=
    hplaced.with_qSize _
  obtain ⟨t, hresize, ht, ht', hq', hprio⟩ := resizeUp_spec hplaced' hcursor hq
  have hperm := (l.events_insert_perm hnew).symm
  refine ⟨t, ?_, ht.of_perm hperm, ht'.of_perm hperm, ?_, hprio.trans h.now_eq, fun e he => ?_⟩
  · rw [insert, hinsert, ok_bind]
    exact hresize
  · rw [← hperm.length_eq, hq', hq]
  · rcases List.mem_cons.mp (hperm.mem_iff.mpr he) with rfl | hold
    · exact hvalid
    · exact h.valid e hold

theorem Stores.qSize_erase (hmem : ev ∈ l.events) :
    wsub 32 s.qSize 1 = (l.events.erase ev).length := by
  have hlength := length_lt h.placed.distinct h.valid
  have hpos := List.length_pos_of_mem hmem
  rw [h.qSize, List.length_erase_of_mem hmem]
  exact wsub_eq (by omega) hpos

theorem Stores.isEmpty_eq (hmem : ev ∈ l.events) : s.isEmpty = false := by
  rw [Bool.eq_false_iff]
  intro hempty
  rw [h.isEmpty_iff.mp hempty] at hmem
  cases hmem

/-- The scan finds the first event of the order. -/
theorem removeNext_spec (hfirst : l.events.head? = some ev) :
    s.peekNext = .ok ev ∧ ∃ t, s.removeNext = .ok (ev, t) ∧ t.Stores l.tail ev.key.ts := by
  obtain ⟨hmem, hmin⟩ := SortedEvents.head?_eq_some_iff.mp hfirst
  have hempty := h.isEmpty_eq hmem
  refine ⟨peekNext_spec h.placed h.cursor hempty hmem hmin, ?_⟩
  obtain ⟨buckets, lastBucket, bucketTop, hremove, hplaced, hcursor⟩ :=
    doRemoveNext_spec h.placed h.cursor hempty hmem hmin
  have hq := h.qSize_erase hmem
  have htail : l.events.erase ev = l.tail.events := by
    obtain ⟨rest, hevents⟩ := List.head?_eq_some_iff.mp hfirst
    dsimp only [SortedEvents.tail]
    rw [hevents, List.erase_cons_head, List.tail_cons]
  rw [htail] at hplaced hcursor hq
  obtain ⟨t, hresize, ht, ht', hq', hprio⟩ := resizeDown_spec
    (s := { s with
      buckets, lastBucket, bucketTop, lastPrio := ev.key.ts
      qSize := wsub 32 s.qSize 1 }) (hplaced.with_qSize _) (hcursor.with_qSize _) hq
  refine ⟨t, ?_, ht, ht', hq'.trans hq, hprio, fun e he => h.valid e (List.mem_of_mem_tail he)⟩
  have hassert : nsAssert (!false) = .ok () := rfl
  rw [removeNext, hempty, hassert, ok_bind, hremove, ok_bind]
  dsimp only
  rw [hresize]
  rfl

theorem remove_spec (hmem : ev ∈ l.events) :
    ∃ t, s.remove ev = .ok t ∧ t.Stores (l.erase ev) now := by
  have hempty := h.isEmpty_eq hmem
  obtain ⟨b, hb, hget, hsorted⟩ :=
    h.placed.bucketAt_eq (Nat.mod_lt (ev.key.ts / s.width) h.placed.nonempty)
  have hin := h.placed.mem_bucket hmem hget
  have hdistinct : (uids b).Nodup := by
    have hflat : (uids s.buckets.flatten).Nodup :=
      (h.placed.perm.map _).nodup_iff.mpr h.placed.distinct
    exact hflat.sublist ((List.sublist_flatten_of_mem (List.mem_of_getElem? hget)).map _)
  have hplaced : Placed { s with
      buckets := s.buckets.set (ev.key.ts / s.width % s.nBuckets) (b.erase ev)
      qSize := wsub 32 s.qSize 1 } (l.erase ev).events := by
    have hreplaced : Placed { s with
        buckets := s.buckets.set (ev.key.ts / s.width % s.nBuckets) (b.erase ev) }
          (l.erase ev).events := by
      apply h.placed.replace hget (hsorted.sublist List.erase_sublist)
      · intro e he
        exact h.placed.placed _ b hget e (List.mem_of_mem_erase he)
      · intro rest hrest
        have hcons : (ev :: (b.erase ev ++ rest)).Perm (ev :: l.events.erase ev) :=
          calc (ev :: (b.erase ev ++ rest)).Perm (b ++ rest) :=
              (List.perm_cons_erase hin).symm.append_right rest
            _ |>.Perm l.events := hrest.symm
            _ |>.Perm (ev :: l.events.erase ev) := List.perm_cons_erase hmem
        exact hcons.cons_inv
      · intro e he
        exact h.placed.range e (List.mem_of_mem_erase he)
      · exact (l.erase ev).distinct
    exact hreplaced.with_qSize _
  have hcursor : Cursor { s with
      buckets := s.buckets.set (ev.key.ts / s.width % s.nBuckets) (b.erase ev)
      qSize := wsub 32 s.qSize 1 } (l.erase ev).events :=
    { h.cursor with le := fun e he => h.cursor.le e (List.mem_of_mem_erase he) }
  have hq := h.qSize_erase hmem
  obtain ⟨t, hresize, ht, ht', hq', hprio⟩ := resizeDown_spec hplaced hcursor hq
  refine ⟨t, ?_, ht, ht', hq'.trans hq, hprio.trans h.now_eq,
    fun e he => h.valid e (List.mem_of_mem_erase he)⟩
  have hassert : nsAssert (!false) = .ok () := rfl
  rw [remove, hempty, hassert, ok_bind, h.placed.hash_eq, ok_bind, hb, ok_bind,
    ListScheduler.removeLoop_eq hdistinct hin, ok_bind]
  exact hresize

end

end CalendarScheduler

/-! ## Runs -/

/-- A calendar queue, with the time of the event that `RemoveNext` removed last. -/
structure CalendarRun where
  sched : CalendarScheduler
  now : Nat := 0
  deriving DecidableEq, Repr

namespace CalendarRun

variable {r r' : CalendarRun} {l : SortedEvents} {s : CalendarScheduler} {call : SchedulerCall}
  {calls : List SchedulerCall} {reverse : Bool}

def stored (r : CalendarRun) : List Event := r.sched.buckets.flatten

/-- New events have new uids and are not before the event that was removed last, and only
stored events are removed. -/
def Admits (r : CalendarRun) : SchedulerCall → Prop
  | .insert ev => ev.key.uid ∉ uids r.stored ∧ (EventId.VALID ≤ ev.key.uid ∧ ev.key.uid < 2 ^ 32) ∧
      r.now ≤ ev.key.ts ∧ ev.key.ts < 2 ^ 63
  | .removeNext _ => True
  | .remove ev => ev ∈ r.stored

instance (r : CalendarRun) (ev : Event) : Decidable (r.Admits (.insert ev)) :=
  inferInstanceAs (Decidable (_ ∧ (_ ∧ _) ∧ _ ∧ _))

instance (r : CalendarRun) (ev : Event) : Decidable (r.Admits (.remove ev)) :=
  inferInstanceAs (Decidable (ev ∈ r.stored))

/-- One call, as the calendar answers it. -/
inductive Step (r : CalendarRun) : SchedulerCall → CalendarRun → Prop where
  | insert {ev : Event} {s : CalendarScheduler} (hadmits : r.Admits (.insert ev))
      (h : r.sched.insert ev = .ok s) : Step r (.insert ev) { r with sched := s }
  | removeNext {ev : Event} {s : CalendarScheduler} (h : r.sched.removeNext = .ok (ev, s)) :
      Step r (.removeNext ev) { sched := s, now := ev.key.ts }
  | remove {ev : Event} {s : CalendarScheduler} (hadmits : r.Admits (.remove ev))
      (h : r.sched.remove ev = .ok s) : Step r (.remove ev) { r with sched := s }

def Represents (r : CalendarRun) (l : SortedEvents) : Prop := r.sched.Stores l r.now

theorem Represents.uids_iff (h : r.Represents l) (uid : Nat) :
    uid ∈ uids r.stored ↔ uid ∈ uids l.events :=
  (h.placed.perm.map _).mem_iff

/-- **Step lemma**, from the list to the queue. -/
theorem step_of_sorted {l' : SortedEvents} (h : r.Represents l) (hstep : l.Step call l')
    (hadmits : r.Admits call) : ∃ r', r.Step call r' ∧ r'.Represents l' := by
  cases hstep with
  | insert hnew =>
    obtain ⟨hnew', hvalid, hnow, hts⟩ := hadmits
    obtain ⟨s, hs, hstores⟩ := CalendarScheduler.insert_spec h hnew hvalid hnow hts
    exact ⟨_, .insert ⟨hnew', hvalid, hnow, hts⟩ hs, hstores⟩
  | removeNext hfirst =>
    obtain ⟨-, s, hs, hstores⟩ := CalendarScheduler.removeNext_spec h hfirst
    exact ⟨_, .removeNext hs, hstores⟩
  | remove hmem =>
    obtain ⟨s, hs, hstores⟩ := CalendarScheduler.remove_spec h hmem
    exact ⟨_, .remove hadmits hs, hstores⟩

/-- **Step lemma**, from the queue to the list. -/
theorem sorted_of_step (h : r.Represents l) (hstep : r.Step call r') :
    ∃ l', l.Step call l' ∧ r'.Represents l' := by
  cases hstep with
  | insert hadmits hs =>
    obtain ⟨hnew, hvalid, hnow, hts⟩ := hadmits
    rw [h.uids_iff] at hnew
    obtain ⟨s', hs', hstores⟩ := CalendarScheduler.insert_spec h hnew hvalid hnow hts
    cases hs.symm.trans hs'
    exact ⟨_, .insert hnew, hstores⟩
  | @removeNext ev s hs =>
    cases hevents : l.events with
    | nil =>
      have hempty := h.isEmpty_iff.mpr hevents
      rw [CalendarScheduler.removeNext, hempty] at hs
      cases hs
    | cons first rest =>
      have hfirst : l.events.head? = some first := by rw [hevents, List.head?_cons]
      obtain ⟨-, s', hs', hstores⟩ := CalendarScheduler.removeNext_spec h hfirst
      cases hs.symm.trans hs'
      exact ⟨_, .removeNext hfirst, hstores⟩
  | remove hadmits hs =>
    have hmem := h.placed.perm.mem_iff.mp hadmits
    obtain ⟨s', hs', hstores⟩ := CalendarScheduler.remove_spec h hmem
    cases hs.symm.trans hs'
    exact ⟨_, .remove hmem, hstores⟩

theorem create_eq : CalendarScheduler.create reverse = .ok
    { reverse, buckets := [[], []], nBuckets := 2, width := 1, lastBucket := 0,
      bucketTop := 1, lastPrio := 0, qSize := 0 } := by
  cases reverse <;> decide

theorem represents_create (hcreate : CalendarScheduler.create reverse = .ok s) :
    Represents { sched := s } SortedEvents.empty := by
  cases create_eq.symm.trans hcreate
  have hempty : ∀ b ∈ [([] : List Event), []], b = [] := by simp
  constructor
  · constructor
    · rfl
    · exact Nat.two_pos
    · exact Nat.one_pos
    · exact Nat.one_lt_two_pow (by decide)
    · exact .refl _
    · intro i b hb e he
      rw [hempty b (List.mem_of_getElem? hb)] at he
      cases he
    · intro b hb
      rw [hempty b hb]
      exact .nil
    · exact List.forall_mem_nil _
    · exact .nil
  · constructor
    · exact Nat.two_pow_pos 63
    · simp
    · simp
    · exact List.forall_mem_nil _
  · rfl
  · rfl
  · exact List.forall_mem_nil _

/-- The run has the results of a run of the sorted list, stores its events, peeks at the
first one, and makes every admissible call that the list then makes, with its result. -/
def RefinesSorted (calls : List SchedulerCall) (r : CalendarRun) : Prop :=
  ∃ l, Run SortedEvents.Step SortedEvents.empty calls l ∧ r.stored.Perm l.events ∧
    (∀ ev, l.events.head? = some ev → r.sched.peekNext = .ok ev) ∧
    ∀ call l', l.Step call l' → r.Admits call → ∃ r', r.Step call r'

/-- **The calendar queue refines a sorted list**, in both storage orders and across all
resizes. -/
theorem calendar_refines_sorted (hcreate : CalendarScheduler.create reverse = .ok s)
    (hrun : Run Step { sched := s } calls r) : RefinesSorted calls r := by
  have hsorted : ∃ l, Run SortedEvents.Step SortedEvents.empty calls l ∧ r.Represents l := by
    induction hrun with
    | nil => exact ⟨_, .nil, represents_create hcreate⟩
    | snoc hprev hlast ih =>
      obtain ⟨l, hl, hrep⟩ := ih
      obtain ⟨l', hl', hrep'⟩ := sorted_of_step hrep hlast
      exact ⟨l', .snoc hl hl', hrep'⟩
  obtain ⟨l, hl, hrep⟩ := hsorted
  refine ⟨l, hl, hrep.placed.perm, fun ev hfirst => ?_, fun call l' hstep hadmits => ?_⟩
  · exact (CalendarScheduler.removeNext_spec hrep hfirst).1
  · obtain ⟨r', hr', -⟩ := step_of_sorted hrep hstep hadmits
    exact ⟨r', hr'⟩

def eventAt (ts uid : Nat) : Event := { impl := uid, key := { ts, uid } }

/-- Five events are inserted, with which the queue grows; the first one is taken, and
another one removed. -/
theorem calendar_refines_sorted_resize :
    ∃ s r, CalendarScheduler.create true = .ok s ∧ r.sched.nBuckets = 4 ∧
      RefinesSorted [.insert (eventAt 70 4), .insert (eventAt 10 5), .insert (eventAt 70 6),
        .insert (eventAt 30 7), .insert (eventAt 90 8), .removeNext (eventAt 10 5),
        .remove (eventAt 70 6)] r := by
  have hrun : ∃ s r, CalendarScheduler.create true = .ok s ∧ r.sched.nBuckets = 4 ∧
      Run Step { sched := s } [.insert (eventAt 70 4), .insert (eventAt 10 5),
        .insert (eventAt 70 6), .insert (eventAt 30 7), .insert (eventAt 90 8),
        .removeNext (eventAt 10 5), .remove (eventAt 70 6)] r :=
    ⟨_, _, rfl, rfl, .cons (.insert (by decide) rfl) (.cons (.insert (by decide) rfl)
      (.cons (.insert (by decide) rfl) (.cons (.insert (by decide) rfl)
        (.cons (.insert (by decide) rfl) (.cons (.removeNext rfl)
          (.cons (.remove (by decide) rfl) .nil))))))⟩
  obtain ⟨s, r, hcreate, hsize, hrun⟩ := hrun
  exact ⟨s, r, hcreate, hsize, calendar_refines_sorted hcreate hrun⟩

end CalendarRun

/-! ## The simulator over the calendar queue -/

def CalendarScheduler.ops : SchedulerOps CalendarScheduler where
  insert := insert
  isEmpty := isEmpty
  removeNext := removeNext
  remove := remove

def DefaultSimulatorImpl.put {σ τ : Type} (sim : DefaultSimulatorImpl σ) (events : τ) :
    DefaultSimulatorImpl τ :=
  { sim with events }

namespace SimulatorRun

variable {σ τ : Type}

def put (st : SimulatorRun σ) (events : τ) : SimulatorRun τ :=
  { st with sim := st.sim.put events }

variable {st st' : SimulatorRun CalendarScheduler} {l : SortedEvents} {ev : Event}
  {call : SimulatorCall} {calls : List SimulatorCall}

/-- The calendar queue stores `l`, and so would the sorted list. -/
structure Simulates (st : SimulatorRun CalendarScheduler) (l : SortedEvents) : Prop where
  stores : st.sim.events.Stores l st.sim.currentTs
  holds : Holds ListScheduler.Stores (st.put (⟨l.events⟩ : ListScheduler)) l

theorem absolute_lt {d : Int} {t : Nat} (hd : 0 ≤ d) (hrange : d + t < 2 ^ 63) :
    ((d + t) % 2 ^ 64).toNat < 2 ^ 63 := by
  omega

theorem Simulates.insertEvent (h : Simulates st l) {delay : Time} {impl context : Nat}
    (hadmits : st.Admits delay impl) (huid : EventId.VALID ≤ st.sim.uid) (hdelay : 0 ≤ delay)
    {id : EventId} {sim : DefaultSimulatorImpl CalendarScheduler}
    (hcall : st.sim.insertEvent CalendarScheduler.ops (delay + st.sim.currentTs) context impl =
      .ok (id, sim)) :
    ∃ l' : SortedEvents, sim.events.Stores l' sim.currentTs ∧
      (st.sim.put (⟨l.events⟩ : ListScheduler)).insertEvent ListScheduler.ops
        (delay + st.sim.currentTs) context impl = .ok (id, sim.put ⟨l'.events⟩) := by
  obtain ⟨-, -, hrange⟩ := hadmits
  let ev := st.sim.newEvent (delay + st.sim.currentTs) context impl
  have hnew : ev.key.uid ∉ uids l.events := h.holds.uid_new huid
  obtain ⟨s, hs, hstores⟩ := CalendarScheduler.insert_spec h.stores hnew
    ⟨huid, h.holds.uid_lt⟩ (le_absolute hdelay hrange) (absolute_lt hdelay hrange)
  obtain ⟨t, ht, hlist⟩ := ListScheduler.correct.insert h.holds.stores hnew
  obtain rfl : t = ⟨(l.insert ev hnew).events⟩ := congrArg ListScheduler.mk hlist
  refine ⟨l.insert ev hnew, ?_⟩
  have hinsert : CalendarScheduler.ops.insert st.sim.events ev = .ok s := hs
  rw [DefaultSimulatorImpl.insertEvent, hinsert] at hcall
  cases hcall
  refine ⟨hstores, ?_⟩
  rw [DefaultSimulatorImpl.insertEvent]
  exact congrArg (· >>= _) ht

theorem cancel_put (sim : DefaultSimulatorImpl σ) (events : τ) (id : EventId) :
    (sim.put events).cancel id = (sim.cancel id).put events := by
  have hexpired : (sim.put events).isExpired id = sim.isExpired id := rfl
  rw [DefaultSimulatorImpl.cancel, DefaultSimulatorImpl.cancel, hexpired]
  split <;> rfl

theorem cancel_kept (sim : DefaultSimulatorImpl σ) (id : EventId) :
    (sim.cancel id).events = sim.events ∧ (sim.cancel id).currentTs = sim.currentTs := by
  rw [DefaultSimulatorImpl.cancel]
  split <;> exact ⟨rfl, rfl⟩

section

variable (h : Simulates st l)

include h

theorem Simulates.remove (hev : ev ∈ st.scheduled) :
    ∃ sim, ∃ l' : SortedEvents, st.sim.remove CalendarScheduler.ops ev.id = .ok sim ∧
      sim.events.Stores l' sim.currentTs ∧
      (st.sim.put (⟨l.events⟩ : ListScheduler)).remove ListScheduler.ops ev.id =
        .ok (sim.put ⟨l'.events⟩) := by
  have huid : ev.id.uid ≠ EventId.DESTROY := by
    have hvalid := (h.holds.uids_lt ev hev).1
    dsimp only [EventId.VALID, EventId.DESTROY, Event.id] at hvalid ⊢
    omega
  have hsame : (st.sim.put (⟨l.events⟩ : ListScheduler)).isExpired ev.id =
    st.sim.isExpired ev.id := rfl
  rw [DefaultSimulatorImpl.remove, DefaultSimulatorImpl.remove, if_neg huid, if_neg huid, hsame]
  cases hexpired : st.sim.isExpired ev.id with
  | true => exact ⟨st.sim, l, rfl, h.stores, rfl⟩
  | false =>
    have hstored := h.holds.stored_of_not_expired hev hexpired
    obtain ⟨s, hs, hstores⟩ := CalendarScheduler.remove_spec h.stores hstored
    obtain ⟨t, ht, hlist⟩ := ListScheduler.correct.remove h.holds.stores hstored
    obtain rfl : t = ⟨(l.erase ev).events⟩ := congrArg ListScheduler.mk hlist
    exact ⟨_, l.erase ev, congrArg (· >>= _) hs, hstores, congrArg (· >>= _) ht⟩

/-- Both simulators process the same event. -/
theorem Simulates.processOneEvent (hmore : CalendarScheduler.ops.isEmpty st.sim.events = false) :
    ∃ next notified sim, ∃ l' : SortedEvents,
      st.sim.processOneEvent CalendarScheduler.ops = .ok (next, notified, sim) ∧
      sim.events.Stores l' sim.currentTs ∧
      ListScheduler.ops.isEmpty (⟨l.events⟩ : ListScheduler) = false ∧
      (st.sim.put (⟨l.events⟩ : ListScheduler)).processOneEvent ListScheduler.ops =
        .ok (next, notified, sim.put ⟨l'.events⟩) := by
  have hne : l.events ≠ [] := by
    intro hnil
    have hempty : st.sim.events.isEmpty = true := h.stores.isEmpty_iff.mpr hnil
    exact Bool.false_ne_true (hmore.symm.trans hempty)
  have hlistMore : ListScheduler.ops.isEmpty (⟨l.events⟩ : ListScheduler) = false :=
    List.isEmpty_eq_false_iff.mpr hne
  obtain ⟨next, hfirst⟩ := Option.isSome_iff_exists.mp (List.isSome_head?.mpr hne)
  obtain ⟨-, s, (hs : CalendarScheduler.ops.removeNext _ = _), hstores⟩ :=
    CalendarScheduler.removeNext_spec h.stores hfirst
  obtain ⟨t, ht, hlist⟩ := ListScheduler.correct.removeNext h.holds.stores hfirst
  obtain rfl : t = ⟨l.tail.events⟩ := congrArg ListScheduler.mk hlist
  have hlt := (h.holds.stored next (List.mem_of_head? hfirst)).2
  have hts : st.sim.currentTs ≤ next.key.ts := by
    rw [current, Event.rank, EventKey.rank, Prod.Lex.toLex_lt_toLex] at hlt
    change st.sim.currentTs < next.key.ts ∨ st.sim.currentTs = next.key.ts ∧ _ at hlt
    omega
  exact ⟨_, _, _, l.tail, processOneEvent_eq hs hts, hstores, hlistMore,
    processOneEvent_eq ht hts⟩

theorem Simulates.step_over (hstep : WithinStep CalendarScheduler.ops st call st') :
    ∃ l' : SortedEvents, st'.sim.events.Stores l' st'.sim.currentTs ∧
      WithinStep ListScheduler.ops (st.put (⟨l.events⟩ : ListScheduler)) call
        (st'.put ⟨l'.events⟩) := by
  obtain ⟨hstep, hwithin⟩ := hstep
  cases hstep with
  | @schedule delay impl id sim hadmits hcall =>
    obtain ⟨u, hpositive, hcall⟩ := bind_eq_ok.mp hcall
    obtain ⟨l', hstores, hlist⟩ := h.insertEvent hadmits hwithin
      (of_decide_eq_true (nsAssert_eq_ok.mp hpositive)) hcall
    exact ⟨l', hstores, .schedule hadmits (bind_eq_ok.mpr ⟨u, hpositive, hlist⟩), hwithin⟩
  | @scheduleNow impl id sim hadmits hcall =>
    obtain ⟨u, hpositive, hcall⟩ := bind_eq_ok.mp hcall
    obtain ⟨l', hstores, hlist⟩ := h.insertEvent hadmits hwithin (le_refl _) hcall
    exact ⟨l', hstores, .scheduleNow hadmits (bind_eq_ok.mpr ⟨u, hpositive, hlist⟩), hwithin⟩
  | @scheduleWithContext context delay impl id sim hadmits hcall =>
    obtain ⟨l', hstores, hlist⟩ := h.insertEvent hadmits hwithin.1 hwithin.2 hcall
    exact ⟨l', hstores, .scheduleWithContext hadmits hlist, hwithin⟩
  | scheduleDestroy => exact ⟨l, h.stores, .scheduleDestroy, hwithin⟩
  | @cancel ev hmem =>
    obtain ⟨hevents, hts⟩ := cancel_kept st.sim ev.id
    refine ⟨l, ?_, ?_, hwithin⟩
    · dsimp only
      rw [hevents, hts]
      exact h.stores
    · have hlist : Step ListScheduler.ops (st.put (⟨l.events⟩ : ListScheduler)) (.cancel ev) _ :=
        .cancel hmem
      rw [show (st.put _).sim = st.sim.put _ from rfl, cancel_put] at hlist
      exact hlist
  | @remove ev sim hmem hcall =>
    obtain ⟨sim', l', hok, hstores, hlist⟩ := h.remove hmem
    cases hcall.symm.trans hok
    exact ⟨l', hstores, .remove hmem hlist, hwithin⟩
  | @processOneEvent next notified sim hmore hcall =>
    obtain ⟨next', notified', sim', l', hok, hstores, hlistMore, hlist⟩ := h.processOneEvent hmore
    obtain ⟨rfl, rfl, rfl⟩ := by simpa using hcall.symm.trans hok
    exact ⟨l', hstores, .processOneEvent hlistMore hlist, hwithin⟩

/-- **Step lemma.** -/
theorem Simulates.step (hstep : WithinStep CalendarScheduler.ops st call st') :
    ∃ l' : SortedEvents, WithinStep ListScheduler.ops (st.put (⟨l.events⟩ : ListScheduler)) call
      (st'.put ⟨l'.events⟩) ∧ Simulates st' l' := by
  obtain ⟨l', hstores, hlist⟩ := h.step_over hstep
  obtain ⟨l'', hholds⟩ := h.holds.step ListScheduler.correct hlist
  have hevents : l'.events = l''.events := hholds.stores
  obtain ⟨events, sorted, distinct⟩ := l'
  obtain ⟨events', sorted', distinct'⟩ := l''
  obtain rfl : events = events' := hevents
  exact ⟨_, hlist, hstores, hholds⟩

theorem Simulates.sound : st.Sound CalendarScheduler.ops := by
  obtain ⟨hordered, hscheduled, honce, hdropped, hcomplete, hexpired, -, -⟩ :=
    h.holds.sound ListScheduler.correct
  refine ⟨hordered, hscheduled, honce, hdropped, fun hempty => hcomplete ?_, hexpired,
    fun hmore => ?_, fun ev hev => ?_⟩
  · exact List.isEmpty_iff.mpr (h.stores.isEmpty_iff.mp hempty)
  · obtain ⟨next, notified, sim, -, hok, -⟩ := h.processOneEvent hmore
    exact ⟨next, notified, sim, hok⟩
  · obtain ⟨sim, -, hok, -⟩ := h.remove hev
    exact ⟨sim, hok⟩

end

/-- **The simulator over the calendar queue** does in every run what it does over a sorted list: the
same events run in the same order. -/
theorem calendar_runs_in_order {reverse : Bool} {s : CalendarScheduler}
    (hcreate : CalendarScheduler.create reverse = .ok s)
    (hrun : Run (WithinStep CalendarScheduler.ops) (initial s) calls st) :
    st.Sound CalendarScheduler.ops ∧ ∃ t : ListScheduler,
      Run (WithinStep ListScheduler.ops) (initial {}) calls (st.put t) ∧
        st.sim.events.buckets.flatten.Perm t.events := by
  have hstores := CalendarRun.represents_create hcreate
  have hinitial : Simulates (initial s) SortedEvents.empty := ⟨hstores, holds_initial rfl⟩
  have hsimulated : ∃ l : SortedEvents, Simulates st l ∧
      Run (WithinStep ListScheduler.ops) (initial {}) calls (st.put ⟨l.events⟩) := by
    induction hrun with
    | nil => exact ⟨_, hinitial, .nil⟩
    | snoc hprev hlast ih =>
      obtain ⟨l, h, hlist⟩ := ih
      obtain ⟨l', hstep, h'⟩ := h.step hlast
      exact ⟨l', h', .snoc hlist hstep⟩
  obtain ⟨l, h, hlist⟩ := hsimulated
  exact ⟨h.sound, ⟨l.events⟩, hlist, h.stores.placed.perm⟩

/-- Two events for one time, of which the first removes the second. -/
theorem calendar_runs_in_order_removed : ∃ st : SimulatorRun CalendarScheduler,
    st.ran.map Event.impl = [1] ∧ st.dropped.map Event.impl = [2] ∧
      st.Sound CalendarScheduler.ops := by
  have hrun : ∃ s st, CalendarScheduler.create false = .ok s ∧
      Run (WithinStep CalendarScheduler.ops) (initial s)
        [.scheduleNow 1, .scheduleNow 2, .processOneEvent,
          .remove { impl := 2, key := { ts := 0, uid := 5, context := 0xffffffff } }] st ∧
      st.ran.map Event.impl = [1] ∧ st.dropped.map Event.impl = [2] :=
    ⟨_, _, rfl, .cons ⟨.scheduleNow (by decide) rfl, by decide⟩
      (.cons ⟨.scheduleNow (by decide) rfl, by decide⟩ (.cons ⟨.processOneEvent rfl rfl, trivial⟩
        (.single ⟨.remove (by decide) rfl, trivial⟩))), rfl, rfl⟩
  obtain ⟨s, st, hcreate, hrun, hran, hdropped⟩ := hrun
  exact ⟨st, hran, hdropped, (calendar_runs_in_order hcreate hrun).1⟩

end SimulatorRun

end Ns3
