/-
  The loops over the MPDUs in flight, and runs of the manager.

  Inside `NotifyGotBlockAck` the window start may pass MPDUs that are still in the list;
  the second loop removes them.  `Walking` measures everything from the window start at
  the beginning of the call, the reference, where the list is sorted throughout.
-/
import Mathlib.Data.List.TakeWhile
import Ns3.Wifi.InFlightOrder

namespace Ns3.BlockAckManager

open Ns3.Lib OriginatorBlockAckAgreement

variable {size ref move : Nat} {s : OriginatorState} {m : WifiMpdu} {q : EdcaQueue}
  {statusOf : List Nat → MpduStatus} {w : Walk} {rest : List WifiMpdu}

/-! ## Discarding -/

theorem Tidy.notifyDiscardedMpdu (h : Tidy size s) (hpos : 0 < size) (hle : size ≤ 1024)
    (hm : Numbered m) (q : EdcaQueue) :
    ∃ s', notifyDiscardedMpdu q s m = .ok s' ∧ Tidy size s' := by
  have hstart := h.window.winStart_lt
  rw [BlockAckManager.notifyDiscardedMpdu]
  split
  · exact ⟨s, rfl, h⟩
  · rw [BlockAckWindow.getWinStart, getDistance_of hm.1 hstart, ok_bind]
    by_cases hold : seqDistance m.sequenceNumber s.txWindow.winStart ≥ SEQNO_SPACE_HALF_SIZE
    · rw [if_pos hold]
      exact ⟨s, rfl, h⟩
    · rw [if_neg hold]
      have hslides := Slides.start h.window h.winSize hpos hle
      by_cases hin : seqDistance m.sequenceNumber s.txWindow.winStart < size
      · obtain ⟨w', move, hdiscard, hw', _⟩ := hslides.discarded hm.1 (Nat.zero_le _) hin
        have hsub := List.dropWhile_sublist (fun x : WifiMpdu =>
          decide (seqDistance x.sequenceNumber w'.winStart ≥ SEQNO_SPACE_HALF_SIZE))
            (l := s.inFlight)
        have hahead := dropOld_sorted hw' h.numbered h.inside h.sorted
        rw [hdiscard, ok_bind, dropOld_of hw'.wellFormed h.numbered]
        refine ⟨_, rfl, hw'.wellFormed, hw'.winSize,
          fun x hx => h.numbered x (hsub.subset hx), ?_, ?_⟩
        · dsimp only
          rw [hw'.winStart] at hahead hsub ⊢
          exact sorted_advance hstart (fun x hx => h.numbered x (hsub.subset hx)) hahead
            (h.sorted.sublist hsub)
        · intro x hx
          have hxin := h.inside x (hsub.subset hx)
          dsimp only at hx ⊢
          rw [hw'.distance_ahead (h.numbered x (hsub.subset hx)).1 (hahead x hx)]
          omega
      · -- beyond the window: it is reset, and everything in flight is old
        let count := seqDistance m.sequenceNumber s.txWindow.winStart + 1
        obtain ⟨hwa, hsizea, hbits⟩ := BlockAckWindow.advance_of h.window count
        have hlead : leading (s.txWindow.advance count).bits = 0 := by
          have hdrop : s.txWindow.bits.drop count = [] := by
            apply List.drop_eq_nil_of_le
            rw [BlockAckWindow.length_bits, h.winSize]
            dsimp only [count]
            omega
          rw [hbits, hdrop, leading_append_replicate]
          rfl
        obtain ⟨w', hadvance, hw', hsize', hstart', _⟩ :=
          advanceTxWindow_of hwa (by rw [hsizea, h.winSize]; exact hpos)
        rw [hlead, Nat.add_zero, Nat.mod_eq_of_lt hwa.winStart_lt,
          BlockAckWindow.winStart_advance] at hstart'
        have hdiscard : OriginatorBlockAckAgreement.notifyDiscardedMpdu s.txWindow m = .ok w' := by
          rw [OriginatorBlockAckAgreement.notifyDiscardedMpdu, BlockAckWindow.getWinStart,
            getDistance_of hm.1 hstart, ok_bind, if_neg hold]
          exact hadvance
        have hempty : (s.inFlight.dropWhile fun x =>
            decide (seqDistance x.sequenceNumber w'.winStart ≥ SEQNO_SPACE_HALF_SIZE)) = [] := by
          rw [List.dropWhile_eq_nil_iff]
          intro x hx
          have hxin := h.inside x hx
          have hxseq := (h.numbered x hx).1
          rw [decide_eq_true_eq, hstart', seqDistance_passed hxseq hstart (k := count)
            (by dsimp only [count]; omega)
            (by dsimp only [count]
                simp only [SEQNO_SPACE_HALF_SIZE, SEQNO_SPACE_SIZE] at *
                omega)]
          dsimp only [count]
          simp only [SEQNO_SPACE_HALF_SIZE, SEQNO_SPACE_SIZE] at *
          omega
        rw [hdiscard, ok_bind, dropOld_of hw' h.numbered, hempty]
        exact ⟨_, rfl, hw', (hsize'.trans hsizea).trans h.winSize, (fun _ hx => by cases hx), .nil,
          fun _ hx => by cases hx⟩

/-! ## Walking over the list -/

def StaysInFlight (q : EdcaQueue) (statusOf : List Nat → MpduStatus) (m : WifiMpdu) : Prop :=
  q.isQueued m = true ∧ q.expired m = false ∧ statusOf (q.inFlightLinkIds m) = .stayInflight

def Expires (q : EdcaQueue) (m : WifiMpdu) : Prop :=
  q.isQueued m = true ∧ q.expired m = true ∧ (q.isRetry m = true ∨ q.inflights m ≠ [])

def NoneExpiresBehind (q : EdcaQueue) (statusOf : List Nat → MpduStatus) (ms : List WifiMpdu) :
    Prop :=
  ms.Pairwise fun x y => ¬(StaysInFlight q statusOf x ∧ Expires q y)

instance (q : EdcaQueue) (statusOf : List Nat → MpduStatus) (m : WifiMpdu) :
    Decidable (StaysInFlight q statusOf m) := inferInstanceAs (Decidable (_ ∧ _))

instance (q : EdcaQueue) (m : WifiMpdu) : Decidable (Expires q m) :=
  inferInstanceAs (Decidable (_ ∧ _))

instance (q : EdcaQueue) (statusOf : List Nat → MpduStatus) (ms : List WifiMpdu) :
    Decidable (NoneExpiresBehind q statusOf ms) := inferInstanceAs (Decidable (List.Pairwise _ ms))

/-- The EDCA queue has lost some of its MPDUs. -/
structure Shrinks (q q' : EdcaQueue) : Prop where
  isRetry : q'.isRetry = q.isRetry
  expired : q'.expired = q.expired
  inflights : q'.inflights = q.inflights
  isQueued : ∀ m, q'.isQueued m = true → q.isQueued m = true

theorem Shrinks.dequeue {q' : EdcaQueue} (h : Shrinks q q') (m : WifiMpdu) :
    Shrinks q (q'.dequeue m) where
  isRetry := h.isRetry
  expired := h.expired
  inflights := h.inflights
  isQueued := by
    intro x hx
    rw [EdcaQueue.dequeue, Bool.and_eq_true] at hx
    exact h.isQueued x hx.1

/-- A walk whose call began with the window start `ref`. -/
structure Walking (q : EdcaQueue) (statusOf : List Nat → MpduStatus) (ref move size : Nat)
    (w : Walk) : Prop where
  slides : Slides ref move size w.txWindow
  numbered : ∀ m ∈ w.handled ++ w.pending, Numbered m
  sorted : (w.handled ++ w.pending).Pairwise (Before ref)
  inside : ∀ m ∈ w.handled ++ w.pending, seqDistance m.sequenceNumber ref < size
  kept : ∀ m ∈ w.handled, move ≤ seqDistance m.sequenceNumber ref
  shrinks : Shrinks q w.queue
  stays : ∀ m ∈ w.handled, StaysInFlight q statusOf m
  apart : NoneExpiresBehind q statusOf (w.handled ++ w.pending)

theorem Walking.skip (h : Walking q statusOf ref move size w) {queue : EdcaQueue}
    (hqueue : Shrinks q queue) (hrest : rest.Sublist w.pending) :
    Walking q statusOf ref move size { w with queue, pending := rest } := by
  have hsub : (w.handled ++ rest).Sublist (w.handled ++ w.pending) := hrest.append_left w.handled
  exact ⟨h.slides, fun x hx => h.numbered x (hsub.subset hx), h.sorted.sublist hsub,
    fun x hx => h.inside x (hsub.subset hx), h.kept, hqueue, h.stays, h.apart.sublist hsub⟩

theorem Walking.finish (h : Walking q statusOf ref move size w) (hdone : w.pending = []) :
    Tidy size { txWindow := w.txWindow, inFlight := w.handled } := by
  have hnumbered := h.numbered
  have hsorted := h.sorted
  have hinside := h.inside
  rw [hdone, List.append_nil] at hnumbered hsorted hinside
  refine ⟨h.slides.wellFormed, h.slides.winSize, hnumbered, ?_, ?_⟩
  · dsimp only
    rw [h.slides.winStart]
    exact sorted_advance h.slides.ref_lt hnumbered h.kept hsorted
  · intro x hx
    have hin := hinside x hx
    dsimp only
    rw [h.slides.distance_ahead (hnumbered x hx).1 (h.kept x hx)]
    omega

/-- How often the MPDUs can be met: once, and once more when they are in the EDCA queue. -/
def visits (q : EdcaQueue) (ms : List WifiMpdu) : Nat :=
  (ms.map fun m => if q.isQueued m then 2 else 1).sum

theorem visits_cons (q : EdcaQueue) (m : WifiMpdu) (ms : List WifiMpdu) :
    visits q (m :: ms) = (if q.isQueued m then 2 else 1) + visits q ms := rfl

theorem visits_le (q : EdcaQueue) (ms : List WifiMpdu) : visits q ms ≤ 2 * ms.length := by
  induction ms with
  | nil => exact Nat.le_refl 0
  | cons m ms ih =>
    rw [visits_cons, List.length_cons]
    split <;> omega

theorem visits_dequeue_le (q : EdcaQueue) (m : WifiMpdu) (ms : List WifiMpdu) :
    visits (q.dequeue m) ms ≤ visits q ms := by
  induction ms with
  | nil => exact Nat.le_refl 0
  | cons x ms ih =>
    rw [visits_cons, visits_cons]
    cases hq : q.isQueued x with
    | false =>
      have hd : (q.dequeue m).isQueued x = false := by
        dsimp only [EdcaQueue.dequeue]
        rw [hq, Bool.false_and]
      rw [hd]
      omega
    | true =>
      split <;> simp only [if_true] <;> omega

theorem visits_sublist {ms ms' : List WifiMpdu} (h : ms.Sublist ms') :
    visits q ms ≤ visits q ms' := by
  induction h with
  | slnil => exact le_rfl
  | cons x _ ih =>
    rw [visits_cons]
    omega
  | cons_cons x _ ih =>
    rw [visits_cons, visits_cons]
    omega

section

variable (h : Walking q statusOf ref move size w)

include h

theorem Walking.expire (hpending : w.pending = m :: rest) (hq : q.isQueued m = true)
    (hqueued : w.queue.isQueued m = true) (hexpired : w.queue.expired m = true)
    (hold : ¬seqDistance m.sequenceNumber w.txWindow.winStart ≥ SEQNO_SPACE_HALF_SIZE)
    (hahead : move ≤ seqDistance m.sequenceNumber ref) :
    ∃ w' move', expireMpdu w m rest = .ok w' ∧
      Walking q statusOf ref move' size w' ∧
      visits w'.queue w'.pending < visits w.queue w.pending := by
  have hmem : m ∈ w.handled ++ w.pending := by
    rw [hpending]
    exact List.mem_append_right _ (.head _)
  have hm := h.numbered m hmem
  have hin := h.inside m hmem
  have hless : visits (w.queue.dequeue m) w.pending < visits w.queue w.pending := by
    have hgone : (w.queue.dequeue m).isQueued m = false := by simp [EdcaQueue.dequeue]
    have hrest := visits_dequeue_le w.queue m rest
    rw [hpending, visits_cons, visits_cons, hgone, hqueued, if_pos rfl, if_neg (by decide)]
    omega
  cases hsent : !w.queue.isRetry m && !w.queue.isInFlight m with
  | true =>
    -- the manager is told about an MPDU that was never sent: nothing changes
    have hsame : notifyDiscardedMpdu w.queue
        { txWindow := w.txWindow, inFlight := w.handled ++ m :: rest } m =
        .ok { txWindow := w.txWindow, inFlight := w.handled ++ m :: rest } := by
      rw [BlockAckManager.notifyDiscardedMpdu, hsent, if_pos rfl]
      rfl
    rw [expireMpdu, hsame, ok_bind]
    dsimp only
    rw [Nat.sub_self, List.drop_zero]
    cases hhandled : w.handled with
    | nil =>
      refine ⟨_, move, rfl, ?_, ?_⟩
      · have hnext := h.skip (h.shrinks.dequeue m) (List.Sublist.refl w.pending)
        rw [hhandled, hpending] at hnext
        exact hnext
      · dsimp only
        rw [List.nil_append, ← hpending]
        exact hless
    | cons x handled =>
      refine ⟨_, move, rfl, ?_, ?_⟩
      · have hnext := h.skip (h.shrinks.dequeue m) (List.Sublist.refl w.pending)
        rw [hhandled, hpending] at hnext
        exact hnext
      · dsimp only
        rw [← hpending]
        exact hless
  | false =>
    have hexpires : Expires q m := by
      refine ⟨hq, ?_, ?_⟩
      · rw [← h.shrinks.expired]
        exact hexpired
      · rw [← h.shrinks.isRetry, ← h.shrinks.inflights]
        cases hretry : w.queue.isRetry m with
        | true => exact .inl rfl
        | false =>
          right
          rw [hretry, EdcaQueue.isInFlight, hqueued] at hsent
          intro hnil
          rw [hnil] at hsent
          cases hsent
    -- nothing stays in flight before it
    have hnone : w.handled = [] := by
      rcases List.eq_nil_or_concat w.handled with hnil | ⟨handled, x, hx⟩
      · exact hnil
      · have hxmem : x ∈ w.handled := by
          rw [hx]
          simp
        have hapart := (List.pairwise_append.mp h.apart).2.2 x hxmem m (by
          rw [hpending]
          exact .head _)
        exact absurd ⟨h.stays x hxmem, hexpires⟩ hapart
    have hnumbered := h.numbered
    have hsorted := h.sorted
    have hinside := h.inside
    have happ : w.handled ++ w.pending = m :: rest := by
      rw [hnone, hpending]
      rfl
    rw [happ] at hnumbered hsorted hinside
    obtain ⟨w', move', hdiscard, hw', hpassed⟩ := h.slides.discarded hm.1 hahead hin
    have hdrop : ((m :: rest).dropWhile fun x =>
        decide (seqDistance x.sequenceNumber w'.winStart ≥
          SEQNO_SPACE_HALF_SIZE)).Sublist rest := by
      rw [List.dropWhile_cons, if_pos (decide_eq_true (hw'.distance_passed hm.1 hpassed))]
      exact List.dropWhile_sublist _
    have hnotify : notifyDiscardedMpdu w.queue
        { txWindow := w.txWindow, inFlight := w.handled ++ m :: rest } m =
        .ok { txWindow := w', inFlight := (m :: rest).dropWhile fun x =>
          decide (seqDistance x.sequenceNumber w'.winStart ≥ SEQNO_SPACE_HALF_SIZE) } := by
      rw [BlockAckManager.notifyDiscardedMpdu, hsent, if_neg (by decide),
        BlockAckWindow.getWinStart, getDistance_of hm.1 h.slides.wellFormed.winStart_lt, ok_bind,
        if_neg hold, hdiscard, ok_bind, hnone, List.nil_append,
        dropOld_of hw'.wellFormed hnumbered]
      rfl
    rw [expireMpdu, hnotify, ok_bind, hnone]
    refine ⟨_, move', rfl, ⟨hw', ?_, ?_, ?_, (fun _ h => by cases h),
      h.shrinks.dequeue m, (fun _ h => by cases h), ?_⟩, ?_⟩
    · exact fun x hx => hnumbered x (.tail _ (hdrop.subset hx))
    · exact hsorted.sublist (hdrop.trans (List.sublist_cons_self m rest))
    · exact fun x hx => hinside x (.tail _ (hdrop.subset hx))
    · have hapart := h.apart
      rw [happ] at hapart
      exact hapart.sublist (hdrop.trans (List.sublist_cons_self m rest))
    · have hle := (visits_dequeue_le w.queue m _).trans (visits_sublist hdrop)
      refine hle.trans_lt ?_
      rw [hpending, visits_cons]
      split <;> omega

/-- Each turn of the walk settles one MPDU. -/
theorem Walking.handle (hpending : w.pending = m :: rest) :
    ∃ w' move', handleInFlightMpdu w m rest (statusOf (w.queue.inFlightLinkIds m)) = .ok w' ∧
      Walking q statusOf ref move' size w' ∧
      visits w'.queue w'.pending < visits w.queue w.pending := by
  have hmem : m ∈ w.handled ++ w.pending := by
    rw [hpending]
    exact List.mem_append_right _ (.head _)
  have hm := h.numbered m hmem
  have hin := h.inside m hmem
  have hsub : rest.Sublist w.pending := by
    rw [hpending]
    exact List.sublist_cons_self m rest
  have hless : visits w.queue rest < visits w.queue w.pending := by
    rw [hpending, visits_cons]
    split <;> omega
  unfold handleInFlightMpdu
  cases hqueued : w.queue.isQueued m with
  | false => exact ⟨_, move, rfl, h.skip h.shrinks hsub, hless⟩
  | true =>
    rw [if_neg (by decide), BlockAckWindow.getWinStart,
      getDistance_of hm.1 h.slides.wellFormed.winStart_lt, ok_bind]
    by_cases hold : seqDistance m.sequenceNumber w.txWindow.winStart ≥ SEQNO_SPACE_HALF_SIZE
    · rw [if_pos hold]
      exact ⟨_, move, rfl, h.skip (h.shrinks.dequeue m) hsub,
        (visits_dequeue_le w.queue m rest).trans_lt hless⟩
    · rw [if_neg hold]
      have hahead : move ≤ seqDistance m.sequenceNumber ref :=
        Nat.le_of_not_lt fun hlt => hold (h.slides.distance_passed hm.1 hlt)
      have hq : q.isQueued m = true := h.shrinks.isQueued m hqueued
      cases hexpired : w.queue.expired m with
      | true =>
        rw [if_pos rfl]
        exact h.expire hpending hq hqueued hexpired hold hahead
      | false =>
        rw [if_neg (by decide)]
        cases hstatus : statusOf (w.queue.inFlightLinkIds m) with
        | toRetransmit => exact ⟨_, move, rfl, h.skip h.shrinks hsub, hless⟩
        | stayInflight =>
          have hstays : StaysInFlight q statusOf m := by
            refine ⟨hq, ?_, ?_⟩
            · rw [← h.shrinks.expired]
              exact hexpired
            · have hlinks : w.queue.inFlightLinkIds m = q.inFlightLinkIds m := by
                rw [EdcaQueue.inFlightLinkIds, EdcaQueue.inFlightLinkIds, hqueued, hq,
                  h.shrinks.inflights]
              rw [← hlinks]
              exact hstatus
          have hsame : (w.handled ++ [m]) ++ rest = w.handled ++ w.pending := by
            rw [hpending, List.append_assoc]
            rfl
          refine ⟨_, move, rfl, ⟨h.slides, ?_, ?_, ?_, ?_, h.shrinks, ?_, ?_⟩, hless⟩
          · dsimp only
            rw [hsame]
            exact h.numbered
          · dsimp only
            rw [hsame]
            exact h.sorted
          · dsimp only
            rw [hsame]
            exact h.inside
          · intro x hx
            rcases List.mem_append.mp hx with hx | hx
            · exact h.kept x hx
            · obtain rfl := List.mem_singleton.mp hx
              exact hahead
          · intro x hx
            rcases List.mem_append.mp hx with hx | hx
            · exact h.stays x hx
            · obtain rfl := List.mem_singleton.mp hx
              exact hstays
          · dsimp only
            rw [hsame]
            exact h.apart

theorem Walking.loop {fuel : Nat} (hfuel : visits w.queue w.pending ≤ fuel) :
    ∃ s', handleLoop statusOf fuel w = .ok s' ∧ Tidy size s' := by
  induction fuel generalizing w move with
  | zero =>
    cases hpending : w.pending with
    | nil =>
      refine ⟨_, ?_, h.finish hpending⟩
      rw [handleLoop, hpending]
      rfl
    | cons m rest =>
      rw [hpending, visits_cons] at hfuel
      split at hfuel <;> omega
  | succ fuel ih =>
    cases hpending : w.pending with
    | nil =>
      refine ⟨_, ?_, h.finish hpending⟩
      rw [handleLoop, hpending]
      rfl
    | cons m rest =>
      obtain ⟨w', move', hhandle, hw', hless⟩ := h.handle hpending
      obtain ⟨s', hloop, hs'⟩ := ih hw' (by omega)
      refine ⟨s', ?_, hs'⟩
      rw [handleLoop, hpending]
      dsimp only
      rw [hhandle, ok_bind]
      exact hloop

end

theorem handleAll_of (hslides : Slides ref move size s.txWindow)
    (hnumbered : ∀ m ∈ s.inFlight, Numbered m) (hsorted : s.inFlight.Pairwise (Before ref))
    (hinside : ∀ m ∈ s.inFlight, seqDistance m.sequenceNumber ref < size)
    (hapart : NoneExpiresBehind q statusOf s.inFlight) :
    ∃ s', handleAll statusOf q s = .ok s' ∧ Tidy size s' := by
  have hwalk : Walking q statusOf ref move size
      { queue := q, txWindow := s.txWindow, handled := [], pending := s.inFlight } :=
    ⟨hslides, hnumbered, hsorted, hinside, nofun, ⟨rfl, rfl, rfl, fun _ hm => hm⟩, nofun, hapart⟩
  exact hwalk.loop (visits_le q s.inFlight)

theorem ackLoop_of {isPacketReceived : Nat → Bool} {txWindow : BlockAckWindow} {ms : List WifiMpdu}
    (hslides : Slides ref move size txWindow) (hnumbered : ∀ m ∈ ms, Numbered m)
    (hinside : ∀ m ∈ ms, seqDistance m.sequenceNumber ref < size) :
    ∃ s move', ackLoop isPacketReceived txWindow ms = .ok s ∧ Slides ref move' size s.txWindow ∧
      s.inFlight = ms.filter fun m => !isPacketReceived m.sequenceNumber := by
  induction ms generalizing txWindow move with
  | nil => exact ⟨_, move, rfl, hslides, rfl⟩
  | cons m ms ih =>
    have hm := hnumbered m (.head _)
    have hin := hinside m (.head _)
    have hnumbered' : ∀ x ∈ ms, Numbered x := fun x hx => hnumbered x (.tail _ hx)
    have hinside' : ∀ x ∈ ms, seqDistance x.sequenceNumber ref < size :=
      fun x hx => hinside x (.tail _ hx)
    rw [ackLoop]
    cases hreceived : isPacketReceived m.sequenceNumber with
    | true =>
      rw [if_pos rfl, List.filter_cons_of_neg (by rw [hreceived]; decide)]
      by_cases hge : move ≤ seqDistance m.sequenceNumber ref
      · obtain ⟨w', hacked, hw'⟩ := hslides.acked hm.1 hge hin
        rw [hacked, ok_bind]
        exact ih hw' hnumbered' hinside'
      · have hold := hslides.distance_passed hm.1 (Nat.lt_of_not_le hge)
        rw [notifyAckedMpdu_old hslides.wellFormed hm.1 hold, ok_bind]
        exact ih hslides hnumbered' hinside'
    | false =>
      obtain ⟨s', move', hloop, hslides', hleft⟩ := ih hslides hnumbered' hinside'
      rw [if_neg (by decide), hloop, ok_bind,
        List.filter_cons_of_pos (by rw [hreceived]; rfl), ← hleft]
      exact ⟨_, move', rfl, hslides', rfl⟩

/-! ## Runs -/

/-- The call carries sequence control fields. -/
def Call.WellFormed : Call → Prop
  | .storePacket m => Numbered m
  | .notifyGotAck m => Numbered m
  | .notifyGotBlockAck _ _ _ => True
  | .notifyMissedBlockAck _ _ => True
  | .notifyDiscardedMpdu m _ => Numbered m

/-- The call moves the window start past no MPDU that stays in flight: a stored MPDU beyond the
window past none of the list, an acknowledged one, which is in the window, past none but itself;
and where MPDUs are handled in turn, the lifetime of none is over behind one that stays. -/
def Call.KeepsPace (s : OriginatorState) : Call → Prop
  | .storePacket m =>
    seqDistance m.sequenceNumber s.txWindow.winStart < SEQNO_SPACE_HALF_SIZE →
    ∀ x ∈ s.inFlight, storeMove s.txWindow (seqDistance m.sequenceNumber s.txWindow.winStart) ≤
      seqDistance x.sequenceNumber s.txWindow.winStart
  | .notifyGotAck m =>
    seqDistance m.sequenceNumber s.txWindow.winStart < SEQNO_SPACE_HALF_SIZE →
    seqDistance m.sequenceNumber s.txWindow.winStart < s.txWindow.getWinSize ∧
    ∀ x ∈ s.inFlight.eraseP fun x => x.sequenceNumber == m.sequenceNumber,
      ackMove s.txWindow (seqDistance m.sequenceNumber s.txWindow.winStart) ≤
        seqDistance x.sequenceNumber s.txWindow.winStart
  | .notifyGotBlockAck linkId isPacketReceived q =>
    NoneExpiresBehind q (gotStatus linkId)
      (s.inFlight.filter fun m => !isPacketReceived m.sequenceNumber)
  | .notifyMissedBlockAck linkId q => NoneExpiresBehind q (missedStatus linkId) s.inFlight
  | .notifyDiscardedMpdu _ _ => True

instance (call : Call) : Decidable call.WellFormed := by
  cases call <;> unfold Call.WellFormed <;> infer_instance

instance (s : OriginatorState) (call : Call) : Decidable (call.KeepsPace s) := by
  cases call <;> unfold Call.KeepsPace <;> infer_instance

theorem Tidy.exec (h : Tidy size s) (hpos : 0 < size) (hle : size ≤ 1024) {call : Call}
    (hcall : call.WellFormed) (hkeeps : call.KeepsPace s) :
    ∃ s', exec s call = .ok s' ∧ Tidy size s' := by
  have hslides := Slides.start h.window h.winSize hpos hle
  cases call with
  | storePacket m => exact h.storePacket hpos hcall hkeeps
  | notifyGotAck m =>
    unfold Call.KeepsPace at hkeeps
    rw [h.winSize] at hkeeps
    exact h.notifyGotAck hpos hle hcall hkeeps
  | notifyGotBlockAck linkId isPacketReceived q =>
    obtain ⟨s₁, move, hack, hslides₁, hleft⟩ : ∃ s₁ move,
        ackLoop isPacketReceived s.txWindow s.inFlight = .ok s₁ ∧
        Slides s.txWindow.winStart move size s₁.txWindow ∧
        s₁.inFlight = s.inFlight.filter fun m => !isPacketReceived m.sequenceNumber :=
      ackLoop_of hslides h.numbered h.inside
    have hsub : s₁.inFlight.Sublist s.inFlight := by
      rw [hleft]
      exact List.filter_sublist
    rw [BlockAckManager.exec, notifyGotBlockAck, hack, ok_bind]
    refine handleAll_of hslides₁ (fun x hx => h.numbered x (hsub.subset hx))
      (h.sorted.sublist hsub) (fun x hx => h.inside x (hsub.subset hx)) ?_
    rw [hleft]
    exact hkeeps
  | notifyMissedBlockAck linkId q =>
    exact handleAll_of hslides h.numbered h.sorted h.inside hkeeps
  | notifyDiscardedMpdu m q => exact h.notifyDiscardedMpdu hpos hle hcall q

theorem execAll_concat (s : OriginatorState) (calls : List Call) (call : Call) :
    execAll s (calls ++ [call]) = execAll s calls >>= fun t => exec t call := by
  rw [execAll, List.foldlM_append]
  exact bind_congr fun t => by simp

/-- **In flight.**  In a run whose calls keep pace, every call returns, and after it the MPDUs in
flight are sorted, without duplicates, and in the window; none is old, in particular not after a
discarded MPDU. -/
theorem execAll_matchesWindow {start : Nat} {calls : List Call} (hstart : start < SEQNO_SPACE_SIZE)
    (hpos : 0 < size) (hle : size ≤ 1024) (hcalls : ∀ call ∈ calls, call.WellFormed)
    (hkeeps : ∀ past call s, past ++ [call] <+: calls →
      execAll (establish start size) past = .ok s →
      call.KeepsPace s) :
    ∀ past, past <+: calls →
      ∃ s, execAll (establish start size) past = .ok s ∧ MatchesWindow s ∧ NoOldMpdu s := by
  have hrun : ∀ past, past <+: calls →
      ∃ s, execAll (establish start size) past = .ok s ∧ Tidy size s := by
    intro past hpre
    induction past using List.reverseRecOn with
    | nil => exact ⟨_, rfl, .establish hstart⟩
    | append_singleton past call ih =>
      obtain ⟨s, hs, htidy⟩ := ih ((List.prefix_append past [call]).trans hpre)
      obtain ⟨s', hs', htidy'⟩ := htidy.exec hpos hle (hcalls call (hpre.subset (by simp)))
        (hkeeps past call s hpre hs)
      refine ⟨s', ?_, htidy'⟩
      rw [execAll_concat, hs]
      exact hs'
  intro past hpre
  obtain ⟨s, hs, htidy⟩ := hrun past hpre
  exact ⟨s, hs, htidy.matchesWindow, htidy.noOldMpdu hle⟩

def twoLinks : EdcaQueue where
  isQueued := fun _ => true
  isRetry := fun _ => false
  expired := fun _ => false
  inflights := fun m => if m.sequenceNumber = 1 then [1] else [0]

/-- Two MPDUs in flight on two links, the second of which misses its block ack; its lifetime is
over later. -/
theorem execAll_matchesWindow_twoLinks :
    ∃ s, execAll (establish 0 4) [.storePacket ⟨0, 0, 10⟩, .storePacket ⟨1, 0, 11⟩,
      .notifyMissedBlockAck 1 twoLinks, .notifyDiscardedMpdu ⟨1, 0, 11⟩ twoLinks] = .ok s ∧
      MatchesWindow s ∧ NoOldMpdu s := by
  refine execAll_matchesWindow (by decide) (by decide) (by decide) (by decide) ?_ _
    (List.prefix_refl _)
  intro past call s hpre hs
  obtain ⟨rfl, rfl⟩ | ⟨_, rfl, hpre₁⟩ := before_cons hpre
  · cases hs
    decide
  obtain ⟨rfl, rfl⟩ | ⟨_, rfl, hpre₂⟩ := before_cons hpre₁
  · cases hs
    decide
  obtain ⟨rfl, rfl⟩ | ⟨_, rfl, hpre₃⟩ := before_cons hpre₂
  · cases hs
    decide
  obtain ⟨rfl, rfl⟩ := before_singleton hpre₃
  exact trivial

/-- A stored MPDU beyond the window leaves number 0 in flight behind the window start, and it stays
in the list when number 1 is discarded. -/
theorem execAll_keeps_oldMpdu :
    ¬∀ (start size : Nat) (calls : List Call), start < SEQNO_SPACE_SIZE → 0 < size → size ≤ 1024 →
      (∀ call ∈ calls, call.WellFormed) → ∀ past, past <+: calls →
      ∃ s, execAll (establish start size) past = .ok s ∧ MatchesWindow s ∧
        ∀ before m q, past = before ++ [.notifyDiscardedMpdu m q] → NoOldMpdu s := by
  intro h
  let calls : List Call := [.storePacket ⟨0, 0, 10⟩, .storePacket ⟨1, 0, 11⟩,
    .notifyMissedBlockAck 1 twoLinks, .storePacket ⟨4, 0, 14⟩, .storePacket ⟨2, 0, 12⟩,
    .notifyDiscardedMpdu ⟨1, 0, 11⟩ twoLinks]
  have hcalls : ∀ call ∈ calls, call.WellFormed := by decide
  obtain ⟨s, hs, -, hold⟩ := h 0 4 calls (by decide) (by decide) (by decide) hcalls calls
    (List.prefix_refl _)
  have hend : execAll (establish 0 4) calls = .ok
      { txWindow := { winStart := 2, window := [false, false, false, false], head := 2 }
        inFlight := [⟨2, 0, 12⟩, ⟨0, 0, 10⟩, ⟨4, 0, 14⟩] } := by decide
  cases hend.symm.trans hs
  exact absurd (hold (calls.take 5) ⟨1, 0, 11⟩ twoLinks rfl) (by decide)

end Ns3.BlockAckManager
