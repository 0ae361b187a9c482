/-
  The MPDUs in flight and the transmit window.

  As long as the window start never passes an MPDU that stays in flight, the list of
  the MPDUs in flight is sorted by the distance from the window start and lies in the
  window.  `Tidy` is this invariant between calls; `Walking` is what it becomes inside a
  call that moves the window while it walks over the list.
-/
import Ns3.Wifi.BlockAckManager

namespace Ns3.BlockAckManager

open OriginatorBlockAckAgreement

/-! ## The order of the MPDUs in flight -/

variable {ms : List WifiMpdu}

/-- `m` comes before `m'` seen from `start`: by distance, then by fragment number. -/
def Before (start : Nat) (m m' : WifiMpdu) : Prop :=
  seqDistance m.sequenceNumber start < seqDistance m'.sequenceNumber start ∨
    (seqDistance m.sequenceNumber start = seqDistance m'.sequenceNumber start ∧
      m.fragmentNumber < m'.fragmentNumber)

instance (start : Nat) (m m' : WifiMpdu) : Decidable (Before start m m') :=
  inferInstanceAs (Decidable (_ ∨ _))

def Numbered (m : WifiMpdu) : Prop := m.sequenceNumber < SEQNO_SPACE_SIZE ∧ m.fragmentNumber < 16

instance (m : WifiMpdu) : Decidable (Numbered m) := inferInstanceAs (Decidable (_ ∧ _))

/-- The list in flight matches the transmit window. -/
structure MatchesWindow (s : OriginatorState) : Prop where
  sorted : s.inFlight.Pairwise (Before s.txWindow.winStart)
  inside : ∀ m ∈ s.inFlight,
    seqDistance m.sequenceNumber s.txWindow.winStart < SEQNO_SPACE_HALF_SIZE →
    seqDistance m.sequenceNumber s.txWindow.winStart < s.txWindow.getWinSize

def NoOldMpdu (s : OriginatorState) : Prop :=
  ∀ m ∈ s.inFlight, seqDistance m.sequenceNumber s.txWindow.winStart < SEQNO_SPACE_HALF_SIZE

instance (s : OriginatorState) : Decidable (NoOldMpdu s) :=
  inferInstanceAs (Decidable (∀ m ∈ s.inFlight, _))

/-- The MPDUs in flight are sorted and inside the window. -/
structure Tidy (size : Nat) (s : OriginatorState) : Prop where
  window : s.txWindow.WellFormed
  winSize : s.txWindow.getWinSize = size
  numbered : ∀ m ∈ s.inFlight, Numbered m
  sorted : s.inFlight.Pairwise (Before s.txWindow.winStart)
  inside : ∀ m ∈ s.inFlight, seqDistance m.sequenceNumber s.txWindow.winStart < size

variable {start size ref move : Nat} {s : OriginatorState} {m x y : WifiMpdu}

theorem Tidy.matchesWindow (h : Tidy size s) : MatchesWindow s where
  sorted := h.sorted
  inside := fun m hm _ => by
    rw [h.winSize]
    exact h.inside m hm

theorem Tidy.noOldMpdu (h : Tidy size s) (hsize : size ≤ 1024) : NoOldMpdu s := by
  intro m hm
  have hin := h.inside m hm
  simp only [SEQNO_SPACE_HALF_SIZE, SEQNO_SPACE_SIZE]
  omega

theorem Tidy.establish (hstart : start < SEQNO_SPACE_SIZE) : Tidy size (establish start size) where
  window := .init hstart
  winSize := BlockAckWindow.getWinSize_init _ _
  numbered := nofun
  sorted := .nil
  inside := nofun

theorem before_or_before (hstart : start < SEQNO_SPACE_SIZE) (hx : Numbered x) (hy : Numbered y)
    (hne : x.sequenceControl ≠ y.sequenceControl) (hnot : ¬Before start x y) :
    Before start y x := by
  unfold Before at *
  rcases Nat.lt_trichotomy (seqDistance x.sequenceNumber start) (seqDistance y.sequenceNumber start)
    with hlt | heq | hgt
  · exact absurd (.inl hlt) hnot
  · refine .inr ⟨heq.symm, ?_⟩
    have hseq := seqDistance_injective hx.1 hy.1 hstart heq
    have hfrag : x.fragmentNumber ≠ y.fragmentNumber := by
      intro hfrag
      refine hne ?_
      rw [WifiMpdu.sequenceControl, WifiMpdu.sequenceControl, hseq, hfrag]
    have hge : ¬x.fragmentNumber < y.fragmentNumber := fun hlt => hnot (.inr ⟨heq, hlt⟩)
    omega
  · exact .inl hgt

theorem Before.trans {z : WifiMpdu} (hxy : Before start x y) (hyz : Before start y z) :
    Before start x z := by
  unfold Before at *
  omega

theorem Before.advance {k : Nat} (hstart : start < SEQNO_SPACE_SIZE)
    (hx : x.sequenceNumber < SEQNO_SPACE_SIZE) (hy : y.sequenceNumber < SEQNO_SPACE_SIZE)
    (hkx : k ≤ seqDistance x.sequenceNumber start) (hky : k ≤ seqDistance y.sequenceNumber start)
    (h : Before start x y) : Before ((start + k) % SEQNO_SPACE_SIZE) x y := by
  unfold Before at *
  rw [seqDistance_advance hx hstart hkx, seqDistance_advance hy hstart hky]
  omega

theorem sorted_advance {k : Nat} (hstart : start < SEQNO_SPACE_SIZE)
    (hnumbered : ∀ m ∈ ms, Numbered m) (hk : ∀ m ∈ ms, k ≤ seqDistance m.sequenceNumber start)
    (h : ms.Pairwise (Before start)) : ms.Pairwise (Before ((start + k) % SEQNO_SPACE_SIZE)) := by
  refine h.imp_of_mem ?_
  intro x y hx hy hxy
  exact hxy.advance hstart (hnumbered x hx).1 (hnumbered y hy).1 (hk x hx) (hk y hy)

/-! ## StorePacket -/

variable {w : BlockAckWindow}

/-- How far `NotifyTransmittedMpdu` moves the window for an MPDU at distance `distance`. -/
def storeMove (w : BlockAckWindow) (distance : Nat) : Nat :=
  if distance < w.getWinSize then 0
  else (distance - w.getWinSize + 1) + leading (w.bits.drop (distance - w.getWinSize + 1))

theorem storeScan_of (hw : w.WellFormed) (hm : Numbered m) (hms : ∀ x ∈ ms, Numbered x)
    (hsorted : ms.Pairwise fun x y => Before w.winStart y x) :
    ∃ r, storeScan w m (seqDistance m.sequenceNumber w.winStart) ms = .ok r ∧
      (r = none → ∃ x ∈ ms, x.sequenceControl = m.sequenceControl) ∧
      ∀ ms', r = some ms' → ms'.Perm (m :: ms) ∧
        ms'.Pairwise fun x y => Before w.winStart y x := by
  induction ms with
  | nil =>
    refine ⟨some [m], rfl, (fun h => by cases h), fun ms' hms' => ?_⟩
    cases hms'
    exact ⟨.refl _, List.pairwise_singleton _ _⟩
  | cons x rest ih =>
    obtain ⟨hhead, htail⟩ := List.pairwise_cons.mp hsorted
    have hx := hms x (.head _)
    rw [storeScan]
    by_cases hsame : m.sequenceControl = x.sequenceControl
    · rw [if_pos hsame]
      exact ⟨none, rfl, fun _ => ⟨x, .head _, hsame.symm⟩, fun _ h => by cases h⟩
    · rw [if_neg hsame, BlockAckWindow.getWinStart, getDistance_of hx.1 hw.winStart_lt, ok_bind]
      split
      · rename_i hafter
        have hbefore : Before w.winStart x m := by
          unfold Before
          omega
        refine ⟨_, rfl, (fun h => by cases h), fun ms' hms' => ?_⟩
        cases hms'
        refine ⟨.refl _, List.pairwise_cons.mpr ⟨?_, hsorted⟩⟩
        intro y hy
        rcases List.mem_cons.mp hy with rfl | hy
        · exact hbefore
        · exact (hhead y hy).trans hbefore
      · rename_i hnot
        have hbefore : Before w.winStart m x := by
          refine before_or_before hw.winStart_lt hx hm (fun h => hsame h.symm) ?_
          unfold Before
          omega
        obtain ⟨r, hscan, hnone, hsome⟩ :=
          ih (fun y hy => hms y (.tail _ hy)) htail
        rw [hscan, ok_bind]
        refine ⟨r.map (x :: ·), rfl, ?_, ?_⟩
        · intro hr
          obtain ⟨y, hy, hyeq⟩ := hnone (Option.map_eq_none_iff.mp hr)
          exact ⟨y, List.mem_cons_of_mem _ hy, hyeq⟩
        · intro ms' hms'
          obtain ⟨rest', hrest', rfl⟩ := Option.map_eq_some_iff.mp hms'
          obtain ⟨hperm, hpair⟩ := hsome rest' hrest'
          refine ⟨(hperm.cons x).trans (.swap m x rest), List.pairwise_cons.mpr ⟨?_, hpair⟩⟩
          intro y hy
          rcases List.mem_cons.mp (hperm.subset hy) with rfl | hy
          · exact hbefore
          · exact hhead y hy

theorem notifyTransmittedMpdu_of (hw : w.WellFormed) (hpos : 0 < w.getWinSize)
    (hseq : m.sequenceNumber < SEQNO_SPACE_SIZE)
    (hahead : seqDistance m.sequenceNumber w.winStart < SEQNO_SPACE_HALF_SIZE) :
    ∃ w', notifyTransmittedMpdu w m = .ok w' ∧ w'.WellFormed ∧ w'.getWinSize = w.getWinSize ∧
      w'.winStart =
        (w.winStart + storeMove w (seqDistance m.sequenceNumber w.winStart)) % SEQNO_SPACE_SIZE ∧
      storeMove w (seqDistance m.sequenceNumber w.winStart) ≤
        seqDistance m.sequenceNumber w.winStart ∧
      seqDistance m.sequenceNumber w.winStart <
        storeMove w (seqDistance m.sequenceNumber w.winStart) + w.getWinSize := by
  rw [notifyTransmittedMpdu, BlockAckWindow.getWinStart,
    getDistance_of hseq hw.winStart_lt, ok_bind,
    if_neg (Nat.not_le_of_lt hahead), storeMove]
  generalize seqDistance m.sequenceNumber w.winStart = distance
  by_cases hin : distance < w.getWinSize
  · rw [if_neg (Nat.not_le_of_lt hin), if_pos hin]
    exact ⟨w, rfl, hw, rfl, (Nat.mod_eq_of_lt hw.winStart_lt).symm, Nat.zero_le _, by omega⟩
  · rw [if_pos (Nat.le_of_not_lt hin), if_neg hin]
    let count := distance - w.getWinSize + 1
    obtain ⟨hwa, hsizea, hbits⟩ := BlockAckWindow.advance_of hw count
    obtain ⟨w', hadvance, hw', hsize', hstart', _⟩ :=
      advanceTxWindow_of hwa (by rw [hsizea]; exact hpos)
    have hlead : leading (w.advance count).bits = leading (w.bits.drop count) := by
      rw [hbits]
      exact leading_append_replicate _ _
    have hle : leading (w.bits.drop count) ≤ w.getWinSize - count := by
      have hlen := leading_le (w.bits.drop count)
      rw [List.length_drop, BlockAckWindow.length_bits] at hlen
      exact hlen
    refine ⟨w', hadvance, hw', hsize'.trans hsizea, ?_, ?_, ?_⟩
    · rw [hstart', hlead, BlockAckWindow.winStart_advance, Nat.mod_add_mod, Nat.add_assoc]
    · dsimp only [count] at hle
      omega
    · omega

/-- An MPDU finds its place, and moves the window over none in flight. -/
theorem Tidy.storePacket (h : Tidy size s) (hpos : 0 < size) (hm : Numbered m)
    (hkeeps : seqDistance m.sequenceNumber s.txWindow.winStart < SEQNO_SPACE_HALF_SIZE →
      ∀ x ∈ s.inFlight, storeMove s.txWindow (seqDistance m.sequenceNumber s.txWindow.winStart) ≤
        seqDistance x.sequenceNumber s.txWindow.winStart) :
    ∃ s', storePacket s m = .ok s' ∧ Tidy size s' := by
  rw [BlockAckManager.storePacket, BlockAckWindow.getWinStart,
    getDistance_of hm.1 h.window.winStart_lt, ok_bind]
  by_cases hold : seqDistance m.sequenceNumber s.txWindow.winStart ≥ SEQNO_SPACE_HALF_SIZE
  · rw [if_pos hold]
    exact ⟨s, rfl, h⟩
  · rw [if_neg hold]
    have hahead := Nat.lt_of_not_le hold
    obtain ⟨r, hscan, _, hsome⟩ := storeScan_of h.window hm
      (fun x hx => h.numbered x (List.mem_reverse.mp hx)) (List.pairwise_reverse.mpr h.sorted)
    rw [hscan, ok_bind]
    cases r with
    | none => exact ⟨s, rfl, h⟩
    | some ms =>
      obtain ⟨hperm, hpair⟩ := hsome ms rfl
      obtain ⟨w', hnotify, hw', hsize', hstart', hle, hlt⟩ :=
        notifyTransmittedMpdu_of h.window (by rw [h.winSize]; exact hpos) hm.1 hahead
      rw [h.winSize] at hlt
      have hmem : ∀ x ∈ ms.reverse, x = m ∨ x ∈ s.inFlight := by
        intro x hx
        rcases List.mem_cons.mp (hperm.subset (List.mem_reverse.mp hx)) with hx | hx
        · exact .inl hx
        · exact .inr (List.mem_reverse.mp hx)
      have hnumbered : ∀ x ∈ ms.reverse, Numbered x := by
        intro x hx
        rcases hmem x hx with rfl | hx
        · exact hm
        · exact h.numbered x hx
      have hpassed : ∀ x ∈ ms.reverse,
          storeMove s.txWindow (seqDistance m.sequenceNumber s.txWindow.winStart) ≤
            seqDistance x.sequenceNumber s.txWindow.winStart := by
        intro x hx
        rcases hmem x hx with rfl | hx
        · exact hle
        · exact hkeeps hahead x hx
      dsimp only
      rw [hnotify]
      refine ⟨_, rfl, hw', hsize'.trans h.winSize, hnumbered, ?_, ?_⟩
      · dsimp only
        rw [hstart']
        exact sorted_advance h.window.winStart_lt hnumbered hpassed
          (List.pairwise_reverse.mpr hpair)
      · intro x hx
        dsimp only
        rw [hstart', seqDistance_advance (hnumbered x hx).1 h.window.winStart_lt (hpassed x hx)]
        rcases hmem x hx with rfl | hx
        · omega
        · have hin := h.inside x hx
          omega

/-! ## NotifyGotAck -/

/-- How far `NotifyAckedMpdu` moves the window for an MPDU at distance `distance`. -/
def ackMove (w : BlockAckWindow) (distance : Nat) : Nat := leading (w.bits.set distance true)

theorem Tidy.notifyGotAck (h : Tidy size s) (hpos : 0 < size) (hle : size ≤ 1024) (hm : Numbered m)
    (hkeeps : seqDistance m.sequenceNumber s.txWindow.winStart < SEQNO_SPACE_HALF_SIZE →
      seqDistance m.sequenceNumber s.txWindow.winStart < size ∧
      ∀ x ∈ s.inFlight.eraseP fun x => x.sequenceNumber == m.sequenceNumber,
        ackMove s.txWindow (seqDistance m.sequenceNumber s.txWindow.winStart) ≤
          seqDistance x.sequenceNumber s.txWindow.winStart) :
    ∃ s', notifyGotAck s m = .ok s' ∧ Tidy size s' := by
  have hsub :
      (s.inFlight.eraseP fun x => x.sequenceNumber == m.sequenceNumber).Sublist s.inFlight :=
    List.eraseP_sublist
  rw [BlockAckManager.notifyGotAck]
  by_cases hold : seqDistance m.sequenceNumber s.txWindow.winStart ≥ SEQNO_SPACE_HALF_SIZE
  · rw [notifyAckedMpdu_old h.window hm.1 hold, ok_bind]
    exact ⟨_, rfl, h.window, h.winSize, fun x hx => h.numbered x (hsub.subset hx),
      h.sorted.sublist hsub, fun x hx => h.inside x (hsub.subset hx)⟩
  · obtain ⟨hin, hpassed⟩ := hkeeps (Nat.lt_of_not_le hold)
    have hslides := Slides.start h.window h.winSize hpos hle
    obtain ⟨w', hacked, hw'⟩ := hslides.acked hm.1 (Nat.zero_le _) hin
    rw [Nat.zero_add, Nat.sub_zero] at hw'
    have hnumbered : ∀ x ∈ s.inFlight.eraseP fun x => x.sequenceNumber == m.sequenceNumber,
        Numbered x := fun x hx => h.numbered x (hsub.subset hx)
    rw [hacked, ok_bind]
    refine ⟨_, rfl, hw'.wellFormed, hw'.winSize, hnumbered, ?_, ?_⟩
    · dsimp only
      rw [hw'.winStart]
      exact sorted_advance h.window.winStart_lt hnumbered hpassed (h.sorted.sublist hsub)
    · intro x hx
      have hxin := h.inside x (hsub.subset hx)
      dsimp only
      rw [hw'.distance_ahead (hnumbered x hx).1 (hpassed x hx)]
      omega

/-! ## NotifyDiscardedMpdu -/

theorem dropOld_of (hw : w.WellFormed) (hms : ∀ x ∈ ms, Numbered x) :
    dropOld w ms = .ok (ms.dropWhile fun x =>
      decide (seqDistance x.sequenceNumber w.winStart ≥ SEQNO_SPACE_HALF_SIZE)) := by
  induction ms with
  | nil => rfl
  | cons x rest ih =>
    rw [dropOld, BlockAckWindow.getWinStart,
      getDistance_of (hms x (.head _)).1 hw.winStart_lt, ok_bind, List.dropWhile_cons]
    by_cases hold : seqDistance x.sequenceNumber w.winStart ≥ SEQNO_SPACE_HALF_SIZE
    · rw [if_pos hold, if_pos (decide_eq_true hold)]
      exact ih fun y hy => hms y (.tail _ hy)
    · rw [if_neg hold, if_neg (by simpa using hold)]
      rfl

theorem dropOld_sorted (hslides : Slides ref move size w) (hms : ∀ x ∈ ms, Numbered x)
    (hin : ∀ x ∈ ms, seqDistance x.sequenceNumber ref < size) (hsorted : ms.Pairwise (Before ref)) :
    ∀ x ∈ ms.dropWhile fun x =>
        decide (seqDistance x.sequenceNumber w.winStart ≥ SEQNO_SPACE_HALF_SIZE),
      move ≤ seqDistance x.sequenceNumber ref := by
  induction ms with
  | nil => exact nofun
  | cons y rest ih =>
    obtain ⟨hhead, htail⟩ := List.pairwise_cons.mp hsorted
    have hold := hslides.old_iff (hms y (.head _)).1 (hin y (.head _))
    rw [List.dropWhile_cons]
    by_cases hpassed : seqDistance y.sequenceNumber ref < move
    · rw [if_pos (decide_eq_true (hold.mpr hpassed))]
      exact ih (fun x hx => hms x (.tail _ hx))
        (fun x hx => hin x (.tail _ hx)) htail
    · rw [if_neg (by simpa using fun h => hpassed (hold.mp h))]
      intro x hx
      rcases List.mem_cons.mp hx with rfl | hx
      · exact Nat.le_of_not_lt hpassed
      · have hbefore := hhead x hx
        unfold Before at hbefore
        omega

end Ns3.BlockAckManager
