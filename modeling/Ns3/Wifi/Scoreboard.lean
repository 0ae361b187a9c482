/-
  What the bits of the scoreboard mean.

  A bit of the scoreboard is about one sequence number while that number stays in the
  window.  One step lemma for each kind of frame says which bits a frame sets; the
  meaning of a bit in terms of the history follows by induction on the history.
-/
import Ns3.Wifi.ReorderingBuffer

namespace Ns3

/-! ## Bits by sequence number -/

namespace BlockAckWindow

def Covers (w : BlockAckWindow) (seqNumber : Nat) : Prop :=
  seqDistance seqNumber w.winStart < w.getWinSize

instance (w : BlockAckWindow) (seqNumber : Nat) : Decidable (w.Covers seqNumber) :=
  inferInstanceAs (Decidable (_ < _))

def bitOf (w : BlockAckWindow) (seqNumber : Nat) : Bool :=
  w.bits.getD (seqDistance seqNumber w.winStart) false

variable {w : BlockAckWindow} {s count : Nat}

theorem bitOf_of_not_covers (h : ¬w.Covers s) : w.bitOf s = false := by
  have hnone : w.bits[seqDistance s w.winStart]? = none := by
    apply List.getElem?_eq_none
    rw [length_bits]
    exact Nat.le_of_not_lt h
  rw [bitOf, List.getD_eq_getElem?_getD, hnone]
  rfl

theorem covers_of_bitOf (h : w.bitOf s = true) : w.Covers s := by
  by_contra hout
  rw [bitOf_of_not_covers hout] at h
  exact Bool.false_ne_true h

theorem at_seqDistance (h : w.Covers s) : w.at (seqDistance s w.winStart) = .ok (w.bitOf s) :=
  at_of h

theorem bitOf_advance (hw : w.WellFormed) (hs : s < SEQNO_SPACE_SIZE)
    (hsize : w.getWinSize ≤ SEQNO_SPACE_HALF_SIZE) (hcount : count ≤ SEQNO_SPACE_HALF_SIZE)
    (hcovers : (w.advance count).Covers s) : (w.advance count).bitOf s = w.bitOf s := by
  have hstart := hw.winStart_lt
  have hstart' : (w.advance count).winStart = (w.winStart + count) % SEQNO_SPACE_SIZE :=
    winStart_advance w count
  have hback : seqDistance s w.winStart = seqDistance s (w.advance count).winStart + count := by
    unfold Covers at hcovers
    rw [(advance_of hw count).2.1] at hcovers
    rw [hstart'] at hcovers ⊢
    simp only [seqDistance, SEQNO_SPACE_HALF_SIZE, SEQNO_SPACE_SIZE] at *
    omega
  rw [bitOf, bitOf, getD_bits_advance hw, hback]

end BlockAckWindow

namespace RecipientBlockAckAgreement

open BlockAckWindow

variable {w w' : BlockAckWindow} {a : RecipientBlockAckAgreement} {s seqNumber ssn start size : Nat}
  {frames : List RxFrame}

/-! ## One frame -/

theorem scoreMpdu_bits (hw : w.WellFormed) (hsize : w.getWinSize ≤ 1024)
    (hseq : seqNumber < SEQNO_SPACE_SIZE) (h : scoreMpdu w seqNumber = .ok w')
    (hs : s < SEQNO_SPACE_SIZE) (hcovers : w'.Covers s) :
    w'.bitOf s = true ↔ s = seqNumber ∨ w.bitOf s = true := by
  have set_bit : ∀ v v' : BlockAckWindow, v.WellFormed → v'.winStart = v.winStart →
      v.Covers seqNumber → v'.bits = v.bits.set (seqDistance seqNumber v.winStart) true →
      (v'.bitOf s = true ↔ s = seqNumber ∨ v.bitOf s = true) := by
    intro v v' hv hstart hin hbits
    rw [bitOf, bitOf, hstart, hbits, List.getD_eq_getElem?_getD, List.getElem?_set,
      List.getD_eq_getElem?_getD]
    by_cases heq : s = seqNumber
    · subst heq
      rw [if_pos rfl, if_pos (by rw [length_bits]; exact hin)]
      exact iff_of_true rfl (.inl rfl)
    · rw [if_neg fun hd => heq (seqDistance_injective hs hseq hv.winStart_lt hd.symm)]
      exact ⟨.inr, fun hor => hor.resolve_left heq⟩
  rw [scoreMpdu, getWinStart, getDistance_of hseq hw.winStart_lt, ok_bind] at h
  split at h
  · rename_i hin
    obtain ⟨w₁, hset, _, hstart, _, hbits⟩ := setAt_of hw hin
    obtain rfl := Except.ok.inj (hset.symm.trans h)
    exact set_bit w w₁ hw hstart hin hbits
  · rename_i hout
    split at h
    · rename_i hhalf
      have hcount :
          seqDistance seqNumber w.winStart - w.getWinSize + 1 ≤ SEQNO_SPACE_HALF_SIZE := by
        simp only [SEQNO_SPACE_HALF_SIZE, SEQNO_SPACE_SIZE] at *
        omega
      generalize hk : seqDistance seqNumber w.winStart - w.getWinSize + 1 = count at h hcount
      obtain ⟨hwa, hsizea, _⟩ := advance_of hw count
      -- an empty window fails here
      have hpos : 0 < w.getWinSize := by
        by_contra hzero
        dsimp only at h
        rw [setAt_eq_error (by omega)] at h
        cases h
      have hlast : seqDistance seqNumber (w.advance count).winStart = w.getWinSize - 1 := by
        have hstart := hw.winStart_lt
        rw [winStart_advance, seqDistance_advance hseq hstart (by omega)]
        omega
      dsimp only at h
      rw [hsizea, ← hlast] at h
      have hin : (w.advance count).Covers seqNumber := by
        unfold Covers
        rw [hlast, hsizea]
        omega
      obtain ⟨w₁, hset, _, hstart, hsize₁, hbits⟩ := setAt_of hwa hin
      obtain rfl := Except.ok.inj (hset.symm.trans h)
      rw [set_bit (w.advance count) w₁ hwa hstart hin hbits, bitOf_advance hw hs
        (hsize.trans (by decide)) hcount]
      unfold Covers at hcovers ⊢
      rw [← hstart, ← hsize₁]
      exact hcovers
    · rename_i hold
      cases h
      refine ⟨.inr, fun hor => hor.resolve_left ?_⟩
      rintro rfl
      unfold Covers at hcovers
      simp only [SEQNO_SPACE_HALF_SIZE, SEQNO_SPACE_SIZE] at *
      omega

theorem scoreBar_bits (hw : w.WellFormed) (hsize : w.getWinSize ≤ 1024)
    (hssn : ssn < SEQNO_SPACE_SIZE) (h : scoreBar w ssn = .ok w')
    (hs : s < SEQNO_SPACE_SIZE) (hcovers : w'.Covers s) : w'.bitOf s = w.bitOf s := by
  have hstart := hw.winStart_lt
  rw [scoreBar, getWinStart, getDistance_of hssn hstart, ok_bind] at h
  split at h
  · rename_i hin
    obtain ⟨_, _, rfl⟩ := bind_pure_eq_ok.mp h
    refine bitOf_advance hw hs (hsize.trans (by decide)) ?_ hcovers
    simp only [SEQNO_SPACE_HALF_SIZE, SEQNO_SPACE_SIZE] at *
    omega
  · rename_i hout
    split at h
    · rename_i hhalf
      cases h
      -- the numbers of the new window all lie past the old one
      have hfar : w.getWinSize ≤ seqDistance s w.winStart := by
        unfold Covers at hcovers
        rw [reset, getWinSize_init] at hcovers
        have hlen : w.window.length = w.getWinSize := rfl
        dsimp only [BlockAckWindow.init] at hcovers
        rw [hlen] at hcovers
        simp only [seqDistance, SEQNO_SPACE_HALF_SIZE, SEQNO_SPACE_SIZE] at *
        omega
      have hnone : w.bitOf s = false := bitOf_of_not_covers (Nat.not_lt_of_le hfar)
      have hfresh : (w.reset ssn).bitOf s = false := by
        rw [bitOf, reset, bits_init, List.getD_eq_getElem?_getD, List.getElem?_replicate]
        split
        · rfl
        · rfl
      rw [hnone, hfresh]
    · cases h
      rfl

/-! ## Histories -/

variable {a' : RecipientBlockAckAgreement}

/-- After the history `frames`, the sequence number has been received since it last entered
the window: an MPDU with that number came in, and the number has been in the window from
then on. -/
def ReceivedSince (start size : Nat) (frames : List RxFrame) (s : Nat) : Prop :=
  ∃ past mpdu rest, frames = past ++ .mpdu mpdu :: rest ∧ mpdu.sequenceNumber = s ∧
    ∀ mid b, mid <+: rest → (create size start).receiveAll (past ++ .mpdu mpdu :: mid) = .ok b →
      b.scoreboard.Covers s

variable {newWinStartB : Nat}

theorem passLessThan_scoreboard {ms : List WifiMpdu} (h : a.passLessThan newWinStartB ms = .ok a') :
    a'.scoreboard = a.scoreboard := by
  induction ms generalizing a with
  | nil =>
    cases h
    rfl
  | cons m rest ih =>
    rw [passLessThan] at h
    obtain ⟨d, _, h⟩ := bind_eq_ok.mp h
    obtain ⟨e, _, h⟩ := bind_eq_ok.mp h
    split at h
    · exact (ih h).trans rfl
    · cases h
      rfl

theorem withSeqNumberLessThan_scoreboard
    (h : a.passBufferedMpdusWithSeqNumberLessThan newWinStartB = .ok a') :
    a'.scoreboard = a.scoreboard := by
  rw [passBufferedMpdusWithSeqNumberLessThan] at h
  obtain ⟨_, _, h⟩ := bind_eq_ok.mp h
  obtain ⟨b, hb, rfl⟩ := bind_pure_eq_ok.mp h
  exact (passLessThan_scoreboard hb).trans rfl

theorem untilFirstLost_scoreboard (h : a.passBufferedMpdusUntilFirstLost = .ok a') :
    a'.scoreboard = a.scoreboard := by
  rw [passBufferedMpdusUntilFirstLost] at h
  obtain ⟨_, _, rfl⟩ := bind_pure_eq_ok.mp h
  exact (passUntilFirstLost_frame a _).1

theorem reorderMpdu_scoreboard {m : WifiMpdu} (h : a.reorderMpdu m = .ok a') :
    a'.scoreboard = a.scoreboard := by
  rw [reorderMpdu] at h
  obtain ⟨d, _, h⟩ := bind_eq_ok.mp h
  split at h
  · exact (untilFirstLost_scoreboard h).trans (store_scoreboard a m)
  · split at h
    · obtain ⟨b, hb, h⟩ := bind_eq_ok.mp h
      exact ((untilFirstLost_scoreboard h).trans (withSeqNumberLessThan_scoreboard hb)).trans
        (store_scoreboard a m)
    · cases h
      rfl

theorem reorderBar_scoreboard (h : a.reorderBar ssn = .ok a') : a'.scoreboard = a.scoreboard := by
  rw [reorderBar] at h
  obtain ⟨d, _, h⟩ := bind_eq_ok.mp h
  split at h
  · obtain ⟨b, hb, h⟩ := bind_eq_ok.mp h
    exact (untilFirstLost_scoreboard h).trans (withSeqNumberLessThan_scoreboard hb)
  · cases h
    rfl

theorem Steady.notify_bits (h : Steady start size a) (hsize : size ≤ 1024) {frame : RxFrame}
    (hseq : frame.seqNumber < SEQNO_SPACE_SIZE) (hnotify : a.notify frame = .ok a')
    (hs : s < SEQNO_SPACE_SIZE) (hcovers : a'.scoreboard.Covers s) :
    a'.scoreboard.bitOf s = true ↔
      (∃ m, frame = .mpdu m ∧ m.sequenceNumber = s) ∨ a.scoreboard.bitOf s = true := by
  have hwin : a.scoreboard.getWinSize ≤ 1024 := by
    rw [h.winSize]
    exact hsize
  cases frame with
  | mpdu m =>
    rw [RecipientBlockAckAgreement.notify, notifyReceivedMpdu] at hnotify
    obtain ⟨w, hscore, hreorder⟩ := bind_eq_ok.mp hnotify
    have hsame : a'.scoreboard = w := reorderMpdu_scoreboard hreorder
    rw [hsame] at hcovers ⊢
    rw [scoreMpdu_bits h.scoreboard hwin hseq hscore hs hcovers]
    constructor
    · rintro (rfl | hbit)
      · exact .inl ⟨m, rfl, rfl⟩
      · exact .inr hbit
    · rintro (⟨m', heq, rfl⟩ | hbit)
      · obtain rfl := RxFrame.mpdu.inj heq
        exact .inl rfl
      · exact .inr hbit
  | bar ssn =>
    rw [RecipientBlockAckAgreement.notify, notifyReceivedBar] at hnotify
    obtain ⟨w, hscore, hreorder⟩ := bind_eq_ok.mp hnotify
    have hsame : a'.scoreboard = w := reorderBar_scoreboard hreorder
    rw [hsame] at hcovers ⊢
    rw [scoreBar_bits h.scoreboard hwin hseq hscore hs hcovers]
    refine ⟨.inr, fun hor => hor.resolve_left ?_⟩
    rintro ⟨m, heq, _⟩
    cases heq

/-- A bit is set when its MPDU came in since the window last passed it. -/
theorem bitOf_iff_receivedSince (hstart : start < SEQNO_SPACE_SIZE) (hsize : size ≤ 1024)
    (hseq : ∀ frame ∈ frames, frame.seqNumber < SEQNO_SPACE_SIZE)
    (h : (create size start).receiveAll frames = .ok a) (hs : s < SEQNO_SPACE_SIZE)
    (hcovers : a.scoreboard.Covers s) :
    a.scoreboard.bitOf s = true ↔ ReceivedSince start size frames s := by
  induction frames using List.reverseRecOn generalizing a with
  | nil =>
    cases h
    constructor
    · intro hbit
      rw [bitOf, create, bits_init, List.getD_eq_getElem?_getD, List.getElem?_replicate] at hbit
      split at hbit
      · cases hbit
      · cases hbit
    · rintro ⟨past, m, rest, hnil, _⟩
      exact absurd hnil.symm (by simp)
  | append_singleton frames frame ih =>
    have hseq' : ∀ f ∈ frames, f.seqNumber < SEQNO_SPACE_SIZE :=
      fun f hf => hseq f (List.mem_append_left _ hf)
    have hrun := h
    rw [receiveAll_concat] at h
    obtain ⟨b, hb, hlast⟩ := bind_eq_ok.mp h
    have hsteady := steady_receiveAll hstart hsize hseq' hb
    rw [hsteady.notify_bits hsize (hseq frame (by simp)) hlast hs hcovers]
    constructor
    · rintro (⟨m, rfl, hm⟩ | hbit)
      · refine ⟨frames, m, [], rfl, hm, ?_⟩
        intro mid c hmid hc
        obtain rfl := List.prefix_nil.mp hmid
        cases hrun.symm.trans hc
        exact hcovers
      · obtain ⟨past, m, rest, rfl, hm, hstays⟩ := (ih hseq' hb (covers_of_bitOf hbit)).mp hbit
        refine ⟨past, m, rest ++ [frame], by simp, hm, ?_⟩
        intro mid c hmid hc
        rcases List.prefix_concat_iff.mp hmid with rfl | hmid
        · have happ : past ++ .mpdu m :: (rest ++ [frame]) =
              past ++ .mpdu m :: rest ++ [frame] := by
            simp
          rw [happ] at hc
          cases hrun.symm.trans hc
          exact hcovers
        · exact hstays mid c hmid hc
    · rintro ⟨past, m, rest, heq, hm, hstays⟩
      rcases List.eq_nil_or_concat rest with rfl | ⟨rest, last, rfl⟩
      · obtain ⟨-, hlast⟩ := List.append_inj' heq rfl
        obtain rfl : frame = .mpdu m := by simpa using hlast
        exact .inl ⟨m, rfl, hm⟩
      · have happ : past ++ .mpdu m :: (rest ++ [last]) = past ++ .mpdu m :: rest ++ [last] := by
          simp
        rw [List.concat_eq_append, happ] at heq
        obtain ⟨rfl, -⟩ := List.append_inj' heq rfl
        right
        have hin : b.scoreboard.Covers s :=
          hstays rest b (by simp) hb
        refine (ih hseq' hb hin).mpr ⟨past, m, rest, rfl, hm, ?_⟩
        intro mid c hmid hc
        exact hstays mid c (hmid.trans (by simp)) hc

end RecipientBlockAckAgreement

end Ns3
