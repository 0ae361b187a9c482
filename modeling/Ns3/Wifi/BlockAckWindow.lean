/-
  The bitmap of a block ack agreement
  (src/wifi/model/block-ack-window.h, block-ack-window.cc, and the sequence number
  space of block-ack-agreement.cc, wifi-utils.h).

  The window is a vector of bits read round from `m_head`; bit `d` is about the
  sequence number `d` after the window start.
-/
import Ns3.Core.Fault
import Ns3.Lib.Ring

namespace Ns3

open Ns3.Lib

/-! ## The sequence number space -/

abbrev SEQNO_SPACE_SIZE : Nat := 4096

abbrev SEQNO_SPACE_HALF_SIZE : Nat := SEQNO_SPACE_SIZE / 2

/-- How far `seqNumber` lies ahead of `startingSeqNumber`. -/
def seqDistance (seqNumber startingSeqNumber : Nat) : Nat :=
  (seqNumber + SEQNO_SPACE_SIZE - startingSeqNumber) % SEQNO_SPACE_SIZE

/-- The same expression where the code computes it in `int` without asserting that both
are sequence numbers. -/
def seqOffset (seqNumber startingSeqNumber : Nat) : Int :=
  Int.tmod ((seqNumber : Int) - startingSeqNumber + SEQNO_SPACE_SIZE) SEQNO_SPACE_SIZE

def getDistance (seqNumber startingSeqNumber : Nat) : Except Fault Nat := do
  nsAssert (decide (seqNumber < SEQNO_SPACE_SIZE ∧ startingSeqNumber < SEQNO_SPACE_SIZE))
  pure (seqDistance seqNumber startingSeqNumber)

section Distance

variable {seq seq' start k : Nat}

theorem getDistance_of (hseq : seq < SEQNO_SPACE_SIZE) (hstart : start < SEQNO_SPACE_SIZE) :
    getDistance seq start = .ok (seqDistance seq start) := by
  rw [getDistance, nsAssert_of ⟨hseq, hstart⟩]
  rfl

theorem seqOffset_eq (hstart : start < SEQNO_SPACE_SIZE) :
    seqOffset seq start = seqDistance seq start := by
  simp only [seqOffset, seqDistance, SEQNO_SPACE_SIZE] at *
  rw [Int.tmod_eq_emod_of_nonneg (by omega)]
  omega

@[simp] theorem seqDistance_self (start : Nat) : seqDistance start start = 0 := by
  simp only [seqDistance, SEQNO_SPACE_SIZE] at *
  omega

theorem add_seqDistance (hseq : seq < SEQNO_SPACE_SIZE) (hstart : start < SEQNO_SPACE_SIZE) :
    (start + seqDistance seq start) % SEQNO_SPACE_SIZE = seq := by
  simp only [seqDistance, SEQNO_SPACE_SIZE] at *
  omega

theorem seqDistance_add (hstart : start < SEQNO_SPACE_SIZE) (hk : k < SEQNO_SPACE_SIZE) :
    seqDistance ((start + k) % SEQNO_SPACE_SIZE) start = k := by
  simp only [seqDistance, SEQNO_SPACE_SIZE] at *
  omega

theorem seqDistance_injective (hseq : seq < SEQNO_SPACE_SIZE) (hseq' : seq' < SEQNO_SPACE_SIZE)
    (hstart : start < SEQNO_SPACE_SIZE) (h : seqDistance seq start = seqDistance seq' start) :
    seq = seq' := by
  rw [← add_seqDistance hseq hstart, h, add_seqDistance hseq' hstart]

theorem seqDistance_advance (hseq : seq < SEQNO_SPACE_SIZE) (hstart : start < SEQNO_SPACE_SIZE)
    (hk : k ≤ seqDistance seq start) :
    seqDistance seq ((start + k) % SEQNO_SPACE_SIZE) = seqDistance seq start - k := by
  simp only [seqDistance, SEQNO_SPACE_SIZE] at *
  omega

theorem seqDistance_passed (hseq : seq < SEQNO_SPACE_SIZE) (hstart : start < SEQNO_SPACE_SIZE)
    (hk : seqDistance seq start < k) (hlt : k ≤ SEQNO_SPACE_SIZE) :
    seqDistance seq ((start + k) % SEQNO_SPACE_SIZE) =
      seqDistance seq start + SEQNO_SPACE_SIZE - k := by
  simp only [seqDistance, SEQNO_SPACE_SIZE] at *
  omega

end Distance

/-! ## The window -/

structure BlockAckWindow where
  winStart : Nat
  window : List Bool
  head : Nat
  deriving DecidableEq, Repr, Inhabited

namespace BlockAckWindow

def init (winStart winSize : Nat) : BlockAckWindow :=
  { winStart, window := List.replicate winSize false, head := 0 }

def getWinStart (w : BlockAckWindow) : Nat := w.winStart

def getWinSize (w : BlockAckWindow) : Nat := w.window.length

def reset (w : BlockAckWindow) (winStart : Nat) : BlockAckWindow := init winStart w.window.length

def «at» (w : BlockAckWindow) (distance : Nat) : Except Fault Bool := do
  nsAssert (decide (distance < w.window.length))
  pure (w.window.getD ((w.head + distance) % w.window.length) false)

def setAt (w : BlockAckWindow) (distance : Nat) : Except Fault BlockAckWindow := do
  nsAssert (decide (distance < w.window.length))
  pure { w with window := w.window.set ((w.head + distance) % w.window.length) true }

/-- The loop of `Advance`. -/
def clearHead (w : BlockAckWindow) : Nat → BlockAckWindow
  | 0 => w
  | i + 1 =>
    clearHead { w with
      window := w.window.set w.head false
      head := (w.head + 1) % w.window.length } i

def advance (w : BlockAckWindow) (count : Nat) : BlockAckWindow :=
  if count ≥ w.window.length then w.reset ((w.winStart + count) % SEQNO_SPACE_SIZE)
  else { w.clearHead count with winStart := (w.winStart + count) % SEQNO_SPACE_SIZE }

/-! ## The window as a list that shifts -/

/-- The marks, from the start of the window on. -/
def bits (w : BlockAckWindow) : List Bool := Ring.view w.window w.head

/-- The head is a position of the window, and the window start a sequence number. -/
structure WellFormed (w : BlockAckWindow) : Prop where
  head_lt : 0 < w.window.length → w.head < w.window.length
  winStart_lt : w.winStart < SEQNO_SPACE_SIZE

variable {w w' : BlockAckWindow} {start size distance count : Nat} {b : Bool}

@[simp] theorem length_bits (w : BlockAckWindow) : w.bits.length = w.getWinSize :=
  Ring.length_view

theorem WellFormed.init (hstart : start < SEQNO_SPACE_SIZE) : (init start size).WellFormed :=
  ⟨fun hpos => hpos, hstart⟩

@[simp] theorem bits_init (start size : Nat) : (init start size).bits = List.replicate size false :=
  Ring.view_zero

@[simp] theorem getWinSize_init (start size : Nat) : (init start size).getWinSize = size :=
  List.length_replicate

theorem at_of (hdistance : distance < w.getWinSize) :
    w.at distance = .ok (w.bits.getD distance false) := by
  unfold getWinSize at hdistance
  have hget : w.bits[distance]? = w.window[(w.head + distance) % w.window.length]? :=
    Ring.getElem?_view hdistance
  rw [BlockAckWindow.at, nsAssert_of hdistance, ok_bind, List.getD_eq_getElem?_getD, ← hget,
    List.getD_eq_getElem?_getD]
  rfl

theorem at_eq_error (hdistance : ¬distance < w.getWinSize) :
    w.at distance = .error .assertFailed := by
  unfold getWinSize at hdistance
  rw [BlockAckWindow.at, decide_eq_false hdistance]
  rfl

theorem setAt_of (hw : w.WellFormed) (hdistance : distance < w.getWinSize) :
    ∃ w', w.setAt distance = .ok w' ∧ w'.WellFormed ∧ w'.winStart = w.winStart ∧
      w'.getWinSize = w.getWinSize ∧ w'.bits = w.bits.set distance true := by
  unfold getWinSize at hdistance
  have hhead := hw.head_lt (by omega)
  refine ⟨{ w with window := w.window.set ((w.head + distance) % w.window.length) true }, ?_,
    ⟨?_, hw.winStart_lt⟩, rfl, List.length_set, Ring.view_set hhead hdistance⟩
  · rw [setAt, nsAssert_of hdistance]
    rfl
  · intro _
    dsimp only
    rw [List.length_set]
    exact hhead

theorem setAt_eq_error (hdistance : ¬distance < w.getWinSize) :
    w.setAt distance = .error .assertFailed := by
  unfold getWinSize at hdistance
  rw [setAt, decide_eq_false hdistance]
  rfl

theorem bits_clearHead (hw : w.WellFormed) (hcount : count < w.getWinSize) :
    (w.clearHead count).WellFormed ∧ (w.clearHead count).getWinSize = w.getWinSize ∧
      (w.clearHead count).bits = w.bits.drop count ++ List.replicate count false := by
  unfold getWinSize at hcount
  induction count generalizing w with
  | zero => exact ⟨hw, rfl, by simp [clearHead]⟩
  | succ i ih =>
    have hhead := hw.head_lt (by omega)
    let w₁ : BlockAckWindow := { w with
      window := w.window.set w.head false
      head := (w.head + 1) % w.window.length }
    have hlen : w₁.window.length = w.window.length := List.length_set
    have hw₁ : w₁.WellFormed := by
      refine ⟨fun _ => ?_, hw.winStart_lt⟩
      rw [hlen]
      exact Nat.mod_lt _ (by omega)
    have hbits : w₁.bits = w.bits.tail ++ [false] := Ring.view_advance hhead
    obtain ⟨hwf, hsize, hview⟩ := ih hw₁ (by rw [hlen]; omega)
    refine ⟨hwf, hsize.trans hlen, ?_⟩
    have hle : i ≤ w.bits.tail.length := by
      rw [List.length_tail, length_bits, getWinSize]
      omega
    calc (w₁.clearHead i).bits = w₁.bits.drop i ++ List.replicate i false := hview
      _ = w.bits.drop (i + 1) ++ List.replicate (i + 1) false := by
          rw [hbits, List.drop_append_of_le_length hle, List.drop_tail, List.append_assoc,
            List.replicate_succ, List.singleton_append]

theorem winStart_advance (w : BlockAckWindow) (count : Nat) :
    (w.advance count).winStart = (w.winStart + count) % SEQNO_SPACE_SIZE := by
  unfold advance
  split
  · rfl
  · rfl

theorem advance_of (hw : w.WellFormed) (count : Nat) :
    (w.advance count).WellFormed ∧ (w.advance count).getWinSize = w.getWinSize ∧
      (w.advance count).bits =
        w.bits.drop count ++ List.replicate (min count w.getWinSize) false := by
  have hlt : (w.winStart + count) % SEQNO_SPACE_SIZE < SEQNO_SPACE_SIZE :=
    Nat.mod_lt _ (by decide)
  unfold advance
  split
  · rename_i hge
    refine ⟨.init hlt, getWinSize_init _ _, ?_⟩
    rw [reset, bits_init, List.drop_eq_nil_of_le (by rw [length_bits]; exact hge), List.nil_append,
      Nat.min_eq_right (show w.getWinSize ≤ count from hge), getWinSize]
  · rename_i hcount
    obtain ⟨hwf, hsize, hbits⟩ := bits_clearHead hw (Nat.lt_of_not_le hcount)
    have hle : count ≤ w.getWinSize := Nat.le_of_lt (Nat.lt_of_not_le hcount)
    refine ⟨⟨hwf.head_lt, hlt⟩, hsize, ?_⟩
    rw [Nat.min_eq_left hle]
    exact hbits

theorem getD_bits_advance (hw : w.WellFormed) (count distance : Nat) :
    (w.advance count).bits.getD distance false = w.bits.getD (distance + count) false := by
  rw [(advance_of hw count).2.2, List.getD_eq_getElem?_getD, List.getD_eq_getElem?_getD,
    List.getElem?_append, List.length_drop]
  split
  · rw [List.getElem?_drop, Nat.add_comm]
  · rename_i hge
    have hnone : w.bits[distance + count]? = none := List.getElem?_eq_none (by omega)
    rw [hnone, List.getElem?_replicate]
    split
    · rfl
    · rfl

end BlockAckWindow

end Ns3
