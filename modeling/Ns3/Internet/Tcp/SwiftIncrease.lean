/-
  What the additive increase of TCP Swift keeps.

  A call reads the window in whole segments: the fraction of a segment that the call
  before it has left is dropped.  Where every call finds whole segments, a round of
  acknowledgments adds up.
-/
import Ns3.Internet.Tcp.TcpSwift
import Mathlib.Data.Nat.Cast.Order.Field

namespace Ns3.Tcp

open Ns3.Lib

namespace SwiftState

variable {st st' : SwiftState} {op : SwiftOp} {ops : List SwiftOp}

/-! ## One call -/

variable {segmentsAcked : Nat} {targetDelay : ℚ≥0}

/-- A call that acknowledges segments while the measured delay is below the target, or
takes an RTT sample. -/
def BelowTarget (st : SwiftState) : SwiftOp → Prop
  | .increaseWindow _ targetDelay segmentsAcked =>
    getSeconds st.swift.rtt < targetDelay ∧ 1 ≤ segmentsAcked
  | .pktsAcked _ _ => True
  | _ => False

instance (st : SwiftState) : (op : SwiftOp) → Decidable (st.BelowTarget op)
  | .increaseWindow _ _ _ => inferInstanceAs (Decidable (_ ∧ _))
  | .pktsAcked _ _ => inferInstanceAs (Decidable True)
  | .congestionStateSet _ _ _ => inferInstanceAs (Decidable False)
  | .cwndEvent _ _ _ => inferInstanceAs (Decidable False)

def IncreaseStep (st : SwiftState) (op : SwiftOp) (st' : SwiftState) : Prop :=
  st.Step op st' ∧ st.BelowTarget op

/-- A window that is increased has no bytes beyond its whole segments. -/
def WholeSegments (st : SwiftState) : SwiftOp → Prop
  | .increaseWindow _ _ _ => st.tcb.cWnd % st.tcb.segmentSize = 0
  | _ => True

instance (st : SwiftState) : (op : SwiftOp) → Decidable (st.WholeSegments op)
  | .increaseWindow _ _ _ => inferInstanceAs (Decidable (_ = _))
  | .pktsAcked _ _ => inferInstanceAs (Decidable True)
  | .congestionStateSet _ _ _ => inferInstanceAs (Decidable True)
  | .cwndEvent _ _ _ => inferInstanceAs (Decidable True)

/-- An additive increase on a window of whole segments. -/
def WholeStep (st : SwiftState) (op : SwiftOp) (st' : SwiftState) : Prop :=
  st.Step op st' ∧ st.BelowTarget op ∧ st.WholeSegments op

/-- The additive increase of a call, in bytes. -/
def increaseBytes (st : SwiftState) (segmentsAcked : Nat) : ℚ :=
  let cwnd := st.tcb.cWnd / st.tcb.segmentSize
  (if 1 ≤ cwnd then st.swift.ai / cwnd * segmentsAcked else st.swift.ai * segmentsAcked) *
    st.tcb.segmentSize

/-- A call adds its increase, less than a byte of which is lost. -/
def AddsIncrease (st : SwiftState) (segmentsAcked : Nat) (st' : SwiftState) : Prop :=
  st.tcb.cWnd + st.increaseBytes segmentsAcked < st'.tcb.cWnd + 1

variable {now : Time}

theorem cWnd_of_step (h : st.Step (.increaseWindow now targetDelay segmentsAcked) st') :
    0 < st.tcb.segmentSize ∧ toUint32 (st.swift.cwndOnAck (st.tcb.cWnd / st.tcb.segmentSize) now
      targetDelay segmentsAcked * st.tcb.segmentSize) = some st'.tcb.cWnd := by
  obtain ⟨⟨swift, tcb⟩, hcall, rfl⟩ := Option.map_eq_some_iff.mp h
  obtain ⟨cwnd, newCwnd, hcwnd, hnew, rfl, rfl⟩ := TcpSwift.increaseWindow_eq_some hcall
  obtain ⟨hpos, rfl⟩ := SwiftTcb.getCwndInSegments_eq_some.mp hcwnd
  exact ⟨hpos, hnew⟩

theorem segments_add_rest (st : SwiftState) : (st.tcb.cWnd : ℚ) =
    (st.tcb.cWnd / st.tcb.segmentSize * st.tcb.segmentSize : Nat) +
      (st.tcb.cWnd % st.tcb.segmentSize : Nat) := by
  exact_mod_cast (Nat.div_add_mod' st.tcb.cWnd st.tcb.segmentSize).symm

/-- Below the target the increase comes on top of the whole segments. -/
theorem toUint32_increase (h : st.Step (.increaseWindow now targetDelay segmentsAcked) st')
    (hbelow : getSeconds st.swift.rtt < targetDelay) :
    toUint32 ((st.tcb.cWnd / st.tcb.segmentSize * st.tcb.segmentSize : Nat) +
      st.increaseBytes segmentsAcked) = some st'.tcb.cWnd := by
  rw [← (cWnd_of_step h).2, TcpSwift.cwndOnAck, increaseBytes, if_pos hbelow]
  congr 1
  push_cast
  split
  · ring
  · ring

/-- **Step lemma.**  A call below the target adds its increase exactly if it finds
whole segments. -/
theorem addsIncrease_iff (h : IncreaseStep st (.increaseWindow now targetDelay segmentsAcked) st') :
    AddsIncrease st segmentsAcked st' ↔
      st.WholeSegments (.increaseWindow now targetDelay segmentsAcked) := by
  obtain ⟨hnonneg, -, hfloor⟩ := toUint32_eq_some.mp (toUint32_increase h.1 h.2.1)
  have hle := Nat.floor_le hnonneg
  have hlt := Nat.lt_floor_add_one
    ((st.tcb.cWnd / st.tcb.segmentSize * st.tcb.segmentSize : Nat) +
      st.increaseBytes segmentsAcked)
  rw [← hfloor] at hle hlt
  rw [AddsIncrease, segments_add_rest, WholeSegments]
  constructor
  · intro hadds
    by_contra hrest
    have hone : (1 : ℚ) ≤ (st.tcb.cWnd % st.tcb.segmentSize : Nat) := by
      exact_mod_cast Nat.one_le_iff_ne_zero.mpr hrest
    linarith
  · intro hwhole
    rw [hwhole, Nat.cast_zero]
    linarith

/-! ## A round of calls -/

def acked (ops : List SwiftOp) : List Nat :=
  ops.filterMap fun
    | .increaseWindow _ _ segmentsAcked => some segmentsAcked
    | _ => none

/-- How far the window `w` has come from `cWnd` bytes when the segments `ns` are acknowledged. -/
structure Grown (ai : ℚ) (cWnd segmentSize : Nat) (ns : List Nat) (st : SwiftState) : Prop where
  ai_eq : st.swift.ai = ai
  segmentSize_eq : st.tcb.segmentSize = segmentSize
  segments_ge : cWnd / segmentSize ≤ st.tcb.cWnd / segmentSize
  segments_le : ((st.tcb.cWnd / segmentSize : Nat) : ℚ) ≤
    (cWnd / segmentSize : Nat) + ai * ns.sum / (cWnd / segmentSize : Nat)
  bytes_ge : cWnd + ai * ns.sum / ((cWnd / segmentSize : Nat) + ai) * segmentSize - ns.length ≤
    st.tcb.cWnd

section Increase

variable {ai : ℚ} {cWnd segmentSize n : Nat} {ns : List Nat}

section

variable (h : Grown ai cWnd segmentSize ns st) (hai : 0 ≤ ai) (hone : 1 ≤ cWnd / segmentSize)

include h hai hone

/-- Of a window of between `c` and `c + AI` segments, a call adds at least
`AI / (c + AI)` and at most `AI / c` segments for each that it acknowledges. -/
theorem Grown.increaseBytes_bounds (hle : ns.sum ≤ cWnd / segmentSize) :
    ai / ((cWnd / segmentSize : Nat) + ai) * n * segmentSize ≤ st.increaseBytes n ∧
      st.increaseBytes n ≤ ai / (cWnd / segmentSize : Nat) * n * segmentSize := by
  have honeq : (1 : ℚ) ≤ (cWnd / segmentSize : Nat) := by exact_mod_cast hone
  have hge : ((cWnd / segmentSize : Nat) : ℚ) ≤ (st.tcb.cWnd / segmentSize : Nat) := by
    exact_mod_cast h.segments_ge
  have hshare : ai * ns.sum / (cWnd / segmentSize : Nat) ≤ ai := by
    rw [div_le_iff₀ (by linarith)]
    exact mul_le_mul_of_nonneg_left (by exact_mod_cast hle) hai
  have hupper := h.segments_le.trans (add_le_add_right hshare _)
  rw [increaseBytes, h.segmentSize_eq, h.ai_eq]
  rw [if_pos (hone.trans h.segments_ge)]
  have hpos : (0 : ℚ) < (st.tcb.cWnd / segmentSize : Nat) := by linarith
  constructor
  · gcongr
  · gcongr

/-- **Step lemma.**  An increase on whole segments keeps the bounds. -/
theorem Grown.increaseWindow (hle : ns.sum + n ≤ cWnd / segmentSize)
    (hstep : WholeStep st (.increaseWindow now targetDelay n) st') :
    Grown ai cWnd segmentSize (ns ++ [n]) st' := by
  obtain ⟨hcall, hbelow, hwhole⟩ := hstep
  obtain ⟨hlow, hhigh⟩ := h.increaseBytes_bounds (n := n) hai hone
    ((Nat.le_add_right _ _).trans hle)
  have hadds := (addsIncrease_iff ⟨hcall, hbelow⟩).mpr hwhole
  rw [AddsIncrease] at hadds
  obtain ⟨hpos, -⟩ := cWnd_of_step hcall
  obtain ⟨hnonneg, -, hfloor⟩ := toUint32_eq_some.mp (toUint32_increase hcall hbelow.1)
  have hbytes := Nat.floor_le hnonneg
  rw [← hfloor] at hbytes
  rw [h.segmentSize_eq] at hpos hbytes
  have hposq : (0 : ℚ) < segmentSize := by exact_mod_cast hpos
  have hgain : 0 ≤ ai / ((cWnd / segmentSize : Nat) + ai) * n * segmentSize := by positivity
  obtain ⟨⟨swift, tcb⟩, hnext, rfl⟩ := Option.map_eq_some_iff.mp hcall
  obtain ⟨cwnd, newCwnd, -, -, rfl, rfl⟩ := TcpSwift.increaseWindow_eq_some hnext
  dsimp only at hadds hbytes
  have hmono : st.tcb.cWnd < newCwnd + 1 := by
    have : (st.tcb.cWnd : ℚ) < newCwnd + 1 := by linarith
    exact_mod_cast this
  refine ⟨h.ai_eq, h.segmentSize_eq, ?_, ?_, ?_⟩
  · exact h.segments_ge.trans (Nat.div_le_div_right (Nat.lt_succ_iff.mp hmono))
  · have hle := h.segments_le
    rw [List.sum_append, List.sum_singleton, Nat.cast_add]
    calc ((newCwnd / segmentSize : Nat) : ℚ) ≤ newCwnd / segmentSize := Nat.cast_div_le
      _ ≤ (st.tcb.cWnd / segmentSize : Nat) + ai / (cWnd / segmentSize : Nat) * n := by
        rw [div_le_iff₀ hposq, add_mul]
        push_cast at hbytes
        linarith
      _ ≤ (cWnd / segmentSize : Nat) + ai * (ns.sum + n) / (cWnd / segmentSize : Nat) := by
        rw [mul_add, add_div, mul_div_right_comm ai (n : ℚ)]
        linarith
  · have hge := h.bytes_ge
    rw [List.sum_append, List.sum_singleton, List.length_append, List.length_singleton,
      Nat.cast_add, Nat.cast_add, Nat.cast_one]
    rw [mul_add, add_div, add_mul, mul_div_right_comm ai (n : ℚ)]
    linarith

end

/-- **Run lemma.** -/
theorem grown_of_run (hai : 0 ≤ st.swift.ai) (hone : 1 ≤ st.tcb.cWnd / st.tcb.segmentSize)
    (hrun : Run WholeStep st ops st')
    (hsum : (acked ops).sum ≤ st.tcb.cWnd / st.tcb.segmentSize) :
    Grown st.swift.ai st.tcb.cWnd st.tcb.segmentSize (acked ops) st' := by
  induction hrun with
  | nil => exact ⟨rfl, rfl, le_rfl, by simp [acked], by simp [acked]⟩
  | @snoc ops t u op hprev hlast ih =>
    rw [acked, List.filterMap_append] at hsum ⊢
    cases op with
    | increaseWindow now targetDelay segmentsAcked =>
      have hle : (acked ops).sum + segmentsAcked ≤ st.tcb.cWnd / st.tcb.segmentSize := by
        simpa [acked] using hsum
      exact (ih (by omega)).increaseWindow hai hone hle hlast
    | pktsAcked rtt srtt =>
      rw [List.filterMap_cons_none rfl, List.filterMap_nil, List.append_nil] at hsum ⊢
      have hgrown := ih hsum
      obtain ⟨⟨swift, tcb⟩, hcall, rfl⟩ := Option.map_eq_some_iff.mp hlast.1
      cases hcall
      refine ⟨?_, hgrown.segmentSize_eq, hgrown.segments_ge, hgrown.segments_le,
        hgrown.bytes_ge⟩
      dsimp only [TcpSwift.pktsAcked]
      split
      · exact hgrown.ai_eq
      · exact hgrown.ai_eq
    | congestionStateSet now targetDelay newState => exact hlast.2.1.elim
    | cwndEvent now targetDelay event => exact hlast.2.1.elim

end Increase

/-- The window grows by at least `AI · c / (c + AI)` segments, less a byte for each call, where `c`
is the first window in whole segments. -/
def KeepsIncrease (st : SwiftState) (ops : List SwiftOp) (st' : SwiftState) : Prop :=
  (st.tcb.cWnd : ℚ) + st.swift.ai * (st.tcb.cWnd / st.tcb.segmentSize : Nat) /
      ((st.tcb.cWnd / st.tcb.segmentSize : Nat) + st.swift.ai) * st.tcb.segmentSize -
    (acked ops).length ≤ st'.tcb.cWnd

/-- **The additive increase accumulates** over calls below the target that acknowledge
the window once, if every one of them finds whole segments.  A call that finds more
loses a byte of its increase or more. -/
theorem increase_accumulates (hai : 0 ≤ st.swift.ai)
    (hone : 1 ≤ st.tcb.cWnd / st.tcb.segmentSize) (hrun : Run WholeStep st ops st')
    (hsum : (acked ops).sum = st.tcb.cWnd / st.tcb.segmentSize) :
    KeepsIncrease st ops st' ∧
      ∀ t now targetDelay segmentsAcked t',
        IncreaseStep t (.increaseWindow now targetDelay segmentsAcked) t' →
          (AddsIncrease t segmentsAcked t' ↔
            t.WholeSegments (.increaseWindow now targetDelay segmentsAcked)) := by
  refine ⟨?_, fun _ _ _ _ _ h => addsIncrease_iff h⟩
  have hgrown := (grown_of_run hai hone hrun (Nat.le_of_eq hsum)).bytes_ge
  rw [hsum] at hgrown
  exact hgrown

theorem run_of_foldlM {P : SwiftState → SwiftOp → Prop} [∀ st op, Decidable (P st op)]
    (h : ops.foldlM (fun st op => if P st op then st.next op else none) st = some st') :
    Run (fun st op st' => st.Step op st' ∧ P st op) st ops st' := by
  apply Run.of_foldlM _ h
  intro st op st' h
  split at h
  · rename_i hP
    exact ⟨h, hP⟩
  · cases h

/-- Two calls that acknowledge a window of two segments, with an RTT sample between. -/
theorem increase_accumulates_two :
    KeepsIncrease (sampled 2000)
      [.increaseWindow 0 1 1, .pktsAcked 1 2000000, .increaseWindow 1 1 1]
      ⟨{ rtt := 2000000 }, { cWnd := 3666, segmentSize := 1000, targetDelay := 1 }⟩ := by
  have hrun : Run WholeStep (sampled 2000)
      [.increaseWindow 0 1 1, .pktsAcked 1 2000000, .increaseWindow 1 1 1]
      ⟨{ rtt := 2000000 }, { cWnd := 3666, segmentSize := 1000, targetDelay := 1 }⟩ :=
    run_of_foldlM (by decide +kernel)
  exact (increase_accumulates (by decide) (by decide) hrun (by decide)).1

/-- Four acknowledgments of a segment each leave a window of four segments at four and a half. -/
theorem increase_vanishes :
    ∃ st', Run IncreaseStep (sampled 4000)
        [.increaseWindow 0 1 1, .increaseWindow 1 1 1, .increaseWindow 2 1 1,
          .increaseWindow 3 1 1] st' ∧
      st'.tcb.cWnd = 4500 ∧
      ¬KeepsIncrease (sampled 4000)
        [.increaseWindow 0 1 1, .increaseWindow 1 1 1, .increaseWindow 2 1 1,
          .increaseWindow 3 1 1] st' := by
  refine ⟨⟨{ rtt := 1000000, canDecrease := false },
    { cWnd := 4500, segmentSize := 1000, targetDelay := 1 }⟩, ?_, rfl, ?_⟩
  · exact run_of_foldlM (by decide +kernel)
  · rw [KeepsIncrease]
    decide +kernel

end SwiftState

end Ns3.Tcp
