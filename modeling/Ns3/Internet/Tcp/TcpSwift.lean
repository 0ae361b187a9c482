/-
  TCP Swift (src/internet/model/tcp-swift.cc), and what keeps its window usable.

  The congestion control keeps its window in bytes and computes in segments.  Its
  `double` variables are rationals here, and the target delay, which the source
  computes from a square root, is an input of every call that uses it.

  The loss paths clamp the window to one segment.  The path of an acknowledgment does
  not: it scales a window of whole segments by a factor of at least 0.6 and stores bytes,
  so it goes below one segment exactly when it decreases a window of one segment.
-/
import Mathlib.Algebra.Order.Ring.Rat
import Mathlib.Data.NNRat.Defs
import Mathlib.Data.Rat.Floor
import Mathlib.Tactic.FieldSimp
import Mathlib.Tactic.Linarith
import Mathlib.Tactic.NormNum
import Mathlib.Tactic.Positivity
import Mathlib.Tactic.Ring
import Ns3.Core.Fault
import Ns3.Lib.Run
import Ns3.Lib.Wrap

namespace Ns3.Tcp

open Ns3.Lib

inductive TcpCongState where
  | open
  | disorder
  | cwr
  | recovery
  | loss
  deriving DecidableEq, Repr

/-- `TcpSocketState::TcpCAEvent_t`. -/
inductive TcpCAEvent where
  | txStart
  | cwndRestart
  | completeCwr
  | loss
  | ecnNoCe
  | ecnIsCe
  | delayedAck
  | nonDelayedAck
  deriving DecidableEq, Repr

/-- What `TcpSwift` reads and writes of the `TcpSocketState`. -/
structure SwiftTcb where
  cWnd : Nat
  segmentSize : Nat
  targetDelay : ℚ := 0
  maxDelay : ℚ := 0
  deriving DecidableEq, Repr

structure TcpSwift where
  ai : ℚ := 2
  maxMdf : ℚ := 1
  retxResetThreshold : Nat := 3
  retransmitCount : Nat := 0
  rtt : Time := 0
  canDecrease : Bool := false
  tLastDecrease : Time := 0
  deriving DecidableEq, Repr

def getSeconds (t : Time) : ℚ := t / 10 ^ 9

/-- A conversion of a `double` to `uint32_t`: its whole part.  A number out of the range
of the type has no conversion. -/
def toUint32 (x : ℚ) : Option Nat := if 0 ≤ x ∧ x < 2 ^ 32 then some ⌊x⌋₊ else none

/-- `GetCwndInSegments`.  There is no division by zero. -/
def SwiftTcb.getCwndInSegments (tcb : SwiftTcb) : Option Nat :=
  if tcb.segmentSize = 0 then none else some (tcb.cWnd / tcb.segmentSize)

namespace TcpSwift

def minCwnd (tcb : SwiftTcb) : Nat := tcb.segmentSize

def canDecreaseAt (swift : TcpSwift) (now : Time) : Bool :=
  if swift.rtt = 0 then false else decide (swift.rtt ≤ now - swift.tLastDecrease)

def decreaseFactor (swift : TcpSwift) (measuredDelay targetDelay : ℚ) : ℚ :=
  max (1 - 0.4 * (measuredDelay - targetDelay) / measuredDelay) (1 - swift.maxMdf)

/-- `PktsAcked`; `srtt` is `tcb->m_srtt`. -/
def pktsAcked (swift : TcpSwift) (rtt srtt : Time) : TcpSwift :=
  if rtt = 0 then swift else { swift with rtt := srtt }

/-- The window that `SwiftUpdateCwndOnAck` computes from the window `cwnd`, both in
segments, at the time `now`. -/
def cwndOnAck (swift : TcpSwift) (cwnd : Nat) (now : Time) (targetDelay : ℚ)
    (segmentsAcked : Nat) : ℚ :=
  let measuredDelay := getSeconds swift.rtt
  if measuredDelay < targetDelay then
    if 1 ≤ cwnd then cwnd + swift.ai / cwnd * segmentsAcked else cwnd + swift.ai * segmentsAcked
  else if swift.canDecreaseAt now then cwnd * swift.decreaseFactor measuredDelay targetDelay
  else cwnd

/-- `m_tLastDecrease` after `SwiftUpdateCwndOnAck`. -/
def lastDecreaseOnAck (swift : TcpSwift) (now : Time) (targetDelay : ℚ) : Time :=
  if getSeconds swift.rtt < targetDelay then swift.tLastDecrease
  else if swift.canDecreaseAt now then now else swift.tLastDecrease

def increaseWindow (swift : TcpSwift) (tcb : SwiftTcb) (now : Time) (targetDelay : ℚ)
    (segmentsAcked : Nat) : Option (TcpSwift × SwiftTcb) := do
  let cwnd ← tcb.getCwndInSegments
  let newCwnd ← toUint32 (swift.cwndOnAck cwnd now targetDelay segmentsAcked * tcb.segmentSize)
  pure ({ swift with
      retransmitCount := 0
      canDecrease := swift.canDecreaseAt now
      tLastDecrease := swift.lastDecreaseOnAck now targetDelay },
    { tcb with cWnd := newCwnd, targetDelay, maxDelay := 0 })

def lossDecrease (swift : TcpSwift) (tcb : SwiftTcb) : Option SwiftTcb := do
  let cwnd ← tcb.getCwndInSegments
  let cwnd ← toUint32 (cwnd * (1 - swift.maxMdf))
  pure { tcb with cWnd := max 1 cwnd * tcb.segmentSize % 2 ^ 32 }

/-- The branches that `CwndEvent` takes on a loss. -/
def onLoss (swift : TcpSwift) (tcb : SwiftTcb) (now : Time) : Option (TcpSwift × SwiftTcb) :=
  if swift.retxResetThreshold ≤ swift.retransmitCount then
    some (swift, { tcb with cWnd := minCwnd tcb })
  else if swift.canDecrease then do
    let tcb ← swift.lossDecrease tcb
    pure ({ swift with tLastDecrease := now }, tcb)
  else some (swift, tcb)

def cwndEvent (swift : TcpSwift) (tcb : SwiftTcb) (now : Time) (targetDelay : ℚ)
    (event : TcpCAEvent) : Option (TcpSwift × SwiftTcb) :=
  let swift := { swift with canDecrease := swift.canDecreaseAt now }
  if event = .loss then do
    let (swift, tcb) ←
      onLoss { swift with retransmitCount := wadd 32 swift.retransmitCount 1 } tcb now
    -- the log and the target delay take the window in segments
    let _ ← tcb.getCwndInSegments
    pure (swift, { tcb with targetDelay })
  else some (swift, tcb)

def congestionStateSet (swift : TcpSwift) (tcb : SwiftTcb) (now : Time) (targetDelay : ℚ)
    (newState : TcpCongState) : Option (TcpSwift × SwiftTcb) :=
  match newState with
  | .open => some ({ swift with retransmitCount := 0 }, tcb)
  | .recovery =>
    let swift := { swift with retransmitCount := 0, canDecrease := swift.canDecreaseAt now }
    if swift.canDecrease then do
      let tcb ← swift.lossDecrease tcb
      pure ({ swift with tLastDecrease := now }, { tcb with targetDelay })
    else some (swift, tcb)
  | _ => some (swift, tcb)

end TcpSwift

/-! ## The calls -/

/-- A call of the congestion control, with the time and the target delay it finds. -/
inductive SwiftOp where
  | increaseWindow (now : Time) (targetDelay : ℚ≥0) (segmentsAcked : Nat)
  | pktsAcked (rtt srtt : Time)
  | congestionStateSet (now : Time) (targetDelay : ℚ≥0) (newState : TcpCongState)
  | cwndEvent (now : Time) (targetDelay : ℚ≥0) (event : TcpCAEvent)

/-- The congestion control and the socket state it works on. -/
structure SwiftState where
  swift : TcpSwift
  tcb : SwiftTcb
  deriving DecidableEq, Repr

namespace SwiftState

variable {st st' : SwiftState} {op : SwiftOp} {ops : List SwiftOp}

def call (st : SwiftState) : SwiftOp → Option (TcpSwift × SwiftTcb)
  | .increaseWindow now targetDelay segmentsAcked =>
    st.swift.increaseWindow st.tcb now targetDelay segmentsAcked
  | .pktsAcked rtt srtt => some (st.swift.pktsAcked rtt srtt, st.tcb)
  | .congestionStateSet now targetDelay newState =>
    st.swift.congestionStateSet st.tcb now targetDelay newState
  | .cwndEvent now targetDelay event => st.swift.cwndEvent st.tcb now targetDelay event

def next (st : SwiftState) (op : SwiftOp) : Option SwiftState :=
  (st.call op).map fun (swift, tcb) => ⟨swift, tcb⟩

def Step (st : SwiftState) (op : SwiftOp) (st' : SwiftState) : Prop := st.next op = some st'

/-- The window holds a segment, so that the sender can transmit. -/
def Usable (st : SwiftState) : Prop := TcpSwift.minCwnd st.tcb ≤ st.tcb.cWnd

instance (st : SwiftState) : Decidable st.Usable := inferInstanceAs (Decidable (_ ≤ _))

/-- A call does not decrease a window of one segment on an acknowledgment: the delay is at most the
target, no decrease is due, or `m_maxMdf` rules it out. -/
def Spares (st : SwiftState) : SwiftOp → Prop
  | .increaseWindow now targetDelay _ =>
    st.tcb.getCwndInSegments = some 1 → st.swift.canDecreaseAt now →
      (targetDelay : ℚ) < getSeconds st.swift.rtt → st.swift.maxMdf = 0
  | _ => True

/-- The attributes are not negative and `m_maxMdf` is at most one; the sizes are
those of their types. -/
structure WellFormed (st : SwiftState) : Prop where
  ai_nonneg : 0 ≤ st.swift.ai
  maxMdf_nonneg : 0 ≤ st.swift.maxMdf
  maxMdf_le_one : st.swift.maxMdf ≤ 1
  cWnd_lt : st.tcb.cWnd < 2 ^ 32
  segmentSize_lt : st.tcb.segmentSize < 2 ^ 32

end SwiftState

/-! ## The equations of the calls -/

variable {x : ℚ} {n : Nat}

theorem toUint32_eq_some : toUint32 x = some n ↔ 0 ≤ x ∧ x < 2 ^ 32 ∧ n = ⌊x⌋₊ := by
  rw [toUint32]
  split
  · rename_i h
    simp only [Option.some.injEq, h, true_and]
    exact eq_comm
  · rename_i h
    refine ⟨fun h' => (nomatch h'), fun h' => absurd ⟨h'.1, h'.2.1⟩ h⟩

theorem toUint32_lt (h : toUint32 x = some n) : n < 2 ^ 32 := by
  obtain ⟨hx, hlt, rfl⟩ := toUint32_eq_some.mp h
  exact (Nat.floor_lt hx).mpr (by exact_mod_cast hlt)

theorem le_toUint32_iff {k : Nat} (h : toUint32 x = some n) : k ≤ n ↔ (k : ℚ) ≤ x := by
  obtain ⟨hx, -, rfl⟩ := toUint32_eq_some.mp h
  exact Nat.le_floor_iff hx

variable {tcb : SwiftTcb}

theorem SwiftTcb.getCwndInSegments_eq_some {c : Nat} :
    tcb.getCwndInSegments = some c ↔ 0 < tcb.segmentSize ∧ c = tcb.cWnd / tcb.segmentSize := by
  rw [SwiftTcb.getCwndInSegments]
  split
  · rename_i h
    refine ⟨fun h' => (nomatch h'), fun h' => absurd h (Nat.ne_of_gt h'.1)⟩
  · rename_i h
    simp only [Option.some.injEq, Nat.pos_of_ne_zero h, true_and]
    exact eq_comm

variable {segmentsAcked : Nat}

namespace TcpSwift

variable {swift swift' : TcpSwift} {tcb' : SwiftTcb} {now : Time} {targetDelay : ℚ}

theorem increaseWindow_eq_some
    (h : swift.increaseWindow tcb now targetDelay segmentsAcked = some (swift', tcb')) :
    ∃ cwnd newCwnd, tcb.getCwndInSegments = some cwnd ∧
      toUint32 (swift.cwndOnAck cwnd now targetDelay segmentsAcked * tcb.segmentSize) =
        some newCwnd ∧
      swift' = { swift with
        retransmitCount := 0
        canDecrease := swift.canDecreaseAt now
        tLastDecrease := swift.lastDecreaseOnAck now targetDelay } ∧
      tcb' = { tcb with cWnd := newCwnd, targetDelay, maxDelay := 0 } := by
  obtain ⟨cwnd, hcwnd, h⟩ := Option.bind_eq_some_iff.mp h
  obtain ⟨newCwnd, hnew, h⟩ := Option.bind_eq_some_iff.mp h
  simp only [pure, Option.some.injEq, Prod.mk.injEq] at h
  exact ⟨cwnd, newCwnd, hcwnd, hnew, h.1.symm, h.2.symm⟩

theorem lossDecrease_eq_some (h : swift.lossDecrease tcb = some tcb') :
    ∃ segments cwnd, tcb.getCwndInSegments = some segments ∧
      toUint32 (segments * (1 - swift.maxMdf)) = some cwnd ∧
      tcb' = { tcb with cWnd := max 1 cwnd * tcb.segmentSize % 2 ^ 32 } := by
  obtain ⟨segments, hsegments, h⟩ := Option.bind_eq_some_iff.mp h
  obtain ⟨cwnd, hcwnd, h⟩ := Option.bind_eq_some_iff.mp h
  simp only [pure, Option.some.injEq] at h
  exact ⟨segments, cwnd, hsegments, hcwnd, h.symm⟩

/-! ## The decrease -/

theorem getSeconds_pos_of_canDecrease (hdue : swift.canDecreaseAt now)
    (htarget : 0 ≤ targetDelay) (hdelay : targetDelay ≤ getSeconds swift.rtt) :
    0 < getSeconds swift.rtt := by
  rw [canDecreaseAt] at hdue
  split at hdue
  · cases hdue
  · rename_i hrtt
    apply lt_of_le_of_ne (htarget.trans hdelay)
    intro hzero
    rw [getSeconds, eq_comm, div_eq_zero_iff] at hzero
    rcases hzero with h | h
    · exact hrtt (by exact_mod_cast h)
    · norm_num at h

variable {delay : ℚ}

theorem le_decreaseFactor (hdelay : 0 < delay) (htarget : 0 ≤ targetDelay) :
    3 / 5 ≤ swift.decreaseFactor delay targetDelay := by
  apply le_trans _ (le_max_left _ _)
  have hshare : (delay - targetDelay) / delay ≤ 1 := by
    rw [div_le_one hdelay]
    linarith
  rw [mul_div_assoc]
  linarith

theorem decreaseFactor_le_one (hdelay : 0 < delay) (htarget : targetDelay ≤ delay)
    (hmdf : 0 ≤ swift.maxMdf) : swift.decreaseFactor delay targetDelay ≤ 1 := by
  apply max_le _ (by linarith)
  have hshare : 0 ≤ (delay - targetDelay) / delay := div_nonneg (by linarith) hdelay.le
  rw [mul_div_assoc]
  linarith

theorem one_le_decreaseFactor_iff (hdelay : 0 < delay) (htarget : targetDelay ≤ delay)
    (hmdf : 0 ≤ swift.maxMdf) :
    1 ≤ swift.decreaseFactor delay targetDelay ↔ (targetDelay < delay → swift.maxMdf = 0) := by
  rw [decreaseFactor, le_max_iff]
  constructor
  · rintro (h | h) hlt
    · have hshare : 0 < (delay - targetDelay) / delay := div_pos (by linarith) hdelay
      rw [mul_div_assoc] at h
      linarith
    · linarith
  · intro h
    rcases htarget.eq_or_lt with rfl | hlt
    · left
      simp
    · right
      rw [h hlt]
      simp

end TcpSwift

namespace SwiftState

variable {st st' : SwiftState} {op : SwiftOp} {ops : List SwiftOp}

theorem WellFormed.one_le_segments (hu : st.Usable) {cwnd : Nat}
    (hcwnd : st.tcb.getCwndInSegments = some cwnd) : 1 ≤ cwnd := by
  obtain ⟨hpos, rfl⟩ := SwiftTcb.getCwndInSegments_eq_some.mp hcwnd
  exact (Nat.one_le_div_iff hpos).mpr hu

variable {now : Time}

theorem one_le_cwndOnAck_iff (hwf : st.WellFormed) (hu : st.Usable) {cwnd : Nat}
    {targetDelay : ℚ≥0} (hcwnd : st.tcb.getCwndInSegments = some cwnd) :
    1 ≤ st.swift.cwndOnAck cwnd now targetDelay segmentsAcked ↔
      st.Spares (.increaseWindow now targetDelay segmentsAcked) := by
  have hone : 1 ≤ cwnd := WellFormed.one_le_segments hu hcwnd
  have honeq : (1 : ℚ) ≤ cwnd := by exact_mod_cast hone
  have htarget : (0 : ℚ) ≤ targetDelay := targetDelay.2
  simp only [Spares, TcpSwift.cwndOnAck, hcwnd, Option.some.injEq]
  split
  · rename_i hbelow
    have hadd : 0 ≤ st.swift.ai / cwnd * segmentsAcked :=
      mul_nonneg (div_nonneg hwf.ai_nonneg (by linarith)) (Nat.cast_nonneg _)
    refine ⟨fun _ _ _ hover => absurd hover hbelow.not_gt, fun _ => by linarith⟩
  · rename_i hover
    rw [not_lt] at hover
    split
    · rename_i hdue
      have hpos := TcpSwift.getSeconds_pos_of_canDecrease hdue htarget hover
      simp only [hdue, true_implies]
      rcases hone.eq_or_lt with rfl | htwo
      · rw [Nat.cast_one, one_mul]
        simpa using TcpSwift.one_le_decreaseFactor_iff hpos hover hwf.maxMdf_nonneg
      · have hfactor := @TcpSwift.le_decreaseFactor st.swift _ _ hpos htarget
        have htwoq : (2 : ℚ) ≤ cwnd := by exact_mod_cast htwo
        refine ⟨fun _ h => absurd h (Nat.ne_of_gt htwo), fun _ => ?_⟩
        calc (1 : ℚ) ≤ 2 * (3 / 5) := by norm_num
          _ ≤ cwnd * st.swift.decreaseFactor (getSeconds st.swift.rtt) targetDelay :=
            mul_le_mul htwoq hfactor (by norm_num) (by linarith)
    · rename_i hnot
      exact ⟨fun _ _ hdue => absurd hdue hnot, fun _ => honeq⟩

theorem minCwnd_le_iff (hpos : 0 < tcb.segmentSize) (h : toUint32 (x * tcb.segmentSize) = some n) :
    TcpSwift.minCwnd tcb ≤ n ↔ 1 ≤ x := by
  have hposq : (0 : ℚ) < tcb.segmentSize := by exact_mod_cast hpos
  rw [le_toUint32_iff h, TcpSwift.minCwnd]
  constructor
  · intro hle
    exact le_of_mul_le_mul_right (by linarith) hposq
  · intro hle
    calc (tcb.segmentSize : ℚ) = 1 * tcb.segmentSize := (one_mul _).symm
      _ ≤ x * tcb.segmentSize := mul_le_mul_of_nonneg_right hle hposq.le

variable {swift : TcpSwift}

theorem usable_lossDecrease (hwf : st.WellFormed) (hu : st.Usable)
    (h : swift.lossDecrease st.tcb = some tcb) (hmdf : swift.maxMdf = st.swift.maxMdf) :
    TcpSwift.minCwnd tcb ≤ tcb.cWnd := by
  obtain ⟨segments, cwnd, hsegments, hcwnd, rfl⟩ := TcpSwift.lossDecrease_eq_some h
  have hone := WellFormed.one_le_segments hu hsegments
  obtain ⟨hpos, rfl⟩ := SwiftTcb.getCwndInSegments_eq_some.mp hsegments
  have hle : cwnd ≤ st.tcb.cWnd / st.tcb.segmentSize := by
    obtain ⟨-, -, rfl⟩ := toUint32_eq_some.mp hcwnd
    apply Nat.floor_le_of_le
    rw [hmdf]
    exact mul_le_of_le_one_right (Nat.cast_nonneg _) (by linarith [hwf.maxMdf_nonneg])
  -- the decreased window is no larger than the old one, so the product does not wrap
  have hbytes : max 1 cwnd * st.tcb.segmentSize ≤ st.tcb.cWnd :=
    calc max 1 cwnd * st.tcb.segmentSize
        ≤ st.tcb.cWnd / st.tcb.segmentSize * st.tcb.segmentSize :=
          Nat.mul_le_mul_right _ (max_le hone hle)
      _ ≤ st.tcb.cWnd := Nat.div_mul_le_self _ _
  dsimp only [TcpSwift.minCwnd]
  rw [Nat.mod_eq_of_lt (hbytes.trans_lt hwf.cWnd_lt)]
  exact Nat.le_mul_of_pos_left _ (Nat.one_pos.trans_le (le_max_left _ _))

/-! ## What every call keeps -/

/-- A call leaves the attributes and the segment size alone, and a window of 32 bits. -/
structure Kept (st st' : SwiftState) : Prop where
  ai_eq : st'.swift.ai = st.swift.ai
  maxMdf_eq : st'.swift.maxMdf = st.swift.maxMdf
  segmentSize_eq : st'.tcb.segmentSize = st.tcb.segmentSize
  cWnd_lt : st'.tcb.cWnd < 2 ^ 32

theorem Kept.wellFormed (hkept : st.Kept st') (hwf : st.WellFormed) : st'.WellFormed where
  ai_nonneg := hkept.ai_eq ▸ hwf.ai_nonneg
  maxMdf_nonneg := hkept.maxMdf_eq ▸ hwf.maxMdf_nonneg
  maxMdf_le_one := hkept.maxMdf_eq ▸ hwf.maxMdf_le_one
  segmentSize_lt := hkept.segmentSize_eq ▸ hwf.segmentSize_lt
  cWnd_lt := hkept.cWnd_lt

/-- A call after a loss also keeps a usable window usable. -/
def Calm (st st' : SwiftState) : Prop := st.Kept st' ∧ (st.Usable → st'.Usable)

variable {targetDelay : ℚ}

theorem calm_lossDecrease (hwf : st.WellFormed) {swift' : TcpSwift}
    (hai : swift'.ai = st.swift.ai) (hmdf : swift'.maxMdf = st.swift.maxMdf)
    (hsame : swift.maxMdf = st.swift.maxMdf) (h : swift.lossDecrease st.tcb = some tcb) :
    st.Calm ⟨swift', { tcb with targetDelay }⟩ := by
  refine ⟨?_, fun hu => ?_⟩
  · obtain ⟨segments, cwnd, -, -, rfl⟩ := TcpSwift.lossDecrease_eq_some h
    exact ⟨hai, hmdf, rfl, Nat.mod_lt _ (Nat.two_pow_pos 32)⟩
  · have husable : TcpSwift.minCwnd tcb ≤ tcb.cWnd := usable_lossDecrease hwf hu h hsame
    exact husable

theorem calm_congestionStateSet (hwf : st.WellFormed) {newState : TcpCongState}
    (h : st.swift.congestionStateSet st.tcb now targetDelay newState = some (swift, tcb)) :
    st.Calm ⟨swift, tcb⟩ := by
  cases newState with
  | recovery =>
    dsimp only [TcpSwift.congestionStateSet] at h
    split at h
    · obtain ⟨tcb', hloss, h⟩ := Option.bind_eq_some_iff.mp h
      cases h
      exact calm_lossDecrease hwf rfl rfl rfl hloss
    · cases h
      exact ⟨⟨rfl, rfl, rfl, hwf.cWnd_lt⟩, id⟩
  | «open» => cases h; exact ⟨⟨rfl, rfl, rfl, hwf.cWnd_lt⟩, id⟩
  | disorder => cases h; exact ⟨⟨rfl, rfl, rfl, hwf.cWnd_lt⟩, id⟩
  | cwr => cases h; exact ⟨⟨rfl, rfl, rfl, hwf.cWnd_lt⟩, id⟩
  | loss => cases h; exact ⟨⟨rfl, rfl, rfl, hwf.cWnd_lt⟩, id⟩

theorem calm_cwndEvent (hwf : st.WellFormed) {event : TcpCAEvent}
    (h : st.swift.cwndEvent st.tcb now targetDelay event = some (swift, tcb)) :
    st.Calm ⟨swift, tcb⟩ := by
  dsimp only [TcpSwift.cwndEvent] at h
  split at h
  · obtain ⟨⟨swift', tcb'⟩, hbranch, h⟩ := Option.bind_eq_some_iff.mp h
    obtain ⟨cwnd, -, h⟩ := Option.bind_eq_some_iff.mp h
    cases h
    rw [TcpSwift.onLoss] at hbranch
    split at hbranch
    · cases hbranch
      exact ⟨⟨rfl, rfl, rfl, hwf.segmentSize_lt⟩, fun _ => le_rfl⟩
    · split at hbranch
      · obtain ⟨tcb'', hloss, hbranch⟩ := Option.bind_eq_some_iff.mp hbranch
        cases hbranch
        exact calm_lossDecrease hwf rfl rfl rfl hloss
      · cases hbranch
        exact ⟨⟨rfl, rfl, rfl, hwf.cWnd_lt⟩, id⟩
  · cases h
    exact ⟨⟨rfl, rfl, rfl, hwf.cWnd_lt⟩, id⟩

/-- **Frame lemma.** -/
theorem step_kept (hwf : st.WellFormed) (h : st.Step op st') : st.Kept st' := by
  obtain ⟨⟨swift, tcb⟩, hcall, rfl⟩ := Option.map_eq_some_iff.mp h
  cases op with
  | increaseWindow now targetDelay segmentsAcked =>
    obtain ⟨cwnd, newCwnd, -, hnew, rfl, rfl⟩ := TcpSwift.increaseWindow_eq_some hcall
    exact ⟨rfl, rfl, rfl, toUint32_lt hnew⟩
  | pktsAcked rtt srtt =>
    cases hcall
    dsimp only [TcpSwift.pktsAcked]
    split
    · exact ⟨rfl, rfl, rfl, hwf.cWnd_lt⟩
    · exact ⟨rfl, rfl, rfl, hwf.cWnd_lt⟩
  | congestionStateSet now targetDelay newState => exact (calm_congestionStateSet hwf hcall).1
  | cwndEvent now targetDelay event => exact (calm_cwndEvent hwf hcall).1

/-! ## What keeps the window usable -/

theorem usable_increaseWindow_iff (hwf : st.WellFormed) (hu : st.Usable) {targetDelay : ℚ≥0}
    (h : st.swift.increaseWindow st.tcb now targetDelay segmentsAcked = some (swift, tcb)) :
    Usable ⟨swift, tcb⟩ ↔ st.Spares (.increaseWindow now targetDelay segmentsAcked) := by
  obtain ⟨cwnd, newCwnd, hcwnd, hnew, rfl, rfl⟩ := TcpSwift.increaseWindow_eq_some h
  obtain ⟨hpos, -⟩ := SwiftTcb.getCwndInSegments_eq_some.mp hcwnd
  exact (minCwnd_le_iff hpos hnew).trans (one_le_cwndOnAck_iff hwf hu hcwnd)

/-- **Step lemma.**  A call keeps a usable window usable exactly if it spares it. -/
theorem step_usable_iff (hwf : st.WellFormed) (hu : st.Usable) (h : st.Step op st') :
    st'.Usable ↔ st.Spares op := by
  obtain ⟨⟨swift, tcb⟩, hcall, rfl⟩ := Option.map_eq_some_iff.mp h
  cases op with
  | increaseWindow now targetDelay segmentsAcked => exact usable_increaseWindow_iff hwf hu hcall
  | pktsAcked rtt srtt => cases hcall; exact iff_of_true hu trivial
  | congestionStateSet now targetDelay newState =>
    exact iff_of_true ((calm_congestionStateSet hwf hcall).2 hu) trivial
  | cwndEvent now targetDelay event =>
    exact iff_of_true ((calm_cwndEvent hwf hcall).2 hu) trivial

def UsableAlong (st : SwiftState) (ops : List SwiftOp) : Prop :=
  ∀ pre t, pre <+: ops → Run Step st pre t → t.Usable

def SparesAlong (st : SwiftState) (ops : List SwiftOp) : Prop :=
  ∀ pre op t, pre ++ [op] <+: ops → Run Step st pre t → t.Spares op

/-- **The window stays usable** along a run exactly if no call of it decreases a window
of one segment on an acknowledgment. -/
theorem window_stays_usable (hwf : st.WellFormed) (hu : st.Usable) (hrun : Run Step st ops st') :
    UsableAlong st ops ↔ SparesAlong st ops :=
  Run.invariant_iff hwf hu (fun _ _ _ hwf h => (step_kept hwf h).wellFormed hwf)
    (fun _ _ _ hwf hu h => step_usable_iff hwf hu h) hrun

/-! ## Runs -/

def sampled (cWnd : Nat) : SwiftState :=
  { swift := { rtt := 1000000 }, tcb := { cWnd, segmentSize := 1000 } }

theorem wellFormed_sampled {cWnd : Nat} (h : cWnd < 2 ^ 32) : (sampled cWnd).WellFormed where
  ai_nonneg := by norm_num [sampled]
  maxMdf_nonneg := by norm_num [sampled]
  maxMdf_le_one := by norm_num [sampled]
  cWnd_lt := h
  segmentSize_lt := by norm_num [sampled]

/-- A timeout, and then a decrease of two segments to 1200 bytes. -/
theorem window_stays_usable_decrease :
    UsableAlong (sampled 2000) [.cwndEvent 500000 0 .loss, .increaseWindow 2000000 0 1] := by
  have hfirst : (sampled 2000).next (.cwndEvent 500000 0 .loss) =
      some ⟨{ rtt := 1000000, retransmitCount := 1 }, { cWnd := 2000, segmentSize := 1000 }⟩ := by
    decide +kernel
  have hrun : ∃ st, Run Step (sampled 2000)
      [.cwndEvent 500000 0 .loss, .increaseWindow 2000000 0 1] st :=
    ⟨⟨{ rtt := 1000000, canDecrease := true, tLastDecrease := 2000000 },
        { cWnd := 1200, segmentSize := 1000 }⟩,
      Run.of_foldlM (fun _ _ _ h => h) (by decide +kernel)⟩
  obtain ⟨st, hrun⟩ := hrun
  apply (window_stays_usable (wellFormed_sampled (by decide)) (by decide) hrun).mpr
  intro pre op t hpre ht
  obtain ⟨rfl, rfl⟩ | ⟨_, rfl, hpre₁⟩ := before_cons hpre
  · trivial
  · obtain ⟨rfl, rfl⟩ := before_singleton hpre₁
    obtain rfl := ht.deterministic (Run.single hfirst)
    intro hone
    exact absurd hone (by decide)

/-- A window of one segment is decreased to 600 bytes, and the next acknowledgment
truncates it to zero segments. -/
theorem window_vanishes :
    ∃ t u, Run Step (sampled 1000) [.increaseWindow 2000000 0 1] t ∧ t.tcb.cWnd = 600 ∧
      ¬t.Usable ∧
      Run Step (sampled 1000) [.increaseWindow 2000000 0 1, .increaseWindow 2000001 0 1] u ∧
      u.tcb.cWnd = 0 := by
  refine ⟨⟨{ rtt := 1000000, canDecrease := true, tLastDecrease := 2000000 },
      { cWnd := 600, segmentSize := 1000 }⟩,
    ⟨{ rtt := 1000000, canDecrease := false, tLastDecrease := 2000000 },
      { cWnd := 0, segmentSize := 1000 }⟩, ?_, rfl, by decide, ?_, rfl⟩
  · exact Run.of_foldlM (fun _ _ _ h => h) (by decide +kernel)
  · exact Run.of_foldlM (fun _ _ _ h => h) (by decide +kernel)

end SwiftState

end Ns3.Tcp
