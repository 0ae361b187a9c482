/-
  In which direction an acknowledgment moves the window of
  TCP Swift.

  A call reads the window in whole segments and writes it back in bytes whatever it does, so
  that the bytes beyond the whole segments are dropped in every branch.
-/
import Ns3.Internet.Tcp.SwiftIncrease

namespace Ns3.Tcp

open Ns3.Lib

namespace SwiftState

variable {st st' : SwiftState} {now : Time} {targetDelay : ℚ≥0} {segmentsAcked : Nat}

/-! ## The direction of a call -/

/-- Below the target the window does not shrink; at or above it, it keeps its bytes when no
decrease is due, within an RTT of the last one, and is scaled otherwise, to a byte. -/
structure Directed (st : SwiftState) (now : Time) (targetDelay : ℚ≥0) (st' : SwiftState) :
    Prop where
  increase : getSeconds st.swift.rtt < targetDelay → st.tcb.cWnd ≤ st'.tcb.cWnd
  hold : (targetDelay : ℚ) ≤ getSeconds st.swift.rtt →
    st.swift.canDecreaseAt now = false → st'.tcb.cWnd = st.tcb.cWnd
  decrease : (targetDelay : ℚ) ≤ getSeconds st.swift.rtt →
    st.swift.canDecreaseAt now = true →
      ∃ factor : ℚ, 1 - st.swift.maxMdf ≤ factor ∧ factor ≤ 1 ∧
        |(st'.tcb.cWnd : ℚ) - factor * st.tcb.cWnd| ≤ 1

/-- The bytes beyond the whole segments do not tell: below the target the increase makes up for
them, and a window that is held or decreased has none. -/
structure KeepsBytes (st : SwiftState) (now : Time) (targetDelay : ℚ≥0) (segmentsAcked : Nat) :
    Prop where
  increase : getSeconds st.swift.rtt < targetDelay →
    ((st.tcb.cWnd % st.tcb.segmentSize : Nat) : ℚ) ≤ st.increaseBytes segmentsAcked
  hold : (targetDelay : ℚ) ≤ getSeconds st.swift.rtt →
    st.swift.canDecreaseAt now = false → st.tcb.cWnd % st.tcb.segmentSize = 0
  decrease : (targetDelay : ℚ) ≤ getSeconds st.swift.rtt →
    st.swift.canDecreaseAt now = true →
      0 ≤ st.swift.maxMdf ∧ st.tcb.cWnd % st.tcb.segmentSize = 0

section

variable (h : st.Step (.increaseWindow now targetDelay segmentsAcked) st')

include h

theorem increase_iff (hbelow : getSeconds st.swift.rtt < targetDelay) :
    st.tcb.cWnd ≤ st'.tcb.cWnd ↔
      ((st.tcb.cWnd % st.tcb.segmentSize : Nat) : ℚ) ≤ st.increaseBytes segmentsAcked := by
  rw [le_toUint32_iff (toUint32_increase h hbelow), segments_add_rest]
  exact add_le_add_iff_left _

theorem hold_iff (hover : (targetDelay : ℚ) ≤ getSeconds st.swift.rtt)
    (hnot : st.swift.canDecreaseAt now = false) :
    st'.tcb.cWnd = st.tcb.cWnd ↔ st.tcb.cWnd % st.tcb.segmentSize = 0 := by
  obtain ⟨-, hnew⟩ := cWnd_of_step h
  obtain ⟨-, -, hfloor⟩ := toUint32_eq_some.mp hnew
  have hbytes : st'.tcb.cWnd = st.tcb.cWnd / st.tcb.segmentSize * st.tcb.segmentSize := by
    rw [hfloor, TcpSwift.cwndOnAck, if_neg (not_lt.mpr hover), hnot, if_neg Bool.false_ne_true]
    rw [← Nat.cast_mul, Nat.floor_natCast]
  have hparts := Nat.div_add_mod' st.tcb.cWnd st.tcb.segmentSize
  omega

/-- A window of whole segments is scaled by the factor of the decrease, to a byte. -/
theorem decrease_of_whole (hmdf : 0 ≤ st.swift.maxMdf)
    (hwhole : st.tcb.cWnd % st.tcb.segmentSize = 0)
    (hover : (targetDelay : ℚ) ≤ getSeconds st.swift.rtt)
    (hdue : st.swift.canDecreaseAt now = true) :
    ∃ factor : ℚ, 1 - st.swift.maxMdf ≤ factor ∧ factor ≤ 1 ∧
      |(st'.tcb.cWnd : ℚ) - factor * st.tcb.cWnd| ≤ 1 := by
  obtain ⟨-, hnew⟩ := cWnd_of_step h
  obtain ⟨hnonneg, -, hfloor⟩ := toUint32_eq_some.mp hnew
  have hpos := TcpSwift.getSeconds_pos_of_canDecrease hdue targetDelay.2 hover
  have hbytes : st.swift.cwndOnAck (st.tcb.cWnd / st.tcb.segmentSize) now targetDelay
      segmentsAcked * st.tcb.segmentSize =
        st.swift.decreaseFactor (getSeconds st.swift.rtt) targetDelay * st.tcb.cWnd := by
    rw [TcpSwift.cwndOnAck, if_neg (not_lt.mpr hover), hdue, if_pos rfl, segments_add_rest, hwhole]
    push_cast
    ring
  rw [hbytes] at hnonneg hfloor
  refine ⟨st.swift.decreaseFactor (getSeconds st.swift.rtt) targetDelay, le_max_right _ _,
    TcpSwift.decreaseFactor_le_one hpos hover hmdf, ?_⟩
  rw [hfloor, abs_le]
  constructor
  · linarith [Nat.lt_floor_add_one
      (st.swift.decreaseFactor (getSeconds st.swift.rtt) targetDelay * st.tcb.cWnd)]
  · linarith [Nat.floor_le hnonneg]

theorem directed_of_keepsBytes (hk : KeepsBytes st now targetDelay segmentsAcked) :
    Directed st now targetDelay st' where
  increase hbelow := (increase_iff h hbelow).mpr (hk.increase hbelow)
  hold hover hrecent := (hold_iff h hover hrecent).mpr (hk.hold hover hrecent)
  decrease hover hdue :=
    decrease_of_whole h (hk.decrease hover hdue).1 (hk.decrease hover hdue).2 hover hdue

/-- Where no decrease is due, the bytes beyond the whole segments always tell. -/
theorem keepsBytes_of_directed
    (hnone : getSeconds st.swift.rtt < targetDelay ∨ st.swift.canDecreaseAt now = false)
    (hd : Directed st now targetDelay st') : KeepsBytes st now targetDelay segmentsAcked where
  increase hbelow := (increase_iff h hbelow).mp (hd.increase hbelow)
  hold hover hrecent := (hold_iff h hover hrecent).mp (hd.hold hover hrecent)
  decrease hover hdue := by
    rcases hnone with hbelow | hrecent
    · exact absurd hover (not_le.mpr hbelow)
    · rw [hdue] at hrecent
      cases hrecent

end

/-! ## Two decreases -/

/-- The call is not made before the time. -/
def NotBefore (start : Time) : SwiftOp → Prop
  | .increaseWindow now _ _ => start ≤ now
  | .pktsAcked _ _ => True
  | .congestionStateSet now _ _ => start ≤ now
  | .cwndEvent now _ _ => start ≤ now

/-- **Step lemma.**  The time of the last decrease does not go back. -/
theorem le_tLastDecrease_step {start : Time} {op : SwiftOp} (h : st.Step op st')
    (hop : NotBefore start op) (hle : start ≤ st.swift.tLastDecrease) :
    start ≤ st'.swift.tLastDecrease := by
  obtain ⟨⟨swift, tcb⟩, hcall, rfl⟩ := Option.map_eq_some_iff.mp h
  cases op with
  | increaseWindow now targetDelay segmentsAcked =>
    obtain ⟨cwnd, newCwnd, -, -, rfl, rfl⟩ := TcpSwift.increaseWindow_eq_some hcall
    dsimp only [TcpSwift.lastDecreaseOnAck]
    split
    · exact hle
    · split
      · exact hop
      · exact hle
  | pktsAcked rtt srtt =>
    cases hcall
    dsimp only [TcpSwift.pktsAcked]
    split
    · exact hle
    · exact hle
  | congestionStateSet now targetDelay newState =>
    cases newState with
    | recovery =>
      dsimp only [call, TcpSwift.congestionStateSet] at hcall
      split at hcall
      · obtain ⟨tcb', -, hcall⟩ := Option.bind_eq_some_iff.mp hcall
        cases hcall
        exact hop
      · cases hcall
        exact hle
    | «open» => cases hcall; exact hle
    | disorder => cases hcall; exact hle
    | cwr => cases hcall; exact hle
    | loss => cases hcall; exact hle
  | cwndEvent now targetDelay event =>
    dsimp only [call, TcpSwift.cwndEvent] at hcall
    split at hcall
    · obtain ⟨⟨swift', tcb'⟩, hbranch, hcall⟩ := Option.bind_eq_some_iff.mp hcall
      obtain ⟨cwnd, -, hcall⟩ := Option.bind_eq_some_iff.mp hcall
      cases hcall
      rw [TcpSwift.onLoss] at hbranch
      split at hbranch
      · cases hbranch
        exact hle
      · split at hbranch
        · obtain ⟨tcb'', -, hbranch⟩ := Option.bind_eq_some_iff.mp hbranch
          cases hbranch
          exact hop
        · cases hbranch
          exact hle
    · cases hcall
      exact hle

theorem due_of_shrinks (h : st.Step (.increaseWindow now targetDelay segmentsAcked) st')
    (hk : KeepsBytes st now targetDelay segmentsAcked) (hshrinks : st'.tcb.cWnd < st.tcb.cWnd) :
    st.swift.canDecreaseAt now = true ∧ st'.swift.tLastDecrease = now := by
  have hd := directed_of_keepsBytes h hk
  have hover : (targetDelay : ℚ) ≤ getSeconds st.swift.rtt := by
    by_contra hbelow
    exact absurd (hd.increase (not_le.mp hbelow)) (Nat.not_le.mpr hshrinks)
  have hdue : st.swift.canDecreaseAt now = true := by
    by_contra hnot
    exact absurd (hd.hold hover (Bool.not_eq_true _ ▸ hnot)) (Nat.ne_of_lt hshrinks)
  refine ⟨hdue, ?_⟩
  obtain ⟨⟨swift, tcb⟩, hcall, rfl⟩ := Option.map_eq_some_iff.mp h
  obtain ⟨cwnd, newCwnd, -, -, rfl, rfl⟩ := TcpSwift.increaseWindow_eq_some hcall
  dsimp only [TcpSwift.lastDecreaseOnAck]
  rw [if_neg (not_lt.mpr hover), if_pos hdue]

/-- Two reductions are an RTT apart, whatever lies between them. -/
theorem shrinks_apart {st₁ st₂ st₃ st₄ : SwiftState} {ops : List SwiftOp} {now₁ now₂ : Time}
    {targetDelay₁ targetDelay₂ : ℚ≥0} {n₁ n₂ : Nat}
    (hfirst : st₁.Step (.increaseWindow now₁ targetDelay₁ n₁) st₂)
    (hbetween : Run Step st₂ ops st₃)
    (hsecond : st₃.Step (.increaseWindow now₂ targetDelay₂ n₂) st₄)
    (hclock : ∀ op ∈ ops, NotBefore now₁ op)
    (hk₁ : KeepsBytes st₁ now₁ targetDelay₁ n₁) (hk₂ : KeepsBytes st₃ now₂ targetDelay₂ n₂)
    (hshrinks₁ : st₂.tcb.cWnd < st₁.tcb.cWnd) (hshrinks₂ : st₄.tcb.cWnd < st₃.tcb.cWnd) :
    st₃.swift.rtt ≤ now₂ - now₁ := by
  have hset := (due_of_shrinks hfirst hk₁ hshrinks₁).2
  have hdue := (due_of_shrinks hsecond hk₂ hshrinks₂).1
  have hafter : now₁ ≤ st₃.swift.tLastDecrease := by
    have hrun : ∀ {ops st}, Run Step st₂ ops st → (∀ op ∈ ops, NotBefore now₁ op) →
        now₁ ≤ st.swift.tLastDecrease := by
      intro ops st hrun
      induction hrun with
      | nil =>
        intro _
        exact le_of_eq hset.symm
      | snoc hprev hlast ih =>
        intro hops
        refine le_tLastDecrease_step hlast (hops _ ?_) (ih fun op hop => hops op ?_)
        · exact List.mem_append_right _ (List.mem_singleton_self _)
        · exact List.mem_append_left _ hop
    exact hrun hbetween hclock
  rw [TcpSwift.canDecreaseAt] at hdue
  split at hdue
  · cases hdue
  · have hlong := of_decide_eq_true hdue
    exact hlong.trans (sub_le_sub_left hafter now₂)

/-- **The direction law.** A call moves the window in the direction of the law if the bytes
beyond the whole segments do not tell, and only then where no decrease is due; of two such calls
that shrink it, the second comes an RTT after the first. -/
theorem direction_iff (st : SwiftState) (now : Time) (targetDelay : ℚ≥0) (segmentsAcked : Nat) :
    ∀ st', st.Step (.increaseWindow now targetDelay segmentsAcked) st' →
      (KeepsBytes st now targetDelay segmentsAcked → Directed st now targetDelay st') ∧
      (getSeconds st.swift.rtt < targetDelay ∨ st.swift.canDecreaseAt now = false →
        (Directed st now targetDelay st' ↔ KeepsBytes st now targetDelay segmentsAcked)) ∧
      ∀ ops st₃ now₂ targetDelay₂ n₂ st₄, Run Step st' ops st₃ →
        st₃.Step (.increaseWindow now₂ targetDelay₂ n₂) st₄ →
        (∀ op ∈ ops, NotBefore now op) → KeepsBytes st now targetDelay segmentsAcked →
        KeepsBytes st₃ now₂ targetDelay₂ n₂ → st'.tcb.cWnd < st.tcb.cWnd →
        st₄.tcb.cWnd < st₃.tcb.cWnd → st₃.swift.rtt ≤ now₂ - now := by
  intro st' h
  refine ⟨directed_of_keepsBytes h,
    fun hnone => ⟨keepsBytes_of_directed h hnone, directed_of_keepsBytes h⟩, ?_⟩
  intro ops st₃ now₂ targetDelay₂ n₂ st₄ hbetween hsecond hclock hk₁ hk₂ hshrinks₁ hshrinks₂
  exact shrinks_apart h hbetween hsecond hclock hk₁ hk₂ hshrinks₁ hshrinks₂

def decreased (cWnd : Nat) (now : Time) : SwiftState :=
  ⟨{ rtt := 1000000, canDecrease := true, tLastDecrease := now },
    { cWnd, segmentSize := 1000 }⟩

/-- Five segments are decreased to three, and an RTT later to 1800 bytes. -/
theorem direction_iff_decreases :
    Directed (sampled 5000) 2000000 0 (decreased 3000 2000000) ∧
      Directed (decreased 3000 2000000) 3000000 0 (decreased 1800 3000000) ∧
      (decreased 3000 2000000).swift.rtt ≤ (3000000 : Time) - 2000000 := by
  have hfirst : (sampled 5000).next (.increaseWindow 2000000 0 1) =
      some (decreased 3000 2000000) := by
    decide +kernel
  have hsecond : (decreased 3000 2000000).next (.increaseWindow 3000000 0 1) =
      some (decreased 1800 3000000) := by
    decide +kernel
  have hfirstOver : ¬getSeconds (sampled 5000).swift.rtt < ((0 : ℚ≥0) : ℚ) := by decide +kernel
  have hsecondOver : ¬getSeconds (decreased 3000 2000000).swift.rtt < ((0 : ℚ≥0) : ℚ) := by
    decide +kernel
  have hkeepsFirst : KeepsBytes (sampled 5000) 2000000 0 1 :=
    ⟨fun hbelow => absurd hbelow hfirstOver, fun _ _ => rfl, fun _ _ => by decide +kernel⟩
  have hkeepsSecond : KeepsBytes (decreased 3000 2000000) 3000000 0 1 :=
    ⟨fun hbelow => absurd hbelow hsecondOver, fun _ _ => rfl, fun _ _ => by decide +kernel⟩
  obtain ⟨hdirected, -, hapart⟩ := direction_iff (sampled 5000) 2000000 0 1 _ hfirst
  refine ⟨hdirected hkeepsFirst, (direction_iff _ 3000000 0 1 _ hsecond).1 hkeepsSecond, ?_⟩
  exact hapart [.pktsAcked 1 1000000] _ 3000000 0 1 _ (.single rfl) hsecond
    (List.forall_mem_singleton.mpr trivial) hkeepsFirst hkeepsSecond (by decide) (by decide)

/-- Within an RTT of a decrease, a window of 1500 bytes is left at 1000. -/
theorem held_window_shrinks :
    ¬∀ (st : SwiftState) (now : Time) (targetDelay : ℚ≥0) (segmentsAcked : Nat) (st' : SwiftState),
      st.Step (.increaseWindow now targetDelay segmentsAcked) st' →
        Directed st now targetDelay st' := by
  intro hall
  have hstep : (sampled 1500).Step (.increaseWindow 500000 0 1)
      ⟨{ rtt := 1000000 }, { cWnd := 1000, segmentSize := 1000 }⟩ := by
    have hnext : (sampled 1500).next (.increaseWindow 500000 0 1) =
        some ⟨{ rtt := 1000000 }, { cWnd := 1000, segmentSize := 1000 }⟩ := by
      decide +kernel
    exact hnext
  have hover : ((0 : ℚ≥0) : ℚ) ≤ getSeconds (sampled 1500).swift.rtt := by decide +kernel
  have hheld := (hall _ _ _ _ _ hstep).hold hover (by decide +kernel)
  exact absurd hheld (by decide)

end SwiftState

end Ns3.Tcp
