/-
  The limit of the transmission buffer.

  `Available` is an unsigned difference of the limit and the occupancy, and it is
  all that `Add` tests.  The limit may be set at any time; once it is below the
  occupancy the difference wraps, and the buffer takes whatever it is given.
-/
import Ns3.Internet.Tcp.TxContent

namespace Ns3.Tcp

open Ns3.Lib SequenceNumber

namespace TcpTxBuffer

/-- `SetMaxBufferSize`, which is all that `TcpSocketBase::SetSndBufSize` does. -/
def setMaxBufferSize (b : TcpTxBuffer) (n : UInt32) : TcpTxBuffer :=
  { b with maxBuffer := n.toNat }

end TcpTxBuffer

inductive LimitOp where
  | call (op : TxOp)
  | setMaxBufferSize (n : UInt32)
  deriving DecidableEq, Repr

def LimitOp.next (b : TcpTxBuffer) : LimitOp → Option TcpTxBuffer
  | .call op => (op.exec b).toOption
  | .setMaxBufferSize n => some (b.setMaxBufferSize n)

/-- The limit is honoured in a step: `Available` is not larger than the limit after it,
and `Add` accepts only what fits. -/
def LimitOp.Honours (b : TcpTxBuffer) (op : LimitOp) (b' : TcpTxBuffer) : Prop :=
  b'.available ≤ b'.maxBuffer ∧
    ∀ p, op = .call (.add p) → (b.add p).2 = true → b.size + p.length ≤ b.maxBuffer

def LimitOp.aboveSize (b : TcpTxBuffer) : LimitOp → Bool
  | .call _ => true
  | .setMaxBufferSize n => decide (b.size ≤ n.toNat)

namespace TcpTxBuffer

/-- The bytes are counted, and they are within the limit. -/
structure Within (b : TcpTxBuffer) : Prop where
  sized : b.Sized
  size_le : b.size ≤ b.maxBuffer
  max_lt : b.maxBuffer < 2 ^ 32

variable {b b' : TcpTxBuffer}

theorem available_le_iff (hsize : b.size < 2 ^ 32) (hmax : b.maxBuffer < 2 ^ 32) :
    b.available ≤ b.maxBuffer ↔ b.size ≤ b.maxBuffer := by
  unfold available wsub
  omega

theorem Within.available_eq (h : b.Within) : b.available = b.maxBuffer - b.size :=
  wsub_eq h.max_lt h.size_le

theorem Within.add_fits (h : b.Within) {p : Packet} (haccept : (b.add p).2 = true) :
    b.size + p.length ≤ b.maxBuffer := by
  have havailable := h.available_eq
  have hle := h.size_le
  rw [add] at haccept
  split at haccept
  · omega
  · simp at haccept

theorem Within.add (h : b.Within) (p : Packet) : (b.add p).1.Within := by
  have hmax := h.max_lt
  have hsized := h.sized.size_eq
  have hcontent := congrArg List.length (add_content b p)
  rw [List.length_append] at hcontent
  by_cases haccept : (b.add p).2 = true
  · have hfits := h.add_fits haccept
    rw [TxOp.accepted, if_pos haccept] at hcontent
    have hsize : (b.add p).1.size = b.size + p.length ∧ (b.add p).1.maxBuffer = b.maxBuffer := by
      rw [TcpTxBuffer.add] at haccept ⊢
      split at haccept
      · rename_i hroom
        rw [if_pos hroom]
        split
        · exact ⟨wadd_eq (by omega), rfl⟩
        · exact ⟨by dsimp only; omega, rfl⟩
      · simp at haccept
    exact ⟨⟨by omega, by omega⟩, by omega, by omega⟩
  · have hsame : (b.add p).1 = b := by
      rw [TcpTxBuffer.add] at haccept ⊢
      split at haccept
      · split at haccept <;> simp at haccept
      · rename_i hroom
        rw [if_neg hroom]
    rw [hsame]
    exact h

theorem NoNewBytes.within (hkept : NoNewBytes b b') (h : b.Within) : b'.Within := by
  have hle := hkept.size_le h.sized
  have hmax := hkept.maxBuffer
  exact ⟨hkept.sized h.sized, by have := h.size_le; omega, by have := h.max_lt; omega⟩

/-- **Step lemma.**  A call keeps the bytes within the limit. -/
theorem Within.exec (h : b.Within) {op : TxOp} (hexec : op.exec b = .ok b') : b'.Within := by
  by_cases hadd : ∃ p, op = .add p
  · obtain ⟨p, rfl⟩ := hadd
    rw [TxOp.exec, pure_eq_ok] at hexec
    subst hexec
    exact h.add p
  · exact (exec_noNewBytes (fun p hp => hadd ⟨p, hp⟩) hexec).within h

/-- **Step lemma.**  A step honours the limit unless it sets it below the occupancy. -/
theorem Within.honours_iff (h : b.Within) {op : LimitOp} (hnext : op.next b = some b') :
    op.Honours b b' ↔ op.aboveSize b = true := by
  cases op with
  | call op =>
    have hwithin := h.exec (toOption_eq_some.mp hnext)
    refine iff_of_true ⟨?_, ?_⟩ rfl
    · exact (available_le_iff hwithin.sized.size_lt hwithin.max_lt).mpr hwithin.size_le
    · intro p _ haccept
      exact h.add_fits haccept
  | setMaxBufferSize n =>
    rw [LimitOp.next, Option.some.injEq] at hnext
    subst hnext
    have hiff : (b.setMaxBufferSize n).available ≤ n.toNat ↔ b.size ≤ n.toNat :=
      available_le_iff (b := b.setMaxBufferSize n) h.sized.size_lt n.toNat_lt
    rw [LimitOp.aboveSize, decide_eq_true_iff, ← hiff]
    exact ⟨fun hhonours => hhonours.1, fun hle => ⟨hle, by simp⟩⟩

theorem Within.of_honours (h : b.Within) {op : LimitOp} (hnext : op.next b = some b')
    (hhonours : op.Honours b b') : b'.Within := by
  cases op with
  | call op => exact h.exec (toOption_eq_some.mp hnext)
  | setMaxBufferSize n =>
    have habove := (h.honours_iff hnext).mp hhonours
    rw [LimitOp.next, Option.some.injEq] at hnext
    subst hnext
    exact ⟨⟨h.sized.size_eq, h.sized.size_lt⟩, of_decide_eq_true habove, n.toNat_lt⟩

theorem Starts.within {start : SequenceNumber32} (h : b.Starts start)
    (hmax : b.maxBuffer < 2 ^ 32) : b.Within := by
  have hsize := h.size
  refine ⟨⟨?_, by omega⟩, by omega, hmax⟩
  rw [content, h.sentList, h.appList, hsize]
  rfl

/-- **The limit of the buffer.**  Along a run from an empty buffer, `Available` is never
larger than the limit and `Add` accepts only what fits, exactly if no step sets the limit
below the bytes that the buffer holds. -/
theorem limit_honoured_iff {start : SequenceNumber32} {b₀ b : TcpTxBuffer} {ops : List LimitOp}
    (hstart : b₀.Starts start) (hmax : b₀.maxBuffer < 2 ^ 32)
    (hrun : Run (fun b op b' => LimitOp.next b op = some b') b₀ ops b) :
    (b₀.available ≤ b₀.maxBuffer ∧ ∀ before op u v, before ++ [op] <+: ops →
        Run (fun b op b' => LimitOp.next b op = some b') b₀ before u →
          LimitOp.next u op = some v → op.Honours u v) ↔
      ∀ before op u v, before ++ [op] <+: ops →
        Run (fun b op b' => LimitOp.next b op = some b') b₀ before u →
          LimitOp.next u op = some v → op.aboveSize u = true := by
  have hwithin := hstart.within hmax
  have hfirst : b₀.available ≤ b₀.maxBuffer :=
    (available_le_iff hwithin.sized.size_lt hmax).mpr hwithin.size_le
  have hsteps := hrun.steps_iff (I := Within) (P := fun u op v => LimitOp.Honours u op v)
    (C := fun u op => LimitOp.aboveSize u op = true) hwithin
    (fun _ _ _ h hnext hhonours => h.of_honours hnext hhonours)
    (fun _ _ _ h hnext => h.honours_iff hnext)
  rw [← hsteps]
  exact ⟨fun h => h.2, fun h => ⟨hfirst, h⟩⟩

/-- The limit is set to two bytes before there are any, and a third byte is refused. -/
theorem limit_honoured_iff_full :
    (∃ b, Run (fun b op b' => LimitOp.next b op = some b') { firstByteSeq := .ofNat 1 }
      [.setMaxBufferSize 2, .call (.add [1, 2]), .call (.add [3])] b) ∧
    ∀ before op u v, before ++ [op] <+:
        [.setMaxBufferSize 2, .call (.add [1, 2]), .call (.add [3])] →
      Run (fun b op b' => LimitOp.next b op = some b') { firstByteSeq := .ofNat 1 } before u →
        LimitOp.next u op = some v → op.Honours u v := by
  have hrun := Run.of_foldlM (fun _ _ _ h => h)
    (by decide +kernel : List.foldlM LimitOp.next { firstByteSeq := .ofNat 1 }
      [.setMaxBufferSize 2, .call (.add [1, 2]), .call (.add [3])] = some
        { firstByteSeq := .ofNat 1, maxBuffer := 2, size := 2, nextNode := 1
          appList := [{ node := 0, packet := [1, 2] }] })
  refine ⟨⟨_, hrun⟩, ((@limit_honoured_iff (.ofNat 1) _ _ _
    ⟨rfl, rfl, rfl, rfl, rfl, rfl, rfl, rfl, rfl, rfl⟩ (by decide) hrun).mpr ?_).2⟩
  intro before op u v hpre hu _
  obtain ⟨rfl, rfl⟩ | ⟨_, rfl, hpre₁⟩ := before_cons hpre
  · obtain rfl := hu.nil_eq
    decide
  obtain ⟨rfl, rfl⟩ | ⟨_, rfl, hpre₂⟩ := before_cons hpre₁
  · rfl
  obtain ⟨rfl, rfl⟩ := before_singleton hpre₂
  rfl

/-- The limit is set to one byte while the buffer holds two: it then takes three more. -/
theorem limit_below_size :
    ¬∀ (b₀ b b' : TcpTxBuffer) (ops : List LimitOp) (op : LimitOp), b₀.Starts (.ofNat 1) →
      b₀.maxBuffer < 2 ^ 32 → Run (fun b op b' => LimitOp.next b op = some b') b₀ ops b →
        LimitOp.next b op = some b' → op.Honours b b' := by
  intro h
  have hrun := Run.of_foldlM (fun _ _ _ h => h)
    (by decide +kernel : List.foldlM LimitOp.next { firstByteSeq := .ofNat 1 }
      [.call (.add [1, 2]), .setMaxBufferSize 1] = some
        { firstByteSeq := .ofNat 1, maxBuffer := 1, size := 2, nextNode := 1
          appList := [{ node := 0, packet := [1, 2] }] })
  have hhonours := h _ _ _ _ (.call (.add [3, 4, 5]))
    ⟨rfl, rfl, rfl, rfl, rfl, rfl, rfl, rfl, rfl, rfl⟩ (by decide) hrun rfl
  exact absurd (hhonours.2 [3, 4, 5] rfl (by decide +kernel)) (by decide)

end TcpTxBuffer

end Ns3.Tcp
