/-
  A buffer of less than half the sequence space.

  With a capacity below half of the sequence space, whatever calls are made with
  whatever arguments, the buffer holds some contiguous piece of a stream.  This
  is the setting in which the cached pointers of the scoreboard are judged.
-/
import Ns3.Internet.Tcp.TxConserve

namespace Ns3.Tcp

open Ns3.Lib SequenceNumber

namespace TcpTxBuffer

/-- The buffer holds a contiguous piece of a stream, and cannot hold as much as
half of the sequence space. -/
structure Placed (b : TcpTxBuffer) : Prop where
  holds : ∃ data, b.Holds data
  size_le : b.size ≤ b.maxBuffer
  max_lt : b.maxBuffer < 2 ^ 31

variable {b : TcpTxBuffer}

theorem Placed.size_lt (h : Placed b) : b.size < 2 ^ 31 :=
  h.size_le.trans_lt h.max_lt

theorem Placed.sentSize_le (h : Placed b) : b.sentSize ≤ b.size := by
  obtain ⟨data, hholds⟩ := h.holds
  exact hholds.sentSize_le

theorem Placed.sentSize_lt (h : Placed b) : b.sentSize < 2 ^ 31 :=
  h.sentSize_le.trans_lt h.size_lt

theorem Placed.chain (h : Placed b) : Chain b.firstByteSeq b.sentList := by
  obtain ⟨data, hholds⟩ := h.holds
  exact hholds.chain

theorem Placed.nonempty (h : Placed b) : Nonempty b.sentList := by
  obtain ⟨data, hholds⟩ := h.holds
  exact hholds.sent_nonempty

theorem Placed.bytes_eq (h : Placed b) : bytes b.sentList = b.sentSize := by
  obtain ⟨data, hholds⟩ := h.holds
  exact hholds.sentSize_eq.symm

variable {b' : TcpTxBuffer}

theorem Placed.of_samePlaces (h : Placed b) (hsame : SamePlaces b b') : Placed b' := by
  obtain ⟨data, hholds⟩ := h.holds
  refine ⟨⟨data, hholds.of_samePlaces hsame⟩, ?_, ?_⟩
  · rw [hsame.size, hsame.maxBuffer]
    exact h.size_le
  · rw [hsame.maxBuffer]
    exact h.max_lt

/-! ## Any arguments -/

variable {seq : SequenceNumber32}

theorem pos_le_of_sizeFromSequence (hsize : b.size < 2 ^ 31) (hhead : b.firstByteSeq.gt seq = false)
    (hfrom : b.sizeFromSequence seq ≠ 0) : pos b.firstByteSeq seq ≤ b.size := by
  have hfar := pos_le_half hhead
  have htail : pos b.firstByteSeq b.tailSequence = b.size := pos_base_add (by omega)
  unfold sizeFromSequence at hfrom
  split at hfrom
  · rename_i hge
    by_cases hhalf : pos b.firstByteSeq seq < b.size + 2 ^ 31
    · have hnear : Near b.firstByteSeq b.tailSequence seq := ⟨by omega, by omega⟩
      rw [ge_iff hnear, htail] at hge
      exact hge
    · -- the antipode of the head of an empty buffer is behind the head
      have hempty : b.tailSequence = b.firstByteSeq := by
        rw [tailSequence, show b.size = 0 by omega, SequenceNumber.add_zero]
      rw [hempty, ge, hhead, Bool.false_or, decide_eq_true_eq] at hge
      rw [← hge, pos_self]
      exact Nat.zero_le _
  · exact absurd rfl hfrom

section

variable (h : Placed b)

include h

variable {now : Time}

theorem copyFromSequence_offset {fuel numBytes : Nat} {item : TcpTxItem}
    (hrun : copyFromSequenceFuel now b fuel numBytes seq = .ok (b', some item)) :
    pos b.firstByteSeq seq ≤ b.sentSize := by
  have hsize := h.size_lt
  have hsent := h.sentSize_lt
  have hunsent : pos b.firstByteSeq b.firstUnsent = b.sentSize := pos_base_add (by omega)
  induction fuel generalizing numBytes with
  | zero => simp [copyFromSequenceFuel] at hrun
  | succ fuel ih =>
    unfold copyFromSequenceFuel at hrun
    dsimp only at hrun
    split at hrun
    · simp at hrun
    · rename_i hhead
      have hhead : b.firstByteSeq.gt seq = false := by simpa using hhead
      split at hrun
      · simp [pure_eq_ok] at hrun
      · rename_i hs
        have hle := pos_le_of_sizeFromSequence hsize hhead (by omega)
        have hadd : pos b.firstByteSeq
            (seq.add (min numBytes (b.sizeFromSequence seq)))
            = pos b.firstByteSeq seq + min numBytes (b.sizeFromSequence seq) := by
          refine pos_add ?_
          have hfrom : b.sizeFromSequence seq < 2 ^ 31 := by
            unfold sizeFromSequence
            split
            · have htail : pos b.firstByteSeq b.tailSequence = b.size :=
                pos_base_add (by omega)
              rw [distance_eq_pos, pos_rebase b.firstByteSeq (by omega), htail]
              omega
            · omega
          omega
        split at hrun
        · rename_i hge
          by_contra hbeyond
          have hnear : Near b.firstByteSeq b.firstUnsent
              (seq.add (min numBytes (b.sizeFromSequence seq))) := by
            refine ⟨by omega, ?_⟩
            rw [hadd, hunsent]
            have hfrom : b.sizeFromSequence seq = b.size - pos b.firstByteSeq seq := by
              obtain ⟨data, hholds⟩ := h.holds
              have := hholds.sizeFromSequence_eq (by rw [hholds.length_eq]; exact hsize) hle
              rwa [add_pos] at this
            omega
          rw [ge_iff hnear, hadd, hunsent] at hge
          omega
        · split at hrun
          · split at hrun
            · rename_i heq
              rw [← heq, hunsent]
            · simp at hrun
          · split at hrun
            · exact ih hrun
            · simp at hrun

theorem Placed.copyFromSequence {numBytes : Nat} {result : Option TcpTxItem}
    (hrun : b.copyFromSequence now numBytes seq = .ok (b', result)) : Placed b' := by
  cases result with
  | none => exact copyFromSequence_none hrun ▸ h
  | some item =>
    obtain ⟨data, hholds⟩ := h.holds
    have hlen : data.length < 2 ^ 31 := by
      rw [hholds.length_eq]
      exact h.size_lt
    have hoff := copyFromSequence_offset h hrun
    have hrun0 : b.copyFromSequence now numBytes
        (b.firstByteSeq.add (pos b.firstByteSeq seq)) = .ok (b', some item) := by
      rwa [add_pos]
    obtain ⟨hkeeps, _⟩ := copyFromSequence_spec hholds hlen hoff hrun0
    have hsize : b'.size = b.size := by rw [← hkeeps.holds.length_eq, hholds.length_eq]
    refine ⟨⟨data, hkeeps.holds⟩, ?_, ?_⟩
    · rw [hsize, hkeeps.maxBuffer]
      exact h.size_le
    · rw [hkeeps.maxBuffer]
      exact h.max_lt

theorem Placed.of_dropped {data : List UInt8} {n : Nat} (hholds : b.Holds data)
    (hdrop : Dropped b b' data n) : Placed b' := by
  have hsize : b'.size = b.size - n := by
    rw [← hdrop.holds.length_eq, List.length_drop, hholds.length_eq]
  have hle := h.size_le
  refine ⟨⟨_, hdrop.holds⟩, ?_, ?_⟩
  · rw [hsize, hdrop.maxBuffer]
    omega
  · rw [hdrop.maxBuffer]
    exact h.max_lt

theorem Placed.moveHead (seq : SequenceNumber32) :
    Placed (if b.size = 0 then { b with firstByteSeq := seq } else b) := by
  split
  · rename_i hzero
    obtain ⟨data, hholds⟩ := h.holds
    have hempty : b.sentList = [] := by
      have hbytes := hholds.size_eq
      cases hlist : b.sentList with
      | nil => rfl
      | cons head tail =>
        have hpos := (nonempty_cons.mp (hlist ▸ hholds.sent_nonempty)).1
        rw [hlist, bytes_cons] at hbytes
        omega
    refine ⟨⟨data, ⟨hholds.payload_eq, ?_, hholds.sentSize_eq, hholds.size_eq,
      hholds.sent_nonempty, hholds.app_nonempty⟩⟩, h.size_le, h.max_lt⟩
    rw [hempty]
    trivial
  · exact h

variable {deleted : List TcpTxItem}

theorem Placed.discardLoop {fuel : Nat} {offset : Nat}
    (hrun : discardLoop now fuel b offset = .ok (b', deleted)) :
    Placed b' ∧ b'.firstByteSeq = b.firstByteSeq.add (min offset b.size) := by
  obtain ⟨data, hholds⟩ := h.holds
  have hlen : data.length = b.size := hholds.length_eq
  have hdrop := discardLoop_dropped hholds (by rw [hlen]; exact h.size_lt) hrun
  rw [hlen] at hdrop
  exact ⟨h.of_dropped hholds hdrop, hdrop.first⟩

theorem Placed.discardUpTo (hrun : b.discardUpTo now seq = .ok (b', deleted)) : Placed b' := by
  obtain ⟨_, rfl, _⟩ | ⟨_, b₁, b₂, hloop, hmove, rfl⟩ := discardUpTo_cases hrun
  · exact h
  · have hhead := (h.discardLoop hloop).1.moveHead seq
    exact (hhead.of_samePlaces (moveSackFromHead_samePlaces hmove)).of_samePlaces
      (resetHighest_samePlaces b₂)

theorem Placed.add (p : Packet) : Placed (b.add p).1 := by
  obtain ⟨data, hholds⟩ := h.holds
  have hsize := hholds.length_eq
  have hle := h.size_le
  have hlt := h.max_lt
  have hlen : (data ++ if (b.add p).2 then p else []).length < 2 ^ 31 ∧
      (b.add p).1.size ≤ b.maxBuffer ∧ (b.add p).1.maxBuffer = b.maxBuffer := by
    unfold TcpTxBuffer.add
    split
    · rename_i hfits
      rw [available, wsub_eq (by omega) hle] at hfits
      have hsum : wadd 32 b.size p.length = b.size + p.length := wadd_eq (by omega)
      split <;> simp [hsum, hsize] <;> omega
    · simp only [Bool.false_eq_true, if_false, List.append_nil, and_true]
      omega
  refine ⟨⟨_, hholds.add hlen.1⟩, ?_, ?_⟩
  · rw [hlen.2.2]
    exact hlen.2.1
  · rw [hlen.2.2]
    exact hlt

theorem Placed.resetSentList : Placed b.resetSentList := by
  obtain ⟨data, hholds⟩ := h.holds
  exact ⟨⟨data, hholds.resetSentList⟩, h.size_le, h.max_lt⟩

theorem Placed.resetLastSegmentSent : Placed b.resetLastSegmentSent := by
  obtain ⟨data, hholds⟩ := h.holds
  have hlen : data.length < 2 ^ 31 := by
    rw [hholds.length_eq]
    exact h.size_lt
  have hsame : b.resetLastSegmentSent.size = b.size ∧
      b.resetLastSegmentSent.maxBuffer = b.maxBuffer := by
    unfold TcpTxBuffer.resetLastSegmentSent
    split <;> exact ⟨rfl, rfl⟩
  refine ⟨⟨data, hholds.resetLastSegmentSent hlen⟩, ?_, ?_⟩
  · rw [hsame.1, hsame.2]
    exact h.size_le
  · rw [hsame.2]
    exact h.max_lt

/-- **Step lemma.**  Every call keeps the buffer placed. -/
theorem Placed.step {op : TxOp} (hexec : op.exec b = .ok b') : Placed b' := by
  cases op.effect hexec with
  | add p => exact h.add p
  | copyFromSequence hcopy => exact h.copyFromSequence hcopy
  | discardUpTo hdiscard => exact h.discardUpTo hdiscard
  | resetSentList => exact h.resetSentList
  | resetLastSegmentSent => exact h.resetLastSegmentSent
  | update hupdate => exact h.of_samePlaces (update_samePlaces hupdate)
  | updateLostCount hcount => exact h.of_samePlaces (updateLostCount_samePlaces hcount)
  | markHeadAsLost => exact h.of_samePlaces (markHeadAsLost_samePlaces b)
  | addRenoSack hadd => exact h.of_samePlaces (addRenoSack_samePlaces hadd)
  | resetRenoSack => exact h.of_samePlaces (resetRenoSack_samePlaces b)
  | setSentListLost hset => exact h.of_samePlaces (setSentListLost_samePlaces hset)
  | deleteRetransmittedFlagFromHead hdelete =>
    exact h.of_samePlaces (deleteRetransmittedFlagFromHead_samePlaces hdelete)

end

theorem Starts.placed {start : SequenceNumber32} (h : b.Starts start)
    (hmax : b.maxBuffer < 2 ^ 31) : Placed b := by
  refine ⟨⟨_, h.conserves.holds⟩, ?_, hmax⟩
  rw [h.size]
  exact Nat.zero_le _

end TcpTxBuffer

end Ns3.Tcp
