/-
  The bytes of a transmission buffer, wherever
  their items are.

  No call but `Add` brings a byte into the buffer, whatever the sequence numbers
  it is given and however many bytes there are.  The size is the number of bytes
  in the two lists, so that it never wraps below zero.
-/
import Ns3.Internet.Tcp.TxConserve

namespace Ns3.Tcp

open Ns3.Lib SequenceNumber

namespace TcpTxBuffer

def content (b : TcpTxBuffer) : List UInt8 := payload b.sentList ++ payload b.appList

/-- `m_size` is the number of bytes in the lists. -/
structure Sized (b : TcpTxBuffer) : Prop where
  size_eq : b.size = b.content.length
  size_lt : b.size < 2 ^ 32

/-- What a call that adds nothing leaves: some of the bytes, counted as before. -/
structure NoNewBytes (b b' : TcpTxBuffer) : Prop where
  subperm : List.Subperm b'.content b.content
  maxBuffer : b'.maxBuffer = b.maxBuffer
  sized : b.Sized → b'.Sized

namespace NoNewBytes

variable {b b' b'' : TcpTxBuffer}

theorem refl (b : TcpTxBuffer) : NoNewBytes b b := ⟨.refl _, rfl, id⟩

theorem trans (h : NoNewBytes b b') (h' : NoNewBytes b' b'') : NoNewBytes b b'' :=
  ⟨h'.subperm.trans h.subperm, h'.maxBuffer.trans h.maxBuffer, fun hb => h'.sized (h.sized hb)⟩

theorem size_le (h : NoNewBytes b b') (hb : b.Sized) : b'.size ≤ b.size := by
  rw [hb.size_eq, (h.sized hb).size_eq]
  exact h.subperm.length_le

theorem of_perm (hcontent : List.Perm b'.content b.content) (hsize : b'.size = b.size)
    (hmax : b'.maxBuffer = b.maxBuffer) : NoNewBytes b b' := by
  refine ⟨hcontent.subperm, hmax, fun hb => ⟨?_, ?_⟩⟩
  · rw [hsize, hb.size_eq, hcontent.length_eq]
  · rw [hsize]
    exact hb.size_lt

theorem of_samePlaces (h : SamePlaces b b') : NoNewBytes b b' := by
  have hcontent : b'.content = b.content := by
    rw [content, content, payload_of_places h.sentList, h.appList]
  exact of_perm (by rw [hcontent]) h.size h.maxBuffer

theorem of_drop {n : Nat} (hn : n ≤ bytes b.sentList)
    (hsent : payload b'.sentList = (payload b.sentList).drop n) (happ : b'.appList = b.appList)
    (hsize : b'.size = wsub 32 b.size n) (hmax : b'.maxBuffer = b.maxBuffer) : NoNewBytes b b' := by
  refine ⟨?_, hmax, fun hb => ?_⟩
  · rw [content, content, hsent, happ]
    exact ((List.drop_sublist n _).append_right _).subperm
  · have hlength : b.size = bytes b.sentList + bytes b.appList := by
      rw [hb.size_eq, content, List.length_append]
      rfl
    have hlt := hb.size_lt
    have hleft : b'.size = b.size - n := by rw [hsize, wsub_eq hlt (by omega)]
    refine ⟨?_, by omega⟩
    rw [content, hsent, happ, List.length_append, List.length_drop]
    change b'.size = bytes b.sentList - n + bytes b.appList
    omega

end NoNewBytes

/-! ## Blocks to transmit -/

variable {seq : SequenceNumber32} {now : Time} {numBytes : Nat} {ref : ItemRef} {b b₁ : TcpTxBuffer}

theorem getTransmittedSegment_noNewBytes
    (h : b.getTransmittedSegment numBytes seq = .ok (b₁, ref)) : NoNewBytes b (b₁.withRef ref) := by
  unfold getTransmittedSegment at h
  simp only [bind_eq_ok, pure_eq_ok, Prod.mk.injEq] at h
  obtain ⟨_, _, _, _, _, _, found, hfound, rfl, rfl⟩ := h
  have hpayload := (getPacketFromList_extract hfound).edits.payload_eq
  have hcontent : (TcpTxBuffer.withRef
      { b with
        retrans :=
          if found.item.retrans then found.retrans else wadd 32 found.retrans found.item.size
        nextNode := found.nextNode }
      { found.toItemRef with item := { found.item with retrans := true } }).content =
        b.content := by
    rw [content, content, ← hpayload]
    simp [withRef, ItemRef.list, FoundItem.state]
  exact .of_perm (by rw [hcontent]) rfl rfl

theorem getNewSegment_noNewBytes (h : b.getNewSegment numBytes = .ok (b₁, ref)) :
    NoNewBytes b (b₁.withRef ref) := by
  unfold getNewSegment at h
  simp only [bind_eq_ok, pure_eq_ok, Prod.mk.injEq] at h
  obtain ⟨found, hfound, rfl, rfl⟩ := h
  have hpayload := (getPacketFromList_extract hfound).edits.payload_eq
  refine .of_perm ?_ rfl rfl
  rw [content, content, ← hpayload]
  simp only [withRef, ItemRef.list, FoundItem.state, payload_append, payload_cons, payload_nil,
    List.append_nil, List.append_assoc]
  -- the items before the one that is sent stay behind it
  refine List.Perm.append_left _ ?_
  rw [← List.append_assoc, ← List.append_assoc]
  exact List.Perm.append_right _ List.perm_append_comm

variable {result : Option TcpTxItem}

theorem NoNewBytes.stamp {b' : TcpTxBuffer} (h : NoNewBytes b (b₁.withRef ref))
    (hstamp : stampItem now b₁ ref = .ok (b', result)) :
    NoNewBytes b b' ∧ ∀ item, result = some item → item ∈ b'.sentList := by
  obtain ⟨rfl, rfl⟩ := stampItem_eq_ok hstamp
  refine ⟨h.trans (.of_perm ?_ rfl rfl), ?_⟩
  · refine List.Perm.of_eq ?_
    simp [content, withRef, ItemRef.list]
  · intro item hitem
    cases hitem
    simp [withRef, ItemRef.list]

variable {b' : TcpTxBuffer}

theorem copyFromSequence_noNewBytes (h : b.copyFromSequence now numBytes seq = .ok (b', result)) :
    NoNewBytes b b' ∧ ∀ item, result = some item → item ∈ b'.sentList := by
  obtain ⟨rfl, rfl⟩ | ⟨s, b₁, ref, _, _, hseg, _, hstamp⟩ | ⟨s, b₁, ref, hseg, hstamp⟩ :=
    copyFromSequence_cases h
  · exact ⟨.refl _, by simp⟩
  · exact (getTransmittedSegment_noNewBytes hseg).stamp hstamp
  · exact (getNewSegment_noNewBytes hseg).stamp hstamp

/-! ## Data leaving the buffer -/

theorem fillSentList_noNewBytes {offset : Nat} (h : b.fillSentList now offset = .ok b') :
    NoNewBytes b b' := by
  obtain ⟨_, rfl⟩ | ⟨_, item, hcopy⟩ := fillSentList_cases h
  · exact .refl _
  · exact (copyFromSequence_noNewBytes hcopy).1

theorem advance_noNewBytes {item : TcpTxItem} {rest : List TcpTxItem} {n : Nat}
    (left : List TcpTxItem) (hlist : b.sentList = item :: rest) (hn : n ≤ item.size)
    (hleft : payload left = item.packet.drop n) : NoNewBytes b (b.advance n (left ++ rest)) := by
  refine .of_drop (n := n) ?_ ?_ rfl rfl rfl
  · rw [hlist, bytes_cons]
    omega
  · rw [hlist, payload_cons, List.drop_append_of_le_length hn, ← hleft]
    simp [TcpTxBuffer.advance]

variable {deleted : List TcpTxItem}

theorem discardLoop_noNewBytes {fuel : Nat} {offset : Nat}
    (h : discardLoop now fuel b offset = .ok (b', deleted)) : NoNewBytes b b' := by
  induction fuel generalizing b offset deleted with
  | zero => simp [discardLoop] at h
  | succ fuel ih =>
    obtain ⟨_, rfl, _⟩ | ⟨_, b₁, item, rest, b₂, hfill, hlist, hturn⟩ := discardLoop_cases h
    · exact .refl _
    · have hkeep := fillSentList_noNewBytes hfill
      obtain ⟨_, hremove, deleted', hrec, _⟩ | ⟨hpart, rfl, _, hremove⟩ := hturn
      · have hwhole : NoNewBytes b₁ (b₁.advance item.size ([] ++ rest)) :=
          advance_noNewBytes [] hlist le_rfl (by simp [TcpTxItem.size])
        have hcounts : NoNewBytes _ b₂ := .of_samePlaces (removeFromCounts_samePlaces hremove)
        exact ((hkeep.trans hwhole).trans hcounts).trans (ih hrec)
      · have hleft : NoNewBytes b₁ (b₁.advance offset ([cutFront item offset] ++ rest)) := by
          refine advance_noNewBytes _ hlist hpart.le ?_
          rw [payload_cons, payload_nil, List.append_nil]
          exact Packet.createFragment_rest item.packet offset
        exact (hkeep.trans hleft).trans (.of_samePlaces (removeFromCounts_samePlaces hremove))

theorem discardUpTo_noNewBytes (h : b.discardUpTo now seq = .ok (b', deleted)) :
    NoNewBytes b b' := by
  obtain ⟨_, rfl, _⟩ | ⟨_, b₁, b₂, hloop, hmove, rfl⟩ := discardUpTo_cases h
  · exact .refl _
  · have hfin : NoNewBytes b₁ (if b₁.size = 0 then { b₁ with firstByteSeq := seq } else b₁) := by
      split
      · exact .of_perm .rfl rfl rfl
      · exact .refl _
    exact ((discardLoop_noNewBytes hloop).trans hfin).trans (.of_samePlaces
      ((moveSackFromHead_samePlaces hmove).trans (resetHighest_samePlaces b₂)))

/-! ## Items that go back -/

theorem resetSentList_noNewBytes (b : TcpTxBuffer) : NoNewBytes b b.resetSentList := by
  have hplaces : (b.sentList.map fun item =>
      { item with retrans := false, sacked := false, lost := false }).map place =
      b.sentList.map place := map_place_eq fun _ => rfl
  refine .of_perm (.of_eq ?_) rfl rfl
  simp only [content, TcpTxBuffer.resetSentList, payload_nil, payload_append, List.nil_append]
  rw [payload_of_places hplaces]

theorem resetLastSegmentSent_noNewBytes (b : TcpTxBuffer) :
    NoNewBytes b b.resetLastSegmentSent := by
  unfold resetLastSegmentSent
  split
  · exact .refl b
  · rename_i item hlast
    have hlist : b.sentList.dropLast ++ [item] = b.sentList :=
      List.dropLast_append_getLast? item hlast
    have hpayload := congrArg payload hlist
    refine .of_perm (.of_eq ?_) rfl rfl
    rw [content, content, ← hpayload]
    simp

/-! ## One call -/

theorem add_content (b : TcpTxBuffer) (p : Packet) :
    (b.add p).1.content = b.content ++ TxOp.accepted b (.add p) := by
  rw [TxOp.accepted, add]
  split
  · split
    · simp [content]
    · rename_i hempty
      rw [if_pos rfl, List.eq_nil_of_length_eq_zero (by omega : p.length = 0), List.append_nil]
  · simp

theorem exec_noNewBytes {op : TxOp} (hop : ∀ p, op ≠ .add p) (h : op.exec b = .ok b') :
    NoNewBytes b b' := by
  cases op.effect h with
  | add p => exact absurd rfl (hop p)
  | copyFromSequence hcopy => exact (copyFromSequence_noNewBytes hcopy).1
  | discardUpTo hdiscard => exact discardUpTo_noNewBytes hdiscard
  | resetSentList => exact resetSentList_noNewBytes b
  | resetLastSegmentSent => exact resetLastSegmentSent_noNewBytes b
  | update hupdate => exact .of_samePlaces (update_samePlaces hupdate)
  | updateLostCount hcount => exact .of_samePlaces (updateLostCount_samePlaces hcount)
  | markHeadAsLost => exact .of_samePlaces (markHeadAsLost_samePlaces b)
  | addRenoSack hadd => exact .of_samePlaces (addRenoSack_samePlaces hadd)
  | resetRenoSack => exact .of_samePlaces (resetRenoSack_samePlaces b)
  | setSentListLost hset => exact .of_samePlaces (setSentListLost_samePlaces hset)
  | deleteRetransmittedFlagFromHead hdelete =>
    exact .of_samePlaces (deleteRetransmittedFlagFromHead_samePlaces hdelete)

end TcpTxBuffer

end Ns3.Tcp
