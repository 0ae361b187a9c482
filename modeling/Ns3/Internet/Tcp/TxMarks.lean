/-
  How the methods move the marks of the items.

  Facts about the SACK and loss marks that every invariant of the scoreboard uses:
  a list without SACK marks stays so while it is cut and filled, the recount
  writes loss marks only, and an acknowledgment leaves a known part of the list.
-/
import Ns3.Internet.Tcp.TxStream

namespace Ns3.Tcp

open Ns3.Lib SequenceNumber

variable {st st' : ListState}

theorem Edit.unsacked (h : Edit st st') (hclear : ∀ item ∈ st.list, item.sacked = false) :
    ∀ item ∈ st'.list, item.sacked = false := by
  cases h with
  | split before after item n retrans nextNode =>
    simp only [List.mem_append, List.mem_cons, or_imp, forall_and, forall_eq] at hclear ⊢
    exact ⟨hclear.1, hclear.2.1, hclear.2.1, hclear.2.2⟩
  | merge before after t1 t2 merged retrans retrans' nextNode hmerge =>
    obtain ⟨_, _, _, rfl⟩ := mergeItems_eq_ok hmerge
    simp only [List.mem_append, List.mem_cons, or_imp, forall_and, forall_eq] at hclear ⊢
    exact ⟨hclear.1, hclear.2.1, hclear.2.2.2⟩

theorem Edits.unsacked (h : Edits st st') (hclear : ∀ item ∈ st.list, item.sacked = false) :
    ∀ item ∈ st'.list, item.sacked = false :=
  h.keep (P := fun s => ∀ item ∈ s.list, item.sacked = false) (fun _ _ hedit => hedit.unsacked)
    hclear

namespace TcpTxBuffer

/-! ## Buffers without SACK marks -/

variable {b b' : TcpTxBuffer}

/-- No item of the buffer is sacked. -/
structure Unmarked (b : TcpTxBuffer) : Prop where
  sent : ∀ item ∈ b.sentList, item.sacked = false
  app : ∀ item ∈ b.appList, item.sacked = false

def SameCache (b b' : TcpTxBuffer) : Prop :=
  b'.highestSack = b.highestSack ∧ b'.sackSeen = b.sackSeen

variable {numBytes : Nat} {ref : ItemRef} {seq : SequenceNumber32}

theorem getTransmittedSegment_unmarked (h : Unmarked b)
    (hrun : b.getTransmittedSegment numBytes seq = .ok (b', ref)) :
    Unmarked (b'.withRef ref) ∧ SameCache b b' := by
  unfold TcpTxBuffer.getTransmittedSegment at hrun
  simp only [bind_eq_ok, pure_eq_ok, Prod.mk.injEq] at hrun
  obtain ⟨_, _, _, _, _, _, found, hfound, rfl, rfl⟩ := hrun
  have hclear := (getPacketFromList_extract hfound).edits.unsacked h.sent
  refine ⟨⟨?_, h.app⟩, rfl, rfl⟩
  simp only [FoundItem.state, ItemRef.list, List.mem_append, List.mem_cons, or_imp, forall_and,
    forall_eq] at hclear
  simp only [withRef, ItemRef.list, List.mem_append, List.mem_cons, or_imp, forall_and, forall_eq]
  exact hclear

theorem getNewSegment_unmarked (h : Unmarked b) (hrun : b.getNewSegment numBytes = .ok (b', ref)) :
    Unmarked (b'.withRef ref) ∧ SameCache b b' := by
  unfold TcpTxBuffer.getNewSegment at hrun
  simp only [bind_eq_ok, pure_eq_ok, Prod.mk.injEq] at hrun
  obtain ⟨found, hfound, rfl, rfl⟩ := hrun
  have hclear := (getPacketFromList_extract hfound).edits.unsacked h.app
  simp only [FoundItem.state, ItemRef.list, List.mem_append, List.mem_cons, or_imp, forall_and,
    forall_eq] at hclear
  refine ⟨⟨?_, ?_⟩, rfl, rfl⟩
  · simp only [withRef, ItemRef.list, List.mem_append, List.mem_singleton, or_imp, forall_and,
      forall_eq]
    exact ⟨h.sent, hclear.2.1⟩
  · simp only [withRef, List.mem_append, or_imp, forall_and]
    exact ⟨hclear.1, hclear.2.2⟩

variable {now : Time} {result : Option TcpTxItem}

theorem stampItem_unmarked (h : Unmarked (b.withRef ref))
    (hrun : stampItem now b ref = .ok (b', result)) : Unmarked b' ∧ SameCache b b' := by
  obtain ⟨rfl, _⟩ := stampItem_eq_ok hrun
  have hsent := h.sent
  simp only [withRef, ItemRef.list, List.mem_append, List.mem_cons, or_imp, forall_and,
    forall_eq] at hsent
  refine ⟨⟨?_, h.app⟩, rfl, rfl⟩
  simp only [withRef, ItemRef.list, List.mem_append, List.mem_cons, or_imp, forall_and, forall_eq]
  exact hsent

theorem copyFromSequence_unmarked (h : Unmarked b)
    (hrun : b.copyFromSequence now numBytes seq = .ok (b', result)) :
    Unmarked b' ∧ SameCache b b' := by
  obtain ⟨rfl, _⟩ | ⟨s, b₁, ref, _, _, hseg, _, hstamp⟩ | ⟨s, b₁, ref, hseg, hstamp⟩ :=
    copyFromSequence_cases hrun
  · exact ⟨h, rfl, rfl⟩
  · obtain ⟨hseg, hcache, hseen⟩ := getTransmittedSegment_unmarked h hseg
    obtain ⟨hstamp, hcache', hseen'⟩ := stampItem_unmarked hseg hstamp
    exact ⟨hstamp, hcache'.trans hcache, hseen'.trans hseen⟩
  · obtain ⟨hseg, hcache, hseen⟩ := getNewSegment_unmarked h hseg
    obtain ⟨hstamp, hcache', hseen'⟩ := stampItem_unmarked hseg hstamp
    exact ⟨hstamp, hcache'.trans hcache, hseen'.trans hseen⟩

theorem fillSentList_unmarked {offset : Nat} (h : Unmarked b)
    (hrun : b.fillSentList now offset = .ok b') : Unmarked b' ∧ SameCache b b' := by
  obtain ⟨_, rfl⟩ | ⟨_, _, hcopy⟩ := fillSentList_cases hrun
  · exact ⟨h, rfl, rfl⟩
  · exact copyFromSequence_unmarked h hcopy

theorem advance_eq {items : List TcpTxItem} {flagged : TcpTxItem} {n : Nat}
    (h : removeFromCounts (b.advance n items) flagged n = .ok b') :
    b'.sentList = items ∧ b'.appList = b.appList ∧ b'.size = wsub 32 b.size n ∧
      SameCache b b' := by
  obtain rfl := removeFromCounts_eq_ok h
  exact ⟨rfl, rfl, rfl, rfl, rfl⟩

theorem discardLoop_unmarked {fuel : Nat} {offset : Nat} {deleted : List TcpTxItem} (h : Unmarked b)
    (hrun : discardLoop now fuel b offset = .ok (b', deleted)) : Unmarked b' ∧ SameCache b b' := by
  induction fuel generalizing b offset deleted with
  | zero => simp [discardLoop] at hrun
  | succ fuel ih =>
    obtain ⟨_, rfl, _⟩ | ⟨_, b₁, item, rest, b₂, hfill, hlist, hturn⟩ := discardLoop_cases hrun
    · exact ⟨h, rfl, rfl⟩
    · obtain ⟨hfilled, hcache, hseen⟩ := fillSentList_unmarked h hfill
      have hsent := hfilled.sent
      rw [hlist] at hsent
      have hrest : ∀ later ∈ rest, later.sacked = false :=
        fun later hmem => hsent later (.tail _ hmem)
      obtain ⟨_, hremove, deleted', hrec, _⟩ | ⟨_, rfl, _, hremove⟩ := hturn
      · obtain ⟨hsent', happ, _, hcache', hseen'⟩ := advance_eq hremove
        obtain ⟨hend, hcache'', hseen''⟩ := ih
          ⟨by rw [hsent']; exact hrest, by rw [happ]; exact hfilled.app⟩ hrec
        exact ⟨hend, hcache''.trans (hcache'.trans hcache), hseen''.trans (hseen'.trans hseen)⟩
      · obtain ⟨hsent', happ, _, hcache', hseen'⟩ := advance_eq hremove
        refine ⟨⟨?_, by rw [happ]; exact hfilled.app⟩, hcache'.trans hcache, hseen'.trans hseen⟩
        rw [hsent']
        intro later hmem
        rcases List.mem_cons.mp hmem with rfl | htail
        · exact hsent item (.head _)
        · exact hrest later htail

/-! ## What an acknowledgment leaves -/

/-- The sent items that an acknowledgment of `offset` bytes leaves. -/
def remaining : List TcpTxItem → Nat → Nat → List TcpTxItem
  | [], _, _ => []
  | item :: rest, size, offset =>
    if 0 < size ∧ 0 < offset ∧ item.size ≤ offset then
      remaining rest (size - item.size) (offset - item.size)
    else item :: rest

theorem remaining_stop {l : List TcpTxItem} {size offset : Nat}
    (h : ¬(0 < size ∧ 0 < offset)) : remaining l size offset = l := by
  cases l with
  | nil => rfl
  | cons item rest =>
    rw [remaining, if_neg]
    intro hgo
    exact h ⟨hgo.1, hgo.2.1⟩

/-! ## The recount -/

def unlost (item : TcpTxItem) : TcpTxItem := { item with lost := false }

theorem lostWalk_unlost (dupAckThresh lost : Nat) (l : List TcpTxItem) :
    (lostWalk dupAckThresh l lost).2.2.map unlost = l.map unlost := by
  induction l with
  | nil => rfl
  | cons item later ih =>
    simp only [lostWalk]
    split <;> simp [ih, unlost]

theorem markHeadIfLost_unlost {dupAckThresh sacked : Nat}
    (h : TcpTxBuffer.markHeadIfLost dupAckThresh sacked b = .ok b') :
    b'.sentList.map unlost = b.sentList.map unlost := by
  obtain ⟨rfl, _⟩ | ⟨_, head, tail, hlist, _, rfl⟩ := markHeadIfLost_cases h
  · rfl
  · simp [hlist, unlost]

theorem updateLostCount_unlost (h : b.updateLostCount = .ok b') :
    b'.sentList.map unlost = b.sentList.map unlost := by
  obtain ⟨_, _, hmark⟩ | ⟨node, head, tail, _, hlist, hwalk⟩ := updateLostCount_cases h
  · exact markHeadIfLost_unlost hmark
  · obtain ⟨_, hmark⟩ | ⟨_, upTo, beyond, hsplit, hmark⟩ := hwalk
    · exact markHeadIfLost_unlost hmark
    · rw [markHeadIfLost_unlost hmark, hlist, splitAtNode_append hsplit]
      simp [lostWalk_unlost]

theorem updateLostCount_frame (h : b.updateLostCount = .ok b') :
    b'.highestSack = b.highestSack ∧ b'.sackSeen = b.sackSeen ∧ b'.appList = b.appList := by
  have hmark : ∀ {b b' : TcpTxBuffer} {n : Nat},
      TcpTxBuffer.markHeadIfLost b.dupAckThresh n b = .ok b' →
      b'.highestSack = b.highestSack ∧ b'.sackSeen = b.sackSeen ∧ b'.appList = b.appList := by
    intro b b' n hrun
    obtain ⟨rfl, _⟩ | ⟨_, _, _, _, _, rfl⟩ := markHeadIfLost_cases hrun <;> exact ⟨rfl, rfl, rfl⟩
  obtain ⟨_, _, hhead⟩ | ⟨node, head, tail, _, _, hwalk⟩ := updateLostCount_cases h
  · exact hmark hhead
  · obtain ⟨_, hhead⟩ | ⟨_, upTo, beyond, _, hhead⟩ := hwalk
    · exact hmark hhead
    · obtain ⟨rfl, _⟩ | ⟨_, _, _, _, _, rfl⟩ := markHeadIfLost_cases hhead <;>
        exact ⟨rfl, rfl, rfl⟩

end TcpTxBuffer

end Ns3.Tcp
