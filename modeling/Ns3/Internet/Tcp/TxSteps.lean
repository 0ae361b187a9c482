/-
  What a method of the buffer can do when it returns.

  One inversion lemma for each method that has branches: the ways in which a call
  returns, with the guards it has passed.  Every invariant of the buffer is proved
  from these, and no later proof unfolds a method of more than a few lines.
-/
import Ns3.Internet.Tcp.TxBuffer

namespace Ns3.Tcp

open Ns3.Lib SequenceNumber

namespace TcpTxBuffer

/-! ## Extraction -/

variable {b b' : TcpTxBuffer} {now : Time} {seq : SequenceNumber32}

/-- The buffer with the sent list a returned pointer points into. -/
def withRef (b : TcpTxBuffer) (ref : ItemRef) : TcpTxBuffer := { b with sentList := ref.list }

variable {result : Option TcpTxItem}

theorem stampItem_eq_ok {ref : ItemRef} (h : stampItem now b ref = .ok (b', result)) :
    b' = b.withRef { ref with item := { ref.item with lastSent := now } } ∧
      result = some { ref.item with lastSent := now } := by
  unfold stampItem at h
  simp only [bind_eq_ok, pure_eq_ok, Prod.mk.injEq] at h
  obtain ⟨_, _, rfl, rfl⟩ := h
  exact ⟨rfl, rfl⟩

variable {fuel numBytes : Nat}

theorem copyFromSequence_cases
    (h : copyFromSequenceFuel now b fuel numBytes seq = .ok (b', result)) :
    (b' = b ∧ result = none) ∨
    (∃ s b₁ ref, 0 < s ∧ s ≤ b.sizeFromSequence seq ∧
      b.getTransmittedSegment s seq = .ok (b₁, ref) ∧ ref.item.sacked = false ∧
      stampItem now b₁ ref = .ok (b', result)) ∨
    ∃ s b₁ ref, b.getNewSegment s = .ok (b₁, ref) ∧ stampItem now b₁ ref = .ok (b', result) := by
  induction fuel generalizing numBytes with
  | zero => simp [copyFromSequenceFuel] at h
  | succ fuel ih =>
    unfold copyFromSequenceFuel at h
    dsimp only at h
    split at h
    · simp at h
    · split at h
      · simp only [pure_eq_ok, Prod.mk.injEq] at h
        exact .inl ⟨h.1.symm, h.2.symm⟩
      · rename_i hs
        split at h
        · simp only [bind_eq_ok, nsAssert_eq_ok, Bool.not_eq_true'] at h
          obtain ⟨⟨b₁, ref⟩, hseg, _, hunsacked, hstamp⟩ := h
          exact .inr (.inl ⟨_, b₁, ref, by omega, min_le_right _ _, hseg, hunsacked, hstamp⟩)
        · split at h
          · split at h
            · simp only [bind_eq_ok] at h
              obtain ⟨⟨b₁, ref⟩, hseg, _, _, hstamp⟩ := h
              exact .inr (.inr ⟨_, b₁, ref, hseg, hstamp⟩)
            · simp at h
          · split at h
            · exact ih h
            · simp at h

theorem copyFromSequence_none (h : copyFromSequenceFuel now b fuel numBytes seq = .ok (b', none)) :
    b' = b := by
  obtain ⟨rfl, _⟩ | ⟨s, b₁, ref, _, _, _, _, hstamp⟩ | ⟨s, b₁, ref, _, hstamp⟩ :=
    copyFromSequence_cases h
  · rfl
  · exact absurd (stampItem_eq_ok hstamp).2 (by simp)
  · exact absurd (stampItem_eq_ok hstamp).2 (by simp)

/-! ## SACK emulation -/

theorem sackFirst_none {l : List TcpTxItem} (h : sackFirst l = none) :
    ∀ item ∈ l, item.sacked = true := by
  induction l with
  | nil => exact List.forall_mem_nil _
  | cons item rest ih =>
    unfold sackFirst at h
    split at h
    · rename_i hsacked
      intro item' hmem
      rcases List.mem_cons.mp hmem with rfl | htail
      · exact hsacked
      · exact ih (by simpa using h) item' htail
    · simp at h

variable {item : TcpTxItem}

theorem sackFirst_some {l l' : List TcpTxItem} (h : sackFirst l = some (item, l')) :
    ∃ before after, l = before ++ item :: after ∧
      l' = before ++ { item with sacked := true } :: after ∧
      (∀ sacked ∈ before, sacked.sacked = true) ∧ item.sacked = false := by
  induction l generalizing l' with
  | nil => simp [sackFirst] at h
  | cons head rest ih =>
    unfold sackFirst at h
    split at h
    · rename_i hsacked
      simp only [Option.map_eq_some_iff, Prod.mk.injEq] at h
      obtain ⟨⟨item', rest'⟩, hrec, rfl, rfl⟩ := h
      obtain ⟨before, after, hl, hl', hbefore, hclear⟩ := ih hrec
      refine ⟨head :: before, after, by rw [hl]; rfl, by rw [hl']; rfl, ?_, hclear⟩
      intro item'' hmem
      rcases List.mem_cons.mp hmem with rfl | htail
      · exact hsacked
      · exact hbefore item'' htail
    · rename_i hsacked
      simp only [Option.some.injEq, Prod.mk.injEq] at h
      obtain ⟨rfl, rfl⟩ := h
      refine ⟨[], rest, rfl, rfl, ?_, by simpa using hsacked⟩
      exact List.forall_mem_nil _

theorem addRenoSack_cases (h : b.addRenoSack = .ok b') :
    ((∀ item ∈ b.sentList.tail, item.sacked = true) ∧ b' = { b with renoSack := true }) ∨
    ∃ head before item after,
      b.sentList = head :: (before ++ item :: after) ∧
      (∀ sacked ∈ before, sacked.sacked = true) ∧ item.sacked = false ∧
      b' = { b with
        renoSack := true
        sentList := head :: (before ++ { item with sacked := true } :: after)
        sackedOut := wadd 32 b.sackedOut item.size
        sackSeen := true
        highestSack := (some item.node, item.startSeq) } := by
  unfold addRenoSack at h
  simp only [bind_eq_ok] at h
  obtain ⟨_, _, h⟩ := h
  split at h
  · simp at h
  · rename_i head tail hlist
    split at h
    · rename_i hnone
      rw [pure_eq_ok] at h
      refine .inl ⟨?_, h.symm⟩
      rw [hlist]
      exact sackFirst_none hnone
    · rename_i item tail' hfirst
      rw [pure_eq_ok] at h
      obtain ⟨before, after, rfl, rfl, hbefore, hclear⟩ := sackFirst_some hfirst
      exact .inr ⟨head, before, item, after, hlist, hbefore, hclear, h.symm⟩

/-! ## The recount -/

theorem markHeadIfLost_cases {dupAckThresh sacked : Nat}
    (h : markHeadIfLost dupAckThresh sacked b = .ok b') :
    (b' = b ∧ (dupAckThresh ≤ sacked → ∃ head tail, b.sentList = head :: tail ∧
      head.lost = true)) ∨
    (dupAckThresh ≤ sacked ∧ ∃ head tail, b.sentList = head :: tail ∧ head.lost = false ∧
      b' = { b with
        sentList := { head with lost := true } :: tail
        lostOut := wadd 32 b.lostOut head.size }) := by
  unfold markHeadIfLost at h
  split at h
  · rename_i hthresh
    split at h
    · simp at h
    · rename_i head tail hlist
      split at h
      · rename_i hlost
        rw [pure_eq_ok] at h
        exact .inl ⟨h.symm, fun _ => ⟨head, tail, hlist, hlost⟩⟩
      · rename_i hlost
        rw [pure_eq_ok] at h
        exact .inr ⟨hthresh, head, tail, hlist, by simpa using hlost, h.symm⟩
  · rename_i hthresh
    rw [pure_eq_ok] at h
    exact .inl ⟨h.symm, fun hle => absurd hle hthresh⟩

theorem splitAtNode_append {node : Nat} {l upTo beyond : List TcpTxItem}
    (h : splitAtNode node l = some (upTo, beyond)) : l = upTo ++ beyond := by
  induction l generalizing upTo with
  | nil => simp [splitAtNode] at h
  | cons item rest ih =>
    unfold splitAtNode at h
    split at h
    · simp only [Option.some.injEq, Prod.mk.injEq] at h
      obtain ⟨rfl, rfl⟩ := h
      rfl
    · simp only [Option.map_eq_some_iff, Prod.mk.injEq] at h
      obtain ⟨⟨upTo', beyond'⟩, hrec, rfl, hbeyond⟩ := h
      dsimp only at hbeyond ⊢
      subst hbeyond
      rw [ih hrec]
      rfl

theorem updateLostCount_cases (h : b.updateLostCount = .ok b') :
    (b.highestSack.1 = none ∧ b.sentList = [] ∧ markHeadIfLost b.dupAckThresh 0 b = .ok b') ∨
    ∃ node head tail, b.highestSack.1 = some node ∧ b.sentList = head :: tail ∧
      ((head.node = node ∧ markHeadIfLost b.dupAckThresh 0 b = .ok b') ∨
        (head.node ≠ node ∧ ∃ upTo beyond, splitAtNode node tail = some (upTo, beyond) ∧
          markHeadIfLost b.dupAckThresh (lostWalk b.dupAckThresh upTo b.lostOut).1
            { b with
              sentList := head :: (lostWalk b.dupAckThresh upTo b.lostOut).2.2 ++ beyond
              lostOut := (lostWalk b.dupAckThresh upTo b.lostOut).2.1 } = .ok b')) := by
  unfold updateLostCount at h
  dsimp only at h
  split at h
  · rename_i hnone hlist
    exact .inl ⟨hnone, hlist, h⟩
  · simp at h
  · simp at h
  · rename_i node head tail hnode hlist
    split at h
    · rename_i hfirst
      exact .inr ⟨node, head, tail, hnode, hlist, .inl ⟨hfirst, h⟩⟩
    · rename_i hfirst
      split at h
      · simp at h
      · rename_i upTo beyond hsplit
        exact .inr ⟨node, head, tail, hnode, hlist, .inr ⟨hfirst, upTo, beyond, hsplit, h⟩⟩

/-! ## SACK blocks -/

/-- The part of the buffer that the marking loop of `Update` has rewritten. -/
def withPass (b : TcpTxBuffer) (items : List TcpTxItem) (pass : SackPass) : TcpTxBuffer :=
  { b with
    sentList := items
    lostOut := pass.lostOut
    sackedOut := pass.sackedOut
    highestSack := pass.highestSack
    sackSeen := pass.sackSeen }

/-- The variables of the marking loop before it. -/
def startPass (b : TcpTxBuffer) : SackPass :=
  { lostOut := b.lostOut, sackedOut := b.sackedOut, bytesSacked := 0
    highestSack := b.highestSack, sackSeen := b.sackSeen, newlySacked := [] }

theorem update_cases {list : List SackBlock} {bytesSacked : Nat} {newlySacked : List TcpTxItem}
    (h : b.update list = .ok (b', bytesSacked, newlySacked)) :
    ∃ items pass early,
      sackBlocks b.firstByteSeq b.firstUnsent list b.sentList b.startPass
        = .ok (items, pass, early) ∧ bytesSacked = pass.bytesSacked ∧
      newlySacked = pass.newlySacked ∧
      ((early = true ∧ b' = b.withPass items pass) ∨
        (early = false ∧ (∃ head tail, b'.sentList = head :: tail ∧ head.sacked = false) ∧
          ((0 < pass.bytesSacked ∧ pass.highestSack.1.isSome = true ∧
              (b.withPass items pass).updateLostCount = .ok b') ∨
            (pass.bytesSacked = 0 ∧ b' = b.withPass items pass)))) := by
  unfold update at h
  rw [bind_eq_ok] at h
  obtain ⟨⟨items, pass, early⟩, hblocks, h⟩ := h
  dsimp only at h
  refine ⟨items, pass, early, hblocks, ?_⟩
  split at h
  · rename_i hearly
    simp only [pure_eq_ok, Prod.mk.injEq] at h
    exact ⟨h.2.1.symm, h.2.2.symm, .inl ⟨hearly, h.1.symm⟩⟩
  · rename_i hearly
    rw [bind_eq_ok] at h
    obtain ⟨counted, hcount, h⟩ := h
    split at h
    · simp at h
    · rename_i head tail hlist
      simp only [bind_eq_ok, nsAssert_eq_ok, pure_eq_ok, Prod.mk.injEq, Bool.not_eq_true'] at h
      obtain ⟨_, hhead, _, _, rfl, hbytes, hnewly⟩ := h
      refine ⟨hbytes.symm, hnewly.symm,
        .inr ⟨by simpa using hearly, ⟨head, tail, hlist, hhead⟩, ?_⟩⟩
      unfold recountLost at hcount
      split at hcount
      · rename_i hpos
        simp only [bind_eq_ok, nsAssert_eq_ok] at hcount
        obtain ⟨_, hsome, hcount⟩ := hcount
        exact .inl ⟨hpos, hsome, hcount⟩
      · rename_i hzero
        rw [pure_eq_ok] at hcount
        exact .inr ⟨by omega, hcount.symm⟩

/-! ## Cumulative acknowledgments -/

theorem removeFromCounts_eq_ok {size : Nat} (h : b.removeFromCounts item size = .ok b') :
    b' = { b with
      sackedOut := if item.sacked then wsub 32 b.sackedOut size else b.sackedOut
      retrans := if item.retrans then wsub 32 b.retrans size else b.retrans
      lostOut := if item.lost then wsub 32 b.lostOut size else b.lostOut } := by
  unfold removeFromCounts at h
  simp only [bind_eq_ok, pure_eq_ok] at h
  obtain ⟨_, _, _, _, _, _, rfl⟩ := h
  rfl

theorem fillSentList_cases {offset : Nat} (h : b.fillSentList now offset = .ok b') :
    (b.sentList ≠ [] ∧ b' = b) ∨ (b.sentList = [] ∧ ∃ item,
      b.copyFromSequence now offset b.firstByteSeq = .ok (b', some item)) := by
  unfold fillSentList at h
  split at h
  · rename_i head tail hlist
    rw [pure_eq_ok] at h
    exact .inl ⟨by simp [hlist], h.symm⟩
  · rename_i hlist
    rw [bind_eq_ok] at h
    obtain ⟨⟨b₁, item⟩, hcopy, h⟩ := h
    dsimp only at h
    split at h
    · simp at h
    · rename_i item'
      rw [pure_eq_ok] at h
      subst h
      exact .inr ⟨hlist, item', hcopy⟩

/-- What `DiscardUpTo` makes of an item whose first `offset` bytes it drops. -/
def cutFront (item : TcpTxItem) (offset : Nat) : TcpTxItem :=
  { item with
    packet := item.packet.createFragment offset (item.size - offset)
    startSeq := item.startSeq.add offset }

/-- The buffer of which `DiscardUpTo` has dropped `n` bytes, before the counters. -/
def advance (b : TcpTxBuffer) (n : Nat) (items : List TcpTxItem) : TcpTxBuffer :=
  { b with
    size := wsub 32 b.size n
    sentSize := wsub 32 b.sentSize n
    firstByteSeq := b.firstByteSeq.add n
    sentList := items }

variable {deleted : List TcpTxItem}

theorem discardLoop_cases {offset : Nat}
    (h : discardLoop now (fuel + 1) b offset = .ok (b', deleted)) :
    (¬(0 < b.size ∧ 0 < offset) ∧ b' = b ∧ deleted = []) ∨
    ((0 < b.size ∧ 0 < offset) ∧ ∃ b₁ item rest b₂,
      b.fillSentList now offset = .ok b₁ ∧ b₁.sentList = item :: rest ∧
      ((item.size ≤ offset ∧
          removeFromCounts (b₁.advance item.size rest) item item.size = .ok b₂ ∧
          ∃ deleted', discardLoop now fuel b₂ (offset - item.size) = .ok (b', deleted') ∧
            deleted = item :: deleted') ∨
        (offset < item.size ∧ b' = b₂ ∧ deleted = [] ∧
          removeFromCounts (b₁.advance offset (cutFront item offset :: rest))
            (cutFront item offset) offset = .ok b₂))) := by
  unfold discardLoop at h
  split at h
  · rename_i hgo
    rw [bind_eq_ok] at h
    obtain ⟨b₁, hfill, h⟩ := h
    dsimp only at h
    split at h
    · simp at h
    · rename_i item rest hlist
      rw [bind_eq_ok] at h
      obtain ⟨_, _, h⟩ := h
      split at h
      · rename_i hwhole
        simp only [bind_eq_ok, pure_eq_ok, Prod.mk.injEq] at h
        obtain ⟨b₂, hremove, ⟨b₃, deleted'⟩, hrec, rfl, hdeleted⟩ := h
        exact .inr ⟨hgo, b₁, item, rest, b₂, hfill, hlist,
          .inl ⟨hwhole, hremove, deleted', hrec, hdeleted.symm⟩⟩
      · rename_i hpart
        simp only [bind_eq_ok, pure_eq_ok, Prod.mk.injEq] at h
        obtain ⟨b₂, hremove, rfl, hdeleted⟩ := h
        exact .inr ⟨hgo, b₁, item, rest, b₂, hfill, hlist,
          .inr ⟨by omega, rfl, hdeleted.symm, hremove⟩⟩
  · rename_i hstop
    simp only [pure_eq_ok, Prod.mk.injEq] at h
    exact .inl ⟨hstop, h.1.symm, h.2.symm⟩

theorem moveSackFromHead_cases (h : b.moveSackFromHead = .ok b') :
    ((∀ head ∈ b.sentList.head?, head.sacked = false) ∧ b' = b) ∨
    ∃ head tail b₁, b.sentList = head :: tail ∧ head.sacked = true ∧ head.lost = false ∧
      addRenoSack { b with
        sentList := { head with sacked := false } :: tail
        sackedOut := wsub 32 b.sackedOut head.size } = .ok b₁ ∧ b' = markHeadAsLost b₁ := by
  unfold moveSackFromHead at h
  split at h
  · rename_i hlist
    rw [pure_eq_ok] at h
    exact .inl ⟨by simp [hlist], h.symm⟩
  · rename_i head tail hlist
    split at h
    · rename_i hsacked
      simp only [bind_eq_ok, nsAssert_eq_ok, pure_eq_ok, Bool.not_eq_true'] at h
      obtain ⟨_, hlost, b₁, hsack, hmark⟩ := h
      exact .inr ⟨head, tail, b₁, hlist, hsacked, hlost, hsack, hmark.symm⟩
    · rename_i hclear
      rw [pure_eq_ok] at h
      exact .inl ⟨by simpa [hlist] using hclear, h.symm⟩

theorem discardUpTo_cases (h : b.discardUpTo now seq = .ok (b', deleted)) :
    (b.firstByteSeq.ge seq = true ∧ b' = b ∧ deleted = []) ∨
    (b.firstByteSeq.ge seq = false ∧ ∃ b₁ b₂,
      discardLoop now (seq.distance b.firstByteSeq + 1) b (seq.distance b.firstByteSeq)
        = .ok (b₁, deleted) ∧
      moveSackFromHead (if b₁.size = 0 then { b₁ with firstByteSeq := seq } else b₁) = .ok b₂ ∧
      b' = if b₂.highestSack.2.le b₂.firstByteSeq then
        { b₂ with sackSeen := false, highestSack := (none, .ofNat 0) } else b₂) := by
  unfold discardUpTo at h
  split at h
  · rename_i hearly
    simp only [pure_eq_ok, Prod.mk.injEq] at h
    exact .inl ⟨hearly, h.1.symm, h.2.symm⟩
  · rename_i hafter
    simp only [bind_eq_ok, pure_eq_ok, Prod.mk.injEq] at h
    obtain ⟨⟨b₁, deleted₁⟩, hloop, b₂, hmove, _, _, _, _, _, _, hlast, rfl⟩ := h
    exact .inr ⟨by simpa using hafter, b₁, b₂, hloop, hmove, hlast.symm⟩

end TcpTxBuffer

/-! ## Calls -/

/-- What a call does when it returns. -/
inductive TxOp.Effect (b : TcpTxBuffer) : TxOp → TcpTxBuffer → Prop where
  | add (p : Packet) : Effect b (.add p) (b.add p).1
  | copyFromSequence {now : Time} {numBytes : Nat} {seq : SequenceNumber32} {b' : TcpTxBuffer}
      {item : Option TcpTxItem} (h : b.copyFromSequence now numBytes seq = .ok (b', item)) :
      Effect b (.copyFromSequence now numBytes seq) b'
  | update {list : List SackBlock} {b' : TcpTxBuffer} {bytesSacked : Nat}
      {newlySacked : List TcpTxItem} (h : b.update list = .ok (b', bytesSacked, newlySacked)) :
      Effect b (.update list) b'
  | updateLostCount {b' : TcpTxBuffer} (h : b.updateLostCount = .ok b') :
      Effect b .updateLostCount b'
  | discardUpTo {now : Time} {seq : SequenceNumber32} {b' : TcpTxBuffer}
      {deleted : List TcpTxItem} (h : b.discardUpTo now seq = .ok (b', deleted)) :
      Effect b (.discardUpTo now seq) b'
  | markHeadAsLost : Effect b .markHeadAsLost b.markHeadAsLost
  | addRenoSack {b' : TcpTxBuffer} (h : b.addRenoSack = .ok b') : Effect b .addRenoSack b'
  | resetRenoSack : Effect b .resetRenoSack b.resetRenoSack
  | setSentListLost {resetSack : Bool} {b' : TcpTxBuffer}
      (h : b.setSentListLost resetSack = .ok b') : Effect b (.setSentListLost resetSack) b'
  | resetSentList : Effect b .resetSentList b.resetSentList
  | resetLastSegmentSent : Effect b .resetLastSegmentSent b.resetLastSegmentSent
  | deleteRetransmittedFlagFromHead {b' : TcpTxBuffer}
      (h : b.deleteRetransmittedFlagFromHead = .ok b') :
      Effect b .deleteRetransmittedFlagFromHead b'

theorem TxOp.effect {op : TxOp} {b b' : TcpTxBuffer} (h : op.exec b = .ok b') :
    Effect b op b' := by
  cases op <;> simp only [TxOp.exec, bind_eq_ok, pure_eq_ok] at h
  case copyFromSequence =>
    obtain ⟨_, hcopy, rfl⟩ := h
    exact .copyFromSequence hcopy
  case update =>
    obtain ⟨_, hupdate, rfl⟩ := h
    exact .update hupdate
  case discardUpTo =>
    obtain ⟨_, hdiscard, rfl⟩ := h
    exact .discardUpTo hdiscard
  all_goals first
    | exact h ▸ .add _
    | exact h ▸ .markHeadAsLost
    | exact h ▸ .resetRenoSack
    | exact h ▸ .resetSentList
    | exact h ▸ .resetLastSegmentSent
    | exact .updateLostCount h
    | exact .addRenoSack h
    | exact .setSentListLost h
    | exact .deleteRetransmittedFlagFromHead h

end Ns3.Tcp
