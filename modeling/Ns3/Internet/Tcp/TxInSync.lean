/-
  When the scoreboard counters stay in sync.

  A cumulative acknowledgment may leave a sacked item at the head of the list;
  its mark then moves to another item, which breaks the accounts if that item is
  already lost.  With that, every operation is settled: `TxOp.keepsSync` is the
  condition on the state before a call under which the call keeps the counters in
  sync, and the first call that does not meet it breaks them.
-/
import Ns3.Internet.Tcp.TxScoreboard

namespace Ns3.Tcp

open Ns3.Lib SequenceNumber

namespace TcpTxBuffer

/-! ## Data leaving at the front -/

variable {item : TcpTxItem} {rest deleted : List TcpTxItem} {b b' : TcpTxBuffer} {now : Time}
  {left : List TcpTxItem}

theorem flagBytes_dropFront {flag : TcpTxItem → Bool} {count k : Nat} (hlt : count < 2 ^ 32)
    (hcount : flagBytes flag (item :: rest) = count) (hk : k ≤ item.size)
    (hleft : flagBytes flag left = if flag item then item.size - k else 0) :
    flagBytes flag (left ++ rest) = if flag item then wsub 32 count k else count := by
  rw [flagBytes_cons] at hcount
  refine (withdraw hlt ?_).symm
  rw [flagBytes_append, hleft, ← hcount]
  split <;> omega

/-- `left` is what remains of `item` after its first `k` bytes are gone. -/
def Remains (item : TcpTxItem) (k : Nat) (left : List TcpTxItem) : Prop :=
  (left = [] ∧ k = item.size) ∨ ∃ item', left = [item'] ∧ item'.size = item.size - k ∧
    item'.sacked = item.sacked ∧ item'.lost = item.lost ∧ item'.retrans = item.retrans

theorem Remains.sums {sacked lost retrans size k : Nat} (hleft : Remains item k left)
    (hk : k ≤ item.size) (hlt : size < 2 ^ 32) (h : Sums (item :: rest) sacked lost retrans size) :
    Sums (left ++ rest) (if item.sacked then wsub 32 sacked k else sacked)
      (if item.lost then wsub 32 lost k else lost)
      (if item.retrans then wsub 32 retrans k else retrans) (wsub 32 size k) := by
  obtain ⟨hsacked, hlost, hretrans, hbytes, hboth⟩ := h
  have hle := fun flag => flagBytes_le flag (item :: rest)
  have hsackedLe := hle (·.sacked)
  have hlostLe := hle (·.lost)
  have hretransLe := hle (·.retrans)
  rw [notBoth_cons] at hboth
  have hsize : bytes left = item.size - k := by
    obtain ⟨rfl, rfl⟩ | ⟨item', rfl, hitem, _⟩ := hleft
    · simp
    · simpa using hitem
  refine ⟨?_, ?_, ?_, ?_, ?_⟩
  · refine flagBytes_dropFront (by omega) hsacked hk ?_
    obtain ⟨rfl, rfl⟩ | ⟨item', rfl, hitem, hs, _⟩ := hleft
    · simp
    · simp [hs, hitem]
  · refine flagBytes_dropFront (by omega) hlost hk ?_
    obtain ⟨rfl, rfl⟩ | ⟨item', rfl, hitem, _, hl, _⟩ := hleft
    · simp
    · simp [hl, hitem]
  · refine flagBytes_dropFront (by omega) hretrans hk ?_
    obtain ⟨rfl, rfl⟩ | ⟨item', rfl, hitem, _, _, hr⟩ := hleft
    · simp
    · simp [hr, hitem]
  · rw [bytes_cons] at hbytes
    rw [bytes_append, hsize, wsub_eq hlt (by omega)]
    omega
  · rw [notBoth_append]
    refine ⟨?_, hboth.2⟩
    obtain ⟨rfl, _⟩ | ⟨item', rfl, _, hs, hl, _⟩ := hleft
    · exact List.forall_mem_nil _
    · intro item'' hmem
      obtain rfl := List.mem_singleton.mp hmem
      rw [hs, hl]
      exact hboth.1

theorem Accounted.advance {flagged : TcpTxItem} {k : Nat} (left : List TcpTxItem) (h : Accounted b)
    (hlist : b.sentList = item :: rest) (hk : k ≤ item.size) (hleft : Remains item k left)
    (hflagged : flagged.sacked = item.sacked ∧ flagged.lost = item.lost ∧
      flagged.retrans = item.retrans)
    (hrun : removeFromCounts (b.advance k (left ++ rest)) flagged k = .ok b') :
    Accounted b' ∧ b'.sentList = left ++ rest ∧ b'.size = b.size - k := by
  obtain rfl := removeFromCounts_eq_ok hrun
  have hsums := h.sums
  have hsize := h.size_eq
  have hle := h.size_le
  have hlt := h.max_lt
  have hbytes := hsums.bytes_eq
  rw [hlist] at hsums hbytes
  rw [bytes_cons] at hbytes
  obtain ⟨hs, hl, hr⟩ := hflagged
  have hsub : wsub 32 b.size k = b.size - k := wsub_eq (by omega) (by omega)
  have hsentSub : wsub 32 b.sentSize k = b.sentSize - k := wsub_eq (by omega) (by omega)
  refine ⟨⟨?_, h.app_clear, ?_, ?_, hlt⟩, rfl, hsub⟩
  · rw [hs, hl, hr]
    exact hleft.sums hk h.sentSize_lt hsums
  · simp only [TcpTxBuffer.advance, hsub, hsentSub]
    omega
  · simp only [TcpTxBuffer.advance, hsub]
    omega

theorem Accounted.fillSentList {offset : Nat} (h : Accounted b)
    (hrun : b.fillSentList now offset = .ok b') : Accounted b' := by
  obtain ⟨_, rfl⟩ | ⟨_, item, hcopy⟩ := fillSentList_cases hrun
  · exact h
  · exact h.copyFromSequence hcopy

theorem Accounted.discardStep (offset : Nat) (h : Accounted b) (hlist : b.sentList = item :: rest) :
    (removeFromCounts (b.advance item.size rest) item item.size = .ok b' →
      Accounted b' ∧ b'.sentList = rest ∧ b'.size = b.size - item.size) ∧
    (offset < item.size → removeFromCounts (b.advance offset (cutFront item offset :: rest))
        (cutFront item offset) offset = .ok b' →
      Accounted b' ∧ b'.sentList = cutFront item offset :: rest) := by
  constructor
  · intro hremove
    exact Accounted.advance [] h hlist le_rfl (.inl ⟨rfl, rfl⟩) ⟨rfl, rfl, rfl⟩ hremove
  · intro hpart hremove
    have hremains : Remains item offset [cutFront item offset] :=
      .inr ⟨_, rfl, cutFront_size item offset, rfl, rfl, rfl⟩
    obtain ⟨haccounted, hsent, _⟩ :=
      Accounted.advance [cutFront item offset] h hlist hpart.le hremains ⟨rfl, rfl, rfl⟩ hremove
    exact ⟨haccounted, hsent⟩

/-- The mark of a sacked head can move to an item that is not lost. -/
def headSackMovable : List TcpTxItem → Bool
  | [] => true
  | head :: tail => !head.sacked || sackTargetUnlost tail

theorem headSackMovable_of_unsacked {l : List TcpTxItem} (h : ∀ item ∈ l, item.sacked = false) :
    headSackMovable l = true := by
  cases l with
  | nil => rfl
  | cons head tail => simp [headSackMovable, h head (.head _)]

section

variable {fuel offset : Nat} (h : Accounted b)
  (hrun : TcpTxBuffer.discardLoop now fuel b offset = .ok (b', deleted))

include h hrun

theorem Accounted.discardLoop_accounted : Accounted b' := by
  induction fuel generalizing b offset deleted with
  | zero => simp [TcpTxBuffer.discardLoop] at hrun
  | succ fuel ih =>
    obtain ⟨_, rfl, _⟩ | ⟨_, b₁, item, rest, b₂, hfill, hlist, hturn⟩ := discardLoop_cases hrun
    · exact h
    · have hfilled := h.fillSentList hfill
      obtain ⟨_, hremove, deleted', hrec, _⟩ | ⟨hpart, rfl, _, hremove⟩ := hturn
      · exact ih ((hfilled.discardStep 0 hlist).1 hremove).1 hrec
      · exact ((hfilled.discardStep offset hlist).2 hpart hremove).1

theorem Accounted.discardLoop_movable :
    headSackMovable b'.sentList = headSackMovable (remaining b.sentList b.size offset) := by
  induction fuel generalizing b offset deleted with
  | zero => simp [TcpTxBuffer.discardLoop] at hrun
  | succ fuel ih =>
    have hrun' := hrun
    obtain ⟨hstop, rfl, _⟩ | ⟨hgo, b₁, item, rest, b₂, hfill, hlist, hturn⟩ :=
      discardLoop_cases hrun
    · rw [remaining_stop hstop]
    · obtain ⟨_, rfl⟩ | ⟨hempty, _⟩ := fillSentList_cases hfill
      · obtain ⟨hwhole, hremove, deleted', hrec, _⟩ | ⟨hpart, rfl, _, hremove⟩ := hturn
        · obtain ⟨haccounted, hsent, hsize⟩ := (h.discardStep 0 hlist).1 hremove
          rw [ih haccounted hrec, hsent, hsize, hlist, remaining,
            if_pos ⟨hgo.1, hgo.2, hwhole⟩]
        · obtain ⟨_, hsent⟩ := (h.discardStep offset hlist).2 hpart hremove
          rw [hsent, hlist, remaining, if_neg (by omega), headSackMovable, headSackMovable]
          rfl
      · -- nothing sent is left: what is moved in carries no mark
        have hunmarked : Unmarked b :=
          ⟨by simp [hempty], fun item hmem => (TcpTxItem.clear_iff.mp (h.app_clear item hmem)).1⟩
        have hclear := (discardLoop_unmarked hunmarked hrun').1.sent
        rw [headSackMovable_of_unsacked hclear, hempty, remaining, headSackMovable]

end

/-! ## The mark of a sacked head -/

theorem Accounted.moveSackFromHead (h : Accounted b) (hmove : headSackMovable b.sentList = true)
    (hrun : b.moveSackFromHead = .ok b') : Accounted b' := by
  obtain ⟨_, rfl⟩ | ⟨head, tail, b₁, hlist, hsacked, hlost, hsack, rfl⟩ :=
    moveSackFromHead_cases hrun
  · exact h
  · have hsums := h.sums
    rw [hlist] at hsums
    have hcleared := hsums.reflagHead { head with sacked := false } h.sentSize_lt rfl (by simp)
    have haccounted : Accounted { b with
        sentList := { head with sacked := false } :: tail
        sackedOut := wsub 32 b.sackedOut head.size } := by
      refine ⟨?_, h.app_clear, h.size_eq, h.size_le, h.max_lt⟩
      cases hr : head.retrans <;> simpa [shift, hsacked, hlost, hr] using hcleared
    refine (haccounted.addRenoSack ?_ hsack).markHeadAsLost
    simpa [hlist, headSackMovable, hsacked] using hmove

theorem moveSackFromHead_both (hmove : headSackMovable b.sentList = false)
    (hrun : b.moveSackFromHead = .ok b') : ¬NotBoth b'.sentList := by
  obtain ⟨hclear, _⟩ | ⟨head, tail, b₁, hlist, hsacked, _, hsack, rfl⟩ :=
    moveSackFromHead_cases hrun
  · cases hlist : b.sentList with
    | nil => simp [hlist, headSackMovable] at hmove
    | cons head tail =>
      have hhead := hclear head (by simp [hlist])
      simp [hlist, headSackMovable, hhead] at hmove
  · have htarget : sackTargetUnlost tail = false := by
      simpa [hlist, headSackMovable, hsacked] using hmove
    have hboth : ¬NotBoth b₁.sentList.tail := by
      refine addRenoSack_both ?_ hsack
      exact htarget
    intro hnot
    refine hboth ?_
    intro item hmem
    refine hnot item ?_
    unfold TcpTxBuffer.markHeadAsLost
    split
    · exact List.mem_of_mem_tail hmem
    · rename_i head' tail' hlist'
      rw [hlist'] at hmem
      exact .tail _ hmem

/-! ## Cumulative acknowledgments -/

/-- The acknowledgment leaves no sacked head whose mark would move to a lost item. -/
def discardKeepsSync (b : TcpTxBuffer) (seq : SequenceNumber32) : Bool :=
  b.firstByteSeq.ge seq ||
    headSackMovable (remaining b.sentList b.size (seq.distance b.firstByteSeq))

variable {seq : SequenceNumber32}

/-- The counters follow a discard that meets this. -/
theorem Accounted.discardUpTo (h : Accounted b) (hkeeps : b.discardKeepsSync seq = true)
    (hrun : b.discardUpTo now seq = .ok (b', deleted)) : Accounted b' := by
  obtain ⟨_, rfl, _⟩ | ⟨hafter, b₁, b₂, hloop, hmove, rfl⟩ := discardUpTo_cases hrun
  · exact h
  · have haccounted := h.discardLoop_accounted hloop
    have hmovable := h.discardLoop_movable hloop
    have hhead : Accounted (if b₁.size = 0 then { b₁ with firstByteSeq := seq } else b₁) ∧
        headSackMovable (if b₁.size = 0 then { b₁ with firstByteSeq := seq } else b₁).sentList
          = true := by
      rw [discardKeepsSync, hafter, Bool.false_or] at hkeeps
      split
      · exact ⟨⟨haccounted.sums, haccounted.app_clear, haccounted.size_eq, haccounted.size_le,
          haccounted.max_lt⟩, hmovable.trans hkeeps⟩
      · exact ⟨haccounted, hmovable.trans hkeeps⟩
    have hmoved := hhead.1.moveSackFromHead hhead.2 hmove
    split
    · exact ⟨hmoved.sums, hmoved.app_clear, hmoved.size_eq, hmoved.size_le, hmoved.max_lt⟩
    · exact hmoved

theorem discardUpTo_both (h : Accounted b) (hkeeps : b.discardKeepsSync seq = false)
    (hrun : b.discardUpTo now seq = .ok (b', deleted)) : ¬NotBoth b'.sentList := by
  rw [discardKeepsSync, Bool.or_eq_false_iff] at hkeeps
  obtain ⟨hearly, _⟩ | ⟨_, b₁, b₂, hloop, hmove, rfl⟩ := discardUpTo_cases hrun
  · simp [hearly] at hkeeps
  · have hmovable := h.discardLoop_movable hloop
    rw [hkeeps.2] at hmovable
    have hboth : ¬NotBoth b₂.sentList := by
      refine moveSackFromHead_both ?_ hmove
      split <;> exact hmovable
    split <;> exact hboth

/-! ## Runs -/

end TcpTxBuffer

/-- The condition on the state before a call under which it keeps the counters in
sync. -/
def TxOp.keepsSync (b : TcpTxBuffer) : TxOp → Bool
  | .addRenoSack => TcpTxBuffer.sackTargetUnlost b.sentList.tail
  | .discardUpTo _ seq => b.discardKeepsSync seq
  | .resetLastSegmentSent => b.lastClear
  | .updateLostCount => b.headKeepsSack
  | _ => true

def ExecStep (b : TcpTxBuffer) (op : TxOp) (b' : TcpTxBuffer) : Prop := op.exec b = .ok b'

def execNext (b : TcpTxBuffer) (op : TxOp) : Option TcpTxBuffer := (op.exec b).toOption

theorem execNext_sound (b : TcpTxBuffer) (op : TxOp) (b' : TcpTxBuffer)
    (h : execNext b op = some b') : ExecStep b op b' :=
  toOption_eq_some.mp h

/-- A call that meets the condition. -/
def SyncStep (b : TcpTxBuffer) (op : TxOp) (b' : TcpTxBuffer) : Prop :=
  op.keepsSync b = true ∧ op.exec b = .ok b'

def syncNext (b : TcpTxBuffer) (op : TxOp) : Option TcpTxBuffer :=
  if op.keepsSync b then execNext b op else none

theorem syncNext_sound (b : TcpTxBuffer) (op : TxOp) (b' : TcpTxBuffer)
    (h : syncNext b op = some b') : SyncStep b op b' := by
  unfold syncNext at h
  split at h
  · rename_i hkeeps
    exact ⟨hkeeps, execNext_sound b op b' h⟩
  · simp at h

namespace TcpTxBuffer

variable {b b' : TcpTxBuffer}

/-- **Step lemma.**  A call that meets the condition keeps the accounts. -/
theorem Accounted.step {op : TxOp} (h : Accounted b) (hkeeps : op.keepsSync b = true)
    (hexec : op.exec b = .ok b') : Accounted b' := by
  cases op.effect hexec with
  | add p => exact h.add p
  | copyFromSequence hcopy => exact h.copyFromSequence hcopy
  | update hupdate => exact h.update hupdate
  | updateLostCount hcount => exact h.updateLostCount hkeeps hcount
  | discardUpTo hdiscard => exact h.discardUpTo hkeeps hdiscard
  | markHeadAsLost => exact h.markHeadAsLost
  | addRenoSack hadd => exact h.addRenoSack hkeeps hadd
  | resetRenoSack => exact h.resetRenoSack
  | setSentListLost hset => exact h.setSentListLost hset
  | resetSentList => exact h.resetSentList
  | resetLastSegmentSent => exact h.resetLastSegmentSent hkeeps
  | deleteRetransmittedFlagFromHead hdelete => exact h.deleteRetransmittedFlagFromHead hdelete

theorem markHeadIfLost_both {dupAckThresh sacked : Nat} {head : TcpTxItem}
    (hhead : b.sentList.head? = some head) (hsacked : head.sacked = true)
    (hthresh : dupAckThresh ≤ sacked)
    (hrun : TcpTxBuffer.markHeadIfLost dupAckThresh sacked b = .ok b') : ¬NotBoth b'.sentList := by
  intro hnot
  obtain ⟨rfl, hlost⟩ | ⟨_, head', tail, hlist, _, rfl⟩ := markHeadIfLost_cases hrun
  · obtain ⟨head', tail, hlist, hlost⟩ := hlost hthresh
    obtain rfl : head' = head := by simpa [hlist] using hhead
    exact hnot head' (by simp [hlist]) ⟨hsacked, hlost⟩
  · obtain rfl : head' = head := by simpa [hlist] using hhead
    exact hnot { head' with lost := true } (.head _) ⟨hsacked, rfl⟩

theorem updateLostCount_both (hkeeps : b.headKeepsSack = false)
    (hrun : b.updateLostCount = .ok b') : ¬NotBoth b'.sentList := by
  obtain ⟨_, hlist, _⟩ | ⟨node, head, tail, hnode, hlist, hwalk⟩ := updateLostCount_cases hrun
  · simp [headKeepsSack, hlist] at hkeeps
  · simp only [headKeepsSack, hlist, List.head?_cons, Option.all_some, sackedUpToHighest, hnode,
      Bool.or_eq_false_iff, Bool.not_eq_false', decide_eq_false_iff_not, Nat.not_lt] at hkeeps
    obtain ⟨hsacked, hthresh⟩ := hkeeps
    obtain ⟨hfirst, hmark⟩ | ⟨hfirst, upTo, beyond, hsplit, hmark⟩ := hwalk
    · rw [if_pos hfirst] at hthresh
      exact markHeadIfLost_both (by rw [hlist, List.head?_cons]) hsacked hthresh hmark
    · rw [if_neg hfirst, hsplit] at hthresh
      refine markHeadIfLost_both rfl hsacked ?_ hmark
      rw [lostWalk_count]
      exact hthresh

/-- **Converse of the step lemma.**  A call that does not meet the condition breaks the accounts. -/
theorem Accounted.step_breaks {op : TxOp} (h : Accounted b) (hkeeps : op.keepsSync b = false)
    (hexec : op.exec b = .ok b') : ¬InSync b' := by
  intro hsync
  cases op.effect hexec with
  | updateLostCount hcount => exact updateLostCount_both hkeeps hcount hsync.notBoth
  | discardUpTo hdiscard => exact discardUpTo_both h hkeeps hdiscard hsync.notBoth
  | addRenoSack hadd =>
    refine addRenoSack_both hkeeps hadd ?_
    exact fun item hmem => hsync.notBoth item (List.mem_of_mem_tail hmem)
  | resetLastSegmentSent =>
    have hclear := hsync.app_clear
    unfold TcpTxBuffer.resetLastSegmentSent at hclear
    simp only [TxOp.keepsSync, lastClear] at hkeeps
    split at hclear
    · rename_i hnone
      simp [hnone] at hkeeps
    · rename_i item hitem
      have hlast := hclear item (.head _)
      simp [hitem, hlast] at hkeeps
  | _ => exact absurd hkeeps (by simp [TxOp.keepsSync])

theorem Starts.accounted {start : SequenceNumber32} (h : b.Starts start)
    (hmax : b.maxBuffer < 2 ^ 32) : Accounted b := by
  refine ⟨?_, ?_, ?_, ?_, hmax⟩
  · rw [h.sentList, h.sackedOut, h.lostOut, h.retrans, h.sentSize]
    exact ⟨rfl, rfl, rfl, rfl, List.forall_mem_nil _⟩
  · rw [h.appList]
    exact List.forall_mem_nil _
  · simp [h.size, h.sentSize, h.appList]
  · rw [h.size]
    exact Nat.zero_le _

/-- **The scoreboard counters stay in sync** in every run whose calls meet the condition, so that
`BytesInFlight` never underflows; a call from such a state keeps them in sync exactly when it meets
the condition. -/
theorem counters_in_sync {start : SequenceNumber32} {b₀ b : TcpTxBuffer} {ops : List TxOp}
    (hstart : b₀.Starts start) (hmax : b₀.maxBuffer < 2 ^ 32)
    (hrun : Run SyncStep b₀ ops b) :
    InSync b ∧ b.sackedOut + b.lostOut ≤ b.sentSize ∧
    b.bytesInFlight = .ok (wadd 32 (b.sentSize - (b.sackedOut + b.lostOut)) b.retrans) ∧
    ∀ (op : TxOp) (b' : TcpTxBuffer), op.exec b = .ok b' →
      (InSync b' ↔ op.keepsSync b = true) := by
  have h : Accounted b :=
    hrun.invariant (hstart.accounted hmax) fun _ _ _ ih hstep => ih.step hstep.1 hstep.2
  refine ⟨h.inSync, h.add_le, h.bytesInFlight_eq, ?_⟩
  intro op b' hexec
  constructor
  · intro hsync
    by_contra hkeeps
    exact h.step_breaks (by simpa using hkeeps) hexec hsync
  · intro hkeeps
    exact (h.step hkeeps hexec).inSync

/-- Two segments, a SACK of the second, and the acknowledgment of the first. -/
theorem counters_in_sync_sacked : ∃ b,
    Run SyncStep { firstByteSeq := .ofNat 0, dupAckThresh := 3 }
      [.add [1, 2, 3], .copyFromSequence 0 1 (.ofNat 0), .copyFromSequence 0 1 (.ofNat 1),
        .copyFromSequence 0 1 (.ofNat 2), .update [(.ofNat 2, .ofNat 3)],
        .discardUpTo 0 (.ofNat 1)] b ∧ InSync b ∧ b.sackedOut = 1 := by
  refine Run.exists_of_foldlM syncNext_sound rfl fun hrun => ⟨?_, rfl⟩
  exact (counters_in_sync ⟨rfl, rfl, rfl, rfl, rfl, rfl, rfl, rfl, rfl, rfl⟩ (by decide) hrun).1

/-- Two runs that break the counters: a retransmission timeout without SACK, followed by a duplicate
acknowledgment or by a window probe (`PersistTimeout` copies the byte at the next sequence number,
which the timeout moved to the head, and takes back the last segment). -/
theorem counters_out_of_sync :
    (∃ b, Run ExecStep { firstByteSeq := .ofNat 0, sackEnabled := false }
        [.add [1, 2], .copyFromSequence 0 1 (.ofNat 0), .copyFromSequence 0 1 (.ofNat 1),
          .setSentListLost true, .addRenoSack] b ∧
      ¬NotBoth b.sentList ∧ b.sentSize < b.sackedOut + b.lostOut ∧
      b.bytesInFlight = .error .assertFailed) ∧
    ∃ b, Run ExecStep { firstByteSeq := .ofNat 0 }
        [.add [1, 2], .copyFromSequence 0 1 (.ofNat 0), .copyFromSequence 0 1 (.ofNat 1),
          .setSentListLost false, .copyFromSequence 0 1 (.ofNat 0), .resetLastSegmentSent] b ∧
      b.lostOut ≠ flagBytes (·.lost) b.sentList ∧ ¬∀ item ∈ b.appList, item.clear = true := by
  constructor
  · refine ⟨_, Run.of_foldlM execNext_sound rfl, ?_, by decide, rfl⟩
    unfold NotBoth
    decide
  · exact ⟨_, Run.of_foldlM execNext_sound rfl, by decide, by decide⟩

end TcpTxBuffer

end Ns3.Tcp
