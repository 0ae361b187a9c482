/-
  When the cached highest SACK stays exact.

  Three operations can leave the cache below the last sacked item: `Update`, when a
  block sacks the item directly below the cached one, and the two that emulate a
  SACK at the first gap.  `TxOp.keepsHighest` rules these calls out by the state
  before them, and the cache is exact over every run of the others.

  An item is lost when it is not sacked and at least `dupAckThresh` items behind it
  are.  That makes the lost items a function of the sacked ones.  `UpdateLostCount`
  computes it when the cached highest SACK is exact, and keeps the marks it finds.
-/
import Ns3.Internet.Tcp.TxBodies
import Ns3.Internet.Tcp.TxInSync
import Ns3.Internet.Tcp.TxSackOrder

namespace Ns3.Tcp

open Ns3.Lib SequenceNumber

/-- The blocks of a SACK option lie inside the sent range. -/
def TxOp.insideSent (b : TcpTxBuffer) : TxOp → Bool
  | .update list => list.all b.insideSent
  | _ => true

/-- The condition on the state before a call under which it keeps the cached highest
SACK exact. -/
def TxOp.keepsHighest (b : TcpTxBuffer) : TxOp → Bool
  | .update list => sackedInOrder (b.heededOf list) b.sentList
  | .addRenoSack => TcpTxBuffer.noSackAfterGap b.sentList.tail
  | .discardUpTo _ seq => b.discardKeepsHighest seq
  | .resetLastSegmentSent => b.sentList.getLast?.all (!·.sacked)
  | _ => true

/-- A call with SACK blocks inside the sent range. -/
def ReportStep (b : TcpTxBuffer) (op : TxOp) (b' : TcpTxBuffer) : Prop :=
  op.insideSent b = true ∧ op.exec b = .ok b'

def reportNext (b : TcpTxBuffer) (op : TxOp) : Option TcpTxBuffer :=
  if op.insideSent b then execNext b op else none

theorem reportNext_sound (b : TcpTxBuffer) (op : TxOp) (b' : TcpTxBuffer)
    (h : reportNext b op = some b') : ReportStep b op b' := by
  unfold reportNext at h
  split at h
  · rename_i hinside
    exact ⟨hinside, execNext_sound b op b' h⟩
  · simp at h

/-- Such a call that meets the condition. -/
def HighestStep (b : TcpTxBuffer) (op : TxOp) (b' : TcpTxBuffer) : Prop :=
  op.keepsHighest b = true ∧ ReportStep b op b'

def highestNext (b : TcpTxBuffer) (op : TxOp) : Option TcpTxBuffer :=
  if op.keepsHighest b then reportNext b op else none

theorem highestNext_sound (b : TcpTxBuffer) (op : TxOp) (b' : TcpTxBuffer)
    (h : highestNext b op = some b') : HighestStep b op b' := by
  unfold highestNext at h
  split at h
  · rename_i hkeeps
    exact ⟨hkeeps, reportNext_sound b op b' h⟩
  · simp at h

variable {b b' : TcpTxBuffer}

namespace TcpTxBuffer

theorem HighestExact.resetLastSegmentSent (h : HighestExact b)
    (hkeeps : b.sentList.getLast?.all (!·.sacked) = true) :
    HighestExact b.resetLastSegmentSent := by
  have hplaced := h.placed.resetLastSegmentSent
  unfold TcpTxBuffer.resetLastSegmentSent at hplaced ⊢
  split
  · exact h
  · rename_i item hlast
    have hclear : item.sacked = false := by simpa [hlast] using hkeeps
    have hlist : b.sentList = b.sentList.dropLast ++ [item] :=
      (List.dropLast_append_getLast? item hlast).symm
    have hsame : lastSacked b.sentList = lastSacked b.sentList.dropLast := by
      rw [hlist, lastSacked_append, lastSacked_cons, hclear, List.dropLast_concat]
      rfl
    simp only [hlast] at hplaced
    refine ⟨hplaced, ?_, ?_, ?_, ?_⟩
    · exact List.forall_mem_cons.mpr ⟨hclear, h.app_unsacked⟩
    · intro head hhead
      refine h.head_unsacked head ?_
      rw [Option.mem_def] at hhead ⊢
      rw [hlist, List.head?_append, hhead]
      rfl
    · exact h.cache.trans (congrArg pointerTo hsame)
    · exact h.seen.trans (congrArg Option.isSome hsame)

/-- **Step lemma.**  A call that meets the condition keeps the cache exact. -/
theorem HighestExact.step {op : TxOp} (h : HighestExact b) (hstep : HighestStep b op b') :
    HighestExact b' := by
  obtain ⟨hkeeps, hinside, hexec⟩ := hstep
  cases op.effect hexec with
  | add p => exact h.add p
  | copyFromSequence hcopy => exact h.copyFromSequence hcopy
  | update hupdate => exact h.update (List.all_eq_true.mp hinside) hkeeps hupdate
  | updateLostCount hcount => exact h.updateLostCount hcount
  | discardUpTo hdiscard => exact h.discardUpTo hkeeps hdiscard
  | markHeadAsLost => exact h.markHeadAsLost
  | addRenoSack hadd => exact h.addRenoSack hkeeps hadd
  | resetRenoSack => exact h.resetRenoSack
  | setSentListLost hset => exact h.setSentListLost hset
  | resetSentList => exact h.resetSentList
  | resetLastSegmentSent => exact h.resetLastSegmentSent hkeeps
  | deleteRetransmittedFlagFromHead hdelete => exact h.deleteRetransmittedFlagFromHead hdelete

theorem HighestExact.eq_findHighestSacked (h : HighestExact b) :
    b.highestSack = findHighestSacked b.firstByteSeq b.sentList :=
  h.cache.trans (findHighestSacked_eq h.placed.chain).symm

/-- **The cached highest SACK is exact** in every run whose calls meet the condition,
in a buffer of less than half the sequence space. -/
theorem highest_sack_exact {start : SequenceNumber32} {b₀ b : TcpTxBuffer} {ops : List TxOp}
    (hstart : b₀.Starts start) (hmax : b₀.maxBuffer < 2 ^ 31)
    (hrun : Run HighestStep b₀ ops b) (hsacked : ∃ item ∈ b.sentList, item.sacked = true) :
    b.sackSeen = true ∧ b.highestSack = findHighestSacked b.firstByteSeq b.sentList := by
  have h : HighestExact b :=
    hrun.invariant (hstart.highestExact hmax) fun _ _ _ ih hstep => ih.step hstep
  refine ⟨?_, h.eq_findHighestSacked⟩
  obtain ⟨item, hmem, hitem⟩ := hsacked
  rw [h.seen, Option.isSome_iff_ne_none]
  intro hnone
  have hclear := lastSacked_eq_none.mp hnone item hmem
  simp [hclear] at hitem

/-- Five segments; the fourth and then the second are reported, one at a time. -/
theorem highest_sack_exact_reported : ∃ b,
    Run HighestStep { firstByteSeq := .ofNat 0, dupAckThresh := 3 }
      [.add [1, 2, 3, 4, 5], .copyFromSequence 0 1 (.ofNat 0), .copyFromSequence 0 1 (.ofNat 1),
        .copyFromSequence 0 1 (.ofNat 2), .copyFromSequence 0 1 (.ofNat 3),
        .copyFromSequence 0 1 (.ofNat 4), .update [(.ofNat 3, .ofNat 4)],
        .update [(.ofNat 1, .ofNat 2), (.ofNat 3, .ofNat 4)]] b ∧
      b.sackSeen = true ∧ b.highestSack = findHighestSacked b.firstByteSeq b.sentList :=
  Run.exists_of_foldlM highestNext_sound rfl fun hrun =>
    highest_sack_exact ⟨rfl, rfl, rfl, rfl, rfl, rfl, rfl, rfl, rfl, rfl⟩ (by decide) hrun
      (by decide)

/-- Two runs that leave the cache below the last sacked item: the third segment is reported after
the fourth, or a duplicate acknowledgment is taken for a SACK of the second. -/
theorem highest_sack_inexact :
    (∃ b, Run ReportStep { firstByteSeq := .ofNat 0, dupAckThresh := 3 }
        [.add [1, 2, 3, 4], .copyFromSequence 0 1 (.ofNat 0), .copyFromSequence 0 1 (.ofNat 1),
          .copyFromSequence 0 1 (.ofNat 2), .copyFromSequence 0 1 (.ofNat 3),
          .update [(.ofNat 3, .ofNat 4)], .update [(.ofNat 2, .ofNat 3)]] b ∧
      (∃ item ∈ b.sentList, item.sacked = true) ∧ b.highestSack.2 = .ofNat 2 ∧
      b.highestSack ≠ findHighestSacked b.firstByteSeq b.sentList) ∧
    ∃ b, Run ReportStep { firstByteSeq := .ofNat 0, dupAckThresh := 3 }
        [.add [1, 2, 3, 4], .copyFromSequence 0 1 (.ofNat 0), .copyFromSequence 0 1 (.ofNat 1),
          .copyFromSequence 0 1 (.ofNat 2), .copyFromSequence 0 1 (.ofNat 3),
          .update [(.ofNat 3, .ofNat 4)], .addRenoSack] b ∧
      (∃ item ∈ b.sentList, item.sacked = true) ∧ b.highestSack.2 = .ofNat 1 ∧
      b.highestSack ≠ findHighestSacked b.firstByteSeq b.sentList := by
  constructor
  · exact ⟨_, Run.of_foldlM reportNext_sound rfl, by decide, rfl, by decide⟩
  · exact ⟨_, Run.of_foldlM reportNext_sound rfl, by decide, rfl, by decide⟩

end TcpTxBuffer

/-! ## The marks as a function of the SACKs -/

variable {dupAckThresh : Nat} {l : List TcpTxItem}

/-- No item is marked lost without reason. -/
def LossSound (dupAckThresh : Nat) : List TcpTxItem → Prop
  | [] => True
  | item :: rest =>
    (item.lost = true → item.sacked = false ∧ dupAckThresh ≤ rest.countP (·.sacked)) ∧
      LossSound dupAckThresh rest

/-- An item is marked lost when it is not sacked and enough items behind it are, and
only then. -/
def LossMarked (dupAckThresh : Nat) : List TcpTxItem → Prop
  | [] => True
  | item :: rest =>
    (item.lost = true ↔ item.sacked = false ∧ dupAckThresh ≤ rest.countP (·.sacked)) ∧
      LossMarked dupAckThresh rest

variable {item : TcpTxItem}

theorem lossMarked_cons {rest : List TcpTxItem} :
    LossMarked dupAckThresh (item :: rest) ↔
      (item.lost = true ↔ item.sacked = false ∧ dupAckThresh ≤ rest.countP (·.sacked)) ∧
        LossMarked dupAckThresh rest := Iff.rfl

theorem LossMarked.sound (h : LossMarked dupAckThresh l) : LossSound dupAckThresh l := by
  induction l with
  | nil => trivial
  | cons item rest ih => exact ⟨h.1.mp, ih h.2⟩

variable {before after : List TcpTxItem}

theorem LossMarked.at (h : LossMarked dupAckThresh (before ++ item :: after)) :
    item.lost = true ↔ item.sacked = false ∧ dupAckThresh ≤ after.countP (·.sacked) := by
  induction before with
  | nil => exact h.1
  | cons first rest ih => exact ih h.2

variable {r : List TcpTxItem}

theorem LossMarked.lost_eq (hl : LossMarked dupAckThresh l) (hr : LossMarked dupAckThresh r)
    (h : l.map (·.sacked) = r.map (·.sacked)) : l.map (·.lost) = r.map (·.lost) := by
  induction l generalizing r with
  | nil =>
    obtain rfl : r = [] := by simpa using h.symm
    rfl
  | cons item rest ih =>
    cases r with
    | nil => simp at h
    | cons item' rest' =>
      simp only [List.map_cons, List.cons.injEq] at h
      obtain ⟨hitem, hrest⟩ := h
      have hcount : rest.countP (·.sacked) = rest'.countP (·.sacked) := by
        have := congrArg (List.countP id) hrest
        simpa [List.countP_map] using this
      have hlost : item.lost = item'.lost := by
        rw [Bool.eq_iff_iff, hl.1, hr.1, hitem, hcount]
      rw [List.map_cons, List.map_cons, hlost, ih hl.2 hr.2 hrest]

theorem lossSound_unlost (h : ∀ item ∈ l, item.lost = false) : LossSound dupAckThresh l := by
  induction l with
  | nil => trivial
  | cons item rest ih =>
    obtain ⟨hitem, hrest⟩ := List.forall_mem_cons.mp h
    refine ⟨fun hlost => ?_, ih hrest⟩
    simp [hitem] at hlost

/-! ## SACK blocks keep the marks sound -/

theorem countP_sackItem_le (block : SackBlock) (l : List TcpTxItem) :
    l.countP (·.sacked) ≤ (l.map (sackItem block)).countP (·.sacked) := by
  rw [List.countP_map]
  refine List.countP_mono_left fun item _ hsacked => ?_
  simp [sackItem_sacked, hsacked]

theorem LossSound.sackItems (block : SackBlock) (h : LossSound dupAckThresh l) :
    LossSound dupAckThresh (l.map (sackItem block)) := by
  induction l with
  | nil => trivial
  | cons item rest ih =>
    refine ⟨?_, ih h.2⟩
    intro hlost
    have hmore := countP_sackItem_le block rest
    unfold sackItem at hlost ⊢
    split at hlost
    · simp at hlost
    · rename_i hidle
      rw [if_neg hidle]
      obtain ⟨hclear, hcount⟩ := h.1 hlost
      exact ⟨hclear, by unfold sackItem at hmore; omega⟩

namespace TcpTxBuffer

theorem sackRuns_lossSound (blocks : List SackBlock) (pass : SackPass)
    (h : LossSound dupAckThresh l) : LossSound dupAckThresh (sackRuns blocks l pass).1 := by
  induction blocks generalizing l pass with
  | nil => exact h
  | cons block blocks ih => exact ih _ (h.sackItems block)

theorem sackRuns_nodes (blocks : List SackBlock) (l : List TcpTxItem) (pass : SackPass) :
    (sackRuns blocks l pass).1.map (·.node) = l.map (·.node) := by
  induction blocks generalizing l pass with
  | nil => rfl
  | cons block blocks ih =>
    rw [sackRuns, ih, List.map_map]
    exact List.map_congr_left fun item _ => sackItem_node block item

/-! ## Nothing newly sacked -/

theorem foldl_bytesSacked {block : SackBlock} (pass : SackPass) (hne : Nonempty l)
    (hbound : pass.bytesSacked + flagBytes (!·.sacked) l < 2 ^ 32) :
    (l.foldl (sackStep block) pass).bytesSacked
        + flagBytes (!·.sacked) (l.map (sackItem block))
      = pass.bytesSacked + flagBytes (!·.sacked) l ∧
    pass.bytesSacked ≤ (l.foldl (sackStep block) pass).bytesSacked ∧
    ((l.foldl (sackStep block) pass).bytesSacked = pass.bytesSacked →
      ∀ item ∈ l, (covers block item && !item.sacked) = false) := by
  induction l generalizing pass with
  | nil => exact ⟨rfl, le_rfl, fun _ _ hmem => absurd hmem List.not_mem_nil⟩
  | cons item rest ih =>
    obtain ⟨hpos, hne⟩ := nonempty_cons.mp hne
    rw [flagBytes_cons] at hbound
    rw [List.map_cons, List.foldl_cons, flagBytes_cons, flagBytes_cons]
    cases hnew : covers block item && !item.sacked with
    | false =>
      have hstep : sackStep block pass item = pass := by rw [sackStep, hnew]; rfl
      have hitem : sackItem block item = item := by rw [sackItem, hnew]; rfl
      rw [hstep, hitem]
      obtain ⟨hsum, hle, hidle⟩ := ih pass hne (by omega)
      refine ⟨by omega, hle, fun heq => ?_⟩
      exact List.forall_mem_cons.mpr ⟨hnew, hidle heq⟩
    | true =>
      have hclear : item.sacked = false := by
        simp only [Bool.and_eq_true, Bool.not_eq_true'] at hnew
        exact hnew.2
      have hstep : (sackStep block pass item).bytesSacked
          = pass.bytesSacked + item.size := by
        rw [sackStep, hnew, if_pos rfl, SackPass.sack]
        simp only [hclear, Bool.not_false, if_true] at hbound
        exact wadd_eq (by omega)
      have hitem : (sackItem block item).sacked = true := by
        rw [sackItem, hnew]
        rfl
      simp only [hclear, Bool.not_false, if_true] at hbound
      obtain ⟨hsum, hle, _⟩ := ih (sackStep block pass item) hne (by rw [hstep]; omega)
      rw [hstep] at hsum hle
      simp only [hitem, hclear, Bool.not_true, Bool.not_false, if_true, Bool.false_eq_true,
        if_false, Nat.zero_add]
      refine ⟨by omega, by omega, fun heq => ?_⟩
      omega

theorem sackRuns_bytesSacked {blocks : List SackBlock} (pass : SackPass) (hne : Nonempty l)
    (hbound : pass.bytesSacked + flagBytes (!·.sacked) l < 2 ^ 32) :
    pass.bytesSacked ≤ (sackRuns blocks l pass).2.bytesSacked ∧
      ((sackRuns blocks l pass).2.bytesSacked = pass.bytesSacked →
        sackRuns blocks l pass = (l, pass)) := by
  induction blocks generalizing l pass with
  | nil => exact ⟨le_rfl, fun _ => rfl⟩
  | cons block blocks ih =>
    obtain ⟨hsum, hle, hidle⟩ := @foldl_bytesSacked l block pass hne hbound
    have hne' : Nonempty (l.map (sackItem block)) :=
      nonempty_of_places (map_place_eq (sackItem_place block)) hne
    obtain ⟨hle', hsame⟩ := ih (l.foldl (sackStep block) pass) hne' (by omega)
    rw [sackRuns]
    refine ⟨hle.trans hle', fun heq => ?_⟩
    have hnone : (l.foldl (sackStep block) pass).bytesSacked = pass.bytesSacked := by omega
    obtain ⟨hmap, hfold⟩ := sack_idle pass (hidle hnone)
    rw [hsame (by omega), hmap, hfold]

/-! ## The recount -/

theorem countP_of_unlost (h : l.map unlost = r.map unlost) :
    l.countP (·.sacked) = r.countP (·.sacked) := by
  have hcount : ∀ items : List TcpTxItem,
      items.countP (·.sacked) = (items.map unlost).countP (·.sacked) := by
    intro items
    rw [List.countP_map]
    rfl
  rw [hcount l, hcount r, h]

theorem countP_unsacked (h : ∀ item ∈ l, item.sacked = false) : l.countP (·.sacked) = 0 := by
  rw [List.countP_eq_zero]
  intro item hmem
  simp [h item hmem]

theorem lossMarked_unsacked (hthresh : 0 < dupAckThresh) (hclear : ∀ item ∈ l, item.sacked = false)
    (h : LossSound dupAckThresh l) : LossMarked dupAckThresh l := by
  induction l with
  | nil => trivial
  | cons item rest ih =>
    obtain ⟨_, hrest⟩ := List.forall_mem_cons.mp hclear
    refine ⟨⟨h.1, ?_⟩, ih hrest h.2⟩
    rintro ⟨_, hcount⟩
    rw [countP_unsacked hrest] at hcount
    omega

theorem lostWalk_marked {lost : Nat} {upTo beyond : List TcpTxItem} (hthresh : 0 < dupAckThresh)
    (hbeyond : ∀ later ∈ beyond, later.sacked = false)
    (h : LossSound dupAckThresh (upTo ++ beyond)) :
    LossMarked dupAckThresh ((lostWalk dupAckThresh upTo lost).2.2 ++ beyond) := by
  induction upTo with
  | nil => exact lossMarked_unsacked hthresh hbeyond h
  | cons item later ih =>
    rw [List.cons_append] at h
    obtain ⟨hitem, hlater⟩ := h
    have hmarked := ih hlater
    have hcount : ((lostWalk dupAckThresh later lost).2.2 ++ beyond).countP (·.sacked)
        = later.countP (·.sacked) := by
      rw [List.countP_append, countP_unsacked hbeyond, Nat.add_zero,
        countP_of_unlost (lostWalk_unlost dupAckThresh lost later)]
    rw [List.countP_append, countP_unsacked hbeyond, Nat.add_zero] at hitem
    simp only [lostWalk, lostWalk_count]
    split
    · -- the item is not lost yet, and enough items behind it are sacked
      rename_i hmark
      simp only [Bool.and_eq_true, decide_eq_true_eq, Bool.not_eq_true'] at hmark
      obtain ⟨⟨hthresh, hclear⟩, _⟩ := hmark
      rw [hclear] at hthresh
      rw [List.cons_append, lossMarked_cons, hcount]
      refine ⟨?_, hmarked⟩
      exact ⟨fun _ => ⟨hclear, hthresh⟩, fun _ => rfl⟩
    · rename_i hkeep
      rw [List.cons_append, lossMarked_cons, hcount]
      refine ⟨⟨hitem, ?_⟩, hmarked⟩
      rintro ⟨hclear, hthresh⟩
      by_contra hlost
      refine hkeep ?_
      simpa [hclear, hthresh] using hlost

theorem splitAtNode_place (h : ((before ++ item :: after).map (·.node)).Nodup) :
    splitAtNode item.node (before ++ item :: after) = some (before ++ [item], after) := by
  induction before with
  | nil => simp [splitAtNode]
  | cons first rest ih =>
    simp only [List.cons_append, List.map_cons, List.nodup_cons] at h
    have hne : first.node ≠ item.node := by
      intro heq
      refine h.1 ?_
      rw [heq]
      simp
    rw [List.cons_append, splitAtNode, if_neg hne, ih h.2]
    rfl

/-- **Recount lemma.**  With an exact cache, sound marks become complete. -/
theorem HighestExact.recount (h : HighestExact b) (hthresh : 0 < b.dupAckThresh)
    (hnodes : (b.sentList.map (·.node)).Nodup) (hsound : LossSound b.dupAckThresh b.sentList)
    (hrun : b.updateLostCount = .ok b') : LossMarked b.dupAckThresh b'.sentList := by
  obtain ⟨_, hempty, hmark⟩ | ⟨node, head, tail, hnode, hlist, hwalk⟩ :=
    updateLostCount_cases hrun
  · obtain ⟨rfl, _⟩ | ⟨_, head, tail, hlist, _⟩ := markHeadIfLost_cases hmark
    · rw [hempty]
      trivial
    · simp [hempty] at hlist
  · -- the cached item is the last sacked one, and that is not the head
    have hclear := h.head_unsacked head (by simp [hlist])
    have hlast : lastSacked b.sentList = lastSacked tail := by
      rw [hlist, lastSacked_cons, hclear]
      exact Option.or_none
    rw [h.cache, hlast] at hnode
    rw [hlist] at hnodes hsound
    obtain ⟨highest, hhighest⟩ : ∃ highest, lastSacked tail = some highest := by
      cases hnone : lastSacked tail with
      | none => simp [hnone, pointerTo] at hnode
      | some highest => exact ⟨highest, rfl⟩
    rw [hhighest] at hnode
    obtain rfl : highest.node = node := Option.some.inj hnode
    obtain ⟨before, after, rfl, hsacked, hafter⟩ := lastSacked_eq_some hhighest
    rw [List.map_cons, List.nodup_cons] at hnodes
    obtain ⟨hfirst, _⟩ | ⟨_, upTo, beyond, hsplit, hmark⟩ := hwalk
    · refine absurd ?_ hnodes.1
      rw [hfirst]
      simp
    · rw [splitAtNode_place hnodes.2] at hsplit
      cases hsplit
      obtain ⟨hhead, htail⟩ := hsound
      have hlist' : before ++ highest :: after = (before ++ [highest]) ++ after := by simp
      rw [hlist'] at htail hhead
      have hwalked := @lostWalk_marked b.dupAckThresh b.lostOut _ _ hthresh hafter htail
      have hcount : ((lostWalk b.dupAckThresh (before ++ [highest]) b.lostOut).2.2
          ++ after).countP (·.sacked) = (before ++ [highest]).countP (·.sacked) := by
        rw [List.countP_append, countP_unsacked hafter, Nat.add_zero,
          countP_of_unlost (lostWalk_unlost _ _ _)]
      rw [List.countP_append, countP_unsacked hafter, Nat.add_zero] at hhead
      rw [lostWalk_count] at hmark
      obtain ⟨rfl, hdone⟩ | ⟨hreached, head', tail', hwalkedList, _, rfl⟩ :=
        markHeadIfLost_cases hmark
      · rw [List.cons_append, lossMarked_cons, hcount]
        refine ⟨⟨hhead, ?_⟩, hwalked⟩
        rintro ⟨_, hreached⟩
        obtain ⟨head', tail', hwalkedList, hlost⟩ := hdone hreached
        obtain ⟨rfl, _⟩ := List.cons.inj hwalkedList
        exact hlost
      · obtain ⟨rfl, rfl⟩ := List.cons.inj hwalkedList
        have hmarked : LossMarked b.dupAckThresh ({ head with lost := true } ::
            ((lostWalk b.dupAckThresh (before ++ [highest]) b.lostOut).2.2 ++ after)) := by
          rw [lossMarked_cons, hcount]
          exact ⟨⟨fun _ => ⟨hclear, hreached⟩, fun _ => rfl⟩, hwalked⟩
        exact hmarked

/-! ## Runs of `Update` -/

def sparesHead (b : TcpTxBuffer) (list : List SackBlock) : Bool :=
  b.sentList.head?.all fun head => list.all fun block => !covers block head

/-- The blocks leave the cache exact, and an early return has nothing to recount. -/
def keepsLost (b : TcpTxBuffer) (list : List SackBlock) : Bool :=
  sackedInOrder (b.heededOf list) b.sentList &&
    (!list.any (b.firstUnsent.lt ·.1) ||
      b.sentList.all fun item => item.sacked || (sackTime (b.heededOf list) item).isNone)

/-- A call of `Update`. -/
def UpdateStep (b : TcpTxBuffer) (list : List SackBlock) (b' : TcpTxBuffer) : Prop :=
  b.sparesHead list = true ∧ (TxOp.update list).exec b = .ok b'

def updateNext (b : TcpTxBuffer) (list : List SackBlock) : Option TcpTxBuffer :=
  if b.sparesHead list then execNext b (.update list) else none

theorem updateNext_sound (b : TcpTxBuffer) (list : List SackBlock) (b' : TcpTxBuffer)
    (h : updateNext b list = some b') : UpdateStep b list b' := by
  unfold updateNext at h
  split at h
  · rename_i hspares
    exact ⟨hspares, execNext_sound b _ b' h⟩
  · simp at h

/-- A call of `Update` that meets the condition. -/
def LossStep (b : TcpTxBuffer) (list : List SackBlock) (b' : TcpTxBuffer) : Prop :=
  b.keepsLost list = true ∧ UpdateStep b list b'

def lossNext (b : TcpTxBuffer) (list : List SackBlock) : Option TcpTxBuffer :=
  if b.keepsLost list then updateNext b list else none

theorem lossNext_sound (b : TcpTxBuffer) (list : List SackBlock) (b' : TcpTxBuffer)
    (h : lossNext b list = some b') : LossStep b list b' := by
  unfold lossNext at h
  split at h
  · rename_i hkeeps
    exact ⟨hkeeps, updateNext_sound b list b' h⟩
  · simp at h

/-- A sent list of which nothing has been reported yet. -/
structure Fresh (b : TcpTxBuffer) : Prop where
  placed : Placed b
  /-- no two items share a list node -/
  nodes : (b.sentList.map (·.node)).Nodup
  sent_unsacked : ∀ item ∈ b.sentList, item.sacked = false
  sent_unlost : ∀ item ∈ b.sentList, item.lost = false
  app_unsacked : ∀ item ∈ b.appList, item.sacked = false
  highestSack : b.highestSack = (none, .ofNat 0)
  sackSeen : b.sackSeen = false

/-- The marks are the ones that the SACKs call for. -/
structure Scored (dupAckThresh : Nat) (b : TcpTxBuffer) : Prop where
  exact : HighestExact b
  nodes : (b.sentList.map (·.node)).Nodup
  thresh : b.dupAckThresh = dupAckThresh
  marked : LossMarked dupAckThresh b.sentList

theorem Fresh.scored (h : Fresh b) (hthresh : 0 < b.dupAckThresh) : Scored b.dupAckThresh b := by
  refine ⟨?_, h.nodes, rfl, ?_⟩
  · exact .of_unsacked h.placed h.app_unsacked h.sent_unsacked h.highestSack h.sackSeen
  · exact lossMarked_unsacked hthresh h.sent_unsacked (lossSound_unlost h.sent_unlost)

theorem updateLostCount_dupAckThresh (h : b.updateLostCount = .ok b') :
    b'.dupAckThresh = b.dupAckThresh := by
  obtain ⟨_, _, hmark⟩ | ⟨_, _, _, _, _, ⟨_, hmark⟩ | ⟨_, _, _, _, hmark⟩⟩ :=
    updateLostCount_cases h
  all_goals
    obtain ⟨rfl, _⟩ | ⟨_, _, _, _, _, rfl⟩ := markHeadIfLost_cases hmark <;> rfl

/-- **Step lemma.** -/
theorem Scored.step {list : List SackBlock} (h : Scored dupAckThresh b) (hthresh : 0 < dupAckThresh)
    (hstep : LossStep b list b') : Scored dupAckThresh b' := by
  obtain ⟨hkeeps, _, hexec⟩ := hstep
  simp only [TxOp.exec, bind_eq_ok, pure_eq_ok] at hexec
  obtain ⟨⟨b₁, bytesSacked, newlySacked⟩, hrun, rfl⟩ := hexec
  obtain ⟨items, pass, hruns, hplaces, hend⟩ := update_heeded h.exact.placed hrun
  simp only [keepsLost, Bool.and_eq_true, Bool.or_eq_true, Bool.not_eq_true'] at hkeeps
  obtain ⟨horder, hearly⟩ := hkeeps
  obtain ⟨hbeyond, rfl⟩ | ⟨_, hheads, hcount⟩ := hend
  · -- an early return, with nothing sacked
    obtain hinside | hidle := hearly
    · simp [hbeyond] at hinside
    · rw [sackRuns_idle _ (by simpa using hidle)] at hruns
      cases hruns
      exact h
  · have hmarked := h.exact.withPass hplaces horder hheads hruns
    obtain ⟨_, hcount⟩ | ⟨hzero, rfl⟩ := hcount
    · have hnodes : items.map (·.node) = b.sentList.map (·.node) := by
        have hsame := sackRuns_nodes (b.heededOf list) b.sentList b.startPass
        rwa [hruns] at hsame
      have hsound : LossSound dupAckThresh items := by
        have hsound := sackRuns_lossSound (b.heededOf list) b.startPass h.marked.sound
        rwa [hruns] at hsound
      have hsame : (b.withPass items pass).dupAckThresh = dupAckThresh := h.thresh
      have hunlost : b₁.sentList.map unlost = items.map unlost := updateLostCount_unlost hcount
      refine ⟨hmarked.updateLostCount hcount, ?_, ?_, ?_⟩
      · have hsame := congrArg (List.map (·.node)) hunlost
        rw [List.map_map, List.map_map] at hsame
        change b₁.sentList.map (·.node) = items.map (·.node) at hsame
        rw [hsame, hnodes]
        exact h.nodes
      · exact (updateLostCount_dupAckThresh hcount).trans hsame
      · rw [← hsame] at hthresh hsound ⊢
        exact hmarked.recount hthresh (hnodes ▸ h.nodes) hsound hcount
    · -- nothing is newly sacked
      have hbound : b.startPass.bytesSacked + flagBytes (!·.sacked) b.sentList < 2 ^ 32 := by
        have hle := flagBytes_le (!·.sacked) b.sentList
        have hbytes := h.exact.placed.bytes_eq
        have hlt := h.exact.placed.sentSize_lt
        change 0 + flagBytes (!·.sacked) b.sentList < 2 ^ 32
        omega
      have hsame := (sackRuns_bytesSacked b.startPass h.exact.placed.nonempty hbound).2
        (by rw [hruns]; exact hzero)
      rw [hruns] at hsame
      cases hsame
      exact h

/-- **The loss marks are complete and independent of the order of the SACKs**: over every run of
`Update` whose calls meet the condition, an item is marked lost exactly when it is not sacked and
enough items behind it are. -/
theorem lost_marks_complete {b₀ b : TcpTxBuffer} {lists : List (List SackBlock)}
    (hfresh : b₀.Fresh) (hthresh : 0 < b₀.dupAckThresh) (hrun : Run LossStep b₀ lists b) :
    (∀ before item after, b.sentList = before ++ item :: after →
      (item.lost = true ↔
        item.sacked = false ∧ b.dupAckThresh ≤ after.countP (·.sacked))) ∧
    ∀ (lists' : List (List SackBlock)) (b' : TcpTxBuffer), Run LossStep b₀ lists' b' →
      b'.sentList.map (·.sacked) = b.sentList.map (·.sacked) →
      b'.sentList.map (·.lost) = b.sentList.map (·.lost) := by
  have hscored : ∀ {lists : List (List SackBlock)} {b : TcpTxBuffer},
      Run LossStep b₀ lists b → Scored b₀.dupAckThresh b := fun hrun =>
    hrun.invariant (hfresh.scored hthresh) fun _ _ _ ih hstep => ih.step hthresh hstep
  have h := hscored hrun
  refine ⟨?_, ?_⟩
  · intro before item after hlist
    have hmarked := h.marked
    rw [hlist] at hmarked
    rw [h.thresh]
    exact hmarked.at
  · intro lists' b' hrun' hsacked
    exact (hscored hrun').marked.lost_eq h.marked hsacked

theorem Starts.fresh {start : SequenceNumber32} {b₀ : TcpTxBuffer} {ops : List TxOp}
    (h : b₀.Starts start) (hmax : b₀.maxBuffer < 2 ^ 31) (hrun : Run ExecStep b₀ ops b)
    (hclear : (b.sentList ++ b.appList).all (fun item => !item.sacked && !item.lost) = true)
    (hcache : b.highestSack = (none, .ofNat 0)) (hseen : b.sackSeen = false) : Fresh b := by
  have hitem : ∀ item ∈ b.sentList ++ b.appList, item.sacked = false ∧ item.lost = false := by
    intro item hmem
    simpa using List.all_eq_true.mp hclear item hmem
  have hplaced : Placed b := hrun.invariant (h.placed hmax) fun _ _ _ ih hstep => ih.step hstep
  have hdistinct : b.Distinct := hrun.invariant h.distinct fun _ _ _ ih hstep => ih.step hstep
  refine ⟨hplaced, hdistinct.sent_nodup, ?_, ?_, ?_, hcache, hseen⟩
  · exact fun item hmem => (hitem item (List.mem_append_left _ hmem)).1
  · exact fun item hmem => (hitem item (List.mem_append_left _ hmem)).2
  · exact fun item hmem => (hitem item (List.mem_append_right _ hmem)).1

/-- Five segments; the last three are reported from the lowest up. -/
theorem lost_marks_complete_rising : ∃ b₀ b,
    Run ExecStep { firstByteSeq := .ofNat 0, dupAckThresh := 3 }
      (.add [1, 2, 3, 4, 5] :: (List.range 5).map fun k => .copyFromSequence 0 1 (.ofNat k)) b₀ ∧
    Run LossStep b₀ [[(.ofNat 2, .ofNat 3)], [(.ofNat 2, .ofNat 4)], [(.ofNat 2, .ofNat 5)]] b ∧
    b.sentList.map (·.lost) = [true, true, false, false, false] ∧
    ∀ (lists' : List (List SackBlock)) (b' : TcpTxBuffer), Run LossStep b₀ lists' b' →
      b'.sentList.map (·.sacked) = [false, false, true, true, true] →
      b'.sentList.map (·.lost) = [true, true, false, false, false] := by
  obtain ⟨b₀, hsent, hfresh, hthresh, b, hrun, hsacked, hlost⟩ : ∃ b₀,
      Run ExecStep { firstByteSeq := .ofNat 0, dupAckThresh := 3 }
        (.add [1, 2, 3, 4, 5] :: (List.range 5).map fun k =>
          .copyFromSequence 0 1 (.ofNat k)) b₀ ∧ Fresh b₀ ∧ 0 < b₀.dupAckThresh ∧ ∃ b,
      Run LossStep b₀ [[(.ofNat 2, .ofNat 3)], [(.ofNat 2, .ofNat 4)], [(.ofNat 2, .ofNat 5)]]
        b ∧
      b.sentList.map (·.sacked) = [false, false, true, true, true] ∧
      b.sentList.map (·.lost) = [true, true, false, false, false] :=
    Run.exists_of_foldlM execNext_sound rfl fun hsent =>
      ⟨Starts.fresh ⟨rfl, rfl, rfl, rfl, rfl, rfl, rfl, rfl, rfl, rfl⟩ (by decide) hsent
        (by decide) rfl rfl, by decide, _, Run.of_foldlM lossNext_sound rfl, rfl, rfl⟩
  refine ⟨b₀, b, hsent, hrun, hlost, ?_⟩
  have horder := (lost_marks_complete hfresh hthresh hrun).2
  rwa [hsacked, hlost] at horder

/-- The same segments reported from the highest down leave the first two unmarked; so do three
reported together with a block beyond the sent list. -/
theorem lost_marks_incomplete : ∃ b₀,
    Run ExecStep { firstByteSeq := .ofNat 0, dupAckThresh := 3 }
      (.add [1, 2, 3, 4, 5] :: (List.range 5).map fun k => .copyFromSequence 0 1 (.ofNat k)) b₀ ∧
    ∃ rising falling early,
      Run UpdateStep b₀ [[(.ofNat 2, .ofNat 3)], [(.ofNat 3, .ofNat 4)], [(.ofNat 4, .ofNat 5)]]
        rising ∧
      Run UpdateStep b₀ [[(.ofNat 4, .ofNat 5)], [(.ofNat 3, .ofNat 4)], [(.ofNat 2, .ofNat 3)]]
        falling ∧
      Run UpdateStep b₀ [[(.ofNat 2, .ofNat 5), (.ofNat 100, .ofNat 101)]] early ∧
      rising.sentList.map (·.sacked) = [false, false, true, true, true] ∧
      falling.sentList.map (·.sacked) = [false, false, true, true, true] ∧
      early.sentList.map (·.sacked) = [false, false, true, true, true] ∧
      rising.sentList.map (·.lost) = [true, true, false, false, false] ∧
      falling.sentList.map (·.lost) = [false, false, false, false, false] ∧
      early.sentList.map (·.lost) = [false, false, false, false, false] :=
  ⟨_, Run.of_foldlM execNext_sound rfl, _, _, _, Run.of_foldlM updateNext_sound rfl,
    Run.of_foldlM updateNext_sound rfl, Run.of_foldlM updateNext_sound rfl, rfl, rfl, rfl, rfl,
    rfl, rfl⟩

end TcpTxBuffer

end Ns3.Tcp
