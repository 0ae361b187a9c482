/-
  What the scoreboard leaves alone in the items of the
  transmission buffer.

  The scoreboard writes flags.  The node, the place and the rate information of an
  item stay, and the calls that the socket makes while it trusts the SACK marks
  never take one away.

  The source holds pointers to items across calls.  The model names a list node by a
  number, and a number is as good as a pointer while no two items share it.
-/
import Mathlib.Data.List.Forall2
import Ns3.Internet.Tcp.TxScoreboard

namespace Ns3.Tcp

open Ns3.Lib SequenceNumber

/-! ## Items -/

def body (item : TcpTxItem) : Nat × SequenceNumber32 × Packet × RateInformation :=
  (item.node, item.startSeq, item.packet, item.rateInfo)

/-- The flags of an item were written, and its SACK mark, if it had one, was left. -/
def KeepsSack (item item' : TcpTxItem) : Prop :=
  body item' = body item ∧ (item.sacked = true → item'.sacked = true)

theorem KeepsSack.refl (item : TcpTxItem) : KeepsSack item item := ⟨rfl, id⟩

/-- Item by item, the SACK marks were left. -/
abbrev AllKeepSack (l l' : List TcpTxItem) : Prop := List.Forall₂ KeepsSack l l'

namespace AllKeepSack

variable {l l' l'' r r' : List TcpTxItem} {item item' : TcpTxItem}

theorem refl (l : List TcpTxItem) : AllKeepSack l l :=
  List.forall₂_same.mpr fun item _ => .refl item

theorem trans (h : AllKeepSack l l') (h' : AllKeepSack l' l'') : AllKeepSack l l'' := by
  induction h generalizing l'' with
  | nil => exact h'
  | cons hitem _ ih =>
    cases h' with
    | cons hitem' hrest' =>
      exact .cons ⟨hitem'.1.trans hitem.1, fun hs => hitem'.2 (hitem.2 hs)⟩ (ih hrest')

theorem append (h : AllKeepSack l l') (hr : AllKeepSack r r') : AllKeepSack (l ++ r) (l' ++ r') :=
  List.rel_append h hr

theorem middle (hitem : KeepsSack item item') :
    AllKeepSack (l ++ item :: r) (l ++ item' :: r) :=
  (refl l).append (.cons hitem (refl r))

theorem bodies (h : AllKeepSack l l') : l'.map body = l.map body := by
  induction h with
  | nil => rfl
  | cons hitem _ ih => rw [List.map_cons, List.map_cons, hitem.1, ih]

theorem sacked_nodes (h : AllKeepSack l l') {node : Nat}
    (hmem : ∃ item ∈ l, item.node = node ∧ item.sacked = true) :
    ∃ item ∈ l', item.node = node ∧ item.sacked = true := by
  induction h with
  | nil => exact hmem
  | @cons a a' l l' hitem hrest ih =>
    obtain ⟨item, hin, hnode, hs⟩ := hmem
    rcases List.mem_cons.mp hin with rfl | hin
    · refine ⟨a', .head _, ?_, hitem.2 hs⟩
      rw [← hnode]
      exact congrArg Prod.fst hitem.1
    · obtain ⟨item', hin', h'⟩ := ih ⟨item, hin, hnode, hs⟩
      exact ⟨item', List.mem_cons_of_mem _ hin', h'⟩

end AllKeepSack

/-! ## Sums and sets that bodies determine -/

section Bodies

variable {l l' : List TcpTxItem}

theorem nodes_of_bodies (h : l'.map body = l.map body) : l'.map (·.node) = l.map (·.node) := by
  have hnodes : ∀ items : List TcpTxItem, items.map (·.node) = (items.map body).map (·.1) := by
    intro items
    rw [List.map_map]
    rfl
  rw [hnodes, h, ← hnodes]

theorem forall_of_bodies {P : Nat × SequenceNumber32 × Packet × RateInformation → Prop}
    (h : l'.map body = l.map body) (hl : ∀ item ∈ l, P (body item)) :
    ∀ item ∈ l', P (body item) := by
  intro item hmem
  have hbody : body item ∈ l.map body := h ▸ List.mem_map_of_mem hmem
  obtain ⟨item', hmem', heq⟩ := List.mem_map.mp hbody
  exact heq ▸ hl item' hmem'

theorem flagBytes_of_bodies {flag : TcpTxItem → Bool}
    {p : Nat × SequenceNumber32 × Packet × RateInformation → Bool}
    (hflag : ∀ item, flag item = p (body item)) (h : l'.map body = l.map body) :
    flagBytes flag l' = flagBytes flag l := by
  have hsum : ∀ items : List TcpTxItem, flagBytes flag items =
      tally (fun x : Nat × SequenceNumber32 × Packet × RateInformation => x.2.2.1.length) p
        (items.map body) := by
    intro items
    induction items with
    | nil => rfl
    | cons item rest ih =>
      rw [flagBytes_cons, List.map_cons, tally_cons, ih, hflag]
      rfl
  rw [hsum, h, ← hsum]

end Bodies

variable {b b' : TcpTxBuffer}

namespace TcpTxBuffer

/-! ## Calls that leave the SACK marks -/

/-- The flags were written, and no SACK mark was taken away. -/
structure SameMarks (b b' : TcpTxBuffer) : Prop where
  sentList : AllKeepSack b.sentList b'.sentList
  appList : b'.appList = b.appList
  nextNode : b'.nextNode = b.nextNode

theorem SameMarks.refl (b : TcpTxBuffer) : SameMarks b b := ⟨.refl _, rfl, rfl⟩

theorem SameMarks.trans {b'' : TcpTxBuffer} (h : SameMarks b b') (h' : SameMarks b' b'') :
    SameMarks b b'' where
  sentList := h.sentList.trans h'.sentList
  appList := h'.appList.trans h.appList
  nextNode := h'.nextNode.trans h.nextNode

theorem addRenoSack_sameMarks (h : b.addRenoSack = .ok b') : SameMarks b b' := by
  rcases addRenoSack_cases h with ⟨-, rfl⟩ | ⟨head, before, item, after, hlist, -, -, rfl⟩
  · exact ⟨.refl _, rfl, rfl⟩
  · refine ⟨?_, rfl, rfl⟩
    rw [hlist]
    exact .cons (.refl head) (AllKeepSack.middle ⟨rfl, fun _ => rfl⟩)

theorem deleteRetransmittedFlagFromHead_sameMarks (h : b.deleteRetransmittedFlagFromHead = .ok b') :
    SameMarks b b' := by
  unfold deleteRetransmittedFlagFromHead at h
  split at h
  · rw [pure_eq_ok] at h
    exact h ▸ .refl b
  · split at h
    · cases h
    · rename_i head tail hlist
      split at h
      · rw [pure_eq_ok] at h
        subst h
        refine ⟨?_, rfl, rfl⟩
        rw [hlist]
        exact .cons ⟨rfl, id⟩ (AllKeepSack.refl tail)
      · rw [pure_eq_ok] at h
        exact h ▸ .refl b

theorem markAllLost_keepSack (lostOut : Nat) (l : List TcpTxItem) :
    AllKeepSack l (markAllLost lostOut l).2 := by
  induction l generalizing lostOut with
  | nil => exact .nil
  | cons item rest ih => exact .cons ⟨rfl, id⟩ (ih _)

theorem setSentListLost_sameMarks (h : b.setSentListLost false = .ok b') : SameMarks b b' := by
  unfold setSentListLost at h
  simp only [bind_eq_ok, pure_eq_ok] at h
  obtain ⟨_, _, rfl⟩ := h
  exact ⟨markAllLost_keepSack 0 b.sentList, rfl, rfl⟩

theorem lostWalk_keepSack (dupAckThresh lostOut : Nat) (l : List TcpTxItem) :
    AllKeepSack l (lostWalk dupAckThresh l lostOut).2.2 := by
  induction l with
  | nil => exact .nil
  | cons item rest ih =>
    simp only [lostWalk]
    split
    · exact .cons ⟨rfl, id⟩ ih
    · exact .cons (.refl item) ih

theorem markHeadIfLost_sameMarks {dupAckThresh sacked : Nat}
    (h : markHeadIfLost dupAckThresh sacked b = .ok b') : SameMarks b b' := by
  rcases markHeadIfLost_cases h with ⟨rfl, -⟩ | ⟨-, head, tail, hlist, -, rfl⟩
  · exact .refl b'
  · refine ⟨?_, rfl, rfl⟩
    rw [hlist]
    exact .cons ⟨rfl, id⟩ (AllKeepSack.refl tail)

theorem updateLostCount_sameMarks (h : b.updateLostCount = .ok b') : SameMarks b b' := by
  rcases updateLostCount_cases h with ⟨-, -, hhead⟩ | ⟨node, head, tail, -, hlist, hwalk⟩
  · exact markHeadIfLost_sameMarks hhead
  · rcases hwalk with ⟨-, hhead⟩ | ⟨-, upTo, beyond, hsplit, hhead⟩
    · exact markHeadIfLost_sameMarks hhead
    · obtain ⟨hsent, happ, hnext⟩ := markHeadIfLost_sameMarks hhead
      refine ⟨AllKeepSack.trans ?_ hsent, happ, hnext⟩
      rw [hlist, splitAtNode_append hsplit]
      exact .cons (.refl head) ((lostWalk_keepSack _ _ upTo).append (AllKeepSack.refl beyond))

def Marks (items : List TcpTxItem) (newlySacked : List TcpTxItem) : Prop :=
  ∀ skb ∈ newlySacked, ∃ item ∈ items, item.node = skb.node ∧ item.sacked = true

theorem Marks.keep {l l' newlySacked : List TcpTxItem} (h : Marks l newlySacked)
    (hkeep : AllKeepSack l l') : Marks l' newlySacked :=
  fun skb hskb => hkeep.sacked_nodes (h skb hskb)

variable {l l' : List TcpTxItem} {pass pass' : SackPass}

theorem sackItems_keepSack {block : SackBlock} {start : SequenceNumber32}
    (h : sackItems block start l pass = .ok (l', pass')) :
    AllKeepSack l l' ∧ ∀ skb ∈ pass'.newlySacked, skb ∈ pass.newlySacked ∨
      ∃ item ∈ l', item.node = skb.node ∧ item.sacked = true := by
  induction l generalizing start pass l' pass' with
  | nil =>
    simp only [sackItems, pure_eq_ok, Prod.mk.injEq] at h
    obtain ⟨rfl, rfl⟩ := h
    exact ⟨.nil, fun skb hskb => .inl hskb⟩
  | cons item rest ih =>
    -- an item that stays as it is stands before what the recursion leaves
    have hskip : ∀ {next : SequenceNumber32} {rest' : List TcpTxItem} {pass'' : SackPass},
        sackItems block next rest pass = .ok (rest', pass'') →
        AllKeepSack (item :: rest) (item :: rest') ∧
          ∀ skb ∈ pass''.newlySacked, skb ∈ pass.newlySacked ∨
            ∃ later ∈ item :: rest', later.node = skb.node ∧ later.sacked = true := by
      intro next rest' pass'' hrec
      obtain ⟨hkeep, hmarks⟩ := ih hrec
      refine ⟨.cons (.refl item) hkeep, fun skb hskb => ?_⟩
      rcases hmarks skb hskb with hold | ⟨later, hin, hnode⟩
      · exact .inl hold
      · exact .inr ⟨later, List.mem_cons_of_mem _ hin, hnode⟩
    unfold sackItems at h
    dsimp only at h
    split at h
    · split at h
      · simp only [bind_eq_ok, pure_eq_ok, Prod.mk.injEq] at h
        obtain ⟨_, _, ⟨rest', pass''⟩, hrec, rfl, rfl⟩ := h
        exact hskip hrec
      · simp only [bind_eq_ok, pure_eq_ok, Prod.mk.injEq] at h
        obtain ⟨⟨rest', pass''⟩, hrec, rfl, rfl⟩ := h
        obtain ⟨hkeep, hmarks⟩ := ih hrec
        refine ⟨.cons ⟨rfl, fun _ => rfl⟩ hkeep, fun skb hskb => ?_⟩
        rcases hmarks skb hskb with hold | ⟨later, hin, hnode⟩
        · rcases List.mem_append.mp hold with hold | hnew
          · exact .inl hold
          · rw [List.mem_singleton.mp hnew]
            exact .inr ⟨_, .head _, rfl, rfl⟩
        · exact .inr ⟨later, List.mem_cons_of_mem _ hin, hnode⟩
    · split at h
      · simp only [pure_eq_ok, Prod.mk.injEq] at h
        obtain ⟨rfl, rfl⟩ := h
        exact ⟨.refl _, fun skb hskb => .inl hskb⟩
      · simp only [bind_eq_ok, pure_eq_ok, Prod.mk.injEq] at h
        obtain ⟨⟨rest', pass''⟩, hrec, rfl, rfl⟩ := h
        exact hskip hrec

theorem sackBlocks_keepSack {firstByteSeq firstUnsent : SequenceNumber32} {blocks : List SackBlock}
    {early : Bool} (h : sackBlocks firstByteSeq firstUnsent blocks l pass = .ok (l', pass', early))
    (hmarks : Marks l pass.newlySacked) : AllKeepSack l l' ∧ Marks l' pass'.newlySacked := by
  induction blocks generalizing l pass with
  | nil =>
    simp only [sackBlocks, pure_eq_ok, Prod.mk.injEq] at h
    obtain ⟨rfl, rfl, -⟩ := h
    exact ⟨.refl l, hmarks⟩
  | cons block blocks ih =>
    unfold sackBlocks at h
    split at h
    · simp only [pure_eq_ok, Prod.mk.injEq] at h
      obtain ⟨rfl, rfl, -⟩ := h
      exact ⟨.refl l, hmarks⟩
    · rw [bind_eq_ok] at h
      obtain ⟨⟨items, pass''⟩, hblock, hrest⟩ := h
      obtain ⟨hkeep, hnew⟩ := sackItems_keepSack hblock
      have hmarks' : Marks items pass''.newlySacked := by
        intro skb hskb
        rcases hnew skb hskb with hold | hsacked
        · exact hmarks.keep hkeep skb hold
        · exact hsacked
      obtain ⟨hkeep', hmarks''⟩ := ih hrest hmarks'
      exact ⟨hkeep.trans hkeep', hmarks''⟩

theorem update_sameMarks {list : List SackBlock} {bytesSacked : Nat} {newlySacked : List TcpTxItem}
    (h : b.update list = .ok (b', bytesSacked, newlySacked)) :
    SameMarks b b' ∧ Marks b'.sentList newlySacked := by
  obtain ⟨items, pass, early, hblocks, -, hnewly, hend⟩ := update_cases h
  subst hnewly
  obtain ⟨hkeep, hmarks⟩ := sackBlocks_keepSack hblocks fun skb hskb =>
    absurd hskb List.not_mem_nil
  have hpass : SameMarks b (b.withPass items pass) := ⟨hkeep, rfl, rfl⟩
  rcases hend with ⟨-, rfl⟩ | ⟨-, -, ⟨-, -, hcount⟩ | ⟨-, rfl⟩⟩
  · exact ⟨hpass, hmarks⟩
  · have hcount' := updateLostCount_sameMarks hcount
    exact ⟨hpass.trans hcount', hmarks.keep hcount'.sentList⟩
  · exact ⟨hpass, hmarks⟩

end TcpTxBuffer

/-! ## Edits -/

/-- The nodes of a list and of the items elsewhere differ, and new nodes are new. -/
structure Fresh (others : List Nat) (st : ListState) : Prop where
  nodup : (others ++ st.list.map (·.node)).Nodup
  lt : ∀ node ∈ others ++ st.list.map (·.node), node < st.nextNode

variable {st st' : ListState} {others : List Nat}

theorem Edit.fresh (h : Edit st st') (hfresh : Fresh others st) : Fresh others st' := by
  obtain ⟨hnodup, hlt⟩ := hfresh
  cases h with
  | split before after item size retrans nextNode =>
    have hperm : (others ++ (before ++ (splitItems nextNode item size).1 ::
        (splitItems nextNode item size).2 :: after).map (·.node)).Perm
        (nextNode :: (others ++ (before ++ item :: after).map (·.node))) := by
      rw [List.map_append, List.map_append, ← List.append_assoc, ← List.append_assoc]
      exact List.perm_middle
    have hnew : nextNode ∉ others ++ (before ++ item :: after).map (·.node) :=
      fun hmem => absurd (hlt _ hmem) (Nat.lt_irrefl _)
    refine ⟨hperm.nodup_iff.mpr (List.nodup_cons.mpr ⟨hnew, hnodup⟩), fun node hmem => ?_⟩
    rcases List.mem_cons.mp (hperm.mem_iff.mp hmem) with rfl | hold
    · exact Nat.lt_succ_self _
    · exact Nat.lt_succ_of_lt (hlt _ hold)
  | merge before after t1 t2 merged retrans retrans' nextNode hmerge =>
    obtain ⟨-, -, -, rfl⟩ := mergeItems_eq_ok hmerge
    have hsub : (others ++ (before ++ { t1 with
          retrans := t1.retrans && t2.retrans
          lastSent := if t1.lastSent < t2.lastSent then t2.lastSent else t1.lastSent
          packet := t1.packet.addAtEnd t2.packet } :: after).map (·.node)).Sublist
        (others ++ (before ++ t1 :: t2 :: after).map (·.node)) := by
      rw [List.map_append, List.map_append]
      refine (List.Sublist.refl _).append ((List.Sublist.refl _).append ?_)
      exact ((List.Sublist.refl _).cons _).cons_cons _
    exact ⟨hnodup.sublist hsub, fun node hmem => hlt node (hsub.subset hmem)⟩

theorem Edits.fresh (h : Edits st st') (hfresh : Fresh others st) : Fresh others st' :=
  h.keep (P := Fresh others) (fun _ _ hedit => hedit.fresh) hfresh

namespace TcpTxBuffer

/-! ## Extraction -/

/-- What `CopyFromSequence` found in the sent list. -/
structure Retransmits (now : Time) (b b' : TcpTxBuffer) (seq : SequenceNumber32)
    (found : FoundItem) (skb : TcpTxItem) : Prop where
  extract : ∃ s, Extract true b.firstByteSeq b.firstByteSeq s seq
    ⟨b.sentList, b.retrans, b.nextNode⟩ found
  unsacked : found.item.sacked = false
  item : skb = { found.item with retrans := true, lastSent := now }
  sentList : b'.sentList = found.before ++ skb :: found.after
  appList : b'.appList = b.appList
  nextNode : b'.nextNode = found.nextNode

/-- What `CopyFromSequence` took from the app list. -/
structure SendsNew (now : Time) (b b' : TcpTxBuffer) (found : FoundItem) (skb : TcpTxItem) :
    Prop where
  extract : ∃ s, Extract false b.firstByteSeq b.firstUnsent s b.firstUnsent
    ⟨b.appList, b.retrans, b.nextNode⟩ found
  item : skb =
    { found.item with startSeq := b.firstUnsent, node := found.nextNode, lastSent := now }
  sentList : b'.sentList = b.sentList ++ [skb]
  appList : b'.appList = found.before ++ found.after
  nextNode : b'.nextNode = found.nextNode + 1

variable {skb : TcpTxItem} {now : Time} {seq : SequenceNumber32}

theorem copyFromSequence_hands {numBytes : Nat}
    (h : b.copyFromSequence now numBytes seq = .ok (b', some skb)) :
    ∃ found, Retransmits now b b' seq found skb ∨ SendsNew now b b' found skb := by
  rcases copyFromSequence_cases h with ⟨-, hnone⟩ | ⟨s, b₁, ref, -, -, hseg, hunsacked, hstamp⟩ |
    ⟨s, b₁, ref, hseg, hstamp⟩
  · cases hnone
  · obtain ⟨rfl, hskb⟩ := stampItem_eq_ok hstamp
    unfold getTransmittedSegment at hseg
    simp only [bind_eq_ok, pure_eq_ok, Prod.mk.injEq] at hseg
    obtain ⟨_, _, _, _, _, _, found, hfound, rfl, rfl⟩ := hseg
    cases hskb
    exact ⟨found, .inl ⟨⟨_, getPacketFromList_extract hfound⟩, hunsacked, rfl, rfl, rfl, rfl⟩⟩
  · obtain ⟨rfl, hskb⟩ := stampItem_eq_ok hstamp
    unfold getNewSegment at hseg
    simp only [bind_eq_ok, pure_eq_ok, Prod.mk.injEq] at hseg
    obtain ⟨found, hfound, rfl, rfl⟩ := hseg
    cases hskb
    exact ⟨found, .inr ⟨⟨_, getPacketFromList_extract hfound⟩, rfl, rfl, rfl, rfl⟩⟩

/-! ## The nodes of a buffer -/

def nodes (b : TcpTxBuffer) : List Nat := b.sentList.map (·.node) ++ b.appList.map (·.node)

/-- No two items share a list node, and new nodes are new. -/
structure Distinct (b : TcpTxBuffer) : Prop where
  nodup : b.nodes.Nodup
  lt : ∀ node ∈ b.nodes, node < b.nextNode

section

variable (h : b.Distinct)

include h

theorem Distinct.of_nodes (hnodes : b'.nodes = b.nodes) (hnext : b'.nextNode = b.nextNode) :
    b'.Distinct := by
  constructor
  · rw [hnodes]
    exact h.nodup
  · rw [hnodes, hnext]
    exact h.lt

theorem Distinct.of_sublist (hnodes : b'.nodes.Sublist b.nodes) (hnext : b'.nextNode = b.nextNode) :
    b'.Distinct := by
  refine ⟨h.nodup.sublist hnodes, fun node hmem => ?_⟩
  rw [hnext]
  exact h.lt node (hnodes.subset hmem)

theorem Distinct.of_bodies (hsent : b'.sentList.map body = b.sentList.map body)
    (happ : b'.appList = b.appList) (hnext : b'.nextNode = b.nextNode) : b'.Distinct := by
  refine h.of_nodes ?_ hnext
  rw [nodes, nodes, nodes_of_bodies hsent, happ]

theorem Distinct.sent_nodup : (b.sentList.map (·.node)).Nodup :=
  h.nodup.sublist (List.sublist_append_left _ _)

theorem Distinct.add (p : Packet) : (b.add p).1.Distinct := by
  unfold TcpTxBuffer.add
  split
  · split
    · have hperm : (b.sentList.map (·.node) ++ (b.appList.map (·.node) ++ [b.nextNode])).Perm
          (b.nextNode :: b.nodes) := by
        rw [← List.append_assoc]
        exact List.perm_append_singleton _ _
      have hnew : b.nextNode ∉ b.nodes := fun hmem => absurd (h.lt _ hmem) (Nat.lt_irrefl _)
      constructor
      · rw [nodes, List.map_append]
        exact hperm.nodup_iff.mpr (List.nodup_cons.mpr ⟨hnew, h.nodup⟩)
      · intro node hmem
        rw [nodes, List.map_append] at hmem
        rcases List.mem_cons.mp (hperm.mem_iff.mp hmem) with rfl | hold
        · exact Nat.lt_succ_self _
        · exact Nat.lt_succ_of_lt (h.lt _ hold)
    · exact h
  · exact h

variable {found : FoundItem}

theorem Distinct.retransmits (hsend : Retransmits now b b' seq found skb) : b'.Distinct := by
  obtain ⟨s, hextract⟩ := hsend.extract
  have hcomm : (b.appList.map (·.node) ++ b.sentList.map (·.node)).Perm b.nodes :=
    List.perm_append_comm
  have hfresh : Fresh (b.appList.map (·.node)) ⟨b.sentList, b.retrans, b.nextNode⟩ :=
    ⟨hcomm.nodup_iff.mpr h.nodup, fun node hmem => h.lt node (hcomm.mem_iff.mp hmem)⟩
  obtain ⟨hnodup, hlt⟩ := hextract.edits.fresh hfresh
  have hnodes : b'.sentList.map (·.node) = found.list.map (·.node) := by
    rw [hsend.sentList, hsend.item, ItemRef.list, List.map_append, List.map_append]
    rfl
  have hperm : b'.nodes.Perm (b.appList.map (·.node) ++ found.list.map (·.node)) := by
    rw [nodes, hnodes, hsend.appList]
    exact List.perm_append_comm
  refine ⟨hperm.nodup_iff.mpr hnodup, fun node hmem => ?_⟩
  rw [hsend.nextNode]
  exact hlt node (hperm.mem_iff.mp hmem)

theorem Distinct.sendsNew (hsend : SendsNew now b b' found skb) : b'.Distinct := by
  obtain ⟨s, hextract⟩ := hsend.extract
  have hfresh : Fresh (b.sentList.map (·.node)) ⟨b.appList, b.retrans, b.nextNode⟩ :=
    ⟨h.nodup, h.lt⟩
  obtain ⟨hnodup, hlt⟩ := hextract.edits.fresh hfresh
  have hnode : skb.node = found.nextNode := by rw [hsend.item]
  have hsub : (b.sentList.map (·.node) ++ (found.before ++ found.after).map (·.node)).Sublist
      (b.sentList.map (·.node) ++ found.list.map (·.node)) := by
    refine (List.Sublist.refl _).append (List.Sublist.map _ ?_)
    exact (List.Sublist.refl _).append (List.sublist_cons_self _ _)
  have hperm : b'.nodes.Perm (found.nextNode ::
      (b.sentList.map (·.node) ++ (found.before ++ found.after).map (·.node))) := by
    rw [nodes, hsend.sentList, hsend.appList, List.map_append, List.append_assoc, ← hnode]
    exact List.perm_middle
  have hnew : found.nextNode ∉
      b.sentList.map (·.node) ++ (found.before ++ found.after).map (·.node) :=
    fun hmem => absurd (hlt _ (hsub.subset hmem)) (Nat.lt_irrefl _)
  constructor
  · exact hperm.nodup_iff.mpr (List.nodup_cons.mpr ⟨hnew, hnodup.sublist hsub⟩)
  · intro node hmem
    rw [hsend.nextNode]
    rcases List.mem_cons.mp (hperm.mem_iff.mp hmem) with rfl | hold
    · exact Nat.lt_succ_self _
    · exact Nat.lt_succ_of_lt (hlt _ (hsub.subset hold))

theorem Distinct.resetSentList : b.resetSentList.Distinct := by
  refine h.of_nodes ?_ rfl
  rw [nodes, nodes, TcpTxBuffer.resetSentList, List.map_append, List.map_map]
  rfl

theorem Distinct.resetLastSegmentSent : b.resetLastSegmentSent.Distinct := by
  unfold TcpTxBuffer.resetLastSegmentSent
  split
  · exact h
  · rename_i item hlast
    refine h.of_nodes ?_ rfl
    have hsplit : b.sentList = b.sentList.dropLast ++ [item] :=
      (List.dropLast_append_getLast? item hlast).symm
    rw [nodes, nodes]
    conv_rhs => rw [hsplit, List.map_append, List.append_assoc]
    rfl

theorem Distinct.of_sameMarks (hsame : SameMarks b b') : b'.Distinct :=
  h.of_bodies hsame.sentList.bodies hsame.appList hsame.nextNode

theorem Distinct.markHeadAsLost : b.markHeadAsLost.Distinct := by
  unfold TcpTxBuffer.markHeadAsLost
  split
  · exact h
  · rename_i head tail hlist
    refine h.of_bodies ?_ rfl rfl
    rw [hlist]
    rfl

theorem Distinct.setSentListLost {resetSack : Bool} (hset : b.setSentListLost resetSack = .ok b') :
    b'.Distinct := by
  cases resetSack with
  | false => exact h.of_sameMarks (setSentListLost_sameMarks hset)
  | true =>
    simp only [TcpTxBuffer.setSentListLost, bind_eq_ok, pure_eq_ok] at hset
    obtain ⟨_, _, rfl⟩ := hset
    exact h.of_bodies (List.map_map.trans rfl) rfl rfl

theorem Distinct.copyFromSequence {numBytes : Nat} {result : Option TcpTxItem}
    (hcopy : b.copyFromSequence now numBytes seq = .ok (b', result)) : b'.Distinct := by
  cases result with
  | none =>
    rcases copyFromSequence_cases hcopy with ⟨rfl, -⟩ | ⟨_, _, _, -, -, -, -, hstamp⟩ |
      ⟨_, _, _, -, hstamp⟩
    · exact h
    all_goals cases (stampItem_eq_ok hstamp).2
  | some skb =>
    obtain ⟨found, hsend | hsend⟩ := copyFromSequence_hands hcopy
    · exact h.retransmits hsend
    · exact h.sendsNew hsend

variable {deleted : List TcpTxItem}

theorem Distinct.discardLoop {fuel offset : Nat}
    (hrun : discardLoop now fuel b offset = .ok (b', deleted)) : b'.Distinct := by
  induction fuel generalizing b offset deleted with
  | zero => cases hrun
  | succ fuel ih =>
    obtain ⟨-, rfl, -⟩ | ⟨-, b₁, item, rest, b₂, hfill, hlist, hturn⟩ := discardLoop_cases hrun
    · exact h
    · have hfilled : b₁.Distinct := by
        obtain ⟨-, rfl⟩ | ⟨-, _, hcopy⟩ := fillSentList_cases hfill
        · exact h
        · exact h.copyFromSequence hcopy
      rcases hturn with ⟨-, hremove, _, hrest, -⟩ | ⟨-, rfl, -, hremove⟩
      · refine ih (hfilled.of_sublist ?_ ?_) hrest
        · rw [removeFromCounts_eq_ok hremove, nodes, nodes, hlist]
          exact List.sublist_cons_self _ _
        · rw [removeFromCounts_eq_ok hremove]
          rfl
      · refine hfilled.of_nodes ?_ ?_
        · rw [removeFromCounts_eq_ok hremove, nodes, nodes, hlist]
          rfl
        · rw [removeFromCounts_eq_ok hremove]
          rfl

theorem Distinct.moveSackFromHead (hmove : b.moveSackFromHead = .ok b') : b'.Distinct := by
  obtain ⟨-, rfl⟩ | ⟨head, tail, b₁, hlist, -, -, hsack, rfl⟩ := moveSackFromHead_cases hmove
  · exact h
  · refine Distinct.markHeadAsLost ?_
    refine Distinct.of_sameMarks (h.of_bodies ?_ ?_ ?_) (addRenoSack_sameMarks hsack)
    · rw [hlist]
      rfl
    · rfl
    · rfl

theorem Distinct.discardUpTo (hdiscard : b.discardUpTo now seq = .ok (b', deleted)) :
    b'.Distinct := by
  obtain ⟨-, rfl, -⟩ | ⟨-, b₁, b₂, hloop, hmove, rfl⟩ := discardUpTo_cases hdiscard
  · exact h
  · have hpast := h.discardLoop hloop
    have hmoved := Distinct.moveSackFromHead (by split <;> exact hpast.of_nodes rfl rfl) hmove
    split <;> exact hmoved.of_nodes rfl rfl

/-- **Step lemma.**  No call makes two items share a node. -/
theorem Distinct.step {op : TxOp} (hexec : op.exec b = .ok b') : b'.Distinct := by
  cases op.effect hexec with
  | add p => exact h.add p
  | copyFromSequence hcopy => exact h.copyFromSequence hcopy
  | discardUpTo hdiscard => exact h.discardUpTo hdiscard
  | resetSentList => exact h.resetSentList
  | resetLastSegmentSent => exact h.resetLastSegmentSent
  | update hupdate => exact h.of_sameMarks (update_sameMarks hupdate).1
  | updateLostCount hcount => exact h.of_sameMarks (updateLostCount_sameMarks hcount)
  | markHeadAsLost => exact h.markHeadAsLost
  | addRenoSack hadd => exact h.of_sameMarks (addRenoSack_sameMarks hadd)
  | resetRenoSack => exact h.of_bodies (List.map_map.trans rfl) rfl rfl
  | setSentListLost hset => exact h.setSentListLost hset
  | deleteRetransmittedFlagFromHead hdelete =>
    exact h.of_sameMarks (deleteRetransmittedFlagFromHead_sameMarks hdelete)

end

theorem Starts.distinct {head : SequenceNumber32} (h : b.Starts head) : b.Distinct := by
  constructor
  · rw [nodes, h.sentList, h.appList]
    exact .nil
  · intro node hmem
    rw [nodes, h.sentList, h.appList] at hmem
    cases hmem

end TcpTxBuffer

end Ns3.Tcp
