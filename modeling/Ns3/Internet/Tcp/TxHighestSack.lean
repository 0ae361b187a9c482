/-
  The cached highest SACK.

  The buffer caches an iterator to the last sacked item and the number at which
  that item begins, so that the loss recount need not search for it.  The cache
  is exact in a state when it is what `FindHighestSacked` would return.
-/
import Ns3.Internet.Tcp.TxPlaced
import Ns3.Internet.Tcp.TxScoreboard

namespace Ns3.Tcp

open Ns3.Lib SequenceNumber

/-! ## The last sacked item -/

variable {items after before : List TcpTxItem} {item : TcpTxItem}

def lastSacked (items : List TcpTxItem) : Option TcpTxItem := (items.filter (·.sacked)).getLast?

/-- The cached pointer to an item: its node and where it begins; `end()` and zero
for none. -/
def pointerTo (item : Option TcpTxItem) : Option Nat × SequenceNumber32 :=
  item.elim (none, .ofNat 0) fun item => (some item.node, item.startSeq)

theorem lastSacked_append (l r : List TcpTxItem) :
    lastSacked (l ++ r) = (lastSacked r).or (lastSacked l) := by
  rw [lastSacked, List.filter_append, List.getLast?_append]
  rfl

theorem lastSacked_cons (item : TcpTxItem) (rest : List TcpTxItem) :
    lastSacked (item :: rest) = (lastSacked rest).or (if item.sacked then some item else none) := by
  rw [← List.singleton_append, lastSacked_append]
  cases h : item.sacked <;> simp [lastSacked, h]

theorem lastSacked_eq_none : lastSacked items = none ↔ ∀ item ∈ items, item.sacked = false := by
  rw [lastSacked, List.getLast?_eq_none_iff, List.filter_eq_nil_iff]
  simp

theorem lastSacked_eq_some (h : lastSacked items = some item) :
    ∃ before after, items = before ++ item :: after ∧
      item.sacked = true ∧ ∀ later ∈ after, later.sacked = false := by
  induction items with
  | nil => simp [lastSacked] at h
  | cons first rest ih =>
    rw [lastSacked_cons] at h
    cases hrest : lastSacked rest with
    | some later =>
      rw [hrest, Option.some_or] at h
      obtain ⟨before, after, hlist, hsacked, hafter⟩ := ih (hrest.trans h)
      exact ⟨first :: before, after, by rw [hlist, List.cons_append], hsacked, hafter⟩
    | none =>
      rw [hrest, Option.none_or] at h
      split at h
      · rename_i hsacked
        cases h
        exact ⟨[], rest, rfl, hsacked, lastSacked_eq_none.mp hrest⟩
      · simp at h

theorem lastSacked_of_place (hsacked : item.sacked = true)
    (hafter : ∀ later ∈ after, later.sacked = false) :
    lastSacked (before ++ item :: after) = some item := by
  rw [lastSacked_append, lastSacked_cons, lastSacked_eq_none.mpr hafter, hsacked]
  rfl

variable {start : SequenceNumber32}

theorem findHighestSacked_eq (h : Chain start items) :
    TcpTxBuffer.findHighestSacked start items = pointerTo (lastSacked items) := by
  induction items generalizing start with
  | nil => rfl
  | cons item rest ih =>
    have hrest := ih h.2
    rw [TcpTxBuffer.findHighestSacked, lastSacked_cons, hrest]
    cases hlast : lastSacked rest with
    | some later => simp [pointerTo]
    | none =>
      cases hsacked : item.sacked
      · simp [pointerTo]
      · simp [pointerTo, h.1]

/-! ## The mark on a byte -/

/-- Whether the item that holds byte `k` of the list is sacked. -/
def sackedAt : List TcpTxItem → Nat → Bool
  | [], _ => false
  | item :: rest, k => if k < item.size then item.sacked else sackedAt rest (k - item.size)

theorem sackedAt_append (l r : List TcpTxItem) (k : Nat) :
    sackedAt (l ++ r) k = if k < bytes l then sackedAt l k else sackedAt r (k - bytes l) := by
  induction l generalizing k with
  | nil => simp
  | cons item rest ih =>
    simp only [List.cons_append, sackedAt, ih, bytes_cons]
    by_cases hitem : k < item.size
    · rw [if_pos hitem, if_pos (by omega), if_pos hitem]
    · rw [if_neg hitem, if_neg hitem]
      by_cases hrest : k - item.size < bytes rest
      · rw [if_pos hrest, if_pos (by omega)]
      · rw [if_neg hrest, if_neg (by omega), Nat.sub_add_eq]

theorem sackedAt_item {k : Nat} (hle : bytes before ≤ k) (hlt : k < bytes before + item.size) :
    sackedAt (before ++ item :: after) k = item.sacked := by
  rw [sackedAt_append, if_neg (by omega), sackedAt, if_pos (by omega)]

theorem sackedAt_congr (before mid mid' after : List TcpTxItem) (hbytes : bytes mid' = bytes mid)
    (hmid : ∀ k, k < bytes mid → sackedAt mid' k = sackedAt mid k) (k : Nat) :
    sackedAt (before ++ (mid' ++ after)) k = sackedAt (before ++ (mid ++ after)) k := by
  simp only [sackedAt_append, hbytes]
  split
  · rfl
  · split
    · rename_i hin
      exact hmid _ hin
    · rfl

variable {st st' : ListState}

theorem Edit.sackedAt (h : Edit st st') (k : Nat) :
    sackedAt st'.list k = Tcp.sackedAt st.list k := by
  cases h with
  | split before after item n retrans nextNode =>
    have hsize := splitItems_size_add nextNode item n
    refine sackedAt_congr before [item]
      [(splitItems nextNode item n).1, (splitItems nextNode item n).2] after ?_ ?_ k
    · simpa using hsize
    · intro k hk
      simp only [bytes_cons, bytes_nil, Nat.add_zero] at hk
      simp only [Tcp.sackedAt, if_pos hk]
      split
      · rfl
      · rw [if_pos (by omega)]
        rfl
  | merge before after t1 t2 merged retrans retrans' nextNode hmerge =>
    obtain ⟨hsacked, _, _, hmerged⟩ := mergeItems_eq_ok hmerge
    have hjoin : merged.size = t1.size + t2.size := by
      rw [hmerged, TcpTxItem.size, Packet.length_addAtEnd]
      rfl
    have hflag : merged.sacked = t1.sacked := by rw [hmerged]
    refine sackedAt_congr before [t1, t2] [merged] after ?_ ?_ k
    · simp [hjoin]
    · intro k hk
      simp only [bytes_cons, bytes_nil, Nat.add_zero] at hk
      simp only [Tcp.sackedAt, hjoin, if_pos hk, hflag]
      split
      · rfl
      · rw [if_pos (by omega), hsacked]

theorem Edits.sackedAt (h : Edits st st') (k : Nat) :
    sackedAt st'.list k = Tcp.sackedAt st.list k :=
  h.keep (P := fun s => Tcp.sackedAt s.list k = Tcp.sackedAt st.list k)
    (fun _ _ hedit hst => (hedit.sackedAt k).trans hst) rfl

theorem lastSacked_congr (before mid mid' after : List TcpTxItem)
    (hmid : ∀ item ∈ mid, item.sacked = false) (hmid' : ∀ item ∈ mid', item.sacked = false) :
    lastSacked (before ++ (mid' ++ after)) = lastSacked (before ++ (mid ++ after)) := by
  simp only [lastSacked_append, lastSacked_eq_none.mpr hmid, lastSacked_eq_none.mpr hmid']

theorem Extract.lastSacked {isSentList : Bool} {firstByteSeq base : SequenceNumber32}
    {k numBytes : Nat} {found : FoundItem}
    (h : Extract isSentList firstByteSeq base numBytes (base.add k) st found)
    (hspan : bytes st.list < 2 ^ 31) (hk : k < 2 ^ 31) (hclear : sackedAt st.list k = false) :
    Tcp.lastSacked found.list = Tcp.lastSacked st.list := by
  -- every item the extraction stops at holds the byte `k`
  have hstop : ∀ {st : ListState} {stop : WalkStop}, bytes st.list < 2 ^ 31 →
      sackedAt st.list k = false →
      walkTo isSentList firstByteSeq (base.add k) base st.list = .ok stop →
      st.list = stop.before ++ stop.item :: stop.after ∧ stop.item.sacked = false := by
    intro st stop hspan hclear hwalk
    obtain ⟨hlist, hle, hlt⟩ := walkTo_stop hspan hk hwalk
    refine ⟨hlist, ?_⟩
    rw [hlist, sackedAt_item hle hlt] at hclear
    exact hclear
  induction h with
  | exact hwalk _ _ => rw [(hstop hspan hclear hwalk).1]; rfl
  | @splitEnd st stop hwalk _ _ =>
    obtain ⟨hlist, hitem⟩ := hstop hspan hclear hwalk
    rw [hlist]
    refine lastSacked_congr _ [stop.item] [(splitItems st.nextNode stop.item numBytes).1,
      (splitItems st.nextNode stop.item numBytes).2] _ ?_ ?_
    · simpa using hitem
    · simpa [splitItems] using hitem
  | short hwalk _ _ _ => rw [(hstop hspan hclear hwalk).1]; rfl
  | @merge st stop next merged rest retrans found hwalk _ hnext hmerge _ ih =>
    obtain ⟨hlist, hitem⟩ := hstop hspan hclear hwalk
    have hedit : Edit st { st with list := stop.before ++ merged :: rest, retrans } := by
      have hst : st = ⟨stop.before ++ stop.item :: next :: rest, st.retrans, st.nextNode⟩ := by
        rw [← hnext, ← hlist]
      rw [hst]
      exact .merge _ _ _ _ _ _ _ _ hmerge
    rw [ih (by rw [hedit.bytes_eq]; exact hspan) (by rw [hedit.sackedAt]; exact hclear), hlist,
      hnext]
    obtain ⟨hsacked, _, _, rfl⟩ := mergeItems_eq_ok hmerge
    refine lastSacked_congr _ [stop.item, next] [_] _ ?_ ?_
    · simp [hitem, ← hsacked]
    · simp [hitem]
  | @splitStart st stop found hwalk _ _ ih =>
    obtain ⟨hlist, hitem⟩ := hstop hspan hclear hwalk
    have hedit : Edit st { st with
        list := stop.before
          ++ (splitItems st.nextNode stop.item
            ((base.add k).distance stop.beginOfCurrentPacket)).1
          :: (splitItems st.nextNode stop.item
            ((base.add k).distance stop.beginOfCurrentPacket)).2 :: stop.after
        nextNode := st.nextNode + 1 } := by
      have hst : st = ⟨stop.before ++ stop.item :: stop.after, st.retrans, st.nextNode⟩ := by
        rw [← hlist]
      rw [hst]
      exact .split ..
    rw [ih (by rw [hedit.bytes_eq]; exact hspan) (by rw [hedit.sackedAt]; exact hclear), hlist]
    refine lastSacked_congr _ [stop.item] [_, _] _ ?_ ?_
    · simpa using hitem
    · simpa [splitItems] using hitem

namespace TcpTxBuffer

/-! ## The cache -/

variable {b b' : TcpTxBuffer}

/-- The cache is exact, in a placed buffer whose head and unsent items are not
sacked. -/
structure HighestExact (b : TcpTxBuffer) : Prop where
  placed : Placed b
  app_unsacked : ∀ item ∈ b.appList, item.sacked = false
  head_unsacked : ∀ head ∈ b.sentList.head?, head.sacked = false
  cache : b.highestSack = pointerTo (lastSacked b.sentList)
  seen : b.sackSeen = (lastSacked b.sentList).isSome

def mark (item : TcpTxItem) : Nat × SequenceNumber32 × Bool :=
  (item.node, item.startSeq, item.sacked)

variable {l r : List TcpTxItem}

theorem lastSacked_marks (h : l.map mark = r.map mark) :
    pointerTo (lastSacked l) = pointerTo (lastSacked r) ∧
      (lastSacked l).isSome = (lastSacked r).isSome := by
  have hmarks : ∀ items : List TcpTxItem,
      (lastSacked items).map mark = ((items.map mark).filter (·.2.2)).getLast? := by
    intro items
    rw [List.filter_map, List.getLast?_map]
    rfl
  have hsame : (lastSacked l).map mark = (lastSacked r).map mark := by
    rw [hmarks l, hmarks r, h]
  cases hl : lastSacked l with
  | none =>
    cases hr : lastSacked r with
    | none => exact ⟨rfl, rfl⟩
    | some => simp [hl, hr] at hsame
  | some item =>
    cases hr : lastSacked r with
    | none => simp [hl, hr] at hsame
    | some item' =>
      rw [hl, hr] at hsame
      simp only [Option.map_some, Option.some.injEq, mark, Prod.mk.injEq] at hsame
      exact ⟨by simp [pointerTo, hsame.1, hsame.2.1], rfl⟩

/-- **Mark rule.**  A method that moves no mark keeps the cache exact if it leaves it alone. -/
theorem HighestExact.of_marks (h : HighestExact b) (hplaced : Placed b')
    (happ : b'.appList = b.appList) (hmarks : b'.sentList.map mark = b.sentList.map mark)
    (hcache : b'.highestSack = b.highestSack) (hseen : b'.sackSeen = b.sackSeen) :
    HighestExact b' := by
  obtain ⟨hpointer, hsome⟩ := lastSacked_marks hmarks
  refine ⟨hplaced, by rw [happ]; exact h.app_unsacked, ?_, ?_, ?_⟩
  · have hheads : b'.sentList.head?.map mark = b.sentList.head?.map mark := by
      rw [← List.head?_map, ← List.head?_map, hmarks]
    intro head hhead
    rw [Option.mem_def] at hhead
    rw [hhead] at hheads
    cases hb : b.sentList.head? with
    | none => simp [hb] at hheads
    | some first =>
      have hfirst := h.head_unsacked first hb
      simp only [hb, Option.map_some, Option.some.injEq, mark, Prod.mk.injEq] at hheads
      rw [hheads.2.2, hfirst]
  · rw [hcache, h.cache, hpointer]
  · rw [hseen, h.seen, hsome]

theorem HighestExact.of_unsacked (hplaced : Placed b)
    (happ : ∀ item ∈ b.appList, item.sacked = false)
    (hsent : ∀ item ∈ b.sentList, item.sacked = false) (hcache : b.highestSack = (none, .ofNat 0))
    (hseen : b.sackSeen = false) : HighestExact b := by
  have hnone := lastSacked_eq_none.mpr hsent
  refine ⟨hplaced, happ, ?_, ?_, ?_⟩
  · exact fun head hhead => hsent head (List.mem_of_head? hhead)
  · rw [hcache, hnone]
    rfl
  · rw [hseen, hnone]
    rfl

theorem Starts.highestExact (h : b.Starts start) (hmax : b.maxBuffer < 2 ^ 31) :
    HighestExact b := by
  refine .of_unsacked (h.placed hmax) ?_ ?_ h.highestSack h.sackSeen
  · simp [h.appList]
  · simp [h.sentList]

/-! ## Methods that move no mark, or all of them -/

theorem HighestExact.markHeadAsLost (h : HighestExact b) : HighestExact b.markHeadAsLost := by
  have hplaced := h.placed.of_samePlaces (markHeadAsLost_samePlaces b)
  unfold TcpTxBuffer.markHeadAsLost at hplaced ⊢
  split
  · exact h
  · rename_i head tail hlist
    have hhead := h.head_unsacked head (by simp [hlist])
    simp only [hlist] at hplaced
    refine h.of_marks hplaced rfl ?_ rfl rfl
    simp [hlist, mark, hhead]

theorem HighestExact.deleteRetransmittedFlagFromHead (h : HighestExact b)
    (hrun : b.deleteRetransmittedFlagFromHead = .ok b') : HighestExact b' := by
  have hplaced := h.placed.of_samePlaces (deleteRetransmittedFlagFromHead_samePlaces hrun)
  unfold TcpTxBuffer.deleteRetransmittedFlagFromHead at hrun
  split at hrun
  · rw [pure_eq_ok] at hrun
    exact hrun ▸ h
  · split at hrun
    · simp at hrun
    · rename_i head tail hlist
      split at hrun
      · rw [pure_eq_ok] at hrun
        subst hrun
        refine h.of_marks hplaced rfl ?_ rfl rfl
        simp [hlist, mark]
      · rw [pure_eq_ok] at hrun
        exact hrun ▸ h

theorem HighestExact.resetRenoSack (h : HighestExact b) : HighestExact b.resetRenoSack := by
  refine .of_unsacked (h.placed.of_samePlaces (resetRenoSack_samePlaces b)) h.app_unsacked ?_
    rfl rfl
  intro item hmem
  obtain ⟨item', _, rfl⟩ := List.mem_map.mp hmem
  rfl

theorem markAllLost_marks (lost : Nat) (l : List TcpTxItem) :
    (markAllLost lost l).2.map mark = l.map mark := by
  induction l generalizing lost with
  | nil => rfl
  | cons item rest ih =>
    simp only [markAllLost, List.map_cons, ih]
    rfl

theorem HighestExact.setSentListLost {resetSack : Bool} (h : HighestExact b)
    (hrun : b.setSentListLost resetSack = .ok b') : HighestExact b' := by
  have hplaced := h.placed.of_samePlaces (setSentListLost_samePlaces hrun)
  unfold TcpTxBuffer.setSentListLost at hrun
  simp only [bind_eq_ok, pure_eq_ok] at hrun
  obtain ⟨_, _, rfl⟩ := hrun
  cases resetSack with
  | true =>
    refine .of_unsacked hplaced h.app_unsacked ?_ rfl rfl
    intro item hmem
    obtain ⟨item', _, rfl⟩ := List.mem_map.mp hmem
    rfl
  | false => exact h.of_marks hplaced rfl (markAllLost_marks 0 b.sentList) rfl rfl

theorem HighestExact.resetSentList (h : HighestExact b) : HighestExact b.resetSentList := by
  refine .of_unsacked h.placed.resetSentList ?_ ?_ rfl rfl
  · intro item hmem
    rcases List.mem_append.mp hmem with hsent | happ
    · obtain ⟨item', _, rfl⟩ := List.mem_map.mp hsent
      rfl
    · exact h.app_unsacked item happ
  · exact List.forall_mem_nil _

theorem HighestExact.add (h : HighestExact b) (p : Packet) : HighestExact (b.add p).1 := by
  have hplaced := h.placed.add p
  have hsame : (b.add p).1.sentList = b.sentList ∧ (b.add p).1.highestSack = b.highestSack ∧
      (b.add p).1.sackSeen = b.sackSeen ∧
      ∀ item ∈ (b.add p).1.appList, item.sacked = false := by
    unfold TcpTxBuffer.add
    split
    · split
      · refine ⟨rfl, rfl, rfl, ?_⟩
        intro item hmem
        rcases List.mem_append.mp hmem with hold | hnew
        · exact h.app_unsacked item hold
        · obtain rfl := List.mem_singleton.mp hnew
          rfl
      · exact ⟨rfl, rfl, rfl, h.app_unsacked⟩
    · exact ⟨rfl, rfl, rfl, h.app_unsacked⟩
  obtain ⟨hsent, hcache, hseen, happ⟩ := hsame
  refine ⟨hplaced, happ, ?_, ?_, ?_⟩
  · rw [hsent]
    exact h.head_unsacked
  · rw [hcache, hsent, h.cache]
  · rw [hseen, hsent, h.seen]

theorem marks_of_unlost (h : l.map unlost = r.map unlost) : l.map mark = r.map mark := by
  have hmark : ∀ items : List TcpTxItem, items.map mark = (items.map unlost).map mark := by
    intro items
    rw [List.map_map]
    rfl
  rw [hmark l, hmark r, h]

theorem HighestExact.updateLostCount (h : HighestExact b) (hrun : b.updateLostCount = .ok b') :
    HighestExact b' := by
  obtain ⟨hcache, hseen, happ⟩ := updateLostCount_frame hrun
  exact h.of_marks (h.placed.of_samePlaces (updateLostCount_samePlaces hrun)) happ
    (marks_of_unlost (updateLostCount_unlost hrun)) hcache hseen

/-! ## Extraction -/

variable {result : Option TcpTxItem}

theorem sackedAt_zero (hne : Nonempty items) :
    sackedAt items 0 = false ↔ ∀ head ∈ items.head?, head.sacked = false := by
  cases items with
  | nil => simp [sackedAt]
  | cons head tail =>
    have hpos := (nonempty_cons.mp hne).1
    simp [sackedAt, hpos]

variable {now : Time} {seq : SequenceNumber32} {b₁ : TcpTxBuffer}

theorem HighestExact.getTransmittedSegment {s : Nat} {ref : ItemRef} (h : HighestExact b)
    (hplaced : Placed b') (hpos : 0 < s) (hoff : pos b.firstByteSeq seq ≤ b.sentSize)
    (hs : s ≤ b.sizeFromSequence seq) (hseg : b.getTransmittedSegment s seq = .ok (b₁, ref))
    (hclear : ref.item.sacked = false) (hstamp : stampItem now b₁ ref = .ok (b', result)) :
    HighestExact b' := by
  obtain ⟨data, hholds⟩ := h.placed.holds
  have hlen := hholds.length_eq
  have hsent := hholds.sentSize_le
  have hlt := h.placed.size_lt
  have hbytes := h.placed.bytes_eq
  obtain ⟨rfl, _⟩ := stampItem_eq_ok hstamp
  unfold TcpTxBuffer.getTransmittedSegment at hseg
  simp only [bind_eq_ok, pure_eq_ok, Prod.mk.injEq] at hseg
  obtain ⟨_, _, _, _, _, _, found, hfound, rfl, rfl⟩ := hseg
  have hfrom : b.sizeFromSequence seq = b.size - pos b.firstByteSeq seq := by
    have hsize := hholds.sizeFromSequence_eq (by omega)
      (show pos b.firstByteSeq seq ≤ b.size by omega)
    rwa [add_pos] at hsize
  have hext := getPacketFromList_extract hfound
  rw [← add_pos b.firstByteSeq seq] at hext
  have hsz := retransmitSize_le (b.firstByteSeq.add (pos b.firstByteSeq seq)) s b.sentList
  obtain ⟨_, hbefore, hitem, _⟩ := hext.position (by dsimp only; omega) (by omega)
    (retransmitSize_pos hpos h.placed.nonempty (by omega))
    ⟨h.placed.nonempty, fun _ => h.placed.chain⟩
  -- the bytes asked for are not sacked, so no sacked item is edited
  have hbyte : ∀ k, sackedAt found.list k = sackedAt b.sentList k := hext.edits.sackedAt
  have hunsacked : sackedAt b.sentList (pos b.firstByteSeq seq) = false := by
    rw [← hbyte]
    exact (sackedAt_item hbefore.le (by omega)).trans hclear
  have hlast : lastSacked found.list = lastSacked b.sentList :=
    hext.lastSacked (by dsimp only; omega) (by omega) hunsacked
  have hfoundPlaced : Placed (b.withRef found.toItemRef) := by
    refine hplaced.of_samePlaces ⟨?_, rfl, rfl, rfl, rfl, rfl⟩
    simp [withRef, ItemRef.list, place]
  have hexact : HighestExact (b.withRef found.toItemRef) := by
    refine ⟨hfoundPlaced, h.app_unsacked, ?_, ?_, ?_⟩
    · rw [← sackedAt_zero hfoundPlaced.nonempty]
      exact (hbyte 0).trans ((sackedAt_zero h.placed.nonempty).mpr h.head_unsacked)
    · exact h.cache.trans (congrArg pointerTo hlast.symm)
    · exact h.seen.trans (congrArg Option.isSome hlast.symm)
  refine hexact.of_marks hplaced rfl ?_ rfl rfl
  simp [withRef, ItemRef.list, mark]

theorem HighestExact.getNewSegment {s : Nat} {ref : ItemRef} (h : HighestExact b)
    (hplaced : Placed b') (hseg : b.getNewSegment s = .ok (b₁, ref))
    (hstamp : stampItem now b₁ ref = .ok (b', result)) : HighestExact b' := by
  obtain ⟨rfl, _⟩ := stampItem_eq_ok hstamp
  unfold TcpTxBuffer.getNewSegment at hseg
  simp only [bind_eq_ok, pure_eq_ok, Prod.mk.injEq] at hseg
  obtain ⟨found, hfound, rfl, rfl⟩ := hseg
  have hclear := (getPacketFromList_extract hfound).edits.unsacked h.app_unsacked
  have hitem : found.item.sacked = false :=
    hclear found.item (by simp [FoundItem.state, ItemRef.list])
  have hlast : ∀ item : TcpTxItem, item.sacked = false →
      lastSacked (b.sentList ++ [item]) = lastSacked b.sentList := by
    intro item hsacked
    rw [lastSacked_append, lastSacked_eq_none.mpr (by simpa using hsacked), Option.none_or]
  refine ⟨hplaced, ?_, ?_, ?_, ?_⟩
  · intro item hmem
    refine hclear item ?_
    simp only [withRef, FoundItem.state, ItemRef.list, List.mem_append, List.mem_cons] at hmem ⊢
    exact hmem.imp id .inr
  · intro head hhead
    cases hlist : b.sentList with
    | nil =>
      obtain rfl : _ = head := by simpa [withRef, ItemRef.list, hlist] using hhead
      exact hitem
    | cons first rest =>
      obtain rfl : first = head := by simpa [withRef, ItemRef.list, hlist] using hhead
      exact h.head_unsacked first (by simp [hlist])
  · refine h.cache.trans (congrArg pointerTo (hlast _ ?_).symm)
    exact hitem
  · refine h.seen.trans (congrArg Option.isSome (hlast _ ?_).symm)
    exact hitem

theorem HighestExact.copyFromSequence {numBytes : Nat} (h : HighestExact b)
    (hrun : b.copyFromSequence now numBytes seq = .ok (b', result)) : HighestExact b' := by
  have hplaced := h.placed.copyFromSequence hrun
  obtain ⟨rfl, _⟩ | ⟨s, b₁, ref, hpos, hs, hseg, hclear, hstamp⟩ | ⟨s, b₁, ref, hseg, hstamp⟩ :=
    copyFromSequence_cases hrun
  · exact h
  · rw [(stampItem_eq_ok hstamp).2] at hrun
    have hoff := copyFromSequence_offset h.placed hrun
    exact h.getTransmittedSegment hplaced hpos hoff hs hseg hclear hstamp
  · exact h.getNewSegment hplaced hseg hstamp

/-! ## SACK emulation -/

def noSackAfterGap : List TcpTxItem → Bool
  | [] => true
  | item :: rest => if item.sacked then noSackAfterGap rest else rest.all (!·.sacked)

theorem noSackAfterGap_eq (hbefore : ∀ sacked ∈ before, sacked.sacked = true)
    (hclear : item.sacked = false) :
    noSackAfterGap (before ++ item :: after) = after.all (!·.sacked) := by
  induction before with
  | nil => simp [noSackAfterGap, hclear]
  | cons head rest ih =>
    rw [List.cons_append, noSackAfterGap, if_pos (hbefore head (.head _))]
    exact ih fun sacked hmem => hbefore sacked (.tail _ hmem)

theorem HighestExact.addRenoSack (h : HighestExact b) (hgap : noSackAfterGap b.sentList.tail = true)
    (hrun : b.addRenoSack = .ok b') : HighestExact b' := by
  have hplaced := h.placed.of_samePlaces (addRenoSack_samePlaces hrun)
  obtain ⟨_, rfl⟩ | ⟨head, before, item, after, hlist, hbefore, hclear, rfl⟩ :=
    addRenoSack_cases hrun
  · exact ⟨hplaced, h.app_unsacked, h.head_unsacked, h.cache, h.seen⟩
  · rw [hlist, List.tail_cons, noSackAfterGap_eq hbefore hclear] at hgap
    have hafter : ∀ later ∈ after, later.sacked = false := by simpa using hgap
    have hlast : lastSacked (head :: (before ++ { item with sacked := true } :: after))
        = some { item with sacked := true } := by
      rw [← List.cons_append]
      exact lastSacked_of_place rfl hafter
    refine ⟨hplaced, h.app_unsacked, ?_, ?_, ?_⟩
    · intro first hfirst
      obtain rfl : head = first := by simpa using hfirst
      exact h.head_unsacked head (by simp [hlist])
    · exact (congrArg pointerTo hlast).symm
    · exact (congrArg Option.isSome hlast).symm

end TcpTxBuffer

end Ns3.Tcp
