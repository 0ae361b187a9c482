/-
  The cached highest SACK under cumulative
  acknowledgments.

  An acknowledgment drops items at the front.  When the cached item goes with
  them, or is left as a sacked head, the cache is stale until the comparison at
  the end of `DiscardUpTo` clears it.
-/
import Ns3.Internet.Tcp.TxHighestSack

namespace Ns3.Tcp

open Ns3.Lib SequenceNumber

namespace TcpTxBuffer

/-! ## What the loop leaves -/

variable {b : TcpTxBuffer} {deleted : List TcpTxItem}

theorem remaining_gone (l : List TcpTxItem) (size offset : Nat) :
    ∃ gone, l = gone ++ remaining l size offset ∧ bytes gone ≤ offset := by
  induction l generalizing size offset with
  | nil => exact ⟨[], rfl, Nat.zero_le _⟩
  | cons item rest ih =>
    rw [remaining]
    split
    · rename_i hgo
      obtain ⟨gone, hrest, hbytes⟩ := ih (size - item.size) (offset - item.size)
      refine ⟨item :: gone, ?_, ?_⟩
      · rw [List.cons_append, ← hrest]
      · rw [bytes_cons]
        omega
    · exact ⟨[], rfl, Nat.zero_le _⟩

/-- The sent list after an acknowledgment: its head is the first item that is left,
perhaps cut, or nothing that was sent is left and no mark either. -/
def Leaves (left sent : List TcpTxItem) : Prop :=
  (∃ head head' tail, left = head :: tail ∧ sent = head' :: tail ∧ head'.sacked = head.sacked) ∨
    (left = [] ∧ ∀ item ∈ sent, item.sacked = false)

theorem Leaves.refl (l : List TcpTxItem) : Leaves l l := by
  cases l with
  | nil => exact .inr ⟨rfl, List.forall_mem_nil _⟩
  | cons head tail => exact .inl ⟨head, head, tail, rfl, rfl, rfl⟩

variable {b' : TcpTxBuffer} {now : Time}

theorem discardLoop_leaves {fuel : Nat} {offset : Nat} (h : Placed b)
    (happ : ∀ item ∈ b.appList, item.sacked = false)
    (hrun : discardLoop now fuel b offset = .ok (b', deleted)) :
    SameCache b b' ∧ (∀ item ∈ b'.appList, item.sacked = false) ∧
      Leaves (remaining b.sentList b.size offset) b'.sentList := by
  induction fuel generalizing b offset deleted with
  | zero => simp [discardLoop] at hrun
  | succ fuel ih =>
    have hrun' := hrun
    obtain ⟨hstop, rfl, _⟩ | ⟨hgo, b₁, item, rest, b₂, hfill, hlist, hturn⟩ :=
      discardLoop_cases hrun
    · rw [remaining_stop hstop]
      exact ⟨⟨rfl, rfl⟩, happ, .refl _⟩
    · obtain ⟨_, rfl⟩ | ⟨hempty, _⟩ := fillSentList_cases hfill
      · obtain ⟨data, hholds⟩ := h.holds
        have hlen : data.length < 2 ^ 31 := by
          rw [hholds.length_eq]
          exact h.size_lt
        have hsizes := hholds.size_eq
        rw [hlist, bytes_cons] at hsizes
        have hsub : wsub 32 b₁.size item.size = b₁.size - item.size :=
          wsub_eq (by have := h.size_lt; omega) (by omega)
        obtain ⟨hwhole, hremove, deleted', hrec, _⟩ | ⟨hpart, rfl, _, hremove⟩ := hturn
        · obtain ⟨hsent, happ', hsize, hcache, hseen⟩ := advance_eq hremove
          have hholds' := (hholds.advanceWhole hlen hlist).of_samePlaces
            (removeFromCounts_samePlaces hremove)
          have hmax : b₂.maxBuffer = b₁.maxBuffer :=
            (removeFromCounts_samePlaces hremove).maxBuffer
          have hplaced : Placed b₂ := by
            refine ⟨⟨_, hholds'⟩, ?_, ?_⟩
            · rw [hsize, hsub, hmax]
              have := h.size_le
              omega
            · rw [hmax]
              exact h.max_lt
          obtain ⟨hcache', hunsent, hleaves⟩ :=
            ih hplaced (by rw [happ']; exact happ) hrec
          refine ⟨⟨hcache'.1.trans hcache, hcache'.2.trans hseen⟩, hunsent, ?_⟩
          rw [hsent, hsize, hsub] at hleaves
          rw [hlist, remaining, if_pos ⟨hgo.1, hgo.2, hwhole⟩]
          exact hleaves
        · obtain ⟨hsent, happ', _, hcache⟩ := advance_eq hremove
          refine ⟨hcache, by rw [happ']; exact happ, ?_⟩
          rw [hsent, hlist, remaining, if_neg (by omega)]
          exact .inl ⟨item, cutFront item offset, rest, rfl, rfl, rfl⟩
      · -- nothing sent is left: what is moved in carries no mark
        have hunmarked : Unmarked b := ⟨by simp [hempty], happ⟩
        obtain ⟨hclear, hcache⟩ := discardLoop_unmarked hunmarked hrun'
        refine ⟨hcache, hclear.app, .inr ⟨?_, hclear.sent⟩⟩
        rw [hempty, remaining]

/-! ## The stale cache -/

variable {tail : List TcpTxItem}

theorem startSeq_of_chain {start : SequenceNumber32} {before after : List TcpTxItem}
    {item : TcpTxItem} (h : Chain start (before ++ item :: after)) :
    item.startSeq = start.add (bytes before) :=
  (chain_append.mp h).2.1

/-- The cache is empty, or points at an item the acknowledgment has reached. -/
def Stale (b : TcpTxBuffer) (head : SequenceNumber32) : Prop :=
  (b.highestSack = (none, .ofNat 0) ∧ b.sackSeen = false) ∨ b.highestSack.2.le head = true

variable {front : List TcpTxItem}

theorem HighestExact.stale {n : Nat} {head : SequenceNumber32} (h : HighestExact b)
    (hlist : b.sentList = front ++ tail) (htail : lastSacked tail = none)
    (hhead : pos b.firstByteSeq head ≤ 2 ^ 31) (hn : n ≤ pos b.firstByteSeq head)
    (hfront : ∀ before item after, front = before ++ item :: after → bytes before ≤ n) :
    b.Stale head := by
  have hlast : lastSacked b.sentList = lastSacked front := by
    rw [hlist, lastSacked_append, htail, Option.none_or]
  cases hfrontLast : lastSacked front with
  | none =>
    rw [hfrontLast] at hlast
    refine .inl ⟨?_, ?_⟩
    · rw [h.cache, hlast]
      rfl
    · rw [h.seen, hlast]
      rfl
  | some item =>
    rw [hfrontLast] at hlast
    obtain ⟨before, after, hplace, hsacked, _⟩ := lastSacked_eq_some hfrontLast
    have hle := hfront before item after hplace
    have hchain := h.placed.chain
    have hbytes := h.placed.bytes_eq
    have hlt := h.placed.sentSize_lt
    rw [hlist, hplace, List.append_assoc, List.cons_append] at hchain hbytes
    have hstart := startSeq_of_chain hchain
    rw [bytes_append, bytes_cons] at hbytes
    have hpos : pos b.firstByteSeq item.startSeq = bytes before := by
      rw [hstart]
      exact pos_base_add (by omega)
    -- the head is not sacked, so the item begins behind it
    have hbefore : 0 < bytes before := by
      cases before with
      | nil =>
        have hclear := h.head_unsacked item (by simp [hlist, hplace])
        simp [hclear] at hsacked
      | cons first rest =>
        have hne := h.placed.nonempty
        rw [hlist, hplace, List.cons_append, List.cons_append] at hne
        have hfirst := (nonempty_cons.mp hne).1
        rw [bytes_cons]
        omega
    refine .inr ?_
    rw [h.cache, hlast]
    have hnear : Near b.firstByteSeq item.startSeq head := ⟨by omega, by omega⟩
    exact (le_iff hnear).mpr (by omega)

theorem HighestExact.of_reset (hplaced : Placed b) (happ : ∀ item ∈ b.appList, item.sacked = false)
    (hhead : ∀ head ∈ b.sentList.head?, head.sacked = false)
    (hcache :
      (∃ item, lastSacked b.sentList = some item ∧ b.highestSack = pointerTo (some item) ∧
        b.sackSeen = true) ∨
      (lastSacked b.sentList = none ∧ b.Stale b.firstByteSeq)) :
    HighestExact (if b.highestSack.2.le b.firstByteSeq then
      { b with sackSeen := false, highestSack := (none, .ofNat 0) } else b) := by
  obtain ⟨item, hlast, hpointer, hseen⟩ | ⟨hnone, hstale⟩ := hcache
  · obtain ⟨before, after, hlist, hsacked, _⟩ := lastSacked_eq_some hlast
    have hchain := hplaced.chain
    have hbytes := hplaced.bytes_eq
    have hlt := hplaced.sentSize_lt
    have hne := hplaced.nonempty
    rw [hlist] at hchain hbytes hne
    have hstart := startSeq_of_chain hchain
    rw [bytes_append, bytes_cons] at hbytes
    have hbefore : 0 < bytes before := by
      cases before with
      | nil =>
        have hclear := hhead item (by simp [hlist])
        simp [hclear] at hsacked
      | cons first rest =>
        have hfirst := (nonempty_cons.mp hne).1
        rw [bytes_cons]
        omega
    have hpos : pos b.firstByteSeq item.startSeq = bytes before := by
      rw [hstart]
      exact pos_base_add (by omega)
    have hahead : ¬b.highestSack.2.le b.firstByteSeq = true := by
      have hnear : Near b.firstByteSeq item.startSeq b.firstByteSeq :=
        near_of_lt (by omega) (by rw [pos_self]; omega)
      rw [hpointer]
      change ¬item.startSeq.le b.firstByteSeq = true
      rw [le_iff hnear, pos_self]
      omega
    rw [if_neg hahead]
    exact ⟨hplaced, happ, hhead, by rw [hpointer, hlast], by rw [hseen, hlast]; rfl⟩
  · have hclear := lastSacked_eq_none.mp hnone
    split
    · exact .of_unsacked (hplaced.of_samePlaces ⟨rfl, rfl, rfl, rfl, rfl, rfl⟩) happ hclear rfl rfl
    · rename_i hahead
      obtain ⟨hempty, hseen⟩ | hreached := hstale
      · exact .of_unsacked hplaced happ hclear hempty hseen
      · exact absurd hreached hahead

/-! ## `DiscardUpTo` -/

def headSackLast : List TcpTxItem → Bool
  | [] => true
  | head :: tail => !head.sacked || noSackAfterGap tail

/-- The acknowledgment leaves no sacked head whose mark would move below another
sacked item. -/
def discardKeepsHighest (b : TcpTxBuffer) (seq : SequenceNumber32) : Bool :=
  b.firstByteSeq.ge seq ||
    headSackLast (remaining b.sentList b.size (seq.distance b.firstByteSeq))

theorem moveSackFromHead_cache {head : TcpTxItem}
    (hlist : b.sentList = head :: tail) (hlast : headSackLast b.sentList = true)
    (hcache :
      (∃ item, lastSacked tail = some item ∧ b.highestSack = pointerTo (some item) ∧
        b.sackSeen = true) ∨
      (lastSacked tail = none ∧ b.Stale b.firstByteSeq))
    (hrun : b.moveSackFromHead = .ok b') :
    b'.appList = b.appList ∧ (∀ first ∈ b'.sentList.head?, first.sacked = false) ∧
      ((∃ item, lastSacked b'.sentList = some item ∧ b'.highestSack = pointerTo (some item) ∧
          b'.sackSeen = true) ∨
        (lastSacked b'.sentList = none ∧ b'.Stale b'.firstByteSeq)) := by
  obtain ⟨hclear, rfl⟩ | ⟨head', tail', b₁, hlist', hsacked, _, hsack, rfl⟩ :=
    moveSackFromHead_cases hrun
  · have hhead := hclear head (by simp [hlist])
    have htail : lastSacked b'.sentList = lastSacked tail := by
      rw [hlist, lastSacked_cons, hhead]
      exact Option.or_none
    exact ⟨rfl, hclear, by rw [htail]; exact hcache⟩
  · rw [hlist] at hlist'
    obtain ⟨rfl, rfl⟩ := List.cons.inj hlist'
    have hgap : noSackAfterGap tail = true := by
      simpa [hlist, headSackLast, hsacked] using hlast
    -- the head is marked lost and stays unsacked, so only the items behind it count
    have hmarked : ∀ {b : TcpTxBuffer} {first : TcpTxItem} {rest : List TcpTxItem},
        b.sentList = first :: rest →
        b.markHeadAsLost.appList = b.appList ∧
        b.markHeadAsLost.highestSack = b.highestSack ∧
        b.markHeadAsLost.sackSeen = b.sackSeen ∧
        b.markHeadAsLost.firstByteSeq = b.firstByteSeq ∧
        (∀ first ∈ b.markHeadAsLost.sentList.head?, first.sacked = false) ∧
        lastSacked b.markHeadAsLost.sentList = lastSacked rest := by
      intro b first rest hcons
      have hsame := (markHeadAsLost_samePlaces b).firstByteSeq
      unfold TcpTxBuffer.markHeadAsLost at hsame ⊢
      split
      · rename_i hnil
        simp [hnil] at hcons
      · rename_i first' rest' hlist''
        rw [hcons] at hlist''
        obtain ⟨rfl, rfl⟩ := List.cons.inj hlist''
        refine ⟨rfl, rfl, rfl, rfl, ?_, ?_⟩
        · intro marked hmem
          cases hmem
          rfl
        · rw [lastSacked_cons]
          exact Option.or_none
    obtain ⟨_, rfl⟩ | ⟨first, before, item, after, hfirst, hbefore, hclear, rfl⟩ :=
      addRenoSack_cases hsack
    · obtain ⟨happ, hpointer, hseen, hfirstByte, hhead, hrest⟩ := hmarked (b := { b with
        sentList := { head with sacked := false } :: tail
        sackedOut := wsub 32 b.sackedOut head.size
        renoSack := true }) rfl
      refine ⟨happ, hhead, ?_⟩
      rw [hrest, hpointer, hseen, Stale, hpointer, hseen, hfirstByte]
      exact hcache
    · obtain ⟨happ, hpointer, hseen, hfirstByte, hhead, hrest⟩ := hmarked (b := { b with
        renoSack := true
        sentList := first :: (before ++ { item with sacked := true } :: after)
        sackedOut := wadd 32 (wsub 32 b.sackedOut head.size) item.size
        sackSeen := true
        highestSack := (some item.node, item.startSeq) }) rfl
      obtain ⟨_, rfl⟩ := List.cons.inj hfirst
      rw [noSackAfterGap_eq hbefore hclear] at hgap
      have hafter : ∀ later ∈ after, later.sacked = false := by simpa using hgap
      refine ⟨happ, hhead, .inl ⟨{ item with sacked := true }, ?_, hpointer, hseen⟩⟩
      rw [hrest]
      exact lastSacked_of_place rfl hafter

def pastFin (b : TcpTxBuffer) (seq : SequenceNumber32) : TcpTxBuffer :=
  if b.size = 0 then { b with firstByteSeq := seq } else b

theorem pastFin_eq (b : TcpTxBuffer) (seq : SequenceNumber32) :
    (b.pastFin seq).sentList = b.sentList ∧ (b.pastFin seq).appList = b.appList ∧
      SameCache b (b.pastFin seq) ∧
      (b.pastFin seq).firstByteSeq = if b.size = 0 then seq else b.firstByteSeq := by
  unfold pastFin SameCache
  split <;> exact ⟨rfl, rfl, ⟨rfl, rfl⟩, rfl⟩

variable {seq : SequenceNumber32}

theorem HighestExact.pastFin {fuel : Nat} {b₁ : TcpTxBuffer} (h : HighestExact b)
    (hahead : pos b.firstByteSeq seq ≤ 2 ^ 31)
    (hrun : TcpTxBuffer.discardLoop now fuel b (pos b.firstByteSeq seq) = .ok (b₁, deleted))
    (hlist : b.sentList = front ++ tail)
    (hfront : ∀ before item after, front = before ++ item :: after →
      bytes before ≤ min (pos b.firstByteSeq seq) b.size) :
    (∃ item, lastSacked tail = some item ∧ (b₁.pastFin seq).highestSack = pointerTo (some item) ∧
        (b₁.pastFin seq).sackSeen = true) ∨
      (lastSacked tail = none ∧ (b₁.pastFin seq).Stale (b₁.pastFin seq).firstByteSeq) := by
  obtain ⟨⟨hcache, hseen⟩, _, _⟩ := discardLoop_leaves h.placed h.app_unsacked hrun
  obtain ⟨_, _, ⟨hcache', hseen'⟩, hfirst'⟩ := pastFin_eq b₁ seq
  have hfirst := (h.placed.discardLoop hrun).2
  have hsize := h.placed.size_lt
  cases hlast : lastSacked tail with
  | some item =>
    have hall : lastSacked b.sentList = some item := by
      rw [hlist, lastSacked_append, hlast, Option.some_or]
    refine .inl ⟨item, rfl, ?_, ?_⟩
    · rw [hcache', hcache, h.cache, hall]
    · rw [hseen', hseen, h.seen, hall]
      rfl
  | none =>
    have hpos : pos b.firstByteSeq b₁.firstByteSeq = min (pos b.firstByteSeq seq) b.size := by
      rw [hfirst]
      exact pos_base_add (by omega)
    refine .inr ⟨rfl, ?_⟩
    rw [Stale, hcache', hseen', hcache, hseen, hfirst']
    refine h.stale hlist hlast ?_ ?_ hfront
    · split <;> omega
    · split <;> omega

theorem HighestExact.discardUpTo (h : HighestExact b) (hkeeps : b.discardKeepsHighest seq = true)
    (hrun : b.discardUpTo now seq = .ok (b', deleted)) : HighestExact b' := by
  obtain ⟨_, rfl, _⟩ | ⟨hafter, b₁, b₂, hloop, hmove, rfl⟩ := discardUpTo_cases hrun
  · exact h
  · rw [discardKeepsHighest, hafter, Bool.false_or] at hkeeps
    rw [distance_eq_pos] at hloop hkeeps
    have hahead : pos b.firstByteSeq seq ≤ 2 ^ 31 :=
      pos_le_half (Bool.or_eq_false_iff.mp hafter).1
    have hsize := h.placed.sentSize_le
    have hbytes := h.placed.bytes_eq
    have hmove : (b₁.pastFin seq).moveSackFromHead = .ok b₂ := hmove
    have hplaced : Placed (b₁.pastFin seq) := (h.placed.discardLoop hloop).1.moveHead seq
    have hplaced₂ := hplaced.of_samePlaces (moveSackFromHead_samePlaces hmove)
    obtain ⟨hsent, happ, _⟩ := pastFin_eq b₁ seq
    obtain ⟨_, happ₁, hleaves⟩ := discardLoop_leaves h.placed h.app_unsacked hloop
    obtain ⟨gone, hgone, hgoneBytes⟩ :=
      remaining_gone b.sentList b.size (pos b.firstByteSeq seq)
    obtain ⟨head, head', tail, hleft, hsent₁, hmark⟩ | ⟨hleft, hclear⟩ := hleaves
    · -- the cached item is behind the head, or it has been reached
      rw [hleft] at hgone hkeeps
      have hsplit : b.sentList = (gone ++ [head]) ++ tail := by simpa using hgone
      rw [hgone, bytes_append, bytes_cons] at hbytes
      have hcache := h.pastFin hahead hloop hsplit (by
        intro before item after hplace
        have hle : bytes before ≤ bytes gone := by
          rcases List.append_eq_append_iff.mp hplace with ⟨more, rfl, _⟩ | ⟨more, rfl, _⟩
          · cases more with
            | nil => simp
            | cons => simp_all
          · simp
        omega)
      obtain ⟨happ₂, hhead, hcache₂⟩ := moveSackFromHead_cache (hsent.trans hsent₁)
        (by rw [hsent, hsent₁, headSackLast, hmark]; exact hkeeps) hcache hmove
      refine .of_reset hplaced₂ ?_ hhead hcache₂
      rw [happ₂, happ]
      exact happ₁
    · -- nothing sacked is left
      rw [hleft, List.append_nil] at hgone
      have hcache := h.pastFin hahead hloop
        (show b.sentList = gone ++ [] by simpa using hgone) (by
        intro before item after hplace
        rw [hgone, hplace, bytes_append, bytes_cons] at hbytes
        rw [hplace, bytes_append, bytes_cons] at hgoneBytes
        omega)
      have hheadClear : ∀ head ∈ (b₁.pastFin seq).sentList.head?, head.sacked = false := by
        rw [hsent]
        exact fun head hhead => hclear head (List.mem_of_head? hhead)
      have hnone : lastSacked (b₁.pastFin seq).sentList = none := by
        rw [hsent]
        exact lastSacked_eq_none.mpr hclear
      obtain ⟨_, rfl⟩ | ⟨head, _, _, hlist, hsacked, _⟩ := moveSackFromHead_cases hmove
      · refine .of_reset hplaced (by rw [happ]; exact happ₁) hheadClear (.inr ⟨hnone, ?_⟩)
        obtain ⟨item, hitem, _⟩ | ⟨_, hstale⟩ := hcache
        · simp [lastSacked] at hitem
        · exact hstale
      · have hunsacked := hheadClear head (by simp [hlist])
        simp [hunsacked] at hsacked

end TcpTxBuffer

end Ns3.Tcp
