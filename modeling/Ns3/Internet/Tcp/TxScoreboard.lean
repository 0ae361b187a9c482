/-
  The scoreboard counters of the transmission
  buffer.

  Three counters cache sums over the flags of the sent items; the run-time check
  that would compare them (`ConsistencyCheck`) is compiled off.  `InSync` is what
  it would check, and more.  Most operations keep it whatever their arguments;
  four of them keep it under a condition on the state they are called in, and
  `keepsSync` is that condition, exactly.
-/
import Ns3.Internet.Tcp.TxMarks
import Ns3.Lib.Tally

namespace Ns3.Tcp

open Ns3.Lib SequenceNumber

/-! ## Flags of a list of items -/

variable {item : TcpTxItem} {l : List TcpTxItem}

def flagBytes (flag : TcpTxItem → Bool) (items : List TcpTxItem) : Nat :=
  tally TcpTxItem.size flag items

def NotBoth (items : List TcpTxItem) : Prop :=
  ∀ item ∈ items, ¬(item.sacked = true ∧ item.lost = true)

def TcpTxItem.clear (item : TcpTxItem) : Bool := !item.sacked && !item.lost && !item.retrans

theorem TcpTxItem.clear_iff :
    item.clear = true ↔ item.sacked = false ∧ item.lost = false ∧ item.retrans = false := by
  simp [TcpTxItem.clear, and_assoc]

theorem bytes_eq_total (items : List TcpTxItem) : bytes items = total TcpTxItem.size items := by
  induction items with
  | nil => rfl
  | cons item rest ih => rw [bytes_cons, total_cons, ih]

section

variable (flag : TcpTxItem → Bool)

@[simp] theorem flagBytes_nil : flagBytes flag [] = 0 := rfl

@[simp] theorem flagBytes_cons (item : TcpTxItem) (rest : List TcpTxItem) :
    flagBytes flag (item :: rest) = (if flag item then item.size else 0) + flagBytes flag rest :=
  tally_cons _ _ _ _

@[simp] theorem flagBytes_append (l r : List TcpTxItem) :
    flagBytes flag (l ++ r) = flagBytes flag l + flagBytes flag r :=
  tally_append _ _ _ _

theorem flagBytes_le (items : List TcpTxItem) : flagBytes flag items ≤ bytes items := by
  rw [bytes_eq_total]
  exact tally_le_total _ _ _

end

theorem NotBoth.add_le {items : List TcpTxItem} (h : NotBoth items) :
    flagBytes (·.sacked) items + flagBytes (·.lost) items ≤ bytes items := by
  rw [bytes_eq_total]
  exact tally_add_le_total _ h

theorem notBoth_cons {rest : List TcpTxItem} :
    NotBoth (item :: rest) ↔ ¬(item.sacked = true ∧ item.lost = true) ∧ NotBoth rest := by
  simp only [NotBoth, List.mem_cons, forall_eq_or_imp]

theorem notBoth_append {r : List TcpTxItem} : NotBoth (l ++ r) ↔ NotBoth l ∧ NotBoth r := by
  simp only [NotBoth, List.mem_append, or_imp, forall_and]

/-- What the scoreboard needs to know of a list of items: the sums of its flags. -/
structure Sums (items : List TcpTxItem) (sacked lost retrans size : Nat) : Prop where
  sacked_eq : flagBytes (·.sacked) items = sacked
  lost_eq : flagBytes (·.lost) items = lost
  retrans_eq : flagBytes (·.retrans) items = retrans
  bytes_eq : bytes items = size
  notBoth : NotBoth items

/-! ## Edits keep the sums -/

variable {after before : List TcpTxItem} {flag : TcpTxItem → Bool} {lost sacked size : Nat}
  {st st' : ListState}

theorem flagBytes_split {node n : Nat} (hfst : flag (splitItems node item n).1 = flag item)
    (hsnd : flag (splitItems node item n).2 = flag item) :
    flagBytes flag (before ++ (splitItems node item n).1 :: (splitItems node item n).2 :: after)
      = flagBytes flag (before ++ item :: after) := by
  have hadd := splitItems_size_add node item n
  simp only [flagBytes_append, flagBytes_cons, hfst, hsnd]
  split <;> omega

theorem flagBytes_merge {t1 t2 merged : TcpTxItem} (hsize : merged.size = t1.size + t2.size)
    (hfst : flag merged = flag t1) (hsnd : flag t1 = flag t2) :
    flagBytes flag (before ++ merged :: after) = flagBytes flag (before ++ t1 :: t2 :: after) := by
  simp only [flagBytes_append, flagBytes_cons, hfst, ← hsnd, hsize]
  split <;> omega

theorem Edit.sums (h : Edit st st') (hsize : size < 2 ^ 32)
    (hsums : Sums st.list sacked lost st.retrans size) :
    Sums st'.list sacked lost st'.retrans size := by
  obtain ⟨hsacked, hlost, hretrans, hbytes, hboth⟩ := hsums
  have hpayload : bytes st'.list = size := by rw [← hbytes, bytes, h.payload_eq, bytes]
  cases h with
  | split before after item n retrans nextNode =>
    refine ⟨?_, ?_, ?_, hpayload, ?_⟩
    · rw [flagBytes_split rfl rfl, hsacked]
    · rw [flagBytes_split rfl rfl, hlost]
    · rw [flagBytes_split rfl rfl, hretrans]
    · simp only [notBoth_append, notBoth_cons] at hboth ⊢
      exact ⟨hboth.1, hboth.2.1, hboth.2.1, hboth.2.2⟩
  | merge before after t1 t2 merged retrans retrans' nextNode hmerge =>
    obtain ⟨hs, hl, hcount, hmerged⟩ := mergeItems_eq_ok hmerge
    have hjoin : merged.size = t1.size + t2.size := by
      rw [hmerged, TcpTxItem.size, Packet.length_addAtEnd]
      rfl
    have hboth' : NotBoth (before ++ merged :: after) := by
      rw [hmerged]
      simp only [notBoth_append, notBoth_cons] at hboth ⊢
      exact ⟨hboth.1, hboth.2.1, hboth.2.2.2⟩
    refine ⟨?_, ?_, ?_, hpayload, hboth'⟩
    · rw [flagBytes_merge hjoin (by rw [hmerged]) hs, hsacked]
    · rw [flagBytes_merge hjoin (by rw [hmerged]) hl, hlost]
    · have hle := flagBytes_le (·.retrans) (before ++ t1 :: t2 :: after)
      have hflag : merged.retrans = (t1.retrans && t2.retrans) := by rw [hmerged]
      dsimp only at hretrans hbytes ⊢
      rw [hbytes] at hle
      simp only [flagBytes_append, flagBytes_cons, hjoin, hflag, hcount] at hretrans hle ⊢
      -- an item that alone was retransmitted leaves the sum
      cases h1 : t1.retrans <;> cases h2 : t2.retrans <;> simp [h1, h2] at hretrans hle ⊢
      · exact hretrans
      · rw [wsub_eq (by omega) (by omega)]
        omega
      · rw [wsub_eq (by omega) (by omega)]
        omega
      · omega

theorem Edits.sums (h : Edits st st') (hsize : size < 2 ^ 32)
    (hsums : Sums st.list sacked lost st.retrans size) :
    Sums st'.list sacked lost st'.retrans size :=
  h.keep (P := fun s => Sums s.list sacked lost s.retrans size)
    (fun _ _ hedit => hedit.sums hsize) hsums

theorem Edit.clear (h : Edit st st') (hclear : ∀ item ∈ st.list, item.clear = true) :
    st'.retrans = st.retrans ∧ ∀ item ∈ st'.list, item.clear = true := by
  cases h with
  | split before after item n retrans nextNode =>
    simp only [List.mem_append, List.mem_cons, or_imp, forall_and, forall_eq] at hclear ⊢
    exact ⟨trivial, hclear.1, hclear.2.1, hclear.2.1, hclear.2.2⟩
  | merge before after t1 t2 merged retrans retrans' nextNode hmerge =>
    obtain ⟨_, _, rfl, rfl⟩ := mergeItems_eq_ok hmerge
    simp only [List.mem_append, List.mem_cons, or_imp, forall_and, forall_eq] at hclear ⊢
    obtain ⟨hbefore, h1, h2, hafter⟩ := hclear
    have hc1 := TcpTxItem.clear_iff.mp h1
    have hc2 := TcpTxItem.clear_iff.mp h2
    refine ⟨by simp [hc1, hc2], hbefore, ?_, hafter⟩
    simp [TcpTxItem.clear_iff, hc1, hc2]

theorem Edits.clear (h : Edits st st') (hclear : ∀ item ∈ st.list, item.clear = true) :
    st'.retrans = st.retrans ∧ ∀ item ∈ st'.list, item.clear = true := by
  refine h.keep (P := fun s => s.retrans = st.retrans ∧ ∀ item ∈ s.list, item.clear = true)
    ?_ ⟨rfl, hclear⟩
  intro s s' hedit hs
  obtain ⟨hretrans, hclear'⟩ := hedit.clear hs.2
  exact ⟨hretrans.trans hs.1, hclear'⟩

/-! ## Re-flagging one item -/

variable {retrans : Nat}

/-- A counter after an item of `size` bytes changes a flag from `old` to `new`. -/
def shift (old new : Bool) (count size : Nat) : Nat :=
  match old, new with
  | true, false => wsub 32 count size
  | false, true => wadd 32 count size
  | true, true => count
  | false, false => count

theorem flagBytes_shift {item' : TcpTxItem} {count : Nat} (hsize : item'.size = item.size)
    (hlt : bytes (before ++ item :: after) < 2 ^ 32)
    (hcount : flagBytes flag (before ++ item :: after) = count) :
    flagBytes flag (before ++ item' :: after) = shift (flag item) (flag item') count item.size := by
  have hle := flagBytes_le flag (before ++ item' :: after)
  have hle' := flagBytes_le flag (before ++ item :: after)
  have hbytes : bytes (before ++ item' :: after) = bytes (before ++ item :: after) := by
    simp only [bytes_append, bytes_cons, hsize]
  rw [hbytes] at hle
  simp only [flagBytes_append, flagBytes_cons, hsize] at hle hle' hcount ⊢
  cases hold : flag item <;> cases hnew : flag item' <;>
    simp only [hold, hnew, if_true, Bool.false_eq_true, if_false] at hle hle' hcount ⊢ <;>
    simp only [shift]
  · exact hcount
  · rw [wadd_eq (by omega)]
    omega
  · rw [wsub_eq (by omega) (by omega)]
    omega
  · exact hcount

/-- **Re-flag rule.**  One item gets other flags, and the counters follow. -/
theorem Sums.reflag (item' : TcpTxItem)
    (h : Sums (before ++ item :: after) sacked lost retrans size) (hlt : size < 2 ^ 32)
    (hsize : item'.size = item.size) (hboth : ¬(item'.sacked = true ∧ item'.lost = true)) :
    Sums (before ++ item' :: after) (shift item.sacked item'.sacked sacked item.size)
      (shift item.lost item'.lost lost item.size)
      (shift item.retrans item'.retrans retrans item.size) size := by
  have hbytes := h.bytes_eq
  have hnot := h.notBoth
  rw [notBoth_append, notBoth_cons] at hnot
  refine ⟨?_, ?_, ?_, ?_, ?_⟩
  · exact flagBytes_shift hsize (by omega) h.sacked_eq
  · exact flagBytes_shift hsize (by omega) h.lost_eq
  · exact flagBytes_shift hsize (by omega) h.retrans_eq
  · rw [← hbytes]
    simp only [bytes_append, bytes_cons, hsize]
  · rw [notBoth_append, notBoth_cons]
    exact ⟨hnot.1, hboth, hnot.2.2⟩

theorem Sums.reflagHead {tail : List TcpTxItem} (item' : TcpTxItem)
    (h : Sums (item :: tail) sacked lost retrans size) (hlt : size < 2 ^ 32)
    (hsize : item'.size = item.size) (hboth : ¬(item'.sacked = true ∧ item'.lost = true)) :
    Sums (item' :: tail) (shift item.sacked item'.sacked sacked item.size)
      (shift item.lost item'.lost lost item.size)
      (shift item.retrans item'.retrans retrans item.size) size :=
  @Sums.reflag _ _ [] _ _ _ _ item' h hlt hsize hboth

namespace TcpTxBuffer

/-! ## The counters -/

variable {b b' : TcpTxBuffer}

/-- What `ConsistencyCheck` would test, that no item is both sacked and lost, and
that the unsent items carry no flag. -/
structure InSync (b : TcpTxBuffer) : Prop where
  sackedOut_eq : b.sackedOut = flagBytes (·.sacked) b.sentList
  lostOut_eq : b.lostOut = flagBytes (·.lost) b.sentList
  retrans_eq : b.retrans = flagBytes (·.retrans) b.sentList
  notBoth : NotBoth b.sentList
  app_clear : ∀ item ∈ b.appList, item.clear = true

/-- The counters in sync and the sizes right: the invariant of every run below. -/
structure Accounted (b : TcpTxBuffer) : Prop where
  sums : Sums b.sentList b.sackedOut b.lostOut b.retrans b.sentSize
  app_clear : ∀ item ∈ b.appList, item.clear = true
  size_eq : b.size = b.sentSize + bytes b.appList
  size_le : b.size ≤ b.maxBuffer
  max_lt : b.maxBuffer < 2 ^ 32

theorem Accounted.inSync (h : Accounted b) : InSync b where
  sackedOut_eq := h.sums.sacked_eq.symm
  lostOut_eq := h.sums.lost_eq.symm
  retrans_eq := h.sums.retrans_eq.symm
  notBoth := h.sums.notBoth
  app_clear := h.app_clear

theorem Accounted.sentSize_lt (h : Accounted b) : b.sentSize < 2 ^ 32 := by
  have hsize := h.size_eq
  have hle := h.size_le
  have hlt := h.max_lt
  omega

theorem Accounted.add_le (h : Accounted b) : b.sackedOut + b.lostOut ≤ b.sentSize := by
  have hle := h.sums.notBoth.add_le
  rwa [h.sums.sacked_eq, h.sums.lost_eq, h.sums.bytes_eq] at hle

theorem Accounted.bytesInFlight_eq (h : Accounted b) :
    b.bytesInFlight = .ok (wadd 32 (b.sentSize - (b.sackedOut + b.lostOut)) b.retrans) := by
  have hle := h.add_le
  have hlt := h.sentSize_lt
  have hsum : wadd 32 b.sackedOut b.lostOut = b.sackedOut + b.lostOut := wadd_eq (by omega)
  unfold bytesInFlight
  rw [hsum, wsub_eq hlt hle]
  simp [nsAssert, hle, bind, Except.bind, pure, Except.pure]

/-- **Flag rule.**  A method that keeps the places keeps the accounts if it keeps the sums. -/
theorem Accounted.of_samePlaces (h : Accounted b) (hsame : SamePlaces b b')
    (hsums : Sums b'.sentList b'.sackedOut b'.lostOut b'.retrans b.sentSize) :
    Accounted b' where
  sums := by rw [hsame.sentSize]; exact hsums
  app_clear := by rw [hsame.appList]; exact h.app_clear
  size_eq := by rw [hsame.size, hsame.sentSize, hsame.appList, h.size_eq]
  size_le := by rw [hsame.size, hsame.maxBuffer]; exact h.size_le
  max_lt := by rw [hsame.maxBuffer]; exact h.max_lt

/-! ## Methods that write the flags of the head -/

theorem Accounted.markHeadAsLost (h : Accounted b) : Accounted b.markHeadAsLost := by
  refine h.of_samePlaces (markHeadAsLost_samePlaces b) ?_
  have hsums := h.sums
  unfold TcpTxBuffer.markHeadAsLost
  split
  · exact hsums
  · rename_i head tail hlist
    rw [hlist] at hsums
    have hmarked := hsums.reflagHead { head with sacked := false, retrans := false, lost := true }
      h.sentSize_lt rfl (by simp)
    cases hs : head.sacked <;> cases hl : head.lost <;> cases hr : head.retrans <;>
      simpa [shift, hs, hl, hr] using hmarked

theorem Accounted.deleteRetransmittedFlagFromHead (h : Accounted b)
    (hrun : b.deleteRetransmittedFlagFromHead = .ok b') : Accounted b' := by
  refine h.of_samePlaces (deleteRetransmittedFlagFromHead_samePlaces hrun) ?_
  have hsums := h.sums
  unfold TcpTxBuffer.deleteRetransmittedFlagFromHead at hrun
  split at hrun
  · rw [pure_eq_ok] at hrun
    exact hrun ▸ hsums
  · split at hrun
    · simp at hrun
    · rename_i head tail hlist
      split at hrun
      · rename_i hflag
        rw [pure_eq_ok] at hrun
        subst hrun
        rw [hlist] at hsums
        have hnot := (notBoth_cons.mp hsums.notBoth).1
        have hcleared := hsums.reflagHead { head with retrans := false } h.sentSize_lt rfl hnot
        cases hs : head.sacked <;> cases hl : head.lost <;>
          simpa [shift, hs, hl, hflag] using hcleared
      · rw [pure_eq_ok] at hrun
        exact hrun ▸ hsums

variable {dupAckThresh : Nat}

theorem Accounted.markHeadIfLost (h : Accounted b)
    (hunsacked : ∀ head ∈ b.sentList.head?, dupAckThresh ≤ sacked → head.sacked = false)
    (hrun : markHeadIfLost dupAckThresh sacked b = .ok b') : Accounted b' := by
  refine h.of_samePlaces (markHeadIfLost_samePlaces hrun) ?_
  have hsums := h.sums
  obtain ⟨rfl, _⟩ | ⟨hthresh, head, tail, hlist, hlost, rfl⟩ := markHeadIfLost_cases hrun
  · exact hsums
  · have hhead : head.sacked = false := hunsacked head (by simp [hlist]) hthresh
    rw [hlist] at hsums
    have hmarked := hsums.reflagHead { head with lost := true } h.sentSize_lt rfl (by simp [hhead])
    cases hr : head.retrans <;> simpa [shift, hlost, hhead, hr] using hmarked

/-! ## The loss recount -/

theorem lostWalk_sums (h : Sums (before ++ (l ++ after)) sacked lost retrans size)
    (hlt : size < 2 ^ 32) :
    Sums (before ++ ((lostWalk dupAckThresh l lost).2.2 ++ after)) sacked
      (lostWalk dupAckThresh l lost).2.1 retrans size := by
  induction l generalizing before with
  | nil => exact h
  | cons item later ih =>
    have hlater := @ih (before ++ [item]) (by simpa using h)
    rw [List.append_assoc, List.singleton_append] at hlater
    simp only [lostWalk]
    split
    · rename_i hmark
      simp only [Bool.and_eq_true, Bool.not_eq_true', decide_eq_true_eq] at hmark
      have hmarked := hlater.reflag { item with lost := true } hlt rfl (by simp [hmark.1.2])
      cases hr : item.retrans <;> simpa [shift, hmark.1.2, hmark.2, hr] using hmarked
    · simpa using hlater

theorem lostWalk_count (dupAckThresh lost : Nat) (l : List TcpTxItem) :
    (lostWalk dupAckThresh l lost).1 = l.countP (·.sacked) := by
  induction l with
  | nil => rfl
  | cons item later ih =>
    simp only [lostWalk, List.countP_cons, ← ih]
    cases item.sacked <;> split <;> rfl

/-- The sacked items between the head and the cached highest SACK. -/
def sackedUpToHighest (b : TcpTxBuffer) : Nat :=
  match b.highestSack.1, b.sentList with
  | some node, head :: tail =>
    if head.node = node then 0
    else (splitAtNode node tail).elim 0 fun parts => parts.1.countP (·.sacked)
  | _, _ => 0

/-- `UpdateLostCount` will not mark a sacked head. -/
def headKeepsSack (b : TcpTxBuffer) : Bool :=
  b.sentList.head?.all fun head =>
    !head.sacked || decide (b.sackedUpToHighest < b.dupAckThresh)

theorem Accounted.updateLostCount (h : Accounted b) (hhead : b.headKeepsSack = true)
    (hrun : b.updateLostCount = .ok b') : Accounted b' := by
  obtain ⟨_, hlist, hmark⟩ | ⟨node, head, tail, hnode, hlist, hwalk⟩ := updateLostCount_cases hrun
  · refine h.markHeadIfLost ?_ hmark
    simp [hlist]
  · simp only [headKeepsSack, hlist, List.head?_cons, Option.all_some, sackedUpToHighest, hnode,
      Bool.or_eq_true, Bool.not_eq_true', decide_eq_true_eq] at hhead
    obtain ⟨hfirst, hmark⟩ | ⟨hfirst, upTo, beyond, hsplit, hmark⟩ := hwalk
    · refine h.markHeadIfLost ?_ hmark
      intro head' hhead' hthresh
      obtain rfl : head = head' := by simpa [hlist] using hhead'
      rw [if_pos hfirst] at hhead
      exact hhead.resolve_right (by omega)
    · rw [if_neg hfirst, hsplit] at hhead
      have hsums := h.sums
      rw [hlist, splitAtNode_append hsplit, ← List.singleton_append] at hsums
      have hwalked : Accounted { b with
          sentList := head :: (lostWalk b.dupAckThresh upTo b.lostOut).2.2 ++ beyond
          lostOut := (lostWalk b.dupAckThresh upTo b.lostOut).2.1 } := by
        refine h.of_samePlaces ⟨?_, rfl, rfl, rfl, rfl, rfl⟩ (lostWalk_sums hsums h.sentSize_lt)
        simp [hlist, splitAtNode_append hsplit, lostWalk_places]
      refine hwalked.markHeadIfLost ?_ hmark
      intro head' hhead' hthresh
      obtain rfl : head = head' := by simpa using hhead'
      rw [lostWalk_count] at hthresh
      exact hhead.resolve_right (by simpa using hthresh)

/-! ## SACK blocks -/

variable {pass pass' : SackPass} {l' : List TcpTxItem}

theorem sackItems_sums {block : SackBlock} {start : SequenceNumber32}
    (h : Sums (before ++ l) pass.sackedOut pass.lostOut retrans size) (hlt : size < 2 ^ 32)
    (hrun : sackItems block start l pass = .ok (l', pass')) :
    Sums (before ++ l') pass'.sackedOut pass'.lostOut retrans size := by
  induction l generalizing start before l' pass pass' with
  | nil =>
    simp only [sackItems, pure_eq_ok, Prod.mk.injEq] at hrun
    obtain ⟨rfl, rfl⟩ := hrun
    exact h
  | cons item rest ih =>
    have hnext : Sums ((before ++ [item]) ++ rest) pass.sackedOut pass.lostOut retrans size := by
      simpa using h
    unfold sackItems at hrun
    dsimp only at hrun
    split at hrun
    · split at hrun
      · simp only [bind_eq_ok, pure_eq_ok, Prod.mk.injEq] at hrun
        obtain ⟨_, _, ⟨rest', pass₁⟩, hrec, rfl, rfl⟩ := hrun
        simpa using ih hnext hrec
      · rename_i hsacked
        simp only [bind_eq_ok, pure_eq_ok, Prod.mk.injEq] at hrun
        obtain ⟨⟨rest', pass₁⟩, hrec, rfl, rfl⟩ := hrun
        have hmarked := h.reflag { item with lost := false, sacked := true } hlt rfl (by simp)
        have hpass : Sums ((before ++ [{ item with lost := false, sacked := true }]) ++ rest)
            (pass.sack start item).sackedOut (pass.sack start item).lostOut retrans size := by
          cases hl : item.lost <;> cases hr : item.retrans <;>
            simpa [shift, SackPass.sack, hsacked, hl, hr] using hmarked
        simpa using ih hpass hrec
    · split at hrun
      · simp only [pure_eq_ok, Prod.mk.injEq] at hrun
        obtain ⟨rfl, rfl⟩ := hrun
        exact h
      · simp only [bind_eq_ok, pure_eq_ok, Prod.mk.injEq] at hrun
        obtain ⟨⟨rest', pass₁⟩, hrec, rfl, rfl⟩ := hrun
        simpa using ih hnext hrec

theorem sackBlocks_sums {firstByteSeq firstUnsent : SequenceNumber32} {blocks : List SackBlock}
    {early : Bool} (h : Sums l pass.sackedOut pass.lostOut retrans size) (hlt : size < 2 ^ 32)
    (hrun : sackBlocks firstByteSeq firstUnsent blocks l pass = .ok (l', pass', early)) :
    Sums l' pass'.sackedOut pass'.lostOut retrans size := by
  induction blocks generalizing l pass with
  | nil =>
    simp only [sackBlocks, pure_eq_ok, Prod.mk.injEq] at hrun
    obtain ⟨rfl, rfl, _⟩ := hrun
    exact h
  | cons block blocks ih =>
    unfold sackBlocks at hrun
    split at hrun
    · simp only [pure_eq_ok, Prod.mk.injEq] at hrun
      obtain ⟨rfl, rfl, _⟩ := hrun
      exact h
    · rw [bind_eq_ok] at hrun
      obtain ⟨⟨items, pass₁⟩, hblock, hrest⟩ := hrun
      exact ih (@sackItems_sums _ [] _ _ _ _ _ _ _ h hlt hblock) hrest

theorem Accounted.update {list : List SackBlock} {bytesSacked : Nat} {newlySacked : List TcpTxItem}
    (h : Accounted b) (hrun : b.update list = .ok (b', bytesSacked, newlySacked)) :
    Accounted b' := by
  obtain ⟨items, pass, early, hblocks, -, -, hend⟩ := update_cases hrun
  have hmarked : Accounted (b.withPass items pass) := by
    refine h.of_samePlaces (withPass_samePlaces (sackBlocks_places hblocks)) ?_
    exact sackBlocks_sums h.sums h.sentSize_lt hblocks
  obtain ⟨_, rfl⟩ | ⟨_, ⟨head, tail, hlist, hhead⟩, ⟨_, _, hcount⟩ | ⟨_, rfl⟩⟩ := hend
  · exact hmarked
  · refine hmarked.updateLostCount ?_ hcount
    -- a sacked head would still be sacked at the assertion
    have hsame := updateLostCount_unlost hcount
    rw [hlist] at hsame
    cases hitems : items with
    | nil => simp [hitems, withPass] at hsame
    | cons first rest =>
      have hfirst : unlost head = unlost first := by
        rw [hitems] at hsame
        simpa [withPass] using congrArg List.head? hsame
      have hsacked : (unlost head).sacked = (unlost first).sacked :=
        congrArg TcpTxItem.sacked hfirst
      simp only [unlost] at hsacked
      simp only [headKeepsSack, withPass, List.head?_cons, Option.all_some, ← hsacked]
      simpa using .inl hhead
  · exact hmarked

/-! ## SACK emulation -/

def sackTargetUnlost : List TcpTxItem → Bool
  | [] => true
  | item :: rest => if item.sacked then sackTargetUnlost rest else !item.lost

theorem sackTargetUnlost_eq (hbefore : ∀ sacked ∈ before, sacked.sacked = true)
    (hclear : item.sacked = false) : sackTargetUnlost (before ++ item :: after) = !item.lost := by
  induction before with
  | nil => simp [sackTargetUnlost, hclear]
  | cons head rest ih =>
    rw [List.cons_append, sackTargetUnlost, if_pos (hbefore head (.head _))]
    exact ih fun sacked hmem => hbefore sacked (.tail _ hmem)

theorem sackTargetUnlost_of_all (h : ∀ item ∈ l, item.sacked = true) :
    sackTargetUnlost l = true := by
  induction l with
  | nil => rfl
  | cons item rest ih =>
    rw [sackTargetUnlost, if_pos (h item (.head _))]
    exact ih fun item' hmem => h item' (.tail _ hmem)

theorem Accounted.addRenoSack (h : Accounted b) (htarget : sackTargetUnlost b.sentList.tail = true)
    (hrun : b.addRenoSack = .ok b') : Accounted b' := by
  refine h.of_samePlaces (addRenoSack_samePlaces hrun) ?_
  have hsums := h.sums
  obtain ⟨_, rfl⟩ | ⟨head, before, item, after, hlist, hbefore, hclear, rfl⟩ :=
    addRenoSack_cases hrun
  · exact hsums
  · rw [hlist, List.tail_cons, sackTargetUnlost_eq hbefore hclear] at htarget
    have hlost : item.lost = false := by simpa using htarget
    rw [hlist, ← List.cons_append] at hsums
    have hmarked := hsums.reflag { item with sacked := true } h.sentSize_lt rfl (by simp [hlost])
    cases hr : item.retrans <;> simpa [shift, hclear, hlost, hr] using hmarked

theorem addRenoSack_both (htarget : sackTargetUnlost b.sentList.tail = false)
    (hrun : b.addRenoSack = .ok b') : ¬NotBoth b'.sentList.tail := by
  obtain ⟨hall, rfl⟩ | ⟨head, before, item, after, hlist, hbefore, hclear, rfl⟩ :=
    addRenoSack_cases hrun
  · simp [sackTargetUnlost_of_all hall] at htarget
  · rw [hlist, List.tail_cons, sackTargetUnlost_eq hbefore hclear] at htarget
    intro hnot
    have hitem := hnot { item with sacked := true } (by simp)
    exact hitem ⟨rfl, by simpa using htarget⟩

/-! ## Methods that re-flag the whole list -/

variable {f : TcpTxItem → TcpTxItem}

theorem flagBytes_map (hsize : ∀ item, (f item).size = item.size) (items : List TcpTxItem) :
    flagBytes flag (items.map f) = flagBytes (fun item => flag (f item)) items :=
  tally_map _ hsize items

theorem bytes_map (hplace : ∀ item, place (f item) = place item) (items : List TcpTxItem) :
    bytes (items.map f) = bytes items :=
  bytes_of_places (map_place_eq hplace)

theorem flagBytes_false (items : List TcpTxItem) : flagBytes (fun _ => false) items = 0 :=
  tally_eq_zero _ fun _ _ => rfl

theorem flagBytes_true (items : List TcpTxItem) :
    flagBytes (fun _ => true) items = bytes items := by
  rw [bytes_eq_total]
  exact tally_eq_total _ fun _ _ => rfl

theorem Accounted.resetRenoSack (h : Accounted b) : Accounted b.resetRenoSack := by
  refine h.of_samePlaces (resetRenoSack_samePlaces b) ?_
  obtain ⟨_, hlost, hretrans, hbytes, _⟩ := h.sums
  unfold TcpTxBuffer.resetRenoSack
  refine ⟨?_, ?_, ?_, ?_, ?_⟩
  · rw [flagBytes_map (by intro _; rfl), flagBytes_false]
  · rw [flagBytes_map (by intro _; rfl), hlost]
  · rw [flagBytes_map (by intro _; rfl), hretrans]
  · rw [bytes_map (by intro _; rfl), hbytes]
  · intro item hitem
    obtain ⟨item', _, rfl⟩ := List.mem_map.mp hitem
    simp

theorem markAllLost_sums (lost : Nat) (hboth : NotBoth l) (hlt : lost + bytes l < 2 ^ 32) :
    (markAllLost lost l).1 = lost + flagBytes (·.lost) (markAllLost lost l).2 ∧
      flagBytes (·.sacked) (markAllLost lost l).2 = flagBytes (·.sacked) l ∧
      flagBytes (·.retrans) (markAllLost lost l).2 = 0 ∧ NotBoth (markAllLost lost l).2 := by
  induction l generalizing lost with
  | nil => exact ⟨rfl, rfl, rfl, List.forall_mem_nil _⟩
  | cons item rest ih =>
    rw [notBoth_cons] at hboth
    rw [bytes_cons] at hlt
    have hsize : ∀ l, TcpTxItem.size { item with lost := l, retrans := false } = item.size :=
      fun _ => rfl
    have hnot : ¬(item.sacked = true ∧ (item.lost || !item.sacked) = true) := by
      intro hboth'
      exact hboth.1 ⟨hboth'.1, by simpa [hboth'.1] using hboth'.2⟩
    have hcount : (if (item.lost || !item.sacked) = true then wadd 32 lost item.size else lost)
        = lost + if (item.lost || !item.sacked) = true then item.size else 0 := by
      split
      · exact wadd_eq (by omega)
      · rfl
    have hle : (if (item.lost || !item.sacked) = true then item.size else 0) ≤ item.size := by
      split <;> omega
    obtain ⟨hlost, hsacked, hretrans, hrest⟩ := ih
      (lost + if (item.lost || !item.sacked) = true then item.size else 0) hboth.2 (by omega)
    simp only [markAllLost, hcount, flagBytes_cons, hsize, hsacked, hretrans, notBoth_cons]
    refine ⟨?_, trivial, by simp, hnot, hrest⟩
    omega

theorem Accounted.setSentListLost {resetSack : Bool} (h : Accounted b)
    (hrun : b.setSentListLost resetSack = .ok b') : Accounted b' := by
  refine h.of_samePlaces (setSentListLost_samePlaces hrun) ?_
  have hsums := h.sums
  unfold TcpTxBuffer.setSentListLost at hrun
  simp only [bind_eq_ok, pure_eq_ok] at hrun
  obtain ⟨_, _, rfl⟩ := hrun
  split
  · refine ⟨?_, ?_, ?_, ?_, ?_⟩
    · rw [flagBytes_map (by intro _; rfl), flagBytes_false]
    · rw [flagBytes_map (by intro _; rfl), flagBytes_true, hsums.bytes_eq]
    · rw [flagBytes_map (by intro _; rfl), flagBytes_false]
    · rw [bytes_map (by intro _; rfl), hsums.bytes_eq]
    · intro item hitem
      obtain ⟨item', _, rfl⟩ := List.mem_map.mp hitem
      simp
  · have hlt := h.sentSize_lt
    have hbytes := hsums.bytes_eq
    obtain ⟨hlost, hsacked, hretrans, hnot⟩ := markAllLost_sums 0 hsums.notBoth (by omega)
    refine ⟨?_, ?_, hretrans, ?_, hnot⟩
    · rw [hsacked]
      exact hsums.sacked_eq
    · rw [hlost, Nat.zero_add]
    · rw [bytes_of_places (markAllLost_places 0 b.sentList)]
      exact hsums.bytes_eq

/-! ## Methods that move items between the lists -/

theorem Accounted.add (h : Accounted b) (p : Packet) : Accounted (b.add p).1 := by
  have hsize := h.size_eq
  have hle := h.size_le
  have hlt := h.max_lt
  unfold TcpTxBuffer.add
  split
  · rename_i hfits
    split
    · rw [available, wsub_eq hlt hle] at hfits
      have hsum : wadd 32 b.size p.length = b.size + p.length := wadd_eq (by omega)
      refine ⟨h.sums, ?_, ?_, ?_, hlt⟩
      · intro item hitem
        rcases List.mem_append.mp hitem with hold | hnew
        · exact h.app_clear item hold
        · obtain rfl := List.mem_singleton.mp hnew
          rfl
      · simp only [hsum, bytes_append, bytes_cons, bytes_nil, TcpTxItem.size]
        omega
      · simp only [hsum]
        omega
    · exact h
  · exact h

theorem Accounted.resetSentList (h : Accounted b) : Accounted b.resetSentList := by
  refine ⟨⟨rfl, rfl, rfl, rfl, List.forall_mem_nil _⟩, ?_, ?_, h.size_le,
    h.max_lt⟩
  · intro item hitem
    rcases List.mem_append.mp hitem with hsent | happ
    · obtain ⟨item', _, rfl⟩ := List.mem_map.mp hsent
      rfl
    · exact h.app_clear item happ
  · simp only [TcpTxBuffer.resetSentList, bytes_append, Nat.zero_add]
    rw [bytes_map (by intro _; rfl), h.size_eq, h.sums.bytes_eq]

def lastClear (b : TcpTxBuffer) : Bool := b.sentList.getLast?.all (·.clear)

theorem Accounted.resetLastSegmentSent (h : Accounted b) (hlast : b.lastClear = true) :
    Accounted b.resetLastSegmentSent := by
  unfold TcpTxBuffer.resetLastSegmentSent
  split
  · exact h
  · rename_i item hitem
    have hclear : item.clear = true := by simpa [lastClear, hitem] using hlast
    obtain ⟨hsacked, hlost, hretrans⟩ := TcpTxItem.clear_iff.mp hclear
    have hlist : b.sentList.dropLast ++ [item] = b.sentList :=
      List.dropLast_append_getLast? item hitem
    have hlt := h.sentSize_lt
    have hsize := h.size_eq
    obtain ⟨hsackedEq, hlostEq, hretransEq, hbytes, hboth⟩ := h.sums
    rw [← hlist] at hsackedEq hlostEq hretransEq hbytes hboth
    simp only [flagBytes_append, flagBytes_cons, flagBytes_nil, bytes_append, bytes_cons,
      bytes_nil, hsacked, hlost, hretrans] at hsackedEq hlostEq hretransEq hbytes
    have hsent : wsub 32 b.sentSize item.size = bytes b.sentList.dropLast := by
      rw [wsub_eq hlt (by omega)]
      omega
    refine ⟨⟨by simpa using hsackedEq, by simpa using hlostEq, by simpa [hretrans] using hretransEq,
      hsent.symm, (notBoth_append.mp hboth).1⟩, ?_, ?_, h.size_le, h.max_lt⟩
    · intro item' hitem'
      rcases List.mem_cons.mp hitem' with rfl | happ
      · exact hclear
      · exact h.app_clear item' happ
    · simp only [hsent, bytes_cons]
      omega

/-! ## Extraction -/

variable {numBytes : Nat} {ref : ItemRef} {seq : SequenceNumber32}

theorem Accounted.getTransmittedSegment (h : Accounted b)
    (hrun : b.getTransmittedSegment numBytes seq = .ok (b', ref)) : Accounted (b'.withRef ref) := by
  unfold TcpTxBuffer.getTransmittedSegment at hrun
  simp only [bind_eq_ok, pure_eq_ok, Prod.mk.injEq] at hrun
  obtain ⟨_, _, _, _, _, _, found, hfound, rfl, rfl⟩ := hrun
  have hedits := (getPacketFromList_extract hfound).edits
  have hsums : Sums found.list b.sackedOut b.lostOut found.retrans b.sentSize :=
    hedits.sums h.sentSize_lt h.sums
  have hnot := (notBoth_cons.mp (notBoth_append.mp hsums.notBoth).2).1
  have hmarked := hsums.reflag { found.item with retrans := true } h.sentSize_lt rfl hnot
  refine ⟨?_, h.app_clear, h.size_eq, h.size_le, h.max_lt⟩
  simp only [withRef, ItemRef.list]
  cases hs : found.item.sacked <;> cases hl : found.item.lost <;>
    cases hr : found.item.retrans <;> simpa [shift, hs, hl, hr] using hmarked

theorem Accounted.getNewSegment (h : Accounted b)
    (hrun : b.getNewSegment numBytes = .ok (b', ref)) :
    Accounted (b'.withRef ref) ∧ ref.before = b.sentList ∧ ref.after = [] ∧
      ref.item.clear = true := by
  have hsize := h.size_eq
  have hle := h.size_le
  have hlt := h.max_lt
  unfold TcpTxBuffer.getNewSegment at hrun
  simp only [bind_eq_ok, pure_eq_ok, Prod.mk.injEq] at hrun
  obtain ⟨found, hfound, rfl, rfl⟩ := hrun
  have hedits := (getPacketFromList_extract hfound).edits
  obtain ⟨hretrans, hclear⟩ := hedits.clear h.app_clear
  have hbytes : bytes found.list = bytes b.appList := hedits.bytes_eq
  have hitem : found.item.clear = true :=
    hclear found.item (by simp [FoundItem.state, ItemRef.list])
  obtain ⟨hs, hl, hr⟩ := TcpTxItem.clear_iff.mp hitem
  simp only [FoundItem.state, ItemRef.list, bytes_append, bytes_cons] at hretrans hbytes
  have hsent : wadd 32 b.sentSize found.item.size = b.sentSize + found.item.size :=
    wadd_eq (by omega)
  have hnew : TcpTxItem.size { found.item with
      startSeq := b.firstUnsent, node := found.nextNode } = found.item.size := rfl
  obtain ⟨hsackedEq, hlostEq, hretransEq, hbytesEq, hboth⟩ := h.sums
  refine ⟨⟨⟨?_, ?_, ?_, ?_, ?_⟩, ?_, ?_, hle, hlt⟩, rfl, rfl, hitem⟩
  · simpa [withRef, ItemRef.list, hs] using hsackedEq
  · simpa [withRef, ItemRef.list, hl] using hlostEq
  · simpa [withRef, ItemRef.list, hr, hretrans] using hretransEq
  · simp only [withRef, ItemRef.list, bytes_append, bytes_cons, bytes_nil, hnew, hsent]
    omega
  · simp only [withRef, ItemRef.list, notBoth_append, notBoth_cons]
    exact ⟨hboth, by simp [hs], List.forall_mem_nil _⟩
  · intro item hmem
    refine hclear item ?_
    simp only [withRef, FoundItem.state, ItemRef.list, List.mem_append, List.mem_cons] at hmem ⊢
    exact hmem.imp id .inr
  · simp only [withRef, hnew, hsent, bytes_append]
    omega

variable {result : Option TcpTxItem}

theorem Accounted.stampItem {now : Time} (h : Accounted (b.withRef ref))
    (hrun : stampItem now b ref = .ok (b', result)) : Accounted b' := by
  obtain ⟨rfl, _⟩ := stampItem_eq_ok hrun
  have hsums := h.sums
  simp only [withRef, ItemRef.list] at hsums
  have hnot := (notBoth_cons.mp (notBoth_append.mp hsums.notBoth).2).1
  have hstamped := hsums.reflag { ref.item with lastSent := now } h.sentSize_lt rfl hnot
  refine ⟨?_, h.app_clear, h.size_eq, h.size_le, h.max_lt⟩
  simp only [withRef, ItemRef.list]
  cases hs : ref.item.sacked <;> cases hl : ref.item.lost <;> cases hr : ref.item.retrans <;>
    simpa [shift, hs, hl, hr] using hstamped

theorem Accounted.copyFromSequence {now : Time} (h : Accounted b)
    (hrun : b.copyFromSequence now numBytes seq = .ok (b', result)) : Accounted b' := by
  obtain ⟨rfl, _⟩ | ⟨s, b₁, ref, _, _, hseg, _, hstamp⟩ | ⟨s, b₁, ref, hseg, hstamp⟩ :=
    copyFromSequence_cases hrun
  · exact h
  · exact (h.getTransmittedSegment hseg).stampItem hstamp
  · exact (h.getNewSegment hseg).1.stampItem hstamp

end TcpTxBuffer

end Ns3.Tcp
