/-
  Which requests `CopyFromSequence` answers.

  A block that was sent is always found, wherever the sequence numbers wrap.  The case in
  which only a part of the block was sent compares plain 32-bit values, and is missed when
  the block lies across the wrap; a new block is refused when the unsent items that it
  joins carry different marks.
-/
import Ns3.Internet.Tcp.TxNextSegment

namespace Ns3.Tcp

open Ns3.Lib SequenceNumber

/-! ## Items that can be joined -/

variable {n : Nat}

def touched : Nat → List TcpTxItem → List TcpTxItem
  | _, [] => []
  | n, item :: rest => if n ≤ item.size then [item] else item :: touched (n - item.size) rest

def SharesMarks : List TcpTxItem → Prop
  | [] => True
  | item :: rest => ∀ other ∈ rest, item.sacked = other.sacked ∧ item.lost = other.lost

variable {rest : List TcpTxItem}

theorem touched_whole {item : TcpTxItem} (h : n ≤ item.size) :
    touched n (item :: rest) = [item] := if_pos h

theorem touched_beyond {item : TcpTxItem} (h : item.size < n) :
    touched n (item :: rest) = item :: touched (n - item.size) rest :=
  if_neg (Nat.not_le.mpr h)

theorem touched_first {item : TcpTxItem} : item ∈ touched n (item :: rest) := by
  rw [touched]
  split
  · exact .head _
  · exact .head _

variable {item next : TcpTxItem}

theorem mergeItems_joins (retrans : Nat) (hsacked : item.sacked = next.sacked)
    (hlost : item.lost = next.lost) :
    ∃ retrans' merged, mergeItems retrans item next = .ok (retrans', merged) ∧
      merged.size = item.size + next.size ∧ merged.startSeq = item.startSeq ∧
      merged.sacked = item.sacked ∧ merged.lost = item.lost ∧
      merged.retrans = (item.retrans && next.retrans) := by
  have hmerge : mergeItems retrans item next = .ok
      (if item.retrans != next.retrans then
        if item.retrans then wsub 32 retrans item.size else wsub 32 retrans next.size
      else retrans,
      { item with
        retrans := item.retrans && next.retrans
        lastSent := if item.lastSent < next.lastSent then next.lastSent else item.lastSent
        packet := item.packet.addAtEnd next.packet }) := by
    rw [mergeItems, nsAssert, if_pos (beq_iff_eq.mpr hsacked), nsAssert,
      if_pos (beq_iff_eq.mpr hlost)]
    rfl
  exact ⟨_, _, hmerge, by simp [TcpTxItem.size, Packet.addAtEnd], rfl, rfl, rfl, rfl⟩

theorem mergeItems_refuses (retrans : Nat)
    (h : ¬(item.sacked = next.sacked ∧ item.lost = next.lost)) :
    ∃ e, mergeItems retrans item next = .error e := by
  cases hmerge : mergeItems retrans item next with
  | error e => exact ⟨e, rfl⟩
  | ok result =>
    obtain ⟨hsacked, hlost, -, -⟩ := mergeItems_eq_ok hmerge
    exact absurd ⟨hsacked, hlost⟩ h

theorem touched_merged {merged : TcpTxItem} (rest : List TcpTxItem) (hn : item.size < n)
    (hsize : merged.size = item.size + next.size) :
    ∃ others, touched n (item :: next :: rest) = item :: next :: others ∧
      touched n (merged :: rest) = merged :: others := by
  rw [touched_beyond hn]
  rcases Nat.lt_or_ge merged.size n with hmore | hless
  · refine ⟨touched (n - merged.size) rest, ?_, touched_beyond hmore⟩
    rw [touched_beyond (show next.size < n - item.size by omega), hsize, Nat.sub_sub]
  · refine ⟨[], ?_, touched_whole hless⟩
    rw [touched_whole (show n - item.size ≤ next.size by omega)]

/-! ## The search for a block -/

section Search

variable {isSentList : Bool} {firstByteSeq seq start : SequenceNumber32}
  {before : List TcpTxItem}

/-- The walk stops behind the items `before`, at an item of at most `limit` bytes that begins at
`seq`. -/
def Stops (isSentList : Bool) (firstByteSeq seq start : SequenceNumber32)
    (before : List TcpTxItem) (limit : Nat) : Prop :=
  ∀ (item : TcpTxItem) (after : List TcpTxItem), (isSentList = true → item.startSeq = seq) →
    0 < item.size → item.size ≤ limit →
    walkTo isSentList firstByteSeq seq start (before ++ item :: after) =
      .ok ⟨⟨before, item, after⟩, seq⟩

theorem le_add_iff {m : Nat} (hm : m < n + 2 ^ 31) (hn : n < m + 2 ^ 31) :
    (seq.add m).le (seq.add n) = true ↔ m ≤ n := by
  rw [le_offsets hm hn, decide_eq_true_eq]

variable {fuel retrans nextNode limit : Nat}

theorem getPacketFromList_whole (hstops : Stops isSentList firstByteSeq seq start before limit)
    (hlimit : limit ≤ 2 ^ 31) (hstart : isSentList = true → item.startSeq = seq) (hn : 0 < n)
    (hle : n ≤ item.size) (hsize : item.size ≤ limit) :
    ∃ found, getPacketFromList isSentList firstByteSeq start n seq (fuel + 1)
        ⟨before ++ item :: rest, retrans, nextNode⟩ = .ok found ∧
      found.item.startSeq = item.startSeq ∧ found.item.sacked = item.sacked ∧
      found.item.retrans = item.retrans := by
  have hend : (seq.add n).le (seq.add item.size) = true :=
    (le_add_iff (by omega) (by omega)).mpr hle
  rw [getPacketFromList, hstops item rest hstart (by omega) hsize, ok_bind]
  dsimp only
  rw [if_pos rfl, if_pos hend]
  split
  · exact ⟨_, rfl, rfl, rfl, rfl⟩
  · rw [if_pos (by omega)]
    exact ⟨_, rfl, rfl, rfl, rfl⟩

theorem getPacketFromList_joins (hstops : Stops isSentList firstByteSeq seq start before limit)
    (hlimit : limit ≤ 2 ^ 31) (hstart : isSentList = true → item.startSeq = seq) (hn : 0 < n)
    (hitem : 0 < item.size) (hne : Nonempty rest) (hle : n ≤ item.size + bytes rest)
    (hsize : item.size + bytes rest ≤ limit) (hfuel : rest.length < fuel) :
    (SharesMarks (touched n (item :: rest)) →
      ∃ found, getPacketFromList isSentList firstByteSeq start n seq fuel
          ⟨before ++ item :: rest, retrans, nextNode⟩ = .ok found ∧
        found.item.startSeq = item.startSeq ∧ found.item.sacked = item.sacked ∧
        found.item.retrans = (touched n (item :: rest)).all (·.retrans)) ∧
    (¬SharesMarks (touched n (item :: rest)) →
      ∃ e, getPacketFromList isSentList firstByteSeq start n seq fuel
        ⟨before ++ item :: rest, retrans, nextNode⟩ = .error e) := by
  obtain ⟨fuel, rfl⟩ := Nat.exists_eq_add_of_le' (show 1 ≤ fuel by omega)
  induction rest generalizing item fuel retrans with
  | nil =>
    rw [bytes_nil, Nat.add_zero] at hle hsize
    rw [touched_whole hle]
    refine ⟨fun _ => ?_, fun h => absurd (List.forall_mem_nil _) h⟩
    obtain ⟨found, hfound, hseq, hsacked, hretrans⟩ :=
      getPacketFromList_whole hstops hlimit hstart hn hle hsize
    refine ⟨found, hfound, hseq, hsacked, ?_⟩
    rw [hretrans, List.all_cons, List.all_nil, Bool.and_true]
  | cons next rest ih =>
    rw [nonempty_cons] at hne
    rw [bytes_cons] at hle hsize
    rw [List.length_cons] at hfuel
    rcases Nat.lt_or_ge item.size n with hmore | hless
    · -- the item is too small: it is joined with its successor
      have hend : ¬(seq.add n).le (seq.add item.size) = true := by
        rw [le_add_iff (by omega) (by omega)]
        omega
      have hround : getPacketFromList isSentList firstByteSeq start n seq (fuel + 1)
          ⟨before ++ item :: next :: rest, retrans, nextNode⟩ =
          (mergeItems retrans item next >>= fun joined =>
            getPacketFromList isSentList firstByteSeq start n seq fuel
              ⟨before ++ joined.2 :: rest, joined.1, nextNode⟩) := by
        rw [getPacketFromList, hstops item (next :: rest) hstart hitem (by omega), ok_bind]
        dsimp only
        rw [if_pos rfl, if_neg hend]
      rw [hround]
      by_cases hmarks : item.sacked = next.sacked ∧ item.lost = next.lost
      · obtain ⟨retrans', merged, hmerge, hsum, hseq, hsacked, hlost, hretrans⟩ :=
          mergeItems_joins retrans hmarks.1 hmarks.2
        obtain ⟨others, htouched, htouched'⟩ := touched_merged rest hmore hsum
        obtain ⟨fuel, rfl⟩ := Nat.exists_eq_add_of_le' (show 1 ≤ fuel by omega)
        have ih := @ih merged retrans' (fun h => hseq.trans (hstart h)) (by omega) hne.2
          (by omega) (by omega) fuel (by omega)
        have hshares : SharesMarks (item :: next :: others) ↔ SharesMarks (merged :: others) := by
          rw [SharesMarks, SharesMarks, List.forall_mem_cons, and_iff_right hmarks, hsacked, hlost]
        have hall : (merged :: others).all (·.retrans) =
            (item :: next :: others).all (·.retrans) := by
          rw [List.all_cons, List.all_cons, List.all_cons, hretrans, Bool.and_assoc]
        rw [htouched', hseq, hsacked, hall] at ih
        rw [htouched, hshares, hmerge, ok_bind]
        exact ih
      · have hnext : next ∈ touched (n - item.size) (next :: rest) := touched_first
        rw [touched_beyond hmore]
        obtain ⟨e, hrefuses⟩ := mergeItems_refuses retrans hmarks
        refine ⟨fun h => absurd (h next hnext) hmarks, fun _ => ⟨e, ?_⟩⟩
        rw [hrefuses]
        rfl
    · rw [touched_whole hless]
      refine ⟨fun _ => ?_, fun h => absurd (List.forall_mem_nil _) h⟩
      obtain ⟨found, hfound, hseq, hsacked, hretrans⟩ :=
        getPacketFromList_whole hstops hlimit hstart hn hless (by omega)
      refine ⟨found, hfound, hseq, hsacked, ?_⟩
      rw [hretrans, List.all_cons, List.all_nil, Bool.and_true]

theorem stops_of (hne : Nonempty before)
    (hassert : isSentList = true → ∀ x ∈ before, x.startSeq.ge firstByteSeq = true)
    (hseq : isSentList = true → seq.ge firstByteSeq = true)
    (hbegin : start.add (bytes before) = seq)
    (hskip : ∀ e, 0 < e → e ≤ bytes before → seq.lt (start.add e) = false)
    (hstop : ∀ d, 0 < d → d ≤ limit → seq.lt (seq.add d) = true) :
    Stops isSentList firstByteSeq seq start before limit := by
  intro item after hstart hpos hle
  induction before generalizing start with
  | nil =>
    rw [bytes_nil, add_zero] at hbegin
    subst hbegin
    have hok : (!isSentList || item.startSeq.ge firstByteSeq) = true := by
      cases isSentList with
      | false => rfl
      | true => rw [hstart rfl, hseq rfl]; rfl
    rw [List.nil_append, walkTo, nsAssert, if_pos hok, ok_bind, if_pos (hstop _ hpos hle)]
    rfl
  | cons x before ih =>
    rw [nonempty_cons] at hne
    rw [bytes_cons] at hbegin hskip
    have hok : (!isSentList || x.startSeq.ge firstByteSeq) = true := by
      cases isSentList with
      | false => rfl
      | true => rw [hassert rfl x (.head _)]; rfl
    have hgo : ¬seq.lt (start.add x.size) = true := by
      rw [hskip x.size hne.1 (Nat.le_add_right _ _)]
      exact Bool.false_ne_true
    have hrest := ih hne.2 (fun h y hy => hassert h y (.tail _ hy))
      (by rw [add_add]; exact hbegin)
      (fun e he hle => by rw [add_add]; exact hskip _ (by omega) (by omega))
    rw [List.cons_append, walkTo, nsAssert, if_pos hok, ok_bind, if_neg hgo, hrest]
    rfl

end Search

variable {a b : SequenceNumber32}

theorem gt_of_not_gt (hne : a ≠ b) (h : gt a b = false) : gt b a = true := by
  have hvalue : a.value.toNat ≠ b.value.toNat := by
    intro heq
    apply hne
    cases a
    cases b
    exact congrArg SequenceNumber.mk (BitVec.eq_of_toNat_eq heq)
  have hhalf : halfMaxValue 32 = 2 ^ 31 - 1 := by decide
  simp only [gt, hhalf, Bool.or_eq_false_iff, Bool.and_eq_false_iff, decide_eq_false_iff_not,
    Bool.or_eq_true, Bool.and_eq_true, decide_eq_true_eq] at h ⊢
  omega

theorem ge_of_le (h : le a b = true) : ge b a = true := by
  rw [le, Bool.not_eq_true'] at h
  by_cases heq : b = a
  · rw [ge, decide_eq_true heq, Bool.or_true]
  · rw [ge, gt_of_not_gt (fun h => heq h.symm) h, Bool.true_or]

namespace TcpTxBuffer

/-! ## Requests -/

/-- The number asked for lies in the buffer, not beyond the first unsent byte; there begins a
sent item that is not sacked, or the unsent data. -/
structure Requested (b : TcpTxBuffer) (seq : SequenceNumber32) : Prop where
  head : b.headSequence.le seq = true
  unsent : seq.le b.firstUnsent = true
  tail : seq.lt b.tailSequence = true
  start : (∃ item ∈ b.sentList, item.startSeq = seq ∧ item.sacked = false) ∨ seq = b.firstUnsent

def copied (b : TcpTxBuffer) (numBytes : Nat) (seq : SequenceNumber32) : Nat :=
  min numBytes (b.sizeFromSequence seq)

/-- When a request is answered: a block sent in part must not reach the wrap of the numbers; the
unsent items of a new block must share their marks, and not all be marked as retransmitted. -/
def CanCopy (b : TcpTxBuffer) (numBytes : Nat) (seq : SequenceNumber32) : Prop :=
  if seq = b.firstUnsent then
    SharesMarks (touched (b.copied numBytes seq) b.appList) ∧
      ∃ item ∈ touched (b.copied numBytes seq) b.appList, item.retrans = false
  else b.firstUnsent.lt (seq.add (b.copied numBytes seq)) = true →
    seq.value.toNat + b.copied numBytes seq < 2 ^ 32

section Requests

variable {b : TcpTxBuffer} {data : List UInt8} {seq : SequenceNumber32} {now : Time}
  {numBytes : Nat}

theorem Requested.offset (h : b.Holds data) (hsize : b.size < 2 ^ 32) (hseq : b.Requested seq) :
    ∃ k ≤ b.sentSize, seq = b.firstByteSeq.add k ∧ k ≤ 2 ^ 31 ∧ k < b.size ∧
      b.size - k ≤ 2 ^ 31 := by
  have hsent := h.sentSize_le
  obtain ⟨k, hk, hkseq⟩ : ∃ k ≤ b.sentSize, seq = b.firstByteSeq.add k := by
    rcases hseq.start with ⟨item, hitem, hstart, -⟩ | heq
    · obtain ⟨k, hk, hkseq⟩ := chain_start_of_mem h.chain h.sent_nonempty hitem
      rw [← h.sentSize_eq] at hk
      exact ⟨k, hk.le, hstart.symm.trans hkseq⟩
    · exact ⟨b.sentSize, le_refl _, heq⟩
  have hhead := hseq.head
  have htail := hseq.tail
  rw [le, Bool.not_eq_true'] at hhead
  rw [lt, Bool.and_eq_true, Bool.not_eq_true', decide_eq_true_eq] at htail
  have hfar := pos_le_half hhead
  have hahead := pos_le_half htail.1
  rw [hkseq, headSequence, pos_base_add (by omega)] at hfar
  rw [hkseq, tailSequence, pos_offsets (by omega) (by omega)] at hahead
  refine ⟨k, hk, hkseq, hfar, ?_, hahead⟩
  apply Nat.lt_of_le_of_ne (hk.trans hsent)
  rintro rfl
  exact htail.2 hkseq

theorem Requested.sizeFromSequence_eq {k : Nat} (hsize : b.size < 2 ^ 32)
    (hseq : b.Requested seq) (hk : k ≤ b.size) (hkseq : seq = b.firstByteSeq.add k) :
    b.sizeFromSequence seq = b.size - k := by
  have htail := hseq.tail
  rw [lt, Bool.and_eq_true, Bool.not_eq_true', decide_eq_true_eq] at htail
  have hge : b.tailSequence.ge seq = true := by
    rw [ge, gt_of_not_gt htail.2 htail.1, Bool.true_or]
  rw [sizeFromSequence, if_pos hge, hkseq, tailSequence, distance_offsets hk (by omega)]

theorem Requested.lt_add {k d : Nat} (hseq : b.Requested seq) (hkseq : seq = b.firstByteSeq.add k)
    (hfar : b.size - k ≤ 2 ^ 31) (hk : k ≤ b.size) (hpos : 0 < d) (hd : d ≤ b.size - k) :
    seq.lt (seq.add d) = true := by
  rcases Nat.lt_or_ge d (2 ^ 31) with hless | hhalf
  · have hlt := @lt_offsets seq 0 d (by omega) (by omega)
    rw [add_zero] at hlt
    rw [hlt, decide_eq_true hpos]
  · have htail : seq.add d = b.tailSequence := by
      rw [hkseq, add_add, tailSequence, show k + d = b.size by omega]
    rw [htail]
    exact hseq.tail

theorem Requested.ge_head (hseq : b.Requested seq) : seq.ge b.firstByteSeq = true :=
  ge_of_le hseq.head

theorem stampItem_ok {b' : TcpTxBuffer} {ref : ItemRef} (hseq : b.Requested seq)
    (hstart : ref.item.startSeq = seq) (hhead : b'.firstByteSeq = b.firstByteSeq) :
    ∃ b'' item, stampItem now b' ref = .ok (b'', some item) ∧ item.startSeq = seq := by
  have hok : ref.item.startSeq.ge b'.firstByteSeq = true := by
    rw [hstart, hhead]
    exact hseq.ge_head
  rw [stampItem]
  dsimp only
  rw [nsAssert, if_pos hok, ok_bind]
  exact ⟨_, _, rfl, hstart⟩

/-! ## New blocks -/

theorem getNewSegment_iff (h : b.Holds data) (hsize : b.size < 2 ^ 32)
    (hseq : b.Requested b.firstUnsent) {s : Nat} (hs : 0 < s) (hle : s ≤ b.size - b.sentSize) :
    (SharesMarks (touched s b.appList) →
      ∃ b' ref, b.getNewSegment s = .ok (b', ref) ∧ ref.item.startSeq = b.firstUnsent ∧
        ref.item.retrans = (touched s b.appList).all (·.retrans) ∧
        b'.firstByteSeq = b.firstByteSeq) ∧
    (¬SharesMarks (touched s b.appList) → ∃ e, b.getNewSegment s = .error e) := by
  have happ := h.size_eq
  rw [← h.sentSize_eq] at happ
  obtain ⟨k, hk, hkseq, hnear, hlt, hfar⟩ := hseq.offset h hsize
  have hsent := h.sentSize_le
  have hkS : k = b.sentSize := by
    rw [firstUnsent, eq_comm, add_inj_offsets (by omega) (by omega)] at hkseq
    exact hkseq
  subst hkS
  rw [getNewSegment]
  cases hlist : b.appList with
  | nil =>
    rw [hlist, bytes_nil] at happ
    omega
  | cons item rest =>
    have hne := h.app_nonempty
    rw [hlist, nonempty_cons] at hne
    rw [hlist, bytes_cons] at happ
    have hstops : Stops false b.firstByteSeq b.firstUnsent b.firstUnsent []
        (b.size - b.sentSize) := by
      refine stops_of (List.forall_mem_nil _) (fun h => by cases h)
        (fun h => by cases h) (add_zero _) ?_ ?_
      · intro e he hle
        rw [bytes_nil] at hle
        omega
      · intro d hd hle
        exact hseq.lt_add rfl hfar hsent hd hle
    obtain ⟨hfound, hrefused⟩ := getPacketFromList_joins hstops hfar (fun h => by cases h) hs hne.1
      hne.2 (by omega) (by omega) (show rest.length < searchFuel (item :: rest) by
        rw [searchFuel, List.length_cons]
        omega)
    refine ⟨fun hmarks => ?_, fun hmarks => ?_⟩
    · obtain ⟨found, hsearch, -, -, hretrans⟩ := hfound hmarks
      rw [List.nil_append] at hsearch
      rw [hsearch]
      exact ⟨_, _, rfl, rfl, hretrans, rfl⟩
    · obtain ⟨e, hsearch⟩ := hrefused hmarks
      rw [List.nil_append] at hsearch
      rw [hsearch]
      exact ⟨e, rfl⟩

/-! ## Blocks that were sent -/

theorem retransmitSize_eq {before after : List TcpTxItem} {item : TcpTxItem} {s : Nat}
    (hfirst : ∀ x ∈ before, x.startSeq ≠ seq) (hstart : item.startSeq = seq)
    (hsacked : item.sacked = false) (hs : 0 < s) (hitem : 0 < item.size)
    (hspan : item.size + bytes after < 2 ^ 32) :
    ∃ n, retransmitSize seq s (before ++ item :: after) = n ∧ 0 < n ∧
      n ≤ item.size + bytes after ∧ SharesMarks (touched n (item :: after)) := by
  induction before with
  | nil =>
    have halone : ∀ n, n ≤ item.size → SharesMarks (touched n (item :: after)) := by
      intro n hn
      rw [touched_whole hn]
      exact List.forall_mem_nil _
    rw [List.nil_append]
    cases after with
    | nil =>
      have heq : retransmitSize seq s [item] = min s item.size := by
        simp only [retransmitSize, if_pos hstart]
      refine ⟨_, heq, lt_min hs hitem, ?_, halone _ (min_le_right _ _)⟩
      exact (min_le_right _ _).trans (Nat.le_add_right _ _)
    | cons next rest =>
      rw [bytes_cons] at hspan ⊢
      have heq : retransmitSize seq s (item :: next :: rest) =
          if !next.sacked && item.lost == next.lost then min s (wadd 32 item.size next.size)
          else min s item.size := by
        simp only [retransmitSize, if_pos hstart]
      rw [heq]
      by_cases hmarks : (!next.sacked && item.lost == next.lost) = true
      · rw [if_pos hmarks, wadd_eq (by omega)]
        rw [Bool.and_eq_true, Bool.not_eq_true', beq_iff_eq] at hmarks
        refine ⟨_, rfl, lt_min hs (by omega), (min_le_right _ _).trans (by omega), ?_⟩
        rcases Nat.lt_or_ge item.size (min s (item.size + next.size)) with hmore | hless
        · have hnext : min s (item.size + next.size) - item.size ≤ next.size := by omega
          rw [touched_beyond hmore, touched_whole hnext]
          intro other hin
          rw [List.mem_singleton.mp hin, hsacked, hmarks.1]
          exact ⟨rfl, hmarks.2⟩
        · exact halone _ hless
      · rw [if_neg hmarks]
        refine ⟨_, rfl, lt_min hs hitem, (min_le_right _ _).trans (by omega), ?_⟩
        exact halone _ (min_le_right _ _)
  | cons x before ih =>
    have heq : retransmitSize seq s (x :: before ++ item :: after) =
        retransmitSize seq s (before ++ item :: after) := by
      simp only [List.cons_append, retransmitSize, if_neg (hfirst x (.head _))]
    rw [heq]
    exact ih fun y hy => hfirst y (.tail _ hy)

theorem getTransmittedSegment_ok (h : b.Holds data) (hsize : b.size < 2 ^ 32)
    (hseq : b.Requested seq) (hitem : item ∈ b.sentList) (hstart : item.startSeq = seq)
    (hsacked : item.sacked = false) {s : Nat} (hs : 0 < s) (hle : s ≤ b.sentSize) :
    ∃ b' ref, b.getTransmittedSegment s seq = .ok (b', ref) ∧ ref.item.startSeq = seq ∧
      ref.item.sacked = false ∧ b'.firstByteSeq = b.firstByteSeq := by
  obtain ⟨before, after, hlist⟩ := List.append_of_mem hitem
  obtain ⟨k, hk, hkseq, hnear, hlt, hfar⟩ := hseq.offset h hsize
  have hsent := h.sentSize_le
  have hspan := h.sentSize_eq
  have hchain := h.chain
  have hne := h.sent_nonempty
  rw [hlist] at hchain hne hspan
  rw [bytes_append, bytes_cons] at hspan
  obtain ⟨hbefore, hhere, hafter⟩ := chain_append.mp hchain
  obtain ⟨hnebefore, hnerest⟩ := nonempty_append.mp hne
  rw [nonempty_cons] at hnerest
  have hbegin : b.firstByteSeq.add (bytes before) = seq := hhere.symm.trans hstart
  have hkbefore : k = bytes before := by
    rw [hkseq, eq_comm, add_inj_offsets (by omega) (by omega)] at hbegin
    exact hbegin
  have hearlier : ∀ x ∈ before, ∃ o < k, x.startSeq = b.firstByteSeq.add o := by
    intro x hx
    obtain ⟨o, ho, hxstart⟩ := chain_start_of_mem hbefore hnebefore hx
    exact ⟨o, by omega, hxstart⟩
  have hfirst : ∀ x ∈ before, x.startSeq ≠ seq := by
    intro x hx heq
    obtain ⟨o, ho, hxstart⟩ := hearlier x hx
    rw [hxstart, hkseq, add_inj_offsets (by omega) (by omega)] at heq
    omega
  have hstops : Stops true b.firstByteSeq seq b.firstByteSeq before (b.size - k) := by
    refine stops_of hnebefore ?_ (fun _ => hseq.ge_head) hbegin ?_ ?_
    · intro _ x hx
      obtain ⟨o, ho, hxstart⟩ := hearlier x hx
      have hge := @ge_offsets b.firstByteSeq o 0 (by omega) (by omega)
      rw [add_zero] at hge
      rw [hxstart, hge, decide_eq_true (Nat.zero_le o)]
    · intro e he hle
      rw [hkseq, lt_offsets (by omega) (by omega), decide_eq_false (by omega)]
    · intro d hd hle
      exact hseq.lt_add hkseq hfar hlt.le hd hle
  obtain ⟨n, hn, hpos, hwithin, hmarks⟩ :=
    @retransmitSize_eq seq before after item s hfirst hstart hsacked hs hnerest.1 (by omega)
  have hfuel : after.length < searchFuel (before ++ item :: after) := by
    rw [searchFuel, List.length_append, List.length_cons]
    omega
  obtain ⟨found, hsearch, hfoundseq, hfoundsacked, -⟩ :=
    (getPacketFromList_joins hstops hfar (fun _ => hstart) hpos hnerest.1 hnerest.2 hwithin
      (by omega) hfuel).1 hmarks
  have hnonempty : (!(before ++ item :: after).isEmpty) = true := by
    cases before <;> rfl
  rw [getTransmittedSegment, nsAssert, if_pos hseq.ge_head, ok_bind, nsAssert_of hle, ok_bind,
    hlist, nsAssert, if_pos hnonempty, ok_bind]
  dsimp only
  rw [hn, hsearch]
  exact ⟨_, _, rfl, hfoundseq.trans hstart, hfoundsacked.trans hsacked, rfl⟩

/-! ## Copying -/

/-- A block that was sent is always found. -/
theorem copy_sent (h : b.Holds data) (hsize : b.size < 2 ^ 32) (hseq : b.Requested seq)
    (hne : seq ≠ b.firstUnsent) {fuel : Nat} (hpos : 0 < b.copied numBytes seq)
    (hsent : b.firstUnsent.ge (seq.add (b.copied numBytes seq)) = true)
    (hle : b.copied numBytes seq ≤ b.sentSize) :
    ∃ b' item, copyFromSequenceFuel now b (fuel + 1) numBytes seq = .ok (b', some item) ∧
      item.startSeq = seq := by
  have hhead : ¬b.firstByteSeq.gt seq = true := by
    have hle := hseq.head
    rw [le, Bool.not_eq_true'] at hle
    exact Bool.eq_false_iff.mp hle
  obtain ⟨item, hitem, hstart, hsacked⟩ := hseq.start.resolve_right hne
  obtain ⟨b', ref, hfound, hrefseq, hrefsacked, hfirst⟩ :=
    getTransmittedSegment_ok h hsize hseq hitem hstart hsacked hpos hle
  obtain ⟨b'', found, hstamp, hfoundseq⟩ := @stampItem_ok b seq now b' ref hseq hrefseq hfirst
  have hmark : (!ref.item.sacked) = true := by
    rw [hrefsacked]
    rfl
  refine ⟨b'', found, ?_, hfoundseq⟩
  rw [copied] at hpos hsent hfound
  rw [copyFromSequenceFuel, if_neg hhead]
  dsimp only
  rw [if_neg hpos.ne', if_pos hsent, hfound, ok_bind]
  dsimp only
  rw [nsAssert, if_pos hmark, ok_bind]
  exact hstamp

theorem values_between_iff {v d s : Nat} (hv : v < 2 ^ 32) (hd : 0 < d) (hds : d < s)
    (hs : s ≤ 2 ^ 31) : (v < wadd 32 v d ∧ wadd 32 v d < wadd 32 v s) ↔ v + s < 2 ^ 32 := by
  rw [wadd, wadd]
  omega

/-- A block sent in part is found unless it lies across the wrap. -/
theorem copy_sentPart (h : b.Holds data) (hsize : b.size < 2 ^ 32) (hseq : b.Requested seq)
    {k : Nat} (hkseq : seq = b.firstByteSeq.add k) (hk : k < b.sentSize)
    (hfar : b.size - k ≤ 2 ^ 31) (hpos : 0 < numBytes)
    (hmore : b.sentSize < k + b.copied numBytes seq) :
    (∃ b' item, b.copyFromSequence now numBytes seq = .ok (b', some item) ∧
      item.startSeq = seq) ↔ seq.value.toNat + b.copied numBytes seq < 2 ^ 32 := by
  have hsent := h.sentSize_le
  have hcopied : ∀ n, b.copied n seq = min n (b.size - k) := fun n => by
    rw [copied, hseq.sizeFromSequence_eq hsize (by omega) hkseq]
  have hs := hcopied numBytes
  have hend : ∀ n, seq.add n = b.firstByteSeq.add (k + n) := fun n => by rw [hkseq, add_add]
  have hhead : ¬b.firstByteSeq.gt seq = true := by
    have hle := hseq.head
    rw [le, Bool.not_eq_true'] at hle
    exact Bool.eq_false_iff.mp hle
  have hge : ¬b.firstUnsent.ge (seq.add (b.copied numBytes seq)) = true := by
    rw [hend, firstUnsent, ge_offsets (by omega) (by omega), decide_eq_true_eq]
    omega
  have hne : seq ≠ b.firstUnsent := by
    rw [hkseq, firstUnsent, Ne, add_inj_offsets (by omega) (by omega)]
    omega
  have hle : ¬b.firstUnsent.le seq = true := by
    rw [le, Bool.not_eq_true', Bool.not_eq_false]
    have hunsent := hseq.unsent
    rw [le, Bool.not_eq_true'] at hunsent
    exact gt_of_not_gt hne hunsent
  have hvalue : wadd 32 b.firstByteSeq.value.toNat b.sentSize =
      wadd 32 seq.value.toNat (b.sentSize - k) := by
    rw [hkseq, wadd, wadd, SequenceNumber.add, BitVec.toNat_add, BitVec.toNat_ofNat]
    omega
  have hstep : b.copyFromSequence now numBytes seq =
      if seq.value.toNat + b.copied numBytes seq < 2 ^ 32 then
        copyFromSequenceFuel now b numBytes (b.sentSize - k) seq
      else .error .nullDereference := by
    have hamount : wsub 32 (wadd 32 seq.value.toNat (b.sentSize - k)) seq.value.toNat =
        b.sentSize - k := by
      rw [wsub, wadd]
      omega
    have hbetween := @values_between_iff seq.value.toNat (b.sentSize - k) (b.copied numBytes seq)
      seq.value.isLt (by omega) (by omega) (by omega)
    rw [copyFromSequence, copyFromSequenceFuel, if_neg hhead]
    rw [copied] at hmore hge hbetween ⊢
    dsimp only
    rw [if_neg (by omega), if_neg hge, if_neg hle, hvalue, hamount]
    apply if_congr _ rfl rfl
    rw [Bool.and_eq_true, decide_eq_true_eq, decide_eq_true_eq]
    exact hbetween
  rw [hstep]
  split
  · rename_i hwrap
    refine ⟨fun _ => hwrap, fun _ => ?_⟩
    -- the request is repeated for the part that was sent
    obtain ⟨fuel, rfl⟩ := Nat.exists_eq_add_of_le' (show 1 ≤ numBytes by omega)
    have hpart : b.copied (b.sentSize - k) seq = b.sentSize - k := by
      rw [hcopied]
      omega
    refine copy_sent h hsize hseq hne (by omega) ?_ (by omega)
    rw [hpart, hend, firstUnsent, show k + (b.sentSize - k) = b.sentSize by omega, ge,
      decide_eq_true rfl, Bool.or_true]
  · rename_i hwrap
    refine ⟨?_, fun h => absurd h hwrap⟩
    rintro ⟨_, _, herror, -⟩
    cases herror

/-- A new block is cut when the items it joins carry the same marks. -/
theorem copy_new (h : b.Holds data) (hsize : b.size < 2 ^ 32)
    (hseq : b.Requested b.firstUnsent) (hpos : 0 < numBytes) :
    (∃ b' item, b.copyFromSequence now numBytes b.firstUnsent = .ok (b', some item) ∧
      item.startSeq = b.firstUnsent) ↔
    SharesMarks (touched (b.copied numBytes b.firstUnsent) b.appList) ∧
      ∃ item ∈ touched (b.copied numBytes b.firstUnsent) b.appList, item.retrans = false := by
  have hsent := h.sentSize_le
  have hs : b.copied numBytes b.firstUnsent = min numBytes (b.size - b.sentSize) := by
    rw [copied, hseq.sizeFromSequence_eq hsize hsent rfl]
  obtain ⟨k, hk, hkseq, -, hlt, hfar⟩ := hseq.offset h hsize
  have hkS : k = b.sentSize := by
    rw [firstUnsent, eq_comm, add_inj_offsets (by omega) (by omega)] at hkseq
    exact hkseq
  subst hkS
  have hhead : ¬b.firstByteSeq.gt b.firstUnsent = true := by
    have hle := hseq.head
    rw [le, Bool.not_eq_true'] at hle
    exact Bool.eq_false_iff.mp hle
  have hge : ¬b.firstUnsent.ge (b.firstUnsent.add (b.copied numBytes b.firstUnsent)) = true := by
    have hlt := hseq.lt_add rfl hfar hsent (show 0 < b.copied numBytes b.firstUnsent by omega)
      (by omega)
    rw [lt, Bool.and_eq_true, Bool.not_eq_true', decide_eq_true_eq] at hlt
    rw [ge, hlt.1, Bool.false_or, decide_eq_true_eq]
    exact hlt.2
  have hstep : b.copyFromSequence now numBytes b.firstUnsent =
      (b.getNewSegment (b.copied numBytes b.firstUnsent) >>= fun found => do
        nsAssert (!found.2.item.retrans)
        stampItem now found.1 found.2) := by
    rw [copyFromSequence, copyFromSequenceFuel, if_neg hhead]
    rw [copied] at hs hge ⊢
    dsimp only
    rw [if_neg (by omega), if_neg hge, if_pos hseq.unsent, if_pos rfl]
  obtain ⟨hjoined, hrefused⟩ := getNewSegment_iff h hsize hseq
    (show 0 < b.copied numBytes b.firstUnsent by omega) (by omega)
  rw [hstep]
  by_cases hmarks : SharesMarks (touched (b.copied numBytes b.firstUnsent) b.appList)
  · obtain ⟨b', ref, hfound, hstart, hretrans, hfirst⟩ := hjoined hmarks
    rw [hfound, ok_bind, and_iff_right hmarks]
    dsimp only
    constructor
    · rintro ⟨_, _, hok, -⟩
      obtain ⟨_, hassert, -⟩ := bind_eq_ok.mp hok
      have hfresh := nsAssert_eq_ok.mp hassert
      rw [hretrans, Bool.not_eq_true', List.all_eq_false] at hfresh
      obtain ⟨item, hin, hitem⟩ := hfresh
      exact ⟨item, hin, Bool.eq_false_iff.mpr hitem⟩
    · rintro ⟨item, hin, hitem⟩
      have hfresh : (!ref.item.retrans) = true := by
        rw [hretrans, Bool.not_eq_true', List.all_eq_false]
        exact ⟨item, hin, Bool.eq_false_iff.mp hitem⟩
      rw [nsAssert, if_pos hfresh, ok_bind]
      exact stampItem_ok hseq hstart hfirst
  · obtain ⟨e, hfound⟩ := hrefused hmarks
    rw [hfound]
    refine ⟨?_, fun h => absurd h.1 hmarks⟩
    rintro ⟨_, _, hok, -⟩
    cases hok

def wrapsUnsent : TcpTxBuffer where
  sentList := [{ node := 0, startSeq := .ofNat (2 ^ 32 - 60), packet := List.replicate 50 0 }]
  appList := [{ node := 1, packet := List.replicate 50 0 }]
  size := 100
  sentSize := 50
  firstByteSeq := .ofNat (2 ^ 32 - 60)
  segmentSize := 100

theorem wrapsUnsent_holds : wrapsUnsent.Holds (List.replicate 100 0) := by
  refine ⟨by decide +kernel, ⟨rfl, trivial⟩, by decide +kernel, by decide +kernel, ?_, ?_⟩
  · intro item hitem
    rw [List.mem_singleton.mp hitem]
    decide
  · intro item hitem
    rw [List.mem_singleton.mp hitem]
    decide

theorem wrapsUnsent_requested : wrapsUnsent.Requested (.ofNat (2 ^ 32 - 60)) where
  head := by decide
  unsent := by decide
  tail := by decide
  start := .inl ⟨_, .head _, rfl, rfl⟩

/-- **Which requests are answered.**  `CopyFromSequence` hands out an item that begins at the
number asked for exactly if the block does not reach the wrap with a part that was not sent, or
the unsent items it touches can be joined. -/
theorem copyFromSequence_iff (h : b.Holds data) (hsize : b.size < 2 ^ 32)
    (hseq : b.Requested seq) (hpos : 0 < numBytes) :
    (∃ b' item, b.copyFromSequence now numBytes seq = .ok (b', some item) ∧
      item.startSeq = seq) ↔ b.CanCopy numBytes seq := by
  obtain ⟨k, hk, hkseq, -, hlt, hfar⟩ := hseq.offset h hsize
  have hsent := h.sentSize_le
  have hs : b.copied numBytes seq = min numBytes (b.size - k) := by
    rw [copied, hseq.sizeFromSequence_eq hsize hlt.le hkseq]
  have hend : seq.add (b.copied numBytes seq) =
      b.firstByteSeq.add (k + b.copied numBytes seq) := by
    rw [hkseq, add_add]
  by_cases hnew : seq = b.firstUnsent
  · rw [CanCopy, if_pos hnew]
    subst hnew
    exact copy_new h hsize hseq hpos
  · have hbelow : k < b.sentSize := by
      apply Nat.lt_of_le_of_ne hk
      rintro rfl
      exact hnew hkseq
    rw [CanCopy, if_neg hnew]
    rcases Nat.lt_or_ge b.sentSize (k + b.copied numBytes seq) with hmore | hless
    · have hafter : b.firstUnsent.lt (seq.add (b.copied numBytes seq)) = true := by
        rw [hend, firstUnsent, lt_offsets (by omega) (by omega), decide_eq_true hmore]
      rw [copy_sentPart h hsize hseq hkseq hbelow hfar hpos hmore]
      exact ⟨fun h _ => h, fun h => h hafter⟩
    · have hbefore : b.firstUnsent.lt (seq.add (b.copied numBytes seq)) = false := by
        rw [hend, firstUnsent, lt_offsets (by omega) (by omega), decide_eq_false (by omega)]
      have hge : b.firstUnsent.ge (seq.add (b.copied numBytes seq)) = true := by
        rw [hend, firstUnsent, ge_offsets (by omega) (by omega), decide_eq_true hless]
      refine ⟨fun _ h => absurd (hbefore.symm.trans h) Bool.false_ne_true, fun _ => ?_⟩
      exact copy_sent h hsize hseq hnew (by omega) hge (by omega)

/-- Up to the wrap the part that was sent is handed out. -/
theorem copyFromSequence_iff_sentPart :
    ∃ b' item, wrapsUnsent.copyFromSequence 0 59 (.ofNat (2 ^ 32 - 60)) = .ok (b', some item) ∧
      item.startSeq = .ofNat (2 ^ 32 - 60) := by
  have hcopy := @copyFromSequence_iff wrapsUnsent _ (.ofNat (2 ^ 32 - 60)) 0 59
    wrapsUnsent_holds (by decide) wrapsUnsent_requested (by decide)
  rw [CanCopy, if_neg (by decide +kernel)] at hcopy
  exact hcopy.mpr fun _ => by decide +kernel

/-- Beyond the wrap no case matches: the null item is stamped. -/
theorem wrapsUnsent_nullDereference :
    wrapsUnsent.Holds (List.replicate 100 0) ∧
      wrapsUnsent.Requested (.ofNat (2 ^ 32 - 60)) ∧
      wrapsUnsent.copyFromSequence 0 100 (.ofNat (2 ^ 32 - 60)) = .error .nullDereference :=
  ⟨wrapsUnsent_holds, wrapsUnsent_requested, by rfl⟩

end Requests

end TcpTxBuffer

end Ns3.Tcp
