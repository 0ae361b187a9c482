/-
  What `NextSeg` proposes to send next.

  One pass over the sent items looks for a lost one and remembers an item for the
  third rule on the way.  That an item is remembered is told from its sequence
  number, which must not be zero; an item that begins at number zero is replaced
  by the next one.
-/
import Ns3.Internet.Tcp.TxStream

namespace Ns3.Tcp

open Ns3.Lib SequenceNumber

namespace TcpTxBuffer

/-! ## The rules -/

/-- Conditions (1.a) and (1.b): the item is neither retransmitted nor sacked, and
lies below the highest SACK if one was seen. -/
def mayRetransmit (b : TcpTxBuffer) (item : TcpTxItem) : Bool :=
  !item.retrans && !item.sacked &&
    ((b.sackSeen && item.startSeq.lt b.highestSack.2) || !b.sackSeen)

/-- The items that may be retransmitted, in the order of their sequence numbers. -/
def candidates (b : TcpTxBuffer) : List TcpTxItem := b.sentList.filter b.mayRetransmit

def BeginsAt (item : TcpTxItem) (result : Option (SequenceNumber32 × SequenceNumber32)) : Prop :=
  ∃ seqHigh, result = some (item.startSeq, seqHigh)

/-- The segment is one of unsent data, no longer than a segment and than what the
receiver's window has left. -/
def SendsUnsent (b : TcpTxBuffer) (rWnd : Nat)
    (result : Option (SequenceNumber32 × SequenceNumber32)) : Prop :=
  ∃ seqHigh, result = some (b.firstUnsent, seqHigh) ∧
    seqHigh.distance b.firstUnsent ≤ b.segmentSize ∧
    seqHigh.distance b.firstUnsent ≤ rWnd - b.sentSize

/-- The three rules, in their order of priority: the lowest lost item; unsent data
if the window is open; in recovery the lowest item. -/
def FollowsRules (b : TcpTxBuffer) (rWnd : Nat) (isRecovery : Bool)
    (result : Option (SequenceNumber32 × SequenceNumber32)) : Prop :=
  match b.candidates.find? (·.lost) with
  | some item => BeginsAt item result
  | none =>
    if b.sentSize < b.size then
      if b.sentSize < rWnd then b.SendsUnsent rWnd result else result = none
    else if isRecovery then
      match b.candidates with
      | [] => result = none
      | item :: _ => BeginsAt item result
    else result = none

/-- When the rules are followed. With unsent data, the tail must lie after the first unsent byte on
the circle, unless nothing is to be sent anyway; without, in recovery, a first item that begins at
number zero must be the only one. -/
def RulesKept (b : TcpTxBuffer) (rWnd : Nat) (isRecovery : Bool) : Prop :=
  (∃ item ∈ b.candidates, item.lost = true) ∨
  (if b.sentSize < b.size then
    b.tailSequence.gt b.firstUnsent = true ∨
      (rWnd ≤ b.sentSize ∧ (isRecovery = false ∨ b.candidates = []))
  else
    isRecovery = false ∨
      ∀ first second rest, b.candidates = first :: second :: rest → first.startSeq.value ≠ 0)

/-! ## The pass over the sent items -/

/-- The number saved for the third rule, at a further item. -/
def remember (perRule3 : Option SequenceNumber32) (start : SequenceNumber32) :
    Option SequenceNumber32 :=
  if perRule3.elim true fun seq => seq.value.toNat == 0 then some start else perRule3

variable {seq : SequenceNumber32}

theorem remember_kept (hseq : seq.value ≠ 0) (starts : List SequenceNumber32) :
    starts.foldl remember (some seq) = some seq := by
  have hnat : (seq.value.toNat == 0) = false := by
    rw [beq_eq_false_iff_ne]
    intro hzero
    exact hseq (BitVec.eq_of_toNat_eq (by simpa using hzero))
  induction starts with
  | nil => rfl
  | cons start rest ih =>
    rw [List.foldl_cons, remember, Option.elim_some, hnat]
    exact ih

variable {item : TcpTxItem}

section Pass

variable {b : TcpTxBuffer} {isRecovery : Bool} {start : SequenceNumber32}
  {items : List TcpTxItem} {perRule3 : Option SequenceNumber32}

theorem nextSegLoop_lost (hchain : Chain start items)
    (hfind : (items.filter b.mayRetransmit).find? (·.lost) = some item) :
    (nextSegLoop b isRecovery start items perRule3).1 = some item.startSeq := by
  induction items generalizing start perRule3 with
  | nil => simp at hfind
  | cons head rest ih =>
    obtain ⟨hstart, hrest⟩ := hchain
    unfold nextSegLoop
    dsimp only
    split
    · rename_i hmay
      rw [List.filter_cons_of_pos (by simpa [mayRetransmit] using hmay)] at hfind
      split
      · rename_i hlost
        rw [List.find?_cons_of_pos hlost, Option.some.injEq] at hfind
        rw [← hfind, hstart]
      · rename_i hlost
        rw [List.find?_cons_of_neg (by simpa using hlost)] at hfind
        split
        · exact ih hrest hfind
        · exact ih hrest hfind
    · rename_i hmay
      rw [List.filter_cons_of_neg (by simpa [mayRetransmit] using hmay)] at hfind
      exact ih hrest hfind

theorem nextSegLoop_none (hchain : Chain start items)
    (hfind : (items.filter b.mayRetransmit).find? (·.lost) = none) :
    nextSegLoop b isRecovery start items perRule3 =
      (none, if isRecovery then
        ((items.filter b.mayRetransmit).map (·.startSeq)).foldl remember perRule3
      else perRule3) := by
  induction items generalizing start perRule3 with
  | nil => cases isRecovery <;> rfl
  | cons head rest ih =>
    obtain ⟨hstart, hrest⟩ := hchain
    unfold nextSegLoop
    dsimp only
    split
    · rename_i hmay
      rw [List.filter_cons_of_pos (by simpa [mayRetransmit] using hmay)] at hfind ⊢
      have hlost : ¬head.lost = true := by
        rw [List.find?_eq_none] at hfind
        exact hfind head (.head _)
      rw [List.find?_cons_of_neg hlost] at hfind
      rw [if_neg hlost, List.map_cons, List.foldl_cons, remember, hstart]
      cases isRecovery with
      | false => simpa using ih hrest hfind
      | true =>
        rw [Bool.and_true]
        split
        · exact ih hrest hfind
        · exact ih hrest hfind
    · rename_i hmay
      rw [List.filter_cons_of_neg (by simpa [mayRetransmit] using hmay)] at hfind ⊢
      exact ih hrest hfind

end Pass

/-! ## Where the items begin -/

variable {start : SequenceNumber32} {items : List TcpTxItem}

theorem chain_start_of_mem (hchain : Chain start items) (hne : Nonempty items)
    (hitem : item ∈ items) : ∃ k < bytes items, item.startSeq = start.add k := by
  obtain ⟨before, after, rfl⟩ := List.append_of_mem hitem
  obtain ⟨_, hstart, _⟩ := chain_append.mp hchain
  have hpos := hne item hitem
  refine ⟨bytes before, ?_, hstart⟩
  rw [bytes_append, bytes_cons]
  omega

theorem chain_starts_ne (hchain : Chain start items) (hne : Nonempty items)
    (hspan : bytes items < 2 ^ 32) :
    items.Pairwise fun item later => item.startSeq ≠ later.startSeq := by
  induction items generalizing start with
  | nil => exact List.Pairwise.nil
  | cons head rest ih =>
    obtain ⟨hstart, hrest⟩ := hchain
    rw [nonempty_cons] at hne
    rw [bytes_cons] at hspan
    refine List.pairwise_cons.mpr ⟨?_, ih hrest hne.2 (by omega)⟩
    intro later hlater heq
    obtain ⟨k, hk, hstart'⟩ := chain_start_of_mem hrest hne.2 hlater
    have hpos : pos start later.startSeq = head.size + k := by
      rw [hstart', add_add, pos_base_add (by omega)]
    rw [← heq, hstart, pos_self] at hpos
    omega

section Rules

variable {b : TcpTxBuffer} {data : List UInt8} {rWnd : Nat} {isRecovery : Bool}

section

variable (h : b.Holds data) (hsize : b.size < 2 ^ 32)

include h hsize

theorem Holds.candidate_ne_firstUnsent (hitem : item ∈ b.candidates) :
    item.startSeq ≠ b.firstUnsent := by
  intro heq
  obtain ⟨k, hk, hstart⟩ :=
    chain_start_of_mem h.chain h.sent_nonempty (List.mem_of_mem_filter hitem)
  have hle := h.sentSize_le
  rw [← h.sentSize_eq] at hk
  have hpos : pos b.firstByteSeq item.startSeq = k := by
    rw [hstart, pos_base_add (by omega)]
  rw [heq, firstUnsent, pos_base_add (by omega)] at hpos
  omega

variable {rest : List TcpTxItem}

theorem Holds.candidates_ne {first second : TcpTxItem}
    (hcand : b.candidates = first :: second :: rest) : first.startSeq ≠ second.startSeq := by
  have hspan : bytes b.sentList < 2 ^ 32 := by
    have hle := h.sentSize_le
    rw [h.sentSize_eq] at hle
    omega
  have hpair := (chain_starts_ne h.chain h.sent_nonempty hspan).filter b.mayRetransmit
  rw [← candidates, hcand] at hpair
  exact (List.pairwise_cons.mp hpair).1 second (.head _)

theorem Holds.remembered_cons {first : TcpTxItem} (hcand : b.candidates = first :: rest) :
    (b.candidates.map (·.startSeq)).foldl remember none =
      if first.startSeq.value = 0 then some ((rest.headD first).startSeq)
      else some first.startSeq := by
  rw [hcand, List.map_cons, List.foldl_cons]
  change (rest.map (·.startSeq)).foldl remember (some first.startSeq) = _
  split
  · rename_i hzero
    cases rest with
    | nil => rfl
    | cons second rest =>
      have hne := h.candidates_ne hsize hcand
      have hsecond : second.startSeq.value ≠ 0 := by
        intro hzero'
        refine hne ?_
        cases hf : first.startSeq
        cases hs : second.startSeq
        rw [hf] at hzero
        rw [hs] at hzero'
        exact congrArg SequenceNumber.mk (hzero.trans hzero'.symm)
      rw [List.map_cons, List.foldl_cons, remember, Option.elim_some, hzero]
      exact remember_kept hsecond _
  · rename_i hne
    exact remember_kept hne _

end

theorem sizeFromSequence_pos_iff (hsize : b.size < 2 ^ 32)
    (hunsent : b.sentSize < b.size) :
    0 < b.sizeFromSequence b.firstUnsent ↔ b.tailSequence.gt b.firstUnsent = true := by
  have hne : b.tailSequence ≠ b.firstUnsent := by
    intro heq
    have hpos := congrArg (pos b.firstByteSeq) heq
    rw [tailSequence, firstUnsent, pos_base_add hsize, pos_base_add (by omega)] at hpos
    omega
  have hge : b.tailSequence.ge b.firstUnsent = b.tailSequence.gt b.firstUnsent := by
    rw [ge, decide_eq_false hne, Bool.or_false]
  unfold sizeFromSequence
  rw [hge]
  split
  · rename_i hgt
    refine iff_of_true (Nat.pos_of_ne_zero fun hzero => hne ?_) hgt
    rw [distance_eq_pos, pos_eq_zero_iff] at hzero
    exact hzero
  · rename_i hgt
    exact iff_of_false (Nat.lt_irrefl 0) hgt

theorem sizeFromSequence_sent (hsent : b.sentSize = b.size) :
    b.sizeFromSequence b.firstUnsent = 0 := by
  rw [sizeFromSequence, tailSequence, firstUnsent, hsent, distance_eq_pos, pos_self, ite_self]

theorem sendsUnsent_min (hrWnd : rWnd < 2 ^ 32) (hopen : b.sentSize < rWnd) :
    b.SendsUnsent rWnd (some (b.firstUnsent,
      b.firstUnsent.add (min b.segmentSize (wsub 32 rWnd b.sentSize)))) := by
  have hwsub : wsub 32 rWnd b.sentSize = rWnd - b.sentSize := wsub_eq hrWnd hopen.le
  refine ⟨_, rfl, ?_⟩
  rw [distance_eq_pos, hwsub, pos_base_add (by omega)]
  exact ⟨min_le_left _ _, min_le_right _ _⟩

theorem not_sendsUnsent (h : b.Holds data) (hsize : b.size < 2 ^ 32)
    {saved : Option SequenceNumber32} (hsaved : ∀ seq, saved = some seq →
      ∃ item ∈ b.candidates, item.startSeq = seq) :
    ¬b.SendsUnsent rWnd (saved.map fun seq => (seq, seq.add b.segmentSize)) := by
  rintro ⟨seqHigh, heq, _⟩
  obtain ⟨seq, hseq, hpair⟩ := Option.map_eq_some_iff.mp heq
  obtain ⟨item, hitem, hstart⟩ := hsaved seq hseq
  refine h.candidate_ne_firstUnsent hsize hitem ?_
  rw [hstart, (Prod.mk.inj hpair).1]

def savedForRule3 (b : TcpTxBuffer) (isRecovery : Bool) : Option SequenceNumber32 :=
  if isRecovery then (b.candidates.map (·.startSeq)).foldl remember none else none

theorem Holds.savedForRule3_mem (h : b.Holds data) (hsize : b.size < 2 ^ 32)
    (hseq : b.savedForRule3 isRecovery = some seq) :
    ∃ item ∈ b.candidates, item.startSeq = seq := by
  unfold savedForRule3 at hseq
  split at hseq
  · cases hcand : b.candidates with
    | nil => simp [hcand] at hseq
    | cons first rest =>
      rw [h.remembered_cons hsize hcand] at hseq
      split at hseq
      · refine ⟨rest.headD first, ?_, Option.some.inj hseq⟩
        cases rest with
        | nil => exact .head _
        | cons second rest => exact .tail _ (.head _)
      · exact ⟨first, .head _, Option.some.inj hseq⟩
  · simp at hseq

theorem Holds.savedForRule3_eq_none (h : b.Holds data) (hsize : b.size < 2 ^ 32) :
    b.savedForRule3 isRecovery = none ↔ isRecovery = false ∨ b.candidates = [] := by
  cases isRecovery with
  | false => simp [savedForRule3]
  | true =>
    cases hcand : b.candidates with
    | nil => simp [savedForRule3, hcand]
    | cons first rest =>
      rw [savedForRule3, if_pos rfl, h.remembered_cons hsize hcand]
      split <;> simp

/-- A lost item is sent first. -/
theorem Holds.nextSeg_lost (h : b.Holds data) (hfind : b.candidates.find? (·.lost) = some item) :
    b.nextSeg rWnd isRecovery = some (item.startSeq, item.startSeq.add b.segmentSize) := by
  have hloop : (nextSegLoop b isRecovery b.firstByteSeq b.sentList none).1 =
      some item.startSeq := nextSegLoop_lost h.chain hfind
  unfold nextSeg
  split
  · rename_i seq _ heq
    rw [heq, Option.some.injEq] at hloop
    rw [hloop]
  · rename_i heq
    simp [heq] at hloop

/-- No lost item: new data if the window allows it, else the saved item in recovery. -/
theorem Holds.nextSeg_none (h : b.Holds data)
    (hfind : b.candidates.find? (·.lost) = none) :
    b.nextSeg rWnd isRecovery =
      if 0 < b.sizeFromSequence b.firstUnsent then
        if b.sentSize < rWnd then
          some (b.firstUnsent, b.firstUnsent.add (min b.segmentSize (wsub 32 rWnd b.sentSize)))
        else none
      else (b.savedForRule3 isRecovery).map fun seq => (seq, seq.add b.segmentSize) := by
  rw [nextSeg, nextSegLoop_none h.chain hfind]
  rfl

theorem Holds.rule3_iff (h : b.Holds data) (hsize : b.size < 2 ^ 32) :
    (if isRecovery then
      match b.candidates with
      | [] => (b.savedForRule3 isRecovery).map (fun seq => (seq, seq.add b.segmentSize)) = none
      | item :: _ => BeginsAt item
          ((b.savedForRule3 isRecovery).map fun seq => (seq, seq.add b.segmentSize))
    else (b.savedForRule3 isRecovery).map (fun seq => (seq, seq.add b.segmentSize)) = none) ↔
      isRecovery = false ∨
        ∀ first second rest, b.candidates = first :: second :: rest →
          first.startSeq.value ≠ 0 := by
  cases isRecovery with
  | false => simp [savedForRule3]
  | true =>
    cases hcand : b.candidates with
    | nil => simp [savedForRule3, hcand]
    | cons first rest =>
      rw [savedForRule3, if_pos rfl, if_pos rfl, h.remembered_cons hsize hcand]
      dsimp only
      split
      · rename_i hzero
        cases rest with
        | nil =>
          refine iff_of_true ⟨_, rfl⟩ (.inr ?_)
          intro first' second' rest' heq
          simp at heq
        | cons second rest =>
          refine iff_of_false ?_ ?_
          · rintro ⟨seqHigh, heq⟩
            rw [Option.map_some, Option.some.injEq, Prod.mk.injEq] at heq
            exact h.candidates_ne hsize hcand heq.1.symm
          · rintro (hfalse | hne)
            · simp at hfalse
            · exact hne first second rest rfl hzero
      · rename_i hne
        refine iff_of_true ⟨_, rfl⟩ (.inr ?_)
        rintro first' second' rest' heq
        rw [← (List.cons.inj heq).1]
        exact hne

/-- Two items in flight, the first at number zero, in recovery. -/
def zeroStart : TcpTxBuffer where
  sentList := [{ node := 0, startSeq := .ofNat 0, packet := List.replicate 100 0 },
    { node := 1, startSeq := .ofNat 100, packet := List.replicate 100 0 }]
  size := 200
  sentSize := 200
  firstByteSeq := .ofNat 0
  segmentSize := 100

theorem zeroStart_holds : zeroStart.Holds (List.replicate 200 0) := by
  refine ⟨by decide +kernel, ⟨rfl, by decide +kernel, trivial⟩, by decide +kernel,
    by decide +kernel, ?_, ?_⟩
  · intro item hitem
    simp only [zeroStart, List.mem_cons, List.not_mem_nil, or_false] at hitem
    rcases hitem with rfl | rfl <;> decide
  · intro item hitem
    cases hitem

/-- **Which segments follow the rules.**  `NextSeg` proposes what the rules (1) to (3)
ask for exactly if its two tests by number do not mislead it. -/
theorem nextSeg_follows_iff (h : b.Holds data) (hsize : b.size < 2 ^ 32)
    (hrWnd : rWnd < 2 ^ 32) :
    b.FollowsRules rWnd isRecovery (b.nextSeg rWnd isRecovery) ↔
      b.RulesKept rWnd isRecovery := by
  unfold FollowsRules RulesKept
  cases hfind : b.candidates.find? (·.lost) with
  | some item =>
    have hlost := List.find?_some hfind
    have hmem := List.mem_of_find?_eq_some hfind
    exact iff_of_true ⟨_, h.nextSeg_lost hfind⟩ (.inl ⟨item, hmem, hlost⟩)
  | none =>
    have hnolost : ¬∃ item ∈ b.candidates, item.lost = true := by
      rw [List.find?_eq_none] at hfind
      rintro ⟨item, hitem, hlost⟩
      exact hfind item hitem hlost
    rw [or_iff_right hnolost, h.nextSeg_none hfind]
    dsimp only
    by_cases hunsent : b.sentSize < b.size
    · rw [if_pos hunsent, if_pos hunsent]
      have hseen := sizeFromSequence_pos_iff hsize hunsent
      by_cases hgt : b.tailSequence.gt b.firstUnsent = true
      · rw [if_pos (hseen.mpr hgt)]
        refine iff_of_true ?_ (.inl hgt)
        split
        · rename_i hopen
          exact sendsUnsent_min hrWnd hopen
        · rfl
      · rw [if_neg (mt hseen.mp hgt), or_iff_right hgt]
        split
        · rename_i hopen
          refine iff_of_false (not_sendsUnsent h hsize fun seq => h.savedForRule3_mem hsize) ?_
          exact fun hno => absurd hno.1 (Nat.not_le.mpr hopen)
        · rename_i hclosed
          rw [Option.map_eq_none_iff, h.savedForRule3_eq_none hsize]
          exact (and_iff_right (Nat.le_of_not_lt hclosed)).symm
    · have hsent : b.sentSize = b.size := Nat.le_antisymm h.sentSize_le (Nat.le_of_not_lt hunsent)
      rw [if_neg hunsent, if_neg hunsent, sizeFromSequence_sent hsent, if_neg (Nat.lt_irrefl 0)]
      exact h.rule3_iff hsize

theorem nextSeg_follows_iff_zero :
    zeroStart.FollowsRules 1000 false (zeroStart.nextSeg 1000 false) := by
  refine (nextSeg_follows_iff zeroStart_holds (by decide) (by decide)).mpr (.inr ?_)
  rw [if_neg (by decide)]
  exact .inl rfl

/-- In recovery the second item is proposed in the first one's place. -/
theorem zeroStart_skipped :
    zeroStart.Holds (List.replicate 200 0) ∧
      ¬zeroStart.FollowsRules 1000 true (zeroStart.nextSeg 1000 true) := by
  refine ⟨zeroStart_holds, ?_⟩
  have hnext : zeroStart.nextSeg 1000 true = some (.ofNat 100, .ofNat 200) := by decide +kernel
  rw [hnext]
  rintro ⟨seqHigh, heq⟩
  rw [Option.some.injEq, Prod.mk.injEq] at heq
  exact absurd heq.1 (by decide)

end Rules

end TcpTxBuffer

end Ns3.Tcp
