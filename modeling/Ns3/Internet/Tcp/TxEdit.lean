/-
  What the extraction of a block does to a list.

  `GetPacketFromList` walks, splits, merges and recurses.  However it recurses,
  its effect is a sequence of edits, each of which splits one item in two or
  merges two neighbours.  Whatever one edit keeps, the whole extraction keeps;
  the byte positions of the item it returns are settled separately, for lists
  that span less than half of the sequence space.
-/
import Mathlib.Logic.Relation
import Ns3.Internet.Tcp.TxBuffer

namespace Ns3.Tcp

open Ns3.Lib SequenceNumber

/-! ## Bytes of a list of items -/

/-- The bytes of the items, in order. -/
def payload (items : List TcpTxItem) : List UInt8 := items.flatMap (·.packet)

def bytes (items : List TcpTxItem) : Nat := (payload items).length

@[simp] theorem payload_nil : payload [] = [] := rfl

@[simp] theorem payload_cons (item : TcpTxItem) (items : List TcpTxItem) :
    payload (item :: items) = item.packet ++ payload items := rfl

@[simp] theorem payload_append (l r : List TcpTxItem) :
    payload (l ++ r) = payload l ++ payload r :=
  List.flatMap_append

@[simp] theorem bytes_nil : bytes [] = 0 := rfl

@[simp] theorem bytes_cons (item : TcpTxItem) (items : List TcpTxItem) :
    bytes (item :: items) = item.size + bytes items := by
  simp [bytes, TcpTxItem.size]

@[simp] theorem bytes_append (l r : List TcpTxItem) : bytes (l ++ r) = bytes l + bytes r := by
  simp [bytes]

def Nonempty (items : List TcpTxItem) : Prop := ∀ item ∈ items, 0 < item.size

/-- Each item begins where the one before it ends, the first at `start`. -/
def Chain : SequenceNumber32 → List TcpTxItem → Prop
  | _, [] => True
  | start, item :: rest => item.startSeq = start ∧ Chain (start.add item.size) rest

variable {start : SequenceNumber32} {l r : List TcpTxItem}

theorem chain_append : Chain start (l ++ r) ↔ Chain start l ∧ Chain (start.add (bytes l)) r := by
  induction l generalizing start with
  | nil => simp [Chain]
  | cons item rest ih => simp only [List.cons_append, Chain, ih, bytes_cons, add_add, and_assoc]

/-! ## Splitting and merging -/

variable {st st' : ListState}

@[simp] theorem splitItems_packet (node : Nat) (t2 : TcpTxItem) (size : Nat) :
    (splitItems node t2 size).1.packet ++ (splitItems node t2 size).2.packet = t2.packet :=
  Packet.createFragment_append_removeAtStart t2.packet size

theorem splitItems_size_fst {node : Nat} {t2 : TcpTxItem} {size : Nat} (h : size ≤ t2.size) :
    (splitItems node t2 size).1.size = size := by
  simpa [splitItems, TcpTxItem.size] using h

theorem splitItems_size_snd (node : Nat) (t2 : TcpTxItem) (size : Nat) :
    (splitItems node t2 size).2.size = t2.size - size := by
  simp [splitItems, TcpTxItem.size]

theorem splitItems_size_add (node : Nat) (t2 : TcpTxItem) (size : Nat) :
    (splitItems node t2 size).1.size + (splitItems node t2 size).2.size = t2.size := by
  simp only [TcpTxItem.size, ← List.length_append, splitItems_packet]

variable {t1 t2 merged : TcpTxItem} {retrans retrans' : Nat}

theorem mergeItems_eq_ok (h : mergeItems retrans t1 t2 = .ok (retrans', merged)) :
    t1.sacked = t2.sacked ∧ t1.lost = t2.lost ∧
      retrans' = (if t1.retrans != t2.retrans then
        if t1.retrans then wsub 32 retrans t1.size else wsub 32 retrans t2.size
        else retrans) ∧
      merged = { t1 with
        retrans := t1.retrans && t2.retrans
        lastSent := if t1.lastSent < t2.lastSent then t2.lastSent else t1.lastSent
        packet := t1.packet.addAtEnd t2.packet } := by
  unfold mergeItems at h
  simp only [bind_eq_ok, nsAssert_eq_ok, pure_eq_ok, Prod.mk.injEq, beq_iff_eq] at h
  obtain ⟨_, hsacked, _, hlost, hretrans, hmerged⟩ := h
  exact ⟨hsacked, hlost, hretrans.symm, hmerged.symm⟩

/-- An item is cut in two, or two are joined. -/
inductive Edit : ListState → ListState → Prop where
  | split (before after : List TcpTxItem) (item : TcpTxItem) (size retrans nextNode : Nat) :
      Edit ⟨before ++ item :: after, retrans, nextNode⟩
        ⟨before ++ (splitItems nextNode item size).1 :: (splitItems nextNode item size).2 :: after,
          retrans, nextNode + 1⟩
  | merge (before after : List TcpTxItem) (t1 t2 merged : TcpTxItem)
      (retrans retrans' nextNode : Nat)
      (h : mergeItems retrans t1 t2 = .ok (retrans', merged)) :
      Edit ⟨before ++ t1 :: t2 :: after, retrans, nextNode⟩
        ⟨before ++ merged :: after, retrans', nextNode⟩

abbrev Edits : ListState → ListState → Prop := Relation.ReflTransGen Edit

/-- **Edit rule.**  What every edit keeps, a sequence of edits keeps. -/
theorem Edits.keep {P : ListState → Prop} (h : Edits st st')
    (hstep : ∀ st st', Edit st st' → P st → P st') (hst : P st) : P st' := by
  induction h with
  | refl => exact hst
  | tail _ hlast ih => exact hstep _ _ hlast ih

theorem Edit.payload_eq (h : Edit st st') : payload st'.list = payload st.list := by
  cases h with
  | split before after item size retrans nextNode =>
    simp only [payload_append, payload_cons, ← List.append_assoc (splitItems _ _ _).1.packet,
      splitItems_packet]
  | merge before after t1 t2 merged retrans retrans' nextNode h =>
    obtain ⟨_, _, _, rfl⟩ := mergeItems_eq_ok h
    simp [Packet.addAtEnd]

theorem Edit.bytes_eq (h : Edit st st') : bytes st'.list = bytes st.list :=
  congrArg List.length h.payload_eq

theorem Edits.payload_eq (h : Edits st st') : payload st'.list = payload st.list :=
  h.keep (P := fun s => payload s.list = payload st.list)
    (fun _ _ hedit hst => hedit.payload_eq.trans hst) rfl

theorem Edits.bytes_eq (h : Edits st st') : bytes st'.list = bytes st.list :=
  congrArg List.length h.payload_eq

/-! ## The walk -/

variable {list : List TcpTxItem} {stop : WalkStop} {base : SequenceNumber32} {isSentList : Bool}

theorem walkTo_list {firstByteSeq seq : SequenceNumber32}
    (h : walkTo isSentList firstByteSeq seq start list = .ok stop) :
    stop.list = list ∧ stop.beginOfCurrentPacket = start.add (bytes stop.before) := by
  induction list generalizing start stop with
  | nil => simp [walkTo] at h
  | cons item rest ih =>
    unfold walkTo at h
    simp only [bind_eq_ok, nsAssert_eq_ok] at h
    obtain ⟨_, _, h⟩ := h
    split at h
    · rw [pure_eq_ok] at h
      subst h
      simp [ItemRef.list]
    · simp only [bind_eq_ok, pure_eq_ok] at h
      obtain ⟨inner, hinner, rfl⟩ := h
      obtain ⟨hlist, hbegin⟩ := ih hinner
      refine ⟨?_, ?_⟩
      · simpa [ItemRef.list] using hlist
      · rw [hbegin, add_add, bytes_cons]

variable {firstByteSeq : SequenceNumber32}

theorem walkTo_position {k off : Nat} (hspan : off + bytes list < 2 ^ 31) (hk : k < 2 ^ 31)
    (hoff : off ≤ k)
    (h : walkTo isSentList firstByteSeq (base.add k) (base.add off) list = .ok stop) :
    off + bytes stop.before ≤ k ∧ k < off + bytes stop.before + stop.item.size := by
  induction list generalizing off stop with
  | nil => simp [walkTo] at h
  | cons item rest ih =>
    rw [bytes_cons] at hspan
    unfold walkTo at h
    simp only [bind_eq_ok, nsAssert_eq_ok] at h
    obtain ⟨_, _, h⟩ := h
    have hposk : pos base (base.add k) = k := pos_base_add (by omega)
    have hposend : pos base ((base.add off).add item.size) = off + item.size := by
      rw [add_add, pos_base_add (by omega)]
    have hnear : Near base (base.add k) ((base.add off).add item.size) :=
      near_of_lt (by omega) (by omega)
    have hlt := lt_iff hnear
    rw [hposk, hposend] at hlt
    split at h
    · rename_i hstop
      rw [pure_eq_ok] at h
      subst h
      simpa [hoff] using hlt.mp hstop
    · rename_i hgo
      have hle : off + item.size ≤ k := by
        rw [hlt] at hgo
        omega
      simp only [bind_eq_ok, pure_eq_ok] at h
      obtain ⟨inner, hinner, rfl⟩ := h
      rw [add_add] at hinner
      have := ih (by omega) hle hinner
      simp only [bytes_cons]
      omega

theorem walkTo_stop {k : Nat} (hspan : bytes list < 2 ^ 31) (hk : k < 2 ^ 31)
    (h : walkTo isSentList firstByteSeq (base.add k) base list = .ok stop) :
    list = stop.before ++ stop.item :: stop.after ∧
      bytes stop.before ≤ k ∧ k < bytes stop.before + stop.item.size := by
  have hwalk : walkTo isSentList firstByteSeq (base.add k) (base.add 0) list = .ok stop := by
    rwa [SequenceNumber.add_zero]
  have hposn := walkTo_position (by omega) hk (Nat.zero_le k) hwalk
  exact ⟨(walkTo_list h).1.symm, by omega, by omega⟩

/-! ## The extraction -/

variable {found : FoundItem}

section Extraction

variable {listStartFrom seq : SequenceNumber32} {numBytes : Nat}

/-- How `GetPacketFromList` finds its item: the walk stops at an item that is the
block, that begins with the block, that is the last one, that must be merged with
its successor, or that holds the start of the block inside it. -/
inductive Extract (isSentList : Bool) (firstByteSeq listStartFrom : SequenceNumber32)
    (numBytes : Nat) (seq : SequenceNumber32) : ListState → FoundItem → Prop where
  | exact {st : ListState} {stop : WalkStop}
      (hwalk : walkTo isSentList firstByteSeq seq listStartFrom st.list = .ok stop)
      (hseq : seq = stop.beginOfCurrentPacket) (hsize : numBytes = stop.item.size) :
      Extract isSentList firstByteSeq listStartFrom numBytes seq st
        { toItemRef := stop.toItemRef, retrans := st.retrans, nextNode := st.nextNode }
  | splitEnd {st : ListState} {stop : WalkStop}
      (hwalk : walkTo isSentList firstByteSeq seq listStartFrom st.list = .ok stop)
      (hseq : seq = stop.beginOfCurrentPacket) (hsize : numBytes < stop.item.size) :
      Extract isSentList firstByteSeq listStartFrom numBytes seq st
        { before := stop.before
          item := (splitItems st.nextNode stop.item numBytes).1
          after := (splitItems st.nextNode stop.item numBytes).2 :: stop.after
          retrans := st.retrans, nextNode := st.nextNode + 1 }
  | short {st : ListState} {stop : WalkStop}
      (hwalk : walkTo isSentList firstByteSeq seq listStartFrom st.list = .ok stop)
      (hseq : seq = stop.beginOfCurrentPacket)
      (hend : (seq.add numBytes).le (stop.beginOfCurrentPacket.add stop.item.size) = false)
      (hlast : stop.after = []) :
      Extract isSentList firstByteSeq listStartFrom numBytes seq st
        { toItemRef := stop.toItemRef, retrans := st.retrans, nextNode := st.nextNode }
  | merge {st : ListState} {stop : WalkStop} {next merged : TcpTxItem}
      {rest : List TcpTxItem} {retrans : Nat} {found : FoundItem}
      (hwalk : walkTo isSentList firstByteSeq seq listStartFrom st.list = .ok stop)
      (hseq : seq = stop.beginOfCurrentPacket)
      (hnext : stop.after = next :: rest)
      (hmerge : mergeItems st.retrans stop.item next = .ok (retrans, merged))
      (hrec : Extract isSentList firstByteSeq listStartFrom numBytes seq
        { st with list := stop.before ++ merged :: rest, retrans } found) :
      Extract isSentList firstByteSeq listStartFrom numBytes seq st found
  | splitStart {st : ListState} {stop : WalkStop} {found : FoundItem}
      (hwalk : walkTo isSentList firstByteSeq seq listStartFrom st.list = .ok stop)
      (hseq : seq ≠ stop.beginOfCurrentPacket)
      (hrec : Extract isSentList firstByteSeq listStartFrom numBytes seq
        { st with
          list := stop.before
            ++ (splitItems st.nextNode stop.item (seq.distance stop.beginOfCurrentPacket)).1
            :: (splitItems st.nextNode stop.item (seq.distance stop.beginOfCurrentPacket)).2
            :: stop.after
          nextNode := st.nextNode + 1 } found) :
      Extract isSentList firstByteSeq listStartFrom numBytes seq st found

theorem getPacketFromList_extract {fuel : Nat}
    (h : getPacketFromList isSentList firstByteSeq listStartFrom numBytes seq fuel st = .ok found) :
    Extract isSentList firstByteSeq listStartFrom numBytes seq st found := by
  induction fuel generalizing st with
  | zero => simp [getPacketFromList] at h
  | succ fuel ih =>
    unfold getPacketFromList at h
    rw [bind_eq_ok] at h
    obtain ⟨stop, hwalk, h⟩ := h
    dsimp only at h
    split at h
    · rename_i hseq
      split at h
      · split at h
        · rename_i hsize
          rw [pure_eq_ok] at h
          subst h
          exact .exact hwalk hseq hsize
        · split at h
          · rename_i hsize
            rw [pure_eq_ok] at h
            subst h
            exact .splitEnd hwalk hseq hsize
          · simp at h
      · rename_i hend
        split at h
        · rename_i hlast
          rw [pure_eq_ok] at h
          subst h
          exact .short hwalk hseq (by simpa using hend) hlast
        · rename_i next rest hnext
          rw [bind_eq_ok] at h
          obtain ⟨⟨retrans, merged⟩, hmerge, h⟩ := h
          exact .merge hwalk hseq hnext hmerge (ih h)
    · rename_i hseq
      split at h
      · exact .splitStart hwalk hseq (ih h)
      · simp at h

theorem WalkStop.list_eq (h : walkTo isSentList firstByteSeq seq listStartFrom st.list = .ok stop) :
    st = ⟨stop.before ++ stop.item :: stop.after, st.retrans, st.nextNode⟩ := by
  have hlist := (walkTo_list h).1
  unfold ItemRef.list at hlist
  rw [hlist]

theorem Extract.edits (h : Extract isSentList firstByteSeq listStartFrom numBytes seq st found) :
    Edits st found.state := by
  induction h with
  | exact hwalk _ _ => rw [WalkStop.list_eq hwalk]; exact .refl
  | splitEnd hwalk _ _ => rw [WalkStop.list_eq hwalk]; exact .single (.split ..)
  | short hwalk _ _ _ => rw [WalkStop.list_eq hwalk]; exact .refl
  | merge hwalk _ hnext hmerge _ ih =>
    rw [WalkStop.list_eq hwalk, hnext]
    exact .head (.merge _ _ _ _ _ _ _ _ hmerge) ih
  | splitStart hwalk _ _ ih =>
    rw [WalkStop.list_eq hwalk]
    exact .head (.split ..) ih

end Extraction

/-! ## Positions of the extracted item -/

/-- A list whose items are non-empty and, on the sent list, chained. -/
structure WellPlaced (isSentList : Bool) (base : SequenceNumber32)
    (items : List TcpTxItem) : Prop where
  nonempty : Nonempty items
  chain : isSentList = true → Chain base items

theorem nonempty_append : Nonempty (l ++ r) ↔ Nonempty l ∧ Nonempty r := by
  simp only [Nonempty, List.mem_append, or_imp, forall_and]

theorem nonempty_cons {item : TcpTxItem} {items : List TcpTxItem} :
    Nonempty (item :: items) ↔ 0 < item.size ∧ Nonempty items := by
  simp only [Nonempty, List.mem_cons, forall_eq_or_imp]

variable {before after : List TcpTxItem}

theorem WellPlaced.split {item : TcpTxItem} {size : Nat} (node : Nat)
    (h : WellPlaced isSentList base (before ++ item :: after)) (hpos : 0 < size)
    (hlt : size < item.size) :
    WellPlaced isSentList base (before ++ (splitItems node item size).1
      :: (splitItems node item size).2 :: after) := by
  have hfst : (splitItems node item size).1.size = size := splitItems_size_fst hlt.le
  have hsnd : (splitItems node item size).2.size = item.size - size :=
    splitItems_size_snd node item size
  constructor
  · have hne := h.nonempty
    simp only [nonempty_append, nonempty_cons, hfst, hsnd] at hne ⊢
    exact ⟨hne.1, hpos, by omega, hne.2.2⟩
  · intro hsent
    have hchain := h.chain hsent
    simp only [chain_append, Chain, hfst, hsnd, add_add] at hchain ⊢
    obtain ⟨hbefore, hstart, hafter⟩ := hchain
    refine ⟨hbefore, hstart, ?_, ?_⟩
    · rw [show (splitItems node item size).2.startSeq = item.startSeq.add size from rfl,
        hstart, add_add]
    · rw [show bytes before + size + (item.size - size) = bytes before + item.size by omega]
      exact hafter

theorem WellPlaced.merge (h : WellPlaced isSentList base (before ++ t1 :: t2 :: after))
    (hmerge : mergeItems retrans t1 t2 = .ok (retrans', merged)) :
    WellPlaced isSentList base (before ++ merged :: after) := by
  obtain ⟨_, _, _, rfl⟩ := mergeItems_eq_ok hmerge
  constructor
  · have hne := h.nonempty
    simp only [nonempty_append, nonempty_cons, TcpTxItem.size, Packet.length_addAtEnd] at hne ⊢
    exact ⟨hne.1, by omega, hne.2.2.2⟩
  · intro hsent
    have hchain := h.chain hsent
    simp only [chain_append, Chain, add_add, TcpTxItem.size, Packet.length_addAtEnd,
      Nat.add_assoc] at hchain ⊢
    exact ⟨hchain.1, hchain.2.1, hchain.2.2.2⟩

theorem Extract.position {k numBytes : Nat}
    (h : Extract isSentList firstByteSeq base numBytes (base.add k) st found)
    (hspan : bytes st.list < 2 ^ 31) (hend : k + numBytes < 2 ^ 31) (hpos : 0 < numBytes)
    (hplaced : WellPlaced isSentList base st.list) :
    WellPlaced isSentList base found.list ∧ bytes found.before = k ∧
      0 < found.item.size ∧ found.item.size ≤ numBytes := by
  -- where the walk stops, as offsets from `base`
  have hstop : ∀ {st : ListState} {stop : WalkStop}, bytes st.list < 2 ^ 31 →
      walkTo isSentList firstByteSeq (base.add k) base st.list = .ok stop →
      stop.list = st.list ∧ stop.beginOfCurrentPacket = base.add (bytes stop.before) ∧
        bytes stop.before ≤ k ∧ k < bytes stop.before + stop.item.size := by
    intro st stop hspan hwalk
    have hlist := walkTo_list hwalk
    exact ⟨hlist.1, hlist.2, (walkTo_stop hspan (by omega) hwalk).2⟩
  -- the walk stops at `k` exactly when the block begins at the item
  have hbegin : ∀ {n : Nat}, n ≤ k → base.add k = base.add n → n = k := by
    intro n hn heq
    have := congrArg (pos base) heq
    rw [pos_base_add (by omega), pos_base_add (by omega)] at this
    exact this.symm
  induction h with
  | @exact st stop hwalk hseq hsize =>
    obtain ⟨hlist, hat, hle, hlt⟩ := hstop hspan hwalk
    have hk := hbegin hle (hseq.trans hat)
    have hitem : 0 < stop.item.size := by omega
    refine ⟨?_, hk, hitem, hsize.ge⟩
    exact hlist ▸ hplaced
  | @splitEnd st stop hwalk hseq hsize =>
    obtain ⟨hlist, hat, hle, hlt⟩ := hstop hspan hwalk
    have hk := hbegin hle (hseq.trans hat)
    have hfst : (splitItems st.nextNode stop.item numBytes).1.size = numBytes :=
      splitItems_size_fst hsize.le
    refine ⟨?_, hk, by rw [hfst]; exact hpos, hfst.le⟩
    rw [← hlist] at hplaced
    exact WellPlaced.split st.nextNode hplaced hpos hsize
  | @short st stop hwalk hseq hend' hlast =>
    obtain ⟨hlist, hat, hle, hlt⟩ := hstop hspan hwalk
    have hk := hbegin hle (hseq.trans hat)
    have hbytes : bytes st.list = bytes stop.before + stop.item.size := by
      rw [← hlist, ItemRef.list, hlast]
      simp
    have hitem : 0 < stop.item.size := by omega
    refine ⟨hlist ▸ hplaced, hk, hitem, ?_⟩
    change stop.item.size ≤ numBytes
    have hposn : pos base (base.add (k + numBytes)) = k + numBytes :=
      pos_base_add (by omega)
    have hposs : pos base (base.add (bytes stop.before + stop.item.size))
        = bytes stop.before + stop.item.size := pos_base_add (by omega)
    have hnear : Near base (base.add (k + numBytes))
        (base.add (bytes stop.before + stop.item.size)) :=
      near_of_lt (by omega) (by omega)
    rw [hat, add_add, add_add, Bool.eq_false_iff, Ne, le_iff hnear, hposn, hposs] at hend'
    omega
  | @merge st stop next merged rest retrans found hwalk hseq hnext hmerge hrec ih =>
    obtain ⟨hlist, hat, hle, hlt⟩ := hstop hspan hwalk
    have hlist' : st.list = stop.before ++ stop.item :: next :: rest := by
      rw [← hlist, ItemRef.list, hnext]
    rw [hlist'] at hspan hplaced
    have hedit : Edit ⟨stop.before ++ stop.item :: next :: rest, st.retrans, st.nextNode⟩
        ⟨stop.before ++ merged :: rest, retrans, st.nextNode⟩ :=
      .merge _ _ _ _ _ _ _ _ hmerge
    refine ih ?_ (hplaced.merge hmerge)
    rw [bytes, hedit.payload_eq]
    exact hspan
  | @splitStart st stop found hwalk hseq hrec ih =>
    obtain ⟨hlist, hat, hle, hlt⟩ := hstop hspan hwalk
    have hlist' : st.list = stop.before ++ stop.item :: stop.after := hlist.symm
    have hne : bytes stop.before ≠ k := by
      rintro rfl
      exact hseq hat.symm
    have hdist : (base.add k).distance stop.beginOfCurrentPacket
        = k - bytes stop.before := by
      rw [distance_eq_pos, hat, pos_rebase base] <;>
        rw [pos_base_add (by omega), pos_base_add (by omega)]
      exact hle
    rw [hlist'] at hspan hplaced
    have hedit : Edit ⟨stop.before ++ stop.item :: stop.after, st.retrans, st.nextNode⟩ _ :=
      .split _ _ _ (k - bytes stop.before) _ _
    rw [hdist] at ih
    refine ih ?_ (hplaced.split st.nextNode (by omega) (by omega))
    rw [bytes, hedit.payload_eq]
    exact hspan

end Ns3.Tcp
