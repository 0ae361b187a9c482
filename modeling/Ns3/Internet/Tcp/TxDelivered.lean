/-
  The bytes that the rate estimator counts as
  delivered.

  A connection hands every segment it sends to `SkbSent`, and every item that is
  sacked, or acknowledged as a whole, to `SkbDelivered`.  An item is counted once
  because its delivered time is then `Time::Max()`.  Splits do not copy that time, and
  the bytes that an acknowledgment takes from the front of an item are not handed to
  the estimator.
-/
import Ns3.Internet.Tcp.TcpRateOps
import Ns3.Internet.Tcp.TxBodies
import Ns3.Internet.Tcp.TxPlaced

namespace Ns3.Tcp

open Ns3.Lib SequenceNumber

/-! ## The connection -/

/-- The buffer and the estimator of a connection, and how many bytes were acknowledged. -/
structure RateRun where
  buffer : TcpTxBuffer
  rateOps : TcpRateLinux := {}
  acked : Nat := 0
  deriving DecidableEq, Repr

/-- What the socket does that the rate sampler sees. -/
inductive RateOp where
  /-- a call of the buffer without a callback -/
  | call (op : TxOp)
  | send (now : Time) (numBytes : Nat) (seq : SequenceNumber32) (isStartOfTransmission : Bool)
  | update (now : Time) (list : List SackBlock)
  | discardUpTo (now : Time) (seq : SequenceNumber32)
  | calculateAppLimited (cWnd inFlight segmentSize : Nat) (tailSeq nextTx : SequenceNumber32)
      (lostOut retransOut : Nat)
  | generateSample (delivered lost : Nat) (isSackReneg : Bool) (priorInFlight : Nat)
      (minRtt : Time)
  deriving DecidableEq, Repr

namespace TcpTxBuffer

def write (b : TcpTxBuffer) (skb : TcpTxItem) : TcpTxBuffer :=
  { b with sentList := b.sentList.map fun item => if item.node = skb.node then skb else item }

def read (b : TcpTxBuffer) (node : Nat) : Option TcpTxItem :=
  b.sentList.find? fun item => item.node = node

def startsItem (b : TcpTxBuffer) (seq : SequenceNumber32) : Bool :=
  b.sentList.any (fun item => decide (item.startSeq = seq)) || decide (seq = b.firstUnsent)

end TcpTxBuffer

namespace RateRun

/-- The callback of `Update`, for the items it is handed. -/
def deliver (now : Time) (r : RateRun) (skb : TcpTxItem) : RateRun :=
  match r.buffer.read skb.node with
  | none => r
  | some item =>
    { r with
      rateOps := (r.rateOps.skbDelivered now item).1
      buffer := r.buffer.write (r.rateOps.skbDelivered now item).2 }

/-- The callback of `DiscardUpTo`, for an item that is no longer in the list. -/
def deliverDeleted (now : Time) (ops : TcpRateLinux) (skb : TcpTxItem) : TcpRateLinux :=
  (ops.skbDelivered now skb).1

/-- One `RateOp` that returns. -/
inductive Step (r : RateRun) : RateOp → RateRun → Prop where
  | call {op : TxOp} {b : TcpTxBuffer} (h : op.exec r.buffer = .ok b) :
      Step r (.call op) { r with buffer := b }
  | send {now : Time} {numBytes : Nat} {seq : SequenceNumber32} {isStart : Bool}
      {b : TcpTxBuffer} {skb : TcpTxItem}
      (h : r.buffer.copyFromSequence now numBytes seq = .ok (b, some skb)) :
      Step r (.send now numBytes seq isStart)
        { r with
          buffer := b.write (r.rateOps.skbSent now skb isStart).2
          rateOps := (r.rateOps.skbSent now skb isStart).1 }
  | update {now : Time} {list : List SackBlock} {b : TcpTxBuffer} {bytesSacked : Nat}
      {newlySacked : List TcpTxItem}
      (h : r.buffer.update list = .ok (b, bytesSacked, newlySacked)) :
      Step r (.update now list) (newlySacked.foldl (deliver now) { r with buffer := b })
  | discardUpTo {now : Time} {seq : SequenceNumber32} {b : TcpTxBuffer}
      {deleted : List TcpTxItem} (h : r.buffer.discardUpTo now seq = .ok (b, deleted)) :
      Step r (.discardUpTo now seq)
        { buffer := b
          rateOps := deleted.foldl (deliverDeleted now) r.rateOps
          acked := r.acked + (r.buffer.size - b.size) }
  | calculateAppLimited {cWnd inFlight segmentSize : Nat} {tailSeq nextTx : SequenceNumber32}
      {lostOut retransOut : Nat} :
      Step r (.calculateAppLimited cWnd inFlight segmentSize tailSeq nextTx lostOut retransOut)
        { r with
          rateOps := r.rateOps.calculateAppLimited cWnd inFlight segmentSize tailSeq nextTx
            lostOut retransOut }
  | generateSample {delivered lost : Nat} {isSackReneg : Bool} {priorInFlight : Nat}
      {minRtt : Time} :
      Step r (.generateSample delivered lost isSackReneg priorInFlight minRtt)
        { r with
          rateOps := r.rateOps.generateSample delivered lost isSackReneg priorInFlight minRtt }

def Uncounted (items : List TcpTxItem) : Prop := ∀ item ∈ items, item.delivered = false

instance (items : List TcpTxItem) : Decidable (Uncounted items) :=
  inferInstanceAs (Decidable (∀ item ∈ items, item.delivered = false))

/-- What a connection is: segments and acknowledgments go through the estimator, only
sent data is acknowledged, and as the receiver does not renege, no item that was counted
loses its SACK mark, is sent as new data or is left at the head by an acknowledgment. -/
def Admits (r : RateRun) : RateOp → Prop
  | .call (.copyFromSequence _ _ _) => False
  | .call (.update _) => False
  | .call (.discardUpTo _ _) => False
  | .call .markHeadAsLost => Uncounted (r.buffer.sentList.take 1)
  | .call .resetRenoSack => Uncounted r.buffer.sentList
  | .call (.setSentListLost resetSack) => resetSack = true → Uncounted r.buffer.sentList
  | .call .resetSentList => Uncounted r.buffer.sentList
  | .call .resetLastSegmentSent =>
    Uncounted (r.buffer.sentList.drop (r.buffer.sentList.length - 1))
  | .call _ => True
  | .send now _ _ _ => now < Time.max
  | .update now _ => now < Time.max
  | .discardUpTo now seq => now < Time.max ∧
      (r.buffer.appList = [] ∨ seq.le r.buffer.firstUnsent = true) ∧
      Uncounted (r.buffer.sentList.filter fun item => decide (item.startSeq = seq))
  | .calculateAppLimited .. => True
  | .generateSample .. => True

/-- What a connection must not do for the count to be right: retransmit from inside an item,
or have an item acknowledged in part. -/
def WholeItems (r : RateRun) : RateOp → Bool
  | .send _ _ seq _ => r.buffer.startsItem seq
  | .discardUpTo _ seq => r.buffer.firstByteSeq.ge seq || r.buffer.startsItem seq ||
      (r.buffer.appList.isEmpty && r.buffer.firstUnsent.lt seq)
  | _ => true

end RateRun

/-! ## Marks and counts of a list of items -/

def Marked (items : List TcpTxItem) : Prop :=
  ∀ item ∈ items, item.delivered = true → item.sacked = true

section Lists

variable {l l' before after : List TcpTxItem} {item item' : TcpTxItem}

theorem marked_append : Marked (l ++ l') ↔ Marked l ∧ Marked l' := by
  simp only [Marked, List.mem_append, or_imp, forall_and]

theorem marked_cons :
    Marked (item :: l) ↔ (item.delivered = true → item.sacked = true) ∧ Marked l := by
  simp only [Marked, List.mem_cons, forall_eq_or_imp]

theorem Marked.keep (h : Marked l) (hkeep : AllKeepSack l l') : Marked l' := by
  induction hkeep with
  | nil => exact h
  | @cons a a' l l' hitem _ ih =>
    rw [marked_cons] at h ⊢
    refine ⟨fun hdone => hitem.2 (h.1 ?_), ih h.2⟩
    have hinfo : a'.rateInfo = a.rateInfo := congrArg (·.2.2.2) hitem.1
    rwa [TcpTxItem.delivered, hinfo] at hdone

theorem RateRun.Uncounted.marked (h : RateRun.Uncounted l) : Marked l := by
  intro item hmem hdone
  rw [h item hmem] at hdone
  cases hdone

theorem RateRun.Uncounted.of_bodies (h : RateRun.Uncounted l) (hbodies : l'.map body = l.map body) :
    RateRun.Uncounted l' :=
  forall_of_bodies (P := fun x => decide (x.2.2.2.deliveredTime = Time.max) = false) hbodies h

theorem counted_of_bodies (h : l'.map body = l.map body) :
    flagBytes (·.delivered) l' = flagBytes (·.delivered) l :=
  flagBytes_of_bodies (p := fun x => decide (x.2.2.2.deliveredTime = Time.max)) (fun _ => rfl) h

theorem counted_middle : flagBytes (·.delivered) (before ++ item :: after) =
    flagBytes (·.delivered) before + (if item.delivered then item.size else 0) +
      flagBytes (·.delivered) after := by
  rw [flagBytes_append, flagBytes_cons, Nat.add_assoc]

theorem counted_add_uncounted (l : List TcpTxItem) :
    flagBytes (·.delivered) l + flagBytes (!·.delivered) l = bytes l := by
  induction l with
  | nil => rfl
  | cons item rest ih =>
    rw [flagBytes_cons, flagBytes_cons, bytes_cons, ← ih]
    cases item.delivered with
    | true => simp; omega
    | false => simp; omega

theorem before_unique {before' after' : List TcpTxItem} (hitem : 0 < item.size)
    (heq : before ++ item :: after = before' ++ item' :: after')
    (hle : bytes before' ≤ bytes before) (hlt : bytes before < bytes before' + item'.size) :
    before = before' ∧ item = item' ∧ after = after' := by
  rcases List.append_eq_append_iff.mp heq with ⟨mid, hbefore, hrest⟩ | ⟨mid, hbefore, hrest⟩
  · cases mid with
    | nil =>
      rw [List.append_nil] at hbefore
      obtain ⟨rfl, rfl⟩ := List.cons.inj hrest
      exact ⟨hbefore.symm, rfl, rfl⟩
    | cons x mid =>
      obtain ⟨rfl, -⟩ := List.cons.inj hrest
      rw [hbefore, bytes_append, bytes_cons] at hle
      omega
  · cases mid with
    | nil =>
      rw [List.append_nil] at hbefore
      obtain ⟨rfl, rfl⟩ := List.cons.inj hrest
      exact ⟨hbefore, rfl, rfl⟩
    | cons x mid =>
      obtain ⟨rfl, -⟩ := List.cons.inj hrest
      rw [hbefore, bytes_append, bytes_cons] at hlt
      omega

end Lists

/-! ## Extraction at the start of an item -/

variable {before after : List TcpTxItem}

theorem Extract.marked {base seq : SequenceNumber32} {numBytes : Nat} {st : ListState}
    {found : FoundItem} (h : Extract true base base numBytes seq st found) {item : TcpTxItem}
    (hlist : st.list = before ++ item :: after) (hseq : seq = base.add (bytes before))
    (hspan : bytes st.list < 2 ^ 31) (hplaced : WellPlaced true base st.list)
    (hmarked : Marked st.list) :
    found.item.sacked = item.sacked ∧ (found.item.sacked = false →
      Marked (found.before ++ found.after) ∧
      flagBytes (·.delivered) (found.before ++ found.after) = flagBytes (·.delivered) st.list) := by
  -- the walk stops at the item
  have hstop : ∀ {st : ListState} {stop : WalkStop} {item : TcpTxItem} {after : List TcpTxItem},
      st.list = before ++ item :: after → bytes st.list < 2 ^ 31 → WellPlaced true base st.list →
      walkTo true base seq base st.list = .ok stop →
      stop.before = before ∧ stop.item = item ∧ stop.after = after ∧
        stop.beginOfCurrentPacket = seq := by
    intro st stop item after hlist hspan hplaced hwalk
    have hbytes : bytes st.list = bytes before + (item.size + bytes after) := by
      rw [hlist, bytes_append, bytes_cons]
    have hpos : 0 < item.size := by
      have hne := hplaced.nonempty
      rw [hlist, nonempty_append, nonempty_cons] at hne
      exact hne.2.1
    have hat := (walkTo_list hwalk).2
    rw [hseq] at hwalk
    obtain ⟨hsplit, hle, hlt⟩ := walkTo_stop hspan (by omega) hwalk
    obtain ⟨hbefore, hitem, hafter⟩ := before_unique hpos (hlist.symm.trans hsplit) hle hlt
    refine ⟨hbefore.symm, hitem.symm, hafter.symm, ?_⟩
    rw [hat, ← hbefore, hseq]
  -- an item that is not sacked was not counted
  have hzero : ∀ {i : TcpTxItem}, (i.delivered = true → i.sacked = true) → i.sacked = false →
      i.delivered = false := by
    intro i hmark hclear
    by_contra hdone
    rw [hmark (by simpa using hdone)] at hclear
    cases hclear
  induction h generalizing item after with
  | @exact st stop hwalk _ _ =>
    obtain ⟨hbefore, hitem, hafter, -⟩ := hstop hlist hspan hplaced hwalk
    dsimp only
    rw [hitem, hbefore, hafter, hlist]
    rw [hlist, marked_append, marked_cons] at hmarked
    refine ⟨rfl, fun hclear => ⟨marked_append.mpr ⟨hmarked.1, hmarked.2.2⟩, ?_⟩⟩
    rw [flagBytes_append, counted_middle, hzero hmarked.2.1 hclear]
    rfl
  | @splitEnd st stop hwalk _ _ =>
    obtain ⟨hbefore, hitem, hafter, -⟩ := hstop hlist hspan hplaced hwalk
    dsimp only
    rw [hitem, hbefore, hafter, hlist]
    rw [hlist, marked_append, marked_cons] at hmarked
    refine ⟨rfl, fun hclear => ?_⟩
    have hnot := hzero hmarked.2.1 hclear
    have hnot' : (splitItems st.nextNode item numBytes).2.delivered = false := hnot
    refine ⟨marked_append.mpr ⟨hmarked.1, marked_cons.mpr ⟨hmarked.2.1, hmarked.2.2⟩⟩, ?_⟩
    rw [counted_middle, counted_middle, hnot, hnot']
    rfl
  | @short st stop hwalk _ _ _ =>
    obtain ⟨hbefore, hitem, hafter, -⟩ := hstop hlist hspan hplaced hwalk
    dsimp only
    rw [hitem, hbefore, hafter, hlist]
    rw [hlist, marked_append, marked_cons] at hmarked
    refine ⟨rfl, fun hclear => ⟨marked_append.mpr ⟨hmarked.1, hmarked.2.2⟩, ?_⟩⟩
    rw [flagBytes_append, counted_middle, hzero hmarked.2.1 hclear]
    rfl
  | @merge st stop next merged rest retrans found hwalk _ hnext hmerge _ ih =>
    obtain ⟨hbefore, hitem, hafter, -⟩ := hstop hlist hspan hplaced hwalk
    rw [hitem] at hmerge
    rw [hbefore] at ih
    obtain rfl : after = next :: rest := hafter.symm.trans hnext
    have hedit : Edit ⟨before ++ item :: next :: rest, st.retrans, st.nextNode⟩
        ⟨before ++ merged :: rest, retrans, st.nextNode⟩ := .merge _ _ _ _ _ _ _ _ hmerge
    rw [hlist] at hspan hplaced hmarked ⊢
    obtain ⟨hsame, -, -, hmerged⟩ := mergeItems_eq_ok hmerge
    have hinfo : merged.delivered = item.delivered := by rw [hmerged]; rfl
    have hsacked : merged.sacked = item.sacked := by rw [hmerged]
    have hsize : merged.size = item.size + next.size := by
      rw [hmerged, TcpTxItem.size, Packet.length_addAtEnd]
      rfl
    rw [marked_append, marked_cons, marked_cons] at hmarked
    obtain ⟨hmarks, hmark, hmark', hmarks'⟩ := hmarked
    have hmarked' : Marked (before ++ merged :: rest) := by
      rw [marked_append, marked_cons, hinfo, hsacked]
      exact ⟨hmarks, hmark, hmarks'⟩
    obtain ⟨hkeeps, htakes⟩ := ih rfl
      (by rw [bytes, hedit.payload_eq]; exact hspan) (hplaced.merge hmerge) hmarked'
    refine ⟨hkeeps.trans hsacked, fun hclear => ?_⟩
    obtain ⟨hmarked'', hcount⟩ := htakes hclear
    refine ⟨hmarked'', hcount.trans ?_⟩
    have hclear' : item.sacked = false := hsacked ▸ hkeeps ▸ hclear
    have hnot := hzero hmark hclear'
    have hnot' := hzero hmark' (hsame ▸ hclear')
    rw [counted_middle, counted_middle, flagBytes_cons, hinfo, hnot, hnot']
    simp
  | @splitStart st stop found hwalk hne _ _ =>
    exact absurd (hstop hlist hspan hplaced hwalk).2.2.2.symm hne

namespace TcpTxBuffer

variable {b b' : TcpTxBuffer} {item : TcpTxItem}

/-! ## Writing an item through a pointer -/

section

variable (h : b.Distinct) (hlist : b.sentList = before ++ item :: after) (info : RateInformation)

include h hlist

theorem write_sentList :
    (b.write { item with rateInfo := info }).sentList =
      before ++ { item with rateInfo := info } :: after := by
  have hnodup := h.sent_nodup
  rw [hlist, List.map_append, List.map_cons, List.nodup_append] at hnodup
  obtain ⟨-, hafter, hbefore⟩ := hnodup
  have hkeep : ∀ l : List TcpTxItem, (∀ other ∈ l, other.node ≠ item.node) →
      (l.map fun other => if other.node = item.node then { item with rateInfo := info } else other)
        = l := by
    intro l hne
    exact (List.map_congr_left fun other hmem => if_neg (hne other hmem)).trans (List.map_id l)
  dsimp only [write]
  rw [hlist, List.map_append, List.map_cons, if_pos rfl, hkeep before, hkeep after]
  · intro other hmem hnode
    exact (List.nodup_cons.mp hafter).1 (hnode ▸ List.mem_map_of_mem hmem)
  · intro other hmem
    exact hbefore _ (List.mem_map_of_mem hmem) _ (.head _)

theorem write_samePlaces : SamePlaces b (b.write { item with rateInfo := info }) := by
  refine ⟨?_, rfl, rfl, rfl, rfl, rfl⟩
  rw [write_sentList h hlist, hlist, List.map_append, List.map_append]
  rfl

theorem write_distinct : (b.write { item with rateInfo := info }).Distinct := by
  refine h.of_nodes ?_ rfl
  rw [nodes, nodes, write_sentList h hlist, hlist, List.map_append, List.map_append]
  rfl

end

theorem read_eq_some {node : Nat} (h : b.read node = some item) :
    item.node = node ∧ ∃ before after, b.sentList = before ++ item :: after := by
  obtain ⟨hnode, before, after, hlist, -⟩ := List.find?_eq_some_iff_append.mp h
  exact ⟨by simpa using hnode, before, after, hlist⟩

/-! ## Acknowledgments of whole items -/

theorem Placed.discardItem {rest : List TcpTxItem} (h : Placed b)
    (hlist : b.sentList = item :: rest)
    (hremove : removeFromCounts (b.advance item.size rest) item item.size = .ok b') :
    Placed b' := by
  obtain ⟨data, hholds⟩ := h.holds
  have hlen : data.length < 2 ^ 31 := by
    rw [hholds.length_eq]
    exact h.size_lt
  have hsizes := hholds.size_eq
  rw [hlist, bytes_cons] at hsizes
  have hsub : wsub 32 b.size item.size = b.size - item.size :=
    wsub_eq (by have := h.size_lt; omega) (by omega)
  have hsame := removeFromCounts_samePlaces hremove
  have hsize : b'.size = b.size - item.size := hsame.size.trans hsub
  have hmax : b'.maxBuffer = b.maxBuffer := hsame.maxBuffer
  refine ⟨⟨_, (hholds.advanceWhole hlen hlist).of_samePlaces hsame⟩, ?_, ?_⟩
  · rw [hsize, hmax]
    exact (Nat.sub_le _ _).trans h.size_le
  · rw [hmax]
    exact h.max_lt

theorem discardLoop_whole {now : Time} {fuel offset : Nat} {deleted front back : List TcpTxItem}
    (h : Placed b) (hrun : discardLoop now fuel b offset = .ok (b', deleted))
    (hlist : b.sentList = front ++ back)
    (hoffset : bytes front = offset ∨ (back = [] ∧ b.appList = [] ∧ bytes front ≤ offset)) :
    deleted = front ∧ b'.sentList = back ∧ b'.appList = b.appList := by
  induction fuel generalizing b front offset deleted with
  | zero => simp [discardLoop] at hrun
  | succ fuel ih =>
    have hsizes : b.size = bytes front + bytes back + bytes b.appList := by
      obtain ⟨data, hholds⟩ := h.holds
      rw [hholds.size_eq, hlist, bytes_append]
    have hne := h.nonempty
    rw [hlist] at hne
    rcases discardLoop_cases hrun with ⟨hstop, rfl, rfl⟩ |
      ⟨hgo, b₁, item, rest, b₂, hfill, hitem, hturn⟩
    · cases front with
      | nil => exact ⟨rfl, hlist, rfl⟩
      | cons item front =>
        rw [List.cons_append, nonempty_cons] at hne
        rw [bytes_cons] at hsizes hoffset
        exact absurd ⟨by omega, by omega⟩ hstop
    · cases front with
      | nil =>
        rcases hoffset with hzero | ⟨rfl, happ, -⟩
        · exact absurd hzero (Nat.ne_of_lt hgo.2)
        · rw [happ] at hsizes
          exact absurd hsizes (Nat.ne_of_gt hgo.1)
      | cons first front =>
        rw [List.cons_append] at hlist
        rcases fillSentList_cases hfill with ⟨-, rfl⟩ | ⟨hempty, -⟩
        · obtain ⟨rfl, rfl⟩ := List.cons.inj (hlist.symm.trans hitem)
          rw [bytes_cons] at hoffset
          rcases hturn with ⟨hwhole, hremove, deleted', hrec, rfl⟩ | ⟨hpart, -, -, -⟩
          · have hplaced := h.discardItem hitem hremove
            obtain rfl := removeFromCounts_eq_ok hremove
            obtain ⟨rfl, hback, happ⟩ := ih hplaced hrec rfl (by
              rcases hoffset with heq | ⟨hnil, happ, hle⟩
              · exact .inl (by omega)
              · exact .inr ⟨hnil, happ, by omega⟩)
            exact ⟨rfl, hback, happ⟩
          · omega
        · rw [hempty] at hlist
          cases hlist

theorem moveSackFromHead_marked (h : b.moveSackFromHead = .ok b') (hmarked : Marked b.sentList)
    (hhead : RateRun.Uncounted (b.sentList.take 1)) :
    b'.sentList.map body = b.sentList.map body ∧ b'.appList = b.appList ∧
      Marked b'.sentList := by
  rcases moveSackFromHead_cases h with ⟨-, rfl⟩ | ⟨head, tail, b₁, hlist, -, -, hsack, rfl⟩
  · exact ⟨rfl, rfl, hmarked⟩
  · rw [hlist] at hmarked hhead
    have hnot : head.delivered = false := hhead head (.head _)
    have hkeep := addRenoSack_sameMarks hsack
    have hmarked' : Marked ({ head with sacked := false } :: tail) := by
      refine marked_cons.mpr ⟨fun hdone => ?_, (marked_cons.mp hmarked).2⟩
      exact absurd (hnot.symm.trans hdone) Bool.false_ne_true
    have hmarked₁ : Marked b₁.sentList := hmarked'.keep hkeep.sentList
    have hbodies₁ : b₁.sentList.map body = b.sentList.map body := by
      rw [hkeep.sentList.bodies, hlist]
      rfl
    rw [markHeadAsLost]
    split
    · exact ⟨hbodies₁, hkeep.appList, hmarked₁⟩
    · rename_i head₁ tail₁ hlist₁
      rw [hlist₁, hlist, List.map_cons, List.map_cons] at hbodies₁
      have hinfo : head₁.rateInfo = head.rateInfo :=
        congrArg (·.2.2.2) (List.cons.inj hbodies₁).1
      refine ⟨?_, hkeep.appList, marked_cons.mpr ⟨fun hdone => ?_, ?_⟩⟩
      · rw [hlist, List.map_cons, List.map_cons, ← hbodies₁]
        rfl
      · rw [TcpTxItem.delivered] at hnot hdone
        rw [hinfo, hnot] at hdone
        cases hdone
      · rw [hlist₁] at hmarked₁
        exact (marked_cons.mp hmarked₁).2

end TcpTxBuffer

namespace RateRun

open TcpTxBuffer

variable {r r' : RateRun} {b : TcpTxBuffer} {now : Time} {head seq : SequenceNumber32}

/-! ## The invariant -/

/-- What was counted: the acknowledged bytes and, of the sent items, those that are marked.
The marked ones are sacked. -/
structure Tracks (r : RateRun) : Prop where
  placed : r.buffer.Placed
  distinct : r.buffer.Distinct
  timed : r.rateOps.Timed
  marked : Marked r.buffer.sentList
  counts : r.rateOps.Counts (r.acked + flagBytes (·.delivered) r.buffer.sentList)

theorem Tracks.of_bodies (h : r.Tracks) (hplaced : b.Placed)
    (hbodies : b.sentList.map body = r.buffer.sentList.map body)
    (happ : b.appList = r.buffer.appList) (hnext : b.nextNode = r.buffer.nextNode)
    (hmarked : Marked b.sentList) : Tracks { r with buffer := b } where
  placed := hplaced
  distinct := h.distinct.of_bodies hbodies happ hnext
  timed := h.timed
  marked := hmarked
  counts := by
    dsimp only
    rw [counted_of_bodies hbodies]
    exact h.counts

theorem Tracks.of_sameMarks (h : r.Tracks) (hplaced : b.Placed) (hsame : SameMarks r.buffer b) :
    Tracks { r with buffer := b } :=
  h.of_bodies hplaced hsame.sentList.bodies hsame.appList hsame.nextNode
    (h.marked.keep hsame.sentList)

/-- Calls of the buffer keep what is tracked. -/
theorem Tracks.call {op : TxOp} (h : r.Tracks) (hadmits : r.Admits (.call op))
    (hexec : op.exec r.buffer = .ok b) : Tracks { r with buffer := b } := by
  have hplaced := h.placed.step hexec
  cases op.effect hexec with
  | copyFromSequence _ => exact hadmits.elim
  | update _ => exact hadmits.elim
  | discardUpTo _ => exact hadmits.elim
  | add p =>
    have hsent : (r.buffer.add p).1.sentList = r.buffer.sentList := by
      rw [TcpTxBuffer.add]
      repeat' split
      all_goals rfl
    refine ⟨hplaced, h.distinct.add p, h.timed, ?_, ?_⟩
    · rw [hsent]
      exact h.marked
    · rw [hsent]
      exact h.counts
  | updateLostCount hcount => exact h.of_sameMarks hplaced (updateLostCount_sameMarks hcount)
  | addRenoSack hadd => exact h.of_sameMarks hplaced (addRenoSack_sameMarks hadd)
  | deleteRetransmittedFlagFromHead hdelete =>
    exact h.of_sameMarks hplaced (deleteRetransmittedFlagFromHead_sameMarks hdelete)
  | markHeadAsLost =>
    have hmarks := h.marked
    have hnot : Uncounted (r.buffer.sentList.take 1) := hadmits
    rw [markHeadAsLost] at hplaced ⊢
    split
    · exact h
    · rename_i front tail hlist
      rw [hlist] at hnot hmarks
      refine h.of_bodies ?_ ?_ rfl rfl (marked_cons.mpr ⟨fun hdone => ?_, ?_⟩)
      · simpa only [hlist] using hplaced
      · rw [hlist]
        rfl
      · have hclear : front.delivered = false := hnot front (.head _)
        exact absurd (hclear.symm.trans hdone) Bool.false_ne_true
      · exact (marked_cons.mp hmarks).2
  | resetRenoSack =>
    have hbodies : r.buffer.resetRenoSack.sentList.map body = r.buffer.sentList.map body := by
      rw [resetRenoSack, List.map_map]
      rfl
    exact h.of_bodies hplaced hbodies rfl rfl (Uncounted.of_bodies hadmits hbodies).marked
  | @setSentListLost resetSack _ hset =>
    cases resetSack with
    | false => exact h.of_sameMarks hplaced (setSentListLost_sameMarks hset)
    | true =>
      simp only [setSentListLost, bind_eq_ok, pure_eq_ok] at hset
      obtain ⟨_, _, rfl⟩ := hset
      have hbodies : (r.buffer.sentList.map fun item : TcpTxItem =>
          { item with sacked := false, lost := true, retrans := false }).map body =
          r.buffer.sentList.map body := by
        rw [List.map_map]
        rfl
      exact h.of_bodies hplaced hbodies rfl rfl
        (Uncounted.of_bodies (hadmits rfl) hbodies).marked
  | resetSentList =>
    have hzero : flagBytes (·.delivered) r.buffer.sentList = 0 := tally_eq_zero _ hadmits
    refine ⟨hplaced, h.distinct.resetSentList, h.timed, fun _ hmem => ?_, ?_⟩
    · cases hmem
    · have hcounts := h.counts
      rw [hzero] at hcounts
      exact hcounts
  | resetLastSegmentSent =>
    have hdistinct := h.distinct.resetLastSegmentSent
    have hnot : Uncounted (r.buffer.sentList.drop (r.buffer.sentList.length - 1)) := hadmits
    rw [resetLastSegmentSent] at hplaced hdistinct ⊢
    split
    · exact h
    · rename_i item hlast
      have hsplit : r.buffer.sentList = r.buffer.sentList.dropLast ++ [item] :=
        (List.dropLast_append_getLast? item hlast).symm
      have hlength : r.buffer.sentList.length - 1 = r.buffer.sentList.dropLast.length :=
        List.length_dropLast.symm
      have hclear : item.delivered = false := by
        rw [hlength, hsplit, List.dropLast_concat, List.drop_left] at hnot
        exact hnot item (.head _)
      have hmarks := h.marked
      have hcounts := h.counts
      rw [hsplit, marked_append] at hmarks
      rw [hsplit, flagBytes_append, flagBytes_cons, hclear] at hcounts
      refine ⟨?_, ?_, h.timed, hmarks.1, hcounts⟩
      · simpa only [hlast] using hplaced
      · simpa only [hlast] using hdistinct

/-! ## Segments that are sent -/

variable {skb : TcpTxItem}

theorem Tracks.sent (h : r.Tracks)
    (hplaced : b.Placed) (hdistinct : b.Distinct) (hlist : b.sentList = before ++ skb :: after)
    (hmarked : Marked (before ++ after))
    (hcount : flagBytes (·.delivered) (before ++ after) =
      flagBytes (·.delivered) r.buffer.sentList)
    (hnow : now < Time.max) (isStart : Bool) :
    Tracks { r with
      buffer := b.write (r.rateOps.skbSent now skb isStart).2
      rateOps := (r.rateOps.skbSent now skb isStart).1 } := by
  obtain ⟨info, hitem, hinfo⟩ := TcpRateLinux.skbSent_item h.timed hnow skb isStart
  have hnot : ({ skb with rateInfo := info } : TcpTxItem).delivered = false := decide_eq_false hinfo
  rw [hitem]
  have hwrite := write_sentList hdistinct hlist info
  rw [marked_append] at hmarked
  refine ⟨hplaced.of_samePlaces (write_samePlaces hdistinct hlist info),
    write_distinct hdistinct hlist info, h.timed.skbSent hnow skb isStart, ?_, ?_⟩
  · dsimp only
    rw [hwrite, marked_append, marked_cons, hnot]
    exact ⟨hmarked.1, fun hdone => absurd hdone Bool.false_ne_true, hmarked.2⟩
  · dsimp only
    rw [hwrite, counted_middle, hnot, if_neg Bool.false_ne_true, Nat.add_zero, ← flagBytes_append,
      hcount]
    exact h.counts.skbSent now skb isStart

theorem Tracks.send {numBytes : Nat} {isStart : Bool} (h : r.Tracks) (hnow : now < Time.max)
    (hstart : r.buffer.startsItem seq = true)
    (hcopy : r.buffer.copyFromSequence now numBytes seq = .ok (b, some skb)) :
    Tracks { r with
      buffer := b.write (r.rateOps.skbSent now skb isStart).2
      rateOps := (r.rateOps.skbSent now skb isStart).1 } := by
  have hplaced := h.placed.copyFromSequence hcopy
  have hspan : bytes r.buffer.sentList < 2 ^ 31 := by
    rw [h.placed.bytes_eq]
    exact h.placed.sentSize_lt
  obtain ⟨found, hsend | hsend⟩ := copyFromSequence_hands hcopy
  · obtain ⟨s, hextract⟩ := hsend.extract
    have hwell : WellPlaced true r.buffer.firstByteSeq r.buffer.sentList :=
      ⟨h.placed.nonempty, fun _ => h.placed.chain⟩
    rw [startsItem, Bool.or_eq_true, List.any_eq_true] at hstart
    obtain ⟨before, item, after, hlist, hseq⟩ : ∃ before item after,
        r.buffer.sentList = before ++ item :: after ∧
          seq = r.buffer.firstByteSeq.add (bytes before) := by
      rcases hstart with ⟨item, hmem, hseq⟩ | hunsent
      · obtain ⟨before, after, hlist⟩ := List.append_of_mem hmem
        have hchain := h.placed.chain
        rw [hlist, chain_append] at hchain
        refine ⟨before, item, after, hlist, ?_⟩
        rw [← of_decide_eq_true hseq]
        exact hchain.2.1
      · -- the first unsent byte is in no sent item
        have hwalk : ∃ stop, walkTo true r.buffer.firstByteSeq seq r.buffer.firstByteSeq
            r.buffer.sentList = .ok stop := by
          cases hextract with
          | exact hwalk _ _ => exact ⟨_, hwalk⟩
          | splitEnd hwalk _ _ => exact ⟨_, hwalk⟩
          | short hwalk _ _ _ => exact ⟨_, hwalk⟩
          | merge hwalk _ _ _ _ => exact ⟨_, hwalk⟩
          | splitStart hwalk _ _ => exact ⟨_, hwalk⟩
        obtain ⟨stop, hwalk⟩ := hwalk
        rw [of_decide_eq_true hunsent, firstUnsent] at hwalk
        obtain ⟨hsplit, -, hlt⟩ := walkTo_stop hspan h.placed.sentSize_lt hwalk
        rw [← h.placed.bytes_eq, hsplit, bytes_append, bytes_cons] at hlt
        omega
    obtain ⟨-, htakes⟩ := hextract.marked hlist hseq hspan hwell h.marked
    obtain ⟨hmarked, hcount⟩ := htakes hsend.unsacked
    exact h.sent hplaced (h.distinct.retransmits hsend) hsend.sentList hmarked hcount hnow isStart
  · have hlist : b.sentList = r.buffer.sentList ++ skb :: [] := hsend.sentList
    refine h.sent hplaced (h.distinct.sendsNew hsend) hlist ?_ ?_ hnow isStart
    · rw [List.append_nil]
      exact h.marked
    · rw [List.append_nil]

/-! ## Items that are sacked -/

/-- Delivering a sacked item keeps what is tracked, and the marks. -/
theorem Tracks.deliver (h : r.Tracks) (hnow : now < Time.max)
    (hmark : ∃ item ∈ r.buffer.sentList, item.node = skb.node ∧ item.sacked = true) :
    Tracks (deliver now r skb) ∧ ∀ node,
      (∃ item ∈ r.buffer.sentList, item.node = node ∧ item.sacked = true) →
        ∃ item ∈ (RateRun.deliver now r skb).buffer.sentList, item.node = node ∧
          item.sacked = true := by
  unfold RateRun.deliver
  split
  · exact ⟨h, fun _ hnode => hnode⟩
  · rename_i item hread
    obtain ⟨hnode, before, after, hlist⟩ := read_eq_some hread
    rw [TcpRateLinux.skbDelivered_item]
    have hwrite := write_sentList h.distinct hlist
      { item.rateInfo with deliveredTime := Time.max }
    have hdone : ({ item with rateInfo := { item.rateInfo with deliveredTime := Time.max } } :
        TcpTxItem).delivered = true := decide_eq_true rfl
    have hsize : 0 < item.size := by
      have hne := h.placed.nonempty
      rw [hlist, nonempty_append, nonempty_cons] at hne
      exact hne.2.1
    -- the item at the node is the sacked one
    have hsacked : item.sacked = true := by
      obtain ⟨other, hmem, hnode', hs⟩ := hmark
      have hsame : other = item := by
        refine List.inj_on_of_nodup_map h.distinct.sent_nodup hmem ?_ (hnode'.trans hnode.symm)
        rw [hlist]
        exact List.mem_append_right _ (.head _)
      exact hsame ▸ hs
    have hmarked := h.marked
    have hcounts := h.counts
    rw [hlist, marked_append, marked_cons] at hmarked
    rw [hlist, counted_middle] at hcounts
    refine ⟨⟨h.placed.of_samePlaces (write_samePlaces h.distinct hlist _),
      write_distinct h.distinct hlist _, h.timed.skbDelivered hnow item, ?_, ?_⟩, ?_⟩
    · dsimp only
      rw [hwrite, marked_append, marked_cons]
      exact ⟨hmarked.1, fun _ => hsacked, hmarked.2.2⟩
    · dsimp only
      rw [hwrite, counted_middle, hdone]
      have hsum := hcounts.skbDelivered now hsize
      have hsame : r.acked + (flagBytes (·.delivered) before +
            (if item.delivered = true then item.size else 0) + flagBytes (·.delivered) after) +
            (if item.delivered = true then 0 else item.size) =
          r.acked + (flagBytes (·.delivered) before + item.size +
            flagBytes (·.delivered) after) := by
        split <;> omega
      rw [hsame] at hsum
      exact hsum
    · intro node hsome
      dsimp only
      rw [hwrite]
      rw [hlist] at hsome
      obtain ⟨other, hmem, hother⟩ := hsome
      rcases List.mem_append.mp hmem with hin | hin
      · exact ⟨other, List.mem_append_left _ hin, hother⟩
      · rcases List.mem_cons.mp hin with rfl | hin
        · exact ⟨_, List.mem_append_right _ (.head _), hother⟩
        · exact ⟨other, List.mem_append_right _ (.tail _ hin), hother⟩

theorem Tracks.deliverAll {newlySacked : List TcpTxItem} (h : r.Tracks) (hnow : now < Time.max)
    (hmarks : Marks r.buffer.sentList newlySacked) :
    Tracks (newlySacked.foldl (RateRun.deliver now) r) := by
  induction newlySacked generalizing r with
  | nil => exact h
  | cons skb rest ih =>
    obtain ⟨hnext, hkeep⟩ := h.deliver hnow (hmarks skb (.head _))
    exact ih hnext fun later hmem => hkeep _ (hmarks later (.tail _ hmem))

/-! ## Items that are acknowledged -/

variable {deleted : List TcpTxItem}

theorem counts_deleted {ops : TcpRateLinux} {n : Nat} (hcounts : ops.Counts n) (htimed : ops.Timed)
    (hnow : now < Time.max) (hne : Nonempty deleted) :
    (deleted.foldl (deliverDeleted now) ops).Counts (n + flagBytes (!·.delivered) deleted) ∧
      (deleted.foldl (deliverDeleted now) ops).Timed := by
  induction deleted generalizing ops n with
  | nil => exact ⟨hcounts, htimed⟩
  | cons skb rest ih =>
    rw [nonempty_cons] at hne
    have hone := hcounts.skbDelivered now hne.1
    have hrest := ih hone (htimed.skbDelivered hnow skb) hne.2
    rw [flagBytes_cons, ← Nat.add_assoc]
    have hsame : (if (!skb.delivered) = true then skb.size else 0) =
        if skb.delivered = true then 0 else skb.size := by
      cases skb.delivered with
      | true => rfl
      | false => rfl
    rw [hsame]
    exact hrest

theorem Tracks.discardUpTo (h : r.Tracks) (hadmits : r.Admits (.discardUpTo now seq))
    (hwhole : r.WholeItems (.discardUpTo now seq) = true)
    (hdiscard : r.buffer.discardUpTo now seq = .ok (b, deleted)) :
    Tracks {
      buffer := b
      rateOps := deleted.foldl (deliverDeleted now) r.rateOps
      acked := r.acked + (r.buffer.size - b.size) } := by
  have hplaced := h.placed.discardUpTo hdiscard
  obtain ⟨hnow, -, hhead⟩ := hadmits
  rcases discardUpTo_cases hdiscard with ⟨-, rfl, rfl⟩ | ⟨hafter, b₁, b₂, hloop, hmove, rfl⟩
  · rw [Nat.sub_self, Nat.add_zero]
    exact h
  · rw [WholeItems, hafter, Bool.false_or, Bool.or_eq_true, Bool.and_eq_true] at hwhole
    -- the acknowledgment ends where an item ends
    obtain ⟨front, back, hlist, hoffset, hback⟩ : ∃ front back,
        r.buffer.sentList = front ++ back ∧
        (bytes front = seq.distance r.buffer.firstByteSeq ∨
          (back = [] ∧ r.buffer.appList = [] ∧
            bytes front ≤ seq.distance r.buffer.firstByteSeq)) ∧
        Uncounted (back.take 1) := by
      have hlt := h.placed.sentSize_lt
      rw [distance_eq_pos]
      rcases hwhole with hstart | ⟨happ, hbeyond⟩
      · rw [startsItem, Bool.or_eq_true, List.any_eq_true] at hstart
        rcases hstart with ⟨item, hmem, hseq⟩ | hunsent
        · obtain ⟨front, back, hlist⟩ := List.append_of_mem hmem
          have hchain := h.placed.chain
          rw [hlist, chain_append] at hchain
          have hseq' := of_decide_eq_true hseq
          have hle : bytes front ≤ r.buffer.sentSize := by
            rw [← h.placed.bytes_eq, hlist, bytes_append]
            exact Nat.le_add_right _ _
          refine ⟨front, item :: back, hlist, .inl ?_, ?_⟩
          · rw [← hseq', hchain.2.1, pos_base_add (by omega)]
          · intro other hother
            rw [List.take_succ_cons, List.take_zero, List.mem_singleton] at hother
            rw [hother]
            exact hhead item (List.mem_filter.mpr ⟨hmem, hseq⟩)
        · refine ⟨r.buffer.sentList, [], (List.append_nil _).symm, .inl ?_, ?_⟩
          · rw [of_decide_eq_true hunsent, firstUnsent, pos_base_add (by omega), h.placed.bytes_eq]
          · exact List.forall_mem_nil _
      · refine ⟨r.buffer.sentList, [], (List.append_nil _).symm,
          .inr ⟨rfl, List.isEmpty_iff.mp happ, ?_⟩, List.forall_mem_nil _⟩
        have hgt : r.buffer.firstByteSeq.gt seq = false := by
          rw [ge, Bool.or_eq_false_iff] at hafter
          exact hafter.1
        have hhalf := pos_le_half hgt
        have hunsent : pos r.buffer.firstByteSeq r.buffer.firstUnsent = r.buffer.sentSize :=
          pos_base_add (by omega)
        rw [h.placed.bytes_eq]
        by_contra hbehind
        have hnear : Near r.buffer.firstByteSeq r.buffer.firstUnsent seq := ⟨by omega, by omega⟩
        rw [lt_iff hnear, hunsent] at hbeyond
        omega
    obtain ⟨rfl, hsent₁, happ₁⟩ := discardLoop_whole h.placed hloop hlist hoffset
    have hmarked := h.marked
    have hcounts := h.counts
    have hne := h.placed.nonempty
    rw [hlist, marked_append] at hmarked
    rw [hlist, flagBytes_append] at hcounts
    rw [hlist, nonempty_append] at hne
    obtain ⟨hbodies, happ, hmarked'⟩ := moveSackFromHead_marked hmove
      (by split <;> exact hsent₁ ▸ hmarked.2) (by split <;> exact hsent₁ ▸ hback)
    have hsent₂ : b₂.sentList.map body = back.map body := by
      rw [hbodies]
      split <;> rw [hsent₁]
    have hfinal : ∀ b' : TcpTxBuffer, b'.Placed → b'.Distinct → b'.sentList = b₂.sentList →
        b'.appList = b₂.appList →
        Tracks {
          buffer := b'
          rateOps := deleted.foldl (deliverDeleted now) r.rateOps
          acked := r.acked + (r.buffer.size - b'.size) } := by
      intro b' hplaced' hdistinct' hsent' happ'
      have hsent : b'.sentList.map body = back.map body := by rw [hsent', hsent₂]
      have happ'' : b'.appList = r.buffer.appList := by
        rw [happ', happ]
        split <;> exact happ₁
      obtain ⟨hdeleted, htimed⟩ := counts_deleted hcounts h.timed hnow hne.1
      have hsizes : r.buffer.size = bytes deleted + b'.size := by
        obtain ⟨data, hholds⟩ := h.placed.holds
        obtain ⟨data', hholds'⟩ := hplaced'.holds
        have hbytes : bytes b'.sentList = bytes back :=
          bytes_of_places (by
            have hplaces := congrArg (List.map fun x => (x.2.1, x.2.2.1)) hsent
            rwa [List.map_map, List.map_map] at hplaces)
        rw [hholds.size_eq, hholds'.size_eq, hlist, bytes_append, hbytes, happ'']
        omega
      refine ⟨hplaced', hdistinct', htimed, hsent' ▸ hmarked', ?_⟩
      dsimp only
      rw [counted_of_bodies hsent]
      have hsplit := counted_add_uncounted deleted
      have hsame : r.acked + (flagBytes (·.delivered) deleted + flagBytes (·.delivered) back) +
          flagBytes (!·.delivered) deleted =
          r.acked + (r.buffer.size - b'.size) + flagBytes (·.delivered) back := by omega
      rw [← hsame]
      exact hdeleted
    refine hfinal _ hplaced (h.distinct.discardUpTo hdiscard) ?_ ?_
    all_goals split <;> rfl

/-! ## Runs -/

/-- A step of a connection in which only whole items are retransmitted and acknowledged. -/
def WholeStep (r : RateRun) (op : RateOp) (r' : RateRun) : Prop :=
  r.Step op r' ∧ r.Admits op ∧ r.WholeItems op = true

def AdmittedStep (r : RateRun) (op : RateOp) (r' : RateRun) : Prop :=
  r.Step op r' ∧ r.Admits op

/-- **Step lemma.** -/
theorem Tracks.step {op : RateOp} (h : r.Tracks) (hstep : r.WholeStep op r') : r'.Tracks := by
  obtain ⟨hstep, hadmits, hwhole⟩ := hstep
  cases hstep with
  | call hexec => exact h.call hadmits hexec
  | send hcopy => exact h.send hadmits hwhole hcopy
  | update hupdate =>
    obtain ⟨hsame, hmarks⟩ := update_sameMarks hupdate
    have hplaced := h.placed.of_samePlaces (update_samePlaces hupdate)
    exact (h.of_sameMarks hplaced hsame).deliverAll hadmits hmarks
  | discardUpTo hdiscard => exact h.discardUpTo hadmits hwhole hdiscard
  | @calculateAppLimited cWnd inFlight segmentSize tailSeq nextTx lostOut retransOut =>
    refine ⟨h.placed, h.distinct, ?_, h.marked, h.counts.calculateAppLimited ..⟩
    have htimed := h.timed
    dsimp only [TcpRateLinux.calculateAppLimited]
    split
    · exact htimed
    · exact htimed
  | @generateSample delivered lost isSackReneg priorInFlight minRtt =>
    obtain ⟨hcount, htime⟩ := TcpRateLinux.generateSample_rate r.rateOps delivered lost
      isSackReneg priorInFlight minRtt
    refine ⟨h.placed, h.distinct, ?_, h.marked, hcount.trans h.counts⟩
    exact lt_of_eq_of_lt htime h.timed

/-- Nothing has been sent or acknowledged. -/
structure Starts (r : RateRun) (head : SequenceNumber32) : Prop where
  buffer : r.buffer.Starts head
  maxBuffer : r.buffer.maxBuffer < 2 ^ 31
  rateOps : r.rateOps = {}
  acked : r.acked = 0

theorem Starts.tracks (h : r.Starts head) : r.Tracks := by
  refine ⟨h.buffer.placed h.maxBuffer, h.buffer.distinct, ?_, ?_, ?_⟩
  · have hzero : (0 : Time) < Time.max := by decide
    rw [h.rateOps]
    exact hzero
  · rw [h.buffer.sentList]
    exact List.forall_mem_nil _
  · rw [h.buffer.sentList, h.acked, h.rateOps]
    rfl

/-- **The counter of delivered bytes** is, whenever nothing that was sent is outstanding, the number
of bytes acknowledged. -/
theorem delivered_conserved {r₀ : RateRun} {ops : List RateOp} (hstart : r₀.Starts head)
    (hrun : Run WholeStep r₀ ops r) (hall : r.buffer.sentList = []) :
    r.rateOps.rate.delivered = r.acked % 2 ^ 64 := by
  have htracks : r.Tracks := hrun.invariant hstart.tracks fun _ _ _ h hstep => h.step hstep
  have hcounts := htracks.counts
  rw [hall] at hcounts
  exact hcounts

def fromZero : RateRun := { buffer := { firstByteSeq := .ofNat 0 } }

theorem fromZero_starts : fromZero.Starts (.ofNat 0) :=
  ⟨⟨rfl, rfl, rfl, rfl, rfl, rfl, rfl, rfl, rfl, rfl⟩, by decide, rfl, rfl⟩

theorem early {t : Time} (h : t < 4) : t < Time.max := h.trans (by decide)

/-- Of six bytes the last two are sacked before all are acknowledged. -/
theorem delivered_conserved_sacked :
    ∃ r, Run WholeStep fromZero [.call (.add [1, 2, 3, 4, 5, 6]), .send 1 4 (.ofNat 0) true,
        .send 1 2 (.ofNat 4) false, .update 2 [(.ofNat 4, .ofNat 6)],
        .discardUpTo 3 (.ofNat 6)] r ∧
      r.acked = 6 ∧ r.rateOps.rate.delivered = r.acked % 2 ^ 64 := by
  have hrun : ∃ r, Run WholeStep fromZero [.call (.add [1, 2, 3, 4, 5, 6]),
        .send 1 4 (.ofNat 0) true, .send 1 2 (.ofNat 4) false, .update 2 [(.ofNat 4, .ofNat 6)],
        .discardUpTo 3 (.ofNat 6)] r ∧ r.acked = 6 ∧ r.buffer.sentList = [] :=
    ⟨_, .cons ⟨.call rfl, trivial, rfl⟩ (.cons ⟨.send rfl, early (by decide), by decide⟩
      (.cons ⟨.send rfl, early (by decide), by decide⟩ (.cons ⟨.update rfl, early (by decide), rfl⟩
        (.single ⟨.discardUpTo rfl, ⟨early (by decide), by decide, by decide⟩, by decide⟩)))),
        rfl, rfl⟩
  obtain ⟨r, hrun, hacked, hall⟩ := hrun
  exact ⟨r, hrun, hacked, delivered_conserved fromZero_starts hrun hall⟩

/-- A segment of four bytes is acknowledged in two halves, or is sent again from its middle on: two
bytes are counted. -/
theorem delivered_missed :
    (∃ r, Run AdmittedStep fromZero [.call (.add [1, 2, 3, 4]), .send 1 4 (.ofNat 0) true,
        .discardUpTo 2 (.ofNat 2), .discardUpTo 3 (.ofNat 4)] r ∧
      r.buffer.sentList = [] ∧ r.acked = 4 ∧ r.rateOps.rate.delivered = 2) ∧
    ∃ r, Run AdmittedStep fromZero [.call (.add [1, 2, 3, 4]), .send 1 4 (.ofNat 0) true,
        .send 2 2 (.ofNat 2) false, .discardUpTo 3 (.ofNat 4)] r ∧
      r.buffer.sentList = [] ∧ r.acked = 4 ∧ r.rateOps.rate.delivered = 2 := by
  constructor
  · exact ⟨_, .cons ⟨.call rfl, trivial⟩ (.cons ⟨.send rfl, early (by decide)⟩
      (.cons ⟨.discardUpTo rfl, early (by decide), by decide, by decide⟩
        (.single ⟨.discardUpTo rfl, early (by decide), by decide, by decide⟩))), rfl, rfl, rfl⟩
  · exact ⟨_, .cons ⟨.call rfl, trivial⟩ (.cons ⟨.send rfl, early (by decide)⟩
      (.cons ⟨.send rfl, early (by decide)⟩
        (.single ⟨.discardUpTo rfl, early (by decide), by decide, by decide⟩))), rfl, rfl, rfl⟩

end RateRun

end Ns3.Tcp
