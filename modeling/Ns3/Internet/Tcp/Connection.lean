/-
  A connection: a transmission buffer, a reception buffer,
  and the segments and acknowledgments between them.

  What `CopyFromSequence` hands out is sent, and can arrive at any time and any number of
  times, or never.  So can the numbers that the receiver has acknowledged.
-/
import Ns3.Internet.Tcp.RxStream
import Ns3.Internet.Tcp.TxConserve

namespace Ns3.Tcp

open Ns3.Lib SequenceNumber TcpTxBuffer

/-- A sender, what it has sent, and the receiver with its acknowledgments. -/
structure Connection where
  tx : TcpTxBuffer
  accepted : List UInt8 := []
  sent : List TcpTxItem := []
  rx : RxRun
  acks : List SequenceNumber32 := []

/-- What may happen, in any order. -/
inductive ConnectionEvent where
  /-- a call of the transmission buffer, other than the two below -/
  | call (op : TxOp)
  | send (now : Time) (numBytes : Nat) (seq : SequenceNumber32)
  /-- a segment arrives, which is told by its place among those sent -/
  | segment (place : Nat)
  | extract (maxSize : Nat)
  | acknowledge
  /-- an acknowledgment arrives, which is told by its place -/
  | ack (now : Time) (place : Nat)
  deriving Repr

/-- The calls that do not send or take an acknowledgment. -/
def TxOp.isLocal : TxOp → Bool
  | .copyFromSequence .. | .discardUpTo .. => false
  | _ => true

namespace Connection

variable {start : SequenceNumber32} {σ σ' τ : Connection} {e : ConnectionEvent}
  {es : List ConnectionEvent}

/-- One event. -/
inductive Step (start : SequenceNumber32) (σ : Connection) :
    ConnectionEvent → Connection → Prop where
  | call {op : TxOp} {b : TcpTxBuffer} (hlocal : op.isLocal = true)
      (h : op.exec σ.tx = .ok b) :
      Step start σ (.call op) { σ with tx := b, accepted := σ.accepted ++ op.accepted σ.tx }
  | send {now : Time} {numBytes : Nat} {seq : SequenceNumber32} {b : TcpTxBuffer}
      {result : Option TcpTxItem} (hseq : pos σ.tx.headSequence seq ≤ σ.tx.sentSize)
      (h : σ.tx.copyFromSequence now numBytes seq = .ok (b, result)) :
      Step start σ (.send now numBytes seq) { σ with tx := b, sent := σ.sent ++ result.toList }
  | segment {place : Nat} {item : TcpTxItem} {b : TcpRxBuffer} {stored : Bool}
      (hsent : σ.sent[place]? = some item)
      (h : σ.rx.buffer.add item.packet item.startSeq = .ok (b, stored)) :
      Step start σ (.segment place) { σ with
        rx := { σ.rx with
          buffer := b
          received := (pos start item.startSeq, σ.rx.edge start (0 + σ.rx.delivered.length)
            (pos start item.startSeq + item.packet.length)) :: σ.rx.received } }
  | extract {maxSize : Nat} {b : TcpRxBuffer} {out : Option Packet}
      (h : σ.rx.buffer.extract maxSize = .ok (b, out)) :
      Step start σ (.extract maxSize) { σ with
        rx := { σ.rx with buffer := b, delivered := σ.rx.delivered ++ out.getD [] } }
  | acknowledge :
      Step start σ .acknowledge { σ with acks := σ.acks ++ [σ.rx.buffer.nextRxSeq] }
  | ack {now : Time} {place : Nat} {seq : SequenceNumber32} {b : TcpTxBuffer}
      {deleted : List TcpTxItem} (hack : σ.acks[place]? = some seq)
      (h : σ.tx.discardUpTo now seq = .ok (b, deleted)) :
      Step start σ (.ack now place) { σ with tx := b }

/-- Nothing has been sent. -/
structure Starts (start : SequenceNumber32) (maxBuffer : Nat) (σ : Connection) : Prop where
  tx : σ.tx.Starts start
  accepted : σ.accepted = []
  sent : σ.sent = []
  rx : σ.rx = .initial start 0 maxBuffer
  acks : σ.acks = []

/-! ## The invariant -/

/-- The first byte that has not been received. -/
def Gap (st : RxRun) (n : Nat) : Prop := (∀ k, k < n → st.Received k) ∧ ¬st.Received n

theorem Gap.le {st st' : RxRun} {n n' : Nat} (h : Gap st n) (h' : Gap st' n')
    (hmono : ∀ k, st.Received k → st'.Received k) : n ≤ n' := by
  by_contra hlt
  exact h'.2 (hmono n' (h.1 n' (Nat.lt_of_not_le hlt)))

/-- What the stream `f` and its receiver have to do with each other. -/
structure Linked (start : SequenceNumber32) (f : Nat → UInt8) (width maxBuffer : Nat)
    (σ : Connection) (r : Reception) : Prop where
  conserves : Conserves start σ.tx σ.accepted
  accepted : σ.accepted = slice f 0 σ.accepted.length
  sent : ∀ item ∈ σ.sent, ∃ off, item.startSeq = start.add off ∧
    item.packet = slice f off item.packet.length ∧ off + item.packet.length ≤ σ.accepted.length
  holds : RxRun.Holds start 0 width maxBuffer r σ.rx
  intact : RxRun.Intact f 0 r σ.rx
  received : ∀ g ∈ σ.rx.received, g.2 ≤ σ.accepted.length
  acks : ∀ seq ∈ σ.acks, ∃ n ≤ r.next, seq = start.add n
  discarded : pos start σ.tx.firstByteSeq ≤ r.next

variable {f : Nat → UInt8} {width maxBuffer : Nat} {r : Reception}

theorem gap_of_holds {st : RxRun} (h : RxRun.Holds start 0 width maxBuffer r st) :
    Gap st r.next := by
  have hnext := h.sound.next
  refine ⟨fun k hk => (h.received k (Nat.zero_le k)).mp ?_, fun hin => ?_⟩
  · by_cases hold : k < 0 + st.delivered.length
    · exact .inl hold
    · exact .inr (h.sound.contiguous k (by omega) hk)
  · rcases (h.received r.next (Nat.zero_le _)).mpr hin with hlt | hheld
    · omega
    · exact h.sound.gap hheld

section

variable (h : Linked start f width maxBuffer σ r)

include h

/-- The receiver expects no byte that the sender did not accept. -/
theorem Linked.next_le : r.next ≤ σ.accepted.length := by
  by_contra hlt
  obtain ⟨g, hg, -, hstop⟩ := (gap_of_holds h.holds).1 σ.accepted.length (by omega)
  have := h.received g hg
  omega

theorem Linked.delivered_le : σ.rx.delivered.length ≤ r.next := by
  have := h.holds.sound.next
  omega

theorem Linked.receive {op : RxOp} {rx : RxRun} (hwidth : width < 2 ^ 31)
    (hbuffer : width + maxBuffer ≤ 2 ^ 31) (hstep : RxRun.Receives start 0 width σ.rx op rx)
    (hcarries : op.Carries f) (hmono : ∀ k, σ.rx.Received k → rx.Received k)
    (hreceived : ∀ g ∈ rx.received, g.2 ≤ σ.accepted.length) :
    ∃ r', Linked start f width maxBuffer { σ with rx } r' := by
  obtain ⟨r', hholds, hintact⟩ := h.holds.intact_step h.intact hwidth hbuffer hcarries hstep
  have hle : r.next ≤ r'.next := (gap_of_holds h.holds).le (gap_of_holds hholds) hmono
  refine ⟨r', h.conserves, h.accepted, h.sent, hholds, hintact, hreceived, fun seq hseq => ?_,
    h.discarded.trans hle⟩
  obtain ⟨n, hn, rfl⟩ := h.acks seq hseq
  exact ⟨n, hn.trans hle, rfl⟩

theorem Linked.transmit {b : TcpTxBuffer} {p : List UInt8}
    (haccepted : σ.accepted ++ p = slice f 0 (σ.accepted ++ p).length)
    (hconserves : Conserves start b (σ.accepted ++ p))
    (hfirst : b.firstByteSeq = σ.tx.firstByteSeq) :
    Linked start f width maxBuffer { σ with tx := b, accepted := σ.accepted ++ p } r := by
  have hgrown : σ.accepted.length ≤ (σ.accepted ++ p).length := by
    rw [List.length_append]
    exact Nat.le_add_right _ _
  refine ⟨hconserves, haccepted, fun item hitem => ?_, h.holds, h.intact,
    fun g hg => (h.received g hg).trans hgrown, h.acks, ?_⟩
  · obtain ⟨off, hoff, hpacket, hle⟩ := h.sent item hitem
    exact ⟨off, hoff, hpacket, hle.trans hgrown⟩
  · dsimp only
    rw [hfirst]
    exact h.discarded

end

theorem firstByteSeq_of_local {op : TxOp} {b b' : TcpTxBuffer} (hlocal : op.isLocal = true)
    (h : op.exec b = .ok b') : b'.firstByteSeq = b.firstByteSeq := by
  cases op.effect h with
  | add p =>
    unfold TcpTxBuffer.add
    split
    · split <;> rfl
    · rfl
  | copyFromSequence => cases hlocal
  | discardUpTo => cases hlocal
  | resetSentList => rfl
  | resetLastSegmentSent =>
    unfold TcpTxBuffer.resetLastSegmentSent
    split <;> rfl
  | update hupdate => exact (update_samePlaces hupdate).firstByteSeq
  | updateLostCount hcount => exact (updateLostCount_samePlaces hcount).firstByteSeq
  | markHeadAsLost => exact (markHeadAsLost_samePlaces b).firstByteSeq
  | addRenoSack hadd => exact (addRenoSack_samePlaces hadd).firstByteSeq
  | resetRenoSack => exact (resetRenoSack_samePlaces b).firstByteSeq
  | setSentListLost hset => exact (setSentListLost_samePlaces hset).firstByteSeq
  | deleteRetransmittedFlagFromHead hdelete =>
    exact (deleteRetransmittedFlagFromHead_samePlaces hdelete).firstByteSeq

theorem edge_le (st : RxRun) (start : SequenceNumber32) (base stop : Nat) :
    st.edge start base stop ≤ stop := by
  unfold RxRun.edge
  split
  · exact le_rfl
  · exact Nat.min_le_left _ _

section

variable (h : Linked start f width maxBuffer σ r)

include h

theorem Linked.sent_of_copied {item : TcpTxItem} {seq : SequenceNumber32} {numBytes : Nat}
    (hitem : item.startSeq = seq ∧ 0 < item.size ∧ item.size ≤ numBytes ∧
      item.packet = (σ.accepted.drop (pos start seq)).take item.size) :
    ∃ off, item.startSeq = start.add off ∧ item.packet = slice f off item.packet.length ∧
      off + item.packet.length ≤ σ.accepted.length := by
  obtain ⟨hseq, hpos, -, hpacket⟩ := hitem
  have hlength : item.packet.length =
      min item.size (σ.accepted.length - pos start seq) := by
    nth_rewrite 1 [hpacket]
    rw [List.length_take, List.length_drop]
  have hsize : item.size = item.packet.length := rfl
  refine ⟨pos start seq, by rw [add_pos, hseq], ?_, by omega⟩
  have hdrop : σ.accepted.drop (pos start seq) =
      slice f (pos start seq) (σ.accepted.length - pos start seq) := by
    nth_rewrite 1 [h.accepted]
    rw [drop_slice f 0 (by omega), Nat.zero_add]
  rw [hdrop, take_slice f _ (by omega)] at hpacket
  exact hpacket

theorem Linked.discard {now : Time} {n : Nat} {b : TcpTxBuffer} {deleted : List TcpTxItem}
    (hlen : σ.accepted.length < 2 ^ 31) (hn : n ≤ r.next)
    (hrun : σ.tx.discardUpTo now (start.add n) = .ok (b, deleted)) :
    Linked start f width maxBuffer { σ with tx := b } r := by
  have hnext := h.next_le
  have hle := h.conserves.discarded_le
  have hsize := h.conserves.holds.length_eq
  rw [List.length_drop] at hsize
  have hn' : pos start (start.add n) = n := pos_base_add (by omega)
  have htail : pos start σ.tx.tailSequence = σ.accepted.length := by
    rw [tailSequence, pos_add (by omega)]
    omega
  have hseq : pos (start.add n) σ.tx.tailSequence < 2 ^ 31 := by
    rw [pos_rebase start (by omega)]
    omega
  obtain ⟨k, hk, hdrop, hhead⟩ := discardUpTo_head h.conserves.holds
    (by rw [List.length_drop]; omega) hseq hrun
  refine { h with conserves := h.conserves.dropped hlen hk hdrop, discarded := ?_ }
  dsimp only
  rcases hhead with rfl | hfirst
  · rw [hdrop.first, SequenceNumber.add_zero]
    exact h.discarded
  · rw [hfirst, hn']
    exact hn

/-- **Step lemma.** -/
theorem Linked.step (hwidth : width < 2 ^ 31) (hbuffer : width + maxBuffer ≤ 2 ^ 31)
    (hlen : σ'.accepted.length ≤ width) (haccepted : σ'.accepted = slice f 0 σ'.accepted.length)
    (hstep : Step start σ e σ') : ∃ r', Linked start f width maxBuffer σ' r' := by
  cases hstep with
  | @call op b hlocal hexec =>
    have hrange : op.inRange σ.tx = true := by cases op <;> first | rfl | cases hlocal
    refine ⟨r, h.transmit haccepted ?_ (firstByteSeq_of_local hlocal hexec)⟩
    have hconserves : Conserves start (σ.tx, σ.accepted).1 (σ.tx, σ.accepted).2 := h.conserves
    have hstream : StreamStep (σ.tx, σ.accepted) op (b, σ.accepted ++ op.accepted σ.tx) :=
      ⟨hrange, hexec, rfl⟩
    exact hconserves.step (hlen.trans_lt hwidth) hstream
  | @send now numBytes seq b result hseq hcopy =>
    dsimp only at hlen
    have hlt : σ.accepted.length < 2 ^ 31 := hlen.trans_lt hwidth
    obtain ⟨hconserves, hresult⟩ := h.conserves.copy hlt hseq hcopy
    have hfirst : b.firstByteSeq = σ.tx.firstByteSeq := by
      rw [← add_pos σ.tx.headSequence seq] at hcopy
      exact (copyFromSequence_spec h.conserves.holds
        (by rw [List.length_drop]; omega) hseq hcopy).1.first
    have hsame := h.transmit (p := []) (by rw [List.append_nil]; exact h.accepted)
      (by rw [List.append_nil]; exact hconserves) hfirst
    rw [List.append_nil] at hsame
    refine ⟨r, { hsame with sent := fun item hitem => ?_ }⟩
    rcases List.mem_append.mp hitem with hold | hnew
    · exact h.sent item hold
    · exact h.sent_of_copied (hresult item (Option.mem_toList.mp hnew))
  | @segment place item b stored hsent hadd =>
    obtain ⟨off, hoff, hpacket, hle⟩ := h.sent item (List.mem_of_getElem? hsent)
    dsimp only at hlen
    have hpos : pos start item.startSeq = off := by
      rw [hoff]
      exact pos_base_add (by omega)
    have hdelivered := h.delivered_le
    have hnext := h.next_le
    have hwithin : σ.rx.Within width (0 + σ.rx.delivered.length) off item.packet.length := by
      refine ⟨⟨by omega, by omega⟩, fun g hg => ?_⟩
      have := h.received g hg
      omega
    rw [hpos]
    rw [hoff] at hadd
    refine h.receive hwidth hbuffer (.add hwithin hadd) hpacket
      (fun k hk => RxRun.received_cons.mpr (.inr hk)) fun g hg => ?_
    rcases List.mem_cons.mp hg with rfl | hold
    · exact (edge_le σ.rx _ _ _).trans hle
    · exact h.received g hold
  | @extract maxSize b out hextract =>
    exact h.receive hwidth hbuffer (.extract hextract) trivial
      (fun _ hk => hk) h.received
  | acknowledge =>
    refine ⟨r, { h with acks := fun seq hseq => ?_ }⟩
    rcases List.mem_append.mp hseq with hold | hnew
    · exact h.acks seq hold
    · exact ⟨r.next, le_rfl, (List.mem_singleton.mp hnew).trans h.holds.represents.next⟩
  | @ack now place seq b deleted hack hdiscard =>
    obtain ⟨n, hn, rfl⟩ := h.acks seq (List.mem_of_getElem? hack)
    exact ⟨r, h.discard (hlen.trans_lt hwidth) hn hdiscard⟩

end

theorem Step.grows (hstep : Step start σ e σ') : σ.accepted <+: σ'.accepted := by
  cases hstep with
  | call => exact List.prefix_append _ _
  | _ => exact List.prefix_refl _

theorem prefix_slice {l l' : List UInt8} (h : l <+: l') :
    l = slice (fun k => l'.getD k 0) 0 l.length := by
  refine List.ext_getElem (length_slice _ _ _).symm fun k hk hk' => ?_
  have hget : l'[k]? = some l[k] := by
    exact List.prefix_iff_getElem?.mp h k hk
  simp [slice, List.getD_eq_getElem?_getD, hget]

/-- **Run lemma.** -/
theorem Starts.linked (hstart : σ.Starts start maxBuffer) (hrun : Run (Step start) σ es τ)
    (hwidth : τ.accepted.length < 2 ^ 31) (hbuffer : τ.accepted.length + maxBuffer ≤ 2 ^ 31) :
    ∃ r, Linked start (fun k => τ.accepted.getD k 0) τ.accepted.length maxBuffer τ r := by
  refine hrun.invariant (P := fun τ' => τ'.accepted <+: τ.accepted → ∃ r, Linked start
    (fun k => τ.accepted.getD k 0) τ.accepted.length maxBuffer τ' r) ?_ ?_ (List.prefix_refl _)
  · intro _
    obtain ⟨tx, accepted, sent, rx, acks⟩ := σ
    obtain ⟨htx, rfl, rfl, rfl, rfl⟩ := hstart
    refine ⟨{ next := 0 }, htx.conserves, rfl, nofun, RxRun.holds_initial,
      ⟨rfl, List.forall_mem_nil _⟩, nofun, nofun, ?_⟩
    rw [show tx.firstByteSeq = start from htx.firstByteSeq, pos_self]
  · intro ρ e ρ' ih hstep hprefix
    obtain ⟨r, h⟩ := ih (hstep.grows.trans hprefix)
    exact h.step hwidth hbuffer hprefix.length_le (prefix_slice hprefix) hstep

/-- **A connection is reliable.** Whatever segments and acknowledgments are lost, repeated or late,
the receiver delivers the beginning of what was accepted, and the sender holds all that it still
waits for. -/
theorem connection_reliable {maxBuffer : Nat} (hstart : σ.Starts start maxBuffer)
    (hrun : Run (Step start) σ es τ) (hwidth : τ.accepted.length < 2 ^ 31)
    (hbuffer : τ.accepted.length + maxBuffer ≤ 2 ^ 31) :
    τ.rx.delivered <+: τ.accepted ∧
      ∃ next, τ.rx.buffer.nextRxSeq = start.add next ∧ τ.rx.delivered.length ≤ next ∧
        next ≤ τ.accepted.length ∧ ∃ held ≤ next,
          payload τ.tx.sentList ++ payload τ.tx.appList = τ.accepted.drop held := by
  obtain ⟨r, h⟩ := hstart.linked hrun hwidth hbuffer
  have hdelivered := h.delivered_le.trans h.next_le
  refine ⟨?_, r.next, h.holds.represents.next, h.delivered_le, h.next_le, _, h.discarded,
    h.conserves.holds.payload_eq⟩
  rw [h.intact.1, List.prefix_iff_eq_take, length_slice]
  nth_rewrite 2 [h.accepted]
  exact (take_slice _ _ hdelivered).symm

def fresh (start : SequenceNumber32) (maxBuffer : Nat) : Connection :=
  { tx := { firstByteSeq := start }, rx := .initial start 0 maxBuffer }

/-- Two segments of one byte arrive in the wrong order, the first one twice; then both
acknowledgments, the later one first. -/
theorem connection_reliable_reordered : ∃ τ : Connection,
    τ.rx.delivered = [7, 8] ∧ τ.tx.size = 1 ∧ τ.rx.delivered <+: τ.accepted := by
  have hstart : Starts (.ofNat 4294967295) 16 (fresh (.ofNat 4294967295) 16) :=
    ⟨⟨rfl, rfl, rfl, rfl, rfl, rfl, rfl, rfl, rfl, rfl⟩, rfl, rfl, rfl, rfl⟩
  have hrun : ∃ τ, Run (Step (.ofNat 4294967295)) (fresh (.ofNat 4294967295) 16)
      [.call (.add [7, 8, 9]), .send 0 1 (.ofNat 4294967295), .send 0 1 (.ofNat 0), .segment 1,
        .segment 0, .acknowledge, .segment 0, .extract 2, .acknowledge, .ack 0 1, .ack 0 0] τ ∧
      τ.rx.delivered = [7, 8] ∧ τ.tx.size = 1 ∧ τ.accepted.length = 3 :=
    ⟨_, .cons (.call rfl rfl) (.cons (.send (by decide) rfl) (.cons (.send (by decide) rfl)
      (.cons (.segment rfl rfl) (.cons (.segment rfl rfl) (.cons .acknowledge
      (.cons (.segment rfl rfl) (.cons (.extract rfl) (.cons .acknowledge
      (.cons (.ack rfl rfl) (.single (.ack rfl rfl))))))))))), rfl, rfl, rfl⟩
  obtain ⟨τ, hrun, hdelivered, hsize, hlen⟩ := hrun
  exact ⟨τ, hdelivered, hsize, (connection_reliable hstart hrun (by omega) (by omega)).1⟩

end Connection

end Ns3.Tcp
