/-
  The transmission buffer conserves the stream.

  Each operation keeps the held data, appends the accepted bytes to it, or drops
  a prefix that the cumulative acknowledgment covers.  Over a run, the buffer
  holds exactly the accepted bytes that have not been discarded, and whatever it
  hands out for a sequence number are the bytes accepted under that number.
-/
import Ns3.Internet.Tcp.TxStream

namespace Ns3.Tcp

open Ns3.Lib SequenceNumber

variable {b' : TcpTxBuffer}

namespace TcpTxBuffer

/-! ## Operations that move items between the lists -/

variable {b : TcpTxBuffer} {data : List UInt8}

theorem Holds.add {p : Packet} (h : b.Holds data)
    (hlen : (data ++ if (b.add p).2 then p else []).length < 2 ^ 31) :
    (b.add p).1.Holds (data ++ if (b.add p).2 then p else []) := by
  have hsize := h.length_eq
  unfold TcpTxBuffer.add at hlen ⊢
  split at hlen
  · rename_i hfits
    rw [if_pos hfits]
    split at hlen
    · rename_i hpos
      rw [if_pos hpos]
      simp only [if_true, List.length_append] at hlen ⊢
      constructor
      · rw [← h.payload_eq]
        simp
      · exact h.chain
      · exact h.sentSize_eq
      · have hsizes := h.size_eq
        simp only [bytes_append, bytes_cons, bytes_nil, TcpTxItem.size]
        rw [wadd_eq (by omega)]
        omega
      · exact h.sent_nonempty
      · rw [nonempty_append, nonempty_cons]
        exact ⟨h.app_nonempty, hpos, by simp [Nonempty]⟩
    · rename_i hpos
      rw [if_neg hpos]
      have hnil : p = [] := List.eq_nil_of_length_eq_zero (by omega)
      simpa [hnil] using h
  · rename_i hfits
    rw [if_neg hfits]
    simpa using h

theorem Holds.resetSentList (h : b.Holds data) : b.resetSentList.Holds data := by
  have hplaces : ∀ items : List TcpTxItem, (items.map fun item =>
      { item with retrans := false, sacked := false, lost := false }).map place
      = items.map place := fun _ => map_place_eq fun _ => rfl
  constructor
  · simp only [TcpTxBuffer.resetSentList, payload_nil, payload_append, List.nil_append]
    rw [payload_of_places (hplaces _), h.payload_eq]
  · trivial
  · rfl
  · simp only [TcpTxBuffer.resetSentList, bytes_nil, bytes_append, Nat.zero_add]
    rw [bytes_of_places (hplaces _), h.size_eq]
  · simp [Nonempty, TcpTxBuffer.resetSentList]
  · simp only [TcpTxBuffer.resetSentList, nonempty_append]
    exact ⟨nonempty_of_places (hplaces _) h.sent_nonempty, h.app_nonempty⟩

theorem Holds.resetLastSegmentSent (h : b.Holds data) (hlen : data.length < 2 ^ 31) :
    b.resetLastSegmentSent.Holds data := by
  unfold TcpTxBuffer.resetLastSegmentSent
  split
  · exact h
  · rename_i item hlast
    have hlist : b.sentList.dropLast ++ [item] = b.sentList :=
      List.dropLast_append_getLast? item hlast
    have hsize := h.length_eq
    have hsizes := h.size_eq
    have hsentSize := h.sentSize_eq
    have hpayload := h.payload_eq
    have hchain := h.chain
    have hne := h.sent_nonempty
    rw [← hlist] at hsizes hsentSize hpayload hchain hne
    simp only [bytes_append, bytes_cons, bytes_nil, nonempty_append, nonempty_cons]
      at hsizes hsentSize hne
    constructor
    · rw [← hpayload]
      simp
    · exact (chain_append.mp hchain).1
    · change wsub 32 b.sentSize item.size = bytes b.sentList.dropLast
      rw [wsub_eq (by omega) (by omega)]
      omega
    · simp only [bytes_cons]
      omega
    · exact hne.1
    · exact nonempty_cons.mpr ⟨hne.2.1, h.app_nonempty⟩

/-! ## Cumulative acknowledgments -/

variable {seq : SequenceNumber32}

theorem moveSackFromHead_samePlaces (h : b.moveSackFromHead = .ok b') : SamePlaces b b' := by
  obtain ⟨_, rfl⟩ | ⟨head, tail, b₁, hlist, _, _, hsack, rfl⟩ := moveSackFromHead_cases h
  · exact .refl b'
  · have hcleared : SamePlaces b { b with
        sentList := { head with sacked := false } :: tail
        sackedOut := wsub 32 b.sackedOut head.size } := by
      refine ⟨?_, rfl, rfl, rfl, rfl, rfl⟩
      simp [hlist, place]
    exact (hcleared.trans (addRenoSack_samePlaces hsack)).trans (markHeadAsLost_samePlaces b₁)

theorem resetHighest_samePlaces (b : TcpTxBuffer) :
    SamePlaces b (if b.highestSack.2.le b.firstByteSeq then
      { b with sackSeen := false, highestSack := (none, .ofNat 0) } else b) := by
  split
  · exact ⟨rfl, rfl, rfl, rfl, rfl, rfl⟩
  · exact .refl b

theorem pos_le_size (hlen : b.size < 2 ^ 31) (hafter : b.firstByteSeq.ge seq = false)
    (htail : pos seq b.tailSequence < 2 ^ 31) : pos b.firstByteSeq seq ≤ b.size := by
  have htailPos : pos b.firstByteSeq b.tailSequence = b.size := pos_base_add (by omega)
  by_contra hbeyond
  have hback : pos seq b.tailSequence = 2 ^ 32 - (pos b.firstByteSeq seq - b.size) := by
    rw [pos_back b.firstByteSeq (by omega), htailPos]
  have hlt := pos_lt b.firstByteSeq seq
  have hhead : pos seq b.firstByteSeq = 2 ^ 32 - pos b.firstByteSeq seq := by
    rw [pos_back b.firstByteSeq (by rw [pos_self]; omega), pos_self, Nat.sub_zero]
  have hgt : b.firstByteSeq.gt seq = true := by
    refine gt_of_pos (by decide) (by omega) ?_
    unfold halfMaxValue
    omega
  simp [ge, hgt] at hafter

section

variable {now : Time} {deleted : List TcpTxItem} (h : b.Holds data)
  (hlen : data.length < 2 ^ 31) (hseq : pos seq b.tailSequence < 2 ^ 31)
  (hrun : b.discardUpTo now seq = .ok (b', deleted))

include h hlen hseq hrun

theorem discardUpTo_head :
    ∃ n, n ≤ data.length ∧ Dropped b b' data n ∧ (n = 0 ∨ b'.firstByteSeq = seq) := by
  have hsize := h.length_eq
  obtain ⟨_, rfl, _⟩ | ⟨hafter, b₁, b₂, hloop, hmove, rfl⟩ := discardUpTo_cases hrun
  · exact ⟨0, Nat.zero_le _, ⟨by simpa using h, by rw [SequenceNumber.add_zero], rfl⟩, .inl rfl⟩
  · have hk := pos_le_size (by omega) hafter hseq
    rw [distance_eq_pos] at hloop
    have hdrop := discardLoop_dropped h hlen hloop
    rw [Nat.min_eq_left (by omega)] at hdrop
    -- the number a FIN moves the head to is the one the loop has reached
    have hfin : SamePlaces b₁ (if b₁.size = 0 then { b₁ with firstByteSeq := seq } else b₁) := by
      split
      · refine ⟨rfl, rfl, rfl, rfl, ?_, rfl⟩
        rw [hdrop.first, add_pos]
      · exact .refl b₁
    have hall := (hfin.trans (moveSackFromHead_samePlaces hmove)).trans
      (resetHighest_samePlaces b₂)
    have hfirst := hall.firstByteSeq.trans hdrop.first
    exact ⟨pos b.firstByteSeq seq, by omega, ⟨hdrop.holds.of_samePlaces hall, hfirst,
      hall.maxBuffer.trans hdrop.maxBuffer⟩, .inr (hfirst.trans (add_pos _ _))⟩

theorem discardUpTo_dropped : ∃ n, n ≤ data.length ∧ Dropped b b' data n := by
  obtain ⟨n, hn, hdrop, -⟩ := discardUpTo_head h hlen hseq hrun
  exact ⟨n, hn, hdrop⟩

end

end TcpTxBuffer

/-! ## Runs -/

/-- The arguments a run may use: `CopyFromSequence` asks for a number between the head and the first
unsent byte, `DiscardUpTo` for one in the buffer. -/
def TxOp.inRange (b : TcpTxBuffer) : TxOp → Bool
  | .copyFromSequence _ _ seq => pos b.headSequence seq ≤ b.sentSize
  | .discardUpTo _ seq => pos seq b.tailSequence < 2 ^ 31
  | _ => true

/-- The bytes a call hands to the buffer and the buffer takes. -/
def TxOp.accepted (b : TcpTxBuffer) : TxOp → List UInt8
  | .add p => if (b.add p).2 then p else []
  | _ => []

/-- One call on a buffer, with all the bytes accepted so far carried along. -/
def StreamStep (s : TcpTxBuffer × List UInt8) (op : TxOp)
    (s' : TcpTxBuffer × List UInt8) : Prop :=
  op.inRange s.1 = true ∧ op.exec s.1 = .ok s'.1 ∧ s'.2 = s.2 ++ op.accepted s.1

/-- The step, computed. -/
def streamNext (s : TcpTxBuffer × List UInt8) (op : TxOp) :
    Option (TcpTxBuffer × List UInt8) :=
  if op.inRange s.1 then
    (op.exec s.1).toOption.map fun b => (b, s.2 ++ op.accepted s.1)
  else none

variable {s s' : TcpTxBuffer × List UInt8}

theorem streamNext_sound {op : TxOp} (h : streamNext s op = some s') : StreamStep s op s' := by
  unfold streamNext at h
  split at h
  · rename_i hrange
    obtain ⟨b, hexec, rfl⟩ := Option.map_eq_some_iff.mp h
    exact ⟨hrange, toOption_eq_some.mp hexec, rfl⟩
  · simp at h

namespace TcpTxBuffer

/-- The buffer holds the accepted bytes but for a prefix, and its head is the
sequence number of the first byte it holds. -/
structure Conserves (start : SequenceNumber32) (b : TcpTxBuffer)
    (accepted : List UInt8) : Prop where
  discarded_le : pos start b.firstByteSeq ≤ accepted.length
  holds : b.Holds (accepted.drop (pos start b.firstByteSeq))

variable {accepted : List UInt8} {start : SequenceNumber32}

section

variable {b : TcpTxBuffer} (h : Conserves start b accepted)

include h

theorem Conserves.dropped {n : Nat} (hlen : accepted.length < 2 ^ 31)
    (hn : n ≤ (accepted.drop (pos start b.firstByteSeq)).length)
    (hdrop : Dropped b b' (accepted.drop (pos start b.firstByteSeq)) n) :
    Conserves start b' accepted := by
  have hle := h.discarded_le
  rw [List.length_drop] at hn
  have hfirst : pos start b'.firstByteSeq = pos start b.firstByteSeq + n := by
    rw [hdrop.first, pos_add (by omega)]
  refine ⟨by omega, ?_⟩
  rw [hfirst, ← List.drop_drop]
  exact hdrop.holds

theorem Conserves.of_holds (hfirst : b'.firstByteSeq = b.firstByteSeq)
    (hholds : b'.Holds (accepted.drop (pos start b.firstByteSeq))) :
    Conserves start b' accepted := by
  refine ⟨?_, ?_⟩
  · rw [hfirst]
    exact h.discarded_le
  · rw [hfirst]
    exact hholds

theorem Conserves.of_samePlaces (hsame : SamePlaces b b') : Conserves start b' accepted :=
  h.of_holds hsame.firstByteSeq (h.holds.of_samePlaces hsame)

/-- A copy moves bytes between the lists and changes none. -/
theorem Conserves.copy {seq : SequenceNumber32} {now : Time} {numBytes : Nat}
    {result : Option TcpTxItem} (hlen : accepted.length < 2 ^ 31)
    (hseq : pos b.headSequence seq ≤ b.sentSize)
    (hrun : b.copyFromSequence now numBytes seq = .ok (b', result)) :
    Conserves start b' accepted ∧ ∀ item, result = some item →
      item.startSeq = seq ∧ 0 < item.size ∧ item.size ≤ numBytes ∧
        item.packet = (accepted.drop (pos start seq)).take item.size := by
  have hle := h.discarded_le
  have hsize := h.holds.length_eq
  have hsent := h.holds.sentSize_le
  rw [List.length_drop] at hsize
  have hrun0 : b.copyFromSequence now numBytes
      (b.firstByteSeq.add (pos b.headSequence seq)) = .ok (b', result) := by
    rw [headSequence, add_pos]
    exact hrun
  obtain ⟨hkeeps, hcarries⟩ := copyFromSequence_spec h.holds
    (by rw [List.length_drop]; omega) hseq hrun0
  refine ⟨h.of_holds hkeeps.first hkeeps.holds, ?_⟩
  intro item hitem
  have hitem := hcarries item hitem
  have hposn : pos start seq = pos start b.firstByteSeq + pos b.headSequence seq := by
    have hadd : pos start (b.firstByteSeq.add (pos b.headSequence seq))
        = pos start b.firstByteSeq + pos b.headSequence seq := pos_add (by omega)
    rwa [headSequence, add_pos] at hadd
  refine ⟨?_, hitem.pos, hitem.le, ?_⟩
  · rw [hitem.startSeq, headSequence, add_pos]
  · have hpacket := hitem.packet
    rwa [List.drop_drop, ← hposn] at hpacket

end

/-- **Step lemma.**  Every call conserves the stream. -/
theorem Conserves.step {op : TxOp} (h : Conserves start s.1 s.2) (hlen : s'.2.length < 2 ^ 31)
    (hstep : StreamStep s op s') : Conserves start s'.1 s'.2 := by
  obtain ⟨b, accepted⟩ := s
  obtain ⟨b', accepted'⟩ := s'
  obtain ⟨hrange, hexec, haccepted⟩ := hstep
  dsimp only at h hlen hrange hexec haccepted ⊢
  have hle := h.discarded_le
  have hkept : op.accepted b = [] → accepted' = accepted := fun hnil => by
    rw [haccepted, hnil, List.append_nil]
  cases op.effect hexec with
  | add p =>
    subst haccepted
    have happend : accepted.drop (pos start b.firstByteSeq) ++ TxOp.accepted b (.add p)
        = (accepted ++ TxOp.accepted b (.add p)).drop (pos start b.firstByteSeq) := by
      rw [List.drop_append_of_le_length hle]
    have hfirst : (b.add p).1.firstByteSeq = b.firstByteSeq := by
      unfold TcpTxBuffer.add
      split
      · split <;> rfl
      · rfl
    have hadd := h.holds.add (p := p) (by
      change (accepted.drop _ ++ TxOp.accepted b (.add p)).length < 2 ^ 31
      rw [happend, List.length_drop]
      omega)
    refine ⟨?_, ?_⟩
    · rw [hfirst, List.length_append]
      omega
    · rw [hfirst, ← happend]
      exact hadd
  | copyFromSequence hcopy =>
    obtain rfl := hkept rfl
    exact (h.copy hlen (of_decide_eq_true hrange) hcopy).1
  | discardUpTo hdiscard =>
    obtain rfl := hkept rfl
    obtain ⟨n, hn, hdrop⟩ := discardUpTo_dropped h.holds
      (by rw [List.length_drop]; omega) (of_decide_eq_true hrange) hdiscard
    exact h.dropped hlen hn hdrop
  | resetSentList =>
    obtain rfl := hkept rfl
    exact h.of_holds rfl h.holds.resetSentList
  | resetLastSegmentSent =>
    obtain rfl := hkept rfl
    refine h.of_holds ?_ (h.holds.resetLastSegmentSent (by rw [List.length_drop]; omega))
    unfold TcpTxBuffer.resetLastSegmentSent
    split <;> rfl
  | update hupdate =>
    exact hkept rfl ▸ h.of_samePlaces (update_samePlaces hupdate)
  | updateLostCount hcount =>
    exact hkept rfl ▸ h.of_samePlaces (updateLostCount_samePlaces hcount)
  | markHeadAsLost => exact hkept rfl ▸ h.of_samePlaces (markHeadAsLost_samePlaces b)
  | addRenoSack hadd => exact hkept rfl ▸ h.of_samePlaces (addRenoSack_samePlaces hadd)
  | resetRenoSack => exact hkept rfl ▸ h.of_samePlaces (resetRenoSack_samePlaces b)
  | setSentListLost hset => exact hkept rfl ▸ h.of_samePlaces (setSentListLost_samePlaces hset)
  | deleteRetransmittedFlagFromHead hdelete =>
    exact hkept rfl ▸ h.of_samePlaces (deleteRetransmittedFlagFromHead_samePlaces hdelete)

theorem Starts.conserves {b : TcpTxBuffer} (h : b.Starts start) : Conserves start b [] := by
  refine ⟨?_, ?_⟩
  · simp [h.firstByteSeq]
  · constructor <;> simp [h.sentList, h.appList, h.size, h.sentSize, Chain, Nonempty]

/-- **Run lemma.**  Every run from an empty buffer conserves the stream. -/
theorem Starts.run_conserves {b₀ b : TcpTxBuffer} {ops : List TxOp} (hstart : b₀.Starts start)
    (hrun : Run StreamStep (b₀, []) ops (b, accepted)) (hlen : accepted.length < 2 ^ 31) :
    Conserves start b accepted := by
  have hkeep : ∀ s : TcpTxBuffer × List UInt8, Run StreamStep (b₀, []) ops s →
      s.2.length < 2 ^ 31 → Conserves start s.1 s.2 := by
    intro s hrun
    refine hrun.invariant (P := fun s => s.2.length < 2 ^ 31 → Conserves start s.1 s.2) ?_ ?_
    · intro _
      exact hstart.conserves
    · intro s op s' ih hstep hlen'
      refine (ih ?_).step hlen' hstep
      rw [hstep.2.2, List.length_append] at hlen'
      omega
  exact hkeep (b, accepted) hrun hlen

/-- **The buffer conserves the application byte stream.** After any run the two lists hold the
accepted bytes from the head on, in chained items, the sizes are sums of item sizes, and an item
handed out has the bytes of its sequence number. -/
theorem stream_conserved {start : SequenceNumber32} {b₀ b : TcpTxBuffer} {ops : List TxOp}
    {accepted : List UInt8} (hstart : b₀.Starts start)
    (hrun : Run StreamStep (b₀, []) ops (b, accepted)) (hlen : accepted.length < 2 ^ 31) :
    (pos start b.firstByteSeq ≤ accepted.length ∧
      payload b.sentList ++ payload b.appList = accepted.drop (pos start b.firstByteSeq)) ∧
    (∀ before item after, b.sentList = before ++ item :: after →
      item.startSeq = b.firstByteSeq.add (bytes before)) ∧
    b.sentSize = bytes b.sentList ∧ b.size = bytes b.sentList + bytes b.appList ∧
    ∀ now numBytes seq b' item, pos b.headSequence seq ≤ b.sentSize →
      b.copyFromSequence now numBytes seq = .ok (b', some item) →
      item.startSeq = seq ∧ 0 < item.size ∧ item.size ≤ numBytes ∧
        item.packet = (accepted.drop (pos start seq)).take item.size := by
  have h := hstart.run_conserves hrun hlen
  refine ⟨⟨h.discarded_le, h.holds.payload_eq⟩, ?_, h.holds.sentSize_eq, h.holds.size_eq, ?_⟩
  · intro before item after hlist
    have hchain := h.holds.chain
    rw [hlist, chain_append, Chain] at hchain
    exact hchain.2.1
  · intro now numBytes seq b' item hseq hcopy
    exact (h.copy hlen hseq hcopy).2 item rfl

/-- A run across the end of the number space: two bytes sent, one acknowledged. -/
theorem stream_conserved_wrapping : ∃ b accepted,
    Run StreamStep ({ firstByteSeq := .ofNat 4294967295 }, [])
      [.add [1, 2, 3], .copyFromSequence 0 2 (.ofNat 4294967295), .discardUpTo 0 (.ofNat 0)]
      (b, accepted) ∧ accepted = [1, 2, 3] ∧
    payload b.sentList ++ payload b.appList
      = accepted.drop (pos (.ofNat 4294967295) b.firstByteSeq) := by
  have hrun := Run.of_foldlM (fun _ _ _ => streamNext_sound)
    (rfl : List.foldlM streamNext ({ firstByteSeq := .ofNat 4294967295 }, [])
      [.add [1, 2, 3], .copyFromSequence 0 2 (.ofNat 4294967295), .discardUpTo 0 (.ofNat 0)]
      = some _)
  refine ⟨_, _, hrun, rfl, ?_⟩
  exact (stream_conserved ⟨rfl, rfl, rfl, rfl, rfl, rfl, rfl, rfl, rfl, rfl⟩ hrun
    (by decide)).1.2

end TcpTxBuffer

end Ns3.Tcp
