/-
  The transmission buffer as a byte stream.

  What the buffer is for: it holds a contiguous piece of the application's byte
  stream, of which a prefix has been sent.  `Holds b data` says that it does;
  each method keeps it, appends to it, or drops from its front.
-/
import Ns3.Internet.Tcp.TxEdit
import Ns3.Internet.Tcp.TxSteps

namespace Ns3.Tcp

open Ns3.Lib SequenceNumber

namespace TcpTxBuffer

/-- The buffer holds the bytes `data`: sent items first, then unsent ones, none empty, chained from
`firstByteSeq`, and the sizes right. -/
structure Holds (b : TcpTxBuffer) (data : List UInt8) : Prop where
  payload_eq : payload b.sentList ++ payload b.appList = data
  chain : Chain b.firstByteSeq b.sentList
  sentSize_eq : b.sentSize = bytes b.sentList
  size_eq : b.size = bytes b.sentList + bytes b.appList
  sent_nonempty : Nonempty b.sentList
  app_nonempty : Nonempty b.appList

variable {b : TcpTxBuffer} {data : List UInt8}

theorem Holds.length_eq (h : b.Holds data) : data.length = b.size := by
  rw [← h.payload_eq, h.size_eq, List.length_append]
  rfl

theorem Holds.sentSize_le (h : b.Holds data) : b.sentSize ≤ b.size := by
  rw [h.sentSize_eq, h.size_eq]
  exact Nat.le_add_right _ _

/-! ## Methods that write flags and counters only -/

variable {b' : TcpTxBuffer} {l r : List TcpTxItem}

/-- What a method that writes flags and counters leaves alone in an item. -/
def place (item : TcpTxItem) : SequenceNumber32 × Packet := (item.startSeq, item.packet)

/-- Two buffers with the same items in the same places. -/
structure SamePlaces (b b' : TcpTxBuffer) : Prop where
  sentList : b'.sentList.map place = b.sentList.map place
  appList : b'.appList = b.appList
  size : b'.size = b.size
  sentSize : b'.sentSize = b.sentSize
  firstByteSeq : b'.firstByteSeq = b.firstByteSeq
  maxBuffer : b'.maxBuffer = b.maxBuffer

theorem SamePlaces.refl (b : TcpTxBuffer) : SamePlaces b b := ⟨rfl, rfl, rfl, rfl, rfl, rfl⟩

theorem SamePlaces.trans {b'' : TcpTxBuffer} (h : SamePlaces b b') (h' : SamePlaces b' b'') :
    SamePlaces b b'' where
  sentList := h'.sentList.trans h.sentList
  appList := h'.appList.trans h.appList
  size := h'.size.trans h.size
  sentSize := h'.sentSize.trans h.sentSize
  firstByteSeq := h'.firstByteSeq.trans h.firstByteSeq
  maxBuffer := h'.maxBuffer.trans h.maxBuffer

variable {start : SequenceNumber32}

section

variable (h : l.map place = r.map place)

include h

theorem payload_of_places : payload l = payload r := by
  have hpayload : ∀ items : List TcpTxItem,
      payload items = (items.map place).flatMap (·.2) := by
    intro items
    simp [payload, place, List.flatMap_map]
  rw [hpayload l, hpayload r, h]

theorem bytes_of_places : bytes l = bytes r := by
  rw [bytes, bytes, payload_of_places h]

theorem chain_of_places (hr : Chain start r) : Chain start l := by
  induction l generalizing start r with
  | nil => trivial
  | cons item rest ih =>
    cases r with
    | nil => simp at h
    | cons item' rest' =>
      simp only [List.map_cons, List.cons.injEq, place, Prod.mk.injEq] at h
      obtain ⟨⟨hstart, hpacket⟩, hrest⟩ := h
      refine ⟨hstart.trans hr.1, ih hrest ?_⟩
      rw [TcpTxItem.size, hpacket]
      exact hr.2

theorem nonempty_of_places (hr : Nonempty r) : Nonempty l := by
  intro item hitem
  have hmem : place item ∈ r.map place := h ▸ List.mem_map_of_mem hitem
  obtain ⟨item', hitem', heq⟩ := List.mem_map.mp hmem
  have hpos := hr item' hitem'
  simp only [place, Prod.mk.injEq] at heq
  rwa [TcpTxItem.size, heq.2] at hpos

end

/-- **Frame rule.**  The same items in the same places hold the same bytes. -/
theorem Holds.of_samePlaces (h : b.Holds data) (hsame : SamePlaces b b') : b'.Holds data where
  payload_eq := by rw [payload_of_places hsame.sentList, hsame.appList, h.payload_eq]
  chain := by rw [hsame.firstByteSeq]; exact chain_of_places hsame.sentList h.chain
  sentSize_eq := by rw [hsame.sentSize, bytes_of_places hsame.sentList, h.sentSize_eq]
  size_eq := by rw [hsame.size, hsame.appList, bytes_of_places hsame.sentList, h.size_eq]
  sent_nonempty := nonempty_of_places hsame.sentList h.sent_nonempty
  app_nonempty := by rw [hsame.appList]; exact h.app_nonempty

theorem map_place_eq {f : TcpTxItem → TcpTxItem} (hf : ∀ item, place (f item) = place item) :
    (l.map f).map place = l.map place := by
  rw [List.map_map]
  exact List.map_congr_left fun item _ => hf item

theorem addRenoSack_samePlaces (h : b.addRenoSack = .ok b') : SamePlaces b b' := by
  obtain ⟨_, rfl⟩ | ⟨head, before, item, after, hlist, _, _, rfl⟩ := addRenoSack_cases h
  · exact ⟨rfl, rfl, rfl, rfl, rfl, rfl⟩
  · refine ⟨?_, rfl, rfl, rfl, rfl, rfl⟩
    simp [hlist, place]

theorem markHeadAsLost_samePlaces (b : TcpTxBuffer) : SamePlaces b b.markHeadAsLost := by
  unfold markHeadAsLost
  split
  · exact .refl b
  · rename_i head tail hlist
    refine ⟨?_, rfl, rfl, rfl, rfl, rfl⟩
    simp [hlist, place]

theorem resetRenoSack_samePlaces (b : TcpTxBuffer) : SamePlaces b b.resetRenoSack :=
  ⟨map_place_eq fun _ => rfl, rfl, rfl, rfl, rfl, rfl⟩

theorem deleteRetransmittedFlagFromHead_samePlaces
    (h : b.deleteRetransmittedFlagFromHead = .ok b') : SamePlaces b b' := by
  unfold deleteRetransmittedFlagFromHead at h
  split at h
  · rw [pure_eq_ok] at h
    exact h ▸ .refl b
  · split at h
    · simp at h
    · rename_i head tail hlist
      split at h
      · rw [pure_eq_ok] at h
        subst h
        refine ⟨?_, rfl, rfl, rfl, rfl, rfl⟩
        simp [hlist, place]
      · rw [pure_eq_ok] at h
        exact h ▸ .refl b

theorem markAllLost_places (lostOut : Nat) (l : List TcpTxItem) :
    (markAllLost lostOut l).2.map place = l.map place := by
  induction l generalizing lostOut with
  | nil => rfl
  | cons item rest ih =>
    simp only [markAllLost, List.map_cons, ih]
    rfl

theorem setSentListLost_samePlaces {resetSack : Bool} (h : b.setSentListLost resetSack = .ok b') :
    SamePlaces b b' := by
  unfold setSentListLost at h
  simp only [bind_eq_ok, pure_eq_ok] at h
  obtain ⟨_, _, rfl⟩ := h
  split
  · exact ⟨map_place_eq fun _ => rfl, rfl, rfl, rfl, rfl, rfl⟩
  · exact ⟨markAllLost_places 0 b.sentList, rfl, rfl, rfl, rfl, rfl⟩

theorem lostWalk_places (dupAckThresh lostOut : Nat) (l : List TcpTxItem) :
    (lostWalk dupAckThresh l lostOut).2.2.map place = l.map place := by
  induction l with
  | nil => rfl
  | cons item rest ih =>
    simp only [lostWalk]
    split <;> simp [ih, place]

theorem markHeadIfLost_samePlaces {dupAckThresh sacked : Nat}
    (h : markHeadIfLost dupAckThresh sacked b = .ok b') : SamePlaces b b' := by
  obtain ⟨rfl, _⟩ | ⟨_, head, tail, hlist, _, rfl⟩ := markHeadIfLost_cases h
  · exact .refl b'
  · refine ⟨?_, rfl, rfl, rfl, rfl, rfl⟩
    simp [hlist, place]

theorem updateLostCount_samePlaces (h : b.updateLostCount = .ok b') : SamePlaces b b' := by
  obtain ⟨_, _, hhead⟩ | ⟨node, head, tail, _, hlist, hwalk⟩ := updateLostCount_cases h
  · exact markHeadIfLost_samePlaces hhead
  · obtain ⟨_, hhead⟩ | ⟨_, upTo, beyond, hsplit, hhead⟩ := hwalk
    · exact markHeadIfLost_samePlaces hhead
    · refine SamePlaces.trans ?_ (markHeadIfLost_samePlaces hhead)
      refine ⟨?_, rfl, rfl, rfl, rfl, rfl⟩
      simp [hlist, splitAtNode_append hsplit, lostWalk_places]

variable {pass pass' : SackPass} {l' : List TcpTxItem}

theorem sackItems_places {block : SackBlock} (h : sackItems block start l pass = .ok (l', pass')) :
    l'.map place = l.map place := by
  induction l generalizing start pass l' pass' with
  | nil =>
    simp only [sackItems, pure_eq_ok, Prod.mk.injEq] at h
    rw [← h.1]
  | cons item rest ih =>
    unfold sackItems at h
    dsimp only at h
    split at h
    · split at h
      · simp only [bind_eq_ok, pure_eq_ok, Prod.mk.injEq] at h
        obtain ⟨_, _, ⟨rest', pass''⟩, hrec, rfl, _⟩ := h
        simp [ih hrec]
      · simp only [bind_eq_ok, pure_eq_ok, Prod.mk.injEq] at h
        obtain ⟨⟨rest', pass''⟩, hrec, rfl, _⟩ := h
        simp [ih hrec, place]
    · split at h
      · simp only [pure_eq_ok, Prod.mk.injEq] at h
        rw [← h.1]
      · simp only [bind_eq_ok, pure_eq_ok, Prod.mk.injEq] at h
        obtain ⟨⟨rest', pass''⟩, hrec, rfl, _⟩ := h
        simp [ih hrec]

theorem sackBlocks_places {firstByteSeq firstUnsent : SequenceNumber32} {blocks : List SackBlock}
    {early : Bool}
    (h : sackBlocks firstByteSeq firstUnsent blocks l pass = .ok (l', pass', early)) :
    l'.map place = l.map place := by
  induction blocks generalizing l pass with
  | nil =>
    simp only [sackBlocks, pure_eq_ok, Prod.mk.injEq] at h
    rw [← h.1]
  | cons block blocks ih =>
    unfold sackBlocks at h
    split at h
    · simp only [pure_eq_ok, Prod.mk.injEq] at h
      rw [← h.1]
    · rw [bind_eq_ok] at h
      obtain ⟨⟨items, pass''⟩, hblock, hrest⟩ := h
      rw [ih hrest, sackItems_places hblock]

theorem withPass_samePlaces {items : List TcpTxItem} (h : items.map place = b.sentList.map place) :
    SamePlaces b (b.withPass items pass) :=
  ⟨h, rfl, rfl, rfl, rfl, rfl⟩

theorem update_samePlaces {list : List SackBlock} {bytesSacked : Nat} {newlySacked : List TcpTxItem}
    (h : b.update list = .ok (b', bytesSacked, newlySacked)) : SamePlaces b b' := by
  obtain ⟨items, pass, early, hblocks, -, -, hend⟩ := update_cases h
  have hmarked : SamePlaces b (b.withPass items pass) :=
    withPass_samePlaces (sackBlocks_places hblocks)
  obtain ⟨_, rfl⟩ | ⟨_, _, ⟨_, _, hcount⟩ | ⟨_, rfl⟩⟩ := hend
  · exact hmarked
  · exact hmarked.trans (updateLostCount_samePlaces hcount)
  · exact hmarked

/-! ## Extraction -/

variable {numBytes : Nat} {item : TcpTxItem} {now : Time} {result : Option TcpTxItem} {k : Nat}

theorem Holds.sizeFromSequence_eq (h : b.Holds data) (hlen : data.length < 2 ^ 31)
    (hk : k ≤ b.size) : b.sizeFromSequence (b.firstByteSeq.add k) = b.size - k := by
  have hsize := h.length_eq
  have htail : pos b.firstByteSeq b.tailSequence = b.size := pos_base_add (by omega)
  have hseq : pos b.firstByteSeq (b.firstByteSeq.add k) = k := pos_base_add (by omega)
  have hnear : Near b.firstByteSeq b.tailSequence (b.firstByteSeq.add k) :=
    near_of_lt (by omega) (by omega)
  have hge := ge_iff hnear
  rw [htail, hseq] at hge
  unfold sizeFromSequence
  rw [if_pos (hge.mpr hk), distance_eq_pos, pos_rebase b.firstByteSeq, htail, hseq]
  omega

theorem retransmitSize_le (seq : SequenceNumber32) (s : Nat) (l : List TcpTxItem) :
    retransmitSize seq s l ≤ s := by
  induction l with
  | nil => exact le_refl s
  | cons item rest ih =>
    unfold retransmitSize
    split
    · cases rest with
      | nil => exact min_le_left _ _
      | cons next rest' =>
        dsimp only
        split <;> exact min_le_left _ _
    · exact ih

variable {seq : SequenceNumber32}

theorem retransmitSize_pos {s : Nat} (hs : 0 < s) (hne : Nonempty l) (hspan : bytes l < 2 ^ 31) :
    0 < retransmitSize seq s l := by
  induction l with
  | nil => exact hs
  | cons item rest ih =>
    rw [nonempty_cons] at hne
    rw [bytes_cons] at hspan
    unfold retransmitSize
    split
    · cases rest with
      | nil => exact lt_min hs hne.1
      | cons next rest' =>
        rw [bytes_cons] at hspan
        dsimp only
        split
        · rw [wadd_eq (by omega)]
          exact lt_min hs (by omega)
        · exact lt_min hs hne.1
    · exact ih hne.2 (by omega)

/-- What an extraction hands out: the buffer still holds the same data, and the
item carries the data from byte `k` on. -/
structure HandsOut (b b' : TcpTxBuffer) (data : List UInt8) (k numBytes : Nat)
    (ref : ItemRef) : Prop where
  holds : { b' with sentList := ref.list }.Holds data
  first : b'.firstByteSeq = b.firstByteSeq
  maxBuffer : b'.maxBuffer = b.maxBuffer
  before : bytes ref.before = k
  pos : 0 < ref.item.size
  le : ref.item.size ≤ numBytes

variable {ref : ItemRef}

theorem getTransmittedSegment_handsOut (h : b.Holds data) (hlen : data.length < 2 ^ 31)
    (hpos : 0 < numBytes) (hend : k + numBytes ≤ b.sentSize)
    (hrun : b.getTransmittedSegment numBytes (b.firstByteSeq.add k) = .ok (b', ref)) :
    HandsOut b b' data k numBytes ref := by
  have hsize := h.length_eq
  have hsent := h.sentSize_le
  have hsentSize := h.sentSize_eq
  unfold getTransmittedSegment at hrun
  simp only [bind_eq_ok, pure_eq_ok, Prod.mk.injEq] at hrun
  obtain ⟨_, _, _, _, _, _, found, hfound, rfl, rfl⟩ := hrun
  have hext := getPacketFromList_extract hfound
  have hsz := retransmitSize_le (b.firstByteSeq.add k) numBytes b.sentList
  have hplaced : WellPlaced true b.firstByteSeq b.sentList :=
    ⟨h.sent_nonempty, fun _ => h.chain⟩
  have hspan : bytes b.sentList < 2 ^ 31 := by omega
  obtain ⟨hplaced', hbefore, hitem, hle⟩ := hext.position hspan (by omega)
    (retransmitSize_pos hpos h.sent_nonempty (by omega)) hplaced
  have hpayload : payload found.list = payload b.sentList := hext.edits.payload_eq
  -- the flag set on the item does not move it
  have hplaces : (found.before ++ { found.item with retrans := true } :: found.after).map place
      = found.list.map place := by
    simp [ItemRef.list, place]
  refine ⟨?_, rfl, rfl, hbefore, hitem, le_trans hle hsz⟩
  constructor
  · exact (congrArg (· ++ payload b.appList)
      ((payload_of_places hplaces).trans hpayload)).trans h.payload_eq
  · exact chain_of_places hplaces (hplaced'.chain rfl)
  · change b.sentSize = bytes (found.before ++ { found.item with retrans := true } :: found.after)
    rw [bytes_of_places hplaces, bytes, hpayload]
    exact h.sentSize_eq
  · change b.size = bytes (found.before ++ { found.item with retrans := true } :: found.after)
      + bytes b.appList
    rw [bytes_of_places hplaces, bytes, hpayload]
    exact h.size_eq
  · exact nonempty_of_places hplaces hplaced'.nonempty
  · exact h.app_nonempty

theorem getNewSegment_handsOut (h : b.Holds data) (hlen : data.length < 2 ^ 31)
    (hpos : 0 < numBytes) (hend : b.sentSize + numBytes ≤ b.size)
    (hrun : b.getNewSegment numBytes = .ok (b', ref)) :
    HandsOut b b' data b.sentSize numBytes ref := by
  have hsize := h.length_eq
  have hsizes := h.size_eq
  have hsentSize := h.sentSize_eq
  unfold getNewSegment at hrun
  simp only [bind_eq_ok, pure_eq_ok, Prod.mk.injEq] at hrun
  obtain ⟨found, hfound, rfl, rfl⟩ := hrun
  have hext := getPacketFromList_extract hfound
  have hplaced : WellPlaced false b.firstUnsent b.appList :=
    ⟨h.app_nonempty, fun hsent => absurd hsent (by decide)⟩
  have hspan : bytes b.appList < 2 ^ 31 := by omega
  have hext0 : Extract false b.firstByteSeq b.firstUnsent numBytes (b.firstUnsent.add 0)
      ⟨b.appList, b.retrans, b.nextNode⟩ found := by rwa [SequenceNumber.add_zero]
  obtain ⟨hplaced', hbefore, hitem, hle⟩ := hext0.position hspan (by omega) hpos hplaced
  have hpayload : payload found.list = payload b.appList := hext.edits.payload_eq
  -- nothing stands before the item, so it is the front of the unsent data
  have hnil : found.before = [] := by
    have hne := (nonempty_append.mp hplaced'.nonempty).1
    cases hb : found.before with
    | nil => rfl
    | cons item rest =>
      rw [hb] at hne hbefore
      rw [nonempty_cons] at hne
      rw [bytes_cons] at hbefore
      omega
  have hpayload' : found.item.packet ++ payload found.after = payload b.appList := by
    rw [← hpayload, ItemRef.list, hnil]
    rfl
  have hbytes : found.item.size + bytes found.after = bytes b.appList := by
    have hcount := congrArg List.length hpayload'
    rwa [List.length_append] at hcount
  refine ⟨?_, rfl, rfl, hsentSize.symm, hitem, hle⟩
  have hne := nonempty_append.mp hplaced'.nonempty
  constructor
  · simp only [ItemRef.list, payload_append, payload_cons, payload_nil, hnil,
      List.append_nil, List.nil_append, List.append_assoc, hpayload', h.payload_eq]
  · simp only [ItemRef.list, chain_append, Chain, and_true]
    exact ⟨h.chain, by rw [← hsentSize]; rfl⟩
  · simp only [ItemRef.list, bytes_append, bytes_cons, bytes_nil]
    rw [hsentSize]
    exact wadd_eq (by simp only [TcpTxItem.size] at hbytes ⊢; omega)
  · simp only [ItemRef.list, bytes_append, bytes_cons, bytes_nil, hnil, List.nil_append]
    simp only [TcpTxItem.size] at hbytes ⊢
    omega
  · simp only [ItemRef.list, nonempty_append]
    exact ⟨h.sent_nonempty, nonempty_cons.mpr ⟨hitem, by simp [Nonempty]⟩⟩
  · change Nonempty (found.before ++ found.after)
    rw [hnil]
    exact (nonempty_cons.mp hne.2).2

/-- The item carries the bytes of `data` from byte `k` on, under the sequence
number `seq`, and at most `numBytes` of them. -/
structure Carries (item : TcpTxItem) (data : List UInt8) (k numBytes : Nat)
    (seq : SequenceNumber32) : Prop where
  packet : item.packet = (data.drop k).take item.size
  startSeq : item.startSeq = seq
  pos : 0 < item.size
  le : item.size ≤ numBytes

theorem Carries.mono {n m : Nat} (h : Carries item data k n seq) (hle : n ≤ m) :
    Carries item data k m seq :=
  ⟨h.packet, h.startSeq, h.pos, h.le.trans hle⟩

/-- A buffer that still holds the data, at the same place in the stream. -/
structure Keeps (b b' : TcpTxBuffer) (data : List UInt8) : Prop where
  holds : b'.Holds data
  first : b'.firstByteSeq = b.firstByteSeq
  maxBuffer : b'.maxBuffer = b.maxBuffer

theorem HandsOut.stamp {b'' : TcpTxBuffer} (h : HandsOut b b' data k numBytes ref)
    (hrun : stampItem now b' ref = .ok (b'', result)) :
    Keeps b b'' data ∧
      ∀ item, result = some item → Carries item data k numBytes (b.firstByteSeq.add k) := by
  unfold stampItem at hrun
  simp only [bind_eq_ok, pure_eq_ok, Prod.mk.injEq] at hrun
  obtain ⟨_, _, rfl, rfl⟩ := hrun
  have hchain := h.holds.chain
  simp only [ItemRef.list, chain_append, Chain] at hchain
  constructor
  · refine ⟨h.holds.of_samePlaces ⟨?_, rfl, rfl, rfl, rfl, rfl⟩, h.first, h.maxBuffer⟩
    simp [ItemRef.list, place]
  · rintro item ⟨⟩
    refine ⟨?_, ?_, h.pos, h.le⟩
    · have hpayload := h.holds.payload_eq
      simp only [ItemRef.list, payload_append, payload_cons, List.append_assoc] at hpayload
      rw [← hpayload, ← h.before]
      simp [bytes, TcpTxItem.size]
    · rw [← h.first, ← h.before]
      exact hchain.2.1

theorem copyFromSequenceFuel_spec (h : b.Holds data) (hlen : data.length < 2 ^ 31)
    (hk : k ≤ b.sentSize) {fuel : Nat}
    (hrun : copyFromSequenceFuel now b fuel numBytes (b.firstByteSeq.add k) = .ok (b', result)) :
    Keeps b b' data ∧
      ∀ item, result = some item → Carries item data k numBytes (b.firstByteSeq.add k) := by
  have hsize := h.length_eq
  have hsent := h.sentSize_le
  have hfrom := h.sizeFromSequence_eq hlen (by omega : k ≤ b.size)
  have hposk : pos b.firstByteSeq (b.firstByteSeq.add k) = k := pos_base_add (by omega)
  have hposu : pos b.firstByteSeq b.firstUnsent = b.sentSize := pos_base_add (by omega)
  induction fuel generalizing numBytes with
  | zero => simp [copyFromSequenceFuel] at hrun
  | succ fuel ih =>
    unfold copyFromSequenceFuel at hrun
    split at hrun
    · simp at hrun
    · rw [hfrom] at hrun
      dsimp only at hrun
      have hle : min numBytes (b.size - k) ≤ numBytes := min_le_left _ _
      have hle' : min numBytes (b.size - k) ≤ b.size - k := min_le_right _ _
      generalize min numBytes (b.size - k) = s at hrun hle hle'
      have hposs : pos b.firstByteSeq ((b.firstByteSeq.add k).add s) = k + s := by
        rw [add_add, pos_base_add (by omega)]
      have hnear : Near b.firstByteSeq b.firstUnsent ((b.firstByteSeq.add k).add s) :=
        near_of_lt (by omega) (by omega)
      have hge := ge_iff hnear
      rw [hposu, hposs] at hge
      split at hrun
      · simp only [pure_eq_ok, Prod.mk.injEq] at hrun
        obtain ⟨rfl, rfl⟩ := hrun
        exact ⟨⟨h, rfl, rfl⟩, by simp⟩
      · rename_i hs
        split at hrun
        · -- the block was sent before
          rename_i hsentBefore
          simp only [bind_eq_ok] at hrun
          obtain ⟨⟨b₁, ref⟩, hseg, _, _, hstamp⟩ := hrun
          have hout := getTransmittedSegment_handsOut h hlen (by omega)
            (hge.mp hsentBefore) hseg
          obtain ⟨hkeeps, hcarries⟩ := hout.stamp hstamp
          exact ⟨hkeeps, fun item hitem => (hcarries item hitem).mono hle⟩
        · rename_i hpart
          rw [hge] at hpart
          split at hrun
          · split at hrun
            · -- the block is new
              rename_i hnew
              have hkeq : k = b.sentSize := by
                have := congrArg (pos b.firstByteSeq) hnew
                omega
              simp only [bind_eq_ok] at hrun
              obtain ⟨⟨b₁, ref⟩, hseg, _, _, hstamp⟩ := hrun
              have hout := getNewSegment_handsOut h hlen (by omega) (by omega) hseg
              rw [← hkeq] at hout
              obtain ⟨hkeeps, hcarries⟩ := hout.stamp hstamp
              exact ⟨hkeeps, fun item hitem => (hcarries item hitem).mono hle⟩
            · simp at hrun
          · split at hrun
            · -- part of the block was sent before: only that part is asked for
              have hvalue : ((b.firstByteSeq.add k).value).toNat
                  = (b.firstByteSeq.value.toNat + k) % 2 ^ 32 := by
                simp [SequenceNumber.add]
              have hamount : wsub 32 (wadd 32 b.firstByteSeq.value.toNat b.sentSize)
                  ((b.firstByteSeq.add k).value).toNat = b.sentSize - k := by
                rw [hvalue, wsub, wadd]
                omega
              rw [hamount] at hrun
              obtain ⟨hkeeps, hcarries⟩ := ih hrun
              exact ⟨hkeeps, fun item hitem => (hcarries item hitem).mono (by omega)⟩
            · simp at hrun

theorem copyFromSequence_spec (h : b.Holds data) (hlen : data.length < 2 ^ 31) (hk : k ≤ b.sentSize)
    (hrun : b.copyFromSequence now numBytes (b.firstByteSeq.add k) = .ok (b', result)) :
    Keeps b b' data ∧
      ∀ item, result = some item → Carries item data k numBytes (b.firstByteSeq.add k) :=
  copyFromSequenceFuel_spec h hlen hk hrun

/-! ## Data leaving the buffer -/

variable {rest : List TcpTxItem} {offset : Nat}

theorem fillSentList_keeps (h : b.Holds data) (hlen : data.length < 2 ^ 31)
    (hrun : b.fillSentList now offset = .ok b') : Keeps b b' data := by
  obtain ⟨_, rfl⟩ | ⟨_, item, hcopy⟩ := fillSentList_cases hrun
  · exact ⟨h, rfl, rfl⟩
  · rw [← SequenceNumber.add_zero b.firstByteSeq] at hcopy
    exact (copyFromSequence_spec h hlen (Nat.zero_le _) hcopy).1

theorem removeFromCounts_samePlaces {size : Nat} (h : b.removeFromCounts item size = .ok b') :
    SamePlaces b b' := by
  obtain rfl := removeFromCounts_eq_ok h
  exact ⟨rfl, rfl, rfl, rfl, rfl, rfl⟩

/-- What is left of a buffer whose front `n` bytes were dropped. -/
structure Dropped (b b' : TcpTxBuffer) (data : List UInt8) (n : Nat) : Prop where
  holds : b'.Holds (data.drop n)
  first : b'.firstByteSeq = b.firstByteSeq.add n
  maxBuffer : b'.maxBuffer = b.maxBuffer

theorem Holds.advance {n : Nat} (left : List TcpTxItem) (h : b.Holds data)
    (hlen : data.length < 2 ^ 31) (hlist : b.sentList = item :: rest) (hn : n ≤ item.size)
    (hpayload : payload left = item.packet.drop n)
    (hchain : Chain (b.firstByteSeq.add n) (left ++ rest)) (hne : Nonempty left) :
    (b.advance n (left ++ rest)).Holds (data.drop n) := by
  have hsize := h.length_eq
  have hsizes := h.size_eq
  have hsentSize := h.sentSize_eq
  have hbytes : bytes left = item.size - n := by rw [bytes, hpayload, List.length_drop]; rfl
  have hpl := h.payload_eq
  rw [hlist] at hsizes hsentSize hpl
  rw [bytes_cons] at hsizes hsentSize
  constructor
  · rw [← hpl]
    simp only [TcpTxBuffer.advance, payload_append, payload_cons, hpayload, List.append_assoc]
    rw [List.drop_append_of_le_length hn]
  · exact hchain
  · change wsub 32 b.sentSize n = bytes (left ++ rest)
    rw [bytes_append, wsub_eq (by omega) (by omega)]
    omega
  · change wsub 32 b.size n = bytes (left ++ rest) + bytes b.appList
    rw [bytes_append, wsub_eq (by omega) (by omega)]
    omega
  · change Nonempty (left ++ rest)
    rw [nonempty_append]
    exact ⟨hne, (nonempty_cons.mp (hlist ▸ h.sent_nonempty)).2⟩
  · exact h.app_nonempty

theorem Holds.advanceWhole (h : b.Holds data) (hlen : data.length < 2 ^ 31)
    (hlist : b.sentList = item :: rest) :
    (b.advance item.size rest).Holds (data.drop item.size) := by
  have hchain := h.chain
  rw [hlist] at hchain
  refine Holds.advance [] h hlen hlist le_rfl ?_ hchain.2 ?_
  · simp [TcpTxItem.size]
  · exact List.forall_mem_nil _

theorem cutFront_size (item : TcpTxItem) (offset : Nat) :
    (cutFront item offset).size = item.size - offset := by
  rw [cutFront, TcpTxItem.size, Packet.length_createFragment]
  exact Nat.min_self _

theorem Holds.advancePart (h : b.Holds data) (hlen : data.length < 2 ^ 31)
    (hlist : b.sentList = item :: rest) (hpart : offset < item.size) :
    (b.advance offset (cutFront item offset :: rest)).Holds (data.drop offset) := by
  have hchain := h.chain
  rw [hlist] at hchain
  have hsize := cutFront_size item offset
  refine Holds.advance [cutFront item offset] h hlen hlist hpart.le ?_ ?_ ?_
  · rw [payload_cons, payload_nil, List.append_nil]
    exact Packet.createFragment_rest item.packet offset
  · refine ⟨by rw [← hchain.1]; rfl, ?_⟩
    rw [hsize, add_add, show offset + (item.size - offset) = item.size by omega]
    exact hchain.2
  · intro item' hmem
    obtain rfl := List.mem_singleton.mp hmem
    omega

theorem discardLoop_dropped {fuel : Nat} {deleted : List TcpTxItem} (h : b.Holds data)
    (hlen : data.length < 2 ^ 31) (hrun : discardLoop now fuel b offset = .ok (b', deleted)) :
    Dropped b b' data (min offset data.length) := by
  induction fuel generalizing b data offset deleted with
  | zero => simp [discardLoop] at hrun
  | succ fuel ih =>
    have hsize := h.length_eq
    obtain ⟨hstop, rfl, _⟩ | ⟨hgo, b₁, item, rest, b₂, hfill, hlist, hturn⟩ :=
      discardLoop_cases hrun
    · have hmin : min offset data.length = 0 := by omega
      rw [hmin]
      exact ⟨by simpa using h, by rw [SequenceNumber.add_zero], rfl⟩
    · have hkeep := fillSentList_keeps h hlen hfill
      have hsize₁ := hkeep.holds.length_eq
      have hsizes := hkeep.holds.size_eq
      rw [hlist, bytes_cons] at hsizes
      obtain ⟨hwhole, hremove, deleted', hrec, _⟩ | ⟨hpart, rfl, _, hremove⟩ := hturn
      · have hsame := removeFromCounts_samePlaces hremove
        have hdrop := (hkeep.holds.advanceWhole hlen hlist).of_samePlaces hsame
        have hrest := ih hdrop (by rw [List.length_drop]; omega) hrec
        rw [List.length_drop] at hrest
        have hmin : item.size + min (offset - item.size) (data.length - item.size)
            = min offset data.length := by omega
        refine ⟨?_, ?_, ?_⟩
        · have hdata := hrest.holds
          rwa [List.drop_drop, hmin] at hdata
        · rw [hrest.first, hsame.firstByteSeq, ← hmin, ← add_add, ← hkeep.first]
          rfl
        · exact hrest.maxBuffer.trans (hsame.maxBuffer.trans hkeep.maxBuffer)
      · have hsame := removeFromCounts_samePlaces hremove
        have hdrop := (hkeep.holds.advancePart hlen hlist hpart).of_samePlaces hsame
        have hmin : min offset data.length = offset := by omega
        rw [hmin]
        refine ⟨hdrop, ?_, hsame.maxBuffer.trans hkeep.maxBuffer⟩
        rw [hsame.firstByteSeq, ← hkeep.first]
        rfl

end TcpTxBuffer

end Ns3.Tcp
