/-
  The SACK list that a receiver advertises.

  A reported block is merged with the next one only when they meet end to end.  A
  segment that swallows a buffered interval is stored across what was reported of
  it, and the list then has two blocks that overlap.  When no out-of-order segment
  does that, the blocks are disjoint parts of what is buffered, and the first one
  has what was stored last.
-/
import Ns3.Internet.Tcp.RxSackOffsets
import Ns3.Internet.Tcp.RxStream

namespace Ns3.Tcp

open Ns3.Lib SequenceNumber

namespace RxRun

/-! ## What is buffered and what is reported, as offsets -/

def offsetOf (start : SequenceNumber32) (base : Nat) (x : SequenceNumber32) : Nat :=
  base + pos (start.add base) x

def intervals (st : RxRun) (start : SequenceNumber32) (base : Nat) : List Block :=
  st.buffer.data.map fun e => (offsetOf start base e.1, offsetOf start base e.1 + e.2.length)

def blocks (st : RxRun) (start : SequenceNumber32) (base : Nat) : List Block :=
  st.buffer.sackList.map fun b => (offsetOf start base b.1, offsetOf start base b.2)

/-- `[head, tail)` reaches beyond the end of the interval, and has a byte before it that
is not buffered. -/
def Swallows (held : List Block) (head tail : Nat) (interval : Block) : Prop :=
  interval.2 < tail ∧ ∃ k < interval.1, head ≤ k ∧ ∀ i ∈ held, ¬i.Has k

instance (held : List Block) (head tail : Nat) (interval : Block) :
    Decidable (Swallows held head tail interval) :=
  inferInstanceAs (Decidable (_ ∧ ∃ k < interval.1, head ≤ k ∧ ∀ i ∈ held, ¬i.Has k))

def Overlap (a b : Block) : Prop := max a.1 b.1 < min a.2 b.2

instance (a b : Block) : Decidable (Overlap a b) := inferInstanceAs (Decidable (_ < _))

/-- A segment beyond what is expected next swallows no buffered interval of which some
byte is reported. -/
def Spares (st : RxRun) (start : SequenceNumber32) (base : Nat) : RxOp → Prop
  | .add off p => offsetOf start base st.buffer.nextRxSeq < off →
      ∀ i ∈ st.intervals start base, ∀ b ∈ st.blocks start base, Overlap i b →
        ¬Swallows (st.intervals start base) off (st.edge start base (off + p.length)) i
  | .extract _ => True

instance (st : RxRun) (start : SequenceNumber32) (base : Nat) (op : RxOp) :
    Decidable (st.Spares start base op) :=
  match op with
  | .add off p => inferInstanceAs (Decidable (_ → ∀ i ∈ st.intervals start base,
      ∀ b ∈ st.blocks start base, Overlap i b →
        ¬Swallows (st.intervals start base) off (st.edge start base (off + p.length)) i))
  | .extract _ => inferInstanceAs (Decidable True)

/-! ## The invariant -/

/-- The reported blocks are parts of what is buffered, beyond what is expected next,
and neither overlap nor meet. -/
structure Reports (start : SequenceNumber32) (r : Reception) (list : List Block) (st : RxRun) :
    Prop where
  sackList : st.buffer.sackList = list.map (blockOf start)
  length_le : list.length ≤ 4
  valid : ∀ b ∈ list, b.1 < b.2
  held : ∀ b ∈ list, ∀ k, b.Has k → Held r.data k
  beyond : ∀ b ∈ list, r.next < b.1
  apart : list.Pairwise Block.Apart

variable {start : SequenceNumber32} {first width maxBuffer : Nat} {r : Reception}
  {list : List Block} {st st' : RxRun} {op : RxOp}

theorem beyond_of_held {base : Nat} (hsound : r.Sound base) {b : Block}
    (hheld : ∀ k, b.Has k → Held r.data k) (hend : r.next < b.2) : r.next < b.1 := by
  by_contra hle
  exact hsound.gap (hheld r.next ⟨by omega, hend⟩)

theorem Reports.blocksIn {lo : Nat} (h : Reports start r list st) (hhalf : InHalf lo r.data) :
    BlocksIn lo list := by
  intro b hmem
  have hvalid := h.valid b hmem
  obtain ⟨s, hs, hfirst⟩ := h.held b hmem b.1 ⟨le_rfl, hvalid⟩
  obtain ⟨s', hs', hlast⟩ := h.held b hmem (b.2 - 1) ⟨by omega, by omega⟩
  have hlow := (hhalf s hs).1
  have hhigh := (hhalf s' hs').2
  exact ⟨by omega, hvalid, by omega⟩

section

variable (h : Holds start first width maxBuffer r st) (hwidth : width < 2 ^ 31)

include h hwidth

theorem Holds.intervals_eq :
    st.intervals start (first + st.delivered.length) = r.data.map fun s => (s.start, s.stop) := by
  unfold intervals
  rw [h.represents.data, List.map_map]
  refine List.map_congr_left fun s hmem => ?_
  have hs := h.inHalf hwidth s hmem
  have hle := start_le_stop s
  simp only [Function.comp, entryOf, offsetOf]
  rw [pos_offsets hs.1 (by omega), Nat.add_sub_cancel' hs.1]
  rfl

theorem Reports.blocks_eq (hreports : Reports start r list st) :
    st.blocks start (first + st.delivered.length) = list := by
  unfold blocks
  rw [hreports.sackList, List.map_map]
  refine (List.map_congr_left fun b hmem => ?_).trans (List.map_id _)
  have hb := hreports.blocksIn (h.inHalf hwidth) b hmem
  simp only [Function.comp, blockOf, offsetOf]
  rw [pos_offsets hb.1 (by omega), pos_offsets (by omega) (by omega),
    Nat.add_sub_cancel' hb.1, Nat.add_sub_cancel' (by omega)]
  rfl

theorem Holds.lt_edge_of_open {k stop : Nat} (hk : k < stop)
    (hopen : Reception.Open maxBuffer r.data k) :
    k < st.edge start (first + st.delivered.length) stop :=
  (h.lt_edge hwidth stop k).mpr ⟨hk, hopen⟩

end

variable {data : List ByteStretch}

theorem Reports.clear (hreports : Reports start r list st)
    (h : Holds start first width maxBuffer r st) (hwidth : width < 2 ^ 31) {off head tail : Nat}
    {p : Packet} (hcuts : Reception.Cuts maxBuffer r off p.length data head tail)
    (hstored : head < tail) (hafter : r.next < off)
    (hspares : st.Spares start (first + st.delivered.length) (.add off p)) :
    ∀ b ∈ list, Block.Clear (head, tail) b := by
  have hnext := h.sound.next
  have hreach := h.avail_le
  intro b hb
  refine Block.clear_of_not_has hstored (hreports.valid b hb) fun k hk hbk => ?_
  obtain ⟨s, hs, hsk⟩ := hreports.held b hb k hbk
  by_cases hkept : s ∈ data
  · exact hcuts.clear k ⟨s, hkept, hsk⟩ hk
  · -- the interval was given up: the segment swallows it
    obtain ⟨⟨hstop, hopen⟩, k', hk', hoff, hnot⟩ := hcuts.gives_up hstored s hs hkept
    have hoffset : offsetOf start (first + st.delivered.length) st.buffer.nextRxSeq < off := by
      rw [h.represents.next, offsetOf, pos_offsets (by omega) (by omega)]
      omega
    refine hspares hoffset (s.start, s.stop) ?_ b ?_ ?_ ⟨?_, k', hk', by omega, ?_⟩
    · rw [h.intervals_eq hwidth]
      exact List.mem_map_of_mem hs
    · rw [hreports.blocks_eq h hwidth]
      exact hb
    · unfold Overlap
      unfold Block.Has at hbk
      dsimp only
      omega
    · exact h.lt_edge_of_open hwidth hstop hopen
    · rw [h.intervals_eq hwidth]
      intro i hi hin
      obtain ⟨s', hs', rfl⟩ := List.mem_map.mp hi
      exact hnot ⟨s', hs', hin⟩

theorem out_of_order_iff {base off len head tail : Nat} (hsound : r.Sound base)
    (hcuts : Reception.Cuts maxBuffer r off len data head tail) (hstored : head < tail) :
    r.next < head ↔ r.next < off := by
  have hin := hcuts.inside hstored
  constructor
  · intro hafter
    by_contra hle
    have hopen := hcuts.open_below hstored r.next (by omega)
    rcases (hcuts.held r.next).mpr (.inr ⟨by omega, by omega, hopen⟩) with ⟨s, hmem, hs⟩ | hnew
    · exact hsound.gap ⟨s, hcuts.sublist.subset hmem, hs⟩
    · omega
  · omega

section

variable (hreports : Reports start r list st)

include hreports

variable {head tail next' : Nat}

theorem Reports.reportedAfter (hstored : head < tail)
    (hnext : r.next < head → ∀ b ∈ list, Block.Clear (head, tail) b) :
    (TcpRxBuffer.reportedAfter r.next next' head tail list).length ≤ 4 ∧
    (∀ b ∈ TcpRxBuffer.reportedAfter r.next next' head tail list, b.1 < b.2 ∧ next' < b.2 ∧
      ∀ k, b.Has k → (head ≤ k ∧ k < tail) ∨ Held r.data k) ∧
    (TcpRxBuffer.reportedAfter r.next next' head tail list).Pairwise Block.Apart := by
  have hvalid := hreports.valid
  unfold TcpRxBuffer.reportedAfter
  split
  · rename_i hafter
    refine ⟨?_, fun b hb => ?_, ?_⟩
    · exact (List.length_filter_le _ _).trans
        (Block.report_length hstored hvalid hreports.length_le)
    · obtain ⟨hmem, hend⟩ := List.mem_filter.mp hb
      obtain ⟨hlt, hhas⟩ := @Block.report_mem _ (head, tail) _ hstored hvalid b hmem
      refine ⟨hlt, of_decide_eq_true hend, fun k hk => ?_⟩
      rcases hhas k hk with hin | ⟨b', hb', hin⟩
      · exact .inl hin
      · exact .inr (hreports.held b' hb' k hin)
    · exact (Block.report_apart hstored hvalid hreports.apart (hnext hafter)).sublist
        List.filter_sublist
  · refine ⟨?_, fun b hb => ?_, ?_⟩
    · exact (List.length_filter_le _ _).trans hreports.length_le
    · obtain ⟨hmem, hend⟩ := List.mem_filter.mp hb
      exact ⟨hvalid b hmem, of_decide_eq_true hend, fun k hk => .inr (hreports.held b hmem k hk)⟩
    · exact hreports.apart.sublist List.filter_sublist

theorem Reports.front (hstored : head < tail) (hafter : r.next < head) (hnext : next' < tail) :
    ∃ front rest, TcpRxBuffer.reportedAfter r.next next' head tail list = front :: rest ∧
      front.1 ≤ head ∧ tail ≤ front.2 := by
  obtain ⟨front, rest, heq, hfst, hsnd⟩ :=
    @Block.report_front 4 (head, tail) _ (by decide) hstored hreports.valid
  unfold TcpRxBuffer.reportedAfter
  rw [if_pos hafter, heq, List.filter_cons_of_pos]
  · exact ⟨front, _, rfl, hfst, hsnd⟩
  · rw [decide_eq_true_eq]
    exact hnext.trans_le hsnd

variable {b' : TcpRxBuffer}

/-- What is newly stored out of order lies in the first block of the list. -/
theorem Reports.add (h : Holds start first width maxBuffer r st) (hwidth : width < 2 ^ 31)
    (hbuffer : width + maxBuffer ≤ 2 ^ 31) {off : Nat} {p : Packet} {stored : Bool}
    (hwithin : st.Within width (first + st.delivered.length) off p.length)
    (hadd : st.buffer.add p (start.add off) = .ok (b', stored))
    (hspares : st.Spares start (first + st.delivered.length) (.add off p))
    (received : List (Nat × Nat)) :
    ∃ list', Reports start (r.add maxBuffer p off).1 list'
        { st with buffer := b', received } ∧
      (r.next < off → ∀ s ∈ (r.add maxBuffer p off).1.data, s ∉ r.data →
        ∃ front rest, list' = front :: rest ∧ front.1 ≤ s.start ∧ s.stop ≤ front.2) := by
  obtain ⟨data, head, tail, hcut, hcuts⟩ := Reception.cuts maxBuffer off p.length h.sound.separate
  obtain ⟨hsound, hheld⟩ := @Reception.Sound.add maxBuffer _ _ off p h.sound
  have hmax := h.maxBuffer
  have havail := h.avail_le
  have hcmp := h.compares hwidth hbuffer hwithin
  have hblocksIn := hreports.blocksIn hcmp.data
  have hcut' := hcut
  have havail' := h.avail
  rw [← hmax] at hcmp hcut'
  have hsack := TcpRxBuffer.add_sackList h.represents h.sound.separate hcmp hcut'
    hreports.sackList hblocksIn hreports.beyond (by omega) hadd
  -- what was held still is
  have hgrow : ∀ k, Held r.data k → Held (r.add maxBuffer p off).1.data k := fun k hk =>
    (hheld k (h.sound.separate.le_of_held hk)).mpr (.inl hk)
  by_cases hempty : tail ≤ head
  · rw [if_pos hempty] at hsack
    have hresult : (r.add maxBuffer p off).1 = { r with data } := by
      unfold Reception.add
      rw [hcut]
      dsimp only
      rw [if_pos hempty]
    refine ⟨list, ⟨hsack, hreports.length_le, hreports.valid,
      fun b hb k hk => hgrow k (hreports.held b hb k hk), ?_, hreports.apart⟩, ?_⟩
    · rw [hresult]
      exact hreports.beyond
    · intro _ s hmem hnew
      rw [hresult] at hmem
      exact absurd (hcuts.sublist.subset hmem) hnew
  · have hstored : head < tail := by omega
    have hin := hcuts.inside hstored
    have hresult : (r.add maxBuffer p off).1 =
        r.accept data (Reception.stored p off head tail) := by
      unfold Reception.add
      rw [hcut]
      dsimp only
      rw [if_neg hempty]
    have hnewStop : (Reception.stored p off head tail).stop = tail :=
      Reception.stored_stop (by omega) hstored hin.2
    rw [if_neg hempty] at hsack
    have hclear : r.next < head → ∀ b ∈ list, Block.Clear (head, tail) b := fun hafter =>
      hreports.clear h hwidth hcuts hstored
        ((out_of_order_iff h.sound hcuts hstored).mp hafter) hspares
    obtain ⟨hlength, hblocks, hapart⟩ :=
      @Reports.reportedAfter _ _ _ _ hreports _ _ (r.add maxBuffer p off).1.next hstored hclear
    have hnext' : advance (place (Reception.stored p off head tail) data) r.next =
        (r.add maxBuffer p off).1.next := by
      rw [hresult]
      rfl
    rw [hnext'] at hsack
    have hheld' : ∀ b ∈ TcpRxBuffer.reportedAfter r.next (r.add maxBuffer p off).1.next head tail
        list, ∀ k, b.Has k → Held (r.add maxBuffer p off).1.data k := by
      intro b hb k hk
      rcases (hblocks b hb).2.2 k hk with hnew | hold
      · rw [hresult]
        refine held_place.mpr (.inl ?_)
        rw [hnewStop]
        exact hnew
      · exact hgrow k hold
    refine ⟨_, ⟨hsack, hlength, fun b hb => (hblocks b hb).1, hheld', fun b hb => ?_, hapart⟩, ?_⟩
    · exact beyond_of_held hsound (hheld' b hb) (hblocks b hb).2.1
    · intro hafter s hmem hnew
      have hsame : s = Reception.stored p off head tail := by
        rw [hresult] at hmem
        rcases mem_place.mp hmem with heq | hold
        · exact heq
        · exact absurd (hcuts.sublist.subset hold) hnew
      rw [hsame, hnewStop]
      have hahead := (out_of_order_iff h.sound hcuts hstored).mpr hafter
      refine hreports.front hstored hahead ?_
      -- the new stretch is not contiguous with what was expected next
      by_contra hpast
      have hcontiguous := hsound.contiguous r.next (by have := h.sound.next; omega) (by omega)
      rcases (hheld r.next (by have := h.sound.next; omega)).mp hcontiguous with hold | hseg
      · exact h.sound.gap hold
      · omega

theorem Reports.extract (h : Holds start first width maxBuffer r st) (hwidth : width < 2 ^ 31)
    {maxSize : Nat} {out : Option Packet} (hextract : st.buffer.extract maxSize = .ok (b', out)) :
    Reports start (r.extract maxSize).1 list
      { st with buffer := b', delivered := st.delivered ++ out.getD [] } := by
  obtain ⟨_, _, _, _, _, hsack⟩ := h.extract_eq hwidth hextract
  obtain ⟨hsound, hnext, hheld, _⟩ := h.sound.extract maxSize
  have hnextSound := h.sound.next
  refine ⟨hsack.trans hreports.sackList, hreports.length_le, hreports.valid,
    fun b hb k hk => ?_, fun b hb => ?_, hreports.apart⟩
  · have hbeyond := hreports.beyond b hb
    have hstart := hk.1
    exact (hheld k).mpr ⟨hreports.held b hb k hk, by omega⟩
  · rw [hnext]
    exact hreports.beyond b hb

end

/-! ## Runs -/

/-- A call that spares the reported blocks. -/
def SparingStep (start : SequenceNumber32) (first width : Nat) (st : RxRun) (op : RxOp)
    (st' : RxRun) : Prop :=
  Receives start first width st op st' ∧ st.Spares start (first + st.delivered.length) op

/-- `SparingStep` as a computation. -/
def sparingNext (start : SequenceNumber32) (first width : Nat) (st : RxRun) (op : RxOp) :
    Option RxRun :=
  if st.Spares start (first + st.delivered.length) op then next start first width st op else none

theorem sparingNext_sound (h : sparingNext start first width st op = some st') :
    SparingStep start first width st op st' := by
  unfold sparingNext at h
  split at h
  · rename_i hspares
    exact ⟨next_sound h, hspares⟩
  · cases h

theorem reports_initial : Reports start { next := first } [] (initial start first maxBuffer) := by
  refine ⟨rfl, Nat.zero_le _, ?_, ?_, ?_, List.Pairwise.nil⟩
  · exact fun b hb => absurd hb List.not_mem_nil
  · exact fun b hb => absurd hb List.not_mem_nil
  · exact fun b hb => absurd hb List.not_mem_nil

/-- **Run lemma.** -/
theorem run_reports {ops : List RxOp} (hwidth : width < 2 ^ 31)
    (hbuffer : width + maxBuffer ≤ 2 ^ 31)
    (hrun : Run (SparingStep start first width) (initial start first maxBuffer) ops st) :
    ∃ r list, Holds start first width maxBuffer r st ∧ Reports start r list st := by
  refine hrun.invariant (P := fun st => ∃ r list, Holds start first width maxBuffer r st ∧
    Reports start r list st) ⟨_, _, holds_initial, reports_initial⟩ ?_
  rintro st op st' ⟨r, list, h, hreports⟩ ⟨hstep, hspares⟩
  cases hstep with
  | add hwithin hadd =>
    obtain ⟨list', hreports', _⟩ := hreports.add h hwidth hbuffer hwithin hadd hspares _
    exact ⟨_, list', h.add hwidth hbuffer hwithin hadd, hreports'⟩
  | extract hextract =>
    exact ⟨_, list, h.extract hwidth hextract, hreports.extract h hwidth hextract⟩

/-- The advertised list is sound and not redundant: at most four intervals of bytes beyond
`m_nextRxSeq` that are buffered, no two of which overlap or meet. -/
structure SackSound (start : SequenceNumber32) (base : Nat) (st : RxRun) : Prop where
  length_le : (st.blocks start base).length ≤ 4
  valid : ∀ b ∈ st.blocks start base,
    b.1 < b.2 ∧ offsetOf start base st.buffer.nextRxSeq < b.1
  buffered : ∀ b ∈ st.blocks start base, ∀ k, b.Has k →
    st.Received k ∧ ∃ i ∈ st.intervals start base, i.Has k
  apart : (st.blocks start base).Pairwise Block.Apart

theorem Holds.offsetOf_next (h : Holds start first width maxBuffer r st) (hwidth : width < 2 ^ 31) :
    offsetOf start (first + st.delivered.length) st.buffer.nextRxSeq = r.next := by
  have hnext := h.sound.next
  have hreach := h.avail_le
  rw [h.represents.next, offsetOf, pos_offsets (by omega) (by omega)]
  omega

/-- What the list of blocks promises of the bytes held. -/
theorem Reports.sackSound (hreports : Reports start r list st)
    (h : Holds start first width maxBuffer r st) (hwidth : width < 2 ^ 31) :
    SackSound start (first + st.delivered.length) st := by
  have hblocks := hreports.blocks_eq h hwidth
  constructor
  · rw [hblocks]
    exact hreports.length_le
  · rw [hblocks, h.offsetOf_next hwidth]
    exact fun b hb => ⟨hreports.valid b hb, hreports.beyond b hb⟩
  · rw [hblocks, h.intervals_eq hwidth]
    intro b hb k hk
    have hheld := hreports.held b hb k hk
    have hle := h.sound.separate.le_of_held hheld
    refine ⟨(h.received k (by omega)).mp (.inr hheld), ?_⟩
    obtain ⟨s, hmem, hs⟩ := hheld
    exact ⟨(s.start, s.stop), List.mem_map_of_mem hmem, hs⟩
  · rw [hblocks]
    exact hreports.apart

/-- **The SACK list is sound** in every state reached by calls in which no out-of-order segment
swallows a buffered interval that is reported. -/
theorem sack_list_sound {ops : List RxOp} (hwidth : width < 2 ^ 31)
    (hbuffer : width + maxBuffer ≤ 2 ^ 31)
    (hrun : Run (SparingStep start first width) (initial start first maxBuffer) ops st) :
    SackSound start (first + st.delivered.length) st ∧
    ∀ off p st', SparingStep start first width st (.add off p) st' →
      offsetOf start (first + st.delivered.length) st.buffer.nextRxSeq < off →
      ∀ i ∈ st'.intervals start (first + st.delivered.length),
        i ∉ st.intervals start (first + st.delivered.length) →
        ∃ front rest, st'.blocks start (first + st.delivered.length) = front :: rest ∧
          front.1 ≤ i.1 ∧ i.2 ≤ front.2 := by
  obtain ⟨r, list, h, hreports⟩ := run_reports hwidth hbuffer hrun
  refine ⟨hreports.sackSound h hwidth, ?_⟩
  rintro off p st' ⟨hstep, hspares⟩ hafter i hi hnew
  rw [h.offsetOf_next hwidth] at hafter
  cases hstep with
  | @add _ _ b' stored hwithin hadd =>
    have h' := h.add hwidth hbuffer hwithin hadd
    obtain ⟨list', hreports', hfront⟩ := hreports.add h hwidth hbuffer hwithin hadd hspares _
    have hblocks := hreports'.blocks_eq h' hwidth
    rw [h'.intervals_eq hwidth] at hi
    rw [h.intervals_eq hwidth] at hnew
    obtain ⟨s, hmem, rfl⟩ := List.mem_map.mp hi
    obtain ⟨front, rest, rfl, hfst, hsnd⟩ := hfront hafter s hmem fun hin =>
      hnew (List.mem_map_of_mem hin)
    exact ⟨front, rest, hblocks, hfst, hsnd⟩

/-- A run with two blocks, one of which becomes contiguous. -/
theorem sack_list_sound_cleared : ∃ st : RxRun,
    Run (SparingStep (.ofNat 4294967294) 0 16) (initial (.ofNat 4294967294) 0 100)
      [.add 8 [8, 9], .add 2 [2, 3], .add 4 [4], .add 0 [0, 1], .extract 3] st ∧
    SackSound (.ofNat 4294967294) 3 st ∧ st.blocks (.ofNat 4294967294) 3 = [(8, 10)] :=
  Run.exists_of_foldlM (fun _ _ _ => sparingNext_sound) rfl fun hrun =>
    ⟨(sack_list_sound (by decide) (by decide) hrun).1, rfl⟩

/-- An out-of-order segment that swallows a reported byte leaves two blocks that
overlap. -/
theorem sack_list_overlaps : ∃ st : RxRun,
    Run (Receives (.ofNat 0) 0 16) (initial (.ofNat 0) 0 100)
      [.add 4 [4], .add 2 [2, 3, 4, 5, 6, 7]] st ∧
    st.buffer.sackList = [(.ofNat 2, .ofNat 8), (.ofNat 4, .ofNat 5)] ∧
    ¬SackSound (.ofNat 0) 0 st := by
  refine ⟨_, Run.of_foldlM (fun _ _ _ => next_sound) rfl, rfl, fun h => ?_⟩
  have happart : ([(2, 8), (4, 5)] : List Block).Pairwise Block.Apart := h.apart
  exact absurd happart (by decide)

end RxRun

end Ns3.Tcp
