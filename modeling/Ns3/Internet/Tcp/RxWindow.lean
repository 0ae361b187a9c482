/-
  The reception buffer and its window.

  What the buffer holds should fit in `m_maxBuffer` bytes.  `Add` cuts a new segment
  to a window that begins with the first stretch buffered, and to none if there is
  no stretch: a segment that reaches beyond the window the buffer announces is
  stored whole.  As long as none does, the buffer never outgrows its window.
-/
import Ns3.Internet.Tcp.RxOffsets
import Ns3.Internet.Tcp.SocketWindow
import Ns3.Lib.Run

namespace Ns3.Tcp

open Ns3.Lib SequenceNumber

namespace TcpRxBuffer

def windowEnd (b : TcpRxBuffer) : SequenceNumber32 := maxRxSequence { b with gotFin := false }

/-- No byte of the segment is stored at or beyond the end of the window: it ends there at the
latest, or it ends beyond and `Add` cuts it, as `m_data` begins at or before `m_nextRxSeq`. -/
def FitsWindow (b : TcpRxBuffer) (seq : SequenceNumber32) (len : Nat) : Prop :=
  (pos b.nextRxSeq b.windowEnd < 2 ^ 31 ∧ pos b.nextRxSeq seq ≠ 2 ^ 31) ∧
    ((len < 2 ^ 31 ∧ pos b.nextRxSeq (seq.add len) ≤ pos b.nextRxSeq b.windowEnd) ∨
      (∃ first ∈ b.data.head?, first.1.le b.nextRxSeq = true ∧
        b.windowEnd.lt (seq.add len) = true))

instance (b : TcpRxBuffer) (seq : SequenceNumber32) (len : Nat) :
    Decidable (b.FitsWindow seq len) :=
  inferInstanceAs (Decidable ((_ ∧ _) ∧ ((_ ∧ _) ∨ ∃ first ∈ b.data.head?, _ ∧ _)))

def InWindow (b : TcpRxBuffer) : Prop :=
  b.size ≤ b.maxBuffer ∧
    (b.gotFin = false → b.nextRxSeq.le b.maxRxSequence = true ∧
      (∀ (socket : AdvWindow) (scale : Bool), ∃ r, advertisedWindowSize socket b scale = .ok r) ∧
      b.maxRxSequence.distance b.nextRxSeq ≤ b.maxBuffer)

/-! ## The invariant -/

/-- The window of a reception begins with its first stretch, or with what it expects
next. -/
def windowStart (r : Reception) : Nat :=
  match r.data with
  | [] => r.next
  | first :: _ => min first.start r.next

/-- The buffer has a reception that fits in the window at `base`; `fins` is how far a FIN
may have moved what it expects beyond the window. -/
structure InBounds (start : SequenceNumber32) (r : Reception) (base maxBuffer fins : Nat)
    (b : TcpRxBuffer) : Prop where
  represents : Represents start r b
  separate : Separate base r.data
  stop_le : ∀ s ∈ r.data, s.stop ≤ base + maxBuffer
  next : base ≤ r.next ∧ r.next ≤ base + maxBuffer + fins
  next_le : b.gotFin = false → r.next ≤ base + maxBuffer
  avail : b.availBytes < 2 ^ 32
  maxBuffer : b.maxBuffer = maxBuffer
  room : 2 ^ 32 ≤ base

variable {start : SequenceNumber32} {r : Reception} {base maxBuffer fins : Nat}
  {b b' : TcpRxBuffer}

section

variable (h : InBounds start r base maxBuffer fins b)

include h

theorem InBounds.le_windowStart : base ≤ windowStart r := by
  have hnext := h.next
  have hsep := h.separate
  unfold windowStart
  split
  · exact hnext.1
  · rename_i first rest hdata
    rw [hdata] at hsep
    have hlo := hsep.1
    omega

theorem InBounds.windowEnd_eq (hlt : maxBuffer + fins < 2 ^ 31) :
    b.windowEnd = start.add (windowStart r + maxBuffer) := by
  have hnext := h.next
  have hsep := h.separate
  have hstop := h.stop_le
  unfold windowEnd maxRxSequence windowStart
  dsimp only
  rw [if_neg (by decide), h.represents.data, h.represents.next, h.maxBuffer]
  cases hdata : r.data with
  | nil => exact add_add _ _ _
  | cons first rest =>
    rw [hdata] at hsep hstop
    have hlo := hsep.1
    have hpos := hsep.2.1
    have hend := hstop first (.head _)
    simp only [List.map_cons, entryOf]
    rw [gt_offsets (by omega) (by omega), add_add, add_add]
    by_cases hbehind : first.start < r.next
    · rw [if_pos (decide_eq_true hbehind)]
      congr 1
      omega
    · rw [if_neg (by simpa using hbehind)]
      congr 1
      omega

theorem InBounds.inWindow (hlt : maxBuffer + fins < 2 ^ 31) : b.InWindow := by
  have hsize := h.separate.heldSize_le (Nat.le_add_right base maxBuffer) h.stop_le
  have hstart := h.le_windowStart
  refine ⟨?_, fun hfin => ?_⟩
  · rw [h.represents.size, h.maxBuffer]
    omega
  · have hmax : b.maxRxSequence = start.add (windowStart r + maxBuffer) := by
      rw [← h.windowEnd_eq hlt, windowEnd, maxRxSequence, maxRxSequence, hfin]
    have hnext := h.next_le hfin
    have hle : windowStart r ≤ r.next := by
      unfold windowStart
      split <;> omega
    have hdistance : b.maxRxSequence.distance b.nextRxSeq = windowStart r + maxBuffer - r.next := by
      rw [hmax, h.represents.next, distance_offsets (by omega) (by omega)]
    refine ⟨?_, fun socket scale => ?_, ?_⟩
    · rw [hmax, h.represents.next, le_offsets (by omega) (by omega), decide_eq_true_eq]
      omega
    · have hnonneg : 0 ≤ b.maxRxSequence.sub b.nextRxSeq := by
        apply sub_nonneg_of_pos (by decide)
        rw [← distance_eq_pos, hdistance]
        unfold halfMaxValue
        omega
      have hwindow : receiveWindow socket.advWnd b =
          .ok (b.maxRxSequence.distance b.nextRxSeq) := by
        rw [receiveWindow, hfin, nsAssert, if_pos (decide_eq_true hnonneg)]
        rfl
      unfold advertisedWindowSize
      rw [hwindow]
      exact ⟨_, rfl⟩
    · rw [hdistance, h.maxBuffer]
      omega

end

/-! ## A segment -/

variable {seq : SequenceNumber32}

section

variable (h : InBounds start r base maxBuffer fins b) (hlt : maxBuffer + fins < 2 ^ 31)

include h hlt

theorem InBounds.offsets {len : Nat} (hfits : b.FitsWindow seq len) :
    r.next ≤ windowStart r + maxBuffer ∧ ∃ off, seq = start.add off ∧
      (if seq.lt b.nextRxSeq then b.nextRxSeq else seq) = start.add (max off r.next) ∧
      off < r.next + 2 ^ 31 ∧
      ((r.next ≤ off + len ∧ off + len ≤ windowStart r + maxBuffer) ∨
        ∃ first rest, r.data = first :: rest ∧ first.start ≤ r.next ∧
          b.windowEnd.lt (seq.add len) = true) := by
  obtain ⟨⟨hend, hseq⟩, hcases⟩ := hfits
  have hnext := h.next
  have hstart := h.le_windowStart
  have hroom := h.room
  have hle : windowStart r ≤ r.next := by
    unfold windowStart
    split <;> omega
  rw [h.windowEnd_eq hlt, h.represents.next] at hend hcases
  -- a position behind what is expected is more than half a turn ahead of it
  have hbehind : ∀ x, x < r.next → r.next < x + 2 ^ 32 →
      pos (start.add r.next) (start.add x) = x + 2 ^ 32 - r.next := by
    intro x hx hx'
    have hturn := @pos_offsets start (x + 2 ^ 32) r.next (by omega) (by omega)
    rw [add_turn] at hturn
    exact hturn
  have hreach : r.next ≤ windowStart r + maxBuffer := by
    by_contra hfar
    rw [hbehind _ (by omega) (by omega)] at hend
    omega
  obtain ⟨off, rfl, hoff, hoff'⟩ := exists_offset start seq (y := r.next) (by omega)
  rw [h.represents.next] at hseq
  have hne : r.next ≠ off + 2 ^ 31 := by
    intro heq
    rw [hbehind _ (by omega) (by omega)] at hseq
    omega
  refine ⟨hreach, off, rfl, ?_, hoff', ?_⟩
  · rw [h.represents.next, lt_offsets (by omega) (by omega), ← apply_ite start.add]
    congr 1
    by_cases hlt' : off < r.next
    · rw [if_pos (decide_eq_true hlt')]
      omega
    · rw [if_neg (by simpa using hlt')]
      omega
  · rcases hcases with ⟨hlen, hpos⟩ | ⟨first, hfirst, hfirstLe, hcut⟩
    · rw [add_add, pos_offsets (y := r.next) (x := windowStart r + maxBuffer) hreach
        (by omega)] at hpos
      have hge : r.next ≤ off + len := by
        by_contra hshort
        rw [hbehind _ (by omega) (by omega)] at hpos
        omega
      rw [pos_offsets hge (by omega)] at hpos
      exact .inl ⟨hge, by omega⟩
    · rw [h.represents.data] at hfirst
      cases hdata : r.data with
      | nil =>
        rw [hdata] at hfirst
        cases hfirst
      | cons s rest =>
        rw [hdata] at hfirst
        obtain rfl : entryOf start s = first := by simpa using hfirst
        have hsep := h.separate
        have hstop := h.stop_le s (by rw [hdata]; exact .head _)
        rw [hdata] at hsep
        have hs := hsep.1
        have hpos := hsep.2.1
        rw [entryOf, le_offsets (by omega) (by omega), decide_eq_true_eq] at hfirstLe
        refine .inr ⟨s, rest, rfl, hfirstLe, ?_⟩
        rw [h.windowEnd_eq hlt]
        exact hcut

theorem InBounds.inHalf : InHalf (windowStart r) r.data := by
  have hstart := h.le_windowStart
  intro s hmem
  have hstop := h.stop_le s hmem
  refine ⟨?_, by omega⟩
  have hsep := h.separate
  unfold windowStart
  cases hdata : r.data with
  | nil =>
    rw [hdata] at hmem
    cases hmem
  | cons first rest =>
    rw [hdata] at hmem hsep
    rcases List.mem_cons.mp hmem with rfl | hin
    · exact Nat.min_le_left _ _
    · have hle := (hsep.2.2.le_of_mem hin).1
      have hfirst := start_le_stop first
      dsimp only
      omega

theorem InBounds.fitted {len : Nat} (hfits : b.FitsWindow seq len) :
    (∃ head tail, Fitted start (windowStart r) b r seq len head tail ∧
      tail ≤ windowStart r + maxBuffer ∧ (head < tail → r.next ≤ head)) ∨
    ∃ first rest, r.data = first :: rest ∧
      b.fitWindow (if seq.lt b.nextRxSeq then b.nextRxSeq else seq) (seq.add len) =
        (start.add (first.start + maxBuffer), start.add (first.start + maxBuffer)) := by
  obtain ⟨hreach, off, rfl, hhead, hoff, hcases⟩ := h.offsets hlt hfits
  have hhalf := h.inHalf hlt
  have hnext := h.next
  have hle : windowStart r ≤ r.next := by
    unfold windowStart
    split <;> omega
  rcases hcases with ⟨hge, hend⟩ | ⟨first, rest, hdata, hfirst, hcut⟩
  · by_cases hfar : ∃ first rest, r.data = first :: rest ∧
        (start.add (first.start + maxBuffer)).lt (start.add (off + len)) = true
    · obtain ⟨first, rest, hdata, hless⟩ := hfar
      refine .inr ⟨first, rest, hdata, ?_⟩
      have hwindow : windowStart r ≤ first.start := (hhalf first (by
        rw [hdata]
        exact .head _)).1
      have hbound := h.stop_le first (by rw [hdata]; exact .head _)
      have hfirstStop := start_le_stop first
      have hgap : off + len + 2 ^ 31 ≤ first.start + maxBuffer := by
        by_contra hnear
        rw [lt_offsets (by omega) (by omega), decide_eq_true_eq] at hless
        omega
      have hless' :
          (start.add (first.start + maxBuffer)).lt (start.add (max off r.next)) = true := by
        by_cases hsame : max off r.next = off + len
        · rw [hsame]
          exact hless
        · exact lt_offsets_far (by omega) (by omega)
      rw [hhead, add_add, fitWindow, h.represents.data, hdata, h.maxBuffer]
      simp only [List.map_cons, entryOf, add_add]
      rw [if_pos hless, if_pos hless']
    · refine .inl ⟨max off r.next, off + len, ⟨hhalf, ⟨hle, by omega⟩, ?_, by omega, by omega⟩,
        hend, fun _ => Nat.le_max_right _ _⟩
      rw [hhead, add_add, fitWindow, h.represents.data, h.maxBuffer]
      cases hdata : r.data with
      | nil => rfl
      | cons first rest =>
        simp only [List.map_cons, entryOf, add_add]
        rw [if_neg fun hless => hfar ⟨first, rest, hdata, hless⟩,
          lt_offsets (by omega) (by omega), if_neg (by simp only [decide_eq_true_eq]; omega)]
  · have hwindow : windowStart r = first.start := by
      rw [windowStart, hdata]
      exact Nat.min_eq_left hfirst
    rw [h.windowEnd_eq hlt, hwindow] at hcut
    refine .inl ⟨min (max off r.next) (first.start + maxBuffer), first.start + maxBuffer,
      ⟨hhalf, ⟨hle, by omega⟩, ?_, by omega, by omega⟩, by omega, by omega⟩
    rw [hhead, fitWindow, h.represents.data, hdata, h.maxBuffer]
    simp only [List.map_cons, entryOf, add_add] at hcut ⊢
    rw [if_pos hcut, lt_offsets (by omega) (by omega), ← apply_ite start.add]
    congr 2
    by_cases hover : first.start + maxBuffer < max off r.next
    · rw [if_pos (decide_eq_true hover)]
      omega
    · rw [if_neg (by simpa using hover)]
      omega

end

theorem add_refused {p : Packet} {first : ByteStretch} {rest : List ByteStretch} {edge : Nat}
    (hrep : Represents start r b) (hsep : Separate base r.data) (hdata : r.data = first :: rest)
    (hstop : ∀ s ∈ r.data, s.stop ≤ edge) (hedge : edge < first.start + 2 ^ 31)
    (hfit : b.fitWindow (if seq.lt b.nextRxSeq then b.nextRxSeq else seq) (seq.add p.length) =
    (start.add edge, start.add edge)) : b.add p seq = .ok (b, false) := by
  have hhalf : InHalf first.start r.data := by
    intro s hmem
    have hend := hstop s hmem
    refine ⟨?_, by omega⟩
    rw [hdata] at hmem hsep
    rcases List.mem_cons.mp hmem with rfl | hin
    · exact le_rfl
    · have hle := (hsep.2.2.le_of_mem hin).1
      have hfirst := start_le_stop first
      omega
  have hfirst := hstop first (by rw [hdata]; exact .head _)
  have hle := start_le_stop first
  have hlt31 := heldSize_lt_half hsep hhalf
  have htrim := @trimData_offsets start first.start edge edge r.data (heldSize r.data) hhalf
    (by omega) (by omega) le_rfl (by omega)
  rw [trim_past hstop, Nat.sub_self, Nat.zero_add, ← hrep.data, ← hrep.size] at htrim
  unfold add
  dsimp only
  rw [hfit]
  dsimp only
  rw [htrim]
  dsimp only
  rw [ge_offsets (by omega) (by omega), if_pos (by simp)]
  rfl

section

variable (h : InBounds start r base maxBuffer fins b)

include h

/-- A segment that fits the window leaves the buffer within its bounds. -/
theorem InBounds.add (hlt : maxBuffer + fins < 2 ^ 31) {p : Packet} {result : Bool}
    (hfits : b.FitsWindow seq p.length) (hadd : b.add p seq = .ok (b', result)) :
    ∃ r' base', InBounds start r' base' maxBuffer (fins + if b.gotFin then 1 else 0) b' := by
  have hnext := h.next
  have hstart := h.le_windowStart
  rcases h.fitted hlt hfits with ⟨head₀, tail₀, hfitted, hedge, hafter⟩ | ⟨first, rest, hdata, hfit⟩
  · have htrims := trims head₀ tail₀ h.separate
    obtain ⟨data, head, tail, htrim⟩ : ∃ data head tail, trim r.data head₀ tail₀ =
        (data, head, tail) := ⟨_, _, _, rfl⟩
    obtain ⟨⟨hgot, _, hmax⟩, hcases⟩ :=
      add_fitted_ok h.represents h.separate hfitted htrim h.avail hadd
    rw [htrim] at htrims
    obtain ⟨hheadLe, htailLe, hsub, hclear, _⟩ := htrims
    dsimp only at hheadLe htailLe hsub hclear
    have hsep := h.separate.sublist hsub
    have hstop : ∀ s ∈ data, s.stop ≤ base + maxBuffer := fun s hmem =>
      h.stop_le s (hsub.subset hmem)
    rcases hcases with ⟨_, _, hrep, havail⟩ | ⟨hstored, _, hlength, hrep, havail⟩
    · refine ⟨{ r with data }, base, hrep, hsep, hstop, ⟨hnext.1, ?_⟩, ?_, ?_,
        hmax.trans h.maxBuffer, h.room⟩
      · dsimp only
        omega
      · rw [hgot]
        exact h.next_le
      · rw [havail]
        exact h.avail
    · have hreach := (h.offsets hlt hfits).1
      have hafter := hafter (by omega)
      have hnew : (newStretch start seq p head tail).stop = tail := by
        rw [Stretch.stop, hlength]
        dsimp only [newStretch]
        omega
      have hnewStart : (newStretch start seq p head tail).start = head := rfl
      have hle : windowStart r ≤ r.next := by
        unfold windowStart
        split <;> omega
      have hplace : Separate (windowStart r) (place (newStretch start seq p head tail) data) := by
        apply Separate.place
        · exact hsep.raise fun s hmem => (h.inHalf hlt s (hsub.subset hmem)).1
        · omega
        · omega
        · rw [hnew]
          exact hclear
      have hstop' : ∀ s ∈ place (newStretch start seq p head tail) data,
          s.stop ≤ windowStart r + maxBuffer := by
        intro s hmem
        rcases mem_place.mp hmem with rfl | hin
        · omega
        · have hs := hstop s hin
          omega
      have hge := le_advance (place (newStretch start seq p head tail) data) r.next
      have hup := advance_le hstop' hreach
      refine ⟨_, windowStart r, hrep, ?_, ?_, ?_, fun hfin => ?_, ?_, hmax.trans h.maxBuffer, ?_⟩
      · rw [passFinIf_data]
        exact hplace
      · rw [passFinIf_data]
        exact hstop'
      · have hpass := passFinIf_next_le b start (r.accept data (newStretch start seq p head tail))
        have haccept : (r.accept data (newStretch start seq p head tail)).next =
            advance (place (newStretch start seq p head tail) data) r.next := rfl
        rw [haccept] at hpass
        exact ⟨by omega, by omega⟩
      · unfold passFinIf
        rw [hgot] at hfin
        rw [hfin]
        exact hup
      · rw [havail]
        exact Nat.mod_lt _ (by decide)
      · have hroom := h.room
        omega
  · have hbound := h.stop_le first (by rw [hdata]; exact .head _)
    have hpos := (h.separate.le_of_mem (s := first) (by rw [hdata]; exact .head _)).2
    have hlow := (h.separate.le_of_mem (s := first) (by rw [hdata]; exact .head _)).1
    have hsame := add_refused h.represents h.separate hdata
      (fun s hmem => (h.stop_le s hmem).trans (by omega)) (by omega) hfit
    rw [hsame] at hadd
    cases hadd
    exact ⟨r, base, { h with next := ⟨hnext.1, by omega⟩ }⟩

theorem InBounds.extract (hlt : maxBuffer + fins < 2 ^ 31) {maxSize : Nat} {out : Option Packet}
    (hextract : b.extract maxSize = .ok (b', out)) :
    ∃ r' base', InBounds start r' base' maxBuffer fins b' := by
  have hrep : Represents start { r with avail := b.availBytes } b :=
    ⟨h.represents.data, h.represents.next, h.represents.size⟩
  obtain ⟨_, hle, hrep', havail, hgot, _, hmax, _⟩ :=
    extract_ok hrep rfl h.separate (h.inHalf hlt) h.avail hextract
  have hdata :
      Separate base (({ r with avail := b.availBytes } : Reception).extract maxSize).1.data ∧
      (∀ s ∈ (({ r with avail := b.availBytes } : Reception).extract maxSize).1.data,
        s.stop ≤ base + maxBuffer) ∧
      (({ r with avail := b.availBytes } : Reception).extract maxSize).1.next = r.next := by
    obtain ⟨_, hsep, hends, _⟩ := takeFront_shape h.separate hle
    unfold Reception.extract
    dsimp only at hsep hends ⊢
    split
    · exact ⟨h.separate, h.stop_le, rfl⟩
    · refine ⟨hsep, fun s hmem => ?_, rfl⟩
      obtain ⟨s₀, hs₀, _, hstop⟩ := hends s hmem
      rw [hstop]
      exact h.stop_le s₀ hs₀
  obtain ⟨hsep, hstop, hnext⟩ := hdata
  have havailLe : (({ r with avail := b.availBytes } : Reception).extract maxSize).1.avail ≤
      b.availBytes := by
    unfold Reception.extract
    dsimp only
    split
    · exact le_rfl
    · exact Nat.sub_le _ _
  have havailLt := h.avail
  refine ⟨_, base, hrep', hsep, hstop, ?_, ?_, by omega, hmax.trans h.maxBuffer, h.room⟩
  · rw [hnext]
    exact h.next
  · rw [hnext, hgot]
    exact h.next_le

theorem InBounds.setFinSequence (s : SequenceNumber32) :
    ∃ r' base', InBounds start r' base' maxBuffer (fins + 1) (b.setFinSequence s) := by
  have hnext := h.next
  refine ⟨_, base, setFinSequence_ok s h.represents, ?_, ?_, ?_, fun hfin => ?_, h.avail,
    h.maxBuffer, h.room⟩
  · split
    · exact h.separate
    · exact h.separate
  · split
    · exact h.stop_le
    · exact h.stop_le
  · split
    · dsimp only [Reception.passFin]
      omega
    · omega
  · cases hfin

end

/-! ## Runs -/

inductive WindowOp where
  | add (state : TcpState) (p : Packet) (seq : SequenceNumber32)
  | extract (maxSize : Nat)
  | setFinSequence (s : SequenceNumber32)
  deriving Repr

/-- A buffer, and how many calls of `SetFinSequence`, or of `Add` after one, there were: each may
move `m_nextRxSeq`. -/
structure WindowRun where
  buffer : TcpRxBuffer
  finCalls : Nat := 0
  deriving DecidableEq, Repr

namespace WindowRun

/-- One call; `Add` is called for segments that the socket does not drop. -/
inductive Step : WindowRun → WindowOp → WindowRun → Prop where
  | add {st : WindowRun} {state : TcpState} {p : Packet} {seq : SequenceNumber32}
      {b' : TcpRxBuffer} {stored : Bool} :
      outOfRange state st.buffer seq (seq.add p.length) = false →
      st.buffer.add p seq = .ok (b', stored) →
      Step st (.add state p seq) ⟨b', st.finCalls + if st.buffer.gotFin then 1 else 0⟩
  | extract {st : WindowRun} {maxSize : Nat} {b' : TcpRxBuffer} {out : Option Packet} :
      st.buffer.extract maxSize = .ok (b', out) → Step st (.extract maxSize) ⟨b', st.finCalls⟩
  | setFinSequence {st : WindowRun} {s : SequenceNumber32} :
      Step st (.setFinSequence s) ⟨st.buffer.setFinSequence s, st.finCalls + 1⟩

/-- The call does not store a byte outside the window. -/
def Fits (st : WindowRun) : WindowOp → Prop
  | .add _ p seq => st.buffer.FitsWindow seq p.length
  | _ => True

instance (st : WindowRun) (op : WindowOp) : Decidable (st.Fits op) :=
  match op with
  | .add _ p seq => inferInstanceAs (Decidable (st.buffer.FitsWindow seq p.length))
  | .extract _ => inferInstanceAs (Decidable True)
  | .setFinSequence _ => inferInstanceAs (Decidable True)

def next (st : WindowRun) : WindowOp → Option WindowRun
  | .add state p seq =>
    if outOfRange state st.buffer seq (seq.add p.length) then none
    else
      match st.buffer.add p seq with
      | .ok (b', _) => some ⟨b', st.finCalls + if st.buffer.gotFin then 1 else 0⟩
      | .error _ => none
  | .extract maxSize =>
    match st.buffer.extract maxSize with
    | .ok (b', _) => some ⟨b', st.finCalls⟩
    | .error _ => none
  | .setFinSequence s => some ⟨st.buffer.setFinSequence s, st.finCalls + 1⟩

variable {st st' : WindowRun}

theorem next_sound {op : WindowOp} (h : next st op = some st') : Step st op st' := by
  cases op with
  | add state p seq =>
    rw [next] at h
    split at h
    · cases h
    · rename_i hrange
      split at h
      · rename_i hadd
        cases h
        exact .add (by simpa using hrange) hadd
      · cases h
  | extract maxSize =>
    rw [next] at h
    split at h
    · rename_i hextract
      cases h
      exact .extract hextract
    · cases h
  | setFinSequence s =>
    cases h
    exact .setFinSequence

def FittingStep (st : WindowRun) (op : WindowOp) (st' : WindowRun) : Prop :=
  Step st op st' ∧ st.Fits op

def initial (nextRxSeq : SequenceNumber32) (maxBuffer : Nat) : WindowRun :=
  { buffer := { nextRxSeq, maxBuffer } }

theorem inBounds_initial (nextRxSeq : SequenceNumber32) (maxBuffer : Nat) :
    InBounds nextRxSeq { next := 2 ^ 32 } (2 ^ 32) maxBuffer 0
      (initial nextRxSeq maxBuffer).buffer := by
  have hnext : nextRxSeq = nextRxSeq.add (2 ^ 32) := by
    have hturn := @add_turn nextRxSeq 0
    rw [add_zero, Nat.zero_add] at hturn
    exact hturn.symm
  exact ⟨⟨rfl, hnext, rfl⟩, trivial, fun s hmem => absurd hmem List.not_mem_nil,
    ⟨le_rfl, Nat.le_add_right _ _⟩, fun _ => Nat.le_add_right _ _, Nat.two_pow_pos 32, rfl,
    le_rfl⟩

theorem finCalls_mono {op : WindowOp} (h : Step st op st') : st.finCalls ≤ st'.finCalls := by
  cases h with
  | add _ _ => exact Nat.le_add_right _ _
  | extract _ => exact le_rfl
  | setFinSequence => exact Nat.le_succ _

/-- **Run lemma.** -/
theorem run_inBounds {ops : List WindowOp} (hrun : Run FittingStep (initial start maxBuffer) ops st)
    (hlt : maxBuffer + st.finCalls < 2 ^ 31) :
    ∃ r base, InBounds start r base maxBuffer st.finCalls st.buffer := by
  refine hrun.invariant (P := fun st => maxBuffer + st.finCalls < 2 ^ 31 →
    ∃ r base, InBounds start r base maxBuffer st.finCalls st.buffer) ?_ ?_ hlt
  · exact fun _ => ⟨_, _, inBounds_initial start maxBuffer⟩
  · rintro st op st' ih ⟨hstep, hfits⟩ hlt'
    have hmono := finCalls_mono hstep
    obtain ⟨r, base, h⟩ := ih (by omega)
    cases hstep with
    | add _ hadd => exact h.add (by omega) hfits hadd
    | extract hextract => exact h.extract (by omega) hextract
    | setFinSequence => exact h.setFinSequence _

/-- **The buffer stays within its window** in every state reached by calls that store no byte
outside it: at most `m_maxBuffer` bytes are held, and before a FIN `AdvertisedWindowSize` returns.
-/
theorem stays_in_window {start : SequenceNumber32} {maxBuffer : Nat} {ops : List WindowOp}
    {st : WindowRun} (hrun : Run FittingStep (initial start maxBuffer) ops st)
    (hlt : maxBuffer + st.finCalls < 2 ^ 31) : st.buffer.InWindow := by
  obtain ⟨r, base, h⟩ := run_inBounds hrun hlt
  exact h.inWindow hlt

/-- A run with a segment cut at the end of the window, a delivery and a FIN. -/
theorem stays_in_window_fin : ∃ st, Run FittingStep (initial (.ofNat 4294967295) 4)
      [.add .established [1, 2] (.ofNat 4294967295), .add .established [3, 4, 5] (.ofNat 1),
        .extract 3, .setFinSequence (.ofNat 4)] st ∧ st.buffer.InWindow ∧ st.buffer.size = 1 := by
  have hrun : Run FittingStep (initial (.ofNat 4294967295) 4)
      [.add .established [1, 2] (.ofNat 4294967295), .add .established [3, 4, 5] (.ofNat 1),
        .extract 3, .setFinSequence (.ofNat 4)] _ :=
    @Run.of_foldlM _ _ _ _ _ _ (fun st op => if st.Fits op then next st op else none)
      (fun st op st' h => by
        split at h
        · rename_i hfits
          exact ⟨next_sound h, hfits⟩
        · cases h) rfl
  exact ⟨_, hrun, stays_in_window hrun (by decide), rfl⟩

/-- A segment longer than the window is stored whole in an empty buffer; one beyond the window is
stored when the first stretch lies after what is expected next; and a window of half the number
space fails at once. -/
theorem overruns_window :
    (∃ st, Run Step (initial (.ofNat 0) 4) [.add .established [1, 2, 3, 4, 5, 6] (.ofNat 0)] st ∧
      st.buffer.size = 6 ∧ advertisedWindowSize {} st.buffer true = .error .assertFailed ∧
      ¬st.buffer.InWindow) ∧
    (∃ st, Run Step (initial (.ofNat 0) 10)
        [.add .established [6] (.ofNat 5), .add .established [10, 11, 12, 13, 14] (.ofNat 9),
          .add .established [1, 2, 3, 4, 5] (.ofNat 0)] st ∧
      st.buffer.size = 11 ∧ ¬st.buffer.InWindow) ∧
    advertisedWindowSize {} (initial (.ofNat 2147483648) 2147483648).buffer true =
      .error .assertFailed := by
  refine ⟨?_, ?_, rfl⟩
  · refine ⟨_, Run.of_foldlM (fun _ _ _ => next_sound) rfl, rfl, rfl, fun h => ?_⟩
    exact absurd h.1 (by decide)
  · have hrun : Run Step (initial (.ofNat 0) 10)
        [.add .established [6] (.ofNat 5), .add .established [10, 11, 12, 13, 14] (.ofNat 9),
          .add .established [1, 2, 3, 4, 5] (.ofNat 0)] _ :=
      Run.of_foldlM (fun _ _ _ => next_sound) rfl
    refine ⟨_, hrun, rfl, fun h => ?_⟩
    exact absurd h.1 (by decide)

end WindowRun

end TcpRxBuffer

end Ns3.Tcp
