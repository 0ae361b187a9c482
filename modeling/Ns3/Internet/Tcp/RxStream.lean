/-
  The reception buffer delivers the peer's stream.

  Segments of one stream arrive in any order, overlapping or repeated, and data is
  taken out in between.  What is taken out is the stream in order; what is buffered
  are disjoint stretches of it, and the next sequence number is the end of what has
  arrived without a gap.
-/
import Ns3.Internet.Tcp.RxOffsets
import Ns3.Lib.Run

namespace Ns3.Tcp

open Ns3.Lib SequenceNumber

/-- A call on the reception buffer. -/
inductive RxOp where
  | add (off : Nat) (p : Packet)
  | extract (maxSize : Nat)
  deriving Repr

/-- The segment carries the bytes of the stream at its offset. -/
def RxOp.Carries (f : Nat → UInt8) : RxOp → Prop
  | .add off p => p = slice f off p.length
  | .extract _ => True

/-- A buffer, what it has delivered and what it has received: the parts `[g.1, g.2)` of
the stream. -/
structure RxRun where
  buffer : TcpRxBuffer
  delivered : Packet := []
  received : List (Nat × Nat) := []

namespace RxRun

def Received (st : RxRun) (k : Nat) : Prop := ∃ g ∈ st.received, g.1 ≤ k ∧ k < g.2

/-- Where a segment that ends at `stop` is cut: bytes at or beyond
`m_data.begin()->first + m_maxBuffer` are outside the window.  The offset of a key is
found from that of the first byte not delivered, `base`. -/
def edge (st : RxRun) (start : SequenceNumber32) (base stop : Nat) : Nat :=
  match st.buffer.data with
  | [] => stop
  | first :: _ => min stop (base + pos (start.add base) first.1 + st.buffer.maxBuffer)

/-- The segment, what was received before it and what is to be delivered next lie in a
window of `width`. -/
def Within (st : RxRun) (width base off len : Nat) : Prop :=
  (base ≤ min off base + width ∧ off + len ≤ min off base + width) ∧
    ∀ g ∈ st.received, g.2 ≤ min off base + width

instance (st : RxRun) (width base off len : Nat) : Decidable (st.Within width base off len) :=
  inferInstanceAs (Decidable ((_ ∧ _) ∧ ∀ g ∈ st.received, _))

/-- One call.  Segments are numbered from `start` on, and the delivery begins at the
offset `first`. -/
inductive Receives (start : SequenceNumber32) (first width : Nat) :
    RxRun → RxOp → RxRun → Prop where
  | add {st : RxRun} {off : Nat} {p : Packet} {b' : TcpRxBuffer} {stored : Bool} :
      st.Within width (first + st.delivered.length) off p.length →
      st.buffer.add p (start.add off) = .ok (b', stored) →
      Receives start first width st (.add off p)
        { st with
          buffer := b'
          received :=
            (off, st.edge start (first + st.delivered.length) (off + p.length)) :: st.received }
  | extract {st : RxRun} {maxSize : Nat} {b' : TcpRxBuffer} {out : Option Packet} :
      st.buffer.extract maxSize = .ok (b', out) →
      Receives start first width st (.extract maxSize)
        { st with buffer := b', delivered := st.delivered ++ out.getD [] }

/-- `Receives` as a computation. -/
def next (start : SequenceNumber32) (first width : Nat) (st : RxRun) : RxOp → Option RxRun
  | .add off p =>
    if st.Within width (first + st.delivered.length) off p.length then
      match st.buffer.add p (start.add off) with
      | .ok (b', _) => some { st with
          buffer := b'
          received :=
            (off, st.edge start (first + st.delivered.length) (off + p.length)) :: st.received }
      | .error _ => none
    else none
  | .extract maxSize =>
    match st.buffer.extract maxSize with
    | .ok (b', out) => some { st with buffer := b', delivered := st.delivered ++ out.getD [] }
    | .error _ => none

theorem next_sound {start : SequenceNumber32} {first width : Nat} {st st' : RxRun} {op : RxOp}
    (h : next start first width st op = some st') : Receives start first width st op st' := by
  cases op with
  | add off p =>
    rw [next] at h
    split at h
    · rename_i hwithin
      split at h
      · rename_i hadd
        cases h
        exact .add hwithin hadd
      · cases h
    · cases h
  | extract maxSize =>
    rw [next] at h
    split at h
    · rename_i hextract
      cases h
      exact .extract hextract
    · cases h

/-! ## The invariant -/

variable {b' : TcpRxBuffer}

/-- The buffer stands for the stretches of `r`, which with the bytes delivered are those received. -/
structure Holds (start : SequenceNumber32) (first width maxBuffer : Nat)
    (r : Reception) (st : RxRun) : Prop where
  represents : TcpRxBuffer.Represents start r st.buffer
  sound : r.Sound (first + st.delivered.length)
  avail : st.buffer.availBytes = r.avail
  reach : ∀ k, Held r.data k → k < first + st.delivered.length + width
  gotFin : st.buffer.gotFin = false
  maxBuffer : st.buffer.maxBuffer = maxBuffer
  received : ∀ k, first ≤ k →
    ((k < first + st.delivered.length ∨ Held r.data k) ↔ st.Received k)

variable {start : SequenceNumber32} {first width maxBuffer : Nat}
  {r : Reception} {st st' : RxRun} {op : RxOp}

section

variable (h : Holds start first width maxBuffer r st)

include h

theorem Holds.inHalf (hwidth : width < 2 ^ 31) : InHalf (first + st.delivered.length) r.data := by
  intro s hmem
  obtain ⟨hle, hlt⟩ := h.sound.separate.le_of_mem hmem
  have hlast := h.reach (s.stop - 1) ⟨s, hmem, by omega, by omega⟩
  exact ⟨hle, by omega⟩

theorem Holds.avail_le : r.avail ≤ width := by
  have hnext := h.sound.next
  by_contra hfar
  have hlast := h.reach (r.next - 1) (h.sound.contiguous _ (by omega) (by omega))
  omega

theorem Holds.lt_edge (hwidth : width < 2 ^ 31) (stop k : Nat) :
    k < st.edge start (first + st.delivered.length) stop ↔
      (k < stop ∧ Reception.Open maxBuffer r.data k) := by
  have hhalf := h.inHalf hwidth
  unfold edge Reception.Open
  rw [h.represents.data, h.maxBuffer]
  cases hdata : r.data with
  | nil => simp
  | cons s rest =>
    rw [hdata] at hhalf
    obtain ⟨⟨hle, hlt⟩, _⟩ := inHalf_cons.mp hhalf
    have hstop := start_le_stop s
    have hpos : pos (start.add (first + st.delivered.length)) (start.add s.start) =
        s.start - (first + st.delivered.length) := by
      rw [← distance_eq_pos, distance_offsets hle (by omega)]
    simp only [List.map_cons, entryOf, List.head?_cons, Option.mem_some_iff, forall_eq', hpos]
    omega

theorem Holds.compares (hwidth : width < 2 ^ 31) (hbuffer : width + maxBuffer ≤ 2 ^ 31)
    {off len : Nat} (hwithin : st.Within width (first + st.delivered.length) off len) :
    TcpRxBuffer.Compares (min off (first + st.delivered.length)) maxBuffer r off len := by
  obtain ⟨⟨hbase, hseg⟩, hall⟩ := hwithin
  have hreach : ∀ k, Held r.data k → k < min off (first + st.delivered.length) + width := by
    intro k hin
    have hle := h.sound.separate.le_of_held hin
    obtain ⟨g, hmem, hg⟩ := (h.received k (by omega)).mp (.inr hin)
    have hall := hall g hmem
    omega
  have hstop : ∀ s ∈ r.data, first + st.delivered.length ≤ s.start ∧ s.start < s.stop ∧
      s.stop ≤ min off (first + st.delivered.length) + width := by
    intro s hmem
    obtain ⟨hle, hlt⟩ := h.sound.separate.le_of_mem hmem
    have hlast := hreach (s.stop - 1) ⟨s, hmem, by omega, by omega⟩
    exact ⟨hle, hlt, by omega⟩
  have hnext := h.sound.next
  refine ⟨fun s hmem => ?_, ⟨by omega, ?_⟩, ⟨by omega, by omega⟩, fun s hmem => ?_⟩
  · have hs := hstop s hmem
    exact ⟨by omega, by omega⟩
  · by_cases hzero : r.avail = 0
    · omega
    · have hlast := hreach (r.next - 1) (h.sound.contiguous _ (by omega) (by omega))
      omega
  · have hs := hstop s (List.mem_of_mem_head? hmem)
    omega

end

theorem received_cons {g : Nat × Nat} {k : Nat} :
    Received { st with buffer := b', received := g :: st.received } k ↔
      (g.1 ≤ k ∧ k < g.2) ∨ st.Received k :=
  List.exists_mem_cons_iff _ _ _

section

variable (h : Holds start first width maxBuffer r st) (hwidth : width < 2 ^ 31)

include h hwidth

theorem Holds.add (hbuffer : width + maxBuffer ≤ 2 ^ 31) {off : Nat} {p : Packet} {stored : Bool}
    (hwithin : st.Within width (first + st.delivered.length) off p.length)
    (hadd : st.buffer.add p (start.add off) = .ok (b', stored)) :
    Holds start first width maxBuffer (r.add maxBuffer p off).1
      { st with
        buffer := b'
        received :=
          (off, st.edge start (first + st.delivered.length) (off + p.length)) :: st.received } := by
  have hmax := h.maxBuffer
  have havailLt := h.avail_le
  obtain ⟨_, hrep, havail, hgot, _, hmax'⟩ := TcpRxBuffer.add_ok h.represents h.sound.separate
    (by rw [hmax]; exact h.compares hwidth hbuffer hwithin) (by rw [h.avail]; omega) hadd
  have hsame : TcpRxBuffer.passFinIf st.buffer start (r.add maxBuffer p off).1 =
      (r.add maxBuffer p off).1 := by
    unfold TcpRxBuffer.passFinIf
    rw [h.gotFin]
    rfl
  rw [hmax, hsame, ite_self] at hrep
  rw [hmax, h.avail] at havail
  obtain ⟨hsound, hheld⟩ := @Reception.Sound.add maxBuffer _ _ off p h.sound
  have hreach : ∀ k, Held (r.add maxBuffer p off).1.data k →
      k < first + st.delivered.length + width := by
    intro k hk
    rcases (hheld k (hsound.separate.le_of_held hk)).mp hk with hin | hin
    · exact h.reach k hin
    · have hsegment := hwithin.1.2
      omega
  refine ⟨hrep, hsound, ?_, hreach, hgot.trans h.gotFin, hmax'.trans hmax, fun k hk => ?_⟩
  · have hmono := Reception.le_next_add maxBuffer off r p
    have hnext := h.sound.next
    have hnext' := hsound.next
    have hfar : (r.add maxBuffer p off).1.avail ≤ width := by
      by_contra hfar
      have hlast := hreach _ (hsound.contiguous ((r.add maxBuffer p off).1.next - 1) (by omega)
        (by omega))
      omega
    rw [havail, Nat.mod_eq_of_lt (by omega)]
    omega
  · rw [received_cons, h.lt_edge hwidth, ← h.received k hk]
    dsimp only
    by_cases hbehind : k < first + st.delivered.length
    · exact ⟨fun _ => .inr (.inl hbehind), fun _ => .inl hbehind⟩
    · rw [hheld k (by omega)]
      tauto

variable {out : Option Packet}

theorem Holds.extract_eq {maxSize : Nat} (hextract : st.buffer.extract maxSize = .ok (b', out)) :
    out = (r.extract maxSize).2 ∧ TcpRxBuffer.Represents start (r.extract maxSize).1 b' ∧
      b'.availBytes = (r.extract maxSize).1.avail ∧ b'.gotFin = false ∧
      b'.maxBuffer = maxBuffer ∧ b'.sackList = st.buffer.sackList := by
  have havailLt := h.avail_le
  obtain ⟨hout, _, hrep, havail, hgot, _, hmax, hsack⟩ := TcpRxBuffer.extract_ok h.represents
    h.avail h.sound.separate (h.inHalf hwidth) (by rw [h.avail]; omega) hextract
  exact ⟨hout, hrep, havail, hgot.trans h.gotFin, hmax.trans h.maxBuffer, hsack⟩

theorem Holds.extract {maxSize : Nat} (hextract : st.buffer.extract maxSize = .ok (b', out)) :
    Holds start first width maxBuffer (r.extract maxSize).1
      { st with buffer := b', delivered := st.delivered ++ out.getD [] } := by
  obtain ⟨rfl, hrep, havail, hgot, hmax, _⟩ := h.extract_eq hwidth hextract
  obtain ⟨hsound, hnext, hheld, _⟩ := h.sound.extract maxSize
  have hlen : (st.delivered ++ (r.extract maxSize).2.getD []).length =
      st.delivered.length + min maxSize r.avail := by
    rw [List.length_append, h.sound.length_extract]
  constructor
  · exact hrep
  · dsimp only
    rw [hlen, ← Nat.add_assoc]
    exact hsound
  · exact havail
  · intro k hk
    have hold := h.reach k ((hheld k).mp hk).1
    dsimp only
    omega
  · exact hgot
  · exact hmax
  · intro k hk
    have hreceived : Received
        { st with buffer := b', delivered := st.delivered ++ (r.extract maxSize).2.getD [] } k ↔
        st.Received k := Iff.rfl
    rw [hreceived, ← h.received k hk]
    dsimp only
    rw [hlen, hheld k]
    -- what is taken out was contiguous
    have hnext := h.sound.next
    constructor
    · rintro (hlt | hin)
      · by_cases hold : k < first + st.delivered.length
        · exact .inl hold
        · exact .inr (h.sound.contiguous k (by omega) (by omega))
      · exact .inr hin.1
    · rintro (hlt | hin)
      · exact .inl (by omega)
      · by_cases hnew : k < first + (st.delivered.length + min maxSize r.avail)
        · exact .inl hnew
        · exact .inr ⟨hin, by omega⟩

end

/-! ## The bytes -/

/-- What was delivered and what is held are bytes of the stream. -/
def Intact (f : Nat → UInt8) (first : Nat) (r : Reception) (st : RxRun) : Prop :=
  st.delivered = slice f first st.delivered.length ∧ r.Faithful f

theorem Holds.intact_step {f : Nat → UInt8} (h : Holds start first width maxBuffer r st)
    (hintact : Intact f first r st) (hwidth : width < 2 ^ 31)
    (hbuffer : width + maxBuffer ≤ 2 ^ 31) (hcarries : op.Carries f)
    (hstep : Receives start first width st op st') :
    ∃ r', Holds start first width maxBuffer r' st' ∧ Intact f first r' st' := by
  obtain ⟨hdelivered, hfaithful⟩ := hintact
  cases hstep with
  | @add off p b' stored hwithin hadd =>
    refine ⟨_, h.add hwidth hbuffer hwithin hadd, hdelivered, ?_⟩
    have hp : p = slice f off p.length := hcarries
    rw [hp]
    exact hfaithful.add h.sound.separate
  | @extract maxSize b' out hextract =>
    refine ⟨_, h.extract hwidth hextract, ?_⟩
    obtain ⟨rfl, _⟩ := h.extract_eq hwidth hextract
    obtain ⟨_, _, _, hbytes⟩ := h.sound.extract maxSize
    obtain ⟨hfaithful', hout⟩ := hbytes f hfaithful
    refine ⟨?_, hfaithful'⟩
    dsimp only
    rw [hout, List.length_append, length_slice, slice_add, ← hdelivered]

/-! ## Runs -/

/-- An empty buffer that expects the byte at the offset `first`. -/
def initial (start : SequenceNumber32) (first maxBuffer : Nat) : RxRun :=
  { buffer := { nextRxSeq := start.add first, maxBuffer } }

theorem holds_initial : Holds start first width maxBuffer { next := first }
    (initial start first maxBuffer) := by
  refine ⟨⟨rfl, rfl, rfl⟩, Reception.sound_empty first, rfl,
    fun k hk => absurd hk (not_held_nil k), rfl, rfl, fun k hk => ?_⟩
  constructor
  · rintro (hlt | hin)
    · exact absurd hlt (Nat.not_lt.mpr hk)
    · exact absurd hin (not_held_nil k)
  · rintro ⟨g, hmem, _⟩
    cases hmem

/-- **Run lemma.** -/
theorem run_intact {f : Nat → UInt8} {ops : List RxOp} (hwidth : width < 2 ^ 31)
    (hbuffer : width + maxBuffer ≤ 2 ^ 31) (hcarries : ∀ op ∈ ops, op.Carries f)
    (hrun : Run (Receives start first width) (initial start first maxBuffer) ops st) :
    ∃ r, Holds start first width maxBuffer r st ∧ Intact f first r st := by
  refine hrun.invariant_trace (P := fun ops st => (∀ op ∈ ops, op.Carries f) →
    ∃ r, Holds start first width maxBuffer r st ∧ Intact f first r st) ?_ ?_ hcarries
  · exact fun _ => ⟨_, holds_initial, rfl, List.forall_mem_nil _⟩
  · intro ops st op st' ih hstep hall
    obtain ⟨r, h, hintact⟩ := ih fun op hmem => hall op (List.mem_append_left _ hmem)
    exact h.intact_step hintact hwidth hbuffer
      (hall op (List.mem_append_right _ (.head _))) hstep

/-- **The buffer delivers exactly the peer's stream** in every run of segments of a stream within a
window; `m_data` holds disjoint stretches of it, the counters are their sums, and `m_nextRxSeq` is
the end of the longest prefix received. -/
theorem delivers_stream {f : Nat → UInt8} {ops : List RxOp} (hwidth : width < 2 ^ 31)
    (hbuffer : width + maxBuffer ≤ 2 ^ 31) (hcarries : ∀ op ∈ ops, op.Carries f)
    (hrun : Run (Receives start first width) (initial start first maxBuffer) ops st) :
    st.delivered = slice f first st.delivered.length ∧
    ∃ (l : List ByteStretch) (next : Nat), st.buffer.data = l.map (entryOf start) ∧
      Separate (first + st.delivered.length) l ∧ (∀ s ∈ l, s.Of f) ∧
      st.buffer.size = heldSize l ∧ st.buffer.nextRxSeq = start.add next ∧
      st.buffer.availBytes = heldBelow next l ∧ first + st.delivered.length ≤ next ∧
      (∀ k, first ≤ k → k < next → st.Received k) ∧ ¬st.Received next := by
  obtain ⟨r, h, hdelivered, hfaithful⟩ := run_intact hwidth hbuffer hcarries hrun
  have hnext := h.sound.next
  have hbelow := h.sound.separate.heldBelow h.sound.contiguous
  refine ⟨hdelivered, r.data, r.next, h.represents.data, h.sound.separate, hfaithful,
    h.represents.size, h.represents.next, ?_, by omega, fun k hk hlt => ?_, fun hin => ?_⟩
  · rw [h.avail, hbelow]
    omega
  · apply (h.received k hk).mp
    by_cases hold : k < first + st.delivered.length
    · exact .inl hold
    · exact .inr (h.sound.contiguous k (by omega) hlt)
  · rcases (h.received r.next (by omega)).mpr hin with hlt | hheld
    · omega
    · exact h.sound.gap hheld

/-- A run across the end of the number space: the second segment first, then one that
overlaps it. -/
theorem delivers_stream_overlapping : ∃ st : RxRun,
    Run (Receives (.ofNat 4294967294) 0 8) (initial (.ofNat 4294967294) 0 100)
      [.add 3 [3, 4], .extract 4, .add 0 [0, 1, 2, 3], .extract 4] st ∧
    st.delivered = slice (fun k => .ofNat k) 0 st.delivered.length ∧
    st.delivered = [0, 1, 2, 3] := by
  refine Run.exists_of_foldlM (fun _ _ _ => next_sound) rfl fun hrun =>
    ⟨(delivers_stream (by decide) (by decide) ?_ hrun).1, rfl⟩
  simp only [List.forall_mem_cons, RxOp.Carries]
  exact ⟨rfl, trivial, rfl, trivial, List.forall_mem_nil _⟩

def receiveAll (f : Nat → UInt8) (start : SequenceNumber32) (maxBuffer : Nat)
    (segments : List (Nat × Nat)) : Except Fault TcpRxBuffer :=
  segments.foldlM (fun b g => (b.add (slice f g.1 g.2) (start.add g.1)).map Prod.fst)
    { nextRxSeq := start, maxBuffer }

/-- Segments of two and eight bytes leave `m_nextRxSeq` at the fourth byte of a buffer of four; with
`2 ^ 31 - 1` bytes the first byte is not stored when one further on has arrived before it. -/
theorem delivers_stream_window :
    (receiveAll (fun _ => 0) (.ofNat 0) 4 [(0, 2), (2, 8)]).map (·.nextRxSeq) =
      .ok (.ofNat 4) ∧
    (receiveAll (fun _ => 0) (.ofNat 0) 2147483647 [(100, 1), (0, 1)]).map (·.nextRxSeq) =
      .ok (.ofNat 0) ∧
    ¬∀ (f : Nat → UInt8) (start : SequenceNumber32) (maxBuffer : Nat) (segments : List (Nat × Nat))
      (b : TcpRxBuffer) (n : Nat), receiveAll f start maxBuffer segments = .ok b →
      (∀ g ∈ segments, g.1 + g.2 < 2 ^ 31) →
      (∀ k, k < n → ∃ g ∈ segments, g.1 ≤ k ∧ k < g.1 + g.2) →
      (¬∃ g ∈ segments, g.1 ≤ n ∧ n < g.1 + g.2) → b.nextRxSeq = start.add n := by
  refine ⟨rfl, rfl, fun h => ?_⟩
  have hnext := h (fun _ => 0) (.ofNat 0) 4 [(0, 2), (2, 8)] _ 10 rfl (by decide) ?_ (by decide)
  · revert hnext
    decide
  · intro k hk
    by_cases hfirst : k < 2
    · exact ⟨(0, 2), by decide, by dsimp only; omega⟩
    · exact ⟨(2, 8), by decide, by dsimp only; omega⟩

end RxRun

end Ns3.Tcp
