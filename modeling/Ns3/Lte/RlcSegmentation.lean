/-
  The data field of a new RLC PDU
  (LteRlcUm::DoNotifyTxOpportunity, src/lte/model/lte-rlc-um.cc, and
  LteRlcAm::DoNotifyTxOpportunity, src/lte/model/lte-rlc-am.cc, which are the same here).

  SDUs are taken from the transmission buffer until the opportunity is used up.  The last one
  is cut when it does not fit, and its rest goes back to the front of the buffer.  A tag says
  which part of an SDU a segment is.
-/
import Ns3.Lib.Segmentation
import Ns3.Lib.Wrap
import Ns3.Lte.RlcHeader

namespace Ns3

namespace Lte

open Lib

/-- `SduStatus_t`, of `LteRlcSduStatusTag`. -/
inductive SduStatus where
  | fullSdu
  | firstSegment
  | middleSegment
  | lastSegment
  deriving DecidableEq, Repr

namespace SduStatus

def cut : SduStatus → SduStatus × SduStatus
  | fullSdu => (firstSegment, lastSegment)
  | lastSegment => (middleSegment, lastSegment)
  | firstSegment => (firstSegment, firstSegment)
  | middleSegment => (middleSegment, middleSegment)

/-- The status of the new segment is adjusted when nothing remains. -/
def takeWhole : SduStatus → SduStatus
  | firstSegment => fullSdu
  | middleSegment => lastSegment
  | status => status

def isFirst (status : SduStatus) : Bool := status = fullSdu || status = firstSegment

def isLast (status : SduStatus) : Bool := status = fullSdu || status = lastSegment

end SduStatus

/-- A packet with its `LteRlcSduStatusTag`, and the SDU it is taken from. -/
structure SduPacket (α : Type) where
  sdu : Nat
  status : SduStatus
  data : List α
  deriving DecidableEq, Repr

/-- The transmission buffer and the counter of its bytes. -/
structure TxQueue (α : Type) where
  pdus : List (SduPacket α)
  size : Nat
  deriving DecidableEq, Repr

/-- A data field, and what is pushed to the header for it. -/
structure DataField (α : Type) where
  segments : List (SduPacket α)
  extensionBits : List Nat
  lengthIndicators : List Nat
  deriving DecidableEq, Repr

variable {α : Type}

namespace SduPacket

/-- `GetSize`. -/
def size (p : SduPacket α) : Nat := p.data.length

/-- `CreateFragment` and `RemoveAtStart`, with the tags of both parts. -/
def cut (p : SduPacket α) (currSegmentSize : Nat) : SduPacket α × SduPacket α :=
  let newSegment : SduPacket α := ⟨p.sdu, p.status.cut.1, p.data.take currSegmentSize⟩
  let rest : SduPacket α := ⟨p.sdu, p.status.cut.2, p.data.drop currSegmentSize⟩
  if rest.size > 0 then (newSegment, rest)
  else ({ newSegment with status := newSegment.status.takeWhole }, rest)

end SduPacket

namespace TxQueue

def pushBack (q : TxQueue α) (p : SduPacket α) : TxQueue α :=
  ⟨q.pdus ++ [p], wadd 32 q.size p.size⟩

def giveBack (q : TxQueue α) (rest : SduPacket α) : TxQueue α :=
  if rest.size > 0 then ⟨rest :: q.pdus, wadd 32 q.size rest.size⟩ else q

end TxQueue

namespace DataField

def empty : DataField α := ⟨[], [], []⟩

def add (field : DataField α) (segment : SduPacket α) : DataField α :=
  { segments := field.segments ++ [segment]
    extensionBits := field.extensionBits ++ [LteRlcHeader.E_LI_FIELDS_FOLLOWS]
    lengthIndicators := field.lengthIndicators ++ [segment.size] }

def finish (field : DataField α) (segment : SduPacket α) : DataField α :=
  { field with
    segments := field.segments ++ [segment]
    extensionBits := field.extensionBits ++ [LteRlcHeader.DATA_FIELD_FOLLOWS] }

def data (field : DataField α) : List α := field.segments.flatMap SduPacket.data

def framingInfo (field : DataField α) : Except Fault Nat :=
  match field.segments.head?, field.segments.getLast? with
  | some first, some last =>
    .ok ((if first.status.isFirst then LteRlcHeader.FIRST_BYTE else LteRlcHeader.NO_FIRST_BYTE)
      ||| (if last.status.isLast then LteRlcHeader.LAST_BYTE else LteRlcHeader.NO_LAST_BYTE))
  | _, _ => .error .badIterator

end DataField

/-- The loop of `DoNotifyTxOpportunity`: the transmission buffer, its size, the segment that
comes next, the room for it and its number. -/
def fillDataField : List (SduPacket α) → Nat → SduPacket α → Nat → Nat → DataField α →
    TxQueue α × DataField α
  | txBuffer, txBufferSize, firstSegment, nextSegmentSize, nextSegmentId, field =>
    if firstSegment.size = 0 || nextSegmentSize = 0 then (⟨txBuffer, txBufferSize⟩, field)
    else if firstSegment.size > nextSegmentSize || firstSegment.size > 2047 then
      let (newSegment, rest) := firstSegment.cut (min firstSegment.size nextSegmentSize)
      (TxQueue.giveBack ⟨txBuffer, txBufferSize⟩ rest, field.finish newSegment)
    else
      match txBuffer with
      | [] => (⟨[], txBufferSize⟩, field.finish firstSegment)
      | next :: txBuffer' =>
        if nextSegmentSize - firstSegment.size ≤ 2 then
          (⟨next :: txBuffer', txBufferSize⟩, field.finish firstSegment)
        else
          fillDataField txBuffer' (wsub 32 txBufferSize next.size) next
            (nextSegmentSize -
              ((if nextSegmentId % 2 ≠ 0 then 2 else 1) + firstSegment.size))
            (nextSegmentId + 1) (field.add firstSegment)

/-! ## The stream of segments -/

variable {field : DataField α}

def SduPacket.segment (p : SduPacket α) : Segment α :=
  ⟨p.sdu, p.status.isFirst, p.status.isLast, p.data⟩

def SduPacket.Rest (p : SduPacket α) : Prop := p.status.isLast = true ∧ 0 < p.size

/-- A data field whose last segment is yet to come. -/
structure DataField.Open (field : DataField α) : Prop where
  whole : ∀ s ∈ field.segments, s.status.isLast = true
  bits : field.extensionBits = field.segments.map fun _ => LteRlcHeader.E_LI_FIELDS_FOLLOWS
  indicators : field.lengthIndicators = field.segments.map SduPacket.size

/-- A data field: the segments before the last one end their SDUs, and are marked off. -/
structure DataField.Framed (field : DataField α) (init : List (SduPacket α)) (last : SduPacket α) :
    Prop where
  segments : field.segments = init ++ [last]
  pos : 0 < last.size
  whole : ∀ s ∈ init, s.status.isLast = true
  bits : field.extensionBits =
    (init.map fun _ => LteRlcHeader.E_LI_FIELDS_FOLLOWS) ++ [LteRlcHeader.DATA_FIELD_FOLLOWS]
  indicators : field.lengthIndicators = init.map SduPacket.size

theorem DataField.Open.empty : (DataField.empty : DataField α).Open :=
  ⟨nofun, rfl, rfl⟩

theorem DataField.Open.add {s : SduPacket α} (h : field.Open) (hlast : s.status.isLast = true) :
    (field.add s).Open := by
  refine ⟨fun s' hs' => ?_, ?_, ?_⟩
  · rcases List.mem_append.mp hs' with hs' | hs'
    · exact h.whole s' hs'
    · rw [List.mem_singleton.mp hs']
      exact hlast
  · show field.extensionBits ++ _ = (field.segments ++ [s]).map _
    rw [h.bits, List.map_append, List.map_singleton]
  · show field.lengthIndicators ++ _ = (field.segments ++ [s]).map _
    rw [h.indicators, List.map_append, List.map_singleton]

theorem DataField.Open.finish {s : SduPacket α} (h : field.Open) (hpos : 0 < s.size) :
    (field.finish s).Framed field.segments s := by
  refine ⟨rfl, hpos, h.whole, ?_, h.indicators⟩
  show field.extensionBits ++ _ = _
  rw [h.bits]

section Cut

variable {items : List (List α)} {c c' e : Cursor α} {p : SduPacket α} {k : Nat}

theorem SduPacket.cut_of_pos (p : SduPacket α) (h : 0 < (p.data.drop k).length) : p.cut k =
    (⟨p.sdu, p.status.cut.1, p.data.take k⟩, ⟨p.sdu, p.status.cut.2, p.data.drop k⟩) :=
  if_pos h

theorem SduPacket.cut_of_not_pos (p : SduPacket α) (h : ¬0 < (p.data.drop k).length) : p.cut k =
    (⟨p.sdu, p.status.cut.1.takeWhole, p.data.take k⟩,
      ⟨p.sdu, p.status.cut.2, p.data.drop k⟩) :=
  if_neg h

theorem SduPacket.size_cut_pos (p : SduPacket α) (hsize : 0 < p.size) (hk : 0 < k) :
    0 < (p.cut k).1.size := by
  have htake : 0 < (p.data.take k).length := by
    rw [List.length_take]
    exact Nat.lt_min.mpr ⟨hk, hsize⟩
  by_cases hrest : 0 < (p.data.drop k).length
  · rw [p.cut_of_pos hrest]
    exact htake
  · rw [p.cut_of_not_pos hrest]
    exact htake

theorem SduPacket.cut_spec (h : c.Step items p.segment c') (hrest : p.Rest) (k : Nat) :
    ∃ mid, c.Step items (p.cut k).1.segment mid ∧
      (if (p.cut k).2.size > 0 then mid.Step items (p.cut k).2.segment c' ∧ (p.cut k).2.Rest
        else mid = c') := by
  obtain ⟨sdu, status, data⟩ := p
  obtain ⟨hlast, -⟩ := hrest
  have hcut : status.cut.1.isFirst = status.isFirst ∧ status.cut.1.isLast = false ∧
      status.cut.2.isFirst = false ∧ status.cut.2.isLast = true ∧
      status.cut.1.takeWhole.isFirst = status.isFirst ∧
      status.cut.1.takeWhole.isLast = true := by
    cases status with
    | fullSdu => decide
    | lastSegment => decide
    | firstSegment => cases hlast
    | middleSegment => cases hlast
  obtain ⟨hfirst₁, hlast₁, hfirst₂, hlast₂, hfirst₃, hlast₃⟩ := hcut
  by_cases hsize : 0 < (data.drop k).length
  · obtain ⟨mid, hnew, hrest⟩ := h.cut k
    rw [SduPacket.cut_of_pos _ hsize]
    refine ⟨mid, ?_, ?_⟩
    · show c.Step items ⟨sdu, status.cut.1.isFirst, status.cut.1.isLast, data.take k⟩ mid
      rw [hfirst₁, hlast₁]
      exact hnew
    · refine (if_pos hsize).mpr ⟨?_, hlast₂, hsize⟩
      show mid.Step items ⟨sdu, status.cut.2.isFirst, status.cut.2.isLast, data.drop k⟩ c'
      rw [hfirst₂, hlast₂, ← hlast]
      exact hrest
  · have hnil : data.drop k = [] := List.length_eq_zero_iff.mp (Nat.eq_zero_of_not_pos hsize)
    have htake : data.take k = data := by
      have := List.take_append_drop k data
      rwa [hnil, List.append_nil] at this
    rw [SduPacket.cut_of_not_pos _ hsize]
    refine ⟨c', ?_, (if_neg hsize).mpr rfl⟩
    show c.Step items ⟨sdu, status.cut.1.takeWhole.isFirst, status.cut.1.takeWhole.isLast,
      data.take k⟩ c'
    rw [hfirst₃, hlast₃, htake, ← hlast]
    exact h

/-- The packets of the transmission buffer are the stream from `c` on. -/
structure Queued (items : List (List α)) (c : Cursor α) (txBuffer : List (SduPacket α)) :
    Prop where
  stream : c.Stream items (txBuffer.map SduPacket.segment) (.stop items)
  rest : ∀ p ∈ txBuffer, p.Rest

/-- What `fillDataField` leaves: a data field that takes the stream from `c` on, and the buffer
with what follows. -/
def Filled (items : List (List α)) (c : Cursor α) (q : TxQueue α) (field : DataField α) : Prop :=
  ∃ init last c', field.Framed init last ∧
    c.Stream items (field.segments.map SduPacket.segment) c' ∧ Queued items c' q.pdus

variable {txBuffer : List (SduPacket α)}

theorem Queued.head (h : Queued items c (p :: txBuffer)) :
    p.Rest ∧ ∃ c', c.Step items p.segment c' ∧ Queued items c' txBuffer := by
  obtain ⟨c', hstep, hrest⟩ := h.stream.cons_inv
  exact ⟨h.rest p (.head _), c', hstep, hrest,
    fun p' hp' => h.rest p' (.tail _ hp')⟩

theorem Queued.cons (h : Queued items c' txBuffer) (hstep : c.Step items p.segment c')
    (hrest : p.Rest) : Queued items c (p :: txBuffer) := by
  refine ⟨.cons hstep h.stream, fun p' hp' => ?_⟩
  rcases List.mem_cons.mp hp' with rfl | hp'
  · exact hrest
  · exact h.rest p' hp'

section

variable {start : Cursor α} (hopen : field.Open)
  (hstream : start.Stream items (field.segments.map SduPacket.segment) c)

include hopen hstream

theorem Filled.finish {size : Nat} (hstep : c.Step items p.segment c') (hpos : 0 < p.size)
    (hq : Queued items c' txBuffer) : Filled items start ⟨txBuffer, size⟩ (field.finish p) := by
  refine ⟨_, _, c', hopen.finish hpos, ?_, hq⟩
  show start.Stream items ((field.segments ++ [p]).map _) c'
  rw [List.map_append]
  exact .snoc hstream hstep

theorem Filled.cut {size : Nat} (hstep : c.Step items p.segment c') (hrest : p.Rest)
    (hq : Queued items c' txBuffer) (hk : 0 < k) :
    Filled items start (TxQueue.giveBack ⟨txBuffer, size⟩ (p.cut k).2)
      (field.finish (p.cut k).1) := by
  have hpos := p.size_cut_pos hrest.2 hk
  obtain ⟨mid, hnew, hback⟩ := SduPacket.cut_spec hstep hrest k
  rw [TxQueue.giveBack]
  by_cases hsize : (p.cut k).2.size > 0
  · rw [if_pos hsize] at hback ⊢
    exact .finish hopen hstream hnew hpos (hq.cons hback.1 hback.2)
  · rw [if_neg hsize] at hback ⊢
    exact .finish hopen hstream hnew hpos (hback ▸ hq)

theorem fillDataField_spec {size next id : Nat} (hq : Queued items c (p :: txBuffer))
    (hnext : 0 < next) :
    Filled items start (fillDataField txBuffer size p next id field).1
      (fillDataField txBuffer size p next id field).2 := by
  induction txBuffer generalizing size next id field c p with
  | nil =>
    obtain ⟨hrest, c', hstep, htail⟩ := hq.head
    have hgo : ¬(p.size = 0 || next = 0) = true := by
      have := hrest.2
      simp only [Bool.or_eq_true, decide_eq_true_eq]
      omega
    have hcut : 0 < min p.size next := Nat.lt_min.mpr ⟨hrest.2, hnext⟩
    rw [fillDataField, if_neg hgo]
    split
    · exact .cut hopen hstream hstep hrest htail hcut
    · exact .finish hopen hstream hstep hrest.2 htail
  | cons p' txBuffer ih =>
    obtain ⟨hrest, c', hstep, htail⟩ := hq.head
    have hgo : ¬(p.size = 0 || next = 0) = true := by
      have := hrest.2
      simp only [Bool.or_eq_true, decide_eq_true_eq]
      omega
    have hcut : 0 < min p.size next := Nat.lt_min.mpr ⟨hrest.2, hnext⟩
    rw [fillDataField, if_neg hgo]
    split
    · exact .cut hopen hstream hstep hrest htail hcut
    split
    · exact .finish hopen hstream hstep hrest.2 htail
    · -- the header of the next segment takes one or two bytes, and more than two are left
      next hroom =>
      refine ih (hopen.add hrest.1) ?_ htail ?_
      · show start.Stream items ((field.segments ++ [p]).map _) c'
        rw [List.map_append]
        exact .snoc hstream hstep
      · split <;> omega

end

end Cut

theorem DataField.Framed.framingInfo_eq {init : List (SduPacket α)} {last : SduPacket α}
    (h : field.Framed init last) {first : SduPacket α}
    (hfirst : field.segments.head? = some first) :
    field.framingInfo = .ok
      ((if first.status.isFirst then LteRlcHeader.FIRST_BYTE else LteRlcHeader.NO_FIRST_BYTE) |||
        (if last.status.isLast then LteRlcHeader.LAST_BYTE
          else LteRlcHeader.NO_LAST_BYTE)) := by
  have hlast : field.segments.getLast? = some last := by
    rw [h.segments, List.getLast?_concat]
  rw [DataField.framingInfo, hfirst, hlast]

/-! ## The bytes of a queue -/

def SduPacket.labelled (p : SduPacket α) : List (Nat × α) := p.data.map fun byte => (p.sdu, byte)

def labelled (pdus : List (SduPacket α)) : List (Nat × α) := pdus.flatMap SduPacket.labelled

/-- Bytes are moved from the front of a queue to a data field: none is lost, the order is kept,
and the counter of the queue is right. -/
structure Moved (field : DataField α) (pdus : List (SduPacket α)) (q : TxQueue α)
    (field' : DataField α) : Prop where
  bytes : labelled field'.segments ++ labelled q.pdus = labelled field.segments ++ labelled pdus
  size : q.size = (labelled q.pdus).length
  less : (labelled q.pdus).length < (labelled pdus).length
  pos : ∀ s ∈ q.pdus, 0 < s.size

section

variable {field' : DataField α} {p : SduPacket α} {txBuffer : List (SduPacket α)}
  {q : TxQueue α} {size k : Nat}

theorem SduPacket.length_labelled (p : SduPacket α) : p.labelled.length = p.size :=
  List.length_map _

@[simp] theorem labelled_nil : labelled ([] : List (SduPacket α)) = [] := rfl

@[simp] theorem labelled_cons : labelled (p :: txBuffer) = p.labelled ++ labelled txBuffer :=
  List.flatMap_cons

@[simp] theorem labelled_append (pdus pdus' : List (SduPacket α)) :
    labelled (pdus ++ pdus') = labelled pdus ++ labelled pdus' :=
  List.flatMap_append

theorem length_labelled (pdus : List (SduPacket α)) :
    (labelled pdus).length = (pdus.map SduPacket.size).sum := by
  rw [labelled, List.length_flatMap]
  exact congrArg List.sum (List.map_congr_left fun p _ => p.length_labelled)

@[simp] theorem labelled_finish (field : DataField α) (p : SduPacket α) :
    labelled (field.finish p).segments = labelled field.segments ++ p.labelled := by
  simp [DataField.finish]

@[simp] theorem labelled_add (field : DataField α) (p : SduPacket α) :
    labelled (field.add p).segments = labelled field.segments ++ p.labelled := by
  simp [DataField.add]

theorem SduPacket.labelled_cut (p : SduPacket α) (k : Nat) :
    (p.cut k).1.labelled ++ (p.cut k).2.labelled = p.labelled := by
  have hparts : (p.data.take k).map (fun byte => (p.sdu, byte)) ++
      (p.data.drop k).map (fun byte => (p.sdu, byte)) = p.labelled := by
    rw [← List.map_append, List.take_append_drop]
    rfl
  by_cases hrest : 0 < (p.data.drop k).length
  · rw [p.cut_of_pos hrest]
    exact hparts
  · rw [p.cut_of_not_pos hrest]
    exact hparts

theorem Moved.finish (hsize : size = (labelled txBuffer).length) (hp : 0 < p.size)
    (hpos : ∀ s ∈ txBuffer, 0 < s.size) :
    Moved field (p :: txBuffer) ⟨txBuffer, size⟩ (field.finish p) := by
  refine ⟨by simp, hsize, ?_, hpos⟩
  rw [labelled_cons, List.length_append, p.length_labelled]
  exact Nat.lt_add_of_pos_left hp

theorem Moved.cut (hsize : size = (labelled txBuffer).length) (hlt : size + p.size < 2 ^ 32)
    (hp : 0 < p.size) (hpos : ∀ s ∈ txBuffer, 0 < s.size) (hk : 0 < k) :
    Moved field (p :: txBuffer) (TxQueue.giveBack ⟨txBuffer, size⟩ (p.cut k).2)
      (field.finish (p.cut k).1) := by
  have hparts := p.labelled_cut k
  have hlength := congrArg List.length hparts
  rw [List.length_append, SduPacket.length_labelled, SduPacket.length_labelled,
    SduPacket.length_labelled] at hlength
  have hcut := p.size_cut_pos hp hk
  rw [TxQueue.giveBack]
  by_cases hrest : (p.cut k).2.size > 0
  · rw [if_pos hrest]
    refine ⟨?_, ?_, ?_, List.forall_mem_cons.mpr ⟨hrest, hpos⟩⟩
    · simp [← hparts]
    · rw [labelled_cons, List.length_append, SduPacket.length_labelled, ← hsize]
      rw [wadd_eq (by dsimp only; omega), Nat.add_comm]
    · rw [labelled_cons, labelled_cons, List.length_append, List.length_append,
        SduPacket.length_labelled, SduPacket.length_labelled]
      dsimp only
      omega
  · have hnone : (p.cut k).2.labelled = [] :=
      List.length_eq_zero_iff.mp ((SduPacket.length_labelled _).trans (by omega))
    rw [hnone, List.append_nil] at hparts
    rw [if_neg hrest]
    refine ⟨by simp [hparts], hsize, ?_, hpos⟩
    rw [labelled_cons, List.length_append, p.length_labelled]
    exact Nat.lt_add_of_pos_left hp

theorem Moved.segments_ne_nil (h : Moved .empty txBuffer q field') : field'.segments ≠ [] := by
  intro hnil
  have hbytes := h.bytes
  rw [hnil, DataField.empty, labelled_nil, List.nil_append, List.nil_append] at hbytes
  exact Nat.lt_irrefl _ (hbytes ▸ h.less)

theorem fillDataField_moved (field : DataField α) (id : Nat) {next : Nat}
    (hsize : size = (labelled txBuffer).length)
    (hlt : size + p.size < 2 ^ 32) (hp : 0 < p.size) (hpos : ∀ s ∈ txBuffer, 0 < s.size)
    (hnext : 0 < next) :
    Moved field (p :: txBuffer) (fillDataField txBuffer size p next id field).1
      (fillDataField txBuffer size p next id field).2 := by
  have hcut : 0 < min p.size next := Nat.lt_min.mpr ⟨hp, hnext⟩
  induction txBuffer generalizing size next id field p with
  | nil =>
    have hgo : ¬(p.size = 0 || next = 0) = true := by
      simp only [Bool.or_eq_true, decide_eq_true_eq]
      omega
    rw [fillDataField, if_neg hgo]
    split
    · exact .cut hsize hlt hp hpos hcut
    · exact .finish hsize hp hpos
  | cons p' txBuffer ih =>
    have hgo : ¬(p.size = 0 || next = 0) = true := by
      simp only [Bool.or_eq_true, decide_eq_true_eq]
      omega
    rw [fillDataField, if_neg hgo]
    split
    · exact .cut hsize hlt hp hpos hcut
    split
    · exact .finish hsize hp hpos
    · next hroom =>
        obtain ⟨hp', hpos'⟩ := List.forall_mem_cons.mp hpos
        rw [labelled_cons, List.length_append, p'.length_labelled] at hsize
        have hrest : wsub 32 size p'.size = (labelled txBuffer).length := by
          rw [wsub_eq (by omega) (by omega)]
          omega
        have hnext' : 0 < next - ((if id % 2 ≠ 0 then 2 else 1) + p.size) := by
          split <;> omega
        have hmore := ih (field.add p) (id + 1) hrest (by omega) hp' hpos' hnext'
          (Nat.lt_min.mpr ⟨hp', hnext'⟩)
        refine ⟨?_, hmore.size, ?_, hmore.pos⟩
        · rw [hmore.bytes, labelled_add, labelled_cons (p := p), List.append_assoc]
        · rw [labelled_cons (p := p), List.length_append]
          exact hmore.less.trans_le (Nat.le_add_left _ _)

end

theorem DataField.framingInfo_of_ne_nil (field : DataField α) (h : field.segments ≠ []) :
    ∃ framingInfo, field.framingInfo = .ok framingInfo := by
  rw [DataField.framingInfo, List.head?_eq_some_head h, List.getLast?_eq_some_getLast h]
  exact ⟨_, rfl⟩

end Lte

end Ns3
