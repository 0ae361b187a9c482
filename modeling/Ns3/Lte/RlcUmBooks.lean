/-
  The books of the transmission buffer of unacknowledged mode
  (LteRlcUm::DoTransmitPdcpPdu and DoNotifyTxOpportunity, src/lte/model/lte-rlc-um.cc).

  An SDU that does not fit is reported as dropped and forgotten.  An SDU that finds a head of
  line that has waited too long is reported as dropped too, but is stored all the same.
-/
import Ns3.Lte.RlcUmTransmission

namespace Ns3

namespace Lte

open Lib

variable {α : Type} {k : Nat}

namespace LteRlcUm

/-! ## The sending side -/

/-- An SDU and the time it was queued. -/
structure TxPdu (α : Type) where
  pdu : SduPacket α
  waitingSince : Time
  deriving DecidableEq, Repr

/-- `LteRlcUm`: what decides about the SDUs that are passed to it. -/
structure SendingSide (α : Type) where
  maxTxBufferSize : Nat := 10 * 1024
  enablePdcpDiscarding : Bool := true
  discardTimerMs : Nat := 0
  packetDelayBudgetMs : Nat := 65535
  txBuffer : List (TxPdu α) := []
  txBufferSize : Nat := 0
  sequenceNumber : SequenceNumber10 := .ofValue 0
  /-- the SDUs that were passed, numbered in their order; the code does not keep this -/
  passed : List (List α) := []
  /-- the SDUs that `m_txDropTrace` was called with -/
  txDropTrace : List Nat := []
  /-- the PDUs that were given to the MAC layer, with their data fields -/
  sent : List (DataField α × RlcPdu α) := []
  deriving DecidableEq, Repr

/-- What happens at the sending side. -/
inductive SendingEvent (α : Type) where
  | transmitPdcpPdu (now : Time) (p : List α)
  | notifyTxOpportunity (bytes : Nat)
  deriving DecidableEq, Repr

/-- The loop of `DoNotifyTxOpportunity`; what is given back has waited as long as before. -/
def fillTimed : List (TxPdu α) → Nat → SduPacket α → Time → Nat → Nat → DataField α →
    List (TxPdu α) × Nat × DataField α
  | txBuffer, txBufferSize, firstSegment, firstSegmentTime, nextSegmentSize, nextSegmentId,
      field =>
      if firstSegment.size = 0 || nextSegmentSize = 0 then (txBuffer, txBufferSize, field)
      else if firstSegment.size > nextSegmentSize || firstSegment.size > 2047 then
        let (newSegment, rest) := firstSegment.cut (min firstSegment.size nextSegmentSize)
        if rest.size > 0 then
          (⟨rest, firstSegmentTime⟩ :: txBuffer, wadd 32 txBufferSize rest.size,
            field.finish newSegment)
        else (txBuffer, txBufferSize, field.finish newSegment)
      else
        match txBuffer with
        | [] => ([], txBufferSize, field.finish firstSegment)
        | next :: txBuffer' =>
          if nextSegmentSize - firstSegment.size ≤ 2 then
            (next :: txBuffer', txBufferSize, field.finish firstSegment)
          else
            fillTimed txBuffer' (wsub 32 txBufferSize next.pdu.size) next.pdu next.waitingSince
              (nextSegmentSize -
                ((if nextSegmentId % 2 ≠ 0 then 2 else 1) + firstSegment.size))
              (nextSegmentId + 1) (field.add firstSegment)

namespace SendingSide

def new (maxTxBufferSize : Nat) (enablePdcpDiscarding : Bool)
    (discardTimerMs packetDelayBudgetMs : Nat) : SendingSide α :=
  { maxTxBufferSize, enablePdcpDiscarding, discardTimerMs, packetDelayBudgetMs }

def traceDrop (s : SendingSide α) : SendingSide α :=
  { s with txDropTrace := s.txDropTrace ++ [s.passed.length] }

def headOfLineDelayInMs (s : SendingSide α) (now : Time) : Nat :=
  match s.txBuffer with
  | [] => 0
  | first :: _ => ((now - first.waitingSince).tdiv 1000000 % 2 ^ 32).toNat

def discardTimer (s : SendingSide α) : Nat :=
  if s.discardTimerMs > 0 then s.discardTimerMs else s.packetDelayBudgetMs

def doTransmitPdcpPdu (s : SendingSide α) (now : Time) (p : List α) : SendingSide α :=
  let s :=
    if wadd 32 s.txBufferSize p.length ≤ s.maxTxBufferSize then
      let s :=
        if s.enablePdcpDiscarding then
          if s.headOfLineDelayInMs now > s.discardTimer then s.traceDrop else s
        else s
      { s with
        txBuffer := s.txBuffer ++ [⟨⟨s.passed.length, .fullSdu, p⟩, now⟩]
        txBufferSize := wadd 32 s.txBufferSize p.length }
    else s.traceDrop
  { s with passed := s.passed ++ [p] }

def doNotifyTxOpportunity (s : SendingSide α) (bytes : Nat) : Except Fault (SendingSide α) :=
  if bytes ≤ 2 then .ok s
  else
    match s.txBuffer with
    | [] => .ok s
    | first :: txBuffer => do
        let (txBuffer, txBufferSize, field) := fillTimed txBuffer
          (wsub 32 s.txBufferSize first.pdu.size) first.pdu first.waitingSince (bytes - 2) 1 .empty
        let framingInfo ← field.framingInfo
        let pdu : RlcPdu α := ⟨Transmission.header field s.sequenceNumber framingInfo, field.data⟩
        .ok { s with
          txBuffer, txBufferSize, sequenceNumber := s.sequenceNumber.succ
          sent := s.sent ++ [(field, pdu)] }

def step (s : SendingSide α) : SendingEvent α → Except Fault (SendingSide α)
  | .transmitPdcpPdu now p => .ok (s.doTransmitPdcpPdu now p)
  | .notifyTxOpportunity bytes => s.doNotifyTxOpportunity bytes

def pdus (s : SendingSide α) : List (SduPacket α) := s.txBuffer.map TxPdu.pdu

def segments (s : SendingSide α) : List (SduPacket α) := s.sent.flatMap fun x => x.1.segments

def sentBytes (s : SendingSide α) (k : Nat) : List α :=
  (s.segments.filter fun p => p.sdu = k).flatMap SduPacket.data

end SendingSide

def opportunities (events : List (SendingEvent α)) : Nat :=
  events.countP fun
    | .transmitPdcpPdu _ _ => false
    | .notifyTxOpportunity bytes => 2 < bytes

theorem fillTimed_erase (txBuffer : List (TxPdu α)) (size : Nat) (p : SduPacket α) (time : Time)
    (next id : Nat) (field : DataField α) :
    (⟨(fillTimed txBuffer size p time next id field).1.map TxPdu.pdu,
        (fillTimed txBuffer size p time next id field).2.1⟩,
      (fillTimed txBuffer size p time next id field).2.2) =
      fillDataField (txBuffer.map TxPdu.pdu) size p next id field := by
  induction txBuffer generalizing size p time next id field with
  | nil =>
    rw [fillTimed, List.map_nil, fillDataField]
    split
    · rfl
    split
    · dsimp only [TxQueue.giveBack]
      split <;> rfl
    · rfl
  | cons p' txBuffer ih =>
    rw [fillTimed, List.map_cons, fillDataField]
    split
    · rfl
    split
    · dsimp only [TxQueue.giveBack]
      split <;> rfl
    split
    · rfl
    · exact ih _ _ _ _ _ _

/-! ## What is stored -/

/-- The bytes of the SDUs that were not reported as dropped, numbered from `n` on. -/
def storedFrom (txDropTrace : List Nat) : List (List α) → Nat → List (Nat × α)
  | [], _ => []
  | p :: passed, n =>
    (if n ∈ txDropTrace then [] else p.map fun byte => (n, byte)) ++
      storedFrom txDropTrace passed (n + 1)

section

variable {trace trace' : List Nat} {passed passed' : List (List α)} {p : List α} {n : Nat}
  {e : Nat × α}

theorem le_of_mem_storedFrom (h : e ∈ storedFrom trace passed n) : n ≤ e.1 := by
  induction passed generalizing n with
  | nil => cases h
  | cons p passed ih =>
    rcases List.mem_append.mp h with hfirst | hrest
    · split at hfirst
      · cases hfirst
      · obtain ⟨byte, -, rfl⟩ := List.mem_map.mp hfirst
        exact Nat.le_refl n
    · exact Nat.le_of_succ_le (ih hrest)

theorem storedFrom_append : storedFrom trace (passed ++ passed') n =
    storedFrom trace passed n ++ storedFrom trace passed' (n + passed.length) := by
  induction passed generalizing n with
  | nil => rfl
  | cons p passed ih =>
    rw [List.cons_append, storedFrom, storedFrom, ih, List.append_assoc, List.length_cons,
      Nat.add_assoc, Nat.add_comm 1]

theorem storedFrom_congr (h : ∀ k < n + passed.length, k ∈ trace ↔ k ∈ trace') :
    storedFrom trace passed n = storedFrom trace' passed n := by
  induction passed generalizing n with
  | nil => rfl
  | cons p passed ih =>
    rw [List.length_cons] at h
    rw [storedFrom, storedFrom, ih fun k hk => h k (by omega)]
    simp only [h n (by omega)]

theorem filter_storedFrom (trace : List Nat) (h : passed[k]? = some p) :
    (storedFrom trace passed n).filter (fun e => e.1 = n + k) =
      if n + k ∈ trace then [] else p.map fun byte => (n + k, byte) := by
  induction passed generalizing n k with
  | nil => cases h
  | cons p' passed ih =>
    rw [storedFrom, List.filter_append]
    cases k with
    | zero =>
      cases h
      have hrest : (storedFrom trace passed (n + 1)).filter (fun e => e.1 = n + 0) = [] := by
        refine List.filter_eq_nil_iff.mpr fun e he => ?_
        have := le_of_mem_storedFrom he
        simp only [decide_eq_true_eq]
        omega
      rw [hrest, List.append_nil, Nat.add_zero]
      split
      · rfl
      · refine List.filter_eq_self.mpr fun e he => ?_
        obtain ⟨byte, -, rfl⟩ := List.mem_map.mp he
        exact decide_eq_true rfl
    | succ k =>
      have hfirst : (if n ∈ trace then [] else p'.map fun byte => (n, byte)).filter
          (fun e => e.1 = n + (k + 1)) = [] := by
        refine List.filter_eq_nil_iff.mpr fun e he => ?_
        split at he
        · cases he
        · obtain ⟨byte, -, rfl⟩ := List.mem_map.mp he
          simp only [decide_eq_true_eq]
          omega
      have hshift : n + (k + 1) = n + 1 + k := by omega
      rw [hfirst, List.nil_append, hshift]
      exact ih h

end

theorem filter_labelled (pdus : List (SduPacket α)) (k : Nat) :
    (labelled pdus).filter (fun e => e.1 = k) =
      ((pdus.filter fun p => p.sdu = k).flatMap SduPacket.data).map fun byte => (k, byte) := by
  induction pdus with
  | nil => rfl
  | cons p pdus ih =>
    rw [labelled_cons, List.filter_append, ih]
    by_cases hsdu : p.sdu = k
    · subst hsdu
      have hall : p.labelled.filter (fun e => e.1 = p.sdu) = p.labelled := by
        refine List.filter_eq_self.mpr fun e he => ?_
        obtain ⟨byte, -, rfl⟩ := List.mem_map.mp he
        exact decide_eq_true rfl
      have hcons : (p :: pdus).filter (fun q => q.sdu = p.sdu) =
          p :: pdus.filter fun q => q.sdu = p.sdu := by simp
      rw [hall, hcons, List.flatMap_cons, List.map_append]
      rfl
    · have hnone : p.labelled.filter (fun e => e.1 = k) = [] := by
        refine List.filter_eq_nil_iff.mpr fun e he => ?_
        obtain ⟨byte, -, rfl⟩ := List.mem_map.mp he
        simpa using hsdu
      rw [hnone, List.filter_cons_of_neg (by simpa using hsdu), List.nil_append]

namespace SendingSide

/-- The bytes of the SDUs that were stored. -/
def stored (s : SendingSide α) : List (Nat × α) := storedFrom s.txDropTrace s.passed 0

/-- The head of line has waited too long. -/
def Late (s : SendingSide α) (now : Time) : Prop :=
  s.enablePdcpDiscarding = true ∧ s.headOfLineDelayInMs now > s.discardTimer

/-- An SDU that passes the check on the size is not empty, does fit, and is not reported as
dropped. -/
def Kept (s : SendingSide α) : SendingEvent α → Prop
  | .transmitPdcpPdu now p => wadd 32 s.txBufferSize p.length ≤ s.maxTxBufferSize →
      p ≠ [] ∧ s.txBufferSize + p.length < 2 ^ 32 ∧ ¬s.Late now
  | .notifyTxOpportunity _ => True

def Step (s : SendingSide α) (event : SendingEvent α) (s' : SendingSide α) : Prop :=
  s.step event = .ok s'

def KeptStep (s : SendingSide α) (event : SendingEvent α) (s' : SendingSide α) : Prop :=
  s.Kept event ∧ s.Step event s'

/-- The books: what was stored was sent or waits, in its order, and the counter is right. -/
structure Books (s : SendingSide α) : Prop where
  stream : labelled s.segments ++ labelled s.pdus = s.stored
  size : s.txBufferSize = (labelled s.pdus).length
  le : s.txBufferSize ≤ s.maxTxBufferSize
  lt : s.txBufferSize < 2 ^ 32
  pos : ∀ p ∈ s.pdus, 0 < p.size
  nodup : s.txDropTrace.Nodup
  numbered : ∀ k ∈ s.txDropTrace, k < s.passed.length

/-- The books go on: nothing that was written is changed. -/
structure Continues (s s' : SendingSide α) : Prop where
  max : s'.maxTxBufferSize = s.maxTxBufferSize
  passed : s.passed <+: s'.passed
  trace : ∀ k < s.passed.length, k ∈ s'.txDropTrace ↔ k ∈ s.txDropTrace
  sent : (labelled s.segments).length ≤ (labelled s'.segments).length

section

variable {s s' s'' : SendingSide α} {event : SendingEvent α}

theorem Continues.refl (s : SendingSide α) : Continues s s :=
  ⟨rfl, List.prefix_rfl, fun _ _ => Iff.rfl, le_rfl⟩

theorem Continues.trans (h : Continues s s') (h' : Continues s' s'') : Continues s s'' :=
  ⟨h'.max.trans h.max, h.passed.trans h'.passed,
    fun k hk => (h'.trace k (hk.trans_le h.passed.length_le)).trans (h.trace k hk),
    h.sent.trans h'.sent⟩

theorem Continues.stored (h : Continues s s') : ∃ more,
    s'.stored = s.stored ++ more ∧ ∀ e ∈ more, s.passed.length ≤ e.1 := by
  obtain ⟨more, hmore⟩ := h.passed
  refine ⟨storedFrom s'.txDropTrace more s.passed.length, ?_, fun e => le_of_mem_storedFrom⟩
  rw [SendingSide.stored, ← hmore, storedFrom_append, Nat.zero_add,
    storedFrom_congr fun k hk => h.trace k (by omega)]
  rfl

/-- The books are kept, continue, and every opportunity with room for data moves them on. -/
structure Keeps (s : SendingSide α) (events : List (SendingEvent α)) (s' : SendingSide α) :
    Prop where
  books : s'.Books
  continues : Continues s s'
  progress : min s.stored.length ((labelled s.segments).length + opportunities events) ≤
    (labelled s'.segments).length

theorem books_new (maxTxBufferSize : Nat) (enablePdcpDiscarding : Bool)
    (discardTimerMs packetDelayBudgetMs : Nat) :
    (new maxTxBufferSize enablePdcpDiscarding discardTimerMs packetDelayBudgetMs :
      SendingSide α).Books :=
  ⟨rfl, rfl, Nat.zero_le _, Nat.two_pow_pos 32, List.forall_mem_nil _, .nil,
    List.forall_mem_nil _⟩

theorem stored_pass (s : SendingSide α) (p : List α) {trace : List Nat}
    (htrace : ∀ k < s.passed.length, k ∈ trace ↔ k ∈ s.txDropTrace) :
    storedFrom trace (s.passed ++ [p]) 0 = s.stored ++
      if s.passed.length ∈ trace then [] else p.map fun byte => (s.passed.length, byte) := by
  rw [storedFrom_append, Nat.zero_add, storedFrom, storedFrom, List.append_nil,
    storedFrom_congr fun k hk => htrace k (by omega)]
  rfl

theorem Books.drop (h : s.Books) (now : Time) (p : List α) :
    Keeps s [.transmitPdcpPdu now p] { s.traceDrop with passed := s.passed ++ [p] } := by
  have htrace : ∀ k < s.passed.length, k ∈ s.txDropTrace ++ [s.passed.length] ↔
      k ∈ s.txDropTrace := by
    intro k hk
    rw [List.mem_append, List.mem_singleton]
    exact or_iff_left (Nat.ne_of_lt hk)
  have hnew : s.passed.length ∉ s.txDropTrace := fun hmem => Nat.lt_irrefl _ (h.numbered _ hmem)
  have hstored : storedFrom (s.txDropTrace ++ [s.passed.length]) (s.passed ++ [p]) 0 =
      s.stored := by
    rw [s.stored_pass p htrace, if_pos (List.mem_append_right _ (.head _)),
      List.append_nil]
  refine ⟨⟨h.stream.trans hstored.symm, h.size, h.le, h.lt, h.pos, ?_, fun k hk => ?_⟩,
    ⟨rfl, List.prefix_append _ _, htrace, le_rfl⟩, Nat.min_le_right _ _⟩
  · exact h.nodup.append (List.nodup_singleton _) (List.disjoint_singleton.mpr hnew)
  · dsimp only at hk ⊢
    rw [List.length_append]
    rcases List.mem_append.mp hk with hk | hk
    · exact Nat.lt_succ_of_lt (h.numbered k hk)
    · rw [List.mem_singleton.mp hk]
      exact Nat.lt_succ_self _

variable {p : List α}

theorem Books.store (h : s.Books) (now : Time) (hne : p ≠ [])
    (hlt : s.txBufferSize + p.length < 2 ^ 32)
    (hle : s.txBufferSize + p.length ≤ s.maxTxBufferSize) :
    Keeps s [.transmitPdcpPdu now p] { s with
      txBuffer := s.txBuffer ++ [⟨⟨s.passed.length, .fullSdu, p⟩, now⟩]
      txBufferSize := s.txBufferSize + p.length
      passed := s.passed ++ [p] } := by
  have hnew : s.passed.length ∉ s.txDropTrace := fun hmem => Nat.lt_irrefl _ (h.numbered _ hmem)
  have hstored := s.stored_pass p fun k _ => (Iff.rfl : k ∈ s.txDropTrace ↔ _)
  rw [if_neg hnew] at hstored
  have hpdus : (s.txBuffer ++ [⟨⟨s.passed.length, .fullSdu, p⟩, now⟩] : List (TxPdu α)).map
      TxPdu.pdu = s.pdus ++ [⟨s.passed.length, .fullSdu, p⟩] := List.map_append
  have hlabels : labelled (s.pdus ++ [⟨s.passed.length, .fullSdu, p⟩] : List (SduPacket α)) =
      labelled s.pdus ++ p.map fun byte => (s.passed.length, byte) := by
    rw [labelled_append, labelled_cons, labelled_nil, List.append_nil]
    rfl
  refine ⟨⟨?_, ?_, hle, hlt, ?_, h.nodup, fun k hk => ?_⟩,
    ⟨rfl, List.prefix_append _ _, fun _ _ => Iff.rfl, le_rfl⟩, Nat.min_le_right _ _⟩
  · refine Eq.trans ?_ hstored.symm
    rw [SendingSide.pdus]
    dsimp only
    rw [hpdus, hlabels, ← List.append_assoc]
    exact congrArg (· ++ _) h.stream
  · rw [SendingSide.pdus]
    dsimp only
    rw [hpdus, hlabels, List.length_append, List.length_map, h.size]
  · rw [SendingSide.pdus]
    dsimp only
    rw [hpdus, List.forall_mem_append]
    exact ⟨h.pos, List.forall_mem_singleton.mpr (List.length_pos_iff.mpr hne)⟩
  · dsimp only at hk ⊢
    rw [List.length_append]
    exact Nat.lt_succ_of_lt (h.numbered k hk)

theorem Books.transmitPdcpPdu (h : s.Books) {now : Time} (hkept : s.Kept (.transmitPdcpPdu now p)) :
    Keeps s [.transmitPdcpPdu now p] (s.doTransmitPdcpPdu now p) := by
  rw [doTransmitPdcpPdu]
  by_cases hroom : wadd 32 s.txBufferSize p.length ≤ s.maxTxBufferSize
  · obtain ⟨hne, hlt, hlate⟩ := hkept hroom
    have hnot : (if s.enablePdcpDiscarding then
        if s.headOfLineDelayInMs now > s.discardTimer then s.traceDrop else s else s) = s := by
      split
      · next henabled => exact if_neg fun hdelay => hlate ⟨henabled, hdelay⟩
      · rfl
    rw [if_pos hroom, hnot]
    dsimp only
    rw [wadd_eq hlt] at hroom ⊢
    exact h.store now hne hlt hroom
  · rw [if_neg hroom]
    exact h.drop now p

variable {field : DataField α}

theorem labelled_segments {pdu : RlcPdu α} (h : s'.sent = s.sent ++ [(field, pdu)]) :
    labelled s'.segments = labelled s.segments ++ labelled field.segments := by
  rw [SendingSide.segments, h, List.flatMap_append, labelled_append, List.flatMap_singleton]
  rfl

theorem Books.send (h : s.Books) (bytes : Nat) {txBuffer : List (TxPdu α)} {size : Nat}
    (hmoved : Moved .empty s.pdus ⟨txBuffer.map TxPdu.pdu, size⟩ field) (pdu : RlcPdu α)
    (hs' : s' = { s with
      txBuffer, txBufferSize := size
      sequenceNumber := s.sequenceNumber.succ
      sent := s.sent ++ [(field, pdu)] }) : Keeps s [.notifyTxOpportunity bytes] s' := by
  obtain ⟨hbytes, hsize, hless, hpos⟩ := hmoved
  dsimp only at hbytes hsize hless hpos
  have hempty : labelled (DataField.empty : DataField α).segments = [] := rfl
  rw [hempty, List.nil_append] at hbytes
  have hlength := congrArg List.length hbytes
  rw [List.length_append] at hlength
  have hsent : labelled s'.segments = labelled s.segments ++ labelled field.segments :=
    labelled_segments (congrArg sent hs')
  have hone : opportunities [.notifyTxOpportunity bytes (α := α)] ≤ 1 := List.countP_le_length
  have hwaiting := h.size
  have hle := h.le
  have hlt := h.lt
  have hcontinues : Continues s s' := by
    refine ⟨by rw [hs'], by rw [hs'], fun _ _ => by rw [hs'], ?_⟩
    rw [hsent, List.length_append]
    exact Nat.le_add_right _ _
  refine ⟨?_, hcontinues, ?_⟩
  · have hstream : labelled s'.segments ++ labelled (txBuffer.map TxPdu.pdu) = s.stored := by
      rw [hsent, List.append_assoc, hbytes, h.stream]
    subst hs'
    exact ⟨hstream, hsize, (show size ≤ s.maxTxBufferSize by omega),
      (show size < 2 ^ 32 by omega), hpos, h.nodup, h.numbered⟩
  · refine (Nat.min_le_right _ _).trans ?_
    rw [hsent, List.length_append]
    omega

theorem Books.notifyTxOpportunity (h : s.Books) (bytes : Nat) :
    ∃ s', s.doNotifyTxOpportunity bytes = .ok s' ∧
      Keeps s [.notifyTxOpportunity bytes] s' := by
  rw [doNotifyTxOpportunity]
  by_cases hbytes : bytes ≤ 2
  · have hnone : opportunities [.notifyTxOpportunity bytes (α := α)] = 0 := by
      simp [opportunities, hbytes]
    refine ⟨s, if_pos hbytes, h, .refl s, ?_⟩
    rw [hnone]
    exact Nat.min_le_right _ _
  rw [if_neg hbytes]
  cases hbuffer : s.txBuffer with
  | nil =>
    have hstream := h.stream
    rw [SendingSide.pdus, hbuffer, List.map_nil, labelled_nil, List.append_nil] at hstream
    refine ⟨s, rfl, h, .refl s, ?_⟩
    rw [← hstream]
    exact Nat.min_le_left _ _
  | cons first txBuffer =>
    have hpdus : s.pdus = first.pdu :: txBuffer.map TxPdu.pdu := by
      rw [SendingSide.pdus, hbuffer, List.map_cons]
    have hsize := h.size
    have hpos := h.pos
    rw [hpdus] at hpos
    rw [hpdus, labelled_cons, List.length_append, SduPacket.length_labelled] at hsize
    obtain ⟨hp, hpos⟩ := List.forall_mem_cons.mp hpos
    have hlt := h.lt
    have hrest : wsub 32 s.txBufferSize first.pdu.size =
        (labelled (txBuffer.map TxPdu.pdu)).length := by
      rw [wsub_eq hlt (by omega)]
      omega
    have hmoved := fillDataField_moved .empty 1 hrest (by omega) hp hpos
      (Nat.sub_pos_of_lt (Nat.lt_of_not_le hbytes))
    rw [← fillTimed_erase _ _ _ first.waitingSince, ← hpdus] at hmoved
    dsimp only
    generalize fillTimed txBuffer (wsub 32 s.txBufferSize first.pdu.size) first.pdu
      first.waitingSince (bytes - 2) 1 .empty = filled at hmoved ⊢
    obtain ⟨txBuffer', size', field⟩ := filled
    obtain ⟨framingInfo, hframing⟩ := field.framingInfo_of_ne_nil hmoved.segments_ne_nil
    dsimp only
    rw [hframing, ok_bind]
    exact ⟨_, rfl, h.send bytes hmoved _ rfl⟩

/-- A kept event has a step, and the books stay in order. -/
theorem Books.step (h : s.Books) (hkept : s.Kept event) : ∃ s', s.Step event s' ∧
    Keeps s [event] s' := by
  cases event with
  | transmitPdcpPdu now p => exact ⟨_, rfl, h.transmitPdcpPdu hkept⟩
  | notifyTxOpportunity bytes => exact h.notifyTxOpportunity bytes

variable {events : List (SendingEvent α)}

theorem Keeps.snoc (h : Keeps s events s') (h' : Keeps s' [event] s'') :
    Keeps s (events ++ [event]) s'' := by
  refine ⟨h'.books, h.continues.trans h'.continues, ?_⟩
  obtain ⟨more, hstored, -⟩ := h.continues.stored
  have hlength := congrArg List.length hstored
  rw [List.length_append] at hlength
  have hfirst := h.progress
  have hlast := h'.progress
  have hsent := h'.continues.sent
  have hsum : opportunities (events ++ [event]) = opportunities events + opportunities [event] :=
    List.countP_append
  omega

theorem Books.run (h : s.Books) (hrun : Run KeptStep s events s') : Keeps s events s' := by
  refine hrun.invariant_trace (P := fun events t => Keeps s events t)
    ⟨h, .refl s, Nat.min_le_right _ _⟩ ?_
  rintro events t event u hkeeps ⟨hkept, hstep⟩
  obtain ⟨u', hstep', hlast⟩ := hkeeps.books.step hkept
  cases hstep.symm.trans hstep'
  exact hkeeps.snoc hlast

/-! ## What becomes of an SDU -/

theorem Books.bytes (h : s.Books) (hk : s.passed[k]? = some p) :
    (labelled s.segments).filter (fun e => e.1 = k) ++ (labelled s.pdus).filter (fun e => e.1 = k) =
      if k ∈ s.txDropTrace then [] else p.map fun byte => (k, byte) := by
  have hstored := filter_storedFrom s.txDropTrace (n := 0) hk
  rw [Nat.zero_add] at hstored
  rw [← List.filter_append, h.stream]
  exact hstored

theorem Books.sentBytes_dropped (h : s.Books) (hk : s.passed[k]? = some p)
    (hdropped : k ∈ s.txDropTrace) : s.sentBytes k = [] := by
  have hbytes := h.bytes hk
  rw [if_pos hdropped, List.append_eq_nil_iff, filter_labelled, List.map_eq_nil_iff] at hbytes
  exact hbytes.1

/-- Opportunities for all stored bytes send an SDU whole. -/
theorem Keeps.sentBytes (h : s.Books) (hkeeps : Keeps s events s') (hk : s.passed[k]? = some p)
    (hstored : k ∉ s.txDropTrace) (henough : s.txBufferSize ≤ opportunities events) :
    s'.sentBytes k = p := by
  obtain ⟨more, hmore, hlater⟩ := hkeeps.continues.stored
  have hlong : s.stored.length ≤ (labelled s'.segments).length := by
    have hprogress := hkeeps.progress
    have hlength := congrArg List.length h.stream
    have hsize := h.size
    rw [List.length_append] at hlength
    omega
  have hstream := hkeeps.books.stream
  rw [hmore] at hstream
  obtain ⟨sent, hsent⟩ : s.stored <+: labelled s'.segments :=
    List.prefix_of_prefix_length_le (List.prefix_append _ _) ⟨_, hstream⟩ hlong
  -- What was sent beyond the stored bytes is of later SDUs.
  have hbeyond : ∀ e ∈ sent, s.passed.length ≤ e.1 := by
    intro e he
    rw [← hsent, List.append_assoc] at hstream
    refine hlater e ?_
    rw [← List.append_cancel_left hstream]
    exact List.mem_append_left _ he
  have hlt : k < s.passed.length := (List.getElem?_eq_some_iff.mp hk).1
  have hnone : sent.filter (fun e => e.1 = k) = [] := by
    refine List.filter_eq_nil_iff.mpr fun e he => ?_
    have := hbeyond e he
    simp only [decide_eq_true_eq]
    omega
  have hbytes := h.bytes hk
  rw [if_neg hstored, ← List.filter_append, h.stream] at hbytes
  have hall := filter_labelled s'.segments k
  rw [← hsent, List.filter_append, hbytes, hnone, List.append_nil] at hall
  exact (List.map_injective_iff.mpr (fun _ _ heq => congrArg Prod.snd heq) hall).symm

end

/-- **The books** are honest in every run whose steps keep to them: the counter is what waits, no
step fails, and each SDU is either dropped and reported, or sent as a whole if as many opportunities
follow as bytes wait. -/
theorem books_honest {maxTxBufferSize discardTimerMs packetDelayBudgetMs : Nat}
    {enablePdcpDiscarding : Bool} {events later : List (SendingEvent α)} {s s' : SendingSide α}
    (hrun : Run KeptStep
      (new maxTxBufferSize enablePdcpDiscarding discardTimerMs packetDelayBudgetMs) events s)
    (hlater : Run KeptStep s later s') :
    s'.txBufferSize = (s'.txBuffer.map fun entry => entry.pdu.size).sum ∧
      s'.txBufferSize ≤ maxTxBufferSize ∧
      (∀ event, s'.Kept event → ∃ s'', s'.Step event s'') ∧
      ∀ k p, s.passed[k]? = some p →
        (s.txDropTrace.count k = 1 ∧ s'.txDropTrace.count k = 1 ∧ s'.sentBytes k = []) ∨
        (s.txDropTrace.count k = 0 ∧ s'.txDropTrace.count k = 0 ∧
          (s.txBufferSize ≤ opportunities later → s'.sentBytes k = p)) := by
  have hfirst := (books_new ..).run hrun
  have hkeeps := hfirst.books.run hlater
  have hbooks := hkeeps.books
  refine ⟨?_, ?_, fun event hkept => ?_, fun k p hk => ?_⟩
  · rw [hbooks.size, length_labelled, pdus, List.map_map]
    rfl
  · have hmax : s'.maxTxBufferSize = maxTxBufferSize :=
      hkeeps.continues.max.trans hfirst.continues.max
    exact hmax ▸ hbooks.le
  · obtain ⟨s'', hstep, -⟩ := hbooks.step hkept
    exact ⟨s'', hstep⟩
  · have hlt : k < s.passed.length := (List.getElem?_eq_some_iff.mp hk).1
    have htrace := hkeeps.continues.trace k hlt
    by_cases hdropped : k ∈ s.txDropTrace
    · have hk' : s'.passed[k]? = some p := by
        obtain ⟨more, hmore⟩ := hkeeps.continues.passed
        rw [← hmore, List.getElem?_append_left hlt]
        exact hk
      exact .inl ⟨List.count_eq_one_of_mem hfirst.books.nodup hdropped,
        List.count_eq_one_of_mem hbooks.nodup (htrace.mpr hdropped),
        hbooks.sentBytes_dropped hk' (htrace.mpr hdropped)⟩
    · exact .inr ⟨List.count_eq_zero.mpr hdropped,
        List.count_eq_zero.mpr fun hmem => hdropped (htrace.mp hmem),
        hkeeps.sentBytes hfirst.books hk hdropped⟩

/-- A buffer for one byte, after two SDUs of one byte. -/
def full : SendingSide Nat :=
  ((new 1 true 10 65535).doTransmitPdcpPdu 0 [1]).doTransmitPdcpPdu 5000000 [2]

/-- The first one is sent at the next opportunity, and the second one was dropped. -/
theorem books_full : ∃ s', Run Step full [.notifyTxOpportunity 100] s' ∧
    s'.sentBytes 0 = [1] ∧ full.txDropTrace.count 1 = 1 ∧ s'.sentBytes 1 = [] := by
  have hrun : Run KeptStep (new 1 true 10 65535)
      [.transmitPdcpPdu 0 [1], .transmitPdcpPdu 5000000 [2]] full := by
    refine .cons ⟨fun _ => ⟨by decide, by decide, ?_⟩, rfl⟩ (.single ⟨fun hroom => ?_, rfl⟩)
    · exact fun hlate => absurd hlate.2 (by decide)
    · exact absurd hroom (by decide)
  obtain ⟨-, -, hgo, -⟩ := books_honest hrun .nil
  obtain ⟨s', hstep⟩ := hgo (.notifyTxOpportunity 100) trivial
  have hlater : Run KeptStep full [.notifyTxOpportunity 100] s' := .single ⟨trivial, hstep⟩
  obtain ⟨-, -, -, hfates⟩ := books_honest hrun hlater
  refine ⟨s', .single hstep, ?_, ?_, ?_⟩
  · obtain ⟨hdropped, -⟩ | ⟨-, -, hsent⟩ := hfates 0 [1] rfl
    · exact absurd hdropped (by decide)
    · exact hsent (by decide)
  · decide
  · obtain ⟨-, -, hnone⟩ | ⟨hkept, -⟩ := hfates 1 [2] rfl
    · exact hnone
    · exact absurd hkept (by decide)

/-- An SDU that finds another waiting for 20 ms. -/
def late : SendingSide Nat :=
  ((new 10240 true 10 65535).doTransmitPdcpPdu 0 [1]).doTransmitPdcpPdu 20000000 [2]

/-- It is reported as dropped, and is sent. -/
theorem late_sent : ∃ s : SendingSide Nat, Run Step (new 10240 true 10 65535)
    [.transmitPdcpPdu 0 [1], .transmitPdcpPdu 20000000 [2], .notifyTxOpportunity 100] s ∧
    s.txDropTrace.count 1 = 1 ∧ s.sentBytes 1 = [2] := by
  have hsent : ((late.doNotifyTxOpportunity 100).toOption.map fun s =>
      (s.txDropTrace.count 1, s.sentBytes 1)) = some (1, [2]) := by decide +kernel
  cases hstep : late.doNotifyTxOpportunity 100 with
  | error fault =>
    rw [hstep] at hsent
    cases hsent
  | ok s =>
    rw [hstep] at hsent
    have hpair := Option.some.inj hsent
    exact ⟨s, .cons rfl (.cons rfl (.single hstep)), congrArg Prod.fst hpair,
      congrArg Prod.snd hpair⟩

end SendingSide

end LteRlcUm

end Lte

end Ns3
