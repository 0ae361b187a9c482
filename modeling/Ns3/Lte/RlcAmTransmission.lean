/-
  The sending side of acknowledged mode
  (LteRlcAm::DoTransmitPdcpPdu, DoNotifyTxOpportunity, DoReceivePdu for STATUS PDUs and
  ExpirePollRetransmitTimer, src/lte/model/lte-rlc-am.cc).

  A PDU that has been sent stays in the transmitted buffer until it is acknowledged, or moves
  to the retransmission buffer and back.  Both have one place for each sequence number, and a
  counter that is adjusted by hand.
-/
import Ns3.Lib.Slots
import Ns3.Lte.RlcAmHeader
import Ns3.Lte.RlcSegmentation

namespace Ns3

namespace Lte

open Lib

namespace LteRlcAm

def windowSize : Nat := 512

def pollPdu : Nat := 1

def pollByte : Nat := 50

/-- Where PDUs lie by their sequence number: `m_txedBuffer` or `m_retxBuffer`, with its size. -/
abbrev PduSlots (α : Type) : Type := Slots (AmPdu α)

def storePdu {α : Type} (s : PduSlots α) (seqNumber : Nat) (pdu : AmPdu α) : PduSlots α :=
  s.store AmPdu.size 32 seqNumber pdu

def removePdu {α : Type} (s : PduSlots α) (seqNumber : Nat) (pdu : AmPdu α) : PduSlots α :=
  s.remove AmPdu.size 32 seqNumber pdu

/-- The sending side of `LteRlcAm`, the SDUs it has accepted, the data fields it has built and
how often `VT(A)` has been incremented. -/
structure Transmission (α : Type) where
  maxTxBufferSize : Nat
  txOpportunityForRetxAlwaysBigEnough : Bool
  txonBuffer : TxQueue α
  txedBuffer : PduSlots α
  retxBuffer : PduSlots α
  vtA : SequenceNumber10
  vtMs : SequenceNumber10
  vtS : SequenceNumber10
  pollSn : SequenceNumber10
  pduWithoutPoll : Nat
  byteWithoutPoll : Nat
  pollRetransmitTimerJustExpired : Bool
  pollRetransmitTimer : Bool
  accepted : List (List α)
  built : List (DataField α)
  passed : Nat

variable {α : Type}

namespace Transmission

/-- The constructor, with the two attributes that matter. -/
def new (maxTxBufferSize : Nat) (txOpportunityForRetxAlwaysBigEnough : Bool) : Transmission α :=
  { maxTxBufferSize
    txOpportunityForRetxAlwaysBigEnough
    txonBuffer := ⟨[], 0⟩
    txedBuffer := .empty
    retxBuffer := .empty
    vtA := .ofValue 0
    vtMs := (SequenceNumber10.ofValue 0).add windowSize
    vtS := .ofValue 0
    pollSn := .ofValue 0
    pduWithoutPoll := 0
    byteWithoutPoll := 0
    pollRetransmitTimerJustExpired := false
    pollRetransmitTimer := false
    accepted := []
    built := []
    passed := 0 }

/-- `DoTransmitPdcpPdu`: an SDU that does not fit the buffer is dropped. -/
def doTransmitPdcpPdu (tx : Transmission α) (p : List α) : Transmission α :=
  if wadd 32 tx.txonBuffer.size p.length ≤ tx.maxTxBufferSize || tx.maxTxBufferSize = 0 then
    { tx with
      txonBuffer := tx.txonBuffer.pushBack ⟨tx.accepted.length, .fullSdu, p⟩
      accepted := tx.accepted ++ [p] }
  else tx

/-- The polling bit of a PDU that is sent: what is changed when it is set. -/
def poll (tx : Transmission α) (requested : Bool) : Transmission α :=
  if requested then
    { tx with
      pollRetransmitTimerJustExpired := false
      pduWithoutPoll := 0
      byteWithoutPoll := 0
      pollSn := tx.vtS.sub 1
      pollRetransmitTimer := true }
  else tx

open LteRlcAmHeader in
def pollingBit (requested : Bool) : Nat :=
  if requested then STATUS_REPORT_IS_REQUESTED else STATUS_REPORT_NOT_REQUESTED

/-! ## Retransmission -/

/-- The first number from `sn` on below `VT(S)` that is in the retransmission buffer. -/
def findRetx (tx : Transmission α) :
    Nat → SequenceNumber10 → Except Fault (Option (Nat × AmPdu α))
  | 0, _ => .error .noProgress
  | fuel + 1, sn => do
      if ← sn.lt tx.vtS then
        match tx.retxBuffer.slot sn.value with
        | some pdu => pure (some (sn.value, pdu))
        | none => findRetx tx fuel sn.succ
      else pure none

/-- The PDU returns to the transmitted buffer, with a new polling bit. -/
def sendRetx (tx : Transmission α) (seqNumber : Nat) (pdu : AmPdu α) (stalled : Bool) :
    Transmission α × AmPdu α :=
  let requested := (tx.txonBuffer.pdus.isEmpty && tx.retxBuffer.size = pdu.size) || stalled ||
    tx.pollRetransmitTimerJustExpired
  let tx := tx.poll requested
  ({ tx with
      txedBuffer := storePdu tx.txedBuffer seqNumber pdu
      retxBuffer := removePdu tx.retxBuffer seqNumber pdu },
    { pdu with header := pdu.header.setPollingBit (pollingBit requested) })

/-- The first PDU of the retransmission buffer, if the opportunity holds it. -/
def retransmit (tx : Transmission α) (bytes : Nat) :
    Except Fault (Transmission α × Option (AmPdu α)) := do
  nsAssert (← tx.vtA.lt tx.vtS)
  match ← tx.findRetx 1025 tx.vtA with
  | none => .error .assertFailed
  | some (seqNumber, pdu) =>
    if pdu.size ≤ bytes || tx.txOpportunityForRetxAlwaysBigEnough then do
      let stalled ← tx.vtS.ge tx.vtMs
      let (tx, sent) := tx.sendRetx seqNumber pdu stalled
      pure (tx, some sent)
    else pure (tx, none)

/-! ## New PDUs -/

def header (field : DataField α) (sequenceNumber : SequenceNumber10) (framingInfo : Nat)
    (requested : Bool) : LteRlcAmHeader :=
  let rlcAmHeader := field.extensionBits.foldl LteRlcAmHeader.pushExtensionBit .dataPdu
  let rlcAmHeader := field.lengthIndicators.foldl LteRlcAmHeader.pushLengthIndicator rlcAmHeader
  let rlcAmHeader := rlcAmHeader.setSequenceNumber sequenceNumber
  let rlcAmHeader := rlcAmHeader.setResegmentationFlag LteRlcAmHeader.PDU
  (rlcAmHeader.setFramingInfo framingInfo).setPollingBit (pollingBit requested)

def sendNew (tx : Transmission α) (field : DataField α) (sn : SequenceNumber10)
    (framingInfo : Nat) (stalled : Bool) : Transmission α × AmPdu α :=
  let tx := { tx with
    pduWithoutPoll := wadd 32 tx.pduWithoutPoll 1
    byteWithoutPoll := wadd 32 tx.byteWithoutPoll field.data.length }
  let requested := tx.pduWithoutPoll ≥ pollPdu || tx.byteWithoutPoll ≥ pollByte ||
    (tx.txonBuffer.pdus.isEmpty && tx.retxBuffer.size = 0) || stalled ||
    tx.pollRetransmitTimerJustExpired
  let tx := tx.poll requested
  let pdu : AmPdu α := ⟨header field sn framingInfo requested, field.data, tx.built.length⟩
  ({ tx with
      txedBuffer := storePdu tx.txedBuffer sn.value pdu
      built := tx.built ++ [field] },
    pdu)

/-- A new PDU takes as many segments as the opportunity holds. -/
def transmitNew (tx : Transmission α) (bytes : Nat) :
    Except Fault (Transmission α × Option (AmPdu α)) :=
  match tx.txonBuffer.pdus with
  | [] => .ok (tx, none)
  | firstSegment :: txonBuffer => do
      let (txonBuffer, field) := fillDataField txonBuffer
        (wsub 32 tx.txonBuffer.size firstSegment.size) firstSegment (bytes - 4) 1 .empty
      let sn := tx.vtS
      let tx := { tx with txonBuffer, vtS := tx.vtS.succ }
      nsAssert (← sn.lt tx.vtMs)
      nsAssert (← sn.ge tx.vtA)
      let framingInfo ← field.framingInfo
      let stalled ← tx.vtS.ge tx.vtMs
      let (tx, pdu) := tx.sendNew field sn framingInfo stalled
      pure (tx, some pdu)

/-- `DoNotifyTxOpportunity`, without the STATUS PDU: retransmissions first. -/
def doNotifyTxOpportunity (tx : Transmission α) (bytes : Nat) :
    Except Fault (Transmission α × Option (AmPdu α)) :=
  if tx.retxBuffer.size > 0 then tx.retransmit bytes
  else if tx.txonBuffer.size > 0 then do
    nsAssert (7 ≤ bytes)
    nsAssert (← tx.vtS.le tx.vtMs)
    if tx.vtS.value = tx.vtMs.value then pure (tx, none) else tx.transmitNew bytes
  else .ok (tx, none)

/-! ## STATUS PDUs -/

def moveToRetx (tx : Transmission α) (seqNumber : Nat) : Transmission α :=
  match tx.txedBuffer.slot seqNumber with
  | some pdu =>
    { tx with
      retxBuffer := storePdu tx.retxBuffer seqNumber pdu
      txedBuffer := removePdu tx.txedBuffer seqNumber pdu }
  | none => tx

/-- A PDU is not acknowledged. -/
def nack (tx : Transmission α) (seqNumber : Nat) : Except Fault (Transmission α) := do
  let tx := tx.moveToRetx seqNumber
  nsAssert (tx.retxBuffer.slot seqNumber).isSome
  pure tx

def ackTxed (tx : Transmission α) (seqNumber : Nat) : Except Fault (Transmission α) :=
  match tx.txedBuffer.slot seqNumber with
  | some pdu => do
      nsAssert (tx.retxBuffer.slot seqNumber).isNone
      pure { tx with txedBuffer := removePdu tx.txedBuffer seqNumber pdu }
  | none => .ok tx

/-- A PDU is acknowledged: it leaves the retransmission buffer. -/
def ackRetx (tx : Transmission α) (seqNumber : Nat) : Transmission α :=
  match tx.retxBuffer.slot seqNumber with
  | some pdu => { tx with retxBuffer := removePdu tx.retxBuffer seqNumber pdu }
  | none => tx

/-- The lower edge of the window moves on, and the other numbers with it. -/
def incrementVtA (tx : Transmission α) : Transmission α :=
  let vtA := tx.vtA.succ
  { tx with
    vtA := vtA.setModulusBase vtA
    vtMs := (vtA.add windowSize).setModulusBase vtA
    vtS := tx.vtS.setModulusBase vtA
    passed := tx.passed + 1 }

def cancelPoll (tx : Transmission α) (seqNumber : Nat) : Transmission α :=
  if tx.pollRetransmitTimer && seqNumber = tx.pollSn.value then
    { tx with pollRetransmitTimer := false }
  else tx

/-- What the loop over a STATUS PDU works on. -/
structure StatusLoop (α : Type) where
  tx : Transmission α
  sn : SequenceNumber10
  ackSn : SequenceNumber10
  incrementVtA : Bool

def reportSn (status : AmStatus) (l : StatusLoop α) : Except Fault (StatusLoop α) := do
  let tx := l.tx.cancelPoll l.sn.value
  if status.isNackPresent l.sn then
    let tx ← tx.nack l.sn.value
    pure { l with tx, incrementVtA := false }
  else
    let tx ← tx.ackTxed l.sn.value
    let tx := tx.ackRetx l.sn.value
    if l.incrementVtA then
      let tx := tx.incrementVtA
      pure { l with
        tx := tx, sn := l.sn.setModulusBase tx.vtA, ackSn := l.ackSn.setModulusBase tx.vtA }
    else pure { l with tx }

/-- The loop over `VT(A) <= sn < ACK_SN`, which meets `ACK_SN` after 1023 steps at the latest. -/
def statusLoop (status : AmStatus) : Nat → StatusLoop α → Except Fault (Transmission α)
  | 0, _ => .error .noProgress
  | fuel + 1, l => do
      let more ← if ← l.sn.lt l.ackSn then l.sn.lt l.tx.vtS else pure false
      if more then
        let l ← reportSn status l
        statusLoop status fuel { l with sn := l.sn.succ }
      else pure l.tx

/-- `DoReceivePdu`, of a STATUS PDU. -/
def receiveStatus (tx : Transmission α) (status : AmStatus) : Except Fault (Transmission α) :=
  let tx := { tx with
    vtA := tx.vtA.setModulusBase tx.vtA
    vtS := tx.vtS.setModulusBase tx.vtA
    vtMs := tx.vtMs.setModulusBase tx.vtA }
  statusLoop status 1024
    { tx, sn := tx.vtA, ackSn := status.ackSn.setModulusBase tx.vtA, incrementVtA := true }

/-! ## The poll retransmit timer -/

/-- The loop that moves everything to the retransmission buffer. -/
def moveLoop : Nat → SequenceNumber10 → Transmission α → Except Fault (Transmission α)
  | 0, _, _ => .error .noProgress
  | fuel + 1, sn, tx => do
      if ← sn.lt tx.vtS then moveLoop fuel sn.succ (tx.moveToRetx sn.value) else pure tx

def expirePollRetransmitTimer (tx : Transmission α) : Except Fault (Transmission α) := do
  let tx := { tx with pollRetransmitTimerJustExpired := true, pollRetransmitTimer := false }
  nsAssert (← tx.vtS.le tx.vtMs)
  if (tx.txonBuffer.size = 0 && tx.retxBuffer.size = 0) || tx.vtS.value = tx.vtMs.value then
    moveLoop 1025 tx.vtA tx
  else pure tx

/-! ## The books -/

variable {status : AmStatus}

/-- The PDU is one of those built and not yet passed, its place is told by its number, and it
has the bytes that were built. -/
structure Owns (passed : Nat) (built : List (DataField α)) (place : Nat) (pdu : AmPdu α) :
    Prop where
  place_eq : place = pdu.number % 1024
  passed_le : passed ≤ pdu.number
  built : ∃ field, built[pdu.number]? = some field ∧ pdu.data = field.data

/-- The counters are right, and the numbers stand for what was passed and built. -/
structure Books (tx : Transmission α) : Prop where
  txon : tx.txonBuffer.size = (labelled tx.txonBuffer.pdus).length
  txon_lt : tx.txonBuffer.size < 2 ^ 32
  txon_pos : ∀ s ∈ tx.txonBuffer.pdus, 0 < s.size
  shared : Slots.Shared AmPdu.size 32 1024 (Owns tx.passed tx.built) tx.txedBuffer tx.retxBuffer
  passed_le : tx.passed ≤ tx.built.length
  window : tx.built.length ≤ tx.passed + windowSize
  vtA : tx.vtA.At tx.passed tx.passed
  vtS : tx.vtS.At tx.passed tx.built.length
  vtMs : tx.vtMs.At tx.passed (tx.passed + windowSize)

variable {tx tx' : Transmission α} {sn : SequenceNumber10} {n i : Nat} {pdu : AmPdu α}
  {built : List (DataField α)}

theorem Owns.lt {passed : Nat} (h : Owns passed built i pdu) : pdu.number < built.length := by
  obtain ⟨field, hfield, -⟩ := h.built
  exact (List.getElem?_eq_some_iff.mp hfield).1

theorem books_new (maxTxBufferSize : Nat) (txOpportunityForRetxAlwaysBigEnough : Bool) :
    (new maxTxBufferSize txOpportunityForRetxAlwaysBigEnough : Transmission α).Books where
  txon := rfl
  txon_lt := Nat.two_pow_pos 32
  txon_pos := List.forall_mem_nil _
  shared := ⟨.empty, .empty, fun _ => .inl rfl, fun _ _ h => by rcases h with h | h <;> cases h⟩
  passed_le := le_rfl
  window := Nat.zero_le _
  vtA := ⟨rfl, rfl⟩
  vtS := ⟨rfl, rfl⟩
  vtMs := ⟨rfl, rfl⟩

theorem Books.lt_vtS (h : tx.Books) (hsn : sn.At tx.passed n) (hle : tx.passed ≤ n)
    (hn : n ≤ tx.built.length) : sn.lt tx.vtS = .ok (decide (n < tx.built.length)) := by
  have hbuilt := h.passed_le
  have hwindow : tx.built.length ≤ tx.passed + 512 := h.window
  rw [hsn.lt h.vtS (by omega) (by omega) (by omega) (by omega)]
  exact congrArg _ (decide_eq_decide.mpr Int.ofNat_lt)

theorem Books.value_eq (hsn : sn.At tx.passed n) : sn.value = n % 1024 := by
  have hvalue := hsn.value
  omega

section

variable (h : tx.Books)

include h

theorem Books.of_shared {txed retx : PduSlots α}
    (hshared : Slots.Shared AmPdu.size 32 1024 (Owns tx.passed tx.built) txed retx) :
    Books { tx with txedBuffer := txed, retxBuffer := retx } :=
  { h with shared := hshared }

theorem Books.transmitPdcpPdu {p : List α} (hne : p ≠ [])
    (hlt : tx.txonBuffer.size + p.length < 2 ^ 32) : (tx.doTransmitPdcpPdu p).Books := by
  rw [doTransmitPdcpPdu]
  split
  · refine { h with txon := ?_, txon_lt := wadd_lt 32 _ _, txon_pos := ?_ }
    · rw [TxQueue.pushBack]
      dsimp only
      rw [labelled_append, labelled_cons, labelled_nil, List.append_nil, List.length_append,
        SduPacket.length_labelled, ← h.txon]
      exact wadd_eq hlt
    · exact List.forall_mem_append.mpr
        ⟨h.txon_pos, List.forall_mem_singleton.mpr (List.length_pos_iff.mpr hne)⟩
  · exact h

theorem Books.poll (requested : Bool) : (tx.poll requested).Books := by
  rw [Transmission.poll]
  split
  · exact { h with }
  · exact h

theorem Books.findRetx {fuel : Nat} (hsn : sn.At tx.passed n) (hle : tx.passed ≤ n)
    (hn : n ≤ tx.built.length) (hfuel : tx.built.length < n + fuel) :
    ∃ found, tx.findRetx fuel sn = .ok found ∧
      (∀ place pdu, found = some (place, pdu) → tx.retxBuffer.slot place = some pdu) ∧
      (found = none → ∀ m, n ≤ m → m < tx.built.length →
        tx.retxBuffer.slot (m % 1024) = none) := by
  induction fuel generalizing sn n with
  | zero => omega
  | succ fuel ih =>
    rw [Transmission.findRetx, h.lt_vtS hsn hle hn, ok_bind]
    by_cases hlt : n < tx.built.length
    · rw [if_pos (decide_eq_true hlt), Books.value_eq hsn]
      cases hslot : tx.retxBuffer.slot (n % 1024) with
      | some pdu =>
        refine ⟨_, rfl, ?_, nofun⟩
        rintro place pdu' ⟨⟩
        exact hslot
      | none =>
        obtain ⟨found, hfound, hsome, hnone⟩ := ih (n := n + 1) hsn.succ (by omega) hlt (by omega)
        refine ⟨found, hfound, hsome, fun hrest m hm hbuilt => ?_⟩
        rcases Nat.eq_or_lt_of_le hm with rfl | hm
        · exact hslot
        · exact hnone hrest m hm hbuilt
    · rw [if_neg (by simpa using hlt)]
      exact ⟨none, rfl, nofun, fun _ m hm hbuilt => absurd (hm.trans_lt hbuilt) hlt⟩

theorem Books.ge_vtMs : ∃ stalled, tx.vtS.ge tx.vtMs = .ok stalled := by
  have hbuilt := h.passed_le
  have hwindow : tx.built.length ≤ tx.passed + 512 := h.window
  have hsize : windowSize = 512 := rfl
  exact ⟨_, h.vtS.ge h.vtMs (by omega) (by omega) (by omega) (by omega)⟩

theorem Books.sendRetx (hslot : tx.retxBuffer.slot i = some pdu) (stalled : Bool) :
    (tx.sendRetx i pdu stalled).1.Books := by
  have hpoll := h.poll ((tx.txonBuffer.pdus.isEmpty && tx.retxBuffer.size = pdu.size) || stalled ||
    tx.pollRetransmitTimerJustExpired)
  refine hpoll.of_shared (hpoll.shared.symm.move ?_).symm
  rw [Transmission.poll]
  split <;> exact hslot

theorem Books.retransmit (hpos : 0 < tx.retxBuffer.size) (bytes : Nat) :
    ∃ tx' pdu, tx.retransmit bytes = .ok (tx', pdu) ∧ tx'.Books := by
  obtain ⟨i, pdu, hslot⟩ := h.shared.counted'.occupied hpos
  obtain ⟨-, howns⟩ := h.shared.stored i pdu (.inr hslot)
  have hlt := howns.passed_le.trans_lt howns.lt
  have hfuel : tx.built.length < tx.passed + 1025 :=
    h.window.trans_lt (Nat.add_lt_add_left (by decide) _)
  obtain ⟨found, hfound, hsome, hnone⟩ := h.findRetx h.vtA le_rfl h.passed_le hfuel
  obtain ⟨stalled, hstalled⟩ := h.ge_vtMs
  rw [Transmission.retransmit, h.lt_vtS h.vtA le_rfl h.passed_le, ok_bind, nsAssert_of hlt,
    ok_bind, hfound, ok_bind]
  cases found with
  | none =>
    have hfree := hnone rfl _ howns.passed_le howns.lt
    rw [← howns.place_eq, hslot] at hfree
    cases hfree
  | some found =>
    obtain ⟨seqNumber, sent⟩ := found
    dsimp only
    split
    · rw [hstalled]
      exact ⟨_, _, rfl, h.sendRetx (hsome _ _ rfl) stalled⟩
    · exact ⟨tx, none, rfl, h⟩

theorem Books.free (hlt : tx.built.length < tx.passed + windowSize) :
    tx.txedBuffer.slot (tx.built.length % 1024) = none ∧
      tx.retxBuffer.slot (tx.built.length % 1024) = none := by
  have hsize : windowSize = 512 := rfl
  have hfree : ∀ pdu, ¬(tx.txedBuffer.slot (tx.built.length % 1024) = some pdu ∨
      tx.retxBuffer.slot (tx.built.length % 1024) = some pdu) := by
    intro pdu hpdu
    obtain ⟨-, howns⟩ := h.shared.stored _ pdu hpdu
    have hplace := howns.place_eq
    have hle := howns.passed_le
    have hbuilt := howns.lt
    omega
  exact ⟨Option.eq_none_iff_forall_ne_some.mpr fun pdu hpdu => hfree pdu (.inl hpdu),
    Option.eq_none_iff_forall_ne_some.mpr fun pdu hpdu => hfree pdu (.inr hpdu)⟩

end

theorem Owns.grow {passed : Nat} (h : Owns passed built i pdu) (field : DataField α) :
    Owns passed (built ++ [field]) i pdu := by
  obtain ⟨field', hfield, hdata⟩ := h.built
  exact ⟨h.place_eq, h.passed_le, field', List.getElem?_append_left h.lt ▸ hfield, hdata⟩

theorem Books.sendNew (h : tx.Books) (hlt : tx.built.length < tx.passed + windowSize)
    {q : TxQueue α} (hsize : q.size = (labelled q.pdus).length) (hq : q.size < 2 ^ 32)
    (hpos : ∀ s ∈ q.pdus, 0 < s.size) (field : DataField α) (framingInfo : Nat) (stalled : Bool) :
    (sendNew { tx with txonBuffer := q, vtS := tx.vtS.succ } field tx.vtS framingInfo
      stalled).1.Books := by
  obtain ⟨htxed, hretx⟩ := h.free hlt
  have hbuilt : (tx.built ++ [field]).length = tx.built.length + 1 := List.length_append
  have hpassed := h.passed_le
  have hstored (pdu : AmPdu α) (hnumber : pdu.number = tx.built.length)
      (hdata : pdu.data = field.data) : Slots.Shared AmPdu.size 32 1024
      (Owns tx.passed (tx.built ++ [field])) (storePdu tx.txedBuffer tx.vtS.value pdu)
      tx.retxBuffer := by
    rw [Books.value_eq h.vtS]
    refine (h.shared.mono fun i pdu _ howns => howns.grow field).store
      (Nat.mod_lt _ (by decide)) htxed hretx ⟨by rw [hnumber], by rw [hnumber]; exact h.passed_le,
        field, ?_, hdata⟩
    rw [hnumber]
    exact List.getElem?_concat_length
  have hvtS := h.vtS.succ
  rw [Transmission.sendNew, Transmission.poll]
  dsimp only
  split <;>
  · refine ⟨‹_›, hq, hpos, hstored _ rfl rfl, ?_, ?_, h.vtA, ?_, h.vtMs⟩
    · dsimp only
      omega
    · dsimp only
      omega
    · dsimp only
      rw [hbuilt]
      exact hvtS

variable {bytes : Nat}

theorem Books.transmitNew (h : tx.Books) (hlt : tx.built.length < tx.passed + windowSize)
    (hbytes : 7 ≤ bytes) : ∃ tx' pdu, tx.transmitNew bytes = .ok (tx', pdu) ∧ tx'.Books := by
  rw [Transmission.transmitNew]
  have hsize := h.txon
  have hpos := h.txon_pos
  cases hpdus : tx.txonBuffer.pdus with
  | nil => exact ⟨tx, none, rfl, h⟩
  | cons first rest =>
    rw [hpdus, labelled_cons, List.length_append, SduPacket.length_labelled] at hsize
    rw [hpdus] at hpos
    obtain ⟨hp, hpos⟩ := List.forall_mem_cons.mp hpos
    have htxon := h.txon_lt
    have hrest : wsub 32 tx.txonBuffer.size first.size = (labelled rest).length := by
      rw [wsub_eq htxon (by omega)]
      omega
    have hmoved := fillDataField_moved .empty 1 hrest (by omega) hp hpos
      (by omega : 0 < bytes - 4)
    dsimp only
    generalize fillDataField rest (wsub 32 tx.txonBuffer.size first.size) first (bytes - 4) 1
      .empty = filled at hmoved ⊢
    obtain ⟨q, field⟩ := filled
    obtain ⟨framingInfo, hframing⟩ := field.framingInfo_of_ne_nil hmoved.segments_ne_nil
    have hless := hmoved.less
    rw [labelled_cons, List.length_append, SduPacket.length_labelled] at hless
    have hq : q.size < 2 ^ 32 := by
      rw [hmoved.size]
      dsimp only at hless ⊢
      omega
    have hsize : windowSize = 512 := rfl
    have hpassed := h.passed_le
    dsimp only
    rw [h.vtS.lt h.vtMs (by omega) (by omega) (by omega) (by omega), ok_bind,
      nsAssert_of (by omega), ok_bind,
      h.vtS.ge h.vtA (by omega) (by omega) (by omega) (by omega), ok_bind,
      nsAssert_of (by omega), ok_bind, hframing, ok_bind,
      h.vtS.succ.ge h.vtMs (by omega) (by omega) (by omega) (by omega), ok_bind]
    exact ⟨_, _, rfl, h.sendNew hlt hmoved.size hq hmoved.pos field framingInfo _⟩

theorem Books.doNotifyTxOpportunity (h : tx.Books) (hbytes : 7 ≤ bytes) :
    ∃ tx' pdu, tx.doNotifyTxOpportunity bytes = .ok (tx', pdu) ∧ tx'.Books := by
  have hsize : windowSize = 512 := rfl
  have hpassed := h.passed_le
  have hwindow := h.window
  rw [Transmission.doNotifyTxOpportunity]
  split
  · next hretx => exact h.retransmit hretx bytes
  split
  · rw [nsAssert_of hbytes, ok_bind,
      h.vtS.le h.vtMs (by omega) (by omega) (by omega) (by omega), ok_bind,
      nsAssert_of (by omega), ok_bind]
    have hvalue := h.vtS.value_eq_iff h.vtMs (by omega) (by omega) (by omega) (by omega)
    split
    · exact ⟨tx, none, rfl, h⟩
    · exact h.transmitNew (by omega) hbytes
  · exact ⟨tx, none, rfl, h⟩

theorem Books.sent (h : tx.Books) {pdu : Option (AmPdu α)}
    (hrun : tx.doNotifyTxOpportunity bytes = .ok (tx', pdu)) : tx'.Books := by
  by_cases hbytes : 7 ≤ bytes
  · obtain ⟨_, _, hok, hbooks⟩ := h.doNotifyTxOpportunity hbytes
    cases hrun.symm.trans hok
    exact hbooks
  · rw [Transmission.doNotifyTxOpportunity] at hrun
    split at hrun
    · next hretx =>
      obtain ⟨_, _, hok, hbooks⟩ := h.retransmit hretx bytes
      cases hrun.symm.trans hok
      exact hbooks
    split at hrun
    · obtain ⟨_, hassert, -⟩ := bind_eq_ok.mp hrun
      exact absurd (of_decide_eq_true (nsAssert_eq_ok.mp hassert)) hbytes
    · cases hrun
      exact h

/-- The books are kept, and the numbers stand for the same. -/
structure Keeps (tx tx' : Transmission α) : Prop where
  books : tx'.Books
  passed : tx'.passed = tx.passed
  built : tx'.built = tx.built

theorem Keeps.trans {tx'' : Transmission α} (h : Keeps tx tx') (h' : Keeps tx' tx'') :
    Keeps tx tx'' :=
  ⟨h'.books, h'.passed.trans h.passed, h'.built.trans h.built⟩

theorem Books.moveToRetx (h : tx.Books) (i : Nat) : Keeps tx (tx.moveToRetx i) := by
  rw [Transmission.moveToRetx]
  split
  · next pdu hslot => exact ⟨h.of_shared (h.shared.move hslot), rfl, rfl⟩
  · exact ⟨h, rfl, rfl⟩

theorem Books.cancelPoll (h : tx.Books) (i : Nat) : Keeps tx (tx.cancelPoll i) := by
  rw [Transmission.cancelPoll]
  split
  · exact ⟨{ h with }, rfl, rfl⟩
  · exact ⟨h, rfl, rfl⟩

theorem Books.ackTxed (h : tx.Books) (i : Nat) (hrun : tx.ackTxed i = .ok tx') :
    Keeps tx tx' ∧ tx'.txedBuffer.slot i = none := by
  rw [Transmission.ackTxed] at hrun
  split at hrun
  · next pdu hslot =>
    obtain ⟨-, -, rfl⟩ := bind_pure_eq_ok.mp hrun
    exact ⟨⟨h.of_shared (h.shared.remove hslot), rfl, rfl⟩, Slots.slot_remove_self⟩
  · next hslot =>
    cases hrun
    exact ⟨⟨h, rfl, rfl⟩, hslot⟩

theorem Books.ackRetx (h : tx.Books) (i : Nat) :
    Keeps tx (tx.ackRetx i) ∧ (tx.ackRetx i).retxBuffer.slot i = none ∧
      (tx.ackRetx i).txedBuffer = tx.txedBuffer := by
  rw [Transmission.ackRetx]
  split
  · next pdu hslot =>
    exact ⟨⟨h.of_shared (h.shared.symm.remove hslot).symm, rfl, rfl⟩, Slots.slot_remove_self, rfl⟩
  · next hslot => exact ⟨⟨h, rfl, rfl⟩, hslot, rfl⟩

theorem Books.incrementVtA (h : tx.Books) (hlt : tx.passed < tx.built.length)
    (htxed : tx.txedBuffer.slot (tx.passed % 1024) = none)
    (hretx : tx.retxBuffer.slot (tx.passed % 1024) = none) : tx.incrementVtA.Books := by
  have hbase : (tx.vtA.succ.value : Int) = ((tx.passed + 1 : Nat) : Int) % 1024 := h.vtA.succ.value
  have hms : ((tx.vtA.succ.add windowSize).value : Int) =
      (((tx.passed + 1 : Nat) : Int) + windowSize) % 1024 := by
    rw [SequenceNumber10.add]
    dsimp only
    omega
  have hwindow := h.window
  refine ⟨h.txon, h.txon_lt, h.txon_pos, h.shared.mono fun i pdu hslot howns => ?_, hlt,
    hwindow.trans (by dsimp only [Transmission.incrementVtA]; omega), ⟨hbase, hbase⟩,
    ⟨h.vtS.value, hbase⟩, ⟨hms, hbase⟩⟩
  · have hne : pdu.number ≠ tx.passed := by
      intro heq
      have hplace := howns.place_eq
      rw [heq] at hplace
      rw [hplace, htxed, hretx] at hslot
      rcases hslot with hslot | hslot <;> cases hslot
    have hle := howns.passed_le
    exact ⟨howns.place_eq, by dsimp only [Transmission.incrementVtA]; omega, howns.built⟩

/-- What the loop over a STATUS PDU keeps. -/
structure LoopBooks (l : StatusLoop α) (n k : Nat) : Prop where
  books : l.tx.Books
  sn : l.sn.At l.tx.passed n
  ackSn : l.ackSn.At l.tx.passed k
  passed_le : l.tx.passed ≤ n
  le_built : n ≤ l.tx.built.length
  ack_range : l.tx.passed ≤ k ∧ k < l.tx.passed + 1024
  passes : l.incrementVtA = true → n = l.tx.passed

variable {k : Nat} {l : StatusLoop α}

theorem LoopBooks.lt_ackSn (h : LoopBooks l n k) : l.sn.lt l.ackSn = .ok (decide (n < k)) := by
  have hwindow : l.tx.built.length ≤ l.tx.passed + 512 := h.books.window
  obtain ⟨hack, hack'⟩ := h.ack_range
  have hle := h.passed_le
  have hbuilt := h.le_built
  rw [h.sn.lt h.ackSn (by omega) (by omega) (by omega) (by omega)]
  exact congrArg _ (decide_eq_decide.mpr Int.ofNat_lt)

theorem Books.pass {ackSn : SequenceNumber10} (h : tx.Books) (hsn : sn.At tx.passed tx.passed)
    (hackSn : ackSn.At tx.passed k) (hk : tx.passed < k) (hk' : k < tx.passed + 1024)
    (hlt : tx.passed < tx.built.length) (htxed : tx.txedBuffer.slot (tx.passed % 1024) = none)
    (hretx : tx.retxBuffer.slot (tx.passed % 1024) = none) :
    LoopBooks ⟨tx.incrementVtA, (sn.setModulusBase tx.incrementVtA.vtA).succ,
      ackSn.setModulusBase tx.incrementVtA.vtA, true⟩ (tx.passed + 1) k := by
  have hbooks := h.incrementVtA hlt htxed hretx
  have hpassed : tx.incrementVtA.passed = tx.passed + 1 := rfl
  refine ⟨hbooks, ⟨hsn.succ.value, hbooks.vtA.value⟩, ⟨hackSn.value, hbooks.vtA.value⟩,
    le_rfl, hlt, ⟨hk, ?_⟩, fun _ => rfl⟩
  dsimp only
  omega

theorem LoopBooks.reportSn {l' : StatusLoop α} (h : LoopBooks l n k) (hk : n < k)
    (hn : n < l.tx.built.length) (hrun : Transmission.reportSn status l = .ok l') :
    LoopBooks { l' with sn := l'.sn.succ } (n + 1) k := by
  obtain ⟨hack, hack'⟩ := h.ack_range
  have hpassed := h.passed_le
  have hsame {tx : Transmission α} (hkeeps : Keeps l.tx tx) :
      LoopBooks { l with tx, sn := l.sn.succ, incrementVtA := false } (n + 1) k := by
    obtain ⟨hbooks, hp, hb⟩ := hkeeps
    refine ⟨hbooks, ?_, ?_, ?_, ?_, ?_, nofun⟩
    · exact hp ▸ h.sn.succ
    · exact hp ▸ h.ackSn
    · exact hp ▸ Nat.le_succ_of_le hpassed
    · exact hb ▸ hn
    · exact hp ▸ h.ack_range
  have hcancel := h.books.cancelPoll l.sn.value
  rw [Transmission.reportSn] at hrun
  split at hrun
  · obtain ⟨tx, htx, rfl⟩ := bind_pure_eq_ok.mp hrun
    rw [Transmission.nack] at htx
    obtain ⟨-, -, rfl⟩ := bind_pure_eq_ok.mp htx
    exact hsame (hcancel.trans (hcancel.books.moveToRetx _))
  · obtain ⟨tx, htx, hrun⟩ := bind_eq_ok.mp hrun
    obtain ⟨htxed, hfree⟩ := hcancel.books.ackTxed _ htx
    obtain ⟨hretx, hfree', heq⟩ := htxed.books.ackRetx l.sn.value
    have hkeeps := (hcancel.trans htxed).trans hretx
    split at hrun
    · next hpasses =>
      cases hrun
      rw [← heq] at hfree
      generalize tx.ackRetx l.sn.value = tx' at hkeeps hfree hfree' ⊢
      obtain ⟨hbooks, hp, hb⟩ := hkeeps
      have hsn := h.sn
      have hackSn := h.ackSn
      rw [Books.value_eq hsn] at hfree hfree'
      obtain rfl := h.passes hpasses
      rw [← hp] at hsn hackSn hk hack' hn hfree hfree' ⊢
      rw [hpasses]
      exact hbooks.pass hsn hackSn hk hack' (hb ▸ hn) hfree hfree'
    · next hpasses =>
      cases hrun
      have hfalse : l.incrementVtA = false := by simpa using hpasses
      have hloop := hsame hkeeps
      rw [← hfalse] at hloop
      exact hloop

theorem LoopBooks.statusLoop {fuel : Nat} (h : LoopBooks l n k)
    (hrun : Transmission.statusLoop status fuel l = .ok tx') : tx'.Books := by
  induction fuel generalizing l n with
  | zero => cases hrun
  | succ fuel ih =>
    rw [Transmission.statusLoop, h.lt_ackSn, ok_bind] at hrun
    dsimp only at hrun
    split at hrun
    · next hk =>
      rw [h.books.lt_vtS h.sn h.passed_le h.le_built, ok_bind] at hrun
      split at hrun
      · next hn =>
        obtain ⟨l', hl', hrun⟩ := bind_eq_ok.mp hrun
        exact ih (h.reportSn (of_decide_eq_true hk) (of_decide_eq_true hn) hl') hrun
      · cases hrun
        exact h.books
    · obtain rfl : l.tx = tx' := pure_eq_ok.mp hrun
      exact h.books

/-- A STATUS moves PDUs between the buffers and loses none. -/
theorem Books.receiveStatus (h : tx.Books) (hack : status.ackSn.value < 1024)
    (hrun : tx.receiveStatus status = .ok tx') : tx'.Books := by
  have hvtA := h.vtA.value
  -- the first position from `VT(A)` on that the acknowledged number can stand for
  let k := tx.passed + (status.ackSn.value + 1024 - tx.passed % 1024) % 1024
  have hbooks : Books { tx with
      vtA := tx.vtA.setModulusBase tx.vtA
      vtS := tx.vtS.setModulusBase tx.vtA
      vtMs := tx.vtMs.setModulusBase tx.vtA } :=
    { h with vtA := ⟨hvtA, hvtA⟩, vtS := ⟨h.vtS.value, hvtA⟩, vtMs := ⟨h.vtMs.value, hvtA⟩ }
  refine LoopBooks.statusLoop (n := tx.passed) (k := k) ⟨hbooks, ⟨hvtA, hvtA⟩, ⟨?_, hvtA⟩,
    le_rfl, h.passed_le, ⟨Nat.le_add_right _ _, ?_⟩, fun _ => rfl⟩ hrun
  · dsimp only [SequenceNumber10.setModulusBase, k]
    omega
  · exact Nat.add_lt_add_left (Nat.mod_lt _ (by decide)) _

theorem Books.moveLoop (h : tx.Books) {fuel : Nat} (hsn : sn.At tx.passed n)
    (hle : tx.passed ≤ n) (hn : n ≤ tx.built.length) (hfuel : tx.built.length < n + fuel) :
    ∃ tx', Transmission.moveLoop fuel sn tx = .ok tx' ∧ tx'.Books := by
  induction fuel generalizing sn n tx with
  | zero => omega
  | succ fuel ih =>
    rw [Transmission.moveLoop, h.lt_vtS hsn hle hn, ok_bind]
    by_cases hlt : n < tx.built.length
    · rw [if_pos (decide_eq_true hlt)]
      obtain ⟨hbooks, hp, hb⟩ := h.moveToRetx sn.value
      refine ih hbooks (n := n + 1) ?_ ?_ ?_ ?_
      · rw [hp]
        exact hsn.succ
      · omega
      · rw [hb]
        exact hlt
      · rw [hb]
        omega
    · rw [if_neg (by simpa using hlt)]
      exact ⟨tx, rfl, h⟩

theorem Books.expirePollRetransmitTimer (h : tx.Books) :
    ∃ tx', tx.expirePollRetransmitTimer = .ok tx' ∧ tx'.Books := by
  have hsize : windowSize = 512 := rfl
  have hpassed := h.passed_le
  have hwindow := h.window
  have hbooks : Books { tx with
      pollRetransmitTimerJustExpired := true, pollRetransmitTimer := false } := { h with }
  rw [Transmission.expirePollRetransmitTimer]
  dsimp only
  rw [h.vtS.le h.vtMs (by omega) (by omega) (by omega) (by omega), ok_bind,
    nsAssert_of (by omega), ok_bind]
  split
  · exact hbooks.moveLoop h.vtA le_rfl hpassed (by dsimp only; omega)
  · exact ⟨_, rfl, hbooks⟩

end Transmission

end LteRlcAm

end Lte

end Ns3
