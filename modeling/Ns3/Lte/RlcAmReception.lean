/-
  The receiving side of acknowledged mode
  (LteRlcAm::DoReceivePdu for data PDUs, ReassembleAndDeliver, the STATUS PDU of
  DoNotifyTxOpportunity, and ExpireReorderingTimer, src/lte/model/lte-rlc-am.cc).

  Re-segmentation is not supported, so an entry of the reception buffer is one PDU.
-/
import Ns3.Lib.SortedMap
import Ns3.Lte.RlcAmTransmission
import Ns3.Lte.RlcReassembler

namespace Ns3

namespace Lte

open Lib

namespace LteRlcAm

/-- The receiving side of `LteRlcAm`, the numbers of the PDUs it has put in its buffer, and how
often `VR(R)` has been incremented. -/
structure Reception (α : Type) where
  rxonBuffer : SortedMap (AmPdu α)
  vrR : SequenceNumber10
  vrMr : SequenceNumber10
  vrX : SequenceNumber10
  vrMs : SequenceNumber10
  vrH : SequenceNumber10
  reorderingTimer : Bool
  statusProhibitTimer : Bool
  statusPduRequested : Bool
  statusPduBufferSize : Nat
  reassembler : Reassembler α
  placed : List Nat
  taken : Nat

variable {α : Type}

def reassembleAndDeliver (r : Reassembler α) (packet : AmPdu α) :
    Except Fault (Reassembler α) := do
  let header := packet.header
  let (r, expectedSnLost) := r.expect header.sequenceNumber
  let r ← Reassembler.splitPacket header.extensionBits header.lengthIndicators packet.data r
  if expectedSnLost then r.reassembleLosses header.framingInfo
  else
    match r.reassemblingState with
    | .waitingS0Full =>
      -- unlike in unacknowledged mode, the rest of a lost SDU is an error
      if header.framingInfo ≤ LteRlcHeader.FIRST_BYTE ||| LteRlcHeader.NO_LAST_BYTE then
        r.waitingS0Full header.framingInfo
      else .ok r.internalError
    | .waitingSiSf => r.waitingSiSf header.framingInfo

namespace Reception

/-- The constructor. -/
def new : Reception α :=
  { rxonBuffer := .empty
    vrR := .ofValue 0
    vrMr := (SequenceNumber10.ofValue 0).add windowSize
    vrX := .ofValue 0
    vrMs := .ofValue 0
    vrH := .ofValue 0
    reorderingTimer := false
    statusProhibitTimer := false
    statusPduRequested := false
    statusPduBufferSize := 0
    reassembler := .new
    placed := []
    taken := 0 }

/-- `IsInsideReceivingWindow`, which also sets modulus bases. -/
def isInsideReceivingWindow (rx : Reception α) (seqNumber : SequenceNumber10) :
    Except Fault (Reception α × Bool) := do
  let rx := { rx with
    vrR := rx.vrR.setModulusBase rx.vrR
    vrMr := rx.vrMr.setModulusBase rx.vrR }
  let seqNumber := seqNumber.setModulusBase rx.vrR
  if ← rx.vrR.le seqNumber then
    pure (rx, ← seqNumber.lt rx.vrMr)
  else pure (rx, false)

/-! ## Data PDUs -/

def request (rx : Reception α) (pollingBit : Nat) : Reception α :=
  if pollingBit = LteRlcAmHeader.STATUS_REPORT_IS_REQUESTED then
    { rx with statusPduRequested := true, statusPduBufferSize := 4 }
  else rx

/-- A PDU is stored, unless its place is taken. -/
def place (rx : Reception α) (seqNumber : SequenceNumber10) (pdu : AmPdu α) : Reception α :=
  if rx.rxonBuffer.contains seqNumber.value then rx
  else
    { rx with
      rxonBuffer := rx.rxonBuffer.insert seqNumber.value pdu
      placed := rx.placed ++ [pdu.number] }

/-- `VR(H)` moves past the PDU. -/
def updateVrH (rx : Reception α) (seqNumber : SequenceNumber10) : Except Fault (Reception α) := do
  if ← seqNumber.ge rx.vrH then pure { rx with vrH := seqNumber.add 1 } else pure rx

def vrMsLoop (rxonBuffer : SortedMap (AmPdu α)) (firstVrMs : Nat) :
    Nat → SequenceNumber10 → Except Fault SequenceNumber10
  | 0, _ => .error .noProgress
  | fuel + 1, vrMs =>
    if rxonBuffer.contains vrMs.value then do
      let vrMs := vrMs.succ
      nsAssert (firstVrMs ≠ vrMs.value)
      vrMsLoop rxonBuffer firstVrMs fuel vrMs
    else .ok vrMs

/-- `VR(MS)` moves over the PDUs that are there. -/
def updateVrMs (rx : Reception α) : Except Fault (Reception α) := do
  let vrMs ← vrMsLoop rx.rxonBuffer rx.vrMs.value 1025 rx.vrMs
  pure { rx with vrMs }

def takePdu (rx : Reception α) (pdu : AmPdu α) : Except Fault (Reception α) := do
  let reassembler ← reassembleAndDeliver rx.reassembler pdu
  let vrR := rx.vrR.succ
  pure { rx with
    reassembler, rxonBuffer := rx.rxonBuffer.erase rx.vrR.value
    vrR := vrR.setModulusBase vrR
    vrX := rx.vrX.setModulusBase vrR
    vrMs := rx.vrMs.setModulusBase vrR
    vrH := rx.vrH.setModulusBase vrR
    taken := rx.taken + 1 }

/-- The loop that takes the PDUs from `VR(R)` on. -/
def vrRLoop (firstVrR : Nat) : Nat → Reception α → Except Fault (Reception α)
  | 0, _ => .error .noProgress
  | fuel + 1, rx =>
    match rx.rxonBuffer.find? rx.vrR.value with
    | some pdu => do
        let rx ← rx.takePdu pdu
        nsAssert (firstVrR ≠ rx.vrR.value)
        vrRLoop firstVrR fuel rx
    | none => .ok rx

/-- The PDUs in sequence are taken when the PDU was the next one. -/
def updateVrR (rx : Reception α) (seqNumber : SequenceNumber10) : Except Fault (Reception α) :=
  if seqNumber.value = rx.vrR.value then do
    if rx.rxonBuffer.contains seqNumber.value then
      let rx ← vrRLoop rx.vrR.value 1025 rx
      pure { rx with vrMr := rx.vrR.add windowSize }
    else pure rx
  else .ok rx

/-- `t-Reordering` is stopped when `VR(X)` is no longer waited for. -/
def stopTimer (rx : Reception α) : Except Fault (Reception α) := do
  if rx.reorderingTimer then
    if rx.vrX.value = rx.vrR.value then pure { rx with reorderingTimer := false }
    else
      let (rx, inside) ← rx.isInsideReceivingWindow rx.vrX
      if !inside && rx.vrX.value ≠ rx.vrMr.value then pure { rx with reorderingTimer := false }
      else pure rx
  else pure rx

/-- `t-Reordering` is started when a PDU is missing. -/
def startTimer (rx : Reception α) : Except Fault (Reception α) := do
  if rx.reorderingTimer then pure rx
  else if ← rx.vrH.gt rx.vrR then pure { rx with reorderingTimer := true, vrX := rx.vrH }
  else pure rx

/-- What follows when a PDU inside the window has been placed. -/
def update (rx : Reception α) (seqNumber : SequenceNumber10) : Except Fault (Reception α) := do
  let rx ← rx.updateVrH seqNumber
  let rx ← rx.updateVrMs
  let rx ← rx.updateVrR seqNumber
  let rx ← rx.stopTimer
  rx.startTimer

def receiveData (rx : Reception α) (pdu : AmPdu α) : Except Fault (Reception α) := do
  let seqNumber := pdu.header.sequenceNumber.setModulusBase rx.vrR
  nsAssert (pdu.header.resegmentationFlag = LteRlcAmHeader.SEGMENT ||
    pdu.header.resegmentationFlag = LteRlcAmHeader.PDU)
  let rx := rx.request pdu.header.pollingBit
  let (rx, inside) ← rx.isInsideReceivingWindow seqNumber
  if inside then (rx.place seqNumber pdu).update seqNumber else pure rx

/-! ## STATUS PDUs -/

def nackLoop (rx : Reception α) (bytes : Nat) :
    Nat → SequenceNumber10 → AmStatus → Except Fault (SequenceNumber10 × AmStatus)
  | 0, _, _ => .error .noProgress
  | fuel + 1, sn, status => do
      if ← sn.lt rx.vrMs then
        if status.oneMoreNackWouldFitIn bytes then
          nackLoop rx bytes fuel sn.succ
            (if rx.rxonBuffer.contains sn.value then status else status.pushNack sn.value)
        else pure (sn, status)
      else pure (sn, status)

def ackLoop (rx : Reception α) : Nat → SequenceNumber10 → Except Fault SequenceNumber10
  | 0, _ => .error .noProgress
  | fuel + 1, sn => do
      let more ← sn.lt rx.vrMs
      if more && rx.rxonBuffer.contains sn.value then ackLoop rx fuel sn.succ else pure sn

def buildStatus (rx : Reception α) (bytes : Nat) : Except Fault AmStatus := do
  let (sn, status) ← rx.nackLoop bytes 1025 rx.vrR .controlPdu
  let sn ← rx.ackLoop 1025 sn
  nsAssert (← sn.le rx.vrMs)
  pure { status with
    ackSn := sn
    ackNumber := rx.taken + (sn.value + 1024 - rx.vrR.value) % 1024 }

def statusDue (rx : Reception α) : Bool := rx.statusPduRequested && !rx.statusProhibitTimer

def doNotifyTxOpportunity (rx : Reception α) (bytes : Nat) :
    Except Fault (Reception α × AmStatus) := do
  nsAssert (rx.statusPduBufferSize ≤ bytes)
  let status ← rx.buildStatus bytes
  pure ({ rx with
      statusPduRequested := false
      statusPduBufferSize := 0
      statusProhibitTimer := true }, status)

/-! ## Timers -/

def expireReorderingTimer (rx : Reception α) : Except Fault (Reception α) := do
  let rx := { rx with reorderingTimer := false, vrMs := rx.vrX }
  let rx ← rx.updateVrMs
  let rx ← if ← rx.vrH.gt rx.vrMs then
      pure { rx with reorderingTimer := true, vrX := rx.vrH }
    else pure rx
  pure { rx with statusPduRequested := true }

def expireStatusProhibitTimer (rx : Reception α) : Reception α :=
  { rx with statusProhibitTimer := false }

end Reception

end LteRlcAm

end Lte

end Ns3
