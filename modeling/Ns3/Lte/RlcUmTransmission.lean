/-
  The sending side of unacknowledged mode, and the reassembly at
  its peer (LteRlcUm::DoTransmitPdcpPdu, DoNotifyTxOpportunity and ReassembleAndDeliver,
  src/lte/model/lte-rlc-um.cc).

  The SDUs that the transmission buffer accepts are numbered, so that every segment says which
  SDU it is a part of; the code needs no such numbers.
-/
import Ns3.Lte.RlcReassembler
import Ns3.Lte.RlcSegmentation

namespace Ns3

namespace Lte

open Lib

namespace LteRlcUm

/-- The sending side of `LteRlcUm`, the SDUs it has accepted and the PDUs it has sent. -/
structure Transmission (α : Type) where
  maxTxBufferSize : Nat
  txBuffer : TxQueue α
  sequenceNumber : SequenceNumber10
  accepted : List (List α)
  sent : List (DataField α × RlcPdu α)
  deriving DecidableEq, Repr

/-- What happens at the sending side. -/
inductive TxEvent (α : Type) where
  | transmitPdcpPdu (p : List α)
  | notifyTxOpportunity (bytes : Nat)
  deriving DecidableEq, Repr

variable {α : Type}

namespace Transmission

/-- The constructor. -/
def new (maxTxBufferSize : Nat) : Transmission α :=
  { maxTxBufferSize
    txBuffer := ⟨[], 0⟩
    sequenceNumber := .ofValue 0
    accepted := []
    sent := [] }

/-- `DoTransmitPdcpPdu`.  An SDU for which there is no room is dropped; one that has waited too
long is only reported as dropped. -/
def doTransmitPdcpPdu (tx : Transmission α) (p : List α) : Transmission α :=
  if wadd 32 tx.txBuffer.size p.length ≤ tx.maxTxBufferSize then
    { tx with
      txBuffer := tx.txBuffer.pushBack ⟨tx.accepted.length, .fullSdu, p⟩
      accepted := tx.accepted ++ [p] }
  else tx

def header (field : DataField α) (sequenceNumber : SequenceNumber10) (framingInfo : Nat) :
    LteRlcHeader :=
  let rlcHeader := field.extensionBits.foldl LteRlcHeader.pushExtensionBit LteRlcHeader.new
  let rlcHeader := field.lengthIndicators.foldl LteRlcHeader.pushLengthIndicator rlcHeader
  (rlcHeader.setSequenceNumber sequenceNumber).setFramingInfo framingInfo

def doNotifyTxOpportunity (tx : Transmission α) (bytes : Nat) : Except Fault (Transmission α) :=
  if bytes ≤ 2 then .ok tx
  else
    match tx.txBuffer.pdus with
    | [] => .ok tx
    | firstSegment :: txBuffer => do
        let (txBuffer, field) := fillDataField txBuffer (wsub 32 tx.txBuffer.size firstSegment.size)
          firstSegment (bytes - 2) 1 .empty
        let framingInfo ← field.framingInfo
        let pdu : RlcPdu α := ⟨header field tx.sequenceNumber framingInfo, field.data⟩
        pure { tx with
          txBuffer, sequenceNumber := tx.sequenceNumber.succ
          sent := tx.sent ++ [(field, pdu)] }

def step (tx : Transmission α) : TxEvent α → Except Fault (Transmission α)
  | .transmitPdcpPdu p => .ok (tx.doTransmitPdcpPdu p)
  | .notifyTxOpportunity bytes => tx.doNotifyTxOpportunity bytes

def Whole (tx : Transmission α) (kept : List Bool) (k : Nat) : Prop :=
  (∀ p ∈ tx.txBuffer.pdus, p.sdu ≠ k) ∧
    ∀ q ∈ tx.sent.zip kept, q.2 = false → ∀ s ∈ q.1.1.segments, s.sdu ≠ k

instance (tx : Transmission α) (kept : List Bool) (k : Nat) : Decidable (tx.Whole kept k) := by
  unfold Whole
  infer_instance

def wholeSdus (tx : Transmission α) (kept : List Bool) : List (List α) :=
  ((List.range tx.accepted.length).filter fun k => tx.Whole kept k).map fun k =>
    tx.accepted.getD k []

def keptPdus (tx : Transmission α) (kept : List Bool) : List (RlcPdu α) :=
  ((tx.sent.zip kept).filter Prod.snd).map fun q => q.1.2

end Transmission

/-- Fewer than 1024 PDUs are lost before one that is kept. -/
def ShortGaps (kept : List Bool) : Prop :=
  ∀ before n after, kept = before ++ (List.replicate n false ++ true :: after) → n < 1024

def reassembleAndDeliver (r : Reassembler α) (packet : RlcPdu α) :
    Except Fault (Reassembler α) := do
  let header := packet.header
  let (r, expectedSnLost) := r.expect header.sequenceNumber
  let r ← Reassembler.splitPacket header.extensionBits header.lengthIndicators packet.data r
  if expectedSnLost then r.reassembleLosses header.framingInfo
  else
    match r.reassemblingState with
    | .waitingS0Full => r.waitingS0Full header.framingInfo
    | .waitingSiSf => r.waitingSiSf header.framingInfo

end LteRlcUm

end Lte

end Ns3
