/-
  The PDUs of acknowledged mode (LteRlcAmHeader,
  src/lte/model/lte-rlc-am-header.cc).

  A data PDU carries its header and, without boundaries, the bytes of its data field
  elements; a STATUS PDU is a header only.  Data PDUs are numbered on an axis that does not
  wrap, and so is the number that a STATUS PDU acknowledges; the code needs neither.
-/
import Ns3.Lib.Wrap
import Ns3.Lte.SequenceNumber10

namespace Ns3

namespace Lte

open Lib

/-- The bytes of `n` fields of 12 bits. -/
def packed (n : Nat) : Nat := n + (n + 1) / 2

/-- `LteRlcAmHeader` of a data PDU. -/
structure LteRlcAmHeader where
  headerLength : Nat
  resegmentationFlag : Nat
  pollingBit : Nat
  framingInfo : Nat
  sequenceNumber : SequenceNumber10
  extensionBits : List Nat
  lengthIndicators : List Nat
  deriving DecidableEq, Repr

namespace LteRlcAmHeader

/-- `PDU`, of `ResegmentationFlag_t`. -/
def PDU : Nat := 0

def SEGMENT : Nat := 1

/-- `STATUS_REPORT_NOT_REQUESTED`, of `PollingBit_t`. -/
def STATUS_REPORT_NOT_REQUESTED : Nat := 0

def STATUS_REPORT_IS_REQUESTED : Nat := 1

/-- The constructor, and `SetDataPdu`. -/
def dataPdu : LteRlcAmHeader :=
  { headerLength := 4
    resegmentationFlag := 0xff
    pollingBit := 0xff
    framingInfo := 0xff
    sequenceNumber := .ofValue 0xfffa
    extensionBits := []
    lengthIndicators := [] }

def pushExtensionBit (h : LteRlcAmHeader) (extensionBit : Nat) : LteRlcAmHeader :=
  let extensionBits := h.extensionBits ++ [extensionBit]
  { h with
    extensionBits,
    headerLength :=
      if extensionBits.length > 1 then
        wadd 16 h.headerLength (if extensionBits.length % 2 ≠ 0 then 1 else 2)
      else h.headerLength }

def pushLengthIndicator (h : LteRlcAmHeader) (lengthIndicator : Nat) : LteRlcAmHeader :=
  { h with lengthIndicators := h.lengthIndicators ++ [lengthIndicator] }

def setResegmentationFlag (h : LteRlcAmHeader) (resegFlag : Nat) : LteRlcAmHeader :=
  { h with resegmentationFlag := resegFlag % 2 }

def setPollingBit (h : LteRlcAmHeader) (pollingBit : Nat) : LteRlcAmHeader :=
  { h with pollingBit := pollingBit % 2 }

def setFramingInfo (h : LteRlcAmHeader) (framingInfo : Nat) : LteRlcAmHeader :=
  { h with framingInfo := framingInfo % 4 }

def setSequenceNumber (h : LteRlcAmHeader) (sequenceNumber : SequenceNumber10) : LteRlcAmHeader :=
  { h with sequenceNumber }

theorem extensionBits_pushExtensionBits (bits : List Nat) (h : LteRlcAmHeader) :
    (bits.foldl pushExtensionBit h).extensionBits = h.extensionBits ++ bits := by
  induction bits generalizing h with
  | nil => exact (List.append_nil _).symm
  | cons bit bits ih =>
    rw [List.foldl_cons, ih, pushExtensionBit, List.append_assoc]
    rfl

theorem headerLength_pushExtensionBits (bits : List Nat) {h : LteRlcAmHeader}
    (hlength : h.headerLength = (4 + packed (h.extensionBits.length - 1)) % 2 ^ 16) :
    (bits.foldl pushExtensionBit h).headerLength =
      (4 + packed (h.extensionBits.length + bits.length - 1)) % 2 ^ 16 := by
  induction bits generalizing h with
  | nil => exact hlength
  | cons bit bits ih =>
    have hpush : (h.pushExtensionBit bit).extensionBits.length = h.extensionBits.length + 1 :=
      List.length_append
    have hgrown : (h.pushExtensionBit bit).headerLength =
        (4 + packed ((h.pushExtensionBit bit).extensionBits.length - 1)) % 2 ^ 16 := by
      rw [hpush]
      simp only [pushExtensionBit, List.length_append, List.length_singleton, hlength, packed,
        wadd]
      split
      · split <;> omega
      · omega
    rw [List.foldl_cons, ih hgrown, hpush, List.length_cons, Nat.add_right_comm, Nat.add_assoc]

theorem headerLength_pushLengthIndicators (indicators : List Nat) (h : LteRlcAmHeader) :
    (indicators.foldl pushLengthIndicator h).headerLength = h.headerLength := by
  induction indicators generalizing h with
  | nil => rfl
  | cons indicator indicators ih => exact ih _

end LteRlcAmHeader

/-- A data PDU. -/
structure AmPdu (α : Type) where
  header : LteRlcAmHeader
  data : List α
  /-- how many data PDUs were built before this one -/
  number : Nat
  deriving DecidableEq, Repr

/-- `GetSize`. -/
def AmPdu.size {α : Type} (p : AmPdu α) : Nat := p.header.headerLength + p.data.length

/-- `LteRlcAmHeader` of a STATUS PDU. -/
structure AmStatus where
  headerLength : Nat
  ackSn : SequenceNumber10
  nackSnList : List Nat
  /-- the data PDU that the acknowledged number stands for -/
  ackNumber : Nat
  deriving DecidableEq, Repr

namespace AmStatus

/-- The constructor, and `SetControlPdu`. -/
def controlPdu : AmStatus :=
  { headerLength := 2
    ackSn := .ofValue 0xffff
    nackSnList := []
    ackNumber := 0 }

/-- `OneMoreNackWouldFitIn`; the parameter has 16 bits. -/
def oneMoreNackWouldFitIn (h : AmStatus) (bytes : Nat) : Bool :=
  if h.nackSnList.length % 2 = 0 then h.headerLength < bytes % 2 ^ 16
  else (h.headerLength : Int) < ((bytes % 2 ^ 16 : Nat) : Int) - 1

def pushNack (h : AmStatus) (nack : Nat) : AmStatus :=
  let nackSnList := h.nackSnList ++ [nack]
  { h with
    nackSnList,
    headerLength := wadd 16 h.headerLength (if nackSnList.length % 2 = 0 then 1 else 2) }

theorem headerLength_pushNack {h : AmStatus}
    (hlength : h.headerLength = (2 + packed h.nackSnList.length) % 2 ^ 16) (nack : Nat) :
    (h.pushNack nack).headerLength = (2 + packed (h.nackSnList.length + 1)) % 2 ^ 16 := by
  simp only [pushNack, List.length_append, List.length_singleton, hlength, packed, wadd]
  split <;> omega

def isNackPresent (h : AmStatus) (nack : SequenceNumber10) : Bool :=
  h.nackSnList.contains nack.value

end AmStatus

end Lte

end Ns3
