/-
  The header of an RLC PDU (LteRlcHeader,
  src/lte/model/lte-rlc-header.cc), and the PDU.

  A PDU carries its header and, without boundaries, the bytes of its data field elements.
-/
import Ns3.Lte.SequenceNumber10

namespace Ns3

namespace Lte

/-- The fields of a header; its bytes are left out. -/
structure LteRlcHeader where
  headerLength : Nat
  framingInfo : Nat
  sequenceNumber : SequenceNumber10
  extensionBits : List Nat
  lengthIndicators : List Nat
  deriving DecidableEq, Repr

namespace LteRlcHeader

def FIRST_BYTE : Nat := 0x00

def NO_FIRST_BYTE : Nat := 0x02

def LAST_BYTE : Nat := 0x00

def NO_LAST_BYTE : Nat := 0x01

def DATA_FIELD_FOLLOWS : Nat := 0

def E_LI_FIELDS_FOLLOWS : Nat := 1

/-- The constructor. -/
def new : LteRlcHeader :=
  { headerLength := 0
    framingInfo := 0xff
    sequenceNumber := .ofValue 0xfffa
    extensionBits := []
    lengthIndicators := [] }

def setFramingInfo (h : LteRlcHeader) (framingInfo : Nat) : LteRlcHeader :=
  { h with framingInfo := framingInfo % 4 }

def setSequenceNumber (h : LteRlcHeader) (sequenceNumber : SequenceNumber10) : LteRlcHeader :=
  { h with sequenceNumber }

def pushExtensionBit (h : LteRlcHeader) (extensionBit : Nat) : LteRlcHeader :=
  let extensionBits := h.extensionBits ++ [extensionBit]
  { h with
    extensionBits,
    headerLength :=
      if extensionBits.length = 1 then 2
      else if extensionBits.length % 2 ≠ 0 then h.headerLength + 1
      else h.headerLength + 2 }

def pushLengthIndicator (h : LteRlcHeader) (lengthIndicator : Nat) : LteRlcHeader :=
  { h with lengthIndicators := h.lengthIndicators ++ [lengthIndicator] }

end LteRlcHeader

/-- A PDU. -/
structure RlcPdu (α : Type) where
  header : LteRlcHeader
  data : List α
  deriving DecidableEq, Repr

end Lte

end Ns3
