/-
  The payload of a packet (src/network/model/packet.h).

  The TCP buffers only cut and join payloads, so a packet is its byte sequence.
-/
import Mathlib.Data.List.Basic

namespace Ns3

/-- The bytes of a `Packet`; `GetSize` is the length. -/
abbrev Packet : Type := List UInt8

namespace Packet

def createFragment (p : Packet) (start length : Nat) : Packet :=
  (p.drop start).take length

def removeAtStart (p : Packet) (size : Nat) : Packet := p.drop size

def addAtEnd (p q : Packet) : Packet := p ++ q

@[simp] theorem length_createFragment (p : Packet) (start length : Nat) :
    (p.createFragment start length).length = min length (p.length - start) := by
  simp [createFragment]

@[simp] theorem length_removeAtStart (p : Packet) (size : Nat) :
    (p.removeAtStart size).length = p.length - size := by
  simp [removeAtStart]

@[simp] theorem length_addAtEnd (p q : Packet) :
    (p.addAtEnd q).length = p.length + q.length := by
  simp [addAtEnd]

theorem createFragment_append_removeAtStart (p : Packet) (size : Nat) :
    p.createFragment 0 size ++ p.removeAtStart size = p := by
  simp [createFragment, removeAtStart]

theorem createFragment_rest (p : Packet) (offset : Nat) :
    p.createFragment offset (p.length - offset) = p.drop offset := by
  rw [createFragment, ← List.length_drop, List.take_length]

end Packet

end Ns3
