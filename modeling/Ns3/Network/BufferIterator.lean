/-
  Reading and writing bytes
  (Buffer::Iterator, src/network/model/buffer.h, buffer.cc).

  The bytes that an iterator can still read are a list; those of a virtual zero area
  are zeros in it.  What a header writes is the list of the bytes it writes.
-/
import Ns3.Core.Fault
import Ns3.Lib.Bytes

namespace Ns3.BufferIterator

open Ns3.Lib

variable {i rest : List UInt8} {b : UInt8}

/-! ## Reading -/

def peekU8 : List UInt8 → Except Fault UInt8
  | [] => .error .badIterator
  | b :: _ => .ok b

def readU8 : List UInt8 → Except Fault (UInt8 × List UInt8)
  | [] => .error .badIterator
  | b :: rest => .ok (b, rest)

def read (i : List UInt8) (size : Nat) : Except Fault (List UInt8 × List UInt8) :=
  if size ≤ i.length then .ok (i.take size, i.drop size) else .error .badIterator

def readNtohU16 (i : List UInt8) : Except Fault (UInt16 × List UInt8) := do
  let (bytes, i) ← read i 2
  pure (UInt16.ofNat (ofBytes bytes), i)

def readNtohU32 (i : List UInt8) : Except Fault (UInt32 × List UInt8) := do
  let (bytes, i) ← read i 4
  pure (UInt32.ofNat (ofBytes bytes), i)

def readU16 (i : List UInt8) : Except Fault (UInt16 × List UInt8) := do
  let (byte0, i) ← readU8 i
  let (byte1, i) ← readU8 i
  pure (UInt16.ofNat (byte0.toNat + byte1.toNat * 256), i)

def readLsbtohU16 (i : List UInt8) : Except Fault (UInt16 × List UInt8) := do
  let (bytes, i) ← read i 2
  pure (UInt16.ofNat (ofBytes bytes.reverse), i)

def readLsbtohU32 (i : List UInt8) : Except Fault (UInt32 × List UInt8) := do
  let (bytes, i) ← read i 4
  pure (UInt32.ofNat (ofBytes bytes.reverse), i)

/-- `Next(delta)`. -/
def next (i : List UInt8) (delta : Nat) : Except Fault (List UInt8) := do
  nsAssert (decide (delta ≤ i.length))
  pure (i.drop delta)

/-! ## Writing -/

def writeHtonU16 (data : UInt16) : List UInt8 := toBytes 2 data.toNat

def writeHtonU32 (data : UInt32) : List UInt8 := toBytes 4 data.toNat

def writeHtolsbU16 (data : UInt16) : List UInt8 := (toBytes 2 data.toNat).reverse

def writeHtolsbU32 (data : UInt32) : List UInt8 := (toBytes 4 data.toNat).reverse

/-! ## Reading what is there -/

variable {size : Nat}

theorem read_of (h : size ≤ i.length) : read i size = .ok (i.take size, i.drop size) := if_pos h

theorem readNtohU16_of (h : 2 ≤ i.length) :
    readNtohU16 i = .ok (UInt16.ofNat (ofBytes (i.take 2)), i.drop 2) := by
  rw [readNtohU16, read_of h]
  rfl

theorem readNtohU32_of (h : 4 ≤ i.length) :
    readNtohU32 i = .ok (UInt32.ofNat (ofBytes (i.take 4)), i.drop 4) := by
  rw [readNtohU32, read_of h]
  rfl

theorem next_of {delta : Nat} (h : delta ≤ i.length) : next i delta = .ok (i.drop delta) := by
  rw [next, nsAssert_of h]
  rfl

/-! ## What is read -/

theorem read_eq_ok {r : List UInt8 × List UInt8} :
    read i size = .ok r ↔ size ≤ i.length ∧ r = (i.take size, i.drop size) := by
  rw [read]
  split
  · rename_i hle
    rw [Except.ok.injEq]
    exact ⟨fun h => ⟨hle, h.symm⟩, fun h => h.2.symm⟩
  · rename_i hle
    exact ⟨nofun, fun h => absurd h.1 hle⟩

theorem readNtohU16_eq_ok {r : UInt16 × List UInt8} :
    readNtohU16 i = .ok r ↔ 2 ≤ i.length ∧ r = (UInt16.ofNat (ofBytes (i.take 2)), i.drop 2) := by
  rw [readNtohU16]
  constructor
  · intro h
    obtain ⟨r', hread, h⟩ := bind_eq_ok.mp h
    obtain ⟨hle, rfl⟩ := read_eq_ok.mp hread
    exact ⟨hle, (Except.ok.inj h).symm⟩
  · rintro ⟨hle, rfl⟩
    rw [read_of hle]
    rfl

theorem readNtohU32_eq_ok {r : UInt32 × List UInt8} :
    readNtohU32 i = .ok r ↔ 4 ≤ i.length ∧ r = (UInt32.ofNat (ofBytes (i.take 4)), i.drop 4) := by
  rw [readNtohU32]
  constructor
  · intro h
    obtain ⟨r', hread, h⟩ := bind_eq_ok.mp h
    obtain ⟨hle, rfl⟩ := read_eq_ok.mp hread
    exact ⟨hle, (Except.ok.inj h).symm⟩
  · rintro ⟨hle, rfl⟩
    rw [read_of hle]
    rfl

/-! ## Reading ends -/

section

variable (i : List UInt8)

theorem ends_peekU8 : Ends (peekU8 i) := by
  cases i with
  | nil => exact nofun
  | cons b rest => exact nofun

theorem ends_readU8 : Ends (readU8 i) := by
  cases i with
  | nil => exact nofun
  | cons b rest => exact nofun

theorem ends_read (size : Nat) : Ends (read i size) := by
  unfold read
  split
  · exact nofun
  · exact nofun

theorem ends_readNtohU16 : Ends (readNtohU16 i) :=
  (ends_read i 2).bind fun _ _ => nofun

theorem ends_readNtohU32 : Ends (readNtohU32 i) :=
  (ends_read i 4).bind fun _ _ => nofun

theorem ends_next (delta : Nat) : Ends (next i delta) :=
  (Ends.nsAssert _).bind fun _ _ => nofun

end

/-! ## What is written is read -/

@[simp] theorem peekU8_cons : peekU8 (b :: rest) = .ok b := rfl

@[simp] theorem readU8_cons : readU8 (b :: rest) = .ok (b, rest) := rfl

@[simp] theorem length_writeHtonU16 (data : UInt16) : (writeHtonU16 data).length = 2 :=
  length_toBytes 2 _

@[simp] theorem length_writeHtonU32 (data : UInt32) : (writeHtonU32 data).length = 4 :=
  length_toBytes 4 _

variable {bytes : List UInt8}

theorem read_append (h : bytes.length = size) : read (bytes ++ rest) size = .ok (bytes, rest) := by
  subst h
  rw [read, if_pos (by rw [List.length_append]; exact Nat.le_add_right _ _), List.take_left,
    List.drop_left]

theorem next_append (h : bytes.length = size) : next (bytes ++ rest) size = .ok rest := by
  subst h
  have hle : bytes.length ≤ (bytes ++ rest).length := by
    rw [List.length_append]
    exact Nat.le_add_right _ _
  rw [next, nsAssert_of hle, ok_bind, List.drop_left]
  rfl

theorem readNtohU16_write (data : UInt16) :
    readNtohU16 (writeHtonU16 data ++ rest) = .ok (data, rest) := by
  have hlt : data.toNat < 256 ^ 2 := data.toNat_lt
  rw [readNtohU16, read_append (length_writeHtonU16 data), ok_bind]
  dsimp only
  rw [writeHtonU16, ofBytes_toBytes_of_lt hlt, UInt16.ofNat_toNat]
  rfl

theorem readNtohU32_write (data : UInt32) :
    readNtohU32 (writeHtonU32 data ++ rest) = .ok (data, rest) := by
  have hlt : data.toNat < 256 ^ 4 := data.toNat_lt
  rw [readNtohU32, read_append (length_writeHtonU32 data), ok_bind]
  dsimp only
  rw [writeHtonU32, ofBytes_toBytes_of_lt hlt, UInt32.ofNat_toNat]
  rfl

@[simp] theorem length_writeHtolsbU16 (data : UInt16) : (writeHtolsbU16 data).length = 2 := by
  rw [writeHtolsbU16, List.length_reverse, length_toBytes]

@[simp] theorem length_writeHtolsbU32 (data : UInt32) : (writeHtolsbU32 data).length = 4 := by
  rw [writeHtolsbU32, List.length_reverse, length_toBytes]

theorem readLsbtohU16_write (data : UInt16) :
    readLsbtohU16 (writeHtolsbU16 data ++ rest) = .ok (data, rest) := by
  have hlt : data.toNat < 256 ^ 2 := data.toNat_lt
  rw [readLsbtohU16, read_append (length_writeHtolsbU16 data), ok_bind]
  dsimp only
  rw [writeHtolsbU16, List.reverse_reverse, ofBytes_toBytes_of_lt hlt, UInt16.ofNat_toNat]
  rfl

theorem readLsbtohU32_write (data : UInt32) :
    readLsbtohU32 (writeHtolsbU32 data ++ rest) = .ok (data, rest) := by
  have hlt : data.toNat < 256 ^ 4 := data.toNat_lt
  rw [readLsbtohU32, read_append (length_writeHtolsbU32 data), ok_bind]
  dsimp only
  rw [writeHtolsbU32, List.reverse_reverse, ofBytes_toBytes_of_lt hlt, UInt32.ofNat_toNat]
  rfl

end Ns3.BufferIterator
