/-
  How tags are written to and read from memory
  (src/network/model/tag-buffer.cc, tag.h).

  A tag class is user code.  What `tag.h` asks of it is kept with it: not to write more
  bytes than `GetSerializedSize` announces, and to read back what it wrote without looking
  at the bytes behind.
-/
import Ns3.Core.Fault

namespace Ns3

/-- `TypeId::GetUid()`. -/
abbrev TypeId : Type := Nat

/-- The storage that `Serialize` writes to. -/
structure TagBuffer where
  /-- the bytes from `start` to `m_end` -/
  data : List UInt8
  current : Nat
  deriving DecidableEq, Repr

namespace TagBuffer

def writeU8 (i : TagBuffer) (v : UInt8) : Except Fault TagBuffer := do
  nsAssert (decide (i.current + 1 ≤ i.data.length))
  pure { data := i.data.set i.current v, current := i.current + 1 }

def write : TagBuffer → List UInt8 → Except Fault TagBuffer
  | i, [] => .ok i
  | i, v :: buffer => do
      let i ← i.writeU8 v
      i.write buffer

variable {buffer : List UInt8}

theorem write_of {i : TagBuffer} (h : i.current + buffer.length ≤ i.data.length) :
    i.write buffer = .ok
      { data := i.data.take i.current ++ buffer ++ i.data.drop (i.current + buffer.length)
        current := i.current + buffer.length } := by
  induction buffer generalizing i with
  | nil => simp [write]
  | cons v buffer ih =>
    rw [List.length_cons] at h
    have hroom : i.current + 1 ≤ i.data.length := by omega
    have hstep : i.writeU8 v = .ok
        { data := i.data.set i.current v, current := i.current + 1 } := by
      rw [writeU8, nsAssert_of hroom]
      rfl
    rw [write, hstep, ok_bind, ih (by simp only [List.length_set]; omega)]
    have hlen : (i.data.take i.current).length = i.current := by
      rw [List.length_take]
      omega
    have htake : (i.data.set i.current v).take (i.current + 1) = i.data.take i.current ++ [v] := by
      rw [List.set_eq_take_append_cons_drop, if_pos (by omega), List.take_append, hlen,
        List.take_take, Nat.min_eq_right (Nat.le_succ _), Nat.add_sub_cancel_left]
      rfl
    have hdrop : (i.data.set i.current v).drop (i.current + 1 + buffer.length) =
        i.data.drop (i.current + (buffer.length + 1)) := by
      rw [List.drop_set_of_lt (by omega), Nat.add_assoc, Nat.add_comm 1]
    rw [htake, hdrop, List.length_cons, List.append_assoc, List.append_assoc, List.append_assoc,
      Nat.add_assoc, Nat.add_comm 1]
    rfl

theorem length_le_of_write {i j : TagBuffer} (h : i.write buffer = .ok j)
    (hi : i.current ≤ i.data.length) : i.current + buffer.length ≤ i.data.length := by
  induction buffer generalizing i with
  | nil => exact hi
  | cons v buffer ih =>
    obtain ⟨k, hk, hrest⟩ := bind_eq_ok.mp h
    obtain ⟨u, hroom, rfl⟩ := bind_pure_eq_ok.mp hk
    have hle : i.current + 1 ≤ i.data.length := of_decide_eq_true (nsAssert_eq_ok.mp hroom)
    have hfits := ih hrest (by rw [List.length_set]; exact hle)
    rw [List.length_set] at hfits
    rw [List.length_cons]
    change i.current + 1 + buffer.length ≤ i.data.length at hfits
    omega

end TagBuffer

def serializeTo (storage bytes : List UInt8) : Except Fault (List UInt8) := do
  let i ← TagBuffer.write { data := storage, current := 0 } bytes
  pure i.data

theorem serializeTo_of {storage bytes : List UInt8} (h : bytes.length ≤ storage.length) :
    serializeTo storage bytes = .ok (bytes ++ storage.drop bytes.length) := by
  rw [serializeTo, TagBuffer.write_of (by simpa using h)]
  simp [pure, Except.pure, bind, Except.bind]

theorem length_le_of_serializeTo {storage bytes data : List UInt8}
    (h : serializeTo storage bytes = .ok data) : bytes.length ≤ storage.length := by
  obtain ⟨i, hi, -⟩ := bind_eq_ok.mp h
  have hle := TagBuffer.length_le_of_write hi (Nat.zero_le _)
  change 0 + bytes.length ≤ storage.length at hle
  omega

/-- The virtual methods of a family of tag classes, and what their documentation asks of
them.  `τ` holds the values of all the classes. -/
structure TagInterface (τ : Type) where
  getInstanceTypeId : τ → TypeId
  getSerializedSize : τ → Nat
  /-- the bytes that `Serialize` writes -/
  serialize : τ → List UInt8
  /-- `Deserialize`, on a tag that has a value already -/
  deserialize : τ → List UInt8 → Except Fault τ
  /-- the size is a 32-bit word, and not the largest one (asserted by `CreateTagData`) -/
  size_lt : ∀ t, getSerializedSize t < 2 ^ 32 - 1
  /-- "DO NOT attempt to write more bytes than you requested" -/
  serialize_le : ∀ t, (serialize t).length ≤ getSerializedSize t
  /-- "DO NOT attempt to read more bytes than you wrote" -/
  deserialize_serialize : ∀ t u rest, getInstanceTypeId u = getInstanceTypeId t →
    deserialize u (serialize t ++ rest) = .ok t

/-! ## A tag class of variable size -/

/-- `DeviceNameTag` (src/network/utils/packet-socket.cc), for a name whose length fits the byte
that is written for it. -/
structure DeviceNameTag where
  deviceName : List UInt8
  /-- the length written is the length -/
  length_lt : deviceName.length < 256

namespace DeviceNameTag

def serialize (t : DeviceNameTag) : List UInt8 :=
  UInt8.ofNat t.deviceName.length :: t.deviceName

def deserialize (_ : DeviceNameTag) : List UInt8 → Except Fault DeviceNameTag
  | [] => .error .assertFailed
  | l :: i =>
    if l.toNat ≤ i.length then
      .ok { deviceName := i.take l.toNat
            length_lt := (List.length_take_le _ _).trans_lt l.toNat_lt }
    else .error .assertFailed

def tags : TagInterface DeviceNameTag where
  getInstanceTypeId _ := 0
  getSerializedSize t := 1 + t.deviceName.length
  serialize := serialize
  deserialize := deserialize
  size_lt t := by
    have hlt := t.length_lt
    omega
  serialize_le t := by
    rw [serialize, List.length_cons]
    omega
  deserialize_serialize t u rest _ := by
    have hlen : (UInt8.ofNat t.deviceName.length).toNat = t.deviceName.length :=
      UInt8.toNat_ofNat_of_lt' t.length_lt
    simp [serialize, deserialize, hlen]

end DeviceNameTag

end Ns3
