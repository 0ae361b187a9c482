/-
  TLVs and TLV blocks
  (PbbTlv, PbbTlvBlock, PbbAddressTlvBlock, src/network/utils/packetbb.h, packetbb.cc).

  `PbbAddressTlv` only makes public what `PbbTlv` has, and the two kinds of TLV block have the
  same code.

  A TLV is read back but for its multivalue flag, which `Serialize` writes and `Deserialize` does
  not read.
-/
import Ns3.Lib.Codec
import Ns3.Network.BufferIterator

namespace Ns3

namespace BufferIterator

/-- `GetDistanceFrom`, of two iterators of one buffer: the difference of the positions as an
`int32_t`, without its sign. -/
def getDistanceFrom (i o : List UInt8) : UInt32 :=
  UInt32.ofNat (Int.bmod ((o.length : Int) - i.length) (2 ^ 32)).natAbs

theorem getDistanceFrom_append {bytes i : List UInt8} (h : bytes.length < 2 ^ 31) :
    (getDistanceFrom i (bytes ++ i)).toNat = bytes.length := by
  have hdiff : ((bytes ++ i).length : Int) - i.length = bytes.length := by
    rw [List.length_append]
    omega
  have hbmod : Int.bmod (bytes.length : Int) (2 ^ 32) = bytes.length :=
    Int.bmod_eq_of_le (by omega) (by omega)
  rw [getDistanceFrom, hdiff, hbmod, Int.natAbs_natCast, UInt32.toNat_ofNat']
  omega

end BufferIterator

namespace Pbb

open Lib BufferIterator

/-! ## TLVs -/

def THAS_TYPE_EXT : UInt8 := 0x80

def THAS_SINGLE_INDEX : UInt8 := 0x40

def THAS_MULTI_INDEX : UInt8 := 0x20

def THAS_VALUE : UInt8 := 0x10

def THAS_EXT_LEN : UInt8 := 0x08

def TIS_MULTIVALUE : UInt8 := 0x04

def hasFlag (flags mask : UInt8) : Bool := flags &&& mask != 0

/-- `PbbTlv`.  A member with an `m_has…` flag is absent when the flag is not set. -/
structure PbbTlv where
  type : UInt8
  typeExt : Option UInt8
  indexStart : Option UInt8
  indexStop : Option UInt8
  isMultivalue : Bool
  value : Option (List UInt8)
  deriving DecidableEq, Repr

namespace PbbTlv

def getSerializedSize (tlv : PbbTlv) : UInt32 :=
  let size : UInt32 := 2
  let size := if tlv.typeExt.isSome then size + 1 else size
  let size := if tlv.indexStart.isSome then size + 1 else size
  let size := if tlv.indexStop.isSome then size + 1 else size
  match tlv.value with
  | none => size
  | some value =>
    (if value.length > 255 then size + 2 else size + 1) + UInt32.ofNat value.length

def typeExtPart (tlv : PbbTlv) : UInt8 × List UInt8 :=
  match tlv.typeExt with
  | none => (0, [])
  | some typeExt => (THAS_TYPE_EXT, [typeExt])

def indexPart (tlv : PbbTlv) : UInt8 × List UInt8 :=
  match tlv.indexStart, tlv.indexStop with
  | none, _ => (0, [])
  | some indexStart, some indexStop => (THAS_MULTI_INDEX, [indexStart, indexStop])
  | some indexStart, none => (THAS_SINGLE_INDEX, [indexStart])

def valuePart (tlv : PbbTlv) : UInt8 × List UInt8 :=
  match tlv.value with
  | none => (0, [])
  | some value =>
    let (flags, length) :=
      if value.length > 255 then
        (THAS_VALUE ||| THAS_EXT_LEN, writeHtonU16 (UInt16.ofNat value.length))
      else (THAS_VALUE, [UInt8.ofNat value.length])
    (if tlv.isMultivalue then flags ||| TIS_MULTIVALUE else flags, length ++ value)

def flags (tlv : PbbTlv) : UInt8 :=
  tlv.typeExtPart.1 ||| tlv.indexPart.1 ||| tlv.valuePart.1

def serialize (tlv : PbbTlv) : List UInt8 :=
  [tlv.type, tlv.flags] ++ tlv.typeExtPart.2 ++ tlv.indexPart.2 ++ tlv.valuePart.2

def readIndices (flags : UInt8) : Reader Fault (Option UInt8 × Option UInt8) := fun start =>
  if hasFlag flags THAS_MULTI_INDEX then do
    let (indexStart, start) ← readU8 start
    let (indexStop, start) ← readU8 start
    pure ((some indexStart, some indexStop), start)
  else if hasFlag flags THAS_SINGLE_INDEX then do
    let (indexStart, start) ← readU8 start
    pure ((some indexStart, none), start)
  else pure ((none, none), start)

def readValue (flags : UInt8) : Reader Fault (List UInt8) := fun start =>
  if hasFlag flags THAS_EXT_LEN then do
    let (len, start) ← readNtohU16 start
    read start len.toNat
  else do
    let (len, start) ← readU8 start
    read start len.toNat

def deserialize : Reader Fault PbbTlv := fun start => do
  let (type, start) ← readU8 start
  let (flags, start) ← readU8 start
  let (typeExt, start) ← readIf (hasFlag flags THAS_TYPE_EXT) readU8 start
  let ((indexStart, indexStop), start) ← readIndices flags start
  let (value, start) ← readIf (hasFlag flags THAS_VALUE) (readValue flags) start
  pure (⟨type, typeExt, indexStart, indexStop, false, value⟩, start)

end PbbTlv

/-! ## TLV blocks -/

abbrev PbbTlvBlock : Type := List PbbTlv

namespace PbbTlvBlock

def getSerializedSize (block : PbbTlvBlock) : UInt32 :=
  block.foldl (fun size tlv => size + tlv.getSerializedSize) 2

def contents (block : PbbTlvBlock) : List UInt8 := block.flatMap PbbTlv.serialize

def serialize (block : PbbTlvBlock) : List UInt8 :=
  match block with
  | [] => writeHtonU16 0
  | tlvs => writeHtonU16 (UInt16.ofNat (contents tlvs).length) ++ contents tlvs

/-- `Deserialize`, into an empty block.  A TLV is at least two bytes long, so that `size` rounds
are enough. -/
def deserialize : Reader Fault PbbTlvBlock := fun start => do
  let (size, tlvstart) ← readNtohU16 start
  if size > 0 then
    readWhile PbbTlv.deserialize .noProgress
      (fun start => (getDistanceFrom start tlvstart).toNat < size.toNat) size.toNat tlvstart
  else pure ([], tlvstart)

end PbbTlvBlock

/-! ## What is read of TLVs that were written -/

variable {rest : List UInt8}

/-! ## Numbers -/

theorem readsAs_readU8 (b : UInt8) : ReadsAs readU8 [b] (some b) := fun _ => rfl

theorem readsAs_readNtohU16 (value : UInt16) :
    ReadsAs readNtohU16 (writeHtonU16 value) (some value) := fun _ => readNtohU16_write value

/-! ## TLVs -/

variable {value : List UInt8}

namespace PbbTlv

variable {tlv : PbbTlv}

/-- An index stop only with an index start, multivalue only with a value. -/
structure WellFormed (tlv : PbbTlv) : Prop where
  stop_start : tlv.indexStop.isSome = true → tlv.indexStart.isSome = true
  multivalue_value : tlv.isMultivalue = true → tlv.value.isSome = true

def received (tlv : PbbTlv) : PbbTlv := { tlv with isMultivalue := false }

theorem received_eq_self : tlv.received = tlv ↔ tlv.isMultivalue = false := by
  constructor
  · intro h
    rw [← h]
    rfl
  · intro h
    rw [received, ← h]

def isLong (tlv : PbbTlv) : Bool := decide ((tlv.value.getD []).length > 255)

theorem isLong_of (tlv : PbbTlv) (h : tlv.value = some value) :
    tlv.isLong = decide (value.length > 255) := by
  rw [isLong, h]
  rfl

def flagBits (hasTypeExt hasIndexStart hasIndexStop hasValue isLong isMultivalue : Bool) : UInt8 :=
  (if hasTypeExt then THAS_TYPE_EXT else 0) |||
    (if hasIndexStart then
      (if hasIndexStop then THAS_MULTI_INDEX else THAS_SINGLE_INDEX) else 0) |||
    (if hasValue then
      THAS_VALUE ||| (if isLong then THAS_EXT_LEN else 0) |||
        (if isMultivalue then TIS_MULTIVALUE else 0)
    else 0)

theorem flagBits_spec : ∀ hasTypeExt hasIndexStart hasIndexStop hasValue isLong isMultivalue,
    let flags := flagBits hasTypeExt hasIndexStart hasIndexStop hasValue isLong isMultivalue
    hasFlag flags THAS_TYPE_EXT = hasTypeExt ∧
      hasFlag flags THAS_MULTI_INDEX = (hasIndexStart && hasIndexStop) ∧
      hasFlag flags THAS_SINGLE_INDEX = (hasIndexStart && !hasIndexStop) ∧
      hasFlag flags THAS_VALUE = hasValue ∧
      hasFlag flags THAS_EXT_LEN = (hasValue && isLong) := by
  decide

theorem flags_eq (tlv : PbbTlv) : tlv.flags = flagBits tlv.typeExt.isSome tlv.indexStart.isSome
    tlv.indexStop.isSome tlv.value.isSome tlv.isLong tlv.isMultivalue := by
  have htypeExt : tlv.typeExtPart.1 = if tlv.typeExt.isSome then THAS_TYPE_EXT else 0 := by
    rw [typeExtPart]
    cases tlv.typeExt <;> rfl
  have hindex : tlv.indexPart.1 = if tlv.indexStart.isSome then
      (if tlv.indexStop.isSome then THAS_MULTI_INDEX else THAS_SINGLE_INDEX) else 0 := by
    rw [indexPart]
    cases tlv.indexStart <;> cases tlv.indexStop <;> rfl
  have hvalue : tlv.valuePart.1 = if tlv.value.isSome then
      THAS_VALUE ||| (if tlv.isLong then THAS_EXT_LEN else 0) |||
        (if tlv.isMultivalue then TIS_MULTIVALUE else 0) else 0 := by
    rw [valuePart]
    cases hv : tlv.value with
    | none => rfl
    | some value =>
      dsimp only
      by_cases hlong : value.length > 255
      · rw [if_pos hlong, tlv.isLong_of hv, decide_eq_true hlong]
        cases tlv.isMultivalue <;> rfl
      · rw [if_neg hlong, tlv.isLong_of hv, decide_eq_false hlong]
        cases tlv.isMultivalue <;> rfl
  rw [flags, htypeExt, hindex, hvalue, flagBits]

theorem flags_spec (tlv : PbbTlv) :
    hasFlag tlv.flags THAS_TYPE_EXT = tlv.typeExt.isSome ∧
      hasFlag tlv.flags THAS_MULTI_INDEX = (tlv.indexStart.isSome && tlv.indexStop.isSome) ∧
      hasFlag tlv.flags THAS_SINGLE_INDEX = (tlv.indexStart.isSome && !tlv.indexStop.isSome) ∧
      hasFlag tlv.flags THAS_VALUE = tlv.value.isSome ∧
      hasFlag tlv.flags THAS_EXT_LEN = (tlv.value.isSome && tlv.isLong) := by
  rw [flags_eq]
  exact flagBits_spec _ _ _ _ _ _

theorem readIndices_write (h : tlv.WellFormed) :
    readIndices tlv.flags (tlv.indexPart.2 ++ rest) =
      .ok ((tlv.indexStart, tlv.indexStop), rest) := by
  obtain ⟨-, hmulti, hsingle, -, -⟩ := tlv.flags_spec
  have hstart := h.stop_start
  rw [readIndices, hmulti, hsingle, indexPart]
  cases hs : tlv.indexStart with
  | none =>
    cases he : tlv.indexStop with
    | none => rfl
    | some indexStop =>
      rw [hs, he] at hstart
      exact absurd (hstart rfl) (by simp)
  | some indexStart =>
    cases tlv.indexStop with
    | none => rfl
    | some indexStop => rfl

theorem readValue_write (hvalue : tlv.value = some value) (hsize : value.length < 65536) :
    readValue tlv.flags (tlv.valuePart.2 ++ rest) =
      .ok (value, rest) := by
  obtain ⟨-, -, -, -, hlen⟩ := tlv.flags_spec
  rw [hvalue, tlv.isLong_of hvalue, Option.isSome_some, Bool.true_and] at hlen
  rw [readValue, valuePart, hvalue]
  dsimp only
  by_cases hlong : value.length > 255
  · have hfield : (UInt16.ofNat value.length).toNat = value.length := by
      rw [UInt16.toNat_ofNat']
      exact Nat.mod_eq_of_lt hsize
    rw [if_pos hlong, hlen, decide_eq_true hlong, if_pos rfl]
    dsimp only
    rw [List.append_assoc, readNtohU16_write, ok_bind]
    dsimp only
    rw [hfield]
    exact read_append rfl
  · have hfield : (UInt8.ofNat value.length).toNat = value.length := by
      rw [UInt8.toNat_ofNat']
      exact Nat.mod_eq_of_lt (by omega)
    rw [if_neg hlong, hlen, decide_eq_false hlong, if_neg Bool.false_ne_true]
    dsimp only
    rw [List.append_assoc, List.singleton_append, readU8_cons, ok_bind]
    dsimp only
    rw [hfield]
    exact read_append rfl

theorem typeExtPart_bytes (tlv : PbbTlv) :
    tlv.typeExtPart.2 = writeOption (fun typeExt => [typeExt]) tlv.typeExt := by
  rw [typeExtPart]
  cases tlv.typeExt <;> rfl

theorem valuePart_bytes (tlv : PbbTlv) :
    tlv.valuePart.2 = writeOption (fun _ => tlv.valuePart.2) tlv.value := by
  rw [valuePart]
  cases tlv.value <;> rfl

theorem readsAs_deserialize (h : tlv.WellFormed)
    (hsize : ∀ value, tlv.value = some value → value.length < 65536) :
    ReadsAs deserialize tlv.serialize (some tlv.received) := by
  intro rest
  obtain ⟨htypeExt, -, -, hvalue, -⟩ := tlv.flags_spec
  show deserialize (tlv.serialize ++ rest) = .ok (tlv.received, rest)
  have hread : readIf (hasFlag tlv.flags THAS_TYPE_EXT) readU8
      (tlv.typeExtPart.2 ++ (tlv.indexPart.2 ++ (tlv.valuePart.2 ++ rest))) =
        .ok (tlv.typeExt, tlv.indexPart.2 ++ (tlv.valuePart.2 ++ rest)) := by
    rw [typeExtPart_bytes]
    exact readIf_write (fun b _ => readsAs_readU8 b) htypeExt _
  have hreadValue : readIf (hasFlag tlv.flags THAS_VALUE) (readValue tlv.flags)
      (tlv.valuePart.2 ++ rest) = .ok (tlv.value, rest) := by
    rw [valuePart_bytes]
    exact readIf_write (fun value hv rest => readValue_write hv (hsize value hv)) hvalue rest
  rw [deserialize, serialize]
  simp only [List.append_assoc, List.cons_append, List.nil_append]
  rw [readU8_cons, ok_bind]
  dsimp only
  rw [readU8_cons, ok_bind]
  dsimp only
  rw [hread, ok_bind]
  dsimp only
  rw [readIndices_write h, ok_bind]
  dsimp only
  rw [hreadValue]
  rfl

theorem getSerializedSize_eq (h : tlv.WellFormed) :
    tlv.getSerializedSize = UInt32.ofNat tlv.serialize.length := by
  have hstart := h.stop_start
  have htypeExt : tlv.typeExtPart.2.length = if tlv.typeExt.isSome then 1 else 0 := by
    rw [typeExtPart]
    cases tlv.typeExt <;> rfl
  have hindex : tlv.indexPart.2.length =
      (if tlv.indexStart.isSome then 1 else 0) + (if tlv.indexStop.isSome then 1 else 0) := by
    rw [indexPart]
    cases hs : tlv.indexStart with
    | none =>
      cases he : tlv.indexStop with
      | none => rfl
      | some indexStop =>
        rw [hs, he] at hstart
        exact absurd (hstart rfl) (by simp)
    | some indexStart => cases tlv.indexStop <;> rfl
  have hlen : tlv.serialize.length = 2 + (if tlv.typeExt.isSome then 1 else 0) +
      ((if tlv.indexStart.isSome then 1 else 0) + (if tlv.indexStop.isSome then 1 else 0)) +
        tlv.valuePart.2.length := by
    rw [serialize, List.length_append, List.length_append, List.length_append, htypeExt, hindex]
    rfl
  rw [hlen, getSerializedSize, valuePart]
  generalize tlv.typeExt.isSome = hasTypeExt
  generalize tlv.indexStart.isSome = hasIndexStart
  generalize tlv.indexStop.isSome = hasIndexStop
  cases tlv.value with
  | none => cases hasTypeExt <;> cases hasIndexStart <;> cases hasIndexStop <;> rfl
  | some value =>
    dsimp only
    by_cases hlong : value.length > 255
    · rw [if_pos hlong, if_pos hlong, List.length_append, length_writeHtonU16, ← Nat.add_assoc,
        UInt32.ofNat_add _ value.length]
      cases hasTypeExt <;> cases hasIndexStart <;> cases hasIndexStop <;> rfl
    · rw [if_neg hlong, if_neg hlong, List.length_append, List.length_singleton,
        ← Nat.add_assoc, UInt32.ofNat_add _ value.length]
      cases hasTypeExt <;> cases hasIndexStart <;> cases hasIndexStop <;> rfl

theorem two_le_length (tlv : PbbTlv) : 2 ≤ tlv.serialize.length := by
  rw [serialize, List.length_append, List.length_append, List.length_append]
  simp only [List.length_cons, List.length_nil]
  omega

theorem value_le_length (h : tlv.value = some value) : value.length ≤ tlv.serialize.length := by
  have hpart : value.length ≤ tlv.valuePart.2.length := by
    rw [valuePart, h]
    dsimp only
    rw [List.length_append]
    exact Nat.le_add_left _ _
  rw [serialize, List.length_append]
  omega

end PbbTlv

/-! ## Sizes of lists -/

variable {α : Type} {write : α → List UInt8}

theorem foldl_size {size : α → UInt32} (as : List α)
    (h : ∀ a ∈ as, size a = UInt32.ofNat (write a).length) (n : Nat) :
    as.foldl (fun total a => total + size a) (UInt32.ofNat n) =
      UInt32.ofNat (n + (as.flatMap write).length) := by
  induction as generalizing n with
  | nil => rfl
  | cons a as ih =>
    rw [List.foldl_cons, h a (.head _), ← UInt32.ofNat_add,
      ih (fun b hb => h b (.tail _ hb)), List.flatMap_cons, List.length_append,
      Nat.add_assoc]

theorem length_le_flatMap (as : List α) (h : ∀ a ∈ as, 0 < (write a).length) :
    as.length ≤ (as.flatMap write).length := by
  induction as with
  | nil => exact le_rfl
  | cons a as ih =>
    have ha := h a (.head _)
    have hrest := ih fun b hb => h b (.tail _ hb)
    rw [List.flatMap_cons, List.length_append, List.length_cons]
    omega

theorem length_write_le {as : List α} {a : α} (h : a ∈ as) :
    (write a).length ≤ (as.flatMap write).length := by
  obtain ⟨pre, post, rfl⟩ := List.append_of_mem h
  rw [List.flatMap_append, List.flatMap_cons, List.length_append, List.length_append]
  omega

theorem more_iff {as post : List α} (lead : List UInt8) (h : ∀ a ∈ as, 0 < (write a).length)
    (hpost : post <:+ as) (hsize : (lead ++ as.flatMap write).length < 2 ^ 31) :
    (decide ((getDistanceFrom (post.flatMap write ++ rest)
      (lead ++ as.flatMap write ++ rest)).toNat < (lead ++ as.flatMap write).length)) =
        !post.isEmpty := by
  obtain ⟨pre, rfl⟩ := hpost
  have hfront : lead ++ (pre ++ post).flatMap write ++ rest =
      (lead ++ pre.flatMap write) ++ (post.flatMap write ++ rest) := by
    rw [List.flatMap_append]
    simp only [List.append_assoc]
  have hlen : (lead ++ (pre ++ post).flatMap write).length =
      (lead ++ pre.flatMap write).length + (post.flatMap write).length := by
    rw [List.flatMap_append, ← List.append_assoc, List.length_append]
  rw [hfront, getDistanceFrom_append (by omega), hlen]
  cases post with
  | nil => simp
  | cons a post =>
    have ha := h a (List.mem_append_right pre (.head _))
    have hpos : 0 < ((a :: post).flatMap write).length := by
      rw [List.flatMap_cons, List.length_append]
      omega
    simpa using hpos

/-! ## TLV blocks -/

namespace PbbTlvBlock

variable {block : PbbTlvBlock}

/-- The TLVs are well formed, and their bytes less than 65536. -/
structure WellFormed (block : PbbTlvBlock) : Prop where
  tlvs : ∀ tlv ∈ block, tlv.WellFormed
  size : (contents block).length < 65536

def received (block : PbbTlvBlock) : PbbTlvBlock := block.map PbbTlv.received

theorem received_eq_self :
    received block = block ↔ ∀ tlv ∈ block, tlv.isMultivalue = false := by
  rw [received]
  constructor
  · intro h tlv htlv
    have hself := List.map_inj_left.mp (h.trans (List.map_id block).symm) tlv htlv
    exact PbbTlv.received_eq_self.mp hself
  · intro h
    have hself : ∀ tlv ∈ block, tlv.received = id tlv := fun tlv htlv =>
      PbbTlv.received_eq_self.mpr (h tlv htlv)
    exact (List.map_inj_left.mpr hself).trans (List.map_id block)

theorem serialize_eq (block : PbbTlvBlock) : serialize block =
    writeHtonU16 (UInt16.ofNat (contents block).length) ++ contents block := by
  cases block with
  | nil => rfl
  | cons tlv block => rfl

theorem length_serialize (block : PbbTlvBlock) :
    (serialize block).length = 2 + (contents block).length := by
  rw [serialize_eq, List.length_append, length_writeHtonU16]

theorem getSerializedSize_eq (h : ∀ tlv ∈ block, tlv.WellFormed) :
    getSerializedSize block = UInt32.ofNat (serialize block).length := by
  rw [length_serialize]
  exact foldl_size block (fun tlv htlv => PbbTlv.getSerializedSize_eq (h tlv htlv)) 2

theorem readsAs_deserialize (h : WellFormed block) :
    ReadsAs deserialize (serialize block) (some (received block)) := by
  intro rest
  have hfield : (UInt16.ofNat (contents block).length).toNat = (contents block).length := by
    rw [UInt16.toNat_ofNat']
    exact Nat.mod_eq_of_lt h.size
  have hwrites : ∀ tlv ∈ block, 0 < tlv.serialize.length := fun tlv _ => by
    have := tlv.two_le_length
    omega
  have hread : ∀ tlv ∈ block, ReadsAs PbbTlv.deserialize tlv.serialize (some tlv.received) := by
    intro tlv htlv
    refine PbbTlv.readsAs_deserialize (h.tlvs tlv htlv) fun value hvalue => ?_
    have hvaluele := PbbTlv.value_le_length hvalue
    have hpart : tlv.serialize.length ≤ (contents block).length :=
      length_write_le htlv
    have hsize := h.size
    omega
  rw [serialize_eq, List.append_assoc, deserialize, readNtohU16_write, ok_bind]
  dsimp only
  rw [hfield]
  by_cases hempty : block = []
  · subst hempty
    rfl
  · have hpos : 0 < (contents block).length := by
      have hcount := length_le_flatMap block hwrites
      have hlength : 0 < block.length := List.length_pos_iff.mpr hempty
      exact hlength.trans_le hcount
    have hgo : UInt16.ofNat (contents block).length > 0 := by
      rw [gt_iff_lt, UInt16.lt_iff_toNat_lt, hfield]
      exact hpos
    rw [if_pos hgo, received, ← mapM_some]
    refine readWhile_write block (length_le_flatMap block hwrites) hread fun post hpost => ?_
    exact more_iff [] hwrites hpost (h.size.trans (by decide))

end PbbTlvBlock

end Pbb

end Ns3
