/-
  The block ack frame
  (CtrlBAckResponseHeader, src/wifi/model/ctrl-headers.h, ctrl-headers.cc;
  BlockAckType, src/wifi/model/block-ack-type.h, block-ack-type.cc; FillBlockAckBitmap,
  src/wifi/model/recipient-block-ack-agreement.cc).

  The 16-bit fields are naturals; where the code masks or shifts them the model does.
  The bytes a header writes and reads are those of Network/BufferIterator.
-/
import Ns3.Network.BufferIterator
import Ns3.Wifi.RecipientBlockAckAgreement
import Ns3.Lib.Bitmap

namespace Ns3

open Ns3.Lib BufferIterator

abbrev Mac48Address : Type := { bytes : List UInt8 // bytes.length = 6 }

instance : Inhabited Mac48Address := ⟨⟨List.replicate 6 0, rfl⟩⟩

inductive BlockAckVariant where
  | basic
  | compressed
  | extendedCompressed
  | multiTid
  | multiSta
  deriving DecidableEq, Repr, Inhabited

structure BlockAckType where
  variant : BlockAckVariant
  bitmapLen : List Nat
  deriving DecidableEq, Repr, Inhabited

def BlockAckType.ofVariant : BlockAckVariant → BlockAckType
  | .basic => { variant := .basic, bitmapLen := [128] }
  | .compressed => { variant := .compressed, bitmapLen := [8] }
  | .extendedCompressed => { variant := .extendedCompressed, bitmapLen := [8] }
  | .multiTid => { variant := .multiTid, bitmapLen := [] }
  | .multiSta => { variant := .multiSta, bitmapLen := [] }

/-- What is reported to one station. -/
structure BaInfoInstance where
  aidTidInfo : Nat
  startingSeq : Nat
  bitmap : List UInt8
  ra : Mac48Address
  deriving DecidableEq, Repr, Inhabited

/-- An instance whose bitmap has `bitmapLen` bytes, all fields zero. -/
def BaInfoInstance.zero (bitmapLen : Nat) : BaInfoInstance :=
  { aidTidInfo := 0, startingSeq := 0, bitmap := List.replicate bitmapLen 0, ra := default }

/-- `GetAid11`. -/
def BaInfoInstance.aid11 (e : BaInfoInstance) : Nat := e.aidTidInfo &&& 0x07ff

def BaInfoInstance.ackType (e : BaInfoInstance) : Bool := (e.aidTidInfo >>> 11) &&& 0x0001 != 0

/-- `GetTidInfo` of a Multi-STA Block Ack. -/
def BaInfoInstance.tid (e : BaInfoInstance) : Nat := (e.aidTidInfo >>> 12) &&& 0x000f

structure CtrlBAckResponseHeader where
  baAckPolicy : Bool
  baType : BlockAckType
  tidInfo : Nat
  baInfo : List BaInfoInstance
  deriving DecidableEq, Repr, Inhabited

namespace CtrlBAckResponseHeader

/-! ## Fields -/

def setType (h : CtrlBAckResponseHeader) (type : BlockAckType) : CtrlBAckResponseHeader :=
  { h with baType := type, baInfo := type.bitmapLen.map BaInfoInstance.zero }

def create : CtrlBAckResponseHeader :=
  setType { baAckPolicy := false, baType := default, tidInfo := 0, baInfo := [] }
    (.ofVariant .basic)

def instanceAt (h : CtrlBAckResponseHeader) (index : Nat) : Except Fault BaInfoInstance := do
  nsAssert (decide (h.baType.variant = .multiSta ∨ index = 0))
  match h.baInfo[index]? with
  | some e => pure e
  | none => .error .assertFailed

def bitmapLenAt (h : CtrlBAckResponseHeader) (index : Nat) : Except Fault Nat :=
  match h.baType.bitmapLen[index]? with
  | some bitmapLen => pure bitmapLen
  | none => .error .badIterator

def modifyAt (h : CtrlBAckResponseHeader) (index : Nat) (f : BaInfoInstance → BaInfoInstance) :
    CtrlBAckResponseHeader :=
  { h with baInfo := h.baInfo.modify index f }

def setStartingSequence (h : CtrlBAckResponseHeader) (seq index : Nat) :
    Except Fault CtrlBAckResponseHeader := do
  let _ ← h.instanceAt index
  pure (h.modifyAt index fun e => { e with startingSeq := seq })

def resetBitmap (h : CtrlBAckResponseHeader) (index : Nat) :
    Except Fault CtrlBAckResponseHeader := do
  let _ ← h.instanceAt index
  let bitmapLen ← h.bitmapLenAt index
  pure (h.modifyAt index fun e => { e with bitmap := List.replicate bitmapLen 0 })

/-! ## Packets in the bitmap -/

/-- How many MPDUs a bitmap of `bitmapLen` bytes can acknowledge. -/
def nAckedMpdus (h : CtrlBAckResponseHeader) (bitmapLen : Nat) : Nat :=
  if h.baType.variant = .basic then bitmapLen * 8 / 16 else bitmapLen * 8

def isInBitmap (h : CtrlBAckResponseHeader) (seq index : Nat) : Except Fault Bool := do
  let e ← h.instanceAt index
  let bitmapLen ← h.bitmapLenAt index
  pure (decide (seqOffset seq e.startingSeq < h.nAckedMpdus bitmapLen))

def indexInBitmap (h : CtrlBAckResponseHeader) (seq index : Nat) : Except Fault Nat := do
  let e ← h.instanceAt index
  let bitmapLen ← h.bitmapLenAt index
  let i :=
    if seq ≥ e.startingSeq then seq - e.startingSeq
    else wadd 16 (wsub 16 SEQNO_SPACE_SIZE e.startingSeq) seq
  nsAssert (decide (i < h.nAckedMpdus bitmapLen))
  pure i

def setBitmapBit (h : CtrlBAckResponseHeader) (index bit : Nat) :
    Except Fault CtrlBAckResponseHeader := do
  let e ← h.instanceAt index
  if bit / 8 < e.bitmap.length then
    pure (h.modifyAt index fun e => { e with bitmap := Bitmap.setBit e.bitmap bit })
  else .error .badIterator

def setReceivedPacket (h : CtrlBAckResponseHeader) (seq index : Nat) :
    Except Fault CtrlBAckResponseHeader := do
  if ← h.isInBitmap seq index then
    match h.baType.variant with
    | .basic =>
      let i ← h.indexInBitmap seq 0
      -- byte `2 i`, bit 0
      h.setBitmapBit index (i * 2 * 8)
    | .compressed | .extendedCompressed | .multiSta =>
      let i ← h.indexInBitmap seq index
      h.setBitmapBit index i
    | .multiTid => .error .fatalError
  else pure h

def isPacketReceived (h : CtrlBAckResponseHeader) (seq index : Nat) : Except Fault Bool := do
  let e ← h.instanceAt index
  if h.baType.variant = .multiSta ∧ e.ackType ∧ e.tid = 14 then pure true
  else if ← h.isInBitmap seq index then
    match h.baType.variant with
    | .basic => pure false
    | .compressed | .extendedCompressed | .multiSta =>
      let i ← h.indexInBitmap seq index
      if i / 8 < e.bitmap.length then pure (Bitmap.getBit e.bitmap i) else .error .badIterator
    | .multiTid => .error .fatalError
  else pure false

/-! ## Control fields -/

/-- The Fragment Number subfield for a bitmap length, Compressed variant. -/
def compressedFragment : Nat → Option Nat
  | 8 => some 0x0000
  | 32 => some 0x0004
  | 64 => some 0x0008
  | 128 => some 0x000a
  | _ => none

/-- The Fragment Number subfield for a bitmap length, Multi-STA variant. -/
def multiStaFragment : Nat → Option Nat
  | 8 => some 0x0000
  | 16 => some 0x0002
  | 32 => some 0x0004
  | 4 => some 0x0006
  | 64 => some 0x0008
  | 128 => some 0x000a
  | _ => none

/-- The bitmap length for a Fragment Number subfield, Compressed variant. -/
def compressedLength : Nat → Option Nat
  | 0 => some 8
  | 4 => some 32
  | 8 => some 64
  | 10 => some 128
  | _ => none

/-- The bitmap length for a Fragment Number subfield, Multi-STA variant. -/
def multiStaLength : Nat → Option Nat
  | 0 => some 8
  | 2 => some 16
  | 4 => some 32
  | 6 => some 4
  | 8 => some 64
  | 10 => some 128
  | _ => none

/-- A value that the `switch` has no case for aborts. -/
def orAbort : Option Nat → Except Fault Nat
  | some n => pure n
  | none => .error .aborted

def getStartingSequenceControl (h : CtrlBAckResponseHeader) (index : Nat) : Except Fault Nat := do
  let e ← h.instanceAt index
  let ret := (e.startingSeq <<< 4) &&& 0xfff0
  match h.baType.variant with
  | .compressed =>
    let fragNumber ← orAbort (compressedFragment (← h.bitmapLenAt 0))
    pure (ret ||| fragNumber)
  | .multiSta =>
    nsAssert (decide (h.baInfo.length = h.baType.bitmapLen.length))
    nsAssert (!e.bitmap.isEmpty)
    let fragNumber ← orAbort (multiStaFragment (← h.bitmapLenAt index))
    pure (ret ||| fragNumber)
  | _ => pure ret

def setStartingSequenceControl (h : CtrlBAckResponseHeader) (seqControl index : Nat) :
    Except Fault CtrlBAckResponseHeader := do
  let _ ← h.instanceAt index
  let fragNumber := seqControl &&& 0x000f
  let h ← match h.baType.variant with
    | .compressed =>
      if fragNumber &&& 0x0001 = 1 then .error .fatalError
      else do
        let bitmapLen ← orAbort (compressedLength fragNumber)
        pure (h.setType { variant := .compressed, bitmapLen := [bitmapLen] })
    | .multiSta =>
      if fragNumber &&& 0x0001 = 1 then .error .fatalError
      else do
        let bitmapLen ← orAbort (multiStaLength fragNumber)
        let h := { h with baType := { h.baType with
          bitmapLen := h.baType.bitmapLen.set index bitmapLen } }
        pure (h.modifyAt index fun e => { e with bitmap := List.replicate bitmapLen 0 })
    | _ => pure h
  pure (h.modifyAt index fun e => { e with startingSeq := (seqControl >>> 4) &&& 0x0fff })

/-- The variant bits of the BA Control field. -/
def variantBits : BlockAckVariant → Nat
  | .basic => 0
  | .compressed => 0x02 <<< 1
  | .extendedCompressed => 0x01 <<< 1
  | .multiTid => 0x03 <<< 1
  | .multiSta => 0x0b <<< 1

def getBaControl (h : CtrlBAckResponseHeader) : Nat :=
  let res := (if h.baAckPolicy then 0x1 else 0) ||| variantBits h.baType.variant
  if h.baType.variant ≠ .multiSta then res ||| ((h.tidInfo <<< 12) &&& (0xf <<< 12)) else res

def setBaControl (h : CtrlBAckResponseHeader) (ba : Nat) : Except Fault CtrlBAckResponseHeader := do
  let h := { h with baAckPolicy := ba &&& 0x01 == 1 }
  let h ← match (ba >>> 1) &&& 0x0f with
    | 0x03 => pure (h.setType (.ofVariant .multiTid))
    | 0x01 => pure (h.setType (.ofVariant .extendedCompressed))
    | 0x02 => pure (h.setType (.ofVariant .compressed))
    | 0 => pure (h.setType (.ofVariant .basic))
    | 0x0b => pure (h.setType (.ofVariant .multiSta))
    | _ => .error .fatalError
  pure (if h.baType.variant ≠ .multiSta then { h with tidInfo := (ba >>> 12) &&& 0x0f } else h)

/-! ## The wire -/

def serializeBitmap (h : CtrlBAckResponseHeader) (index : Nat) : Except Fault (List UInt8) := do
  let e ← h.instanceAt index
  match h.baType.variant with
  | .multiTid => .error .fatalError
  | _ => pure e.bitmap

def serializeInstance (h : CtrlBAckResponseHeader) (index : Nat) :
    Except Fault (List UInt8) := do
  let e ← h.instanceAt index
  if e.aid11 ≠ 2045 then
    if !e.bitmap.isEmpty then
      let control ← h.getStartingSequenceControl index
      let bitmap ← h.serializeBitmap index
      pure (writeHtolsbU16 (UInt16.ofNat e.aidTidInfo) ++ writeHtolsbU16 (UInt16.ofNat control) ++
        bitmap)
    else pure (writeHtolsbU16 (UInt16.ofNat e.aidTidInfo))
  else
    pure (writeHtolsbU16 (UInt16.ofNat e.aidTidInfo) ++ writeHtolsbU32 0 ++ e.ra.val)

/-- The loop of `Serialize` over the Per AID TID Info subfields: `n` of them from `index` on. -/
def serializeInstances (h : CtrlBAckResponseHeader) : Nat → Nat → Except Fault (List UInt8)
  | _, 0 => pure []
  | index, n + 1 => do
      let bytes ← h.serializeInstance index
      let rest ← serializeInstances h (index + 1) n
      pure (bytes ++ rest)

def serialize (h : CtrlBAckResponseHeader) : Except Fault (List UInt8) := do
  let control := writeHtolsbU16 (UInt16.ofNat h.getBaControl)
  match h.baType.variant with
  | .basic | .compressed | .extendedCompressed =>
    let starting ← h.getStartingSequenceControl 0
    let bitmap ← h.serializeBitmap 0
    pure (control ++ writeHtolsbU16 (UInt16.ofNat starting) ++ bitmap)
  | .multiSta =>
    let rest ← h.serializeInstances 0 h.baInfo.length
    pure (control ++ rest)
  | .multiTid => .error .fatalError

def getSerializedSize (h : CtrlBAckResponseHeader) : Nat :=
  match h.baType.variant with
  | .basic | .compressed | .extendedCompressed => 2 + (2 + h.baType.bitmapLen.getD 0 0)
  | .multiTid => 2 + (2 + 2 + 8) * (h.tidInfo + 1)
  | .multiSta =>
    2 + (h.baType.bitmapLen.map fun bitmapLen =>
      2 + (if bitmapLen > 0 then 2 else 0) + bitmapLen).sum

/-- The loop of `DeserializeBitmap`: `n` bytes, the first of them into byte `j`. -/
def readBitmap (bitmap : List UInt8) : Nat → Nat → List UInt8 →
    Except Fault (List UInt8 × List UInt8)
  | _, 0, i => pure (bitmap, i)
  | j, n + 1, i => do
      let (byte, i) ← readU8 i
      if j < bitmap.length then readBitmap (bitmap.set j byte) (j + 1) n i
      else .error .badIterator

def deserializeBitmap (h : CtrlBAckResponseHeader) (index : Nat) (i : List UInt8) :
    Except Fault (CtrlBAckResponseHeader × List UInt8) := do
  let e ← h.instanceAt index
  match h.baType.variant with
  | .multiTid => .error .fatalError
  | _ =>
    let bitmapLen ← h.bitmapLenAt index
    let (bitmap, i) ← readBitmap e.bitmap 0 bitmapLen i
    pure (h.modifyAt index fun e => { e with bitmap }, i)

/-- One round of the loop of `Deserialize` over the Per AID TID Info subfields. -/
def deserializeInstance (h : CtrlBAckResponseHeader) (index : Nat) (i : List UInt8) :
    Except Fault (CtrlBAckResponseHeader × List UInt8) := do
  let (aidTidInfo, i) ← readLsbtohU16 i
  let h := { h with
    baInfo := h.baInfo ++ [{ BaInfoInstance.zero 0 with aidTidInfo := aidTidInfo.toNat }]
    baType := { h.baType with bitmapLen := h.baType.bitmapLen ++ [0] } }
  let e ← h.instanceAt index
  if e.aid11 ≠ 2045 then
    if !e.ackType ∧ e.tid < 8 then
      let (control, i) ← readLsbtohU16 i
      let h ← h.setStartingSequenceControl control.toNat index
      h.deserializeBitmap index i
    else pure (h, i)
  else
    let (_, i) ← readLsbtohU32 i
    if hlen : (i.take 6).length = 6 then
      let h := h.modifyAt index fun e => { e with ra := ⟨i.take 6, hlen⟩ }
      pure ({ h with baType := { h.baType with bitmapLen := h.baType.bitmapLen.set index 8 } },
        i.drop 6)
    else .error .badIterator

/-- The loop of `Deserialize` over the Per AID TID Info subfields; every round reads at
least two bytes. -/
def deserializeInstances (h : CtrlBAckResponseHeader) (index : Nat) :
    Nat → List UInt8 → Except Fault CtrlBAckResponseHeader
  | _, [] => pure h
  | 0, _ => .error .noProgress
  | fuel + 1, i => do
      let (h, i) ← h.deserializeInstance index i
      deserializeInstances h (index + 1) fuel i

/-- `Deserialize`, of a buffer that holds the header alone. -/
def deserialize (h : CtrlBAckResponseHeader) (i : List UInt8) :
    Except Fault CtrlBAckResponseHeader := do
  let (ba, i) ← readLsbtohU16 i
  let h ← h.setBaControl ba.toNat
  match h.baType.variant with
  | .basic | .compressed | .extendedCompressed =>
    let (control, i) ← readLsbtohU16 i
    let h ← h.setStartingSequenceControl control.toNat 0
    let (h, _) ← h.deserializeBitmap 0 i
    pure h
  | .multiSta => deserializeInstances h 0 i.length i
  | .multiTid => .error .fatalError

end CtrlBAckResponseHeader

/-! ## Filling the bitmap -/

def RecipientBlockAckAgreement.fillLoop (w : BlockAckWindow) (ssn index : Nat)
    (blockAckHeader : CtrlBAckResponseHeader) (i : Nat) :
    Except Fault CtrlBAckResponseHeader := do
  if ← w.at i then blockAckHeader.setReceivedPacket ((ssn + i) % SEQNO_SPACE_SIZE) index
  else pure blockAckHeader

def RecipientBlockAckAgreement.fillBlockAckBitmap (a : RecipientBlockAckAgreement)
    (blockAckHeader : CtrlBAckResponseHeader) (index : Nat) : Except Fault CtrlBAckResponseHeader :=
  match blockAckHeader.baType.variant with
  | .basic | .multiTid => .error .fatalError
  | .compressed | .extendedCompressed | .multiSta => do
      let ssn := a.scoreboard.getWinStart
      let h ← blockAckHeader.setStartingSequence ssn index
      let h ← h.resetBitmap index
      (List.range a.scoreboard.getWinSize).foldlM (fillLoop a.scoreboard ssn index) h

end Ns3
