/-
  The bytes of an acknowledged mode header
  (LteRlcAmHeader::Serialize and Deserialize, src/lte/model/lte-rlc-am-header.cc).

  Length indicators and NACKs take 12 bits each with their extension bits, so that they are
  written and read two at a time.
-/
import Ns3.Lib.BitField
import Ns3.Lte.RlcAmOpportunity
import Ns3.Network.BufferIterator

namespace Ns3

namespace Lte

open Lib BufferIterator

/-- `LteRlcAmHeader`, with the fields of data and of STATUS PDUs. -/
structure AmHeader extends LteRlcAmHeader where
  dataControlBit : Nat
  lastSegmentFlag : Nat
  segmentOffset : Nat
  lastOffset : Nat
  controlPduType : Nat
  ackSn : SequenceNumber10
  nackSnList : List Nat
  deriving DecidableEq, Repr

namespace AmHeader

def CONTROL_PDU : Nat := 0

def DATA_PDU : Nat := 1

def STATUS_PDU : Nat := 0

def DATA_FIELD_FOLLOWS : Nat := 0

def E_LI_FIELDS_FOLLOWS : Nat := 1

/-- The constructor; it does not set `m_lastSegmentFlag`. -/
def new (lastSegmentFlag : Nat) : AmHeader where
  headerLength := 0
  dataControlBit := 0xff
  resegmentationFlag := 0xff
  pollingBit := 0xff
  framingInfo := 0xff
  sequenceNumber := .ofValue 0xfffa
  lastSegmentFlag := lastSegmentFlag
  segmentOffset := 0xffff
  lastOffset := 0xffff
  extensionBits := []
  lengthIndicators := []
  controlPduType := 0xff
  ackSn := .ofValue 0xffff
  nackSnList := []

def setDataPdu (h : AmHeader) : AmHeader := { h with headerLength := 4, dataControlBit := DATA_PDU }

def setControlPdu (h : AmHeader) (controlPduType : Nat) : AmHeader :=
  { h with headerLength := 2, dataControlBit := CONTROL_PDU, controlPduType }

def setLastSegmentFlag (h : AmHeader) (lsf : Nat) : AmHeader :=
  { h with lastSegmentFlag := lsf % 2 }

def setSegmentOffset (h : AmHeader) (segmentOffset : Nat) : AmHeader :=
  { h with segmentOffset := segmentOffset % 2 ^ 15 }

def setAckSn (h : AmHeader) (ackSn : SequenceNumber10) : AmHeader := { h with ackSn }

def pushNack (h : AmHeader) (nack : Nat) : Except Fault AmHeader := do
  nsAssert (h.dataControlBit = CONTROL_PDU && h.controlPduType = STATUS_PDU)
  let nackSnList := h.nackSnList ++ [nack]
  pure { h with
    nackSnList,
    headerLength := wadd 16 h.headerLength (if nackSnList.length % 2 = 0 then 1 else 2) }

def getSerializedSize (h : AmHeader) : Nat := h.headerLength

/-! ## Serialize -/

def writeU8 (data : Nat) : UInt8 := UInt8.ofNat data

def writeLengthIndicators : List Nat → List Nat → List UInt8
  | oddE :: it1, oddLi :: it2 =>
    match it1, it2 with
    | evenE :: it1, evenLi :: it2 =>
      writeU8 (((oddE <<< 7) &&& 0x80) ||| ((oddLi >>> 4) &&& 0x7F)) ::
      writeU8 (((oddLi <<< 4) &&& 0xF0) ||| ((evenE <<< 3) &&& 0x08) |||
        ((evenLi >>> 8) &&& 0x07)) ::
      writeU8 (evenLi &&& 0xFF) :: writeLengthIndicators it1 it2
    | _, _ =>
      [writeU8 (((oddE <<< 7) &&& 0x80) ||| ((oddLi >>> 4) &&& 0x7F)),
        writeU8 ((oddLi <<< 4) &&& 0xF0)]
  | _, _ => []

/-- The loop over the NACKs; the first bit of `oddNack` has been written. -/
def writeNacks (oddNack : Nat) : List Nat → List UInt8
  | [] => [writeU8 ((oddNack >>> 1) &&& 0xFF), writeU8 ((oddNack <<< 7) &&& 0x80)]
  | evenNack :: it3 =>
    writeU8 ((oddNack >>> 1) &&& 0xFF) ::
    writeU8 (((oddNack <<< 7) &&& 0x80) ||| 0x40 ||| ((evenNack >>> 5) &&& 0x1F)) ::
    match it3 with
    | [] => [writeU8 ((evenNack <<< 3) &&& 0xF8)]
    | oddNack :: it3 =>
      writeU8 (((evenNack <<< 3) &&& 0xF8) ||| 0x04 ||| ((oddNack >>> 9) &&& 0x01)) ::
        writeNacks oddNack it3

def serialize (h : AmHeader) : Except Fault (List UInt8) :=
  if h.dataControlBit = DATA_PDU then
    match h.extensionBits with
    | [] => .error .badIterator
    | e :: it1 => .ok (
        writeU8 (((DATA_PDU <<< 7) &&& 0x80) ||| ((h.resegmentationFlag <<< 6) &&& 0x40) |||
          ((h.pollingBit <<< 5) &&& 0x20) ||| ((h.framingInfo <<< 3) &&& 0x18) |||
          ((e <<< 2) &&& 0x04) ||| ((h.sequenceNumber.value >>> 8) &&& 0x03)) ::
        writeU8 (h.sequenceNumber.value &&& 0xFF) ::
        writeU8 (((h.lastSegmentFlag <<< 7) &&& 0x80) ||| ((h.segmentOffset >>> 8) &&& 0x7F)) ::
        writeU8 (h.segmentOffset &&& 0xFF) ::
        writeLengthIndicators it1 h.lengthIndicators)
  else
    .ok (
      writeU8 (((CONTROL_PDU <<< 7) &&& 0x80) ||| ((h.controlPduType <<< 4) &&& 0x70) |||
        ((h.ackSn.value >>> 6) &&& 0x0F)) ::
      match h.nackSnList with
      | [] => [writeU8 ((h.ackSn.value <<< 2) &&& 0xFC)]
      | nack :: it3 =>
        writeU8 (((h.ackSn.value <<< 2) &&& 0xFC) ||| 0x02 ||| ((nack >>> 9) &&& 0x01)) ::
          writeNacks nack it3)

/-! ## Deserialize -/

def readField (h : AmHeader) (extensionBit lengthIndicator bytes : Nat) : AmHeader :=
  { h with
    extensionBits := h.extensionBits ++ [extensionBit]
    lengthIndicators := h.lengthIndicators ++ [lengthIndicator]
    headerLength := wadd 16 h.headerLength bytes }

def readLengthIndicators : List UInt8 → AmHeader → Except Fault AmHeader
  | byte1 :: byte2 :: i, h =>
    let oddE := (byte1.toNat &&& 0x80) >>> 7
    let oddLi := ((byte1.toNat &&& 0x7F) <<< 4) ||| ((byte2.toNat &&& 0xF0) >>> 4)
    let h := h.readField oddE oddLi 2
    if oddE = E_LI_FIELDS_FOLLOWS then
      match i with
      | byte3 :: i =>
        let evenE := (byte2.toNat &&& 0x08) >>> 3
        let evenLi := ((byte2.toNat &&& 0x07) <<< 8) ||| (byte3.toNat &&& 0xFF)
        let h := h.readField evenE evenLi 1
        if evenE = E_LI_FIELDS_FOLLOWS then readLengthIndicators i h else .ok h
      | [] => .error .badIterator
    else .ok h
  | _, _ => .error .badIterator

def readNack (h : AmHeader) (nack bytes : Nat) : AmHeader :=
  { h with
    nackSnList := h.nackSnList ++ [nack]
    headerLength := wadd 16 h.headerLength bytes }

/-- The loop that reads NACKs; `byte` has the first bits of the next one. -/
def readNacks : List UInt8 → Nat → AmHeader → Except Fault AmHeader
  | nextByte :: i, byte, h =>
    let nack := ((byte &&& 0x1F) <<< 5) ||| ((nextByte.toNat &&& 0xF8) >>> 3)
    let byte := nextByte.toNat
    if (nextByte.toNat &&& 0x04) >>> 2 = 1 then
      match i with
      | nextByte :: finalByte :: i =>
        let h := (h.readNack nack 0).readNack
          (((byte &&& 0x01) <<< 9) ||| (nextByte.toNat <<< 1) |||
            ((finalByte.toNat &&& 0x80) >>> 7)) 3
        if (finalByte.toNat &&& 0x40) >>> 6 = 1 then readNacks i finalByte.toNat h else .ok h
      | _ => .error .badIterator
    else .ok (h.readNack nack 1)
  | [], _, _ => .error .badIterator

def deserializeData (h : AmHeader) (size byte1 : Nat) (i : List UInt8) : Except Fault AmHeader := do
  let (byte2, i) ← readU8 i
  let (byte3, i) ← readU8 i
  let (byte4, i) ← readU8 i
  let extensionBit := (byte1 &&& 0x04) >>> 2
  let h := { h with
    headerLength := wadd 16 h.headerLength 3
    resegmentationFlag := (byte1 &&& 0x40) >>> 6
    pollingBit := (byte1 &&& 0x20) >>> 5
    framingInfo := (byte1 &&& 0x18) >>> 3
    sequenceNumber := h.sequenceNumber.assign (((byte1 &&& 0x03) <<< 8) ||| byte2.toNat)
    lastSegmentFlag := (byte3.toNat &&& 0x80) >>> 7
    segmentOffset := (byte3.toNat &&& 0x7F) ||| byte4.toNat
    extensionBits := h.extensionBits ++ [extensionBit] }
  if extensionBit = DATA_FIELD_FOLLOWS then pure h
  else
    let h ← if extensionBit = E_LI_FIELDS_FOLLOWS then readLengthIndicators i h else pure h
    if h.resegmentationFlag = LteRlcAmHeader.SEGMENT then
      pure { h with lastOffset := (h.segmentOffset + size + 2 ^ 16 - h.headerLength) % 2 ^ 16 }
    else pure h

/-- The fields of a STATUS PDU. -/
def deserializeControl (h : AmHeader) (byte1 : Nat) (i : List UInt8) : Except Fault AmHeader := do
  let (byte2, i) ← readU8 i
  let h := { h with
    controlPduType := (byte1 &&& 0x70) >>> 4
    ackSn := h.ackSn.assign (((byte1 &&& 0x0F) <<< 6) ||| ((byte2.toNat &&& 0xFC) >>> 2)) }
  if (byte2.toNat &&& 0x02) >>> 1 = 1 then
    let (byte3, i) ← readU8 i
    let (byte4, i) ← readU8 i
    let nack := ((byte2.toNat &&& 0x01) <<< 9) ||| (byte3.toNat <<< 1) |||
      ((byte4.toNat &&& 0x80) >>> 7)
    let h := { h with headerLength := 4, nackSnList := h.nackSnList ++ [nack] }
    if (byte4.toNat &&& 0x40) >>> 6 = 1 then readNacks i byte4.toNat h else pure h
  else pure { h with headerLength := wadd 16 h.headerLength 1 }

def deserialize (h : AmHeader) (start : List UInt8) : Except Fault (AmHeader × Nat) := do
  let (byte1, i) ← readU8 start
  let h := { h with headerLength := 1, dataControlBit := (byte1.toNat &&& 0x80) >>> 7 }
  let h ← if h.dataControlBit = DATA_PDU then h.deserializeData start.length byte1.toNat i
    else h.deserializeControl byte1.toNat i
  pure (h, h.getSerializedSize)

/-! ## Bytes -/

section

variable {e e' li li' n a b c : Nat} {h : AmHeader} {rest : List UInt8}

theorem toNat_writeU8 (hn : n < 256) : (writeU8 n).toNat = n := by
  rw [writeU8, UInt8.toNat_ofNat', Nat.mod_eq_of_lt hn]

theorem oddFirst_eq (he : e < 2) (hli : li < 2048) :
    ((e <<< 7) &&& 0x80) ||| ((li >>> 4) &&& 0x7F) = e * 128 + li / 16 := by
  have hhigh : (e <<< 7) &&& 0x80 = e % 2 ^ 1 * 2 ^ 7 := shl_and e 7 1
  have hlow : (li >>> 4) &&& 0x7F = li / 2 ^ 4 % 2 ^ 7 := shr_and li 4 7
  rw [hhigh, hlow, or_eq_add (w := 7) (by omega) (by omega)]
  omega

theorem oddLast_eq (li : Nat) : (li <<< 4) &&& 0xF0 = li % 16 * 16 := by
  have hmask : (li <<< 4) &&& 0xF0 = li % 2 ^ 4 * 2 ^ 4 := shl_and li 4 4
  omega

theorem middle_eq (he : e < 2) (hli' : li' < 2048) :
    ((li <<< 4) &&& 0xF0) ||| ((e <<< 3) &&& 0x08) ||| ((li' >>> 8) &&& 0x07) =
      li % 16 * 16 + e * 8 + li' / 256 := by
  have hbit : (e <<< 3) &&& 0x08 = e % 2 ^ 1 * 2 ^ 3 := shl_and e 3 1
  have hlow : (li' >>> 8) &&& 0x07 = li' / 2 ^ 8 % 2 ^ 3 := shr_and li' 8 3
  have hinner : li % 16 * 16 ||| e % 2 ^ 1 * 2 ^ 3 = li % 16 * 16 + e * 8 := by
    rw [or_eq_add (w := 4) (by omega) (by omega)]
    omega
  rw [oddLast_eq, hbit, hlow, hinner, or_eq_add (w := 3) (by omega) (by omega)]
  omega

theorem lowByte_eq (n : Nat) : n &&& 0xFF = n % 256 := Nat.and_two_pow_sub_one_eq_mod n 8

theorem odd_read (he : e < 2) (hli : li < 2048) (ha : a = e * 128 + li / 16)
    (hb : b / 16 = li % 16) :
    (a &&& 0x80) >>> 7 = e ∧ ((a &&& 0x7F) <<< 4) ||| ((b &&& 0xF0) >>> 4) = li := by
  have hbit : a &&& 0x80 = a / 2 ^ 7 % 2 ^ 1 * 2 ^ 7 := and_mask _ 7 1
  have hhigh : a &&& 0x7F = a / 2 ^ 0 % 2 ^ 7 * 2 ^ 0 := and_mask _ 0 7
  have hlow : b &&& 0xF0 = b / 2 ^ 4 % 2 ^ 4 * 2 ^ 4 := and_mask _ 4 4
  rw [hbit, hhigh, hlow, or_eq_add (w := 4) (by omega) (by omega)]
  omega

theorem even_read (hli : li < 2048) (ha : a % 16 = e * 8 + li / 256)
    (hb : b = li % 256) : (a &&& 0x08) >>> 3 = e ∧ ((a &&& 0x07) <<< 8) ||| (b &&& 0xFF) = li := by
  have hbit : a &&& 0x08 = a / 2 ^ 3 % 2 ^ 1 * 2 ^ 3 := and_mask _ 3 1
  have hhigh : a &&& 0x07 = a / 2 ^ 0 % 2 ^ 3 * 2 ^ 0 := and_mask _ 0 3
  rw [hbit, hhigh, lowByte_eq, or_eq_add (w := 8) (by omega) (by omega)]
  omega

/-! ## Length indicators -/

variable {byte1 : UInt8} {i : List UInt8}

/-- The extension bits for `n` length indicators: all but the last are 1. -/
def marks (n : Nat) : List Nat :=
  List.replicate n E_LI_FIELDS_FOLLOWS ++ [DATA_FIELD_FOLLOWS]

theorem marks_succ (n : Nat) : marks (n + 1) = E_LI_FIELDS_FOLLOWS :: marks n := rfl

def readFields (h : AmHeader) (bits lis : List Nat) (bytes : Nat) : AmHeader :=
  { h with
    extensionBits := h.extensionBits ++ bits
    lengthIndicators := h.lengthIndicators ++ lis
    headerLength := wadd 16 h.headerLength bytes }

theorem readField_eq (e li bytes : Nat) :
    h.readField e li bytes = h.readFields [e] [li] bytes := rfl

variable {bytes bytes' : Nat}

theorem readFields_readFields {bits bits' lis lis' : List Nat} :
    (h.readFields bits lis bytes).readFields bits' lis' bytes' =
      h.readFields (bits ++ bits') (lis ++ lis') (bytes + bytes') := by
  have hbytes : wadd 16 (wadd 16 h.headerLength bytes) bytes' =
      wadd 16 h.headerLength (bytes + bytes') := by
    rw [wadd_assoc, wadd, wadd, wadd, Nat.add_mod_mod]
  simp only [readFields, List.append_assoc, hbytes]

theorem writeLengthIndicators_pair (it1 it2 : List Nat) (he : e < 2) (hli : li < 2048)
    (he' : e' < 2) (hli' : li' < 2048) :
    ∃ byte1 byte2 byte3 : UInt8,
      writeLengthIndicators (e :: e' :: it1) (li :: li' :: it2) =
        byte1 :: byte2 :: byte3 :: writeLengthIndicators it1 it2 ∧
      byte1.toNat = e * 128 + li / 16 ∧
      byte2.toNat = li % 16 * 16 + e' * 8 + li' / 256 ∧ byte3.toNat = li' % 256 := by
  refine ⟨_, _, _, rfl, ?_, ?_, ?_⟩
  · rw [oddFirst_eq he hli, toNat_writeU8 (by omega)]
  · rw [middle_eq he' hli', toNat_writeU8 (by omega)]
  · rw [lowByte_eq, toNat_writeU8 (by omega)]

theorem writeLengthIndicators_single (he : e < 2) (hli : li < 2048) :
    ∃ byte1 byte2 : UInt8, writeLengthIndicators [e] [li] = [byte1, byte2] ∧
      byte1.toNat = e * 128 + li / 16 ∧ byte2.toNat = li % 16 * 16 := by
  refine ⟨_, _, rfl, ?_, ?_⟩
  · rw [oddFirst_eq he hli, toNat_writeU8 (by omega)]
  · rw [oddLast_eq, toNat_writeU8 (by omega)]

theorem readLengthIndicators_odd {byte2 : UInt8} (he : e < 2) (hli : li < 2048)
    (h1 : byte1.toNat = e * 128 + li / 16) (h2 : byte2.toNat / 16 = li % 16)
    (hlast : e ≠ E_LI_FIELDS_FOLLOWS) :
    readLengthIndicators (byte1 :: byte2 :: i) h = .ok (h.readFields [e] [li] 2) := by
  obtain ⟨hbit, hfield⟩ := odd_read he hli h1 h2
  cases i <;> simp only [readLengthIndicators, hbit, hfield, if_neg hlast, readField_eq]

theorem readLengthIndicators_pair {byte2 byte3 : UInt8} (hli : li < 2048) (hli' : li' < 2048)
    (h1 : byte1.toNat = E_LI_FIELDS_FOLLOWS * 128 + li / 16) (he' : e' < 2)
    (h2 : byte2.toNat = li % 16 * 16 + e' * 8 + li' / 256) (h3 : byte3.toNat = li' % 256) :
    readLengthIndicators (byte1 :: byte2 :: byte3 :: i) h =
      if e' = E_LI_FIELDS_FOLLOWS then
        readLengthIndicators i (h.readFields [E_LI_FIELDS_FOLLOWS, e'] [li, li'] 3)
      else .ok (h.readFields [E_LI_FIELDS_FOLLOWS, e'] [li, li'] 3) := by
  have hmiddle : byte2.toNat / 16 = li % 16 := by omega
  obtain ⟨hbit, hfield⟩ := odd_read (by decide) hli h1 hmiddle
  have hmiddle' : byte2.toNat % 16 = e' * 8 + li' / 256 := by omega
  obtain ⟨hbit', hfield'⟩ := even_read hli' hmiddle' h3
  simp only [readLengthIndicators, hbit, hfield, hbit', hfield', if_true, readField_eq,
    readFields_readFields]
  rfl

theorem readLengthIndicators_write (rest : List UInt8) {lis : List Nat}
    (hlis : ∀ x ∈ li :: lis, x < 2048) :
    readLengthIndicators (writeLengthIndicators (marks lis.length) (li :: lis) ++ rest) h =
      .ok (h.readFields (marks lis.length) (li :: lis) (packed (lis.length + 1))) := by
  induction hn : lis.length using Nat.strong_induction_on generalizing li lis h with
  | h n ih =>
    subst hn
    have hli := hlis li (.head _)
    rcases lis with _ | ⟨li', _ | ⟨li'', lis⟩⟩
    · -- the last field is an odd one
      obtain ⟨byte1, byte2, hwrite, h1, h2⟩ :=
        writeLengthIndicators_single (e := DATA_FIELD_FOLLOWS) (by decide) hli
      rw [show marks ([] : List Nat).length = [DATA_FIELD_FOLLOWS] from rfl, hwrite]
      exact readLengthIndicators_odd (by decide) hli h1 (by omega) (by decide)
    · -- the last field is an even one
      have hli' := hlis li' (.tail _ (.head _))
      obtain ⟨byte1, byte2, byte3, hwrite, h1, h2, h3⟩ := writeLengthIndicators_pair
        [] [] (by decide : E_LI_FIELDS_FOLLOWS < 2) hli (by decide : DATA_FIELD_FOLLOWS < 2) hli'
      rw [show marks [li'].length = [E_LI_FIELDS_FOLLOWS, DATA_FIELD_FOLLOWS] from rfl, hwrite]
      refine (readLengthIndicators_pair hli hli' h1 (by decide) h2 h3).trans ?_
      have hpacked : packed ([li'].length + 1) = 3 := by simp [packed]
      rw [if_neg (by decide : DATA_FIELD_FOLLOWS ≠ E_LI_FIELDS_FOLLOWS), hpacked]
    · -- a pair is followed by an odd one
      have hli' := hlis li' (.tail _ (.head _))
      obtain ⟨byte1, byte2, byte3, hwrite, h1, h2, h3⟩ := writeLengthIndicators_pair
        (marks lis.length) (li'' :: lis) (by decide : E_LI_FIELDS_FOLLOWS < 2) hli
        (by decide : E_LI_FIELDS_FOLLOWS < 2) hli'
      rw [List.length_cons, List.length_cons, marks_succ, marks_succ, hwrite]
      refine (readLengthIndicators_pair hli hli' h1 (by decide) h2 h3).trans ?_
      rw [if_pos rfl, List.append_eq]
      have hshorter : lis.length < (li' :: li'' :: lis).length := by
        rw [List.length_cons, List.length_cons]
        omega
      rw [ih lis.length hshorter (fun x hx => hlis x (List.mem_cons_of_mem _
        (.tail _ hx))) rfl, readFields_readFields]
      have hpacked : 3 + packed (lis.length + 1) = packed (lis.length + 1 + 1 + 1) := by
        rw [packed, packed]
        omega
      rw [hpacked]
      rfl

theorem length_writeLengthIndicators (li : Nat) (lis : List Nat) :
    (writeLengthIndicators (marks lis.length) (li :: lis)).length = packed (lis.length + 1) := by
  induction hn : lis.length using Nat.strong_induction_on generalizing li lis with
  | h n ih =>
    subst hn
    rcases lis with _ | ⟨li', _ | ⟨li'', lis⟩⟩
    · rfl
    · simp [marks, writeLengthIndicators, packed]
    · have hshorter : lis.length < (li' :: li'' :: lis).length := by
        rw [List.length_cons, List.length_cons]
        omega
      have hrest := ih lis.length hshorter li'' lis rfl
      rw [List.length_cons, List.length_cons, marks_succ, marks_succ, writeLengthIndicators,
        List.length_cons, List.length_cons, List.length_cons, hrest, packed, packed]
      omega

/-! ## NACKs -/

theorem oddNack_read (ha : a % 2 = n / 512) (hb : b = n / 2 % 256)
    (hc : c / 128 = n % 2) : ((a &&& 0x01) <<< 9) ||| (b <<< 1) ||| ((c &&& 0x80) >>> 7) = n := by
  have hhigh : a &&& 0x01 = a / 2 ^ 0 % 2 ^ 1 * 2 ^ 0 := and_mask _ 0 1
  have hlow : c &&& 0x80 = c / 2 ^ 7 % 2 ^ 1 * 2 ^ 7 := and_mask _ 7 1
  have hinner : (a % 2) <<< 9 ||| b <<< 1 = a % 2 * 512 + b * 2 := by
    rw [or_eq_add (w := 9) (by omega) (by omega)]
    omega
  rw [hhigh, hlow, Nat.pow_zero, Nat.div_one, Nat.mul_one, Nat.pow_one, hinner,
    or_eq_add (w := 1) (by omega) (by omega)]
  omega

theorem evenNack_read (hn : n < 1024) (ha : a % 32 = n / 32) (hb : b / 8 = n % 32) :
    ((a &&& 0x1F) <<< 5) ||| ((b &&& 0xF8) >>> 3) = n := by
  have hhigh : a &&& 0x1F = a / 2 ^ 0 % 2 ^ 5 * 2 ^ 0 := and_mask _ 0 5
  have hlow : b &&& 0xF8 = b / 2 ^ 3 % 2 ^ 5 * 2 ^ 3 := and_mask _ 3 5
  rw [hhigh, hlow, or_eq_add (w := 5) (by omega) (by omega)]
  omega

theorem bit_read (s x : Nat) : (x &&& (1 <<< s)) >>> s = x / 2 ^ s % 2 := by
  have hbit : x &&& (1 <<< s) = x / 2 ^ s % 2 ^ 1 * 2 ^ s := and_mask x s 1
  rw [hbit, Nat.shiftRight_eq_div_pow, Nat.mul_div_cancel _ (Nat.two_pow_pos s), Nat.pow_one]

theorem oddEven_eq (hn : a < 1024) :
    ((n <<< 7) &&& 0x80) ||| 0x40 ||| ((a >>> 5) &&& 0x1F) = n % 2 * 128 + 64 + a / 32 := by
  have hhigh : (n <<< 7) &&& 0x80 = n % 2 ^ 1 * 2 ^ 7 := shl_and n 7 1
  have hlow : (a >>> 5) &&& 0x1F = a / 2 ^ 5 % 2 ^ 5 := shr_and a 5 5
  have hinner : n % 2 * 128 ||| 0x40 = n % 2 * 128 + 64 := or_eq_add (w := 7) (by omega) (by omega)
  have hhigh' : (n <<< 7) &&& 0x80 = n % 2 * 128 := by omega
  rw [hhigh', hlow, hinner, or_eq_add (w := 6) (by omega) (by omega)]
  omega

theorem evenOdd_eq (ha : a < 1024) :
    ((n <<< 3) &&& 0xF8) ||| 0x04 ||| ((a >>> 9) &&& 0x01) = n % 32 * 8 + 4 + a / 512 := by
  have hhigh : (n <<< 3) &&& 0xF8 = n % 2 ^ 5 * 2 ^ 3 := shl_and n 3 5
  have hlow : (a >>> 9) &&& 0x01 = a / 2 ^ 9 % 2 ^ 1 := shr_and a 9 1
  have hinner : n % 32 * 8 ||| 0x04 = n % 32 * 8 + 4 := or_eq_add (w := 3) (by omega) (by omega)
  have hhigh' : (n <<< 3) &&& 0xF8 = n % 32 * 8 := by omega
  rw [hhigh', hlow, hinner, or_eq_add (w := 2) (by omega) (by omega)]
  omega

def readNackList (h : AmHeader) (nacks : List Nat) (bytes : Nat) : AmHeader :=
  { h with
    nackSnList := h.nackSnList ++ nacks
    headerLength := wadd 16 h.headerLength bytes }

theorem readNackList_readNackList {nacks nacks' : List Nat} :
    (h.readNackList nacks bytes).readNackList nacks' bytes' =
      h.readNackList (nacks ++ nacks') (bytes + bytes') := by
  have hbytes : wadd 16 (wadd 16 h.headerLength bytes) bytes' =
      wadd 16 h.headerLength (bytes + bytes') := by
    rw [wadd_assoc, wadd, wadd, wadd, Nat.add_mod_mod]
  simp only [readNackList, List.append_assoc, hbytes]

theorem readNack_eq (nack bytes : Nat) : h.readNack nack bytes = h.readNackList [nack] bytes := rfl

theorem readNacks_last {nextByte : UInt8} (hn : n < 1024) (ha : a % 32 = n / 32)
    (hb : nextByte.toNat = n % 32 * 8) :
    readNacks (nextByte :: i) a h = .ok (h.readNackList [n] 1) := by
  have hnack := evenNack_read (b := nextByte.toNat) hn ha (by omega)
  have hmore : (nextByte.toNat &&& 0x04) >>> 2 = 0 := (bit_read 2 _).trans (by omega)
  unfold readNacks
  simp only [hnack, hmore, readNack_eq]
  rfl

theorem readNacks_pair {nextByte byte3 byte4 : UInt8} (hn : n < 1024) (ha : a % 32 = n / 32)
    {n' : Nat} (hn' : n' < 1024) (hb : nextByte.toNat = n % 32 * 8 + 4 + n' / 512)
    (h3 : byte3.toNat = n' / 2 % 256) (h4 : byte4.toNat / 128 = n' % 2) :
    readNacks (nextByte :: byte3 :: byte4 :: i) a h =
      if byte4.toNat / 64 % 2 = 1 then readNacks i byte4.toNat (h.readNackList [n, n'] 3)
      else .ok (h.readNackList [n, n'] 3) := by
  have hnack := evenNack_read (b := nextByte.toNat) hn ha (by omega)
  have hnack' := oddNack_read (a := nextByte.toNat) (by omega) h3 h4
  have hmore : (nextByte.toNat &&& 0x04) >>> 2 = 1 := (bit_read 2 _).trans (by omega)
  have hmore' : (byte4.toNat &&& 0x40) >>> 6 = byte4.toNat / 64 % 2 := bit_read 6 _
  simp only [readNacks, hnack, hnack', hmore, hmore', if_true, readNack_eq,
    readNackList_readNackList]
  rfl

theorem writeNacks_last {nack : Nat} (hnack : nack < 1024) :
    ∃ byte3 byte4 nextByte : UInt8, writeNacks n [nack] = [byte3, byte4, nextByte] ∧
      byte3.toNat = n / 2 % 256 ∧ byte4.toNat = n % 2 * 128 + 64 + nack / 32 ∧
      nextByte.toNat = nack % 32 * 8 := by
  have hlow : (nack <<< 3) &&& 0xF8 = nack % 32 * 8 := (shl_and nack 3 5).trans (by omega)
  refine ⟨_, _, _, rfl, ?_, ?_, ?_⟩
  · rw [lowByte_eq, toNat_writeU8 (by omega)]
    omega
  · rw [oddEven_eq hnack, toNat_writeU8 (by omega)]
  · rw [hlow, toNat_writeU8 (by omega)]

theorem writeNacks_pair {nack n' : Nat} (hnack : nack < 1024) (hn' : n' < 1024) (it3 : List Nat) :
    ∃ byte3 byte4 nextByte : UInt8,
      writeNacks n (nack :: n' :: it3) = byte3 :: byte4 :: nextByte :: writeNacks n' it3 ∧
      byte3.toNat = n / 2 % 256 ∧ byte4.toNat = n % 2 * 128 + 64 + nack / 32 ∧
      nextByte.toNat = nack % 32 * 8 + 4 + n' / 512 := by
  refine ⟨_, _, _, rfl, ?_, ?_, ?_⟩
  · rw [lowByte_eq, toNat_writeU8 (by omega)]
    omega
  · rw [oddEven_eq hnack, toNat_writeU8 (by omega)]
  · rw [evenOdd_eq hn', toNat_writeU8 (by omega)]

theorem writeNacks_nil (n : Nat) : ∃ byte3 byte4 : UInt8,
    writeNacks n [] = [byte3, byte4] ∧ byte3.toNat = n / 2 % 256 ∧
      byte4.toNat = n % 2 * 128 := by
  have hhigh : (n <<< 7) &&& 0x80 = n % 2 * 128 := (shl_and n 7 1).trans (by omega)
  refine ⟨_, _, rfl, ?_, ?_⟩
  · rw [lowByte_eq, toNat_writeU8 (by omega)]
    omega
  · rw [hhigh, toNat_writeU8 (by omega)]

theorem readNacks_write (n : Nat) {nack : Nat} {nacks : List Nat}
    (hnacks : ∀ x ∈ nack :: nacks, x < 1024) :
    ∃ byte3 byte4 : UInt8, ∃ more : List UInt8,
      writeNacks n (nack :: nacks) = byte3 :: byte4 :: more ∧ byte3.toNat = n / 2 % 256 ∧
        byte4.toNat / 128 = n % 2 ∧ byte4.toNat / 64 % 2 = 1 ∧
        more.length + 2 = packed (nacks.length + 2) ∧
        ∀ (h : AmHeader) (rest : List UInt8), readNacks (more ++ rest) byte4.toNat h =
          .ok (h.readNackList (nack :: nacks) (packed (nacks.length + 2) - 2)) := by
  induction hk : nacks.length using Nat.strong_induction_on generalizing n nack nacks with
  | h k ih =>
    subst hk
    have hnack := hnacks nack (.head _)
    rcases nacks with _ | ⟨n', _ | ⟨nack', nacks⟩⟩
    · -- the last NACK is an even one
      obtain ⟨byte3, byte4, nextByte, hwrite, h3, h4, hnext⟩ := writeNacks_last (n := n) hnack
      refine ⟨byte3, byte4, _, hwrite, h3, by omega, by omega, rfl, fun h rest => ?_⟩
      exact readNacks_last hnack (by omega) hnext
    · -- an odd one is the last
      have hn' := hnacks n' (.tail _ (.head _))
      obtain ⟨byte3, byte4, nextByte, hwrite, h3, h4, hnext⟩ :=
        writeNacks_pair (n := n) hnack hn' []
      obtain ⟨byte3', byte4', hlast, h3', h4'⟩ := writeNacks_nil n'
      rw [hlast] at hwrite
      have hpacked : packed ([n'].length + 2) = 5 := by simp [packed]
      refine ⟨byte3, byte4, _, hwrite, h3, by omega, by omega, hpacked.symm, fun h rest => ?_⟩
      refine (readNacks_pair hnack (by omega) hn' hnext h3' (by omega)).trans ?_
      rw [if_neg (by omega), hpacked]
    · -- more follow behind an odd one
      have hn' := hnacks n' (.tail _ (.head _))
      obtain ⟨byte3, byte4, nextByte, hwrite, h3, h4, hnext⟩ :=
        writeNacks_pair (n := n) hnack hn' (nack' :: nacks)
      have hshorter : nacks.length < (n' :: nack' :: nacks).length := by
        rw [List.length_cons, List.length_cons]
        omega
      obtain ⟨byte3', byte4', more', hwrite', h3', h4', hmore', hlength', hread'⟩ :=
        ih nacks.length hshorter n' (fun x hx =>
          hnacks x (.tail _ (.tail _ hx))) rfl
      rw [hwrite'] at hwrite
      have hpacked :
          packed ((n' :: nack' :: nacks).length + 2) = packed (nacks.length + 2) + 3 := by
        rw [List.length_cons, List.length_cons, packed, packed]
        omega
      refine ⟨byte3, byte4, _, hwrite, h3, by omega, by omega, ?_, fun h rest => ?_⟩
      · rw [hpacked, List.length_cons, List.length_cons, List.length_cons]
        omega
      · refine (readNacks_pair hnack (by omega) hn' hnext h3' h4').trans ?_
        rw [if_pos hmore', List.append_eq, hread', readNackList_readNackList, hpacked]
        have hbytes : 3 + (packed (nacks.length + 2) - 2) = packed (nacks.length + 2) + 3 - 2 := by
          rw [packed]
          omega
        rw [hbytes]
        rfl

/-! ## The fixed part -/

theorem firstByte_eq {rf p fi sn : Nat} (hrf : rf < 2) (hp : p < 2) (hfi : fi < 4) (he : e < 2)
    (hsn : sn < 1024) :
    ((DATA_PDU <<< 7) &&& 0x80) ||| ((rf <<< 6) &&& 0x40) ||| ((p <<< 5) &&& 0x20) |||
      ((fi <<< 3) &&& 0x18) ||| ((e <<< 2) &&& 0x04) ||| ((sn >>> 8) &&& 0x03) =
        128 + rf * 64 + p * 32 + fi * 8 + e * 4 + sn / 256 := by
  have hrf' : (rf <<< 6) &&& 0x40 = rf * 64 := (shl_and rf 6 1).trans (by omega)
  have hp' : (p <<< 5) &&& 0x20 = p * 32 := (shl_and p 5 1).trans (by omega)
  have hfi' : (fi <<< 3) &&& 0x18 = fi * 8 := (shl_and fi 3 2).trans (by omega)
  have he' : (e <<< 2) &&& 0x04 = e * 4 := (shl_and e 2 1).trans (by omega)
  have hsn' : (sn >>> 8) &&& 0x03 = sn / 256 := (shr_and sn 8 2).trans (by omega)
  have hdata : (DATA_PDU <<< 7) &&& 0x80 = 128 := rfl
  rw [hrf', hp', hfi', he', hsn', hdata]
  rw [or_eq_add (a := 128) (w := 7) (by decide) (by omega)]
  rw [or_eq_add (a := 128 + rf * 64) (w := 6) (by omega) (by omega)]
  rw [or_eq_add (a := 128 + rf * 64 + p * 32) (w := 5) (by omega) (by omega)]
  rw [or_eq_add (a := 128 + rf * 64 + p * 32 + fi * 8) (w := 3) (by omega) (by omega)]
  rw [or_eq_add (a := 128 + rf * 64 + p * 32 + fi * 8 + e * 4) (w := 2) (by omega) (by omega)]

theorem thirdByte_eq {lsf so : Nat} (hlsf : lsf < 2) (hso : so < 2 ^ 15) :
    ((lsf <<< 7) &&& 0x80) ||| ((so >>> 8) &&& 0x7F) = lsf * 128 + so / 256 := by
  have hhigh : (lsf <<< 7) &&& 0x80 = lsf * 128 := (shl_and lsf 7 1).trans (by omega)
  have hlow : (so >>> 8) &&& 0x7F = so / 256 := (shr_and so 8 7).trans (by omega)
  rw [hhigh, hlow, or_eq_add (w := 7) (by omega) (by omega)]

/-- A data PDU header, its fields as wide as they are sent. -/
structure IsData (h : AmHeader) : Prop where
  dataControlBit : h.dataControlBit = DATA_PDU
  resegmentationFlag : h.resegmentationFlag < 2
  pollingBit : h.pollingBit < 2
  framingInfo : h.framingInfo < 4
  sequenceNumber : h.sequenceNumber.value < 1024
  lastSegmentFlag : h.lastSegmentFlag < 2
  segmentOffset : h.segmentOffset < 2 ^ 15
  extensionBits : h.extensionBits = marks h.lengthIndicators.length
  lengthIndicators : ∀ li ∈ h.lengthIndicators, li < 2048
  headerLength : h.headerLength = (4 + packed h.lengthIndicators.length) % 2 ^ 16

/-- A STATUS PDU header, its fields as wide as they are sent. -/
structure IsStatus (h : AmHeader) : Prop where
  dataControlBit : h.dataControlBit = CONTROL_PDU
  controlPduType : h.controlPduType = STATUS_PDU
  ackSn : h.ackSn.value < 1024
  nackSnList : ∀ nack ∈ h.nackSnList, nack < 1024
  headerLength : h.headerLength = (2 + packed h.nackSnList.length) % 2 ^ 16

/-- The fields of a data PDU are the same. -/
structure SameData (h h' : AmHeader) : Prop where
  resegmentationFlag : h'.resegmentationFlag = h.resegmentationFlag
  pollingBit : h'.pollingBit = h.pollingBit
  framingInfo : h'.framingInfo = h.framingInfo
  sequenceNumber : h'.sequenceNumber.value = h.sequenceNumber.value
  lastSegmentFlag : h'.lastSegmentFlag = h.lastSegmentFlag
  extensionBits : h'.extensionBits = h.extensionBits
  lengthIndicators : h'.lengthIndicators = h.lengthIndicators

/-- The fields of a STATUS PDU are the same. -/
structure SameStatus (h h' : AmHeader) : Prop where
  controlPduType : h'.controlPduType = h.controlPduType
  ackSn : h'.ackSn.value = h.ackSn.value
  nackSnList : h'.nackSnList = h.nackSnList

def Same (h h' : AmHeader) : Prop :=
  h'.dataControlBit = h.dataControlBit ∧
    if h.dataControlBit = DATA_PDU then h.SameData h' ∧ h'.segmentOffset = h.segmentOffset
    else h.SameStatus h'

/-- The header is written to as many bytes as it says, and a new header that reads them is the
same and says so too. -/
def RoundTrips (h : AmHeader) : Prop :=
  ∃ bytes, h.serialize = .ok bytes ∧ bytes.length = h.getSerializedSize ∧
    ∀ lastSegmentFlag, ∃ h', (new lastSegmentFlag).deserialize bytes = .ok (h', bytes.length) ∧
      h.Same h'

/-! ## Data PDUs -/

def readFixed (h h' : AmHeader) : AmHeader :=
  { h with
    headerLength := 4
    dataControlBit := DATA_PDU
    resegmentationFlag := h'.resegmentationFlag
    pollingBit := h'.pollingBit
    framingInfo := h'.framingInfo
    sequenceNumber := h.sequenceNumber.assign h'.sequenceNumber.value
    lastSegmentFlag := h'.lastSegmentFlag
    -- the two bytes of the offset, one upon the other
    segmentOffset := h'.segmentOffset / 256 ||| h'.segmentOffset % 256
    extensionBits := h.extensionBits ++ h'.extensionBits.take 1 }

theorem IsData.serialize (hh : h.IsData) : ∃ byte1 byte2 byte3 byte4 : UInt8, ∃ e it1,
    h.extensionBits = e :: it1 ∧ e < 2 ∧
    h.serialize = .ok (byte1 :: byte2 :: byte3 :: byte4 ::
      writeLengthIndicators it1 h.lengthIndicators) ∧
    byte1.toNat = 128 + h.resegmentationFlag * 64 + h.pollingBit * 32 + h.framingInfo * 8 + e * 4 +
      h.sequenceNumber.value / 256 ∧
    byte2.toNat = h.sequenceNumber.value % 256 ∧
    byte3.toNat = h.lastSegmentFlag * 128 + h.segmentOffset / 256 ∧
    byte4.toNat = h.segmentOffset % 256 := by
  obtain ⟨e, it1, hbits, he⟩ : ∃ e it1, h.extensionBits = e :: it1 ∧ e < 2 := by
    rw [hh.extensionBits]
    cases h.lengthIndicators.length with
    | zero => exact ⟨_, _, rfl, by decide⟩
    | succ n => exact ⟨_, _, rfl, by decide⟩
  obtain ⟨hdata, hrf, hp, hfi, hsn, hlsf, hso, -, -, -⟩ := hh
  rw [AmHeader.serialize, if_pos hdata, hbits]
  refine ⟨_, _, _, _, e, it1, rfl, he, rfl, ?_, ?_, ?_, ?_⟩
  · rw [firstByte_eq hrf hp hfi he hsn, toNat_writeU8 (by omega)]
  · rw [lowByte_eq, toNat_writeU8 (by omega)]
  · rw [thirdByte_eq hlsf hso, toNat_writeU8 (by omega)]
  · rw [lowByte_eq, toNat_writeU8 (by omega)]

theorem deserialize_fixed {h' : AmHeader} (hh : h'.IsData) {byte2 byte3 byte4 : UInt8}
    {it1 : List Nat} (rest : List UInt8) (hbits : h'.extensionBits = e :: it1) (he : e < 2)
    (h1 : byte1.toNat = 128 + h'.resegmentationFlag * 64 + h'.pollingBit * 32 + h'.framingInfo * 8 +
      e * 4 + h'.sequenceNumber.value / 256)
    (h2 : byte2.toNat = h'.sequenceNumber.value % 256)
    (h3 : byte3.toNat = h'.lastSegmentFlag * 128 + h'.segmentOffset / 256)
    (h4 : byte4.toNat = h'.segmentOffset % 256) :
    (e = DATA_FIELD_FOLLOWS → h.deserialize (byte1 :: byte2 :: byte3 :: byte4 :: rest) =
      .ok (h.readFixed h', 4)) ∧
    (e = E_LI_FIELDS_FOLLOWS → ∀ h₁, readLengthIndicators rest (h.readFixed h') = .ok h₁ →
      ∃ lastOffset, h.deserialize (byte1 :: byte2 :: byte3 :: byte4 :: rest) =
        .ok ({ h₁ with lastOffset }, h₁.headerLength)) := by
  obtain ⟨-, hrf, hp, hfi, hsn, hlsf, hso, -, -, -⟩ := hh
  have hdc : (byte1.toNat &&& 0x80) >>> 7 = 1 := (bit_read 7 _).trans (by omega)
  have hdc : (byte1.toNat &&& 0x80) >>> 7 = DATA_PDU := hdc
  have hrf' : (byte1.toNat &&& 0x40) >>> 6 = h'.resegmentationFlag :=
    (bit_read 6 _).trans (by omega)
  have hp' : (byte1.toNat &&& 0x20) >>> 5 = h'.pollingBit := (bit_read 5 _).trans (by omega)
  have hfi' : (byte1.toNat &&& 0x18) >>> 3 = h'.framingInfo := by
    have hmask : byte1.toNat &&& 0x18 = byte1.toNat / 2 ^ 3 % 2 ^ 2 * 2 ^ 3 := and_mask _ 3 2
    omega
  have he' : (byte1.toNat &&& 0x04) >>> 2 = e := (bit_read 2 _).trans (by omega)
  have hsn' : ((byte1.toNat &&& 0x03) <<< 8) ||| byte2.toNat = h'.sequenceNumber.value := by
    have hmask : byte1.toNat &&& 0x03 = byte1.toNat / 2 ^ 0 % 2 ^ 2 * 2 ^ 0 := and_mask _ 0 2
    rw [or_eq_add (w := 8) (by omega) (by omega)]
    omega
  have hlsf' : (byte3.toNat &&& 0x80) >>> 7 = h'.lastSegmentFlag := (bit_read 7 _).trans (by omega)
  have hso' : byte3.toNat &&& 0x7F = h'.segmentOffset / 256 := by
    have hmask : byte3.toNat &&& 0x7F = byte3.toNat / 2 ^ 0 % 2 ^ 7 * 2 ^ 0 := and_mask _ 0 7
    omega
  have hfixed : ({ h with
      headerLength := wadd 16 1 3
      dataControlBit := DATA_PDU
      resegmentationFlag := h'.resegmentationFlag
      pollingBit := h'.pollingBit
      framingInfo := h'.framingInfo
      sequenceNumber := h.sequenceNumber.assign h'.sequenceNumber.value
      lastSegmentFlag := h'.lastSegmentFlag
      segmentOffset := h'.segmentOffset / 256 ||| byte4.toNat
      extensionBits := h.extensionBits ++ [e] } : AmHeader) = h.readFixed h' := by
    rw [readFixed, hbits, h4]
    rfl
  rw [deserialize, readU8_cons, ok_bind]
  dsimp only
  rw [hdc, if_pos rfl, deserializeData]
  simp only [readU8_cons, ok_bind, hrf', hp', hfi', he', hsn', hlsf', hso', hfixed]
  constructor
  · rintro rfl
    rfl
  · rintro rfl h₁ hread
    rw [hread, if_neg (by decide), if_pos rfl, ok_bind]
    by_cases hsegment : h₁.resegmentationFlag = LteRlcAmHeader.SEGMENT
    · rw [if_pos hsegment]
      exact ⟨_, rfl⟩
    · rw [if_neg hsegment]
      exact ⟨h₁.lastOffset, rfl⟩

theorem IsData.read (hh : h.IsData) : ∃ bytes, h.serialize = .ok bytes ∧
    bytes.length = 4 + packed h.lengthIndicators.length ∧ ∀ lastSegmentFlag, ∃ h',
      (new lastSegmentFlag).deserialize bytes = .ok (h', h.headerLength) ∧
        h'.dataControlBit = DATA_PDU ∧ h.SameData h' ∧
        h'.segmentOffset = h.segmentOffset / 256 ||| h.segmentOffset % 256 := by
  obtain ⟨byte1, byte2, byte3, byte4, e, it1, hbits, he, hwrite, h1, h2, h3, h4⟩ := hh.serialize
  have hread (lastSegmentFlag : Nat) := deserialize_fixed (h := new lastSegmentFlag)
    hh (writeLengthIndicators it1 h.lengthIndicators) hbits he h1 h2 h3 h4
  have hmarks := hh.extensionBits
  have hlength := hh.headerLength
  have hlis := hh.lengthIndicators
  have hsn : ((new 0).sequenceNumber.assign h.sequenceNumber.value).value =
      h.sequenceNumber.value := Nat.mod_eq_of_lt hh.sequenceNumber
  rw [hbits] at hmarks
  cases hindicators : h.lengthIndicators with
  | nil =>
    rw [hindicators] at hmarks hlength hread hwrite
    obtain ⟨rfl, rfl⟩ := List.cons.inj hmarks
    refine ⟨_, hwrite, rfl, fun lastSegmentFlag => ?_⟩
    rw [hlength]
    refine ⟨_, (hread lastSegmentFlag).1 rfl, rfl, ⟨rfl, rfl, rfl, hsn, rfl, ?_, ?_⟩, rfl⟩
    · change [] ++ h.extensionBits.take 1 = h.extensionBits
      rw [hbits]
      rfl
    · exact hindicators.symm
  | cons li lis =>
    rw [hindicators] at hmarks hlength hread hwrite hlis
    rw [List.length_cons, marks_succ] at hmarks
    obtain ⟨rfl, rfl⟩ := List.cons.inj hmarks
    have hsize := length_writeLengthIndicators li lis
    refine ⟨_, hwrite, ?_, fun lastSegmentFlag => ?_⟩
    · rw [List.length_cons, List.length_cons, List.length_cons, List.length_cons, hsize,
        List.length_cons]
      omega
    have hfields := readLengthIndicators_write [] (h := (new lastSegmentFlag).readFixed h)
      hlis
    rw [List.append_nil] at hfields
    obtain ⟨lastOffset, hall⟩ := (hread lastSegmentFlag).2 rfl _ hfields
    rw [hlength]
    refine ⟨_, hall, rfl, ⟨rfl, rfl, rfl, hsn, rfl, ?_, ?_⟩, rfl⟩
    · change ([] ++ h.extensionBits.take 1) ++ marks lis.length = h.extensionBits
      rw [hbits]
      rfl
    · exact hindicators.symm

/-- A data header reads back unless its offset or its length overflows. -/
theorem IsData.reads_back_iff (hh : h.IsData) :
    h.RoundTrips ↔ h.segmentOffset < 256 ∧ 4 + packed h.lengthIndicators.length < 2 ^ 16 := by
  obtain ⟨bytes, hwrite, hlength, hread⟩ := hh.read
  have hsize : bytes.length = h.getSerializedSize ↔
      4 + packed h.lengthIndicators.length < 2 ^ 16 := by
    rw [hlength, getSerializedSize, hh.headerLength]
    omega
  have hoffset : (h.segmentOffset / 256 ||| h.segmentOffset % 256) = h.segmentOffset ↔
      h.segmentOffset < 256 := by
    have hso := hh.segmentOffset
    have hor : h.segmentOffset / 256 ||| h.segmentOffset % 256 < 2 ^ 8 :=
      Nat.or_lt_two_pow (by omega) (by omega)
    refine ⟨fun heq => heq ▸ hor, fun hlt => ?_⟩
    rw [Nat.div_eq_of_lt hlt, Nat.mod_eq_of_lt hlt, Nat.zero_or]
  constructor
  · rintro ⟨bytes', hwrite', hlength', hread'⟩
    cases hwrite.symm.trans hwrite'
    obtain ⟨h₁, hh₁, -, -, hso⟩ := hread 0
    obtain ⟨h₂, hh₂, -, hsame⟩ := hread' 0
    obtain ⟨rfl, -⟩ := pair_of_ok (hh₁.symm.trans hh₂)
    rw [if_pos hh.dataControlBit] at hsame
    exact ⟨hoffset.mp (hso.symm.trans hsame.2), hsize.mp hlength'⟩
  · rintro ⟨hso, hfits⟩
    refine ⟨bytes, hwrite, hsize.mpr hfits, fun lastSegmentFlag => ?_⟩
    obtain ⟨h₁, hh₁, hdata, hsame, hoff⟩ := hread lastSegmentFlag
    rw [hsize.mpr hfits]
    refine ⟨h₁, hh₁, hdata.trans hh.dataControlBit.symm, ?_⟩
    rw [if_pos hh.dataControlBit]
    exact ⟨hsame, hoff.trans (hoffset.mpr hso)⟩

/-! ## STATUS PDUs -/

theorem firstStatusByte_eq {sn : Nat} (hsn : sn < 1024) :
    ((CONTROL_PDU <<< 7) &&& 0x80) ||| ((STATUS_PDU <<< 4) &&& 0x70) ||| ((sn >>> 6) &&& 0x0F) =
      sn / 64 := by
  have hmask : (sn >>> 6) &&& 0x0F = sn / 2 ^ 6 % 2 ^ 4 := shr_and sn 6 4
  have hzero : ((CONTROL_PDU <<< 7) &&& 0x80) ||| ((STATUS_PDU <<< 4) &&& 0x70) = 0 := rfl
  rw [hzero, Nat.zero_or]
  omega

theorem secondStatusByte_eq {sn : Nat} (hn : n < 1024) :
    ((sn <<< 2) &&& 0xFC) ||| 0x02 ||| ((n >>> 9) &&& 0x01) = sn % 64 * 4 + 2 + n / 512 := by
  have hhigh : (sn <<< 2) &&& 0xFC = sn % 64 * 4 := (shl_and sn 2 6).trans (by omega)
  have hlow : (n >>> 9) &&& 0x01 = n / 512 := (shr_and n 9 1).trans (by omega)
  have hinner : sn % 64 * 4 ||| 0x02 = sn % 64 * 4 + 2 := or_eq_add (w := 2) (by omega) (by omega)
  rw [hhigh, hlow, hinner, or_eq_add (w := 1) (by omega) (by omega)]

/-- What is read of the first two bytes. -/
def readAck (h h' : AmHeader) : AmHeader :=
  { h with
    headerLength := 1
    dataControlBit := CONTROL_PDU
    controlPduType := STATUS_PDU
    ackSn := h.ackSn.assign h'.ackSn.value }

theorem deserialize_ack {h' : AmHeader} (hsn : h'.ackSn.value < 1024) (byte2 : UInt8)
    (rest : List UInt8) (h1 : byte1.toNat = h'.ackSn.value / 64)
    (h2 : byte2.toNat / 4 = h'.ackSn.value % 64) :
    (byte2.toNat / 2 % 2 = 0 → h.deserialize (byte1 :: byte2 :: rest) =
      .ok ({ h.readAck h' with headerLength := 2 }, 2)) ∧
    (byte2.toNat / 2 % 2 = 1 → ∀ (byte3 byte4 : UInt8) i nack, rest = byte3 :: byte4 :: i →
      byte2.toNat % 2 = nack / 512 → byte3.toNat = nack / 2 % 256 →
      byte4.toNat / 128 = nack % 2 → ∀ h₁,
        (if byte4.toNat / 64 % 2 = 1 then
          readNacks i byte4.toNat ({ h.readAck h' with headerLength := 2 }.readNackList [nack] 2)
        else .ok ({ h.readAck h' with headerLength := 2 }.readNackList [nack] 2)) = .ok h₁ →
        h.deserialize (byte1 :: byte2 :: rest) = .ok (h₁, h₁.headerLength)) := by
  have hdc : (byte1.toNat &&& 0x80) >>> 7 = 0 := (bit_read 7 _).trans (by omega)
  have hdc : (byte1.toNat &&& 0x80) >>> 7 = CONTROL_PDU := hdc
  have htype : (byte1.toNat &&& 0x70) >>> 4 = 0 := by
    have hmask : byte1.toNat &&& 0x70 = byte1.toNat / 2 ^ 4 % 2 ^ 3 * 2 ^ 4 := and_mask _ 4 3
    omega
  have htype : (byte1.toNat &&& 0x70) >>> 4 = STATUS_PDU := htype
  have hack : ((byte1.toNat &&& 0x0F) <<< 6) ||| ((byte2.toNat &&& 0xFC) >>> 2) =
      h'.ackSn.value := by
    have hhigh : byte1.toNat &&& 0x0F = byte1.toNat / 2 ^ 0 % 2 ^ 4 * 2 ^ 0 := and_mask _ 0 4
    have hlow : byte2.toNat &&& 0xFC = byte2.toNat / 2 ^ 2 % 2 ^ 6 * 2 ^ 2 := and_mask _ 2 6
    rw [or_eq_add (w := 6) (by omega) (by omega)]
    omega
  have hmore : (byte2.toNat &&& 0x02) >>> 1 = byte2.toNat / 2 % 2 := bit_read 1 _
  rw [deserialize, readU8_cons, ok_bind]
  dsimp only
  rw [hdc, if_neg (by decide), deserializeControl]
  simp only [readU8_cons, ok_bind, htype, hack, hmore]
  constructor
  · intro hlast
    rw [if_neg (by omega)]
    rfl
  · rintro hfollows byte3 byte4 i nack rfl hn2 hn3 hn4 h₁ hread
    have hmore' : (byte4.toNat &&& 0x40) >>> 6 = byte4.toNat / 64 % 2 := bit_read 6 _
    rw [if_pos hfollows]
    simp only [readU8_cons, ok_bind, oddNack_read hn2 hn3 hn4, hmore']
    split at hread
    · next hbit =>
        rw [if_pos hbit]
        change (readNacks i byte4.toNat ({ h.readAck h' with headerLength := 2 }.readNackList
          [nack] 2) >>= fun h => pure (h, h.getSerializedSize)) = _
        rw [hread]
        rfl
    · next hbit =>
        cases hread
        rw [if_neg hbit]
        rfl

theorem IsStatus.read (hh : h.IsStatus) : ∃ bytes, h.serialize = .ok bytes ∧
    bytes.length = 2 + packed h.nackSnList.length ∧ ∀ lastSegmentFlag, ∃ h',
      (new lastSegmentFlag).deserialize bytes = .ok (h', h.headerLength) ∧
        h'.dataControlBit = CONTROL_PDU ∧ h.SameStatus h' := by
  obtain ⟨hcontrol, htype, hsn, hnacks, hlength⟩ := hh
  have hack : ((new 0).ackSn.assign h.ackSn.value).value = h.ackSn.value := Nat.mod_eq_of_lt hsn
  have hfirst : (writeU8 (((CONTROL_PDU <<< 7) &&& 0x80) ||| ((h.controlPduType <<< 4) &&& 0x70) |||
      ((h.ackSn.value >>> 6) &&& 0x0F))).toNat = h.ackSn.value / 64 := by
    rw [htype, firstStatusByte_eq hsn, toNat_writeU8 (by omega)]
  have hsecond (nack : Nat) (hnack : nack < 1024) :
      (writeU8 (((h.ackSn.value <<< 2) &&& 0xFC) ||| 0x02 ||| ((nack >>> 9) &&& 0x01))).toNat =
        h.ackSn.value % 64 * 4 + 2 + nack / 512 := by
    rw [secondStatusByte_eq hnack, toNat_writeU8 (by omega)]
  have hwrite : h.serialize = _ := if_neg (by rw [hcontrol]; decide)
  rcases hlist : h.nackSnList with _ | ⟨n, _ | ⟨nack, nacks⟩⟩
  · rw [hlist] at hlength hwrite
    refine ⟨_, hwrite, rfl, fun lastSegmentFlag => ?_⟩
    have hlast : (writeU8 ((h.ackSn.value <<< 2) &&& 0xFC)).toNat = h.ackSn.value % 64 * 4 := by
      have hmask : (h.ackSn.value <<< 2) &&& 0xFC = h.ackSn.value <<< 2 / 2 ^ 2 % 2 ^ 6 * 2 ^ 2 :=
        and_mask _ 2 6
      rw [toNat_writeU8 (by omega)]
      omega
    have hread := (deserialize_ack (h := new lastSegmentFlag) hsn
      (writeU8 ((h.ackSn.value <<< 2) &&& 0xFC)) [] hfirst (by omega)).1 (by omega)
    rw [hlength]
    exact ⟨_, hread, rfl, htype.symm, hack, hlist.symm⟩
  · rw [hlist] at hlength hwrite hnacks
    have hn := hnacks n (.head _)
    obtain ⟨byte3, byte4, hlast, h3, h4⟩ := writeNacks_nil n
    dsimp only at hwrite
    rw [hlast] at hwrite
    refine ⟨_, hwrite, by simp [packed], fun lastSegmentFlag => ?_⟩
    have hbyte := hsecond n hn
    have hread := (deserialize_ack (h := new lastSegmentFlag) hsn
      (writeU8 (((h.ackSn.value <<< 2) &&& 0xFC) ||| 0x02 ||| ((n >>> 9) &&& 0x01)))
      [byte3, byte4] hfirst (by omega)).2 (by omega) byte3 byte4 [] n rfl (by omega) h3 (by omega) _
      (if_neg (by omega))
    have hpacked : packed [n].length = 2 := by simp [packed]
    rw [hlength, hpacked]
    exact ⟨_, hread, rfl, htype.symm, hack, hlist.symm⟩
  · rw [hlist] at hlength hwrite hnacks
    have hn := hnacks n (.head _)
    obtain ⟨byte3, byte4, more, hmore, h3, h4, hbit, hsize, hreads⟩ :=
      readNacks_write n fun x hx =>
        hnacks x (.tail _ hx)
    dsimp only at hwrite
    rw [hmore] at hwrite
    refine ⟨_, hwrite, ?_, fun lastSegmentFlag => ?_⟩
    · exact (by omega : more.length + 4 = 2 + packed (nacks.length + 2))
    have hbyte := hsecond n hn
    have hreads := hreads ({ (new lastSegmentFlag).readAck h with headerLength := 2 }.readNackList
      [n] 2) []
    rw [List.append_nil, readNackList_readNackList] at hreads
    have hread := (deserialize_ack (h := new lastSegmentFlag) hsn
      (writeU8 (((h.ackSn.value <<< 2) &&& 0xFC) ||| 0x02 ||| ((n >>> 9) &&& 0x01)))
      (byte3 :: byte4 :: more) hfirst (by omega)).2 (by omega) byte3 byte4 more n rfl (by omega)
      h3 (by omega) _ ((if_pos hbit).trans hreads)
    have hcount : 2 + (packed (nacks.length + 2) - 2) = packed (nacks.length + 2) := by
      rw [packed]
      omega
    rw [hlength]
    rw [hcount] at hread
    exact ⟨_, hread, rfl, htype.symm, hack, hlist.symm⟩

theorem IsStatus.reads_back_iff (hh : h.IsStatus) :
    h.RoundTrips ↔ 2 + packed h.nackSnList.length < 2 ^ 16 := by
  obtain ⟨bytes, hwrite, hlength, hread⟩ := hh.read
  have hnot : h.dataControlBit ≠ DATA_PDU := by
    rw [hh.dataControlBit]
    decide
  have hsize : bytes.length = h.getSerializedSize ↔ 2 + packed h.nackSnList.length < 2 ^ 16 := by
    rw [hlength, getSerializedSize, hh.headerLength]
    omega
  constructor
  · rintro ⟨bytes', hwrite', hlength', -⟩
    cases hwrite.symm.trans hwrite'
    exact hsize.mp hlength'
  · intro hfits
    refine ⟨bytes, hwrite, hsize.mpr hfits, fun lastSegmentFlag => ?_⟩
    obtain ⟨h₁, hh₁, hcontrol, hsame⟩ := hread lastSegmentFlag
    rw [hsize.mpr hfits]
    refine ⟨h₁, hh₁, hcontrol.trans hh.dataControlBit.symm, ?_⟩
    rw [if_neg hnot]
    exact hsame

end

/-! ## Headers as they are built -/

/-- What a header is built of. -/
inductive Parts where
  /-- `SetDataPdu`, the setters, an extension bit and a length indicator for each of a list, and the
  last extension bit -/
  | data (resegFlag pollingBit framingInfo lsf segmentOffset : Nat)
      (sequenceNumber : SequenceNumber10) (lengthIndicators : List Nat)
  /-- `SetControlPdu`, `SetAckSn` and the NACKs -/
  | status (ackSn : SequenceNumber10) (nacks : List Nat)

/-- The setters of a data PDU. -/
def setFields (h : LteRlcAmHeader) (resegFlag pollingBit framingInfo : Nat)
    (sequenceNumber : SequenceNumber10) : LteRlcAmHeader :=
  (((h.setSequenceNumber sequenceNumber).setResegmentationFlag resegFlag).setFramingInfo
    framingInfo).setPollingBit pollingBit

/-- The header, in a variable that the constructor has left with `lastSegmentFlag`. -/
def Parts.build (lastSegmentFlag : Nat) : Parts → Except Fault AmHeader
  | .data resegFlag pollingBit framingInfo lsf segmentOffset sequenceNumber lengthIndicators =>
    let h := (new lastSegmentFlag).setDataPdu
    let pushed := (marks lengthIndicators.length).foldl LteRlcAmHeader.pushExtensionBit
      h.toLteRlcAmHeader
    let pushed := lengthIndicators.foldl LteRlcAmHeader.pushLengthIndicator pushed
    let h := { h with
      toLteRlcAmHeader := setFields pushed resegFlag pollingBit framingInfo sequenceNumber }
    .ok ((h.setLastSegmentFlag lsf).setSegmentOffset segmentOffset)
  | .status ackSn nacks =>
    nacks.foldlM pushNack (((new lastSegmentFlag).setControlPdu STATUS_PDU).setAckSn ackSn)

/-- The numbers fit in their fields. -/
def Parts.InRange : Parts → Prop
  | .data _ _ _ _ _ sequenceNumber lengthIndicators =>
    sequenceNumber.value < 1024 ∧ ∀ li ∈ lengthIndicators, li < 2048
  | .status ackSn nacks => ackSn.value < 1024 ∧ ∀ nack ∈ nacks, nack < 1024

/-- The segment offset fits in one byte, and the size of the header in the word that counts it. -/
def Parts.Decodable : Parts → Prop
  | .data _ _ _ _ segmentOffset _ lengthIndicators =>
    segmentOffset % 2 ^ 15 < 256 ∧ 4 + packed lengthIndicators.length < 2 ^ 16
  | .status _ nacks => 2 + packed nacks.length < 2 ^ 16

section

variable {h : AmHeader}

theorem pushLengthIndicators_eq (lis : List Nat) (h : LteRlcAmHeader) :
    lis.foldl LteRlcAmHeader.pushLengthIndicator h =
      { h with lengthIndicators := h.lengthIndicators ++ lis } := by
  induction lis generalizing h with
  | nil => rw [List.foldl_nil, List.append_nil]
  | cons li lis ih =>
    rw [List.foldl_cons, ih, LteRlcAmHeader.pushLengthIndicator, List.append_assoc]
    rfl

theorem lengthIndicators_pushExtensionBits (bits : List Nat) (h : LteRlcAmHeader) :
    (bits.foldl LteRlcAmHeader.pushExtensionBit h).lengthIndicators = h.lengthIndicators := by
  induction bits generalizing h with
  | nil => rfl
  | cons bit bits ih => exact ih _

theorem length_marks (n : Nat) : (marks n).length = n + 1 := by
  rw [marks, List.length_append, List.length_replicate]
  rfl

theorem pushNacks_eq (nacks : List Nat) (hcontrol : h.dataControlBit = CONTROL_PDU)
    (htype : h.controlPduType = STATUS_PDU)
    (hlength : h.headerLength = (2 + packed h.nackSnList.length) % 2 ^ 16) :
    ∃ headerLength, nacks.foldlM pushNack h = Except.ok { h with
      nackSnList := h.nackSnList ++ nacks, headerLength } ∧
        headerLength = (2 + packed (h.nackSnList ++ nacks).length) % 2 ^ 16 := by
  induction nacks generalizing h with
  | nil =>
    refine ⟨h.headerLength, ?_, by rw [List.append_nil, hlength]⟩
    rw [List.append_nil]
    rfl
  | cons nack nacks ih =>
    have hpush : h.pushNack nack = .ok { h with
        nackSnList := h.nackSnList ++ [nack]
        headerLength := wadd 16 h.headerLength
          (if (h.nackSnList ++ [nack]).length % 2 = 0 then 1 else 2) } := by
      rw [pushNack, hcontrol, htype]
      rfl
    have hgrown : wadd 16 h.headerLength
        (if (h.nackSnList ++ [nack]).length % 2 = 0 then 1 else 2) =
          (2 + packed (h.nackSnList ++ [nack]).length) % 2 ^ 16 := by
      rw [List.length_append, List.length_singleton, hlength, wadd, packed, packed]
      split <;> omega
    obtain ⟨headerLength, hrest, hheader⟩ := ih (h := { h with
      nackSnList := h.nackSnList ++ [nack]
      headerLength := wadd 16 h.headerLength
        (if (h.nackSnList ++ [nack]).length % 2 = 0 then 1 else 2) }) hcontrol htype hgrown
    refine ⟨headerLength, ?_, ?_⟩
    · rw [List.foldlM_cons, hpush, ok_bind, hrest, List.append_assoc]
      rfl
    · rw [hheader, List.append_assoc]
      rfl

/-- **What is built** is decoded to what was encoded exactly if its parts are decodable. -/
theorem build_roundTrips_iff {p : Parts} (hp : p.InRange) (lastSegmentFlag : Nat) :
    ∃ h, p.build lastSegmentFlag = .ok h ∧ (h.RoundTrips ↔ p.Decodable) := by
  cases p with
  | data resegFlag pollingBit framingInfo lsf segmentOffset sequenceNumber lengthIndicators =>
    obtain ⟨hsn, hlis⟩ := hp
    refine ⟨_, rfl, ?_⟩
    rw [pushLengthIndicators_eq, lengthIndicators_pushExtensionBits]
    have hbits := LteRlcAmHeader.extensionBits_pushExtensionBits (marks lengthIndicators.length)
      (new lastSegmentFlag).setDataPdu.toLteRlcAmHeader
    have hlength := LteRlcAmHeader.headerLength_pushExtensionBits
      (marks lengthIndicators.length)
      (h := (new lastSegmentFlag).setDataPdu.toLteRlcAmHeader)
      (by decide : 4 = (4 + packed 0) % 2 ^ 16)
    have hcount : (new lastSegmentFlag).setDataPdu.extensionBits.length +
        (marks lengthIndicators.length).length - 1 = lengthIndicators.length := by
      rw [length_marks]
      exact Nat.zero_add _
    rw [hcount] at hlength
    exact IsData.reads_back_iff ⟨rfl, Nat.mod_lt _ (by decide), Nat.mod_lt _ (by decide),
      Nat.mod_lt _ (by decide), hsn, Nat.mod_lt _ (by decide), Nat.mod_lt _ (by decide), hbits,
      hlis, hlength⟩
  | status ackSn nacks =>
    obtain ⟨hsn, hnacks⟩ := hp
    obtain ⟨headerLength, hbuild, hheader⟩ := pushNacks_eq nacks
      (h := ((new lastSegmentFlag).setControlPdu STATUS_PDU).setAckSn ackSn) rfl rfl
      (by decide : 2 = (2 + packed 0) % 2 ^ 16)
    refine ⟨_, hbuild, ?_⟩
    have hstatus : IsStatus { ((new lastSegmentFlag).setControlPdu STATUS_PDU).setAckSn ackSn with
      nackSnList := [] ++ nacks, headerLength } :=
      ⟨rfl, rfl, hsn, hnacks, hheader⟩
    exact hstatus.reads_back_iff

/-- A segment with three length indicators, 255 bytes into its PDU. -/
def segment : Parts := .data 1 1 3 1 255 (.ofValue 1023) [2047, 1, 1025]

/-- Its header round-trips. -/
theorem segment_roundTrips : ∃ h, segment.build 0 = .ok h ∧ h.RoundTrips := by
  obtain ⟨h, hbuild, hiff⟩ := build_roundTrips_iff (p := segment) ⟨by decide, by decide⟩ 0
  exact ⟨h, hbuild, hiff.mpr ⟨by decide, by decide⟩⟩

/-- A segment 256 bytes into its PDU is read as if it were one byte into it. -/
theorem offset_misread :
    (do
      let h ← (Parts.data 1 0 0 0 256 (.ofValue 0) []).build 0
      let bytes ← h.serialize
      let (h', size) ← (new 0).deserialize bytes
      pure (h.segmentOffset, h'.segmentOffset, size)) = Except.ok (256, 1, 4) ∧
    ¬∀ p : Parts, p.InRange → ∃ h, p.build 0 = .ok h ∧ h.RoundTrips := by
  refine ⟨rfl, fun hall => ?_⟩
  obtain ⟨h, hbuild, bytes, hwrite, -, hread⟩ :=
    hall (.data 1 0 0 0 256 (.ofValue 0) []) ⟨by decide, by decide⟩
  cases hbuild
  cases hwrite
  obtain ⟨h', hh', -, -, hoffset⟩ := hread 0
  cases hh'
  exact absurd hoffset (by decide)

end

end AmHeader

end Lte

end Ns3
