/-
  The options of a TCP header as bytes
  (src/internet/model/tcp-option.cc and the classes derived from TcpOption).

  The classes of the options are the constructors of `TcpOption`.  A class reads its
  bytes into an object that `CreateOption` has made.

  `Serialize` writes into the bytes that were reserved before the payload, and
  `Deserialize` reads them back; both see the payload as well, for the checksum.
-/
import Ns3.Internet.Tcp.Header
import Ns3.Lib.OnesComplement
import Ns3.Network.BufferIterator

namespace Ns3.Tcp

open BufferIterator

/-- An option object, by its class. -/
inductive TcpOption where
  | optionEnd
  | optionNOP
  | optionMSS (mss : UInt16)
  | optionWinScale (scale : UInt8)
  | optionSackPermitted
  | optionSack (sackList : List SackBlock)
  | optionTS (timestamp echo : UInt32)
  | optionUnknown (kind : UInt8) (size : Nat) (content : List UInt8)
  deriving DecidableEq, Repr

namespace TcpOption

/-! ## Kinds -/

def END : UInt8 := 0
def NOP : UInt8 := 1
def MSS : UInt8 := 2
def WINSCALE : UInt8 := 3
def SACKPERMITTED : UInt8 := 4
def SACK : UInt8 := 5
def TS : UInt8 := 8
def UNKNOWN : UInt8 := 255

/-- `GetKind`. -/
def kind : TcpOption → UInt8
  | optionEnd => END
  | optionNOP => NOP
  | optionMSS _ => MSS
  | optionWinScale _ => WINSCALE
  | optionSackPermitted => SACKPERMITTED
  | optionSack _ => SACK
  | optionTS _ _ => TS
  | optionUnknown kind _ _ => kind

def isKindKnown (kind : UInt8) : Bool :=
  kind == END || kind == NOP || kind == MSS || kind == WINSCALE || kind == SACKPERMITTED ||
    kind == SACK || kind == TS

def createOption (kind : UInt8) : TcpOption :=
  if kind = END then optionEnd
  else if kind = MSS then optionMSS 1460
  else if kind = NOP then optionNOP
  else if kind = TS then optionTS 0 0
  else if kind = WINSCALE then optionWinScale 0
  else if kind = SACKPERMITTED then optionSackPermitted
  else if kind = SACK then optionSack []
  else optionUnknown 255 0 []

def serializedSize : TcpOption → Nat
  | optionEnd => 1
  | optionNOP => 1
  | optionMSS _ => 4
  | optionWinScale _ => 3
  | optionSackPermitted => 2
  | optionSack sackList => 2 + sackList.length * 8
  | optionTS _ _ => 10
  | optionUnknown _ size _ => size

/-! ## Writing -/

def writeBlock (block : SackBlock) : List UInt8 :=
  writeHtonU32 (UInt32.ofNat block.1.value.toNat) ++ writeHtonU32 (UInt32.ofNat block.2.value.toNat)

def serialize : TcpOption → List UInt8
  | optionEnd => [END]
  | optionNOP => [NOP]
  | optionMSS mss => [MSS, 4] ++ writeHtonU16 mss
  | optionWinScale scale => [WINSCALE, 3, scale]
  | optionSackPermitted => [SACKPERMITTED, 2]
  | optionSack sackList =>
    [SACK, UInt8.ofNat (sackList.length * 8 + 2)] ++ sackList.flatMap writeBlock
  | optionTS timestamp echo => [TS, 10] ++ writeHtonU32 timestamp ++ writeHtonU32 echo
  | optionUnknown kind size content =>
    if size = 0 then [] else [kind, UInt8.ofNat size] ++ content.take (size - 2)

/-! ## Reading -/

/-- The loop of `TcpOptionSack::Deserialize`. -/
def readBlocks : Nat → List SackBlock → List UInt8 → Except Fault (List SackBlock)
  | 0, sackList, _ => .ok sackList
  | sackCount + 1, sackList, i => do
      let (leftEdge, i) ← readNtohU32 i
      let (rightEdge, i) ← readNtohU32 i
      readBlocks sackCount (sackList ++ [(.ofNat leftEdge.toNat, .ofNat rightEdge.toNat)]) i

/-- `Deserialize`: the size that the class returns, and the object after it. -/
def deserialize (op : TcpOption) (start : List UInt8) : Except Fault (Nat × TcpOption) := do
  let (readKind, i) ← readU8 start
  match op with
  | optionEnd => pure (if readKind ≠ END then 0 else 1, op)
  | optionNOP => pure (if readKind ≠ NOP then 0 else 1, op)
  | optionMSS _ =>
    if readKind ≠ MSS then pure (0, op)
    else do
      let (size, i) ← readU8 i
      if size ≠ 4 then .error .aborted
      else do
        let (mss, _) ← readNtohU16 i
        pure (4, optionMSS mss)
  | optionWinScale _ =>
    if readKind ≠ WINSCALE then pure (0, op)
    else do
      let (size, i) ← readU8 i
      if size ≠ 3 then pure (0, op)
      else do
        let (scale, _) ← readU8 i
        pure (3, optionWinScale scale)
  | optionSackPermitted =>
    if readKind ≠ SACKPERMITTED then pure (0, op)
    else do
      let (size, _) ← readU8 i
      pure (if size ≠ 2 then 0 else 2, op)
  | optionSack _ =>
    if readKind ≠ SACK then pure (0, op)
    else do
      let (size, i) ← readU8 i
      -- the division truncates towards zero
      let sackList ← readBlocks (((size.toNat : Int) - 2).tdiv 8).toNat [] i
      pure ((optionSack sackList).serializedSize, optionSack sackList)
  | optionTS _ _ =>
    if readKind ≠ TS then pure (0, op)
    else do
      let (size, i) ← readU8 i
      if size ≠ 10 then pure (0, op)
      else do
        let (timestamp, i) ← readNtohU32 i
        let (echo, _) ← readNtohU32 i
        pure (10, optionTS timestamp echo)
  | optionUnknown _ _ content => do
      let (size, i) ← readU8 i
      if size.toNat < 2 ∨ 40 < size.toNat then
        pure (0, optionUnknown readKind size.toNat content)
      else do
        let (bytes, _) ← read i (size.toNat - 2)
        pure (size.toNat, optionUnknown readKind size.toNat bytes)

end TcpOption

/-! ## A TCP header as bytes (src/internet/model/tcp-header.cc) -/

namespace Wire

open Ns3.Lib

/-- The addresses of the pseudo header. -/
inductive ChecksumAddresses where
  | ipv4 (source destination : UInt32)
  | ipv6 (source destination : Vector UInt8 16)
  deriving DecidableEq, Repr

structure TcpHeader where
  sourcePort : UInt16 := 0
  destinationPort : UInt16 := 0
  sequenceNumber : SequenceNumber32 := .ofNat 0
  ackNumber : SequenceNumber32 := .ofNat 0
  length : UInt8 := 5
  flags : UInt8 := 0
  windowSize : UInt16 := 0xffff
  urgentPointer : UInt16 := 0
  addresses : ChecksumAddresses := .ipv4 0 0
  protocol : UInt8 := 6
  calcChecksum : Bool := false
  goodChecksum : Bool := true
  options : List TcpOption := []
  optionsLen : Nat := 0
  deriving DecidableEq, Repr

def maxOptionsLen : Nat := 40

/-! ## The checksum -/

/-- `CalculateIpChecksum(size, initialChecksum)` on the bytes from the iterator on: the words and
the odd byte at the end are added, and the carries folded in. -/
def calculateIpChecksum (bytes : List UInt8) (size initialChecksum : Nat) : Nat :=
  2 ^ 16 - 1 - foldSum ((initialChecksum + wordSum (bytes.take (size % 2 ^ 16))) % 2 ^ 32)

namespace TcpHeader

variable (h : TcpHeader)

def pseudoHeader (size : Nat) : List UInt8 :=
  match h.addresses with
  | .ipv4 source destination =>
    writeHtonU32 source ++ writeHtonU32 destination ++
      [0, h.protocol, UInt8.ofNat (size / 256), UInt8.ofNat size]
  | .ipv6 source destination =>
    source.toList ++ destination.toList ++
      [0, 0, UInt8.ofNat (size / 256), UInt8.ofNat size, 0, 0, 0, h.protocol]

def calculateHeaderChecksum (size : Nat) : Nat :=
  let bytes := h.pseudoHeader (size % 2 ^ 16)
  2 ^ 16 - 1 - calculateIpChecksum bytes bytes.length 0

/-! ## Building -/

def calculateHeaderLength : Nat :=
  let len := 20 + (h.options.map (·.serializedSize)).sum
  (len + if len % 4 = 0 then 0 else 4 - len % 4) / 4 % 2 ^ 8

def serializedSize : Nat := h.calculateHeaderLength * 4

def appendOption (option : TcpOption) : TcpHeader × Bool :=
  if h.optionsLen + option.serializedSize ≤ maxOptionsLen then
    if !TcpOption.isKindKnown option.kind then (h, false)
    else if option.kind ≠ TcpOption.END then
      let optionsLen := (h.optionsLen + option.serializedSize) % 2 ^ 8
      ({ h with
         options := h.options ++ [option]
         optionsLen, length := UInt8.ofNat ((20 + 3 + optionsLen) / 4) }, true)
    else (h, true)
  else (h, false)

/-! ## Writing -/

def writeFields (checksum : List UInt8) : List UInt8 :=
  writeHtonU16 h.sourcePort ++ writeHtonU16 h.destinationPort ++
    writeHtonU32 (UInt32.ofNat h.sequenceNumber.value.toNat) ++
    writeHtonU32 (UInt32.ofNat h.ackNumber.value.toNat) ++
    writeHtonU16 (UInt16.ofNat (h.length.toNat * 2 ^ 12) ||| UInt16.ofNat h.flags.toNat) ++
    writeHtonU16 h.windowSize ++ checksum ++ writeHtonU16 h.urgentPointer

def writeOptions : List UInt8 :=
  let optionLen := (h.options.map (·.serializedSize)).sum
  h.options.flatMap TcpOption.serialize ++
    List.replicate (if optionLen % 4 = 0 then 0 else 4 - optionLen % 4) TcpOption.END

/-- The header and the payload as they are before the checksum is known. -/
def writeUnchecked (payload : List UInt8) : List UInt8 :=
  h.writeFields [0, 0] ++ h.writeOptions ++ payload

/-- `Serialize`: the segment with its header.  `WriteU16` puts the low byte of the checksum
first. -/
def serialize (payload : List UInt8) : List UInt8 :=
  if h.calcChecksum then
    let segment := h.writeUnchecked payload
    let checksum := calculateIpChecksum segment segment.length
      (h.calculateHeaderChecksum segment.length)
    h.writeFields [UInt8.ofNat checksum, UInt8.ofNat (checksum / 256)] ++ h.writeOptions ++ payload
  else h.writeUnchecked payload

/-! ## Reading -/

/-- What the option loop of `Deserialize` writes. -/
structure OptionsRead where
  options : List TcpOption := []
  optionsLen : Nat := 0
  deriving DecidableEq, Repr

/-- The object that reads the option at the front. -/
def optionFor (kind : UInt8) : TcpOption :=
  if TcpOption.isKindKnown kind then TcpOption.createOption kind
  else TcpOption.createOption TcpOption.UNKNOWN

/-- The option loop of `Deserialize`.  Every turn is one step of the fuel. -/
def optionLoop : Nat → Nat → List UInt8 → OptionsRead → Except Fault OptionsRead
  | 0, _, _, _ => .error .noProgress
  | fuel + 1, optionLen, i, done => do
      if optionLen = 0 then pure done
      else
        let kind ← peekU8 i
        let (optionSize, op) ← (optionFor kind).deserialize i
        if optionSize ≠ op.serializedSize then pure done
        else if optionSize ≤ optionLen then
          let i ← next i optionSize
          let done : OptionsRead :=
            { options := done.options ++ [op],
              optionsLen := (done.optionsLen + optionSize) % 2 ^ 8 }
          if op.kind = TcpOption.END then
            -- the padding is skipped, byte by byte
            let _ ← next i (optionLen - optionSize)
            pure { done with optionsLen := (done.optionsLen + (optionLen - optionSize)) % 2 ^ 8 }
          else optionLoop fuel (optionLen - optionSize) i done
        else pure done

/-- The bytes of options that the data offset announces, as `Deserialize` computes them. -/
def announcedLen (length : UInt8) : Nat := wsub 32 length.toNat 5 * 4 % 2 ^ 32

/-- `Deserialize`: the header, and the size returned. -/
def deserialize (fuel : Nat) (start : List UInt8) : Except Fault (TcpHeader × Nat) := do
  let (sourcePort, i) ← readNtohU16 start
  let (destinationPort, i) ← readNtohU16 i
  let (sequenceNumber, i) ← readNtohU32 i
  let (ackNumber, i) ← readNtohU32 i
  let (field, i) ← readNtohU16 i
  let (windowSize, i) ← readNtohU16 i
  let i ← next i 2
  let (urgentPointer, i) ← readNtohU16 i
  let length := UInt8.ofNat (field.toNat / 2 ^ 12)
  let h := { h with
    optionsLen := 0
    sourcePort, destinationPort, sequenceNumber := .ofNat sequenceNumber.toNat
    ackNumber := .ofNat ackNumber.toNat
    flags := UInt8.ofNat field.toNat
    length, windowSize, urgentPointer, options := [] }
  let optionLen := announcedLen length
  if optionLen > maxOptionsLen then pure (h, 20)
  else
    let done ← optionLoop fuel optionLen i {}
    let h := { h with options := done.options, optionsLen := done.optionsLen }
    let h :=
      if h.calcChecksum then
        { h with
          goodChecksum := decide (calculateIpChecksum start start.length
            (h.calculateHeaderChecksum start.length) = 0) }
      else h
    pure (h, h.serializedSize)

end TcpHeader

end Wire

end Ns3.Tcp
