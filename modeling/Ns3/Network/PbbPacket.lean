/-
  Messages and packets
  (PbbMessage, PbbMessageIpv4, PbbMessageIpv6, PbbPacket, src/network/utils/packetbb.h,
  packetbb.cc).
-/
import Ns3.Network.PbbAddressBlock

namespace Ns3

namespace Pbb

open Lib BufferIterator

def VERSION : UInt8 := 0

def PHAS_SEQ_NUM : UInt8 := 0x8

def PHAS_TLV : UInt8 := 0x4

def MHAS_ORIG : UInt8 := 0x80

def MHAS_HOP_LIMIT : UInt8 := 0x40

def MHAS_HOP_COUNT : UInt8 := 0x20

def MHAS_SEQ_NUM : UInt8 := 0x10

/-- Parts that are written one after the other, each with what the buffer holds where it is
written to. -/
def placed {α β : Type} (held : Nat → β) (parts : List α) : List (α × β) :=
  parts.mapIdx fun i part => (part, held i)

/-! ## Messages -/

/-- A message; each option is written if set. -/
structure PbbMessage (k : PbbAddressLength) where
  type : UInt8
  originatorAddress : Option k.Address
  hopLimit : Option UInt8
  hopCount : Option UInt8
  sequenceNumber : Option UInt16
  tlvs : PbbTlvBlock
  addressBlocks : List (PbbAddressBlock k)
  deriving DecidableEq

namespace PbbMessage

variable {k : PbbAddressLength}

def getSerializedSize (message : PbbMessage k) : UInt32 :=
  let size : UInt32 := 4
  let size :=
    if message.originatorAddress.isSome then size + (k.value.toUInt32 + 1) else size
  let size := if message.hopLimit.isSome then size + 1 else size
  let size := if message.hopCount.isSome then size + 1 else size
  let size := if message.sequenceNumber.isSome then size + 2 else size
  let size := size + PbbTlvBlock.getSerializedSize message.tlvs
  message.addressBlocks.foldl (fun size block => size + block.getSerializedSize) size

/-- The flags: the address length, and which optional fields there are. -/
def flags (message : PbbMessage k) : UInt8 :=
  let flags := k.value
  let flags := if message.originatorAddress.isSome then flags ||| MHAS_ORIG else flags
  let flags := if message.hopLimit.isSome then flags ||| MHAS_HOP_LIMIT else flags
  let flags := if message.hopCount.isSome then flags ||| MHAS_HOP_COUNT else flags
  if message.sequenceNumber.isSome then flags ||| MHAS_SEQ_NUM else flags

/-- The address blocks; `held` is what the buffer holds at the flags of each. -/
def writeBlocks (message : PbbMessage k) (held : Nat → UInt8) : List UInt8 :=
  (placed held message.addressBlocks).flatMap fun place => place.1.serialize place.2

def contents (message : PbbMessage k) (held : Nat → UInt8) : List UInt8 :=
  writeOption k.serializeAddress message.originatorAddress ++
    writeOption (fun hopLimit => [hopLimit]) message.hopLimit ++
    writeOption (fun hopCount => [hopCount]) message.hopCount ++
    writeOption writeHtonU16 message.sequenceNumber ++
    PbbTlvBlock.serialize message.tlvs ++ message.writeBlocks held

/-- `PbbMessage::Serialize`.  The size is that of the whole message. -/
def serialize (message : PbbMessage k) (held : Nat → UInt8) : List UInt8 :=
  [message.type, message.flags] ++
    writeHtonU16 (UInt16.ofNat (4 + (message.contents held).length)) ++ message.contents held

def deserializeOriginatorAddress (k : PbbAddressLength) : Reader Fault k.Address :=
  fun start => do
    let (buffer, start) ← read start (k.value.toNat + 1)
    pure (k.deserializeAddress buffer, start)

/-- The address blocks: as long as less than the message's size has been read. A block is at least
four bytes long, so that `size` rounds are enough. -/
def readBlocks (k : PbbAddressLength) (front : List UInt8) (size : UInt16) :
    Reader Fault (List (PbbAddressBlock k)) := fun start =>
  if size > 0 then
    readWhile (PbbAddressBlock.deserialize k) .noProgress
      (fun start => (getDistanceFrom start front).toNat < size.toNat) size.toNat start
  else .ok ([], start)

def deserialize (k : PbbAddressLength) : Reader Fault (PbbMessage k) := fun front => do
  let (type, start) ← readU8 front
  let (flags, start) ← readU8 start
  let (size, start) ← readNtohU16 start
  let (originatorAddress, start) ←
    readIf (hasFlag flags MHAS_ORIG) (deserializeOriginatorAddress k) start
  let (hopLimit, start) ← readIf (hasFlag flags MHAS_HOP_LIMIT) readU8 start
  let (hopCount, start) ← readIf (hasFlag flags MHAS_HOP_COUNT) readU8 start
  let (sequenceNumber, start) ← readIf (hasFlag flags MHAS_SEQ_NUM) readNtohU16 start
  let (tlvs, start) ← PbbTlvBlock.deserialize start
  let (addressBlocks, start) ← readBlocks k front size start
  pure (⟨type, originatorAddress, hopLimit, hopCount, sequenceNumber, tlvs, addressBlocks⟩, start)

end PbbMessage

abbrev AnyPbbMessage : Type := (k : PbbAddressLength) × PbbMessage k

namespace AnyPbbMessage

def getSerializedSize (message : AnyPbbMessage) : UInt32 := message.2.getSerializedSize

def serialize (message : AnyPbbMessage) (held : Nat → UInt8) : List UInt8 :=
  message.2.serialize held

/-- `PbbMessage::DeserializeMessage`: nothing, and nothing read, if there is no such address
length. -/
def deserializeMessage : Reader Fault (Option AnyPbbMessage) := fun start => do
  let flags ← next start 1
  let (addrlen, _) ← readU8 flags
  let addrlen := addrlen &&& 0xf
  if addrlen = 0 ∨ addrlen = PbbAddressLength.ipv4.value then do
    let (message, start) ← PbbMessage.deserialize .ipv4 start
    pure (some ⟨.ipv4, message⟩, start)
  else if addrlen = PbbAddressLength.ipv6.value then do
    let (message, start) ← PbbMessage.deserialize .ipv6 start
    pure (some ⟨.ipv6, message⟩, start)
  else pure (none, start)

end AnyPbbMessage

/-! ## Packets -/

/-- A packet of messages. -/
structure PbbPacket where
  version : UInt8
  sequenceNumber : Option UInt16
  forceTlv : Bool
  tlvs : PbbTlvBlock
  messages : List AnyPbbMessage
  deriving DecidableEq

namespace PbbPacket

def writesTlvs (packet : PbbPacket) : Bool := !packet.tlvs.isEmpty || packet.forceTlv

def getSerializedSize (packet : PbbPacket) : UInt32 :=
  let size : UInt32 := 1
  let size := if packet.sequenceNumber.isSome then size + 2 else size
  let size :=
    if packet.writesTlvs then size + PbbTlvBlock.getSerializedSize packet.tlvs else size
  packet.messages.foldl (fun size message => size + message.getSerializedSize) size

def flags (packet : PbbPacket) : UInt8 :=
  let flags := VERSION <<< 4
  let flags := if packet.sequenceNumber.isSome then flags ||| PHAS_SEQ_NUM else flags
  if packet.writesTlvs then flags ||| PHAS_TLV else flags

/-- The messages; `held` is what the buffer holds at the flags of each address block of each. -/
def writeMessages (packet : PbbPacket) (held : Nat → Nat → UInt8) : List UInt8 :=
  (placed held packet.messages).flatMap fun place => place.1.serialize place.2

def serialize (packet : PbbPacket) (held : Nat → Nat → UInt8) : List UInt8 :=
  [packet.flags] ++ writeOption writeHtonU16 packet.sequenceNumber ++
    (if packet.writesTlvs then PbbTlvBlock.serialize packet.tlvs else []) ++
    packet.writeMessages held

/-- `while (!start.IsEnd())`: the messages, and whether the end was reached.  `fuel` bounds the
rounds. -/
def readMessages : Nat → Reader Fault (List AnyPbbMessage × Bool)
  | 0, start => if start.isEmpty then .ok (([], true), start) else .error .noProgress
  | fuel + 1, start =>
    if start.isEmpty then .ok (([], true), start)
    else do
      let (newmsg, start) ← AnyPbbMessage.deserializeMessage start
      match newmsg with
      | none => pure (([], false), start)
      | some message => do
          let ((messages, atEnd), start) ← readMessages fuel start
          pure ((message :: messages, atEnd), start)

/-- `PbbPacket::Deserialize`, into a new packet: the packet, the number of bytes it returns, and
what is left. -/
def deserialize (begin : List UInt8) : Except Fault (PbbPacket × UInt32 × List UInt8) := do
  let (flags, start) ← readU8 begin
  let (sequenceNumber, start) ← readIf (hasFlag flags PHAS_SEQ_NUM) readNtohU16 start
  let (tlvs, start) ← readIf (hasFlag flags PHAS_TLV) PbbTlvBlock.deserialize start
  let ((messages, atEnd), start) ← readMessages start.length start
  let version := if atEnd then flags >>> 4 else VERSION
  pure (⟨version, sequenceNumber, false, tlvs.getD [], messages⟩, getDistanceFrom start begin,
    start)

end PbbPacket

end Pbb

end Ns3
