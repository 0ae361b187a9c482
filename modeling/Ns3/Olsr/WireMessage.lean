/-
  OLSR messages and their bytes (olsr::MessageHeader,
  src/olsr/model/olsr-header.h, olsr-header.cc).

  `Buffer::Iterator::ReadU8` asserts that there is a byte left; `ReadNtohU16` and `ReadNtohU32`
  do not, and what they return at the end of the buffer is not defined.
-/
import Ns3.Lib.Decoder
import Ns3.Network.BufferIterator

namespace Ns3

namespace Olsr

namespace Wire

open Lib BufferIterator

/-! ## Reading a buffer -/

def readU8 : Decoder Fault UInt8
  | [] => (.error .assertFailed, [])
  | b :: rest => (.ok b, rest)

def readNtohU16 : Decoder Fault UInt16 := fun i =>
  match BufferIterator.readNtohU16 i with
  | .ok (value, rest) => (.ok value, rest)
  | .error e => (.error e, i)

def readNtohU32 : Decoder Fault UInt32 := fun i =>
  match BufferIterator.readNtohU32 i with
  | .ok (value, rest) => (.ok value, rest)
  | .error e => (.error e, i)

/-- `NS_ASSERT`. -/
def assertThat (condition : Bool) : Decoder Fault Unit := Decoder.check condition .assertFailed

/-! ## Messages -/

def IPV4_ADDRESS_SIZE : Nat := 4

def OLSR_MSG_HEADER_SIZE : Nat := 12

structure LinkMessage where
  linkCode : UInt8
  neighborInterfaceAddresses : List UInt32
  deriving DecidableEq, Repr

structure Hello where
  hTime : UInt8
  willingness : UInt8
  linkMessages : List LinkMessage
  deriving DecidableEq, Repr

structure Tc where
  ansn : UInt16
  neighborAddresses : List UInt32
  deriving DecidableEq, Repr

structure Mid where
  interfaceAddresses : List UInt32
  deriving DecidableEq, Repr

structure Association where
  address : UInt32
  mask : UInt32
  deriving DecidableEq, Repr

structure Hna where
  associations : List Association
  deriving DecidableEq, Repr

/-- The part of `m_message` that the message type selects. -/
inductive Body where
  | hello (hello : Hello)
  | tc (tc : Tc)
  | mid (mid : Mid)
  | hna (hna : Hna)
  deriving DecidableEq, Repr

def Body.messageType : Body → UInt8
  | .hello _ => 1
  | .tc _ => 2
  | .mid _ => 3
  | .hna _ => 4

/-- `MessageHeader`.  `m_messageSize` is set by `Deserialize` only. -/
structure MessageHeader where
  vTime : UInt8
  messageSize : UInt16
  originatorAddress : UInt32
  timeToLive : UInt8
  hopCount : UInt8
  messageSequenceNumber : UInt16
  body : Body
  deriving DecidableEq, Repr

/-! ## Sizes -/

def LinkMessage.getSerializedSize (lm : LinkMessage) : Nat :=
  4 + IPV4_ADDRESS_SIZE * lm.neighborInterfaceAddresses.length

def Hello.getSerializedSize (hello : Hello) : Nat :=
  hello.linkMessages.foldl (fun size lm => size + lm.getSerializedSize) 4

def Tc.getSerializedSize (tc : Tc) : Nat := 4 + tc.neighborAddresses.length * IPV4_ADDRESS_SIZE

def Mid.getSerializedSize (mid : Mid) : Nat := mid.interfaceAddresses.length * IPV4_ADDRESS_SIZE

def Hna.getSerializedSize (hna : Hna) : Nat := 2 * hna.associations.length * IPV4_ADDRESS_SIZE

def Body.getSerializedSize : Body → Nat
  | .hello message => message.getSerializedSize
  | .tc message => message.getSerializedSize
  | .mid message => message.getSerializedSize
  | .hna message => message.getSerializedSize

def MessageHeader.getSerializedSize (msg : MessageHeader) : Nat :=
  OLSR_MSG_HEADER_SIZE + msg.body.getSerializedSize

/-! ## Writing -/

def LinkMessage.serialize (lm : LinkMessage) : List UInt8 :=
  [lm.linkCode, 0] ++
    writeHtonU16 (UInt16.ofNat (4 + lm.neighborInterfaceAddresses.length * IPV4_ADDRESS_SIZE)) ++
    lm.neighborInterfaceAddresses.flatMap writeHtonU32

def Hello.serialize (hello : Hello) : List UInt8 :=
  [0, 0, hello.hTime, hello.willingness] ++ hello.linkMessages.flatMap LinkMessage.serialize

def Tc.serialize (tc : Tc) : List UInt8 :=
  writeHtonU16 tc.ansn ++ writeHtonU16 0 ++ tc.neighborAddresses.flatMap writeHtonU32

def Mid.serialize (mid : Mid) : List UInt8 := mid.interfaceAddresses.flatMap writeHtonU32

def Association.serialize (assoc : Association) : List UInt8 :=
  writeHtonU32 assoc.address ++ writeHtonU32 assoc.mask

def Hna.serialize (hna : Hna) : List UInt8 := hna.associations.flatMap Association.serialize

def Body.serialize : Body → List UInt8
  | .hello message => message.serialize
  | .tc message => message.serialize
  | .mid message => message.serialize
  | .hna message => message.serialize

def MessageHeader.serialize (msg : MessageHeader) : List UInt8 :=
  [msg.body.messageType, msg.vTime] ++ writeHtonU16 (UInt16.ofNat msg.getSerializedSize) ++
    writeHtonU32 msg.originatorAddress ++ [msg.timeToLive, msg.hopCount] ++
    writeHtonU16 msg.messageSequenceNumber ++ msg.body.serialize

/-! ## Reading

The sizes passed to the parts are `uint32_t`; what is left of a HELLO message is a `uint16_t`. -/

def Mid.deserialize (messageSize : UInt32) : Decoder Fault (Mid × UInt32) := do
  assertThat (messageSize.toNat % IPV4_ADDRESS_SIZE = 0)
  let numAddresses := messageSize.toNat / IPV4_ADDRESS_SIZE
  let interfaceAddresses ← Decoder.replicate numAddresses readNtohU32
  let mid : Mid := ⟨interfaceAddresses⟩
  pure (mid, UInt32.ofNat mid.getSerializedSize)

/-- `for (int n = k; n; --n)`, an address read in each round.  `fuel` bounds the rounds. -/
def readCountingDown : Nat → Int → Decoder Fault (List UInt32)
  | 0, n => if n = 0 then pure [] else Decoder.fail .noProgress
  | fuel + 1, n =>
    if n = 0 then pure []
    else do
      let address ← readNtohU32
      let addresses ← readCountingDown fuel (n - 1)
      pure (address :: addresses)

/-- As many rounds as there are bytes left, and one more. -/
def readAddressesDown (n : Int) : Decoder Fault (List UInt32) := fun i =>
  readCountingDown (i.length + 1) n i

/-- The loop of `Hello::Deserialize`.  `fuel` bounds the rounds. -/
def Hello.linkLoop : Nat → UInt16 → Decoder Fault (List LinkMessage)
  | 0, helloSizeLeft => if helloSizeLeft = 0 then pure [] else Decoder.fail .noProgress
  | fuel + 1, helloSizeLeft =>
    if helloSizeLeft = 0 then pure []
    else do
      assertThat (4 ≤ helloSizeLeft.toNat)
      let linkCode ← readU8
      let _ ← readU8
      let lmSize ← readNtohU16
      assertThat (Int.tmod ((lmSize.toNat : Int) - 4) IPV4_ADDRESS_SIZE = 0)
      let addresses ← readAddressesDown (Int.tdiv ((lmSize.toNat : Int) - 4) IPV4_ADDRESS_SIZE)
      let rest ← linkLoop fuel (helloSizeLeft - lmSize)
      pure (⟨linkCode, addresses⟩ :: rest)

/-- As many rounds as there are bytes left, and one more. -/
def Hello.readLinks (helloSizeLeft : UInt16) : Decoder Fault (List LinkMessage) := fun i =>
  linkLoop (i.length + 1) helloSizeLeft i

def Hello.deserialize (messageSize : UInt32) : Decoder Fault (Hello × UInt32) := do
  assertThat (4 ≤ messageSize.toNat)
  let helloSizeLeft := messageSize.toUInt16
  let _ ← readNtohU16
  let hTime ← readU8
  let willingness ← readU8
  let helloSizeLeft := helloSizeLeft - 4
  let linkMessages ← readLinks helloSizeLeft
  pure (⟨hTime, willingness, linkMessages⟩, messageSize)

def Tc.deserialize (messageSize : UInt32) : Decoder Fault (Tc × UInt32) := do
  assertThat (4 ≤ messageSize.toNat)
  let ansn ← readNtohU16
  let _ ← readNtohU16
  assertThat ((messageSize - 4).toNat % IPV4_ADDRESS_SIZE = 0)
  let numAddresses := (messageSize - 4).toNat / IPV4_ADDRESS_SIZE
  let neighborAddresses ← Decoder.replicate numAddresses readNtohU32
  pure (⟨ansn, neighborAddresses⟩, messageSize)

def Association.deserialize : Decoder Fault Association := do
  let address ← readNtohU32
  let mask ← readNtohU32
  pure ⟨address, mask⟩

def Hna.deserialize (messageSize : UInt32) : Decoder Fault (Hna × UInt32) := do
  assertThat (messageSize.toNat % (IPV4_ADDRESS_SIZE * 2) = 0)
  let numAddresses := messageSize.toNat / IPV4_ADDRESS_SIZE / 2
  let associations ← Decoder.replicate numAddresses Association.deserialize
  pure (⟨associations⟩, messageSize)

def Body.deserialize (messageType : UInt8) (messageSize : UInt32) :
    Decoder Fault (Body × UInt32) :=
  if messageType = 3 then do
    let (message, size) ← Mid.deserialize messageSize
    pure (.mid message, size)
  else if messageType = 1 then do
    let (message, size) ← Hello.deserialize messageSize
    pure (.hello message, size)
  else if messageType = 2 then do
    let (message, size) ← Tc.deserialize messageSize
    pure (.tc message, size)
  else if messageType = 4 then do
    let (message, size) ← Hna.deserialize messageSize
    pure (.hna message, size)
  else Decoder.fail .assertFailed

def MessageHeader.deserialize : Decoder Fault (MessageHeader × UInt32) := do
  let messageType ← readU8
  assertThat (1 ≤ messageType.toNat && messageType.toNat ≤ 4)
  let vTime ← readU8
  let messageSize ← Wire.readNtohU16
  let originatorAddress ← Wire.readNtohU32
  let timeToLive ← readU8
  let hopCount ← readU8
  let messageSequenceNumber ← Wire.readNtohU16
  let (body, size) ←
    Body.deserialize messageType (messageSize.toUInt32 - UInt32.ofNat OLSR_MSG_HEADER_SIZE)
  pure (⟨vTime, messageSize, originatorAddress, timeToLive, hopCount, messageSequenceNumber, body⟩,
    UInt32.ofNat OLSR_MSG_HEADER_SIZE + size)

end Wire

end Olsr

end Ns3
