/-
  Address blocks, compressed by a common head and tail
  (PbbAddressBlock, src/network/utils/packetbb.h, packetbb.cc).

  Index variables are `int`, and `headlen` and `taillen` are `uint8_t` that stay below 17: both
  are natural numbers.
-/
import Mathlib.Data.Vector.Defs
import Ns3.Network.PbbTlv

namespace Ns3

namespace Pbb

open Lib BufferIterator

def AHAS_HEAD : UInt8 := 0x80

def AHAS_FULL_TAIL : UInt8 := 0x40

def AHAS_ZERO_TAIL : UInt8 := 0x20

def AHAS_SINGLE_PRE_LEN : UInt8 := 0x10

def AHAS_MULTI_PRE_LEN : UInt8 := 0x08

/-! ## Addresses -/

inductive PbbAddressLength where
  | ipv4
  | ipv6
  deriving DecidableEq, Repr

namespace PbbAddressLength

def value : PbbAddressLength → UInt8
  | ipv4 => 3
  | ipv6 => 15

def addressLength : PbbAddressLength → Nat
  | ipv4 => 4
  | ipv6 => 16

def Address : PbbAddressLength → Type
  | ipv4 => UInt32
  | ipv6 => Vector UInt8 16

instance : ∀ k : PbbAddressLength, DecidableEq k.Address
  | ipv4 => inferInstanceAs (DecidableEq UInt32)
  | ipv6 => inferInstanceAs (DecidableEq (Vector UInt8 16))

def serializeAddress : (k : PbbAddressLength) → k.Address → List UInt8
  | ipv4, address => writeHtonU32 address
  | ipv6, address => address.toList

def deserializeAddress : (k : PbbAddressLength) → List UInt8 → k.Address
  | ipv4, buffer => UInt32.ofNat (ofBytes buffer)
  | ipv6, buffer => Vector.ofFn fun i => buffer.getD i 0

theorem writeHtonU32_back (address : UInt32) :
    UInt32.ofNat (ofBytes (writeHtonU32 address)) = address := by
  have hlt : address.toNat < 256 ^ 4 := address.toNat_lt
  rw [writeHtonU32, ofBytes_toBytes_of_lt hlt, UInt32.ofNat_toNat]

theorem toList_back (address : Vector UInt8 16) :
    (Vector.ofFn fun i : Fin 16 => address.toList.getD i 0) = address := by
  refine Vector.ext fun i hi => ?_
  have hlen : i < address.toList.length := by rwa [Vector.length_toList]
  rw [Vector.getElem_ofFn, List.getD_eq_getElem?_getD, List.getElem?_eq_getElem hlen,
    Option.getD_some, Vector.getElem_toList]

@[simp] theorem length_serializeAddress (k : PbbAddressLength) (address : k.Address) :
    (k.serializeAddress address).length = k.addressLength := by
  cases k with
  | ipv4 => exact length_writeHtonU32 address
  | ipv6 => exact Vector.length_toList

theorem deserializeAddress_serialize (k : PbbAddressLength) (address : k.Address) :
    k.deserializeAddress (k.serializeAddress address) = address := by
  cases k with
  | ipv4 => exact writeHtonU32_back address
  | ipv6 => exact toList_back address

theorem serializeAddress_deserialize {k : PbbAddressLength} {buffer : List UInt8}
    (h : buffer.length = k.addressLength) :
    k.serializeAddress (k.deserializeAddress buffer) = buffer := by
  cases k with
  | ipv4 =>
    have hlen : buffer.length = 4 := h
    have hlt : ofBytes buffer < 2 ^ 32 := by
      have hbound := ofBytes_lt buffer
      rw [hlen] at hbound
      exact hbound
    show toBytes 4 (UInt32.ofNat (ofBytes buffer)).toNat = buffer
    rw [UInt32.toNat_ofNat', Nat.mod_eq_of_lt hlt, ← hlen, toBytes_ofBytes]
  | ipv6 =>
    have hlen : buffer.length = 16 := h
    show (Vector.ofFn fun i : Fin 16 => buffer.getD i 0).toList = buffer
    refine List.ext_getElem (by rw [Vector.length_toList, hlen]) fun i hi hi' => ?_
    rw [Vector.getElem_toList, Vector.getElem_ofFn, List.getD_eq_getElem?_getD,
      List.getElem?_eq_getElem hi', Option.getD_some]

end PbbAddressLength

/-! ## Head and tail -/

/-- The variables of `GetHeadTail`. -/
structure HeadTail where
  headlen : Nat
  taillen : Nat
  buflast : List UInt8
  bufcur : List UInt8
  deriving DecidableEq, Repr

/-- `for (i = 0; i < headlen; i++)`: `headlen` becomes the first index at which the buffers
differ. -/
def headLoop (buflast bufcur : List UInt8) (headlen : Nat) : Nat :=
  ((List.range headlen).find? fun i => buflast[i]? != bufcur[i]?).getD headlen

/-- `for (i = …; GetAddressLength() - 1 - i <= taillen && i > headlen; i--)`: the index at which
the loop ends. -/
def tailLoop (length headlen taillen : Nat) (buflast bufcur : List UInt8) : Nat → Nat
  | 0 => 0
  | i + 1 =>
    if length - 1 - (i + 1) ≤ taillen ∧ i + 1 > headlen then
      if buflast[i + 1]? != bufcur[i + 1]? then i + 1
      else tailLoop length headlen taillen buflast bufcur i
    else i + 1

/-- The loop of `GetHeadTail` over the addresses.  `AddressBegin()++` is `AddressBegin()`: the
first address is compared with itself. -/
def headTailLoop (length : Nat) : List (List UInt8) → HeadTail → HeadTail
  | [], s => s
  | address :: rest, s =>
    let bufcur := address
    let headlen := headLoop s.buflast bufcur s.headlen
    if length - headlen > 0 then
      let i := tailLoop length headlen s.taillen s.buflast bufcur (length - 1)
      headTailLoop length rest ⟨headlen, length - 1 - i, bufcur, s.buflast⟩
    else if headlen = 0 then ⟨headlen, 0, s.buflast, bufcur⟩
    else headTailLoop length rest ⟨headlen, s.taillen, bufcur, s.buflast⟩

/-- `GetHeadTail`, of at least one address: the loop's variables at its end.  `bufcur` is
overwritten before it is read. -/
def getHeadTail (length : Nat) (addresses : List (List UInt8)) : HeadTail :=
  headTailLoop length addresses ⟨length, length, addresses.headD [], List.replicate length 0⟩

def HeadTail.head (s : HeadTail) : List UInt8 := s.bufcur.take s.headlen

def HeadTail.tail (length : Nat) (s : HeadTail) : List UInt8 :=
  (s.bufcur.drop (length - s.taillen)).take s.taillen

def hasZeroTail (tail : List UInt8) : Bool := tail.all (· == 0)

/-! ## Address blocks -/

/-- Addresses, their prefix lengths and TLVs. -/
structure PbbAddressBlock (k : PbbAddressLength) where
  addresses : List k.Address
  prefixes : List UInt8
  addressTlvs : PbbTlvBlock
  deriving DecidableEq

namespace PbbAddressBlock

variable {k : PbbAddressLength}

def buffers (block : PbbAddressBlock k) : List (List UInt8) :=
  block.addresses.map k.serializeAddress

def headTail (block : PbbAddressBlock k) : HeadTail := getHeadTail k.addressLength block.buffers

def getPrefixFlags (block : PbbAddressBlock k) : UInt8 :=
  match block.prefixes.length with
  | 0 => 0
  | 1 => AHAS_SINGLE_PRE_LEN
  | _ => AHAS_MULTI_PRE_LEN

def headTailSize (block : PbbAddressBlock k) : UInt32 :=
  let s := block.headTail
  let size : UInt32 := 0
  let size := if s.headlen > 0 then size + UInt32.ofNat (1 + s.headlen) else size
  let size :=
    if s.taillen > 0 then
      let size := size + 1
      if !hasZeroTail (s.tail k.addressLength) then size + UInt32.ofNat s.taillen else size
    else size
  size + UInt32.ofInt (((k.addressLength : Int) - s.headlen - s.taillen) * block.addresses.length)

def getSerializedSize (block : PbbAddressBlock k) : UInt32 :=
  let size : UInt32 := 2
  let size :=
    if block.addresses.length = 1 then
      size + UInt32.ofNat (k.addressLength + block.prefixes.length)
    else if block.addresses.length > 0 then
      size + block.headTailSize + UInt32.ofNat block.prefixes.length
    else size
  size + PbbTlvBlock.getSerializedSize block.addressTlvs

def headTailPart (block : PbbAddressBlock k) : UInt8 × List UInt8 :=
  let s := block.headTail
  let head := s.head
  let tail := s.tail k.addressLength
  let (headFlags, headBytes) :=
    if s.headlen > 0 then (AHAS_HEAD, UInt8.ofNat s.headlen :: head) else (0, [])
  let (tailFlags, tailBytes) :=
    if s.taillen > 0 then
      if hasZeroTail tail then (AHAS_ZERO_TAIL, [UInt8.ofNat s.taillen])
      else (AHAS_FULL_TAIL, UInt8.ofNat s.taillen :: tail)
    else (0, [])
  (headFlags ||| tailFlags, headBytes ++ tailBytes)

/-- `start.Write(mid + headlen, GetAddressLength() - headlen - taillen)`, of every address. -/
def mids (block : PbbAddressBlock k) : List UInt8 :=
  let s := block.headTail
  if s.headlen + s.taillen < k.addressLength then
    block.buffers.flatMap fun mid =>
      (mid.drop s.headlen).take (k.addressLength - s.headlen - s.taillen)
  else []

/-- The flags and what follows them.  Without addresses `Serialize` steps over the flags, a byte
that keeps what the buffer `held`. -/
def addressPart (block : PbbAddressBlock k) (held : UInt8) : UInt8 × List UInt8 :=
  match block.addresses with
  | [] => (held, [])
  | [address] =>
    match block.prefixes with
    | [prefixFront] => (AHAS_SINGLE_PRE_LEN, k.serializeAddress address ++ [prefixFront])
    | _ => (0, k.serializeAddress address)
  | _ =>
    let (flags, bytes) := block.headTailPart
    (flags ||| block.getPrefixFlags, bytes ++ block.mids ++ block.prefixes)

def serialize (block : PbbAddressBlock k) (held : UInt8) : List UInt8 :=
  [UInt8.ofNat block.addresses.length, (block.addressPart held).1] ++
    (block.addressPart held).2 ++ PbbTlvBlock.serialize block.addressTlvs

/-- `start.Read(addrtmp + offset, size)`.  A write past the end of `addrtmp` is a fault. -/
def readInto (addrtmp : List UInt8) (offset size : Nat) : Reader Fault (List UInt8) :=
  fun start =>
    if offset + size ≤ addrtmp.length then do
      let (bytes, start) ← read start size
      pure (addrtmp.take offset ++ bytes ++ addrtmp.drop (offset + size), start)
    else .error .badIterator

def readHead (flags : UInt8) (addrtmp : List UInt8) : Reader Fault (Nat × List UInt8) :=
  fun start =>
    if hasFlag flags AHAS_HEAD then do
      let (headlen, start) ← readU8 start
      let (addrtmp, start) ← readInto addrtmp 0 headlen.toNat start
      pure ((headlen.toNat, addrtmp), start)
    else pure ((0, addrtmp), start)

def readTail (k : PbbAddressLength) (flags : UInt8) (addrtmp : List UInt8) :
    Reader Fault (Nat × List UInt8) := fun start =>
  if (flags &&& AHAS_FULL_TAIL) ^^^ (flags &&& AHAS_ZERO_TAIL) != 0 then do
    let (taillen, start) ← readU8 start
    if hasFlag flags AHAS_FULL_TAIL then do
      let (addrtmp, start) ←
        readInto addrtmp (k.addressLength - taillen.toNat) taillen.toNat start
      pure ((taillen.toNat, addrtmp), start)
    else pure ((taillen.toNat, addrtmp), start)
  else pure ((0, addrtmp), start)

/-- The loop over the addresses.  The size is converted to `uint32_t`. -/
def readMids (k : PbbAddressLength) (headlen taillen : Nat) :
    Nat → List UInt8 → Reader Fault (List k.Address)
  | 0, _ => fun start => .ok ([], start)
  | numaddr + 1, addrtmp => fun start => do
      let size := UInt32.ofInt ((k.addressLength : Int) - headlen - taillen)
      let (addrtmp, start) ← readInto addrtmp headlen size.toNat start
      let (addresses, start) ← readMids k headlen taillen numaddr addrtmp start
      pure (k.deserializeAddress addrtmp :: addresses, start)

def readPrefixes : Nat → Reader Fault (List UInt8)
  | 0 => fun start => .ok ([], start)
  | n + 1 => fun start => do
      let (prefixLength, start) ← readU8 start
      let (prefixes, start) ← readPrefixes n start
      pure (prefixLength :: prefixes, start)

def readPrefixPart (flags : UInt8) (numaddr : Nat) : Reader Fault (List UInt8) :=
  if hasFlag flags AHAS_SINGLE_PRE_LEN then readPrefixes 1
  else if hasFlag flags AHAS_MULTI_PRE_LEN then readPrefixes numaddr
  else fun start => .ok ([], start)

def readAddresses (k : PbbAddressLength) (flags : UInt8) (numaddr : Nat) :
    Reader Fault (List k.Address × List UInt8) := fun start => do
  let addrtmp := List.replicate k.addressLength 0
  let ((headlen, addrtmp), start) ← readHead flags addrtmp start
  let ((taillen, addrtmp), start) ← readTail k flags addrtmp start
  let (addresses, start) ← readMids k headlen taillen numaddr addrtmp start
  let (prefixes, start) ← readPrefixPart flags numaddr start
  pure ((addresses, prefixes), start)

/-- `if (numaddr > 0)`. -/
def readAddressPart (k : PbbAddressLength) (flags numaddr : UInt8) :
    Reader Fault (List k.Address × List UInt8) := fun start =>
  if numaddr > 0 then readAddresses k flags numaddr.toNat start else .ok (([], []), start)

def deserialize (k : PbbAddressLength) : Reader Fault (PbbAddressBlock k) := fun start => do
  let (numaddr, start) ← readU8 start
  let (flags, start) ← readU8 start
  let ((addresses, prefixes), start) ← readAddressPart k flags numaddr start
  let (addressTlvs, start) ← PbbTlvBlock.deserialize start
  pure (⟨addresses, prefixes, addressTlvs⟩, start)

end PbbAddressBlock

end Pbb

end Ns3
