/-
  Items of the TCP transmission buffer
  (src/internet/model/tcp-tx-item.h) and the extraction of a block from a list of
  them (TcpTxBuffer::GetPacketFromList, src/internet/model/tcp-tx-buffer.cc).

  Items live in `std::list`s and are reached through pointers and iterators.  The
  model keeps a list as a `List`, a pointer to an item as the item together with
  what stands before and after it, and the identity of a list node as a number
  that no other node of the buffer carries.
-/
import Ns3.Core.Fault
import Ns3.Network.Packet
import Ns3.Network.SequenceNumber

namespace Ns3.Tcp

open Ns3.Lib

/-- What the rate sampler keeps with an item. -/
structure RateInformation where
  delivered : Nat := 0
  deliveredTime : Time := Time.max
  firstSent : Time := Time.max
  isAppLimited : Bool := false
  deriving DecidableEq, Repr, Inhabited

/-- A stretch of the stream, sent or waiting. -/
structure TcpTxItem where
  /-- the list node that holds the item -/
  node : Nat
  startSeq : SequenceNumber32 := .ofNat 0
  packet : Packet := []
  lost : Bool := false
  retrans : Bool := false
  lastSent : Time := Time.max
  sacked : Bool := false
  rateInfo : RateInformation := {}
  deriving DecidableEq, Repr, Inhabited

def TcpTxItem.size (item : TcpTxItem) : Nat := item.packet.length

/-- A list, and the item of it that a pointer names. -/
structure ItemRef where
  before : List TcpTxItem
  item : TcpTxItem
  after : List TcpTxItem
  deriving DecidableEq, Repr

/-- The list with the item in its place. -/
def ItemRef.list (ref : ItemRef) : List TcpTxItem := ref.before ++ ref.item :: ref.after

/-- What `GetPacketFromList` can write: the list it is given, the retransmission
counter (through `MergeItems`), and the supply of fresh list nodes. -/
structure ListState where
  list : List TcpTxItem
  retrans : Nat
  nextNode : Nat
  deriving DecidableEq, Repr

/-- The outcome of `GetPacketFromList`: the item found, in its edited list. -/
structure FoundItem extends ItemRef where
  retrans : Nat
  nextNode : Nat
  deriving DecidableEq, Repr

/-- The written part of the state after `GetPacketFromList`. -/
def FoundItem.state (found : FoundItem) : ListState :=
  { list := found.toItemRef.list, retrans := found.retrans, nextNode := found.nextNode }

/-- `TcpTxBuffer::SplitItems`: `size` bytes move from `t2` into a new item `t1`
that stands before it. -/
def splitItems (node : Nat) (t2 : TcpTxItem) (size : Nat) : TcpTxItem × TcpTxItem :=
  ({ node := node
     packet := t2.packet.createFragment 0 size
     startSeq := t2.startSeq
     sacked := t2.sacked
     lastSent := t2.lastSent
     retrans := t2.retrans
     lost := t2.lost },
   { t2 with
     packet := t2.packet.removeAtStart size
     startSeq := t2.startSeq.add size })

/-- `TcpTxBuffer::MergeItems`: `t2` is appended to `t1`.  When only one of the
two was retransmitted, the flag and its bytes in the counter are withdrawn. -/
def mergeItems (retrans : Nat) (t1 t2 : TcpTxItem) : Except Fault (Nat × TcpTxItem) := do
  nsAssert (t1.sacked == t2.sacked)
  nsAssert (t1.lost == t2.lost)
  let retrans :=
    if t1.retrans != t2.retrans then
      if t1.retrans then wsub 32 retrans t1.size else wsub 32 retrans t2.size
    else retrans
  pure (retrans,
    { t1 with
      retrans := t1.retrans && t2.retrans
      lastSent := if t1.lastSent < t2.lastSent then t2.lastSent else t1.lastSent
      packet := t1.packet.addAtEnd t2.packet })

/-- The item at which the walk of `GetPacketFromList` stops, with the sequence
number at which it begins. -/
structure WalkStop extends ItemRef where
  beginOfCurrentPacket : SequenceNumber32

/-- The walk of `GetPacketFromList`: skip the items that end at or before `seq`.
`isSentList` and `firstByteSeq` are read by its assertion only. -/
def walkTo (isSentList : Bool) (firstByteSeq seq : SequenceNumber32) :
    SequenceNumber32 → List TcpTxItem → Except Fault WalkStop
  | _, [] => .error .fatalError
  | beginOfCurrentPacket, currentItem :: rest => do
      nsAssert (!isSentList || currentItem.startSeq.ge firstByteSeq)
      if seq.lt (beginOfCurrentPacket.add currentItem.size) then
        pure ⟨⟨[], currentItem, rest⟩, beginOfCurrentPacket⟩
      else
        let stop ← walkTo isSentList firstByteSeq seq
          (beginOfCurrentPacket.add currentItem.size) rest
        pure { stop with before := currentItem :: stop.before }

/-- `TcpTxBuffer::GetPacketFromList`.  Every recursive call of the source is one
step of the fuel. -/
def getPacketFromList (isSentList : Bool) (firstByteSeq listStartFrom : SequenceNumber32)
    (numBytes : Nat) (seq : SequenceNumber32) :
    Nat → ListState → Except Fault FoundItem
  | 0, _ => .error .noProgress
  | fuel + 1, st => do
      let stop ← walkTo isSentList firstByteSeq seq listStartFrom st.list
      let currentItem := stop.item
      let beginOfCurrentPacket := stop.beginOfCurrentPacket
      if seq = beginOfCurrentPacket then
        if (seq.add numBytes).le (beginOfCurrentPacket.add currentItem.size) then
          if numBytes = currentItem.size then
            -- `outItem` was set to `currentItem` just above, so the packets agree
            pure { toItemRef := stop.toItemRef, retrans := st.retrans, nextNode := st.nextNode }
          else if numBytes < currentItem.size then
            let (firstPart, secondPart) := splitItems st.nextNode currentItem numBytes
            pure { before := stop.before, item := firstPart, after := secondPart :: stop.after
                   retrans := st.retrans, nextNode := st.nextNode + 1 }
          else
            -- neither branch is taken and the iterator does not move
            .error .noProgress
        else
          match stop.after with
          | [] =>
              pure { toItemRef := stop.toItemRef, retrans := st.retrans, nextNode := st.nextNode }
          | next :: rest => do
              let (retrans, merged) ← mergeItems st.retrans currentItem next
              getPacketFromList isSentList firstByteSeq listStartFrom numBytes seq fuel
                { st with list := stop.before ++ merged :: rest, retrans }
      else if seq.gt beginOfCurrentPacket then
        let (firstPart, secondPart) := splitItems st.nextNode currentItem
          (seq.distance beginOfCurrentPacket)
        getPacketFromList isSentList firstByteSeq listStartFrom numBytes seq fuel
          { st with
            list := stop.before ++ firstPart :: secondPart :: stop.after
            nextNode := st.nextNode + 1 }
      else
        .error .fatalError

end Ns3.Tcp
