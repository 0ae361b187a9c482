/-
  The TCP reception buffer
  (src/internet/model/tcp-rx-buffer.cc).

  The buffer keeps received segments in a map from sequence number to packet.  A
  map is the list of its entries in key order; every loop below visits them in
  that order, as the source's iterators do.  Every method is the source's method
  of that name, with its assertions.
-/
import Ns3.Core.Fault
import Ns3.Internet.Tcp.Header
import Ns3.Network.Packet

namespace Ns3.Tcp

open Ns3.Lib

/-- An entry of `m_data`. -/
abbrev RxEntry : Type := SequenceNumber32 × Packet

structure TcpRxBuffer where
  sackList : List SackBlock := []
  nextRxSeq : SequenceNumber32
  finSeq : SequenceNumber32 := .ofNat 0
  gotFin : Bool := false
  size : Nat := 0
  maxBuffer : Nat := 32768
  availBytes : Nat := 0
  data : List RxEntry := []
  deriving DecidableEq, Repr

namespace TcpRxBuffer

/-! ## Accessors -/

/-- `IncNextRxSequence`, called during the handshake. -/
def incNextRxSequence (b : TcpRxBuffer) : Except Fault TcpRxBuffer := do
  nsAssert (b.size = 0)
  pure { b with nextRxSeq := b.nextRxSeq.add 1 }

/-- `MaxRxSequence`: the lowest sequence number that the buffer cannot accept. -/
def maxRxSequence (b : TcpRxBuffer) : SequenceNumber32 :=
  if b.gotFin then b.finSeq
  else
    match b.data with
    | [] => b.nextRxSeq.add b.maxBuffer
    | first :: _ =>
      if b.nextRxSeq.gt first.1 then first.1.add b.maxBuffer else b.nextRxSeq.add b.maxBuffer

def setFinSequence (b : TcpRxBuffer) (s : SequenceNumber32) : TcpRxBuffer :=
  { b with
    gotFin := true
    finSeq := s
    nextRxSeq := if b.nextRxSeq = s then b.nextRxSeq.add 1 else b.nextRxSeq }

def finished (b : TcpRxBuffer) : Bool := b.gotFin && b.finSeq.lt b.nextRxSeq

/-! ## The SACK list -/

/-- The first turn of the loop of `UpdateSackList` that merges a block with the one at the front:
the merged block, and the others. -/
def mergeOnce (begin : SackBlock) :
    List SackBlock → Except Fault (Option (SackBlock × List SackBlock))
  | [] => pure none
  | current :: rest =>
    if begin.1 = current.2 then do
      nsAssert (current.1.lt begin.2)
      pure (some ((current.1, begin.2), rest))
    else if begin.2 = current.1 then do
      nsAssert (begin.1.lt current.2)
      pure (some ((begin.1, current.2), rest))
    else do
      let merged ← mergeOnce begin rest
      pure (merged.map fun found => (found.1, current :: found.2))

/-- The loop of `UpdateSackList`: after each merge it begins again at the front, with
one block less. -/
def mergeBlocks : Nat → SackBlock → List SackBlock → Except Fault (List SackBlock)
  | 0, begin, list => pure (begin :: list)
  | turns + 1, begin, list => do
      match ← mergeOnce begin list with
      | none => pure (begin :: list)
      | some (merged, rest) => mergeBlocks turns merged rest

def updateSackList (nextRxSeq : SequenceNumber32) (list : List SackBlock)
    (head tail : SequenceNumber32) : Except Fault (List SackBlock) := do
  nsAssert (head.gt nextRxSeq)
  let list ← mergeBlocks list.length (head, tail) list
  pure (if 4 < list.length then list.dropLast else list)

def clearSackList (seq : SequenceNumber32) : List SackBlock → Except Fault (List SackBlock)
  | [] => pure []
  | block :: rest => do
      nsAssert (block.1.lt block.2)
      let rest ← clearSackList seq rest
      pure (if block.2.le seq then rest else block :: rest)

/-! ## Data from the network -/

/-- The end of the new segment trimmed to the window, and its head with it. -/
def fitWindow (b : TcpRxBuffer) (headSeq tailSeq : SequenceNumber32) :
    SequenceNumber32 × SequenceNumber32 :=
  match b.data with
  | [] => (headSeq, tailSeq)
  | first :: _ =>
    let maxSeq := first.1.add b.maxBuffer
    let tailSeq := if maxSeq.lt tailSeq then maxSeq else tailSeq
    (if tailSeq.lt headSeq then tailSeq else headSeq, tailSeq)

/-- What the loop of `Add` that removes overlapped bytes writes. -/
structure Trimmed where
  data : List RxEntry
  headSeq : SequenceNumber32
  tailSeq : SequenceNumber32
  size : Nat
  deriving DecidableEq, Repr

/-- The loop of `Add` that removes overlapped bytes. -/
def trimData : List RxEntry → SequenceNumber32 → SequenceNumber32 → Nat → Trimmed
  | [], headSeq, tailSeq, size => ⟨[], headSeq, tailSeq, size⟩
  | entry :: rest, headSeq, tailSeq, size =>
    if entry.1.le tailSeq then
      let lastByteSeq := entry.1.add entry.2.length
      if lastByteSeq.gt headSeq then
        if entry.1.gt headSeq && lastByteSeq.lt tailSeq then
          trimData rest headSeq tailSeq (wsub 32 size entry.2.length)
        else
          let trimmed := trimData rest (if entry.1.le headSeq then lastByteSeq else headSeq)
            (if lastByteSeq.ge tailSeq then entry.1 else tailSeq) size
          { trimmed with data := entry :: trimmed.data }
      else
        let trimmed := trimData rest headSeq tailSeq size
        { trimmed with data := entry :: trimmed.data }
    else ⟨entry :: rest, headSeq, tailSeq, size⟩

/-- `m_data[key] = p`. -/
def setEntry (key : SequenceNumber32) (p : Packet) : List RxEntry → List RxEntry
  | [] => [(key, p)]
  | entry :: rest =>
    if key.lt entry.1 then (key, p) :: entry :: rest
    else if entry.1.lt key then entry :: setEntry key p rest
    else (entry.1, p) :: rest

/-- The loop of `Add` that looks for data in sequence: `m_nextRxSeq`,
`m_availBytes` and the SACK list after it. -/
def scanData : List RxEntry → SequenceNumber32 → Nat → List SackBlock →
    Except Fault (SequenceNumber32 × Nat × List SackBlock)
  | [], nextRxSeq, availBytes, sackList => pure (nextRxSeq, availBytes, sackList)
  | entry :: rest, nextRxSeq, availBytes, sackList =>
    if entry.1.lt nextRxSeq then scanData rest nextRxSeq availBytes sackList
    else if entry.1.gt nextRxSeq then pure (nextRxSeq, availBytes, sackList)
    else do
      let nextRxSeq := entry.1.add entry.2.length
      let sackList ← clearSackList nextRxSeq sackList
      scanData rest nextRxSeq (wadd 32 availBytes entry.2.length) sackList

def add (b : TcpRxBuffer) (p : Packet) (seq : SequenceNumber32) :
    Except Fault (TcpRxBuffer × Bool) := do
  let headSeq := if seq.lt b.nextRxSeq then b.nextRxSeq else seq
  let (headSeq, tailSeq) := b.fitWindow headSeq (seq.add p.length)
  let trimmed := trimData b.data headSeq tailSeq b.size
  if trimmed.headSeq.ge trimmed.tailSeq then
    pure ({ b with data := trimmed.data, size := trimmed.size }, false)
  else do
    let length := trimmed.tailSeq.distance trimmed.headSeq
    let p := p.createFragment (trimmed.headSeq.distance seq) length
    nsAssert (length = p.length)
    nsAssert (trimmed.data.all fun entry =>
      entry.1.lt trimmed.headSeq || trimmed.headSeq.lt entry.1)
    let data := setEntry trimmed.headSeq p trimmed.data
    let sackList ←
      if trimmed.headSeq.gt b.nextRxSeq then
        updateSackList b.nextRxSeq b.sackList trimmed.headSeq trimmed.tailSeq
      else pure b.sackList
    let (nextRxSeq, availBytes, sackList) ← scanData data b.nextRxSeq b.availBytes sackList
    pure ({ b with
      data, size := wadd 32 trimmed.size p.length
      nextRxSeq := if b.gotFin && nextRxSeq = b.finSeq then nextRxSeq.add 1 else nextRxSeq
      availBytes, sackList }, true)

/-! ## Data to the application -/

/-- The loop of `Extract`: the packet put together, and the buffer. -/
def extractLoop (b : TcpRxBuffer) : List RxEntry → Nat → Packet →
    Except Fault (TcpRxBuffer × Packet)
  | data, 0, outPkt => pure ({ b with data }, outPkt)
  | [], _ + 1, _ => .error .badIterator
  | entry :: rest, extractSize + 1, outPkt => do
      nsAssert (entry.1.le b.nextRxSeq)
      let pktSize := entry.2.length
      if pktSize ≤ extractSize + 1 then
        extractLoop { b with
            size := wsub 32 b.size pktSize
            availBytes := wsub 32 b.availBytes pktSize }
          rest (extractSize + 1 - pktSize) (outPkt.addAtEnd entry.2)
      else
        -- the rest of the entry takes its place, under the key where it begins
        pure ({ b with
            data := setEntry (entry.1.add (extractSize + 1))
              (entry.2.createFragment (extractSize + 1) (pktSize - (extractSize + 1))) rest
            size := wsub 32 b.size (extractSize + 1)
            availBytes := wsub 32 b.availBytes (extractSize + 1) },
          outPkt.addAtEnd (entry.2.createFragment 0 (extractSize + 1)))

/-- `Extract`: `none` is the null pointer it returns when there is nothing to
return. -/
def extract (b : TcpRxBuffer) (maxSize : Nat) : Except Fault (TcpRxBuffer × Option Packet) := do
  let extractSize := min maxSize b.availBytes
  if extractSize = 0 then pure (b, none)
  else do
    nsAssert (!b.data.isEmpty)
    let (b, outPkt) ← extractLoop b b.data extractSize []
    pure (b, if outPkt.length = 0 then none else some outPkt)

end TcpRxBuffer

end Ns3.Tcp
