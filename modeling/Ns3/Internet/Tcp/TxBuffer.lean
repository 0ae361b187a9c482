/-
  The TCP transmission buffer
  (src/internet/model/tcp-tx-buffer.cc).

  The buffer keeps the application's bytes in two lists of items: what has been
  sent and not discarded (`sentList`), followed by what has not been sent yet
  (`appList`).  The items of the first list carry the SACK scoreboard.  Every
  method below is the source's method of that name, with its assertions; the
  32-bit variables are naturals and their arithmetic wraps.

  A socket drives its buffer by calls in any order.  `TxOp` lists the calls,
  `TxOp.exec` is their effect, and what each invariant assumes of the arguments
  is stated where the invariant is.
-/
import Ns3.Internet.Tcp.Header
import Ns3.Internet.Tcp.TxItem
import Ns3.Lib.Run

namespace Ns3.Tcp

open Ns3.Lib

/-- The data not yet sent, the data in flight, and the counters of the scoreboard. -/
structure TcpTxBuffer where
  appList : List TcpTxItem := []
  sentList : List TcpTxItem := []
  maxBuffer : Nat := 32768
  size : Nat := 0
  sentSize : Nat := 0
  firstByteSeq : SequenceNumber32
  /-- `m_highestSack`: an iterator into `sentList` (`none` is `end()`), and a
  sequence number -/
  highestSack : Option Nat × SequenceNumber32 := (none, .ofNat 0)
  lostOut : Nat := 0
  sackedOut : Nat := 0
  retrans : Nat := 0
  dupAckThresh : Nat := 0
  segmentSize : Nat := 0
  renoSack : Bool := false
  sackEnabled : Bool := true
  sackSeen : Bool := false
  /-- the next list node to be allocated -/
  nextNode : Nat := 0
  deriving DecidableEq, Repr

namespace TcpTxBuffer

/-! ## Accessors -/

def headSequence (b : TcpTxBuffer) : SequenceNumber32 := b.firstByteSeq

def tailSequence (b : TcpTxBuffer) : SequenceNumber32 := b.firstByteSeq.add b.size

def firstUnsent (b : TcpTxBuffer) : SequenceNumber32 := b.firstByteSeq.add b.sentSize

def available (b : TcpTxBuffer) : Nat := wsub 32 b.maxBuffer b.size

def sizeFromSequence (b : TcpTxBuffer) (seq : SequenceNumber32) : Nat :=
  if b.tailSequence.ge seq then b.tailSequence.distance seq else 0

def bytesInFlight (b : TcpTxBuffer) : Except Fault Nat := do
  nsAssert (wadd 32 b.sackedOut b.lostOut ≤ b.sentSize)
  pure (wadd 32 (wsub 32 b.sentSize (wadd 32 b.sackedOut b.lostOut)) b.retrans)

def isHeadRetransmitted (b : TcpTxBuffer) : Except Fault Bool :=
  if b.sentSize = 0 then pure false
  else
    match b.sentList with
    | [] => .error .badIterator
    | head :: _ => pure head.retrans

def isRetransmittedDataAcked (b : TcpTxBuffer) (ack : SequenceNumber32) : Bool :=
  b.sentList.any fun item =>
    decide (item.startSeq.add item.size = ack) && !item.sacked && item.retrans

/-- `SetHeadSequence`, called when the connection is set up and nothing is sent. -/
def setHeadSequence (b : TcpTxBuffer) (seq : SequenceNumber32) : Except Fault TcpTxBuffer := do
  nsAssert b.sentList.isEmpty
  pure { b with
    firstByteSeq := seq
    sackSeen := false
    highestSack := (none, .ofNat 0) }

/-! ## Data from the application -/

/-- `Add`: a packet that does not fit whole is refused. -/
def add (b : TcpTxBuffer) (p : Packet) : TcpTxBuffer × Bool :=
  if p.length ≤ b.available then
    if 0 < p.length then
      ({ b with
         appList := b.appList ++ [{ node := b.nextNode, packet := p }]
         size := wadd 32 b.size p.length
         nextNode := b.nextNode + 1 }, true)
    else (b, true)
  else (b, false)

/-! ## Extraction of a block to transmit -/

/-- Calls of `GetPacketFromList` that its recursion can make: a split at the start of the block, a
merge for each following item, a split at its end. -/
def searchFuel (list : List TcpTxItem) : Nat := list.length + 2

/-- `GetNewSegment`: the block moves from the unsent to the sent list. -/
def getNewSegment (b : TcpTxBuffer) (numBytes : Nat) :
    Except Fault (TcpTxBuffer × ItemRef) := do
  let startOfAppList := b.firstUnsent
  let found ← getPacketFromList false b.firstByteSeq startOfAppList numBytes startOfAppList
    (searchFuel b.appList) ⟨b.appList, b.retrans, b.nextNode⟩
  -- inserting the item into the sent list allocates a list node for it
  let item := { found.item with startSeq := startOfAppList, node := found.nextNode }
  pure ({ b with
      appList := found.before ++ found.after
      sentSize := wadd 32 b.sentSize item.size
      retrans := found.retrans
      nextNode := found.nextNode + 1 },
    { before := b.sentList, item, after := [] })

/-- The loop of `GetTransmittedSegment` that keeps a retransmission from merging items whose flags
differ. -/
def retransmitSize (seq : SequenceNumber32) (s : Nat) : List TcpTxItem → Nat
  | [] => s
  | item :: rest =>
    if item.startSeq = seq then
      match rest with
      | [] => min s item.size
      | next :: _ =>
        if !next.sacked && item.lost == next.lost then
          min s (wadd 32 item.size next.size)
        else min s item.size
    else retransmitSize seq s rest

/-- `GetTransmittedSegment`: the block is cut out of the sent list. -/
def getTransmittedSegment (b : TcpTxBuffer) (numBytes : Nat) (seq : SequenceNumber32) :
    Except Fault (TcpTxBuffer × ItemRef) := do
  nsAssert (seq.ge b.firstByteSeq)
  nsAssert (numBytes ≤ b.sentSize)
  nsAssert (!b.sentList.isEmpty)
  let s := retransmitSize seq numBytes b.sentList
  let found ← getPacketFromList true b.firstByteSeq b.firstByteSeq s seq
    (searchFuel b.sentList) ⟨b.sentList, b.retrans, b.nextNode⟩
  pure ({ b with
      retrans :=
        if found.item.retrans then found.retrans else wadd 32 found.retrans found.item.size
      nextNode := found.nextNode },
    { found.toItemRef with item := { found.item with retrans := true } })

/-- The end of `CopyFromSequence`: stamp the item and hand it out. -/
def stampItem (now : Time) (b : TcpTxBuffer) (ref : ItemRef) :
    Except Fault (TcpTxBuffer × Option TcpTxItem) := do
  let item := { ref.item with lastSent := now }
  nsAssert (item.startSeq.ge b.firstByteSeq)
  pure ({ b with sentList := ref.before ++ item :: ref.after }, some item)

/-- `CopyFromSequence`, its recursive call counted by the fuel.  `none` is the
null pointer it returns when there is nothing to copy. -/
def copyFromSequenceFuel (now : Time) (b : TcpTxBuffer) :
    Nat → Nat → SequenceNumber32 → Except Fault (TcpTxBuffer × Option TcpTxItem)
  | 0, _, _ => .error .noProgress
  | fuel + 1, numBytes, seq =>
    if b.firstByteSeq.gt seq then .error .aborted
    else
      let s := min numBytes (b.sizeFromSequence seq)
      if s = 0 then pure (b, none)
      else if b.firstUnsent.ge (seq.add s) then do
        let (b, ref) ← getTransmittedSegment b s seq
        nsAssert (!ref.item.sacked)
        stampItem now b ref
      else if b.firstUnsent.le seq then
        if b.firstUnsent = seq then do
          let (b, ref) ← getNewSegment b s
          nsAssert (!ref.item.retrans)
          stampItem now b ref
        else .error .aborted
      else
        -- these comparisons are on the plain 32-bit values
        let unsent := wadd 32 b.firstByteSeq.value.toNat b.sentSize
        if seq.value.toNat < unsent && unsent < wadd 32 seq.value.toNat s then
          copyFromSequenceFuel now b fuel (wsub 32 unsent seq.value.toNat) seq
        else
          -- `outItem` is still null when it is stamped
          .error .nullDereference

/-- `CopyFromSequence`: new data, or sent data once more. -/
def copyFromSequence (b : TcpTxBuffer) (now : Time) (numBytes : Nat)
    (seq : SequenceNumber32) : Except Fault (TcpTxBuffer × Option TcpTxItem) :=
  copyFromSequenceFuel now b (numBytes + 1) numBytes seq

/-! ## SACK emulation and loss marks -/

/-- The loop of `AddRenoSack`: the first item that is not sacked becomes so. -/
def sackFirst : List TcpTxItem → Option (TcpTxItem × List TcpTxItem)
  | [] => none
  | item :: rest =>
    if item.sacked then (sackFirst rest).map fun found => (found.1, item :: found.2)
    else some (item, { item with sacked := true } :: rest)

/-- `AddRenoSack`: a duplicate ACK stands for one sacked item behind the head. -/
def addRenoSack (b : TcpTxBuffer) : Except Fault TcpTxBuffer := do
  nsAssert (if b.sackEnabled then decide (1 < b.sentList.length) else !b.sentList.isEmpty)
  let b := { b with renoSack := true }
  match b.sentList with
  | [] => .error .badIterator
  | head :: tail =>
    match sackFirst tail with
    | none => pure b
    | some (item, tail) =>
      pure { b with
        sentList := head :: tail
        sackedOut := wadd 32 b.sackedOut item.size
        sackSeen := true
        highestSack := (some item.node, item.startSeq) }

/-- `MarkHeadAsLost`: the head loses its other marks. -/
def markHeadAsLost (b : TcpTxBuffer) : TcpTxBuffer :=
  match b.sentList with
  | [] => b
  | head :: tail =>
    { b with
      sentList := { head with sacked := false, retrans := false, lost := true } :: tail
      sackedOut := if head.sacked then wsub 32 b.sackedOut head.size else b.sackedOut
      retrans := if head.retrans then wsub 32 b.retrans head.size else b.retrans
      lostOut := if head.lost then b.lostOut else wadd 32 b.lostOut head.size }

def resetRenoSack (b : TcpTxBuffer) : TcpTxBuffer :=
  { b with
    sackedOut := 0
    sentList := b.sentList.map fun item => { item with sacked := false }
    highestSack := (none, .ofNat 0)
    sackSeen := false }

def deleteRetransmittedFlagFromHead (b : TcpTxBuffer) : Except Fault TcpTxBuffer :=
  if b.sentSize = 0 then pure b
  else
    match b.sentList with
    | [] => .error .badIterator
    | head :: tail =>
      if head.retrans then
        pure { b with
          sentList := { head with retrans := false } :: tail
          retrans := wsub 32 b.retrans head.size }
      else pure b

/-- The loop of `SetSentListLost` without a reset of the SACK flags: the marked list, and
`m_lostOut` from `lostOut` up. -/
def markAllLost (lostOut : Nat) : List TcpTxItem → Nat × List TcpTxItem
  | [] => (lostOut, [])
  | item :: rest =>
    let lost := item.lost || !item.sacked
    let marked := markAllLost (if lost then wadd 32 lostOut item.size else lostOut) rest
    (marked.1, { item with lost, retrans := false } :: marked.2)

/-- `SetSentListLost`, after a retransmission timeout. -/
def setSentListLost (b : TcpTxBuffer) (resetSack : Bool) : Except Fault TcpTxBuffer := do
  let b :=
    if resetSack then
      { b with
        retrans := 0
        sackedOut := 0
        lostOut := b.sentSize
        sackSeen := false
        highestSack := (none, .ofNat 0)
        sentList := b.sentList.map fun item =>
          { item with sacked := false, lost := true, retrans := false } }
    else
      let marked := markAllLost 0 b.sentList
      { b with retrans := 0, lostOut := marked.1, sentList := marked.2 }
  nsAssert (wadd 32 b.sackedOut b.lostOut ≤ b.sentSize)
  pure b

/-- `ResetSentList`: the sent items go back, in order, before the unsent ones. -/
def resetSentList (b : TcpTxBuffer) : TcpTxBuffer :=
  { b with
    appList := (b.sentList.map fun item =>
      { item with retrans := false, sacked := false, lost := false }) ++ b.appList
    sentList := []
    sentSize := 0
    lostOut := 0
    retrans := 0
    sackedOut := 0
    sackSeen := false
    highestSack := (none, .ofNat 0) }

/-- `ResetLastSegmentSent`: the last sent item goes back, with the flags it has. -/
def resetLastSegmentSent (b : TcpTxBuffer) : TcpTxBuffer :=
  match b.sentList.getLast? with
  | none => b
  | some item =>
    { b with
      sentList := b.sentList.dropLast
      sentSize := wsub 32 b.sentSize item.size
      retrans := if item.retrans then wsub 32 b.retrans item.size else b.retrans
      appList := item :: b.appList }

/-! ## The scoreboard -/

def findHighestSacked : SequenceNumber32 → List TcpTxItem → Option Nat × SequenceNumber32
  | _, [] => (none, .ofNat 0)
  | beginOfCurrentPacket, item :: rest =>
    let later := findHighestSacked (beginOfCurrentPacket.add item.size) rest
    if later.1.isNone && item.sacked then (some item.node, beginOfCurrentPacket) else later

/-- The loop of `UpdateLostCount`, backwards over the items from the second one up to the cached
highest SACK: how many are sacked, `m_lostOut`, and the marked items. -/
def lostWalk (dupAckThresh : Nat) : List TcpTxItem → Nat → Nat × Nat × List TcpTxItem
  | [], lostOut => (0, lostOut, [])
  | item :: later, lostOut =>
    let walked := lostWalk dupAckThresh later lostOut
    let sacked := walked.1 + item.sacked.toNat
    if decide (dupAckThresh ≤ sacked) && !item.sacked && !item.lost then
      (sacked, wadd 32 walked.2.1 item.size, { item with lost := true } :: walked.2.2)
    else (sacked, walked.2.1, item :: walked.2.2)

/-- The list up to and including the node an iterator stands on, and the rest. -/
def splitAtNode (node : Nat) : List TcpTxItem → Option (List TcpTxItem × List TcpTxItem)
  | [] => none
  | item :: rest =>
    if item.node = node then some ([item], rest)
    else (splitAtNode node rest).map fun parts => (item :: parts.1, parts.2)

/-- The last step of `UpdateLostCount`: the head, after `sacked` sacked items. -/
def markHeadIfLost (dupAckThresh sacked : Nat) (b : TcpTxBuffer) : Except Fault TcpTxBuffer :=
  if dupAckThresh ≤ sacked then
    match b.sentList with
    | [] => .error .badIterator
    | head :: tail =>
      if head.lost then pure b
      else pure { b with
        sentList := { head with lost := true } :: tail
        lostOut := wadd 32 b.lostOut head.size }
  else pure b

def updateLostCount (b : TcpTxBuffer) : Except Fault TcpTxBuffer :=
  match b.highestSack.1, b.sentList with
  | none, [] => markHeadIfLost b.dupAckThresh 0 b
  | none, _ :: _ => .error .badIterator
  | some _, [] => .error .badIterator
  | some node, head :: tail =>
    if head.node = node then markHeadIfLost b.dupAckThresh 0 b
    else
      match splitAtNode node tail with
      | none => .error .badIterator
      | some (upTo, beyond) =>
        let walked := lostWalk b.dupAckThresh upTo b.lostOut
        markHeadIfLost b.dupAckThresh walked.1
          { b with sentList := head :: walked.2.2 ++ beyond, lostOut := walked.2.1 }

/-- The variables the marking loop of `Update` writes besides the items. -/
structure SackPass where
  lostOut : Nat
  sackedOut : Nat
  bytesSacked : Nat
  highestSack : Option Nat × SequenceNumber32
  sackSeen : Bool
  /-- the items handed to the callback, in order -/
  newlySacked : List TcpTxItem
  deriving DecidableEq, Repr

/-- What `Update` does to an item that a block covers and that is not sacked yet. -/
def SackPass.sack (pass : SackPass) (beginOfCurrentPacket : SequenceNumber32)
    (item : TcpTxItem) : SackPass :=
  let moveHighest := pass.highestSack.1.isNone
    || pass.highestSack.2.le (beginOfCurrentPacket.add item.size)
  { lostOut := if item.lost then wsub 32 pass.lostOut item.size else pass.lostOut
    sackedOut := wadd 32 pass.sackedOut item.size
    bytesSacked := wadd 32 pass.bytesSacked item.size
    sackSeen := pass.sackSeen || moveHighest
    highestSack :=
      if moveHighest then (some item.node, beginOfCurrentPacket) else pass.highestSack
    newlySacked := pass.newlySacked ++ [{ item with lost := false, sacked := true }] }

/-- The inner loop of `Update`: one block against the sent list. -/
def sackItems (block : SackBlock) :
    SequenceNumber32 → List TcpTxItem → SackPass → Except Fault (List TcpTxItem × SackPass)
  | _, [], pass => pure ([], pass)
  | beginOfCurrentPacket, item :: rest, pass =>
    let endOfCurrentPacket := beginOfCurrentPacket.add item.size
    if beginOfCurrentPacket.ge block.1 && endOfCurrentPacket.le block.2 then
      if item.sacked then do
        nsAssert (!item.lost)
        let (rest, pass) ← sackItems block endOfCurrentPacket rest pass
        pure (item :: rest, pass)
      else do
        let (rest, pass) ← sackItems block endOfCurrentPacket rest
          (pass.sack beginOfCurrentPacket item)
        pure ({ item with lost := false, sacked := true } :: rest, pass)
    else if endOfCurrentPacket.gt block.2 then pure (item :: rest, pass)
    else do
      let (rest, pass) ← sackItems block endOfCurrentPacket rest pass
      pure (item :: rest, pass)

/-- The outer loop of `Update`.  The flag tells that it returned early, at a block
that begins beyond the sent list. -/
def sackBlocks (firstByteSeq firstUnsent : SequenceNumber32) :
    List SackBlock → List TcpTxItem → SackPass →
      Except Fault (List TcpTxItem × SackPass × Bool)
  | [], items, pass => pure (items, pass, false)
  | block :: blocks, items, pass =>
    if firstUnsent.lt block.1 then pure (items, pass, true)
    else do
      let (items, pass) ← sackItems block firstByteSeq items pass
      sackBlocks firstByteSeq firstUnsent blocks items pass

/-- The recount at the end of `Update`, made when bytes were newly sacked. -/
def recountLost (b : TcpTxBuffer) (bytesSacked : Nat) : Except Fault TcpTxBuffer :=
  if 0 < bytesSacked then do
    nsAssert b.highestSack.1.isSome
    updateLostCount b
  else pure b

/-- `Update`: the buffer, the bytes newly sacked, and the items handed to the
callback. -/
def update (b : TcpTxBuffer) (list : List SackBlock) :
    Except Fault (TcpTxBuffer × Nat × List TcpTxItem) := do
  let (items, pass, early) ← sackBlocks b.firstByteSeq b.firstUnsent list b.sentList
    { lostOut := b.lostOut, sackedOut := b.sackedOut, bytesSacked := 0
      highestSack := b.highestSack, sackSeen := b.sackSeen, newlySacked := [] }
  let b := { b with
    sentList := items
    lostOut := pass.lostOut
    sackedOut := pass.sackedOut
    highestSack := pass.highestSack
    sackSeen := pass.sackSeen }
  if early then pure (b, pass.bytesSacked, pass.newlySacked)
  else do
    let b ← b.recountLost pass.bytesSacked
    match b.sentList with
    | [] => .error .badIterator
    | head :: _ => do
        nsAssert (!head.sacked)
        nsAssert (wadd 32 b.sackedOut b.lostOut ≤ b.sentSize)
        pure (b, pass.bytesSacked, pass.newlySacked)

/-! ## Cumulative acknowledgments -/

def removeFromCounts (b : TcpTxBuffer) (item : TcpTxItem) (size : Nat) :
    Except Fault TcpTxBuffer := do
  nsAssert (!item.sacked || decide (size ≤ b.sackedOut))
  nsAssert (!item.retrans || decide (size ≤ b.retrans))
  nsAssert (!item.lost || decide (size ≤ b.lostOut))
  pure { b with
    sackedOut := if item.sacked then wsub 32 b.sackedOut size else b.sackedOut
    retrans := if item.retrans then wsub 32 b.retrans size else b.retrans
    lostOut := if item.lost then wsub 32 b.lostOut size else b.lostOut }

/-- Move data from the app list to the sent list when the latter is empty, so that
`DiscardUpTo` can delete it. -/
def fillSentList (b : TcpTxBuffer) (now : Time) (offset : Nat) : Except Fault TcpTxBuffer :=
  match b.sentList with
  | _ :: _ => pure b
  | [] => do
      let (b, item) ← b.copyFromSequence now offset b.firstByteSeq
      match item with
      | none => .error .nullDereference
      | some _ => pure b

/-- The loop of `DiscardUpTo`, whose iterator `i` stands at the front of the sent list. The items
deleted are returned, in order. -/
def discardLoop (now : Time) :
    Nat → TcpTxBuffer → Nat → Except Fault (TcpTxBuffer × List TcpTxItem)
  | 0, _, _ => .error .noProgress
  | fuel + 1, b, offset =>
    if 0 < b.size ∧ 0 < offset then do
      let b ← b.fillSentList now offset
      match b.sentList with
      | [] => .error .assertFailed
      | item :: rest => do
          nsAssert (item.startSeq = b.firstByteSeq)
          if item.size ≤ offset then
            let b ← removeFromCounts
              { b with
                size := wsub 32 b.size item.size
                sentSize := wsub 32 b.sentSize item.size
                firstByteSeq := b.firstByteSeq.add item.size
                sentList := rest } item item.size
            let (b, deleted) ← discardLoop now fuel b (offset - item.size)
            pure (b, item :: deleted)
          else
            let pktSize := item.size - offset
            let item := { item with
              packet := item.packet.createFragment offset pktSize
              startSeq := item.startSeq.add offset }
            let b ← removeFromCounts
              { b with
                size := wsub 32 b.size offset
                sentSize := wsub 32 b.sentSize offset
                firstByteSeq := b.firstByteSeq.add offset
                sentList := item :: rest } item offset
            pure (b, [])
    else pure (b, [])

/-- The head of the sent list cannot stay sacked: its flag moves to another item. -/
def moveSackFromHead (b : TcpTxBuffer) : Except Fault TcpTxBuffer :=
  match b.sentList with
  | [] => pure b
  | head :: tail =>
    if head.sacked then do
      nsAssert (!head.lost)
      let b ← addRenoSack { b with
        sentList := { head with sacked := false } :: tail
        sackedOut := wsub 32 b.sackedOut head.size }
      pure (markHeadAsLost b)
    else pure b

/-- `DiscardUpTo`: the buffer, and the items handed to the callback. -/
def discardUpTo (b : TcpTxBuffer) (now : Time) (seq : SequenceNumber32) :
    Except Fault (TcpTxBuffer × List TcpTxItem) :=
  if b.firstByteSeq.ge seq then pure (b, [])
  else do
    let offset := seq.distance b.firstByteSeq
    let (b, deleted) ← discardLoop now (offset + 1) b offset
    -- catching the case of acknowledging a FIN
    let b := if b.size = 0 then { b with firstByteSeq := seq } else b
    let b ← b.moveSackFromHead
    nsAssert (b.sentList.head?.all fun head => decide (head.startSeq = seq))
    let b :=
      if b.highestSack.2.le b.firstByteSeq then
        { b with sackSeen := false, highestSack := (none, .ofNat 0) }
      else b
    nsAssert (b.firstByteSeq.ge seq)
    nsAssert (wadd 32 b.sackedOut b.lostOut ≤ b.sentSize)
    pure (b, deleted)

/-! ## What to send next -/

def isLost (b : TcpTxBuffer) (seq : SequenceNumber32) : Bool :=
  if seq.ge b.highestSack.2 then false
  else
    (b.sentList.find? fun item =>
      item.startSeq.le seq && seq.lt (item.startSeq.add item.size)
        && (item.lost || item.sacked)).elim false (·.lost)

/-- The loop of `NextSeg`: the first lost item to retransmit, or the sequence
number saved for rule 3. -/
def nextSegLoop (b : TcpTxBuffer) (isRecovery : Bool) :
    SequenceNumber32 → List TcpTxItem → Option SequenceNumber32 →
      Option SequenceNumber32 × Option SequenceNumber32
  | _, [], perRule3 => (none, perRule3)
  | beginOfCurrentPkt, item :: rest, perRule3 =>
    let next := beginOfCurrentPkt.add item.size
    if !item.retrans && !item.sacked &&
        ((b.sackSeen && item.startSeq.lt b.highestSack.2) || !b.sackSeen) then
      if item.lost then (some beginOfCurrentPkt, perRule3)
      else if (perRule3.elim true fun seq => seq.value.toNat == 0) && isRecovery then
        nextSegLoop b isRecovery next rest (some beginOfCurrentPkt)
      else nextSegLoop b isRecovery next rest perRule3
    else nextSegLoop b isRecovery next rest perRule3

/-- `NextSeg`: the range of the next segment, given the peer's window. -/
def nextSeg (b : TcpTxBuffer) (rWnd : Nat) (isRecovery : Bool) :
    Option (SequenceNumber32 × SequenceNumber32) :=
  match nextSegLoop b isRecovery b.firstByteSeq b.sentList none with
  | (some seq, _) => some (seq, seq.add b.segmentSize)
  | (none, perRule3) =>
    if 0 < b.sizeFromSequence b.firstUnsent then
      if b.sentSize < rWnd then
        some (b.firstUnsent,
          b.firstUnsent.add (min b.segmentSize (wsub 32 rWnd b.sentSize)))
      else none
    else perRule3.map fun seq => (seq, seq.add b.segmentSize)

end TcpTxBuffer

/-! ## The calls of a run -/

open SequenceNumber

/-- A call of a public method of `TcpTxBuffer` that writes the buffer. -/
inductive TxOp where
  | add (p : Packet)
  | copyFromSequence (now : Time) (numBytes : Nat) (seq : SequenceNumber32)
  | update (list : List SackBlock)
  | updateLostCount
  | discardUpTo (now : Time) (seq : SequenceNumber32)
  | markHeadAsLost
  | addRenoSack
  | resetRenoSack
  | setSentListLost (resetSack : Bool)
  | resetSentList
  | resetLastSegmentSent
  | deleteRetransmittedFlagFromHead
  deriving DecidableEq, Repr

/-- The buffer after a call, its return value left aside. -/
def TxOp.exec : TxOp → TcpTxBuffer → Except Fault TcpTxBuffer
  | .add p, b => pure (b.add p).1
  | .copyFromSequence now numBytes seq, b => do
      let (b, _) ← b.copyFromSequence now numBytes seq
      pure b
  | .update list, b => do
      let (b, _, _) ← b.update list
      pure b
  | .updateLostCount, b => b.updateLostCount
  | .discardUpTo now seq, b => do
      let (b, _) ← b.discardUpTo now seq
      pure b
  | .markHeadAsLost, b => pure b.markHeadAsLost
  | .addRenoSack, b => b.addRenoSack
  | .resetRenoSack, b => pure b.resetRenoSack
  | .setSentListLost resetSack, b => b.setSentListLost resetSack
  | .resetSentList, b => pure b.resetSentList
  | .resetLastSegmentSent, b => pure b.resetLastSegmentSent
  | .deleteRetransmittedFlagFromHead, b => b.deleteRetransmittedFlagFromHead

/-- An empty buffer with head sequence `head`: what the constructor and
`SetHeadSequence` leave, whatever the configuration. -/
structure TcpTxBuffer.Starts (b : TcpTxBuffer) (head : SequenceNumber32) : Prop where
  appList : b.appList = []
  sentList : b.sentList = []
  size : b.size = 0
  sentSize : b.sentSize = 0
  firstByteSeq : b.firstByteSeq = head
  lostOut : b.lostOut = 0
  sackedOut : b.sackedOut = 0
  retrans : b.retrans = 0
  highestSack : b.highestSack = (none, .ofNat 0)
  sackSeen : b.sackSeen = false

end Ns3.Tcp
