/-
  The scoreboard and the reordering buffer
  of a recipient (src/wifi/model/recipient-block-ack-agreement.h,
  recipient-block-ack-agreement.cc).

  `m_bufferedMpdus` is an ordered map; it is kept here as the list of its values in
  the order of its keys.  What the agreement does to the outside is recorded in a
  trace: the MPDUs it stores, those it hands to `m_rxMiddle`, and every value that
  `m_winStartB` takes.
-/
import Ns3.Wifi.BlockAckWindow
import Ns3.Lib.Wrap

namespace Ns3

open Ns3.Lib

/-- What the block ack code reads of a `WifiMpdu`. -/
structure WifiMpdu where
  /-- `GetHeader().GetSequenceNumber()` -/
  sequenceNumber : Nat
  /-- `GetHeader().GetFragmentNumber()` -/
  fragmentNumber : Nat
  /-- `GetPacket()` -/
  packet : Nat
  deriving DecidableEq, Repr, Inhabited

/-- What a recipient does that can be seen. -/
inductive RxEvent where
  /-- an MPDU enters `m_bufferedMpdus` -/
  | stored (mpdu : WifiMpdu)
  /-- `m_rxMiddle->Receive` -/
  | receive (mpdu : WifiMpdu)
  /-- `m_winStartB` is set -/
  | winStart (seqNumber : Nat)
  deriving DecidableEq, Repr

structure RecipientBlockAckAgreement where
  scoreboard : BlockAckWindow
  winStartB : Nat
  winSizeB : Nat
  /-- `m_bufferedMpdus`, in the order of its keys -/
  bufferedMpdus : List WifiMpdu
  /-- what has been done so far, in order -/
  trace : List RxEvent
  deriving DecidableEq, Repr, Inhabited

namespace RecipientBlockAckAgreement

def create (bufferSize startingSeq : Nat) : RecipientBlockAckAgreement :=
  { scoreboard := .init startingSeq bufferSize
    winStartB := startingSeq
    winSizeB := bufferSize
    bufferedMpdus := []
    trace := [] }

/-! ## The ordered map -/

def compare (winStartB a b : Nat) : Bool :=
  decide (seqOffset a winStartB < seqOffset b winStartB)

/-- `m_bufferedMpdus.insert`: nothing when the key is present. -/
def insert (winStartB : Nat) (mpdu : WifiMpdu) : List WifiMpdu → Option (List WifiMpdu)
  | [] => some [mpdu]
  | m :: rest =>
    if compare winStartB mpdu.sequenceNumber m.sequenceNumber then some (mpdu :: m :: rest)
    else if compare winStartB m.sequenceNumber mpdu.sequenceNumber then
      (insert winStartB mpdu rest).map (m :: ·)
    else none

def store (a : RecipientBlockAckAgreement) (mpdu : WifiMpdu) : RecipientBlockAckAgreement :=
  match insert a.winStartB mpdu a.bufferedMpdus with
  | some bufferedMpdus => { a with bufferedMpdus, trace := a.trace ++ [.stored mpdu] }
  | none => a

def forwardUp (a : RecipientBlockAckAgreement) (mpdu : WifiMpdu) (rest : List WifiMpdu) :
    RecipientBlockAckAgreement :=
  { a with bufferedMpdus := rest, trace := a.trace ++ [.receive mpdu] }

def setWinStartB (a : RecipientBlockAckAgreement) (seqNumber : Nat) :
    RecipientBlockAckAgreement :=
  { a with winStartB := seqNumber, trace := a.trace ++ [.winStart seqNumber] }

/-! ## Passing MPDUs up -/

/-- "There cannot be old MPDUs in the buffer." -/
def assertNoOldMpdu (a : RecipientBlockAckAgreement) : Except Fault Unit :=
  match a.bufferedMpdus.getLast? with
  | none => pure ()
  | some mpdu => do
      let distance ← getDistance mpdu.sequenceNumber a.winStartB
      nsAssert (decide (distance < SEQNO_SPACE_HALF_SIZE))

/-- The loop of `PassBufferedMpdusUntilFirstLost` over the buffer. -/
def passUntilFirstLost (a : RecipientBlockAckAgreement) :
    List WifiMpdu → RecipientBlockAckAgreement
  | [] => a
  | mpdu :: rest =>
    if mpdu.sequenceNumber = a.winStartB then
      passUntilFirstLost
        ((a.forwardUp mpdu rest).setWinStartB ((a.winStartB + 1) % SEQNO_SPACE_SIZE)) rest
    else a

def passBufferedMpdusUntilFirstLost (a : RecipientBlockAckAgreement) :
    Except Fault RecipientBlockAckAgreement := do
  a.assertNoOldMpdu
  pure (a.passUntilFirstLost a.bufferedMpdus)

/-- The loop of `PassBufferedMpdusWithSeqNumberLessThan` over the buffer. -/
def passLessThan (newWinStartB : Nat) (a : RecipientBlockAckAgreement) :
    List WifiMpdu → Except Fault RecipientBlockAckAgreement
  | [] => pure a
  | mpdu :: rest => do
      let distance ← getDistance mpdu.sequenceNumber a.winStartB
      let newDistance ← getDistance newWinStartB a.winStartB
      if distance < newDistance then passLessThan newWinStartB (a.forwardUp mpdu rest) rest
      else pure a

def passBufferedMpdusWithSeqNumberLessThan (a : RecipientBlockAckAgreement)
    (newWinStartB : Nat) : Except Fault RecipientBlockAckAgreement := do
  a.assertNoOldMpdu
  let a ← a.passLessThan newWinStartB a.bufferedMpdus
  pure (a.setWinStartB newWinStartB)

/-! ## The notifications -/

/-- The scoreboard half of `NotifyReceivedMpdu`. -/
def scoreMpdu (scoreboard : BlockAckWindow) (mpduSeqNumber : Nat) :
    Except Fault BlockAckWindow := do
  let distance ← getDistance mpduSeqNumber scoreboard.getWinStart
  if distance < scoreboard.getWinSize then scoreboard.setAt distance
  else if distance < SEQNO_SPACE_HALF_SIZE then
    let scoreboard := scoreboard.advance (distance - scoreboard.getWinSize + 1)
    -- an empty window fails the assertion of `At` as the wrapped index does
    scoreboard.setAt (scoreboard.getWinSize - 1)
  else pure scoreboard

/-- The reordering half of `NotifyReceivedMpdu`. -/
def reorderMpdu (a : RecipientBlockAckAgreement) (mpdu : WifiMpdu) :
    Except Fault RecipientBlockAckAgreement := do
  let distance ← getDistance mpdu.sequenceNumber a.winStartB
  if distance < a.winSizeB then (a.store mpdu).passBufferedMpdusUntilFirstLost
  else if distance < SEQNO_SPACE_HALF_SIZE then
    -- computed in `size_t`, passed as `uint16_t`
    let a ← (a.store mpdu).passBufferedMpdusWithSeqNumberLessThan
      (wadd 64 (wsub 64 mpdu.sequenceNumber a.winSizeB) 1 % 2 ^ 16)
    a.passBufferedMpdusUntilFirstLost
  else pure a

def notifyReceivedMpdu (a : RecipientBlockAckAgreement) (mpdu : WifiMpdu) :
    Except Fault RecipientBlockAckAgreement := do
  let scoreboard ← scoreMpdu a.scoreboard mpdu.sequenceNumber
  reorderMpdu { a with scoreboard } mpdu

/-- The scoreboard half of `NotifyReceivedBar`. -/
def scoreBar (scoreboard : BlockAckWindow) (startingSequenceNumber : Nat) :
    Except Fault BlockAckWindow := do
  let distance ← getDistance startingSequenceNumber scoreboard.getWinStart
  if distance > 0 ∧ distance < scoreboard.getWinSize then
    let scoreboard := scoreboard.advance distance
    nsAssert (decide (scoreboard.getWinStart = startingSequenceNumber))
    pure scoreboard
  else if distance > 0 ∧ distance < SEQNO_SPACE_HALF_SIZE then
    pure (scoreboard.reset startingSequenceNumber)
  else pure scoreboard

/-- The reordering half of `NotifyReceivedBar`. -/
def reorderBar (a : RecipientBlockAckAgreement) (startingSequenceNumber : Nat) :
    Except Fault RecipientBlockAckAgreement := do
  let distance ← getDistance startingSequenceNumber a.winStartB
  if distance > 0 ∧ distance < SEQNO_SPACE_HALF_SIZE then
    let a ← a.passBufferedMpdusWithSeqNumberLessThan startingSequenceNumber
    a.passBufferedMpdusUntilFirstLost
  else pure a

def notifyReceivedBar (a : RecipientBlockAckAgreement) (startingSequenceNumber : Nat) :
    Except Fault RecipientBlockAckAgreement := do
  let scoreboard ← scoreBar a.scoreboard startingSequenceNumber
  reorderBar { a with scoreboard } startingSequenceNumber

/-! ## Histories -/

/-- What the recipient is notified of. -/
inductive RxFrame where
  /-- `NotifyReceivedMpdu` -/
  | mpdu (mpdu : WifiMpdu)
  /-- `NotifyReceivedBar` -/
  | bar (startingSequenceNumber : Nat)
  deriving DecidableEq, Repr

def RxFrame.seqNumber : RxFrame → Nat
  | .mpdu m => m.sequenceNumber
  | .bar startingSequenceNumber => startingSequenceNumber

def notify (a : RecipientBlockAckAgreement) : RxFrame → Except Fault RecipientBlockAckAgreement
  | .mpdu mpdu => a.notifyReceivedMpdu mpdu
  | .bar startingSequenceNumber => a.notifyReceivedBar startingSequenceNumber

def receiveAll (a : RecipientBlockAckAgreement) (frames : List RxFrame) :
    Except Fault RecipientBlockAckAgreement :=
  frames.foldlM notify a

theorem receiveAll_concat (a : RecipientBlockAckAgreement) (frames : List RxFrame)
    (frame : RxFrame) :
    a.receiveAll (frames ++ [frame]) = a.receiveAll frames >>= fun b => b.notify frame := by
  rw [receiveAll, List.foldlM_append]
  exact bind_congr fun b => by simp

end RecipientBlockAckAgreement

end Ns3
