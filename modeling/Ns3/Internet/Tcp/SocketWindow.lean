/-
  The receive window of a socket
  (src/internet/model/tcp-socket.h, src/internet/model/tcp-socket-base.cc).

  The two places where `TcpSocketBase` relies on the window of its reception buffer:
  the test that drops a segment before it reaches the buffer, and the window
  advertised to the peer.
-/
import Ns3.Internet.Tcp.RxBuffer

namespace Ns3.Tcp

/-- `TcpSocket::TcpStates_t`. -/
inductive TcpState where
  | closed
  | listen
  | synSent
  | synRcvd
  | established
  | closeWait
  | lastAck
  | finWait1
  | finWait2
  | closing
  | timeWait
  deriving DecidableEq, Repr

def outOfRange (state : TcpState) (rxBuffer : TcpRxBuffer) (head tail : SequenceNumber32) : Bool :=
  match state with
  | .listen | .synSent | .synRcvd => false
  | .lastAck | .closing | .closeWait => rxBuffer.nextRxSeq != head
  | _ => tail.lt rxBuffer.nextRxSeq || rxBuffer.maxRxSequence.le head

/-- What `AdvertisedWindowSize` reads of the socket. -/
structure AdvWindow where
  advWnd : Nat := 0
  rcvWindShift : Nat := 0
  maxWinSize : Nat := 65535
  deriving DecidableEq, Repr

def receiveWindow (advWnd : Nat) (rxBuffer : TcpRxBuffer) : Except Fault Nat :=
  if rxBuffer.gotFin then pure advWnd
  else do
    nsAssert (decide (0 ≤ rxBuffer.maxRxSequence.sub rxBuffer.nextRxSeq))
    pure (rxBuffer.maxRxSequence.distance rxBuffer.nextRxSeq)

/-- `AdvertisedWindowSize`: the new `m_advWnd`, and the 16 bits for the header. -/
def advertisedWindowSize (socket : AdvWindow) (rxBuffer : TcpRxBuffer) (scale : Bool) :
    Except Fault (AdvWindow × Nat) := do
  let w ← receiveWindow socket.advWnd rxBuffer
  let scaled := if scale then w / 2 ^ socket.rcvWindShift else w
  let sent := if socket.maxWinSize < scaled then socket.maxWinSize else scaled
  pure ({ socket with advWnd := w }, sent % 2 ^ 16)

end Ns3.Tcp
