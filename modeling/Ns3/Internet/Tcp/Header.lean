/-
  The parts of a TCP header that are read below
  (src/internet/model/tcp-header.h, tcp-option-sack.h, tcp-option-ts.h).
-/
import Ns3.Network.SequenceNumber

namespace Ns3.Tcp

/-- `TcpOptionSack::SackBlock`: first sequence number, and the one after the last. -/
abbrev SackBlock : Type := SequenceNumber32 × SequenceNumber32

structure TcpOptionTS where
  timestamp : Nat := 0
  echo : Nat := 0
  deriving DecidableEq, Repr, Inhabited

/-- `TcpHeader`; an option that is absent is `none`. -/
structure TcpHeader where
  sequenceNumber : SequenceNumber32 := .ofNat 0
  ackNumber : SequenceNumber32 := .ofNat 0
  flags : BitVec 8 := 0
  windowSize : Nat := 65535
  optionTS : Option TcpOptionTS := none
  optionSack : Option (List SackBlock) := none
  deriving DecidableEq, Repr, Inhabited

end Ns3.Tcp
