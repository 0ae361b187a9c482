/-
  One end of an 802.11s peer link
  (PeerLink, src/mesh/model/dot11s/peer-link.h, peer-link.cc; IePeerManagement,
  ie-dot11s-peer-management.h, ie-dot11s-peer-management.cc).

  A link reacts to an event with a new state, at most one notice to the protocol, and the frames
  it sends.  Of the timers only whether they are pending is kept, and of a frame the peering
  element; the mesh configuration and the beacon timing, which decide nothing, are left out.
-/
import Ns3.Wifi.CtrlBAckResponseHeader

namespace Ns3

def Mac48Address.getBroadcast : Mac48Address := ⟨List.replicate 6 255, rfl⟩

namespace Mesh

/-- Why a link is closed. -/
inductive PmpReasonCode where
  | peeringCancelled
  | meshMaxPeers
  | meshCapabilityPolicyViolation
  | meshCloseRcvd
  | meshMaxRetries
  | meshConfirmTimeout
  | reserved
  deriving DecidableEq, Repr, Inhabited

/-- The element of a peering frame. -/
inductive IePeerManagement where
  | peerOpen (localLinkId : Nat)
  | peerConfirm (localLinkId peerLinkId : Nat)
  | peerClose (localLinkId peerLinkId : Nat) (reasonCode : PmpReasonCode)
  deriving DecidableEq, Repr

def IePeerManagement.getLocalLinkId : IePeerManagement → Nat
  | .peerOpen localLinkId => localLinkId
  | .peerConfirm localLinkId _ => localLinkId
  | .peerClose localLinkId _ _ => localLinkId

/-- A peering frame between two interfaces. -/
structure Frame where
  /-- the interface it is for -/
  addr1 : Mac48Address
  /-- the interface it is from -/
  addr2 : Mac48Address
  /-- the mesh point it is from -/
  addr3 : Mac48Address
  aid : Nat
  peerElement : IePeerManagement
  deriving DecidableEq, Repr

inductive PeerState where
  | idle
  | opnSnt
  | cnfRcvd
  | opnRcvd
  | estab
  | holding
  deriving DecidableEq, Repr, Inhabited

/-- The events of the link's machine. -/
inductive PeerEvent where
  | cncl
  | actopn
  | clsAcpt
  | opnAcpt
  | opnRjct
  | reqRjct
  | cnfAcpt
  | cnfRjct
  | tor1
  | tor2
  | toc
  | toh
  deriving DecidableEq, Repr

/-- `PeerLink`.  `macAddress` and `meshPointAddress` are what its plugin puts into the frames. -/
structure PeerLink where
  macAddress : Mac48Address
  meshPointAddress : Mac48Address
  peerAddress : Mac48Address
  peerMeshPointAddress : Mac48Address
  localLinkId : Nat
  peerLinkId : Nat := 0
  assocId : Nat
  peerAssocId : Nat := 0
  packetFail : Nat := 0
  state : PeerState := .idle
  retryCounter : Nat := 0
  maxRetries : Nat
  maxPacketFail : Nat
  /-- `m_retryTimer` is pending -/
  retryTimer : Bool := false
  /-- `m_confirmTimer` is pending -/
  confirmTimer : Bool := false
  /-- `m_holdingTimer` is pending -/
  holdingTimer : Bool := false
  /-- `m_beaconLossTimer` is pending -/
  beaconLossTimer : Bool := false
  deriving DecidableEq, Repr

/-- What a link does in reaction to an event: `status` is the argument of `m_linkStatusCallback`,
when it is called. -/
structure Reaction where
  link : PeerLink
  status : Option (PeerState × PeerState) := none
  sent : List Frame := []
  deriving DecidableEq, Repr

namespace Reaction

def send (r : Reaction) (peerElement : IePeerManagement) : Reaction :=
  { r with
    sent := r.sent ++
      [⟨r.link.peerAddress, r.link.macAddress, r.link.meshPointAddress, r.link.assocId,
        peerElement⟩] }

def sendPeerLinkClose (r : Reaction) (reasoncode : PmpReasonCode) : Reaction :=
  r.send (.peerClose r.link.localLinkId r.link.peerLinkId reasoncode)

def sendPeerLinkOpen (r : Reaction) : Reaction :=
  r.send (.peerOpen r.link.localLinkId)

def sendPeerLinkConfirm (r : Reaction) : Reaction :=
  r.send (.peerConfirm r.link.localLinkId r.link.peerLinkId)

def clearRetryTimer (r : Reaction) : Reaction :=
  { r with link := { r.link with retryTimer := false } }

def clearConfirmTimer (r : Reaction) : Reaction :=
  { r with link := { r.link with confirmTimer := false } }

def clearHoldingTimer (r : Reaction) : Reaction :=
  { r with link := { r.link with holdingTimer := false } }

def setRetryTimer (r : Reaction) : Reaction :=
  { r with link := { r.link with retryTimer := true } }

def setConfirmTimer (r : Reaction) : Reaction :=
  { r with link := { r.link with confirmTimer := true } }

def setHoldingTimer (r : Reaction) : Reaction :=
  { r with link := { r.link with holdingTimer := true } }

/-- `m_retryCounter++`. -/
def countRetry (r : Reaction) : Reaction :=
  { r with link := { r.link with retryCounter := (r.link.retryCounter + 1) % 2 ^ 16 } }

end Reaction

namespace PeerLink

def ignore (l : PeerLink) : Reaction := { link := l }

/-- The state changes, and `m_linkStatusCallback` is called. -/
def enter (l : PeerLink) (nstate : PeerState) : Reaction :=
  { link := { l with state := nstate }, status := some (l.state, nstate) }

/-- `StateMachine`: every event in every state. -/
def stateMachine (l : PeerLink) (event : PeerEvent) (reasoncode : PmpReasonCode) :
    Except Fault Reaction :=
  match l.state with
  | .idle =>
    match event with
    | .cncl | .clsAcpt => pure (l.enter .idle)
    | .reqRjct => pure (l.ignore.sendPeerLinkClose reasoncode)
    | .actopn => pure (l.enter .opnSnt).sendPeerLinkOpen.setRetryTimer
    | .opnAcpt =>
      pure (l.enter .opnRcvd).sendPeerLinkConfirm.sendPeerLinkOpen.setRetryTimer
    | _ => pure l.ignore
  | .opnSnt =>
    match event with
    | .tor1 => pure l.ignore.sendPeerLinkOpen.countRetry.setRetryTimer
    | .cnfAcpt => pure (l.enter .cnfRcvd).clearRetryTimer.setConfirmTimer
    | .opnAcpt => pure (l.enter .opnRcvd).sendPeerLinkConfirm
    | .clsAcpt =>
      pure ((l.enter .holding).clearRetryTimer.sendPeerLinkClose .meshCloseRcvd).setHoldingTimer
    | .opnRjct | .cnfRjct =>
      pure ((l.enter .holding).clearRetryTimer.sendPeerLinkClose reasoncode).setHoldingTimer
    | .tor2 =>
      pure ((l.enter .holding).clearRetryTimer.sendPeerLinkClose
        .meshMaxRetries).setHoldingTimer
    | .cncl =>
      pure ((l.enter .holding).clearRetryTimer.sendPeerLinkClose
        .peeringCancelled).setHoldingTimer
    | _ => pure l.ignore
  | .cnfRcvd =>
    match event with
    | .cnfAcpt => pure l.ignore
    | .opnAcpt => do
        nsAssert (l.peerMeshPointAddress ≠ Mac48Address.getBroadcast)
        pure (l.enter .estab).clearConfirmTimer.sendPeerLinkConfirm
    | .clsAcpt =>
      pure ((l.enter .holding).clearConfirmTimer.sendPeerLinkClose
        .meshCloseRcvd).setHoldingTimer
    | .cnfRjct | .opnRjct =>
      pure ((l.enter .holding).clearConfirmTimer.sendPeerLinkClose reasoncode).setHoldingTimer
    | .cncl =>
      pure ((l.enter .holding).clearConfirmTimer.sendPeerLinkClose
        .peeringCancelled).setHoldingTimer
    | .toc => pure ((l.enter .holding).sendPeerLinkClose .meshConfirmTimeout).setHoldingTimer
    | _ => pure l.ignore
  | .opnRcvd =>
    match event with
    | .tor1 => pure l.ignore.sendPeerLinkOpen.countRetry.setRetryTimer
    | .cnfAcpt => do
        nsAssert (l.peerMeshPointAddress ≠ Mac48Address.getBroadcast)
        pure (l.enter .estab).clearRetryTimer
    | .clsAcpt =>
      pure ((l.enter .holding).clearRetryTimer.sendPeerLinkClose .meshCloseRcvd).setHoldingTimer
    | .opnRjct | .cnfRjct =>
      pure ((l.enter .holding).clearRetryTimer.sendPeerLinkClose reasoncode).setHoldingTimer
    | .tor2 =>
      pure ((l.enter .holding).clearRetryTimer.sendPeerLinkClose
        .meshMaxRetries).setHoldingTimer
    | .cncl =>
      pure ((l.enter .holding).clearRetryTimer.sendPeerLinkClose
        .peeringCancelled).setHoldingTimer
    | _ => pure l.ignore
  | .estab =>
    match event with
    | .opnAcpt => pure l.ignore.sendPeerLinkConfirm
    | .clsAcpt => pure ((l.enter .holding).sendPeerLinkClose .meshCloseRcvd).setHoldingTimer
    | .opnRjct | .cnfRjct =>
      pure ((l.enter .holding).clearRetryTimer.sendPeerLinkClose reasoncode).setHoldingTimer
    | .cncl => pure ((l.enter .holding).sendPeerLinkClose .peeringCancelled).setHoldingTimer
    | _ => pure l.ignore
  | .holding =>
    match event with
    | .clsAcpt => pure (l.enter .idle).clearHoldingTimer
    | .toh => pure (l.enter .idle)
    | .opnAcpt | .cnfAcpt => pure ((l.enter .holding).sendPeerLinkClose .peeringCancelled)
    | .opnRjct | .cnfRjct => pure ((l.enter .holding).sendPeerLinkClose reasoncode)
    | _ => pure l.ignore

def linkIsEstab (l : PeerLink) : Bool := l.state == .estab

def linkIsIdle (l : PeerLink) : Bool := l.state == .idle

/-! ## What the protocol asks for -/

def setBeaconInformation (l : PeerLink) : PeerLink := { l with beaconLossTimer := true }

def mlmeCancelPeerLink (l : PeerLink) (reason : PmpReasonCode) : Except Fault Reaction :=
  l.stateMachine .cncl reason

def mlmeActivePeerLinkOpen (l : PeerLink) : Except Fault Reaction :=
  l.stateMachine .actopn .reserved

def transmissionSuccess (l : PeerLink) : PeerLink := { l with packetFail := 0 }

def transmissionFailure (l : PeerLink) : Except Fault Reaction :=
  let l := { l with packetFail := (l.packetFail + 1) % 2 ^ 16 }
  if l.packetFail = l.maxPacketFail then do
    let r ← l.stateMachine .cncl .reserved
    pure { r with link := { r.link with packetFail := 0 } }
  else pure l.ignore

/-! ## The frames of the peer -/

/-- The mesh point of the peer is the one that is known, or it becomes known. -/
def learnMeshPoint (l : PeerLink) (peerMp : Mac48Address) : Except Fault PeerLink := do
  if l.peerMeshPointAddress ≠ Mac48Address.getBroadcast then
    nsAssert (l.peerMeshPointAddress = peerMp)
    pure l
  else
    pure { l with peerMeshPointAddress := peerMp }

def close (l : PeerLink) (localLinkId peerLinkId : Nat) (reason : PmpReasonCode) :
    Except Fault Reaction :=
  if peerLinkId ≠ 0 ∧ l.localLinkId ≠ peerLinkId then pure l.ignore
  else if l.peerLinkId = 0 then
    { l with peerLinkId := localLinkId }.stateMachine .clsAcpt reason
  else if l.peerLinkId ≠ localLinkId then pure l.ignore
  else l.stateMachine .clsAcpt reason

def openAccept (l : PeerLink) (localLinkId : Nat) (peerMp : Mac48Address) :
    Except Fault Reaction := do
  let l ← { l with peerLinkId := localLinkId }.learnMeshPoint peerMp
  l.stateMachine .opnAcpt .reserved

def openReject (l : PeerLink) (localLinkId : Nat) (peerMp : Mac48Address)
    (reason : PmpReasonCode) : Except Fault Reaction := do
  let l := if l.peerLinkId = 0 then { l with peerLinkId := localLinkId } else l
  let l ← l.learnMeshPoint peerMp
  l.stateMachine .opnRjct reason

/-- What `PeerLink::ConfirmAccept` does once the ids agree. -/
def confirm (l : PeerLink) (peerAid : Nat) (peerMp : Mac48Address) : Except Fault Reaction := do
  let l ← { l with peerAssocId := peerAid }.learnMeshPoint peerMp
  l.stateMachine .cnfAcpt .reserved

def confirmAccept (l : PeerLink) (localLinkId peerLinkId peerAid : Nat) (peerMp : Mac48Address) :
    Except Fault Reaction :=
  if l.localLinkId ≠ peerLinkId then pure l.ignore
  else if l.peerLinkId = 0 then { l with peerLinkId := localLinkId }.confirm peerAid peerMp
  else if l.peerLinkId ≠ localLinkId then pure l.ignore
  else l.confirm peerAid peerMp

/-! ## The timers -/

def beaconLoss (l : PeerLink) : Except Fault Reaction :=
  { l with beaconLossTimer := false }.stateMachine .cncl .reserved

def retryTimeout (l : PeerLink) : Except Fault Reaction :=
  if l.retryCounter < l.maxRetries then
    { l with retryTimer := false }.stateMachine .tor1 .reserved
  else
    { l with retryTimer := false }.stateMachine .tor2 .reserved

def confirmTimeout (l : PeerLink) : Except Fault Reaction :=
  { l with confirmTimer := false }.stateMachine .toc .reserved

def holdingTimeout (l : PeerLink) : Except Fault Reaction :=
  { l with holdingTimer := false }.stateMachine .toh .reserved

end PeerLink

end Mesh

end Ns3
