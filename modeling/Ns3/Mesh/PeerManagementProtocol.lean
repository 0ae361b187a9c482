/-
  The peer links of a station
  (PeerManagementProtocol, src/mesh/model/dot11s/peer-management-protocol.h,
  peer-management-protocol.cc; the frames of peer-management-protocol-mac.cc).

  A station with one interface.  What it is asked for returns the frames it sends.  A timer of a
  link that was erased no longer reaches anything.
-/
import Ns3.Mesh.PeerLink

namespace Ns3

namespace Mesh

/-- `PeerManagementProtocol::PeerLinksOnInterface`: at most one link to each peer. -/
structure PeerLinksOnInterface where
  links : List PeerLink
  nodup : (links.map PeerLink.peerAddress).Nodup

namespace PeerLinksOnInterface

def linkTo (ls : PeerLinksOnInterface) (peerAddress : Mac48Address) : Option PeerLink :=
  ls.links.find? fun l => l.peerAddress = peerAddress

def erase (ls : PeerLinksOnInterface) (peerAddress : Mac48Address) : PeerLinksOnInterface :=
  { links := ls.links.filter fun l => l.peerAddress ≠ peerAddress
    nodup := ls.nodup.sublist (List.filter_sublist.map _) }

def pushBack (ls : PeerLinksOnInterface) (l : PeerLink) : PeerLinksOnInterface :=
  if h : l.peerAddress ∈ ls.links.map PeerLink.peerAddress then ls
  else
    { links := ls.links ++ [l]
      nodup := by
        rw [List.map_append]
        exact List.nodup_append.mpr ⟨ls.nodup, List.nodup_singleton _, fun a ha b hb hab =>
          h (List.mem_singleton.mp hb ▸ hab ▸ ha)⟩ }

def set (ls : PeerLinksOnInterface) (l : PeerLink) : PeerLinksOnInterface :=
  { links := ls.links.map fun l' => if l'.peerAddress = l.peerAddress then l else l'
    nodup := by
      have hmap : (ls.links.map fun l' => if l'.peerAddress = l.peerAddress then l else l').map
          PeerLink.peerAddress = ls.links.map PeerLink.peerAddress := by
        rw [List.map_map]
        refine List.map_congr_left fun l' _ => ?_
        by_cases heq : l'.peerAddress = l.peerAddress
        · rw [Function.comp, if_pos heq, heq]
        · rw [Function.comp, if_neg heq]
      rw [hmap]
      exact ls.nodup }

end PeerLinksOnInterface

/-- `PeerManagementProtocol`.  `created` counts the links ever created. -/
structure PeerManagementProtocol where
  address : Mac48Address
  /-- the address of the plugin's interface -/
  macAddress : Mac48Address
  peerLinks : PeerLinksOnInterface
  lastAssocId : Nat
  lastLocalLinkId : Nat
  maxNumberOfPeerLinks : Nat
  linksTotal : Nat
  /-- `MaxRetries` of the links it creates -/
  maxRetries : Nat
  /-- `MaxPacketFailure` of the links it creates -/
  maxPacketFail : Nat
  created : Nat

namespace PeerManagementProtocol

def install (address macAddress : Mac48Address)
    (maxNumberOfPeerLinks maxRetries maxPacketFail : Nat) : PeerManagementProtocol :=
  { address := address
    macAddress, peerLinks := ⟨[], .nil⟩
    lastAssocId := 0
    lastLocalLinkId := 1
    maxNumberOfPeerLinks, linksTotal := 0
    maxRetries, maxPacketFail, created := 0 }

def findPeerLink (m : PeerManagementProtocol) (peerAddress : Mac48Address) :
    Option PeerLink × PeerManagementProtocol :=
  match m.peerLinks.linkTo peerAddress with
  | some l =>
    if l.linkIsIdle then (none, { m with peerLinks := m.peerLinks.erase peerAddress })
    else (some l, m)
  | none => (none, m)

def notifyLinkOpen (m : PeerManagementProtocol) : PeerManagementProtocol :=
  { m with linksTotal := (m.linksTotal + 1) % 2 ^ 16 }

def notifyLinkClose (m : PeerManagementProtocol) : PeerManagementProtocol :=
  { m with linksTotal := (m.linksTotal + (2 ^ 16 - 1)) % 2 ^ 16 }

/-- `PeerLinkStatus`: the established links are counted. -/
def peerLinkStatus (m : PeerManagementProtocol) (peerAddress : Mac48Address)
    (ostate nstate : PeerState) : Except Fault PeerManagementProtocol := do
  let m := if nstate = .estab ∧ ostate ≠ .estab then m.notifyLinkOpen else m
  let m := if ostate = .estab ∧ nstate ≠ .estab then m.notifyLinkClose else m
  if nstate = .idle then
    let (link, m) := m.findPeerLink peerAddress
    nsAssert link.isNone
    pure m
  else pure m

def settle (m : PeerManagementProtocol) (r : Reaction) :
    Except Fault (PeerManagementProtocol × List Frame) :=
  let m := { m with peerLinks := m.peerLinks.set r.link }
  match r.status with
  | none => pure (m, r.sent)
  | some (ostate, nstate) => do
      let m ← m.peerLinkStatus r.link.peerAddress ostate nstate
      pure (m, r.sent)

/-- `ShouldSendOpen`: there is room for another link. -/
def shouldSendOpen (m : PeerManagementProtocol) : Bool :=
  m.linksTotal < m.maxNumberOfPeerLinks

/-- `PeerManagementProtocol::ShouldAcceptOpen`: the reason why not. -/
def shouldAcceptOpen (m : PeerManagementProtocol) : Except PmpReasonCode Unit :=
  if m.linksTotal ≥ m.maxNumberOfPeerLinks then .error .meshMaxPeers else .ok ()

def newLink (m : PeerManagementProtocol) (peerAddress peerMeshPointAddress : Mac48Address) :
    PeerLink :=
  { macAddress := m.macAddress
    meshPointAddress := m.address
    peerAddress, peerMeshPointAddress, localLinkId := m.lastLocalLinkId
    assocId := m.lastAssocId
    maxRetries := m.maxRetries
    maxPacketFail := m.maxPacketFail }

def initiateLink (m : PeerManagementProtocol) (peerAddress peerMeshPointAddress : Mac48Address) :
    Except Fault (PeerLink × PeerManagementProtocol) :=
  match m.findPeerLink peerAddress with
  | (some _, _) => .error .fatalError
  | (none, m) =>
    let link := m.newLink peerAddress peerMeshPointAddress
    pure (link,
      { m with
        lastAssocId := (m.lastAssocId + 1) % 2 ^ 16
        lastLocalLinkId := (m.lastLocalLinkId + 1) % 2 ^ 16
        peerLinks := m.peerLinks.pushBack link
        created := m.created + 1 })

def beaconHeard (m : PeerManagementProtocol) (peerAddress : Mac48Address) :
    PeerManagementProtocol :=
  match m.peerLinks.linkTo peerAddress with
  | some l => { m with peerLinks := m.peerLinks.set l.setBeaconInformation }
  | none => m

/-- A beacon opens a link to a new peer, if there is room. -/
def receiveBeacon (m : PeerManagementProtocol) (peerAddress : Mac48Address) :
    Except Fault (PeerManagementProtocol × List Frame) :=
  if m.macAddress = peerAddress then pure (m, [])
  else
    match m.findPeerLink peerAddress with
    | (some _, m) => pure (m.beaconHeard peerAddress, [])
    | (none, m) =>
      if m.shouldSendOpen then do
        let (peerLink, m) ← m.initiateLink peerAddress Mac48Address.getBroadcast
        let r ← peerLink.mlmeActivePeerLinkOpen
        let (m, sent) ← m.settle r
        pure (m.beaconHeard peerAddress, sent)
      else pure (m, [])

def linkForOpen (m : PeerManagementProtocol) (peerLink : Option PeerLink)
    (peerAddress peerMeshPointAddress : Mac48Address) :
    Except Fault (PeerLink × PeerManagementProtocol) :=
  match peerLink with
  | some l => pure (l, m)
  | none => m.initiateLink peerAddress peerMeshPointAddress

def answerOpen (accept : Except PmpReasonCode Unit) (l : PeerLink) (localLinkId : Nat)
    (peerMeshPointAddress : Mac48Address) : Except Fault Reaction :=
  match accept with
  | .ok () => l.openAccept localLinkId peerMeshPointAddress
  | .error reasonCode => l.openReject localLinkId peerMeshPointAddress reasonCode

/-- The Open part of `PeerManagementProtocol::ReceivePeerLinkFrame`. -/
def receiveOpen (m : PeerManagementProtocol) (peerLink : Option PeerLink)
    (peerAddress peerMeshPointAddress : Mac48Address) (localLinkId : Nat) :
    Except Fault (PeerManagementProtocol × List Frame) := do
  let accept := m.shouldAcceptOpen
  let (peerLink, m) ← m.linkForOpen peerLink peerAddress peerMeshPointAddress
  let r ← answerOpen accept peerLink localLinkId peerMeshPointAddress
  m.settle r

/-- An open, a confirm or a close frame arrives. -/
def receivePeerLinkFrame (m : PeerManagementProtocol) (frame : Frame) :
    Except Fault (PeerManagementProtocol × List Frame) :=
  let (peerLink, m) := m.findPeerLink frame.addr2
  match frame.peerElement with
  | .peerOpen localLinkId => m.receiveOpen peerLink frame.addr2 frame.addr3 localLinkId
  | .peerConfirm localLinkId peerLinkId =>
    match peerLink with
    | none => pure (m, [])
    | some l => do m.settle (← l.confirmAccept localLinkId peerLinkId frame.aid frame.addr3)
  | .peerClose localLinkId peerLinkId reasonCode =>
    match peerLink with
    | none => pure (m, [])
    | some l => do m.settle (← l.close localLinkId peerLinkId reasonCode)

def configurationMismatch (m : PeerManagementProtocol) (peerAddress : Mac48Address) :
    Except Fault (PeerManagementProtocol × List Frame) :=
  match m.findPeerLink peerAddress with
  | (none, m) => pure (m, [])
  | (some l, m) => do m.settle (← l.mlmeCancelPeerLink .meshCapabilityPolicyViolation)

def transmissionFailure (m : PeerManagementProtocol) (peerAddress : Mac48Address) :
    Except Fault (PeerManagementProtocol × List Frame) :=
  match m.findPeerLink peerAddress with
  | (none, m) => pure (m, [])
  | (some l, m) => do m.settle (← l.transmissionFailure)

def transmissionSuccess (m : PeerManagementProtocol) (peerAddress : Mac48Address) :
    PeerManagementProtocol :=
  match m.findPeerLink peerAddress with
  | (none, m) => m
  | (some l, m) => { m with peerLinks := m.peerLinks.set l.transmissionSuccess }

def isActiveLink (m : PeerManagementProtocol) (peerAddress : Mac48Address) :
    Bool × PeerManagementProtocol :=
  match m.findPeerLink peerAddress with
  | (none, m) => (false, m)
  | (some l, m) => (l.linkIsEstab, m)

def timeout (m : PeerManagementProtocol) (peerAddress : Mac48Address)
    (pending : PeerLink → Bool) (act : PeerLink → Except Fault Reaction) :
    Except Fault (PeerManagementProtocol × List Frame) :=
  match m.peerLinks.linkTo peerAddress with
  | none => pure (m, [])
  | some l => if pending l then do m.settle (← act l) else pure (m, [])

end PeerManagementProtocol

/-- What may happen to a station. -/
inductive PmpEvent where
  | beacon (peerAddress : Mac48Address)
  | frame (frame : Frame)
  | configurationMismatch (peerAddress : Mac48Address)
  | transmissionFailure (peerAddress : Mac48Address)
  | transmissionSuccess (peerAddress : Mac48Address)
  | isActiveLink (peerAddress : Mac48Address)
  | beaconLoss (peerAddress : Mac48Address)
  | retryTimeout (peerAddress : Mac48Address)
  | confirmTimeout (peerAddress : Mac48Address)
  | holdingTimeout (peerAddress : Mac48Address)
  deriving DecidableEq, Repr

def PeerManagementProtocol.handle (m : PeerManagementProtocol) :
    PmpEvent → Except Fault (PeerManagementProtocol × List Frame)
  | .beacon peerAddress => m.receiveBeacon peerAddress
  | .frame frame => m.receivePeerLinkFrame frame
  | .configurationMismatch peerAddress => m.configurationMismatch peerAddress
  | .transmissionFailure peerAddress => m.transmissionFailure peerAddress
  | .transmissionSuccess peerAddress => pure (m.transmissionSuccess peerAddress, [])
  | .isActiveLink peerAddress => pure ((m.isActiveLink peerAddress).2, [])
  | .beaconLoss peerAddress => m.timeout peerAddress PeerLink.beaconLossTimer PeerLink.beaconLoss
  | .retryTimeout peerAddress => m.timeout peerAddress PeerLink.retryTimer PeerLink.retryTimeout
  | .confirmTimeout peerAddress =>
    m.timeout peerAddress PeerLink.confirmTimer PeerLink.confirmTimeout
  | .holdingTimeout peerAddress =>
    m.timeout peerAddress PeerLink.holdingTimer PeerLink.holdingTimeout

end Mesh

end Ns3
