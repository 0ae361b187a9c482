/-
  Two acknowledged mode entities and what lies between them (LteRlcAm,
  src/lte/model/lte-rlc-am.cc).

  Each peer keeps what it has sent.  A PDU that was sent can arrive at any time and any number
  of times, or never.
-/
import Ns3.Lte.RlcAmReception

namespace Ns3

namespace Lte

open Lib

namespace LteRlcAm

/-- One `LteRlcAm`, the PDUs it has sent, and the STATUS PDUs that have arrived. -/
structure Peer (α : Type) where
  tx : Transmission α
  rx : Reception α
  sentData : List (AmPdu α)
  sentStatus : List AmStatus
  /-- the places of the STATUS PDUs that have arrived among those the other peer has sent -/
  arrived : List Nat

/-- What happens at a peer.  A PDU that arrives is told by its place among the sent ones. -/
inductive PeerEvent (α : Type) where
  | transmitPdcpPdu (p : List α)
  | notifyTxOpportunity (bytes : Nat)
  | receiveData (place : Nat)
  | receiveStatus (place : Nat)
  | expirePollRetransmitTimer
  | expireReorderingTimer
  | expireStatusProhibitTimer
  deriving DecidableEq, Repr

variable {α : Type}

namespace Peer

/-- A peer that has just been created. -/
def new (maxTxBufferSize : Nat) (txOpportunityForRetxAlwaysBigEnough : Bool) : Peer α :=
  { tx := .new maxTxBufferSize txOpportunityForRetxAlwaysBigEnough
    rx := .new
    sentData := []
    sentStatus := []
    arrived := [] }

def doNotifyTxOpportunity (p : Peer α) (bytes : Nat) : Except Fault (Peer α) := do
  nsAssert (4 ≤ bytes)
  if p.rx.statusDue then
    let (rx, status) ← p.rx.doNotifyTxOpportunity bytes
    pure { p with rx, sentStatus := p.sentStatus ++ [status] }
  else
    let (tx, pdu) ← p.tx.doNotifyTxOpportunity bytes
    pure { p with tx, sentData := p.sentData ++ pdu.toList }

/-- An event at a peer.  Only what was sent can arrive, and only a pending timer can expire. -/
def step (p other : Peer α) : PeerEvent α → Except Fault (Option (Peer α))
  | .transmitPdcpPdu sdu => .ok (some { p with tx := p.tx.doTransmitPdcpPdu sdu })
  | .notifyTxOpportunity bytes => do
      let p ← p.doNotifyTxOpportunity bytes
      pure (some p)
  | .receiveData place =>
    match other.sentData[place]? with
    | some pdu => do
        let rx ← p.rx.receiveData pdu
        pure (some { p with rx })
    | none => .ok none
  | .receiveStatus place =>
    match other.sentStatus[place]? with
    | some status => do
        let tx ← p.tx.receiveStatus status
        pure (some { p with tx, arrived := p.arrived ++ [place] })
    | none => .ok none
  | .expirePollRetransmitTimer =>
    if p.tx.pollRetransmitTimer then do
      let tx ← p.tx.expirePollRetransmitTimer
      pure (some { p with tx })
    else .ok none
  | .expireReorderingTimer =>
    if p.rx.reorderingTimer then do
      let rx ← p.rx.expireReorderingTimer
      pure (some { p with rx })
    else .ok none
  | .expireStatusProhibitTimer =>
    if p.rx.statusProhibitTimer then
      .ok (some { p with rx := p.rx.expireStatusProhibitTimer })
    else .ok none

/-! ## Runs of one peer -/

/-- An SDU is not empty, and the bytes that wait are counted in 32 bits. -/
def Admits (p : Peer α) : PeerEvent α → Prop
  | .transmitPdcpPdu sdu => sdu ≠ [] ∧ p.tx.txonBuffer.size + sdu.length < 2 ^ 32
  | _ => True

/-- An event, whatever the other peer has sent: an acknowledged number has ten bits. -/
def Step (p : Peer α) (event : PeerEvent α) (p' : Peer α) : Prop :=
  p.Admits event ∧ ∃ other : Peer α,
    (∀ status ∈ other.sentStatus, status.ackSn.value < 1024) ∧ p.step other event = .ok (some p')

variable {p p' : Peer α} {event : PeerEvent α} {events : List (PeerEvent α)}

theorem Step.books (hstep : p.Step event p') (h : p.tx.Books) : p'.tx.Books := by
  obtain ⟨hadmits, other, hother, hstep⟩ := hstep
  cases event with
  | transmitPdcpPdu sdu =>
    cases hstep
    exact h.transmitPdcpPdu hadmits.1 hadmits.2
  | notifyTxOpportunity bytes =>
    obtain ⟨q, hq, hstep⟩ := bind_eq_ok.mp hstep
    obtain ⟨⟩ := pure_eq_ok.mp hstep
    rw [Peer.doNotifyTxOpportunity] at hq
    obtain ⟨-, -, hq⟩ := bind_eq_ok.mp hq
    split at hq
    · obtain ⟨_, -, rfl⟩ := bind_pure_eq_ok.mp hq
      exact h
    · obtain ⟨_, htx, rfl⟩ := bind_pure_eq_ok.mp hq
      exact h.sent htx
  | receiveStatus place =>
    rw [Peer.step] at hstep
    split at hstep
    · next status hstatus =>
      obtain ⟨tx, htx, hstep⟩ := bind_eq_ok.mp hstep
      obtain ⟨⟩ := pure_eq_ok.mp hstep
      exact h.receiveStatus (hother status (List.mem_of_getElem? hstatus)) htx
    · cases hstep
  | expirePollRetransmitTimer =>
    rw [Peer.step] at hstep
    split at hstep
    · obtain ⟨tx, htx, hstep⟩ := bind_eq_ok.mp hstep
      obtain ⟨⟩ := pure_eq_ok.mp hstep
      obtain ⟨tx', htx', hbooks⟩ := h.expirePollRetransmitTimer
      cases htx.symm.trans htx'
      exact hbooks
    · cases hstep
  | receiveData _ | expireReorderingTimer =>
    rw [Peer.step] at hstep
    split at hstep
    · obtain ⟨rx, -, hstep⟩ := bind_eq_ok.mp hstep
      obtain ⟨⟩ := pure_eq_ok.mp hstep
      exact h
    · cases hstep
  | expireStatusProhibitTimer =>
    rw [Peer.step] at hstep
    split at hstep
    · cases hstep
      exact h
    · cases hstep

end Peer

end LteRlcAm

end Lte

end Ns3
