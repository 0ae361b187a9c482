/-
  The MPDUs that an originator has in flight
  (BlockAckManager, src/wifi/model/block-ack-manager.h, block-ack-manager.cc;
  OriginatorBlockAckAgreement, src/wifi/model/originator-block-ack-agreement.cc;
  WifiMacQueue::TtlExceeded, src/wifi/model/wifi-mac-queue.cc).

  The manager keeps one agreement and one list of MPDUs for each recipient and TID; a
  call looks up its pair and touches nothing else.  One such pair is modelled, with the
  agreement established.  What the EDCA queue says about the MPDUs is given with each
  call.

  Within one call of the manager the window slides on from a reference start.  A number
  below `move` on the way has been passed; a set bit never lies past the place where the
  window ended at the reference, so the window slides over at most its own size.
-/
import Ns3.Wifi.Scoreboard

namespace Ns3

def WifiMpdu.sequenceControl (mpdu : WifiMpdu) : Nat :=
  (mpdu.sequenceNumber <<< 4) ||| mpdu.fragmentNumber

/-! ## The transmit window -/

namespace OriginatorBlockAckAgreement

def advanceTxWindowLoop : Nat → BlockAckWindow → Except Fault BlockAckWindow
  | 0, txWindow => do
      if ← txWindow.at 0 then .error .noProgress else pure txWindow
  | fuel + 1, txWindow => do
      if ← txWindow.at 0 then advanceTxWindowLoop fuel (txWindow.advance 1) else pure txWindow

/-- `AdvanceTxWindow`: a round clears a bit, so there are at most as many as bits. -/
def advanceTxWindow (txWindow : BlockAckWindow) : Except Fault BlockAckWindow :=
  advanceTxWindowLoop txWindow.getWinSize txWindow

def notifyTransmittedMpdu (txWindow : BlockAckWindow) (mpdu : WifiMpdu) :
    Except Fault BlockAckWindow := do
  let distance ← getDistance mpdu.sequenceNumber txWindow.getWinStart
  if distance ≥ SEQNO_SPACE_HALF_SIZE then pure txWindow
  else if distance ≥ txWindow.getWinSize then
    advanceTxWindow (txWindow.advance (distance - txWindow.getWinSize + 1))
  else pure txWindow

def notifyAckedMpdu (txWindow : BlockAckWindow) (mpdu : WifiMpdu) :
    Except Fault BlockAckWindow := do
  let distance ← getDistance mpdu.sequenceNumber txWindow.getWinStart
  if distance ≥ SEQNO_SPACE_HALF_SIZE then pure txWindow
  else
    let txWindow ← txWindow.setAt distance
    advanceTxWindow txWindow

def notifyDiscardedMpdu (txWindow : BlockAckWindow) (mpdu : WifiMpdu) :
    Except Fault BlockAckWindow := do
  let distance ← getDistance mpdu.sequenceNumber txWindow.getWinStart
  if distance ≥ SEQNO_SPACE_HALF_SIZE then pure txWindow
  else advanceTxWindow (txWindow.advance (distance + 1))

end OriginatorBlockAckAgreement

/-! ## The manager -/

/-- What the EDCA queue says about the MPDUs. -/
structure EdcaQueue where
  isQueued : WifiMpdu → Bool
  /-- `GetHeader().IsRetry()` -/
  isRetry : WifiMpdu → Bool
  /-- the MPDU's lifetime is over: `now > expiryTime` -/
  expired : WifiMpdu → Bool
  /-- the links on which the MPDU is in flight -/
  inflights : WifiMpdu → List Nat

namespace EdcaQueue

def inFlightLinkIds (q : EdcaQueue) (mpdu : WifiMpdu) : List Nat :=
  if q.isQueued mpdu then q.inflights mpdu else []

def isInFlight (q : EdcaQueue) (mpdu : WifiMpdu) : Bool :=
  q.isQueued mpdu && !(q.inflights mpdu).isEmpty

def dequeue (q : EdcaQueue) (mpdu : WifiMpdu) : EdcaQueue :=
  { q with isQueued := fun m => q.isQueued m && m != mpdu }

end EdcaQueue

/-- `BlockAckManager::MpduStatus`, without `ACKNOWLEDGED`. -/
inductive MpduStatus where
  | stayInflight
  | toRetransmit
  deriving DecidableEq, Repr

/-- The agreement's transmit window and the MPDUs in flight. -/
structure OriginatorState where
  txWindow : BlockAckWindow
  /-- the `PacketQueue` of the agreement -/
  inFlight : List WifiMpdu
  deriving DecidableEq, Repr, Inhabited

namespace BlockAckManager

open OriginatorBlockAckAgreement

/-- `UpdateOriginatorAgreement` establishes the agreement. -/
def establish (startingSeq bufferSize : Nat) : OriginatorState :=
  { txWindow := .init startingSeq bufferSize, inFlight := [] }

/-- The loop of `StorePacket`, over the list from its end; `none` when the MPDU is in it. -/
def storeScan (txWindow : BlockAckWindow) (mpdu : WifiMpdu) (mpduDist : Nat) :
    List WifiMpdu → Except Fault (Option (List WifiMpdu))
  | [] => pure (some [mpdu])
  | m :: rest => do
      if mpdu.sequenceControl = m.sequenceControl then pure none
      else
        let dist ← getDistance m.sequenceNumber txWindow.getWinStart
        if mpduDist > dist ∨ (mpduDist = dist ∧ mpdu.fragmentNumber > m.fragmentNumber) then
          pure (some (mpdu :: m :: rest))
        else
          let rest ← storeScan txWindow mpdu mpduDist rest
          pure (rest.map (m :: ·))

def storePacket (s : OriginatorState) (mpdu : WifiMpdu) : Except Fault OriginatorState := do
  let mpduDist ← getDistance mpdu.sequenceNumber s.txWindow.getWinStart
  if mpduDist ≥ SEQNO_SPACE_HALF_SIZE then pure s
  else
    match ← storeScan s.txWindow mpdu mpduDist s.inFlight.reverse with
    | none => pure s
    | some stored =>
      let txWindow ← notifyTransmittedMpdu s.txWindow mpdu
      pure { txWindow, inFlight := stored.reverse }

/-- `NotifyGotAck`: `HandleInFlightMpdu` erases an MPDU that is acknowledged, queued or not. -/
def notifyGotAck (s : OriginatorState) (mpdu : WifiMpdu) : Except Fault OriginatorState := do
  let txWindow ← notifyAckedMpdu s.txWindow mpdu
  let inFlight := s.inFlight.eraseP fun m => m.sequenceNumber == mpdu.sequenceNumber
  pure { txWindow, inFlight }

/-- The loop of `NotifyDiscardedMpdu` over the MPDUs in flight. -/
def dropOld (txWindow : BlockAckWindow) : List WifiMpdu → Except Fault (List WifiMpdu)
  | [] => pure []
  | m :: rest => do
      let distance ← getDistance m.sequenceNumber txWindow.getWinStart
      if distance ≥ SEQNO_SPACE_HALF_SIZE then dropOld txWindow rest
      else pure (m :: rest)

/-- `NotifyDiscardedMpdu`, of an MPDU with QoS data. -/
def notifyDiscardedMpdu (q : EdcaQueue) (s : OriginatorState) (mpdu : WifiMpdu) :
    Except Fault OriginatorState := do
  if !q.isRetry mpdu && !q.isInFlight mpdu then pure s
  else
    let distance ← getDistance mpdu.sequenceNumber s.txWindow.getWinStart
    if distance ≥ SEQNO_SPACE_HALF_SIZE then pure s
    else
      let txWindow ← OriginatorBlockAckAgreement.notifyDiscardedMpdu s.txWindow mpdu
      let inFlight ← dropOld txWindow s.inFlight
      pure { txWindow, inFlight }

/-- A walk over the MPDUs in flight: `handled` stand before the iterator, `pending` from it on. -/
structure Walk where
  queue : EdcaQueue
  txWindow : BlockAckWindow
  handled : List WifiMpdu
  pending : List WifiMpdu

/-- The branch of `HandleInFlightMpdu` for an MPDU whose lifetime is over. The walk goes on behind
the MPDU before it, if there was one: `prevIt`, which must not have been erased. -/
def expireMpdu (w : Walk) (mpdu : WifiMpdu) (rest : List WifiMpdu) : Except Fault Walk := do
  let inFlight := w.handled ++ mpdu :: rest
  let s ← notifyDiscardedMpdu w.queue { txWindow := w.txWindow, inFlight } mpdu
  let erased := inFlight.length - s.inFlight.length
  let w := { w with queue := w.queue.dequeue mpdu, txWindow := s.txWindow }
  if w.handled.isEmpty then pure { w with pending := s.inFlight }
  else if erased < w.handled.length then
    pure { w with handled := w.handled.drop erased, pending := mpdu :: rest }
  else .error .badIterator

/-- `HandleInFlightMpdu` of the MPDU at the iterator, which stays or is to be retransmitted. -/
def handleInFlightMpdu (w : Walk) (mpdu : WifiMpdu) (rest : List WifiMpdu) (status : MpduStatus) :
    Except Fault Walk := do
  if !w.queue.isQueued mpdu then pure { w with pending := rest }
  else
    let distance ← getDistance mpdu.sequenceNumber w.txWindow.getWinStart
    if distance ≥ SEQNO_SPACE_HALF_SIZE then
      pure { w with queue := w.queue.dequeue mpdu, pending := rest }
    else if w.queue.expired mpdu then expireMpdu w mpdu rest
    else
      match status with
      | .stayInflight => pure { w with handled := w.handled ++ [mpdu], pending := rest }
      | .toRetransmit => pure { w with pending := rest }

/-- A loop over the MPDUs in flight that handles each of them; `statusOf` looks at the links.
An MPDU is met again only after it has left the EDCA queue. -/
def handleLoop (statusOf : List Nat → MpduStatus) : Nat → Walk → Except Fault OriginatorState
  | 0, w =>
    match w.pending with
    | [] => pure { txWindow := w.txWindow, inFlight := w.handled }
    | _ :: _ => .error .noProgress
  | fuel + 1, w =>
    match w.pending with
    | [] => pure { txWindow := w.txWindow, inFlight := w.handled }
    | mpdu :: rest => do
        let w ← handleInFlightMpdu w mpdu rest (statusOf (w.queue.inFlightLinkIds mpdu))
        handleLoop statusOf fuel w

def handleAll (statusOf : List Nat → MpduStatus) (q : EdcaQueue) (s : OriginatorState) :
    Except Fault OriginatorState :=
  handleLoop statusOf (2 * s.inFlight.length)
    { queue := q, txWindow := s.txWindow, handled := [], pending := s.inFlight }

/-- The first loop of `NotifyGotBlockAck`: MPDUs that the block ack reports are acknowledged
and erased. -/
def ackLoop (isPacketReceived : Nat → Bool) (txWindow : BlockAckWindow) :
    List WifiMpdu → Except Fault OriginatorState
  | [] => pure { txWindow, inFlight := [] }
  | m :: rest => do
      if isPacketReceived m.sequenceNumber then
        let txWindow ← notifyAckedMpdu txWindow m
        ackLoop isPacketReceived txWindow rest
      else
        let s ← ackLoop isPacketReceived txWindow rest
        pure { s with inFlight := m :: s.inFlight }

/-- The status that `NotifyGotBlockAck` gives: a transmission failed if the MPDU is in flight
on the link of the block ack only. -/
def gotStatus (linkId : Nat) (linkIds : List Nat) : MpduStatus :=
  if linkIds = [linkId] then .toRetransmit else .stayInflight

def notifyGotBlockAck (linkId : Nat) (isPacketReceived : Nat → Bool) (q : EdcaQueue)
    (s : OriginatorState) : Except Fault OriginatorState := do
  let s ← ackLoop isPacketReceived s.txWindow s.inFlight
  handleAll (gotStatus linkId) q s

/-- The status that `NotifyMissedBlockAck` gives. -/
def missedStatus (linkId : Nat) (linkIds : List Nat) : MpduStatus :=
  if linkIds.contains linkId then .toRetransmit else .stayInflight

def notifyMissedBlockAck (linkId : Nat) (q : EdcaQueue) (s : OriginatorState) :
    Except Fault OriginatorState :=
  handleAll (missedStatus linkId) q s

/-! ## Runs -/

/-- A call of the manager, with what the EDCA queue says at the time. -/
inductive Call where
  | storePacket (mpdu : WifiMpdu)
  | notifyGotAck (mpdu : WifiMpdu)
  | notifyGotBlockAck (linkId : Nat) (isPacketReceived : Nat → Bool) (q : EdcaQueue)
  | notifyMissedBlockAck (linkId : Nat) (q : EdcaQueue)
  | notifyDiscardedMpdu (mpdu : WifiMpdu) (q : EdcaQueue)

def exec (s : OriginatorState) : Call → Except Fault OriginatorState
  | .storePacket mpdu => storePacket s mpdu
  | .notifyGotAck mpdu => notifyGotAck s mpdu
  | .notifyGotBlockAck linkId isPacketReceived q => notifyGotBlockAck linkId isPacketReceived q s
  | .notifyMissedBlockAck linkId q => notifyMissedBlockAck linkId q s
  | .notifyDiscardedMpdu mpdu q => notifyDiscardedMpdu q s mpdu

def execAll (s : OriginatorState) (calls : List Call) : Except Fault OriginatorState :=
  calls.foldlM exec s

end BlockAckManager

/-! ## Leading bits -/

/-- How many bits are set before the first clear one. -/
def leading (bits : List Bool) : Nat := (bits.takeWhile id).length

theorem leading_cons_true (bits : List Bool) : leading (true :: bits) = leading bits + 1 := rfl

theorem leading_cons_false (bits : List Bool) : leading (false :: bits) = 0 := rfl

theorem leading_le (bits : List Bool) : leading bits ≤ bits.length :=
  (List.takeWhile_sublist id).length_le

theorem leading_append_replicate (bits : List Bool) (n : Nat) :
    leading (bits ++ List.replicate n false) = leading bits := by
  induction bits with
  | nil =>
    cases n with
    | zero => rfl
    | succ n => rfl
  | cons b bits ih =>
    cases b with
    | false => rfl
    | true => rw [List.cons_append, leading_cons_true, leading_cons_true, ih]

theorem getD_of_lt_leading {bits : List Bool} {j : Nat} (h : j < leading bits) :
    bits.getD j false = true := by
  induction bits generalizing j with
  | nil => cases h
  | cons b bits ih =>
    cases b with
    | false => cases h
    | true =>
      cases j with
      | zero => rfl
      | succ j => exact ih (Nat.lt_of_succ_lt_succ h)

namespace OriginatorBlockAckAgreement

open BlockAckWindow

variable {w : BlockAckWindow} {ref move size : Nat} {m : WifiMpdu}

/-! ## AdvanceTxWindow -/

theorem advanceTxWindowLoop_of {fuel : Nat} (hw : w.WellFormed) (hpos : 0 < w.getWinSize)
    (hfuel : leading w.bits ≤ fuel) :
    ∃ w', advanceTxWindowLoop fuel w = .ok w' ∧ w'.WellFormed ∧ w'.getWinSize = w.getWinSize ∧
      w'.winStart = (w.winStart + leading w.bits) % SEQNO_SPACE_SIZE ∧
      ∀ j, w'.bits.getD j false = w.bits.getD (j + leading w.bits) false := by
  induction fuel generalizing w with
  | zero =>
    have hnone : leading w.bits = 0 := Nat.le_zero.mp hfuel
    have hclear : w.bits.getD 0 false = false := by
      cases hbits : w.bits with
      | nil => rfl
      | cons b bits =>
        cases b with
        | false => rfl
        | true =>
          rw [hbits, leading_cons_true] at hnone
          exact absurd hnone (Nat.succ_ne_zero _)
    refine ⟨w, ?_, hw, rfl, ?_, ?_⟩
    · rw [advanceTxWindowLoop, at_of hpos, hclear]
      rfl
    · rw [hnone, Nat.add_zero, Nat.mod_eq_of_lt hw.winStart_lt]
    · intro j
      rw [hnone, Nat.add_zero]
  | succ fuel ih =>
    rw [advanceTxWindowLoop, at_of hpos, ok_bind]
    cases hbits : w.bits with
    | nil =>
      have hlen : w.bits.length = 0 := by rw [hbits]; rfl
      rw [length_bits] at hlen
      omega
    | cons b bits =>
      cases b with
      | false =>
        refine ⟨w, rfl, hw, rfl, ?_, ?_⟩
        · rw [leading_cons_false, Nat.add_zero, Nat.mod_eq_of_lt hw.winStart_lt]
        · intro j
          rw [leading_cons_false, Nat.add_zero, hbits]
      | true =>
        obtain ⟨hwa, hsize, hview⟩ := advance_of hw 1
        have hlead : leading (w.advance 1).bits = leading bits := by
          rw [hview, hbits]
          exact leading_append_replicate bits _
        rw [hbits, leading_cons_true] at hfuel
        obtain ⟨w', hloop, hw', hsize', hstart', hbits'⟩ :=
          ih hwa (by rw [hsize]; exact hpos) (by rw [hlead]; omega)
        refine ⟨w', ?_, hw', hsize'.trans hsize, ?_, ?_⟩
        · rw [List.getD_cons_zero, if_pos rfl]
          exact hloop
        · rw [hstart', hlead, winStart_advance, leading_cons_true, Nat.mod_add_mod]
          congr 1
          omega
        · intro j
          rw [hbits', hlead, getD_bits_advance hw, hbits, leading_cons_true, Nat.add_assoc]

theorem advanceTxWindow_of (hw : w.WellFormed) (hpos : 0 < w.getWinSize) :
    ∃ w', advanceTxWindow w = .ok w' ∧ w'.WellFormed ∧ w'.getWinSize = w.getWinSize ∧
      w'.winStart = (w.winStart + leading w.bits) % SEQNO_SPACE_SIZE ∧
      ∀ j, w'.bits.getD j false = w.bits.getD (j + leading w.bits) false := by
  refine advanceTxWindowLoop_of hw hpos ?_
  rw [← length_bits]
  exact leading_le w.bits

/-! ## A window that slides -/

/-- The window has slid `move` numbers on from `ref`. -/
structure Slides (ref move size : Nat) (w : BlockAckWindow) : Prop where
  wellFormed : w.WellFormed
  winSize : w.getWinSize = size
  size_pos : 0 < size
  size_le : size ≤ 1024
  ref_lt : ref < SEQNO_SPACE_SIZE
  winStart : w.winStart = (ref + move) % SEQNO_SPACE_SIZE
  move_le : move ≤ size
  /-- no bit is set for a number that entered on the way -/
  marks : ∀ j, w.bits.getD j false = true → j + move < size

theorem Slides.start (hw : w.WellFormed) (hsize : w.getWinSize = size) (hpos : 0 < size)
    (hle : size ≤ 1024) : Slides w.winStart 0 size w where
  wellFormed := hw
  winSize := hsize
  size_pos := hpos
  size_le := hle
  ref_lt := hw.winStart_lt
  winStart := by rw [Nat.add_zero, Nat.mod_eq_of_lt hw.winStart_lt]
  move_le := Nat.zero_le _
  marks := by
    intro j hj
    rw [Nat.add_zero]
    by_contra hout
    have hnone : w.bits[j]? = none := by
      apply List.getElem?_eq_none
      rw [length_bits, hsize]
      exact Nat.le_of_not_lt hout
    rw [List.getD_eq_getElem?_getD, hnone] at hj
    cases hj

section

variable (h : Slides ref move size w)

include h

section

variable (hseq : m.sequenceNumber < SEQNO_SPACE_SIZE)

include hseq

theorem Slides.distance_ahead (hge : move ≤ seqDistance m.sequenceNumber ref) :
    seqDistance m.sequenceNumber w.winStart = seqDistance m.sequenceNumber ref - move := by
  rw [h.winStart]
  exact seqDistance_advance hseq h.ref_lt hge

theorem Slides.distance_passed (hlt : seqDistance m.sequenceNumber ref < move) :
    seqDistance m.sequenceNumber w.winStart ≥ SEQNO_SPACE_HALF_SIZE := by
  have hmove := h.move_le
  have hsize := h.size_le
  rw [h.winStart, seqDistance_passed hseq h.ref_lt hlt (by simp only [SEQNO_SPACE_SIZE]; omega)]
  simp only [SEQNO_SPACE_HALF_SIZE, SEQNO_SPACE_SIZE]
  omega

theorem Slides.old_iff (hin : seqDistance m.sequenceNumber ref < size) :
    seqDistance m.sequenceNumber w.winStart ≥ SEQNO_SPACE_HALF_SIZE ↔
      seqDistance m.sequenceNumber ref < move := by
  constructor
  · intro hold
    by_contra hge
    have hsize := h.size_le
    rw [h.distance_ahead hseq (Nat.le_of_not_lt hge)] at hold
    simp only [SEQNO_SPACE_HALF_SIZE, SEQNO_SPACE_SIZE] at hold
    omega
  · exact h.distance_passed hseq

end

theorem Slides.leading_le : move + leading w.bits ≤ size := by
  cases hlead : leading w.bits with
  | zero => exact h.move_le
  | succ n =>
    have hmark := h.marks n (getD_of_lt_leading (by rw [hlead]; exact Nat.lt_succ_self n))
    omega

theorem Slides.advanceTxWindow :
    ∃ w', advanceTxWindow w = .ok w' ∧ Slides ref (move + leading w.bits) size w' := by
  have hpos := h.size_pos
  rw [← h.winSize] at hpos
  obtain ⟨w', hadvance, hw', hsize', hstart', hbits'⟩ := advanceTxWindow_of h.wellFormed hpos
  refine ⟨w', hadvance, hw', hsize'.trans h.winSize, h.size_pos, h.size_le, h.ref_lt, ?_,
    h.leading_le, ?_⟩
  · rw [hstart', h.winStart, Nat.mod_add_mod, Nat.add_assoc]
  · intro j hj
    rw [hbits'] at hj
    have hmark := h.marks _ hj
    omega

/-- An acknowledged MPDU moves the start over the leading marks. -/
theorem Slides.acked (hseq : m.sequenceNumber < SEQNO_SPACE_SIZE)
    (hge : move ≤ seqDistance m.sequenceNumber ref)
    (hin : seqDistance m.sequenceNumber ref < size) :
    ∃ w', notifyAckedMpdu w m = .ok w' ∧ Slides ref
      (move + leading (w.bits.set (seqDistance m.sequenceNumber ref - move) true)) size w' := by
  have hdist := h.distance_ahead hseq hge
  have hsize := h.size_le
  have hwin : seqDistance m.sequenceNumber ref - move < w.getWinSize := by
    rw [h.winSize]
    omega
  obtain ⟨w₁, hset, hw₁, hstart₁, hsize₁, hbits₁⟩ := setAt_of h.wellFormed hwin
  have hslides : Slides ref move size w₁ := by
    refine ⟨hw₁, hsize₁.trans h.winSize, h.size_pos, h.size_le, h.ref_lt, hstart₁.trans h.winStart,
      h.move_le, fun j hj => ?_⟩
    rw [hbits₁, List.getD_eq_getElem?_getD, List.getElem?_set] at hj
    split at hj
    · omega
    · rw [← List.getD_eq_getElem?_getD] at hj
      exact h.marks j hj
  obtain ⟨w', hadvance, hw'⟩ := hslides.advanceTxWindow
  rw [hbits₁] at hw'
  refine ⟨w', ?_, hw'⟩
  rw [notifyAckedMpdu, getWinStart, getDistance_of hseq h.wellFormed.winStart_lt, ok_bind, hdist,
    if_neg (by simp only [SEQNO_SPACE_HALF_SIZE, SEQNO_SPACE_SIZE]; omega), hset, ok_bind]
  exact hadvance

end

theorem notifyAckedMpdu_old (hw : w.WellFormed) (hseq : m.sequenceNumber < SEQNO_SPACE_SIZE)
    (hold : seqDistance m.sequenceNumber w.winStart ≥ SEQNO_SPACE_HALF_SIZE) :
    notifyAckedMpdu w m = .ok w := by
  rw [notifyAckedMpdu, getWinStart, getDistance_of hseq hw.winStart_lt, ok_bind, if_pos hold]
  rfl

theorem Slides.discarded (h : Slides ref move size w) (hseq : m.sequenceNumber < SEQNO_SPACE_SIZE)
    (hge : move ≤ seqDistance m.sequenceNumber ref)
    (hin : seqDistance m.sequenceNumber ref < size) :
    ∃ w' move', OriginatorBlockAckAgreement.notifyDiscardedMpdu w m = .ok w' ∧
      Slides ref move' size w' ∧ seqDistance m.sequenceNumber ref < move' := by
  have hdist := h.distance_ahead hseq hge
  have hsize := h.size_le
  let count := seqDistance m.sequenceNumber ref - move + 1
  obtain ⟨hwa, hsizea, _⟩ := advance_of h.wellFormed count
  have hslides : Slides ref (move + count) size (w.advance count) := by
    refine ⟨hwa, hsizea.trans h.winSize, h.size_pos, h.size_le, h.ref_lt, ?_, ?_, fun j hj => ?_⟩
    · rw [winStart_advance, h.winStart, Nat.mod_add_mod, Nat.add_assoc]
    · dsimp only [count]
      omega
    · rw [getD_bits_advance h.wellFormed] at hj
      have hmark := h.marks _ hj
      omega
  obtain ⟨w', hadvance, hw'⟩ := hslides.advanceTxWindow
  refine ⟨w', _, ?_, hw', ?_⟩
  · rw [OriginatorBlockAckAgreement.notifyDiscardedMpdu, getWinStart,
      getDistance_of hseq h.wellFormed.winStart_lt, ok_bind, hdist,
      if_neg (by simp only [SEQNO_SPACE_HALF_SIZE, SEQNO_SPACE_SIZE]; omega)]
    exact hadvance
  · dsimp only [count]
    omega

end OriginatorBlockAckAgreement

end Ns3
