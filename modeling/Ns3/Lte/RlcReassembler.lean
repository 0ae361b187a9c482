/-
  Reassembly of RLC SDUs (ReassembleAndDeliver of
  src/lte/model/lte-rlc-um.cc and src/lte/model/lte-rlc-am.cc).

  A PDU is split into the elements of its data field.  A table over the reassembling state
  and the framing info says which of them are delivered, joined to the kept segment, kept or
  discarded.  The two modes differ in one row of it.
-/
import Ns3.Lib.Segmentation
import Ns3.Lte.RlcHeader

namespace Ns3

namespace Lte

open Lib

inductive ReassemblingState where
  | waitingS0Full
  | waitingSiSf
  deriving DecidableEq, Repr

/-- What reassembly works on, the packets passed to `ReceivePdcpPdu`, and how often it has
met an internal error. -/
structure Reassembler (α : Type) where
  reassemblingState : ReassemblingState
  keepS0 : Option (List α)
  sdusBuffer : List (List α)
  expectedSeqNumber : SequenceNumber10
  delivered : List (List α)
  internalErrors : Nat
  deriving DecidableEq, Repr

variable {α : Type}

namespace Reassembler

/-- The constructor. -/
def new : Reassembler α :=
  { reassemblingState := .waitingS0Full
    keepS0 := none
    sdusBuffer := []
    expectedSeqNumber := .ofValue 0
    delivered := []
    internalErrors := 0 }

def expect (r : Reassembler α) (currSeqNumber : SequenceNumber10) : Reassembler α × Bool :=
  if currSeqNumber.value ≠ r.expectedSeqNumber.value then
    ({ r with expectedSeqNumber := currSeqNumber.add 1 }, true)
  else ({ r with expectedSeqNumber := r.expectedSeqNumber.add 1 }, false)

def internalError (r : Reassembler α) : Reassembler α :=
  { r with internalErrors := r.internalErrors + 1 }

/-- `CreateFragment(0, length)`, which is empty when the packet is shorter. -/
def fragment (packet : List α) (length : Nat) : List α :=
  if length ≤ packet.length then packet.take length else []

def splitPacket : List Nat → List Nat → List α → Reassembler α → Except Fault (Reassembler α)
  | [], _, _, _ => .error .badIterator
  | extensionBit :: extensionBits, lengthIndicators, packet, r =>
    if extensionBit = 0 then .ok { r with sdusBuffer := r.sdusBuffer ++ [packet] }
    else
      match lengthIndicators with
      | [] => .error .badIterator
      | lengthIndicator :: lengthIndicators =>
        let r := if lengthIndicator ≥ packet.length then r.internalError else r
        let r := { r with sdusBuffer := r.sdusBuffer ++ [fragment packet lengthIndicator] }
        if extensionBit = 1 then
          splitPacket extensionBits lengthIndicators (packet.drop lengthIndicator) r
        else .ok r

def deliverAll (r : Reassembler α) : Reassembler α :=
  { r with delivered := r.delivered ++ r.sdusBuffer, sdusBuffer := [] }

/-- The list is delivered but for its last element. -/
def keepLoop : List (List α) → Reassembler α → Except Fault (Reassembler α)
  | [], _ => .error .badIterator
  | [s0], r => .ok { r with keepS0 := some s0, sdusBuffer := [] }
  | sdu :: s0 :: sdus, r => keepLoop (s0 :: sdus) { r with delivered := r.delivered ++ [sdu] }

/-- Full SDUs are delivered and S0 is kept. -/
def deliverAndKeep (r : Reassembler α) : Except Fault (Reassembler α) := keepLoop r.sdusBuffer r

def discardFront (r : Reassembler α) : Reassembler α :=
  { r with sdusBuffer := r.sdusBuffer.tail }

/-- The first element is added to the kept segment. -/
def joinFront (r : Reassembler α) : Except Fault (Reassembler α) :=
  match r.keepS0, r.sdusBuffer with
  | none, _ => .error .nullDereference
  | some _, [] => .error .badIterator
  | some keepS0, si :: sdus => .ok { r with keepS0 := some (keepS0 ++ si), sdusBuffer := sdus }

def deliverKept (r : Reassembler α) : Reassembler α :=
  { r with delivered := r.delivered ++ r.keepS0.toList }

def enter (r : Reassembler α) (state : ReassemblingState) : Reassembler α :=
  { r with reassemblingState := state }

open LteRlcHeader in
/-- The row of `WAITING_S0_FULL`, when the PDU before was lost or it makes no difference. -/
def waitingS0Full (r : Reassembler α) (framingInfo : Nat) : Except Fault (Reassembler α) :=
  if framingInfo = FIRST_BYTE ||| LAST_BYTE then .ok (r.enter .waitingS0Full).deliverAll
  else if framingInfo = FIRST_BYTE ||| NO_LAST_BYTE then (r.enter .waitingSiSf).deliverAndKeep
  else if framingInfo = NO_FIRST_BYTE ||| LAST_BYTE then
    .ok (r.enter .waitingS0Full).discardFront.deliverAll
  else if framingInfo = NO_FIRST_BYTE ||| NO_LAST_BYTE then
    if r.sdusBuffer.length = 1 then .ok (r.enter .waitingS0Full).discardFront
    else (r.enter .waitingSiSf).discardFront.deliverAndKeep
  else .ok r.internalError

open LteRlcHeader in
/-- The row of `WAITING_SI_SF` without losses. -/
def waitingSiSf (r : Reassembler α) (framingInfo : Nat) : Except Fault (Reassembler α) :=
  if framingInfo = NO_FIRST_BYTE ||| LAST_BYTE then do
    let r ← (r.enter .waitingS0Full).joinFront
    pure r.deliverKept.deliverAll
  else if framingInfo = NO_FIRST_BYTE ||| NO_LAST_BYTE then
    if r.sdusBuffer.length = 1 then (r.enter .waitingSiSf).joinFront
    else do
      let r ← (r.enter .waitingSiSf).joinFront
      r.deliverKept.deliverAndKeep
  else .ok r.internalError

open LteRlcHeader in
/-- The table with losses: a kept segment is discarded. -/
def reassembleLosses (r : Reassembler α) (framingInfo : Nat) : Except Fault (Reassembler α) :=
  match r.reassemblingState with
  | .waitingS0Full => r.waitingS0Full framingInfo
  | .waitingSiSf =>
    if framingInfo ≤ NO_FIRST_BYTE ||| NO_LAST_BYTE then
      { r with keepS0 := none }.waitingS0Full framingInfo
    else .ok r.internalError

/-! ## Frames -/

def framing (first last : Bool) : Nat :=
  (if first then LteRlcHeader.FIRST_BYTE else LteRlcHeader.NO_FIRST_BYTE) |||
    (if last then LteRlcHeader.LAST_BYTE else LteRlcHeader.NO_LAST_BYTE)

/-- The reassembler has collected what `st` says. -/
structure Holds (r : Reassembler α) (st : Collected α) : Prop where
  empty : r.sdusBuffer = []
  delivered : r.delivered = st.items
  state : r.reassemblingState = if st.part.isSome then .waitingSiSf else .waitingS0Full
  keep : ∀ p, st.part = some p → r.keepS0 = some p

theorem splitPacket_frame (init : List (List α)) (last : List α) (hlast : last ≠ [])
    (r : Reassembler α) :
    splitPacket ((init.map fun _ => LteRlcHeader.E_LI_FIELDS_FOLLOWS) ++
        [LteRlcHeader.DATA_FIELD_FOLLOWS]) (init.map List.length) (init.flatten ++ last) r =
      .ok { r with sdusBuffer := r.sdusBuffer ++ (init ++ [last]) } := by
  induction init generalizing r with
  | nil => exact if_pos rfl
  | cons s init ih =>
    have hlen : 0 < last.length := List.length_pos_iff.mpr hlast
    have htake : fragment (s ++ (init.flatten ++ last)) s.length = s := by
      rw [fragment, if_pos (by simp), List.take_left]
    have hrest : ¬s.length ≥ (s ++ (init.flatten ++ last)).length := by
      simp only [List.length_append]
      omega
    rw [List.map_cons, List.map_cons, List.cons_append, List.flatten_cons, List.append_assoc,
      splitPacket, if_neg (by decide)]
    dsimp only
    rw [if_neg hrest, if_pos (show LteRlcHeader.E_LI_FIELDS_FOLLOWS = 1 from rfl), htake,
      List.drop_left, ih]
    simp

theorem deliverAndKeep_concat (r : Reassembler α) (init : List (List α)) (s0 : List α)
    (h : r.sdusBuffer = init ++ [s0]) : r.deliverAndKeep = .ok
      { r with delivered := r.delivered ++ init, keepS0 := some s0, sdusBuffer := [] } := by
  rw [deliverAndKeep, h]
  clear h
  induction init generalizing r with
  | nil => simp [keepLoop]
  | cons s init ih =>
    cases init with
    | nil => simp [keepLoop]
    | cons s' init =>
      have := ih { r with delivered := r.delivered ++ [s] }
      simpa [keepLoop] using this

section Rows

variable {r : Reassembler α} {s z : Segment α} {mid : List (Segment α)} {st : Collected α}

theorem foldl_more (hs : s.last = true) (hmid : ∀ m ∈ mid, m.first = true ∧ m.last = true)
    (hz : z.first = true) (st : Collected α) : (s :: (mid ++ [z])).foldl .segment st =
      if z.last then ⟨none, (st.segment s).items ++ mid.map Segment.data ++ [z.data]⟩
      else ⟨some z.data, (st.segment s).items ++ mid.map Segment.data⟩ := by
  have hpart : st.segment s = ⟨none, (st.segment s).items⟩ := by
    rw [Collected.segment, hs]
    rfl
  rw [List.foldl_cons, List.foldl_append, hpart, Collected.foldl_whole hmid, List.foldl_cons,
    List.foldl_nil, Collected.segment, hz]
  cases z.last <;> rfl

def Row (r : Reassembler α) (result : Except Fault (Reassembler α)) (st : Collected α) : Prop :=
  ∃ r', result = .ok r' ∧ r'.Holds st ∧ r'.expectedSeqNumber = r.expectedSeqNumber ∧
    r'.internalErrors = r.internalErrors

theorem waitingS0Full_complete (r : Reassembler α) : r.waitingS0Full (framing true true) =
    .ok (r.enter .waitingS0Full).deliverAll := rfl

theorem waitingS0Full_kept (r : Reassembler α) : r.waitingS0Full (framing true false) =
    (r.enter .waitingSiSf).deliverAndKeep := rfl

theorem waitingS0Full_discarded (r : Reassembler α) : r.waitingS0Full (framing false true) =
    .ok (r.enter .waitingS0Full).discardFront.deliverAll := rfl

theorem waitingS0Full_between (r : Reassembler α) : r.waitingS0Full (framing false false) =
    if r.sdusBuffer.length = 1 then .ok (r.enter .waitingS0Full).discardFront
    else (r.enter .waitingSiSf).discardFront.deliverAndKeep := rfl

theorem waitingS0Full_one (hbuffer : r.sdusBuffer = [s.data]) :
    r.Row (r.waitingS0Full (framing s.first s.last))
      (Collected.segment ⟨none, r.delivered⟩ s) := by
  obtain ⟨item, first, last, data⟩ := s
  cases first with
  | true =>
    cases last with
    | true =>
      refine ⟨_, r.waitingS0Full_complete, ⟨rfl, ?_, rfl, nofun⟩, rfl, rfl⟩
      show r.delivered ++ r.sdusBuffer = _
      rw [hbuffer]
      rfl
    | false =>
      refine ⟨_, r.waitingS0Full_kept.trans (deliverAndKeep_concat _ [] data hbuffer),
        ⟨rfl, ?_, rfl, fun p hp => hp⟩, rfl, rfl⟩
      exact List.append_nil _
  | false =>
    cases last with
    | true =>
      refine ⟨_, r.waitingS0Full_discarded, ⟨rfl, ?_, rfl, nofun⟩, rfl, rfl⟩
      show r.delivered ++ r.sdusBuffer.tail = _
      rw [hbuffer]
      rfl
    | false =>
      refine ⟨_, r.waitingS0Full_between.trans (if_pos (by rw [hbuffer]; rfl)),
        ⟨?_, rfl, rfl, nofun⟩, rfl, rfl⟩
      show r.sdusBuffer.tail = []
      rw [hbuffer]
      rfl

theorem waitingS0Full_more (hs : s.last = true) (hmid : ∀ m ∈ mid, m.first = true ∧ m.last = true)
    (hz : z.first = true)
    (hbuffer : r.sdusBuffer = s.data :: (mid.map Segment.data ++ [z.data])) :
    r.Row (r.waitingS0Full (framing s.first z.last))
      ((s :: (mid ++ [z])).foldl .segment ⟨none, r.delivered⟩) := by
  rw [foldl_more hs hmid hz]
  obtain ⟨item, first, last, data⟩ := s
  obtain rfl : last = true := hs
  cases first with
  | true =>
    cases hzlast : z.last with
    | true =>
      refine ⟨_, r.waitingS0Full_complete, ⟨rfl, ?_, rfl, nofun⟩, rfl, rfl⟩
      show r.delivered ++ r.sdusBuffer = r.delivered ++ [data] ++ mid.map Segment.data ++ [z.data]
      rw [hbuffer]
      simp
    | false =>
      refine ⟨_, r.waitingS0Full_kept.trans
        (deliverAndKeep_concat _ (data :: mid.map Segment.data) z.data hbuffer),
        ⟨rfl, ?_, rfl, fun p hp => hp⟩, rfl, rfl⟩
      show r.delivered ++ data :: mid.map Segment.data =
        r.delivered ++ [data] ++ mid.map Segment.data
      simp
  | false =>
    cases hzlast : z.last with
    | true =>
      refine ⟨_, r.waitingS0Full_discarded, ⟨rfl, ?_, rfl, nofun⟩, rfl, rfl⟩
      show r.delivered ++ r.sdusBuffer.tail = r.delivered ++ [] ++ mid.map Segment.data ++ [z.data]
      rw [hbuffer]
      simp
    | false =>
      have hlen : r.sdusBuffer.length ≠ 1 := by
        rw [hbuffer]
        simp
      have htail : (r.enter .waitingSiSf).discardFront.sdusBuffer =
          mid.map Segment.data ++ [z.data] := by
        show r.sdusBuffer.tail = _
        rw [hbuffer]
        rfl
      refine ⟨_, (r.waitingS0Full_between.trans (if_neg hlen)).trans
        (deliverAndKeep_concat _ _ z.data htail), ⟨rfl, ?_, rfl, fun p hp => hp⟩, rfl, rfl⟩
      show r.delivered ++ mid.map Segment.data = r.delivered ++ [] ++ mid.map Segment.data
      simp

variable {segs : List (Segment α)} {first last : Bool}

theorem waitingS0Full_spec (hframe : Frame segs first last)
    (hbuffer : r.sdusBuffer = segs.map Segment.data) :
    r.Row (r.waitingS0Full (framing first last)) (segs.foldl .segment ⟨none, r.delivered⟩) := by
  cases hframe with
  | one s => exact waitingS0Full_one hbuffer
  | more s mid z hs hmid hz =>
    refine waitingS0Full_more hs hmid hz (hbuffer.trans ?_)
    rw [List.map_cons, List.map_append]
    rfl

section Joined

variable {p si : List α} {sdus : List (List α)}

section

variable (hkeep : r.keepS0 = some p)

include hkeep

theorem joinFront_cons (hbuffer : r.sdusBuffer = si :: sdus) :
    r.joinFront = .ok { r with keepS0 := some (p ++ si), sdusBuffer := sdus } := by
  rw [joinFront, hkeep, hbuffer]

theorem waitingSiSf_last (hbuffer : r.sdusBuffer = si :: sdus) :
    r.waitingSiSf (framing false true) = .ok
      { r with
        reassemblingState := .waitingS0Full
        keepS0 := some (p ++ si)
        sdusBuffer := []
        delivered := r.delivered ++ [p ++ si] ++ sdus } := by
  have hjoin := joinFront_cons (r := r.enter .waitingS0Full) hkeep hbuffer
  have hrow : r.waitingSiSf (framing false true) =
      ((r.enter .waitingS0Full).joinFront >>= fun r => pure r.deliverKept.deliverAll) := rfl
  rw [hrow, hjoin, ok_bind]
  rfl

theorem waitingSiSf_one (hbuffer : r.sdusBuffer = [si]) :
    r.waitingSiSf (framing false false) = .ok
      { r with reassemblingState := .waitingSiSf, keepS0 := some (p ++ si), sdusBuffer := [] } := by
  have hlen : r.sdusBuffer.length = 1 := by rw [hbuffer]; rfl
  have hrow : r.waitingSiSf (framing false false) = (r.enter .waitingSiSf).joinFront :=
    if_pos hlen
  rw [hrow]
  exact joinFront_cons hkeep hbuffer

theorem waitingSiSf_more {s0 : List α} (hbuffer : r.sdusBuffer = si :: (sdus ++ [s0])) :
    r.waitingSiSf (framing false false) = .ok
      { r with
        reassemblingState := .waitingSiSf
        keepS0 := some s0
        sdusBuffer := []
        delivered := r.delivered ++ [p ++ si] ++ sdus } := by
  have hlen : r.sdusBuffer.length ≠ 1 := by
    rw [hbuffer]
    simp
  have hjoin := joinFront_cons (r := r.enter .waitingSiSf) hkeep hbuffer
  have hrow : r.waitingSiSf (framing false false) =
      ((r.enter .waitingSiSf).joinFront >>= fun r => r.deliverKept.deliverAndKeep) := if_neg hlen
  rw [hrow, hjoin, ok_bind]
  exact deliverAndKeep_concat _ sdus s0 rfl

end

end Joined

theorem waitingSiSf_spec {p : List α} (hframe : Frame segs false last)
    (hbuffer : r.sdusBuffer = segs.map Segment.data) (hkeep : r.keepS0 = some p) :
    r.Row (r.waitingSiSf (framing false last)) (segs.foldl .segment ⟨some p, r.delivered⟩) := by
  generalize hfirst : false = first at hframe
  cases hframe with
  | one s =>
    obtain ⟨item, first, last, data⟩ := s
    obtain rfl : false = first := hfirst
    cases last with
    | true =>
      refine ⟨_, waitingSiSf_last hkeep hbuffer, ⟨rfl, ?_, rfl, nofun⟩, rfl, rfl⟩
      exact List.append_nil _
    | false =>
      exact ⟨_, waitingSiSf_one hkeep hbuffer, ⟨rfl, rfl, rfl, fun q hq => hq⟩, rfl, rfl⟩
  | more s mid z hs hmid hz =>
    rw [foldl_more hs hmid hz]
    obtain ⟨item, first, last, data⟩ := s
    obtain rfl : false = first := hfirst
    obtain rfl : last = true := hs
    have hsplit : r.sdusBuffer = data :: (mid.map Segment.data ++ [z.data]) := by
      rw [hbuffer, List.map_cons, List.map_append]
      rfl
    cases hzlast : z.last with
    | true =>
      refine ⟨_, waitingSiSf_last hkeep hsplit, ⟨rfl, ?_, rfl, nofun⟩, rfl, rfl⟩
      exact (List.append_assoc ..).symm
    | false =>
      exact ⟨_, waitingSiSf_more hkeep hsplit, ⟨rfl, rfl, rfl, fun q hq => hq⟩, rfl, rfl⟩

theorem reassembleLosses_spec (hframe : Frame segs first last)
    (hbuffer : r.sdusBuffer = segs.map Segment.data) :
    r.Row (r.reassembleLosses (framing first last)) (segs.foldl .segment ⟨none, r.delivered⟩) := by
  rw [reassembleLosses]
  cases r.reassemblingState with
  | waitingS0Full => exact waitingS0Full_spec hframe hbuffer
  | waitingSiSf =>
    have hle : framing first last ≤
        LteRlcHeader.NO_FIRST_BYTE ||| LteRlcHeader.NO_LAST_BYTE := by
      cases first <;> cases last <;> decide
    dsimp only
    rw [if_pos hle]
    exact waitingS0Full_spec
      (r := { r with reassemblingState := .waitingSiSf, keepS0 := none }) hframe hbuffer

end Rows

end Reassembler

end Lte

end Ns3
