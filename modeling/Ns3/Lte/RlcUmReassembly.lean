/-
  Unacknowledged mode delivers the SDUs that arrive as a whole.

  The sending side cuts the accepted SDUs into one stream of segments.  The receiving side
  collects the segments of the PDUs that it gets, and a gap makes it forget the SDU it has a
  part of.
-/
import Ns3.Lte.RlcUmTransmission

namespace Ns3

namespace Lte

open Lib

namespace LteRlcUm

variable {α : Type}

/-! ## One PDU -/

/-- The PDU has the segments in it. -/
structure Carries (pdu : RlcPdu α) (init : List (SduPacket α)) (last : SduPacket α) (first : Bool) :
    Prop where
  bits : pdu.header.extensionBits =
    (init.map fun _ => LteRlcHeader.E_LI_FIELDS_FOLLOWS) ++ [LteRlcHeader.DATA_FIELD_FOLLOWS]
  indicators : pdu.header.lengthIndicators = init.map SduPacket.size
  data : pdu.data = (init ++ [last]).flatMap SduPacket.data
  framing : pdu.header.framingInfo = Reassembler.framing first last.status.isLast
  pos : 0 < last.size
  frame : Frame ((init ++ [last]).map SduPacket.segment) first last.status.isLast

variable {r : Reassembler α} {st : Collected α} {pdu : RlcPdu α} {init : List (SduPacket α)}
  {last : SduPacket α} {first : Bool}

/-- What is known after `ReassembleAndDeliver`. -/
def Reassembles (r : Reassembler α) (pdu : RlcPdu α) (expected : SequenceNumber10)
    (st : Collected α) : Prop :=
  ∃ r', reassembleAndDeliver r pdu = .ok r' ∧ r'.Holds st ∧ r'.expectedSeqNumber = expected

theorem Carries.split (h : Carries pdu init last first) (hempty : r.sdusBuffer = []) :
    Reassembler.splitPacket pdu.header.extensionBits pdu.header.lengthIndicators pdu.data r =
      .ok { r with
        sdusBuffer := ((init ++ [last]).map SduPacket.segment).map Segment.data } := by
  have hsplit := Reassembler.splitPacket_frame (init.map SduPacket.data) last.data
    (List.length_pos_iff.mp h.pos) r
  rw [List.map_map, List.map_map] at hsplit
  have hdata : pdu.data = (init.map SduPacket.data).flatten ++ last.data := by
    rw [h.data, List.flatMap_append, List.flatMap_singleton, List.flatMap]
  have hbuffer : ((init ++ [last]).map SduPacket.segment).map Segment.data =
      init.map SduPacket.data ++ [last.data] := by
    rw [List.map_map, List.map_append]
    rfl
  rw [h.bits, h.indicators, hdata, hbuffer]
  refine hsplit.trans ?_
  rw [hempty, List.nil_append]

theorem Carries.after_loss (h : Carries pdu init last first) (hr : r.Holds st)
    (hsn : pdu.header.sequenceNumber.value ≠ r.expectedSeqNumber.value) :
    Reassembles r pdu (pdu.header.sequenceNumber.add 1)
      (((init ++ [last]).map SduPacket.segment).foldl .segment ⟨none, st.items⟩) := by
  have hexpect : r.expect pdu.header.sequenceNumber =
      ({ r with expectedSeqNumber := pdu.header.sequenceNumber.add 1 }, true) := if_pos hsn
  have hsplit := h.split
    (r := { r with expectedSeqNumber := pdu.header.sequenceNumber.add 1 }) hr.empty
  obtain ⟨r', hrow, hholds, hexpected, -⟩ := Reassembler.reassembleLosses_spec
    (r := { r with
      expectedSeqNumber := pdu.header.sequenceNumber.add 1
      sdusBuffer := ((init ++ [last]).map SduPacket.segment).map Segment.data }) h.frame rfl
  refine ⟨r', ?_, hr.delivered ▸ hholds, hexpected⟩
  rw [reassembleAndDeliver, hexpect]
  dsimp only
  rw [hsplit, ok_bind, h.framing, if_pos rfl]
  exact hrow

theorem Carries.in_order (h : Carries pdu init last first) (hr : r.Holds st)
    (hsn : pdu.header.sequenceNumber.value = r.expectedSeqNumber.value)
    (hfirst : st.part.isSome → first = false) :
    Reassembles r pdu (r.expectedSeqNumber.add 1)
      (((init ++ [last]).map SduPacket.segment).foldl .segment st) := by
  have hexpect : r.expect pdu.header.sequenceNumber =
      ({ r with expectedSeqNumber := r.expectedSeqNumber.add 1 }, false) :=
    if_neg (not_not.mpr hsn)
  have hsplit := h.split (r := { r with expectedSeqNumber := r.expectedSeqNumber.add 1 }) hr.empty
  obtain ⟨part, items⟩ := st
  obtain rfl : r.delivered = items := hr.delivered
  cases part with
  | none =>
    have hstate : r.reassemblingState = .waitingS0Full := hr.state
    obtain ⟨r', hrow, hholds, hexpected, -⟩ := Reassembler.waitingS0Full_spec
      (r := { r with
        expectedSeqNumber := r.expectedSeqNumber.add 1
        sdusBuffer := ((init ++ [last]).map SduPacket.segment).map Segment.data }) h.frame rfl
    refine ⟨r', ?_, hholds, hexpected⟩
    rw [reassembleAndDeliver, hexpect]
    dsimp only
    rw [hsplit, ok_bind, h.framing, if_neg Bool.false_ne_true]
    dsimp only
    rw [hstate] at hrow ⊢
    exact hrow
  | some p =>
    obtain rfl : first = false := hfirst rfl
    have hstate : r.reassemblingState = .waitingSiSf := hr.state
    obtain ⟨r', hrow, hholds, hexpected, -⟩ := Reassembler.waitingSiSf_spec
      (r := { r with
        expectedSeqNumber := r.expectedSeqNumber.add 1
        sdusBuffer := ((init ++ [last]).map SduPacket.segment).map Segment.data }) h.frame rfl
      (hr.keep p rfl)
    refine ⟨r', ?_, hholds, hexpected⟩
    rw [reassembleAndDeliver, hexpect]
    dsimp only
    rw [hsplit, ok_bind, h.framing, if_neg Bool.false_ne_true]
    dsimp only
    rw [hstate] at hrow ⊢
    exact hrow

/-! ## The sending side -/

theorem extensionBits_header (field : DataField α) (sn : SequenceNumber10) (framingInfo : Nat) :
    (Transmission.header field sn framingInfo).extensionBits = field.extensionBits := by
  have hpush : ∀ (bits : List Nat) (h : LteRlcHeader),
      (bits.foldl LteRlcHeader.pushExtensionBit h).extensionBits = h.extensionBits ++ bits := by
    intro bits
    induction bits with
    | nil => exact fun h => (List.append_nil _).symm
    | cons bit bits ih =>
      intro h
      rw [List.foldl_cons, ih]
      exact List.append_assoc _ [bit] bits
  have hkeep : ∀ (indicators : List Nat) (h : LteRlcHeader),
      (indicators.foldl LteRlcHeader.pushLengthIndicator h).extensionBits = h.extensionBits := by
    intro indicators
    induction indicators with
    | nil => exact fun _ => rfl
    | cons indicator indicators ih => exact fun h => ih _
  exact (hkeep _ _).trans (hpush _ _)

theorem lengthIndicators_header (field : DataField α) (sn : SequenceNumber10)
    (framingInfo : Nat) :
    (Transmission.header field sn framingInfo).lengthIndicators = field.lengthIndicators := by
  have hkeep : ∀ (bits : List Nat) (h : LteRlcHeader),
      (bits.foldl LteRlcHeader.pushExtensionBit h).lengthIndicators = h.lengthIndicators := by
    intro bits
    induction bits with
    | nil => exact fun _ => rfl
    | cons bit bits ih => exact fun h => ih _
  have hpush : ∀ (indicators : List Nat) (h : LteRlcHeader),
      (indicators.foldl LteRlcHeader.pushLengthIndicator h).lengthIndicators =
        h.lengthIndicators ++ indicators := by
    intro indicators
    induction indicators with
    | nil => exact fun h => (List.append_nil _).symm
    | cons indicator indicators ih =>
      intro h
      rw [List.foldl_cons, ih]
      exact List.append_assoc _ [indicator] indicators
  refine (hpush _ _).trans ?_
  rw [hkeep]
  rfl

theorem carries_of_framed {items : List (List α)} {c c' : Cursor α} {field : DataField α}
    (h : field.Framed init last)
    (hstream : c.Stream items (field.segments.map SduPacket.segment) c') (sn : SequenceNumber10) :
    ∃ framingInfo first, field.framingInfo = .ok framingInfo ∧
      Carries ⟨Transmission.header field sn framingInfo, field.data⟩ init last first := by
  obtain ⟨s, hs⟩ : ∃ s, (init ++ [last]).head? = some s := by
    cases init with
    | nil => exact ⟨_, rfl⟩
    | cons s init => exact ⟨s, rfl⟩
  refine ⟨_, s.status.isFirst, h.framingInfo_eq (h.segments ▸ hs), ?_, ?_, ?_, ?_, h.pos, ?_⟩
  · rw [extensionBits_header]
    exact h.bits
  · rw [lengthIndicators_header]
    exact h.indicators
  · rw [← h.segments]
    rfl
  · show _ % 4 = _
    rw [Reassembler.framing]
    cases s.status.isFirst <;> cases last.status.isLast <;> rfl
  · rw [h.segments, List.map_append] at hstream
    rw [List.map_append]
    refine frame_of_stream hstream (fun s' hs' => ?_) ?_
    · obtain ⟨p, hp, rfl⟩ := List.mem_map.mp hs'
      exact h.whole p hp
    · show ((init.map SduPacket.segment) ++ [last].map SduPacket.segment).head?.map _ = _
      rw [← List.map_append, List.head?_map, hs]
      rfl

def Transmission.segments (tx : Transmission α) : List (Segment α) :=
  tx.sent.flatMap fun q => q.1.segments.map SduPacket.segment

/-- The PDUs sent and the transmission buffer are the stream of the accepted SDUs, cut at `c`. -/
structure SentTo (tx : Transmission α) (c : Cursor α) : Prop where
  stream : Cursor.start.Stream tx.accepted tx.segments c
  queued : Queued tx.accepted c tx.txBuffer.pdus
  carried : ∀ q ∈ tx.sent, ∃ init last first,
    q.1.segments = init ++ [last] ∧ Carries q.2 init last first
  numbered : ∀ i q, tx.sent[i]? = some q → q.2.header.sequenceNumber.value = i % 1024
  next : tx.sequenceNumber.value = tx.sent.length % 1024

variable {tx : Transmission α} {c : Cursor α}

theorem sentTo_new (maxTxBufferSize : Nat) :
    SentTo (Transmission.new maxTxBufferSize : Transmission α) .start :=
  ⟨.nil, ⟨.nil, nofun⟩, nofun, nofun, rfl⟩

theorem SentTo.transmit (h : SentTo tx c) {p : List α} (hp : p ≠ []) :
    SentTo (tx.doTransmitPdcpPdu p) c := by
  rw [Transmission.doTransmitPdcpPdu]
  split
  · refine ⟨h.stream.mono fun _ _ _ hstep => hstep.append _, ⟨?_, ?_⟩, h.carried, h.numbered,
      h.next⟩
    · show c.Stream (tx.accepted ++ [p]) ((tx.txBuffer.pdus ++ [_]).map _) _
      rw [List.map_append]
      exact Cursor.Stream.push h.queued.stream p
    · intro q hq
      rcases List.mem_append.mp hq with hq | hq
      · exact h.queued.rest q hq
      · obtain rfl := List.mem_singleton.mp hq
        exact ⟨rfl, List.length_pos_iff.mpr hp⟩
  · exact h

theorem SentTo.notify (h : SentTo tx c) (bytes : Nat) :
    ∃ tx' c', tx.doNotifyTxOpportunity bytes = .ok tx' ∧ SentTo tx' c' := by
  rw [Transmission.doNotifyTxOpportunity]
  split
  · exact ⟨tx, c, rfl, h⟩
  next hbytes =>
    have hq := h.queued
    split
    · exact ⟨tx, c, rfl, h⟩
    next firstSegment txBuffer hpdus =>
      rw [hpdus] at hq
      have hfilled : Filled tx.accepted c
          (fillDataField txBuffer (wsub 32 tx.txBuffer.size firstSegment.size) firstSegment
            (bytes - 2) 1 .empty).1
          (fillDataField txBuffer (wsub 32 tx.txBuffer.size firstSegment.size) firstSegment
            (bytes - 2) 1 .empty).2 :=
        fillDataField_spec .empty .nil hq (Nat.sub_pos_of_lt (Nat.lt_of_not_le hbytes))
      generalize fillDataField txBuffer (wsub 32 tx.txBuffer.size firstSegment.size) firstSegment
        (bytes - 2) 1 .empty = filled at hfilled ⊢
      obtain ⟨q, field⟩ := filled
      obtain ⟨init, last, c', hframed, hstream, hrest⟩ := hfilled
      obtain ⟨framingInfo, first, hinfo, hcarries⟩ :=
        carries_of_framed hframed hstream tx.sequenceNumber
      dsimp only at hinfo ⊢
      rw [hinfo, ok_bind]
      refine ⟨_, c', rfl, ?_, hrest, ?_, ?_, ?_⟩
      · show Cursor.start.Stream tx.accepted ((tx.sent ++ [(field, _)]).flatMap _) c'
        rw [List.flatMap_append, List.flatMap_singleton]
        exact h.stream.append hstream
      · intro q' hq'
        rcases List.mem_append.mp hq' with hq' | hq'
        · exact h.carried q' hq'
        · obtain rfl := List.mem_singleton.mp hq'
          exact ⟨init, last, first, hframed.segments, hcarries⟩
      · intro i q' hq'
        rcases Nat.lt_or_ge i tx.sent.length with hlt | hge
        · rw [List.getElem?_append_left hlt] at hq'
          exact h.numbered i q' hq'
        · rw [List.getElem?_append_right hge] at hq'
          obtain ⟨hlt, heq⟩ := List.getElem?_eq_some_iff.mp hq'
          rw [List.length_singleton] at hlt
          obtain rfl : i = tx.sent.length := by omega
          rw [List.getElem_singleton] at heq
          rw [← heq, ← h.next]
          rfl
      · show (tx.sequenceNumber.value + 1) % 1024 = (tx.sent ++ [_]).length % 1024
        rw [h.next, List.length_append, List.length_singleton, Nat.mod_add_mod]

theorem exists_sentTo (maxTxBufferSize : Nat) (events : List (TxEvent α))
    (hsdus : ∀ p, .transmitPdcpPdu p ∈ events → p ≠ []) :
    ∃ tx c, events.foldlM Transmission.step (.new maxTxBufferSize) = .ok tx ∧ SentTo tx c := by
  induction events using List.reverseRecOn with
  | nil => exact ⟨_, _, rfl, sentTo_new maxTxBufferSize⟩
  | append_singleton events event ih =>
    obtain ⟨tx, c, hrun, h⟩ := ih fun p hp => hsdus p (List.mem_append_left _ hp)
    rw [List.foldlM_append, hrun, ok_bind, List.foldlM_cons]
    cases event with
    | transmitPdcpPdu p => exact ⟨_, c, rfl, h.transmit (hsdus p (by simp))⟩
    | notifyTxOpportunity bytes =>
      obtain ⟨tx', c', hstep, h'⟩ := h.notify bytes
      exact ⟨tx', c', by rw [Transmission.step, hstep]; rfl, h'⟩

/-! ## The receiving side -/

/-- A PDU with its segments, and whether it is kept. -/
abbrev Handover (α : Type) : Type := (DataField α × RlcPdu α) × Bool

def frames (qs : List (Handover α)) : List (List (Segment α) × Bool) :=
  qs.map fun q => (q.1.1.segments.map SduPacket.segment, q.2)

def handed (qs : List (Handover α)) : List (RlcPdu α) := (qs.filter Prod.snd).map fun q => q.1.2

/-- The receiving side after `qs`, of which the last `gap` were lost. -/
structure Follows (qs : List (Handover α)) (gap : Nat) (r : Reassembler α) : Prop where
  lost : ∃ before, qs.map Prod.snd = before ++ List.replicate gap false
  expected : r.expectedSeqNumber.value = (qs.length - gap) % 1024
  collected : ∃ st, r.Holds st ∧ st.items = (Collected.collect (frames qs)).items ∧
    (gap = 0 → st = .collect (frames qs)) ∧ (gap ≠ 0 → (Collected.collect (frames qs)).part = none)

variable {qs : List (Handover α)} {q : Handover α} {gap : Nat} {items : List (List α)}
  {c' : Cursor α}

theorem collect_concat (qs : List (Handover α)) (q : Handover α) :
    Collected.collect (frames (qs ++ [q])) =
      (Collected.collect (frames qs)).frame (q.1.1.segments.map SduPacket.segment, q.2) := by
  rw [Collected.collect, frames, List.map_append, List.foldl_append]
  rfl

theorem Follows.lose (h : Follows qs gap r) (hq : q.2 = false) :
    Follows (qs ++ [q]) (gap + 1) r := by
  obtain ⟨⟨before, hbefore⟩, hexpected, st, hst, hitems, -, -⟩ := h
  have hcollect : Collected.collect (frames (qs ++ [q])) =
      ⟨none, (Collected.collect (frames qs)).items⟩ := by
    rw [collect_concat, hq]
    rfl
  refine ⟨⟨before, ?_⟩, ?_, st, hst, ?_, nofun, fun _ => ?_⟩
  · rw [List.map_append, hbefore, List.append_assoc, List.replicate_succ', List.map_singleton, hq]
  · rw [hexpected, List.length_append, List.length_singleton, Nat.add_sub_add_right]
  · rw [hcollect, hitems]
  · rw [hcollect]

theorem Follows.keep (h : Follows qs gap r) (hq : q.2 = true) (hgap : gap < 1024)
    (hle : gap ≤ qs.length) (hsn : q.1.2.header.sequenceNumber.value = qs.length % 1024)
    (hcarries : Carries q.1.2 init last first) (hsegments : q.1.1.segments = init ++ [last])
    (hfirst : (Collected.collect (frames qs)).part.isSome → first = false) :
    ∃ r', reassembleAndDeliver r q.1.2 = .ok r' ∧ Follows (qs ++ [q]) 0 r' := by
  obtain ⟨-, hexpected, st, hst, hitems, hsame, hnone⟩ := h
  have hcollect : Collected.collect (frames (qs ++ [q])) =
      ((init ++ [last]).map SduPacket.segment).foldl .segment (.collect (frames qs)) := by
    rw [collect_concat, hq, hsegments]
    rfl
  have hnext : ∀ sn : SequenceNumber10, sn.value = qs.length % 1024 →
      (sn.add 1).value = ((qs ++ [q]).length - 0) % 1024 := by
    intro sn hsn
    show (sn.value + 1) % 1024 = _
    rw [hsn, List.length_append, List.length_singleton, Nat.mod_add_mod]
    rfl
  have hfollows : ∀ r', r'.Holds (Collected.collect (frames (qs ++ [q]))) →
      r'.expectedSeqNumber.value = ((qs ++ [q]).length - 0) % 1024 → Follows (qs ++ [q]) 0 r' :=
    fun r' hholds hexpected => ⟨⟨_, (List.append_nil _).symm⟩, hexpected, _, hholds, rfl,
      fun _ => rfl, fun hne => absurd rfl hne⟩
  by_cases hzero : gap = 0
  · subst hzero
    rw [hsame rfl] at hst
    rw [Nat.sub_zero] at hexpected
    obtain ⟨r', hcall, hholds, hnumber⟩ := hcarries.in_order hst (hsn.trans hexpected.symm) hfirst
    refine ⟨r', hcall, hfollows r' (hcollect ▸ hholds) ?_⟩
    rw [hnumber]
    exact hnext _ hexpected
  · have hne : q.1.2.header.sequenceNumber.value ≠ r.expectedSeqNumber.value := by
      rw [hsn, hexpected]
      omega
    obtain ⟨r', hcall, hholds, hnumber⟩ := hcarries.after_loss hst hne
    have hcollected : Collected.collect (frames qs) = ⟨none, st.items⟩ := by
      rw [hitems, ← hnone hzero]
    refine ⟨r', hcall, hfollows r' ?_ ?_⟩
    · rw [hcollect, hcollected]
      exact hholds
    · rw [hnumber]
      exact hnext _ hsn

theorem exists_follows (hstream : Cursor.start.Stream items ((frames qs).flatMap Prod.fst) c)
    (hcarried : ∀ q ∈ qs, ∃ init last first,
      q.1.1.segments = init ++ [last] ∧ Carries q.1.2 init last first)
    (hnumbered : ∀ i q, qs[i]? = some q → q.1.2.header.sequenceNumber.value = i % 1024)
    (hgaps : ShortGaps (qs.map Prod.snd)) :
    ∃ gap r, (handed qs).foldlM reassembleAndDeliver .new = .ok r ∧ gap ≤ qs.length ∧
      Follows qs gap r := by
  induction qs using List.reverseRecOn generalizing c with
  | nil =>
    exact ⟨0, _, rfl, le_rfl, ⟨[], rfl⟩, rfl, ⟨none, []⟩, ⟨rfl, rfl, rfl, nofun⟩, rfl,
      fun _ => rfl, fun hne => absurd rfl hne⟩
  | append_singleton qs q ih =>
    have hflat : (frames (qs ++ [q])).flatMap Prod.fst =
        (frames qs).flatMap Prod.fst ++ q.1.1.segments.map SduPacket.segment := by
      rw [frames, List.map_append, List.flatMap_append]
      exact congrArg _ (List.flatMap_singleton _ _)
    rw [hflat] at hstream
    obtain ⟨c₁, hbefore, hframe⟩ := hstream.append_inv
    have hmem : ∀ q' ∈ qs, q' ∈ qs ++ [q] := fun q' hq' => List.mem_append_left _ hq'
    obtain ⟨gap, r, hrun, hle, hfollows⟩ := ih hbefore (fun q' hq' => hcarried q' (hmem q' hq'))
      (fun i q' hq' => hnumbered i q' (by
        rw [List.getElem?_append_left (List.getElem?_eq_some_iff.mp hq').1]
        exact hq'))
      (fun before n after heq => hgaps before n (after ++ [q.2]) (by
        rw [List.map_append, heq]
        simp))
    obtain ⟨init, last, first, hsegments, hcarries⟩ := hcarried q (by simp)
    cases hq : q.2 with
    | false =>
      refine ⟨gap + 1, r, ?_, ?_, hfollows.lose hq⟩
      · rw [handed, List.filter_append, List.filter_singleton, hq, cond_false, List.append_nil]
        exact hrun
      · rw [List.length_append]
        exact Nat.succ_le_succ hle
    | true =>
      obtain ⟨before, hlost⟩ := hfollows.lost
      have hgap : gap < 1024 := hgaps before gap [] (by
        rw [List.map_append, hlost, List.map_singleton, hq]
        simp)
      have hsn := hnumbered qs.length q List.getElem?_concat_length
      have hat : CollectedAt items (Lost (frames qs)) c₁ (.collect (frames qs)) := by
        refine collectedAt_collect (fun f hf => ?_) hbefore
        obtain ⟨q', hq', rfl⟩ := List.mem_map.mp hf
        obtain ⟨init', last', -, hsegs', -⟩ := hcarried q' (hmem q' hq')
        rw [hsegs']
        simp
      have hfirst : (Collected.collect (frames qs)).part.isSome → first = false := by
        intro hsome
        rw [hsegments] at hframe
        rw [hcarries.frame.first_eq hframe]
        rw [hat.part] at hsome
        split at hsome
        · cases hsome
        · rw [Option.isSome_iff_exists] at hsome
          obtain ⟨p, hp⟩ := hsome
          rw [hp]
          rfl
      obtain ⟨r', hcall, hfollows'⟩ :=
        hfollows.keep hq hgap hle hsn hcarries hsegments hfirst
      refine ⟨0, r', ?_, Nat.zero_le _, hfollows'⟩
      rw [handed, List.filter_append, List.filter_singleton, hq, cond_true, List.map_append,
        List.foldlM_append]
      exact bind_eq_ok.mpr ⟨r, hrun, by rw [List.map_singleton, List.foldlM_cons, hcall]; rfl⟩

/-! ## The SDUs -/

theorem lost_frames {k : Nat} : Lost (frames qs) k ↔
    ∃ q ∈ qs, q.2 = false ∧ ∃ s ∈ q.1.1.segments, s.sdu = k := by
  unfold Lost frames
  constructor
  · rintro ⟨f, hf, hkept, s, hs, hk⟩
    obtain ⟨q, hq, rfl⟩ := List.mem_map.mp hf
    obtain ⟨p, hp, rfl⟩ := List.mem_map.mp hs
    exact ⟨q, hq, hkept, p, hp, hk⟩
  · rintro ⟨q, hq, hkept, p, hp, hk⟩
    exact ⟨_, List.mem_map_of_mem hq, hkept, _, List.mem_map_of_mem hp, hk⟩

/-- An SDU arrives when it was sent in full and none of its PDUs was lost. -/
theorem whole_iff (h : SentTo tx c) (kept : List Bool) {k : Nat} (hk : k < tx.accepted.length) :
    tx.Whole kept k ↔ k < c.item ∧ ¬Lost (frames (tx.sent.zip kept)) k := by
  obtain ⟨-, hitems, hcover, -⟩ := item_of_stream h.queued.stream
  rw [lost_frames, Transmission.Whole]
  refine and_congr ⟨fun hnone => ?_, fun hlt p hp => ?_⟩ ?_
  · refine Nat.lt_of_not_le fun hge => ?_
    obtain ⟨s, hs, hitem⟩ := hcover k hge hk
    obtain ⟨p, hp, rfl⟩ := List.mem_map.mp hs
    exact hnone p hp hitem
  · rintro rfl
    exact Nat.not_le.mpr hlt (hitems _ (List.mem_map_of_mem hp)).1
  · constructor
    · rintro hall ⟨q, hq, hkept, s, hs, hsdu⟩
      exact hall q hq hkept s hs hsdu
    · intro hnot q hq hkept s hs hsdu
      exact hnot ⟨q, hq, hkept, s, hs, hsdu⟩

theorem SentTo.frames_stream (h : SentTo tx c) {kept : List Bool}
    (hlen : kept.length = tx.sent.length) :
    Cursor.start.Stream tx.accepted ((frames (tx.sent.zip kept)).flatMap Prod.fst) c := by
  have hfst : (tx.sent.zip kept).map Prod.fst = tx.sent :=
    List.map_fst_zip (Nat.le_of_eq hlen.symm)
  have heq : (frames (tx.sent.zip kept)).flatMap Prod.fst = tx.segments := by
    rw [Transmission.segments, ← hfst, List.flatMap_map, hfst, frames, List.flatMap_map]
  rw [heq]
  exact h.stream

/-- **Reassembly in unacknowledged mode.** Whatever PDUs are lost, fewer than 1024 at a time, the
packets passed to `ReceivePdcpPdu` are the SDUs of which no part was lost. -/
theorem run_reassembles (maxTxBufferSize : Nat) (events : List (TxEvent α))
    (hsdus : ∀ p, .transmitPdcpPdu p ∈ events → p ≠ []) :
    ∃ tx, events.foldlM Transmission.step (.new maxTxBufferSize) = .ok tx ∧
      ∀ kept : List Bool, kept.length = tx.sent.length → ShortGaps kept →
        ∃ r, (tx.keptPdus kept).foldlM reassembleAndDeliver .new = .ok r ∧
          r.delivered = tx.wholeSdus kept := by
  obtain ⟨tx, c, hrun, h⟩ := exists_sentTo maxTxBufferSize events hsdus
  refine ⟨tx, hrun, fun kept hlen hgaps => ?_⟩
  have hstream := h.frames_stream hlen
  have hcarried : ∀ q ∈ tx.sent.zip kept, ∃ init last first,
      q.1.1.segments = init ++ [last] ∧ Carries q.1.2 init last first :=
    fun q hq => h.carried q.1 (List.of_mem_zip hq).1
  have hnumbered : ∀ i q, (tx.sent.zip kept)[i]? = some q →
      q.1.2.header.sequenceNumber.value = i % 1024 :=
    fun i q hq => h.numbered i q.1 (List.getElem?_zip_eq_some.mp hq).1
  have hsnd : (tx.sent.zip kept).map Prod.snd = kept := List.map_snd_zip (Nat.le_of_eq hlen)
  obtain ⟨gap, r, hcall, -, -, -, st, hst, hitems, -⟩ :=
    exists_follows hstream hcarried hnumbered (hsnd.symm ▸ hgaps)
  have hat : CollectedAt tx.accepted (Lost (frames (tx.sent.zip kept))) c
      (.collect (frames (tx.sent.zip kept))) := by
    refine collectedAt_collect (fun f hf => ?_) hstream
    obtain ⟨q, hq, rfl⟩ := List.mem_map.mp hf
    obtain ⟨init, last, -, hsegments, -⟩ := hcarried q hq
    rw [hsegments]
    simp
  refine ⟨r, hcall, ?_⟩
  rw [hst.delivered, hitems, hat.items, Transmission.wholeSdus]
  refine congrArg _ (filter_range ?_ fun k hk => whole_iff h kept hk).symm
  exact (item_of_stream h.queued.stream).1

/-- Three SDUs of two, five and one bytes in three PDUs. -/
theorem run_reassembles_sample :
    ∃ tx, ([.transmitPdcpPdu [1, 2], .transmitPdcpPdu [3, 4, 5, 6, 7], .transmitPdcpPdu [8],
        .notifyTxOpportunity 3, .notifyTxOpportunity 8, .notifyTxOpportunity 9] :
          List (TxEvent Nat)).foldlM Transmission.step (.new 100) = .ok tx ∧
      ∀ kept : List Bool, kept.length = tx.sent.length → ShortGaps kept →
        ∃ r, (tx.keptPdus kept).foldlM reassembleAndDeliver .new = .ok r ∧
          r.delivered = tx.wholeSdus kept :=
  run_reassembles 100 _ (by simp)

end LteRlcUm

end Lte

end Ns3
