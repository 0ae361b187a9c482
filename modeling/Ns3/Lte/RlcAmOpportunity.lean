/-
  What an acknowledged mode entity sends in an opportunity
  (LteRlcAm::DoNotifyTxOpportunity, src/lte/model/lte-rlc-am.cc, and the sizes that
  src/lte/model/lte-rlc-am-header.cc keeps).

  A length indicator and a NACK take 12 bits with their extension bits, so a pair of them takes
  three bytes.  The room for one more NACK is asked for with the parity of the other one of the
  pair.
-/
import Ns3.Lte.RlcAmPeers

namespace Ns3

namespace Lte

open Lib

variable {α : Type}

/-! ## Sizes of data fields -/

theorem DataField.length_add (field : DataField α) (segment : SduPacket α) :
    (field.add segment).data.length = field.data.length + segment.size := by
  simp [DataField.data, DataField.add, SduPacket.size]

theorem DataField.length_finish (field : DataField α) (segment : SduPacket α) :
    (field.finish segment).data.length = field.data.length + segment.size := by
  simp [DataField.data, DataField.finish, SduPacket.size]

theorem SduPacket.size_cut_le (p : SduPacket α) (k : Nat) : (p.cut k).1.size ≤ k := by
  have hsize : (p.cut k).1.size = (p.data.take k).length := by
    rw [SduPacket.cut]
    split <;> rfl
  rw [hsize]
  exact List.length_take_le k p.data

namespace LteRlcAm

/-! ## New data -/

theorem headerLength_header (field : DataField α) (sn : SequenceNumber10) (framingInfo : Nat)
    (requested : Bool) : (Transmission.header field sn framingInfo requested).headerLength =
      (4 + packed (field.extensionBits.length - 1)) % 2 ^ 16 := by
  have hbits := LteRlcAmHeader.headerLength_pushExtensionBits field.extensionBits
    (h := LteRlcAmHeader.dataPdu) rfl
  rw [show LteRlcAmHeader.dataPdu.extensionBits.length = 0 from rfl, Nat.zero_add] at hbits
  exact (LteRlcAmHeader.headerLength_pushLengthIndicators _ _).trans hbits

def Fits (room : Nat) (field : DataField α) : Prop :=
  packed (field.extensionBits.length - 1) + field.data.length ≤ room

variable {field : DataField α}

theorem fits_same {next room : Nat}
    (hroom : packed field.extensionBits.length + field.data.length + next = room) :
    Fits room field := by
  rw [Fits, packed]
  rw [packed] at hroom
  omega

theorem fits_finish {s : SduPacket α} {next room : Nat}
    (hroom : packed field.extensionBits.length + field.data.length + next = room)
    (hs : s.size ≤ next) : Fits room (field.finish s) := by
  rw [Fits, DataField.length_finish, DataField.finish, List.length_append, List.length_singleton,
    Nat.add_sub_cancel]
  omega

theorem fillDataField_fits (txBuffer : List (SduPacket α)) (size : Nat) (p : SduPacket α)
    (field : DataField α) (next : Nat) {id room : Nat} (hid : id = field.extensionBits.length + 1)
    (hroom : packed field.extensionBits.length + field.data.length + next = room) :
    Fits room (fillDataField txBuffer size p next id field).2 := by
  induction txBuffer generalizing size next id field p with
  | nil =>
    rw [fillDataField]
    split
    · exact fits_same hroom
    split
    · exact fits_finish hroom ((p.size_cut_le _).trans (Nat.min_le_right _ _))
    · next hsmall =>
        simp only [gt_iff_lt, Bool.or_eq_true, decide_eq_true_eq, not_or, Nat.not_lt] at hsmall
        exact fits_finish hroom hsmall.1
  | cons p' txBuffer ih =>
    rw [fillDataField]
    split
    · exact fits_same hroom
    split
    · exact fits_finish hroom ((p.size_cut_le _).trans (Nat.min_le_right _ _))
    · next hsmall =>
        simp only [gt_iff_lt, Bool.or_eq_true, decide_eq_true_eq, not_or, Nat.not_lt] at hsmall
        split
        · exact fits_finish hroom hsmall.1
        · next hmore =>
            have hbits : (field.add p).extensionBits.length = field.extensionBits.length + 1 :=
              List.length_append
            refine ih _ _ _ _ (by rw [hid, hbits]) ?_
            rw [DataField.length_add, hbits, packed, hid]
            rw [packed] at hroom
            split <;> omega

variable {bytes : Nat} {tx tx' : Transmission α} {pdu : Option (AmPdu α)}

theorem transmitNew_fits (hbytes : 7 ≤ bytes) (h : tx.transmitNew bytes = .ok (tx', pdu)) :
    ∀ x ∈ pdu, x.size ≤ bytes := by
  rw [Transmission.transmitNew] at h
  cases hpdus : tx.txonBuffer.pdus with
  | nil =>
    rw [hpdus] at h
    cases h
    rintro x ⟨⟩
  | cons firstSegment txonBuffer =>
    rw [hpdus] at h
    have hfits := fillDataField_fits txonBuffer
      (wsub 32 tx.txonBuffer.size firstSegment.size) firstSegment .empty (bytes - 4)
      (rfl : 1 = DataField.empty.extensionBits.length + 1)
      (by simp [packed, DataField.empty, DataField.data] : _ = bytes - 4)
    simp only [bind_eq_ok] at h
    obtain ⟨-, -, -, -, -, -, -, -, framingInfo, -, stalled, -, hsent⟩ := h
    cases hsent
    rintro x ⟨⟩
    simp only [AmPdu.size, Transmission.sendNew]
    rw [headerLength_header]
    rw [Fits] at hfits
    have hmod := Nat.mod_le (4 + packed ((fillDataField txonBuffer
      (wsub 32 tx.txonBuffer.size firstSegment.size) firstSegment (bytes - 4) 1
      .empty).2.extensionBits.length - 1)) (2 ^ 16)
    omega

theorem data_fits (hretx : tx.txOpportunityForRetxAlwaysBigEnough = false)
    (h : tx.doNotifyTxOpportunity bytes = .ok (tx', pdu)) : ∀ x ∈ pdu, x.size ≤ bytes := by
  rw [Transmission.doNotifyTxOpportunity] at h
  split at h
  · rw [Transmission.retransmit] at h
    obtain ⟨vtA, -, h⟩ := bind_eq_ok.mp h
    obtain ⟨-, -, h⟩ := bind_eq_ok.mp h
    obtain ⟨found, -, h⟩ := bind_eq_ok.mp h
    cases found with
    | none => cases h
    | some found =>
      obtain ⟨seqNumber, sent⟩ := found
      dsimp only at h
      rw [hretx, Bool.or_false] at h
      split at h
      · next hsize =>
          obtain ⟨stalled, -, ⟨⟩⟩ := bind_pure_eq_ok.mp h
          rintro x ⟨⟩
          exact of_decide_eq_true hsize
      · cases h
        rintro x ⟨⟩
  split at h
  · obtain ⟨u, hbytes, h⟩ := bind_eq_ok.mp h
    obtain ⟨vtS, -, h⟩ := bind_eq_ok.mp h
    obtain ⟨-, -, h⟩ := bind_eq_ok.mp h
    split at h
    · cases h
      rintro x ⟨⟩
    · exact transmitNew_fits (of_decide_eq_true (nsAssert_eq_ok.mp hbytes)) h
  · cases h
    rintro x ⟨⟩

/-! ## STATUS PDUs -/

def Reception.missingFrom (rx : Reception α) (n : Nat) (sn : SequenceNumber10) : List Nat :=
  ((List.range n).map fun i => (sn.value + i) % 1024).filter fun sn => !rx.rxonBuffer.contains sn

def Reception.missing (rx : Reception α) : List Nat :=
  rx.missingFrom (rx.vrMs.behind - rx.vrR.behind) rx.vrR

/-- `OneMoreNackWouldFitIn` once there are `n` NACKs. -/
def RoomFor (bytes n : Nat) : Prop :=
  2 + packed n + n % 2 < bytes % 2 ^ 16

/-- The header has `n` NACKs. -/
structure Nacked (status : AmStatus) (n : Nat) : Prop where
  length : status.nackSnList.length = n
  header : status.headerLength = 2 + packed n

/-- The NACKs end at `n`: there was room for each, and no more are missing or fit. -/
structure Nacks (bytes start rest n : Nat) : Prop where
  le : start ≤ n
  le_rest : n ≤ start + rest
  room : ∀ k, start ≤ k → k < n → RoomFor bytes k
  ends : n = start + rest ∨ ¬RoomFor bytes n

section

variable {rx : Reception α} {status status' : AmStatus} {sn sn' : SequenceNumber10}
  {n p q : Nat} {base : Int}

theorem Reception.missingFrom_succ (hvalue : sn.value < 1024) :
    rx.missingFrom (n + 1) sn =
      if rx.rxonBuffer.contains sn.value then rx.missingFrom n sn.succ
      else sn.value :: rx.missingFrom n sn.succ := by
  have hnext (i : Nat) : (sn.value + (i + 1)) % 1024 = (sn.succ.value + i) % 1024 := by
    change _ = ((sn.value + 1) % 1024 + i) % 1024
    omega
  rw [missingFrom, List.range_succ_eq_map, List.map_cons, List.map_map, Nat.add_zero,
    Nat.mod_eq_of_lt hvalue, List.filter_cons]
  have hrest : ((List.range n).map ((fun i => (sn.value + i) % 1024) ∘ Nat.succ)) =
      (List.range n).map fun i => (sn.succ.value + i) % 1024 :=
    List.map_congr_left fun i _ => hnext i
  rw [hrest]
  cases rx.rxonBuffer.contains sn.value <;> rfl

theorem oneMoreNackWouldFitIn_iff (h : Nacked status n) :
    status.oneMoreNackWouldFitIn bytes = true ↔ RoomFor bytes n := by
  obtain ⟨hlength, hheader⟩ := h
  rw [AmStatus.oneMoreNackWouldFitIn, hlength, hheader, RoomFor]
  split
  · rw [decide_eq_true_iff]
    omega
  · rw [decide_eq_true_iff]
    omega

theorem Nacked.push (h : Nacked status n) (hn : n < 1024) (nack : Nat) :
    Nacked (status.pushNack nack) (n + 1) := by
  obtain ⟨hlength, hheader⟩ := h
  refine ⟨?_, ?_⟩
  · rw [AmStatus.pushNack, List.length_append, hlength]
    rfl
  · have hpush : (status.pushNack nack).headerLength = (2 + packed (n + 1)) % 2 ^ 16 :=
      hlength ▸ AmStatus.headerLength_pushNack (hheader.trans (by rw [hlength, packed]; omega)) nack
    rw [hpush, packed]
    omega

theorem Nacks.stop (start rest : Nat) (h : rest = 0 ∨ ¬RoomFor bytes start) :
    Nacks bytes start rest start := by
  refine ⟨le_rfl, Nat.le_add_right _ _, fun k hk hlt => absurd hk (Nat.not_le.mpr hlt), ?_⟩
  exact h.imp_left fun hrest => by rw [hrest, Nat.add_zero]

theorem Nacks.push {start rest : Nat} (h : Nacks bytes (start + 1) rest n)
    (hroom : RoomFor bytes start) : Nacks bytes start (rest + 1) n := by
  obtain ⟨hle, hrest, hroom', hends⟩ := h
  refine ⟨Nat.le_of_succ_le hle, by omega, fun k hk hlt => ?_, hends.imp_left (by omega)⟩
  rcases Nat.eq_or_lt_of_le hk with rfl | hk
  · exact hroom
  · exact hroom' k hk hlt

theorem nackLoop_modulusBase {fuel : Nat}
    (h : rx.nackLoop bytes fuel sn status = .ok (sn', status')) :
    sn.modulusBase = rx.vrMs.modulusBase := by
  cases fuel with
  | zero => cases h
  | succ fuel =>
    rw [Reception.nackLoop, SequenceNumber10.lt] at h
    obtain ⟨lt, hlt, -⟩ := bind_eq_ok.mp h
    obtain ⟨gt, hgt, -⟩ := bind_eq_ok.mp hlt
    obtain ⟨u, hbase, -⟩ := bind_eq_ok.mp hgt
    exact of_decide_eq_true (nsAssert_eq_ok.mp hbase)

theorem nackLoop_nacks {fuel : Nat} (hsn : sn.At base (base + p))
    (hms : rx.vrMs.At base (base + q)) (hp : p < 1024) (hq : q < 1024) (hn : Nacked status n)
    (hnp : n ≤ p) (h : rx.nackLoop bytes fuel sn status = .ok (sn', status')) :
    ∃ n', Nacked status' n' ∧ Nacks bytes n (rx.missingFrom (q - p) sn).length n' := by
  induction fuel generalizing sn status n p with
  | zero => cases h
  | succ fuel ih =>
    rw [Reception.nackLoop, hsn.lt hms (by omega) (by omega) (by omega) (by omega), ok_bind] at h
    by_cases hlt : p < q
    · rw [decide_eq_true (by omega), if_pos rfl] at h
      have hvalue : sn.value < 1024 := by
        have := hsn.value
        omega
      have hmissing : rx.missingFrom (q - p) sn = _ :=
        (congrArg (rx.missingFrom · sn) (by omega : q - p = q - (p + 1) + 1)).trans
          (Reception.missingFrom_succ hvalue)
      have hsucc : sn.succ.At base (base + ((p + 1 : Nat) : Int)) := by
        have := hsn.succ
        rwa [Int.natCast_add, ← Int.add_assoc]
      by_cases hroom : RoomFor bytes n
      · rw [if_pos ((oneMoreNackWouldFitIn_iff hn).mpr hroom)] at h
        cases hcontains : rx.rxonBuffer.contains sn.value with
        | true =>
          rw [hcontains, if_pos rfl] at h hmissing
          rw [hmissing]
          exact ih hsucc (by omega) hn (by omega) h
        | false =>
          rw [hcontains, if_neg Bool.false_ne_true] at h hmissing
          obtain ⟨n', hn', hnacks⟩ := ih hsucc (by omega) (hn.push (by omega) sn.value)
            (by omega) h
          rw [hmissing]
          exact ⟨n', hn', hnacks.push hroom⟩
      · rw [if_neg (mt (oneMoreNackWouldFitIn_iff hn).mp hroom)] at h
        cases h
        exact ⟨n, hn, .stop _ _ (.inr hroom)⟩
    · rw [decide_eq_false (by omega), if_neg Bool.false_ne_true] at h
      cases h
      refine ⟨n, hn, .stop _ _ (.inl ?_)⟩
      rw [Nat.sub_eq_zero_of_le (Nat.not_lt.mp hlt)]
      rfl

/-- The last NACK is too many: the opportunity is a multiple of three bytes, and enough numbers
are missing to fill it. -/
def OneTooMany (bytes missing : Nat) : Prop :=
  bytes % 3 = 0 ∧ bytes < 2 ^ 16 ∧ 2 * (bytes / 3) ≤ missing + 1

theorem Nacks.le_iff {missing : Nat} (h : Nacks bytes 0 missing n) (hbytes : 4 ≤ bytes) :
    2 + packed n ≤ bytes ↔ ¬OneTooMany bytes missing := by
  obtain ⟨-, hrest, hroom, hends⟩ := h
  have hlast : n ≠ 0 → RoomFor bytes (n - 1) := fun hn =>
    hroom (n - 1) (Nat.zero_le _) (by omega)
  constructor
  · rintro hle ⟨hthree, hlt, hmissing⟩
    rw [RoomFor, Nat.mod_eq_of_lt hlt] at hends
    rw [packed] at hle hends
    omega
  · intro hnot
    by_cases hn : n = 0
    · rw [hn, packed]
      omega
    · have hlast := hlast hn
      by_contra hgt
      rw [RoomFor] at hlast
      have hmod := Nat.mod_le bytes (2 ^ 16)
      rw [packed] at hlast hgt
      refine hnot ⟨?_, ?_, ?_⟩ <;> omega

end

/-! ## What is sent -/

/-- The STATUS fits unless the loop takes one NACK too many. -/
theorem status_le_iff {rx rx' : Reception α} {status : AmStatus} (hvrR : rx.vrR.Valid)
    (hvrMs : rx.vrMs.Valid) (hbytes : 4 ≤ bytes)
    (h : rx.doNotifyTxOpportunity bytes = .ok (rx', status)) :
    status.headerLength ≤ bytes ↔ ¬OneTooMany bytes rx.missing.length := by
  rw [Reception.doNotifyTxOpportunity] at h
  obtain ⟨u, -, h⟩ := bind_eq_ok.mp h
  obtain ⟨built, hbuilt, ⟨⟩⟩ := bind_pure_eq_ok.mp h
  rw [Reception.buildStatus] at hbuilt
  obtain ⟨⟨sn, status'⟩, hloop, hbuilt⟩ := bind_eq_ok.mp hbuilt
  obtain ⟨ack, -, hbuilt⟩ := bind_eq_ok.mp hbuilt
  obtain ⟨le, -, hbuilt⟩ := bind_eq_ok.mp hbuilt
  obtain ⟨v, -, ⟨⟩⟩ := bind_pure_eq_ok.mp hbuilt
  have hms : rx.vrMs.At rx.vrR.modulusBase (rx.vrR.modulusBase + rx.vrMs.behind) := by
    rw [nackLoop_modulusBase hloop]
    exact hvrMs.at
  obtain ⟨n, hn, hnacks⟩ := nackLoop_nacks hvrR.at hms (Nat.mod_lt _ (by decide))
    (Nat.mod_lt _ (by decide)) ⟨rfl, rfl⟩ (Nat.zero_le _) hloop
  rw [hn.header]
  exact hnacks.le_iff hbytes

/-- What an opportunity adds to the PDUs that were sent is at most `bytes` long. -/
structure Peer.SendsAtMost (p p' : Peer α) (bytes : Nat) : Prop where
  data : ∀ pdu ∈ p'.sentData.drop p.sentData.length, pdu.size ≤ bytes
  status : ∀ status ∈ p'.sentStatus.drop p.sentStatus.length, status.headerLength ≤ bytes

/-- **An opportunity** is kept to, unless a STATUS PDU is due and its last NACK is too many. -/
theorem opportunity_iff {p p' : Peer α} {bytes : Nat}
    (hretx : p.tx.txOpportunityForRetxAlwaysBigEnough = false) (hvrR : p.rx.vrR.Valid)
    (hvrMs : p.rx.vrMs.Valid) (h : p.doNotifyTxOpportunity bytes = .ok p') :
    p.SendsAtMost p' bytes ↔
      ¬(p.rx.statusDue = true ∧ OneTooMany bytes p.rx.missing.length) := by
  rw [Peer.doNotifyTxOpportunity] at h
  obtain ⟨u, hbytes, h⟩ := bind_eq_ok.mp h
  have hbytes : 4 ≤ bytes := of_decide_eq_true (nsAssert_eq_ok.mp hbytes)
  cases hdue : p.rx.statusDue with
  | true =>
    rw [hdue, if_pos rfl] at h
    obtain ⟨⟨rx, status⟩, hstatus, ⟨⟩⟩ := bind_pure_eq_ok.mp h
    rw [and_iff_right rfl, ← status_le_iff hvrR hvrMs hbytes hstatus]
    have hnew : (p.sentStatus ++ [status]).drop p.sentStatus.length = [status] := List.drop_left
    refine ⟨fun h => h.status status ?_, fun h => ⟨?_, ?_⟩⟩
    · rw [hnew]
      exact List.mem_singleton_self _
    · rw [List.drop_length]
      exact List.forall_mem_nil _
    · rw [hnew]
      exact List.forall_mem_singleton.mpr h
  | false =>
    rw [hdue, if_neg Bool.false_ne_true] at h
    obtain ⟨⟨tx, pdu⟩, hdata, ⟨⟩⟩ := bind_pure_eq_ok.mp h
    refine iff_of_true ⟨?_, ?_⟩ (fun h => Bool.false_ne_true h.1)
    · rw [List.drop_left]
      intro x hx
      exact data_fits hretx hdata x (Option.mem_toList.mp hx)
    · rw [List.drop_length]
      exact List.forall_mem_nil _

def fourth : AmPdu Nat :=
  ⟨Transmission.header ((DataField.empty).finish ⟨3, .fullSdu, [1, 2, 3]⟩) (.ofValue 3) 0 true,
    [1, 2, 3], 3⟩

def threeMissing : Except Fault (Peer Nat) := do
  let rx ← (Reception.new : Reception Nat).receiveData fourth
  let rx ← rx.expireReorderingTimer
  pure { Peer.new 10240 false with rx }

/-- Three numbers are missing.  The STATUS PDU for an opportunity of 7 bytes takes 7, and so does
the one for 6 bytes. -/
theorem status_exceeds_six :
    (do
      let p ← threeMissing
      let p' ← p.doNotifyTxOpportunity 7
      pure (p'.sentStatus.map (·.headerLength))) = Except.ok [7] ∧
    (do
      let p ← threeMissing
      let p' ← p.doNotifyTxOpportunity 6
      pure (p'.sentStatus.map (·.headerLength))) = Except.ok [7] ∧
    ¬∀ p p' : Peer Nat, p.tx.txOpportunityForRetxAlwaysBigEnough = false →
      p.doNotifyTxOpportunity 6 = .ok p' → p.SendsAtMost p' 6 := by
  refine ⟨rfl, rfl, fun h => ?_⟩
  obtain ⟨p, p', hretx, hp', status, hstatus, hlength⟩ : ∃ p p' : Peer Nat,
      p.tx.txOpportunityForRetxAlwaysBigEnough = false ∧ p.doNotifyTxOpportunity 6 = .ok p' ∧
        ∃ status ∈ p'.sentStatus.drop p.sentStatus.length, status.headerLength = 7 := by
    refine ⟨(threeMissing.toOption).get rfl, _, rfl, rfl, _, List.mem_singleton_self _, rfl⟩
  have := (h p p' hretx hp').status status hstatus
  omega

/-- The opportunity of 7 bytes is kept to. -/
theorem opportunity_seven : ∃ p p' : Peer Nat, threeMissing = .ok p ∧
    p.doNotifyTxOpportunity 7 = .ok p' ∧
      (p.SendsAtMost p' 7 ↔ ¬(p.rx.statusDue = true ∧ OneTooMany 7 p.rx.missing.length)) :=
  ⟨_, _, rfl, rfl, opportunity_iff rfl ⟨by decide, by decide⟩ ⟨by decide, by decide⟩ rfl⟩

end LteRlcAm

end Lte

end Ns3
