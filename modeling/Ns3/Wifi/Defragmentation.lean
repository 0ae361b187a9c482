/-
  Which MSDUs the receiver forwards.

  The sender transmits the fragments of an MSDU in order and each until it is
  acknowledged or given up; in the latter case the rest of the MSDU is skipped.  So the
  receiver gets the first so many fragments of each MSDU, and copies of each that carry
  the Retry bit.
-/
import Ns3.Wifi.MacRxMiddle

namespace Ns3

/-- An MSDU as it reaches the receiver. -/
structure Msdu where
  /-- what the headers of its fragments have in common -/
  hdr : WifiMacHeader
  number : Nat
  number_lt : number < 4096
  fragments : List Packet
  fragments_ne : fragments ≠ []
  fragments_le : fragments.length ≤ 16
  /-- for each fragment received, whether the first copy received carries the Retry bit,
  and how many copies come after it -/
  arrivals : List (Bool × Nat)
  arrivals_le : arrivals.length ≤ fragments.length

namespace Msdu

variable {m : Msdu} {i : Nat}

/-- One transmission of fragment `i`. -/
def frame (m : Msdu) (i : Nat) (retry : Bool) : RxMpdu :=
  { hdr :=
      { m.hdr with
        ctrlMoreFrag := i + 1 < m.fragments.length
        ctrlRetry := retry
        seqSeq := m.number
        seqFrag := i }
    packet := m.fragments.getD i [] }

/-- The frames received, from fragment `i` on. -/
def framesFrom (m : Msdu) : Nat → List (Bool × Nat) → List RxMpdu
  | _, [] => []
  | i, (retry, copies) :: rest =>
    m.frame i retry :: (List.replicate copies (m.frame i true) ++ m.framesFrom (i + 1) rest)

def frames (m : Msdu) : List RxMpdu := m.framesFrom 0 m.arrivals

def Complete (m : Msdu) : Prop := m.arrivals.length = m.fragments.length

instance (m : Msdu) : Decidable m.Complete := inferInstanceAs (Decidable (_ = _))

def Heard (m : Msdu) : Prop := m.arrivals ≠ []

instance (m : Msdu) : Decidable m.Heard := inferInstanceAs (Decidable (_ ≠ _))

/-- The burst was given up after a fragment was received. -/
def Abandoned (m : Msdu) : Prop := m.Heard ∧ ¬m.Complete

instance (m : Msdu) : Decidable m.Abandoned := inferInstanceAs (Decidable (_ ∧ _))

/-- What the receiver should forward: the MSDUs received completely, each as its
number and the concatenation of its fragments. -/
def expected (ms : List Msdu) : List (Nat × Packet) :=
  (ms.filter fun m => m.Complete).map fun m => (m.number, m.fragments.flatten)

def NoneAbandoned (ms : List Msdu) : Prop := ms.Pairwise fun m m' => m.Abandoned → ¬m'.Complete

def NumbersChange (ms : List Msdu) : Prop :=
  (ms.filter fun m => m.Heard).IsChain fun m m' => m.number ≠ m'.number

def control (m : Msdu) (i : Nat) : Nat := m.number * 16 + i

theorem getSequenceControl_frame (hi : i < 16) (retry : Bool) :
    (m.frame i retry).hdr.getSequenceControl = m.control i := by
  have hlt : m.number < 4096 := m.number_lt
  show ((m.number <<< 4) ||| i) % 2 ^ 16 = m.number * 16 + i
  rw [← Nat.shiftLeft_add_eq_or_of_lt hi m.number, Nat.shiftLeft_eq]
  omega

theorem control_shiftRight (hi : i < 16) : m.control i >>> 4 = m.number := by
  rw [Nat.shiftRight_eq_div_pow, control]
  omega

theorem control_and (hi : i < 16) : m.control i &&& 0x0f = i := by
  have hand : m.control i &&& (2 ^ 4 - 1) = m.control i % 2 ^ 4 :=
    Nat.and_two_pow_sub_one_eq_mod _ 4
  rw [show (0x0f : Nat) = 2 ^ 4 - 1 from rfl, hand, control]
  omega

end Msdu

namespace OriginatorRxStatus

variable {s : OriginatorRxStatus} {m : Msdu} {i : Nat} {mpdu : RxMpdu}

/-- Nothing is being put together. -/
structure Idle (s : OriginatorRxStatus) : Prop where
  defragmenting : s.defragmenting = false
  fragments : s.fragments = []

def upTo (m : Msdu) (i : Nat) : OriginatorRxStatus :=
  { defragmenting := i < m.fragments.length
    lastSequenceControl := m.control (i - 1)
    fragments := if i < m.fragments.length then m.fragments.take i else [] }

/-- What is forwarded with fragment `i - 1`. -/
def outputAt (m : Msdu) (i : Nat) : List (Nat × Packet) :=
  if i = m.fragments.length then [(m.number, m.fragments.flatten)] else []

def seen (mpdu : RxMpdu) : Nat × Packet := (mpdu.hdr.seqSeq, mpdu.packet)

/-! ## One frame -/

theorem foldl_addAtEnd (p : Packet) (ps : List Packet) :
    ps.foldl Packet.addAtEnd p = p ++ ps.flatten := by
  induction ps generalizing p with
  | nil => simp
  | cons q ps ih => rw [List.foldl_cons, ih, Packet.addAtEnd, List.flatten_cons, List.append_assoc]

theorem handleFragments_idle (hs : s.Idle) (packet : Packet) (hdr : WifiMacHeader) :
    s.handleFragments packet hdr =
      if hdr.ctrlMoreFrag then .ok (⟨true, hdr.getSequenceControl, [packet]⟩, none)
      else .ok (s, some packet) := by
  obtain ⟨hd, hf⟩ := hs
  simp only [handleFragments, hd, Bool.false_eq_true, if_false, accumulateFirstFragment, hf,
    Bool.not_false, nsAssert, if_true]
  rfl

variable {hdr : WifiMacHeader}

theorem handleFragments_next (hd : s.defragmenting = true) (packet : Packet)
    (hnext : s.isNextFragment hdr.getSequenceControl = true) :
    s.handleFragments packet hdr =
      if hdr.ctrlMoreFrag then
        .ok (⟨true, hdr.getSequenceControl, s.fragments ++ [packet]⟩, none)
      else .ok (⟨false, hdr.getSequenceControl, []⟩, some (s.fragments ++ [packet]).flatten) := by
  simp only [handleFragments, hd, if_true, hnext, accumulateFragment, accumulateLastFragment,
    nsAssert, foldl_addAtEnd, List.nil_append]
  rfl

theorem handleFragments_stray (hd : s.defragmenting = true) (packet : Packet)
    (hnext : s.isNextFragment hdr.getSequenceControl = false) :
    s.handleFragments packet hdr = .ok (s, none) := by
  simp only [handleFragments, hd, if_true, hnext, Bool.false_eq_true, if_false, ite_self]

theorem receive_returns (s : OriginatorRxStatus) (mpdu : RxMpdu) :
    ∃ s' forwarded, s.receive mpdu = .ok (s', forwarded) ∧
      (mpdu.hdr.ctrlMoreFrag = true → forwarded = none) := by
  unfold receive
  split
  · exact ⟨_, _, rfl, fun _ => rfl⟩
  · have hhandle : ∃ s' aggregate, s.handleFragments mpdu.packet mpdu.hdr = .ok (s', aggregate) ∧
        (mpdu.hdr.ctrlMoreFrag = true → aggregate = none) := by
      unfold handleFragments
      cases hd : s.defragmenting <;> cases hmore : mpdu.hdr.ctrlMoreFrag <;>
        cases hnext : s.isNextFragment mpdu.hdr.getSequenceControl <;>
        simp [accumulateFirstFragment, accumulateLastFragment, accumulateFragment, nsAssert, hd,
          Bind.bind, Except.bind]
    obtain ⟨s', aggregate, heq, hnone⟩ := hhandle
    rw [heq, ok_bind]
    cases aggregate with
    | none => exact ⟨_, _, rfl, fun _ => rfl⟩
    | some p => exact ⟨_, _, rfl, fun hmore => by cases hnone hmore⟩

/-- The status waits for fragment `i` of the MSDU. -/
def Awaits (s : OriginatorRxStatus) (m : Msdu) (i : Nat) : Prop :=
  i = 0 ∧ s.Idle ∧ s.lastSequenceControl ≠ m.control 0 ∨ 0 < i ∧ s = upTo m i

theorem Awaits.last_ne (h : s.Awaits m i) : s.lastSequenceControl ≠ m.control i := by
  rcases h with ⟨rfl, -, hne⟩ | ⟨hpos, rfl⟩
  · exact hne
  · simp only [upTo, Msdu.control]
    omega

theorem isNextFragment_control {j k : Nat} {m' : Msdu} (hlast : s.lastSequenceControl = m.control j)
    (hj : j < 16) (hk : k < 16) :
    s.isNextFragment (m'.control k) = true ↔ m'.number = m.number ∧ k = j + 1 := by
  rw [isNextFragment, decide_eq_true_eq, hlast, Msdu.control_shiftRight hk,
    Msdu.control_shiftRight hj, Msdu.control_and hk, Msdu.control_and hj]

theorem take_succ_fragments (hi : i < m.fragments.length) :
    m.fragments.take i ++ [m.fragments.getD i []] = m.fragments.take (i + 1) := by
  rw [List.getD_eq_getElem?_getD, List.getElem?_eq_getElem hi, Option.getD_some,
    List.take_concat_get' m.fragments i hi]

theorem handleFragments_frame (hi : i < m.fragments.length) (h : s.Awaits m i) (retry : Bool) :
    s.handleFragments (m.frame i retry).packet (m.frame i retry).hdr =
      if i + 1 < m.fragments.length then .ok (upTo m (i + 1), none)
      else .ok (⟨false, if i = 0 then s.lastSequenceControl else m.control i, []⟩,
        some m.fragments.flatten) := by
  have hi16 : i < 16 := hi.trans_le m.fragments_le
  have hcontrol : (m.frame i retry).hdr.getSequenceControl = m.control i :=
    Msdu.getSequenceControl_frame hi16 retry
  have hmore : (m.frame i retry).hdr.ctrlMoreFrag = decide (i + 1 < m.fragments.length) := rfl
  have htake := take_succ_fragments hi
  have hall : ¬i + 1 < m.fragments.length → m.fragments.take (i + 1) = m.fragments :=
    fun hge => List.take_of_length_le (not_lt.mp hge)
  rcases h with ⟨rfl, hidle, -⟩ | ⟨hpos, rfl⟩
  · rw [handleFragments_idle hidle, hmore, hcontrol]
    by_cases hlt : 0 + 1 < m.fragments.length
    · simp only [hlt, decide_true, if_true, upTo, ← htake]
      rfl
    · simp only [hlt, decide_false, Bool.false_eq_true, if_false, if_true]
      obtain ⟨hd, hf⟩ := hidle
      have hone : m.fragments.flatten = m.fragments.getD 0 [] := by
        conv_lhs => rw [← hall hlt, ← htake]
        simp
      cases s
      simp only at hd hf
      rw [hd, hf, hone]
      rfl
  · have hd : (upTo m i).defragmenting = true := decide_eq_true hi
    have hnext : (upTo m i).isNextFragment (m.frame i retry).hdr.getSequenceControl = true := by
      rw [hcontrol]
      exact (isNextFragment_control rfl (by omega) hi16).mpr ⟨rfl, by omega⟩
    have hfrags : (upTo m i).fragments ++ [(m.frame i retry).packet] =
        m.fragments.take (i + 1) := by
      rw [← htake]
      simp only [upTo, hi, if_true]
      rfl
    rw [handleFragments_next hd _ hnext, hmore, hcontrol, hfrags]
    by_cases hlt : i + 1 < m.fragments.length
    · simp only [hlt, decide_true, if_true, upTo]
      rfl
    · simp only [hlt, decide_false, Bool.false_eq_true, if_false, hall hlt, hpos.ne']

theorem receive_frame (hu : m.hdr.addr1.isGroup = false) (hi : i < m.fragments.length)
    (h : s.Awaits m i) (retry : Bool) :
    ∃ forwarded, s.receive (m.frame i retry) = .ok (upTo m (i + 1), forwarded) ∧
      forwarded.toList.map seen = outputAt m (i + 1) := by
  have hcontrol : (m.frame i retry).hdr.getSequenceControl = m.control i :=
    Msdu.getSequenceControl_frame (hi.trans_le m.fragments_le) retry
  have hdup : s.isDuplicate (m.frame i retry).hdr = false := by
    rw [isDuplicate, hcontrol, beq_eq_false_iff_ne.mpr h.last_ne, Bool.and_false]
  have hgroup : (m.frame i retry).hdr.addr1.isGroup = false := hu
  rw [receive, if_neg (by rw [hdup]; exact Bool.false_ne_true), handleFragments_frame hi h]
  by_cases hlt : i + 1 < m.fragments.length
  · rw [if_pos hlt, ok_bind]
    refine ⟨none, rfl, ?_⟩
    rw [outputAt, if_neg hlt.ne]
    rfl
  · have hlast : i + 1 = m.fragments.length := by omega
    rw [if_neg hlt, ok_bind]
    simp only [hgroup, Bool.false_eq_true, if_false, hcontrol]
    refine ⟨some { m.frame i retry with packet := m.fragments.flatten }, ?_, ?_⟩
    · rw [upTo, setSequenceControl, decide_eq_false hlt, if_neg hlt]
      rfl
    · rw [outputAt, if_pos hlast]
      rfl

theorem receive_copy (hi : i < 16) :
    (upTo m (i + 1)).receive (m.frame i true) = .ok (upTo m (i + 1), none) := by
  have hcontrol : (m.frame i true).hdr.getSequenceControl = m.control i :=
    Msdu.getSequenceControl_frame hi true
  have hdup : (upTo m (i + 1)).isDuplicate (m.frame i true).hdr = true := by
    rw [isDuplicate, hcontrol]
    exact beq_self_eq_true (m.control i)
  rw [receive, if_pos hdup]

/-! ## The frames of one MSDU -/

variable {arrivals : List (Bool × Nat)}

/-- Frames are received and, as numbers and packets, `out` is forwarded. -/
def Gives (s : OriginatorRxStatus) (mpdus : List RxMpdu) (s' : OriginatorRxStatus)
    (out : List (Nat × Packet)) : Prop :=
  ∃ forwarded, s.receiveAll mpdus = .ok (s', forwarded) ∧ forwarded.map seen = out

section Gives

variable {s' s'' : OriginatorRxStatus} {mpdus mpdus' : List RxMpdu} {out out' : List (Nat × Packet)}

theorem Gives.nil (s : OriginatorRxStatus) : s.Gives [] s [] := ⟨[], rfl, rfl⟩

theorem Gives.cons {forwarded : Option RxMpdu} (h : s.receive mpdu = .ok (s', forwarded))
    (h' : s'.Gives mpdus s'' out) :
    s.Gives (mpdu :: mpdus) s'' (forwarded.toList.map seen ++ out) := by
  obtain ⟨later, hlater, rfl⟩ := h'
  exact ⟨forwarded.toList ++ later,
    bind_eq_ok.mpr ⟨_, h, bind_eq_ok.mpr ⟨_, hlater, rfl⟩⟩, List.map_append⟩

theorem Gives.unique (h : s.Gives mpdus s' out) (h' : s.Gives mpdus s'' out') :
    s' = s'' ∧ out = out' := by
  obtain ⟨forwarded, heq, rfl⟩ := h
  obtain ⟨forwarded', heq', rfl⟩ := h'
  cases heq.symm.trans heq'
  exact ⟨rfl, rfl⟩

theorem exists_gives (s : OriginatorRxStatus) (mpdus : List RxMpdu) :
    ∃ s' out, s.Gives mpdus s' out := by
  induction mpdus generalizing s with
  | nil => exact ⟨s, [], .nil s⟩
  | cons mpdu mpdus ih =>
    obtain ⟨t, forwarded, hreceive, -⟩ := receive_returns s mpdu
    obtain ⟨s', out, hrest⟩ := ih t
    exact ⟨s', _, .cons hreceive hrest⟩

theorem Gives.append (h : s.Gives mpdus s' out) (h' : s'.Gives mpdus' s'' out') :
    s.Gives (mpdus ++ mpdus') s'' (out ++ out') := by
  induction mpdus generalizing s out with
  | nil =>
    obtain ⟨forwarded, heq, rfl⟩ := h
    cases heq
    exact h'
  | cons mpdu mpdus ih =>
    obtain ⟨forwarded, heq, rfl⟩ := h
    obtain ⟨⟨t, first⟩, hfirst, heq⟩ := bind_eq_ok.mp heq
    obtain ⟨⟨t', later⟩, hlater, ⟨⟩⟩ := bind_pure_eq_ok.mp heq
    have hcons := Gives.cons hfirst (ih ⟨later, hlater, rfl⟩)
    rwa [← List.append_assoc, ← List.map_append] at hcons

end Gives

theorem gives_copies (hi : i < 16) (copies : Nat) :
    (upTo m (i + 1)).Gives (List.replicate copies (m.frame i true)) (upTo m (i + 1)) [] := by
  induction copies with
  | zero => exact .nil _
  | succ n ih => exact .cons (receive_copy hi) ih

theorem gives_framesFrom (hu : m.hdr.addr1.isGroup = false) (harr : arrivals ≠ [])
    (hlen : i + arrivals.length ≤ m.fragments.length) (h : s.Awaits m i) :
    s.Gives (m.framesFrom i arrivals) (upTo m (i + arrivals.length))
      (outputAt m (i + arrivals.length)) := by
  induction arrivals generalizing i s with
  | nil => exact absurd rfl harr
  | cons arrival rest ih =>
    obtain ⟨retry, copies⟩ := arrival
    rw [List.length_cons] at hlen ⊢
    have hi : i < m.fragments.length := by omega
    obtain ⟨forwarded, hfirst, hout⟩ := receive_frame hu hi h retry
    have hcopies := gives_copies (m := m) (hi.trans_le m.fragments_le) copies
    cases rest with
    | nil =>
      have hgives : s.Gives (m.framesFrom i [(retry, copies)]) (upTo m (i + 1)) _ :=
        .cons hfirst (hcopies.append (.nil _))
      rwa [hout, List.append_nil [], List.append_nil] at hgives
    | cons next rest =>
      have hrest := ih (i := i + 1) (List.cons_ne_nil next rest) (by omega)
        (.inr ⟨Nat.succ_pos i, rfl⟩)
      have hsum : i + 1 + (next :: rest).length = i + ((next :: rest).length + 1) := by omega
      rw [hsum] at hrest
      have hnone : outputAt m (i + 1) = [] := by
        rw [outputAt, if_neg]
        rw [List.length_cons] at hlen
        omega
      have hgives := Gives.cons hfirst (hcopies.append hrest)
      rw [hout, hnone] at hgives
      exact hgives

theorem gives_stuck {j : Nat} {m' : Msdu} (hj : j < 16) (hd : s.defragmenting = true)
    (hlast : s.lastSequenceControl = m.control j) (hne : m'.number ≠ m.number)
    (hlen : i + arrivals.length ≤ m'.fragments.length) :
    s.Gives (m'.framesFrom i arrivals) s [] := by
  induction arrivals generalizing i with
  | nil => exact .nil s
  | cons arrival rest ih =>
    obtain ⟨retry, copies⟩ := arrival
    rw [List.length_cons] at hlen
    have hi : i < 16 := by
      have := m'.fragments_le
      omega
    have hdropped (r : Bool) : s.receive (m'.frame i r) = .ok (s, none) := by
      have hcontrol := Msdu.getSequenceControl_frame (m := m') hi r
      have hdup : s.isDuplicate (m'.frame i r).hdr = false := by
        have hcne : m.control j ≠ m'.control i := by
          simp only [Msdu.control]
          omega
        rw [isDuplicate, hcontrol, hlast, beq_eq_false_iff_ne.mpr hcne, Bool.and_false]
      have hnext : s.isNextFragment (m'.frame i r).hdr.getSequenceControl = false := by
        rw [hcontrol]
        refine Bool.eq_false_iff.mpr fun h => hne ?_
        exact ((isNextFragment_control hlast hj hi).mp h).1
      rw [receive, if_neg (by rw [hdup]; exact Bool.false_ne_true),
        handleFragments_stray hd _ hnext]
      rfl
    have hcopies : s.Gives (List.replicate copies (m'.frame i true)) s [] := by
      induction copies with
      | zero => exact .nil s
      | succ n ih => exact .cons (hdropped true) ih
    exact .cons (hdropped retry) (hcopies.append (ih (by omega)))

theorem gives_silent {mpdus : List RxMpdu} (h : ∀ mpdu ∈ mpdus, mpdu.hdr.ctrlMoreFrag = true)
    (s : OriginatorRxStatus) : ∃ s', s.Gives mpdus s' [] := by
  induction mpdus generalizing s with
  | nil => exact ⟨s, .nil s⟩
  | cons mpdu mpdus ih =>
    obtain ⟨t, forwarded, hreceive, hnone⟩ := receive_returns s mpdu
    obtain rfl := hnone (h mpdu (.head _))
    obtain ⟨s', hrest⟩ := ih (fun mpdu' hmem => h mpdu' (.tail _ hmem)) t
    exact ⟨s', .cons hreceive hrest⟩

end OriginatorRxStatus

namespace Msdu

variable {m : Msdu} {ms : List Msdu}

theorem moreFrag_of_mem_framesFrom {i : Nat} {arrivals : List (Bool × Nat)} {mpdu : RxMpdu}
    (hlt : i + arrivals.length < m.fragments.length) (h : mpdu ∈ m.framesFrom i arrivals) :
    mpdu.hdr.ctrlMoreFrag = true := by
  induction arrivals generalizing i with
  | nil => cases h
  | cons arrival rest ih =>
    obtain ⟨retry, copies⟩ := arrival
    rw [List.length_cons] at hlt
    have hmore (r : Bool) : (m.frame i r).hdr.ctrlMoreFrag = true := decide_eq_true (by omega)
    rcases List.mem_cons.mp h with rfl | h
    · exact hmore retry
    rcases List.mem_append.mp h with h | h
    · rw [List.eq_of_mem_replicate h]
      exact hmore true
    · exact ih (by omega) h

theorem moreFrag_of_not_complete {mpdu : RxMpdu} (hc : ¬m.Complete) (h : mpdu ∈ m.frames) :
    mpdu.hdr.ctrlMoreFrag = true := by
  refine moreFrag_of_mem_framesFrom ?_ h
  have hle : m.arrivals.length ≤ m.fragments.length := m.arrivals_le
  have hne : m.arrivals.length ≠ m.fragments.length := hc
  omega

theorem not_complete_of_not_heard (h : ¬m.Heard) : ¬m.Complete := by
  intro hc
  have harr : m.arrivals = [] := not_not.mp h
  have hlen : m.arrivals.length = m.fragments.length := hc
  rw [harr, List.length_nil] at hlen
  exact m.fragments_ne (List.length_eq_zero_iff.mp hlen.symm)

theorem expected_cons (m : Msdu) (ms : List Msdu) :
    expected (m :: ms) =
      if m.Complete then (m.number, m.fragments.flatten) :: expected ms else expected ms := by
  by_cases hc : m.Complete <;> simp [expected, hc]

theorem expected_eq_nil : expected ms = [] ↔ ∀ m ∈ ms, ¬m.Complete := by
  simp [expected]

theorem noneAbandoned_cons :
    NoneAbandoned (m :: ms) ↔ (m.Abandoned → ∀ m' ∈ ms, ¬m'.Complete) ∧ NoneAbandoned ms := by
  rw [NoneAbandoned, List.pairwise_cons]
  refine and_congr_left' ?_
  exact ⟨fun h ha m' hm' => h m' hm' ha, fun h m' hm' ha => h ha m' hm'⟩

theorem noneAbandoned_of_none_complete (h : ∀ m ∈ ms, ¬m.Complete) : NoneAbandoned ms := by
  induction ms with
  | nil => exact .nil
  | cons m ms ih =>
    have hms : ∀ m' ∈ ms, ¬m'.Complete := fun m' hm' => h m' (.tail _ hm')
    exact noneAbandoned_cons.mpr ⟨fun _ => hms, ih hms⟩

end Msdu

namespace OriginatorRxStatus

open Msdu

/-- The next MSDU that is heard does not start where the last one ended. -/
def Apart (s : OriginatorRxStatus) (ms : List Msdu) : Prop :=
  ∀ m ∈ (ms.filter fun m => m.Heard).head?, s.lastSequenceControl ≠ m.control 0

variable {s : OriginatorRxStatus} {m : Msdu}

theorem apart_of_numbersChange {ms : List Msdu} {j : Nat} (hj : j < 16)
    (hlast : s.lastSequenceControl = m.control j) (hh : m.Heard) (h : NumbersChange (m :: ms)) :
    s.Apart ms := by
  intro m' hm'
  rw [NumbersChange, List.filter_cons_of_pos (by simpa using hh)] at h
  obtain ⟨rest, hrest⟩ : ∃ rest, (ms.filter fun m => m.Heard) = m' :: rest := by
    obtain ⟨rest, hrest⟩ := List.head?_eq_some_iff.mp hm'
    exact ⟨rest, hrest⟩
  rw [hrest, List.isChain_cons_cons] at h
  have hne : m.number ≠ m'.number := h.1
  rw [hlast]
  show m.number * 16 + j ≠ m'.number * 16 + 0
  omega

theorem numbersChange_tail {ms : List Msdu} (h : NumbersChange (m :: ms)) : NumbersChange ms := by
  by_cases hh : m.Heard
  · rw [NumbersChange, List.filter_cons_of_pos (by simpa using hh)] at h
    exact h.of_cons
  · rwa [NumbersChange, List.filter_cons_of_neg (by simpa using hh)] at h

theorem gives_after_abandoned {ms : List Msdu} {j : Nat} (hj : j < 16) (hd : s.defragmenting = true)
    (hlast : s.lastSequenceControl = m.control j) (hne : ∀ m' ∈ ms, m'.number ≠ m.number) :
    s.Gives (ms.flatMap frames) s [] := by
  induction ms with
  | nil => exact .nil s
  | cons m' ms ih =>
    have hfirst : s.Gives m'.frames s [] :=
      gives_stuck hj hd hlast (hne m' (.head _)) (by
        rw [Nat.zero_add]
        exact m'.arrivals_le)
    exact hfirst.append (ih fun m'' hm'' => hne m'' (.tail _ hm''))

/-- The MSDUs of one originator come out as sent when none is abandoned. -/
theorem gives_stream {ms : List Msdu} (hu : ∀ m ∈ ms, m.hdr.addr1.isGroup = false) (hidle : s.Idle)
    (hapart : s.Apart ms) (hchange : NumbersChange ms) :
    ∃ s' out, s.Gives (ms.flatMap frames) s' out ∧ (NoneAbandoned ms → out = expected ms) ∧
      ((ms.map Msdu.number).Nodup → out = expected ms → NoneAbandoned ms) := by
  induction ms generalizing s with
  | nil => exact ⟨s, [], .nil s, fun _ => rfl, fun _ _ => .nil⟩
  | cons m ms ih =>
    have hums : ∀ m' ∈ ms, m'.hdr.addr1.isGroup = false :=
      fun m' hm' => hu m' (.tail _ hm')
    have hchange' : NumbersChange ms := numbersChange_tail hchange
    rw [expected_cons, noneAbandoned_cons, List.map_cons, List.nodup_cons]
    by_cases hh : m.Heard
    rotate_left
    · -- nothing arrives
      have hframes : m.frames = [] := by
        rw [frames, not_not.mp hh]
        rfl
      have hapart' : s.Apart ms := by
        rwa [Apart, List.filter_cons_of_neg (by simpa using hh)] at hapart
      obtain ⟨s', out, hgives, hfwd, hback⟩ := ih hums hidle hapart' hchange'
      rw [if_neg (not_complete_of_not_heard hh), List.flatMap_cons, hframes, List.nil_append]
      exact ⟨s', out, hgives, fun h => hfwd h.2,
        fun hnd heq => ⟨fun ha => absurd ha.1 hh, hback hnd.2 heq⟩⟩
    have hle : m.arrivals.length ≤ m.fragments.length := m.arrivals_le
    have hpos : 0 < m.arrivals.length := List.length_pos_of_ne_nil hh
    have hj : m.arrivals.length - 1 < 16 := by
      have := m.fragments_le
      omega
    have hawaits : s.Awaits m 0 := by
      refine .inl ⟨rfl, hidle, hapart m ?_⟩
      rw [List.filter_cons_of_pos (by simpa using hh)]
      rfl
    have hburst := gives_framesFrom (hu m (.head _)) hh (by omega) hawaits
    rw [Nat.zero_add] at hburst
    by_cases hc : m.Complete
    · -- the MSDU is forwarded and nothing is left behind
      have hidle' : (upTo m m.arrivals.length).Idle := by
        have hge : ¬m.arrivals.length < m.fragments.length := by
          have : m.arrivals.length = m.fragments.length := hc
          omega
        exact ⟨decide_eq_false hge, if_neg hge⟩
      obtain ⟨s', out, hgives, hfwd, hback⟩ :=
        ih hums hidle' (apart_of_numbersChange hj rfl hh hchange) hchange'
      have hout : outputAt m m.arrivals.length = [(m.number, m.fragments.flatten)] := if_pos hc
      rw [hout] at hburst
      rw [if_pos hc]
      refine ⟨s', _, hburst.append hgives, ?_, ?_⟩
      · intro h
        rw [hfwd h.2]
        rfl
      · intro hnd heq
        exact ⟨fun ha => absurd hc ha.2, hback hnd.2 (List.cons.inj heq).2⟩
    · -- the burst is abandoned
      have hout : outputAt m m.arrivals.length = [] := if_neg hc
      rw [hout] at hburst
      rw [if_neg hc]
      obtain ⟨s', out, hgives⟩ := exists_gives (upTo m m.arrivals.length) (ms.flatMap frames)
      refine ⟨s', out, hburst.append hgives, ?_, ?_⟩
      · intro h
        have hnone : ∀ m' ∈ ms, ¬m'.Complete := h.1 ⟨hh, hc⟩
        obtain ⟨s'', hsilent⟩ := @gives_silent (ms.flatMap frames) (by
          intro mpdu hmem
          obtain ⟨m', hm', hmem⟩ := List.mem_flatMap.mp hmem
          exact moreFrag_of_not_complete (hnone m' hm') hmem) (upTo m m.arrivals.length)
        rw [(hgives.unique hsilent).2, expected_eq_nil.mpr hnone]
      · intro hnd heq
        have hd : (upTo m m.arrivals.length).defragmenting = true := by
          refine decide_eq_true ?_
          have : m.arrivals.length ≠ m.fragments.length := hc
          omega
        have hstuck := @gives_after_abandoned _ _ ms _ hj hd rfl fun m' hm' hnum =>
          hnd.1 (List.mem_map.mpr ⟨m', hm', hnum⟩)
        have hnone : ∀ m' ∈ ms, ¬m'.Complete := by
          rw [← expected_eq_nil, ← heq, (hgives.unique hstuck).2]
        exact ⟨fun _ => hnone, noneAbandoned_of_none_complete hnone⟩

end OriginatorRxStatus

/-! ## All originators -/

namespace MacRxMiddle

open Msdu OriginatorRxStatus

def forwardedFrom (key : OriginatorKey) (out : List RxMpdu) : List (Nat × Packet) :=
  (out.filter fun mpdu => mpdu.hdr.originatorKey = key).map seen

theorem hdr_of_receive {s s' : OriginatorRxStatus} {mpdu out : RxMpdu}
    (h : s.receive mpdu = .ok (s', some out)) : out.hdr = mpdu.hdr := by
  unfold OriginatorRxStatus.receive at h
  split at h
  · cases h
  · obtain ⟨⟨t, aggregate⟩, -, h⟩ := bind_eq_ok.mp h
    cases aggregate with
    | none => cases h
    | some p =>
      obtain ⟨-, hout⟩ := pair_of_ok h
      rw [← Option.some.inj hout]

theorem receiveAll_key (key : OriginatorKey) {frames : List RxMpdu}
    (hkind : ∀ mpdu ∈ frames, mpdu.hdr.isData = true ∨ mpdu.hdr.isMgt = true) (m : MacRxMiddle) :
    ∃ m' out, m.receiveAll frames = .ok (m', out) ∧
      (m.originatorStatus key).Gives (frames.filter fun mpdu => mpdu.hdr.originatorKey = key)
        (m'.originatorStatus key) (forwardedFrom key out) := by
  induction frames generalizing m with
  | nil => exact ⟨m, [], rfl, .nil _⟩
  | cons mpdu rest ih =>
    have hassert : nsAssert (mpdu.hdr.isData || mpdu.hdr.isMgt) = .ok () :=
      nsAssert_eq_ok.mpr (by simpa using hkind mpdu (.head _))
    obtain ⟨s, forwarded, hreceive, -⟩ :=
      receive_returns (m.originatorStatus mpdu.hdr.originatorKey) mpdu
    have hstep : m.receive mpdu =
        .ok (⟨Function.update m.originatorStatus mpdu.hdr.originatorKey s⟩, forwarded) := by
      rw [receive, hassert, ok_bind]
      exact bind_eq_ok.mpr ⟨_, hreceive, rfl⟩
    obtain ⟨m', later, hlater, hgives⟩ :=
      ih (fun mpdu' h => hkind mpdu' (.tail _ h))
        ⟨Function.update m.originatorStatus mpdu.hdr.originatorKey s⟩
    refine ⟨m', forwarded.toList ++ later,
      bind_eq_ok.mpr ⟨_, hstep, bind_eq_ok.mpr ⟨_, hlater, rfl⟩⟩, ?_⟩
    have hhdr : ∀ out ∈ forwarded.toList, out.hdr = mpdu.hdr := by
      intro out hout
      obtain rfl := Option.mem_toList.mp hout
      exact hdr_of_receive hreceive
    by_cases hkey : mpdu.hdr.originatorKey = key
    · subst hkey
      have hs : (MacRxMiddle.mk (Function.update m.originatorStatus mpdu.hdr.originatorKey s)
          ).originatorStatus mpdu.hdr.originatorKey = s := Function.update_self ..
      rw [hs] at hgives
      have hall : forwarded.toList.filter
          (fun out => out.hdr.originatorKey = mpdu.hdr.originatorKey) = forwarded.toList :=
        List.filter_eq_self.mpr fun out hout => by simp [hhdr out hout]
      rw [List.filter_cons_of_pos (by simp), forwardedFrom, List.filter_append, List.map_append,
        hall]
      exact .cons hreceive hgives
    · have hs : (MacRxMiddle.mk (Function.update m.originatorStatus mpdu.hdr.originatorKey s)
          ).originatorStatus key = m.originatorStatus key :=
        Function.update_of_ne (Ne.symm hkey) ..
      rw [hs] at hgives
      have hnone : forwarded.toList.filter (fun out => out.hdr.originatorKey = key) = [] :=
        List.filter_eq_nil_iff.mpr fun out hout => by simp [hhdr out hout, hkey]
      rwa [List.filter_cons_of_neg (by simpa using hkey), forwardedFrom, List.filter_append,
        hnone, List.nil_append]

/-- **Defragmentation.** Among any other frames no assertion fails, and while MSDUs heard one after
another have different numbers, exactly those received completely are forwarded, in order, if none
comes after an abandoned burst. -/
theorem receiveAll_defragments {key : OriginatorKey} {ms : List Msdu} {frames : List RxMpdu}
    (hu : ∀ m ∈ ms, m.hdr.addr1.isGroup = false)
    (hkind : ∀ mpdu ∈ frames, mpdu.hdr.isData = true ∨ mpdu.hdr.isMgt = true)
    (hframes : frames.filter (fun mpdu => mpdu.hdr.originatorKey = key) = ms.flatMap Msdu.frames) :
    ∃ m' out, initial.receiveAll frames = .ok (m', out) ∧
      (NumbersChange ms → NoneAbandoned ms → forwardedFrom key out = expected ms) ∧
      ((ms.map Msdu.number).Nodup →
        (forwardedFrom key out = expected ms ↔ NoneAbandoned ms)) := by
  obtain ⟨m', out, hall, hgives⟩ := receiveAll_key key hkind initial
  rw [hframes] at hgives
  have hidle : (initial.originatorStatus key).Idle := ⟨rfl, rfl⟩
  have hapart : (initial.originatorStatus key).Apart ms := by
    intro m _
    show 0xffff ≠ m.number * 16 + 0
    omega
  have hstream (hchange : NumbersChange ms) :
      (NoneAbandoned ms → forwardedFrom key out = expected ms) ∧
      ((ms.map Msdu.number).Nodup → forwardedFrom key out = expected ms → NoneAbandoned ms) := by
    obtain ⟨s', out', hgives', hfwd, hback⟩ := gives_stream hu hidle hapart hchange
    rw [(hgives.unique hgives').2]
    exact ⟨hfwd, hback⟩
  refine ⟨m', out, hall, fun hchange => (hstream hchange).1, fun hnd => ?_⟩
  have hchange : NumbersChange ms := by
    have hpair : ms.Pairwise fun m m' => m.number ≠ m'.number := List.pairwise_map.mp hnd
    exact (hpair.sublist List.filter_sublist).isChain
  exact ⟨(hstream hchange).2 hnd, (hstream hchange).1⟩

/-- The frames of a station with address 02-00-00-00-00-01. -/
def sampleHeader : WifiMacHeader :=
  { ctrlType := .data, ctrlSubtype := 0, ctrlMoreFrag := false, ctrlRetry := false
    addr1 := ⟨[2, 0, 0, 0, 0, 2], rfl⟩, addr2 := ⟨[2, 0, 0, 0, 0, 1], rfl⟩
    seqFrag := 0, seqSeq := 0, qosTid := 0 }

def samplePair (number : Nat) (h : number < 4096) (both : Bool) : Msdu :=
  { hdr := sampleHeader, number, number_lt := h, fragments := [[1], [2]]
    fragments_ne := List.cons_ne_nil _ _, fragments_le := by decide
    arrivals := if both then [(false, 1), (true, 0)] else [(true, 1)]
    arrivals_le := by cases both <;> decide }

/-- Two MSDUs of two fragments each, the second one not received completely. -/
theorem receiveAll_defragments_two : ∃ m' out,
    initial.receiveAll ((samplePair 7 (by decide) true).frames ++
      (samplePair 8 (by decide) false).frames) = .ok (m', out) ∧
    forwardedFrom (.other sampleHeader.addr2) out = [(7, [1, 2])] := by
  obtain ⟨m', out, hall, -, hiff⟩ := @receiveAll_defragments
    (.other sampleHeader.addr2)
    [samplePair 7 (by decide) true, samplePair 8 (by decide) false]
    ((samplePair 7 (by decide) true).frames ++ (samplePair 8 (by decide) false).frames)
    (by decide) (by decide) (by decide)
  refine ⟨m', out, hall, (hiff (by decide)).mpr ?_⟩
  exact List.pairwise_pair.mpr fun ha => absurd rfl ha.2

/-- A burst abandoned after its first fragment, and then an MSDU of both fragments. -/
theorem not_receiveAll_defragments :
    ¬∀ (key : OriginatorKey) (ms : List Msdu) (frames : List RxMpdu),
      (∀ m ∈ ms, m.hdr.addr1.isGroup = false) →
      (∀ mpdu ∈ frames, mpdu.hdr.isData = true ∨ mpdu.hdr.isMgt = true) →
      frames.filter (fun mpdu => mpdu.hdr.originatorKey = key) = ms.flatMap Msdu.frames →
      ms.Pairwise (fun m m' => m.number < m'.number) →
      ∃ m' out, initial.receiveAll frames = .ok (m', out) ∧
        forwardedFrom key out = expected ms := by
  intro hall
  let ms := [samplePair 7 (by decide) false, samplePair 8 (by decide) true]
  obtain ⟨m', out, hrun, hout⟩ := hall (.other sampleHeader.addr2) ms (ms.flatMap Msdu.frames)
    (by decide) (by decide) (by decide) (List.pairwise_pair.mpr (by decide))
  have hnone : (initial.receiveAll (ms.flatMap Msdu.frames)).toOption.map Prod.snd = some [] := by
    decide +kernel
  rw [hrun] at hnone
  obtain rfl : out = [] := Option.some.inj hnone
  exact absurd hout (by decide)

end MacRxMiddle

end Ns3
