/-
  Karn's rule for the RTT samples of a TCP sender.

  A run carries, besides the estimation state, the stream offset of each entry's first
  byte and a log of all transmissions.  An entry that is not marked keeps the bytes it was
  logged with; the invariant says that each of them was transmitted exactly once.
-/
import Ns3.Internet.Tcp.RttHistory
import Ns3.Lib.Run
import Mathlib.Data.List.Count
import Mathlib.Data.List.Zip

namespace Ns3.Tcp

open Ns3.Lib

/-- What happens to the estimation; a retransmission is named by its stream offset. -/
inductive KarnOp where
  | transmit (sz : Nat) (now : Time)
  | retransmit (off sz : Nat) (now : Time)
  | ack (tcpHeader : TcpHeader) (now : Time)
  | timeout

/-- The estimation of a sender whose stream begins at `start`, with the offsets of its history's
entries, the log of its transmissions and the offset that is sent next. -/
structure KarnRun (ρ : Type*) where
  start : SequenceNumber32
  est : RttState ρ
  offsets : List Nat := []
  sent : List (Nat × Nat) := []
  next : Nat := 0

namespace KarnRun

variable {ρ : Type*} {est : RttEstimator ρ} {st st' : KarnRun ρ} {op : KarnOp} {ops : List KarnOp}

/-- How many of the transmissions carry the byte at offset `k`. -/
def timesSent (sent : List (Nat × Nat)) (k : Nat) : Nat :=
  sent.countP fun p => decide (p.1 ≤ k) && decide (k < p.1 + p.2)

def tracked (st : KarnRun ρ) : List (Nat × RttHistory) := st.offsets.zip st.est.history

/-- Every byte of the entry was transmitted once. -/
def SentOnce (sent : List (Nat × Nat)) (entry : Nat × RttHistory) : Prop :=
  ∀ k, entry.1 ≤ k → k < entry.1 + entry.2.count → timesSent sent k = 1

def transmit (st : KarnRun ρ) (sz : Nat) (now : Time) : KarnRun ρ :=
  { st with
    est := { st.est with history :=
      RttHistory.updateRttHistory st.est.history (st.start.add st.next) sz false now }
    offsets := st.offsets ++ [st.next]
    sent := st.sent ++ [(st.next, sz)]
    next := st.next + sz }

def retransmit (st : KarnRun ρ) (off sz : Nat) (now : Time) : KarnRun ρ :=
  { st with
    est := { st.est with history :=
      RttHistory.updateRttHistory st.est.history (st.start.add off) sz true now }
    sent := st.sent ++ [(off, sz)]
    next := max st.next (off + sz) }

def removed (est : RttEstimator ρ) (st : KarnRun ρ) (tcpHeader : TcpHeader) (now : Time) : Nat :=
  st.est.history.length - (st.est.estimateRtt est tcpHeader now).history.length

def ack (est : RttEstimator ρ) (st : KarnRun ρ) (tcpHeader : TcpHeader) (now : Time) :
    KarnRun ρ :=
  { st with
    est := st.est.estimateRtt est tcpHeader now
    offsets := st.offsets.drop (st.removed est tcpHeader now) }

def timeout (st : KarnRun ρ) : KarnRun ρ := { st with est := st.est.reTxTimeout, offsets := [] }

/-- One event of the socket. -/
inductive Step (est : RttEstimator ρ) (st : KarnRun ρ) : KarnOp → KarnRun ρ → Prop where
  | transmit {sz : Nat} {now : Time} : Step est st (.transmit sz now) (st.transmit sz now)
  | retransmit {off sz : Nat} {now : Time} (hoff : off < st.next) :
      Step est st (.retransmit off sz now) (st.retransmit off sz now)
  | ack {tcpHeader : TcpHeader} {now : Time} :
      Step est st (.ack tcpHeader now) (st.ack est tcpHeader now)
  | timeout : Step est st .timeout st.timeout

/-- The entries that `EstimateRtt` takes a sample of: the first one for the estimator, and the last
one it removes, or the first, for `m_lastRtt`. -/
def sampled (est : RttEstimator ρ) (st : KarnRun ρ) (tcpHeader : TcpHeader) (now : Time) :
    List (Nat × RttHistory) :=
  (st.tracked[0]?.toList ++ st.tracked[st.removed est tcpHeader now - 1]?.toList).filter
    fun entry => decide (st.est.calculateRttSample tcpHeader now entry.2 ≠ 0)

/-- A retransmission shares no byte with an entry that is not marked, other than the
entry that `UpdateRttHistory` finds. -/
def Within (st : KarnRun ρ) : KarnOp → Prop
  | .retransmit off sz _ =>
    ∀ i o entry, st.tracked[i]? = some (o, entry) → entry.retx = false →
      (∃ k, o ≤ k ∧ k < o + entry.count ∧ off ≤ k ∧ k < off + sz) →
        st.est.history.findIdx? (RttHistory.holds (st.start.add off)) = some i
  | _ => True

/-- Every entry that is not marked consists of bytes that were transmitted once. -/
def Unambiguous (st : KarnRun ρ) : Prop :=
  ∀ entry ∈ st.tracked, entry.2.retx = false → SentOnce st.sent entry

/-! ## Counting transmissions -/

variable {sent : List (Nat × Nat)} {entry : Nat × RttHistory}

theorem timesSent_append_singleton (sent : List (Nat × Nat)) (off sz k : Nat) :
    timesSent (sent ++ [(off, sz)]) k =
      timesSent sent k + if off ≤ k ∧ k < off + sz then 1 else 0 := by
  rw [timesSent, List.countP_append, List.countP_singleton]
  simp only [Bool.and_eq_true, decide_eq_true_eq]
  rfl

theorem timesSent_eq_zero {next k : Nat} (hsent : ∀ p ∈ sent, p.1 + p.2 ≤ next) (hk : next ≤ k) :
    timesSent sent k = 0 := by
  rw [timesSent, List.countP_eq_zero]
  intro p hp
  have hend := hsent p hp
  simp only [Bool.and_eq_true, decide_eq_true_eq]
  omega

theorem SentOnce.append {off sz : Nat} (h : SentOnce sent entry)
    (hapart : ∀ k, entry.1 ≤ k → k < entry.1 + entry.2.count → ¬(off ≤ k ∧ k < off + sz)) :
    SentOnce (sent ++ [(off, sz)]) entry := by
  intro k hle hlt
  rw [timesSent_append_singleton, if_neg (hapart k hle hlt)]
  exact h k hle hlt

theorem SentOnce.repeated {off sz k : Nat} (h : SentOnce sent entry) (hle : entry.1 ≤ k)
    (hlt : k < entry.1 + entry.2.count) (hoff : off ≤ k) (hend : k < off + sz) :
    ¬SentOnce (sent ++ [(off, sz)]) entry := by
  intro h'
  have hagain := h' k hle hlt
  rw [timesSent_append_singleton, if_pos ⟨hoff, hend⟩, h k hle hlt] at hagain
  omega

/-! ## The invariant -/

variable {now : Time}

/-- What holds in every state of a run that respects the entries. -/
structure Consistent (st : KarnRun ρ) : Prop where
  length_eq : st.offsets.length = st.est.history.length
  unambiguous : st.Unambiguous
  entry_le : ∀ entry ∈ st.tracked, entry.2.retx = false → entry.1 + entry.2.count ≤ st.next
  sent_le : ∀ p ∈ st.sent, p.1 + p.2 ≤ st.next

theorem Consistent.tracked_transmit (h : st.Consistent) (sz : Nat) (now : Time) :
    (st.transmit sz now).tracked = st.tracked ++
      [(st.next, { seq := st.start.add st.next, count := sz, time := now })] :=
  List.zip_append h.length_eq

theorem Consistent.transmit (h : st.Consistent) (sz : Nat) (now : Time) :
    (st.transmit sz now).Consistent := by
  refine ⟨?_, ?_, ?_, ?_⟩
  · simp [KarnRun.transmit, RttHistory.updateRttHistory, h.length_eq]
  · intro entry hmem hretx
    rw [h.tracked_transmit] at hmem
    rcases List.mem_append.mp hmem with hold | hnew
    · have hle := h.entry_le entry hold hretx
      apply (h.unambiguous entry hold hretx).append
      intro k _ hlt
      omega
    · obtain rfl := List.mem_singleton.mp hnew
      intro k hle hlt
      dsimp only [KarnRun.transmit]
      rw [timesSent_append_singleton, timesSent_eq_zero h.sent_le hle, if_pos ⟨hle, hlt⟩]
  · intro entry hmem hretx
    rw [h.tracked_transmit] at hmem
    rcases List.mem_append.mp hmem with hold | hnew
    · exact (h.entry_le entry hold hretx).trans (Nat.le_add_right _ _)
    · obtain rfl := List.mem_singleton.mp hnew
      exact le_rfl
  · intro p hp
    rcases List.mem_append.mp hp with hold | hnew
    · exact (h.sent_le p hold).trans (Nat.le_add_right _ _)
    · obtain rfl := List.mem_singleton.mp hnew
      exact le_rfl

theorem tracked_retransmit {off sz i o : Nat} {entry : RttHistory} (hretx : entry.retx = false) :
    (st.retransmit off sz now).tracked[i]? = some (o, entry) ↔
      st.tracked[i]? = some (o, entry) ∧
        st.est.history.findIdx? (RttHistory.holds (st.start.add off)) ≠ some i := by
  rw [tracked, tracked, List.getElem?_zip_eq_some, List.getElem?_zip_eq_some]
  constructor
  · rintro ⟨hoffset, hentry⟩
    rcases RttHistory.markRetransmitted_getElem? hentry with ⟨hfind, hget⟩ | ⟨-, hmarked⟩
    · exact ⟨⟨hoffset, hget⟩, hfind⟩
    · rw [hretx] at hmarked
      cases hmarked
  · rintro ⟨⟨hoffset, hentry⟩, hfind⟩
    exact ⟨hoffset, RttHistory.markRetransmitted_getElem?_of_ne hentry hfind⟩

section

variable (h : st.Consistent)

include h

theorem Consistent.unambiguous_retransmit_iff (off sz : Nat) (now : Time) :
    (st.retransmit off sz now).Unambiguous ↔ st.Within (.retransmit off sz now) := by
  constructor
  · intro hall i o entry hget hretx ⟨k, hle, hlt, hoff, hend⟩
    by_contra hfind
    have hold := h.unambiguous (o, entry) (List.mem_of_getElem? hget) hretx
    apply hold.repeated hle hlt hoff hend
    exact hall (o, entry)
      (List.mem_of_getElem? ((tracked_retransmit hretx).mpr ⟨hget, hfind⟩)) hretx
  · rintro hwithin ⟨o, entry⟩ hmem hretx
    obtain ⟨i, hget⟩ := List.mem_iff_getElem?.mp hmem
    obtain ⟨hold, hfind⟩ := (tracked_retransmit hretx).mp hget
    apply (h.unambiguous (o, entry) (List.mem_of_getElem? hold) hretx).append
    intro k hle hlt hshared
    exact hfind (hwithin i o entry hold hretx ⟨k, hle, hlt, hshared.1, hshared.2⟩)

theorem Consistent.retransmit {off sz : Nat} (hwithin : st.Within (.retransmit off sz now)) :
    (st.retransmit off sz now).Consistent := by
  refine ⟨?_, (h.unambiguous_retransmit_iff off sz now).mpr hwithin, ?_, ?_⟩
  · exact h.length_eq.trans (RttHistory.length_markRetransmitted _ _ _).symm
  · rintro ⟨o, entry⟩ hmem hretx
    obtain ⟨i, hget⟩ := List.mem_iff_getElem?.mp hmem
    obtain ⟨hold, -⟩ := (tracked_retransmit hretx).mp hget
    exact (h.entry_le _ (List.mem_of_getElem? hold) hretx).trans (Nat.le_max_left _ _)
  · intro p hp
    rcases List.mem_append.mp hp with hold | hnew
    · exact (h.sent_le p hold).trans (Nat.le_max_left _ _)
    · obtain rfl := List.mem_singleton.mp hnew
      exact Nat.le_max_right _ _

theorem Consistent.ack (tcpHeader : TcpHeader) (now : Time) :
    (st.ack est tcpHeader now).Consistent := by
  obtain ⟨n, hle, hhistory⟩ := RttState.estimateRtt_history est st.est tcpHeader now
  have hremoved : st.removed est tcpHeader now = n := by
    rw [removed, hhistory, List.length_drop]
    omega
  have hsub : ∀ entry ∈ (st.ack est tcpHeader now).tracked, entry ∈ st.tracked := by
    intro entry hmem
    dsimp only [KarnRun.ack, tracked] at hmem
    rw [hhistory, hremoved, List.zip, ← List.drop_zipWith] at hmem
    exact List.mem_of_mem_drop hmem
  refine ⟨?_, ?_, ?_, h.sent_le⟩
  · dsimp only [KarnRun.ack]
    rw [hhistory, hremoved, List.length_drop, List.length_drop, h.length_eq]
  · exact fun entry hmem hretx => h.unambiguous entry (hsub entry hmem) hretx
  · exact fun entry hmem hretx => h.entry_le entry (hsub entry hmem) hretx

theorem Consistent.timeout : st.timeout.Consistent :=
  ⟨rfl, List.forall_mem_nil _, List.forall_mem_nil _,
    h.sent_le⟩

/-- **Step lemma.**  A step keeps the entries unambiguous exactly if it respects them. -/
theorem Consistent.step_iff (hstep : Step est st op st') : st'.Unambiguous ↔ st.Within op := by
  cases hstep with
  | transmit => exact iff_of_true (h.transmit _ _).unambiguous trivial
  | retransmit _ => exact h.unambiguous_retransmit_iff _ _ _
  | ack => exact iff_of_true (h.ack _ _).unambiguous trivial
  | timeout => exact iff_of_true h.timeout.unambiguous trivial

end

def WithinStep (est : RttEstimator ρ) (st : KarnRun ρ) (op : KarnOp) (st' : KarnRun ρ) : Prop :=
  Step est st op st' ∧ st.Within op

/-- The history keeps matching what was sent. -/
theorem Consistent.step (h : st.Consistent) (hstep : WithinStep est st op st') :
    st'.Consistent := by
  obtain ⟨hstep, hwithin⟩ := hstep
  cases hstep with
  | transmit => exact h.transmit _ _
  | retransmit _ => exact h.retransmit hwithin
  | ack => exact h.ack _ _
  | timeout => exact h.timeout

def initial (start : SequenceNumber32) (est : RttState ρ) : KarnRun ρ :=
  { start, est := { est with history := [] } }

theorem consistent_initial (start : SequenceNumber32) (est : RttState ρ) :
    (initial start est).Consistent :=
  ⟨rfl, List.forall_mem_nil _, List.forall_mem_nil _,
    List.forall_mem_nil _⟩

/-! ## What is sampled -/

variable {tcpHeader : TcpHeader}

/-- Without timestamps no sample comes from an entry marked as a retransmission. -/
theorem retx_of_calculateRttSample {est : RttState ρ} {entry : RttHistory}
    (hts : est.timestampEnabled = false ∨ tcpHeader.optionTS = none)
    (h : est.calculateRttSample tcpHeader now entry ≠ 0) : entry.retx = false := by
  rw [RttState.calculateRttSample] at h
  split at h
  · split at h
    · rename_i henabled hoption
      rcases hts with hoff | hnone
      · rw [henabled] at hoff
        cases hoff
      · rw [hoption] at hnone
        cases hnone
    · split at h
      · rename_i hretx
        simpa using hretx
      · exact absurd rfl h
  · exact absurd rfl h

theorem mem_sampled (h : entry ∈ st.sampled est tcpHeader now) :
    entry ∈ st.tracked ∧ st.est.calculateRttSample tcpHeader now entry.2 ≠ 0 := by
  obtain ⟨hmem, hsample⟩ := List.mem_filter.mp h
  refine ⟨?_, of_decide_eq_true hsample⟩
  rcases List.mem_append.mp hmem with hfirst | hlast
  · exact List.mem_of_getElem? (Option.mem_toList.mp hfirst)
  · exact List.mem_of_getElem? (Option.mem_toList.mp hlast)

section

variable (hlength : st.offsets.length = st.est.history.length)
  (h : st.sampled est tcpHeader now = [])

include hlength h

theorem sample_eq_zero {i : Nat} {entry : RttHistory}
    (hi : i = 0 ∨ i = st.removed est tcpHeader now - 1) (hget : st.est.history[i]? = some entry) :
    st.est.calculateRttSample tcpHeader now entry = 0 := by
  have hlt : i < st.offsets.length := by
    rw [hlength]
    exact (List.getElem?_eq_some_iff.mp hget).1
  have htracked : st.tracked[i]? = some (st.offsets[i], entry) :=
    List.getElem?_zip_eq_some.mpr ⟨List.getElem?_eq_getElem hlt, hget⟩
  by_contra hne
  have hmem : (st.offsets[i], entry) ∈ st.sampled est tcpHeader now := by
    apply List.mem_filter.mpr
    refine ⟨List.mem_append.mpr ?_, decide_eq_true hne⟩
    rcases hi with rfl | rfl
    · exact .inl (Option.mem_toList.mpr htracked)
    · exact .inr (Option.mem_toList.mpr htracked)
  rw [h] at hmem
  cases hmem

theorem estimateRtt_of_not_sampled :
    st.est.estimateRtt est tcpHeader now =
      { st.est with history := (st.est.estimateRtt est tcpHeader now).history } := by
  cases hhistory : st.est.history with
  | nil => rw [RttState.estimateRtt_nil hhistory]
  | cons earliest rest =>
    obtain ⟨n, latest, hle, hlatest, heq⟩ :=
      RttState.estimateRtt_cons est hhistory tcpHeader now
    have hfirst : st.est.calculateRttSample tcpHeader now earliest = 0 :=
      sample_eq_zero hlength h (.inl rfl) (by rw [hhistory]; rfl)
    have hremoved : st.removed est tcpHeader now = n := by
      rw [removed, heq]
      dsimp only
      rw [if_pos hfirst, List.length_drop]
      omega
    have hlast : st.est.calculateRttSample tcpHeader now latest = 0 :=
      sample_eq_zero hlength h (.inr (by rw [hremoved])) hlatest
    rw [heq]
    dsimp only
    rw [if_pos hfirst, if_pos hlast]

end

/-- **Karn's rule.** In a run that respects the entries, an acknowledgment without timestamps is
sampled only from entries whose bytes were transmitted once. A step keeps the entries unambiguous
exactly if it respects them. -/
theorem karn_rule {start : SequenceNumber32} {e : RttState ρ}
    (hrun : Run (WithinStep est) (initial start e) ops st) {tcpHeader : TcpHeader} {now : Time}
    (hts : st.est.timestampEnabled = false ∨ tcpHeader.optionTS = none) :
    (∀ entry ∈ st.sampled est tcpHeader now, SentOnce st.sent entry) ∧
      (st.sampled est tcpHeader now = [] → st.est.estimateRtt est tcpHeader now =
        { st.est with history := (st.est.estimateRtt est tcpHeader now).history }) ∧
      ∀ op st', Step est st op st' → (st'.Unambiguous ↔ st.Within op) := by
  have h : st.Consistent :=
    hrun.invariant (consistent_initial start e) fun _ _ _ h hstep => h.step hstep
  refine ⟨?_, estimateRtt_of_not_sampled h.length_eq, fun op st' => h.step_iff⟩
  intro entry hmem
  obtain ⟨htracked, hsample⟩ := mem_sampled hmem
  exact h.unambiguous entry htracked (retx_of_calculateRttSample hts hsample)

/-! ## Runs -/

def recorder : RttEstimator (List Time) where
  measurement samples m := samples ++ [m]
  getEstimate samples := samples.getLastD 0
  getVariation _ := 0

/-- A sender without timestamps that begins just before the sequence numbers wrap. -/
def fresh : KarnRun (List Time) :=
  initial (.ofNat 4294966796)
    { rtt := [], rto := 1000000000, minRtt := 1000000000, timestampEnabled := false,
      clockGranularity := 1000000, minRto := 200000000 }

def ackOf (n : Nat) : TcpHeader := { ackNumber := (SequenceNumber.ofNat 4294966796).add n }

/-- The second of two segments is sampled after the first was retransmitted. -/
theorem karn_rule_retransmitted :
    ∃ st, Run (WithinStep recorder) fresh
        [.transmit 1000 0, .transmit 1000 1000000, .retransmit 0 1000 2000000] st ∧
      st.sampled recorder (ackOf 2000) 3000000 =
        [(1000, { seq := .ofNat 500, count := 1000, time := 1000000 })] ∧
      SentOnce st.sent (1000, { seq := .ofNat 500, count := 1000, time := 1000000 }) := by
  have hwithin : ((fresh.transmit 1000 0).transmit 1000 1000000).Within
      (.retransmit 0 1000 2000000) := by
    intro i o entry hget hretx ⟨k, hle, _, _, hlt⟩
    match i with
    | 0 => decide
    | 1 =>
      cases hget
      exact absurd hlt (Nat.not_lt.mpr hle)
    | i + 2 => cases hget
  have hrun : Run (WithinStep recorder) fresh
      [.transmit 1000 0, .transmit 1000 1000000, .retransmit 0 1000 2000000]
      (((fresh.transmit 1000 0).transmit 1000 1000000).retransmit 0 1000 2000000) :=
    .cons ⟨.transmit, trivial⟩ (.cons ⟨.transmit, trivial⟩
      (.cons ⟨.retransmit (by decide), hwithin⟩ .nil))
  have hsampled :
      (((fresh.transmit 1000 0).transmit 1000 1000000).retransmit 0 1000 2000000).sampled
      recorder (ackOf 2000) 3000000 =
        [(1000, { seq := .ofNat 500, count := 1000, time := 1000000 })] := by decide
  refine ⟨_, hrun, hsampled, ?_⟩
  apply (karn_rule hrun (.inl rfl)).1
  rw [hsampled]
  exact List.mem_singleton_self _

/-- A retransmission of two segments marks only the first one: the second one is sampled for
`m_lastRtt`, and after a shorter retransmission also for the estimator. -/
theorem karn_rule_merged :
    (∃ st entry, Run (Step recorder) fresh
        [.transmit 1000 0, .transmit 1000 1000000, .retransmit 0 2000 2000000] st ∧
      (st.ack recorder (ackOf 2000) 3000000).est.lastRtt = 2000000 ∧
      entry ∈ st.sampled recorder (ackOf 2000) 3000000 ∧ ¬SentOnce st.sent entry) ∧
    (∃ st entry, Run (Step recorder) fresh
        [.transmit 1000 0, .transmit 1000 1000000, .retransmit 0 2000 2000000,
          .retransmit 0 500 3000000, .ack (ackOf 500) 4000000] st ∧
      (st.ack recorder (ackOf 2000) 5000000).est.rtt = [4000000] ∧
      entry ∈ st.sampled recorder (ackOf 2000) 5000000 ∧ ¬SentOnce st.sent entry) := by
  constructor
  · refine ⟨_, (1000, { seq := .ofNat 500, count := 1000, time := 1000000 }),
      .cons .transmit (.cons .transmit (.cons (.retransmit (by decide)) .nil)), ?_, ?_, ?_⟩
    · rfl
    · decide
    · intro h
      exact absurd (h 1000 (by decide) (by decide)) (by decide)
  · refine ⟨_, (1000, { seq := .ofNat 500, count := 1000, time := 1000000 }),
      .cons .transmit (.cons .transmit (.cons (.retransmit (by decide))
        (.cons (.retransmit (by decide)) (.cons .ack .nil)))), ?_, ?_, ?_⟩
    · rfl
    · decide
    · intro h
      exact absurd (h 1000 (by decide) (by decide)) (by decide)

end KarnRun

end Ns3.Tcp
