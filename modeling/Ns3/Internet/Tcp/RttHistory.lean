/-
  RTT samples of a TCP sender
  (src/internet/model/tcp-socket-base.cc, rtt-estimator.h, tcp-option-ts.cc).

  The sender logs every segment it sends for the first time and marks the entry when
  the segment is sent again.  The estimator is a subclass of `RttEstimator`, here a
  parameter.
-/
import Ns3.Core.Fault
import Ns3.Internet.Tcp.Header

namespace Ns3.Tcp

/-- A segment whose round trip is being timed. -/
structure RttHistory where
  seq : SequenceNumber32
  count : Nat
  time : Time
  retx : Bool := false
  deriving DecidableEq, Repr

/-- The virtual methods of an `RttEstimator` with state `ρ`. -/
structure RttEstimator (ρ : Type*) where
  measurement : ρ → Time → ρ
  getEstimate : ρ → Time
  getVariation : ρ → Time

/-- What `TcpSocketBase` keeps to estimate the round-trip time. -/
structure RttState (ρ : Type*) where
  history : List RttHistory := []
  rtt : ρ
  rto : Time
  lastRtt : Time := 0
  srtt : Time := 0
  minRtt : Time
  timestampEnabled : Bool := true
  clockGranularity : Time
  minRto : Time

/-- `TcpOptionTS::ElapsedTimeFromTsValue`, at the time `now`. -/
def elapsedTimeFromTsValue (now : Time) (echoTime : Nat) : Time :=
  let now32 := (now.tdiv 1000000 % 2 ^ 32).toNat
  if echoTime < now32 then (now32 - echoTime : Nat) * 1000000 else 0

namespace RttHistory

def holds (seq : SequenceNumber32) (entry : RttHistory) : Bool :=
  seq.ge entry.seq && seq.lt (entry.seq.add entry.count)

/-- The retransmission loop of `UpdateRttHistory`: the first entry that contains `seq` is
marked, and ends with the retransmission. -/
def markRetransmitted (seq : SequenceNumber32) (sz : Nat) : List RttHistory → List RttHistory
  | [] => []
  | entry :: rest =>
    if entry.holds seq then
      { entry with retx := true, count := (seq.add sz).distance entry.seq } :: rest
    else entry :: markRetransmitted seq sz rest

def updateRttHistory (history : List RttHistory) (seq : SequenceNumber32) (sz : Nat)
    (isRetransmission : Bool) (now : Time) : List RttHistory :=
  if isRetransmission then markRetransmitted seq sz history
  else history ++ [{ seq, count := sz, time := now }]

/-- The loop of `EstimateRtt` that removes what is acknowledged: the last entry removed, or
`latest`, and those left. -/
def popAcked (ackSeq : SequenceNumber32) (latest : RttHistory) :
    List RttHistory → RttHistory × List RttHistory
  | [] => (latest, [])
  | entry :: rest =>
    if (entry.seq.add entry.count).gt ackSeq then (latest, entry :: rest)
    else popAcked ackSeq entry rest

/-! ### What the loops leave -/

theorem length_markRetransmitted (seq : SequenceNumber32) (sz : Nat) (history : List RttHistory) :
    (markRetransmitted seq sz history).length = history.length := by
  induction history with
  | nil => rfl
  | cons entry rest ih =>
    rw [markRetransmitted]
    split
    · rfl
    · rw [List.length_cons, ih, List.length_cons]

variable {history : List RttHistory} {seq : SequenceNumber32} {entry : RttHistory}

theorem markRetransmitted_getElem? {sz : Nat} {i : Nat}
    (h : (markRetransmitted seq sz history)[i]? = some entry) :
    (history.findIdx? (holds seq) ≠ some i ∧ history[i]? = some entry) ∨
      (history.findIdx? (holds seq) = some i ∧ entry.retx = true) := by
  induction history generalizing i with
  | nil => simp [markRetransmitted] at h
  | cons first rest ih =>
    rw [markRetransmitted] at h
    rw [List.findIdx?_cons]
    by_cases hholds : first.holds seq
    · rw [if_pos hholds] at h ⊢
      cases i with
      | zero =>
        right
        simp only [List.getElem?_cons_zero, Option.some.injEq] at h
        rw [← h]
        exact ⟨rfl, rfl⟩
      | succ i =>
        left
        refine ⟨by simp, ?_⟩
        simpa using h
    · rw [if_neg hholds] at h ⊢
      cases i with
      | zero =>
        left
        refine ⟨by simp, ?_⟩
        simpa using h
      | succ i =>
        rcases ih (by simpa using h) with ⟨hfind, hget⟩ | ⟨hfind, hretx⟩
        · left
          refine ⟨?_, by simpa using hget⟩
          simpa using hfind
        · right
          refine ⟨?_, hretx⟩
          simpa using hfind

theorem markRetransmitted_getElem?_of_ne {sz : Nat} {i : Nat} (h : history[i]? = some entry)
    (hfind : history.findIdx? (holds seq) ≠ some i) :
    (markRetransmitted seq sz history)[i]? = some entry := by
  induction history generalizing i with
  | nil => simp at h
  | cons first rest ih =>
    rw [markRetransmitted]
    rw [List.findIdx?_cons] at hfind
    by_cases hholds : first.holds seq
    · rw [if_pos hholds] at hfind ⊢
      cases i with
      | zero => exact absurd rfl hfind
      | succ i => simpa using h
    · rw [if_neg hholds] at hfind ⊢
      cases i with
      | zero => simpa using h
      | succ i =>
        apply ih (by simpa using h)
        simpa using hfind

theorem popAcked_spec (ackSeq : SequenceNumber32) (latest : RttHistory)
    (history : List RttHistory) :
    ∃ n, n ≤ history.length ∧ (popAcked ackSeq latest history).2 = history.drop n ∧
      (latest :: history)[n]? = some (popAcked ackSeq latest history).1 := by
  induction history generalizing latest with
  | nil => exact ⟨0, le_rfl, rfl, rfl⟩
  | cons entry rest ih =>
    rw [popAcked]
    split
    · exact ⟨0, Nat.zero_le _, rfl, rfl⟩
    · obtain ⟨n, hle, hdrop, hget⟩ := ih entry
      exact ⟨n + 1, Nat.succ_le_succ hle, hdrop, hget⟩

end RttHistory

namespace RttState

variable {ρ : Type*}

open RttHistory

def calculateRttSample (st : RttState ρ) (tcpHeader : TcpHeader) (now : Time)
    (rttHistory : RttHistory) : Time :=
  if tcpHeader.ackNumber.ge (rttHistory.seq.add rttHistory.count) then
    match st.timestampEnabled, tcpHeader.optionTS with
    | true, some ts =>
      let rtt := elapsedTimeFromTsValue now ts.echo
      if rtt = 0 then 1000 else rtt
    | _, _ => if !rttHistory.retx then now - rttHistory.time else 0
  else 0

def measured (est : RttEstimator ρ) (st : RttState ρ) (rtt : Time) : RttState ρ :=
  let estimator := est.measurement st.rtt rtt
  let srtt := est.getEstimate estimator
  { st with
    rtt := estimator
    rto := max (est.getEstimate estimator +
      max st.clockGranularity (est.getVariation estimator * 4)) st.minRto
    srtt, minRtt := min srtt st.minRtt }

def estimateRtt (est : RttEstimator ρ) (st : RttState ρ) (tcpHeader : TcpHeader) (now : Time) :
    RttState ρ :=
  match st.history with
  | [] => st
  | earliest :: _ =>
    let rtt := st.calculateRttSample tcpHeader now earliest
    let (latest, history) := popAcked tcpHeader.ackNumber earliest st.history
    let lastRtt := st.calculateRttSample tcpHeader now latest
    let st' := { st with
      history, lastRtt := if lastRtt = 0 then st.lastRtt else lastRtt }
    if rtt = 0 then st' else st'.measured est rtt

theorem estimateRtt_nil {est : RttEstimator ρ} {st : RttState ρ} (h : st.history = [])
    (tcpHeader : TcpHeader) (now : Time) : st.estimateRtt est tcpHeader now = st := by
  rw [estimateRtt, h]

theorem estimateRtt_cons (est : RttEstimator ρ) {st : RttState ρ} {earliest : RttHistory}
    {rest : List RttHistory} (h : st.history = earliest :: rest) (tcpHeader : TcpHeader)
    (now : Time) : ∃ n latest, n ≤ st.history.length ∧ st.history[n - 1]? = some latest ∧
      st.estimateRtt est tcpHeader now =
        let rtt := st.calculateRttSample tcpHeader now earliest
        let lastRtt := st.calculateRttSample tcpHeader now latest
        let st' := { st with
          history := st.history.drop n
          lastRtt := if lastRtt = 0 then st.lastRtt else lastRtt }
        if rtt = 0 then st' else st'.measured est rtt := by
  obtain ⟨n, hle, hdrop, hlatest⟩ := popAcked_spec tcpHeader.ackNumber earliest (earliest :: rest)
  refine ⟨n, (popAcked tcpHeader.ackNumber earliest (earliest :: rest)).1, ?_, ?_, ?_⟩
  · rw [h]
    exact hle
  · rw [h, ← hlatest]
    cases n with
    | zero => rfl
    | succ n => rfl
  · rw [estimateRtt, h, ← hdrop]

theorem estimateRtt_history (est : RttEstimator ρ) (st : RttState ρ) (tcpHeader : TcpHeader)
    (now : Time) : ∃ n, n ≤ st.history.length ∧
      (st.estimateRtt est tcpHeader now).history = st.history.drop n := by
  cases hhistory : st.history with
  | nil =>
    rw [estimateRtt_nil hhistory]
    exact ⟨0, le_rfl, hhistory⟩
  | cons earliest rest =>
    obtain ⟨n, latest, hle, -, heq⟩ := estimateRtt_cons est hhistory tcpHeader now
    rw [hhistory] at hle heq
    refine ⟨n, hle, ?_⟩
    rw [heq]
    dsimp only
    split
    · rfl
    · rfl

def reTxTimeout (st : RttState ρ) : RttState ρ :=
  { st with rto := min (st.rto + st.rto) 60000000000, history := [] }

end RttState

end Ns3.Tcp
