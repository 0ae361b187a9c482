/-
  The delivery rate estimator of TCP
  (TcpRateLinux, src/internet/model/tcp-rate-ops.cc).

  The estimator keeps, in every item that is sent, what the connection had
  delivered at that time.  An item whose delivered time is `Time::Max()` has been
  counted, or has never been sent.
-/
import Ns3.Internet.Tcp.TxItem

namespace Ns3.Tcp

open Ns3.Lib SequenceNumber

structure TcpRateSample where
  isAppLimited : Bool := false
  interval : Time := 0
  delivered : Int := 0
  priorDelivered : Nat := 0
  priorTime : Time := 0
  sendElapsed : Time := 0
  ackElapsed : Time := 0
  bytesLoss : Nat := 0
  priorInFlight : Nat := 0
  ackedSacked : Nat := 0
  deriving DecidableEq, Repr

/-- The rate state of a connection. -/
structure TcpRateConnection where
  delivered : Nat := 0
  deliveredTime : Time := 0
  firstSentTime : Time := 0
  appLimited : Nat := 0
  txItemDelivered : Nat := 0
  rateDelivered : Int := 0
  rateInterval : Time := 0
  rateAppLimited : Bool := false
  deriving DecidableEq, Repr

structure TcpRateLinux where
  rate : TcpRateConnection := {}
  rateSample : TcpRateSample := {}
  deriving DecidableEq, Repr

def TcpTxItem.seqSize (item : TcpTxItem) : Nat := if 0 < item.size then item.size else 1

namespace TcpRateLinux

/-- `SkbDelivered`: the estimator, and the item that the callback got. -/
def skbDelivered (now : Time) (ops : TcpRateLinux) (skb : TcpTxItem) : TcpRateLinux × TcpTxItem :=
  let skbInfo := skb.rateInfo
  if skbInfo.deliveredTime = Time.max then (ops, skb)
  else
    let rate : TcpRateConnection := { ops.rate with
      delivered := wadd 64 ops.rate.delivered skb.seqSize
      deliveredTime := now }
    let sampled : TcpRateLinux :=
      if ops.rateSample.priorDelivered = 0 ∨ skbInfo.delivered > ops.rateSample.priorDelivered then
        { rateSample := { ops.rateSample with
            ackElapsed := now - skbInfo.deliveredTime
            priorDelivered := skbInfo.delivered % 2 ^ 32
            priorTime := skbInfo.deliveredTime
            isAppLimited := skbInfo.isAppLimited
            sendElapsed := skb.lastSent - skbInfo.firstSent }
          rate := { rate with firstSentTime := skb.lastSent } }
      else { ops with rate }
    ({ sampled with
       rate := { sampled.rate with txItemDelivered := skbInfo.delivered % 2 ^ 32 } },
     { skb with rateInfo := { skbInfo with deliveredTime := Time.max } })

def skbSent (now : Time) (ops : TcpRateLinux) (skb : TcpTxItem) (isStartOfTransmission : Bool) :
    TcpRateLinux × TcpTxItem :=
  let rate : TcpRateConnection :=
    if isStartOfTransmission then { ops.rate with firstSentTime := now, deliveredTime := now }
    else ops.rate
  ({ ops with rate },
   { skb with
     rateInfo :=
       { firstSent := rate.firstSentTime
         deliveredTime := rate.deliveredTime
         isAppLimited := decide (rate.appLimited ≠ 0)
         delivered := rate.delivered } })

def calculateAppLimited (ops : TcpRateLinux) (cWnd inFlight segmentSize : Nat)
    (tailSeq nextTx : SequenceNumber32) (lostOut retransOut : Nat) : TcpRateLinux :=
  if tailSeq.sub nextTx < toSigned 32 segmentSize ∧ inFlight < cWnd ∧ lostOut ≤ retransOut then
    { ops with
      rate := { ops.rate with
        appLimited := max (wadd 64 ops.rate.delivered inFlight % 2 ^ 32) 1 } }
  else ops

/-- `GenerateSample`; the sample it returns is the one it keeps. -/
def generateSample (ops : TcpRateLinux) (delivered lost : Nat) (isSackReneg : Bool)
    (priorInFlight : Nat) (minRtt : Time) : TcpRateLinux :=
  let rate : TcpRateConnection :=
    if ops.rate.appLimited ≠ 0 ∧ ops.rate.delivered > ops.rate.appLimited then
      { ops.rate with appLimited := 0 }
    else ops.rate
  let sample : TcpRateSample := { ops.rateSample with
    ackedSacked := delivered
    bytesLoss := lost
    priorInFlight }
  if sample.priorTime = 0 ∨ isSackReneg then
    { rate, rateSample := { sample with delivered := -1, interval := 0 } }
  else
    let sample : TcpRateSample := { sample with
      interval := max sample.sendElapsed sample.ackElapsed
      delivered := toSigned 32 (wsub 64 rate.delivered sample.priorDelivered) }
    if sample.interval < minRtt then
      { rate, rateSample := { sample with interval := 0, priorTime := 0 } }
    else if !sample.isAppLimited ∨
        sample.delivered * rate.rateInterval ≥ rate.rateDelivered * sample.interval then
      { rate := { rate with
          rateDelivered := sample.delivered
          rateInterval := sample.interval
          rateAppLimited := sample.isAppLimited }
        rateSample := sample }
    else { rate, rateSample := sample }

end TcpRateLinux

/-- `SkbDelivered` has counted the item, and unset its time. -/
def TcpTxItem.delivered (item : TcpTxItem) : Bool := decide (item.rateInfo.deliveredTime = Time.max)

namespace TcpRateLinux

variable {ops : TcpRateLinux} {now : Time} {skb : TcpTxItem} {n : Nat}

def Counts (ops : TcpRateLinux) (n : Nat) : Prop := ops.rate.delivered = n % 2 ^ 64

/-- The clock has not come to `Time::Max()`, and no item can be stamped with it. -/
def Timed (ops : TcpRateLinux) : Prop := ops.rate.deliveredTime < Time.max

theorem Counts.skbDelivered (h : ops.Counts n) (now : Time) (hsize : 0 < skb.size) :
    (ops.skbDelivered now skb).1.Counts (n + if skb.delivered then 0 else skb.size) := by
  have hseq : skb.seqSize = skb.size := if_pos hsize
  rw [TcpRateLinux.skbDelivered, TcpTxItem.delivered]
  by_cases hdone : skb.rateInfo.deliveredTime = Time.max
  · rw [if_pos hdone, if_pos (decide_eq_true hdone)]
    exact h
  · have hsum : wadd 64 ops.rate.delivered skb.size = (n + skb.size) % 2 ^ 64 := by
      rw [h, wadd, Nat.mod_add_mod]
    rw [if_neg hdone, if_neg (by simpa using hdone), hseq]
    dsimp only [Counts]
    split
    · exact hsum
    · exact hsum

theorem skbDelivered_item (ops : TcpRateLinux) (now : Time) (skb : TcpTxItem) :
    (ops.skbDelivered now skb).2 =
      { skb with rateInfo := { skb.rateInfo with deliveredTime := Time.max } } := by
  rw [TcpRateLinux.skbDelivered]
  split
  · rename_i hdone
    rw [← hdone]
  · rfl

theorem Timed.skbDelivered (h : ops.Timed) (hnow : now < Time.max) (skb : TcpTxItem) :
    (ops.skbDelivered now skb).1.Timed := by
  rw [TcpRateLinux.skbDelivered]
  split
  · exact h
  · dsimp only [Timed]
    split
    · exact hnow
    · exact hnow

theorem Counts.skbSent (h : ops.Counts n) (now : Time) (skb : TcpTxItem) (isStart : Bool) :
    (ops.skbSent now skb isStart).1.Counts n := by
  cases isStart with
  | true => exact h
  | false => exact h

theorem Timed.skbSent (h : ops.Timed) (hnow : now < Time.max) (skb : TcpTxItem) (isStart : Bool) :
    (ops.skbSent now skb isStart).1.Timed := by
  cases isStart with
  | true => exact hnow
  | false => exact h

theorem skbSent_item (h : ops.Timed) (hnow : now < Time.max) (skb : TcpTxItem) (isStart : Bool) :
    ∃ info, (ops.skbSent now skb isStart).2 = { skb with rateInfo := info } ∧
      info.deliveredTime ≠ Time.max := by
  refine ⟨_, rfl, ?_⟩
  exact ne_of_lt (h.skbSent hnow skb isStart)

theorem Counts.calculateAppLimited (h : ops.Counts n) (cWnd inFlight segmentSize : Nat)
    (tailSeq nextTx : SequenceNumber32) (lostOut retransOut : Nat) :
    (ops.calculateAppLimited cWnd inFlight segmentSize tailSeq nextTx lostOut
      retransOut).Counts n := by
  rw [TcpRateLinux.calculateAppLimited]
  split
  · exact h
  · exact h

theorem generateSample_rate (ops : TcpRateLinux) (delivered lost : Nat) (isSackReneg : Bool)
    (priorInFlight : Nat) (minRtt : Time) :
    (ops.generateSample delivered lost isSackReneg priorInFlight minRtt).rate.delivered =
        ops.rate.delivered ∧
      (ops.generateSample delivered lost isSackReneg priorInFlight minRtt).rate.deliveredTime =
        ops.rate.deliveredTime := by
  rw [generateSample]
  dsimp only
  refine ⟨?_, ?_⟩
  · repeat' split
    all_goals rfl
  · repeat' split
    all_goals rfl

end TcpRateLinux

end Ns3.Tcp
