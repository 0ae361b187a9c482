/-
  Proportional rate reduction (src/internet/model/tcp-prr-recovery.cc).

  The totals of a recovery are 32-bit words, the number of bytes to send is an `int`, and one
  quotient is a `double`, which is a rational here.
-/
import Mathlib.Data.Rat.Floor
import Mathlib.Tactic.NormNum
import Mathlib.Tactic.Positivity
import Ns3.Lib.Run
import Ns3.Lib.Wrap

namespace Ns3.Tcp

open Ns3.Lib

/-- What `TcpPrrRecovery` reads and writes of the `TcpSocketState`. -/
structure PrrTcb where
  segmentSize : Nat
  ssThresh : Nat
  bytesInFlight : Nat
  isRetransDataAcked : Bool := false
  cWnd : Nat := 0
  cWndInfl : Nat := 0
  deriving DecidableEq, Repr

structure TcpPrrRecovery where
  prrDelivered : Nat := 0
  prrOut : Nat := 0
  recoveryFlightSize : Nat := 0
  deriving DecidableEq, Repr

/-- A conversion of a whole `double` to `int`.  A number out of the range of the type has no
conversion. -/
def toInt (x : Int) : Option Int := if -2 ^ 31 ≤ x ∧ x < 2 ^ 31 then some x else none

namespace TcpPrrRecovery

/-- `sendCount`, before the fast retransmit is forced. -/
def sendCount (prr : TcpPrrRecovery) (tcb : PrrTcb) (deliveredBytes : Nat) : Option Int :=
  if tcb.ssThresh < tcb.bytesInFlight then
    -- a quotient by zero is infinite or not a number, and has no conversion either
    if prr.recoveryFlightSize = 0 then none
    else toInt (⌈((prr.prrDelivered * tcb.ssThresh % 2 ^ 32 : Nat) : ℚ) / prr.recoveryFlightSize⌉
      - prr.prrOut)
  else
    let limit := max (wsub 32 prr.prrDelivered prr.prrOut) deliveredBytes
    -- `limit` is an `int`, but its sum with the segment size is unsigned
    let limit := if tcb.isRetransDataAcked then wadd 32 limit tcb.segmentSize else limit
    some (min (signed 32 limit) (signed 32 (wsub 32 tcb.ssThresh tcb.bytesInFlight)))

/-- The window for a `sendCount`: at least the segment of the fast retransmit is sent. -/
def windowFor (prr : TcpPrrRecovery) (tcb : PrrTcb) (sendCount : Int) : Nat :=
  let sendCount := max sendCount (signed 32 (if 0 < prr.prrOut then 0 else tcb.segmentSize))
  ((tcb.bytesInFlight + sendCount) % 2 ^ 32).toNat

def doRecovery (prr : TcpPrrRecovery) (tcb : PrrTcb) (deliveredBytes : Nat) (isDupAck : Bool) :
    Option (TcpPrrRecovery × PrrTcb) :=
  let deliveredBytes :=
    if isDupAck ∧ prr.prrDelivered < prr.recoveryFlightSize then
      wadd 32 deliveredBytes tcb.segmentSize
    else deliveredBytes
  if deliveredBytes = 0 then some (prr, tcb)
  else
    let prr := { prr with prrDelivered := wadd 32 prr.prrDelivered deliveredBytes }
    (prr.sendCount tcb deliveredBytes).map fun sendCount =>
      let cWnd := prr.windowFor tcb sendCount
      (prr, { tcb with cWnd, cWndInfl := cWnd })

def enterRecovery (tcb : PrrTcb) (deliveredBytes : Nat) : Option (TcpPrrRecovery × PrrTcb) :=
  doRecovery { recoveryFlightSize := tcb.bytesInFlight } tcb deliveredBytes true

def updateBytesSent (prr : TcpPrrRecovery) (bytesSent : Nat) : TcpPrrRecovery :=
  { prr with prrOut := wadd 32 prr.prrOut bytesSent }

end TcpPrrRecovery

/-! ## The formula -/

/-- A recovery over the integers: the bytes in flight at its begin, and the totals delivered and
sent since. -/
structure PrrEpisode where
  flight : Nat := 0
  credited : Nat := 0
  sent : Nat := 0
  deriving DecidableEq, Repr

def PrrTcb.retransAcked (tcb : PrrTcb) : Nat :=
  if tcb.isRetransDataAcked then tcb.segmentSize else 0

namespace PrrEpisode

variable (e : PrrEpisode) (tcb : PrrTcb)

def credit (deliveredBytes : Nat) (isDupAck : Bool) : Nat :=
  if isDupAck ∧ e.credited < e.flight then deliveredBytes + tcb.segmentSize else deliveredBytes

/-- The bytes that may be sent for those that were credited, in proportion. -/
def share : Int := ⌈((e.credited * tcb.ssThresh : Nat) : ℚ) / e.flight⌉

def forced : Nat := if e.sent = 0 then tcb.segmentSize else 0

/-- The bytes to send when `delivered` of those credited are the ACK's own. -/
def toSend (delivered : Nat) : Int :=
  if tcb.ssThresh < tcb.bytesInFlight then e.share tcb - e.sent
  else min (max ((e.credited : Int) - e.sent) delivered + tcb.retransAcked)
    (tcb.ssThresh - tcb.bytesInFlight)

/-- The window in whole numbers, which no word bounds. -/
def window (delivered : Nat) : Int :=
  tcb.bytesInFlight + max (e.toSend tcb delivered) (e.forced tcb)

/-- No word of the computation loses a part of its number that the window shows. -/
def Fits (delivered : Nat) : Prop :=
  (e.sent = 0 → tcb.segmentSize < 2 ^ 31) ∧
  if tcb.ssThresh < tcb.bytesInFlight then
    e.credited * tcb.ssThresh < 2 ^ 32 ∧ e.share tcb < e.sent + 2 ^ 31 ∨
      e.share tcb ≤ e.sent + e.forced tcb
  else if e.credited < e.sent then
    tcb.ssThresh ≤ tcb.bytesInFlight ∨
      tcb.ssThresh - tcb.bytesInFlight + e.sent ≤ e.credited + tcb.retransAcked ∧
        e.credited + tcb.retransAcked < e.sent + 2 ^ 31
  else
    let limit := max (e.credited - e.sent) delivered + tcb.retransAcked
    limit < 2 ^ 31 ∨ tcb.ssThresh - tcb.bytesInFlight ≤ e.forced tcb ∨
      tcb.ssThresh - tcb.bytesInFlight + 2 ^ 32 ≤ limit

end PrrEpisode

namespace PrrEpisode

def words (e : PrrEpisode) : TcpPrrRecovery := ⟨e.credited, e.sent, e.flight⟩

/-- The totals, the threshold and the bytes in flight are below `2 ^ 31`. -/
structure Small (e : PrrEpisode) (tcb : PrrTcb) : Prop where
  segmentSize : tcb.segmentSize < 2 ^ 32
  ssThresh : tcb.ssThresh < 2 ^ 31
  bytesInFlight : tcb.bytesInFlight < 2 ^ 31
  flight_pos : 0 < e.flight
  flight : e.flight < 2 ^ 31
  credited : e.credited < 2 ^ 31
  sent : e.sent < 2 ^ 31

variable {e : PrrEpisode} {tcb : PrrTcb} {delivered : Nat}

theorem sendCount_above (h : e.Small tcb) (habove : tcb.ssThresh < tcb.bytesInFlight) :
    ∃ q : Int, e.words.sendCount tcb delivered = toInt (q - e.sent) ∧ 0 ≤ q ∧
      (e.credited * tcb.ssThresh < 2 ^ 32 → q = e.share tcb) ∧
      (2 ^ 32 ≤ e.credited * tcb.ssThresh → q < e.share tcb) := by
  have hpos : (0 : ℚ) < e.flight := by exact_mod_cast h.flight_pos
  refine ⟨⌈((e.credited * tcb.ssThresh % 2 ^ 32 : Nat) : ℚ) / e.flight⌉, ?_,
    Int.ceil_nonneg (by positivity), fun hlt => ?_, fun hle => ?_⟩
  · rw [TcpPrrRecovery.sendCount, if_pos habove]
    exact if_neg h.flight_pos.ne'
  · rw [Nat.mod_eq_of_lt hlt, share]
  · have hmod := Nat.mod_add_div (e.credited * tcb.ssThresh) (2 ^ 32)
    have hdiv : 1 ≤ e.credited * tcb.ssThresh / 2 ^ 32 := Nat.div_pos hle (by positivity)
    have hsum : e.credited * tcb.ssThresh % 2 ^ 32 + e.flight ≤ e.credited * tcb.ssThresh := by
      have hflight := h.flight
      omega
    have hstep : ((e.credited * tcb.ssThresh % 2 ^ 32 : Nat) : ℚ) / e.flight + 1 ≤
        ((e.credited * tcb.ssThresh : Nat) : ℚ) / e.flight := by
      rw [div_add_one hpos.ne']
      gcongr
      exact_mod_cast hsum
    have hceil := Int.ceil_mono hstep
    rw [Int.ceil_add_one] at hceil
    exact Int.lt_of_add_one_le hceil

theorem signed_forced (hseg : tcb.segmentSize < 2 ^ 32) :
    signed 32 (if 0 < e.sent then 0 else tcb.segmentSize) =
      if tcb.segmentSize < 2 ^ 31 ∨ 0 < e.sent then (e.forced tcb : Int)
      else tcb.segmentSize - 2 ^ 32 := by
  unfold signed forced
  split_ifs <;> omega

theorem window_iff (h : e.Small tcb) {n : Int} (hlo : -2 ^ 31 ≤ n) (hhi : n < 2 ^ 31)
    (hlarge : e.sent = 0 → 2 ^ 31 ≤ tcb.segmentSize →
      0 ≤ n ∨ tcb.segmentSize < n + 2 ^ 32 ∧ e.toSend tcb delivered ≤ tcb.segmentSize) :
    (e.words.windowFor tcb n : Int) = e.window tcb delivered ↔
      (e.sent = 0 → tcb.segmentSize < 2 ^ 31) ∧
        max n (e.forced tcb) = max (e.toSend tcb delivered) (e.forced tcb) := by
  have hseg := h.segmentSize
  have hpipe := h.bytesInFlight
  unfold TcpPrrRecovery.windowFor window words
  dsimp only
  rw [signed_forced hseg]
  generalize e.toSend tcb delivered = s at hlarge ⊢
  unfold forced
  split_ifs <;> omega

theorem above_iff (h : e.Small tcb) (habove : tcb.ssThresh < tcb.bytesInFlight) :
    (∃ n, e.words.sendCount tcb delivered = some n ∧
      (e.words.windowFor tcb n : Int) = e.window tcb delivered) ↔ e.Fits tcb delivered := by
  obtain ⟨q, heq, hpos, hsame, hless⟩ : ∃ q : Int, e.words.sendCount tcb delivered = _ ∧ _ :=
    sendCount_above h habove
  have hsent := h.sent
  have hforced : e.forced tcb = 0 ∨ e.sent = 0 ∧ e.forced tcb = tcb.segmentSize := by
    unfold forced
    split_ifs <;> omega
  have htoSend : e.toSend tcb delivered = e.share tcb - e.sent := if_pos habove
  rw [heq, toInt, Fits, if_pos habove]
  by_cases hrange : -2 ^ 31 ≤ q - e.sent ∧ q - e.sent < 2 ^ 31
  · rw [if_pos hrange]
    simp only [Option.some.injEq, exists_eq_left']
    rw [window_iff h hrange.1 hrange.2 (fun _ _ => .inl (by omega)), htoSend]
    by_cases hlt : e.credited * tcb.ssThresh < 2 ^ 32
    · have hshare := hsame hlt
      omega
    · have hshare := hless (by omega)
      omega
  · rw [if_neg hrange]
    simp only [reduceCtorEq, false_and, exists_const, false_iff, not_and, not_or, not_lt, not_le]
    by_cases hlt : e.credited * tcb.ssThresh < 2 ^ 32
    · have hshare := hsame hlt
      omega
    · have hshare := hless (by omega)
      omega

theorem sendCount_below (h : e.Small tcb) (hbelow : ¬tcb.ssThresh < tcb.bytesInFlight)
    (hle : delivered ≤ e.credited) : ∃ limit, e.words.sendCount tcb delivered =
      some (min (signed 32 (limit % 2 ^ 32)) (tcb.ssThresh - tcb.bytesInFlight)) ∧
      (e.credited < e.sent → limit + e.sent = e.credited + 2 ^ 32 + tcb.retransAcked) ∧
      (e.sent ≤ e.credited → limit = max (e.credited - e.sent) delivered + tcb.retransAcked) := by
  obtain ⟨hseg, hthresh, hpipe, -, -, hcredited, hsent⟩ := h
  have hroom : signed 32 (wsub 32 tcb.ssThresh tcb.bytesInFlight) =
      (tcb.ssThresh : Int) - tcb.bytesInFlight := by
    rw [wsub_eq (by omega) (by omega), signed_eq (by omega)]
    omega
  have hsub : wsub 32 e.credited e.sent = (e.credited + (2 ^ 32 - e.sent)) % 2 ^ 32 := by
    rw [wsub, Nat.mod_eq_of_lt (hsent.trans (by norm_num))]
  refine ⟨max (wsub 32 e.credited e.sent) delivered + tcb.retransAcked, ?_, ?_, ?_⟩
  · rw [TcpPrrRecovery.sendCount, if_neg hbelow, hroom]
    unfold PrrTcb.retransAcked wadd words
    split
    · rfl
    · rw [Nat.add_zero, Nat.mod_eq_of_lt]
      omega
  · omega
  · omega

theorem signed_reduced {x : Nat} (hx : x < 2 ^ 33) :
    x < 2 ^ 31 ∧ signed 32 (x % 2 ^ 32) = x ∨
      2 ^ 31 ≤ x ∧ x < 2 ^ 32 + 2 ^ 31 ∧ signed 32 (x % 2 ^ 32) = x - 2 ^ 32 ∨
      2 ^ 32 + 2 ^ 31 ≤ x ∧ signed 32 (x % 2 ^ 32) = x - 2 ^ 33 := by
  unfold signed
  split_ifs <;> omega

theorem below_iff (h : e.Small tcb) (hbelow : ¬tcb.ssThresh < tcb.bytesInFlight)
    (hpos : 0 < delivered) (hle : delivered ≤ e.credited) :
    (∃ n, e.words.sendCount tcb delivered = some n ∧
      (e.words.windowFor tcb n : Int) = e.window tcb delivered) ↔ e.Fits tcb delivered := by
  obtain ⟨limit, heq, hbehind, hahead⟩ := sendCount_below h hbelow hle
  obtain ⟨room, hroom⟩ := Nat.exists_eq_add_of_le (Nat.le_of_not_lt hbelow)
  have hroomEq : (tcb.ssThresh : Int) - tcb.bytesInFlight = room := by omega
  have htoSend : e.toSend tcb delivered =
      min (max ((e.credited : Int) - e.sent) delivered + tcb.retransAcked) room := by
    rw [toSend, if_neg hbelow, hroomEq]
  have hretrans : tcb.retransAcked = 0 ∨ tcb.retransAcked = tcb.segmentSize := by
    unfold PrrTcb.retransAcked
    split_ifs <;> simp
  have hforced : 0 < e.sent ∧ e.forced tcb = 0 ∨ e.sent = 0 ∧ e.forced tcb = tcb.segmentSize := by
    unfold forced
    split_ifs <;> omega
  obtain ⟨hseg, hthresh, -, -, -, hcredited, hsent⟩ := id h
  have hroomLt : room < 2 ^ 31 := by omega
  have hsigned := signed_reduced (x := limit) (by omega)
  rw [heq, Fits, if_neg hbelow, hroomEq, hroom, Nat.add_sub_cancel_left]
  simp only [Option.some.injEq, exists_eq_left']
  generalize signed 32 (limit % 2 ^ 32) = s at hsigned ⊢
  clear heq hbelow hroom hroomEq hthresh
  rw [window_iff h (by omega) (by omega) (by omega), htoSend]
  refine and_congr_right fun _ => ?_
  by_cases hlt : e.credited < e.sent
  · rw [if_pos hlt]
    have hlimit := hbehind hlt
    obtain ⟨-, hzero⟩ : 0 < e.sent ∧ e.forced tcb = 0 := by omega
    rw [hzero]
    clear hbehind hahead hforced htoSend
    rcases hsigned with ⟨hs, -⟩ | ⟨hlo, hhi, hs⟩ | ⟨hlo, hs⟩ <;> omega
  · rw [if_neg hlt]
    have hlimit := hahead (by omega)
    have hmax : max ((e.credited : Int) - e.sent) delivered =
        (max (e.credited - e.sent) delivered : Nat) := by omega
    have hmost : max (e.credited - e.sent) delivered < 2 ^ 31 := by omega
    rw [hmax]
    generalize max (e.credited - e.sent) delivered = most at hlimit hmost ⊢
    clear hbehind hahead htoSend hle hmax
    rcases hsigned with ⟨hlo, hs⟩ | ⟨hlo, hhi, hs⟩ | ⟨hlo, hs⟩ <;> omega

/-! ## Recoveries -/

def acked (e : PrrEpisode) (tcb : PrrTcb) (deliveredBytes : Nat) (isDupAck : Bool) : PrrEpisode :=
  { e with credited := e.credited + e.credit tcb deliveredBytes isDupAck }

/-- `DoRecovery` sets the window of the formula, if it does not return early. -/
def Exact (e : PrrEpisode) (prr : TcpPrrRecovery) (tcb : PrrTcb) (deliveredBytes : Nat)
    (isDupAck : Bool) : Prop :=
  ∃ r, prr.doRecovery tcb deliveredBytes isDupAck = some r ∧
    (e.credit tcb deliveredBytes isDupAck ≠ 0 → (r.2.cWnd : Int) =
      (e.acked tcb deliveredBytes isDupAck).window tcb (e.credit tcb deliveredBytes isDupAck))

variable {deliveredBytes : Nat} {isDupAck : Bool}

section

variable (h : (e.acked tcb deliveredBytes isDupAck).Small tcb)

include h

theorem doRecovery_eq :
    e.words.doRecovery tcb deliveredBytes isDupAck =
      if e.credit tcb deliveredBytes isDupAck = 0 then some (e.words, tcb)
      else ((e.acked tcb deliveredBytes isDupAck).words.sendCount tcb
        (e.credit tcb deliveredBytes isDupAck)).map fun n =>
          let cWnd := (e.acked tcb deliveredBytes isDupAck).words.windowFor tcb n
          ((e.acked tcb deliveredBytes isDupAck).words, { tcb with cWnd, cWndInfl := cWnd }) := by
  have hcredited : e.credited + e.credit tcb deliveredBytes isDupAck < 2 ^ 31 := h.credited
  have hcredit : (if isDupAck ∧ e.words.prrDelivered < e.words.recoveryFlightSize then
      wadd 32 deliveredBytes tcb.segmentSize else deliveredBytes) =
        e.credit tcb deliveredBytes isDupAck := by
    by_cases hdup : isDupAck ∧ e.credited < e.flight
    · rw [credit, if_pos hdup] at hcredited ⊢
      exact (if_pos hdup).trans (wadd_eq (by omega))
    · rw [credit, if_neg hdup]
      exact if_neg hdup
  have htotal : wadd 32 e.words.prrDelivered (e.credit tcb deliveredBytes isDupAck) =
      (e.acked tcb deliveredBytes isDupAck).credited :=
    Nat.mod_eq_of_lt (hcredited.trans (by norm_num))
  unfold TcpPrrRecovery.doRecovery
  rw [hcredit]
  dsimp only
  rw [htotal]
  rfl

/-- The window is exact when there is no credit or the sums fit their words. -/
theorem exact_iff :
    e.Exact e.words tcb deliveredBytes isDupAck ↔ e.credit tcb deliveredBytes isDupAck = 0 ∨
      (e.acked tcb deliveredBytes isDupAck).Fits tcb (e.credit tcb deliveredBytes isDupAck) := by
  rw [Exact, doRecovery_eq h]
  by_cases hzero : e.credit tcb deliveredBytes isDupAck = 0
  · simp [hzero]
  · have hpos := Nat.pos_of_ne_zero hzero
    have hle : e.credit tcb deliveredBytes isDupAck ≤
        (e.acked tcb deliveredBytes isDupAck).credited := Nat.le_add_left ..
    rw [if_neg hzero, or_iff_right hzero]
    simp only [Option.map_eq_some_iff, exists_exists_and_eq_and, hzero, ne_eq, not_false_eq_true,
      true_imp_iff]
    by_cases habove : tcb.ssThresh < tcb.bytesInFlight
    · exact above_iff h habove
    · exact below_iff h habove hpos hle

theorem words_acked {r : TcpPrrRecovery × PrrTcb}
    (hr : e.words.doRecovery tcb deliveredBytes isDupAck = some r) :
    r.1 = (e.acked tcb deliveredBytes isDupAck).words := by
  rw [doRecovery_eq h] at hr
  split at hr
  · rename_i hzero
    cases hr
    rw [acked, hzero]
    rfl
  · obtain ⟨n, -, rfl⟩ := Option.map_eq_some_iff.mp hr
    rfl

end

end PrrEpisode

inductive PrrCall where
  | enterRecovery (tcb : PrrTcb) (deliveredBytes : Nat)
  | doRecovery (tcb : PrrTcb) (deliveredBytes : Nat) (isDupAck : Bool)
  | updateBytesSent (bytesSent : Nat)
  deriving DecidableEq, Repr

/-- The object, and the recovery it is in. -/
structure PrrState where
  prr : TcpPrrRecovery := {}
  episode : PrrEpisode := {}

namespace PrrCall

def entered (tcb : PrrTcb) : PrrEpisode := { flight := tcb.bytesInFlight }

def next (e : PrrEpisode) : PrrCall → PrrEpisode
  | enterRecovery tcb deliveredBytes => (entered tcb).acked tcb deliveredBytes true
  | doRecovery tcb deliveredBytes isDupAck => e.acked tcb deliveredBytes isDupAck
  | updateBytesSent bytesSent => { e with sent := e.sent + bytesSent }

/-- The numbers of the call and the totals after it are below `2 ^ 31`, and bytes are in flight
when a recovery begins. -/
def Small (e : PrrEpisode) (call : PrrCall) : Prop :=
  match call with
  | enterRecovery tcb _ => (call.next e).Small tcb
  | doRecovery tcb _ _ => (call.next e).Small tcb
  | updateBytesSent _ => (call.next e).sent < 2 ^ 31

/-- What is left of the object: after undefined behaviour, anything. -/
def Leaves (prr prr' : TcpPrrRecovery) : PrrCall → Prop
  | enterRecovery tcb deliveredBytes =>
    ∀ r, TcpPrrRecovery.enterRecovery tcb deliveredBytes = some r → prr' = r.1
  | doRecovery tcb deliveredBytes isDupAck =>
    ∀ r, prr.doRecovery tcb deliveredBytes isDupAck = some r → prr' = r.1
  | updateBytesSent bytesSent => prr' = prr.updateBytesSent bytesSent

/-- `DoRecovery`, when the call runs it, sets the window of the formula. -/
def Exact (st : PrrState) : PrrCall → Prop
  | enterRecovery tcb deliveredBytes =>
    (entered tcb).Exact { recoveryFlightSize := tcb.bytesInFlight } tcb deliveredBytes true
  | doRecovery tcb deliveredBytes isDupAck =>
    st.episode.Exact st.prr tcb deliveredBytes isDupAck
  | updateBytesSent _ => True

def Fits (e : PrrEpisode) (call : PrrCall) : Prop :=
  match call with
  | enterRecovery tcb deliveredBytes =>
    (entered tcb).credit tcb deliveredBytes true = 0 ∨
      (call.next e).Fits tcb ((entered tcb).credit tcb deliveredBytes true)
  | doRecovery tcb deliveredBytes isDupAck =>
    e.credit tcb deliveredBytes isDupAck = 0 ∨
      (call.next e).Fits tcb (e.credit tcb deliveredBytes isDupAck)
  | updateBytesSent _ => True

end PrrCall

/-- A call whose numbers are small. -/
structure PrrStep (st : PrrState) (call : PrrCall) (st' : PrrState) : Prop where
  small : call.Small st.episode
  leaves : call.Leaves st.prr st'.prr
  episode : st'.episode = call.next st.episode

/-- The words stand for the totals, which are small. -/
structure PrrState.Sound (st : PrrState) : Prop where
  prr : st.prr = st.episode.words
  credited : st.episode.credited < 2 ^ 31
  sent : st.episode.sent < 2 ^ 31

variable {call : PrrCall} {st st' : PrrState}

theorem PrrStep.exact_iff (hstep : PrrStep st call st') (h : st.Sound) :
    call.Exact st ↔ call.Fits st.episode := by
  have hsmall := hstep.small
  cases call with
  | enterRecovery tcb deliveredBytes => exact PrrEpisode.exact_iff hsmall
  | doRecovery tcb deliveredBytes isDupAck =>
    rw [PrrCall.Exact, h.prr]
    exact PrrEpisode.exact_iff hsmall
  | updateBytesSent bytesSent => exact Iff.rfl

/-- An exact call leaves the words in step with the numbers they stand for. -/
theorem PrrStep.sound (hstep : PrrStep st call st') (h : st.Sound) (hexact : call.Exact st) :
    st'.Sound := by
  have hsmall := hstep.small
  have hleaves := hstep.leaves
  have hepisode := hstep.episode
  cases call with
  | enterRecovery tcb deliveredBytes =>
    obtain ⟨r, hr, -⟩ := hexact
    refine ⟨?_, hepisode ▸ hsmall.credited, hepisode ▸ hsmall.sent⟩
    rw [hleaves r hr, hepisode]
    exact PrrEpisode.words_acked hsmall hr
  | doRecovery tcb deliveredBytes isDupAck =>
    obtain ⟨r, hr, -⟩ := hexact
    refine ⟨?_, hepisode ▸ hsmall.credited, hepisode ▸ hsmall.sent⟩
    rw [hleaves r hr, hepisode]
    rw [h.prr] at hr
    exact PrrEpisode.words_acked hsmall hr
  | updateBytesSent bytesSent =>
    refine ⟨?_, hepisode ▸ h.credited, hepisode ▸ hsmall⟩
    have hsent : wadd 32 st.episode.sent bytesSent = st.episode.sent + bytesSent :=
      wadd_eq (hsmall.trans (by norm_num))
    rw [hleaves, hepisode, h.prr]
    simp only [TcpPrrRecovery.updateBytesSent, PrrEpisode.words, hsent]
    rfl

def PrrState.ofEpisode (e : PrrEpisode) : PrrState := ⟨e.words, e⟩

theorem PrrStep.ofEpisode {e : PrrEpisode} (hsmall : call.Small e) :
    PrrStep (.ofEpisode e) call (.ofEpisode (call.next e)) := by
  refine ⟨hsmall, ?_, rfl⟩
  cases call with
  | enterRecovery tcb deliveredBytes =>
    exact fun r hr => (PrrEpisode.words_acked (e := PrrCall.entered tcb) hsmall hr).symm
  | doRecovery tcb deliveredBytes isDupAck =>
    exact fun r hr => (PrrEpisode.words_acked hsmall hr).symm
  | updateBytesSent bytesSent =>
    have hsent : wadd 32 e.sent bytesSent = e.sent + bytesSent :=
      wadd_eq (hsmall.trans (by norm_num))
    simp only [PrrCall.Leaves, PrrState.ofEpisode, TcpPrrRecovery.updateBytesSent,
      PrrEpisode.words, hsent]
    rfl

/-- **Proportional rate reduction.** In a run from a new object, every `DoRecovery` that does not
return early sets the window of the formula exactly if its words lose nothing. -/
theorem prr_exact_iff {calls : List PrrCall} {st : PrrState} (hrun : Run PrrStep {} calls st) :
    (∀ before call u v, before ++ [call] <+: calls → Run PrrStep {} before u →
        PrrStep u call v → call.Exact u) ↔
      ∀ before call u v, before ++ [call] <+: calls → Run PrrStep {} before u →
        PrrStep u call v → call.Fits u.episode :=
  hrun.steps_iff (P := fun u call _ => PrrCall.Exact u call)
    (C := fun u call => PrrCall.Fits u.episode call) (I := PrrState.Sound)
    ⟨rfl, by decide, by decide⟩ (fun _ _ _ h hstep hexact => hstep.sound h hexact)
    (fun _ _ _ h hstep => hstep.exact_iff h)

/-- A recovery begins with ten segments in flight; the fast retransmit is sent, and a duplicate
ACK reports one more segment. -/
theorem prr_exact_iff_three : ∃ st, Run PrrStep {}
      [.enterRecovery ⟨1000, 5000, 10000, false, 0, 0⟩ 0, .updateBytesSent 1000,
        .doRecovery ⟨1000, 5000, 9000, false, 0, 0⟩ 1000 true] st ∧
    ∀ before call u v, before ++ [call] <+: [.enterRecovery ⟨1000, 5000, 10000, false, 0, 0⟩ 0,
        .updateBytesSent 1000, .doRecovery ⟨1000, 5000, 9000, false, 0, 0⟩ 1000 true] →
      Run PrrStep {} before u → PrrStep u call v → call.Exact u := by
  have hfirst : (PrrCall.enterRecovery ⟨1000, 5000, 10000, false, 0, 0⟩ 0).Small {} :=
    ⟨by decide, by decide, by decide, by decide, by decide, by decide, by decide⟩
  have hsecond : (PrrCall.updateBytesSent 1000).Small ⟨10000, 1000, 0⟩ :=
    (by decide : 1000 < 2 ^ 31)
  have hthird : (PrrCall.doRecovery ⟨1000, 5000, 9000, false, 0, 0⟩ 1000 true).Small
      ⟨10000, 1000, 1000⟩ :=
    ⟨by decide, by decide, by decide, by decide, by decide, by decide, by decide⟩
  have hrun := ((Run.single (PrrStep.ofEpisode hfirst)).snoc (.ofEpisode hsecond)).snoc
    (.ofEpisode hthird)
  refine ⟨_, hrun, (prr_exact_iff hrun).mpr fun before call u v hpre hbefore hcall => ?_⟩
  have hepisode : u.episode = before.foldl (fun e call => call.next e) {} := by
    clear hpre hcall
    induction hbefore with
    | nil => rfl
    | snoc _ hstep ih => rw [List.foldl_append, ← ih]; exact hstep.episode
  rw [hepisode]
  obtain ⟨rfl, rfl⟩ | ⟨_, rfl, hpre₁⟩ := before_cons hpre
  · exact .inr ⟨fun _ => by decide, .inl ⟨by decide, by decide +kernel⟩⟩
  obtain ⟨rfl, rfl⟩ | ⟨_, rfl, hpre₂⟩ := before_cons hpre₁
  · exact trivial
  obtain ⟨rfl, rfl⟩ := before_singleton hpre₂
  exact .inr ⟨fun _ => by decide, .inl ⟨by decide, by decide +kernel⟩⟩

/-- A hundred segments are credited, and their product with the threshold leaves its word. -/
theorem product_leaves_word : ¬∀ calls st, Run PrrStep {} calls st →
    ∀ before call u v, before ++ [call] <+: calls → Run PrrStep {} before u →
      PrrStep u call v → call.Exact u := by
  intro h
  have hfirst : (PrrCall.enterRecovery ⟨1000, 50000, 100000, false, 0, 0⟩ 0).Small {} :=
    ⟨by decide, by decide, by decide, by decide, by decide, by decide, by decide⟩
  have hsecond : (PrrCall.updateBytesSent 1000).Small ⟨100000, 1000, 0⟩ :=
    (by decide : 1000 < 2 ^ 31)
  have hthird : (PrrCall.doRecovery ⟨1000, 50000, 60000, false, 0, 0⟩ 99000 false).Small
      ⟨100000, 1000, 1000⟩ :=
    ⟨by decide, by decide, by decide, by decide, by decide, by decide, by decide⟩
  have hrun := (Run.single (PrrStep.ofEpisode hfirst)).snoc (.ofEpisode hsecond)
  have hlast := PrrStep.ofEpisode hthird
  have hexact := h _ _ (hrun.snoc hlast) _ _ _ _ (List.prefix_refl _) hrun hlast
  have hfits := (hlast.exact_iff ⟨rfl, by decide, by decide⟩).mp hexact
  rcases hfits with hzero | ⟨-, ⟨hproduct, -⟩ | hshare⟩
  · exact absurd hzero (by decide)
  · exact absurd hproduct (by decide)
  · exact absurd hshare (by decide +kernel)

end Ns3.Tcp
