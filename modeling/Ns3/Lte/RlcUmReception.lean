/-
  The reordering buffer of unacknowledged mode
  (LteRlcUm::DoReceivePdu and ExpireReorderingTimer, src/lte/model/lte-rlc-um.cc).

  What `ReassembleAndDeliver` makes of a PDU is another matter; here it is only recorded
  which PDUs it is called with.

  The PDUs of a transmitter are counted from zero, without end.  `ur` is the first PDU that
  is still waited for, `uh` the one after the highest that has come; a PDU is accepted if it
  is not below `ur` and has not come before, and the window ends `windowSize` before `uh`.
-/
import Mathlib.Data.Finset.Lattice.Fold
import Mathlib.Data.Nat.Find
import Mathlib.Order.Interval.Finset.Nat
import Ns3.Lib.SortedMap
import Ns3.Lte.RlcHeader

namespace Ns3

namespace Lte

open Lib

namespace LteRlcUm

variable {α : Type}

def windowSize : Nat := 512

/-- The receiving side of `LteRlcUm`, and the PDUs passed to `ReassembleAndDeliver`. -/
structure Reception (α : Type) where
  rxBuffer : SortedMap (RlcPdu α)
  vrUr : SequenceNumber10
  vrUx : SequenceNumber10
  vrUh : SequenceNumber10
  reorderingTimer : Bool
  reassembled : List (RlcPdu α)

namespace Reception

/-- The constructor. -/
def new : Reception α :=
  { rxBuffer := .empty
    vrUr := .ofValue 0
    vrUx := .ofValue 0
    vrUh := .ofValue 0
    reorderingTimer := false
    reassembled := [] }

/-- `IsInsideReorderingWindow`, which also sets a modulus base. -/
def isInsideReorderingWindow (rx : Reception α) (seqNumber : SequenceNumber10) :
    Except Fault (Reception α × Bool) := do
  let rx := { rx with vrUh := rx.vrUh.setModulusBase (rx.vrUh.sub windowSize) }
  let seqNumber := seqNumber.setModulusBase (rx.vrUh.sub windowSize)
  if ← (rx.vrUh.sub windowSize).le seqNumber then
    pure (rx, ← seqNumber.lt rx.vrUh)
  else pure (rx, false)

/-- `ReassembleAndDeliver` is called, and the PDU taken out of the buffer. -/
def reassemble (rx : Reception α) (key : Nat) (packet : RlcPdu α) : Reception α :=
  { rx with
    rxBuffer := rx.rxBuffer.erase key
    reassembled := rx.reassembled ++ [packet] }

def outsideWindowLoop : List (Nat × RlcPdu α) → Reception α → Except Fault (Reception α)
  | [], rx => pure rx
  | (key, packet) :: entries, rx => do
      let (rx, inside) ← rx.isInsideReorderingWindow (.ofValue key)
      if inside then pure rx
      else outsideWindowLoop entries (rx.reassemble key packet)

def reassembleOutsideWindow (rx : Reception α) : Except Fault (Reception α) :=
  outsideWindowLoop rx.rxBuffer.entries rx

/-- The loop of `ReassembleSnInterval`; a number meets another one after 1024 steps. -/
def snIntervalLoop (highSeqNumber : SequenceNumber10) :
    Nat → SequenceNumber10 → Reception α → Except Fault (Reception α)
  | 0, _, _ => .error .noProgress
  | fuel + 1, reassembleSn, rx => do
      if ← reassembleSn.lt highSeqNumber then
        match rx.rxBuffer.find? reassembleSn.value with
        | some packet =>
          snIntervalLoop highSeqNumber fuel reassembleSn.succ
            (rx.reassemble reassembleSn.value packet)
        | none => snIntervalLoop highSeqNumber fuel reassembleSn.succ rx
      else pure rx

def reassembleSnInterval (rx : Reception α) (lowSeqNumber highSeqNumber : SequenceNumber10) :
    Except Fault (Reception α) :=
  snIntervalLoop highSeqNumber 1024 lowSeqNumber rx

/-- Whether a received PDU is discarded. -/
def discards (rx : Reception α) (seqNumber : SequenceNumber10) : Except Fault Bool := do
  let between ← if ← rx.vrUr.lt seqNumber then seqNumber.lt rx.vrUh else pure false
  if between && rx.rxBuffer.contains seqNumber.value then pure true
  else if ← (rx.vrUh.sub windowSize).le seqNumber then seqNumber.lt rx.vrUr
  else pure false

def updateVrUh (rx : Reception α) (seqNumber : SequenceNumber10) :
    Except Fault (Reception α) := do
  let (rx, inside) ← rx.isInsideReorderingWindow seqNumber
  if inside then pure rx
  else
    let rx := { rx with vrUh := seqNumber.add 1 }
    let rx ← rx.reassembleOutsideWindow
    let (rx, inside) ← rx.isInsideReorderingWindow rx.vrUr
    if inside then pure rx
    else pure { rx with vrUr := rx.vrUh.sub windowSize }

/-- The first word from `newVrUr` on that is not a key of the buffer; the keys are below 1024. -/
def newVrUrLoop (rxBuffer : SortedMap (RlcPdu α)) : Nat → Nat → Except Fault Nat
  | 0, _ => .error .noProgress
  | fuel + 1, newVrUr =>
    if rxBuffer.contains newVrUr then newVrUrLoop rxBuffer fuel (newVrUr + 1) else pure newVrUr

/-- `VR(UR)` moves over the PDUs that are there. -/
def updateVrUr (rx : Reception α) : Except Fault (Reception α) := do
  if rx.rxBuffer.contains rx.vrUr.value then
    let oldVrUr := rx.vrUr
    let newVrUr ← newVrUrLoop rx.rxBuffer 1024 (rx.vrUr.value + 1)
    let rx := { rx with vrUr := rx.vrUr.assign newVrUr }
    rx.reassembleSnInterval oldVrUr rx.vrUr
  else pure rx

/-- `t-Reordering` is stopped when `VR(UX)` is no longer waited for. -/
def stopTimer (rx : Reception α) : Except Fault (Reception α) := do
  if rx.reorderingTimer then
    if ← rx.vrUx.le rx.vrUr then pure { rx with reorderingTimer := false }
    else
      let (rx, inside) ← rx.isInsideReorderingWindow rx.vrUx
      if !inside && rx.vrUx.value ≠ rx.vrUh.value then pure { rx with reorderingTimer := false }
      else pure rx
  else pure rx

/-- `t-Reordering` is started when a PDU is missing. -/
def startTimer (rx : Reception α) : Except Fault (Reception α) := do
  if ← rx.vrUh.gt rx.vrUr then pure { rx with reorderingTimer := true, vrUx := rx.vrUh }
  else pure rx

def updateTimer (rx : Reception α) : Except Fault (Reception α) := do
  let rx := { rx with vrUr := rx.vrUr.setModulusBase (rx.vrUh.sub windowSize) }
  let rx := { rx with vrUx := rx.vrUx.setModulusBase (rx.vrUh.sub windowSize) }
  let rx := { rx with vrUh := rx.vrUh.setModulusBase (rx.vrUh.sub windowSize) }
  let rx ← rx.stopTimer
  if rx.reorderingTimer then pure rx else rx.startTimer

def doReceivePdu (rx : Reception α) (p : RlcPdu α) : Except Fault (Reception α) := do
  let rx := { rx with vrUr := rx.vrUr.setModulusBase (rx.vrUh.sub windowSize) }
  let rx := { rx with vrUh := rx.vrUh.setModulusBase (rx.vrUh.sub windowSize) }
  let seqNumber := p.header.sequenceNumber.setModulusBase (rx.vrUh.sub windowSize)
  if ← rx.discards seqNumber then pure rx
  else
    let rx := { rx with rxBuffer := rx.rxBuffer.insert seqNumber.value p }
    let rx ← rx.updateVrUh seqNumber
    let rx ← rx.updateVrUr
    rx.updateTimer

def expireLoop (rxBuffer : SortedMap (RlcPdu α)) :
    Nat → SequenceNumber10 → Except Fault SequenceNumber10
  | 0, _ => .error .noProgress
  | fuel + 1, newVrUr =>
    if rxBuffer.contains newVrUr.value then expireLoop rxBuffer fuel newVrUr.succ
    else pure newVrUr

def expireReorderingTimer (rx : Reception α) : Except Fault (Reception α) := do
  let rx := { rx with reorderingTimer := false }
  let newVrUr ← expireLoop rx.rxBuffer 1025 rx.vrUx
  let oldVrUr := rx.vrUr
  let rx := { rx with vrUr := newVrUr }
  let rx ← rx.reassembleSnInterval oldVrUr rx.vrUr
  rx.startTimer

end Reception

/-! ## What the reordering window of unacknowledged mode is for -/

theorem exists_missing (s : Finset Nat) (start : Nat) : ∃ n, start ≤ n ∧ n ∉ s := by
  refine ⟨max start (s.sup id + 1), le_max_left .., fun hmem => ?_⟩
  have hle : max start (s.sup id + 1) ≤ s.sup id := Finset.le_sup (f := id) hmem
  omega

/-- The first number from `start` on that is not in the set. -/
def firstMissing (s : Finset Nat) (start : Nat) : Nat := Nat.find (exists_missing s start)

theorem le_firstMissing (s : Finset Nat) (start : Nat) : start ≤ firstMissing s start :=
  (Nat.find_spec (exists_missing s start)).1

theorem firstMissing_not_mem (s : Finset Nat) (start : Nat) : firstMissing s start ∉ s :=
  (Nat.find_spec (exists_missing s start)).2

variable {s : Finset Nat}

theorem mem_of_lt_firstMissing {start n : Nat} (h : start ≤ n) (hlt : n < firstMissing s start) :
    n ∈ s := by
  by_contra hnot
  exact Nat.find_min (exists_missing s start) hlt ⟨h, hnot⟩

theorem firstMissing_le {start n : Nat} (h : start ≤ n) (hnot : n ∉ s) : firstMissing s start ≤ n :=
  Nat.find_min' (exists_missing s start) ⟨h, hnot⟩

theorem firstMissing_eq {start n : Nat} (h : start ≤ n) (hnot : n ∉ s)
    (hall : ∀ k, start ≤ k → k < n → k ∈ s) : firstMissing s start = n := by
  refine Nat.le_antisymm (firstMissing_le h hnot) ?_
  by_contra hlt
  exact firstMissing_not_mem s start
    (hall _ (le_firstMissing s start) (Nat.lt_of_not_le hlt))

/-- The state variables as positions, and the PDUs that were accepted. -/
structure Reordering where
  ur : Nat
  ux : Nat
  uh : Nat
  running : Bool
  accepted : Finset Nat

/-- What happens at the receiver: a PDU arrives, or `t-Reordering` expires. -/
inductive Event where
  | receive (n : Nat)
  | expire
  deriving DecidableEq, Repr

namespace Reordering

def new : Reordering := ⟨0, 0, 0, false, ∅⟩

/-- `t-Reordering` runs as long as a PDU is waited for, and guards those below `ux`. -/
def restart (r : Reordering) : Reordering :=
  if r.running ∧ r.ur < r.ux then r
  else if r.ur < r.uh then { r with running := true, ux := r.uh }
  else { r with running := false }

/-- A PDU that is below `ur` or has come before is discarded. -/
def Discarded (r : Reordering) (n : Nat) : Prop := n < r.ur ∨ n ∈ r.accepted

instance (r : Reordering) (n : Nat) : Decidable (r.Discarded n) := by
  unfold Discarded
  infer_instance

/-- `VR(UH)` after an accepted PDU. -/
def newUh (r : Reordering) (n : Nat) : Nat := max r.uh (n + 1)

/-- Where `VR(UR)` is looked for: at its previous value, or the window start. -/
def start (r : Reordering) (n : Nat) : Nat := max r.ur (r.newUh n - windowSize)

/-- A PDU arrives. -/
def receive (r : Reordering) (n : Nat) : Reordering :=
  if r.Discarded n then r
  else
    restart { r with
      ur := firstMissing (insert n r.accepted) (r.start n)
      uh := r.newUh n
      accepted := insert n r.accepted }

/-- `t-Reordering` expires: the PDUs below `ux` are no longer waited for. -/
def expire (r : Reordering) : Reordering :=
  restart { r with ur := firstMissing r.accepted r.ux, running := false }

def step (r : Reordering) : Event → Reordering
  | .receive n => r.receive n
  | .expire => r.expire

/-- A PDU is displaced by fewer than 512 numbers; the timer expires only while it runs. -/
def Admits (r : Reordering) : Event → Prop
  | .receive n => r.uh ≤ n + windowSize ∧ n < r.uh + windowSize
  | .expire => r.running = true

/-- The state between two events. -/
structure Sound (r : Reordering) : Prop where
  ur_le : r.ur ≤ r.uh
  uh_le : r.uh ≤ r.ur + windowSize
  ur_not_mem : r.ur ∉ r.accepted
  lt_uh : ∀ n ∈ r.accepted, n < r.uh
  running : r.running = true → r.ur < r.ux ∧ r.ux ≤ r.uh
  idle : r.running = false → r.ur = r.uh

theorem sound_new : Sound new :=
  ⟨le_rfl, Nat.zero_le _, Finset.notMem_empty _, nofun, nofun, fun _ => rfl⟩

variable {r : Reordering} {n : Nat}

theorem restart_ur : r.restart.ur = r.ur := by
  unfold restart
  split
  · rfl
  split <;> rfl

theorem restart_uh : r.restart.uh = r.uh := by
  unfold restart
  split
  · rfl
  split <;> rfl

theorem restart_accepted : r.restart.accepted = r.accepted := by
  unfold restart
  split
  · rfl
  split <;> rfl

theorem sound_restart (hur : r.ur ≤ r.uh) (huh : r.uh ≤ r.ur + windowSize)
    (hnot : r.ur ∉ r.accepted) (hlt : ∀ n ∈ r.accepted, n < r.uh)
    (hux : r.running = true → r.ux ≤ r.uh) : Sound r.restart := by
  refine ⟨?_, ?_, ?_, ?_, ?_, ?_⟩
  · rwa [restart_ur, restart_uh]
  · rwa [restart_ur, restart_uh]
  · rwa [restart_ur, restart_accepted]
  · rwa [restart_accepted, restart_uh]
  · unfold restart
    split
    · next h => exact fun hrunning => ⟨h.2, hux hrunning⟩
    split
    · next hlt' => exact fun _ => ⟨hlt', le_rfl⟩
    · exact nofun
  · unfold restart
    split
    · next h =>
        intro hidle
        rw [h.1] at hidle
        cases hidle
    split
    · exact nofun
    · next hnlt => exact fun _ => Nat.le_antisymm hur (Nat.le_of_not_lt hnlt)

theorem firstMissing_le_newUh (h : Sound r) :
    firstMissing (insert n r.accepted) (r.start n) ≤ r.newUh n := by
  refine firstMissing_le ?_ ?_
  · have := h.ur_le
    unfold start newUh
    omega
  · rw [Finset.mem_insert]
    rintro (heq | hmem)
    · have hle : n + 1 ≤ r.newUh n := le_max_right r.uh (n + 1)
      omega
    · have hlt := h.lt_uh _ hmem
      have hle : r.uh ≤ r.newUh n := le_max_left r.uh (n + 1)
      omega

theorem sound_step {e : Event} (h : Sound r) (hadm : r.Admits e) : Sound (r.step e) := by
  cases e with
  | receive n =>
    show Sound (r.receive n)
    unfold receive
    split
    · exact h
    · have hle := le_firstMissing (insert n r.accepted) (r.start n)
      have hstart : r.newUh n ≤ r.start n + windowSize := by
        unfold start
        omega
      have huh : r.newUh n ≤ firstMissing (insert n r.accepted) (r.start n) + windowSize := by
        omega
      have hnot := firstMissing_not_mem (insert n r.accepted) (r.start n)
      refine sound_restart (firstMissing_le_newUh h) huh hnot ?_ ?_
      · intro k hk
        rcases Finset.mem_insert.mp hk with rfl | hk
        · exact (Nat.lt_succ_self _).trans_le (le_max_right ..)
        · exact (h.lt_uh k hk).trans_le (le_max_left ..)
      · intro hrunning
        exact (h.running hrunning).2.trans (le_max_left ..)
  | expire =>
    obtain ⟨hlt, hle⟩ := h.running hadm
    have hfirst := le_firstMissing r.accepted r.ux
    have hur : firstMissing r.accepted r.ux ≤ r.uh :=
      firstMissing_le hle fun hmem => Nat.lt_irrefl _ (h.lt_uh _ hmem)
    have huh : r.uh ≤ firstMissing r.accepted r.ux + windowSize := by
      have := h.uh_le
      omega
    have hnot := firstMissing_not_mem r.accepted r.ux
    exact @sound_restart { r with ur := firstMissing r.accepted r.ux, running := false } hur huh
      hnot h.lt_uh fun hrunning => nomatch hrunning

end Reordering

end LteRlcUm

end Lte

end Ns3
