/-
  Ten-bit sequence numbers with a modulus base
  (src/lte/model/lte-rlc-sequence-number.h).

  Two numbers are compared by how far they lie behind their common modulus base.  A number
  that stands for a position on an axis that does not wrap compares as the position does, as
  long as the positions are less than 1024 behind the base.
-/
import Ns3.Core.Fault

namespace Ns3

namespace Lte

/-- A number modulo 1024, compared from a base. -/
structure SequenceNumber10 where
  value : Nat
  modulusBase : Nat
  deriving DecidableEq, Repr

namespace SequenceNumber10

def ofValue (value : Nat) : SequenceNumber10 := ⟨value % 1024, 0⟩

/-- `operator=` of a word. -/
def assign (sn : SequenceNumber10) (value : Nat) : SequenceNumber10 :=
  { sn with value := value % 1024 }

def setModulusBase (sn modulusBase : SequenceNumber10) : SequenceNumber10 :=
  { sn with modulusBase := modulusBase.value }

/-- `operator++`. -/
def succ (sn : SequenceNumber10) : SequenceNumber10 := { sn with value := (sn.value + 1) % 1024 }

/-- `operator+`. -/
def add (sn : SequenceNumber10) (delta : Nat) : SequenceNumber10 :=
  { sn with value := (sn.value + delta) % 1024 }

/-- `operator-` of a word: the remainder may be negative, and is wrapped and reduced again. -/
def sub (sn : SequenceNumber10) (delta : Nat) : SequenceNumber10 :=
  { sn with value := ((((sn.value : Int) - delta).tmod 1024) % 2 ^ 16).toNat % 1024 }

/-- The word that `operator>` compares: the remainder may be negative, and is wrapped. -/
def offset (sn : SequenceNumber10) : Nat :=
  ((((sn.value : Int) - sn.modulusBase).tmod 1024) % 2 ^ 16).toNat

/-- `operator>`. -/
def gt (sn other : SequenceNumber10) : Except Fault Bool := do
  nsAssert (sn.modulusBase = other.modulusBase)
  pure (sn.offset > other.offset)

/-- `operator<=`. -/
def le (sn other : SequenceNumber10) : Except Fault Bool := do
  pure !(← sn.gt other)

/-- `operator>=`. -/
def ge (sn other : SequenceNumber10) : Except Fault Bool := do
  pure ((← sn.gt other) || sn.value = other.value)

/-- `operator<`. -/
def lt (sn other : SequenceNumber10) : Except Fault Bool := do
  pure (!(← sn.gt other) && sn.value ≠ other.value)

/-! ## Positions -/

/-- The number stands for position `n`, its modulus base for position `base`. -/
structure At (sn : SequenceNumber10) (base n : Int) : Prop where
  value : (sn.value : Int) = n % 1024
  modulusBase : (sn.modulusBase : Int) = base % 1024

variable {sn other : SequenceNumber10} {base n m : Int}

theorem At.succ (h : sn.At base n) : sn.succ.At base (n + 1) := by
  obtain ⟨hvalue, hbase⟩ := h
  refine ⟨?_, hbase⟩
  show ((((sn.value + 1) % 1024 : Nat)) : Int) = (n + 1) % 1024
  omega

theorem value_sub (delta : Nat) :
    ((sn.sub delta).value : Int) = ((sn.value : Int) - delta) % 1024 := by
  show ((((((sn.value : Int) - delta).tmod 1024) % 2 ^ 16).toNat % 1024 : Nat) : Int) = _
  rw [Int.tmod_eq_emod]
  split <;> omega

section

variable (h : sn.At base n)

include h

theorem At.sub (delta : Nat) : (sn.sub delta).At base (n - delta) := by
  obtain ⟨hvalue, hbase⟩ := h
  refine ⟨?_, hbase⟩
  rw [value_sub]
  omega

theorem At.offset_eq (hle : base ≤ n) (hlt : n < base + 1024) :
    (sn.offset : Int) =
      if base % 1024 + (n - base) < 1024 then n - base else n - base + (2 ^ 16 - 1024) := by
  obtain ⟨hvalue, hbase⟩ := h
  show (((((sn.value : Int) - sn.modulusBase).tmod 1024) % 2 ^ 16).toNat : Int) = _
  rw [hvalue, hbase, Int.tmod_eq_emod]
  split <;> split <;> omega

section

variable (h' : other.At base m) (hle : base ≤ n) (hlt : n < base + 1024) (hle' : base ≤ m)
  (hlt' : m < base + 1024)

include h' hle hlt hle' hlt'

theorem At.gt : sn.gt other = .ok (decide (m < n)) := by
  have hbase : sn.modulusBase = other.modulusBase := by
    have := h.modulusBase
    have := h'.modulusBase
    omega
  have hoffset := h.offset_eq hle hlt
  have hoffset' := h'.offset_eq hle' hlt'
  have hiff : sn.offset > other.offset ↔ m < n := by
    split at hoffset <;> split at hoffset' <;> omega
  rw [SequenceNumber10.gt, nsAssert_of hbase, ok_bind, pure_eq_ok]
  exact decide_eq_decide.mpr hiff

theorem At.value_eq_iff : sn.value = other.value ↔ n = m := by
  have hvalue := h.value
  have hvalue' := h'.value
  omega

theorem At.le : sn.le other = .ok (decide (n ≤ m)) := by
  rw [SequenceNumber10.le, h.gt h' hle hlt hle' hlt', ok_bind, pure_eq_ok]
  by_cases hnm : n ≤ m
  · simp [hnm]
  · simp [hnm, Int.lt_of_not_ge hnm]

theorem At.lt : sn.lt other = .ok (decide (n < m)) := by
  have hvalue := h.value_eq_iff h' hle hlt hle' hlt'
  rw [SequenceNumber10.lt, h.gt h' hle hlt hle' hlt', ok_bind, pure_eq_ok,
    decide_eq_decide.mpr (not_congr hvalue), ← decide_not, ← Bool.decide_and]
  exact decide_eq_decide.mpr (by omega)

theorem At.ge : sn.ge other = .ok (decide (m ≤ n)) := by
  have hvalue := h.value_eq_iff h' hle hlt hle' hlt'
  rw [SequenceNumber10.ge, h.gt h' hle hlt hle' hlt', ok_bind, pure_eq_ok,
    decide_eq_decide.mpr hvalue, ← Bool.decide_or]
  exact decide_eq_decide.mpr (by omega)

end

end

/-- The fields have ten bits, as the constructor and every operator leave them. -/
structure Valid (sn : SequenceNumber10) : Prop where
  value : sn.value < 1024
  modulusBase : sn.modulusBase < 1024

def behind (sn : SequenceNumber10) : Nat := (sn.value + 1024 - sn.modulusBase) % 1024

theorem Valid.at (h : sn.Valid) : sn.At sn.modulusBase (sn.modulusBase + sn.behind) := by
  obtain ⟨hvalue, hbase⟩ := h
  refine ⟨?_, ?_⟩
  · rw [behind]
    omega
  · omega

end SequenceNumber10

end Lte

end Ns3
