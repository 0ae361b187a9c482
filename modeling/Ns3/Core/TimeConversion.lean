/-
  Time units and their conversion
  (src/core/model/nstime.h, time.cc).

  The powers of ten, which the code computes in floating point, are the integers that they
  denote.

  A unit is the resolution itself, or one of the two is a multiple of the other; then one
  direction multiplies by the factor, and the other by its reciprocal, rounded up.  The
  error of the reciprocal is below a half of the resolution for every time step, but it can
  take the most negative one out of the range.
-/
import Mathlib.Algebra.Order.Field.Rat
import Mathlib.Data.Rat.Defs
import Ns3.Core.Int64x64Exact

namespace Ns3

inductive TimeUnit where
  | Y | D | H | MIN | S | MS | US | NS | PS | FS
  deriving DecidableEq, Repr

namespace TimeUnit

/-- The values below `LAST`. -/
def all : List TimeUnit := [Y, D, H, MIN, S, MS, US, NS, PS, FS]

/-- `UNIT_POWER`. -/
def power : TimeUnit → Int
  | Y | D | H => 17
  | MIN => 16
  | S => 15
  | MS => 12
  | US => 9
  | NS => 6
  | PS => 3
  | FS => 0

/-- `UNIT_COEFF`. -/
def coeff : TimeUnit → Nat
  | Y => 315360
  | D => 864
  | H => 36
  | MIN => 6
  | _ => 1

/-- `Scale`: the unit in the smallest unit. -/
def scale (u : TimeUnit) : Nat := u.coeff * 10 ^ u.power.toNat

end TimeUnit

/-- `Time::Information`: how to convert to a unit and from it. -/
structure TimeInformation where
  toMul : Bool := false
  fromMul : Bool := false
  factor : Int := 0
  timeTo : Int64x64 := Int64x64.zero
  timeFrom : Int64x64 := Int64x64.zero
  isValid : Bool := false
  deriving DecidableEq

/-- `Time::Resolution`. -/
structure TimeResolution where
  info : TimeUnit → TimeInformation
  unit : TimeUnit

namespace TimeResolution

open Int64x64

/-- The factor between two coefficients. -/
def quotient (unit i : TimeUnit) : Except Fault Nat :=
  if unit.coeff < i.coeff then do
    let quotient := i.coeff / unit.coeff
    nsAssert (decide (quotient * unit.coeff = i.coeff))
    pure quotient
  else if i.coeff < unit.coeff then do
    let quotient := unit.coeff / i.coeff
    nsAssert (decide (quotient * i.coeff = unit.coeff))
    pure quotient
  else pure 1

/-- One round of the loop of `SetResolution`; `2 ^ 63` is the `double` of the largest
`int64_t`. -/
def setInformation (unit i : TimeUnit) (info : TimeInformation) :
    Except Fault TimeInformation := do
  let shift := i.power - unit.power
  let quotient ← quotient unit i
  if 2 ^ 63 < 10 ^ shift.natAbs * quotient then pure { info with isValid := false }
  else do
    let factor := 10 ^ shift.natAbs * quotient
    let realFactor : ℚ := 10 ^ shift * i.coeff / unit.coeff
    if shift = 0 ∧ quotient = 1 then
      pure { toMul := true, fromMul := true, factor, timeTo := ofInt 1,
             timeFrom := ofInt 1, isValid := true }
    else if 1 < realFactor then do
      let inverse ← invert factor
      pure { toMul := false, fromMul := true, factor, timeTo := inverse,
             timeFrom := ofInt factor, isValid := true }
    else do
      nsAssert (decide (realFactor < 1))
      let inverse ← invert factor
      pure { toMul := true, fromMul := false, factor, timeTo := ofInt factor,
             timeFrom := inverse, isValid := true }

/-- `SetResolution`, up to the conversion of the times that exist. -/
def setResolution (unit : TimeUnit) (resolution : TimeResolution) :
    Except Fault TimeResolution := do
  let resolution ← TimeUnit.all.foldlM
    (fun resolution i => do
      let info ← setInformation unit i (resolution.info i)
      pure { resolution with info := Function.update resolution.info i info }) resolution
  pure { resolution with unit }

def toUnit (resolution : TimeResolution) (t : Int) (unit : TimeUnit) : Except Fault Int64x64 := do
  let info := resolution.info unit
  nsAssert info.isValid
  let retval := ofInt t
  if info.toMul then retval.mul info.timeTo else retval.mulByInvert info.timeTo

def fromUnit (resolution : TimeResolution) (value : Int64x64) (unit : TimeUnit) :
    Except Fault Int := do
  let info := resolution.info unit
  nsAssert info.isValid
  let retval ← if info.fromMul then value.mul info.timeFrom else value.mulByInvert info.timeFrom
  pure retval.round

/-! ## Conversions between time units lose nothing -/

open Ns3.Lib

variable {unit i : TimeUnit} {info : TimeInformation} {res old : TimeResolution} {t : Int}
  {x : Int64x64}

/-! ## The information about a unit -/

/-- What the information about a valid unit says. -/
inductive Conversion (unit i : TimeUnit) (info : TimeInformation) : Prop where
  | same (hscale : i.scale = unit.scale) (hto : info.toMul = true) (hfrom : info.fromMul = true)
      (htimeTo : info.timeTo = ofInt 1) (htimeFrom : info.timeFrom = ofInt 1)
  | coarser {f b : Nat} (hscale : i.scale = f * unit.scale) (hf : 2 < f) (hlt : f < 2 ^ 63)
      (hdvd : ¬f ∣ 2 ^ 64 * 2 ^ 64) (hto : info.toMul = false) (hfrom : info.fromMul = true)
      (hfactor : info.factor = f) (htimeTo : info.timeTo.v = b)
      (htimeFrom : info.timeFrom = ofInt f)
      (hrecip : Reciprocal (2 ^ 64 * 2 ^ 64) f b)
  | finer {f b : Nat} (hscale : unit.scale = f * i.scale) (hf : 2 < f) (hlt : f < 2 ^ 63)
      (hto : info.toMul = true) (hfrom : info.fromMul = false) (htimeTo : info.timeTo = ofInt f)
      (htimeFrom : info.timeFrom.v = b) (hrecip : Reciprocal (2 ^ 64 * 2 ^ 64) f b)

theorem factor_facts (unit i : TimeUnit) : ∃ q, quotient unit i = .ok q ∧
    ((i.power - unit.power = 0 ∧ q = 1 ∧ i.scale = unit.scale) ∨
      (2 < 10 ^ (i.power - unit.power).natAbs * q ∧
        10 ^ (i.power - unit.power).natAbs * q ≠ 2 ^ 63 ∧
        ¬10 ^ (i.power - unit.power).natAbs * q ∣ 2 ^ 64 * 2 ^ 64 ∧
        ((1 < (10 ^ (i.power - unit.power) * i.coeff / unit.coeff : ℚ) ∧
            i.scale = 10 ^ (i.power - unit.power).natAbs * q * unit.scale) ∨
          ((10 ^ (i.power - unit.power) * i.coeff / unit.coeff : ℚ) < 1 ∧
            unit.scale = 10 ^ (i.power - unit.power).natAbs * q * i.scale)))) := by
  cases unit <;> cases i <;> exact ⟨_, rfl, by decide +kernel⟩

theorem setInformation_eq (unit i : TimeUnit) (info : TimeInformation) :
    ∃ info', setInformation unit i info = .ok info' ∧
      (info'.isValid = true → Conversion unit i info') := by
  obtain ⟨q, hq, hfacts⟩ := factor_facts unit i
  rw [setInformation]
  dsimp only
  rw [hq, ok_bind]
  split
  · exact ⟨_, rfl, fun h => nomatch h⟩
  · rename_i hfits
    rcases hfacts with ⟨hshift, rfl, hscale⟩ | ⟨hf, hne, hdvd, hreal⟩
    · rw [if_pos ⟨hshift, rfl⟩]
      exact ⟨_, rfl, fun _ => .same hscale rfl rfl rfl rfl⟩
    · have hmore : ¬(i.power - unit.power = 0 ∧ q = 1) := by
        rintro ⟨hshift, rfl⟩
        rw [hshift] at hf
        exact absurd hf (by decide)
      have hlt : 10 ^ (i.power - unit.power).natAbs * q < 2 ^ 63 := by omega
      obtain ⟨inverse, b, hinvert, hb, hrecip⟩ := invert_eq hf hlt
      rw [if_neg hmore, hinvert]
      rcases hreal with ⟨hcoarser, hscale⟩ | ⟨hfiner, hscale⟩
      · rw [if_pos hcoarser, ok_bind]
        exact ⟨_, rfl, fun _ => .coarser hscale hf hlt hdvd rfl rfl rfl hb rfl hrecip⟩
      · rw [if_neg (lt_asymm hfiner), nsAssert_of hfiner, ok_bind, ok_bind]
        exact ⟨_, rfl, fun _ => .finer hscale hf hlt rfl rfl rfl hb hrecip⟩

theorem setLoop_eq (unit : TimeUnit) (l : List TimeUnit) (old : TimeResolution) :
    ∃ res, l.foldlM (fun resolution i => do
        let info ← setInformation unit i (resolution.info i)
        pure { resolution with info := Function.update resolution.info i info }) old =
          (.ok res : Except Fault TimeResolution) ∧
      ∀ i, (i ∈ l ∨ ((old.info i).isValid = true → Conversion unit i (old.info i))) →
        (res.info i).isValid = true → Conversion unit i (res.info i) := by
  induction l generalizing old with
  | nil => exact ⟨old, rfl, fun i hi => hi.resolve_left List.not_mem_nil⟩
  | cons j l ih =>
    obtain ⟨info, hinfo, hconversion⟩ := setInformation_eq unit j (old.info j)
    obtain ⟨res, hloop, hres⟩ := ih { old with info := Function.update old.info j info }
    refine ⟨res, ?_, fun i hi => ?_⟩
    · rw [List.foldlM_cons, hinfo]
      exact hloop
    · apply hres
      by_cases heq : i = j
      · subst heq
        right
        dsimp only
        rw [Function.update_self]
        exact hconversion
      · rcases hi with hmem | hold
        · exact .inl ((List.mem_cons.mp hmem).resolve_left heq)
        · right
          dsimp only
          rw [Function.update_of_ne heq]
          exact hold

theorem setResolution_eq (unit : TimeUnit) (old : TimeResolution) :
    ∃ res, setResolution unit old = .ok res ∧
      ∀ i, (res.info i).isValid = true → Conversion unit i (res.info i) := by
  obtain ⟨res, hloop, hres⟩ := setLoop_eq unit TimeUnit.all old
  refine ⟨{ res with unit }, ?_, fun i => hres i (.inl ?_)⟩
  · rw [setResolution, hloop]
    rfl
  · cases i <;> decide

/-! ## The round trip -/

theorem withSign_natAbs {n m : Int} (hv : x.v = n * m) (hm : 0 < m) : withSign x n.natAbs = n := by
  rw [withSign, hv]
  by_cases hneg : n < 0
  · rw [if_pos (Int.mul_neg_of_neg_of_pos hneg hm)]
    omega
  · rw [if_neg (Int.not_lt.mpr (Int.mul_nonneg (Int.not_lt.mp hneg) (Int.le_of_lt hm)))]
    omega

theorem withSign_mul (x : Int64x64) (n m : Nat) : withSign x (n * m) = withSign x n * m := by
  rw [withSign, withSign]
  split
  · push_cast
    ring
  · exact Nat.cast_mul n m

theorem withSign_ofInt (ht : -2 ^ 63 ≤ t) (ht' : t < 2 ^ 63) (n : Nat) :
    withSign (ofInt t) n = if t < 0 then -(n : Int) else n := by
  have hneg : (ofInt t).v < 0 ↔ t < 0 := by
    rw [ofInt_v ht ht']
    omega
  rw [withSign]
  simp only [hneg]

theorem round_ofInt (ht : -2 ^ 63 ≤ t) (ht' : t < 2 ^ 63) : (ofInt t).round = t := by
  have hv := ofInt_v ht ht'
  by_cases hmin : t = -2 ^ 63
  · subst hmin
    exact round_min (s := 0) hv (le_refl 0) (by decide)
  · rw [round_of (m := t.natAbs) (e := 0) (by omega) (by omega) (by decide) (by decide)]
    exact withSign_natAbs hv (by decide)

theorem mul_one (t : Int) : (ofInt t).mul (ofInt 1) = .ok (ofInt t) := by
  have hmul := mul_int (ofInt t) (k := 1) (by decide)
  rw [Nat.cast_one, Int.mul_one, if_pos ⟨(ofInt t).le_v, (ofInt t).v_lt⟩, ofWide_self] at hmul
  exact hmul

section Factor

variable {f b : Nat} {inverse : Int64x64}

/-- Into a finer unit and back nothing is lost. -/
theorem finer_roundtrip (ht : -2 ^ 63 ≤ t) (ht' : t < 2 ^ 63) (hf : 2 < f) (hlt : f < 2 ^ 63)
    (hinverse : inverse.v = b) (hrecip : Reciprocal (2 ^ 64 * 2 ^ 64) f b)
    (hto : (ofInt t).mul (ofInt f) = .ok x) : ∃ y, x.mulByInvert inverse = .ok y ∧ y.round = t := by
  have hv := ofInt_v ht ht'
  rw [mul_int (ofInt t) hlt, hv] at hto
  split at hto
  · rename_i hrange
    have hx : x.v = t * f * 2 ^ 64 := by
      rw [← Except.ok.inj hto, ofWide_v hrange.1 hrange.2]
      ring
    have hproduct : (t * f).natAbs = t.natAbs * f := by rw [Int.natAbs_mul, Int.natAbs_natCast]
    have hsmall : t.natAbs * f ≤ 2 ^ 63 := by
      have hle := x.le_v
      have hlt := x.v_lt
      rw [hx] at hle hlt
      omega
    have hmin : t.natAbs < 2 ^ 63 := by
      have hle : t.natAbs * 3 ≤ t.natAbs * f := Nat.mul_le_mul_left _ hf
      omega
    have hquotient : (t * f).natAbs * b / 2 ^ 64 = t.natAbs * 2 ^ 64 := by
      rw [hproduct]
      exact hrecip.mul_div_eq (Nat.two_pow_pos 64) (by omega)
    obtain ⟨y, hy, hyv⟩ := mulByInvert_int hx hinverse (by omega)
    rw [hquotient] at hyv
    have hsign : withSign x t.natAbs = t := by
      apply withSign_natAbs (m := f * 2 ^ 64)
      · rw [hx]
        ring
      · omega
    have hvalue : y.v = t * 2 ^ 64 := by
      rw [hyv, withSign_mul, hsign]
      rfl
    refine ⟨y, hy, ?_⟩
    have hround := round_ofInt ht ht'
    have heq : y = ofInt t := ext (hvalue.trans hv.symm)
    rw [heq, hround]
  · cases hto

theorem coarser_quotient (ht : -2 ^ 63 ≤ t) (ht' : t < 2 ^ 63) (hinverse : inverse.v = b) :
    ∃ y, (ofInt t).mulByInvert inverse = .ok y ∧
      y.v = withSign (ofInt t) (t.natAbs * b / 2 ^ 64) := by
  have hb := inverse.v_lt
  have hle : t.natAbs * b ≤ 2 ^ 63 * 2 ^ 127 := Nat.mul_le_mul (by omega) (by omega)
  exact mulByInvert_int (ofInt_v ht ht') hinverse (by omega)

theorem quotient_bounds (hn : t.natAbs ≤ 2 ^ 63) (hf : 2 < f) (hlt : f < 2 ^ 63)
    (hrecip : Reciprocal (2 ^ 64 * 2 ^ 64) f b) :
    t.natAbs * 2 ^ 64 < f * (t.natAbs * b / 2 ^ 64) + f ∧
      f * (t.natAbs * b / 2 ^ 64) ≤ t.natAbs * 2 ^ 64 + 2 ^ 62 := by
  obtain ⟨hlower, hupper⟩ := hrecip.mul_quotient (n := t.natAbs) (by omega) (Nat.two_pow_pos 64)
  have hle : t.natAbs * f ≤ 2 ^ 63 * 2 ^ 63 := Nat.mul_le_mul hn (Nat.le_of_lt hlt)
  refine ⟨hlower, ?_⟩
  apply Nat.le_of_mul_le_mul_right (c := 2 ^ 64) _ (Nat.two_pow_pos 64)
  rw [Nat.add_mul]
  omega

/-- Into a coarser unit and back nothing is lost either, except at the minimum. -/
theorem coarser_roundtrip (hn : t.natAbs < 2 ^ 63) (hf : 2 < f) (hlt : f < 2 ^ 63)
    (hrecip : Reciprocal (2 ^ 64 * 2 ^ 64) f b)
    (hx : x.v = withSign (ofInt t) (t.natAbs * b / 2 ^ 64)) :
    ∃ y, x.mul (ofInt f) = .ok y ∧ y.round = t := by
  obtain ⟨hlower, hupper⟩ := quotient_bounds (Nat.le_of_lt hn) hf hlt hrecip
  rw [withSign_ofInt (by omega) (by omega)] at hx
  generalize t.natAbs * b / 2 ^ 64 = q at hlower hupper hx
  have hproduct : x.v * f = if t < 0 then -((f * q : Nat) : Int) else (f * q : Nat) := by
    rw [hx]
    split
    · push_cast
      ring
    · push_cast
      ring
  have hrange : -2 ^ 127 ≤ x.v * f ∧ x.v * f < 2 ^ 127 := by
    rw [hproduct]
    split
    · omega
    · omega
  have hmul := mul_int x hlt
  rw [if_pos hrange] at hmul
  refine ⟨_, hmul, ?_⟩
  have hy : (ofWide (x.v * f)).v = if t < 0 then -((f * q : Nat) : Int) else (f * q : Nat) := by
    rw [ofWide_v hrange.1 hrange.2, hproduct]
  have hround := round_of (x := ofWide (x.v * f)) (m := t.natAbs)
    (e := (f * q : Nat) - t.natAbs * 2 ^ 64) hn (by rw [hy]; split <;> omega) (by omega) (by omega)
  rw [hround, withSign, hy]
  by_cases hneg : t < 0
  · simp only [hneg, ↓reduceIte]
    split
    · omega
    · omega
  · simp only [hneg, ↓reduceIte]
    split
    · omega
    · omega

/-- The minimum: its reciprocal decides between an assertion and the right answer. -/
theorem coarser_min (hf : 2 < f) (hlt : f < 2 ^ 63) (hdvd : ¬f ∣ 2 ^ 64 * 2 ^ 64)
    (hrecip : Reciprocal (2 ^ 64 * 2 ^ 64) f b) (hx : x.v = -(2 ^ 63 * b / 2 ^ 64 : Nat)) :
    if b % 2 = 0 then x.mul (ofInt f) = .error .assertFailed
    else ∃ y, x.mul (ofInt f) = .ok y ∧ y.round = -2 ^ 63 := by
  have hhalf : 2 ^ 63 * b / 2 ^ 64 = b / 2 := by omega
  have hne : f * b ≠ 2 ^ 64 * 2 ^ 64 := fun heq => hdvd ⟨b, heq.symm⟩
  have hle := hrecip.le
  have hlt' := hrecip.lt
  have hproduct : x.v * f = -((f * (b / 2) : Nat) : Int) := by
    rw [hx, hhalf]
    push_cast
    ring
  have hmul := mul_int x hlt
  rw [hproduct] at hmul
  split
  · rename_i heven
    have hdouble : f * b = 2 * (f * (b / 2)) := by
      calc f * b = f * (2 * (b / 2)) := by rw [Nat.mul_div_cancel' (Nat.dvd_of_mod_eq_zero heven)]
        _ = 2 * (f * (b / 2)) := by ring
    rw [if_neg (by omega)] at hmul
    exact hmul
  · rename_i hodd
    have hdouble : f * b = 2 * (f * (b / 2)) + f := by
      have hsplit : b = 2 * (b / 2) + 1 := by omega
      calc f * b = f * (2 * (b / 2) + 1) := by rw [← hsplit]
        _ = 2 * (f * (b / 2)) + f := by ring
    have hrange : -2 ^ 127 ≤ -((f * (b / 2) : Nat) : Int) ∧
        -((f * (b / 2) : Nat) : Int) < 2 ^ 127 := by omega
    rw [if_pos hrange] at hmul
    refine ⟨_, hmul, ?_⟩
    apply round_min (s := 2 ^ 127 - (f * (b / 2) : Nat))
    · rw [ofWide_v hrange.1 hrange.2]
      omega
    · omega
    · omega

end Factor

theorem scale_pos (u : TimeUnit) : 0 < u.scale := by
  cases u <;> decide

theorem toUnit_eq (hvalid : (res.info i).isValid = true) :
    res.toUnit t i = if (res.info i).toMul then (ofInt t).mul (res.info i).timeTo
      else (ofInt t).mulByInvert (res.info i).timeTo := by
  rw [toUnit]
  dsimp only
  rw [hvalid]
  rfl

theorem fromUnit_eq (hvalid : (res.info i).isValid = true) :
    res.fromUnit x i = ((if (res.info i).fromMul then x.mul (res.info i).timeFrom
      else x.mulByInvert (res.info i).timeFrom) >>= fun y => .ok y.round) := by
  rw [fromUnit]
  dsimp only
  rw [hvalid]
  cases (res.info i).fromMul with
  | true => rfl
  | false => rfl

/-- **Conversions lose nothing**, but for the most negative time step, converted to a coarser unit
whose reciprocal is even. -/
theorem conversion_lossless (hres : setResolution unit old = .ok res)
    (hvalid : (res.info i).isValid = true) (ht : -2 ^ 63 ≤ t) (ht' : t < 2 ^ 63)
    (hto : res.toUnit t i = .ok x) :
    (res.fromUnit x i = .ok t ∧
        (unit.scale < i.scale → 0 ≤ t → x.getHigh = t / (i.scale / unit.scale : Nat))) ↔
      ¬(t = -2 ^ 63 ∧ unit.scale < i.scale ∧ (res.info i).timeTo.v % 2 = 0) := by
  obtain ⟨res', hres', hconversion⟩ := setResolution_eq unit old
  obtain rfl : res = res' := Except.ok.inj (hres.symm.trans hres')
  rw [toUnit_eq hvalid] at hto
  have hpos := scale_pos i
  have hpos' := scale_pos unit
  cases hconversion i hvalid with
  | same hscale hmul hfrom htimeTo htimeFrom =>
    rw [hmul, if_pos rfl, htimeTo, mul_one] at hto
    cases hto
    have hnot : ¬unit.scale < i.scale := by omega
    rw [fromUnit_eq hvalid, hfrom, if_pos rfl, htimeFrom, mul_one, ok_bind, round_ofInt ht ht']
    exact iff_of_true ⟨rfl, fun h => absurd h hnot⟩ fun h => hnot h.2.1
  | @finer f b hscale hf hlt hmul hfrom htimeTo htimeFrom hrecip =>
    rw [hmul, if_pos rfl, htimeTo] at hto
    obtain ⟨y, hy, hround⟩ := finer_roundtrip ht ht' hf hlt htimeFrom hrecip hto
    have hnot : ¬unit.scale < i.scale := by
      have hle : 1 * i.scale ≤ f * i.scale := Nat.mul_le_mul_right _ (by omega)
      omega
    rw [fromUnit_eq hvalid, hfrom, if_neg Bool.false_ne_true, hy, ok_bind, hround]
    exact iff_of_true ⟨rfl, fun h => absurd h hnot⟩ fun h => hnot h.2.1
  | @coarser f b hscale hf hlt hdvd hmul hfrom hfactor htimeTo htimeFrom hrecip =>
    rw [hmul, if_neg Bool.false_ne_true] at hto
    obtain ⟨y, hy, hx⟩ := coarser_quotient ht ht' htimeTo
    obtain rfl : x = y := Except.ok.inj (hto.symm.trans hy)
    have hcoarser : unit.scale < i.scale := by
      have hle : 2 * unit.scale ≤ f * unit.scale := Nat.mul_le_mul_right _ (by omega)
      omega
    have hfactor' : i.scale / unit.scale = f := by
      rw [hscale, Nat.mul_div_cancel f hpos']
    have hhigh : unit.scale < i.scale → 0 ≤ t → x.getHigh = t / (i.scale / unit.scale : Nat) := by
      intro _ hnonneg
      have hsmall : t.natAbs * f ≤ 2 ^ 64 * 2 ^ 64 := by
        apply Nat.mul_le_mul
        · omega
        · omega
      have hvalue : x.v = (t.natAbs * b / 2 ^ 64 : Nat) := by
        rw [hx, withSign_ofInt ht ht', if_neg (Int.not_lt.mpr hnonneg)]
      rw [getHigh_of hvalue, Nat.div_div_eq_div_mul,
        hrecip.div_eq (Nat.zero_lt_of_lt hf) (by decide) hsmall, hfactor', Int.natCast_div,
        Int.natAbs_of_nonneg hnonneg]
    have hparity : (res.info i).timeTo.v % 2 = 0 ↔ b % 2 = 0 := by
      rw [htimeTo]
      omega
    rw [hparity, fromUnit_eq hvalid, hfrom, if_pos rfl, htimeFrom]
    by_cases hmin : t = -2 ^ 63
    · subst hmin
      have hcase := coarser_min (x := x) hf hlt hdvd hrecip hx
      by_cases heven : b % 2 = 0
      · rw [if_pos heven] at hcase
        rw [hcase]
        exact iff_of_false (fun h => nomatch h.1) fun h => h ⟨rfl, hcoarser, heven⟩
      · rw [if_neg heven] at hcase
        obtain ⟨z, hz, hround⟩ := hcase
        rw [hz, ok_bind, hround]
        exact iff_of_true ⟨rfl, hhigh⟩ fun h => heven h.2.2
    · obtain ⟨z, hz, hround⟩ := coarser_roundtrip (by omega) hf hlt hrecip hx
      rw [hz, ok_bind, hround]
      exact iff_of_true ⟨rfl, hhigh⟩ fun h => hmin h.1

def unset : TimeResolution := { info := fun _ => {}, unit := .Y }

/-- Five seconds and seven nanoseconds, in seconds and back. -/
theorem conversion_lossless_seconds :
    ∃ res x, setResolution .NS unset = .ok res ∧ res.toUnit 5000000007 .S = .ok x ∧
      res.fromUnit x .S = .ok 5000000007 ∧ x.getHigh = 5 := by
  have hrun : (do
      let res ← setResolution .NS unset
      let _ ← res.toUnit 5000000007 .S
      nsAssert (res.info .S).isValid : Except Fault Unit) = .ok () := by decide +kernel
  obtain ⟨res, hres, hrun⟩ := bind_eq_ok.mp hrun
  obtain ⟨x, hto, hvalid⟩ := bind_eq_ok.mp hrun
  obtain ⟨hback, hhigh⟩ := (conversion_lossless hres (nsAssert_eq_ok.mp hvalid) (by decide)
    (by decide) hto).mpr fun h => absurd h.1 (by decide)
  exact ⟨res, x, hres, hto, hback, (hhigh (by decide) (by decide)).trans (by decide)⟩

/-- **The most negative time is lost**: in nanoseconds, it is converted to seconds, and the
conversion back overflows. -/
theorem most_negative_lost :
    ∃ res x, setResolution .NS unset = .ok res ∧ (res.info .S).isValid = true ∧
      res.toUnit (-2 ^ 63) .S = .ok x ∧ res.fromUnit x .S = .error .assertFailed := by
  have hrun : (do
      let res ← setResolution .NS unset
      let x ← res.toUnit (-2 ^ 63) .S
      nsAssert (res.info .S).isValid
      nsAssert (decide (res.fromUnit x .S = .error .assertFailed)) : Except Fault Unit) =
        .ok () := by decide +kernel
  obtain ⟨res, hres, hrun⟩ := bind_eq_ok.mp hrun
  obtain ⟨x, hto, hrun⟩ := bind_eq_ok.mp hrun
  obtain ⟨u, hvalid, hfails⟩ := bind_eq_ok.mp hrun
  exact ⟨res, x, hres, nsAssert_eq_ok.mp hvalid, hto, of_decide_eq_true (nsAssert_eq_ok.mp hfails)⟩

end TimeResolution

end Ns3
