/-
  The path that a nix-vector stores
  (src/network/model/nix-vector.cc).

  The indices of the neighbours are packed into 32-bit words, the first one lowest, and
  taken back from the highest one on.  A shift of a `uint32_t` by 32 positions or more has
  no value in C++; here such a shift is a fault.
-/
import Mathlib.Data.List.Infix
import Ns3.Lib.BitField
import Ns3.Network.PacketSerialize

namespace Ns3

open Ns3.Lib

/-- Why a call on a nix-vector has no result. -/
inductive NixFault where
  /-- a word is shifted by 32 positions or more -/
  | undefinedShift
  /-- `NS_FATAL_ERROR` was reached -/
  | fatalError
  /-- `NS_ASSERT_MSG` failed -/
  | assertFailed
  /-- an entry that is not there is read -/
  | outOfRange
  deriving DecidableEq, Repr

namespace NixVector

/-- `x << k`. -/
def shl (x k : UInt32) : Except NixFault UInt32 :=
  if k < 32 then .ok (x <<< k) else .error .undefinedShift

/-- `x >> k`. -/
def shr (x k : UInt32) : Except NixFault UInt32 :=
  if k < 32 then .ok (x >>> k) else .error .undefinedShift

def back (words : List UInt32) : Except NixFault UInt32 :=
  match words.getLast? with
  | some w => .ok w
  | none => .error .outOfRange

/-- `m_nixVector.at(i)`. -/
def wordAt (words : List UInt32) (i : UInt32) : Except NixFault UInt32 :=
  match words[i.toNat]? with
  | some w => .ok w
  | none => .error .outOfRange

def addNeighborIndex (v : NixVector) (newBits numberOfBits : UInt32) :
    Except NixFault NixVector := do
  if numberOfBits > 32 then .error .fatalError
  else
    let currentVectorBitSize := v.totalBitSize % 32
    let words := if currentVectorBitSize = 0 then v.nixVector ++ [0] else v.nixVector
    let last ← back words
    let words ←
      if currentVectorBitSize + numberOfBits > 32 then do
        -- what fits goes into the last word, the rest into a new one
        let tempBits ← shl newBits currentVectorBitSize
        let newBits ← shr newBits (32 - currentVectorBitSize)
        pure (words.dropLast ++ [tempBits ||| last] ++ [newBits])
      else do
        let newBits ← shl newBits currentVectorBitSize
        pure (words.dropLast ++ [newBits ||| last])
    pure { v with nixVector := words, totalBitSize := v.totalBitSize + numberOfBits }

def getRemainingBits (v : NixVector) : UInt32 := v.totalBitSize - v.used

/-- The shifts of `ExtractNeighborIndex`. -/
def extractedBits (v : NixVector) (totalRemainingBits numberOfBits : UInt32) :
    Except NixFault UInt32 := do
  let vectorIndex := (totalRemainingBits - 1) / 32
  if vectorIndex > 0 ∧ numberOfBits - 1 > (totalRemainingBits - 1) % 32 then
    -- the bits span two words
    let high ← wordAt v.nixVector vectorIndex
    let high ← shl high (32 - totalRemainingBits % 32)
    let high ← shr high
      ((32 - totalRemainingBits % 32) - (numberOfBits - totalRemainingBits % 32))
    let low ← wordAt v.nixVector (vectorIndex - 1)
    let low ← shr low (32 - (numberOfBits - totalRemainingBits % 32))
    pure (high ||| low)
  else
    let word ← wordAt v.nixVector vectorIndex
    let word ← shl word (32 - totalRemainingBits % 32)
    shr word (32 - numberOfBits)

def extractNeighborIndex (v : NixVector) (numberOfBits : UInt32) :
    Except NixFault (UInt32 × NixVector) :=
  let totalRemainingBits := v.getRemainingBits
  if numberOfBits > 32 then .error .fatalError
  else if numberOfBits > totalRemainingBits then .error .fatalError
  else if numberOfBits ≤ 0 then .error .fatalError
  else do
    let bits ← v.extractedBits totalRemainingBits numberOfBits
    pure (bits, { v with used := v.used + numberOfBits })

/-! ## Serialization -/

/-- `*p++`. -/
def readWord : List UInt32 → Except NixFault (UInt32 × List UInt32)
  | [] => .error .outOfRange
  | w :: p => .ok (w, p)

/-- The loop of `Deserialize`. -/
def readWords : Nat → List UInt32 → Except NixFault (List UInt32 × List UInt32)
  | 0, p => .ok ([], p)
  | n + 1, p => do
      let (nix, p) ← readWord p
      let (words, p) ← readWords n p
      pure (nix :: words, p)

/-- `Deserialize`: what it returns, and the object after it. -/
def deserialize (v : NixVector) (buffer : List UInt32) (size : Nat) :
    Except NixFault (Nat × NixVector) := do
  if size < 4 then .error .assertFailed
  else
    let (totalBitSize, p) ← readWord buffer
    let v := { v with totalBitSize }
    if totalBitSize = 0 then pure (v.getSerializedSize, v)
    else
      let (used, p) ← readWord p
      let v := { v with used }
      let nixVectorLength :=
        totalBitSize.toNat / 32 + if totalBitSize.toNat % 32 = 0 then 0 else 1
      if size < 16 + nixVectorLength then .error .assertFailed
      else if size < 16 + nixVectorLength * 4 then pure (0, v)
      else
        let (words, p) ← readWords nixVectorLength p
        let (epoch, _) ← readWord p
        let v := { v with nixVector := words, epoch }
        pure (v.getSerializedSize, v)

/-- The object is written into a buffer of its size and read into a fresh one. As in `Packet`, the
size passed on counts the word with the length as well. -/
def roundTrip (v : NixVector) : Except NixFault NixVector := do
  let nixSize := v.getSerializedSize
  if (v.serialize nixSize).ok then do
    let (_, nix) ← deserialize {} v.words (nixSize + 4)
    pure nix
  else pure v

/-! ## Paths -/

/-- The indices of a path with their widths, added one after the other. -/
def addAll (v : NixVector) (path : List (UInt32 × UInt32)) : Except NixFault NixVector :=
  path.foldlM (fun v p => v.addNeighborIndex p.1 p.2) v

def travel (v : NixVector) (again : Bool) : Except NixFault NixVector :=
  if again then v.roundTrip else .ok v

/-- Extractions of the given widths; before those that are marked the object makes a round
trip. -/
def extractAll (v : NixVector) : List (UInt32 × Bool) → Except NixFault (List UInt32)
  | [] => .ok []
  | (numberOfBits, again) :: rest => do
      let v ← v.travel again
      let (bits, v) ← v.extractNeighborIndex numberOfBits
      let more ← v.extractAll rest
      pure (bits :: more)

/-! ## Words and shifts -/

section Calls

variable {α β : Type} {x : Except NixFault α} {f : α → Except NixFault β} {r : β}

theorem bind_ok_iff : (x >>= f) = .ok r ↔ ∃ a, x = .ok a ∧ f a = .ok r := by
  cases x with
  | error e => exact ⟨nofun, fun ⟨a, ha, _⟩ => nomatch ha⟩
  | ok a => exact ⟨fun h => ⟨a, rfl, h⟩, fun ⟨b, hb, h⟩ => (Except.ok.inj hb) ▸ h⟩

theorem bind_of {a : α} (h : x = .ok a) : (x >>= f) = f a := by
  rw [h]
  rfl

end Calls

variable {v : NixVector} {x k b : UInt32} {words : List UInt32}

theorem shl_of (h : k.toNat < 32) :
    ∃ y, shl x k = .ok y ∧ y.toNat = x.toNat * 2 ^ k.toNat % 2 ^ 32 := by
  refine ⟨x <<< k, if_pos (UInt32.lt_iff_toNat_lt.mpr h), ?_⟩
  rw [UInt32.toNat_shiftLeft, Nat.mod_eq_of_lt h, Nat.shiftLeft_eq]

theorem shr_of (h : k.toNat < 32) :
    ∃ y, shr x k = .ok y ∧ y.toNat = x.toNat / 2 ^ k.toNat := by
  refine ⟨x >>> k, if_pos (UInt32.lt_iff_toNat_lt.mpr h), ?_⟩
  rw [UInt32.toNat_shiftRight, Nat.mod_eq_of_lt h, Nat.shiftRight_eq_div_pow]

theorem lt_of_shl {y : UInt32} (h : shl x k = .ok y) : k.toNat < 32 := by
  rw [shl] at h
  split at h
  · rename_i hlt
    exact UInt32.lt_iff_toNat_lt.mp hlt
  · cases h

theorem back_of (front : List UInt32) (last : UInt32) : back (front ++ [last]) = .ok last := by
  rw [back, List.getLast?_concat]

theorem wordAt_of {i : UInt32} (h : i.toNat < words.length) :
    ∃ w, wordAt words i = .ok w ∧ words[i.toNat]? = some w := by
  refine ⟨words[i.toNat], ?_, List.getElem?_eq_getElem h⟩
  rw [wordAt, List.getElem?_eq_getElem h]

/-! ## Adding -/

section

variable {w : ℕ} (htotal : v.totalBitSize.toNat = w) (hlength : v.nixVector.length = (w + 31) / 32)
  (hlt : ofWords v.nixVector < 2 ^ w)

include htotal hlength hlt

theorem exists_last :
    ∃ front last, (if v.totalBitSize % 32 = 0 then v.nixVector ++ [0] else v.nixVector) =
        front ++ [last] ∧ front.length = w / 32 ∧
      ofWords front + 2 ^ (32 * (w / 32)) * last.toNat = ofWords v.nixVector ∧
      last.toNat < 2 ^ (w % 32) := by
  have hmod : v.totalBitSize % 32 = 0 ↔ w % 32 = 0 := by
    rw [← UInt32.toNat_inj, UInt32.toNat_mod, htotal]
    rfl
  by_cases hzero : w % 32 = 0
  · rw [if_pos (hmod.mpr hzero)]
    refine ⟨v.nixVector, 0, rfl, by omega, Nat.add_zero _, ?_⟩
    rw [hzero]
    exact Nat.one_pos
  · rw [if_neg (mt hmod.mp hzero)]
    have hne : v.nixVector ≠ [] := by
      intro hnil
      rw [hnil, List.length_nil] at hlength
      omega
    have hsplit := List.dropLast_append_getLast hne
    have hfront : v.nixVector.dropLast.length = w / 32 := by
      rw [List.length_dropLast]
      omega
    have hvalue : ofWords v.nixVector.dropLast +
        2 ^ (32 * (w / 32)) * (v.nixVector.getLast hne).toNat = ofWords v.nixVector := by
      rw [← hfront, ← ofWords_concat, hsplit]
    refine ⟨_, _, hsplit.symm, hfront, hvalue, ?_⟩
    have hw : w = 32 * (w / 32) + w % 32 := (Nat.div_add_mod w 32).symm
    rw [hw, Nat.pow_add, ← hvalue] at hlt
    exact Nat.lt_of_mul_lt_mul_left ((Nat.le_add_left _ _).trans_lt hlt)

theorem addNeighborIndex_of (hb : b.toNat ≤ 32) (hpos : 0 < b.toNat) (hx : x.toNat < 2 ^ b.toNat) :
    ∃ words, v.addNeighborIndex x b =
        .ok { v with nixVector := words, totalBitSize := v.totalBitSize + b } ∧
      words.length = (w + b.toNat + 31) / 32 ∧
      ofWords words = ofWords v.nixVector + 2 ^ w * x.toNat := by
  obtain ⟨front, last, hwords, hfront, hvalue, hlast⟩ := exists_last htotal hlength hlt
  have hcur : (v.totalBitSize % 32).toNat = w % 32 := by
    rw [UInt32.toNat_mod, htotal]
    rfl
  have hbits : w % 32 < 32 := Nat.mod_lt _ (by decide)
  have hw : 2 ^ w = 2 ^ (32 * (w / 32)) * 2 ^ (w % 32) := by
    rw [← Nat.pow_add, Nat.div_add_mod]
  have hword : 2 ^ 32 = 2 ^ (w % 32) * 2 ^ (32 - w % 32) := by
    rw [← Nat.pow_add, Nat.add_sub_cancel' (by omega)]
  obtain ⟨y, hshl, hy⟩ := shl_of (x := x) (k := v.totalBitSize % 32) (by omega)
  rw [hcur] at hy
  -- the low bits of the index go on top of the last word
  have hmod : y.toNat = 2 ^ (w % 32) * (x.toNat % 2 ^ (32 - w % 32)) := by
    rw [hy, hword, Nat.mul_comm, Nat.mul_mod_mul_left]
  have hor : (y ||| last).toNat = 2 ^ (w % 32) * (x.toNat % 2 ^ (32 - w % 32)) + last.toNat := by
    rw [UInt32.toNat_or, hmod, Nat.two_pow_add_eq_or_of_lt hlast]
  have hsum : (v.totalBitSize % 32 + b).toNat = w % 32 + b.toNat := by
    rw [UInt32.toNat_add, hcur, Nat.mod_eq_of_lt (by omega)]
  rw [addNeighborIndex, if_neg (by rw [gt_iff_lt, UInt32.lt_iff_toNat_lt]; exact Nat.not_lt.mpr hb)]
  dsimp only
  rw [hwords, bind_of (back_of front last), List.dropLast_concat]
  by_cases hspan : 32 < w % 32 + b.toNat
  · obtain ⟨z, hshr, hz⟩ := shr_of (x := x) (k := 32 - v.totalBitSize % 32) (by
      rw [UInt32.toNat_sub_of_le _ _ (by rw [UInt32.le_iff_toNat_le, hcur]; exact hbits.le), hcur]
      change 32 - w % 32 < 32
      omega)
    rw [UInt32.toNat_sub_of_le _ _ (by rw [UInt32.le_iff_toNat_le, hcur]; exact hbits.le),
      hcur] at hz
    change z.toNat = x.toNat / 2 ^ (32 - w % 32) at hz
    rw [if_pos (by rw [gt_iff_lt, UInt32.lt_iff_toNat_lt, hsum]; exact hspan), bind_of hshl,
      bind_of hshr]
    refine ⟨_, rfl, ?_, ?_⟩
    · rw [List.length_append, List.length_append, hfront, List.length_singleton,
        List.length_singleton]
      omega
    · rw [ofWords_concat, ofWords_concat, List.length_append, List.length_singleton, hfront, hor,
        hz, ← hvalue]
      have hsplit := Nat.mod_add_div x.toNat (2 ^ (32 - w % 32))
      have hnext :
          2 ^ (32 * (w / 32 + 1)) = 2 ^ (32 * (w / 32)) * (2 ^ (w % 32) * 2 ^ (32 - w % 32)) := by
        rw [← hword, ← Nat.pow_add]
        rfl
      rw [hnext, hw]
      generalize x.toNat / 2 ^ (32 - w % 32) = high at hsplit ⊢
      generalize x.toNat % 2 ^ (32 - w % 32) = low at hsplit ⊢
      rw [← hsplit]
      ring
  · rw [if_neg (by rw [gt_iff_lt, UInt32.lt_iff_toNat_lt, hsum]; exact hspan), bind_of hshl]
    refine ⟨_, rfl, ?_, ?_⟩
    · rw [List.length_append, hfront, List.length_singleton]
      omega
    · have hfits : x.toNat % 2 ^ (32 - w % 32) = x.toNat :=
        Nat.mod_eq_of_lt (hx.trans_le (Nat.pow_le_pow_right (by decide) (by omega)))
      rw [ofWords_concat, hfront, hor, hfits, ← hvalue, hw]
      ring

end

/-! ## Extracting -/

variable {v' : NixVector}

theorem extract_counts {bits : UInt32} (h : v.extractNeighborIndex b = .ok (bits, v')) :
    v' = { v with used := v.used + b } ∧ b.toNat ≤ v.getRemainingBits.toNat ∧
      v.getRemainingBits.toNat % 32 ≠ 0 := by
  rw [extractNeighborIndex] at h
  split at h
  · cases h
  · split at h
    · cases h
    · rename_i hle
      rw [gt_iff_lt, UInt32.lt_iff_toNat_lt, Nat.not_lt] at hle
      split at h
      · cases h
      · obtain ⟨extracted, hextract, h⟩ := bind_ok_iff.mp h
        obtain ⟨-, rfl⟩ := Prod.mk.inj (Except.ok.inj h)
        refine ⟨rfl, hle, fun hzero => ?_⟩
        -- the first shift of either branch is by 32 less the bits in the last word
        have hmod : v.getRemainingBits % 32 = 0 := by
          rw [← UInt32.toNat_inj, UInt32.toNat_mod]
          exact hzero
        rw [extractedBits, hmod] at hextract
        split at hextract
        · obtain ⟨high, -, hextract⟩ := bind_ok_iff.mp hextract
          obtain ⟨shifted, hshift, -⟩ := bind_ok_iff.mp hextract
          exact absurd (lt_of_shl hshift) (by decide)
        · obtain ⟨word, -, hextract⟩ := bind_ok_iff.mp hextract
          obtain ⟨shifted, hshift, -⟩ := bind_ok_iff.mp hextract
          exact absurd (lt_of_shl hshift) (by decide)

theorem extractedBits_of {rem : UInt32} {R n : ℕ} (hR : rem.toNat = R) (hn : b.toNat = n)
    (hb : n ≤ 32) (hpos : 0 < n) (hle : n ≤ R) (hunaligned : R % 32 ≠ 0)
    (hlength : R ≤ 32 * v.nixVector.length) :
    ∃ bits, v.extractedBits rem b = .ok bits ∧
      bits.toNat = bitField (ofWords v.nixVector) (R - n) n := by
  have hmod : (rem % 32).toNat = R % 32 := by
    rw [UInt32.toNat_mod, hR]
    rfl
  have hpred : (rem - 1).toNat = R - 1 := by
    rw [UInt32.toNat_sub_of_le _ _ (by rw [UInt32.le_iff_toNat_le, hR]; change 1 ≤ R; omega), hR]
    rfl
  have hindex : ((rem - 1) / 32).toNat = R / 32 := by
    rw [UInt32.toNat_div, hpred]
    change (R - 1) / 32 = R / 32
    omega
  have hback : (32 - rem % 32).toNat = 32 - R % 32 := by
    rw [UInt32.toNat_sub_of_le _ _
      (by rw [UInt32.le_iff_toNat_le, hmod]; change R % 32 ≤ 32; omega), hmod]
    rfl
  have hspan : ((rem - 1) / 32 > 0 ∧ b - 1 > (rem - 1) % 32) ↔ R % 32 < n := by
    have hnpred : (b - 1).toNat = n - 1 := by
      rw [UInt32.toNat_sub_of_le _ _ (by rw [UInt32.le_iff_toNat_le, hn]; exact hpos), hn]
      rfl
    have hpredmod : ((rem - 1) % 32).toNat = (R - 1) % 32 := by
      rw [UInt32.toNat_mod, hpred]
      rfl
    rw [gt_iff_lt, gt_iff_lt, UInt32.lt_iff_toNat_lt, UInt32.lt_iff_toNat_lt, hindex, hnpred,
      hpredmod]
    change (0 < R / 32 ∧ _) ↔ _
    omega
  have hroomHigh : ((rem - 1) / 32).toNat < v.nixVector.length := by omega
  obtain ⟨high, hhigh, hget⟩ := wordAt_of hroomHigh
  rw [hindex] at hget
  obtain ⟨y, hshl, hy⟩ := shl_of (x := high) (k := 32 - rem % 32) (by omega)
  rw [hback] at hy
  rw [extractedBits]
  by_cases hlt : R % 32 < n
  · have hshare : (b - rem % 32).toNat = n - R % 32 := by
      rw [UInt32.toNat_sub_of_le _ _ (by rw [UInt32.le_iff_toNat_le, hmod, hn]; exact hlt.le), hmod,
        hn]
    have hdown : (32 - rem % 32 - (b - rem % 32)).toNat = 32 - n := by
      rw [UInt32.toNat_sub_of_le _ _ (by rw [UInt32.le_iff_toNat_le, hback, hshare]; omega), hback,
        hshare]
      omega
    have hbelow : (32 - (b - rem % 32)).toNat = 32 - (n - R % 32) := by
      rw [UInt32.toNat_sub_of_le _ _ (by rw [UInt32.le_iff_toNat_le, hshare]; change _ ≤ 32; omega),
        hshare]
      rfl
    have hprev : ((rem - 1) / 32 - 1).toNat = R / 32 - 1 := by
      rw [UInt32.toNat_sub_of_le _ _ (by rw [UInt32.le_iff_toNat_le, hindex]; change 1 ≤ _; omega),
        hindex]
      rfl
    obtain ⟨top, hshr, htop⟩ := shr_of (x := y) (k := 32 - rem % 32 - (b - rem % 32)) (by omega)
    have hroomLow : ((rem - 1) / 32 - 1).toNat < v.nixVector.length := by omega
    obtain ⟨low, hlow, hgetLow⟩ := wordAt_of hroomLow
    obtain ⟨z, hshrLow, hz⟩ := shr_of (x := low) (k := 32 - (b - rem % 32)) (by omega)
    rw [hprev] at hgetLow
    rw [hdown, hy, shift_low hb (by omega)] at htop
    rw [hbelow] at hz
    -- the low part are the upper bits of the word below
    have hlowField : z.toNat = bitField (ofWords v.nixVector) (R - n) (n - R % 32) := by
      have hplace : R - n = 32 * (R / 32 - 1) + (32 - (n - R % 32)) := by omega
      rw [hplace, ← bitField_word hgetLow (by omega), bitField, hz]
      refine (Nat.mod_eq_of_lt ?_).symm
      rw [Nat.div_lt_iff_lt_mul (Nat.two_pow_pos _), ← Nat.pow_add,
        Nat.add_sub_cancel' (by omega)]
      exact low.toNat_lt
    have hhighField : bitField high.toNat 0 (R % 32) =
        bitField (ofWords v.nixVector) (R - n + (n - R % 32)) (R % 32) := by
      have hplace : R - n + (n - R % 32) = 32 * (R / 32) + 0 := by omega
      rw [hplace, bitField_word hget (by omega)]
    rw [if_pos (hspan.mpr hlt), bind_of hhigh, bind_of hshl, bind_of hshr, bind_of hlow,
      bind_of hshrLow]
    refine ⟨_, rfl, ?_⟩
    have hwhole : n = n - R % 32 + R % 32 := by omega
    rw [UInt32.toNat_or, htop, hhighField, ← Nat.two_pow_add_eq_or_of_lt (by
      rw [hlowField]; exact bitField_lt _ _ _), hlowField, Nat.add_comm, ← bitField_add, ← hwhole]
  · have hdown : (32 - b).toNat = 32 - n := by
      rw [UInt32.toNat_sub_of_le _ _ (by rw [UInt32.le_iff_toNat_le, hn]; exact hb), hn]
      rfl
    obtain ⟨top, hshr, htop⟩ := shr_of (x := y) (k := 32 - b) (by omega)
    have hplace : R - n = 32 * (R / 32) + (R % 32 - n) := by omega
    rw [if_neg (mt hspan.mp hlt), bind_of hhigh, bind_of hshl]
    refine ⟨_, hshr, ?_⟩
    rw [htop, hdown, hy, shift_field (by omega) (by omega), hplace, bitField_word hget (by omega)]

theorem extractNeighborIndex_of {R n : ℕ} (hR : v.getRemainingBits.toNat = R) (hn : b.toNat = n)
    (hb : n ≤ 32) (hpos : 0 < n) (hle : n ≤ R) (hunaligned : R % 32 ≠ 0)
    (hlength : R ≤ 32 * v.nixVector.length) :
    ∃ bits, v.extractNeighborIndex b = .ok (bits, { v with used := v.used + b }) ∧
      bits.toNat = bitField (ofWords v.nixVector) (R - n) n := by
  obtain ⟨bits, hextract, hbits⟩ := extractedBits_of hR hn hb hpos hle hunaligned hlength
  refine ⟨bits, ?_, hbits⟩
  rw [extractNeighborIndex]
  rw [if_neg (by rw [gt_iff_lt, UInt32.lt_iff_toNat_lt, hn]; exact Nat.not_lt.mpr hb),
    if_neg (by rw [gt_iff_lt, UInt32.lt_iff_toNat_lt, hn, hR]; exact Nat.not_lt.mpr hle),
    if_neg (by rw [UInt32.le_iff_toNat_le, hn]; exact Nat.not_le.mpr hpos), bind_of hextract]
  rfl

/-! ## Round trips -/

theorem readWords_append (words more : List UInt32) :
    readWords words.length (words ++ more) = .ok (words, more) := by
  induction words with
  | nil => rfl
  | cons w words ih =>
    have hread : readWord (w :: (words ++ more)) = .ok (w, words ++ more) := rfl
    rw [List.length_cons, List.cons_append, readWords, bind_of hread]
    dsimp only
    rw [bind_of ih]
    rfl

theorem roundTrip_of (htotal : v.totalBitSize ≠ 0)
    (hlength : v.nixVector.length = (v.totalBitSize.toNat + 31) / 32) : v.roundTrip = .ok v := by
  have hlt := v.totalBitSize.toNat_lt
  have hsize : v.getSerializedSize = 12 + 4 * v.nixVector.length := by
    rw [getSerializedSize, if_neg htotal, Nat.mod_eq_of_lt (by omega)]
    omega
  have hwritten : (v.serialize (12 + 4 * v.nixVector.length)).ok = true := by
    rw [serialize, hsize, if_neg (Nat.lt_irrefl _)]
  have hwords : v.words = v.totalBitSize :: v.used :: (v.nixVector ++ [v.epoch]) := by
    rw [words, if_neg htotal]
  have hcount : v.totalBitSize.toNat / 32 + (if v.totalBitSize.toNat % 32 = 0 then 0 else 1) =
      v.nixVector.length := by
    rw [hlength]
    split <;> omega
  have htotalWord : readWord (v.totalBitSize :: v.used :: (v.nixVector ++ [v.epoch])) =
      .ok (v.totalBitSize, v.used :: (v.nixVector ++ [v.epoch])) := rfl
  have husedWord : readWord (v.used :: (v.nixVector ++ [v.epoch])) =
      .ok (v.used, v.nixVector ++ [v.epoch]) := rfl
  rw [roundTrip, hsize, if_pos hwritten, hwords, deserialize, if_neg (by omega),
    bind_of htotalWord]
  dsimp only
  rw [if_neg htotal, bind_of husedWord]
  dsimp only
  rw [hcount, if_neg (by omega), if_neg (by omega), bind_of (readWords_append _ _)]
  rfl

theorem roundTrip_counts (h : v.roundTrip = .ok v') (hused : v.used.toNat ≤ v.totalBitSize.toNat) :
    v'.used = v.used ∧ v'.totalBitSize = v.totalBitSize := by
  rw [roundTrip] at h
  split at h
  · obtain ⟨⟨size, nix⟩, hread, h⟩ := bind_ok_iff.mp h
    cases h
    have htotalWord : ∀ p, readWord (v.totalBitSize :: p) = .ok (v.totalBitSize, p) := fun _ => rfl
    rw [deserialize] at hread
    split at hread
    · cases hread
    · rw [words, bind_of (htotalWord _)] at hread
      dsimp only at hread
      by_cases hzero : v.totalBitSize = 0
      · rw [if_pos hzero] at hread
        obtain ⟨-, rfl⟩ := Prod.mk.inj (Except.ok.inj hread)
        refine ⟨?_, rfl⟩
        rw [hzero] at hused
        exact (UInt32.toNat_inj.mp (Nat.le_zero.mp hused)).symm
      · have husedWord : ∀ p, readWord (v.used :: p) = .ok (v.used, p) := fun _ => rfl
        rw [if_neg hzero, if_neg hzero, bind_of (husedWord _)] at hread
        dsimp only at hread
        generalize v.totalBitSize.toNat / 32 + (if v.totalBitSize.toNat % 32 = 0 then 0 else 1) =
          nixVectorLength at hread
        split at hread
        · cases hread
        · split at hread
          · obtain ⟨-, rfl⟩ := Prod.mk.inj (Except.ok.inj hread)
            exact ⟨rfl, rfl⟩
          · obtain ⟨⟨read, p⟩, -, hread⟩ := bind_ok_iff.mp hread
            obtain ⟨⟨epoch, p'⟩, -, hread⟩ := bind_ok_iff.mp hread
            obtain ⟨-, rfl⟩ := Prod.mk.inj (Except.ok.inj hread)
            exact ⟨rfl, rfl⟩
  · cases h
    exact ⟨rfl, rfl⟩

/-! ## Paths -/

variable {widths : List (UInt32 × Bool)}

variable {path : List (UInt32 × UInt32)}

/-- The bits that a path takes. -/
def width (path : List (UInt32 × UInt32)) : ℕ := (path.map fun p => p.2.toNat).sum

theorem width_cons (p : UInt32 × UInt32) (path : List (UInt32 × UInt32)) :
    width (p :: path) = p.2.toNat + width path := List.sum_cons

theorem width_reverse (path : List (UInt32 × UInt32)) : width path.reverse = width path := by
  rw [width, width, List.map_reverse, List.sum_reverse]

/-- The number holds the indices, the last one of the path first in the list. -/
def Packed (n : ℕ) : List (UInt32 × UInt32) → Prop
  | [] => True
  | p :: below => bitField n (width below) p.2.toNat = p.1.toNat ∧ Packed n below

theorem Packed.add {n y : ℕ} {below : List (UInt32 × UInt32)} (h : Packed n below)
    (hn : n < 2 ^ width path) (hle : width below ≤ width path) :
    Packed (n + 2 ^ width path * y) below := by
  induction below with
  | nil => trivial
  | cons p below ih =>
    rw [width_cons] at hle
    exact ⟨(bitField_add_mul_below hn (by omega)).trans h.1, ih h.2 (by omega)⟩

/-- The indices of a path, the last one first, have been added and none extracted. -/
structure Stores (v : NixVector) (path : List (UInt32 × UInt32)) : Prop where
  used : v.used = 0
  total : v.totalBitSize.toNat = width path
  length : v.nixVector.length = (width path + 31) / 32
  below : ofWords v.nixVector < 2 ^ width path
  packed : Packed (ofWords v.nixVector) path

def IndexOk (p : UInt32 × UInt32) : Prop :=
  1 ≤ p.2.toNat ∧ p.2.toNat ≤ 32 ∧ p.1.toNat < 2 ^ p.2.toNat

instance (p : UInt32 × UInt32) : Decidable (IndexOk p) :=
  inferInstanceAs (Decidable (_ ∧ _ ∧ _))

theorem stores_nil : Stores {} [] :=
  ⟨rfl, rfl, rfl, Nat.one_pos, trivial⟩

theorem Stores.add {p : UInt32 × UInt32} (hv : Stores v path) (hp : IndexOk p)
    (hroom : width (p :: path) < 2 ^ 32) :
    ∃ v', v.addNeighborIndex p.1 p.2 = .ok v' ∧ Stores v' (p :: path) := by
  obtain ⟨hpos, hle, hlt⟩ := hp
  obtain ⟨words, hadd, hlength, hvalue⟩ :=
    addNeighborIndex_of hv.total hv.length hv.below hle hpos hlt
  have hcomm : width (p :: path) = width path + p.2.toNat := by rw [width_cons, Nat.add_comm]
  refine ⟨_, hadd, hv.used, ?_, ?_, ?_, ?_, ?_⟩
  · change (v.totalBitSize + p.2).toNat = _
    rw [UInt32.toNat_add, hv.total, ← hcomm, Nat.mod_eq_of_lt hroom]
  · rw [hcomm]
    exact hlength
  · rw [hvalue, hcomm, Nat.pow_add]
    calc ofWords v.nixVector + 2 ^ width path * p.1.toNat
        < 2 ^ width path + 2 ^ width path * p.1.toNat := Nat.add_lt_add_right hv.below _
      _ = 2 ^ width path * (p.1.toNat + 1) := by ring
      _ ≤ 2 ^ width path * 2 ^ p.2.toNat := Nat.mul_le_mul_left _ hlt
  · rw [hvalue]
    exact bitField_add_mul hv.below hlt
  · rw [hvalue]
    exact hv.packed.add hv.below le_rfl

theorem Stores.addAll {before : List (UInt32 × UInt32)} (hv : Stores v before)
    (hpath : ∀ p ∈ path, IndexOk p) (hroom : width (path.reverse ++ before) < 2 ^ 32) :
    ∃ v', v.addAll path = .ok v' ∧ Stores v' (path.reverse ++ before) := by
  induction path generalizing v before with
  | nil => exact ⟨v, rfl, hv⟩
  | cons p path ih =>
    have hsplit : (p :: path).reverse ++ before = path.reverse ++ (p :: before) := by
      rw [List.reverse_cons, List.append_assoc, List.singleton_append]
    rw [hsplit] at hroom ⊢
    have hle : width (p :: before) ≤ width (path.reverse ++ (p :: before)) := by
      rw [width, width, List.map_append, List.sum_append]
      exact Nat.le_add_left _ _
    obtain ⟨v₁, hadd, hv₁⟩ := hv.add (hpath p (.head _)) (by omega)
    obtain ⟨v₂, hrest, hv₂⟩ := ih hv₁ (fun q hq => hpath q (.tail _ hq)) hroom
    refine ⟨v₂, ?_, hv₂⟩
    rw [NixVector.addAll, List.foldlM_cons, bind_of hadd]
    exact hrest

/-- The bits of no beginning of the path fill whole words. -/
def Unaligned (path : List (UInt32 × UInt32)) : Prop :=
  ∀ start, start <+: path → start ≠ [] → width start % 32 ≠ 0

instance (path : List (UInt32 × UInt32)) : Decidable (Unaligned path) :=
  decidable_of_iff (∀ start ∈ path.inits, start ≠ [] → width start % 32 ≠ 0)
    (forall_congr' fun start => by rw [List.mem_inits])

theorem unaligned_reverse :
    Unaligned path.reverse ↔ ∀ below, below <:+ path → below ≠ [] → width below % 32 ≠ 0 := by
  constructor
  · intro h below hbelow hne
    have hw := h below.reverse (List.reverse_prefix.mpr hbelow) (by
      rwa [ne_eq, List.reverse_eq_nil_iff])
    rwa [width_reverse] at hw
  · intro h start hstart hne
    have hw := h start.reverse (by rwa [← List.reverse_prefix, List.reverse_reverse]) (by
      rwa [ne_eq, List.reverse_eq_nil_iff])
    rwa [width_reverse] at hw

/-- Every index comes back when none of them ends on a word boundary. -/
theorem extractAll_of (hpath : ∀ p ∈ path, IndexOk p)
    (hwidths : widths.map Prod.fst = path.map Prod.snd)
    (hleft : v.used.toNat + width path = v.totalBitSize.toNat)
    (hlength : v.nixVector.length = (v.totalBitSize.toNat + 31) / 32)
    (hpacked : Packed (ofWords v.nixVector) path)
    (hunaligned : ∀ below, below <:+ path → below ≠ [] → width below % 32 ≠ 0) :
    v.extractAll widths = .ok (path.map Prod.fst) := by
  induction path generalizing v widths with
  | nil =>
    obtain rfl := List.map_eq_nil_iff.mp hwidths
    rfl
  | cons p path ih =>
    obtain ⟨⟨b, again⟩, widths, rfl, hb, hrestWidths⟩ := List.map_eq_cons_iff.mp hwidths
    obtain rfl : b = p.2 := hb
    obtain ⟨hpos, hle, hlt⟩ := hpath p (.head _)
    rw [width_cons] at hleft
    have hrem : v.getRemainingBits.toNat = p.2.toNat + width path := by
      rw [getRemainingBits, UInt32.toNat_sub_of_le _ _ (by rw [UInt32.le_iff_toNat_le]; omega)]
      omega
    have hround : v.travel again = .ok v := by
      cases again with
      | false => rfl
      | true =>
        refine roundTrip_of (fun hzero => ?_) hlength
        rw [hzero] at hleft
        change _ = 0 at hleft
        omega
    have hmod := hunaligned (p :: path) (List.suffix_refl _) (List.cons_ne_nil _ _)
    rw [width_cons] at hmod
    obtain ⟨bits, hextract, hbits⟩ := extractNeighborIndex_of hrem rfl hle hpos
      (Nat.le_add_right _ _) hmod (by omega)
    rw [Nat.add_sub_cancel_left, hpacked.1] at hbits
    have hused : (v.used + p.2).toNat = v.used.toNat + p.2.toNat := by
      have htotal := v.totalBitSize.toNat_lt
      rw [UInt32.toNat_add, Nat.mod_eq_of_lt (by omega)]
    have hrest := ih (v := { v with used := v.used + p.2 })
      (fun q hq => hpath q (.tail _ hq)) hrestWidths (by
        change (v.used + p.2).toNat + _ = _
        rw [hused, Nat.add_assoc, hleft]) hlength hpacked.2
      (fun below hbelow => hunaligned below (hbelow.trans (List.suffix_cons _ _)))
    rw [extractAll, bind_of hround, bind_of hextract]
    dsimp only
    rw [bind_of hrest, UInt32.toNat_inj.mp hbits]
    rfl

/-! ## What the calls need -/

theorem addNeighborIndex_counts (h : v.addNeighborIndex x b = .ok v') :
    v'.used = v.used ∧ v'.totalBitSize = v.totalBitSize + b := by
  rw [addNeighborIndex] at h
  split at h
  · cases h
  · obtain ⟨last, -, h⟩ := bind_ok_iff.mp h
    split at h
    · obtain ⟨tempBits, -, h⟩ := bind_ok_iff.mp h
      obtain ⟨newBits, -, h⟩ := bind_ok_iff.mp h
      cases h
      exact ⟨rfl, rfl⟩
    · obtain ⟨newBits, -, h⟩ := bind_ok_iff.mp h
      cases h
      exact ⟨rfl, rfl⟩

theorem addAll_counts (h : v.addAll path = .ok v') :
    v'.used = v.used ∧ v'.totalBitSize.toNat = (v.totalBitSize.toNat + width path) % 2 ^ 32 := by
  induction path generalizing v with
  | nil =>
    obtain rfl := Except.ok.inj h
    exact ⟨rfl, (Nat.mod_eq_of_lt v.totalBitSize.toNat_lt).symm⟩
  | cons p path ih =>
    rw [addAll, List.foldlM_cons] at h
    obtain ⟨v₁, hadd, h⟩ := bind_ok_iff.mp h
    obtain ⟨hused, htotal⟩ := addNeighborIndex_counts hadd
    obtain ⟨hused', htotal'⟩ := ih h
    refine ⟨hused'.trans hused, ?_⟩
    rw [htotal', htotal, UInt32.toNat_add, Nat.mod_add_mod, width_cons, Nat.add_assoc]

theorem extractAll_needs {bits : List UInt32} (hwidths : widths.map Prod.fst = path.map Prod.snd)
    (hused : v.used.toNat ≤ v.totalBitSize.toNat) (h : v.extractAll widths = .ok bits) :
    v.used.toNat + width path ≤ v.totalBitSize.toNat ∧
      ∀ above below, path = above ++ below → below ≠ [] →
        (v.totalBitSize.toNat - v.used.toNat - width above) % 32 ≠ 0 := by
  induction path generalizing v widths bits with
  | nil =>
    refine ⟨hused, fun above below hsplit hne => ?_⟩
    exact absurd (List.append_eq_nil_iff.mp hsplit.symm).2 hne
  | cons p path ih =>
    obtain ⟨⟨b, again⟩, widths, rfl, hb, hrestWidths⟩ := List.map_eq_cons_iff.mp hwidths
    obtain rfl : b = p.2 := hb
    rw [extractAll] at h
    obtain ⟨v₁, hround, h⟩ := bind_ok_iff.mp h
    obtain ⟨⟨got, v₂⟩, hextract, h⟩ := bind_ok_iff.mp h
    obtain ⟨more, hrest, -⟩ := bind_ok_iff.mp h
    obtain ⟨husedEq, htotalEq⟩ : v₁.used = v.used ∧ v₁.totalBitSize = v.totalBitSize := by
      cases again with
      | false => exact (Except.ok.inj hround) ▸ ⟨rfl, rfl⟩
      | true => exact roundTrip_counts hround hused
    obtain ⟨rfl, hle, hmod⟩ := extract_counts hextract
    have hrem : v₁.getRemainingBits.toNat = v.totalBitSize.toNat - v.used.toNat := by
      rw [getRemainingBits, husedEq, htotalEq,
        UInt32.toNat_sub_of_le _ _ (by rwa [UInt32.le_iff_toNat_le])]
    have htotal := v.totalBitSize.toNat_lt
    have hnext : (v₁.used + p.2).toNat = v.used.toNat + p.2.toNat := by
      rw [UInt32.toNat_add, husedEq, Nat.mod_eq_of_lt (by omega)]
    obtain ⟨hsum, hbelow⟩ := ih hrestWidths (by
      change (v₁.used + p.2).toNat ≤ v₁.totalBitSize.toNat
      rw [hnext, htotalEq]
      omega) hrest
    change (v₁.used + p.2).toNat + _ ≤ v₁.totalBitSize.toNat at hsum
    rw [hnext, htotalEq] at hsum
    refine ⟨by rw [width_cons]; omega, fun above below hsplit hne => ?_⟩
    cases above with
    | nil =>
      change (v.totalBitSize.toNat - v.used.toNat - 0) % 32 ≠ 0
      rwa [Nat.sub_zero, ← hrem]
    | cons q above =>
      obtain ⟨rfl, htail⟩ := List.cons.inj hsplit
      have h := hbelow above below htail hne
      change (v₁.totalBitSize.toNat - (v₁.used + p.2).toNat - width above) % 32 ≠ 0 at h
      rw [hnext, htotalEq] at h
      rwa [width_cons, ← Nat.sub_sub, Nat.sub_sub _ v.used.toNat]

/-- **The path is returned** as it was stored exactly if the widths of no beginning of it add up to
a multiple of 32, and all to less than `2 ^ 32`. -/
theorem path_returned_iff (path : List (UInt32 × UInt32)) (hpath : ∀ p ∈ path, IndexOk p)
    (widths : List (UInt32 × Bool)) (hwidths : widths.map Prod.fst = path.reverse.map Prod.snd) :
    (addAll {} path >>= fun v => v.extractAll widths) = .ok (path.reverse.map Prod.fst) ↔
      Unaligned path ∧ width path < 2 ^ 32 := by
  have hunaligned := @unaligned_reverse path.reverse
  rw [List.reverse_reverse] at hunaligned
  constructor
  · intro h
    obtain ⟨v, hadd, hextract⟩ := bind_ok_iff.mp h
    obtain ⟨hused, htotal⟩ := addAll_counts hadd
    have hzero : v.used.toNat = 0 := by
      rw [hused]
      rfl
    have hmod : v.totalBitSize.toNat = width path % 2 ^ 32 := by
      rw [htotal]
      exact congrArg (· % 2 ^ 32) (Nat.zero_add _)
    obtain ⟨hsum, hbelow⟩ := extractAll_needs hwidths (by omega) hextract
    rw [hzero, Nat.zero_add, width_reverse] at hsum
    have hlt : width path < 2 ^ 32 := by
      have := Nat.mod_lt (width path) (Nat.two_pow_pos 32)
      omega
    refine ⟨hunaligned.mpr fun below hsuffix hne => ?_, hlt⟩
    obtain ⟨above, hsplit⟩ := hsuffix
    have h := hbelow above below hsplit.symm hne
    have hwhole : width path = width above + width below := by
      rw [← width_reverse, ← hsplit, width, List.map_append, List.sum_append]
      rfl
    rwa [hmod, Nat.mod_eq_of_lt hlt, hzero, Nat.sub_zero, hwhole, Nat.add_sub_cancel_left] at h
  · rintro ⟨haligned, hlt⟩
    obtain ⟨v, hadd, hv⟩ := stores_nil.addAll hpath (by rwa [List.append_nil, width_reverse])
    rw [List.append_nil] at hv
    rw [bind_of hadd]
    refine extractAll_of (fun p hp => hpath p (List.mem_reverse.mp hp)) hwidths ?_ ?_ hv.packed
      (hunaligned.mp haligned)
    · rw [hv.used, hv.total]
      exact Nat.zero_add _
    · rw [hv.total]
      exact hv.length

/-- Indices of 5, 31 and 3 bits, with a round trip before the second extraction. -/
theorem path_returned_iff_threeHops :
    (addAll {} [(17, 5), (5, 31), (6, 3)] >>= fun v =>
      v.extractAll [(3, false), (31, true), (5, false)]) = .ok [6, 5, 17] := by
  have hpath : ∀ p ∈ [((17, 5) : UInt32 × UInt32), (5, 31), (6, 3)], IndexOk p := by
    rw [List.forall_mem_cons, List.forall_mem_cons, List.forall_mem_singleton]
    exact ⟨by decide, by decide, by decide⟩
  exact (path_returned_iff _ hpath [(3, false), (31, true), (5, false)] rfl).mpr (by decide)

/-- One index of 32 bits: to extract it a word is shifted by 32 positions. -/
theorem full_word_not_returned :
    IndexOk (5, 32) ∧
      (addAll {} [(5, 32)] >>= fun v => v.extractAll [(32, false)]) = .error .undefinedShift := by
  decide

end NixVector

end Ns3
