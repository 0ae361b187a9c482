/-
  What `GetHeadTail` finds.

  The head is the common head of all the addresses.  The tail is compared between neighbours
  only, and may grow by one byte from a pair to the next: in the end it is common to the last two
  addresses, and it is never shorter than what all of them have in common.
-/
import Mathlib.Tactic.Tauto
import Ns3.Network.PbbAddressBlock

namespace Ns3

namespace Pbb

variable {length k : Nat} {a b x y : List UInt8} {as done : List (List UInt8)} {s : HeadTail}

/-! ## Common heads and tails -/

/-- The first `k` bytes are the same. -/
def SameHead (k : Nat) (a b : List UInt8) : Prop := ∀ j < k, a[j]? = b[j]?

/-- Of `length` bytes, the last `k` are the same. -/
def SameTail (length k : Nat) (a b : List UInt8) : Prop := ∀ j, length ≤ j + k → a[j]? = b[j]?

/-- All have the first `k` bytes in common. -/
def CommonHead (k : Nat) (as : List (List UInt8)) : Prop :=
  ∀ a ∈ as, ∀ b ∈ as, SameHead k a b

/-- All have the last `k` bytes in common. -/
def CommonTail (length k : Nat) (as : List (List UInt8)) : Prop :=
  ∀ a ∈ as, ∀ b ∈ as, SameTail length k a b

variable {k' : Nat}

theorem SameTail.mono (h : SameTail length k a b) (hle : k' ≤ k) :
    SameTail length k' a b := fun j hj => h j (by omega)

theorem CommonHead.mono (h : CommonHead k as) (hle : k' ≤ k) : CommonHead k' as :=
  fun a ha b hb j hj => h a ha b hb j (by omega)

theorem CommonTail.mono (h : CommonTail length k as) (hle : k' ≤ k) :
    CommonTail length k' as := fun a ha b hb => (h a ha b hb).mono hle

theorem CommonTail.subset {as' : List (List UInt8)} (h : CommonTail length k as)
    (hsub : as' ⊆ as) : CommonTail length k as' :=
  fun a ha b hb => h a (hsub ha) b (hsub hb)

/-! ## One pair of neighbours -/

theorem headLoop_spec (buflast bufcur : List UInt8) (headlen : Nat) :
    headLoop buflast bufcur headlen ≤ headlen ∧
      SameHead (headLoop buflast bufcur headlen) buflast bufcur ∧
      (headLoop buflast bufcur headlen < headlen →
        buflast[headLoop buflast bufcur headlen]? ≠ bufcur[headLoop buflast bufcur headlen]?) := by
  rw [headLoop]
  cases hfind : (List.range headlen).find? fun i => buflast[i]? != bufcur[i]? with
  | none =>
    refine ⟨le_rfl, fun j hj => ?_, fun h => absurd h (Nat.lt_irrefl _)⟩
    have hsame := List.find?_eq_none.mp hfind j (List.mem_range.mpr hj)
    simpa using hsame
  | some i =>
    obtain ⟨hdiff, hlt, hbefore⟩ := List.find?_range_eq_some.mp hfind
    have hlt' : i < headlen := List.mem_range.mp hlt
    refine ⟨Nat.le_of_lt hlt', fun j hj => ?_, fun _ => ?_⟩
    · have hsame := hbefore j hj
      simpa using hsame
    · simpa using hdiff

theorem tailLoop_spec {headlen : Nat} (taillen : Nat) (buflast bufcur : List UInt8) (i : Nat)
    (hhead : headlen ≤ i) (hlength : i < length) (htail : length - 1 - i ≤ taillen + 1) :
    headlen ≤ tailLoop length headlen taillen buflast bufcur i ∧
      tailLoop length headlen taillen buflast bufcur i ≤ i ∧
      length - 1 - tailLoop length headlen taillen buflast bufcur i ≤ taillen + 1 ∧
      (∀ j, tailLoop length headlen taillen buflast bufcur i < j → j ≤ i →
        buflast[j]? = bufcur[j]?) ∧
      (tailLoop length headlen taillen buflast bufcur i = headlen ∨
        length - 1 - tailLoop length headlen taillen buflast bufcur i = taillen + 1 ∨
        buflast[tailLoop length headlen taillen buflast bufcur i]? ≠
          bufcur[tailLoop length headlen taillen buflast bufcur i]?) := by
  induction i with
  | zero =>
    rw [tailLoop]
    exact ⟨hhead, le_rfl, htail, fun j h h' => absurd h (by omega),
      .inl (Nat.le_zero.mp hhead).symm⟩
  | succ i ih =>
    rw [tailLoop]
    by_cases hgo : length - 1 - (i + 1) ≤ taillen ∧ i + 1 > headlen
    · rw [if_pos hgo]
      by_cases hdiff : (buflast[i + 1]? != bufcur[i + 1]?) = true
      · rw [if_pos hdiff]
        refine ⟨hhead, le_rfl, htail, fun j h h' => absurd h (by omega),
          .inr (.inr ?_)⟩
        simpa using hdiff
      · rw [if_neg hdiff]
        have hsame : buflast[i + 1]? = bufcur[i + 1]? := by simpa using hdiff
        obtain ⟨hle, hi, ht, heq, hend⟩ := ih (by omega) (by omega) (by omega)
        refine ⟨hle, Nat.le_succ_of_le hi, ht, fun j hj hj' => ?_, hend⟩
        rcases Nat.lt_or_ge i j with hlast | hbefore
        · obtain rfl : j = i + 1 := by omega
          exact hsame
        · exact heq j hj hbefore
    · rw [if_neg hgo]
      refine ⟨hhead, le_rfl, htail, fun j h h' => absurd h (by omega), ?_⟩
      rcases Nat.lt_or_ge headlen (i + 1) with hlt | hge
      · have hfar : ¬length - 1 - (i + 1) ≤ taillen := fun hle => hgo ⟨hle, hlt⟩
        exact .inr (.inl (by omega))
      · exact .inl (by omega)

/-- One round of `headTailLoop`. -/
def headTailStep (length : Nat) (s : HeadTail) (address : List UInt8) : HeadTail :=
  let headlen := headLoop s.buflast address s.headlen
  if length - headlen > 0 then
    ⟨headlen,
      length - 1 - tailLoop length headlen s.taillen s.buflast address (length - 1), address,
      s.buflast⟩
  else ⟨headlen, s.taillen, address, s.buflast⟩

theorem headTailLoop_eq (hpos : 0 < length) (as : List (List UInt8)) (s : HeadTail) :
    headTailLoop length as s = as.foldl (headTailStep length) s := by
  induction as generalizing s with
  | nil => rfl
  | cons address rest ih =>
    rw [headTailLoop, List.foldl_cons, headTailStep]
    dsimp only
    split
    · exact ih _
    · rename_i hfull
      rw [if_neg (by omega)]
      exact ih _

/-! ## The loop -/

/-- What the variables say about the addresses done so far. -/
structure Scanned (length : Nat) (done : List (List UInt8)) (s : HeadTail) : Prop where
  mem : s.buflast ∈ done
  width : ∀ a ∈ done, a.length = length
  headlen_le : s.headlen ≤ length
  head : CommonHead s.headlen done
  differ : s.headlen < length → ∃ a ∈ done, ∃ b ∈ done, a[s.headlen]? ≠ b[s.headlen]?
  whole : s.headlen = length → s.taillen = length
  apart : s.headlen < length → s.taillen + s.headlen < length
  tail_ge : s.headlen < length → ∀ c, CommonTail length c done → c ≤ s.taillen

theorem Scanned.le_taillen (h : Scanned length done s) {c : Nat} (hc : c ≤ length)
    (hcommon : CommonTail length c done) : c ≤ s.taillen := by
  rcases Nat.lt_or_ge s.headlen length with hlt | hge
  · exact h.tail_ge hlt c hcommon
  · rw [h.whole (by have := h.headlen_le; omega)]
    exact hc

theorem scanned_first (ha : a.length = length) (bufcur : List UInt8) :
    Scanned length [a] (headTailStep length ⟨length, length, a, bufcur⟩ a) := by
  have hsame : headLoop a a length = length := by
    obtain ⟨hle, -, hdiff⟩ := headLoop_spec a a length
    rcases Nat.lt_or_ge (headLoop a a length) length with hlt | hge
    · exact absurd rfl (hdiff hlt)
    · omega
  have hstep : headTailStep length ⟨length, length, a, bufcur⟩ a = ⟨length, length, a, a⟩ := by
    rw [headTailStep]
    dsimp only
    rw [hsame, if_neg (by omega)]
  rw [hstep]
  exact
    { mem := List.mem_singleton_self a
      width := by
        intro b hb
        rw [List.mem_singleton.mp hb]
        exact ha
      headlen_le := le_rfl
      head := by
        intro b hb c hc j _
        rw [List.mem_singleton.mp hb, List.mem_singleton.mp hc]
      differ := fun h => absurd h (Nat.lt_irrefl _)
      whole := fun _ => rfl
      apart := fun h => absurd h (Nat.lt_irrefl _)
      tail_ge := fun h => absurd h (Nat.lt_irrefl _) }

/-- What a round makes of the tail: it is that of the pair, as far as the tail before it and one
byte more. -/
structure PairTail (length taillen : Nat) (x y : List UInt8) (s' : HeadTail) : Prop where
  bufcur : s'.bufcur = x
  shared : s'.headlen < length → SameTail length s'.taillen x y
  longest : s'.headlen < length → ∀ c, c ≤ taillen + 1 → c + s'.headlen < length →
    SameTail length c x y → c ≤ s'.taillen

theorem Scanned.step (hpos : 0 < length) (h : Scanned length done s) (hy : y.length = length) :
    Scanned length (done ++ [y]) (headTailStep length s y) ∧
      PairTail length s.taillen s.buflast y (headTailStep length s y) := by
  obtain ⟨hle, hsame, hdiff⟩ := headLoop_spec s.buflast y s.headlen
  have hlast : s.buflast.length = length := h.width _ h.mem
  have hmem : s.buflast ∈ done ++ [y] := List.mem_append_left _ h.mem
  have hymem : y ∈ done ++ [y] := List.mem_append_right _ (List.mem_singleton_self y)
  have hwidth : ∀ a ∈ done ++ [y], a.length = length := by
    intro a ha
    rcases List.mem_append.mp ha with hdone | hnew
    · exact h.width a hdone
    · rw [List.mem_singleton.mp hnew, hy]
  -- every address has the new head in common with the last one
  have hwith : ∀ a ∈ done ++ [y], SameHead (headLoop s.buflast y s.headlen) a s.buflast := by
    intro a ha j hj
    rcases List.mem_append.mp ha with hdone | hnew
    · exact h.head a hdone _ h.mem j (by omega)
    · rw [List.mem_singleton.mp hnew]
      exact (hsame j hj).symm
  have hhead : CommonHead (headLoop s.buflast y s.headlen) (done ++ [y]) := fun a ha b hb j hj =>
    (hwith a ha j hj).trans (hwith b hb j hj).symm
  have hdiffer : headLoop s.buflast y s.headlen < length →
      ∃ a ∈ done ++ [y], ∃ b ∈ done ++ [y],
        a[headLoop s.buflast y s.headlen]? ≠ b[headLoop s.buflast y s.headlen]? := by
    intro hlt
    rcases Nat.lt_or_ge (headLoop s.buflast y s.headlen) s.headlen with hshrunk | hkept
    · exact ⟨_, hmem, _, hymem, hdiff hshrunk⟩
    · have heq : headLoop s.buflast y s.headlen = s.headlen := Nat.le_antisymm hle hkept
      rw [heq] at hlt ⊢
      obtain ⟨a, ha, b, hb, hne⟩ := h.differ hlt
      exact ⟨a, List.mem_append_left _ ha, b, List.mem_append_left _ hb, hne⟩
  rw [headTailStep]
  generalize headLoop s.buflast y s.headlen = headlen at *
  by_cases hlt : length - headlen > 0
  · rw [if_pos hlt]
    obtain ⟨hge, hi, -, heq, hend⟩ := tailLoop_spec s.taillen s.buflast y (length - 1)
      (show headlen ≤ length - 1 by omega) (show length - 1 < length by omega) (by omega)
    generalize tailLoop length headlen s.taillen s.buflast y (length - 1) = i at *
    have hshared : SameTail length (length - 1 - i) s.buflast y := by
      intro j hj
      rcases Nat.lt_or_ge j length with hin | hout
      · exact heq j (by omega) (by omega)
      · rw [List.getElem?_eq_none (by omega), List.getElem?_eq_none (by omega)]
    have hlongest : ∀ c, c ≤ s.taillen + 1 → c + headlen < length →
        SameTail length c s.buflast y → c ≤ length - 1 - i := by
      intro c hc hroom hctail
      rcases hend with hstop | hstop | hstop
      · omega
      · omega
      · by_contra hlong
        exact hstop (hctail i (by omega))
    refine ⟨?_, ⟨rfl, fun _ => hshared, fun _ => hlongest⟩⟩
    exact
      { mem := hymem
        width := hwidth
        headlen_le := show headlen ≤ length by omega
        head := hhead
        differ := hdiffer
        whole := fun hfull => absurd hfull (show headlen ≠ length by omega)
        apart := fun _ => show length - 1 - i + headlen < length by omega
        tail_ge := by
          intro _ c hc
          -- the differing byte is not in a common tail
          obtain ⟨a, ha, b, hb, hne⟩ := hdiffer (by omega)
          have hroom : c + headlen < length := by
            by_contra hfar
            exact hne (hc a ha b hb headlen (by omega))
          have hbefore : c ≤ s.taillen :=
            h.le_taillen (by omega) (hc.subset (List.subset_append_left done [y]))
          exact hlongest c (by omega) hroom (hc _ hmem _ hymem) }
  · rw [if_neg hlt]
    have hfull : headlen = length := by
      have := h.headlen_le
      omega
    have hbefore : s.headlen = length := by
      have := h.headlen_le
      omega
    refine ⟨?_, ⟨rfl, fun h' => absurd h' (show ¬headlen < length by omega),
      fun h' => absurd h' (show ¬headlen < length by omega)⟩⟩
    exact
      { mem := hymem
        width := hwidth
        headlen_le := show headlen ≤ length by omega
        head := hhead
        differ := hdiffer
        whole := fun _ => h.whole hbefore
        apart := fun h' => absurd h' (show ¬headlen < length by omega)
        tail_ge := fun h' => absurd h' (show ¬headlen < length by omega) }

theorem Scanned.fold (hpos : 0 < length) (hwidth : ∀ a ∈ as, a.length = length)
    (h : Scanned length done s) :
    Scanned length (done ++ as) (as.foldl (headTailStep length) s) := by
  induction as generalizing done s with
  | nil =>
    rw [List.append_nil]
    exact h
  | cons a as ih =>
    have hnext := (h.step hpos (hwidth a (.head _))).1
    have hrest := ih (fun b hb => hwidth b (.tail _ hb)) hnext
    rwa [List.append_assoc] at hrest

/-! ## All the addresses -/

/-- Whatever the last two have in common at their end, all have in common, unless it leaves only
what is common at the front. -/
def TailCommon (length : Nat) (as : List (List UInt8)) (x y : List UInt8) : Prop :=
  ∀ k, SameTail length k x y → CommonTail length k as ∨ CommonHead (length - k) as

/-- What `GetHeadTail` finds, of two addresses or more. -/
structure Found (length : Nat) (as : List (List UInt8)) (x y : List UInt8) (s : HeadTail) :
    Prop where
  bufcur : s.bufcur = x
  headlen_le : s.headlen ≤ length
  head : CommonHead s.headlen as
  equal : s.headlen = length ↔ ∀ a ∈ as, ∀ b ∈ as, a = b
  whole : s.headlen = length → s.taillen = length
  apart : s.headlen < length → s.taillen + s.headlen < length
  common_iff : s.headlen < length → (CommonTail length s.taillen as ↔ TailCommon length as x y)

theorem found_getHeadTail (hpos : 0 < length) (init : List (List UInt8))
    (hwidth : ∀ a ∈ init ++ [x, y], a.length = length) :
    Found length (init ++ [x, y]) x y (getHeadTail length (init ++ [x, y])) := by
  -- the state before the last address
  have hall : ∃ s, Scanned length (init ++ [x]) s ∧ s.buflast = x ∧
      getHeadTail length (init ++ [x, y]) = headTailStep length s y := by
    have hsplit : init ++ [x, y] = (init ++ [x]) ++ [y] := by simp
    rw [getHeadTail, headTailLoop_eq hpos, hsplit, List.foldl_append]
    refine ⟨_, ?_, ?_, rfl⟩
    · cases init with
      | nil =>
        exact scanned_first (hwidth x (by simp)) _
      | cons a init =>
        have hfirst := scanned_first (hwidth a (by simp)) (List.replicate length 0)
        have hothers : ∀ b ∈ init ++ [x], b.length = length := by
          intro b hb
          refine hwidth b ?_
          simp only [List.mem_append, List.mem_cons] at hb ⊢
          tauto
        exact hfirst.fold hpos hothers
    · rw [List.foldl_append, List.foldl_cons, List.foldl_nil, headTailStep]
      split <;> rfl
  obtain ⟨s, hs, hlast, hget⟩ := hall
  rw [hget]
  obtain ⟨hscan, hpair⟩ := hs.step hpos (hwidth y (by simp))
  have happ : init ++ [x] ++ [y] = init ++ [x, y] := by simp
  rw [happ] at hscan
  generalize headTailStep length s y = s' at hscan hpair
  have hshort (hlt : s'.headlen < length) {k : Nat} (hk : CommonHead k (init ++ [x, y])) :
      k ≤ s'.headlen := by
    obtain ⟨a, ha, b, hb, hne⟩ := hscan.differ hlt
    by_contra hlong
    exact hne (hk a ha b hb _ (by omega))
  rw [hlast] at hpair
  exact
    { bufcur := hpair.bufcur
      headlen_le := hscan.headlen_le
      head := hscan.head
      equal := by
        constructor
        · intro hfull a ha b hb
          refine List.ext_getElem? fun j => ?_
          rcases Nat.lt_or_ge j length with hin | hout
          · exact hscan.head a ha b hb j (by omega)
          · rw [List.getElem?_eq_none (by rw [hwidth a ha]; exact hout),
              List.getElem?_eq_none (by rw [hwidth b hb]; exact hout)]
        · intro heq
          by_contra hne
          have hlt : s'.headlen < length := Nat.lt_of_le_of_ne hscan.headlen_le hne
          obtain ⟨a, ha, b, hb, hdiff⟩ := hscan.differ hlt
          exact hdiff (by rw [heq a ha b hb])
      whole := hscan.whole
      apart := hscan.apart
      common_iff := by
        intro hlt
        have hroom := hscan.apart hlt
        constructor
        · intro hcommon k hk
          by_cases hhead : CommonHead (length - k) (init ++ [x, y])
          · exact .inr hhead
          · refine .inl ?_
            by_contra hnot
            have hlong : s'.taillen < k := by
              by_contra hle
              exact hnot (hcommon.mono (Nat.le_of_not_lt hle))
            have hkroom : s'.headlen < length - k := by
              by_contra hle
              exact hhead (hscan.head.mono (Nat.le_of_not_lt hle))
            -- the round could have gone one byte further
            have hbefore : s'.taillen ≤ s.taillen :=
              hs.le_taillen (by omega) (hcommon.subset (by rw [← happ]; simp))
            have hmore := hpair.longest hlt (s'.taillen + 1) (by omega) (by omega)
              (hk.mono hlong)
            omega
        · intro htail
          rcases htail s'.taillen (hpair.shared hlt) with hcommon | hhead
          · exact hcommon
          · have := hshort hlt hhead
            omega }

end Pbb

end Ns3
