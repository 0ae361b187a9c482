/-
  The pieces that GetFragments cuts a packet into, and which
  lists of them IsEntire accepts.

  The offset of a piece is kept in 16 bits.  While the offsets do not wrap around, the only
  list that is entire is the list of all pieces, each once; once they wrap, no list that is
  entire has the length of the packet.
-/
import Ns3.Internet.Ip.Ipv6Fragmentation

namespace Ns3.Ip.V6

open Lib

variable {p : Packet} {maxSize : Nat} {pieces : List Fragment}

abbrev pieceSize (maxSize : Nat) : Nat := maxSize - maxSize % 8

abbrev pieceOffset (maxSize i : Nat) : Nat := i * pieceSize maxSize % 2 ^ 16

/-- What `GetFragments` cuts a packet into: a piece is the last one when the sum of its offset
and the maximum size reaches the end. -/
structure Pieces (p : Packet) (maxSize : Nat) (pieces : List Fragment) : Prop where
  nonempty : 0 < pieces.length
  more : ∀ i (hi : i + 1 < pieces.length),
    (pieceOffset maxSize i + maxSize) % 2 ^ 32 < p.length ∧
      pieceOffset maxSize i + pieceSize maxSize ≤ p.length ∧
      pieces[i] = ⟨p.createFragment (pieceOffset maxSize i) (pieceSize maxSize),
        pieceOffset maxSize i, true⟩
  last : ∀ i (hi : i < pieces.length), i + 1 = pieces.length →
    p.length ≤ (pieceOffset maxSize i + maxSize) % 2 ^ 32 ∧ pieceOffset maxSize i ≤ p.length ∧
      pieces[i] = ⟨p.createFragment (pieceOffset maxSize i) (p.length - pieceOffset maxSize i),
        pieceOffset maxSize i, false⟩

/-- The end of the packet is reached by an offset of 16 bits. -/
def FitsOffsets (size maxSize : Nat) : Prop :=
  ∃ k, k * pieceSize maxSize < 2 ^ 16 ∧ size ≤ k * pieceSize maxSize + maxSize

theorem Pieces.length_data (hp : Pieces p maxSize pieces) {f : Fragment} (hf : f ∈ pieces) :
    (f.moreFragment = true → f.data.length = pieceSize maxSize) ∧
      (f.moreFragment = false → p.length ≤ f.fragmentOffset + maxSize ∧
        f.fragmentOffset ≤ p.length ∧ f.data.length = p.length - f.fragmentOffset) := by
  obtain ⟨i, hi, rfl⟩ := List.getElem_of_mem hf
  rcases Nat.lt_or_ge (i + 1) pieces.length with hmore | hlast
  · obtain ⟨-, hfits, heq⟩ := hp.more i hmore
    rw [heq]
    refine ⟨fun _ => ?_, nofun⟩
    rw [Packet.length_createFragment]
    omega
  · obtain ⟨hreach, hfits, heq⟩ := hp.last i hi (by omega)
    have hmod := Nat.mod_le (pieceOffset maxSize i + maxSize) (2 ^ 32)
    rw [heq]
    refine ⟨nofun, fun _ => ⟨hreach.trans hmod, hfits, ?_⟩⟩
    rw [Packet.length_createFragment, Nat.min_self]

variable {i : Nat}

theorem Pieces.offset_eq (hp : Pieces p maxSize pieces) (hi : i < pieces.length) :
    pieces[i].fragmentOffset = pieceOffset maxSize i := by
  rcases Nat.lt_or_ge (i + 1) pieces.length with hmore | hlast
  · rw [(hp.more i hmore).2.2]
  · rw [(hp.last i hi (by omega)).2.2]

theorem Pieces.flag_eq (hp : Pieces p maxSize pieces) (hi : i < pieces.length) :
    pieces[i].moreFragment = decide (i + 1 < pieces.length) := by
  rcases Nat.lt_or_ge (i + 1) pieces.length with hmore | hlast
  · rw [(hp.more i hmore).2.2, decide_eq_true hmore]
  · rw [(hp.last i hi (by omega)).2.2, decide_eq_false (Nat.not_lt.mpr hlast)]

/-! ## Lists without a gap -/

/-- Each piece starts where the ones before it, kept in 16 bits, end. -/
def Contiguous : Nat → List Fragment → Prop
  | _, [] => True
  | e, f :: l => e = f.fragmentOffset ∧ Contiguous ((e + f.data.length) % 2 ^ 16) l

variable {l : List Fragment}

theorem contiguous_iff {e : Nat} :
    contiguous e (l.map fun f => (f.data, f.fragmentOffset)) = true ↔ Contiguous e l := by
  induction l generalizing e with
  | nil => exact iff_of_true rfl trivial
  | cons f l ih =>
    rw [List.map_cons, contiguous, Contiguous]
    split
    · rename_i hne
      exact ⟨nofun, fun h => absurd h.1 hne⟩
    · rename_i heq
      rw [not_not] at heq
      rw [ih]
      exact ⟨fun h => ⟨heq, h⟩, fun h => h.2⟩

theorem isEntire_iff (received : List Fragment) :
    isEntire (.ofReceived received) = true ↔
      (∃ f, (inOrder received).getLast? = some f ∧ f.moreFragment = false) ∧
        Contiguous 0 (inOrder received) := by
  rw [← contiguous_iff, isEntire, FragmentList.ofReceived]
  dsimp only
  cases hlast : (inOrder received).getLast? with
  | none =>
    rw [List.getLast?_eq_none_iff] at hlast
    rw [hlast]
    exact iff_of_false (fun h => by cases h) fun h => by
      obtain ⟨⟨f, hf, -⟩, -⟩ := h
      cases hf
  | some f =>
    have hne : inOrder received ≠ [] := by
      intro hnil
      rw [hnil] at hlast
      cases hlast
    have hempty : ((inOrder received).map fun f => (f.data, f.fragmentOffset)).isEmpty = false := by
      rw [List.isEmpty_map]
      exact List.isEmpty_eq_false_iff.mpr hne
    rw [hempty, Bool.and_eq_true, Bool.not_false, Bool.and_true, Bool.not_eq_true',
      Option.elim_some]
    constructor
    · rintro ⟨hflag, hgap⟩
      exact ⟨⟨f, rfl, hflag⟩, hgap⟩
    · rintro ⟨⟨g, hg, hflag⟩, hgap⟩
      cases hg
      exact ⟨hflag, hgap⟩

theorem Pieces.fitsOffsets (hp : Pieces p maxSize pieces) (k : Nat) (hl : ∀ f ∈ l, f ∈ pieces)
    (hgap : Contiguous (pieceOffset maxSize k) l) (hlast : ∃ f ∈ l, f.moreFragment = false)
    (hsize : k * pieceSize maxSize + (l.map (·.data.length)).sum = p.length) :
    FitsOffsets p.length maxSize := by
  induction l generalizing k with
  | nil =>
    obtain ⟨f, hf, -⟩ := hlast
    cases hf
  | cons f l ih =>
    obtain ⟨hstart, hgap⟩ := hgap
    obtain ⟨hsome, hnone⟩ := hp.length_data (hl f (.head _))
    rw [List.map_cons, List.sum_cons] at hsize
    cases hflag : f.moreFragment with
    | true =>
      rw [hsome hflag] at hsize hgap
      have hnext : (pieceOffset maxSize k + pieceSize maxSize) % 2 ^ 16 =
          pieceOffset maxSize (k + 1) := by
        rw [pieceOffset, pieceOffset, Nat.mod_add_mod, Nat.succ_mul]
      have hsum : (k + 1) * pieceSize maxSize = k * pieceSize maxSize + pieceSize maxSize :=
        Nat.succ_mul _ _
      rw [hnext] at hgap
      refine ih (k + 1) (fun g hg => hl g (.tail _ hg)) hgap ?_ (by omega)
      obtain ⟨g, hg, hgflag⟩ := hlast
      rcases List.mem_cons.mp hg with rfl | hg
      · rw [hflag] at hgflag
        cases hgflag
      · exact ⟨g, hg, hgflag⟩
    | false =>
      obtain ⟨hreach, hfits, hlength⟩ := hnone hflag
      have hoffset : pieceOffset maxSize k = k * pieceSize maxSize % 2 ^ 16 := rfl
      rw [← hstart] at hreach hfits hlength
      exact ⟨k, by omega, by omega⟩

/-! ## Offsets that do not wrap around -/

section

variable (hp : Pieces p maxSize pieces) (hword : maxSize < 2 ^ 32)
  (hfits : FitsOffsets p.length maxSize) (htwo : 2 ≤ pieces.length)

include hp hword hfits htwo

theorem Pieces.no_wrap : (pieces.length - 1) * pieceSize maxSize < 2 ^ 16 ∧
    0 < pieceSize maxSize ∧ maxSize < 2 ^ 16 := by
  obtain ⟨k, hk, hreach⟩ := hfits
  have hzero : pieceOffset maxSize 0 = 0 := by rw [pieceOffset, Nat.zero_mul, Nat.zero_mod]
  obtain ⟨hfirst, hroom, -⟩ := hp.more 0 (by omega)
  rw [hzero, Nat.zero_add, Nat.mod_eq_of_lt hword] at hfirst
  rw [hzero, Nat.zero_add] at hroom
  have hkpos : k ≠ 0 := by
    rintro rfl
    omega
  have hpiece : pieceSize maxSize < 2 ^ 16 := by
    have hle : 1 * pieceSize maxSize ≤ k * pieceSize maxSize :=
      Nat.mul_le_mul_right _ (Nat.pos_of_ne_zero hkpos)
    omega
  have hdef : pieceSize maxSize = maxSize - maxSize % 8 := rfl
  have hle : pieces.length - 1 ≤ k := by
    by_contra hlt
    rw [Nat.not_le] at hlt
    obtain ⟨hmore, -⟩ := hp.more k (by omega)
    have hoffset : pieceOffset maxSize k = k * pieceSize maxSize := Nat.mod_eq_of_lt hk
    rw [hoffset, Nat.mod_eq_of_lt (by omega)] at hmore
    omega
  refine ⟨(Nat.mul_le_mul_right _ hle).trans_lt hk, ?_, by omega⟩
  by_contra hempty
  have hnone : pieceSize maxSize = 0 := by omega
  obtain ⟨hlast, -⟩ := hp.last (pieces.length - 1) (by omega) (by omega)
  rw [pieceOffset, hnone, Nat.mul_zero, Nat.zero_mod, Nat.zero_add, Nat.mod_eq_of_lt hword] at hlast
  omega

theorem Pieces.offset_lt (hi : i < pieces.length) :
    pieceOffset maxSize i = i * pieceSize maxSize := by
  obtain ⟨hwrap, -, -⟩ := hp.no_wrap hword hfits htwo
  have hle : i * pieceSize maxSize ≤ (pieces.length - 1) * pieceSize maxSize :=
    Nat.mul_le_mul_right _ (by omega)
  exact Nat.mod_eq_of_lt (hle.trans_lt hwrap)

theorem Pieces.offset_strictMono {j : Nat} (hij : i < j) (hj : j < pieces.length) :
    pieceOffset maxSize i < pieceOffset maxSize j := by
  obtain ⟨-, hpos, -⟩ := hp.no_wrap hword hfits htwo
  rw [hp.offset_lt hword hfits htwo (hij.trans hj), hp.offset_lt hword hfits htwo hj]
  exact Nat.mul_lt_mul_of_pos_right hij hpos

theorem Pieces.offset_injective {j : Nat} (hi : i < pieces.length) (hj : j < pieces.length)
    (h : pieceOffset maxSize i = pieceOffset maxSize j) : i = j := by
  rcases Nat.lt_trichotomy i j with hlt | heq | hlt
  · exact absurd h (Nat.ne_of_lt (hp.offset_strictMono hword hfits htwo hlt hj))
  · exact heq
  · exact absurd h.symm (Nat.ne_of_lt (hp.offset_strictMono hword hfits htwo hlt hi))

theorem Pieces.last_size (hi : i + 1 = pieces.length) :
    pieceOffset maxSize i < p.length ∧ p.length < pieceOffset maxSize i + 2 ^ 16 := by
  obtain ⟨-, -, hsmall⟩ := hp.no_wrap hword hfits htwo
  obtain ⟨hreach, -, -⟩ := hp.last i (by omega) hi
  obtain ⟨k, rfl⟩ : ∃ k, i = k + 1 := ⟨i - 1, by omega⟩
  obtain ⟨hmore, -, -⟩ := hp.more k (by omega)
  have hmod : pieceOffset maxSize (k + 1) < 2 ^ 16 := Nat.mod_lt _ (by decide)
  have hmod' : pieceOffset maxSize k < 2 ^ 16 := Nat.mod_lt _ (by decide)
  have hoffset := hp.offset_lt hword hfits htwo (show k < pieces.length by omega)
  have hoffset' := hp.offset_lt hword hfits htwo (show k + 1 < pieces.length by omega)
  have hnext : (k + 1) * pieceSize maxSize = k * pieceSize maxSize + pieceSize maxSize :=
    Nat.succ_mul _ _
  have hdef : pieceSize maxSize = maxSize - maxSize % 8 := rfl
  rw [Nat.mod_eq_of_lt (by omega)] at hreach hmore
  omega

theorem Pieces.eq_of_contiguous (k : Nat) (hk : k < pieces.length) (hl : ∀ f ∈ l, f ∈ pieces)
    (hsorted : l.Pairwise fun f g => f.fragmentOffset ≤ g.fragmentOffset)
    (hgap : Contiguous (pieceOffset maxSize k) l)
    (hlast : ∃ f, l.getLast? = some f ∧ f.moreFragment = false) : l = pieces.drop k := by
  induction l generalizing k with
  | nil =>
    obtain ⟨f, hf, -⟩ := hlast
    cases hf
  | cons f l ih =>
    obtain ⟨hstart, hgap⟩ := hgap
    rw [List.pairwise_cons] at hsorted
    obtain ⟨j, hj, hjf⟩ := List.getElem_of_mem (hl f (.head _))
    have hfk : f = pieces[k] := by
      have hjk : j = k := by
        apply hp.offset_injective hword hfits htwo hj hk
        rw [hstart, ← hjf, hp.offset_eq hj]
      subst hjk
      exact hjf.symm
    rw [List.drop_eq_getElem_cons hk, ← hfk]
    congr 1
    rcases Nat.lt_or_ge (k + 1) pieces.length with hmore | hend
    · have hsize : f.data.length = pieceSize maxSize := by
        apply (hp.length_data (hl f (.head _))).1
        rw [hfk, hp.flag_eq hk, decide_eq_true hmore]
      have hnext : (pieceOffset maxSize k + f.data.length) % 2 ^ 16 =
          pieceOffset maxSize (k + 1) := by
        rw [hsize, pieceOffset, pieceOffset, Nat.mod_add_mod, Nat.succ_mul]
      rw [hnext] at hgap
      refine ih (k + 1) hmore (fun g hg => hl g (.tail _ hg)) hsorted.2 hgap ?_
      cases l with
      | nil =>
        obtain ⟨g, hg, hflag⟩ := hlast
        obtain rfl : f = g := Option.some.inj hg
        rw [hfk, hp.flag_eq hk, decide_eq_true hmore] at hflag
        cases hflag
      | cons g l =>
        rw [List.getLast?_cons_cons] at hlast
        exact hlast
    · rw [List.drop_of_length_le hend]
      cases l with
      | nil => rfl
      | cons g l =>
        -- a second copy of the last piece would have to start where the first one ends
        obtain ⟨hnext, -⟩ := hgap
        obtain ⟨j', hj', rfl⟩ := List.getElem_of_mem (hl g (List.mem_cons_of_mem _
          (.head _)))
        have hkend : k + 1 = pieces.length := by omega
        obtain ⟨hlo, hhi⟩ := hp.last_size hword hfits htwo hkend
        have hfalse : f.moreFragment = false := by
          rw [hfk, hp.flag_eq hk, decide_eq_false (Nat.not_lt.mpr hend)]
        have hlength := ((hp.length_data (hl f (.head _))).2 hfalse).2.2
        have hge := hsorted.1 _ (.head _)
        have hle : pieceOffset maxSize j' ≤ pieceOffset maxSize k := by
          rcases Nat.lt_or_ge j' k with hlt | hge'
          · exact Nat.le_of_lt (hp.offset_strictMono hword hfits htwo hlt hk)
          · obtain rfl : j' = k := by omega
            exact le_rfl
        have hmod : pieceOffset maxSize k < 2 ^ 16 := Nat.mod_lt _ (by decide)
        rw [hp.offset_eq hj'] at hge hnext
        rw [← hstart] at hge hlength
        omega

theorem Pieces.sorted : pieces.Pairwise fun f g => f.fragmentOffset < g.fragmentOffset := by
  apply List.pairwise_iff_getElem.mpr
  intro i j hi hj hij
  rw [hp.offset_eq hi, hp.offset_eq hj]
  exact hp.offset_strictMono hword hfits htwo hij hj

theorem Pieces.nodup : pieces.Nodup := by
  apply (hp.sorted hword hfits htwo).imp
  intro f g hlt heq
  rw [heq] at hlt
  exact Nat.lt_irrefl _ hlt

end

theorem Pieces.contiguous_drop (hp : Pieces p maxSize pieces) {k : Nat} (hk : k < pieces.length) :
    Contiguous (pieceOffset maxSize k) (pieces.drop k) := by
  obtain ⟨n, hn⟩ : ∃ n, k + n + 1 = pieces.length := ⟨pieces.length - 1 - k, by omega⟩
  induction n generalizing k with
  | zero =>
    rw [List.drop_eq_getElem_cons hk, List.drop_of_length_le (by omega)]
    exact ⟨(hp.offset_eq hk).symm, trivial⟩
  | succ n ih =>
    have hmore : k + 1 < pieces.length := by omega
    have hsize : pieces[k].data.length = pieceSize maxSize := by
      apply (hp.length_data (List.getElem_mem hk)).1
      rw [hp.flag_eq hk, decide_eq_true hmore]
    have hnext : (pieceOffset maxSize k + pieces[k].data.length) % 2 ^ 16 =
        pieceOffset maxSize (k + 1) := by
      rw [hsize, pieceOffset, pieceOffset, Nat.mod_add_mod, Nat.succ_mul]
    rw [List.drop_eq_getElem_cons hk]
    refine ⟨(hp.offset_eq hk).symm, ?_⟩
    rw [hnext]
    exact ih hmore (by omega)

theorem Pieces.join_drop (hp : Pieces p maxSize pieces)
    (hwrap : (pieces.length - 1) * pieceSize maxSize < 2 ^ 16) {k : Nat} (hk : k < pieces.length) :
    (pieces.drop k).flatMap (·.data) = p.drop (pieceOffset maxSize k) := by
  obtain ⟨n, hn⟩ : ∃ n, k + n + 1 = pieces.length := ⟨pieces.length - 1 - k, by omega⟩
  induction n generalizing k with
  | zero =>
    obtain ⟨-, -, heq⟩ := hp.last k hk (by omega)
    rw [List.drop_eq_getElem_cons hk, List.drop_of_length_le (by omega), List.flatMap_singleton,
      heq]
    exact Packet.createFragment_rest p _
  | succ n ih =>
    have hmore : k + 1 < pieces.length := by omega
    obtain ⟨-, -, heq⟩ := hp.more k hmore
    have hle : (k + 1) * pieceSize maxSize ≤ (pieces.length - 1) * pieceSize maxSize :=
      Nat.mul_le_mul_right _ (by omega)
    have hnext : (k + 1) * pieceSize maxSize = k * pieceSize maxSize + pieceSize maxSize :=
      Nat.succ_mul _ _
    have hoffset : pieceOffset maxSize k = k * pieceSize maxSize := Nat.mod_eq_of_lt (by omega)
    have hoffset' : pieceOffset maxSize (k + 1) = k * pieceSize maxSize + pieceSize maxSize := by
      rw [pieceOffset, hnext]
      exact Nat.mod_eq_of_lt (by omega)
    rw [List.drop_eq_getElem_cons hk, List.flatMap_cons, ih hmore (by omega), heq, hoffset,
      hoffset', Packet.createFragment, ← List.drop_drop, List.take_append_drop]

end Ns3.Ip.V6
