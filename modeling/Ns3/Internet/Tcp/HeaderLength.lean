/-
  The size that TcpHeader::Deserialize returns.

  `GetSerializedSize` adds up the options that were kept.  The padding after END is skipped
  but not kept, and neither is anything from an option on that is not well formed, so the
  sum agrees with the data offset only if the options come near the end of their area.
-/
import Ns3.Internet.Tcp.OptionReading

namespace Ns3.Tcp

open BufferIterator

namespace TcpOption

open Wire.TcpHeader

variable {kind length : UInt8} {rest : List UInt8} {size : Nat} {op : TcpOption}

def wellFormedSize (kind length : UInt8) : Option Nat :=
  if kind = END ∨ kind = NOP then some 1
  else if kind = MSS then if length = 4 then some 4 else none
  else if kind = WINSCALE then if length = 3 then some 3 else none
  else if kind = SACKPERMITTED then if length = 2 then some 2 else none
  else if kind = SACK then some (2 + (length.toNat - 2) / 8 * 8)
  else if kind = TS then if length = 10 then some 10 else none
  else if length.toNat < 2 ∨ 40 < length.toNat then none else some length.toNat

/-- An option that is well formed is read with its size, and any other with size 0. -/
structure ReadAs (kind length : UInt8) (size : Nat) (op : TcpOption) : Prop where
  kind_eq : op.kind = kind
  sized : ∀ k, wellFormedSize kind length = some k → size = k ∧ op.serializedSize = k
  malformed : wellFormedSize kind length = none → size = 0

theorem ReadAs.of_some (hkind : op.kind = kind) (hsize : op.serializedSize = size)
    (hsome : wellFormedSize kind length = some size) : ReadAs kind length size op where
  kind_eq := hkind
  sized k hk := by
    obtain rfl := Option.mem_unique hsome hk
    exact ⟨rfl, hsize⟩
  malformed hnone := by cases hsome.symm.trans hnone

theorem ReadAs.of_none (hkind : op.kind = kind) (hnone : wellFormedSize kind length = none) :
    ReadAs kind length 0 op where
  kind_eq := hkind
  sized k hk := by cases hnone.symm.trans hk
  malformed _ := rfl

theorem wellFormedSize_unknown (length : UInt8) (hknown : isKindKnown kind = false) :
    wellFormedSize kind length =
      if length.toNat < 2 ∨ 40 < length.toNat then none else some length.toNat := by
  have hend : ¬(kind = END ∨ kind = NOP) :=
    not_or.mpr ⟨kind_ne hknown rfl, kind_ne hknown rfl⟩
  rw [wellFormedSize, if_neg hend, if_neg (kind_ne hknown rfl), if_neg (kind_ne hknown rfl),
    if_neg (kind_ne hknown rfl), if_neg (kind_ne hknown rfl), if_neg (kind_ne hknown rfl)]

theorem readAs_cons
    (h : (optionFor kind).deserialize (kind :: length :: rest) = .ok (size, op)) :
    ReadAs kind length size op := by
  cases hknown : isKindKnown kind with
  | true =>
    rcases isKindKnown_cases hknown with rfl | rfl | rfl | rfl | rfl | rfl | rfl
    · cases h
      exact .of_some rfl rfl rfl
    · cases h
      exact .of_some rfl rfl rfl
    · rw [read_mss] at h
      split at h
      · cases h
      · rename_i hlength
        rw [not_not] at hlength
        obtain ⟨r, -, ⟨⟩⟩ := bind_pure_eq_ok.mp h
        subst hlength
        exact .of_some rfl rfl rfl
    · rw [read_winScale] at h
      split at h
      · rename_i hlength
        cases h
        exact .of_none rfl (if_neg hlength)
      · rename_i hlength
        rw [not_not] at hlength
        obtain ⟨r, -, ⟨⟩⟩ := bind_pure_eq_ok.mp h
        subst hlength
        exact .of_some rfl rfl rfl
    · rw [read_sackPermitted] at h
      cases h
      split
      · rename_i hlength
        exact .of_none rfl (if_neg hlength)
      · rename_i hlength
        exact .of_some rfl rfl (if_pos (not_not.mp hlength))
    · rw [read_sack] at h
      obtain ⟨sackList, hblocks, h⟩ := bind_eq_ok.mp h
      have hcount := length_readBlocks hblocks
      cases h
      refine .of_some rfl rfl ?_
      rw [serializedSize, hcount, List.length_nil, Nat.zero_add]
      rfl
    · rw [read_ts] at h
      split at h
      · rename_i hlength
        cases h
        exact .of_none rfl (if_neg hlength)
      · rename_i hlength
        rw [not_not] at hlength
        obtain ⟨r, -, h⟩ := bind_eq_ok.mp h
        obtain ⟨r', -, ⟨⟩⟩ := bind_pure_eq_ok.mp h
        subst hlength
        exact .of_some rfl rfl rfl
  | false =>
    have hsize := wellFormedSize_unknown length hknown
    rw [read_unknown hknown] at h
    split at h
    · rename_i hlength
      cases h
      exact .of_none rfl (hsize.trans (if_pos hlength))
    · rename_i hlength
      obtain ⟨r, -, ⟨⟩⟩ := bind_pure_eq_ok.mp h
      exact .of_some rfl rfl (hsize.trans (if_neg hlength))

theorem readAs (h : (optionFor kind).deserialize (kind :: rest) = .ok (size, op)) :
    ReadAs kind (rest.headD 0) size op := by
  cases rest with
  | cons length rest => exact readAs_cons h
  | nil =>
    have hreadable := returns_deserialize.mp ⟨_, h⟩
    by_cases hend : kind = END
    · subst hend
      cases h
      exact .of_some rfl rfl rfl
    · by_cases hnop : kind = NOP
      · subst hnop
        cases h
        exact .of_some rfl rfl rfl
      · exact absurd (.noLength hend hnop) hreadable

end TcpOption

namespace Wire.TcpHeader

open TcpOption

variable {h h' : TcpHeader} {i rest : List UInt8} {kind : UInt8} {len size fuel : Nat}
  {op : TcpOption} {done done' : OptionsRead}

/-! ## The options that are kept -/

/-- In an area of `len` bytes, the options from the front up to END, as far as they are well formed
and fit, come to less than four bytes from its end. -/
inductive ReachesLastWord : Nat → List UInt8 → Prop where
  | lastWord {len : Nat} {i : List UInt8} (hlen : len < 4) : ReachesLastWord len i
  | atEnd {len : Nat} {rest : List UInt8} (hlen : len ≤ 4) : ReachesLastWord len (END :: rest)
  | later {len size : Nat} {kind : UInt8} {rest : List UInt8} (hend : kind ≠ END)
      (hsize : wellFormedSize kind (rest.headD 0) = some size) (hle : size ≤ len)
      (hmore : ReachesLastWord (len - size) ((kind :: rest).drop size)) :
      ReachesLastWord len (kind :: rest)

def OptionsRead.total (done : OptionsRead) : Nat := (done.options.map (·.serializedSize)).sum

theorem OptionsRead.total_append (options : List TcpOption) (op : TcpOption) (n : Nat) :
    OptionsRead.total ⟨options ++ [op], n⟩ =
      (options.map (·.serializedSize)).sum + op.serializedSize := by
  rw [OptionsRead.total, List.map_append, List.sum_append, List.map_singleton,
    List.sum_singleton]

theorem reachesLastWord_stop (hstop : ∀ k, wellFormedSize kind (rest.headD 0) = some k → len < k) :
    ReachesLastWord len (kind :: rest) ↔ len < 4 := by
  constructor
  · intro hreaches
    cases hreaches with
    | lastWord hlen => exact hlen
    | atEnd _ =>
      have hlen := hstop 1 rfl
      omega
    | later _ hsize hle _ => exact absurd hle (Nat.not_le.mpr (hstop _ hsize))
  · exact .lastWord

theorem reachesLastWord_end : ReachesLastWord len (END :: rest) ↔ len ≤ 4 := by
  constructor
  · intro hreaches
    cases hreaches with
    | lastWord hlen => exact Nat.le_of_lt hlen
    | atEnd hlen => exact hlen
    | later hend _ _ _ => exact absurd rfl hend
  · exact .atEnd

theorem reachesLastWord_later (hend : kind ≠ END)
    (hsize : wellFormedSize kind (rest.headD 0) = some size) (hle : size ≤ len) :
    ReachesLastWord len (kind :: rest) ↔
      ReachesLastWord (len - size) ((kind :: rest).drop size) := by
  constructor
  · intro hreaches
    cases hreaches with
    | lastWord hlen => exact .lastWord (by omega)
    | atEnd _ => exact absurd rfl hend
    | later _ hsize' _ hmore =>
      obtain rfl := Option.mem_unique hsize hsize'
      exact hmore
  · exact .later hend hsize hle

/-- What is kept reaches the last word of the area exactly when the reading does. -/
theorem optionLoop_kept (hrun : optionLoop fuel len i done = .ok done') :
    ∃ kept ≤ len, done'.total = done.total + kept ∧
      (len < kept + 4 ↔ ReachesLastWord len i) := by
  induction fuel generalizing len i done with
  | zero => cases hrun
  | succ fuel ih =>
    rw [optionLoop] at hrun
    split at hrun
    · rename_i hlen
      cases hrun
      exact ⟨0, Nat.zero_le _, rfl, iff_of_true (by omega) (.lastWord (by omega))⟩
    · obtain ⟨kind, hkind, hrun⟩ := bind_eq_ok.mp hrun
      cases i with
      | nil => cases hkind
      | cons b rest =>
        obtain rfl := Except.ok.inj hkind
        obtain ⟨⟨size, op⟩, hread, hrun⟩ := bind_eq_ok.mp hrun
        have has := readAs hread
        dsimp only at hrun
        split at hrun
        · -- the option is not well formed
          rename_i hne
          cases hrun
          refine ⟨0, Nat.zero_le _, rfl, ?_⟩
          rw [Nat.zero_add, reachesLastWord_stop]
          intro k hk
          obtain ⟨hsize, hserialized⟩ := has.sized k hk
          exact absurd (hsize.trans hserialized.symm) hne
        · rename_i hsize
          rw [not_not] at hsize
          split at hrun
          · rename_i hle
            obtain ⟨i', hnext, hrun⟩ := bind_eq_ok.mp hrun
            rw [next] at hnext
            obtain ⟨_, -, rfl⟩ := bind_pure_eq_ok.mp hnext
            split at hrun
            · -- END, and padding
              rename_i hend
              obtain ⟨_, -, rfl⟩ := bind_pure_eq_ok.mp hrun
              obtain rfl : b = END := has.kind_eq.symm.trans hend
              obtain ⟨rfl, -⟩ := has.sized 1 rfl
              refine ⟨1, hle, ?_, ?_⟩
              · rw [OptionsRead.total_append, ← hsize]
                rfl
              · rw [reachesLastWord_end]
                omega
            · rename_i hend
              rw [has.kind_eq] at hend
              obtain ⟨kept, hkept, htotal, hiff⟩ := ih hrun
              rw [OptionsRead.total_append, ← hsize, Nat.add_assoc] at htotal
              refine ⟨size + kept, by omega, htotal, ?_⟩
              have hleft : len < size + kept + 4 ↔ len - size < kept + 4 := by omega
              rw [hleft, hiff]
              cases hwell : wellFormedSize b (rest.headD 0) with
              | none =>
                -- the option of unknown kind and length 0
                obtain rfl := has.malformed hwell
                rfl
              | some k =>
                obtain ⟨rfl, -⟩ := has.sized k hwell
                exact (reachesLastWord_later hend hwell hle).symm
          · -- the option does not fit
            rename_i hover
            cases hrun
            refine ⟨0, Nat.zero_le _, rfl, ?_⟩
            rw [Nat.zero_add, reachesLastWord_stop]
            intro k hk
            obtain ⟨rfl, -⟩ := has.sized k hk
            exact Nat.lt_of_not_le hover

/-! ## The whole header -/

def dataOffset (start : List UInt8) : Nat := (start.getD 12 0 / 16).toNat

variable {start : List UInt8}

theorem optionArea_of (hd : 5 ≤ dataOffset start) :
    optionArea start = 4 * (dataOffset start - 5) := by
  have hlt : (start.getD 12 0 / 16).toNat < 2 ^ 8 := UInt8.toNat_lt _
  rw [dataOffset] at hd ⊢
  rw [optionArea, announcedLen, Lib.wsub_eq (by omega) hd]
  omega

theorem serializedSize_finish (h : TcpHeader) (start : List UInt8) (done : OptionsRead)
    (hsmall : done.total ≤ 40) :
    (h.finish start done).serializedSize = (20 + done.total + 3) / 4 * 4 := by
  have hoptions : (h.finish start done).options = done.options := by
    rw [finish]
    split <;> rfl
  rw [serializedSize, calculateHeaderLength, hoptions]
  change (20 + done.total + if (20 + done.total) % 4 = 0 then 0 else 4 - (20 + done.total) % 4) / 4
    % 2 ^ 8 * 4 = _
  split <;> omega

theorem deserialize_of (h : TcpHeader) {n : Nat} (hlen : 20 ≤ start.length)
    (harea : optionArea start = n) (hn : n ≤ maxOptionsLen)
    (hloop : optionLoop fuel n (start.drop 20) {} = .ok done) (hsmall : done.total ≤ 40) :
    h.deserialize fuel start =
      .ok ((h.fixedFields start).finish start done, (20 + done.total + 3) / 4 * 4) := by
  rw [deserialize_eq h hlen, harea, if_neg (Nat.not_lt.mpr hn), hloop, ok_bind,
    serializedSize_finish _ _ _ hsmall]

/-- **The returned size** is the one of the data offset exactly if the options that are well formed
come to less than four bytes from the end of the option area. -/
theorem returned_size_iff (h : TcpHeader) (start : List UInt8) (d : Nat) (hd : 5 ≤ d ∧ d ≤ 15)
    (hoffset : dataOffset start = d) (hinside : 4 * d ≤ start.length) (fuel : Nat)
    (h' : TcpHeader) (size : Nat) (hrun : h.deserialize fuel start = .ok (h', size)) :
    size = 4 * d ↔ ReachesLastWord (4 * (d - 5)) (start.drop 20) := by
  have harea : optionArea start = 4 * (d - 5) := by
    rw [optionArea_of (hoffset ▸ hd.1), hoffset]
  have hfits : 4 * (d - 5) ≤ maxOptionsLen := by
    rw [maxOptionsLen]
    omega
  rw [deserialize_eq h (by omega), harea, if_neg (Nat.not_lt.mpr hfits)] at hrun
  obtain ⟨done, hloop, hrun⟩ := bind_eq_ok.mp hrun
  cases hrun
  obtain ⟨kept, hkept, htotal, hiff⟩ := optionLoop_kept hloop
  have htotal' : done.total = kept := htotal.trans (Nat.zero_add kept)
  rw [serializedSize_finish _ _ _ (by omega), htotal', ← hiff]
  omega

/-- A NOP, an option of unknown kind without data, and END as padding. -/
theorem returned_size_unknown : ∃ h', ({} : TcpHeader).deserialize 5 (oneWord [1, 9, 2, 0]) =
      .ok (h', 24) ∧
    (24 = 4 * 6 ↔ ReachesLastWord (4 * (6 - 5)) ((oneWord [1, 9, 2, 0]).drop 20)) := by
  have harea : optionArea (oneWord [1, 9, 2, 0]) = 4 := by decide
  have hloop : optionLoop 5 4 ((oneWord [1, 9, 2, 0]).drop 20) {} =
      .ok ⟨[.optionNOP, .optionUnknown 9 2 [], .optionEnd], 4⟩ := by decide
  have hrun := deserialize_of {} (by decide) harea (by decide) hloop (by decide)
  exact ⟨_, hrun, returned_size_iff {} _ 6 (by decide) (by decide) (by decide) 5 _ 24 hrun⟩

def paddedHeader : List UInt8 :=
  [0, 80, 0, 80, 0, 0, 0, 1, 0, 0, 0, 1, 0x70, 16, 1, 0, 0, 0, 0, 0, 0, 0, 0, 0, 0, 0, 0, 0]

/-- Of the 28 bytes of a header, 24 are said to be it. -/
theorem padding_not_counted : dataOffset paddedHeader = 7 ∧ 4 * 7 ≤ paddedHeader.length ∧
    ∃ h', ({} : TcpHeader).deserialize 2 paddedHeader = .ok (h', 24) ∧ 24 ≠ 4 * 7 := by
  have harea : optionArea paddedHeader = 8 := by decide
  have hloop : optionLoop 2 8 (paddedHeader.drop 20) {} = .ok ⟨[.optionEnd], 8⟩ := by decide
  exact ⟨by decide, by decide, _,
    deserialize_of {} (by decide) harea (by decide) hloop (by decide), by decide⟩

end Wire.TcpHeader

end Ns3.Tcp
