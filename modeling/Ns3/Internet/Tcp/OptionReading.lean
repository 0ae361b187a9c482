/-
  What the option classes read.

  An option that was written is read back.  Of any bytes, an option class says which it
  cannot read: those that end too early, and an MSS option whose length is not 4.
-/
import Ns3.Internet.Tcp.OptionLoop

namespace Ns3.Tcp.TcpOption

open BufferIterator

variable {op : TcpOption} {rest : List UInt8} {kind : UInt8}

/-! ## Writing and reading -/

theorem Known.isKindKnown (h : op.Known) : isKindKnown op.kind = true := by
  cases op with
  | optionUnknown kind size content => exact h.elim
  | _ => rfl

@[simp] theorem length_writeBlock (block : SackBlock) : (writeBlock block).length = 8 := by
  rw [writeBlock, List.length_append, length_writeHtonU32, length_writeHtonU32]

theorem length_writeBlocks (sackList : List SackBlock) :
    (sackList.flatMap writeBlock).length = sackList.length * 8 := by
  induction sackList with
  | nil => rfl
  | cons block sackList ih =>
    rw [List.flatMap_cons, List.length_append, length_writeBlock, ih, List.length_cons]
    omega

theorem Known.length_serialize (h : op.Known) : op.serialize.length = op.serializedSize := by
  cases op with
  | optionSack sackList =>
    rw [serialize, serializedSize, List.length_append, length_writeBlocks]
    rfl
  | optionUnknown kind size content => exact h.elim
  | _ => rfl

theorem Known.serialize_cons (h : op.Known) : ∃ tail, op.serialize = op.kind :: tail := by
  cases op with
  | optionUnknown kind size content => exact h.elim
  | _ => exact ⟨_, rfl⟩

theorem readNtohU32_sequence (seq : SequenceNumber32) (rest : List UInt8) :
    readNtohU32 (writeHtonU32 (UInt32.ofNat seq.value.toNat) ++ rest) =
      .ok (UInt32.ofNat seq.value.toNat, rest) := readNtohU32_write _

theorem ofNat_sequence (seq : SequenceNumber32) :
    SequenceNumber.ofNat (UInt32.ofNat seq.value.toNat).toNat = seq := by
  have hlt : seq.value.toNat < 2 ^ 32 := seq.value.isLt
  rw [UInt32.toNat_ofNat_of_lt' hlt, SequenceNumber.ofNat]
  congr 1
  rw [BitVec.ofNat_toNat, BitVec.setWidth_eq]

theorem readBlocks_write (sackList done : List SackBlock) (rest : List UInt8) :
    readBlocks sackList.length done (sackList.flatMap writeBlock ++ rest) =
      .ok (done ++ sackList) := by
  induction sackList generalizing done with
  | nil =>
    rw [List.append_nil]
    rfl
  | cons block sackList ih =>
    rw [List.flatMap_cons, List.length_cons, readBlocks, writeBlock, List.append_assoc,
      List.append_assoc, readNtohU32_sequence, ok_bind]
    dsimp only
    rw [readNtohU32_sequence, ok_bind]
    dsimp only
    rw [ofNat_sequence, ofNat_sequence, ih, List.append_assoc]
    rfl

theorem Known.deserialize_serialize (h : op.Known) (hsize : op.serializedSize ≤ 40)
    (rest : List UInt8) :
    (createOption op.kind).deserialize (op.serialize ++ rest) = .ok (op.serializedSize, op) := by
  cases op with
  | optionEnd => rfl
  | optionNOP => rfl
  | optionMSS mss =>
    have hread : (createOption MSS).deserialize ([MSS, 4] ++ writeHtonU16 mss ++ rest) =
        readNtohU16 (writeHtonU16 mss ++ rest) >>= fun r => .ok (4, optionMSS r.1) := rfl
    rw [kind, serialize, hread, readNtohU16_write]
    rfl
  | optionWinScale scale => rfl
  | optionSackPermitted => rfl
  | optionSack sackList =>
    have hlen : sackList.length ≤ 4 := by
      rw [serializedSize] at hsize
      omega
    have hcount : (((UInt8.ofNat (sackList.length * 8 + 2)).toNat : Int) - 2).tdiv 8 =
        sackList.length := by
      rw [UInt8.toNat_ofNat', Nat.mod_eq_of_lt (by omega)]
      rw [show ((sackList.length * 8 + 2 : Nat) : Int) - 2 = sackList.length * 8 by omega]
      exact Int.mul_tdiv_cancel _ (by decide)
    have hread : (createOption SACK).deserialize
        ([SACK, UInt8.ofNat (sackList.length * 8 + 2)] ++ sackList.flatMap writeBlock ++ rest) =
        readBlocks (((UInt8.ofNat (sackList.length * 8 + 2)).toNat : Int) - 2 |>.tdiv 8).toNat []
          (sackList.flatMap writeBlock ++ rest) >>= fun sackList =>
            .ok ((optionSack sackList).serializedSize, optionSack sackList) := rfl
    rw [kind, serialize, hread, hcount, Int.toNat_natCast, readBlocks_write]
    rfl
  | optionTS timestamp echo =>
    have hread : (createOption TS).deserialize
        ([TS, 10] ++ writeHtonU32 timestamp ++ writeHtonU32 echo ++ rest) =
        readNtohU32 (writeHtonU32 timestamp ++ writeHtonU32 echo ++ rest) >>= fun r =>
          readNtohU32 r.2 >>= fun r' => .ok (10, optionTS r.1 r'.1) := rfl
    rw [kind, serialize, hread, List.append_assoc, readNtohU32_write, ok_bind]
    dsimp only
    rw [readNtohU32_write]
    rfl
  | optionUnknown kind size content => exact h.elim

/-! ## Bytes that cannot be read -/

/-- How many bytes the class of a kind reads when it meets a length. -/
def neededLen (kind length : UInt8) : Nat :=
  if kind = MSS then 4
  else if kind = WINSCALE then if length = 3 then 3 else 2
  else if kind = SACKPERMITTED then 2
  else if kind = SACK then 2 + (length.toNat - 2) / 8 * 8
  else if kind = TS then if length = 10 then 10 else 2
  else if length.toNat < 2 ∨ 40 < length.toNat then 2
  else length.toNat

/-- Bytes at which reading an option faults. -/
inductive Unreadable : List UInt8 → Prop where
  | noKind : Unreadable []
  | noLength {kind : UInt8} (hend : kind ≠ END) (hnop : kind ≠ NOP) : Unreadable [kind]
  | badMss {length : UInt8} {rest : List UInt8} (hlength : length ≠ 4) :
      Unreadable (MSS :: length :: rest)
  | short {kind length : UInt8} {rest : List UInt8} (hend : kind ≠ END) (hnop : kind ≠ NOP)
      (hshort : rest.length + 2 < neededLen kind length) : Unreadable (kind :: length :: rest)

theorem returns_readBlocks {sackCount : Nat} {done : List SackBlock} {i : List UInt8} :
    Returns (readBlocks sackCount done i) ↔ sackCount * 8 ≤ i.length := by
  induction sackCount generalizing done i with
  | zero =>
    rw [Nat.zero_mul]
    exact ⟨fun _ => Nat.zero_le _, fun _ => .ok _⟩
  | succ sackCount ih =>
    rw [readBlocks, returns_bind]
    constructor
    · rintro ⟨r, hread, h⟩
      obtain ⟨hle, rfl⟩ := readNtohU32_eq_ok.mp hread
      obtain ⟨r', hread', h⟩ := returns_bind.mp h
      obtain ⟨hle', rfl⟩ := readNtohU32_eq_ok.mp hread'
      have hrest := ih.mp h
      rw [List.drop_drop, List.length_drop] at hrest
      rw [List.length_drop] at hle'
      omega
    · intro hle
      refine ⟨_, readNtohU32_of (by omega), ?_⟩
      dsimp only
      rw [returns_bind]
      have hle' : 4 ≤ (i.drop 4).length := by
        rw [List.length_drop]
        omega
      refine ⟨_, readNtohU32_of hle', ?_⟩
      apply ih.mpr
      rw [List.drop_drop, List.length_drop]
      omega

theorem length_readBlocks {sackCount : Nat} {done sackList : List SackBlock} {i : List UInt8}
    (h : readBlocks sackCount done i = .ok sackList) :
    sackList.length = done.length + sackCount := by
  induction sackCount generalizing done i with
  | zero =>
    cases h
    rfl
  | succ sackCount ih =>
    rw [readBlocks] at h
    obtain ⟨_, -, h⟩ := bind_eq_ok.mp h
    obtain ⟨_, -, h⟩ := bind_eq_ok.mp h
    have hlen := ih h
    rw [List.length_append, List.length_singleton] at hlen
    omega

theorem unreadable_cons {length : UInt8} :
    Unreadable (kind :: length :: rest) ↔ (kind = MSS ∧ length ≠ 4) ∨
      (kind ≠ END ∧ kind ≠ NOP ∧ rest.length + 2 < neededLen kind length) := by
  constructor
  · intro h
    cases h with
    | badMss hlength => exact .inl ⟨rfl, hlength⟩
    | short hend hnop hshort => exact .inr ⟨hend, hnop, hshort⟩
  · rintro (⟨rfl, hlength⟩ | ⟨hend, hnop, hshort⟩)
    · exact .badMss hlength
    · exact .short hend hnop hshort

theorem isKindKnown_cases (h : isKindKnown kind = true) :
    kind = END ∨ kind = NOP ∨ kind = MSS ∨ kind = WINSCALE ∨ kind = SACKPERMITTED ∨
      kind = SACK ∨ kind = TS := by
  simpa [isKindKnown, or_assoc] using h

section

open Wire.TcpHeader

variable {length : UInt8}

/-! What each class does after the kind and the length. -/

theorem read_mss : (optionFor MSS).deserialize (MSS :: length :: rest) =
    if length ≠ 4 then .error .aborted
    else readNtohU16 rest >>= fun r => .ok (4, optionMSS r.1) := rfl

theorem read_winScale : (optionFor WINSCALE).deserialize (WINSCALE :: length :: rest) =
    if length ≠ 3 then .ok (0, optionWinScale 0)
    else readU8 rest >>= fun r => .ok (3, optionWinScale r.1) := rfl

theorem read_sackPermitted :
    (optionFor SACKPERMITTED).deserialize (SACKPERMITTED :: length :: rest) =
      .ok (if length ≠ 2 then 0 else 2, optionSackPermitted) := rfl

theorem sackCount_eq (length : UInt8) :
    (((length.toNat : Int) - 2).tdiv 8).toNat = (length.toNat - 2) / 8 := by
  rcases Nat.lt_or_ge length.toNat 2 with hlt | hle
  · generalize length.toNat = n at hlt
    match n, hlt with
    | 0, _ => rfl
    | 1, _ => rfl
  · rw [Int.tdiv_eq_ediv_of_nonneg (by omega)]
    omega

theorem read_sack : (optionFor SACK).deserialize (SACK :: length :: rest) =
    readBlocks ((length.toNat - 2) / 8) [] rest >>= fun sackList =>
      .ok ((optionSack sackList).serializedSize, optionSack sackList) := by
  have hread : (optionFor SACK).deserialize (SACK :: length :: rest) =
      readBlocks (((length.toNat : Int) - 2).tdiv 8).toNat [] rest >>= fun sackList =>
        .ok ((optionSack sackList).serializedSize, optionSack sackList) := rfl
  rw [hread, sackCount_eq]

theorem read_ts : (optionFor TS).deserialize (TS :: length :: rest) =
    if length ≠ 10 then .ok (0, optionTS 0 0)
    else readNtohU32 rest >>= fun r =>
      readNtohU32 r.2 >>= fun r' => .ok (10, optionTS r.1 r'.1) := rfl

theorem kind_ne (hknown : isKindKnown kind = false) {k : UInt8} (hk : isKindKnown k = true) :
    kind ≠ k := by
  rintro rfl
  rw [hknown] at hk
  cases hk

theorem read_unknown (hknown : isKindKnown kind = false) :
    (optionFor kind).deserialize (kind :: length :: rest) =
      if length.toNat < 2 ∨ 40 < length.toNat then .ok (0, optionUnknown kind length.toNat [])
      else read rest (length.toNat - 2) >>= fun r =>
        .ok (length.toNat, optionUnknown kind length.toNat r.1) := by
  rw [optionFor_unknown hknown]
  rfl

theorem returns_mss : Returns ((optionFor MSS).deserialize (MSS :: length :: rest)) ↔
    length = 4 ∧ neededLen MSS length ≤ rest.length + 2 := by
  have hneeded : neededLen MSS length = 4 := rfl
  rw [read_mss, hneeded]
  split
  · rename_i hlength
    exact iff_of_false (not_returns_error _) fun h => hlength h.1
  · rename_i hlength
    rw [not_not] at hlength
    rw [returns_bind]
    constructor
    · rintro ⟨r, hr, -⟩
      have hle := (readNtohU16_eq_ok.mp hr).1
      exact ⟨hlength, by omega⟩
    · rintro ⟨-, hle⟩
      exact ⟨_, readNtohU16_of (by omega), .ok _⟩

theorem returns_winScale : Returns ((optionFor WINSCALE).deserialize (WINSCALE :: length :: rest)) ↔
    neededLen WINSCALE length ≤ rest.length + 2 := by
  have hneeded : neededLen WINSCALE length = if length = 3 then 3 else 2 := rfl
  rw [read_winScale, hneeded]
  by_cases hlength : length = 3
  · rw [if_neg (not_not.mpr hlength), if_pos hlength]
    cases rest with
    | nil => exact iff_of_false (not_returns_error _) (by decide)
    | cons b rest =>
      refine iff_of_true (.ok _) ?_
      rw [List.length_cons]
      omega
  · rw [if_pos hlength, if_neg hlength]
    exact iff_of_true (.ok _) (Nat.le_add_left _ _)

theorem returns_sackPermitted :
    Returns ((optionFor SACKPERMITTED).deserialize (SACKPERMITTED :: length :: rest)) ↔
      neededLen SACKPERMITTED length ≤ rest.length + 2 := by
  refine iff_of_true ?_ ?_
  · exact .ok (if length ≠ 2 then 0 else 2, optionSackPermitted)
  · exact Nat.le_add_left _ _

theorem returns_sack : Returns ((optionFor SACK).deserialize (SACK :: length :: rest)) ↔
    neededLen SACK length ≤ rest.length + 2 := by
  have hneeded : neededLen SACK length = 2 + (length.toNat - 2) / 8 * 8 := rfl
  rw [read_sack, hneeded, returns_bind]
  constructor
  · rintro ⟨sackList, hblocks, -⟩
    have hle := returns_readBlocks.mp ⟨sackList, hblocks⟩
    omega
  · intro hle
    have hroom : (length.toNat - 2) / 8 * 8 ≤ rest.length := by omega
    obtain ⟨sackList, hblocks⟩ : Returns (readBlocks ((length.toNat - 2) / 8) [] rest) :=
      returns_readBlocks.mpr hroom
    exact ⟨sackList, hblocks, .ok _⟩

theorem returns_ts : Returns ((optionFor TS).deserialize (TS :: length :: rest)) ↔
    neededLen TS length ≤ rest.length + 2 := by
  have hneeded : neededLen TS length = if length = 10 then 10 else 2 := rfl
  rw [read_ts, hneeded]
  by_cases hlength : length = 10
  · rw [if_neg (not_not.mpr hlength), if_pos hlength, returns_bind]
    constructor
    · rintro ⟨r, hr, h⟩
      obtain ⟨hle, rfl⟩ := readNtohU32_eq_ok.mp hr
      obtain ⟨r', hr', -⟩ := returns_bind.mp h
      have hle' := (readNtohU32_eq_ok.mp hr').1
      rw [List.length_drop] at hle'
      omega
    · intro hle
      have hle' : 4 ≤ (rest.drop 4).length := by
        rw [List.length_drop]
        omega
      refine ⟨_, readNtohU32_of (by omega), ?_⟩
      exact returns_bind.mpr ⟨_, readNtohU32_of hle', .ok _⟩
  · rw [if_pos hlength, if_neg hlength]
    exact iff_of_true (.ok _) (Nat.le_add_left _ _)

theorem returns_unknown (hknown : isKindKnown kind = false) :
    Returns ((optionFor kind).deserialize (kind :: length :: rest)) ↔
      neededLen kind length ≤ rest.length + 2 := by
  have hneeded : neededLen kind length =
      if length.toNat < 2 ∨ 40 < length.toNat then 2 else length.toNat := by
    rw [neededLen, if_neg (kind_ne hknown rfl), if_neg (kind_ne hknown rfl),
      if_neg (kind_ne hknown rfl), if_neg (kind_ne hknown rfl), if_neg (kind_ne hknown rfl)]
  rw [read_unknown hknown, hneeded]
  by_cases hlength : length.toNat < 2 ∨ 40 < length.toNat
  · rw [if_pos hlength, if_pos hlength]
    exact iff_of_true (.ok _) (Nat.le_add_left _ _)
  · rw [if_neg hlength, if_neg hlength, returns_bind]
    constructor
    · rintro ⟨r, hr, -⟩
      have hle := (read_eq_ok.mp hr).1
      omega
    · intro hle
      exact ⟨_, read_of (by omega), .ok _⟩

theorem not_unreadable_cons (hend : kind ≠ END) (hnop : kind ≠ NOP) (hmss : kind ≠ MSS) :
    ¬Unreadable (kind :: length :: rest) ↔ neededLen kind length ≤ rest.length + 2 := by
  rw [unreadable_cons, ← Nat.not_lt]
  apply not_congr
  constructor
  · rintro (⟨heq, -⟩ | ⟨-, -, hshort⟩)
    · exact absurd heq hmss
    · exact hshort
  · intro hshort
    exact .inr ⟨hend, hnop, hshort⟩

theorem returns_deserialize_cons :
    Returns ((optionFor kind).deserialize (kind :: length :: rest)) ↔
      ¬Unreadable (kind :: length :: rest) := by
  cases hknown : isKindKnown kind with
  | true =>
    rcases isKindKnown_cases hknown with rfl | rfl | rfl | rfl | rfl | rfl | rfl
    · refine iff_of_true (.ok _) ?_
      intro h
      cases h with
      | short hend _ _ => exact hend rfl
    · refine iff_of_true (.ok _) ?_
      intro h
      cases h with
      | short _ hnop _ => exact hnop rfl
    · rw [returns_mss, unreadable_cons, ← Nat.not_lt]
      constructor
      · rintro ⟨heq, hroom⟩ (⟨-, hne⟩ | ⟨-, -, hshort⟩)
        · exact hne heq
        · exact hroom hshort
      · intro hnot
        refine ⟨?_, fun hshort => hnot (.inr ⟨by decide, by decide, hshort⟩)⟩
        by_contra hne
        exact hnot (.inl ⟨rfl, hne⟩)
    · rw [returns_winScale, not_unreadable_cons (by decide) (by decide) (by decide)]
    · rw [returns_sackPermitted, not_unreadable_cons (by decide) (by decide) (by decide)]
    · rw [returns_sack, not_unreadable_cons (by decide) (by decide) (by decide)]
    · rw [returns_ts, not_unreadable_cons (by decide) (by decide) (by decide)]
  | false =>
    rw [returns_unknown hknown, not_unreadable_cons (kind_ne hknown rfl) (kind_ne hknown rfl)
      (kind_ne hknown rfl)]

theorem returns_deserialize :
    Returns ((optionFor kind).deserialize (kind :: rest)) ↔ ¬Unreadable (kind :: rest) := by
  cases rest with
  | cons length rest => exact returns_deserialize_cons
  | nil =>
    cases hknown : isKindKnown kind with
    | true =>
      rcases isKindKnown_cases hknown with rfl | rfl | rfl | rfl | rfl | rfl | rfl
      · refine iff_of_true (.ok _) ?_
        rintro (_ | ⟨hend, -⟩)
        exact hend rfl
      · refine iff_of_true (.ok _) ?_
        rintro (_ | ⟨-, hnop⟩)
        exact hnop rfl
      all_goals
        exact iff_of_false (not_returns_error _)
          (not_not.mpr (.noLength (by decide) (by decide)))
    | false =>
      have hread : (optionFor kind).deserialize [kind] = .error .badIterator := by
        rw [optionFor_unknown hknown]
        rfl
      rw [hread]
      refine iff_of_false (not_returns_error _) (not_not.mpr (.noLength ?_ ?_))
      · rintro rfl
        cases hknown
      · rintro rfl
        cases hknown

end

end Ns3.Tcp.TcpOption
