/-
  The option loop of TcpHeader::Deserialize.

  Each turn of the loop moves on by the size of an option.  An option of a kind that is
  not known has the size that its length byte says, and 0 is taken for one.
-/
import Ns3.Internet.Tcp.TcpHeader

namespace Ns3.Tcp

open BufferIterator

namespace TcpOption

variable {i : List UInt8} {size : Nat} {op op' : TcpOption} {kind : UInt8}

theorem ends_readBlocks (sackCount : Nat) (sackList : List SackBlock) (i : List UInt8) :
    Ends (readBlocks sackCount sackList i) := by
  induction sackCount generalizing sackList i with
  | zero => exact .ok _
  | succ sackCount ih =>
    rw [readBlocks]
    exact (ends_readNtohU32 _).bind fun _ _ => (ends_readNtohU32 _).bind fun _ _ => ih _ _

theorem ends_deserialize (op : TcpOption) (start : List UInt8) : Ends (op.deserialize start) := by
  rw [deserialize]
  apply (ends_readU8 _).bind
  intro read _
  cases op with
  | optionEnd => exact .ok _
  | optionNOP => exact .ok _
  | optionMSS mss =>
    dsimp only
    split
    · exact .ok _
    · apply (ends_readU8 _).bind
      intro size _
      split
      · exact nofun
      · exact (ends_readNtohU16 _).bind fun _ _ => .ok _
  | optionWinScale scale =>
    dsimp only
    split
    · exact .ok _
    · apply (ends_readU8 _).bind
      intro size _
      split
      · exact .ok _
      · exact (ends_readU8 _).bind fun _ _ => .ok _
  | optionSackPermitted =>
    dsimp only
    split
    · exact .ok _
    · exact (ends_readU8 _).bind fun _ _ => .ok _
  | optionSack sackList =>
    dsimp only
    split
    · exact .ok _
    · exact (ends_readU8 _).bind fun _ _ => (ends_readBlocks _ _ _).bind fun _ _ => .ok _
  | optionTS timestamp echo =>
    dsimp only
    split
    · exact .ok _
    · apply (ends_readU8 _).bind
      intro size _
      split
      · exact .ok _
      · exact (ends_readNtohU32 _).bind fun _ _ => (ends_readNtohU32 _).bind fun _ _ => .ok _
  | optionUnknown kind size content =>
    apply (ends_readU8 _).bind
    intro size _
    dsimp only
    split
    · exact .ok _
    · exact (ends_read _ _).bind fun _ _ => .ok _

/-- An object of a class that is not `TcpOptionUnknown`. -/
def Known : TcpOption → Prop
  | optionUnknown _ _ _ => False
  | _ => True

theorem Known.serializedSize_pos (h : op.Known) : 0 < op.serializedSize := by
  cases op with
  | optionEnd => exact Nat.one_pos
  | optionNOP => exact Nat.one_pos
  | optionMSS mss => exact Nat.succ_pos 3
  | optionWinScale scale => exact Nat.succ_pos 2
  | optionSackPermitted => exact Nat.two_pos
  | optionSack sackList => exact Nat.add_pos_left Nat.two_pos _
  | optionTS timestamp echo => exact Nat.succ_pos 9
  | optionUnknown kind size content => exact h.elim

theorem Known.deserialize (hop : op.Known) (h : op.deserialize i = .ok (size, op')) :
    op'.Known ∧ op'.kind = op.kind := by
  rw [TcpOption.deserialize] at h
  obtain ⟨read, -, h⟩ := bind_eq_ok.mp h
  cases op with
  | optionEnd => exact (pair_of_ok h).2 ▸ ⟨trivial, rfl⟩
  | optionNOP => exact (pair_of_ok h).2 ▸ ⟨trivial, rfl⟩
  | optionMSS mss =>
    dsimp only at h
    split at h
    · exact (pair_of_ok h).2 ▸ ⟨trivial, rfl⟩
    · obtain ⟨length, -, h⟩ := bind_eq_ok.mp h
      split at h
      · cases h
      · obtain ⟨mss', -, h⟩ := bind_eq_ok.mp h
        exact (pair_of_ok h).2 ▸ ⟨trivial, rfl⟩
  | optionWinScale scale =>
    dsimp only at h
    split at h
    · exact (pair_of_ok h).2 ▸ ⟨trivial, rfl⟩
    · obtain ⟨length, -, h⟩ := bind_eq_ok.mp h
      split at h
      · exact (pair_of_ok h).2 ▸ ⟨trivial, rfl⟩
      · obtain ⟨scale', -, h⟩ := bind_eq_ok.mp h
        exact (pair_of_ok h).2 ▸ ⟨trivial, rfl⟩
  | optionSackPermitted =>
    dsimp only at h
    split at h
    · exact (pair_of_ok h).2 ▸ ⟨trivial, rfl⟩
    · obtain ⟨length, -, h⟩ := bind_eq_ok.mp h
      exact (pair_of_ok h).2 ▸ ⟨trivial, rfl⟩
  | optionSack sackList =>
    dsimp only at h
    split at h
    · exact (pair_of_ok h).2 ▸ ⟨trivial, rfl⟩
    · obtain ⟨length, -, h⟩ := bind_eq_ok.mp h
      obtain ⟨sackList', -, h⟩ := bind_eq_ok.mp h
      exact (pair_of_ok h).2 ▸ ⟨trivial, rfl⟩
  | optionTS timestamp echo =>
    dsimp only at h
    split at h
    · exact (pair_of_ok h).2 ▸ ⟨trivial, rfl⟩
    · obtain ⟨length, -, h⟩ := bind_eq_ok.mp h
      split at h
      · exact (pair_of_ok h).2 ▸ ⟨trivial, rfl⟩
      · obtain ⟨timestamp', -, h⟩ := bind_eq_ok.mp h
        obtain ⟨echo', -, h⟩ := bind_eq_ok.mp h
        exact (pair_of_ok h).2 ▸ ⟨trivial, rfl⟩
  | optionUnknown kind size content => exact hop.elim

theorem known_createOption (h : isKindKnown kind = true) : (createOption kind).Known := by
  simp only [isKindKnown, Bool.or_eq_true, beq_iff_eq] at h
  rcases h with (((((rfl | rfl) | rfl) | rfl) | rfl) | rfl) | rfl
  all_goals exact trivial

theorem deserialize_unknown {content : List UInt8} {size' : Nat}
    (h : (optionUnknown kind size' content).deserialize i = .ok (size, op)) :
    ∃ readKind length rest bytes, i = readKind :: length :: rest ∧
      op = optionUnknown readKind length.toNat bytes := by
  rw [deserialize] at h
  obtain ⟨⟨readKind, i₁⟩, hkind, h⟩ := bind_eq_ok.mp h
  dsimp only at h
  obtain ⟨⟨length, i₂⟩, hlength, h⟩ := bind_eq_ok.mp h
  cases i with
  | nil => cases hkind
  | cons b i =>
    obtain ⟨rfl, rfl⟩ := pair_of_ok hkind
    cases i with
    | nil => cases hlength
    | cons b' i =>
      obtain ⟨rfl, rfl⟩ := pair_of_ok hlength
      dsimp only at h
      split at h
      · exact ⟨b, b', i, content, rfl, (pair_of_ok h).2.symm⟩
      · obtain ⟨⟨bytes, i₃⟩, -, h⟩ := bind_eq_ok.mp h
        exact ⟨b, b', i, bytes, rfl, (pair_of_ok h).2.symm⟩

end TcpOption

namespace Wire.TcpHeader

open TcpOption

variable {h : TcpHeader} {i rest : List UInt8} {kind : UInt8} {len size fuel : Nat}
  {op : TcpOption} {done : OptionsRead}

/-! ## The option that never ends -/

/-- In the `len` bytes that are read as options, an option of unknown kind and length 0 comes after
options that are read. -/
inductive MeetsZeroLength : Nat → List UInt8 → Prop where
  | here {len : Nat} {kind : UInt8} {rest : List UInt8} (hlen : 0 < len)
      (hkind : isKindKnown kind = false) : MeetsZeroLength len (kind :: 0 :: rest)
  | later {len size : Nat} {kind : UInt8} {rest : List UInt8} {op : TcpOption} (hlen : 0 < len)
      (hread : (optionFor kind).deserialize (kind :: rest) = .ok (size, op))
      (hsize : size = op.serializedSize) (hle : size ≤ len) (hroom : size ≤ (kind :: rest).length)
      (hend : op.kind ≠ END) (hmeets : MeetsZeroLength (len - size) ((kind :: rest).drop size)) :
      MeetsZeroLength len (kind :: rest)

theorem optionFor_unknown (hkind : isKindKnown kind = false) :
    optionFor kind = optionUnknown 255 0 [] := by
  rw [optionFor, hkind]
  rfl

theorem deserialize_zeroLength (hkind : isKindKnown kind = false) :
    (optionFor kind).deserialize (kind :: 0 :: rest) = .ok (0, optionUnknown kind 0 []) := by
  rw [optionFor_unknown hkind]
  rfl

theorem zeroLength_of_size (hread : (optionFor kind).deserialize (kind :: rest) = .ok (size, op))
    (hzero : op.serializedSize = 0) :
    isKindKnown kind = false ∧ ∃ rest', kind :: rest = kind :: 0 :: rest' := by
  cases hkind : isKindKnown kind with
  | true =>
    rw [optionFor, hkind, if_pos rfl] at hread
    have hpos := ((known_createOption hkind).deserialize hread).1.serializedSize_pos
    exact absurd hzero (Nat.ne_of_gt hpos)
  | false =>
    rw [optionFor_unknown hkind] at hread
    obtain ⟨readKind, length, rest', bytes, hi, rfl⟩ := deserialize_unknown hread
    have hlength : length = 0 := UInt8.toNat_inj.mp hzero
    obtain ⟨rfl, rfl⟩ := List.cons.inj hi
    exact ⟨rfl, rest', by rw [hlength]⟩

def OptionsRead.push (done : OptionsRead) (op : TcpOption) : OptionsRead :=
  { options := done.options ++ [op], optionsLen := (done.optionsLen + op.serializedSize) % 2 ^ 8 }

theorem optionLoop_read (fuel : Nat) (done : OptionsRead) (hlen : 0 < len)
    (hread : (optionFor kind).deserialize (kind :: rest) = .ok (size, op))
    (hsize : size = op.serializedSize) (hle : size ≤ len) (hroom : size ≤ (kind :: rest).length)
    (hend : op.kind ≠ END) :
    optionLoop (fuel + 1) len (kind :: rest) done =
      optionLoop fuel (len - size) ((kind :: rest).drop size) (done.push op) := by
  rw [optionLoop, if_neg (Nat.ne_of_gt hlen), peekU8_cons, ok_bind, hread, ok_bind]
  dsimp only
  rw [if_neg (not_not.mpr hsize), if_pos hle, next, nsAssert_of hroom]
  dsimp only [ok_bind, pure, Except.pure]
  rw [if_neg hend, OptionsRead.push, hsize]

theorem MeetsZeroLength.optionLoop (hmeets : MeetsZeroLength len i) :
    TcpHeader.optionLoop fuel len i done = .error .noProgress := by
  induction hmeets generalizing fuel done with
  | @here len kind rest hlen hkind =>
    induction fuel generalizing done with
    | zero => rfl
    | succ fuel ih =>
      have hend : (optionUnknown kind 0 []).kind ≠ END := by
        rintro heq
        have hkind' : kind = END := heq
        rw [hkind'] at hkind
        cases hkind
      rw [optionLoop_read fuel done hlen (deserialize_zeroLength hkind) rfl (Nat.zero_le _)
        (Nat.zero_le _) hend]
      exact ih
  | later hlen hread hsize hle hroom hend _ ih =>
    cases fuel with
    | zero => rfl
    | succ fuel =>
      rw [optionLoop_read fuel done hlen hread hsize hle hroom hend]
      exact ih

/-- Without an option of length zero each turn consumes a byte. -/
theorem ends_optionLoop (hnot : ¬MeetsZeroLength len i) (hfuel : len < fuel) :
    Ends (optionLoop fuel len i done) := by
  induction fuel generalizing len i done with
  | zero => cases hfuel
  | succ fuel ih =>
    rw [optionLoop]
    split
    · exact .ok _
    · rename_i hlen
      have hpos : 0 < len := Nat.pos_of_ne_zero hlen
      apply (ends_peekU8 i).bind
      intro kind hkind
      cases i with
      | nil => cases hkind
      | cons b rest =>
        cases hkind
        apply (ends_deserialize _ _).bind
        rintro ⟨size, op⟩ hread
        dsimp only
        split
        · exact .ok _
        · rename_i hsize
          rw [not_not] at hsize
          split
          · rename_i hle
            apply (ends_next _ _).bind
            intro i' hnext
            rw [next] at hnext
            obtain ⟨_, hroom, hdrop⟩ := bind_eq_ok.mp hnext
            rw [nsAssert_eq_ok, decide_eq_true_iff] at hroom
            cases hdrop
            split
            · exact (ends_next _ _).bind fun _ _ => .ok _
            · rename_i hend
              have hmore : 0 < size := by
                by_contra hzero
                obtain ⟨hunknown, rest', hi⟩ := zeroLength_of_size hread (by omega)
                rw [hi] at hnot
                exact hnot (.here hpos hunknown)
              refine ih (fun hmeets => hnot ?_) (by omega)
              exact .later hpos hread hsize hle hroom hend hmeets
          · exact .ok _

/-! ## The whole header -/

def optionArea (start : List UInt8) : Nat := announcedLen (start.getD 12 0 / 16)

/-- The option area is read, and holds the option that never ends. -/
def LoopsForever (start : List UInt8) : Prop :=
  20 ≤ start.length ∧ optionArea start ≤ maxOptionsLen ∧
    MeetsZeroLength (optionArea start) (start.drop 20)

variable {start : List UInt8}

theorem length_of_field (hlen : 14 ≤ start.length) :
    UInt8.ofNat ((UInt16.ofNat (Lib.ofBytes ((start.drop 12).take 2))).toNat / 2 ^ 12) =
      start.getD 12 0 / 16 := by
  obtain ⟨b, b', rest, hdrop⟩ : ∃ b b' rest, start.drop 12 = b :: b' :: rest := by
    have hlen' : 2 ≤ (start.drop 12).length := by rw [List.length_drop]; omega
    match hcase : start.drop 12 with
    | [] => rw [hcase] at hlen'; exact absurd hlen' (by decide)
    | [b] => rw [hcase] at hlen'; exact absurd hlen' (Nat.not_succ_le_self 1)
    | b :: b' :: rest => exact ⟨b, b', rest, rfl⟩
  have hget : start.getD 12 0 = b := by
    rw [List.getD_eq_getElem?_getD, ← List.head?_drop, hdrop]
    rfl
  have hvalue : Lib.ofBytes [b, b'] = b.toNat * 256 + b'.toNat := by
    rw [Lib.ofBytes_cons, Lib.ofBytes_cons]
    simp [Lib.ofBytes, Lib.ofBytesFrom]
  have hb := b.toNat_lt
  have hb' := b'.toNat_lt
  rw [hget, hdrop, List.take_succ_cons, List.take_succ_cons, List.take_zero, hvalue]
  apply UInt8.toNat_inj.mp
  rw [UInt8.toNat_div, UInt8.toNat_ofNat', UInt16.toNat_ofNat']
  change _ = b.toNat / 16
  omega

def fixedFields (h : TcpHeader) (start : List UInt8) : TcpHeader :=
  { h with
    optionsLen := 0
    sourcePort := UInt16.ofNat (Lib.ofBytes (start.take 2))
    destinationPort := UInt16.ofNat (Lib.ofBytes ((start.drop 2).take 2))
    sequenceNumber := .ofNat (UInt32.ofNat (Lib.ofBytes ((start.drop 4).take 4))).toNat
    ackNumber := .ofNat (UInt32.ofNat (Lib.ofBytes ((start.drop 8).take 4))).toNat
    flags := UInt8.ofNat (UInt16.ofNat (Lib.ofBytes ((start.drop 12).take 2))).toNat
    length := start.getD 12 0 / 16
    windowSize := UInt16.ofNat (Lib.ofBytes ((start.drop 14).take 2))
    urgentPointer := UInt16.ofNat (Lib.ofBytes ((start.drop 18).take 2))
    options := [] }

/-- The end of `Deserialize`, after the option loop. -/
def finish (h : TcpHeader) (start : List UInt8) (done : OptionsRead) : TcpHeader :=
  let h := { h with options := done.options, optionsLen := done.optionsLen }
  if h.calcChecksum then
    { h with
      goodChecksum := decide (calculateIpChecksum start start.length
        (h.calculateHeaderChecksum start.length) = 0) }
  else h

theorem deserialize_eq (h : TcpHeader) (hlen : 20 ≤ start.length) (fuel : Nat) :
    h.deserialize fuel start =
      if maxOptionsLen < optionArea start then .ok (h.fixedFields start, 20)
      else optionLoop fuel (optionArea start) (start.drop 20) {} >>= fun done =>
        .ok ((h.fixedFields start).finish start done,
          ((h.fixedFields start).finish start done).serializedSize) := by
  have hdrop : ∀ n k, n + k ≤ 20 → k ≤ (start.drop n).length := by
    intro n k hle
    rw [List.length_drop]
    omega
  rw [deserialize, readNtohU16_of (show 2 ≤ start.length by omega), ok_bind]
  dsimp only
  rw [readNtohU16_of (hdrop 2 2 (by omega)), ok_bind]
  dsimp only
  rw [List.drop_drop, readNtohU32_of (hdrop 4 4 (by omega)), ok_bind]
  dsimp only
  rw [List.drop_drop, readNtohU32_of (hdrop 8 4 (by omega)), ok_bind]
  dsimp only
  rw [List.drop_drop, readNtohU16_of (hdrop 12 2 (by omega)), ok_bind]
  dsimp only
  rw [List.drop_drop, readNtohU16_of (hdrop 14 2 (by omega)), ok_bind]
  dsimp only
  rw [List.drop_drop, next_of (hdrop 16 2 (by omega)), ok_bind]
  rw [List.drop_drop, readNtohU16_of (hdrop 18 2 (by omega)), ok_bind]
  dsimp only
  rw [List.drop_drop, length_of_field (by omega)]
  rfl

/-- **The option loop ends** on every byte string but those whose option area holds an option
of unknown kind and length 0. -/
theorem option_loop_ends_iff (h : TcpHeader) (start : List UInt8) (hlen : 20 ≤ start.length) :
    (∃ fuel, Ends (h.deserialize fuel start)) ↔ ¬LoopsForever start := by
  constructor
  · rintro ⟨fuel, hends⟩ ⟨-, harea, hmeets⟩
    rw [deserialize_eq h hlen, if_neg (Nat.not_lt.mpr harea), hmeets.optionLoop] at hends
    exact hends rfl
  · intro hnot
    refine ⟨maxOptionsLen + 1, ?_⟩
    rw [deserialize_eq h hlen]
    split
    · exact .ok _
    · rename_i harea
      rw [Nat.not_lt] at harea
      refine (ends_optionLoop ?_ (Nat.lt_succ_of_le harea)).bind fun _ _ => .ok _
      exact fun hmeets => hnot ⟨hlen, harea, hmeets⟩

def oneWord (options : List UInt8) : List UInt8 :=
  [0, 80, 0, 80, 0, 0, 0, 1, 0, 0, 0, 1, 0x60, 16, 1, 0, 0, 0, 0, 0] ++ options

/-- A NOP, an option of unknown kind without data, and padding. -/
theorem option_loop_ends_unknown :
    ∃ fuel, Ends (({} : TcpHeader).deserialize fuel (oneWord [1, 9, 2, 0])) := by
  refine (option_loop_ends_iff {} _ (by decide)).mpr ?_
  rintro ⟨-, -, hmeets⟩
  have harea : optionArea (oneWord [1, 9, 2, 0]) = 4 := by decide
  rw [harea] at hmeets
  cases hmeets with
  | later _ hread _ _ _ _ hmeets =>
    cases hread
    cases hmeets with
    | later _ hread _ _ _ _ hmeets =>
      cases hread
      cases hmeets with
      | later _ hread _ _ _ hend _ =>
        cases hread
        exact hend rfl

/-- An option of unknown kind and length 0: `Deserialize` never returns. -/
theorem option_loop_forever :
    20 ≤ (oneWord [9, 0, 0, 0]).length ∧ optionArea (oneWord [9, 0, 0, 0]) = 4 ∧
      ∀ fuel, ({} : TcpHeader).deserialize fuel (oneWord [9, 0, 0, 0]) = .error .noProgress := by
  refine ⟨by decide, by decide, fun fuel => ?_⟩
  have harea : optionArea (oneWord [9, 0, 0, 0]) = 4 := by decide
  have hmeets : MeetsZeroLength 4 ((oneWord [9, 0, 0, 0]).drop 20) := .here (by decide) (by decide)
  rw [deserialize_eq _ (by decide), harea, if_neg (by decide), hmeets.optionLoop]
  rfl

end Wire.TcpHeader

end Ns3.Tcp
