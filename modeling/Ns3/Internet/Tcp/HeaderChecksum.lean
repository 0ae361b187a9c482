/-
  Which flipped bits the TCP checksum detects.

  The checksum of a segment of fewer than 2^16 bytes covers all of it, and no single flip
  keeps the sum.  Deserialize gets as far as the checksum unless the flip leaves a data
  offset below 5, or an option that cannot be read.
-/
import Ns3.Internet.Tcp.HeaderLength
import Ns3.Internet.Tcp.HeaderRoundTrip

namespace Ns3.Tcp

open BufferIterator Lib

namespace TcpOption

open Wire.TcpHeader

variable {kind length : UInt8} {rest : List UInt8} {size : Nat} {op : TcpOption}

theorem wellFormedSize_le (hone : ¬(kind = END ∨ kind = NOP))
    (h : wellFormedSize kind length = some size) : size ≤ neededLen kind length := by
  rw [wellFormedSize, if_neg hone] at h
  rw [neededLen]
  grind

theorem size_le_of_read (h : (optionFor kind).deserialize (kind :: rest) = .ok (size, op)) :
    size ≤ (kind :: rest).length := by
  have hread := readAs h
  have hreadable := returns_deserialize.mp ⟨_, h⟩
  cases hwell : wellFormedSize kind (rest.headD 0) with
  | none =>
    rw [hread.malformed hwell]
    exact Nat.zero_le _
  | some k =>
    obtain ⟨rfl, -⟩ := hread.sized k hwell
    rw [List.length_cons]
    by_cases hone : kind = END ∨ kind = NOP
    · rw [wellFormedSize, if_pos hone] at hwell
      cases hwell
      exact Nat.le_add_left _ _
    · obtain ⟨hend, hnop⟩ := not_or.mp hone
      cases rest with
      | nil => exact absurd (.noLength hend hnop) hreadable
      | cons length rest =>
        have hle := wellFormedSize_le hone hwell
        have hroom : neededLen kind length ≤ rest.length + 2 := by
          by_contra hshort
          exact hreadable (.short hend hnop (Nat.lt_of_not_le hshort))
        exact hle.trans hroom

end TcpOption

namespace Wire.TcpHeader

open TcpOption

variable {h : TcpHeader} {i rest : List UInt8} {kind : UInt8} {len size fuel : Nat}
  {op : TcpOption} {done : OptionsRead}

/-! ## Option areas that are not read to their end -/

/-- In the `len` bytes that are read as options the loop comes to something at which it does not go
on: an unknown option of length 0, bytes that cannot be read, or an END with too much padding. -/
inductive MeetsStuck : Nat → List UInt8 → Prop where
  | zeroLength {len : Nat} {kind : UInt8} {rest : List UInt8} (hlen : 0 < len)
      (hkind : isKindKnown kind = false) : MeetsStuck len (kind :: 0 :: rest)
  | unreadable {len : Nat} {i : List UInt8} (hlen : 0 < len) (h : Unreadable i) : MeetsStuck len i
  | padding {len : Nat} {rest : List UInt8} (hshort : rest.length + 1 < len) :
      MeetsStuck len (END :: rest)
  | later {len size : Nat} {kind : UInt8} {rest : List UInt8} {op : TcpOption} (hlen : 0 < len)
      (hread : (optionFor kind).deserialize (kind :: rest) = .ok (size, op))
      (hsize : size = op.serializedSize) (hle : size ≤ len) (hend : op.kind ≠ END)
      (hmeets : MeetsStuck (len - size) ((kind :: rest).drop size)) : MeetsStuck len (kind :: rest)

theorem MeetsStuck.optionLoop (hmeets : MeetsStuck len i) :
    ¬Returns (TcpHeader.optionLoop fuel len i done) := by
  induction hmeets generalizing fuel done with
  | zeroLength hlen hkind =>
    rw [(MeetsZeroLength.here hlen hkind).optionLoop]
    exact not_returns_error _
  | @unreadable len i hlen hnot =>
    cases fuel with
    | zero => exact not_returns_error _
    | succ fuel =>
      rw [TcpHeader.optionLoop, if_neg (Nat.ne_of_gt hlen)]
      cases i with
      | nil => exact not_returns_error _
      | cons kind rest =>
        rw [peekU8_cons, ok_bind, returns_bind]
        rintro ⟨r, hread, -⟩
        exact returns_deserialize.mp ⟨r, hread⟩ hnot
  | @padding len rest hshort =>
    cases fuel with
    | zero => exact not_returns_error _
    | succ fuel =>
      have hread : (optionFor END).deserialize (END :: rest) = .ok (1, .optionEnd) := rfl
      have hkind : TcpOption.optionEnd.kind = END := rfl
      have hfirst : next (END :: rest) 1 = .ok rest := next_of (Nat.le_add_left _ _)
      rw [TcpHeader.optionLoop, if_neg (by omega), peekU8_cons, ok_bind, hread, ok_bind]
      dsimp only
      rw [if_neg (by decide), if_pos (by omega), hfirst, ok_bind, if_pos hkind, returns_bind]
      rintro ⟨i', hnext, -⟩
      rw [next] at hnext
      obtain ⟨_, hroom, -⟩ := bind_eq_ok.mp hnext
      rw [nsAssert_eq_ok, decide_eq_true_iff] at hroom
      omega
  | later hlen hread hsize hle hend _ ih =>
    cases fuel with
    | zero => exact not_returns_error _
    | succ fuel =>
      rw [optionLoop_read fuel done hlen hread hsize hle (size_le_of_read hread) hend]
      exact ih

theorem kind_of_end (hread : (optionFor kind).deserialize (kind :: rest) = .ok (size, op))
    (hend : op.kind = END) : kind = END ∧ op.serializedSize = 1 := by
  have hkind : kind = END := (readAs hread).kind_eq.symm.trans hend
  subst hkind
  exact ⟨rfl, ((readAs hread).sized 1 rfl).2⟩

theorem returns_optionLoop (done : OptionsRead) (hnot : ¬MeetsStuck len i) (hfuel : len < fuel) :
    Returns (optionLoop fuel len i done) := by
  induction fuel generalizing len i done with
  | zero => cases hfuel
  | succ fuel ih =>
    rw [optionLoop]
    split
    · exact .ok _
    · rename_i hlen
      have hpos : 0 < len := Nat.pos_of_ne_zero hlen
      cases i with
      | nil => exact absurd (.unreadable hpos .noKind) hnot
      | cons kind rest =>
        obtain ⟨⟨size, op⟩, hread⟩ :=
          returns_deserialize.mpr fun hun => hnot (.unreadable hpos hun)
        have hroom := size_le_of_read hread
        rw [peekU8_cons, ok_bind, hread, ok_bind]
        dsimp only
        split
        · exact .ok _
        · rename_i hsize
          rw [not_not] at hsize
          split
          · rename_i hle
            rw [next_of hroom, ok_bind]
            split
            · rename_i hend
              obtain ⟨rfl, hone⟩ := kind_of_end hread hend
              obtain rfl : size = 1 := hsize.trans hone
              have hpad : len - 1 ≤ ((END :: rest).drop 1).length := by
                by_contra hshort
                rw [List.drop_one, List.tail_cons] at hshort
                exact hnot (.padding (by omega))
              rw [next_of hpad, ok_bind]
              exact .ok _
            · rename_i hend
              have hmore : 0 < size := by
                by_contra hzero
                obtain ⟨hunknown, rest', hi⟩ := zeroLength_of_size hread (by omega)
                rw [hi] at hnot
                exact hnot (.zeroLength hpos hunknown)
              refine ih _ (fun hmeets => hnot ?_) (by omega)
              exact .later hpos hread hsize hle hend hmeets
          · exact .ok _

/-! ## The sum of a segment -/

variable {bytes : List UInt8}

theorem calculateIpChecksum_eq {initial : Nat} (hlen : bytes.length < 2 ^ 16)
    (hinitial : initial ≤ 65535) :
    calculateIpChecksum bytes bytes.length initial = 65535 - foldSum (initial + wordSum bytes) := by
  have hle := wordSum_le bytes
  have hhalf : (bytes.length + 1) / 2 * 65535 ≤ 32768 * 65535 :=
    Nat.mul_le_mul_right _ (by omega)
  rw [calculateIpChecksum, Nat.mod_eq_of_lt hlen, List.take_length, Nat.mod_eq_of_lt (by omega)]
  rfl

theorem calculateHeaderChecksum_le (h : TcpHeader) (size : Nat) :
    h.calculateHeaderChecksum size ≤ 65535 := Nat.sub_le _ _

theorem calculateIpChecksum_eq_zero {initial : Nat} (hlen : bytes.length < 2 ^ 16)
    (hinitial : initial ≤ 65535) :
    calculateIpChecksum bytes bytes.length initial = 0 ↔
      foldSum (initial + wordSum bytes) = 65535 := by
  have hlt := foldSum_lt (initial + wordSum bytes)
  rw [calculateIpChecksum_eq hlen hinitial]
  omega

theorem wordSum_writeFields (h : TcpHeader) (b b' : UInt8) (rest : List UInt8) :
    wordSum (h.writeFields [b, b'] ++ rest) =
      wordSum (h.writeFields [0, 0] ++ rest) + (b'.toNat * 256 + b.toNat) := by
  obtain ⟨front, hfront, hsplit⟩ : ∃ front : List UInt8, front.length % 2 = 0 ∧
      ∀ checksum, h.writeFields checksum = front ++ checksum ++ writeHtonU16 h.urgentPointer := by
    refine ⟨_, ?_, fun checksum => rfl⟩
    simp only [List.length_append, length_writeHtonU16, length_writeHtonU32]
  have hwords : ∀ b b' : UInt8, wordSum (h.writeFields [b, b'] ++ rest) =
      wordSum front +
        (b'.toNat * 256 + b.toNat + wordSum (writeHtonU16 h.urgentPointer ++ rest)) := by
    intro b b'
    rw [hsplit, List.append_assoc, List.append_assoc, wordSum_append hfront]
    rfl
  have hzero : (0 : UInt8).toNat = 0 := rfl
  rw [hwords, hwords, hzero]
  omega

/-- A segment with its own checksum sums to zero. -/
theorem calculateIpChecksum_serialize (h : TcpHeader) (payload : List UInt8)
    (hcalc : h.calcChecksum = true) (hlen : (h.serialize payload).length < 2 ^ 16) :
    calculateIpChecksum (h.serialize payload) (h.serialize payload).length
      (h.calculateHeaderChecksum (h.serialize payload).length) = 0 := by
  have hsame : (h.writeUnchecked payload).length = (h.serialize payload).length := by
    have hfields := length_writeFields h (h.length_checksumBytes payload)
    have hzeros := length_writeFields h (show [(0 : UInt8), 0].length = 2 from rfl)
    rw [serialize_eq, writeUnchecked, List.append_assoc]
    simp only [List.length_append, hfields, hzeros]
  have hinitial := h.calculateHeaderChecksum_le (h.serialize payload).length
  have hlt := foldSum_lt (h.calculateHeaderChecksum (h.serialize payload).length +
    wordSum (h.writeUnchecked payload))
  have hshort : (h.writeUnchecked payload).length < 2 ^ 16 := by
    rw [hsame]
    exact hlen
  have hchecksum := calculateIpChecksum_eq hshort hinitial
  rw [hsame] at hchecksum
  apply (calculateIpChecksum_eq_zero hlen hinitial).mpr
  generalize hsum : h.calculateHeaderChecksum (h.serialize payload).length = initial at *
  have hwords : wordSum (h.serialize payload) = wordSum (h.writeUnchecked payload) +
      (65535 - foldSum (initial + wordSum (h.writeUnchecked payload))) := by
    rw [serialize_eq, checksumBytes, if_pos hcalc]
    dsimp only
    rw [hsame, hsum, hchecksum, wordSum_writeFields, writeUnchecked, List.append_assoc,
      UInt8.toNat_ofNat', UInt8.toNat_ofNat']
    omega
  rw [hwords, ← Nat.add_assoc]
  exact foldSum_complement _

theorem calculateIpChecksum_flip {initial p : Nat} (k : Fin 8) (hlen : bytes.length < 2 ^ 16)
    (hinitial : initial ≤ 65535) (hp : p < bytes.length)
    (hzero : calculateIpChecksum bytes bytes.length initial = 0) :
    calculateIpChecksum (flipBit bytes p k) bytes.length initial ≠ 0 := by
  obtain ⟨j, hj, hsum⟩ := wordSum_flipBit k hp
  have hones := (calculateIpChecksum_eq_zero hlen hinitial).mp hzero
  have hlen' : (flipBit bytes p k).length < 2 ^ 16 := by
    rw [length_flipBit]
    exact hlen
  intro hzero'
  rw [← length_flipBit bytes p k] at hzero'
  have hones' := (calculateIpChecksum_eq_zero hlen' hinitial).mp hzero'
  have hsum' : initial + wordSum (flipBit bytes p k) = initial + wordSum bytes + 2 ^ j ∨
      initial + wordSum (flipBit bytes p k) + 2 ^ j = initial + wordSum bytes := by omega
  exact foldSum_flip hj hsum' hones hones'

/-! ## What the receiver sees -/

def ReadsChecksum (receiver : TcpHeader) (start : List UInt8) (ok : Bool) : Prop :=
  ∃ fuel g size, receiver.deserialize fuel start = .ok (g, size) ∧ g.goodChecksum = ok

/-- The data offset is at least 5, and the option area is read to its end. -/
structure Readable (start : List UInt8) : Prop where
  offset : 5 ≤ (start.getD 12 0 / 16).toNat
  options : ¬MeetsStuck (optionArea start) (start.drop 20)

def receivedChecksum (h : TcpHeader) (start : List UInt8) : Nat :=
  calculateIpChecksum start start.length (h.calculateHeaderChecksum start.length)

theorem goodChecksum_finish (start : List UInt8) (done : OptionsRead)
    (hcalc : h.calcChecksum = true) :
    ((h.fixedFields start).finish start done).goodChecksum =
      decide (h.receivedChecksum start = 0) := by
  have hcalc' : (h.fixedFields start).calcChecksum = true := hcalc
  rw [finish]
  dsimp only
  rw [if_pos hcalc']
  rfl

theorem optionArea_le_iff (start : List UInt8) :
    optionArea start ≤ maxOptionsLen ↔ 5 ≤ (start.getD 12 0 / 16).toNat := by
  have hlt : (start.getD 12 0 / 16).toNat < 16 := by
    have hb := (start.getD 12 0).toNat_lt
    rw [UInt8.toNat_div]
    change _ / 16 < 16
    omega
  rw [optionArea, announcedLen, Lib.wsub, maxOptionsLen]
  omega

/-- Which bytes a receiver accepts, and what it says of their checksum. -/
theorem readsChecksum_iff {start : List UInt8} (ok : Bool) (hcalc : h.calcChecksum = true)
    (hgood : h.goodChecksum = true) (hlen : 20 ≤ start.length) :
    ReadsChecksum h start ok ↔ ((start.getD 12 0 / 16).toNat < 5 ∧ ok = true) ∨
      (Readable start ∧ ok = decide (h.receivedChecksum start = 0)) := by
  constructor
  · rintro ⟨fuel, g, size, hread, rfl⟩
    rw [deserialize_eq h hlen] at hread
    split at hread
    · rename_i harea
      rw [← Nat.not_le, optionArea_le_iff, Nat.not_le] at harea
      cases hread
      exact .inl ⟨harea, hgood⟩
    · rename_i harea
      rw [Nat.not_lt, optionArea_le_iff] at harea
      obtain ⟨done, hloop, hdone⟩ := bind_eq_ok.mp hread
      cases hdone
      refine .inr ⟨⟨harea, fun hmeets => ?_⟩, goodChecksum_finish start done hcalc⟩
      exact hmeets.optionLoop ⟨done, hloop⟩
  · rintro (⟨hoffset, rfl⟩ | ⟨hreadable, rfl⟩)
    · rw [← Nat.not_le, ← optionArea_le_iff, Nat.not_le] at hoffset
      refine ⟨0, h.fixedFields start, 20, ?_, hgood⟩
      rw [deserialize_eq h hlen, if_pos hoffset]
    · have harea := (optionArea_le_iff start).mpr hreadable.offset
      obtain ⟨done, hdone⟩ := returns_optionLoop {} hreadable.options
        (Nat.lt_succ_of_le harea)
      refine ⟨maxOptionsLen + 1, (h.fixedFields start).finish start done,
        ((h.fixedFields start).finish start done).serializedSize, ?_,
        goodChecksum_finish start done hcalc⟩
      rw [deserialize_eq h hlen, if_neg (Nat.not_lt.mpr harea), hdone, ok_bind]

/-! ## The segment of a header that was built -/

section

variable {fields : HeaderFields}

theorem length_serialize (h : TcpHeader) (payload : List UInt8) :
    20 ≤ (h.serialize payload).length := by
  rw [serialize_eq, List.length_append, length_writeFields h (h.length_checksumBytes payload)]
  exact Nat.le_add_right _ _

theorem Built.receivedChecksum (hb : Built fields true h) (start : List UInt8) :
    (fields.receiver true).receivedChecksum start = calculateIpChecksum start start.length
      (h.calculateHeaderChecksum start.length) := by
  rw [hb.fields_eq]
  rfl

theorem length_finish (h : TcpHeader) (start : List UInt8) (done : OptionsRead) :
    (h.finish start done).length = h.length := by
  rw [finish]
  dsimp only
  split
  · rfl
  · rfl

section

variable (hb : Built fields true h)

include hb

theorem Built.offset (payload : List UInt8) : (h.serialize payload).getD 12 0 / 16 = h.length := by
  obtain ⟨fuel, optionsLen, hread⟩ := hb.deserialize_write (h.length_checksumBytes payload) payload
  rw [← serialize_eq, deserialize_eq _ (h.length_serialize payload)] at hread
  split at hread
  · obtain ⟨hsame, -⟩ := pair_of_ok hread
    have hlength := congrArg TcpHeader.length hsame
    rw [length_finish] at hlength
    exact hlength
  · obtain ⟨done, -, hdone⟩ := bind_eq_ok.mp hread
    obtain ⟨hsame, -⟩ := pair_of_ok hdone
    have hlength := congrArg TcpHeader.length hsame
    rw [length_finish, length_finish] at hlength
    exact hlength

theorem Built.five_le_length : 5 ≤ h.length.toNat := by
  rw [hb.toNat_length]
  omega

theorem Built.readable (payload : List UInt8) : Readable (h.serialize payload) := by
  obtain ⟨fuel, optionsLen, hread⟩ := hb.deserialize_write (h.length_checksumBytes payload) payload
  rw [← serialize_eq] at hread
  have hsome : ReadsChecksum (fields.receiver true) (h.serialize payload) _ :=
    ⟨fuel, _, _, hread, rfl⟩
  have hlength := hb.five_le_length
  rcases (readsChecksum_iff _ rfl rfl (h.length_serialize payload)).mp hsome with
    ⟨hoffset, -⟩ | ⟨hreadable, -⟩
  · rw [hb.offset] at hoffset
    omega
  · exact hreadable

theorem Built.readsChecksum (payload : List UInt8) :
    ReadsChecksum (fields.receiver true) (h.serialize payload) true ↔
      (fields.receiver true).receivedChecksum (h.serialize payload) = 0 := by
  have hlength := hb.five_le_length
  rw [readsChecksum_iff _ rfl rfl (h.length_serialize payload), hb.offset]
  constructor
  · rintro (⟨hoffset, -⟩ | ⟨-, hzero⟩)
    · omega
    · exact of_decide_eq_true hzero.symm
  · intro hzero
    exact .inr ⟨hb.readable payload, (decide_eq_true hzero).symm⟩

theorem Built.readsChecksum_flip (payload : List UInt8)
    (hsize : (h.serialize payload).length < 2 ^ 16) {p : Nat} (k : Fin 8)
    (hp : p < (h.serialize payload).length) :
    ReadsChecksum (fields.receiver true) (flipBit (h.serialize payload) p k) false ↔
      Readable (flipBit (h.serialize payload) p k) := by
  have hlen : 20 ≤ (flipBit (h.serialize payload) p k).length := by
    rw [length_flipBit]
    exact h.length_serialize payload
  have hcalc : h.calcChecksum = true := by rw [hb.fields_eq]; rfl
  have hne : (fields.receiver true).receivedChecksum (flipBit (h.serialize payload) p k) ≠ 0 := by
    rw [hb.receivedChecksum, length_flipBit]
    exact calculateIpChecksum_flip k hsize (h.calculateHeaderChecksum_le _) hp
      (h.calculateIpChecksum_serialize payload hcalc hsize)
  rw [readsChecksum_iff _ rfl rfl hlen]
  constructor
  · rintro (⟨-, hfalse⟩ | ⟨hreadable, -⟩)
    · cases hfalse
    · exact hreadable
  · intro hreadable
    exact .inr ⟨hreadable, (decide_eq_false hne).symm⟩

end

theorem not_readsChecksum_last (fields : HeaderFields) (h : TcpHeader) (payload : List UInt8)
    (hsize : 2 ^ 16 ≤ (h.serialize payload).length)
    (hzero : (fields.receiver true).receivedChecksum (h.serialize payload) = 0) (k : Fin 8) :
    ¬ReadsChecksum (fields.receiver true)
      (flipBit (h.serialize payload) ((h.serialize payload).length - 1) k) false := by
  generalize hsegment : h.serialize payload = segment at hsize hzero ⊢
  have hlen : 20 ≤ (flipBit segment (segment.length - 1) k).length := by
    rw [length_flipBit]
    omega
  have hsame : (flipBit segment (segment.length - 1) k).take (segment.length % 2 ^ 16) =
      segment.take (segment.length % 2 ^ 16) := by
    apply List.ext_getElem?
    intro q
    rw [List.getElem?_take, List.getElem?_take, flipBit, List.getElem?_modify]
    have hq : q < segment.length % 2 ^ 16 → segment.length - 1 ≠ q := by
      intro hlt
      omega
    split
    · rename_i hlt
      simp only [if_neg (hq hlt), Option.map_eq_map, Option.map_id']
    · rfl
  have hzero' : (fields.receiver true).receivedChecksum
      (flipBit segment (segment.length - 1) k) = 0 := by
    rw [TcpHeader.receivedChecksum, length_flipBit, calculateIpChecksum, hsame]
    exact hzero
  rw [readsChecksum_iff _ rfl rfl hlen, hzero']
  rintro (⟨-, hfalse⟩ | ⟨-, hfalse⟩)
  · cases hfalse
  · cases hfalse

/-- **The round trip and the checksum.** Below `2 ^ 16` bytes the checksum is in order, and the flip
of a bit is detected exactly when it leaves a data offset of 5 or more and options that are read to
their end; in a longer segment some flip is not detected. -/
theorem header_round_trip_iff (fields : HeaderFields) (options : List {op : TcpOption // op.Known})
    (payload : List UInt8) :
    let receiver := fields.receiver true
    let segment := (fields.header true options).serialize payload
    (∀ calcChecksum, RoundTrips (fields.header calcChecksum options)
      (fields.receiver calcChecksum) payload) ∧
    (segment.length < 2 ^ 16 → ReadsChecksum receiver segment true ∧
      ∀ p k, p < segment.length →
        (ReadsChecksum receiver (flipBit segment p k) false ↔ Readable (flipBit segment p k))) ∧
    ((ReadsChecksum receiver segment true ∧
        ∀ p k, p < segment.length → ReadsChecksum receiver (flipBit segment p k) false) ↔
      segment.length < 2 ^ 16 ∧ ∀ p k, p < segment.length → Readable (flipBit segment p k)) := by
  have hb := built_header fields true options
  generalize fields.header true options = h at hb
  have hcalc : h.calcChecksum = true := by rw [hb.fields_eq]; rfl
  have hsmall : (h.serialize payload).length < 2 ^ 16 →
      ReadsChecksum (fields.receiver true) (h.serialize payload) true ∧
        ∀ p k, p < (h.serialize payload).length →
          (ReadsChecksum (fields.receiver true) (flipBit (h.serialize payload) p k) false ↔
            Readable (flipBit (h.serialize payload) p k)) := by
    intro hsize
    refine ⟨(hb.readsChecksum payload).mpr ?_,
      fun p k hp => hb.readsChecksum_flip payload hsize k hp⟩
    rw [hb.receivedChecksum]
    exact h.calculateIpChecksum_serialize payload hcalc hsize
  refine ⟨fun calcChecksum => (built_header fields calcChecksum options).roundTrips payload,
    hsmall, ?_⟩
  constructor
  · rintro ⟨hok, hflip⟩
    have hsize : (h.serialize payload).length < 2 ^ 16 := by
      by_contra hlarge
      rw [Nat.not_lt] at hlarge
      apply not_readsChecksum_last fields h payload hlarge ((hb.readsChecksum payload).mp hok) 0
      exact hflip _ 0 (by omega)
    exact ⟨hsize, fun p k hp => ((hsmall hsize).2 p k hp).mp (hflip p k hp)⟩
  · rintro ⟨hsize, hreadable⟩
    obtain ⟨hok, hflip⟩ := hsmall hsize
    exact ⟨hok, fun p k hp => (hflip p k hp).mpr (hreadable p k hp)⟩

def synFields : HeaderFields :=
  { sourcePort := 49153
    destinationPort := 80
    sequenceNumber := .ofNat 0
    ackNumber := .ofNat 0
    flags := 2
    windowSize := 65535
    urgentPointer := 0
    addresses := .ipv4 0x0a000001 0x0a000002
    protocol := 6 }

/-- The data offset of a segment without options is flipped from 5 to 4: the checksum is not looked
at. -/
theorem flip_not_detected :
    ¬∀ p k, p < ((synFields.header true []).serialize []).length →
      ReadsChecksum (synFields.receiver true)
        (flipBit ((synFields.header true []).serialize []) p k) false := by
  intro hflip
  have hdetected := hflip 12 4 (by decide)
  have hlen : 20 ≤ (flipBit ((synFields.header true []).serialize []) 12 4).length := by decide
  rw [readsChecksum_iff _ rfl rfl hlen] at hdetected
  have hoffset :
      ((flipBit ((synFields.header true []).serialize []) 12 4).getD 12 0 / 16).toNat = 4 := by
    decide
  rcases hdetected with ⟨-, hfalse⟩ | ⟨hreadable, -⟩
  · cases hfalse
  · have hge := hreadable.offset
    omega

end

end Wire.TcpHeader

end Ns3.Tcp
