/-
  A TCP header is read back as it was written.

  A header that was built with `AppendOption` announces as many words as its options and
  their padding take, so the option loop stops where the payload starts.
-/
import Ns3.Internet.Tcp.OptionReading

namespace Ns3.Tcp.Wire

open BufferIterator TcpOption

/-! ## Headers that are built -/

/-- What a sender sets before it appends options. -/
structure HeaderFields where
  sourcePort : UInt16
  destinationPort : UInt16
  sequenceNumber : SequenceNumber32
  ackNumber : SequenceNumber32
  flags : UInt8
  windowSize : UInt16
  urgentPointer : UInt16
  addresses : ChecksumAddresses
  protocol : UInt8

namespace HeaderFields

def withoutOptions (fields : HeaderFields) (calcChecksum : Bool) : TcpHeader :=
  { sourcePort := fields.sourcePort
    destinationPort := fields.destinationPort
    sequenceNumber := fields.sequenceNumber
    ackNumber := fields.ackNumber
    flags := fields.flags
    windowSize := fields.windowSize
    urgentPointer := fields.urgentPointer
    addresses := fields.addresses
    protocol := fields.protocol
    calcChecksum }

/-- The header after `AppendOption` of each option, whether it was accepted or not. -/
def header (fields : HeaderFields) (calcChecksum : Bool)
    (options : List {op : TcpOption // op.Known}) :
    TcpHeader :=
  options.foldl (fun h op => (h.appendOption op.val).1) (fields.withoutOptions calcChecksum)

/-- A fresh header object that is told the same addresses. -/
def receiver (fields : HeaderFields) (calcChecksum : Bool) : TcpHeader :=
  { addresses := fields.addresses, protocol := fields.protocol, calcChecksum }

end HeaderFields

namespace TcpHeader

def optionBytes (h : TcpHeader) : Nat := (h.options.map (·.serializedSize)).sum

def padding (h : TcpHeader) : Nat := if h.optionBytes % 4 = 0 then 0 else 4 - h.optionBytes % 4

/-- What `AppendOption` keeps. -/
structure Built (fields : HeaderFields) (calcChecksum : Bool) (h : TcpHeader) : Prop where
  fields_eq : h = { fields.withoutOptions calcChecksum with
    options := h.options, optionsLen := h.optionsLen, length := h.length }
  known : ∀ op ∈ h.options, op.Known ∧ op.kind ≠ END
  optionsLen_eq : h.optionsLen = h.optionBytes
  optionsLen_le : h.optionsLen ≤ maxOptionsLen
  length_eq : h.length = UInt8.ofNat ((23 + h.optionsLen) / 4)

section

variable {fields : HeaderFields} {calcChecksum : Bool} {h : TcpHeader}

theorem built_withoutOptions (fields : HeaderFields) (calcChecksum : Bool) :
    Built fields calcChecksum (fields.withoutOptions calcChecksum) where
  fields_eq := rfl
  known := List.forall_mem_nil _
  optionsLen_eq := rfl
  optionsLen_le := Nat.zero_le _
  length_eq := show (5 : UInt8) = UInt8.ofNat ((23 + 0) / 4) by decide

theorem Built.appendOption (hb : Built fields calcChecksum h) {op : TcpOption} (hop : op.Known) :
    Built fields calcChecksum (h.appendOption op).1 := by
  rw [TcpHeader.appendOption]
  split
  · rename_i hroom
    split
    · exact hb
    · split
      · rename_i hend
        have hsum : (h.options ++ [op]).map (·.serializedSize) =
            h.options.map (·.serializedSize) ++ [op.serializedSize] := List.map_append
        have hsmall : (h.optionsLen + op.serializedSize) % 2 ^ 8 =
            h.optionsLen + op.serializedSize :=
          Nat.mod_eq_of_lt (hroom.trans_lt (by decide))
        refine ⟨?_, ?_, ?_, ?_, ?_⟩
        · dsimp only
          conv_lhs => rw [hb.fields_eq]
        · intro op' hop'
          rcases List.mem_append.mp hop' with hold | hnew
          · exact hb.known op' hold
          · obtain rfl := List.mem_singleton.mp hnew
            exact ⟨hop, hend⟩
        · change (h.optionsLen + op.serializedSize) % 2 ^ 8 = _
          rw [hsmall, optionBytes, hsum, List.sum_append, List.sum_singleton, hb.optionsLen_eq]
          rfl
        · change (h.optionsLen + op.serializedSize) % 2 ^ 8 ≤ _
          rw [hsmall]
          exact hroom
        · rfl
      · exact hb
  · exact hb

theorem built_header (fields : HeaderFields) (calcChecksum : Bool)
    (options : List {op : TcpOption // op.Known}) :
    Built fields calcChecksum (fields.header calcChecksum options) := by
  have hfold : ∀ h, Built fields calcChecksum h →
      Built fields calcChecksum (options.foldl (fun h op => (h.appendOption op.val).1) h) := by
    induction options with
    | nil => exact fun h hb => hb
    | cons op options ih =>
      intro h hb
      rw [List.foldl_cons]
      exact ih _ (hb.appendOption op.property)
  exact hfold _ (built_withoutOptions fields calcChecksum)

theorem optionBytes_padding (h : TcpHeader) : (h.optionBytes + h.padding) % 4 = 0 := by
  rw [padding]
  split
  · assumption
  · omega

theorem padding_lt (h : TcpHeader) : h.padding < 4 := by
  rw [padding]
  split
  · decide
  · omega

theorem Built.optionBytes_le (hb : Built fields calcChecksum h) :
    h.optionBytes + h.padding ≤ 40 := by
  have hle : h.optionBytes ≤ 40 := hb.optionsLen_eq ▸ hb.optionsLen_le
  have hmod := h.optionBytes_padding
  have hlt := h.padding_lt
  omega

theorem Built.toNat_length (hb : Built fields calcChecksum h) :
    h.length.toNat = (20 + h.optionBytes + h.padding) / 4 := by
  have hle := hb.optionBytes_le
  have hmod := h.optionBytes_padding
  have hlt := h.padding_lt
  rw [hb.length_eq, UInt8.toNat_ofNat', hb.optionsLen_eq]
  omega

theorem Built.announcedLen (hb : Built fields calcChecksum h) :
    TcpHeader.announcedLen h.length = h.optionBytes + h.padding := by
  have hle := hb.optionBytes_le
  have hmod := h.optionBytes_padding
  have hlength := hb.toNat_length
  rw [TcpHeader.announcedLen, Lib.wsub]
  omega

end

/-! ## The fixed fields -/

variable {checksum : List UInt8}

section

variable {g h : TcpHeader}

/-- The headers agree in the fields before the options. -/
structure SameFields (g h : TcpHeader) : Prop where
  sourcePort : g.sourcePort = h.sourcePort
  destinationPort : g.destinationPort = h.destinationPort
  sequenceNumber : g.sequenceNumber = h.sequenceNumber
  ackNumber : g.ackNumber = h.ackNumber
  length : g.length = h.length
  flags : g.flags = h.flags
  windowSize : g.windowSize = h.windowSize
  urgentPointer : g.urgentPointer = h.urgentPointer

def readFields (g h : TcpHeader) : TcpHeader :=
  { h with
    optionsLen := 0
    sourcePort := g.sourcePort
    destinationPort := g.destinationPort
    sequenceNumber := g.sequenceNumber
    ackNumber := g.ackNumber
    flags := g.flags
    length := g.length
    windowSize := g.windowSize
    urgentPointer := g.urgentPointer
    options := [] }

theorem toNat_field {length : UInt8} (hlength : length.toNat < 16) (flags : UInt8) :
    (UInt16.ofNat (length.toNat * 2 ^ 12) ||| UInt16.ofNat flags.toNat).toNat =
      length.toNat * 2 ^ 12 + flags.toNat := by
  have hflags := flags.toNat_lt
  have hlow : flags.toNat < 2 ^ 12 := by omega
  rw [UInt16.toNat_or, UInt16.toNat_ofNat_of_lt' (by change _ < 2 ^ 16; omega),
    UInt16.toNat_ofNat_of_lt' (by change _ < 2 ^ 16; omega), Nat.mul_comm]
  exact (Nat.two_pow_add_eq_or_of_lt hlow _).symm

theorem length_writeFields (h : TcpHeader) (hlen : checksum.length = 2) :
    (h.writeFields checksum).length = 20 := by
  simp only [writeFields, List.length_append, length_writeHtonU16, length_writeHtonU32, hlen]

theorem deserialize_writeFields (g h : TcpHeader) (hlen : checksum.length = 2)
    (hlength : g.length.toNat < 16) (tail : List UInt8) (fuel : Nat) :
    h.deserialize fuel (g.writeFields checksum ++ tail) =
      if maxOptionsLen < announcedLen g.length then .ok (readFields g h, 20)
      else optionLoop fuel (announcedLen g.length) tail {} >>= fun done =>
        .ok ((readFields g h).finish (g.writeFields checksum ++ tail) done,
          ((readFields g h).finish (g.writeFields checksum ++ tail) done).serializedSize) := by
  have hfield := toNat_field hlength g.flags
  have hflags := g.flags.toNat_lt
  have hoffset : UInt8.ofNat ((g.length.toNat * 2 ^ 12 + g.flags.toNat) / 2 ^ 12) = g.length := by
    apply UInt8.toNat_inj.mp
    rw [UInt8.toNat_ofNat']
    omega
  have hlow : UInt8.ofNat (g.length.toNat * 2 ^ 12 + g.flags.toNat) = g.flags := by
    apply UInt8.toNat_inj.mp
    rw [UInt8.toNat_ofNat']
    omega
  generalize hstart : g.writeFields checksum ++ tail = start
  have hbytes := hstart
  rw [writeFields, List.append_assoc, List.append_assoc, List.append_assoc, List.append_assoc,
    List.append_assoc, List.append_assoc, List.append_assoc] at hbytes
  rw [deserialize, ← hbytes, readNtohU16_write, ok_bind]
  dsimp only
  rw [readNtohU16_write, ok_bind]
  dsimp only
  rw [readNtohU32_sequence, ok_bind]
  dsimp only
  rw [readNtohU32_sequence, ok_bind]
  dsimp only
  rw [readNtohU16_write, ok_bind]
  dsimp only
  rw [readNtohU16_write, ok_bind]
  dsimp only
  rw [next_append hlen, ok_bind, readNtohU16_write, ok_bind]
  dsimp only
  rw [hfield, hoffset, hlow, ofNat_sequence, ofNat_sequence]
  rfl

end

/-! ## The option loop -/

theorem optionFor_kind {op : TcpOption} (hop : op.Known) :
    optionFor op.kind = createOption op.kind := by
  rw [optionFor, hop.isKindKnown]
  rfl

theorem optionLoop_write {options : List TcpOption}
    (hknown : ∀ op ∈ options, op.Known ∧ op.kind ≠ END)
    (len : Nat) (hle : (options.map (·.serializedSize)).sum + len ≤ 40) (fuel : Nat)
    (tail : List UInt8) (done : OptionsRead) :
    optionLoop (options.length + fuel) ((options.map (·.serializedSize)).sum + len)
        (options.flatMap TcpOption.serialize ++ tail) done =
      optionLoop fuel len tail (options.foldl OptionsRead.push done) := by
  induction options generalizing done with
  | nil => rw [List.map_nil, List.sum_nil, List.length_nil, Nat.zero_add, Nat.zero_add]; rfl
  | cons op options ih =>
    obtain ⟨hop, hend⟩ := hknown op (.head _)
    rw [List.map_cons, List.sum_cons] at hle ⊢
    have hpos := hop.serializedSize_pos
    have hsize := hop.length_serialize
    have hread := hop.deserialize_serialize (by omega)
      (options.flatMap TcpOption.serialize ++ tail)
    rw [← optionFor_kind hop] at hread
    obtain ⟨bytes, hbytes⟩ := hop.serialize_cons
    have hroom : op.serializedSize ≤
        (op.serialize ++ (options.flatMap TcpOption.serialize ++ tail)).length := by
      rw [List.length_append, hsize]
      exact Nat.le_add_right _ _
    have hdrop : (op.serialize ++ (options.flatMap TcpOption.serialize ++ tail)).drop
        op.serializedSize = options.flatMap TcpOption.serialize ++ tail := List.drop_left' hsize
    rw [List.flatMap_cons, List.append_assoc, List.length_cons]
    rw [hbytes, List.cons_append] at hread hroom hdrop ⊢
    rw [Nat.add_right_comm, Nat.add_assoc op.serializedSize, optionLoop_read _ done (by omega)
      hread rfl (Nat.le_add_right _ _) hroom hend, hdrop, Nat.add_sub_cancel_left]
    exact ih (fun op' hop' => hknown op' (.tail _ hop')) (by omega) _

theorem optionLoop_padding {len : Nat} (fuel : Nat) (payload : List UInt8) (done : OptionsRead) :
    optionLoop (fuel + 1) len (List.replicate len END ++ payload) done =
      .ok { options := done.options ++ if len = 0 then [] else [.optionEnd]
            optionsLen := if len = 0 then done.optionsLen
              else ((done.optionsLen + 1) % 2 ^ 8 + (len - 1)) % 2 ^ 8 } := by
  cases len with
  | zero => rw [optionLoop, if_pos rfl, if_pos rfl, if_pos rfl, List.append_nil]; rfl
  | succ len =>
    have hread : (optionFor END).deserialize (END :: (List.replicate len END ++ payload)) =
        .ok (1, .optionEnd) := rfl
    have hskip : next (List.replicate len END ++ payload) len = .ok payload :=
      next_append List.length_replicate
    rw [optionLoop, if_neg (Nat.succ_ne_zero _), List.replicate_succ, List.cons_append,
      peekU8_cons, ok_bind, hread, ok_bind]
    dsimp only
    rw [if_neg (by decide), if_pos (Nat.le_add_left _ _)]
    have hfirst : next (END :: (List.replicate len END ++ payload)) 1 =
        .ok (List.replicate len END ++ payload) := next_of (Nat.le_add_left _ _)
    have hend : TcpOption.optionEnd.kind = END := rfl
    rw [hfirst, ok_bind, if_pos hend, Nat.add_sub_cancel, hskip, ok_bind,
      if_neg (Nat.succ_ne_zero _), if_neg (Nat.succ_ne_zero _)]
    rfl

/-! ## The whole header -/

section

variable {fields : HeaderFields} {calcChecksum : Bool} {h : TcpHeader}

def paddedOptions (h : TcpHeader) : List TcpOption :=
  h.options ++ if h.padding = 0 then [] else [.optionEnd]

def checksumBytes (h : TcpHeader) (payload : List UInt8) : List UInt8 :=
  if h.calcChecksum then
    let segment := h.writeUnchecked payload
    let checksum := calculateIpChecksum segment segment.length
      (h.calculateHeaderChecksum segment.length)
    [UInt8.ofNat checksum, UInt8.ofNat (checksum / 256)]
  else [0, 0]

@[simp] theorem length_checksumBytes (h : TcpHeader) (payload : List UInt8) :
    (h.checksumBytes payload).length = 2 := by
  rw [checksumBytes]
  split
  · rfl
  · rfl

theorem serialize_eq (h : TcpHeader) (payload : List UInt8) :
    h.serialize payload =
      h.writeFields (h.checksumBytes payload) ++ (h.writeOptions ++ payload) := by
  rw [serialize, checksumBytes]
  split
  · exact List.append_assoc _ _ _
  · exact List.append_assoc _ _ _

theorem writeOptions_eq (h : TcpHeader) (payload : List UInt8) :
    h.writeOptions ++ payload = h.options.flatMap TcpOption.serialize ++
      (List.replicate h.padding END ++ payload) := List.append_assoc _ _ _

variable {g : TcpHeader}

theorem padding_padded (hoptions : g.options = h.paddedOptions) :
    g.padding = h.padding - 1 ∧ g.optionBytes + g.padding = h.optionBytes + h.padding := by
  have hpad : h.padding = if h.optionBytes % 4 = 0 then 0 else 4 - h.optionBytes % 4 := rfl
  by_cases hzero : h.padding = 0
  · rw [paddedOptions, if_pos hzero, List.append_nil] at hoptions
    have hbytes : g.optionBytes = h.optionBytes := by rw [optionBytes, optionBytes, hoptions]
    have hpadding : g.padding = h.padding := by rw [padding, padding, hbytes]
    omega
  · have hbytes : g.optionBytes = h.optionBytes + 1 := by
      rw [optionBytes, hoptions, paddedOptions, if_neg hzero, List.map_append, List.sum_append]
      rfl
    have hpadding : g.padding =
        if (h.optionBytes + 1) % 4 = 0 then 0 else 4 - (h.optionBytes + 1) % 4 := by
      rw [padding, hbytes]
    split at hpad
    · exact absurd hpad hzero
    · split at hpadding
      · omega
      · omega

theorem writeOptions_padded (hoptions : g.options = h.paddedOptions) :
    g.writeOptions = h.writeOptions := by
  have hwrite : ∀ h : TcpHeader, h.writeOptions =
      h.options.flatMap TcpOption.serialize ++ List.replicate h.padding END := fun _ => rfl
  rw [hwrite, hwrite, (padding_padded hoptions).1, hoptions, paddedOptions]
  by_cases hzero : h.padding = 0
  · rw [if_pos hzero, hzero, List.append_nil]
  · obtain ⟨pad, hpad⟩ := Nat.exists_eq_succ_of_ne_zero hzero
    rw [if_neg hzero, hpad, Nat.succ_sub_one, List.replicate_succ, List.flatMap_append,
      List.append_assoc]
    rfl

theorem calculateHeaderLength_eq (h : TcpHeader) :
    h.calculateHeaderLength = (20 + h.optionBytes + h.padding) / 4 % 2 ^ 8 := by
  have hdiv : (20 + h.optionBytes) % 4 = h.optionBytes % 4 := by omega
  have hlen : h.calculateHeaderLength = (20 + h.optionBytes +
    if (20 + h.optionBytes) % 4 = 0 then 0 else 4 - (20 + h.optionBytes) % 4) / 4 % 2 ^ 8 := rfl
  rw [hlen, hdiv, padding]

theorem serialize_congr (hsame : g.SameFields h) (hoptions : g.options = h.paddedOptions)
    (haddresses : g.addresses = h.addresses) (hprotocol : g.protocol = h.protocol)
    (hcalc : g.calcChecksum = h.calcChecksum) (payload : List UInt8) :
    g.serialize payload = h.serialize payload := by
  have hfields : ∀ checksum, g.writeFields checksum = h.writeFields checksum := by
    intro checksum
    rw [writeFields, writeFields, hsame.sourcePort, hsame.destinationPort, hsame.sequenceNumber,
      hsame.ackNumber, hsame.length, hsame.flags, hsame.windowSize, hsame.urgentPointer]
  have hunchecked : g.writeUnchecked payload = h.writeUnchecked payload := by
    rw [writeUnchecked, writeUnchecked, hfields, writeOptions_padded hoptions]
  have hpseudo : ∀ size, g.calculateHeaderChecksum size = h.calculateHeaderChecksum size := by
    intro size
    rw [calculateHeaderChecksum, calculateHeaderChecksum, pseudoHeader, pseudoHeader, haddresses,
      hprotocol]
  rw [serialize, serialize, hcalc, hunchecked, writeOptions_padded hoptions]
  split
  · dsimp only
    rw [hpseudo, hfields]
  · rfl

theorem options_finish (h : TcpHeader) (start : List UInt8) (done : OptionsRead) :
    (h.finish start done).options = done.options := by
  rw [finish]
  dsimp only
  split
  · rfl
  · rfl

theorem Built.deserialize_write (hb : Built fields calcChecksum h) (hlen : checksum.length = 2)
    (payload : List UInt8) :
    ∃ fuel optionsLen, (fields.receiver calcChecksum).deserialize fuel
        (h.writeFields checksum ++ (h.writeOptions ++ payload)) =
      .ok ((h.readFields (fields.receiver calcChecksum)).finish
          (h.writeFields checksum ++ (h.writeOptions ++ payload))
          { options := h.paddedOptions, optionsLen },
        h.serializedSize) := by
  have hlength := hb.toNat_length
  have hle := hb.optionBytes_le
  have hloop := optionLoop_write hb.known h.padding hle 1
    (List.replicate h.padding END ++ payload) {}
  have hread : (h.options.foldl OptionsRead.push {}).options = h.options := by
    have hgen : ∀ done : OptionsRead,
        (h.options.foldl OptionsRead.push done).options = done.options ++ h.options := by
      induction h.options with
      | nil => exact fun done => (List.append_nil _).symm
      | cons op options ih =>
        intro done
        rw [List.foldl_cons, ih, OptionsRead.push, List.append_assoc]
        rfl
    exact hgen {}
  obtain ⟨optionsLen, hdone⟩ : ∃ optionsLen, optionLoop 1 h.padding
      (List.replicate h.padding END ++ payload) (h.options.foldl OptionsRead.push {}) =
        .ok { options := h.paddedOptions, optionsLen } := by
    rw [optionLoop_padding 0, hread]
    exact ⟨_, rfl⟩
  have hsize : ∀ start, ((h.readFields (fields.receiver calcChecksum)).finish start
      { options := h.paddedOptions, optionsLen }).serializedSize =
        h.serializedSize := by
    intro start
    have hoptions := options_finish (h.readFields (fields.receiver calcChecksum)) start
      { options := h.paddedOptions, optionsLen }
    have hbytes := (padding_padded hoptions).2
    rw [TcpHeader.serializedSize, TcpHeader.serializedSize, calculateHeaderLength_eq,
      calculateHeaderLength_eq, Nat.add_assoc, hbytes, Nat.add_assoc]
  refine ⟨h.options.length + 1, optionsLen, ?_⟩
  have harea := hb.announcedLen
  have hroom : ¬maxOptionsLen < h.optionBytes + h.padding := Nat.not_lt.mpr hle
  rw [deserialize_writeFields h _ hlen (by omega), harea, if_neg hroom, writeOptions_eq]
  rw [optionBytes, hloop, hdone, ok_bind, hsize]

/-- `Deserialize` of the segment gives the fields and the options back, and writing what was
read gives the same bytes. -/
def RoundTrips (h receiver : TcpHeader) (payload : List UInt8) : Prop :=
  ∃ fuel g, receiver.deserialize fuel (h.serialize payload) = .ok (g, h.serializedSize) ∧
    g.SameFields h ∧ g.options = h.paddedOptions ∧ g.serialize payload = h.serialize payload

theorem Built.roundTrips (hb : Built fields calcChecksum h) (payload : List UInt8) :
    RoundTrips h (fields.receiver calcChecksum) payload := by
  obtain ⟨fuel, optionsLen, hread⟩ := hb.deserialize_write (h.length_checksumBytes payload) payload
  rw [← serialize_eq] at hread
  have hfinish :
      ∀ start done, ((h.readFields (fields.receiver calcChecksum)).finish start done).SameFields h ∧
      ((h.readFields (fields.receiver calcChecksum)).finish start done).addresses =
        fields.addresses ∧
      ((h.readFields (fields.receiver calcChecksum)).finish start done).protocol =
        fields.protocol ∧
      ((h.readFields (fields.receiver calcChecksum)).finish start done).calcChecksum =
        calcChecksum := by
    intro start done
    rw [finish]
    dsimp only
    split
    · exact ⟨⟨rfl, rfl, rfl, rfl, rfl, rfl, rfl, rfl⟩, rfl, rfl, rfl⟩
    · exact ⟨⟨rfl, rfl, rfl, rfl, rfl, rfl, rfl, rfl⟩, rfl, rfl, rfl⟩
  obtain ⟨hsame, haddresses, hprotocol, hcalc⟩ := hfinish (h.serialize payload)
    { options := h.paddedOptions, optionsLen }
  have hoptions := options_finish (h.readFields (fields.receiver calcChecksum))
    (h.serialize payload) { options := h.paddedOptions, optionsLen }
  refine ⟨fuel, _, hread, hsame, hoptions, ?_⟩
  have hsent := hb.fields_eq
  apply serialize_congr hsame hoptions
  · rw [haddresses, hsent]
    rfl
  · rw [hprotocol, hsent]
    rfl
  · rw [hcalc, hsent]
    rfl

end

end TcpHeader

end Ns3.Tcp.Wire
