/-
  Which packets are read back.

  What is read of a packet is put together from what is read of its parts, so that a packet is
  read back exactly when each of its parts is.
-/
import Ns3.Network.PbbAddressReading
import Ns3.Network.PbbPacket

namespace Ns3

namespace Pbb

open Lib BufferIterator

variable {k : PbbAddressLength} {rest : List UInt8}

/-! ## Parts and what the buffer holds -/

section Placed

variable {α β γ : Type} {held : Nat → β} {parts : List α}

theorem map_fst_placed : (placed held parts).map Prod.fst = parts := by
  rw [placed]
  exact List.ext_getElem (by simp) (by simp)

theorem fst_mem_placed {place : α × β} (h : place ∈ placed held parts) : place.1 ∈ parts := by
  have hmem := List.mem_map_of_mem (f := Prod.fst) h
  rwa [map_fst_placed] at hmem

theorem mapM_placed (view : α → Option γ) :
    (placed held parts).mapM (fun place => view place.1) = parts.mapM view := by
  conv => rhs; rw [← @map_fst_placed _ _ held parts, List.mapM_map]
  rfl

theorem foldl_placed (size : α → UInt32) (n : UInt32) :
    (placed held parts).foldl (fun n place => n + size place.1) n =
      parts.foldl (fun n part => n + size part) n := by
  conv => rhs; rw [← @map_fst_placed _ _ held parts, List.foldl_map]

variable {write : α → β → List UInt8}

/-- Parts that keep nothing of the buffer are written as into any other. -/
theorem flatMap_placed {b : β}
    (h : ∀ place ∈ placed held parts, write place.1 place.2 = write place.1 b) :
    (placed held parts).flatMap (fun place => write place.1 place.2) =
      parts.flatMap fun part => write part b := by
  conv => rhs; rw [← @map_fst_placed _ _ held parts, List.flatMap_map]
  exact List.flatMap_congr h

theorem length_flatMap_placed {b : β}
    (h : ∀ part c, (write part c).length = (write part b).length) :
    ((placed held parts).flatMap fun place => write place.1 place.2).length =
      (parts.flatMap fun part => write part b).length := by
  conv => rhs; rw [← @map_fst_placed _ _ held parts, List.flatMap_map]
  rw [List.length_flatMap, List.length_flatMap]
  exact congrArg List.sum (List.map_congr_left fun place _ => h place.1 place.2)

/-- Equal writings of parts of equal lengths are equal part by part. -/
theorem flatMap_inj {f g : α → List β} (hlen : ∀ a, (f a).length = (g a).length)
    (h : parts.flatMap f = parts.flatMap g) : ∀ a ∈ parts, f a = g a := by
  induction parts with
  | nil => exact fun a ha => absurd ha List.not_mem_nil
  | cons a parts ih =>
    rw [List.flatMap_cons, List.flatMap_cons] at h
    obtain ⟨hfirst, hrest⟩ := List.append_inj h (hlen a)
    exact List.forall_mem_cons.mpr ⟨hfirst, ih hrest⟩

end Placed

/-! ## Messages -/

namespace PbbMessage

variable {message : PbbMessage k}

/-- The TLV block and the address blocks are well formed, and the message is less than 65536 bytes
long. -/
structure WellFormed (message : PbbMessage k) : Prop where
  tlvs : PbbTlvBlock.WellFormed message.tlvs
  blocks : ∀ block ∈ message.addressBlocks, block.WellFormed
  size : (message.serialize fun _ => 0).length < 65536

def received (message : PbbMessage k) : Option (PbbMessage k) :=
  (message.addressBlocks.mapM PbbAddressBlock.received).map fun addressBlocks =>
    { message with tlvs := PbbTlvBlock.received message.tlvs, addressBlocks }

/-- What must hold of a message so that it is read back. -/
structure ReadBack (message : PbbMessage k) : Prop where
  tlvs : ∀ tlv ∈ message.tlvs, tlv.isMultivalue = false
  blocks : ∀ block ∈ message.addressBlocks, block.ReadBack

theorem received_eq_self (message : PbbMessage k) :
    message.received = some message ↔ message.ReadBack := by
  have hparts : message.received = some message ↔
      message.addressBlocks.mapM PbbAddressBlock.received = some message.addressBlocks ∧
        PbbTlvBlock.received message.tlvs = message.tlvs := by
    rw [received]
    cases hblocks : message.addressBlocks.mapM PbbAddressBlock.received with
    | none => simp
    | some blocks =>
      obtain ⟨type, originatorAddress, hopLimit, hopCount, sequenceNumber, tlvs, blocks'⟩ :=
        message
      simp [and_comm]
  rw [hparts, mapM_eq_self, PbbTlvBlock.received_eq_self]
  constructor
  · rintro ⟨hblocks, htlvs⟩
    exact ⟨htlvs, fun block hblock => block.received_eq_self.mp (hblocks block hblock)⟩
  · intro h
    exact ⟨fun block hblock => block.received_eq_self.mpr (h.blocks block hblock), h.tlvs⟩

def flagBits (addressLength : UInt8) (hasOriginator hasHopLimit hasHopCount hasSequence : Bool) :
    UInt8 :=
  let flags := addressLength
  let flags := if hasOriginator then flags ||| MHAS_ORIG else flags
  let flags := if hasHopLimit then flags ||| MHAS_HOP_LIMIT else flags
  let flags := if hasHopCount then flags ||| MHAS_HOP_COUNT else flags
  if hasSequence then flags ||| MHAS_SEQ_NUM else flags

theorem flagBits_spec : ∀ (k : PbbAddressLength) hasOriginator hasHopLimit hasHopCount hasSequence,
    let flags := flagBits k.value hasOriginator hasHopLimit hasHopCount hasSequence
    hasFlag flags MHAS_ORIG = hasOriginator ∧ hasFlag flags MHAS_HOP_LIMIT = hasHopLimit ∧
      hasFlag flags MHAS_HOP_COUNT = hasHopCount ∧ hasFlag flags MHAS_SEQ_NUM = hasSequence ∧
      flags &&& 0xf = k.value := by
  intro k
  cases k <;> decide

theorem flags_eq (message : PbbMessage k) : message.flags =
    flagBits k.value message.originatorAddress.isSome message.hopLimit.isSome
      message.hopCount.isSome message.sequenceNumber.isSome := rfl

variable {held : Nat → UInt8}

theorem length_serialize (message : PbbMessage k) :
    (message.serialize held).length = 4 + (message.contents held).length := by
  rw [serialize, List.length_append, List.length_append, length_writeHtonU16]
  rfl

def lead (message : PbbMessage k) (held : Nat → UInt8) : List UInt8 :=
  [message.type, message.flags] ++
    writeHtonU16 (UInt16.ofNat (4 + (message.contents held).length)) ++
    writeOption k.serializeAddress message.originatorAddress ++
    writeOption (fun hopLimit => [hopLimit]) message.hopLimit ++
    writeOption (fun hopCount => [hopCount]) message.hopCount ++
    writeOption writeHtonU16 message.sequenceNumber ++
    PbbTlvBlock.serialize message.tlvs

theorem length_contents (message : PbbMessage k) (held : Nat → UInt8) :
    (message.contents held).length = (message.contents fun _ => 0).length := by
  have hblocks (held : Nat → UInt8) := @length_flatMap_placed _ _ held message.addressBlocks
    PbbAddressBlock.serialize 0 PbbAddressBlock.length_serialize_held
  simp only [contents, writeBlocks, List.length_append, hblocks]

theorem length_serialize_held (message : PbbMessage k) (held : Nat → UInt8) :
    (message.serialize held).length = (message.serialize fun _ => 0).length := by
  rw [length_serialize, length_serialize, length_contents]

theorem serialize_eq_lead (message : PbbMessage k) :
    (message.serialize held) = (message.lead held) ++
      message.writeBlocks held := by
  rw [serialize, lead]
  generalize UInt16.ofNat (4 + (message.contents held).length) = size
  rw [contents]
  simp only [List.append_assoc]

theorem readsAs_originatorAddress (address : k.Address) :
    ReadsAs (deserializeOriginatorAddress k) (k.serializeAddress address) (some address) := by
  intro rest
  have hlen : (k.serializeAddress address).length = k.value.toNat + 1 := by
    rw [PbbAddressLength.length_serializeAddress]
    cases k <;> rfl
  show deserializeOriginatorAddress k (k.serializeAddress address ++ rest) = .ok (address, rest)
  rw [deserializeOriginatorAddress, read_append hlen, ok_bind]
  dsimp only
  rw [PbbAddressLength.deserializeAddress_serialize]
  rfl

theorem readBlocks_write (h : message.WellFormed) :
    Outcome (readBlocks k (message.serialize held ++ rest)
      (UInt16.ofNat (4 + (message.contents held).length)) (message.writeBlocks held ++ rest)) rest
        (message.addressBlocks.mapM PbbAddressBlock.received) := by
  have hsize := message.length_serialize_held held ▸ h.size
  have hfield : (UInt16.ofNat (4 + (message.contents held).length)).toNat =
      (message.serialize held).length := by
    rw [UInt16.toNat_ofNat', length_serialize]
    rw [length_serialize] at hsize
    exact Nat.mod_eq_of_lt hsize
  have hwrites : ∀ place ∈ placed held message.addressBlocks,
      0 < (place.1.serialize place.2).length := fun place _ => by
    have := place.1.four_le_length place.2
    omega
  have hlen : (message.serialize held).length = (message.lead held).length +
      (message.writeBlocks held).length := by
    rw [serialize_eq_lead, List.length_append]
  have hgo : UInt16.ofNat (4 + (message.contents held).length) > 0 := by
    rw [gt_iff_lt, UInt16.lt_iff_toNat_lt, hfield, length_serialize]
    exact Nat.lt_of_lt_of_le (by decide) (Nat.le_add_right 4 _)
  rw [readBlocks, if_pos hgo, hfield, ← @mapM_placed _ _ _ held]
  refine readWhile_write (placed held message.addressBlocks) ?_
    (fun place hplace => PbbAddressBlock.readsAs_deserialize
      (h.blocks place.1 (fst_mem_placed hplace))) fun post hpost => ?_
  · have hcount := length_le_flatMap (placed held message.addressBlocks) hwrites
    rw [writeBlocks] at hlen
    omega
  · rw [serialize_eq_lead]
    refine more_iff (message.lead held) hwrites hpost ?_
    rw [List.length_append, ← writeBlocks, ← hlen]
    exact hsize.trans (by decide)

theorem readsAs_deserialize (h : message.WellFormed) :
    ReadsAs (deserialize k) (message.serialize held) message.received := by
  intro rest
  obtain ⟨horiginator, hhopLimit, hhopCount, hsequence, -⟩ := flagBits_spec k
    message.originatorAddress.isSome message.hopLimit.isSome message.hopCount.isSome
    message.sequenceNumber.isSome
  rw [← flags_eq] at horiginator hhopLimit hhopCount hsequence
  have htlvs (rest : List UInt8) : PbbTlvBlock.deserialize
      (PbbTlvBlock.serialize message.tlvs ++ rest) =
        .ok (PbbTlvBlock.received message.tlvs, rest) :=
    PbbTlvBlock.readsAs_deserialize h.tlvs rest
  have hblocks := @readBlocks_write k rest message held h
  rw [deserialize]
  obtain ⟨front, hfront⟩ : ∃ front, front = message.serialize held ++ rest := ⟨_, rfl⟩
  rw [← hfront] at hblocks ⊢
  have hbytes : front = message.type :: message.flags ::
      (writeHtonU16 (UInt16.ofNat (4 + (message.contents held).length)) ++
        (writeOption k.serializeAddress message.originatorAddress ++
        (writeOption (fun hopLimit => [hopLimit]) message.hopLimit ++
        (writeOption (fun hopCount => [hopCount]) message.hopCount ++
        (writeOption writeHtonU16 message.sequenceNumber ++
        (PbbTlvBlock.serialize message.tlvs ++
        (message.writeBlocks held ++ rest))))))) := by
    rw [hfront, serialize_eq_lead, lead]
    simp only [List.append_assoc, List.cons_append, List.nil_append]
  have hfirst : readU8 front = .ok (message.type, front.tail) := by
    rw [hbytes]
    rfl
  rw [hfirst, ok_bind]
  dsimp only
  rw [hbytes, List.tail_cons, ← hbytes, readU8_cons, ok_bind]
  dsimp only
  rw [readNtohU16_write, ok_bind]
  dsimp only
  rw [readIf_write (fun a _ => readsAs_originatorAddress a) horiginator, ok_bind]
  dsimp only
  rw [readIf_write (fun b _ => readsAs_readU8 b) hhopLimit, ok_bind]
  dsimp only
  rw [readIf_write (fun b _ => readsAs_readU8 b) hhopCount, ok_bind]
  dsimp only
  rw [readIf_write (fun v _ => readsAs_readNtohU16 v) hsequence, ok_bind]
  dsimp only
  rw [htlvs, ok_bind]
  dsimp only
  exact hblocks.map

theorem getSerializedSize_eq (h : message.WellFormed) (hread : message.ReadBack) :
    message.getSerializedSize = UInt32.ofNat (message.serialize held).length := by
  have htlvs := PbbTlvBlock.getSerializedSize_eq h.tlvs.tlvs
  have hblocks (n : Nat) := @foldl_size _ (fun place => place.1.serialize place.2)
    (fun place => place.1.getSerializedSize) (placed held message.addressBlocks)
    (fun place hplace => PbbAddressBlock.getSerializedSize_eq
      (h.blocks place.1 (fst_mem_placed hplace)) (hread.blocks place.1 (fst_mem_placed hplace))) n
  simp only [foldl_placed PbbAddressBlock.getSerializedSize] at hblocks
  have horiginator : (writeOption k.serializeAddress message.originatorAddress).length =
      if message.originatorAddress.isSome then k.value.toNat + 1 else 0 := by
    cases message.originatorAddress with
    | none => rfl
    | some address =>
      rw [writeOption, PbbAddressLength.length_serializeAddress]
      cases k <;> rfl
  have hhopLimit : (writeOption (fun hopLimit => [hopLimit]) message.hopLimit).length =
      if message.hopLimit.isSome then 1 else 0 := by
    cases message.hopLimit <;> rfl
  have hhopCount : (writeOption (fun hopCount => [hopCount]) message.hopCount).length =
      if message.hopCount.isSome then 1 else 0 := by
    cases message.hopCount <;> rfl
  have hsequence : (writeOption writeHtonU16 message.sequenceNumber).length =
      if message.sequenceNumber.isSome then 2 else 0 := by
    cases message.sequenceNumber with
    | none => rfl
    | some value => exact length_writeHtonU16 value
  have hlead : (message.lead held).length = 4 +
      (if message.originatorAddress.isSome then k.value.toNat + 1 else 0) +
      (if message.hopLimit.isSome then 1 else 0) + (if message.hopCount.isSome then 1 else 0) +
      (if message.sequenceNumber.isSome then 2 else 0) +
      (PbbTlvBlock.serialize message.tlvs).length := by
    rw [lead]
    simp only [List.length_append, horiginator, hhopLimit, hhopCount, hsequence,
      length_writeHtonU16]
    rfl
  rw [serialize_eq_lead, List.length_append, writeBlocks, ← hblocks, getSerializedSize, htlvs]
  congr 1
  rw [hlead, UInt32.ofNat_add _ (PbbTlvBlock.serialize message.tlvs).length]
  congr 1
  cases k <;> cases message.originatorAddress.isSome <;> cases message.hopLimit.isSome <;>
    cases message.hopCount.isSome <;> cases message.sequenceNumber.isSome <;> rfl

/-- A message keeps nothing of the buffer exactly if its address blocks have addresses. -/
theorem serialize_held_iff (message : PbbMessage k) :
    (∀ held, message.serialize held = message.serialize fun _ => 0) ↔
      ∀ block ∈ message.addressBlocks, block.addresses ≠ [] := by
  constructor
  · intro h block hblock
    refine block.serialize_held_iff.mp fun b => ?_
    have hsame := h fun _ => b
    rw [serialize_eq_lead, serialize_eq_lead] at hsame
    have hblocks (c : UInt8) : message.writeBlocks (fun _ => c) =
        message.addressBlocks.flatMap fun block => block.serialize c := by
      refine flatMap_placed fun place hplace => ?_
      obtain ⟨i, hi, rfl⟩ := List.mem_mapIdx.mp hplace
      rfl
    have hlast := (List.append_inj hsame
      (by simp only [lead, List.length_append, length_writeHtonU16])).2
    rw [hblocks, hblocks] at hlast
    exact flatMap_inj (fun block => block.length_serialize_held b) hlast block hblock
  · intro h held
    have hblocks (held : Nat → UInt8) : message.writeBlocks held =
        message.addressBlocks.flatMap fun block => block.serialize 0 :=
      flatMap_placed fun place hplace =>
        place.1.serialize_held_iff.mpr (h place.1 (fst_mem_placed hplace)) place.2
    simp only [serialize, contents, hblocks]

end PbbMessage

namespace AnyPbbMessage

def received (message : AnyPbbMessage) : Option AnyPbbMessage :=
  message.2.received.map fun read => ⟨message.1, read⟩

theorem received_eq_self (message : AnyPbbMessage) :
    received message = some message ↔ message.2.ReadBack := by
  obtain ⟨k, message⟩ := message
  rw [← message.received_eq_self, received]
  cases message.received with
  | none => simp
  | some read => simp

variable {held : Nat → UInt8}

theorem deserializeMessage_write (message : AnyPbbMessage) (h : message.2.WellFormed) :
    Outcome (deserializeMessage (serialize message held ++ rest)) rest
      ((received message).map some) := by
  obtain ⟨k, message⟩ := message
  obtain ⟨-, -, -, -, haddrlen⟩ := PbbMessage.flagBits_spec k
    message.originatorAddress.isSome message.hopLimit.isSome message.hopCount.isSome
    message.sequenceNumber.isSome
  rw [← PbbMessage.flags_eq] at haddrlen
  have hread := @PbbMessage.readsAs_deserialize k message held h rest
  have hnext : next (serialize ⟨k, message⟩ held ++ rest) 1 =
      .ok (message.flags :: (serialize ⟨k, message⟩ held ++ rest).tail.tail) := rfl
  rw [deserializeMessage, hnext, ok_bind, readU8_cons, ok_bind]
  dsimp only
  rw [haddrlen, received, Option.map_map]
  cases k with
  | ipv4 =>
    rw [if_pos (.inr rfl)]
    exact hread.map
  | ipv6 =>
    rw [if_neg (by decide), if_pos rfl]
    exact hread.map

theorem four_le_length (message : AnyPbbMessage) (held : Nat → UInt8) :
    4 ≤ (serialize message held).length := by
  rw [serialize, PbbMessage.length_serialize]
  exact Nat.le_add_right 4 _

end AnyPbbMessage

/-! ## Packets -/

namespace PbbPacket

variable {packet : PbbPacket}

/-- The TLV block and the messages are well formed. -/
structure WellFormed (packet : PbbPacket) : Prop where
  tlvs : PbbTlvBlock.WellFormed packet.tlvs
  messages : ∀ message ∈ packet.messages, message.2.WellFormed

/-- What must hold of a packet so that it is read back, and written the same way again. -/
structure ReadBack (packet : PbbPacket) : Prop where
  version : packet.version = VERSION
  forceTlv : packet.forceTlv = false
  size : (packet.serialize fun _ _ => 0).length ≤ 2 ^ 31
  tlvs : ∀ tlv ∈ packet.tlvs, tlv.isMultivalue = false
  messages : ∀ message ∈ packet.messages, message.2.ReadBack
  addresses : ∀ message ∈ packet.messages, ∀ block ∈ message.2.addressBlocks,
    block.addresses ≠ []

/-- The packet is as large as it says, reading its bytes reads them all and gives the packet,
and the packet that is read is written the same way: into a buffer that `held` some bytes, and then
into one that held others. -/
structure RoundTrips (packet : PbbPacket) (held others : Nat → Nat → UInt8) : Prop where
  size : (packet.serialize held).length = packet.getSerializedSize.toNat
  read : ∃ n, deserialize (packet.serialize held) = .ok (packet, n, []) ∧
    n.toNat = (packet.serialize held).length
  again : ∀ packet' n rest, deserialize (packet.serialize held) = .ok (packet', n, rest) →
    packet'.serialize others = packet.serialize held

def receivedWith (packet : PbbPacket) (messages : List AnyPbbMessage) : PbbPacket :=
  ⟨VERSION, packet.sequenceNumber, false, PbbTlvBlock.received packet.tlvs, messages⟩

/-- A message with what the buffer holds where it is written to. -/
abbrev Place : Type := AnyPbbMessage × (Nat → UInt8)

def writePlaces (places : List Place) : List UInt8 :=
  places.flatMap fun place => place.1.serialize place.2

theorem readMessages_write (places : List Place) {fuel : Nat} (hfuel : places.length ≤ fuel)
    (h : ∀ place ∈ places, place.1.2.WellFormed) :
    Outcome (readMessages fuel (writePlaces places)) []
      ((places.mapM fun place : Place => place.1.received).map fun read => (read, true)) := by
  induction places generalizing fuel with
  | nil =>
    cases fuel with
    | zero => rfl
    | succ fuel => rfl
  | cons place places ih =>
    obtain ⟨fuel, rfl⟩ := Nat.exists_eq_add_one_of_ne_zero (Nat.ne_zero_of_lt hfuel)
    have hfirst := @AnyPbbMessage.deserializeMessage_write (writePlaces places) place.2 place.1
      (h place (.head _))
    have hothers := ih (Nat.le_of_succ_le_succ hfuel)
      fun p hp => h p (.tail _ hp)
    have hmore : (writePlaces (place :: places)).isEmpty = false := by
      have hlong := place.1.four_le_length place.2
      cases hbytes : writePlaces (place :: places) with
      | nil =>
        have hlen := congrArg List.length hbytes
        rw [writePlaces, List.flatMap_cons, List.length_append, List.length_nil] at hlen
        omega
      | cons b bytes => rfl
    rw [readMessages, hmore, if_neg Bool.false_ne_true, writePlaces, List.flatMap_cons,
      ← writePlaces, List.mapM_cons]
    cases hreceived : place.1.received with
    | none =>
      rw [hreceived] at hfirst
      obtain ⟨e, he⟩ := hfirst
      exact ⟨e, by rw [he]; rfl⟩
    | some read =>
      rw [hreceived] at hfirst
      have hok : AnyPbbMessage.deserializeMessage
          (place.1.serialize place.2 ++ writePlaces places) =
            .ok (some read, writePlaces places) := hfirst
      rw [hok, ok_bind]
      dsimp only
      cases hmessages : places.mapM (fun place : Place => place.1.received) with
      | none =>
        rw [hmessages] at hothers
        obtain ⟨e, he⟩ := hothers
        exact ⟨e, by rw [he]; rfl⟩
      | some reads =>
        rw [hmessages] at hothers
        have hrest : readMessages fuel (writePlaces places) =
            .ok ((reads, true), []) := hothers
        rw [hrest]
        rfl

theorem flags_spec (packet : PbbPacket) :
    hasFlag packet.flags PHAS_SEQ_NUM = packet.sequenceNumber.isSome ∧
      hasFlag packet.flags PHAS_TLV = packet.writesTlvs ∧ packet.flags >>> 4 = VERSION := by
  rw [flags]
  generalize packet.sequenceNumber.isSome = hasSequence
  generalize packet.writesTlvs = hasTlvs
  revert hasSequence hasTlvs
  decide

theorem readTlvs_write (h : PbbTlvBlock.WellFormed packet.tlvs) :
    ∃ tlvs, readIf (hasFlag packet.flags PHAS_TLV) PbbTlvBlock.deserialize
      ((if packet.writesTlvs then PbbTlvBlock.serialize packet.tlvs else []) ++ rest) =
        .ok (tlvs, rest) ∧ tlvs.getD [] = PbbTlvBlock.received packet.tlvs := by
  obtain ⟨-, hwrites, -⟩ := packet.flags_spec
  rw [hwrites]
  cases hw : packet.writesTlvs with
  | true =>
    have hread : PbbTlvBlock.deserialize (PbbTlvBlock.serialize packet.tlvs ++ rest) =
        .ok (PbbTlvBlock.received packet.tlvs, rest) :=
      PbbTlvBlock.readsAs_deserialize h rest
    refine ⟨some (PbbTlvBlock.received packet.tlvs), ?_, rfl⟩
    rw [readIf, if_pos rfl, if_pos rfl, hread]
    rfl
  | false =>
    have hnil : packet.tlvs = [] := by
      rw [writesTlvs, Bool.or_eq_false_iff, Bool.not_eq_false', List.isEmpty_iff] at hw
      exact hw.1
    exact ⟨none, rfl, by rw [hnil]; rfl⟩

variable {held : Nat → Nat → UInt8}

/-- What is read back from the bytes of a packet, or that nothing is. -/
theorem deserialize_write (h : packet.WellFormed) :
    (packet.messages.mapM AnyPbbMessage.received = none →
      ∃ e, deserialize (packet.serialize held) = .error e) ∧
    ∀ messages, packet.messages.mapM AnyPbbMessage.received = some messages →
      deserialize (packet.serialize held) =
        .ok (packet.receivedWith messages, getDistanceFrom [] (packet.serialize held), []) := by
  obtain ⟨hsequence, -, hversion⟩ := packet.flags_spec
  obtain ⟨tlvs, htlvs, htlvs'⟩ :=
    @readTlvs_write (packet.writeMessages held) packet h.tlvs
  have hmessages := readMessages_write (placed held packet.messages)
    (length_le_flatMap (placed held packet.messages) fun place _ =>
      Nat.lt_of_lt_of_le (by decide) (place.1.four_le_length place.2))
    fun place hplace => h.messages place.1 (fst_mem_placed hplace)
  rw [mapM_placed AnyPbbMessage.received, writePlaces, ← writeMessages] at hmessages
  have hfirst : readU8 (packet.serialize held) = .ok (packet.flags,
      writeOption writeHtonU16 packet.sequenceNumber ++
        ((if packet.writesTlvs then PbbTlvBlock.serialize packet.tlvs else []) ++
          packet.writeMessages held)) := by
    rw [serialize]
    simp only [List.append_assoc]
    rfl
  have hrun : deserialize (packet.serialize held) = (do
      let r ← readMessages (packet.writeMessages held).length
        (packet.writeMessages held)
      pure (⟨if r.1.2 then packet.flags >>> 4 else VERSION, packet.sequenceNumber, false,
        tlvs.getD [], r.1.1⟩, getDistanceFrom r.2 (packet.serialize held), r.2)) := by
    rw [deserialize, hfirst, ok_bind]
    dsimp only
    rw [readIf_write (fun v _ => readsAs_readNtohU16 v) hsequence, ok_bind]
    dsimp only
    rw [htlvs]
    rfl
  rw [hrun, hversion, htlvs']
  constructor
  · intro hread
    rw [hread] at hmessages
    obtain ⟨e, he⟩ := hmessages
    exact ⟨e, by rw [he]; rfl⟩
  · intro messages hread
    rw [hread] at hmessages
    have hok : readMessages (packet.writeMessages held).length
        (packet.writeMessages held) = .ok ((messages, true), []) :=
      hmessages
    rw [hok]
    rfl

theorem receivedWith_eq_self {messages : List AnyPbbMessage} :
    packet.receivedWith messages = packet ↔ packet.version = VERSION ∧
      packet.forceTlv = false ∧ PbbTlvBlock.received packet.tlvs = packet.tlvs ∧
        messages = packet.messages := by
  obtain ⟨version, sequenceNumber, forceTlv, tlvs, messages'⟩ := packet
  rw [receivedWith]
  simp [eq_comm]

theorem distance_eq_length (bytes : List UInt8) :
    (getDistanceFrom [] bytes).toNat = bytes.length ↔ bytes.length ≤ 2 ^ 31 := by
  rw [getDistanceFrom, List.length_nil, UInt32.toNat_ofNat']
  have hbmod := @Int.bmod_def (((bytes.length : Int) - ((0 : Nat) : Int))) (2 ^ 32)
  rw [hbmod]
  split <;> omega

theorem getSerializedSize_eq (h : packet.WellFormed)
    (hread : ∀ message ∈ packet.messages, message.2.ReadBack) :
    packet.getSerializedSize = UInt32.ofNat (packet.serialize held).length := by
  have htlvs := PbbTlvBlock.getSerializedSize_eq h.tlvs.tlvs
  have hmessages (n : Nat) := @foldl_size _ (fun place => place.1.serialize place.2)
    (fun place => place.1.getSerializedSize) (placed held packet.messages)
    (fun place hplace => PbbMessage.getSerializedSize_eq
      (h.messages place.1 (fst_mem_placed hplace)) (hread place.1 (fst_mem_placed hplace))) n
  simp only [foldl_placed AnyPbbMessage.getSerializedSize] at hmessages
  have hsequence : (writeOption writeHtonU16 packet.sequenceNumber).length =
      if packet.sequenceNumber.isSome then 2 else 0 := by
    cases packet.sequenceNumber with
    | none => rfl
    | some value => exact length_writeHtonU16 value
  rw [serialize, List.length_append, List.length_append, List.length_append, writeMessages,
    ← hmessages,
    getSerializedSize, htlvs, hsequence]
  congr 1
  cases packet.sequenceNumber.isSome <;> cases packet.writesTlvs <;>
    simp only [Bool.false_eq_true, if_true, if_false, UInt32.ofNat_add, List.length_nil,
      List.length_singleton] <;> rfl

theorem length_serialize_held (packet : PbbPacket) (held : Nat → Nat → UInt8) :
    (packet.serialize held).length = (packet.serialize fun _ _ => 0).length := by
  have hmessages (held : Nat → Nat → UInt8) := @length_flatMap_placed _ _ held packet.messages
    AnyPbbMessage.serialize (fun _ => 0) fun message held => message.2.length_serialize_held held
  simp only [serialize, writeMessages, List.length_append, hmessages]

/-- A packet keeps nothing of the buffer exactly if its address blocks have addresses. -/
theorem serialize_held_iff (packet : PbbPacket) :
    (∀ held others, packet.serialize others = packet.serialize held) ↔
      ∀ message ∈ packet.messages, ∀ block ∈ message.2.addressBlocks, block.addresses ≠ [] := by
  constructor
  · intro h message hmessage
    refine message.2.serialize_held_iff.mp fun b => ?_
    have hsame := List.append_cancel_left (h (fun _ _ => 0) fun _ => b)
    have hmessages (c : Nat → UInt8) : packet.writeMessages (fun _ => c) =
        packet.messages.flatMap fun message => message.serialize c := by
      refine flatMap_placed fun place hplace => ?_
      obtain ⟨i, hi, rfl⟩ := List.mem_mapIdx.mp hplace
      rfl
    rw [hmessages, hmessages] at hsame
    exact flatMap_inj (fun message => message.2.length_serialize_held b) hsame message hmessage
  · intro h held others
    have hmessages (held : Nat → Nat → UInt8) : packet.writeMessages held =
        packet.messages.flatMap fun message => message.serialize fun _ => 0 :=
      flatMap_placed fun place hplace =>
        place.1.2.serialize_held_iff.mpr (h place.1 (fst_mem_placed hplace)) place.2
    rw [serialize, serialize, hmessages, hmessages]

/-- **Which packets are read back.** `Serialize` writes `GetSerializedSize` bytes, `Deserialize`
reads them all and yields the packet, and this writes them again, whatever the buffers held, if and
only if the condition holds of the packet. -/
theorem roundTrips_iff (packet : PbbPacket) (h : packet.WellFormed) :
    (∀ held others, packet.RoundTrips held others) ↔ packet.ReadBack := by
  constructor
  · intro hall
    have haddresses : ∀ held others, packet.serialize others = packet.serialize held := by
      intro held others
      obtain ⟨n, hread, -⟩ := (hall held others).read
      exact (hall held others).again packet n [] hread
    obtain ⟨n, hread, hn⟩ := (hall (fun _ _ => 0) fun _ _ => 0).read
    obtain ⟨hfails, hsucceeds⟩ := @deserialize_write packet (fun _ _ => 0) h
    cases hmessages : packet.messages.mapM AnyPbbMessage.received with
    | none =>
      obtain ⟨e, he⟩ := hfails hmessages
      rw [he] at hread
      cases hread
    | some messages =>
      rw [hsucceeds messages hmessages, Except.ok.injEq, Prod.mk.injEq, Prod.mk.injEq] at hread
      obtain ⟨hself, rfl, -⟩ := hread
      obtain ⟨hversion, hforce, htlvs, rfl⟩ := receivedWith_eq_self.mp hself
      exact
        { version := hversion
          forceTlv := hforce
          size := (distance_eq_length _).mp hn
          tlvs := PbbTlvBlock.received_eq_self.mp htlvs
          messages := fun message hmessage => (AnyPbbMessage.received_eq_self message).mp
            ((mapM_eq_self packet.messages).mp hmessages message hmessage)
          addresses := packet.serialize_held_iff.mp haddresses }
  · intro hread held others
    have hmessages : packet.messages.mapM AnyPbbMessage.received = some packet.messages :=
      (mapM_eq_self packet.messages).mpr fun message hmessage =>
        (AnyPbbMessage.received_eq_self message).mpr (hread.messages message hmessage)
    have hself : packet.receivedWith packet.messages = packet :=
      receivedWith_eq_self.mpr ⟨hread.version, hread.forceTlv,
        PbbTlvBlock.received_eq_self.mpr hread.tlvs, rfl⟩
    have hrun := (@deserialize_write packet held h).2 packet.messages hmessages
    rw [hself] at hrun
    have hsize : (packet.serialize held).length ≤ 2 ^ 31 :=
      packet.length_serialize_held held ▸ hread.size
    exact
      { size := by
          rw [@getSerializedSize_eq packet held h hread.messages, UInt32.toNat_ofNat']
          omega
        read := ⟨_, hrun, (distance_eq_length _).mpr hsize⟩
        again := by
          intro packet' n rest hagain
          rw [hrun, Except.ok.injEq, Prod.mk.injEq] at hagain
          rw [← hagain.1]
          exact packet.serialize_held_iff.mpr hread.addresses held others }

/-- A packet with a message whose two addresses share a head and a tail. -/
def samplePacket : PbbPacket :=
  let low : UInt32 := 0x0a000109
  let high : UInt32 := 0x0a000209
  { version := VERSION
    sequenceNumber := some 7
    forceTlv := false
    tlvs := [⟨1, none, none, none, false, some [5, 6]⟩]
    messages := [⟨.ipv4, ⟨2, some low, none, some 3, none, [],
      [⟨[low, high], [24], [⟨4, some 1, some 0, some 1, false, none⟩]⟩]⟩⟩] }

theorem wellFormed_samplePacket : samplePacket.WellFormed where
  tlvs :=
    { tlvs := by
        intro tlv htlv
        obtain rfl := List.mem_singleton.mp htlv
        exact ⟨nofun, nofun⟩
      size := by decide }
  messages := by
    intro message hmessage
    obtain rfl := List.mem_singleton.mp hmessage
    exact
      { tlvs := ⟨nofun, by decide⟩
        blocks := by
          intro block hblock
          obtain rfl := List.mem_singleton.mp hblock
          exact
            { addresses := by decide
              prefixes := by decide
              tlvs :=
                { tlvs := by
                    intro tlv htlv
                    obtain rfl := List.mem_singleton.mp htlv
                    exact ⟨fun _ => rfl, nofun⟩
                  size := by decide } }
        size := by decide +kernel }

theorem roundTrips_iff_samplePacket :
    samplePacket.RoundTrips (fun _ _ => 0) fun _ j => UInt8.ofNat j :=
  (roundTrips_iff samplePacket wellFormed_samplePacket).mpr
    { version := rfl
      forceTlv := rfl
      size := by decide +kernel
      tlvs := by decide
      messages := by
        intro message hmessage
        obtain rfl := List.mem_singleton.mp hmessage
        exact (AnyPbbMessage.received_eq_self _).mp (by decide +kernel)
      addresses := by
        intro message hmessage
        obtain rfl := List.mem_singleton.mp hmessage
        decide } _ _

/-- Three addresses, of which the last two have two bytes in common at the end, and all only
one. -/
def growingTail : PbbPacket :=
  let first : UInt32 := 0x01000009
  let second : UInt32 := 0x02000509
  let third : UInt32 := 0x03000509
  { version := VERSION
    sequenceNumber := none
    forceTlv := false
    tlvs := []
    messages := [⟨.ipv4, ⟨2, none, none, none, none, [], [⟨[first, second, third], [], []⟩]⟩⟩] }

theorem growingTail_not_read_back :
    ¬∀ packet : PbbPacket, packet.WellFormed → ∀ held others, packet.RoundTrips held others := by
  intro hall
  have hwf : growingTail.WellFormed :=
    { tlvs := ⟨nofun, by decide⟩
      messages := by
        intro message hmessage
        obtain rfl := List.mem_singleton.mp hmessage
        exact
          { tlvs := ⟨nofun, by decide⟩
            blocks := by
              intro block hblock
              obtain rfl := List.mem_singleton.mp hblock
              exact ⟨by decide, by decide, ⟨nofun, by decide⟩⟩
            size := by decide +kernel } }
  obtain ⟨n, hread, -⟩ := (hall growingTail hwf (fun _ _ => 0) fun _ _ => 0).read
  -- the first address comes back with the third byte of the others
  have hother : ∀ n,
      deserialize (growingTail.serialize fun _ _ => 0) ≠ .ok (growingTail, n, []) := by
    intro n h
    have hpackets : (deserialize (growingTail.serialize fun _ _ => 0)).toOption.map Prod.fst ≠
        some growingTail := by
      decide +kernel
    rw [h] at hpackets
    exact hpackets rfl
  exact hother n hread

end PbbPacket

end Pbb

end Ns3
