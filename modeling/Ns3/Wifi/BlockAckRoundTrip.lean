/-
  A block ack that is sent and read.

  Each Per AID TID Info subfield has its own length, which only its context and the
  fragment number of its starting sequence control give away.  One subfield is written
  and read in one lemma; the frame follows by induction on the subfields.
-/
import Ns3.Wifi.BlockAckBitmap

namespace Ns3

open Ns3.Lib BufferIterator

namespace CtrlBAckResponseHeader

variable {h : CtrlBAckResponseHeader} {e : BaInfoInstance} {index len : Nat} {rest : List UInt8}
  {variant : BlockAckVariant}

theorem LengthOk.nonempty (hok : LengthOk variant len) (hlength : e.bitmap.length = len) :
    (!e.bitmap.isEmpty) = true := by
  have hpos := hok.pos
  cases hb : e.bitmap with
  | nil =>
    rw [hb] at hlength
    rw [← hlength] at hpos
    exact absurd hpos (Nat.lt_irrefl 0)
  | cons _ _ => rfl

/-! ## The control fields -/

variable {fragment : Nat}

theorem control_eq {seq : Nat} (hfragment : fragment < 16) :
    ((seq <<< 4) &&& 0xfff0) ||| fragment = seq % SEQNO_SPACE_SIZE * 16 + fragment := by
  have hmask : (0xfff0 : Nat) = 0xfff <<< 4 := by decide
  have hlow : seq &&& 0xfff = seq % SEQNO_SPACE_SIZE := Nat.and_two_pow_sub_one_eq_mod seq 12
  have hor := Nat.shiftLeft_add_eq_or_of_lt (i := 4) hfragment (seq % SEQNO_SPACE_SIZE)
  rw [hmask, ← Nat.shiftLeft_and_distrib, hlow, ← hor, Nat.shiftLeft_eq]

theorem fragment_of_control {x : Nat} (hfragment : fragment < 16) :
    (x * 16 + fragment) &&& 0x000f = fragment := by
  have hlow := Nat.and_two_pow_sub_one_eq_mod (x * 16 + fragment) 4
  have hmod : (x * 16 + fragment) % 2 ^ 4 = fragment := by omega
  exact hlow.trans hmod

theorem seq_of_control {x : Nat} (hx : x < SEQNO_SPACE_SIZE) (hfragment : fragment < 16) :
    ((x * 16 + fragment) >>> 4) &&& 0x0fff = x := by
  have hshift : (x * 16 + fragment) >>> 4 = x := by
    rw [Nat.shiftRight_eq_div_pow]
    omega
  have hlow := Nat.and_two_pow_sub_one_eq_mod x 12
  rw [hshift]
  exact hlow.trans (Nat.mod_eq_of_lt hx)

theorem multiStaFragment_read (hf : multiStaFragment len = some fragment) :
    fragment < 16 ∧ ¬fragment &&& 0x0001 = 1 ∧ multiStaLength fragment = some len := by
  unfold multiStaFragment at hf
  split at hf <;> first
    | (obtain rfl := Option.some.inj hf; decide)
    | cases hf

theorem compressedFragment_read (hf : compressedFragment len = some fragment) :
    fragment < 16 ∧ ¬fragment &&& 0x0001 = 1 ∧ compressedLength fragment = some len := by
  unfold compressedFragment at hf
  split at hf <;> first
    | (obtain rfl := Option.some.inj hf; decide)
    | cases hf

theorem toNat_u16 {n : Nat} (hn : n < 2 ^ 16) : (UInt16.ofNat n).toNat = n :=
  UInt16.toNat_ofNat_of_lt hn

theorem control_lt {x : Nat} (hx : x < SEQNO_SPACE_SIZE) (hfragment : fragment < 16) :
    x * 16 + fragment < 2 ^ 16 := by
  simp only [SEQNO_SPACE_SIZE] at hx
  omega

theorem tid_field (tid : Nat) : (tid <<< 12) &&& (0xf <<< 12) = (tid % 16) <<< 12 := by
  have hlow := Nat.and_two_pow_sub_one_eq_mod tid 4
  rw [← Nat.shiftLeft_and_distrib]
  exact congrArg (· <<< 12) hlow

theorem baControl_fields (hwf : h.WellFormed) :
    h.getBaControl < 2 ^ 16 ∧
      (h.getBaControl >>> 1) &&& 0x0f = variantBits h.baType.variant >>> 1 := by
  have hlow : ∀ x : Nat, x &&& 0x0f = x % 16 := fun x => Nat.and_two_pow_sub_one_eq_mod x 4
  rcases hwf.variant with hv | hv
  · have hor := Nat.shiftLeft_add_eq_or_of_lt (i := 12)
      (b := (if h.baAckPolicy then 0x1 else 0) ||| 0x02 <<< 1)
      (by cases h.baAckPolicy <;> decide) (h.tidInfo % 16)
    have hcontrol : h.getBaControl =
        (h.tidInfo % 16) * 4096 + ((if h.baAckPolicy then 0x1 else 0) ||| 0x02 <<< 1) := by
      rw [getBaControl, hv]
      dsimp only [variantBits]
      rw [if_pos (by decide), tid_field, Nat.lor_comm, ← hor, Nat.shiftLeft_eq]
    rw [hcontrol, hlow, Nat.shiftRight_eq_div_pow, hv]
    cases h.baAckPolicy with
    | false =>
      have hval : ((if false = true then 0x1 else 0) ||| 0x02 <<< 1 : Nat) = 4 := by decide
      have hbits : variantBits .compressed >>> 1 = 2 := by decide
      rw [hval, hbits]
      omega
    | true =>
      have hval : ((if true = true then 0x1 else 0) ||| 0x02 <<< 1 : Nat) = 5 := by decide
      have hbits : variantBits .compressed >>> 1 = 2 := by decide
      rw [hval, hbits]
      omega
  · rw [getBaControl, hv, if_neg (by decide)]
    cases h.baAckPolicy with
    | false => decide
    | true => decide

theorem setBaControl_of (h₀ : CtrlBAckResponseHeader) (hwf : h.WellFormed) :
    ∃ h₁, h₀.setBaControl h.getBaControl = .ok h₁ ∧
      h₁.baType = .ofVariant h.baType.variant ∧
      h₁.baInfo = (BlockAckType.ofVariant h.baType.variant).bitmapLen.map BaInfoInstance.zero := by
  have hbits := (baControl_fields hwf).2
  rcases hwf.variant with hv | hv
  · have hval : variantBits .compressed >>> 1 = 0x02 := by decide
    rw [hv, hval] at hbits
    rw [setBaControl, hbits, hv]
    exact ⟨_, rfl, rfl, rfl⟩
  · have hval : variantBits .multiSta >>> 1 = 0x0b := by decide
    rw [hv, hval] at hbits
    rw [setBaControl, hbits, hv]
    exact ⟨_, rfl, rfl, rfl⟩

/-! ## The bitmap -/

theorem readBitmap_of {bytes done left : List UInt8} (hlen : left.length = bytes.length) :
    readBitmap (done ++ left) done.length bytes.length (bytes ++ rest) =
      .ok (done ++ bytes, rest) := by
  induction bytes generalizing done left with
  | nil =>
    obtain rfl := List.eq_nil_of_length_eq_zero hlen
    rfl
  | cons b bytes ih =>
    obtain ⟨x, left, rfl⟩ := List.exists_cons_of_length_eq_add_one hlen
    have hlt : done.length < (done ++ x :: left).length := by
      rw [List.length_append, List.length_cons]
      omega
    have hset : (done ++ x :: left).set done.length b = (done ++ [b]) ++ left := by
      rw [List.set_append_right _ _ le_rfl, Nat.sub_self, List.set_cons_zero,
        List.append_assoc]
      rfl
    have hnext : done.length + 1 = (done ++ [b]).length := by
      rw [List.length_append]
      rfl
    rw [List.length_cons, readBitmap, List.cons_append, readU8_cons, ok_bind]
    dsimp only
    rw [if_pos hlt, hset, hnext, ih (Nat.succ.inj hlen), List.append_assoc]
    rfl

theorem readBitmap_all {bitmap bytes : List UInt8} (hlen : bitmap.length = bytes.length) :
    readBitmap bitmap 0 bytes.length (bytes ++ rest) = .ok (bytes, rest) := by
  have hread := @readBitmap_of rest bytes [] bitmap hlen
  exact hread

/-! ## One Per AID TID Info subfield -/

variable {g : CtrlBAckResponseHeader}

/-- The bytes of a subfield, `fragment` being its fragment number. -/
def instanceBytes (e : BaInfoInstance) (fragment : Nat) : List UInt8 :=
  writeHtolsbU16 (UInt16.ofNat e.aidTidInfo) ++
    if e.aid11 ≠ 2045 then
      if !e.bitmap.isEmpty then
        writeHtolsbU16 (UInt16.ofNat (e.startingSeq % SEQNO_SPACE_SIZE * 16 + fragment)) ++ e.bitmap
      else []
    else writeHtolsbU32 0 ++ e.ra.val

def readBack (e : BaInfoInstance) : BaInfoInstance :=
  if e.aid11 ≠ 2045 then
    if !e.bitmap.isEmpty then
      { e with startingSeq := e.startingSeq % SEQNO_SPACE_SIZE, ra := default }
    else { BaInfoInstance.zero 0 with aidTidInfo := e.aidTidInfo }
  else { BaInfoInstance.zero 0 with aidTidInfo := e.aidTidInfo, ra := e.ra }

theorem serializeInstance_of (hwf : h.WellFormed) (hv : h.baType.variant = .multiSta)
    (he : h.baInfo[index]? = some e) (hlen : h.baType.bitmapLen[index]? = some len) :
    h.serializeInstance index = .ok (instanceBytes e ((multiStaFragment len).getD 0)) := by
  rw [serializeInstance, instanceAt_of hwf he, ok_bind, instanceBytes]
  by_cases haid : e.aid11 ≠ 2045
  · rw [if_pos haid, if_pos haid]
    cases hempty : e.bitmap.isEmpty with
    | true =>
      rw [if_neg (by decide), if_neg (by decide), List.append_nil]
      rfl
    | false =>
      obtain ⟨fragment, hfragment⟩ : ∃ fragment, multiStaFragment len = some fragment := by
        cases hwf.instances index e len he hlen with
        | bitmap _ _ hok =>
          rw [hv] at hok
          exact hok
        | ack _ _ _ hnone _ =>
          rw [hnone] at hempty
          cases hempty
        | unassociated _ haid' _ => exact absurd haid' haid
      have hcontrol : h.getStartingSequenceControl index =
          .ok (e.startingSeq % SEQNO_SPACE_SIZE * 16 + fragment) := by
        rw [getStartingSequenceControl, instanceAt_of hwf he, ok_bind, hv]
        dsimp only
        rw [nsAssert_of hwf.lengths, ok_bind, hempty, Bool.not_false, bitmapLenAt_of hlen]
        dsimp only [nsAssert]
        rw [if_pos rfl, ok_bind, ok_bind, hfragment, orAbort, pure_bind,
          control_eq (multiStaFragment_read hfragment).1]
        rfl
      have hbitmap : h.serializeBitmap index = .ok e.bitmap := by
        rw [serializeBitmap, instanceAt_of hwf he, ok_bind, hv]
        rfl
      rw [if_pos (by decide), if_pos (by decide), hcontrol, ok_bind, hbitmap, ok_bind, hfragment,
        Option.getD_some, ← List.append_assoc]
      rfl
  · rw [if_neg haid, if_neg haid, ← List.append_assoc]
    rfl

/-- A Multi-STA block ack that has been read as far as subfield `index`. -/
structure ReadTo (index : Nat) (g : CtrlBAckResponseHeader) : Prop where
  variant : g.baType.variant = .multiSta
  instances : g.baInfo.length = index
  bitmapLens : g.baType.bitmapLen.length = index

def push (g : CtrlBAckResponseHeader) (e : BaInfoInstance) (len : Nat) : CtrlBAckResponseHeader :=
  { g with
    baInfo := g.baInfo ++ [e]
    baType := { g.baType with bitmapLen := g.baType.bitmapLen ++ [len] } }

theorem ReadTo.push (hg : ReadTo index g) :
    ReadTo (index + 1) (g.push e len) where
  variant := hg.variant
  instances := by
    rw [CtrlBAckResponseHeader.push, List.length_append, hg.instances]
    rfl
  bitmapLens := by
    rw [CtrlBAckResponseHeader.push, List.length_append, hg.bitmapLens]
    rfl

theorem ReadTo.instanceAt (hg : ReadTo index g) : (g.push e len).instanceAt index = .ok e := by
  have hv : (g.push e len).baType.variant = .multiSta ∨ index = 0 := .inl hg.variant
  have he : (g.push e len).baInfo[index]? = some e := by
    rw [CtrlBAckResponseHeader.push, ← hg.instances]
    exact List.getElem?_concat_length
  rw [CtrlBAckResponseHeader.instanceAt, nsAssert_of hv, ok_bind, he]
  rfl

theorem modify_concat (es : List BaInfoInstance) (e : BaInfoInstance)
    (f : BaInfoInstance → BaInfoInstance) : (es ++ [e]).modify es.length f = es ++ [f e] := by
  induction es with
  | nil => rfl
  | cons x es ih =>
    rw [List.cons_append, List.length_cons, List.modify_succ_cons, ih]
    rfl

theorem ReadTo.modifyAt (hg : ReadTo index g) (f : BaInfoInstance → BaInfoInstance) :
    (g.push e len).modifyAt index f = g.push (f e) len := by
  have hmodify : (g.baInfo ++ [e]).modify index f = g.baInfo ++ [f e] := by
    rw [← hg.instances]
    exact modify_concat g.baInfo e f
  rw [CtrlBAckResponseHeader.modifyAt, CtrlBAckResponseHeader.push, hmodify]
  rfl

theorem ReadTo.setLength (hg : ReadTo index g) {len' : Nat} :
    (g.push e len).baType.bitmapLen.set index len' = (g.push e len').baType.bitmapLen := by
  dsimp only [CtrlBAckResponseHeader.push]
  rw [← hg.bitmapLens, List.set_append_right _ _ le_rfl, Nat.sub_self]
  rfl

theorem deserializeInstance_of (hg : ReadTo index g) (haidlt : e.aidTidInfo < 2 ^ 16)
    (hok : InstanceOk .multiSta e len) :
    g.deserializeInstance index (instanceBytes e ((multiStaFragment len).getD 0) ++ rest) =
      .ok (g.push (readBack e) len, rest) := by
  let e₀ : BaInfoInstance := { BaInfoInstance.zero 0 with aidTidInfo := e.aidTidInfo }
  have haid₀ : e₀.aid11 = e.aid11 := rfl
  have hack₀ : e₀.ackType = e.ackType := rfl
  have htid₀ : e₀.tid = e.tid := rfl
  rw [deserializeInstance, instanceBytes, List.append_assoc, readLsbtohU16_write, ok_bind]
  dsimp only
  rw [toNat_u16 haidlt]
  have hpush : ({ g with
      baInfo := g.baInfo ++ [e₀]
      baType := { g.baType with bitmapLen := g.baType.bitmapLen ++ [0] } } :
      CtrlBAckResponseHeader) = g.push e₀ 0 := rfl
  rw [hpush, hg.instanceAt, ok_bind, haid₀, hack₀, htid₀, readBack]
  cases hok with
  | bitmap hcontext hlength hlen =>
    obtain ⟨haid, hack, htid⟩ := hcontext.resolve_left nofun
    obtain ⟨fragment, hfragment⟩ := hlen
    obtain ⟨hlt, hodd, hread⟩ := multiStaFragment_read hfragment
    have hnonempty := LengthOk.nonempty
      (show LengthOk .multiSta len from ⟨fragment, hfragment⟩) hlength
    have hseq : e.startingSeq % SEQNO_SPACE_SIZE < SEQNO_SPACE_SIZE := Nat.mod_lt _ (by decide)
    let e₁ : BaInfoInstance := { e₀ with
      bitmap := List.replicate len 0
      startingSeq := e.startingSeq % SEQNO_SPACE_SIZE }
    have hset : (g.push e₀ 0).setStartingSequenceControl
        (e.startingSeq % SEQNO_SPACE_SIZE * 16 + fragment) index = .ok (g.push e₁ len) := by
      rw [setStartingSequenceControl, hg.instanceAt, ok_bind,
        show (g.push e₀ 0).baType.variant = .multiSta from hg.variant]
      dsimp only
      rw [fragment_of_control hlt, if_neg hodd, hread, orAbort, pure_bind, pure_bind,
        seq_of_control hseq hlt, hg.setLength]
      have hsame : ({ g.push e₀ 0 with
          baType := { (g.push e₀ 0).baType with
            bitmapLen := (g.push e₀ len).baType.bitmapLen } } : CtrlBAckResponseHeader) =
          g.push e₀ len := rfl
      rw [hsame, hg.modifyAt, hg.modifyAt]
      rfl
    have hbitmap : (g.push e₁ len).deserializeBitmap index (e.bitmap ++ rest) =
        .ok (g.push { e₁ with bitmap := e.bitmap } len, rest) := by
      have hlast : (g.push e₁ len).bitmapLenAt index = .ok len := by
        apply bitmapLenAt_of
        dsimp only [push]
        rw [← hg.bitmapLens]
        exact List.getElem?_concat_length
      rw [deserializeBitmap, hg.instanceAt, ok_bind,
        show (g.push e₁ len).baType.variant = .multiSta from hg.variant]
      dsimp only
      rw [hlast, ok_bind]
      have hreadall : readBitmap e₁.bitmap 0 len (e.bitmap ++ rest) = .ok (e.bitmap, rest) := by
        rw [← hlength]
        exact readBitmap_all (by rw [hlength]; exact List.length_replicate)
      rw [hreadall, ok_bind]
      dsimp only
      rw [hg.modifyAt]
      rfl
    have hcond : (!e.ackType) = true ∧ e.tid < 8 := by
      rw [hack]
      exact ⟨rfl, htid⟩
    rw [if_pos haid, if_pos haid, if_pos haid, if_pos hnonempty, if_pos hnonempty, if_pos hcond,
      hfragment, Option.getD_some, List.append_assoc, readLsbtohU16_write, ok_bind]
    dsimp only
    rw [toNat_u16 (control_lt hseq hlt), hset, ok_bind, hbitmap]
    rfl
  | ack _ haid hcontext hnone hzero =>
    have hempty : ¬(!e.bitmap.isEmpty) = true := by
      rw [hnone]
      decide
    have hcond : ¬((!e.ackType) = true ∧ e.tid < 8) := by
      rintro ⟨hack, htid⟩
      exact hcontext ⟨by simpa using hack, htid⟩
    rw [if_pos haid, if_pos haid, if_pos haid, if_neg hempty, if_neg hempty, if_neg hcond,
      List.nil_append, hzero]
    rfl
  | unassociated _ haid height =>
    have hne : ¬e.aid11 ≠ 2045 := fun hne => hne haid
    rw [if_neg hne, if_neg hne, if_neg hne, List.append_assoc, readLsbtohU32_write, ok_bind]
    have htake : (e.ra.val ++ rest).take 6 = e.ra.val := by
      rw [List.take_append_of_le_length (Nat.le_of_eq e.ra.property.symm), List.take_of_length_le]
      exact Nat.le_of_eq e.ra.property
    have hdrop : (e.ra.val ++ rest).drop 6 = rest := List.drop_left' e.ra.property
    have hlen6 : ((e.ra.val ++ rest).take 6).length = 6 := by
      rw [htake]
      exact e.ra.property
    dsimp only
    rw [dif_pos hlen6, hdrop, hg.modifyAt]
    have hra : (⟨(e.ra.val ++ rest).take 6, hlen6⟩ : Mac48Address) = e.ra := Subtype.ext htake
    rw [hra, hg.setLength, height]
    rfl

/-! ## The whole frame -/

variable {es : List (BaInfoInstance × Nat)}

def instancesBytes : List (BaInfoInstance × Nat) → List UInt8
  | [] => []
  | (e, len) :: es => instanceBytes e ((multiStaFragment len).getD 0) ++ instancesBytes es

theorem serializeInstances_of (hwf : h.WellFormed) (hv : h.baType.variant = .multiSta)
    (hes : ∀ k p, es[k]? = some p → h.baInfo[index + k]? = some p.1 ∧
      h.baType.bitmapLen[index + k]? = some p.2) :
    h.serializeInstances index es.length = .ok (instancesBytes es) := by
  induction es generalizing index with
  | nil => rfl
  | cons p es ih =>
    obtain ⟨he, hlen⟩ := hes 0 p rfl
    have hrest : h.serializeInstances (index + 1) es.length = .ok (instancesBytes es) := by
      refine ih fun k q hq => ?_
      have hnext := hes (k + 1) q hq
      rw [show index + 1 + k = index + (k + 1) by omega]
      exact hnext
    rw [Nat.add_zero] at he hlen
    rw [List.length_cons, serializeInstances, serializeInstance_of hwf hv he hlen, ok_bind, hrest]
    rfl

def pushAll (g : CtrlBAckResponseHeader) : List (BaInfoInstance × Nat) → CtrlBAckResponseHeader
  | [] => g
  | (e, len) :: es => pushAll (g.push (readBack e) len) es

theorem instanceBytes_ne_nil (e : BaInfoInstance) (fragment : Nat) :
    ∃ b bs, instanceBytes e fragment = b :: bs := by
  cases hbytes : instanceBytes e fragment with
  | nil =>
    have hlen : (instanceBytes e fragment).length = 0 := by rw [hbytes]; rfl
    rw [instanceBytes, List.length_append, length_writeHtolsbU16] at hlen
    omega
  | cons b bs => exact ⟨b, bs, rfl⟩

theorem deserializeInstances_of {fuel : Nat} (hg : ReadTo index g)
    (hes : ∀ p ∈ es, p.1.aidTidInfo < 2 ^ 16 ∧ InstanceOk .multiSta p.1 p.2)
    (hfuel : es.length ≤ fuel) :
    g.deserializeInstances index fuel (instancesBytes es) = .ok (g.pushAll es) := by
  induction es generalizing g index fuel with
  | nil =>
    cases fuel with
    | zero => rfl
    | succ fuel => rfl
  | cons p es ih =>
    obtain ⟨haid, hok⟩ := hes p (.head _)
    obtain ⟨fuel, rfl⟩ : ∃ n, fuel = n + 1 := ⟨fuel - 1, by rw [List.length_cons] at hfuel; omega⟩
    obtain ⟨b, bs, hbytes⟩ := instanceBytes_ne_nil p.1 ((multiStaFragment p.2).getD 0)
    have hread : g.deserializeInstance index
        (instanceBytes p.1 ((multiStaFragment p.2).getD 0) ++ instancesBytes es) =
          .ok (g.push (readBack p.1) p.2, instancesBytes es) :=
      deserializeInstance_of hg haid hok
    rw [instancesBytes, hbytes, List.cons_append, deserializeInstances, ← List.cons_append,
      ← hbytes, hread, ok_bind]
    dsimp only
    rw [ih hg.push (fun q hq => hes q (.tail _ hq))
      (by rw [List.length_cons] at hfuel; omega)]
    rfl
    exact nofun

theorem pushAll_fields (g : CtrlBAckResponseHeader) (es : List (BaInfoInstance × Nat)) :
    (g.pushAll es).baInfo = g.baInfo ++ es.map (fun p => readBack p.1) ∧
      (g.pushAll es).baType.bitmapLen = g.baType.bitmapLen ++ es.map Prod.snd ∧
      (g.pushAll es).baType.variant = g.baType.variant := by
  induction es generalizing g with
  | nil => simp [pushAll]
  | cons p es ih =>
    obtain ⟨hinfo, hlens, hvariant⟩ := ih (g.push (readBack p.1) p.2)
    refine ⟨?_, ?_, hvariant⟩
    · rw [pushAll, hinfo, push, List.append_assoc]
      rfl
    · rw [pushAll, hlens, push, List.append_assoc]
      rfl

theorem readBack_aidTidInfo (e : BaInfoInstance) : (readBack e).aidTidInfo = e.aidTidInfo := by
  unfold readBack
  split
  · split
    · rfl
    · rfl
  · rfl

theorem Carries.nonempty (hwf : h.WellFormed) (hc : h.Carries index len e) :
    (!e.bitmap.isEmpty) = true := by
  obtain ⟨hlength, hok⟩ := hc.length hwf
  exact hok.nonempty hlength

theorem HasBitmap.readBack (hc : HasBitmap variant e) : HasBitmap variant (readBack e) := by
  unfold HasBitmap BaInfoInstance.aid11 BaInfoInstance.ackType BaInfoInstance.tid at *
  rw [readBack_aidTidInfo]
  exact hc

theorem InstanceOk.readBack (hok : InstanceOk .multiSta e len) :
    InstanceOk .multiSta (readBack e) len := by
  have haid' : (CtrlBAckResponseHeader.readBack e).aid11 = e.aid11 := by
    rw [BaInfoInstance.aid11, readBack_aidTidInfo, BaInfoInstance.aid11]
  cases hok with
  | bitmap hcontext hlength hlen =>
    refine .bitmap hcontext.readBack ?_ hlen
    have hnonempty := hlen.nonempty hlength
    rw [CtrlBAckResponseHeader.readBack, if_pos (hcontext.resolve_left nofun).1,
      if_pos hnonempty]
    exact hlength
  | ack hmulti haid hcontext hnone hzero =>
    refine .ack hmulti (by rw [haid']; exact haid) ?_ ?_ hzero
    · unfold BaInfoInstance.ackType BaInfoInstance.tid at *
      rw [readBack_aidTidInfo]
      exact hcontext
    · rw [CtrlBAckResponseHeader.readBack, if_pos haid, if_neg (by rw [hnone]; decide)]
      rfl
  | unassociated hmulti haid height => exact .unassociated hmulti (haid'.trans haid) height

theorem length_instanceBytes (hok : InstanceOk .multiSta e len) (fragment : Nat) :
    (instanceBytes e fragment).length = 2 + (if len > 0 then 2 else 0) + len := by
  rw [instanceBytes, List.length_append, length_writeHtolsbU16]
  cases hok with
  | bitmap hcontext hlength hlen =>
    obtain ⟨haid, -, -⟩ := hcontext.resolve_left nofun
    have hpos := hlen.pos
    have hnonempty := hlen.nonempty hlength
    rw [if_pos haid, if_pos hnonempty, if_pos hpos, List.length_append, length_writeHtolsbU16,
      hlength]
    omega
  | ack _ haid _ hnone hzero =>
    rw [if_pos haid, if_neg (by rw [hnone]; decide), hzero]
    rfl
  | unassociated _ haid height =>
    rw [if_neg (fun hne => hne haid), List.length_append, length_writeHtolsbU32, e.ra.property,
      height]
    rfl

theorem length_instancesBytes (hes : ∀ p ∈ es, InstanceOk .multiSta p.1 p.2) :
    (instancesBytes es).length =
      (es.map fun p => 2 + (if p.2 > 0 then 2 else 0) + p.2).sum := by
  induction es with
  | nil => rfl
  | cons p es ih =>
    rw [instancesBytes, List.length_append, length_instanceBytes (hes p (.head _)),
      ih fun q hq => hes q (.tail _ hq)]
    rfl

/-- The reader's copy of a header: the instances with a bitmap come back with their starting
sequence and their bitmap. -/
structure ReadsAs (h h' : CtrlBAckResponseHeader) : Prop where
  wellFormed : h'.WellFormed
  carries : ∀ (index len : Nat) (e : BaInfoInstance), h.Carries index len e →
    e.startingSeq < SEQNO_SPACE_SIZE →
    ∃ e', h'.Carries index len e' ∧ e'.startingSeq = e.startingSeq ∧ e'.bitmap = e.bitmap

theorem roundTrip_multiSta (hwf : h.WellFormed) (hv : h.baType.variant = .multiSta) :
    ∃ bytes, h.serialize = .ok bytes ∧ bytes.length = h.getSerializedSize ∧
      ∀ h₀ : CtrlBAckResponseHeader, ∃ h', h₀.deserialize bytes = .ok h' ∧ ReadsAs h h' := by
  let es := h.baInfo.zip h.baType.bitmapLen
  have hlen : es.length = h.baInfo.length := by
    rw [List.length_zip, ← hwf.lengths, Nat.min_self]
  have hat : ∀ (k : Nat) p, es[k]? = some p →
      h.baInfo[k]? = some p.1 ∧ h.baType.bitmapLen[k]? = some p.2 := by
    intro k p hp
    rwa [List.getElem?_zip_eq_some] at hp
  have hes : ∀ p ∈ es, p.1.aidTidInfo < 2 ^ 16 ∧ InstanceOk .multiSta p.1 p.2 := by
    intro p hp
    obtain ⟨k, hk⟩ := List.mem_iff_getElem?.mp hp
    obtain ⟨he, hl⟩ := hat k p hk
    refine ⟨hwf.aidTidInfo_lt p.1 (List.mem_of_getElem? he), ?_⟩
    rw [← hv]
    exact hwf.instances k p.1 p.2 he hl
  have hbytes : h.serializeInstances 0 h.baInfo.length = .ok (instancesBytes es) := by
    rw [← hlen]
    refine serializeInstances_of hwf hv fun k p hp => ?_
    rw [Nat.zero_add]
    exact hat k p hp
  have hsnd : es.map Prod.snd = h.baType.bitmapLen :=
    List.map_snd_zip (Nat.le_of_eq hwf.lengths.symm)
  refine ⟨writeHtolsbU16 (UInt16.ofNat h.getBaControl) ++ instancesBytes es, ?_, ?_, ?_⟩
  · rw [serialize, hv]
    dsimp only
    rw [hbytes]
    rfl
  · rw [getSerializedSize, hv]
    dsimp only
    rw [List.length_append, length_writeHtolsbU16, length_instancesBytes fun p hp => (hes p hp).2,
      ← hsnd, List.map_map]
    rfl
  · intro h₀
    obtain ⟨h₁, hset, htype, hinfo⟩ := setBaControl_of h₀ hwf
    rw [hv] at htype hinfo
    have hg : ReadTo 0 h₁ := by
      refine ⟨?_, ?_, ?_⟩
      · rw [htype]
        rfl
      · rw [hinfo]
        rfl
      · rw [htype]
        rfl
    have hfuel : es.length ≤ (instancesBytes es).length := by
      rw [length_instancesBytes fun p hp => (hes p hp).2]
      clear hsnd hbytes hat hes hlen
      induction es with
      | nil => exact Nat.le_refl 0
      | cons p es ih =>
        rw [List.length_cons, List.map_cons, List.sum_cons]
        omega
    obtain ⟨hpinfo, hplens, hpvariant⟩ := pushAll_fields h₁ es
    rw [hinfo] at hpinfo
    rw [htype] at hplens hpvariant
    have hinfo' : (h₁.pushAll es).baInfo = es.map fun p => readBack p.1 := hpinfo
    have hlens' : (h₁.pushAll es).baType.bitmapLen = h.baType.bitmapLen := by
      rw [hplens, hsnd]
      rfl
    have hvariant' : (h₁.pushAll es).baType.variant = .multiSta := hpvariant
    have hback : ∀ (k : Nat) e', (h₁.pushAll es).baInfo[k]? = some e' →
        ∃ e, h.baInfo[k]? = some e ∧ e' = readBack e := by
      intro k e' he'
      rw [hinfo', List.getElem?_map] at he'
      obtain ⟨p, hp, rfl⟩ := Option.map_eq_some_iff.mp he'
      exact ⟨p.1, (hat k p hp).1, rfl⟩
    refine ⟨h₁.pushAll es, ?_, ⟨.inr hvariant', ?_, ?_, ?_, ?_⟩, ?_⟩
    · rw [deserialize, readLsbtohU16_write, ok_bind]
      dsimp only
      rw [toNat_u16 (baControl_fields hwf).1, hset, ok_bind, hg.variant]
      exact deserializeInstances_of hg hes hfuel
    · rw [hvariant']
      exact nofun
    · rw [hlens', hinfo', List.length_map, hlen]
      exact hwf.lengths
    · intro e' he'
      obtain ⟨k, hk⟩ := List.mem_iff_getElem?.mp he'
      obtain ⟨e, he, rfl⟩ := hback k e' hk
      rw [readBack_aidTidInfo]
      exact hwf.aidTidInfo_lt e (List.mem_of_getElem? he)
    · intro k e' len he' hl
      obtain ⟨e, he, rfl⟩ := hback k e' he'
      rw [hlens'] at hl
      rw [hvariant']
      have hok := hwf.instances k e len he hl
      rw [hv] at hok
      exact hok.readBack
    · intro k len e hc hstart
      have hnonempty := hc.nonempty hwf
      have hcontext := hc.context
      rw [hv] at hcontext
      refine ⟨readBack e, ⟨?_, ?_, ?_⟩, ?_, ?_⟩
      · rw [hinfo', List.getElem?_map]
        have hp : es[k]? = some (e, len) :=
          List.getElem?_zip_eq_some.mpr ⟨hc.instance_eq, hc.bitmapLen_eq⟩
        rw [hp]
        rfl
      · rw [hlens']
        exact hc.bitmapLen_eq
      · rw [hvariant']
        exact hcontext.readBack
      · rw [readBack, if_pos (hcontext.resolve_left nofun).1, if_pos hnonempty]
        exact Nat.mod_eq_of_lt hstart
      · rw [readBack, if_pos (hcontext.resolve_left nofun).1, if_pos hnonempty]

theorem roundTrip_compressed (hwf : h.WellFormed) (hv : h.baType.variant = .compressed) :
    ∃ bytes, h.serialize = .ok bytes ∧ bytes.length = h.getSerializedSize ∧
      ∀ h₀ : CtrlBAckResponseHeader, ∃ h', h₀.deserialize bytes = .ok h' ∧ ReadsAs h h' := by
  obtain ⟨e, hone⟩ := List.length_eq_one_iff.mp (hwf.single hv)
  have hlens := hwf.lengths
  rw [hone] at hlens
  obtain ⟨len, hlen⟩ := List.length_eq_one_iff.mp hlens.symm
  have hc : h.Carries 0 len e := by
    refine ⟨?_, ?_, .inl hv⟩
    · rw [hone]
      rfl
    · rw [hlen]
      rfl
  obtain ⟨hlength, hok⟩ := hc.length hwf
  rw [hv] at hok
  obtain ⟨fragment, hfragment⟩ := hok
  obtain ⟨hlt, hodd, hread⟩ := compressedFragment_read hfragment
  have hseq : e.startingSeq % SEQNO_SPACE_SIZE < SEQNO_SPACE_SIZE := Nat.mod_lt _ (by decide)
  have hcontrol : h.getStartingSequenceControl 0 =
      .ok (e.startingSeq % SEQNO_SPACE_SIZE * 16 + fragment) := by
    rw [getStartingSequenceControl, instanceAt_of hwf hc.instance_eq, ok_bind, hv]
    dsimp only
    rw [bitmapLenAt_of hc.bitmapLen_eq, ok_bind, hfragment, orAbort, pure_bind, control_eq hlt]
    rfl
  have hbitmap : h.serializeBitmap 0 = .ok e.bitmap := by
    rw [serializeBitmap, instanceAt_of hwf hc.instance_eq, ok_bind, hv]
    rfl
  let control := writeHtolsbU16 (UInt16.ofNat (e.startingSeq % SEQNO_SPACE_SIZE * 16 + fragment))
  refine ⟨writeHtolsbU16 (UInt16.ofNat h.getBaControl) ++ control ++ e.bitmap, ?_, ?_, ?_⟩
  · rw [serialize, hv]
    dsimp only
    rw [hcontrol, ok_bind, hbitmap]
    rfl
  · rw [getSerializedSize, hv, hlen]
    dsimp only
    rw [List.length_append, List.length_append, length_writeHtolsbU16, length_writeHtolsbU16,
      hlength]
    simp only [List.getD_cons_zero]
    omega
  · intro h₀
    obtain ⟨h₁, hset, htype, hinfo⟩ := setBaControl_of h₀ hwf
    rw [hv] at htype hinfo
    let e' : BaInfoInstance := { BaInfoInstance.zero len with
      startingSeq := e.startingSeq % SEQNO_SPACE_SIZE }
    let h₂ : CtrlBAckResponseHeader := { h₁ with
      baType := { variant := .compressed, bitmapLen := [len] }, baInfo := [e'] }
    have hstart :
        h₁.setStartingSequenceControl (e.startingSeq % SEQNO_SPACE_SIZE * 16 + fragment) 0 =
        .ok h₂ := by
      have hfirst : h₁.instanceAt 0 = .ok (.zero 8) := by
        rw [CtrlBAckResponseHeader.instanceAt, nsAssert_of (.inr rfl), ok_bind, hinfo]
        rfl
      rw [setStartingSequenceControl, hfirst, ok_bind, htype]
      dsimp only [BlockAckType.ofVariant]
      rw [fragment_of_control hlt, if_neg hodd, hread, orAbort, pure_bind, pure_bind,
        seq_of_control hseq hlt]
      rfl
    let h₃ : CtrlBAckResponseHeader := { h₂ with baInfo := [{ e' with bitmap := e.bitmap }] }
    have hread' : h₂.deserializeBitmap 0 e.bitmap = .ok (h₃, []) := by
      have hfirst : h₂.instanceAt 0 = .ok e' := rfl
      have hlast : h₂.bitmapLenAt 0 = .ok len := rfl
      have hall : readBitmap e'.bitmap 0 len e.bitmap = .ok (e.bitmap, []) := by
        have hzero : e'.bitmap.length = e.bitmap.length := by
          rw [hlength]
          exact List.length_replicate
        have hall := @readBitmap_all [] e'.bitmap e.bitmap hzero
        rw [List.append_nil, hlength] at hall
        exact hall
      rw [deserializeBitmap, hfirst, ok_bind, show h₂.baType.variant = .compressed from rfl]
      dsimp only
      rw [hlast, ok_bind, hall]
      rfl
    refine ⟨h₃, ?_, ⟨.inl rfl, fun _ => rfl, rfl, ?_, ?_⟩, ?_⟩
    · rw [deserialize, List.append_assoc, readLsbtohU16_write, ok_bind]
      dsimp only
      rw [toNat_u16 (baControl_fields hwf).1, hset, ok_bind, htype]
      dsimp only [BlockAckType.ofVariant]
      rw [readLsbtohU16_write, ok_bind]
      dsimp only
      rw [toNat_u16 (control_lt hseq hlt), hstart, ok_bind, hread']
      rfl
    · intro x hx
      obtain rfl := List.mem_singleton.mp hx
      exact Nat.two_pow_pos 16
    · intro k x len' hx hl
      cases k with
      | zero =>
        cases hx
        cases hl
        exact .bitmap (.inl rfl) hlength ⟨fragment, hfragment⟩
      | succ k => cases hx
    · intro k len' x hcx hxstart
      have hx := hcx.instance_eq
      have hl := hcx.bitmapLen_eq
      rw [hone] at hx
      rw [hlen] at hl
      cases k with
      | zero =>
        cases hx
        cases hl
        exact ⟨_, ⟨rfl, rfl, .inl rfl⟩, Nat.mod_eq_of_lt hxstart, rfl⟩
      | succ k => cases hx

/-- The bytes of a header read back as what it reports. -/
theorem roundTrip (hwf : h.WellFormed) :
    ∃ bytes, h.serialize = .ok bytes ∧ bytes.length = h.getSerializedSize ∧
      ∀ h₀ : CtrlBAckResponseHeader, ∃ h', h₀.deserialize bytes = .ok h' ∧ ReadsAs h h' := by
  rcases hwf.variant with hv | hv
  · exact roundTrip_compressed hwf hv
  · exact roundTrip_multiSta hwf hv

/-! ## Reporting -/

/-- A recipient that fills an instance of the header after a history of its own. -/
structure Reporter where
  index : Nat
  start : Nat
  size : Nat
  frames : List RecipientBlockAckAgreement.RxFrame
  agreement : RecipientBlockAckAgreement
  start_lt : start < SEQNO_SPACE_SIZE
  size_le : size ≤ 1024
  seqNumber_lt : ∀ frame ∈ frames, frame.seqNumber < SEQNO_SPACE_SIZE
  reached : (RecipientBlockAckAgreement.create size start).receiveAll frames = .ok agreement

/-- The recipients fill their instances, one after the other. -/
def fillAll (h : CtrlBAckResponseHeader) (reporters : List Reporter) :
    Except Fault CtrlBAckResponseHeader :=
  reporters.foldlM (fun h r => r.agreement.fillBlockAckBitmap h r.index) h

theorem Reporter.steady (r : Reporter) :
    RecipientBlockAckAgreement.Steady r.start r.size r.agreement :=
  RecipientBlockAckAgreement.steady_receiveAll r.start_lt r.size_le r.seqNumber_lt r.reached

theorem fillAll_of {reporters : List Reporter} (hwf : h.WellFormed)
    (hnodup : (reporters.map Reporter.index).Nodup)
    (hcarries : ∀ r ∈ reporters, ∃ len e, h.Carries r.index len e) :
    ∃ h', h.fillAll reporters = .ok h' ∧ h'.WellFormed ∧ h'.baType = h.baType ∧
      (∀ k, k ∉ reporters.map Reporter.index → h'.baInfo[k]? = h.baInfo[k]?) ∧
      ∀ r ∈ reporters, ∃ len, Reports r.agreement.scoreboard h' r.index len := by
  induction reporters generalizing h with
  | nil => exact ⟨h, rfl, hwf, rfl, fun _ _ => rfl, nofun⟩
  | cons r rest ih =>
    obtain ⟨hnotin, hnodup'⟩ := List.nodup_cons.mp hnodup
    obtain ⟨len, e, hc⟩ := hcarries r (.head _)
    have hsteady := r.steady
    have hsize : r.agreement.scoreboard.getWinSize ≤ SEQNO_SPACE_SIZE := by
      rw [hsteady.winSize]
      exact r.size_le.trans (by decide)
    obtain ⟨h₁, hfill, hkeep, hreports⟩ :=
      fillBlockAckBitmap_of hwf hc hsteady.scoreboard hsize
    have hcarries₁ : ∀ r' ∈ rest, ∃ len e, h₁.Carries r'.index len e := by
      intro r' hr'
      obtain ⟨len', e', hc'⟩ := hcarries r' (.tail _ hr')
      have hne : r'.index ≠ r.index := fun heq =>
        hnotin (heq ▸ List.mem_map_of_mem hr')
      exact ⟨len', e', hkeep.carries hne hc'⟩
    obtain ⟨h', hall, hwf', htype', hothers', hreports'⟩ :=
      ih hkeep.wellFormed hnodup' hcarries₁
    refine ⟨h', ?_, hwf', htype'.trans hkeep.baType, ?_, ?_⟩
    · rw [fillAll, List.foldlM_cons, hfill, ok_bind]
      exact hall
    · intro k hk
      rw [List.map_cons, List.mem_cons, not_or] at hk
      exact (hothers' k hk.2).trans (hkeep.others k hk.1)
    · intro r' hr'
      rcases List.mem_cons.mp hr' with rfl | hr'
      · obtain ⟨e₁, hc₁, hstart, hbits⟩ := hreports
        refine ⟨len, e₁, ⟨?_, ?_, ?_⟩, hstart, hbits⟩
        · exact (hothers' _ hnotin).trans hc₁.instance_eq
        · rw [htype']
          exact hc₁.bitmapLen_eq
        · rw [htype']
          exact hc₁.context
      · exact hreports' r' hr'

/-- **Block acks.**  A scoreboard bit is set exactly when its sequence number was received since it
last entered the window; and whatever the instances, the originator is told that a packet was
received exactly when it lies in the bitmap and its scoreboard bit is set. -/
theorem block_ack_reports {reporters : List Reporter} (hwf : h.WellFormed)
    (hnodup : (reporters.map Reporter.index).Nodup)
    (hcarries : ∀ r ∈ reporters, ∃ len e, h.Carries r.index len e) :
    (∀ (r : Reporter), ∀ i < r.size, ∃ bit, r.agreement.scoreboard.at i = .ok bit ∧
      (bit = true ↔ RecipientBlockAckAgreement.ReceivedSince r.start r.size r.frames
        ((r.agreement.scoreboard.winStart + i) % SEQNO_SPACE_SIZE))) ∧
    ∃ h' bytes, h.fillAll reporters = .ok h' ∧ h'.serialize = .ok bytes ∧
      bytes.length = h'.getSerializedSize ∧
      ∀ h₀ : CtrlBAckResponseHeader, ∃ h'', h₀.deserialize bytes = .ok h'' ∧
        ∀ r ∈ reporters, ∀ len seq, h.baType.bitmapLen[r.index]? = some len →
          seq < SEQNO_SPACE_SIZE →
          ∃ received, h''.isPacketReceived seq r.index = .ok received ∧
            (received = true ↔
              seqDistance seq r.agreement.scoreboard.winStart < 8 * len ∧
                r.agreement.scoreboard.at (seqDistance seq r.agreement.scoreboard.winStart) =
                  .ok true) := by
  constructor
  · intro r i hi
    have hsteady := r.steady
    have hstart := hsteady.scoreboard.winStart_lt
    rw [← hsteady.winSize] at hi
    have hlt : i < SEQNO_SPACE_SIZE := by
      have hle := r.size_le
      rw [← hsteady.winSize] at hle
      simp only [SEQNO_SPACE_SIZE]
      omega
    have hdist := seqDistance_add hstart hlt
    have hcovers : r.agreement.scoreboard.Covers
        ((r.agreement.scoreboard.winStart + i) % SEQNO_SPACE_SIZE) := by
      unfold BlockAckWindow.Covers
      rw [hdist]
      exact hi
    have hread := BlockAckWindow.at_seqDistance hcovers
    rw [hdist] at hread
    exact ⟨_, hread, RecipientBlockAckAgreement.bitOf_iff_receivedSince r.start_lt r.size_le
      r.seqNumber_lt r.reached (Nat.mod_lt _ (by decide)) hcovers⟩
  · obtain ⟨h', hfill, hwf', htype, _, hreports⟩ := fillAll_of hwf hnodup hcarries
    obtain ⟨bytes, hbytes, hsize, hread⟩ := roundTrip hwf'
    refine ⟨h', bytes, hfill, hbytes, hsize, fun h₀ => ?_⟩
    obtain ⟨h'', hdeserialize, hsame⟩ := hread h₀
    refine ⟨h'', hdeserialize, fun r hr len seq hlen hseq => ?_⟩
    obtain ⟨len', e, hc, hstart, hbits⟩ := hreports r hr
    have hscore := r.steady.scoreboard
    have hestart : e.startingSeq < SEQNO_SPACE_SIZE := by
      rw [hstart]
      exact hscore.winStart_lt
    obtain rfl : len' = len := by
      have hl := hc.bitmapLen_eq
      rw [htype, hlen] at hl
      exact (Option.some.inj hl).symm
    obtain ⟨e', hc', hstart', hbitmap'⟩ := hsame.carries r.index len' e hc hestart
    have hreceived := isPacketReceived_of hsame.wellFormed hc'
      (by rw [hstart']; exact hestart) hseq
    refine ⟨_, hreceived, ?_⟩
    rw [hstart', hbitmap', hstart, Bool.and_eq_true, decide_eq_true_eq]
    refine and_congr_right fun hin => ?_
    rw [hbits _ hin]
    by_cases hcovers : r.agreement.scoreboard.Covers seq
    · rw [BlockAckWindow.at_seqDistance hcovers]
      exact ⟨congrArg Except.ok, Except.ok.inj⟩
    · rw [BlockAckWindow.at_eq_error hcovers]
      have hnone := BlockAckWindow.bitOf_of_not_covers hcovers
      exact iff_of_false (fun hbit => Bool.false_ne_true (hnone.symm.trans hbit)) nofun

def twoStations : CtrlBAckResponseHeader where
  baAckPolicy := false
  baType := { variant := .multiSta, bitmapLen := [8, 32] }
  tidInfo := 0
  baInfo := [{ BaInfoInstance.zero 8 with aidTidInfo := 5 },
    { BaInfoInstance.zero 32 with aidTidInfo := 7 }]

theorem wellFormed_twoStations : twoStations.WellFormed where
  variant := .inr rfl
  single := nofun
  lengths := rfl
  aidTidInfo_lt := by decide
  instances := by
    intro index e len he hlen
    match index with
    | 0 =>
      cases he
      cases hlen
      exact .bitmap (.inr (by decide)) rfl ⟨_, rfl⟩
    | 1 =>
      cases he
      cases hlen
      exact .bitmap (.inr (by decide)) rfl ⟨_, rfl⟩
    | n + 2 => cases he

/-- A recipient whose window lies across the wrap and that has received 4095 and 1. -/
def acrossWrap (index : Nat) : Reporter where
  index := index
  start := 4094
  size := 4
  frames := [.mpdu ⟨4095, 0, 1⟩, .mpdu ⟨1, 0, 2⟩]
  agreement := {
    scoreboard := { winStart := 4094, window := [false, true, false, true], head := 0 }
    winStartB := 4094
    winSizeB := 4
    bufferedMpdus := [⟨4095, 0, 1⟩, ⟨1, 0, 2⟩]
    trace := [.stored ⟨4095, 0, 1⟩, .stored ⟨1, 0, 2⟩] }
  start_lt := by decide
  size_le := by decide
  seqNumber_lt := by decide
  reached := by decide

/-- The second station is told that 1 arrived. -/
theorem block_ack_reports_twoStations :
    ∃ h' bytes h'', twoStations.fillAll [acrossWrap 0, acrossWrap 1] = .ok h' ∧
      h'.serialize = .ok bytes ∧ create.deserialize bytes = .ok h'' ∧
      h''.isPacketReceived 1 1 = .ok true := by
  have hcarries : ∀ r ∈ [acrossWrap 0, acrossWrap 1],
      ∃ len e, twoStations.Carries r.index len e := by
    intro r hr
    rcases List.mem_cons.mp hr with rfl | hr
    · exact ⟨_, _, rfl, rfl, .inr (by decide)⟩
    · obtain rfl := List.mem_singleton.mp hr
      exact ⟨_, _, rfl, rfl, .inr (by decide)⟩
  obtain ⟨_, h', bytes, hfill, hbytes, _, hread⟩ :=
    block_ack_reports wellFormed_twoStations (by decide) hcarries
  obtain ⟨h'', hdeserialize, hreceived⟩ := hread create
  obtain ⟨received, hpacket, hiff⟩ :=
    hreceived (acrossWrap 1) (by simp) 32 1 rfl (by decide)
  rw [hiff.mpr ⟨by decide, by decide⟩] at hpacket
  exact ⟨h', bytes, h'', hfill, hbytes, hdeserialize, hpacket⟩

end CtrlBAckResponseHeader

end Ns3
