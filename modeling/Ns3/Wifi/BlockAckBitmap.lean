/-
  The bitmap that a recipient fills.

  For the variants with one bit for each MPDU, bit `k` of an instance is about the
  sequence number `k` after its starting sequence.  Filling copies the scoreboard bit
  by bit into the instance and leaves the other instances alone.
-/
import Ns3.Wifi.CtrlBAckResponseHeader
import Ns3.Wifi.Scoreboard

namespace Ns3

open Ns3.Lib

namespace CtrlBAckResponseHeader

variable {h : CtrlBAckResponseHeader} {e : BaInfoInstance} {index len seq : Nat}

/-! ## Well-formed headers -/

def LengthOk (variant : BlockAckVariant) (len : Nat) : Prop :=
  match variant with
  | .compressed => ∃ fragment, compressedFragment len = some fragment
  | _ => ∃ fragment, multiStaFragment len = some fragment

/-- The instance carries a bitmap: it belongs to a Compressed block ack, or it is in
block ack context (Ack Type 0 and a TID from 0 to 7) for an associated station. -/
def HasBitmap (variant : BlockAckVariant) (e : BaInfoInstance) : Prop :=
  variant = .compressed ∨ (e.aid11 ≠ 2045 ∧ e.ackType = false ∧ e.tid < 8)

/-- An instance and its bitmap length fit together. -/
inductive InstanceOk (variant : BlockAckVariant) (e : BaInfoInstance) (len : Nat) : Prop where
  | bitmap (context : HasBitmap variant e) (length : e.bitmap.length = len)
      (lengthOk : LengthOk variant len)
  /-- an acknowledgment without one -/
  | ack (multiSta : variant = .multiSta) (aid : e.aid11 ≠ 2045)
      (context : ¬(e.ackType = false ∧ e.tid < 8)) (none : e.bitmap = []) (length : len = 0)
  /-- for a station that is not associated -/
  | unassociated (multiSta : variant = .multiSta) (aid : e.aid11 = 2045) (length : len = 8)

/-- A Compressed or Multi-STA block ack as `SetType` and the setters of its fields build it. -/
structure WellFormed (h : CtrlBAckResponseHeader) : Prop where
  variant : h.baType.variant = .compressed ∨ h.baType.variant = .multiSta
  single : h.baType.variant = .compressed → h.baInfo.length = 1
  lengths : h.baInfo.length = h.baType.bitmapLen.length
  aidTidInfo_lt : ∀ e ∈ h.baInfo, e.aidTidInfo < 2 ^ 16
  instances : ∀ (index : Nat) (e : BaInfoInstance) (len : Nat), h.baInfo[index]? = some e →
    h.baType.bitmapLen[index]? = some len → InstanceOk h.baType.variant e len

/-- A bitmap of the header: instance `index` carries one of `len` bytes. -/
structure Carries (h : CtrlBAckResponseHeader) (index len : Nat) (e : BaInfoInstance) : Prop where
  instance_eq : h.baInfo[index]? = some e
  bitmapLen_eq : h.baType.bitmapLen[index]? = some len
  context : HasBitmap h.baType.variant e

theorem LengthOk.pos {variant : BlockAckVariant} (h : LengthOk variant len) : 0 < len := by
  unfold LengthOk at h
  split at h
  · obtain ⟨fragment, h⟩ := h
    unfold compressedFragment at h
    split at h <;> first | decide | cases h
  · obtain ⟨fragment, h⟩ := h
    unfold multiStaFragment at h
    split at h <;> first | decide | cases h

theorem WellFormed.not_basic (hwf : h.WellFormed) : h.baType.variant ≠ .basic := by
  rcases hwf.variant with hv | hv <;> rw [hv] <;> decide

theorem Carries.length (hwf : h.WellFormed) (hc : h.Carries index len e) :
    e.bitmap.length = len ∧ LengthOk h.baType.variant len := by
  cases hwf.instances index e len hc.instance_eq hc.bitmapLen_eq with
  | bitmap _ hlength hok => exact ⟨hlength, hok⟩
  | ack hmulti haid hcontext _ _ =>
    rcases hc.context with hcomp | ⟨_, hctx⟩
    · rw [hmulti] at hcomp
      cases hcomp
    · exact absurd hctx hcontext
  | unassociated hmulti haid _ =>
    rcases hc.context with hcomp | ⟨hne, _⟩
    · rw [hmulti] at hcomp
      cases hcomp
    · exact absurd haid hne

theorem instanceAt_of (hwf : h.WellFormed) (he : h.baInfo[index]? = some e) :
    h.instanceAt index = .ok e := by
  have hindex : h.baType.variant = .multiSta ∨ index = 0 := by
    rcases hwf.variant with hv | hv
    · right
      have hlt := (List.getElem?_eq_some_iff.mp he).1
      have hone := hwf.single hv
      omega
    · exact .inl hv
  rw [instanceAt, nsAssert_of hindex, ok_bind, he]
  rfl

theorem bitmapLenAt_of (hlen : h.baType.bitmapLen[index]? = some len) :
    h.bitmapLenAt index = .ok len := by
  rw [bitmapLenAt, hlen]
  rfl

/-! ## Changing one instance -/

variable {f : BaInfoInstance → BaInfoInstance}

theorem modifyAt_self (he : h.baInfo[index]? = some e) :
    (h.modifyAt index f).baInfo[index]? = some (f e) := by
  rw [modifyAt, List.getElem?_modify, he]
  simp

theorem modifyAt_of_ne {k : Nat} (hne : index ≠ k) :
    (h.modifyAt index f).baInfo[k]? = h.baInfo[k]? := by
  rw [modifyAt, List.getElem?_modify]
  simp [hne]

theorem WellFormed.modifyAt (hwf : h.WellFormed) (haid : ∀ e, (f e).aidTidInfo = e.aidTidInfo)
    (hbitmap : ∀ e, h.baInfo[index]? = some e → (f e).bitmap.length = e.bitmap.length) :
    (h.modifyAt index f).WellFormed := by
  have hlen : (h.modifyAt index f).baInfo.length = h.baInfo.length := List.length_modify _ _ _
  refine ⟨hwf.variant, fun hv => hlen.trans (hwf.single hv), hlen.trans hwf.lengths, ?_, ?_⟩
  · intro e he
    obtain ⟨k, hk⟩ := List.mem_iff_getElem?.mp he
    by_cases hne : index = k
    · subst hne
      cases hold : h.baInfo[index]? with
      | none =>
        rw [CtrlBAckResponseHeader.modifyAt, List.getElem?_modify, hold] at hk
        cases hk
      | some e' =>
        rw [modifyAt_self hold] at hk
        cases hk
        rw [haid]
        exact hwf.aidTidInfo_lt e' (List.mem_of_getElem? hold)
    · rw [modifyAt_of_ne hne] at hk
      exact hwf.aidTidInfo_lt e (List.mem_of_getElem? hk)
  · intro k e len hk hklen
    by_cases hne : index = k
    · subst hne
      cases hold : h.baInfo[index]? with
      | none =>
        rw [CtrlBAckResponseHeader.modifyAt, List.getElem?_modify, hold] at hk
        cases hk
      | some e' =>
        rw [modifyAt_self hold] at hk
        cases hk
        have hsame : (f e').aidTidInfo = e'.aidTidInfo := haid e'
        have hsize := hbitmap e' hold
        cases hwf.instances index e' len hold hklen with
        | bitmap hcontext hlength hok =>
          refine .bitmap ?_ (hsize.trans hlength) hok
          unfold HasBitmap BaInfoInstance.aid11 BaInfoInstance.ackType BaInfoInstance.tid at *
          rw [hsame]
          exact hcontext
        | ack hmulti haid' hcontext hnone hzero =>
          refine .ack hmulti ?_ ?_ ?_ hzero
          · unfold BaInfoInstance.aid11 at *
            rw [hsame]
            exact haid'
          · unfold BaInfoInstance.ackType BaInfoInstance.tid at *
            rw [hsame]
            exact hcontext
          · rw [hnone] at hsize
            exact List.eq_nil_of_length_eq_zero hsize
        | unassociated hmulti haid' hlength =>
          refine .unassociated hmulti ?_ hlength
          unfold BaInfoInstance.aid11 at *
          rw [hsame]
          exact haid'
    · rw [modifyAt_of_ne hne] at hk
      exact hwf.instances k e len hk hklen

/-! ## One packet -/

section

variable (hwf : h.WellFormed) (hc : h.Carries index len e)
  (hstart : e.startingSeq < SEQNO_SPACE_SIZE)

include hwf hc hstart

theorem isInBitmap_of :
    h.isInBitmap seq index = .ok (decide (seqDistance seq e.startingSeq < 8 * len)) := by
  rw [isInBitmap, instanceAt_of hwf hc.instance_eq, ok_bind, bitmapLenAt_of hc.bitmapLen_eq,
    ok_bind, nAckedMpdus, if_neg hwf.not_basic, seqOffset_eq hstart, Nat.mul_comm len 8]
  refine congrArg Except.ok (decide_eq_decide.mpr ?_)
  exact Int.ofNat_lt

theorem indexInBitmap_of (hseq : seq < SEQNO_SPACE_SIZE)
    (hin : seqDistance seq e.startingSeq < 8 * len) :
    h.indexInBitmap seq index = .ok (seqDistance seq e.startingSeq) := by
  have hi : (if seq ≥ e.startingSeq then seq - e.startingSeq
      else wadd 16 (wsub 16 SEQNO_SPACE_SIZE e.startingSeq) seq) =
        seqDistance seq e.startingSeq := by
    simp only [seqDistance, wadd, wsub, SEQNO_SPACE_SIZE] at *
    split <;> omega
  have hassert : seqDistance seq e.startingSeq < h.nAckedMpdus len := by
    rw [nAckedMpdus, if_neg hwf.not_basic, Nat.mul_comm]
    exact hin
  rw [indexInBitmap, instanceAt_of hwf hc.instance_eq, ok_bind, bitmapLenAt_of hc.bitmapLen_eq,
    ok_bind, hi]
  dsimp only
  rw [nsAssert_of hassert]
  rfl

theorem setReceivedPacket_of (hseq : seq < SEQNO_SPACE_SIZE) :
    h.setReceivedPacket seq index = .ok (if seqDistance seq e.startingSeq < 8 * len then
      h.modifyAt index fun e' =>
        { e' with bitmap := Bitmap.setBit e'.bitmap (seqDistance seq e.startingSeq) }
      else h) := by
  rw [setReceivedPacket, isInBitmap_of hwf hc hstart, ok_bind]
  by_cases hin : seqDistance seq e.startingSeq < 8 * len
  · have hbit : seqDistance seq e.startingSeq / 8 < e.bitmap.length := by
      rw [(hc.length hwf).1]
      omega
    have hset : h.setBitmapBit index (seqDistance seq e.startingSeq) =
        .ok (h.modifyAt index fun e' =>
          { e' with bitmap := Bitmap.setBit e'.bitmap (seqDistance seq e.startingSeq) }) := by
      rw [setBitmapBit, instanceAt_of hwf hc.instance_eq, ok_bind, if_pos hbit]
      rfl
    rw [if_pos (by simpa using hin), if_pos hin]
    rcases hwf.variant with hv | hv
    · rw [hv]
      dsimp only
      rw [indexInBitmap_of hwf hc hstart hseq hin, ok_bind, hset]
    · rw [hv]
      dsimp only
      rw [indexInBitmap_of hwf hc hstart hseq hin, ok_bind, hset]
  · rw [if_neg (by simpa using hin), if_neg hin]
    rfl

theorem isPacketReceived_of (hseq : seq < SEQNO_SPACE_SIZE) :
    h.isPacketReceived seq index = .ok (decide (seqDistance seq e.startingSeq < 8 * len) &&
      Bitmap.getBit e.bitmap (seqDistance seq e.startingSeq)) := by
  have hall : ¬(h.baType.variant = .multiSta ∧ e.ackType = true ∧ e.tid = 14) := by
    rintro ⟨hmulti, hack, _⟩
    rcases hc.context with hcomp | ⟨_, hno, _⟩
    · rw [hmulti] at hcomp
      cases hcomp
    · rw [hno] at hack
      cases hack
  rw [isPacketReceived, instanceAt_of hwf hc.instance_eq, ok_bind, if_neg hall,
    isInBitmap_of hwf hc hstart, ok_bind]
  by_cases hin : seqDistance seq e.startingSeq < 8 * len
  · have hbit : seqDistance seq e.startingSeq / 8 < e.bitmap.length := by
      rw [(hc.length hwf).1]
      omega
    rw [if_pos (by simpa using hin), decide_eq_true hin, Bool.true_and]
    rcases hwf.variant with hv | hv
    · rw [hv]
      dsimp only
      rw [indexInBitmap_of hwf hc hstart hseq hin, ok_bind, if_pos hbit]
      rfl
    · rw [hv]
      dsimp only
      rw [indexInBitmap_of hwf hc hstart hseq hin, ok_bind, if_pos hbit]
      rfl
  · rw [if_neg (by simpa using hin), decide_eq_false hin, Bool.false_and]
    rfl

end

/-! ## Filling -/

/-- The bits below `n` of the instance are those of the scoreboard, the others clear. -/
structure FilledTo (n : Nat) (w : BlockAckWindow) (h : CtrlBAckResponseHeader) (index len : Nat)
    (e : BaInfoInstance) : Prop where
  carries : h.Carries index len e
  startingSeq : e.startingSeq = w.winStart
  bits : ∀ k < 8 * len, Bitmap.getBit e.bitmap k = (decide (k < n) && w.bits.getD k false)

/-- What filling one instance keeps of the header. -/
structure KeepsOthers (index : Nat) (h h' : CtrlBAckResponseHeader) : Prop where
  wellFormed : h'.WellFormed
  baType : h'.baType = h.baType
  others : ∀ k, k ≠ index → h'.baInfo[k]? = h.baInfo[k]?

theorem KeepsOthers.trans {h₁ h₂ : CtrlBAckResponseHeader} (h01 : KeepsOthers index h h₁)
    (h12 : KeepsOthers index h₁ h₂) : KeepsOthers index h h₂ where
  wellFormed := h12.wellFormed
  baType := h12.baType.trans h01.baType
  others := fun k hk => (h12.others k hk).trans (h01.others k hk)

theorem KeepsOthers.modifyAt (hwf : h.WellFormed) (haid : ∀ e, (f e).aidTidInfo = e.aidTidInfo)
    (hbitmap : ∀ e, h.baInfo[index]? = some e → (f e).bitmap.length = e.bitmap.length) :
    KeepsOthers index h (h.modifyAt index f) where
  wellFormed := hwf.modifyAt haid hbitmap
  baType := rfl
  others := fun _ hk => modifyAt_of_ne (Ne.symm hk)

theorem KeepsOthers.carries {h' : CtrlBAckResponseHeader} {k : Nat} (hkeep : KeepsOthers index h h')
    (hk : k ≠ index) (hc : h.Carries k len e) : h'.Carries k len e where
  instance_eq := (hkeep.others k hk).trans hc.instance_eq
  bitmapLen_eq := by
    rw [hkeep.baType]
    exact hc.bitmapLen_eq
  context := by
    rw [hkeep.baType]
    exact hc.context

theorem Carries.modifyAt (hc : h.Carries index len e) (haid : ∀ e,
    (f e).aidTidInfo = e.aidTidInfo) :
    (h.modifyAt index f).Carries index len (f e) where
  instance_eq := modifyAt_self hc.instance_eq
  bitmapLen_eq := hc.bitmapLen_eq
  context := by
    have hcontext := hc.context
    unfold HasBitmap BaInfoInstance.aid11 BaInfoInstance.ackType BaInfoInstance.tid at *
    rw [haid]
    exact hcontext

variable {w : BlockAckWindow} {n : Nat}

open RecipientBlockAckAgreement in
theorem FilledTo.next (hwf : h.WellFormed) (hf : FilledTo n w h index len e)
    (hw : w.WellFormed) (hsize : w.getWinSize ≤ SEQNO_SPACE_SIZE) (hn : n < w.getWinSize) :
    ∃ h' e', fillLoop w w.winStart index h n = .ok h' ∧ KeepsOthers index h h' ∧
      FilledTo (n + 1) w h' index len e' := by
  have hstart : e.startingSeq < SEQNO_SPACE_SIZE := by
    rw [hf.startingSeq]
    exact hw.winStart_lt
  have hseq : (w.winStart + n) % SEQNO_SPACE_SIZE < SEQNO_SPACE_SIZE := Nat.mod_lt _ (by decide)
  have hdist : seqDistance ((w.winStart + n) % SEQNO_SPACE_SIZE) e.startingSeq = n := by
    rw [hf.startingSeq]
    exact seqDistance_add hw.winStart_lt (by omega)
  rw [fillLoop, BlockAckWindow.at_of hn, ok_bind]
  -- without the bit nothing changes
  have keep : (8 * len ≤ n ∨ w.bits.getD n false = false) → FilledTo (n + 1) w h index len e := by
    intro hno
    refine ⟨hf.carries, hf.startingSeq, fun k hk => ?_⟩
    rw [hf.bits k hk]
    by_cases hkn : k = n
    · subst hkn
      rcases hno with hle | hfalse
      · omega
      · rw [hfalse, Bool.and_false, Bool.and_false]
    · congr 1
      exact decide_eq_decide.mpr (by omega)
  cases hbit : w.bits.getD n false with
  | false =>
    rw [if_neg (by decide)]
    exact ⟨h, e, rfl, ⟨hwf, rfl, fun _ _ => rfl⟩, keep (.inr hbit)⟩
  | true =>
    rw [if_pos rfl, setReceivedPacket_of hwf hf.carries hstart hseq, hdist]
    by_cases hin : n < 8 * len
    · rw [if_pos hin]
      refine ⟨_, _, rfl, .modifyAt hwf (fun _ => rfl) (fun _ _ => Bitmap.length_setBit _ _),
        hf.carries.modifyAt fun _ => rfl, hf.startingSeq, fun k hk => ?_⟩
      have hlt : n < 8 * e.bitmap.length := by
        rw [(hf.carries.length hwf).1]
        exact hin
      dsimp only
      rw [Bitmap.getBit_setBit _ hlt, hf.bits k hk]
      by_cases hkn : n = k
      · subst hkn
        rw [hbit, decide_eq_true rfl, decide_eq_true (Nat.lt_succ_self n)]
        rfl
      · rw [decide_eq_false hkn, Bool.false_or]
        congr 1
        exact decide_eq_decide.mpr (by omega)
    · rw [if_neg hin]
      exact ⟨h, e, rfl, ⟨hwf, rfl, fun _ _ => rfl⟩, keep (.inl (by omega))⟩

open RecipientBlockAckAgreement in
theorem FilledTo.loop (hwf : h.WellFormed) (hf : FilledTo 0 w h index len e) (hw : w.WellFormed)
    (hsize : w.getWinSize ≤ SEQNO_SPACE_SIZE) (hn : n ≤ w.getWinSize) :
    ∃ h' e', (List.range n).foldlM (fillLoop w w.winStart index) h = .ok h' ∧
      KeepsOthers index h h' ∧ FilledTo n w h' index len e' := by
  induction n with
  | zero => exact ⟨h, e, rfl, ⟨hwf, rfl, fun _ _ => rfl⟩, hf⟩
  | succ n ih =>
    obtain ⟨h₁, e₁, hloop, hkeep, hf₁⟩ := ih (by omega)
    obtain ⟨h₂, e₂, hnext, hkeep₂, hf₂⟩ := hf₁.next hkeep.wellFormed hw hsize hn
    refine ⟨h₂, e₂, ?_, hkeep.trans hkeep₂, hf₂⟩
    rw [List.range_succ, List.foldlM_append, hloop, ok_bind]
    simpa using hnext

def Reports (w : BlockAckWindow) (h : CtrlBAckResponseHeader) (index len : Nat) : Prop :=
  ∃ e, h.Carries index len e ∧ e.startingSeq = w.winStart ∧
    ∀ k < 8 * len, Bitmap.getBit e.bitmap k = w.bits.getD k false

theorem fillBlockAckBitmap_of {a : RecipientBlockAckAgreement} (hwf : h.WellFormed)
    (hc : h.Carries index len e) (hw : a.scoreboard.WellFormed)
    (hsize : a.scoreboard.getWinSize ≤ SEQNO_SPACE_SIZE) :
    ∃ h', a.fillBlockAckBitmap h index = .ok h' ∧ KeepsOthers index h h' ∧
      Reports a.scoreboard h' index len := by
  let h₁ := h.modifyAt index fun e => { e with startingSeq := a.scoreboard.winStart }
  have hkeep₁ : KeepsOthers index h h₁ := .modifyAt hwf (fun _ => rfl) (fun _ _ => rfl)
  have hc₁ := hc.modifyAt (f := fun e => { e with startingSeq := a.scoreboard.winStart })
    fun _ => rfl
  let h₂ := h₁.modifyAt index fun e => { e with bitmap := List.replicate len 0 }
  have hkeep₂ : KeepsOthers index h₁ h₂ := by
    refine .modifyAt hkeep₁.wellFormed (fun _ => rfl) fun e' he' => ?_
    obtain rfl := Option.mem_unique hc₁.instance_eq he'
    rw [(hc₁.length hkeep₁.wellFormed).1]
    exact List.length_replicate
  have hf : FilledTo 0 a.scoreboard h₂ index len
      { e with startingSeq := a.scoreboard.winStart, bitmap := List.replicate len 0 } := by
    refine ⟨hc₁.modifyAt fun _ => rfl, rfl, fun k _ => ?_⟩
    exact (Bitmap.getBit_replicate len k).trans rfl
  obtain ⟨h', e', hloop, hkeep, hfilled⟩ :=
    hf.loop hkeep₂.wellFormed hw hsize le_rfl
  refine ⟨h', ?_, (hkeep₁.trans hkeep₂).trans hkeep, e', hfilled.carries, hfilled.startingSeq, ?_⟩
  · have hstarting : h.setStartingSequence a.scoreboard.getWinStart index = .ok h₁ := by
      rw [setStartingSequence, instanceAt_of hwf hc.instance_eq]
      rfl
    have hreset : h₁.resetBitmap index = .ok h₂ := by
      rw [resetBitmap, instanceAt_of hkeep₁.wellFormed hc₁.instance_eq, ok_bind,
        bitmapLenAt_of hc₁.bitmapLen_eq]
      rfl
    rcases hwf.variant with hv | hv
    · rw [RecipientBlockAckAgreement.fillBlockAckBitmap, hv]
      dsimp only
      rw [hstarting, ok_bind, hreset, ok_bind]
      exact hloop
    · rw [RecipientBlockAckAgreement.fillBlockAckBitmap, hv]
      dsimp only
      rw [hstarting, ok_bind, hreset, ok_bind]
      exact hloop
  · intro k hk
    rw [hfilled.bits k hk]
    by_cases hlt : k < a.scoreboard.getWinSize
    · rw [decide_eq_true hlt, Bool.true_and]
    · have hnone : a.scoreboard.bits[k]? = none := by
        apply List.getElem?_eq_none
        rw [BlockAckWindow.length_bits]
        exact Nat.le_of_not_lt hlt
      rw [List.getD_eq_getElem?_getD, hnone, Option.getD_none, Bool.and_false]

end CtrlBAckResponseHeader

end Ns3
