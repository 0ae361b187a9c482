/-
  The SACK list over the offsets of a stream.

  `RxOffsets.lean` says what `Add` does to the data whatever is in the SACK list.
  Here is what it does to a list of well-formed blocks within half a turn: none of
  its assertions fails, and the blocks are those of `Lib/Blocks.lean`.
-/
import Ns3.Internet.Tcp.RxOffsets
import Ns3.Lib.Blocks

namespace Ns3.Tcp

open Ns3.Lib SequenceNumber

def blockOf (start : SequenceNumber32) (b : Block) : SackBlock := (start.add b.1, start.add b.2)

def BlocksIn (lo : Nat) (list : List Block) : Prop :=
  ∀ b ∈ list, lo ≤ b.1 ∧ b.1 < b.2 ∧ b.2 < lo + 2 ^ 31

variable {rest : List Block}

theorem blocksIn_cons {lo : Nat} {b : Block} :
    BlocksIn lo (b :: rest) ↔ (lo ≤ b.1 ∧ b.1 < b.2 ∧ b.2 < lo + 2 ^ 31) ∧ BlocksIn lo rest :=
  List.forall_mem_cons

variable {list : List Block}

theorem BlocksIn.valid {lo : Nat} (h : BlocksIn lo list) : ∀ b ∈ list, b.1 < b.2 :=
  fun b hb => (h b hb).2.1

namespace TcpRxBuffer

variable {start : SequenceNumber32} {lo : Nat}

/-! ## The SACK list -/

variable {new : Block} {next : Nat}

theorem mergeOnce_offsets (hnew : lo ≤ new.1 ∧ new.1 < new.2 ∧ new.2 < lo + 2 ^ 31)
    (hlist : BlocksIn lo list) :
    mergeOnce (blockOf start new) (list.map (blockOf start)) =
      .ok ((Block.meet new list).map fun found =>
        (blockOf start found.1, found.2.map (blockOf start))) := by
  induction list with
  | nil => rfl
  | cons current rest ih =>
    obtain ⟨hcurrent, hrest⟩ := blocksIn_cons.mp hlist
    rw [List.map_cons, mergeOnce, Block.meet]
    simp (disch := omega) only [blockOf, add_inj_offsets, lt_offsets]
    split
    · rw [nsAssert, if_pos (by simp only [decide_eq_true_eq]; omega)]
      rfl
    · split
      · rw [nsAssert, if_pos (by simp only [decide_eq_true_eq]; omega)]
        rfl
      · have hmerge := ih hrest
        rw [blockOf] at hmerge
        rw [hmerge]
        cases Block.meet new rest <;> rfl

theorem meet_in {joined : Block} (hnew : lo ≤ new.1 ∧ new.1 < new.2 ∧ new.2 < lo + 2 ^ 31)
    (hlist : BlocksIn lo list) (h : Block.meet new list = some (joined, rest)) :
    (lo ≤ joined.1 ∧ joined.1 < joined.2 ∧ joined.2 < lo + 2 ^ 31) ∧ BlocksIn lo rest := by
  obtain ⟨hsub, _, hfst, hsnd, other, hmem, hhas⟩ := Block.meet_some hnew.2.1 hlist.valid h
  have hother := hlist other hmem
  have hfirst := (hhas joined.1).mp ⟨le_rfl, by omega⟩
  have hlast := (hhas (joined.2 - 1)).mp ⟨by omega, by omega⟩
  unfold Block.Has at hfirst hlast
  exact ⟨by omega, fun b hb => hlist b (hsub.subset hb)⟩

theorem mergeBlocks_offsets {turns : Nat} (hnew : lo ≤ new.1 ∧ new.1 < new.2 ∧ new.2 < lo + 2 ^ 31)
    (hlist : BlocksIn lo list) :
    mergeBlocks turns (blockOf start new) (list.map (blockOf start)) =
      .ok ((Block.join turns new list).map (blockOf start)) := by
  induction turns generalizing new list with
  | zero => rfl
  | succ turns ih =>
    rw [mergeBlocks, mergeOnce_offsets hnew hlist, Block.join]
    cases hmeet : Block.meet new list with
    | none => rfl
    | some found =>
      obtain ⟨joined, rest⟩ := found
      obtain ⟨hjoined, hrest⟩ := meet_in hnew hlist hmeet
      exact ih hjoined hrest

theorem updateSackList_offsets (hnew : lo ≤ new.1 ∧ new.1 < new.2 ∧ new.2 < lo + 2 ^ 31)
    (hlist : BlocksIn lo list) (hnext : lo ≤ next ∧ next < new.1) :
    updateSackList (start.add next) (list.map (blockOf start)) (start.add new.1)
        (start.add new.2) =
      .ok ((Block.report 4 new list).map (blockOf start)) := by
  have hmerge := @mergeBlocks_offsets list start lo new list.length hnew hlist
  rw [blockOf] at hmerge
  rw [updateSackList, gt_offsets (by omega) (by omega), nsAssert,
    if_pos (by simp only [decide_eq_true_eq]; omega), List.length_map, hmerge, Block.report]
  by_cases hlong : 4 < (Block.join list.length new list).length
  · rw [if_pos hlong, List.map_dropLast]
    exact congrArg _ (if_pos (by simpa using hlong))
  · rw [if_neg hlong]
    exact congrArg _ (if_neg (by simpa using hlong))

theorem clearSackList_offsets (hlist : BlocksIn lo list) (hnext : lo ≤ next ∧ next < lo + 2 ^ 31) :
    clearSackList (start.add next) (list.map (blockOf start)) =
      .ok ((list.filter fun b => next < b.2).map (blockOf start)) := by
  induction list with
  | nil => rfl
  | cons b rest ih =>
    obtain ⟨hb, hrest⟩ := blocksIn_cons.mp hlist
    rw [List.map_cons, clearSackList, ih hrest, blockOf, lt_offsets (by omega) (by omega),
      nsAssert, if_pos (by simp only [decide_eq_true_eq]; omega),
      le_offsets (by omega) (by omega)]
    by_cases hle : b.2 ≤ next
    · rw [List.filter_cons_of_neg (by simpa using hle)]
      exact congrArg _ (if_pos (by simpa using hle))
    · rw [List.filter_cons_of_pos (by simpa using hle), List.map_cons]
      exact congrArg _ (if_neg (by simpa using hle))

/-! ## Looking for data in sequence -/

theorem filter_filter_lt {next' : Nat} (hle : next ≤ next') (list : List Block) :
    (list.filter fun b => next < b.2).filter (fun b => next' < b.2) =
      list.filter fun b => next' < b.2 := by
  rw [List.filter_filter]
  refine List.filter_congr fun b _ => ?_
  rw [Bool.eq_iff_iff, Bool.and_eq_true, decide_eq_true_eq, decide_eq_true_eq]
  omega

theorem scanData_offsets {avail : Nat} {l : List ByteStretch} (hhalf : InHalf lo l)
    (hnext : lo ≤ next ∧ next < lo + 2 ^ 31) (hlist : BlocksIn lo list)
    (hahead : ∀ b ∈ list, next < b.2) (hlt : avail + heldSize l < 2 ^ 32) :
    scanData (l.map (entryOf start)) (start.add next) avail (list.map (blockOf start)) =
      .ok (start.add (advance l next), avail + (advance l next - next),
        (list.filter fun b => advance l next < b.2).map (blockOf start)) := by
  have hkeep : list.filter (fun b => next < b.2) = list :=
    List.filter_eq_self.mpr fun b hb => decide_eq_true (hahead b hb)
  induction l generalizing next avail list with
  | nil =>
    have hnil : advance ([] : List ByteStretch) next = next := rfl
    rw [List.map_nil, scanData, hnil, hkeep, Nat.sub_self, Nat.add_zero]
    rfl
  | cons s rest ih =>
    obtain ⟨hs, hrest⟩ := inHalf_cons.mp hhalf
    have hle := start_le_stop s
    rw [heldSize_cons] at hlt
    rw [List.map_cons, scanData, advance]
    simp (disch := omega) only [entryOf, entryOf_stop, lt_offsets, gt_offsets,
      decide_eq_true_eq]
    split
    · exact ih hrest hnext hlist hahead (by omega) hkeep
    · split
      · rw [hkeep, Nat.sub_self, Nat.add_zero]
        rfl
      · have hadvance := le_advance rest s.stop
        have hlen : s.stop = s.start + s.elems.length := rfl
        have hfiltered : ∀ b ∈ list.filter fun b => s.stop < b.2, s.stop < b.2 := by
          intro b hb
          exact of_decide_eq_true (List.mem_filter.mp hb).2
        rw [clearSackList_offsets hlist (by omega), wadd_eq (by omega)]
        refine (ih hrest (by omega) (fun b hb => hlist b (List.mem_filter.mp hb).1) hfiltered
          (by omega) (filter_filter_lt le_rfl list)).trans ?_
        rw [filter_filter_lt hadvance]
        congr 3
        omega

/-! ## `Add` -/

/-- The SACK list after `[head, tail)` is stored: the new block is reported if it is out of order,
and contiguous blocks are dropped. -/
def reportedAfter (next next' head tail : Nat) (list : List Block) : List Block :=
  (if next < head then Block.report 4 (head, tail) list else list).filter fun b => next' < b.2

theorem report_in (hnew : (lo ≤ new.1 ∧ new.1 < new.2 ∧ new.2 < lo + 2 ^ 31) ∧ next < new.1)
    (hlist : BlocksIn lo list) (hahead : ∀ b ∈ list, next < b.1) :
    BlocksIn lo (Block.report 4 new list) ∧ ∀ b ∈ Block.report 4 new list, next < b.1 := by
  have hends : ∀ b ∈ Block.report 4 new list,
      (lo ≤ b.1 ∧ b.1 < b.2 ∧ b.2 < lo + 2 ^ 31) ∧ next < b.1 := by
    intro b hb
    obtain ⟨hvalid, hhas⟩ := @Block.report_mem 4 new list hnew.1.2.1 hlist.valid b hb
    have hfirst : lo ≤ b.1 ∧ next < b.1 := by
      rcases hhas b.1 ⟨le_rfl, hvalid⟩ with hin | ⟨b', hb', hin⟩
      · exact ⟨hnew.1.1.trans hin.1, hnew.2.trans_le hin.1⟩
      · exact ⟨(hlist b' hb').1.trans hin.1, (hahead b' hb').trans_le hin.1⟩
    have hlast : b.2 - 1 < lo + 2 ^ 31 - 1 := by
      rcases hhas (b.2 - 1) ⟨by omega, by omega⟩ with hin | ⟨b', hb', hin⟩
      · have hend := hin.2
        omega
      · have hold := hlist b' hb'
        have hend := hin.2
        omega
    exact ⟨⟨hfirst.1, hvalid, by omega⟩, hfirst.2⟩
  exact ⟨fun b hb => (hends b hb).1, fun b hb => (hends b hb).2⟩

theorem add_sackList {b b' : TcpRxBuffer} {r : Reception} {base off head tail : Nat} {p : Packet}
    {data : List ByteStretch} {stored : Bool} (hrep : Represents start r b)
    (hsep : Separate base r.data) (hcmp : Compares lo b.maxBuffer r off p.length)
    (hcut : r.cut b.maxBuffer off p.length = (data, head, tail))
    (hsack : b.sackList = list.map (blockOf start)) (hlist : BlocksIn lo list)
    (hahead : ∀ b ∈ list, r.next < b.1) (havail : b.availBytes < 2 ^ 31)
    (h : b.add p (start.add off) = .ok (b', stored)) :
    b'.sackList = (if tail ≤ head then list else reportedAfter r.next
      (advance (place (Reception.stored p off head tail) data) r.next) head tail list).map
        (blockOf start) := by
  have hcuts := Reception.cuts b.maxBuffer off p.length hsep
  rw [hcut] at hcuts
  obtain ⟨_, _, _, heq, hsub, hclear, _, hinside⟩ := hcuts
  cases heq
  rw [add_offsets hrep hsep hcmp hcut] at h
  by_cases hempty : tail ≤ head
  · rw [if_pos hempty] at h ⊢
    cases h
    exact hsack
  · rw [if_neg hempty] at h ⊢
    have hin := hinside (by omega)
    have hseg := hcmp.segment
    have hnext := hcmp.next
    have hstop : (Reception.stored p off head tail).stop = tail :=
      Reception.stored_stop (by omega) (by omega) hin.2
    have hhalf : InHalf lo (place (Reception.stored p off head tail) data) := by
      intro s hmem
      rcases mem_place.mp hmem with rfl | hold
      · rw [hstop]
        exact ⟨by dsimp only [Reception.stored]; omega, by omega⟩
      · exact hcmp.data s (hsub.subset hold)
    have hkept : Separate lo data :=
      (hsep.raise fun s hmem => (hcmp.data s hmem).1).sublist hsub
    have hplace : Separate lo (place (Reception.stored p off head tail) data) :=
      hkept.place (by dsimp only [Reception.stored]; omega)
        (by rw [hstop]; dsimp only [Reception.stored]; omega) (by rw [hstop]; exact hclear)
    have hsize := heldSize_lt_half hplace hhalf
    rw [hsack] at h
    -- the new block, if there is one, is well formed too
    obtain ⟨list', hlist', hin', hahead'⟩ : ∃ list',
        (if r.next < head then Block.report 4 (head, tail) list else list) = list' ∧
        BlocksIn lo list' ∧ ∀ b ∈ list', r.next < b.1 := by
      refine ⟨_, rfl, ?_⟩
      split
      · exact report_in (by dsimp only; omega) hlist hahead
      · exact ⟨hlist, hahead⟩
    have hscan := @scanData_offsets list' start lo r.next b.availBytes _ hhalf hnext hin'
      (fun b hb => (hahead' b hb).trans (hin' b hb).2.1) (by omega)
    unfold reportedAfter
    rw [hlist']
    split at h
    · rename_i hafter
      rw [if_pos hafter] at hlist'
      simp only [bind_eq_ok, pure_eq_ok, Prod.mk.injEq] at h
      obtain ⟨sackList, hupdate, found, hfound, rfl, _⟩ := h
      rw [@updateSackList_offsets list start lo (head, tail) r.next (by dsimp only; omega) hlist
        (by dsimp only; omega), hlist'] at hupdate
      cases hupdate
      rw [hscan] at hfound
      cases hfound
      rfl
    · rename_i hafter
      rw [if_neg hafter] at hlist'
      subst hlist'
      simp only [bind_eq_ok, pure_eq_ok, Prod.mk.injEq] at h
      obtain ⟨sackList, hsame, found, hfound, rfl, _⟩ := h
      subst hsame
      rw [hscan] at hfound
      cases hfound
      rfl

end TcpRxBuffer

end Ns3.Tcp
