/-
  Items cut into segments, sent in frames, and put together again.

  A stream of segments goes through the items in their order.  The receiver sees some of
  the frames.  It keeps the segments of an item as long as it has seen all of them, and so
  delivers the items of which no frame was lost.
-/
import Mathlib.Data.List.Basic
import Mathlib.Data.List.Range
import Ns3.Lib.Run

namespace Ns3.Lib

/-- A segment: the item it belongs to, whether it is the first and the last one of it. -/
structure Segment (α : Type*) where
  item : Nat
  first : Bool
  last : Bool
  data : List α

/-- A place in a stream: the items before `item` are complete, and `part` of it has been sent. -/
structure Cursor (α : Type*) where
  item : Nat
  part : Option (List α)

variable {α : Type*} {segs : List (Segment α)}

namespace Cursor

variable {items items' : List (List α)} {c c' : Cursor α} {s : Segment α}

def extend (c : Cursor α) (s : Segment α) : List α := c.part.getD [] ++ s.data

/-- The stream goes on by one segment. -/
inductive Step (items : List (List α)) : Cursor α → Segment α → Cursor α → Prop where
  | more {c : Cursor α} {s : Segment α} : s.item = c.item → s.first = c.part.isNone →
      s.last = false → Step items c s ⟨c.item, some (c.extend s)⟩
  | last {c : Cursor α} {s : Segment α} : s.item = c.item → s.first = c.part.isNone →
      s.last = true → items[c.item]? = some (c.extend s) → Step items c s ⟨c.item + 1, none⟩

theorem Step.item_eq (h : Step items c s c') : s.item = c.item := by
  cases h with
  | more hitem => exact hitem
  | last hitem => exact hitem

theorem Step.first_eq (h : Step items c s c') : s.first = c.part.isNone := by
  cases h with
  | more _ hfirst => exact hfirst
  | last _ hfirst => exact hfirst

theorem Step.append (h : Step items c s c') (more : List (List α)) :
    Step (items ++ more) c s c' := by
  cases h with
  | more hitem hfirst hlast => exact .more hitem hfirst hlast
  | last hitem hfirst hlast heq =>
    refine .last hitem hfirst hlast ?_
    rw [List.getElem?_append_left (List.getElem?_eq_some_iff.mp heq).1]
    exact heq

theorem Step.cut (h : Step items c s c') (k : Nat) :
    ∃ mid, Step items c { s with last := false, data := s.data.take k } mid ∧
      Step items mid { s with first := false, data := s.data.drop k } c' := by
  refine ⟨_, .more h.item_eq h.first_eq rfl, ?_⟩
  have hwhole : (c.part.getD [] ++ s.data.take k) ++ s.data.drop k = c.extend s := by
    rw [List.append_assoc, List.take_append_drop, extend]
  cases h with
  | more hitem _ hlast =>
    rw [← hwhole]
    exact .more hitem rfl hlast
  | last hitem _ hlast heq =>
    rw [← hwhole] at heq
    exact .last hitem rfl hlast heq

abbrev Stream (items : List (List α)) : Cursor α → List (Segment α) → Cursor α → Prop :=
  Run (Step items)

def start : Cursor α := ⟨0, none⟩

def stop (items : List (List α)) : Cursor α := ⟨items.length, none⟩

theorem Stream.push (h : c.Stream items segs (stop items)) (data : List α) :
    c.Stream (items ++ [data]) (segs ++ [⟨items.length, true, true, data⟩])
      (stop (items ++ [data])) := by
  refine .snoc (h.mono fun _ _ _ hstep => hstep.append _) ?_
  have hitem : (items ++ [data])[items.length]? = some data := List.getElem?_concat_length
  have hlen : (items ++ [data]).length = items.length + 1 := List.length_append
  rw [stop, stop, hlen]
  exact .last rfl rfl rfl hitem

end Cursor

/-! ## The receiver -/

/-- The part of an item that has been collected, and the items delivered. -/
structure Collected (α : Type*) where
  part : Option (List α)
  items : List (List α)

namespace Collected

/-- A segment arrives: it is kept if it is the first one, or the ones before it are there. -/
def segment (st : Collected α) (s : Segment α) : Collected α :=
  let part := if s.first then some s.data else st.part.map fun p => p ++ s.data
  if s.last then ⟨none, st.items ++ part.toList⟩ else ⟨part, st.items⟩

def frame (st : Collected α) (f : List (Segment α) × Bool) : Collected α :=
  if f.2 then f.1.foldl segment st else ⟨none, st.items⟩

theorem foldl_whole (h : ∀ s ∈ segs, s.first = true ∧ s.last = true)
    (deliveredItems : List (List α)) : segs.foldl segment ⟨none, deliveredItems⟩ =
      ⟨none, deliveredItems ++ segs.map Segment.data⟩ := by
  induction segs generalizing deliveredItems with
  | nil => simp
  | cons s segs ih =>
    obtain ⟨hfirst, hlast⟩ := h s (.head _)
    have hs : segment ⟨none, deliveredItems⟩ s = ⟨none, deliveredItems ++ [s.data]⟩ := by
      rw [segment, hfirst, hlast, if_pos rfl, if_pos rfl]
      rfl
    rw [List.foldl_cons, hs, ih fun s' hs' => h s' (.tail _ hs'),
      List.map_cons, List.append_assoc]
    rfl

/-- What the receiver makes of the frames. -/
def collect (frames : List (List (Segment α) × Bool)) : Collected α :=
  frames.foldl frame ⟨none, []⟩

end Collected

/-- Only the first segment of a frame may lack the start of its item, and only the last one
the end.  Whether it does is told with the frame. -/
inductive Frame : List (Segment α) → Bool → Bool → Prop where
  | one (s : Segment α) : Frame [s] s.first s.last
  | more (s : Segment α) (mid : List (Segment α)) (z : Segment α) : s.last = true →
      (∀ m ∈ mid, m.first = true ∧ m.last = true) → z.first = true →
      Frame (s :: (mid ++ [z])) s.first z.last

variable {items : List (List α)} {c c' : Cursor α}

theorem first_of_stream {s : Segment α} (hstream : c.Stream items (s :: segs) c')
    (hlast : s.last = true) (hsegs : ∀ m ∈ segs.dropLast, m.last = true) :
    ∀ m ∈ segs, m.first = true := by
  obtain ⟨c₁, hstep, hrest⟩ := hstream.cons_inv
  have hc₁ : c₁.part = none := by
    cases hstep with
    | more _ _ hnot => rw [hlast] at hnot; cases hnot
    | last => rfl
  clear hstream hstep
  induction segs generalizing s c₁ with
  | nil => exact nofun
  | cons m segs ih =>
    obtain ⟨c₂, hstep, htail⟩ := hrest.cons_inv
    have hm : m.first = true := by rw [hstep.first_eq, hc₁]; rfl
    intro m' hm'
    rcases List.mem_cons.mp hm' with rfl | hm'
    · exact hm
    have hne : segs ≠ [] := List.ne_nil_of_mem hm'
    have hmlast : m.last = true := hsegs m (by
      rw [List.dropLast_cons_of_ne_nil hne]
      exact .head _)
    refine ih (s := m) hmlast (fun m₁ hm₁ => hsegs m₁ ?_) c₂ htail ?_ m' hm'
    · rw [List.dropLast_cons_of_ne_nil hne]
      exact .tail _ hm₁
    · cases hstep with
      | more _ _ hnot => rw [hmlast] at hnot; cases hnot
      | last => rfl

theorem frame_of_stream {init : List (Segment α)} {z : Segment α}
    (hstream : c.Stream items (init ++ [z]) c') (hinit : ∀ s ∈ init, s.last = true) {first : Bool}
    (hhead : (init ++ [z]).head?.map Segment.first = some first) :
    Frame (init ++ [z]) first z.last := by
  cases init with
  | nil =>
    cases hhead
    exact .one z
  | cons s mid =>
    cases hhead
    rw [List.cons_append] at hstream
    have hlast : s.last = true := hinit s (.head _)
    have hfirst := first_of_stream hstream hlast (by
      rw [List.dropLast_concat]
      exact fun m hm => hinit m (.tail _ hm))
    refine .more s mid z hlast (fun m hm => ⟨hfirst m ?_, hinit m ?_⟩) (hfirst z (by simp))
    · exact List.mem_append_left _ hm
    · exact .tail _ hm

theorem Frame.first_eq {first last : Bool} (hframe : Frame segs first last)
    (hstream : c.Stream items segs c') : first = c.part.isNone := by
  cases hframe with
  | one s =>
    obtain ⟨_, hstep, -⟩ := hstream.cons_inv
    exact hstep.first_eq
  | more s mid z =>
    obtain ⟨_, hstep, -⟩ := hstream.cons_inv
    exact hstep.first_eq

def Lost (frames : List (List (Segment α) × Bool)) (item : Nat) : Prop :=
  ∃ f ∈ frames, f.2 = false ∧ ∃ s ∈ f.1, s.item = item

instance (frames : List (List (Segment α) × Bool)) (item : Nat) : Decidable (Lost frames item) := by
  unfold Lost
  infer_instance

variable {frames : List (List (Segment α) × Bool)}
  {st : Collected α} {s : Segment α}

/-- What the receiver has, when the stream is at `c`: the part of the item, unless some of it
was lost, and the intact items. -/
structure CollectedAt (items : List (List α)) (lost : Nat → Prop) [DecidablePred lost]
    (c : Cursor α)
    (st : Collected α) : Prop where
  part : st.part = if lost c.item then none else c.part
  items : st.items = ((List.range c.item).filter fun k => ¬lost k).map fun k => items.getD k []
  ahead : ∀ k, lost k → k < c.item ∨ (k = c.item ∧ c.part.isSome)

variable {lost : Nat → Prop} [DecidablePred lost] {lost' : Nat → Prop}

theorem CollectedAt.congr [DecidablePred lost'] (h : CollectedAt items lost c st)
    (hsame : ∀ k, lost' k ↔ lost k) : CollectedAt items lost' c st := by
  refine ⟨?_, ?_, fun k hk => h.ahead k ((hsame k).mp hk)⟩
  · rw [h.part]
    exact if_congr (hsame _).symm rfl rfl
  · rw [h.items]
    refine congrArg _ (List.filter_congr fun k _ => decide_eq_decide.mpr ?_)
    exact not_congr (hsame k).symm

/-- **A segment of a frame that arrives.** -/
theorem CollectedAt.segment (h : CollectedAt items lost c st) (hstep : c.Step items s c') :
    CollectedAt items lost c' (st.segment s) := by
  have hpart : (if s.first then some s.data else st.part.map fun p => p ++ s.data) =
      if lost c.item then none else some (c.extend s) := by
    rw [hstep.first_eq, h.part]
    cases hc : c.part with
    | none =>
      have hnot : ¬lost c.item := by
        intro hlost
        rcases h.ahead _ hlost with hlt | ⟨-, hsome⟩
        · exact Nat.lt_irrefl _ hlt
        · rw [hc] at hsome
          cases hsome
      rw [Cursor.extend, hc]
      exact (if_neg hnot).symm
    | some p =>
      rw [Cursor.extend, hc]
      split
      · next hfirst => cases hfirst
      split
      · rfl
      · rfl
  cases hstep with
  | more hitem hfirst hlast =>
    refine ⟨?_, ?_, fun k hk => ?_⟩
    · rw [Collected.segment, hlast, if_neg Bool.false_ne_true]
      exact hpart
    · rw [Collected.segment, hlast, if_neg Bool.false_ne_true]
      exact h.items
    · rcases h.ahead k hk with hlt | ⟨heq, -⟩
      · exact .inl hlt
      · exact .inr ⟨heq, rfl⟩
  | last hitem hfirst hlast heq =>
    have hnext : ¬lost (c.item + 1) := by
      intro hlost
      rcases h.ahead _ hlost with hlt | ⟨heq', -⟩ <;> omega
    refine ⟨?_, ?_, fun k hk => .inl ?_⟩
    · rw [Collected.segment, hlast, if_pos rfl, if_neg hnext]
    · rw [Collected.segment, hlast, if_pos rfl, hpart, List.range_succ, List.filter_append,
        List.map_append, h.items]
      refine congrArg (_ ++ ·) ?_
      by_cases hlost : lost c.item
      · rw [if_pos hlost, List.filter_cons_of_neg (by simpa using hlost)]
        rfl
      · rw [if_neg hlost, List.filter_cons_of_pos (by simpa using hlost), List.filter_nil,
          List.map_singleton, List.getD_eq_getElem?_getD, heq]
        rfl
    · show k < c.item + 1
      rcases h.ahead k hk with hlt | ⟨heq', -⟩ <;> omega

/-- **A frame that arrives.** -/
theorem CollectedAt.segments (h : CollectedAt items lost c st) (hstream : c.Stream items segs c') :
    CollectedAt items lost c' (segs.foldl .segment st) := by
  induction hstream with
  | nil => exact h
  | snoc _ hstep ih =>
    rw [List.foldl_append]
    exact ih.segment hstep

/-- The items that a stream of segments runs through. -/
theorem item_of_stream (hstream : c.Stream items segs c') :
    c.item ≤ c'.item ∧
      (∀ s ∈ segs, c.item ≤ s.item ∧ (s.item < c'.item ∨ (s.item = c'.item ∧ c'.part.isSome))) ∧
      (∀ k, c.item ≤ k → k < c'.item → ∃ s ∈ segs, s.item = k) ∧
      (c'.part.isSome → segs ≠ [] → ∃ s ∈ segs, s.item = c'.item) := by
  induction hstream with
  | nil => exact ⟨le_rfl, nofun, fun k hle hlt => absurd hlt (Nat.not_lt.mpr hle), fun _ h =>
    absurd rfl h⟩
  | @snoc segs c₁ c₂ s _ hstep ih =>
    obtain ⟨hle, hitems, hcover, -⟩ := ih
    cases hstep with
    | more hitem hfirst hlast =>
      refine ⟨hle, fun s' hs' => ?_, fun k hk hlt => ?_, fun _ _ => ⟨s, by simp, hitem⟩⟩
      · rcases List.mem_append.mp hs' with hs' | hs'
        · obtain ⟨hge, hlt | ⟨heq, -⟩⟩ := hitems s' hs'
          · exact ⟨hge, .inl hlt⟩
          · exact ⟨hge, .inr ⟨heq, rfl⟩⟩
        · rw [List.mem_singleton.mp hs', hitem]
          exact ⟨hle, .inr ⟨rfl, rfl⟩⟩
      · obtain ⟨s', hs', heq⟩ := hcover k hk hlt
        exact ⟨s', List.mem_append_left _ hs', heq⟩
    | last hitem hfirst hlast heq =>
      refine ⟨Nat.le_succ_of_le hle, fun s' hs' => ?_, fun k hk hlt => ?_, nofun⟩
      · rcases List.mem_append.mp hs' with hs' | hs'
        · obtain ⟨hge, hlt | ⟨heq', -⟩⟩ := hitems s' hs'
          · exact ⟨hge, .inl (Nat.lt_succ_of_lt hlt)⟩
          · exact ⟨hge, .inl (heq' ▸ Nat.lt_succ_self _)⟩
        · rw [List.mem_singleton.mp hs', hitem]
          exact ⟨hle, .inl (Nat.lt_succ_self _)⟩
      · by_cases hk' : k < c₁.item
        · obtain ⟨s', hs', heq'⟩ := hcover k hk hk'
          exact ⟨s', List.mem_append_left _ hs', heq'⟩
        · have hlt : k < c₁.item + 1 := hlt
          exact ⟨s, by simp, by omega⟩

theorem filter_range {m n : Nat} {P Q : Nat → Prop} [DecidablePred P] [DecidablePred Q]
    (hle : m ≤ n) (h : ∀ k, k < n → (P k ↔ k < m ∧ Q k)) :
    (List.range n).filter (fun k => P k) = (List.range m).filter fun k => Q k := by
  have hsplit : List.range n = List.range m ++ (List.range (n - m)).map (m + ·) := by
    rw [← List.range_add, Nat.add_sub_cancel' hle]
  have hnone : ((List.range (n - m)).map (m + ·)).filter (fun k => P k) = [] := by
    refine List.filter_eq_nil_iff.mpr fun k hk hP => ?_
    obtain ⟨j, hj, rfl⟩ := List.mem_map.mp hk
    have hj := List.mem_range.mp hj
    have hlt := ((h (m + j) (by omega)).mp (of_decide_eq_true hP)).1
    exact Nat.not_lt.mpr (Nat.le_add_right m j) hlt
  have hsame : (List.range m).filter (fun k => P k) = (List.range m).filter fun k => Q k := by
    refine List.filter_congr fun k hk => decide_eq_decide.mpr ?_
    have hk := List.mem_range.mp hk
    exact (h k (hk.trans_le hle)).trans (and_iff_right hk)
  rw [hsplit, List.filter_append, hnone, List.append_nil, hsame]

/-- **A frame that is lost.** -/
theorem CollectedAt.lose [DecidablePred lost'] (h : CollectedAt items lost c st)
    (hstream : c.Stream items segs c') (hne : segs ≠ [])
    (hlost : ∀ k, lost' k ↔ lost k ∨ ∃ s ∈ segs, s.item = k) :
    CollectedAt items lost' c' ⟨none, st.items⟩ := by
  obtain ⟨hle, hitems, hcover, hlast⟩ := item_of_stream hstream
  refine ⟨?_, ?_, fun k hk => ?_⟩
  · cases hpart : c'.part with
    | none => rw [ite_self]
    | some p =>
      rw [if_pos]
      exact (hlost _).mpr (.inr (hlast (by rw [hpart]; rfl) hne))
  · rw [h.items]
    refine congrArg _ (filter_range hle fun k hk => ?_).symm
    rw [hlost, not_or]
    constructor
    · rintro ⟨hnot, hnone⟩
      refine ⟨Nat.lt_of_not_le fun hge => hnone (hcover k hge hk), hnot⟩
    · rintro ⟨hlt, hnot⟩
      refine ⟨hnot, ?_⟩
      rintro ⟨s, hs, rfl⟩
      exact Nat.not_le.mpr hlt (hitems s hs).1
  · rcases (hlost k).mp hk with hk | ⟨s, hs, rfl⟩
    · rcases h.ahead k hk with hlt | ⟨rfl, hsome⟩
      · exact .inl (hlt.trans_le hle)
      · rcases Nat.lt_or_ge c.item c'.item with hlt | hge
        · exact .inl hlt
        · have heq : c.item = c'.item := Nat.le_antisymm hle hge
          obtain ⟨s, rest, rfl⟩ := List.exists_cons_of_ne_nil hne
          obtain ⟨hge', hlt | ⟨-, hsome'⟩⟩ := hitems s (.head _)
          · omega
          · exact .inr ⟨heq, hsome'⟩
    · exact (hitems s hs).2

theorem lost_concat {f : List (Segment α) × Bool} {k : Nat} : Lost (frames ++ [f]) k ↔
    Lost frames k ∨ (f.2 = false ∧ ∃ s ∈ f.1, s.item = k) := by
  unfold Lost
  constructor
  · rintro ⟨f', hf', hk⟩
    rcases List.mem_append.mp hf' with hf' | hf'
    · exact .inl ⟨f', hf', hk⟩
    · obtain rfl := List.mem_singleton.mp hf'
      exact .inr hk
  · rintro (⟨f', hf', hk⟩ | hk)
    · exact ⟨f', List.mem_append_left _ hf', hk⟩
    · exact ⟨f, by simp, hk⟩

/-- **The receiver delivers exactly the intact items, in order.** -/
theorem collectedAt_collect (hne : ∀ f ∈ frames, f.1 ≠ [])
    (hstream : Cursor.start.Stream items (frames.flatMap Prod.fst) c) :
    CollectedAt items (Lost frames) c (.collect frames) := by
  induction frames using List.reverseRecOn generalizing c with
  | nil =>
    have hend : c = Cursor.start := hstream.nil_eq
    subst hend
    exact ⟨(ite_self (none : Option (List α))).symm, rfl,
      fun k ⟨f, hf, _⟩ => absurd hf List.not_mem_nil⟩
  | append_singleton frames f ih =>
    rw [List.flatMap_append, List.flatMap_singleton] at hstream
    obtain ⟨c₁, hbefore, hframe⟩ := hstream.append_inv
    have h := ih (fun f' hf' => hne f' (List.mem_append_left _ hf')) hbefore
    have hcollect : Collected.collect (frames ++ [f]) = (Collected.collect frames).frame f := by
      rw [Collected.collect, List.foldl_append]
      rfl
    rw [hcollect, Collected.frame]
    cases hf : f.2 with
    | false =>
      rw [if_neg Bool.false_ne_true]
      refine h.lose hframe (hne f (by simp)) fun k => ?_
      rw [lost_concat, hf]
      simp
    | true =>
      rw [if_pos rfl]
      have hsame : ∀ k, Lost (frames ++ [f]) k ↔ Lost frames k := fun k => by
        rw [lost_concat, hf]
        simp
      exact (h.congr hsame).segments hframe

end Ns3.Lib
