/-
  Reassembly of a stream from overlapping segments.

  A receiver keeps what it has of a stream as a sorted list of disjoint stretches.
  A new segment is trimmed against them, whatever it overlaps, and put in its
  place; what is contiguous at the front can be taken out.  Offsets are natural
  numbers and the stream is of any type.
-/
import Mathlib.Data.List.Basic
import Ns3.Lib.Tally

namespace Ns3.Lib

variable {α : Type*}

/-! ## Slices of a stream -/

/-- The `n` elements of a stream from offset `k` on. -/
def slice (f : Nat → α) (k n : Nat) : List α := (List.range n).map fun i => f (k + i)

@[simp] theorem length_slice (f : Nat → α) (k n : Nat) : (slice f k n).length = n := by
  simp [slice]

theorem slice_add (f : Nat → α) (k m n : Nat) :
    slice f k (m + n) = slice f k m ++ slice f (k + m) n := by
  simp [slice, List.range_add, Nat.add_assoc]

theorem take_slice (f : Nat → α) (k : Nat) {m n : Nat} (h : m ≤ n) :
    (slice f k n).take m = slice f k m := by
  obtain ⟨d, rfl⟩ := Nat.exists_eq_add_of_le h
  rw [slice_add, List.take_append_of_le_length (by simp), List.take_of_length_le (by simp)]

theorem drop_slice (f : Nat → α) (k : Nat) {m n : Nat} (h : m ≤ n) :
    (slice f k n).drop m = slice f (k + m) (n - m) := by
  obtain ⟨d, rfl⟩ := Nat.exists_eq_add_of_le h
  have hdrop : (slice f k m).drop m = [] := List.drop_of_length_le (by simp)
  rw [slice_add, List.drop_append_of_le_length (by simp), hdrop, Nat.add_sub_cancel_left]
  rfl

/-! ## Stretches -/

variable {lo : Nat}

/-- A stretch of a stream: the offset of its first element, and its elements. -/
structure Stretch (α : Type*) where
  start : Nat
  elems : List α
  deriving DecidableEq, Repr

def Stretch.stop (s : Stretch α) : Nat := s.start + s.elems.length

def Stretch.Of (f : Nat → α) (s : Stretch α) : Prop := s.elems = slice f s.start s.elems.length

/-- Stretches in order, from `lo` on, none empty and no two overlapping. -/
def Separate : Nat → List (Stretch α) → Prop
  | _, [] => True
  | lo, s :: rest => lo ≤ s.start ∧ s.start < s.stop ∧ Separate s.stop rest

def Held (l : List (Stretch α)) (k : Nat) : Prop := ∃ s ∈ l, s.start ≤ k ∧ k < s.stop

def heldSize (l : List (Stretch α)) : Nat := total (fun s => s.elems.length) l

@[simp] theorem heldSize_nil : heldSize ([] : List (Stretch α)) = 0 := rfl

@[simp] theorem heldSize_cons (s : Stretch α) (rest : List (Stretch α)) :
    heldSize (s :: rest) = s.elems.length + heldSize rest :=
  total_cons _ s rest

variable {l : List (Stretch α)} {l' : List (Stretch α)}

theorem heldSize_sublist (h : l'.Sublist l) : heldSize l' ≤ heldSize l := by
  induction h with
  | slnil => exact le_rfl
  | cons s _ ih =>
    rw [heldSize_cons]
    omega
  | cons_cons s _ ih =>
    rw [heldSize_cons, heldSize_cons]
    omega

theorem not_held_nil (k : Nat) : ¬Held ([] : List (Stretch α)) k := by
  rintro ⟨s, hmem, _⟩
  exact List.not_mem_nil hmem

variable {s : Stretch α} {rest : List (Stretch α)} {k : Nat}

theorem held_cons : Held (s :: rest) k ↔ (s.start ≤ k ∧ k < s.stop) ∨ Held rest k := by
  simp [Held]

section

variable (h : Separate lo l)

include h

theorem Separate.mono {lo' : Nat} (hle : lo' ≤ lo) : Separate lo' l := by
  cases l with
  | nil => trivial
  | cons s rest => exact ⟨hle.trans h.1, h.2⟩

theorem Separate.raise {lo' : Nat} (hle : ∀ s ∈ l, lo' ≤ s.start) : Separate lo' l := by
  cases l with
  | nil => trivial
  | cons s rest => exact ⟨hle s (.head _), h.2⟩

theorem Separate.le_of_held (hk : Held l k) : lo ≤ k := by
  induction l generalizing lo with
  | nil => exact absurd hk (not_held_nil k)
  | cons s rest ih =>
    obtain ⟨hlo, hlt, hrest⟩ := h
    rcases held_cons.mp hk with hin | hin
    · omega
    · have hle := ih hrest hin
      omega

theorem Separate.heldSize_le {hi : Nat} (hlo : lo ≤ hi) (hstop : ∀ s ∈ l, s.stop ≤ hi) :
    lo + heldSize l ≤ hi := by
  induction l generalizing lo with
  | nil => exact hlo
  | cons s rest ih =>
    obtain ⟨hs, hlt, hrest⟩ := h
    obtain ⟨hfirst, hothers⟩ := List.forall_mem_cons.mp hstop
    have hsize := ih hrest hfirst hothers
    rw [heldSize_cons]
    unfold Stretch.stop at hsize
    omega

theorem Separate.le_of_mem (hmem : s ∈ l) : lo ≤ s.start ∧ s.start < s.stop := by
  induction l generalizing lo with
  | nil => cases hmem
  | cons first rest ih =>
    obtain ⟨hlo, hlt, hrest⟩ := h
    rcases List.mem_cons.mp hmem with rfl | hin
    · exact ⟨hlo, hlt⟩
    · obtain ⟨hle, hlt'⟩ := ih hrest hin
      exact ⟨by omega, hlt'⟩

end

def heldBelow (next : Nat) (l : List (Stretch α)) : Nat :=
  total (fun s => min s.stop next - s.start) l

variable {next : Nat}

theorem Separate.heldBelow (h : Separate lo l) (hheld : ∀ k, lo ≤ k → k < next → Held l k) :
    heldBelow next l = next - lo := by
  induction l generalizing lo with
  | nil =>
    have hle : next ≤ lo := by
      by_contra hlt
      exact not_held_nil lo (hheld lo le_rfl (by omega))
    rw [Lib.heldBelow, total_nil]
    omega
  | cons s rest ih =>
    obtain ⟨hlo, hlt, hrest⟩ := h
    have hbelow := ih hrest fun k hle hk => by
      rcases held_cons.mp (hheld k (by omega) hk) with hin | hin
      · omega
      · exact hin
    have hfirst : lo < next → s.start = lo := by
      intro hpos
      rcases held_cons.mp (hheld lo le_rfl hpos) with hin | hin
      · omega
      · have hle := hrest.le_of_held hin
        omega
    unfold Lib.heldBelow at hbelow ⊢
    rw [total_cons, hbelow]
    omega

theorem heldBelow_le (next : Nat) (l : List (Stretch α)) : heldBelow next l ≤ heldSize l := by
  induction l with
  | nil => exact le_rfl
  | cons s rest ih =>
    unfold Lib.heldBelow at ih ⊢
    rw [total_cons, heldSize_cons, Stretch.stop]
    omega

/-! ## Trimming a segment -/

variable {head tail : Nat}

/-- The segment `[head, tail)` trimmed against the stretches: what overlaps its ends is taken off
it, and the stretches strictly inside it are given up. -/
def trim : List (Stretch α) → Nat → Nat → List (Stretch α) × Nat × Nat
  | [], head, tail => ([], head, tail)
  | s :: rest, head, tail =>
    if s.start ≤ tail then
      if head < s.stop then
        if head < s.start ∧ s.stop < tail then trim rest head tail
        else
          let trimmed := trim rest (if s.start ≤ head then s.stop else head)
            (if tail ≤ s.stop then s.start else tail)
          (s :: trimmed.1, trimmed.2)
      else
        let trimmed := trim rest head tail
        (s :: trimmed.1, trimmed.2)
    else (s :: rest, head, tail)

theorem trim_ends {P : Nat → Prop} (hl : ∀ s ∈ l, P s.start ∧ P s.stop) (hhead : P head)
    (htail : P tail) : P (trim l head tail).2.1 ∧ P (trim l head tail).2.2 := by
  induction l generalizing head tail with
  | nil => exact ⟨hhead, htail⟩
  | cons s rest ih =>
    obtain ⟨hs, hrest⟩ := List.forall_mem_cons.mp hl
    rw [trim]
    split
    · split
      · split
        · exact ih hrest hhead htail
        · apply ih hrest
          · split
            · exact hs.2
            · exact hhead
          · split
            · exact hs.1
            · exact htail
      · exact ih hrest hhead htail
    · exact ⟨hhead, htail⟩

/-- What is left of the segment lies in it, clear of what is left of the stretches;
and nothing is lost. -/
structure Trims (l : List (Stretch α)) (head tail : Nat)
    (trimmed : List (Stretch α) × Nat × Nat) : Prop where
  head_le : head ≤ trimmed.2.1
  tail_le : trimmed.2.2 ≤ tail
  sublist : trimmed.1.Sublist l
  clear : ∀ k, Held trimmed.1 k → ¬(trimmed.2.1 ≤ k ∧ k < trimmed.2.2)
  held : ∀ k, (Held trimmed.1 k ∨ (trimmed.2.1 ≤ k ∧ k < trimmed.2.2)) ↔
    (Held l k ∨ (head ≤ k ∧ k < tail))

theorem trim_below (h : Separate lo l) (hlt : tail < lo) : trim l head tail = (l, head, tail) := by
  cases l with
  | nil => rfl
  | cons s rest =>
    have hlo := h.1
    rw [trim, if_neg (by omega)]

theorem trim_past (h : ∀ s ∈ l, s.stop ≤ head) : trim l head tail = (l, head, tail) := by
  induction l with
  | nil => rfl
  | cons s rest ih =>
    obtain ⟨hs, hrest⟩ := List.forall_mem_cons.mp h
    rw [trim, if_neg (Nat.not_lt.mpr hs), ih hrest]
    split <;> rfl

theorem trim_gives_up (h : Separate lo l) (hmem : s ∈ l) (hgone : s ∉ (trim l head tail).1) :
    s.stop < tail ∧ ∃ k, head ≤ k ∧ k < s.start ∧ ¬Held l k := by
  induction l generalizing lo head tail with
  | nil => cases hmem
  | cons first rest ih =>
    obtain ⟨hlo, hlt, hrest⟩ := h
    -- an element behind the first stretch is held if the rest holds it
    have hlift : ∀ k, first.stop ≤ k → ¬Held rest k → ¬Held (first :: rest) k := by
      intro k hk hnot hin
      rcases held_cons.mp hin with hin | hin
      · omega
      · exact hnot hin
    have hpast : s ∈ rest → first.stop ≤ s.start ∧ s.start < s.stop := hrest.le_of_mem
    rw [trim] at hgone
    split at hgone
    · split at hgone
      · split at hgone
        · rename_i hinside
          have hhead : ¬Held (first :: rest) head := by
            intro hin
            rcases held_cons.mp hin with hin | hin
            · omega
            · have hle := hrest.le_of_held hin
              omega
          rcases List.mem_cons.mp hmem with rfl | hin
          · exact ⟨hinside.2, head, le_rfl, hinside.1, hhead⟩
          · obtain ⟨hstop, _⟩ := ih hrest hin hgone
            exact ⟨hstop, head, le_rfl, by omega, hhead⟩
        · rename_i hreach hinside
          dsimp only at hgone
          obtain ⟨hne, hgone⟩ := not_or.mp (List.mem_cons.not.mp hgone)
          have hin : s ∈ rest := (List.mem_cons.mp hmem).resolve_left hne
          obtain ⟨hstop, k, hk, hks, hnot⟩ := ih hrest hin hgone
          have hstart := hpast hin
          have hback : ¬tail ≤ first.stop := by
            intro hback
            rw [if_pos hback] at hstop
            omega
          rw [if_neg hback] at hstop
          rw [if_pos (by omega)] at hk
          exact ⟨hstop, k, by omega, hks, hlift k hk hnot⟩
      · rename_i hreach
        dsimp only at hgone
        obtain ⟨hne, hgone⟩ := not_or.mp (List.mem_cons.not.mp hgone)
        have hin : s ∈ rest := (List.mem_cons.mp hmem).resolve_left hne
        obtain ⟨hstop, k, hk, hks, hnot⟩ := ih hrest hin hgone
        exact ⟨hstop, k, hk, hks, hlift k (by omega) hnot⟩
    · exact absurd hmem hgone

theorem Trims.refl (hclear : ∀ k, Held l k → ¬(head ≤ k ∧ k < tail)) :
    Trims l head tail (l, head, tail) :=
  ⟨le_rfl, le_rfl, List.Sublist.refl _, hclear, fun _ => Iff.rfl⟩

/-- **Trim rule.** -/
theorem trims (head tail : Nat) (h : Separate lo l) : Trims l head tail (trim l head tail) := by
  induction l generalizing lo head tail with
  | nil => exact .refl fun k hk => absurd hk (not_held_nil k)
  | cons s rest ih =>
    obtain ⟨hlo, hlt, hrest⟩ := h
    -- a stretch that is kept, and clear of what the rest leaves of the segment
    have hkeep : ∀ {head₁ tail₁ : Nat}, Trims rest head₁ tail₁ (trim rest head₁ tail₁) →
        head ≤ head₁ → tail₁ ≤ tail → (s.stop ≤ head₁ ∨ tail₁ ≤ s.start) →
        (∀ k, head ≤ k → k < tail → (s.start ≤ k ∧ k < s.stop) ∨ (head₁ ≤ k ∧ k < tail₁)) →
        Trims (s :: rest) head tail
          (s :: (trim rest head₁ tail₁).1, (trim rest head₁ tail₁).2) := by
      intro head₁ tail₁ htrim hhead htail hclear hcover
      have hhead₁ := htrim.head_le
      have htail₁ := htrim.tail_le
      refine ⟨by dsimp only; omega, by dsimp only; omega, htrim.sublist.cons_cons s, ?_, ?_⟩
      · intro k hk
        rcases held_cons.mp hk with hin | hin
        · dsimp only
          omega
        · exact htrim.clear k hin
      · intro k
        have hheld := htrim.held k
        dsimp only
        rw [held_cons, held_cons, or_assoc, hheld]
        constructor
        · rintro (hin | hin | hin)
          · exact .inl (.inl hin)
          · exact .inl (.inr hin)
          · exact .inr ⟨by omega, by omega⟩
        · rintro ((hin | hin) | ⟨hle, hlt⟩)
          · exact .inl hin
          · exact .inr (.inl hin)
          · exact (hcover k hle hlt).imp id .inr
    rw [trim]
    split
    · rename_i hstart
      split
      · rename_i hstop
        split
        · -- the stretch is strictly inside the segment
          rename_i hinside
          have htrim := ih head tail hrest
          refine ⟨htrim.head_le, htrim.tail_le, htrim.sublist.cons s, htrim.clear, ?_⟩
          intro k
          rw [htrim.held k, held_cons, or_assoc]
          constructor
          · exact fun hin => .inr hin
          · rintro (hin | hin)
            · exact .inr ⟨by omega, by omega⟩
            · exact hin
        · rename_i hinside
          by_cases hfront : s.start ≤ head
          · by_cases hback : tail ≤ s.stop
            · -- the segment is inside the stretch
              rw [if_pos hfront, if_pos hback]
              have hbelow := @trim_below _ _ _ s.stop _ hrest hlt
              refine hkeep ?_ (by omega) hstart (.inl le_rfl) fun k _ _ => .inl (by omega)
              rw [hbelow]
              exact .refl fun k _ => by omega
            · rw [if_pos hfront, if_neg hback]
              refine hkeep (ih _ _ hrest) (by omega) le_rfl (.inl le_rfl) ?_
              intro k _ _
              omega
          · rw [if_neg hfront, if_pos (by omega)]
            have hbelow := @trim_below _ _ _ head _ hrest hlt
            refine hkeep ?_ le_rfl hstart (.inr le_rfl) fun k _ _ => by omega
            rw [hbelow]
            refine .refl fun k hk => ?_
            have hle := hrest.le_of_held hk
            omega
      · refine hkeep (ih _ _ hrest) le_rfl le_rfl (.inl (by omega)) ?_
        exact fun k hle hlt => .inr ⟨hle, hlt⟩
    · refine .refl fun k hk => ?_
      rcases held_cons.mp hk with hin | hin
      · omega
      · have hle := hrest.le_of_held hin
        omega

theorem Separate.sublist (h : Separate lo l) (hsub : l'.Sublist l) : Separate lo l' := by
  induction hsub generalizing lo with
  | slnil => exact h
  | cons s _ ih =>
    obtain ⟨hlo, hlt, hrest⟩ := h
    exact ih (hrest.mono (by omega))
  | cons_cons s _ ih =>
    obtain ⟨hlo, hlt, hrest⟩ := h
    exact ⟨hlo, hlt, ih hrest⟩

/-! ## Putting a stretch in its place -/

variable {new : Stretch α}

/-- The stretch among the others, in order. -/
def place (new : Stretch α) : List (Stretch α) → List (Stretch α)
  | [] => [new]
  | s :: rest => if new.start < s.start then new :: s :: rest else s :: place new rest

theorem mem_place : s ∈ place new l ↔ s = new ∨ s ∈ l := by
  induction l with
  | nil => simp [place]
  | cons first rest ih =>
    rw [place]
    split
    · simp
    · simp only [List.mem_cons, ih]
      tauto

theorem held_place : Held (place new l) k ↔ (new.start ≤ k ∧ k < new.stop) ∨ Held l k := by
  simp only [Held, mem_place, or_and_right, exists_or, exists_eq_left]

theorem heldSize_place (new : Stretch α) (l : List (Stretch α)) :
    heldSize (place new l) = new.elems.length + heldSize l := by
  induction l with
  | nil => rfl
  | cons s rest ih =>
    rw [place]
    split
    · simp
    · simp only [heldSize_cons, ih]
      omega

theorem place_front (h : Separate lo l) (hlt : new.start < lo) : place new l = new :: l := by
  cases l with
  | nil => rfl
  | cons s rest =>
    have hlo := h.1
    rw [Lib.place, if_pos (by omega)]

theorem Separate.place (h : Separate lo l) (hlo : lo ≤ new.start) (hne : new.start < new.stop)
    (hclear : ∀ k, Held l k → ¬(new.start ≤ k ∧ k < new.stop)) : Separate lo (Lib.place new l) := by
  induction l generalizing lo with
  | nil => exact ⟨hlo, hne, trivial⟩
  | cons s rest ih =>
    obtain ⟨hs, hlt, hrest⟩ := h
    have hfirst := hclear s.start (held_cons.mpr (.inl ⟨le_rfl, hlt⟩))
    rw [Lib.place]
    split
    · exact ⟨hlo, hne, by omega, hlt, hrest⟩
    · refine ⟨hs, hlt, ih hrest ?_ fun k hk => hclear k (held_cons.mpr (.inr hk))⟩
      by_contra hin
      have hstart := hclear new.start (held_cons.mpr (.inl ⟨by omega, by omega⟩))
      omega

/-! ## What is contiguous -/

/-- The first offset from `next` on that is not held. -/
def advance : List (Stretch α) → Nat → Nat
  | [], next => next
  | s :: rest, next =>
    if s.start < next then advance rest next
    else if next < s.start then next
    else advance rest s.stop

theorem le_advance (l : List (Stretch α)) (next : Nat) : next ≤ advance l next := by
  induction l generalizing next with
  | nil => exact le_rfl
  | cons s rest ih =>
    rw [advance]
    split
    · exact ih next
    · split
      · exact le_rfl
      · have hrest := ih s.stop
        have hstop : s.start ≤ s.stop := Nat.le_add_right _ _
        omega

theorem advance_le {hi : Nat} (h : ∀ s ∈ l, s.stop ≤ hi) (hnext : next ≤ hi) :
    advance l next ≤ hi := by
  induction l generalizing next with
  | nil => exact hnext
  | cons s rest ih =>
    obtain ⟨hs, hrest⟩ := List.forall_mem_cons.mp h
    rw [advance]
    split
    · exact ih hrest hnext
    · split
      · exact hnext
      · exact ih hrest hs

/-- No stretch reaches across the offset. -/
def Between (l : List (Stretch α)) (next : Nat) : Prop :=
  ∀ s ∈ l, s.start < next → s.stop ≤ next

theorem between_cons :
    Between (s :: rest) next ↔ (s.start < next → s.stop ≤ next) ∧ Between rest next :=
  List.forall_mem_cons

/-- **Advance rule.** -/
theorem advance_spec (h : Separate lo l) (hbetween : Between l next) :
    next ≤ advance l next ∧ (∀ k, next ≤ k → k < advance l next → Held l k) ∧
      ¬Held l (advance l next) ∧ Between l (advance l next) := by
  induction l generalizing lo next with
  | nil =>
    refine ⟨le_rfl, fun k hle hlt => ?_, not_held_nil _, hbetween⟩
    simp only [advance] at hlt
    omega
  | cons s rest ih =>
    obtain ⟨hlo, hlt, hrest⟩ := h
    obtain ⟨hs, hbetween⟩ := between_cons.mp hbetween
    rw [advance]
    split
    · rename_i hbehind
      have hstop := hs hbehind
      obtain ⟨hle, hheld, hnext, hbetween'⟩ := ih hrest hbetween
      refine ⟨hle, fun k hk hk' => held_cons.mpr (.inr (hheld k hk hk')), ?_, ?_⟩
      · rw [held_cons]
        rintro (hin | hin)
        · omega
        · exact hnext hin
      · exact between_cons.mpr ⟨fun _ => by omega, hbetween'⟩
    · split
      · rename_i hahead
        refine ⟨le_rfl, fun k hle hlt => by omega, ?_, ?_⟩
        · rw [held_cons]
          rintro (hin | hin)
          · omega
          · have hle := hrest.le_of_held hin
            omega
        · exact between_cons.mpr ⟨hs, hbetween⟩
      · have heq : s.start = next := by omega
        have hbetween' : Between rest s.stop := by
          intro s' hmem hlt'
          have hle := (hrest.le_of_mem hmem).1
          omega
        obtain ⟨hle, hheld, hnext, hbetween''⟩ := ih hrest hbetween'
        refine ⟨by omega, ?_, ?_, ?_⟩
        · intro k hk hk'
          rw [held_cons]
          by_cases hin : k < s.stop
          · exact .inl ⟨by omega, hin⟩
          · exact .inr (hheld k (by omega) hk')
        · rw [held_cons]
          rintro (hin | hin)
          · omega
          · exact hnext hin
        · exact between_cons.mpr ⟨fun _ => hle, hbetween''⟩

/-! ## Taking elements out at the front -/

/-- The first `n` elements held, and the stretches that are left. -/
def takeFront : List (Stretch α) → Nat → List α × List (Stretch α)
  | [], _ => ([], [])
  | s :: rest, n =>
    if n = 0 then ([], s :: rest)
    else if s.elems.length ≤ n then
      let taken := takeFront rest (n - s.elems.length)
      (s.elems ++ taken.1, taken.2)
    else (s.elems.take n, ⟨s.start + n, s.elems.drop n⟩ :: rest)

theorem takeFront_shape {n : Nat} (h : Separate lo l) (hn : n ≤ heldSize l) :
    (takeFront l n).1.length = n ∧ Separate lo (takeFront l n).2 ∧
      (∀ s' ∈ (takeFront l n).2, ∃ s ∈ l, s.start ≤ s'.start ∧ s'.stop = s.stop) ∧
      heldSize (takeFront l n).2 + n = heldSize l := by
  induction l generalizing lo n with
  | nil =>
    obtain rfl := Nat.le_zero.mp hn
    exact ⟨rfl, trivial, List.forall_mem_nil _, rfl⟩
  | cons s rest ih =>
    obtain ⟨hlo, hlt, hrest⟩ := h
    rw [heldSize_cons] at hn
    rw [takeFront]
    split
    · rename_i hzero
      subst hzero
      exact ⟨rfl, ⟨hlo, hlt, hrest⟩, fun s' hmem => ⟨s', hmem, le_rfl, rfl⟩, rfl⟩
    · split
      · rename_i hpos hwhole
        obtain ⟨hlen, hsep, hends, hsize⟩ := @ih s.stop (n - s.elems.length) hrest (by omega)
        refine ⟨?_, hsep.mono (by omega), fun s' hmem => ?_, ?_⟩
        · dsimp only
          rw [List.length_append, hlen]
          omega
        · obtain ⟨s₀, hs₀, hend⟩ := hends s' hmem
          exact ⟨s₀, List.mem_cons_of_mem _ hs₀, hend⟩
        · rw [heldSize_cons]
          dsimp only
          omega
      · rename_i hpos hpart
        have hstop : (⟨s.start + n, s.elems.drop n⟩ : Stretch α).stop = s.stop := by
          simp only [Stretch.stop, List.length_drop]
          omega
        refine ⟨List.length_take_of_le (by omega), ⟨?_, ?_, ?_⟩, fun s' hmem => ?_, ?_⟩
        · dsimp only
          omega
        · rw [hstop]
          simp only [Stretch.stop]
          omega
        · rw [hstop]
          exact hrest
        · rcases List.mem_cons.mp hmem with rfl | hin
          · exact ⟨s, .head _, Nat.le_add_right _ _, hstop⟩
          · exact ⟨s', List.mem_cons_of_mem _ hin, le_rfl, rfl⟩
        · simp only [heldSize_cons, List.length_drop]
          omega

/-- **Take rule.**  From stretches that hold the next `n` elements those are taken. -/
theorem takeFront_spec {base n : Nat} (h : Separate base l)
    (hheld : ∀ k, base ≤ k → k < base + n → Held l k) :
    Separate (base + n) (takeFront l n).2 ∧
      (∀ k, Held (takeFront l n).2 k ↔ Held l k ∧ base + n ≤ k) ∧
      ∀ f : Nat → α, (∀ s ∈ l, s.Of f) →
        (takeFront l n).1 = slice f base n ∧ ∀ s ∈ (takeFront l n).2, s.Of f := by
  induction l generalizing base n with
  | nil =>
    have hzero : n = 0 := by
      by_contra hpos
      exact not_held_nil base (hheld base le_rfl (by omega))
    subst hzero
    refine ⟨trivial, fun k => ?_, fun f hof => ⟨rfl, hof⟩⟩
    simp [takeFront, not_held_nil]
  | cons s rest ih =>
    obtain ⟨hlo, hlt, hrest⟩ := h
    rw [takeFront]
    split
    · rename_i hzero
      subst hzero
      refine ⟨⟨hlo, hlt, hrest⟩, fun k => ?_, fun f hof => ⟨rfl, hof⟩⟩
      constructor
      · intro hk
        exact ⟨hk, Separate.le_of_held (l := s :: rest) ⟨hlo, hlt, hrest⟩ hk⟩
      · exact And.left
    · rename_i hpos
      -- the first stretch begins where the elements are to be taken
      have hstart : s.start = base := by
        rcases held_cons.mp (hheld base le_rfl (by omega)) with hin | hin
        · omega
        · have hle := hrest.le_of_held hin
          omega
      split
      · rename_i hwhole
        have hnext : base + s.elems.length = s.stop := by rw [Stretch.stop, hstart]
        have hheldRest : ∀ k, s.stop ≤ k → k < s.stop + (n - s.elems.length) → Held rest k := by
          intro k hle hk
          rcases held_cons.mp (hheld k (by omega) (by omega)) with hin | hin
          · omega
          · exact hin
        obtain ⟨hsep, hheld', htaken⟩ := ih hrest hheldRest
        have hend : s.stop + (n - s.elems.length) = base + n := by omega
        rw [hend] at hsep hheld'
        refine ⟨hsep, ?_, fun f hof => ?_⟩
        · intro k
          rw [hheld' k, held_cons]
          constructor
          · exact fun hin => ⟨.inr hin.1, hin.2⟩
          · rintro ⟨hin | hin, hle⟩
            · omega
            · exact ⟨hin, hle⟩
        · obtain ⟨hs, hofRest⟩ := List.forall_mem_cons.mp hof
          obtain ⟨htakenRest, hof'⟩ := htaken f hofRest
          have hs' : s.elems = slice f base s.elems.length := by
            rw [← hstart]
            exact hs
          have hsplit : n = s.elems.length + (n - s.elems.length) := by omega
          refine ⟨?_, hof'⟩
          dsimp only
          rw [htakenRest, ← hnext]
          conv_rhs => rw [hsplit, slice_add, ← hs']
      · rename_i hpart
        have hstop : s.stop = base + s.elems.length := by rw [Stretch.stop, hstart]
        obtain ⟨left, hleft, hleftStart, hleftElems, hleftStop⟩ : ∃ left : Stretch α,
            ⟨s.start + n, s.elems.drop n⟩ = left ∧ left.start = base + n ∧
            left.elems = s.elems.drop n ∧ left.stop = s.stop := by
          refine ⟨_, rfl, by rw [hstart], rfl, ?_⟩
          rw [Stretch.stop, hstop, List.length_drop]
          dsimp only
          omega
        rw [hleft]
        refine ⟨⟨?_, ?_, ?_⟩, ?_, fun f hof => ?_⟩
        · exact Nat.le_of_eq hleftStart.symm
        · omega
        · rw [hleftStop]
          exact hrest
        · intro k
          rw [held_cons, held_cons, hleftStop, hleftStart]
          constructor
          · rintro (hin | hin)
            · exact ⟨.inl ⟨by omega, hin.2⟩, hin.1⟩
            · have hle := hrest.le_of_held hin
              exact ⟨.inr hin, by omega⟩
          · rintro ⟨hin | hin, hle⟩
            · exact .inl ⟨hle, hin.2⟩
            · exact .inr hin
        · obtain ⟨hs, hofRest⟩ := List.forall_mem_cons.mp hof
          refine ⟨?_, List.forall_mem_cons.mpr ⟨?_, hofRest⟩⟩
          · dsimp only
            rw [hs, hstart, take_slice _ _ (by omega)]
          · rw [Stretch.Of, hleftElems, List.length_drop, hleftStart]
            conv_lhs => rw [hs]
            rw [drop_slice _ _ (by omega), hstart]

end Ns3.Lib
