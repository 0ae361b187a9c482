/-
  Numbered places with a counter of what lies in them.

  The counter is a machine word that is adjusted by hand.  It is the weight of what lies in
  the places, modulo the word, as long as nothing is put on something else.
-/
import Mathlib.Algebra.BigOperators.Group.Finset.Basic
import Mathlib.Logic.Function.Basic
import Ns3.Lib.Wrap

namespace Ns3.Lib

variable {β : Type*}

/-- Places, and the counter of their weight. -/
structure Slots (β : Type*) where
  slot : Nat → Option β
  size : Nat

namespace Slots

variable {s : Slots β} {weight : β → Nat} {w n i j : Nat} {b : β}

def empty : Slots β := ⟨fun _ => none, 0⟩

def store (weight : β → Nat) (w : Nat) (s : Slots β) (i : Nat) (b : β) : Slots β :=
  ⟨Function.update s.slot i (some b), wadd w s.size (weight b)⟩

def remove (weight : β → Nat) (w : Nat) (s : Slots β) (i : Nat) (b : β) : Slots β :=
  ⟨Function.update s.slot i none, wsub w s.size (weight b)⟩

@[simp] theorem slot_store_self : (s.store weight w i b).slot i = some b :=
  Function.update_self i _ _

theorem slot_store_of_ne (h : j ≠ i) : (s.store weight w i b).slot j = s.slot j :=
  Function.update_of_ne h _ _

@[simp] theorem slot_remove_self : (s.remove weight w i b).slot i = none :=
  Function.update_self i _ _

theorem slot_remove_of_ne (h : j ≠ i) : (s.remove weight w i b).slot j = s.slot j :=
  Function.update_of_ne h _ _

/-- The weight of what lies in the first `n` places. -/
def load (weight : β → Nat) (n : Nat) (slot : Nat → Option β) : Nat :=
  ∑ i ∈ Finset.range n, (slot i).elim 0 weight

theorem load_update (weight : β → Nat) (slot : Nat → Option β) (hi : i < n) (v : Option β) :
    load weight n (Function.update slot i v) + (slot i).elim 0 weight =
      load weight n slot + v.elim 0 weight := by
  have hmem : i ∈ Finset.range n := Finset.mem_range.mpr hi
  have hsame : ∑ j ∈ (Finset.range n).erase i, (Function.update slot i v j).elim 0 weight =
      ∑ j ∈ (Finset.range n).erase i, (slot j).elim 0 weight :=
    Finset.sum_congr rfl fun j hj => by rw [Function.update_of_ne (Finset.ne_of_mem_erase hj)]
  have hnew := Finset.add_sum_erase (Finset.range n)
    (fun j => (Function.update slot i v j).elim 0 weight) hmem
  have hold := Finset.add_sum_erase (Finset.range n) (fun j => (slot j).elim 0 weight) hmem
  simp only [Function.update_self] at hnew
  rw [load, load, ← hnew, ← hold, hsame]
  omega

def Counted (weight : β → Nat) (w n : Nat) (s : Slots β) : Prop :=
  s.size = load weight n s.slot % 2 ^ w

theorem Counted.empty : (empty : Slots β).Counted weight w n := by
  have hload : load weight n (Slots.empty : Slots β).slot = 0 :=
    Finset.sum_eq_zero fun _ _ => rfl
  rw [Counted, hload]
  exact (Nat.zero_mod _).symm

theorem Counted.store (h : s.Counted weight w n) (hi : i < n) (hfree : s.slot i = none) (b : β) :
    (s.store weight w i b).Counted weight w n := by
  have hload := load_update weight s.slot hi (some b)
  rw [hfree, Option.elim_none, Nat.add_zero] at hload
  rw [Counted, Slots.store]
  dsimp only
  rw [hload, h, wadd, Nat.mod_add_mod]
  rfl

theorem Counted.remove (h : s.Counted weight w n) (hi : i < n) (hb : s.slot i = some b) :
    (s.remove weight w i b).Counted weight w n := by
  have hload := load_update weight s.slot hi none
  rw [hb, Option.elim_none, Option.elim_some, Nat.add_zero, Nat.add_comm] at hload
  rw [Counted, Slots.remove]
  dsimp only
  rw [h, ← hload, wsub_mod]

theorem Counted.occupied (h : s.Counted weight w n) (hpos : 0 < s.size) :
    ∃ i b, s.slot i = some b := by
  by_contra hnone
  have hzero : ∀ i, s.slot i = none := fun i => by
    cases hi : s.slot i with
    | none => rfl
    | some b => exact absurd ⟨i, b, hi⟩ hnone
  rw [h, load, Finset.sum_eq_zero fun i _ => by rw [hzero, Option.elim_none], Nat.zero_mod] at hpos
  exact Nat.lt_irrefl _ hpos

/-! ## Two tables -/

/-- Both counters are right, and no place is taken in both tables; what lies in place `i` is
one of the things that belong there. -/
structure Shared (weight : β → Nat) (w n : Nat) (belongs : Nat → β → Prop) (s t : Slots β) :
    Prop where
  counted : s.Counted weight w n
  counted' : t.Counted weight w n
  apart : ∀ i, s.slot i = none ∨ t.slot i = none
  stored : ∀ i b, s.slot i = some b ∨ t.slot i = some b → i < n ∧ belongs i b

variable {t : Slots β} {belongs belongs' : Nat → β → Prop}

section

variable (h : Shared weight w n belongs s t)

include h

theorem Shared.symm : Shared weight w n belongs t s :=
  ⟨h.counted', h.counted, fun i => (h.apart i).symm, fun i b hb => h.stored i b hb.symm⟩

theorem Shared.mono
    (himp : ∀ i b, s.slot i = some b ∨ t.slot i = some b → belongs i b → belongs' i b) :
    Shared weight w n belongs' s t :=
  { h with stored := fun i b hb => (h.stored i b hb).imp id (himp i b hb) }

theorem Shared.store (hi : i < n) (hs : s.slot i = none) (ht : t.slot i = none) (hb : belongs i b) :
    Shared weight w n belongs (s.store weight w i b) t := by
  refine ⟨h.counted.store hi hs b, h.counted', fun j => ?_, fun j c hc => ?_⟩
  · by_cases hj : j = i
    · exact .inr (hj ▸ ht)
    · rw [slot_store_of_ne hj]
      exact h.apart j
  · by_cases hj : j = i
    · subst hj
      rw [slot_store_self, ht] at hc
      rcases hc with hc | hc
      · exact ⟨hi, Option.some.inj hc ▸ hb⟩
      · cases hc
    · rw [slot_store_of_ne hj] at hc
      exact h.stored j c hc

theorem Shared.remove (hb : s.slot i = some b) :
    Shared weight w n belongs (s.remove weight w i b) t := by
  refine ⟨h.counted.remove (h.stored i b (.inl hb)).1 hb, h.counted', fun j => ?_, fun j c hc => ?_⟩
  · by_cases hj : j = i
    · exact .inl (hj ▸ slot_remove_self)
    · rw [slot_remove_of_ne hj]
      exact h.apart j
  · refine h.stored j c (hc.imp_left fun hc => ?_)
    by_cases hj : j = i
    · rw [hj, slot_remove_self] at hc
      cases hc
    · rwa [slot_remove_of_ne hj] at hc

/-- **A move** from one table to the other. -/
theorem Shared.move (hb : s.slot i = some b) :
    Shared weight w n belongs (s.remove weight w i b) (t.store weight w i b) := by
  obtain ⟨hi, hbelongs⟩ := h.stored i b (.inl hb)
  have ht : t.slot i = none := (h.apart i).resolve_left (by rw [hb]; exact nofun)
  exact ((h.remove hb).symm.store hi ht slot_remove_self hbelongs).symm

end

end Slots

end Ns3.Lib
