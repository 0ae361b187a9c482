/-
  Counts of incoming links.

  While an operation is under way the counts are off: a link that was read is counted but
  no longer stored, or stored but not yet counted.  What is owed to each object is carried
  along as a function, so that every single write has a rule of its own, in whatever order
  the writes are made, and an operation is right when what it owes cancels out.
-/
import Mathlib.Algebra.Group.Pi.Basic
import Mathlib.Tactic.Abel
import Ns3.Lib.Links

namespace Ns3.Lib

open Linked

variable {α β : Type*} [Linked α β]

def mark (v : Option Nat) : Nat → Int := fun b => if v = some b then 1 else 0

@[simp] theorem mark_none : mark none = 0 := rfl

theorem mark_self (a : Nat) : mark (some a) a = 1 := if_pos rfl

theorem mark_of_ne {a b : Nat} (h : a ≠ b) : mark (some a) b = 0 :=
  if_neg fun hab => h (Option.some.inj hab)

theorem pointsTo_eq_mark (x : α) (a : Nat) : (pointsTo (some x) a : Int) = mark (link x) a := by
  unfold pointsTo mark
  split
  · rename_i h
    rw [if_pos (show link x = some a from h)]
    rfl
  · rename_i h
    rw [if_neg (show link x ≠ some a from h)]
    rfl

/-- Every object counts the links to it and what is owed to it. -/
def Balanced (count : α → Nat) (s : Store α) (e : Nat → Int) : Prop :=
  ∀ a x, s.get a = some x → (count x : Int) = refs s a + e a

variable {count : α → Nat} {s : Store α} {e : Nat → Int} {a i n : Nat} {x x' y y' w : α}

section

variable (h : Balanced count s e)

include h

theorem Balanced.congr {e' : Nat → Int} (he : ∀ a x, s.get a = some x → e a = e' a) :
    Balanced count s e' := by
  intro a x hx
  rw [← he a x hx]
  exact h a x hx

theorem Balanced.move (hx : s.get i = some x) (hcount : count x' = count x) :
    Balanced count (s.put i x') (e + mark (link x) - mark (link x')) := by
  intro b z hz
  have hrefs := refs_put (x := x') (a := b) hx
  have hold := pointsTo_eq_mark x b
  have hnew := pointsTo_eq_mark x' b
  have hbal : (count z : Int) = refs s b + e b := by
    rw [Store.get_put hx] at hz
    split at hz
    · rename_i hib
      subst hib
      cases hz
      rw [hcount]
      exact h i x hx
    · exact h b z hz
  change (count z : Int) = refs (s.put i x') b + (e b + mark (link x) b - mark (link x') b)
  omega

theorem Balanced.lower (hy : s.get a = some y) (hlink : link y' = link y)
    (hcount : count y' + 1 = count y) : Balanced count (s.put a y') (e - mark (some a)) := by
  intro b z hz
  rw [refs_put_of_link hy hlink]
  rw [Store.get_put hy] at hz
  change (count z : Int) = refs s b + (e b - mark (some a) b)
  split at hz
  · rename_i hab
    subst hab
    cases hz
    have hold := h a y hy
    rw [mark_self]
    omega
  · rename_i hab
    rw [mark_of_ne hab, h b z hz]
    omega

theorem Balanced.raise (hy : s.get a = some y) (hlink : link y' = link y)
    (hcount : count y' = count y + 1) : Balanced count (s.put a y') (e + mark (some a)) := by
  intro b z hz
  rw [refs_put_of_link hy hlink]
  rw [Store.get_put hy] at hz
  change (count z : Int) = refs s b + (e b + mark (some a) b)
  split at hz
  · rename_i hab
    subst hab
    cases hz
    have hold := h a y hy
    rw [mark_self]
    omega
  · rename_i hab
    rw [mark_of_ne hab, h b z hz]
    omega

theorem Balanced.alloc {v : Option Nat} (hfresh : refs s s.length = 0) (hnone : e s.length = 0)
    (hv : (count w : Int) = mark v s.length) (hother : ∀ b, b ≠ s.length → mark v b = 0) :
    Balanced count (s.alloc w) (e - mark (link w) + mark v) := by
  intro b z hz
  have hnew := pointsTo_eq_mark w b
  rw [refs_alloc, Nat.cast_add, hnew]
  rw [Store.get_alloc] at hz
  change (count z : Int) = refs s b + mark (link w) b + (e b - mark (link w) b + mark v b)
  split at hz
  · rename_i hb
    subst hb
    cases hz
    rw [hv, hfresh]
    omega
  · rename_i hb
    rw [hother b hb, h b z hz]
    omega

theorem Balanced.free (hy : s.get a = some y) : Balanced count (s.free a) (e + mark (link y)) := by
  intro b z hz
  have hrefs := refs_free (a := b) hy
  have hold := pointsTo_eq_mark y b
  rw [Store.get_free hy] at hz
  split at hz
  · cases hz
  · have hbal := h b z hz
    change (count z : Int) = refs (s.free a) b + (e b + mark (link y) b)
    omega

end

/-- A store at rest: the counts are those of the links, an object is counted when it stands
in a chain, and every chain ends. -/
structure Sound (count : α → Nat) (s : Store α) : Prop where
  /-- every count is the number of links -/
  exact : ∀ a x, s.get a = some x → count x = refs s a
  /-- what stands in a chain is linked to, what only holds one is not -/
  held : ∀ a x, s.get a = some x → ((body x).isSome = true ↔ 0 < count x)
  ends : ∀ a x, s.get a = some x → ∃ bs, Spells s (link x) bs

theorem balanced_iff : Balanced count s 0 ↔ ∀ a x, s.get a = some x → count x = refs s a := by
  constructor
  · intro h a x hx
    have hax : (count x : Int) = refs s a + 0 := h a x hx
    omega
  · intro h a x hx
    rw [h a x hx]
    exact (add_zero _).symm

theorem Sound.balanced (h : Sound count s) : Balanced count s 0 := balanced_iff.mpr h.exact

theorem Sound.target (h : Sound count s) (hx : s.get i = some x) (hlink : link x = some a) :
    ∃ y b bs, s.get a = some y ∧ body y = some b ∧ Spells s (link y) bs := by
  obtain ⟨bs, hbs⟩ := h.ends i x hx
  rw [hlink] at hbs
  obtain ⟨y, b, cs, hy, hb, -, hcs⟩ := spells_some hbs
  exact ⟨y, b, cs, hy, hb, hcs⟩

theorem Sound.refs_eq_zero (h : Sound count s) (ha : s.get a = none) : refs s a = 0 := by
  by_contra hne
  obtain ⟨j, x, hx, hlink⟩ := exists_points (Nat.pos_of_ne_zero hne)
  obtain ⟨y, -, -, hy, -⟩ := h.target hx hlink
  rw [ha] at hy
  cases hy

theorem Sound.ends_patched {t : Store α} (h : Sound count s) (gone : Nat → Prop)
    (hkept : ∀ a, a ≠ i → ¬gone a → ∀ y, s.get a = some y →
      ∃ y', t.get a = some y' ∧ link y' = link y ∧ (body y').isSome = (body y).isSome)
    (hi : ∃ x', t.get i = some x' ∧ (∃ cs, Spells t (link x') cs) ∧
      ∀ x, s.get i = some x → (body x').isSome = (body x).isSome)
    (hgone : ∀ a, a ≠ i → ∀ c, Points s a c → ¬gone c) (hdead : ∀ a, gone a → t.get a = none)
    (hnew : ∀ a x, t.get a = some x → s.get a = none → ∃ cs, Spells t (link x) cs) :
    ∀ a x, t.get a = some x → ∃ cs, Spells t (link x) cs := by
  obtain ⟨x', hx', hends, hbody⟩ := hi
  intro a x hx
  by_cases hai : a = i
  · subst hai
    obtain rfl : x' = x := Option.mem_unique hx' hx
    exact hends
  cases hy : s.get a with
  | none => exact hnew a x hx hy
  | some y =>
    have halive : ¬gone a := by
      intro hg
      rw [hdead a hg] at hx
      cases hx
    obtain ⟨y', hy', hlink, -⟩ := hkept a hai halive y hy
    obtain rfl : y' = x := Option.mem_unique hy' hx
    obtain ⟨bs, hbs⟩ := h.ends a y hy
    rw [hlink]
    exact hbs.patched gone hkept (fun z hz => ⟨x', hx', hbody z hz, hends⟩) hgone
      fun c hc => hgone a hai c ⟨y, hy, hc⟩

end Ns3.Lib
