/-
  Binary heaps over the positions 1, 2, ....

  A heap is seen through what stands at a position, `f : Nat → Option α`; the parent of
  position `i` is `i / 2`.  A sift moves an element up or down by exchanges; what holds
  while it is on its way is stated once for each direction, with the rule for one exchange.
-/
import Mathlib.Order.Lattice

namespace Ns3.Lib.Heap

variable {α κ : Type*} [LinearOrder κ] {key : α → κ} {f : Nat → Option α} {h p i : Nat}

/-- What stands at `p` does not come after what stands at `i`. -/
def InOrder (key : α → κ) (f : Nat → Option α) (p i : Nat) : Prop :=
  ∀ a, f p = some a → ∀ b, f i = some b → key a ≤ key b

/-- **Heap order.**  No element comes before its parent. -/
def Ordered (key : α → κ) (f : Nat → Option α) : Prop := ∀ i, 2 ≤ i → InOrder key f (i / 2) i

/-- Heap order while the element at `h` is on its way up: only it may come before its
parent, and its children do not come before that parent. -/
structure OrderedUp (key : α → κ) (f : Nat → Option α) (h : Nat) : Prop where
  others : ∀ i, 2 ≤ i → i ≠ h → InOrder key f (i / 2) i
  children : 2 ≤ h → ∀ i, i / 2 = h → InOrder key f (h / 2) i

/-- Heap order while the element at `h` is on its way down: only its children may come
before it, and they do not come before its parent. -/
structure OrderedDown (key : α → κ) (f : Nat → Option α) (h : Nat) : Prop where
  others : ∀ i, 2 ≤ i → i / 2 ≠ h → InOrder key f (i / 2) i
  children : 2 ≤ h → ∀ i, i / 2 = h → InOrder key f (h / 2) i

/-- The elements at two positions change places. -/
def exchange (f : Nat → Option α) (a b : Nat) : Nat → Option α :=
  fun k => if k = a then f b else if k = b then f a else f k

@[simp] theorem exchange_left (f : Nat → Option α) (a b : Nat) : exchange f a b a = f b :=
  if_pos rfl

@[simp] theorem exchange_right (f : Nat → Option α) (a b : Nat) : exchange f a b b = f a := by
  rw [exchange]
  split
  · rename_i heq
    rw [heq]
  · rw [if_pos rfl]

theorem exchange_of_ne {a b k : Nat} (ha : k ≠ a) (hb : k ≠ b) : exchange f a b k = f k := by
  rw [exchange, if_neg ha, if_neg hb]

theorem InOrder.congr {g : Nat → Option α} {q j : Nat} (hord : InOrder key f p i)
    (hp : g q = f p) (hi : g j = f i) : InOrder key g q j := by
  intro a ha b hb
  exact hord a (hp ▸ ha) b (hi ▸ hb)

theorem InOrder.trans {q : Nat} (hfirst : InOrder key f p q) (hsecond : InOrder key f q i)
    {y : α} (hy : f q = some y) : InOrder key f p i := by
  intro a ha b hb
  exact (hfirst a ha y hy).trans (hsecond y hy b hb)

/-! ## Up -/

theorem OrderedUp.finish (hup : OrderedUp key f h) (hstop : 2 ≤ h → InOrder key f (h / 2) h) :
    Ordered key f := by
  intro i hi
  by_cases hh : i = h
  · rw [hh] at hi ⊢
    exact hstop hi
  · exact hup.others i hi hh

theorem OrderedUp.exchange {x y : α} (hup : OrderedUp key f h) (hh : 2 ≤ h) (hx : f h = some x)
    (hy : f (h / 2) = some y) (hlt : key x < key y) :
    OrderedUp key (exchange f h (h / 2)) (h / 2) := by
  have hne : h / 2 ≠ h := by omega
  constructor
  · intro i hi hip
    by_cases hih : i = h
    · -- the pair that has changed places
      rw [hih]
      intro a ha b hb
      rw [exchange_right, hx] at ha
      rw [exchange_left, hy] at hb
      cases ha
      cases hb
      exact hlt.le
    · have hsame : Heap.exchange f h (h / 2) i = f i := exchange_of_ne hih hip
      by_cases hchild : i / 2 = h
      · exact (hup.children hh i hchild).congr (by rw [hchild, exchange_left]) hsame
      · by_cases hsibling : i / 2 = h / 2
        · intro a ha b hb
          rw [hsibling, exchange_right, hx] at ha
          rw [hsame] at hb
          cases ha
          have hle := hup.others i hi hih y (hsibling ▸ hy) b hb
          exact hlt.le.trans hle
        · exact (hup.others i hi hih).congr (exchange_of_ne hchild hsibling) hsame
  · intro hp i hchild
    have hparent : Heap.exchange f h (h / 2) (h / 2 / 2) = f (h / 2 / 2) :=
      exchange_of_ne (by omega) (by omega)
    have habove : InOrder key f (h / 2 / 2) (h / 2) := hup.others (h / 2) hp hne
    by_cases hih : i = h
    · rw [hih]
      exact habove.congr hparent (exchange_left f h (h / 2))
    · have hsame : Heap.exchange f h (h / 2) i = f i := exchange_of_ne hih (by omega)
      have hbelow : InOrder key f (h / 2) i := hchild ▸ hup.others i (by omega) hih
      exact (habove.trans hbelow hy).congr hparent hsame

/-! ## Down -/

theorem OrderedDown.finish (hdown : OrderedDown key f h)
    (hstop : ∀ i, i / 2 = h → InOrder key f h i) : Ordered key f := by
  intro i hi
  by_cases hh : i / 2 = h
  · rw [hh]
    exact hstop i hh
  · exact hdown.others i hi hh

theorem OrderedDown.exchange {x z : α} {c : Nat} (hdown : OrderedDown key f h) (hh : 1 ≤ h)
    (hc : c / 2 = h) (hx : f h = some x) (hz : f c = some z) (hle : key z ≤ key x)
    (hmin : ∀ i, i / 2 = h → InOrder key f c i) : OrderedDown key (exchange f h c) c := by
  constructor
  · intro i hi hic
    by_cases hchild : i / 2 = h
    · by_cases heq : i = c
      · -- the pair that has changed places
        rw [heq, hc]
        intro a ha b hb
        rw [exchange_left, hz] at ha
        rw [exchange_right, hx] at hb
        cases ha
        cases hb
        exact hle
      · exact (hmin i hchild).congr (by rw [hchild, exchange_left])
          (exchange_of_ne (by omega) heq)
    · by_cases hih : i = h
      · rw [hih]
        exact (hdown.children (hih ▸ hi) c hc).congr
          (exchange_of_ne (by omega) (by omega)) (exchange_left f h c)
      · exact (hdown.others i hi hchild).congr (exchange_of_ne hchild hic)
          (exchange_of_ne hih (by omega))
  · intro _ i hchild
    rw [hc]
    have hbelow : InOrder key f c i := hchild ▸ hdown.others i (by omega) (by omega)
    exact hbelow.congr (exchange_left f h c) (exchange_of_ne (by omega) (by omega))

/-! ## The root -/

/-- The root comes before every element. -/
theorem Ordered.root (hord : Ordered key f)
    (hgaps : ∀ i, 2 ≤ i → (f i).isSome → (f (i / 2)).isSome) : ∀ i, 1 ≤ i → InOrder key f 1 i := by
  intro i
  induction i using Nat.strongRecOn with
  | _ i ih =>
    intro hi
    rcases Nat.eq_or_lt_of_le hi with rfl | hi
    · intro a ha b hb
      rw [ha] at hb
      cases hb
      exact le_refl _
    · intro a ha b hb
      obtain ⟨y, hy⟩ := Option.isSome_iff_exists.mp (hgaps i hi (by rw [hb]; rfl))
      exact ((ih (i / 2) (by omega) (by omega)).trans (hord i hi) hy) a ha b hb

end Ns3.Lib.Heap
