/-
  A store of objects that point to one another.

  Every object has one outgoing link, so from each of them a single chain is followed until
  it ends at null.  Several chains may run into one another: what is shared is shared from
  there to the end.  An object with a single incoming link belongs to whoever holds the object
  in front of it, and this is what allows a chain to be changed in place.
-/
import Mathlib.Data.Finset.Card
import Mathlib.Data.Finset.Range
import Mathlib.Data.List.Basic
import Mathlib.Logic.Relation

namespace Ns3.Lib

/-- The objects at the addresses handed out so far, `none` where one was freed.  An address is
not handed out again. -/
abbrev Store (α : Type*) : Type _ := List (Option α)

namespace Store

variable {α : Type*} {s : Store α} {a b : Nat} {x y : α}

/-- The object at an address. -/
def get (s : Store α) (a : Nat) : Option α := s[a]?.join

/-- Overwrite the object at an address. -/
def put (s : Store α) (a : Nat) (x : α) : Store α := s.set a (some x)

def free (s : Store α) (a : Nat) : Store α := s.set a none

/-- A new object, at the address `s.length`. -/
def alloc (s : Store α) (x : α) : Store α := s ++ [some x]

theorem lt_length (h : s.get a = some x) : a < s.length := by
  by_contra hge
  rw [get, List.getElem?_eq_none (Nat.le_of_not_lt hge)] at h
  cases h

theorem get_length : s.get s.length = none := by
  rw [get, List.getElem?_eq_none le_rfl]
  rfl

theorem ne_length (h : s.get a = some x) : a ≠ s.length := Nat.ne_of_lt (lt_length h)

@[simp] theorem length_put : (s.put a x).length = s.length := List.length_set

@[simp] theorem length_free : (s.free a).length = s.length := List.length_set

@[simp] theorem length_alloc : (s.alloc x).length = s.length + 1 := by simp [alloc]

theorem get_set (c : Option α) (h : a < s.length) :
    get (s.set a c) b = if a = b then c else s.get b := by
  rw [get, List.getElem?_set]
  split
  · rfl
  · rfl

theorem get_put (h : s.get a = some y) : (s.put a x).get b = if a = b then some x else s.get b :=
  get_set _ (lt_length h)

@[simp] theorem get_put_self (h : s.get a = some y) : (s.put a x).get a = some x := by
  rw [get_put h, if_pos rfl]

theorem get_put_of_ne (h : a ≠ b) : (s.put a x).get b = s.get b := by
  rw [get, put, List.getElem?_set_ne h]
  rfl

theorem get_free (h : s.get a = some y) : (s.free a).get b = if a = b then none else s.get b :=
  get_set _ (lt_length h)

theorem get_free_of_ne (h : a ≠ b) : (s.free a).get b = s.get b := by
  rw [get, free, List.getElem?_set_ne h]
  rfl

theorem get_alloc : (s.alloc x).get b = if b = s.length then some x else s.get b := by
  rw [get, alloc]
  split
  · rename_i h
    rw [h, List.getElem?_concat_length]
    rfl
  · rename_i h
    rcases Nat.lt_or_gt_of_ne h with hlt | hgt
    · rw [List.getElem?_append_left hlt]
      rfl
    · rw [get, List.getElem?_eq_none (by simp; omega), List.getElem?_eq_none (by omega)]

theorem get_alloc_of_get (h : s.get b = some y) : (s.alloc x).get b = some y := by
  rw [get_alloc, if_neg (ne_length h), h]

theorem put_alloc : (s.alloc x).put s.length y = s.alloc y := by
  rw [put, alloc, List.set_append_right _ _ le_rfl, Nat.sub_self]
  rfl

theorem get_free_self : (s.free a).get a = none := by
  rw [get, free, List.getElem?_set_self']
  cases s[a]? <;> rfl

theorem put_comm (h : a ≠ b) : (s.put a x).put b y = (s.put b y).put a x :=
  List.set_comm _ _ h

theorem free_put_comm (h : a ≠ b) : (s.put a x).free b = (s.free b).put a x :=
  List.set_comm _ _ h

theorem free_put : (s.put a x).free a = s.free a := List.set_set _

end Store

/-- Objects with one outgoing link.  Those that stand in a chain carry something, those that
only hold its head do not. -/
class Linked (α : Type*) (β : outParam Type*) where
  /-- the outgoing link, null at the end of a chain -/
  link : α → Option Nat
  /-- what a chain carries here -/
  body : α → Option β

open Linked

variable {α β : Type*} [Linked α β]

/-! ## Incoming links -/

/-- How many links to `a` the object holds, if there is one. -/
def pointsTo (c : Option α) (a : Nat) : Nat := if c.bind link = some a then 1 else 0

/-- The number of links to `a`. -/
def refs : Store α → Nat → Nat
  | [], _ => 0
  | c :: s, a => pointsTo c a + refs s a

/-- The object at `j` links to `a`. -/
def Points (s : Store α) (j a : Nat) : Prop := ∃ x, s.get j = some x ∧ link x = some a

section Refs

variable {s : Store α} {a b i j : Nat} {x y : α}

theorem pointsTo_le (c : Option α) : pointsTo c a ≤ 1 := by
  unfold pointsTo
  split
  · exact Nat.le_refl 1
  · exact Nat.zero_le 1

theorem refs_append (s t : Store α) (a : Nat) : refs (s ++ t) a = refs s a + refs t a := by
  induction s with
  | nil => exact (Nat.zero_add _).symm
  | cons c s ih =>
    change pointsTo c a + refs (s ++ t) a = pointsTo c a + refs s a + refs t a
    rw [ih, Nat.add_assoc]

theorem refs_alloc : refs (s.alloc x) a = refs s a + pointsTo (some x) a :=
  refs_append s [some x] a

theorem refs_set (c : Option α) (h : s.get i = some y) :
    refs (s.set i c) a + pointsTo (some y) a = refs s a + pointsTo c a := by
  induction s generalizing i with
  | nil => cases h
  | cons e s ih =>
    cases i with
    | zero =>
      obtain rfl : e = some y := h
      change pointsTo c a + refs s a + _ = pointsTo (some y) a + refs s a + _
      omega
    | succ i =>
      change pointsTo e a + refs (s.set i c) a + _ = pointsTo e a + refs s a + _
      have hrest := ih (i := i) h
      omega

theorem refs_put (h : s.get i = some y) :
    refs (s.put i x) a + pointsTo (some y) a = refs s a + pointsTo (some x) a :=
  refs_set (some x) h

theorem refs_free (h : s.get i = some y) :
    refs (s.free i) a + pointsTo (some y) a = refs s a := refs_set none h

theorem pointsTo_of (h : link x = some a) : pointsTo (some x) a = 1 := if_pos h

theorem pointsTo_of_ne (h : link x ≠ some a) : pointsTo (some x) a = 0 := if_neg h

theorem pointsTo_congr (h : link x = link y) : pointsTo (some x) a = pointsTo (some y) a := by
  simp only [pointsTo, Option.bind_some, h]

theorem refs_put_of_link (h : s.get i = some y) (hlink : link x = link y) :
    refs (s.put i x) a = refs s a := by
  have hput := refs_put (x := x) (a := a) h
  rw [pointsTo_congr hlink] at hput
  omega

theorem refs_pos (h : Points s j a) : 0 < refs s a := by
  obtain ⟨x, hx, hlink⟩ := h
  have hfree := refs_free (a := a) hx
  rw [pointsTo_of hlink] at hfree
  omega

theorem exists_points (h : 0 < refs s a) : ∃ j, Points s j a := by
  induction s with
  | nil => exact absurd h (Nat.lt_irrefl 0)
  | cons c s ih =>
    by_cases hc : c.bind link = some a
    · obtain ⟨x, rfl, hx⟩ := Option.bind_eq_some_iff.mp hc
      exact ⟨0, x, rfl, hx⟩
    · have hrest : 0 < pointsTo c a + refs s a := h
      rw [pointsTo, if_neg hc, Nat.zero_add] at hrest
      obtain ⟨j, hj⟩ := ih hrest
      exact ⟨j + 1, hj⟩

theorem not_points (h : refs s a = 0) : ¬Points s j a := fun hp =>
  absurd (refs_pos hp) (by omega)

/-- **Sole owner.**  A single incoming link is held by a single object. -/
theorem sole_owner (h : refs s a ≤ 1) (hi : Points s i a) (hj : Points s j a) : i = j := by
  by_contra hne
  obtain ⟨x, hx, hxlink⟩ := hi
  have hfree := refs_free (a := a) hx
  rw [pointsTo_of hxlink] at hfree
  obtain ⟨y, hy, hylink⟩ := hj
  have hpos : 0 < refs (s.free i) a :=
    refs_pos ⟨y, by rw [Store.get_free_of_ne hne, hy], hylink⟩
  omega

end Refs

/-! ## Chains -/

/-- The chain that starts at the pointer carries these, up to null. -/
inductive Spells (s : Store α) : Option Nat → List β → Prop where
  | nil : Spells s none []
  | cons {a : Nat} {x : α} {b : β} {bs : List β} :
      s.get a = some x → body x = some b → Spells s (link x) bs → Spells s (some a) (b :: bs)

section Chains

variable {s t : Store α} {a c i j : Nat} {v : Option Nat} {x y : α} {b : β} {bs cs : List β}

theorem Spells.unique (h : Spells s v bs) (h' : Spells s v cs) : bs = cs := by
  induction h generalizing cs with
  | nil =>
    cases h' with
    | nil => rfl
  | cons hx hb _ ih =>
    cases h' with
    | cons hx' hb' hrest =>
      obtain rfl : _ = _ := Option.mem_unique hx hx'
      obtain rfl : _ = _ := Option.mem_unique hb hb'
      rw [ih hrest]

theorem spells_some (h : Spells s (some a) bs) :
    ∃ x b cs, s.get a = some x ∧ body x = some b ∧ bs = b :: cs ∧ Spells s (link x) cs := by
  cases h with
  | cons hx hb hrest => exact ⟨_, _, _, hx, hb, rfl, hrest⟩

theorem Spells.points (h : Spells s (some j) bs) (hp : Points s j a) :
    ∃ cs, Spells s (some a) cs ∧ cs.length < bs.length := by
  obtain ⟨x, b, cs, hx, -, rfl, hrest⟩ := spells_some h
  obtain ⟨y, hy, hlink⟩ := hp
  obtain rfl : x = y := Option.mem_unique hx hy
  exact ⟨cs, hlink ▸ hrest, Nat.lt_succ_self _⟩

theorem Spells.reach (h : Spells s (some j) bs) (hr : Relation.ReflTransGen (Points s) j a) :
    ∃ cs, Spells s (some a) cs ∧ cs.length ≤ bs.length := by
  induction hr with
  | refl => exact ⟨bs, h, le_rfl⟩
  | tail _ hp ih =>
    obtain ⟨cs, hcs, hle⟩ := ih
    obtain ⟨ds, hds, hlt⟩ := hcs.points hp
    exact ⟨ds, hds, by omega⟩

/-- **No cycles.**  Nothing that ends at null comes back to where it came from. -/
theorem Spells.acyclic (h : Spells s (some a) bs) (hp : Points s j a) :
    ¬Relation.ReflTransGen (Points s) a j := by
  intro hr
  obtain ⟨cs, hcs, hle⟩ := h.reach hr
  obtain ⟨ds, hds, hlt⟩ := hcs.points hp
  rw [hds.unique h] at hlt
  omega

theorem Spells.addresses (h : Spells s v bs) :
    ∃ as : List Nat, as.length = bs.length ∧ as.Nodup ∧
      ∀ a ∈ as, a < s.length ∧ ∃ cs, Spells s (some a) cs ∧ cs.length ≤ bs.length := by
  induction h with
  | nil => exact ⟨[], rfl, List.nodup_nil, List.forall_mem_nil _⟩
  | @cons a x b bs hx hb hrest ih =>
    obtain ⟨as, hlen, hnodup, has⟩ := ih
    have hself : Spells s (some a) (b :: bs) := .cons hx hb hrest
    refine ⟨a :: as, congrArg (· + 1) hlen, List.nodup_cons.mpr ⟨fun hmem => ?_, hnodup⟩, ?_⟩
    · obtain ⟨-, cs, hcs, hle⟩ := has a hmem
      rw [hcs.unique hself, List.length_cons] at hle
      omega
    · intro c hc
      rcases List.mem_cons.mp hc with rfl | hc
      · exact ⟨Store.lt_length hx, _, hself, le_rfl⟩
      · obtain ⟨hlt, cs, hcs, hle⟩ := has c hc
        exact ⟨hlt, cs, hcs, Nat.le_succ_of_le hle⟩

theorem Spells.length_le (h : Spells s v bs) : bs.length ≤ s.length := by
  obtain ⟨as, hlen, hnodup, has⟩ := h.addresses
  have hsub : as.toFinset ⊆ Finset.range s.length := by
    intro a ha
    exact Finset.mem_range.mpr (has a (List.mem_toFinset.mp ha)).1
  have hcard := Finset.card_le_card hsub
  rw [List.toFinset_card_of_nodup hnodup, Finset.card_range, hlen] at hcard
  exact hcard

/-! ## What a change of the store leaves alone -/

/-- The object at `a` keeps its link and what it carries. -/
def Kept (s t : Store α) (a : Nat) : Prop :=
  ∀ y, s.get a = some y → ∃ y', t.get a = some y' ∧ link y' = link y ∧ body y' = body y

theorem Kept.refl (s : Store α) (a : Nat) : Kept s s a := fun y hy => ⟨y, hy, rfl, rfl⟩

theorem Kept.trans {u : Store α} (h : Kept s t a) (h' : Kept t u a) : Kept s u a := by
  intro y hy
  obtain ⟨z, hz, hlink, hbody⟩ := h y hy
  obtain ⟨w, hw, hlink', hbody'⟩ := h' z hz
  exact ⟨w, hw, hlink'.trans hlink, hbody'.trans hbody⟩

theorem Kept.of_get (h : t.get a = s.get a) : Kept s t a := fun y hy => ⟨y, h.trans hy, rfl, rfl⟩

theorem Kept.alloc : Kept s (s.alloc x) a := fun y hy => ⟨y, Store.get_alloc_of_get hy, rfl, rfl⟩

theorem Kept.put (hy : s.get i = some y) (hlink : link x = link y) (hbody : body x = body y) :
    Kept s (s.put i x) a := by
  intro z hz
  rw [Store.get_put hy]
  split
  · rename_i hia
    subst hia
    obtain rfl : y = z := Option.mem_unique hy hz
    exact ⟨x, rfl, hlink, hbody⟩
  · exact ⟨z, hz, rfl, rfl⟩

theorem Spells.kept (h : Spells s v bs)
    (hkept : ∀ a c, v = some a → Relation.ReflTransGen (Points s) a c → Kept s t c) :
    Spells t v bs := by
  induction h with
  | nil => exact .nil
  | @cons a x b bs hx hb _ ih =>
    obtain ⟨x', hx', hlink, hbody⟩ := hkept a a rfl .refl x hx
    refine .cons hx' (hbody.trans hb) (hlink ▸ ih fun d c hd hr => ?_)
    exact hkept a c rfl (Relation.ReflTransGen.head ⟨x, hx, hd⟩ hr)

theorem Spells.patched (h : Spells s v bs) (gone : Nat → Prop)
    (hkept : ∀ a, a ≠ i → ¬gone a → ∀ y, s.get a = some y →
      ∃ y', t.get a = some y' ∧ link y' = link y ∧ (body y').isSome = (body y).isSome)
    (hi : ∀ x, s.get i = some x →
      ∃ x', t.get i = some x' ∧ (body x').isSome = (body x).isSome ∧ ∃ cs, Spells t (link x') cs)
    (hgone : ∀ a, a ≠ i → ∀ c, Points s a c → ¬gone c) (hv : ∀ a, v = some a → ¬gone a) :
    ∃ cs, Spells t v cs := by
  induction h with
  | nil => exact ⟨[], .nil⟩
  | @cons a x b bs hx hb _ ih =>
    have hsome : (body x).isSome := by rw [hb]; rfl
    by_cases hai : a = i
    · subst hai
      obtain ⟨x', hx', hbody, cs, hcs⟩ := hi x hx
      obtain ⟨b', hb'⟩ := Option.isSome_iff_exists.mp (hbody.trans hsome)
      exact ⟨b' :: cs, .cons hx' hb' hcs⟩
    · obtain ⟨x', hx', hlink, hbody⟩ := hkept a hai (hv a rfl) x hx
      obtain ⟨b', hb'⟩ := Option.isSome_iff_exists.mp (hbody.trans hsome)
      obtain ⟨cs, hcs⟩ := ih fun c hc => hgone a hai c ⟨x, hx, hc⟩
      exact ⟨b' :: cs, .cons hx' hb' (hlink ▸ hcs)⟩

theorem Spells.avoids (h : Spells s (some a) bs) (hp : Points s i a) (hnext : Points s a c)
    (hr : Relation.ReflTransGen (Points s) c j) : j ≠ i ∧ j ≠ a := by
  obtain ⟨cs, hcs, -⟩ := h.points hnext
  constructor
  · rintro rfl
    exact h.acyclic hp (Relation.ReflTransGen.head hnext hr)
  · rintro rfl
    exact hcs.acyclic hnext hr

theorem Spells.behind (h : Spells s (some a) (b :: bs)) (hp : Points s i a)
    (hx : s.get a = some x) (hkept : ∀ c, c ≠ i → c ≠ a → Kept s t c) : Spells t (link x) bs := by
  obtain ⟨y, b', cs, hy, -, heq, hrest⟩ := spells_some h
  obtain rfl : x = y := Option.mem_unique hx hy
  obtain ⟨rfl, rfl⟩ := List.cons.inj heq
  refine hrest.kept fun c j hc hr => ?_
  obtain ⟨hji, hja⟩ := h.avoids hp ⟨x, hx, hc⟩ hr
  exact hkept j hji hja

end Chains

/-! ## The part of a chain that nobody else holds -/

/-- From the object at `j` the links lead to the one at `i`, and carry these on the way, the
last one included. -/
inductive Leads (s : Store α) (i : Nat) : Nat → List β → Prop where
  | refl : Leads s i i []
  | step {j a : Nat} {x y : α} {b : β} {bs : List β} :
      s.get j = some x → link x = some a → s.get a = some y → body y = some b →
      Leads s i a bs → Leads s i j (b :: bs)

/-- The object at `i` is on the chain of `p` and on no other. -/
structure Private (s : Store α) (p i : Nat) (bs : List β) : Prop where
  /-- the links of `p` lead there -/
  leads : Leads s i p bs
  /-- those of the others do not -/
  apart : ∀ q, q ≠ p → refs s q = 0 → ¬Relation.ReflTransGen (Points s) q i

section Privacy

variable {s t : Store α} {a c i j p q n : Nat} {x y z w : α} {b : β} {bs cs : List β}

theorem Leads.snoc (h : Leads s i j bs) (hx : s.get i = some x) (hlink : link x = some a)
    (hy : s.get a = some y) (hb : body y = some b) : Leads s a j (bs ++ [b]) := by
  induction h with
  | refl => exact .step hx hlink hy hb .refl
  | step hx' hlink' hy' hb' _ ih => exact .step hx' hlink' hy' hb' ih

theorem Leads.reach (h : Leads s i j bs) : Relation.ReflTransGen (Points s) j i := by
  induction h with
  | refl => exact .refl
  | step hx hlink _ _ _ ih => exact .head ⟨_, hx, hlink⟩ ih

theorem Leads.spells (h : Leads s i j bs) (hx : s.get i = some x) (hcs : Spells s (link x) cs) :
    ∃ y, s.get j = some y ∧ Spells s (link y) (bs ++ cs) := by
  induction h with
  | refl => exact ⟨x, hx, hcs⟩
  | step hj hlink hy hb _ ih =>
    obtain ⟨y', hy', hrest⟩ := ih
    obtain rfl : _ = y' := Option.mem_unique hy hy'
    exact ⟨_, hj, hlink ▸ .cons hy hb hrest⟩

theorem Leads.kept (h : Leads s i j bs) (hx : s.get i = some x) (hcs : Spells s (link x) cs)
    (hkept : ∀ a, a ≠ i → Relation.ReflTransGen (Points s) a i → Kept s t a)
    (hi : ∃ x', t.get i = some x' ∧ body x' = body x) : Leads t i j bs := by
  induction h with
  | refl => exact .refl
  | @step j a w y b bs hj hlink hy hb hrest ih =>
    have hp : Points s j a := ⟨w, hj, hlink⟩
    obtain ⟨y', hy', hspell⟩ := hrest.spells hx hcs
    obtain rfl : y = y' := Option.mem_unique hy hy'
    have hji : j ≠ i := by
      rintro rfl
      exact (Spells.cons hy hb hspell).acyclic hp hrest.reach
    obtain ⟨w', hw', hwlink, -⟩ := hkept j hji (.head hp hrest.reach) w hj
    have htarget : ∃ y', t.get a = some y' ∧ body y' = some b := by
      by_cases hai : a = i
      · subst hai
        obtain ⟨x', hx', hbody⟩ := hi
        obtain rfl : x = y := Option.mem_unique hx hy
        exact ⟨x', hx', hbody.trans hb⟩
      · obtain ⟨y', hy', -, hbody⟩ := hkept a hai hrest.reach y hy
        exact ⟨y', hy', hbody.trans hb⟩
    obtain ⟨y', hy', hbody⟩ := htarget
    exact .step hw' (hwlink.trans hlink) hy' hbody ih

theorem Private.start (h : refs s p = 0) : Private s p p ([] : List β) := by
  refine ⟨.refl, fun q hq _ hr => ?_⟩
  rcases Relation.ReflTransGen.cases_tail hr with rfl | ⟨j, -, hp⟩
  · exact hq rfl
  · exact not_points h hp

theorem Private.forward (h : Private s p i bs) (hx : s.get i = some x) (hlink : link x = some a)
    (hy : s.get a = some y) (hb : body y = some b) (hsole : refs s a ≤ 1) :
    Private s p a (bs ++ [b]) := by
  have hia : Points s i a := ⟨x, hx, hlink⟩
  refine ⟨h.leads.snoc hx hlink hy hb, fun q hq hroot hr => ?_⟩
  rcases Relation.ReflTransGen.cases_tail hr with rfl | ⟨j, hqj, hja⟩
  · exact not_points hroot hia
  · rw [sole_owner hsole hja hia] at hqj
    exact h.apart q hq hroot hqj

/-- A copied node extends the part that no other list reaches. -/
theorem Private.copied (h : Private s p i bs) (hx : s.get i = some x)
    (hcs : Spells s (link x) cs) (hkept : ∀ a, a ≠ i → Kept s t a)
    (hi : ∃ x', t.get i = some x' ∧ link x' = some n ∧ body x' = body x)
    (hw : t.get n = some w) (hb : body w = some b) (hfree : refs s n = 0)
    (hold : ∀ a, a ≠ n → s.get a = none → t.get a = none)
    (hroots : ∀ q, refs t q = 0 → refs s q = 0) : Private t p n (bs ++ [b]) := by
  obtain ⟨x', hx', hlink', hbody'⟩ := hi
  have hleads : Leads t i p bs := h.leads.kept hx hcs (fun a ha _ => hkept a ha) ⟨x', hx', hbody'⟩
  refine ⟨hleads.snoc hx' hlink' hw hb, fun q hq hroot hr => ?_⟩
  have hapart := h.apart q hq (hroots q hroot)
  have hqn : q ≠ n := by
    rintro rfl
    exact not_points hroot ⟨x', hx', hlink'⟩
  have hout : ¬Relation.ReflTransGen (Points s) q n := by
    intro hqr
    rcases Relation.ReflTransGen.cases_tail hqr with rfl | ⟨j, -, hp⟩
    · exact hqn rfl
    · exact not_points hfree hp
  -- an object that `q` reached over the old links still links to where it did
  have hedge : ∀ {j c}, Relation.ReflTransGen (Points s) q j → Points t j c → Points s j c := by
    rintro j c hqj ⟨y', hy', hlink⟩
    have hji : j ≠ i := fun hji => hapart (hji ▸ hqj)
    have hjn : j ≠ n := fun hjn => hout (hjn ▸ hqj)
    cases hy : s.get j with
    | none => rw [hold j hjn hy] at hy'; cases hy'
    | some y =>
      obtain ⟨z, hz, hzlink, -⟩ := hkept j hji y hy
      obtain rfl : z = y' := Option.mem_unique hz hy'
      exact ⟨y, hy, hzlink.symm.trans hlink⟩
  have hwalk : ∀ {c}, Relation.ReflTransGen (Points t) q c →
      Relation.ReflTransGen (Points s) q c := by
    intro c hqc
    induction hqc with
    | refl => exact .refl
    | tail _ hp ih => exact ih.tail (hedge ih hp)
  exact hout (hwalk hr)

theorem Spells.others (hq : s.get q = some z) (hcs : Spells s (link z) cs)
    (hkept : ∀ a, Relation.ReflTransGen (Points s) q a → Kept s t a) :
    ∃ z', t.get q = some z' ∧ Spells t (link z') cs := by
  obtain ⟨z', hz', hlink, -⟩ := hkept q .refl z hq
  refine ⟨z', hz', hlink ▸ hcs.kept fun a c ha hr => ?_⟩
  exact hkept c (.head ⟨z, hq, ha⟩ hr)

end Privacy

end Ns3.Lib
