/-
  How shortest paths are found from the near ones to the far ones.

  Some vertices are settled: their distance is known.  Others are candidates: a walk to
  them is known.  As long as every edge that leaves a settled vertex was looked at, the
  nearest candidate can be settled.  Edges may cost nothing.

  Level `d` holds the vertices at distance `d` from the root.  A vertex of the next level
  is reached by an edge from a vertex of this one, and such an edge leads to the next level
  or to one that is already known.
-/
import Mathlib.Data.Nat.Basic
import Mathlib.Data.Nat.Find

namespace Ns3.Lib

variable {V : Type*}

/-- The walks from `root`, with the sum of what their edges cost. -/
inductive Walk (Edge : V → V → Nat → Prop) (root : V) : V → Nat → Prop where
  | nil : Walk Edge root root 0
  | snoc {u w : V} {d c : Nat} : Walk Edge root u d → Edge u w c → Walk Edge root w (d + c)

/-- `d` is the least cost of a walk to `v`. -/
structure IsDist (Edge : V → V → Nat → Prop) (root v : V) (d : Nat) : Prop where
  walk : Walk Edge root v d
  least : ∀ d', Walk Edge root v d' → d ≤ d'

/-- What is known after some steps; the edges that are still to be looked at are `pending`. -/
structure Frontier (Edge : V → V → Nat → Prop) (root : V) (settled candidate : V → Nat → Prop)
    (pending : V → V → Nat → Prop) : Prop where
  rooted : settled root 0
  /-- the distance of a settled vertex is the least cost -/
  exact : ∀ u d, settled u d → IsDist Edge root u d
  /-- the end of an edge that was looked at is settled, or a candidate at no more than that -/
  relaxed : ∀ u d w c, settled u d → Edge u w c → ¬pending u w c →
    (∃ d', settled w d') ∨ ∃ d', candidate w d' ∧ d' ≤ d + c
  /-- a walk leads to each candidate -/
  walked : ∀ w d, candidate w d → Walk Edge root w d
  apart : ∀ w d d', candidate w d → ¬settled w d'
  /-- the settled vertices are nearer than the candidates -/
  ordered : ∀ u d w d', settled u d → candidate w d' → d ≤ d'

namespace Frontier

variable {Edge : V → V → Nat → Prop} {root v w : V} {settled candidate : V → Nat → Prop}
  {pending : V → V → Nat → Prop} {d c : Nat}

section

variable (h : Frontier Edge root settled candidate fun _ _ _ => False)

include h

theorem passes (hwalk : Walk Edge root w d) :
    (∃ d', settled w d') ∨ ∃ u d', candidate u d' ∧ d' ≤ d := by
  induction hwalk with
  | nil => exact .inl ⟨0, h.rooted⟩
  | @snoc u w d c hwalk hedge ih =>
    rcases ih with ⟨du, hu⟩ | ⟨x, dx, hx, hle⟩
    · rcases h.relaxed u du w c hu hedge id with hw | ⟨dw, hw, hle⟩
      · exact .inl hw
      · have hleast := (h.exact u du hu).least d hwalk
        exact .inr ⟨w, dw, hw, by omega⟩
    · exact .inr ⟨x, dx, hx, by omega⟩

/-- **Completeness.**  Without candidates every vertex that can be reached is settled. -/
theorem complete (hnone : ∀ u d, ¬candidate u d) (hwalk : Walk Edge root w d) :
    ∃ d', settled w d' := by
  rcases h.passes hwalk with hw | ⟨u, d', hu, -⟩
  · exact hw
  · exact absurd hu (hnone u d')

/-- **Soundness.**  The walk known to the nearest candidate is a shortest one. -/
theorem nearest (hv : candidate v d) (hmin : ∀ u d', candidate u d' → d ≤ d') :
    IsDist Edge root v d := by
  refine ⟨h.walked v d hv, fun d' hwalk => ?_⟩
  rcases h.passes hwalk with ⟨dv, hsettled⟩ | ⟨u, du, hu, hle⟩
  · exact absurd hsettled (h.apart v d dv hv)
  · exact Nat.le_trans (hmin u du hu) hle

end

variable {candidate' : V → Nat → Prop}

theorem settle {settled' : V → Nat → Prop}
    (h : Frontier Edge root settled candidate fun _ _ _ => False) (hv : candidate v d)
    (hmin : ∀ u d', candidate u d' → d ≤ d')
    (hsettled : ∀ u d', settled' u d' ↔ settled u d' ∨ u = v ∧ d' = d)
    (hcandidate : ∀ u d', candidate' u d' → candidate u d' ∧ u ≠ v)
    (hstay : ∀ u d', candidate u d' → u ≠ v → candidate' u d') :
    Frontier Edge root settled' candidate' fun u _ _ => u = v where
  rooted := (hsettled root 0).mpr (.inl h.rooted)
  exact u d' hu := by
    rcases (hsettled u d').mp hu with hu | ⟨rfl, rfl⟩
    · exact h.exact u d' hu
    · exact h.nearest hv hmin
  relaxed u du w c hu hedge hpending := by
    rcases (hsettled u du).mp hu with hu | ⟨rfl, -⟩
    · rcases h.relaxed u du w c hu hedge id with ⟨dw, hw⟩ | ⟨dw, hw, hle⟩
      · exact .inl ⟨dw, (hsettled w dw).mpr (.inl hw)⟩
      · by_cases hwv : w = v
        · exact .inl ⟨d, (hsettled w d).mpr (.inr ⟨hwv, rfl⟩)⟩
        · exact .inr ⟨dw, hstay w dw hw hwv, hle⟩
    · exact absurd rfl hpending
  walked w d' hw := h.walked w d' (hcandidate w d' hw).1
  apart w d' d'' hw hs := by
    rcases (hsettled w d'').mp hs with hs | ⟨rfl, -⟩
    · exact h.apart w d' d'' (hcandidate w d' hw).1 hs
    · exact (hcandidate w d' hw).2 rfl
  ordered u du w dw hu hw := by
    rcases (hsettled u du).mp hu with hu | ⟨-, rfl⟩
    · exact h.ordered u du w dw hu (hcandidate w dw hw).1
    · exact hmin w dw (hcandidate w dw hw).1

variable {pending' : V → V → Nat → Prop}

theorem relax (h : Frontier Edge root settled candidate pending) (hv : settled v d)
    (hlast : ∀ u d', settled u d' → d' ≤ d) (hedge : Edge v w c)
    (hpending : ∀ u x c', pending u x c' → pending' u x c' ∨ u = v ∧ x = w ∧ c' = c)
    (hkeep : ∀ u d', u ≠ w → (candidate' u d' ↔ candidate u d'))
    (hfrom : ∀ d', candidate' w d' → candidate w d' ∨ d' = d + c ∧ ∀ d'', ¬settled w d'')
    (hbetter : ∀ d', candidate w d' → ∃ d'', candidate' w d'' ∧ d'' ≤ d')
    (hreach : (∃ d', settled w d') ∨ ∃ d', candidate' w d' ∧ d' ≤ d + c) :
    Frontier Edge root settled candidate' pending' where
  rooted := h.rooted
  exact := h.exact
  relaxed u du x c' hu hux hnot := by
    by_cases hsame : u = v ∧ x = w ∧ c' = c
    · obtain ⟨rfl, rfl, rfl⟩ := hsame
      rcases hreach with hx | ⟨dx, hx, hle⟩
      · exact .inl hx
      · have hleast := (h.exact u d hv).least du (h.exact u du hu).walk
        exact .inr ⟨dx, hx, by omega⟩
    · have hold : ¬pending u x c' := fun hp => (hpending u x c' hp).elim hnot hsame
      rcases h.relaxed u du x c' hu hux hold with hx | ⟨dx, hx, hle⟩
      · exact .inl hx
      · by_cases hxw : x = w
        · subst hxw
          obtain ⟨dx', hx', hle'⟩ := hbetter dx hx
          exact .inr ⟨dx', hx', Nat.le_trans hle' hle⟩
        · exact .inr ⟨dx, (hkeep x dx hxw).mpr hx, hle⟩
  walked x dx hx := by
    by_cases hxw : x = w
    · subst hxw
      rcases hfrom dx hx with hx | ⟨rfl, -⟩
      · exact h.walked x dx hx
      · exact .snoc (h.exact v d hv).walk hedge
    · exact h.walked x dx ((hkeep x dx hxw).mp hx)
  apart x dx d'' hx hs := by
    by_cases hxw : x = w
    · subst hxw
      rcases hfrom dx hx with hx | ⟨-, hnot⟩
      · exact h.apart x dx d'' hx hs
      · exact hnot d'' hs
    · exact h.apart x dx d'' ((hkeep x dx hxw).mp hx) hs
  ordered u du x dx hu hx := by
    by_cases hxw : x = w
    · subst hxw
      rcases hfrom dx hx with hx | ⟨rfl, -⟩
      · exact h.ordered u du x dx hu hx
      · exact Nat.le_trans (hlast u du hu) (Nat.le_add_right d c)
    · exact h.ordered u du x dx hu ((hkeep x dx hxw).mp hx)

theorem weaken (h : Frontier Edge root settled candidate pending)
    (hpending : ∀ u w c, Edge u w c → pending u w c → pending' u w c) :
    Frontier Edge root settled candidate pending' where
  rooted := h.rooted
  exact := h.exact
  relaxed u d w c hu hedge hnot :=
    h.relaxed u d w c hu hedge fun hp => hnot (hpending u w c hedge hp)
  walked := h.walked
  apart := h.apart
  ordered := h.ordered

end Frontier

/-! ## The levels of a breadth-first search -/

variable {E : V → V → Prop} {root u v w : V} {d d' : Nat}

def UnitEdge (E : V → V → Prop) : V → V → Nat → Prop := fun u v c => c = 1 ∧ E u v

def Level (E : V → V → Prop) (root : V) (d : Nat) (v : V) : Prop := IsDist (UnitEdge E) root v d

theorem Walk.append {Edge : V → V → Nat → Prop} (h : Walk Edge root u d) (h' : Walk Edge u v d') :
    Walk Edge root v (d + d') := by
  induction h' with
  | nil => exact h
  | snoc _ hedge ih =>
    rw [← Nat.add_assoc]
    exact .snoc ih hedge

theorem Walk.single (hedge : E u v) : Walk (UnitEdge E) u v 1 := by
  have hwalk : Walk (UnitEdge E) u v (0 + 1) := .snoc .nil ⟨rfl, hedge⟩
  exact hwalk

namespace Level

theorem unique (h : Level E root d v) (h' : Level E root d' v) : d = d' :=
  Nat.le_antisymm (h.least d' h'.walk) (h'.least d h.walk)

theorem zero : Level E root 0 root := ⟨.nil, fun _ _ => Nat.zero_le _⟩

theorem ne_root (h : Level E root d v) (hd : 0 < d) : v ≠ root := by
  rintro rfl
  exact Nat.ne_of_gt hd (h.unique .zero)

theorem exists_of_walk (h : Walk (UnitEdge E) root v d) : ∃ d' ≤ d, Level E root d' v := by
  classical
  have hex : ∃ d, Walk (UnitEdge E) root v d := ⟨d, h⟩
  exact ⟨Nat.find hex, Nat.find_min' hex h, Nat.find_spec hex, fun d' h' => Nat.find_min' hex h'⟩

theorem walk_snoc (h : Walk (UnitEdge E) root u d) (hedge : E u v) :
    Walk (UnitEdge E) root v (d + 1) := .snoc h ⟨rfl, hedge⟩

theorem last_edge (h : Walk (UnitEdge E) root v d) (hne : v ≠ root) : ∃ u, E u v := by
  cases h with
  | nil => exact absurd rfl hne
  | snoc _ hedge => exact ⟨_, hedge.2⟩

theorem pred (h : Level E root (d + 1) v) : ∃ u, Level E root d u ∧ E u v := by
  obtain ⟨hwalk, hleast⟩ := h
  generalize hd : d + 1 = k at hwalk
  cases hwalk with
  | nil => cases hd
  | @snoc u _ d' c hwalk hedge =>
    obtain ⟨rfl, hE⟩ := hedge
    obtain rfl : d = d' := Nat.succ.inj hd
    refine ⟨u, ⟨hwalk, fun d'' h'' => ?_⟩, hE⟩
    exact Nat.succ_le_succ_iff.mp (hleast (d'' + 1) (walk_snoc h'' hE))

theorem succ (hu : Level E root d u) (hedge : E u v) :
    Level E root (d + 1) v ∨ ∃ d' ≤ d, Level E root d' v := by
  obtain ⟨d', hle, hv⟩ := exists_of_walk (walk_snoc hu.walk hedge)
  rcases Nat.le_succ_iff.mp hle with hle | rfl
  · exact .inr ⟨d', hle, hv⟩
  · exact .inl hv

theorem eq_root (h : Level E root 0 v) : v = root := by
  generalize hd : 0 = k at h
  cases h.walk with
  | nil => rfl
  | snoc _ hedge =>
    obtain ⟨rfl, -⟩ := hedge
    omega

theorem one : Level E root 1 v ↔ v ≠ root ∧ E root v := by
  constructor
  · intro hv
    obtain ⟨u, hu, hedge⟩ := hv.pred
    obtain rfl := hu.eq_root
    exact ⟨hv.ne_root Nat.one_pos, hedge⟩
  · rintro ⟨hne, hedge⟩
    rcases Level.zero.succ hedge with hv | ⟨d, hd, hv⟩
    · exact hv
    · obtain rfl := Nat.le_zero.mp hd
      exact absurd hv.eq_root hne

theorem le_of_empty (hnone : ∀ v, ¬Level E root (d + 1) v) (h : Level E root d' v) : d' ≤ d := by
  by_contra hlt
  obtain ⟨k, rfl⟩ := Nat.exists_eq_add_of_le (Nat.lt_of_not_le hlt)
  induction k generalizing v with
  | zero => exact hnone v h
  | succ k ih =>
    obtain ⟨u, hu, -⟩ := Level.pred (d := d + 1 + k) h
    exact ih hu (by omega)

end Level

end Ns3.Lib
