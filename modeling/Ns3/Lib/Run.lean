/-
  Runs of a labelled transition relation.

  A component is modelled by what one labelled step can do; a run is a finite
  sequence of steps.  The induction over runs is done here, once, so that every
  invariant below is a fact about one step.
-/
import Mathlib.Data.List.Induction

namespace Ns3.Lib

variable {σ ι : Type*}

/-- `Run step s ls t`: from `s`, the steps labelled `ls`, in order, lead to `t`. -/
inductive Run (step : σ → ι → σ → Prop) (s : σ) : List ι → σ → Prop where
  | nil : Run step s [] s
  | snoc {ls : List ι} {t u : σ} {l : ι} :
      Run step s ls t → step t l u → Run step s (ls ++ [l]) u

variable {ls ks : List ι} {l k : ι}

/-- The last step of a start of a list is the list's first, or one of the rest. -/
theorem before_cons (hpre : ks ++ [k] <+: l :: ls) :
    ks = [] ∧ k = l ∨ ∃ rest, ks = l :: rest ∧ rest ++ [k] <+: ls := by
  cases ks with
  | nil => exact .inl ⟨rfl, (List.cons_prefix_cons.mp hpre).1⟩
  | cons first rest =>
    obtain ⟨rfl, hrest⟩ := List.cons_prefix_cons.mp hpre
    exact .inr ⟨rest, rfl, hrest⟩

theorem before_singleton (hpre : ks ++ [k] <+: [l]) : ks = [] ∧ k = l := by
  obtain h | ⟨rest, -, hrest⟩ := before_cons hpre
  · exact h
  · simp at hrest

namespace Run

variable {step : σ → ι → σ → Prop} {s t u : σ}

/-- **Invariant rule.**  What holds initially and is kept by every step holds in
every state reached. -/
theorem invariant {P : σ → Prop} (hrun : Run step s ls t) (hinit : P s)
    (hstep : ∀ t l u, P t → step t l u → P u) : P t := by
  induction hrun with
  | nil => exact hinit
  | snoc _ hlast ih => exact hstep _ _ _ ih hlast

theorem invariant_trace {P : List ι → σ → Prop} (hrun : Run step s ls t)
    (hinit : P [] s)
    (hstep : ∀ ls t l u, P ls t → step t l u → P (ls ++ [l]) u) : P ls t := by
  induction hrun with
  | nil => exact hinit
  | snoc _ hlast ih => exact hstep _ _ _ _ ih hlast

theorem mono {step' : σ → ι → σ → Prop} (hrun : Run step s ls t)
    (hsub : ∀ t l u, step t l u → step' t l u) : Run step' s ls t := by
  induction hrun with
  | nil => exact .nil
  | snoc _ hlast ih => exact .snoc ih (hsub _ _ _ hlast)

theorem append (hrun : Run step s ls t) (hrest : Run step t ks u) :
    Run step s (ls ++ ks) u := by
  induction hrest with
  | nil => simpa using hrun
  | snoc _ hlast ih => rw [← List.append_assoc]; exact .snoc ih hlast

theorem single (hstep : step s l t) : Run step s [l] t :=
  .snoc .nil hstep

theorem cons (hstep : step s l t) (hrest : Run step t ls u) : Run step s (l :: ls) u :=
  (single hstep).append hrest

theorem nil_eq (hrun : Run step s [] t) : t = s := by
  generalize hls : ([] : List ι) = ls at hrun
  cases hrun with
  | nil => rfl
  | snoc => simp at hls

theorem snoc_inv (hrun : Run step s (ls ++ [l]) t) : ∃ u, Run step s ls u ∧ step u l t := by
  generalize hks : ls ++ [l] = ks at hrun
  cases hrun with
  | nil => simp at hks
  | snoc hprev hlast =>
    obtain ⟨rfl, hl⟩ := List.append_inj' hks rfl
    obtain rfl := List.singleton_inj.mp hl
    exact ⟨_, hprev, hlast⟩

theorem append_inv (hrun : Run step s (ls ++ ks) t) : ∃ u, Run step s ls u ∧ Run step u ks t := by
  induction ks using List.reverseRecOn generalizing t with
  | nil => exact ⟨t, by simpa using hrun, .nil⟩
  | append_singleton ks k ih =>
    rw [← List.append_assoc] at hrun
    obtain ⟨v, hprev, hlast⟩ := hrun.snoc_inv
    obtain ⟨u, hfirst, hrest⟩ := ih hprev
    exact ⟨u, hfirst, .snoc hrest hlast⟩

theorem cons_inv (hrun : Run step s (l :: ls) t) : ∃ u, step s l u ∧ Run step u ls t := by
  have hsplit : Run step s ([l] ++ ls) t := hrun
  obtain ⟨u, hfirst, hrest⟩ := append_inv hsplit
  have hone : Run step s ([] ++ [l]) u := hfirst
  obtain ⟨v, hnil, hstep⟩ := snoc_inv hone
  obtain rfl := hnil.nil_eq
  exact ⟨u, hstep, hrest⟩

variable {next : σ → ι → Option σ}

theorem of_foldlM (hnext : ∀ s l t, next s l = some t → step s l t)
    (h : ls.foldlM next s = some t) : Run step s ls t := by
  induction ls generalizing s with
  | nil =>
    obtain rfl : s = t := by simpa using h
    exact .nil
  | cons l ls ih =>
    rw [List.foldlM_cons] at h
    obtain ⟨u, hfirst, hrest⟩ := Option.bind_eq_some_iff.mp h
    exact .cons (hnext s l u hfirst) (ih hrest)

theorem exists_of_foldlM {P : σ → Prop} (hnext : ∀ s l t, next s l = some t → step s l t)
    (h : ls.foldlM next s = some t) (hP : Run step s ls t → P t) : ∃ t, Run step s ls t ∧ P t :=
  ⟨t, of_foldlM hnext h, hP (of_foldlM hnext h)⟩

/-! ## Runs of a step function -/

section Functional

theorem foldlM_eq (hrun : Run (fun s l t => next s l = some t) s ls t) :
    ls.foldlM next s = some t := by
  induction hrun with
  | nil => rfl
  | snoc _ hlast ih =>
    rw [List.foldlM_append, ih]
    simpa using hlast

theorem deterministic (hrun : Run (fun s l t => next s l = some t) s ls t)
    (hrun' : Run (fun s l t => next s l = some t) s ls u) : t = u :=
  Option.mem_unique hrun.foldlM_eq hrun'.foldlM_eq

theorem exists_prefix (hrun : Run step s ls t) (hpre : ks ++ [l] <+: ls) :
    ∃ u v, Run step s ks u ∧ step u l v ∧ Run step s (ks ++ [l]) v := by
  induction hrun with
  | nil => simp at hpre
  | @snoc ls t u' l' hprev hlast ih =>
    rcases List.prefix_concat_iff.mp hpre with heq | hpre
    · obtain ⟨rfl, hl⟩ := List.append_inj' heq rfl
      obtain rfl : l = l' := by simpa using hl
      exact ⟨t, u', hprev, hlast, .snoc hprev hlast⟩
    · exact ih hpre

/-- **Exact invariant rule.**  When a step keeps `P` exactly if it meets `C`, then `P`
holds along a run exactly if every step of it meets `C`.  `I` holds in every state. -/
theorem invariant_iff {I P : σ → Prop} {C : σ → ι → Prop} (hI : I s) (hP : P s)
    (hinv : ∀ t l u, I t → next t l = some u → I u)
    (hstep : ∀ t l u, I t → P t → next t l = some u → (P u ↔ C t l))
    (hrun : Run (fun s l t => next s l = some t) s ls t) :
    (∀ ks u, ks <+: ls → Run (fun s l t => next s l = some t) s ks u → P u) ↔
      ∀ ks l u, ks ++ [l] <+: ls → Run (fun s l t => next s l = some t) s ks u → C u l := by
  constructor
  · intro h ks l u hpre hu
    obtain ⟨u', v, hu', hl, hv⟩ := hrun.exists_prefix hpre
    obtain rfl := hu.deterministic hu'
    have hPu : P u := h ks u ((List.prefix_append ks [l]).trans hpre) hu
    exact (hstep u l v (hu.invariant hI hinv) hPu hl).mp (h _ v hpre hv)
  · intro h ks u hpre hu
    induction hu with
    | nil => exact hP
    | @snoc ks t u l hprev hlast ih =>
      have hPt : P t := ih ((List.prefix_append ks [l]).trans hpre)
      exact (hstep t l u (hprev.invariant hI hinv) hPt hlast).mpr (h ks l t hpre hprev)

/-- **Exact step rule.**  When a step that starts where `I` holds has outcome `P` exactly if it
meets `C`, and a step with outcome `P` keeps `I`, then every step of a run has outcome `P`
exactly if every step of it meets `C`. -/
theorem steps_iff {I : σ → Prop} {P : σ → ι → σ → Prop} {C : σ → ι → Prop} (hI : I s)
    (hinv : ∀ t l u, I t → step t l u → P t l u → I u)
    (hstep : ∀ t l u, I t → step t l u → (P t l u ↔ C t l)) (_hrun : Run step s ls t) :
    (∀ ks l u v, ks ++ [l] <+: ls → Run step s ks u → step u l v → P u l v) ↔
      ∀ ks l u v, ks ++ [l] <+: ls → Run step s ks u → step u l v → C u l := by
  constructor
  · intro h ks l u v hpre hu hl
    have hIu : I u := by
      clear hl
      induction hu generalizing l with
      | nil => exact hI
      | @snoc ks t u k hprev hlast ih =>
        have hpre' : ks ++ [k] <+: ls := (List.prefix_append _ [l]).trans hpre
        exact hinv t k u (ih k hpre') hlast (h ks k t u hpre' hprev hlast)
    exact (hstep u l v hIu hl).mp (h ks l u v hpre hu hl)
  · intro h ks l u v hpre hu hl
    have hIu : I u := by
      clear hl
      induction hu generalizing l with
      | nil => exact hI
      | @snoc ks t u k hprev hlast ih =>
        have hpre' : ks ++ [k] <+: ls := (List.prefix_append _ [l]).trans hpre
        have hIt := ih k hpre'
        exact hinv t k u hIt hlast ((hstep t k u hIt hlast).mpr (h ks k t u hpre' hprev hlast))
    exact (hstep u l v hIu hl).mpr (h ks l u v hpre hu hl)

end Functional

end Run

end Ns3.Lib
