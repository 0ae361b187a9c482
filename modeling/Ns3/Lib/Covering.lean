/-
  Choosing sources until every target is reached.

  Some records say that a target can be reached through a source.  Sources are chosen one
  after another, and the records of the targets that are reached through a chosen source
  are put aside.  When no record is left, every target is reached.
-/
import Mathlib.Data.Finset.Insert

namespace Ns3.Lib

variable {τ α β : Type*}

/-- Of the records `all`, those not in `rest` are of targets reached through `chosen`. -/
structure Covering (source : τ → α) (target : τ → β) (all rest : List τ) (chosen : Finset α) :
    Prop where
  subset : ∀ t ∈ rest, t ∈ all
  reached : ∀ t ∈ all, t ∈ rest ∨ ∃ t' ∈ all, target t' = target t ∧ source t' ∈ chosen

namespace Covering

variable {source : τ → α} {target : τ → β} {all rest rest' : List τ} {chosen chosen' : Finset α}

theorem start (all : List τ) (chosen : Finset α) : Covering source target all all chosen :=
  ⟨fun _ ht => ht, fun _ ht => .inl ht⟩

theorem choose (h : Covering source target all rest chosen) (hmore : chosen ⊆ chosen')
    (hsub : ∀ t ∈ rest', t ∈ rest)
    (haside : ∀ t ∈ rest, t ∉ rest' → ∃ t' ∈ rest, target t' = target t ∧ source t' ∈ chosen') :
    Covering source target all rest' chosen' where
  subset := fun t ht => h.subset t (hsub t ht)
  reached := by
    intro t ht
    rcases h.reached t ht with hrest | ⟨t', ht', htarget, hchosen⟩
    · by_cases hrest' : t ∈ rest'
      · exact .inl hrest'
      · obtain ⟨t', ht', htarget, hchosen⟩ := haside t hrest hrest'
        exact .inr ⟨t', h.subset t' ht', htarget, hchosen⟩
    · exact .inr ⟨t', ht', htarget, hmore hchosen⟩

theorem complete (h : Covering source target all [] chosen) :
    ∀ t ∈ all, ∃ t' ∈ all, target t' = target t ∧ source t' ∈ chosen := by
  intro t ht
  rcases h.reached t ht with hnil | hreached
  · cases hnil
  · exact hreached

end Covering

end Ns3.Lib
