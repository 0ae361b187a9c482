/-
  What is known of a sender over a channel that keeps the order.

  A sender stamps its messages, with stamps that never decrease.  Some of the messages may be
  lost, but those that arrive do so in order: what the receiver has heard is never newer than
  what is still in flight, and what is in flight never newer than the sender's latest stamp.
-/
import Mathlib.Data.List.Sublists

namespace Ns3.Lib

/-- The stamps in flight lie, in order, between the one heard and the sender's latest. -/
structure InFlight (heard latest : Nat) (flight : List Nat) : Prop where
  le : heard ≤ latest
  sorted : flight.Pairwise (· ≤ ·)
  above : ∀ x ∈ flight, heard ≤ x
  below : ∀ x ∈ flight, x ≤ latest

namespace InFlight

variable {heard latest latest' x : Nat} {flight flight' sent : List Nat}

theorem start (latest : Nat) : InFlight 0 latest [] :=
  ⟨Nat.zero_le _, .nil, nofun, nofun⟩

theorem lose (h : InFlight heard latest flight) (hsub : List.Sublist flight' flight) :
    InFlight heard latest flight' :=
  ⟨h.le, h.sorted.sublist hsub, fun x hx => h.above x (hsub.subset hx),
    fun x hx => h.below x (hsub.subset hx)⟩

theorem advance (h : InFlight heard latest flight) (hle : latest ≤ latest') :
    InFlight heard latest' flight :=
  ⟨h.le.trans hle, h.sorted, h.above, fun x hx => (h.below x hx).trans hle⟩

theorem send (h : InFlight heard latest flight) (hsent : ∀ x ∈ sent, x = latest) :
    InFlight heard latest (flight ++ sent) := by
  refine ⟨h.le, ?_, ?_, ?_⟩
  · refine List.pairwise_append.mpr ⟨h.sorted, ?_, ?_⟩
    · refine List.pairwise_of_forall_mem_list fun a ha b hb => ?_
      rw [hsent a ha, hsent b hb]
    · intro a ha b hb
      rw [hsent b hb]
      exact h.below a ha
  · intro x hx
    rcases List.mem_append.mp hx with hx | hx
    · exact h.above x hx
    · exact (hsent x hx).symm ▸ h.le
  · intro x hx
    rcases List.mem_append.mp hx with hx | hx
    · exact h.below x hx
    · exact (hsent x hx).le

theorem hear (h : InFlight heard latest (x :: flight)) : InFlight x latest flight :=
  ⟨h.below x (.head _), h.sorted.of_cons,
    fun _ hy => List.rel_of_pairwise_cons h.sorted hy,
    fun y hy => h.below y (.tail _ hy)⟩

theorem ignore (h : InFlight heard latest (x :: flight)) : InFlight heard latest flight :=
  h.lose (List.sublist_cons_self x flight)

end InFlight

end Ns3.Lib
