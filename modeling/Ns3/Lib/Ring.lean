/-
  A list of fixed length read round from a head.

  A ring stores its elements in a list and keeps the index of the first of them.
  What it holds is the list rotated to the head; writing at a distance from the head
  and moving the head over an overwritten element are a write and a shift of it.
-/
import Mathlib.Data.List.Rotate

namespace Ns3.Lib.Ring

variable {α : Type*} {xs : List α} {head d : Nat}

/-- The elements from the head round. -/
def view (xs : List α) (head : Nat) : List α := xs.rotate head

@[simp] theorem length_view : (view xs head).length = xs.length :=
  List.length_rotate xs head

theorem view_zero : view xs 0 = xs := List.rotate_zero xs

theorem getElem?_view (hd : d < xs.length) : (view xs head)[d]? = xs[(head + d) % xs.length]? := by
  rw [view, List.getElem?_rotate hd, Nat.add_comm]

theorem place_injective {d' n : Nat} (hhead : head < n) (hd : d < n) (hd' : d' < n)
    (h : (head + d) % n = (head + d') % n) : d = d' := by
  have place : ∀ k, k < n → (head + k) % n = if head + k < n then head + k else head + k - n := by
    intro k hk
    split
    · rename_i hlt
      exact Nat.mod_eq_of_lt hlt
    · rename_i hle
      rw [Nat.mod_eq_sub_mod (by omega), Nat.mod_eq_of_lt (by omega)]
  rw [place d hd, place d' hd'] at h
  split at h <;> split at h <;> omega

theorem view_set {v : α} (hhead : head < xs.length) (hd : d < xs.length) :
    view (xs.set ((head + d) % xs.length) v) head = (view xs head).set d v := by
  apply List.ext_getElem?
  intro k
  by_cases hk : k < xs.length
  · rw [getElem?_view (by rw [List.length_set]; exact hk), List.length_set, List.getElem?_set,
      List.getElem?_set, getElem?_view hk, length_view]
    by_cases hdk : d = k
    · subst hdk
      rw [if_pos rfl, if_pos rfl, if_pos hd, if_pos (Nat.mod_lt _ (by omega))]
    · have hplace : (head + d) % xs.length ≠ (head + k) % xs.length :=
        fun h => hdk (place_injective hhead hd hk h)
      rw [if_neg hplace, if_neg hdk]
  · rw [List.getElem?_eq_none (by simp; omega), List.getElem?_eq_none (by simp; omega)]

theorem view_advance {v : α} (hhead : head < xs.length) :
    view (xs.set head v) ((head + 1) % xs.length) = (view xs head).tail ++ [v] := by
  have hset : xs.set head v = xs.set ((head + 0) % xs.length) v := by
    rw [Nat.add_zero, Nat.mod_eq_of_lt hhead]
  have hfirst : view (xs.set head v) head = (view xs head).set 0 v := by
    rw [hset, view_set hhead (by omega)]
  have hlen : (xs.set head v).length = xs.length := List.length_set
  calc view (xs.set head v) ((head + 1) % xs.length)
      = (xs.set head v).rotate (head + 1) := by
        rw [view, ← hlen, List.rotate_mod]
    _ = ((view xs head).set 0 v).rotate 1 := by
        rw [← hfirst, view, List.rotate_rotate]
    _ = (view xs head).tail ++ [v] := by
        cases hview : view xs head with
        | nil =>
          have h0 : (view xs head).length = 0 := by rw [hview]; rfl
          rw [length_view] at h0
          omega
        | cons x rest => exact List.rotate_cons_succ rest v 0 |>.trans (List.rotate_zero _)

end Ns3.Lib.Ring
