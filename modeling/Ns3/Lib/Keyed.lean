/-
  Lists that hold one element for each key.

  An element is put in the place of the one with its key, or at the end; the first element with
  a key is removed.  As long as the keys are distinct, what the list then holds is what it held
  under other keys, and what was put.
-/
import Mathlib.Data.List.Nodup

namespace Ns3.Lib

namespace Keyed

variable {α κ : Type*} [DecidableEq κ] (key : α → κ)

/-- `a` replaces the first element with its key, or comes last. -/
def put (a : α) : List α → List α
  | [] => [a]
  | b :: rest => if key b = key a then a :: rest else b :: put a rest

variable {key} {a b : α} {k : κ} {l : List α}

theorem mem_keys_put : k ∈ (put key a l).map key ↔ k = key a ∨ k ∈ l.map key := by
  induction l with
  | nil => simp [put]
  | cons b rest ih =>
    rw [put]
    split
    · next heq =>
        rw [List.map_cons, List.map_cons, List.mem_cons, List.mem_cons, heq]
        tauto
    · rw [List.map_cons, List.map_cons, List.mem_cons, List.mem_cons, ih]
      tauto

theorem nodup_put (h : (l.map key).Nodup) : ((put key a l).map key).Nodup := by
  induction l with
  | nil => simp [put]
  | cons b rest ih =>
    rw [List.map_cons, List.nodup_cons] at h
    rw [put]
    split
    · next heq =>
        rw [List.map_cons, List.nodup_cons, ← heq]
        exact h
    · next hne =>
        rw [List.map_cons, List.nodup_cons, mem_keys_put, not_or]
        exact ⟨⟨hne, h.1⟩, ih h.2⟩

theorem mem_put (h : (l.map key).Nodup) : b ∈ put key a l ↔ b = a ∨ (b ∈ l ∧ key b ≠ key a) := by
  induction l with
  | nil => simp [put]
  | cons c rest ih =>
    rw [List.map_cons, List.nodup_cons] at h
    rw [put]
    split
    · next heq =>
        have hrest (hb : b ∈ rest) : key b ≠ key a := fun hkey =>
          h.1 (heq ▸ hkey ▸ List.mem_map_of_mem hb)
        rw [List.mem_cons, List.mem_cons]
        constructor
        · rintro (rfl | hb)
          · exact .inl rfl
          · exact .inr ⟨.inr hb, hrest hb⟩
        · rintro (rfl | ⟨rfl | hb, hne⟩)
          · exact .inl rfl
          · exact absurd heq hne
          · exact .inr hb
    · next hne =>
        rw [List.mem_cons, List.mem_cons, ih h.2]
        constructor
        · rintro (rfl | rfl | ⟨hb, hkey⟩)
          · exact .inr ⟨.inl rfl, hne⟩
          · exact .inl rfl
          · exact .inr ⟨.inr hb, hkey⟩
        · rintro (rfl | ⟨rfl | hb, hkey⟩)
          · exact .inr (.inl rfl)
          · exact .inl rfl
          · exact .inr (.inr ⟨hb, hkey⟩)

theorem mem_put_self : a ∈ put key a l := by
  induction l with
  | nil => exact List.mem_singleton_self _
  | cons b rest ih =>
    rw [put]
    split
    · exact .head _
    · exact .tail _ ih

omit [DecidableEq κ] in
theorem mem_eraseP {p : α → Bool} (h : (l.map key).Nodup) (hp : ∀ x ∈ l, p x = true ↔ key x = k) :
    b ∈ l.eraseP p ↔ b ∈ l ∧ key b ≠ k := by
  induction l with
  | nil => simp
  | cons c rest ih =>
    rw [List.map_cons, List.nodup_cons] at h
    have hrest := ih h.2 fun x hx => hp x (.tail _ hx)
    by_cases hc : key c = k
    · rw [List.eraseP_cons_of_pos ((hp c (.head _)).mpr hc), List.mem_cons]
      constructor
      · exact fun hb => ⟨.inr hb, fun hkey => h.1 (hc ▸ hkey ▸ List.mem_map_of_mem hb)⟩
      · rintro ⟨rfl | hb, hne⟩
        · exact absurd hc hne
        · exact hb
    · have hneg : ¬p c = true := fun hpc => hc ((hp c (.head _)).mp hpc)
      rw [List.eraseP_cons_of_neg hneg, List.mem_cons, List.mem_cons, hrest]
      constructor
      · rintro (rfl | ⟨hb, hne⟩)
        · exact ⟨.inl rfl, hc⟩
        · exact ⟨.inr hb, hne⟩
      · rintro ⟨rfl | hb, hne⟩
        · exact .inl rfl
        · exact .inr ⟨hb, hne⟩

omit [DecidableEq κ] in
theorem nodup_eraseP (h : (l.map key).Nodup) (p : α → Bool) : ((l.eraseP p).map key).Nodup :=
  h.sublist (List.eraseP_sublist.map key)

theorem find?_eq_some (h : (l.map key).Nodup) :
    l.find? (fun x => key x = k) = some a ↔ a ∈ l ∧ key a = k := by
  constructor
  · intro hfind
    exact ⟨List.mem_of_find?_eq_some hfind, by simpa using List.find?_some hfind⟩
  · rintro ⟨ha, rfl⟩
    cases hfind : l.find? (fun x => key x = key a) with
    | none => exact absurd (decide_eq_true rfl) (List.find?_eq_none.mp hfind a ha)
    | some b =>
      have hb : key b = key a := by simpa using List.find?_some hfind
      rw [List.inj_on_of_nodup_map h (List.mem_of_find?_eq_some hfind) ha hb]

theorem find?_eq_none : l.find? (fun x => key x = k) = none ↔ ∀ x ∈ l, key x ≠ k := by
  simp

end Keyed

end Ns3.Lib
