/-
  A map whose entries are kept in the order of their keys.

  The entries are a list with increasing keys, so going through the map is going through
  the list, and two maps with the same entries are the same.
-/
import Mathlib.Data.List.Nodup
import Mathlib.Data.List.Sort

namespace Ns3.Lib

variable {α : Type*}

/-- Entries in the order of their keys. -/
structure SortedMap (α : Type*) where
  entries : List (Nat × α)
  sorted : entries.Pairwise fun e e' => e.1 < e'.1

namespace SortedMap

variable {m : SortedMap α} {k k' : Nat} {a a' : α} {e : Nat × α}

instance : Membership (Nat × α) (SortedMap α) := ⟨fun m e => e ∈ m.entries⟩

theorem mem_def : e ∈ m ↔ e ∈ m.entries := Iff.rfl

def empty : SortedMap α := ⟨[], .nil⟩

def contains (m : SortedMap α) (k : Nat) : Bool := m.entries.any fun e => e.1 = k

def find? (m : SortedMap α) (k : Nat) : Option α :=
  (m.entries.find? fun e => e.1 = k).map Prod.snd

def erase (m : SortedMap α) (k : Nat) : SortedMap α :=
  ⟨m.entries.filter fun e => e.1 ≠ k, m.sorted.filter _⟩

/-- An entry is put in its place, or replaces the entry with the same key. -/
def insertEntry (k : Nat) (a : α) : List (Nat × α) → List (Nat × α)
  | [] => [(k, a)]
  | e :: es =>
    if k < e.1 then (k, a) :: e :: es
    else if k = e.1 then (k, a) :: es
    else e :: insertEntry k a es

variable {es : List (Nat × α)}

theorem mem_insertEntry (h : es.Pairwise fun e e' => e.1 < e'.1) :
    e ∈ insertEntry k a es ↔ e = (k, a) ∨ (e ∈ es ∧ e.1 ≠ k) := by
  induction es with
  | nil => simp [insertEntry]
  | cons e' es ih =>
    have hlater : ∀ e'' ∈ es, e'.1 < e''.1 := fun e'' he'' => List.rel_of_pairwise_cons h he''
    unfold insertEntry
    split
    · next hlt =>
        rw [List.mem_cons]
        refine or_congr_right (iff_self_and.mpr fun hmem => ?_)
        rcases List.mem_cons.mp hmem with rfl | hmem
        · exact Nat.ne_of_gt hlt
        · exact Nat.ne_of_gt (hlt.trans (hlater e hmem))
    split
    · next heq =>
        rw [List.mem_cons, List.mem_cons]
        refine or_congr_right ?_
        constructor
        · intro hmem
          exact ⟨.inr hmem, heq ▸ Nat.ne_of_gt (hlater e hmem)⟩
        · rintro ⟨rfl | hmem, hne⟩
          · exact absurd heq.symm hne
          · exact hmem
    · next hnlt hne =>
        rw [List.mem_cons, List.mem_cons, ih h.tail]
        constructor
        · rintro (rfl | rfl | ⟨hmem, hne'⟩)
          · exact .inr ⟨.inl rfl, Ne.symm hne⟩
          · exact .inl rfl
          · exact .inr ⟨.inr hmem, hne'⟩
        · rintro (rfl | ⟨rfl | hmem, hne'⟩)
          · exact .inr (.inl rfl)
          · exact .inl rfl
          · exact .inr (.inr ⟨hmem, hne'⟩)

theorem sorted_insertEntry (h : es.Pairwise fun e e' => e.1 < e'.1) :
    (insertEntry k a es).Pairwise fun e e' => e.1 < e'.1 := by
  induction es with
  | nil => exact List.pairwise_singleton ..
  | cons e es ih =>
    have hlater : ∀ e' ∈ es, e.1 < e'.1 := fun e' he' => List.rel_of_pairwise_cons h he'
    unfold insertEntry
    split
    · next hlt =>
        refine List.pairwise_cons.mpr ⟨fun e' he' => ?_, h⟩
        rcases List.mem_cons.mp he' with rfl | he'
        · exact hlt
        · exact hlt.trans (hlater e' he')
    split
    · next heq => exact List.pairwise_cons.mpr ⟨fun e' he' => heq ▸ hlater e' he', h.tail⟩
    · next hnlt hne =>
        refine List.pairwise_cons.mpr ⟨fun e' he' => ?_, ih h.tail⟩
        rcases (mem_insertEntry h.tail).mp he' with rfl | ⟨he', -⟩
        · exact Nat.lt_of_le_of_ne (Nat.le_of_not_lt hnlt) (Ne.symm hne)
        · exact hlater e' he'

def insert (m : SortedMap α) (k : Nat) (a : α) : SortedMap α :=
  ⟨insertEntry k a m.entries, sorted_insertEntry m.sorted⟩

@[simp] theorem not_mem_empty : e ∉ (empty : SortedMap α) := List.not_mem_nil

@[simp] theorem mem_insert : e ∈ m.insert k a ↔ e = (k, a) ∨ (e ∈ m ∧ e.1 ≠ k) :=
  mem_insertEntry m.sorted

@[simp] theorem mem_erase : e ∈ m.erase k ↔ e ∈ m ∧ e.1 ≠ k := by
  rw [mem_def, erase, List.mem_filter, decide_eq_true_eq, mem_def]

theorem contains_iff : m.contains k = true ↔ ∃ a, (k, a) ∈ m := by
  rw [contains, List.any_eq_true]
  constructor
  · rintro ⟨⟨k', a⟩, hmem, heq⟩
    obtain rfl : k' = k := of_decide_eq_true heq
    exact ⟨a, hmem⟩
  · rintro ⟨a, hmem⟩
    exact ⟨(k, a), hmem, decide_eq_true rfl⟩

theorem mem_unique (h : (k, a) ∈ m) (h' : (k, a') ∈ m) : a = a' := by
  have hnodup : (m.entries.map Prod.fst).Nodup :=
    List.pairwise_map.mpr (m.sorted.imp fun hlt => Nat.ne_of_lt hlt)
  exact congrArg Prod.snd (List.inj_on_of_nodup_map hnodup h h' rfl)

theorem find?_eq_some : m.find? k = some a ↔ (k, a) ∈ m := by
  have hsome (a : α) (h : m.find? k = some a) : (k, a) ∈ m := by
    obtain ⟨⟨k', a'⟩, hfind, rfl⟩ := Option.map_eq_some_iff.mp h
    obtain rfl : k' = k := by simpa using List.find?_some hfind
    exact List.mem_of_find?_eq_some hfind
  refine ⟨hsome a, fun h => ?_⟩
  have hex : (m.entries.find? fun e => e.1 = k).isSome :=
    List.find?_isSome.mpr ⟨(k, a), h, decide_eq_true rfl⟩
  obtain ⟨e, he⟩ := Option.isSome_iff_exists.mp hex
  have hfind : m.find? k = some e.2 := congrArg (Option.map Prod.snd) he
  rw [hfind, mem_unique (hsome e.2 hfind) h]

theorem find?_eq_none : m.find? k = none ↔ m.contains k = false := by
  rw [← Bool.not_eq_true, contains_iff, Option.eq_none_iff_forall_ne_some]
  constructor
  · rintro h ⟨a, ha⟩
    exact h a (find?_eq_some.mpr ha)
  · intro h a ha
    exact h ⟨a, find?_eq_some.mp ha⟩

/-! ## Size -/

def size (m : SortedMap α) : Nat := m.entries.length

theorem length_insertEntry (h : ∀ e ∈ es, e.1 ≠ k) :
    (insertEntry k a es).length = es.length + 1 := by
  induction es with
  | nil => rfl
  | cons e es ih =>
    obtain ⟨hne, hrest⟩ := List.forall_mem_cons.mp h
    unfold insertEntry
    split
    · rfl
    · rw [if_neg (Ne.symm hne), List.length_cons, List.length_cons, ih hrest]

theorem size_insert (h : m.contains k = false) : (m.insert k a).size = m.size + 1 := by
  refine length_insertEntry fun e he hkey => ?_
  have hcontains : m.contains k = true := contains_iff.mpr ⟨e.2, hkey ▸ he⟩
  exact Bool.false_ne_true (h.symm.trans hcontains)

/-- The value of a key that has none is set: `std::map::insert`. -/
def insertNew (m : SortedMap α) (k : Nat) (a : α) : SortedMap α :=
  if m.contains k then m else m.insert k a

theorem contains_insertNew :
    (m.insertNew k a).contains k' = true ↔ k' = k ∨ m.contains k' = true := by
  rw [insertNew]
  split
  · next hcontains =>
      refine ⟨.inr, fun h => ?_⟩
      obtain rfl | h := h
      · exact hcontains
      · exact h
  · next hnot =>
      rw [contains_iff, contains_iff]
      constructor
      · rintro ⟨a', h⟩
        obtain h | ⟨h, -⟩ := mem_insert.mp h
        · exact .inl (congrArg Prod.fst h)
        · exact .inr ⟨a', h⟩
      · rintro (rfl | ⟨a', h⟩)
        · exact ⟨a, mem_insert.mpr (.inl rfl)⟩
        · by_cases heq : k' = k
          · exact ⟨a, mem_insert.mpr (.inl (heq ▸ rfl))⟩
          · exact ⟨a', mem_insert.mpr (.inr ⟨h, heq⟩)⟩

theorem size_le_insertNew : m.size ≤ (m.insertNew k a).size := by
  rw [insertNew]
  split
  · exact le_rfl
  · next hnot =>
      rw [size_insert (Bool.eq_false_iff.mpr hnot)]
      exact Nat.le_succ _

theorem nodup_keys (m : SortedMap α) : (m.entries.map Prod.fst).Nodup :=
  List.pairwise_map.mpr (m.sorted.imp fun hlt => Nat.ne_of_lt hlt)

theorem mem_keys : k ∈ m.entries.map Prod.fst ↔ m.contains k = true := by
  rw [contains_iff, List.mem_map]
  constructor
  · rintro ⟨e, he, rfl⟩
    exact ⟨e.2, he⟩
  · rintro ⟨a, ha⟩
    exact ⟨(k, a), ha, rfl⟩

theorem size_eq_of_contains {m' : SortedMap α}
    (h : ∀ k, m.contains k = true ↔ m'.contains k = true) : m.size = m'.size := by
  have hperm : (m.entries.map Prod.fst).Perm (m'.entries.map Prod.fst) :=
    (List.perm_ext_iff_of_nodup m.nodup_keys m'.nodup_keys).mpr fun k => by
      rw [mem_keys, mem_keys, h]
  rw [size, size, ← List.length_map Prod.fst, hperm.length_eq, List.length_map]

theorem size_ne_zero (h : m.contains k = true) : m.size ≠ 0 := by
  obtain ⟨a, ha⟩ := contains_iff.mp h
  exact Nat.ne_of_gt (List.length_pos_of_mem ha)

/-- New entries are put in their places, one after the other. -/
def insertAll (m : SortedMap α) (es : List (Nat × α)) : SortedMap α :=
  es.foldl (fun m e => m.insertNew e.1 e.2) m

theorem contains_insertAll :
    (m.insertAll es).contains k = true ↔ m.contains k = true ∨ ∃ e ∈ es, e.1 = k := by
  induction es generalizing m with
  | nil => simp [insertAll]
  | cons e es ih =>
    rw [insertAll, List.foldl_cons, ← insertAll, ih, contains_insertNew,
      List.exists_mem_cons_iff, or_assoc, or_left_comm, eq_comm (a := k)]

theorem size_le_insertAll (m : SortedMap α) (es : List (Nat × α)) :
    m.size ≤ (m.insertAll es).size := by
  induction es generalizing m with
  | nil => exact le_rfl
  | cons e es ih => exact size_le_insertNew.trans (ih _)

/-! ## Maps of the entries -/

section

variable {β γ : Type*} {f : Nat → α → Option β} {b : β}

theorem sorted_filterMap (f : Nat → α → Option β) (m : SortedMap α) :
    (m.entries.filterMap fun e => (f e.1 e.2).map fun b => (e.1, b)).Pairwise
      fun e e' => e.1 < e'.1 := by
  refine List.pairwise_filterMap.mpr (m.sorted.imp fun hlt e he e' he' => ?_)
  obtain ⟨b, -, rfl⟩ := Option.map_eq_some_iff.mp he
  obtain ⟨b', -, rfl⟩ := Option.map_eq_some_iff.mp he'
  exact hlt

/-- The entries that `f` keeps, with the values it gives them. -/
def filterMap (f : Nat → α → Option β) (m : SortedMap α) : SortedMap β :=
  ⟨m.entries.filterMap fun e => (f e.1 e.2).map fun b => (e.1, b), sorted_filterMap f m⟩

@[simp] theorem mem_filterMap : (k, b) ∈ m.filterMap f ↔ ∃ a, (k, a) ∈ m ∧ f k a = some b := by
  rw [mem_def, filterMap, List.mem_filterMap]
  constructor
  · rintro ⟨⟨k', a⟩, hmem, hsome⟩
    obtain ⟨b', hb', heq⟩ := Option.map_eq_some_iff.mp hsome
    cases heq
    exact ⟨a, hmem, hb'⟩
  · rintro ⟨a, hmem, hsome⟩
    exact ⟨(k, a), hmem, by rw [hsome]; rfl⟩

theorem find?_filterMap : (m.filterMap f).find? k = (m.find? k).bind (f k) := by
  ext b
  rw [find?_eq_some, mem_filterMap, Option.bind_eq_some_iff]
  exact exists_congr fun a => and_congr_left' find?_eq_some.symm

theorem eq_of_entries {m' : SortedMap α} (h : m.entries = m'.entries) : m = m' := by
  cases m
  cases m'
  cases h
  rfl

theorem filterMap_filterMap (g : Nat → β → Option γ) :
    (m.filterMap f).filterMap g = m.filterMap fun k a => (f k a).bind (g k) := by
  refine eq_of_entries (List.filterMap_filterMap.trans ?_)
  refine congrArg (fun f => List.filterMap f m.entries) (funext fun e => ?_)
  dsimp only
  cases f e.1 e.2 with
  | none => rfl
  | some b => rfl

end

end SortedMap

end Ns3.Lib
