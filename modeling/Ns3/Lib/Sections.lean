/-
  Writing sections into a bounded area.

  A serializer writes a word and a section, the next word and the next section,
  and so on.  Before each it adds a count to a running size and compares that
  with the limit; where it writes is decided by how far the write pointer moves.
  When the counts are less than what the pointer moves by, the limit passes
  writes that end beyond it.
-/
import Ns3.Lib.Wrap

namespace Ns3.Lib

/-- Bytes written at an offset. -/
structure Write where
  offset : Nat
  bytes : List UInt8
  deriving DecidableEq, Repr

/-- Everything that a serializer wrote, and whether it came to its end. -/
structure Written where
  writes : List Write
  ok : Bool
  deriving DecidableEq, Repr

namespace Written

/-- No byte is written at or beyond `limit`. -/
def Within (limit : Nat) (w : Written) : Prop :=
  ∀ write ∈ w.writes, write.bytes ≠ [] → write.offset + write.bytes.length ≤ limit

def extent (w : Written) : Nat :=
  w.writes.foldr (fun write n =>
    if write.bytes = [] then n else max (write.offset + write.bytes.length) n) 0

/-- The same bytes, written from `p` on. -/
def from' (p : Nat) (w : Written) : Written :=
  { w with writes := w.writes.map fun write => { write with offset := p + write.offset } }

theorem within_iff {limit : Nat} (w : Written) : w.Within limit ↔ w.extent ≤ limit := by
  obtain ⟨writes, ok⟩ := w
  dsimp only [Within, extent]
  induction writes with
  | nil => simp
  | cons write writes ih =>
    rw [List.forall_mem_cons, List.foldr_cons, ih]
    split
    · rename_i hnil
      exact ⟨fun h => h.2, fun h => ⟨fun hne => absurd hnil hne, h⟩⟩
    · rename_i hne
      rw [Nat.max_le]
      exact and_congr_left fun _ => ⟨fun h => h hne, fun h _ => h⟩

theorem from'_within_iff {limit p : Nat} {w : Written} (hp : p ≤ limit) :
    (w.from' p).Within limit ↔ p + w.extent ≤ limit := by
  have hshift : (w.from' p).Within limit ↔ w.Within (limit - p) := by
    rw [Within, Within, from', List.forall_mem_map]
    refine forall₂_congr fun write _ => imp_congr_right fun _ => ?_
    dsimp only
    omega
  rw [hshift, within_iff]
  omega

end Written

/-- What a serializer does inside a section. -/
inductive Chunk where
  /-- `count` is added to the running size, which is compared with the limit; then the bytes
  are written, and the pointer moves by `count` -/
  | put (count : Nat) (bytes : List UInt8)
  /-- bytes are written at the start of the section again -/
  | patch (bytes : List UInt8)
  deriving DecidableEq, Repr

namespace Chunk

def writeAll (limit : Nat) : Nat → Nat → List Chunk → Written
  | _, _, [] => { writes := [], ok := true }
  | p, size, .put count bytes :: rest =>
    let size := wadd 32 size count
    if limit < size then { writes := [], ok := false }
    else
      let more := writeAll limit (p + count) size rest
      { more with writes := ⟨p, bytes⟩ :: more.writes }
  | p, size, .patch bytes :: rest =>
    let more := writeAll limit p size rest
    { more with writes := ⟨0, bytes⟩ :: more.writes }

/-- How far the pointer moves over the chunks. -/
def span : List Chunk → Nat
  | [] => 0
  | .put count _ :: rest => count + span rest
  | .patch _ :: rest => span rest

/-- Where what is written from `p` on ends, if the limit lets all of it be written. -/
def reach : Nat → List Chunk → Nat
  | _, [] => 0
  | p, .put count bytes :: rest =>
    if bytes = [] then reach (p + count) rest
    else max (p + bytes.length) (reach (p + count) rest)
  | p, .patch bytes :: rest =>
    if bytes = [] then reach p rest else max (0 + bytes.length) (reach p rest)

variable {limit p size : Nat} {cs ds : List Chunk}

theorem span_append : span (cs ++ ds) = span cs + span ds := by
  induction cs with
  | nil => simp [span]
  | cons c cs ih =>
    cases c with
    | put count bytes => simp only [List.cons_append, span, ih, Nat.add_assoc]
    | patch bytes => simp only [List.cons_append, span, ih]

theorem reach_append : reach p (cs ++ ds) = max (reach p cs) (reach (p + span cs) ds) := by
  induction cs generalizing p with
  | nil => simp [span, reach]
  | cons c cs ih =>
    cases c with
    | put count bytes =>
      simp only [List.cons_append, span, reach, ih, Nat.add_assoc]
      split
      · rfl
      · rw [Nat.max_assoc]
    | patch bytes =>
      simp only [List.cons_append, span, reach, ih]
      split
      · rfl
      · rw [Nat.max_assoc]

/-- Chunks that fit the limit are all written. -/
theorem writeAll_of_span_le (hfits : size + span cs ≤ limit) (hlimit : limit < 2 ^ 32) :
    (writeAll limit p size cs).ok = true ∧ (writeAll limit p size cs).extent = reach p cs := by
  induction cs generalizing p size with
  | nil => exact ⟨rfl, rfl⟩
  | cons c cs ih =>
    cases c with
    | put count bytes =>
      rw [span] at hfits
      have hsize : wadd 32 size count = size + count := Nat.mod_eq_of_lt (by omega)
      obtain ⟨hok, hextent⟩ := @ih (p + count) (size + count) (by omega)
      rw [writeAll, hsize, if_neg (by omega)]
      exact ⟨hok, by rw [reach, ← hextent]; rfl⟩
    | patch bytes =>
      rw [span] at hfits
      obtain ⟨hok, hextent⟩ := @ih p size hfits
      rw [writeAll]
      exact ⟨hok, by rw [reach, ← hextent]; rfl⟩

/-- The padding behind the last record. -/
def trailing {α : Type*} (size filled : α → Nat) (items : List α) : Nat :=
  (items.getLast?.map fun a => size a - filled a).getD 0

/-- Records of known sizes, of which the first bytes are filled. -/
structure Records {α : Type*} (size filled : α → Nat) (record : Nat → α → List Chunk)
    (chunks : Nat → List α → List Chunk) (items : List α) : Prop where
  nil (n : Nat) : chunks n [] = []
  cons (n : Nat) (a : α) (rest : List α) : chunks n (a :: rest) = record n a ++ chunks (n + 1) rest
  span_eq (n : Nat) : ∀ a ∈ items, span (record n a) = size a
  reach_eq (n : Nat) {p : Nat} : 4 ≤ p → ∀ a ∈ items, reach p (record n a) = p + filled a
  filled_le : ∀ a ∈ items, filled a ≤ size a

namespace Records

variable {α : Type*} {size filled : α → Nat} {record : Nat → α → List Chunk}
  {chunks : Nat → List α → List Chunk} {a : α} {items : List α}

theorem tail (h : Records size filled record chunks (a :: items)) :
    Records size filled record chunks items where
  nil := h.nil
  cons := h.cons
  span_eq n b hb := h.span_eq n b (.tail _ hb)
  reach_eq n _ hp b hb := h.reach_eq n hp b (.tail _ hb)
  filled_le b hb := h.filled_le b (.tail _ hb)

section

variable (h : Records size filled record chunks items)

include h

theorem span_chunks (n : Nat) : span (chunks n items) = (items.map size).sum := by
  induction items generalizing n with
  | nil =>
    rw [h.nil]
    rfl
  | cons a rest ih =>
    rw [h.cons, span_append, h.span_eq n a (.head _), ih h.tail, List.map_cons,
      List.sum_cons]

/-- Records behind a word reach as far as the pointer moves, but for the last padding. -/
theorem reach_chunks (n : Nat) (hp : 4 ≤ p) :
    max p (reach p (chunks n items)) + trailing size filled items =
      p + (items.map size).sum := by
  induction items generalizing n p with
  | nil =>
    rw [h.nil]
    simp [reach, trailing]
  | cons a rest ih =>
    have hle := h.filled_le a (.head _)
    have ih := @ih (p + size a) h.tail (n + 1) (by omega)
    rw [h.cons, reach_append, h.span_eq n a (.head _),
      h.reach_eq n hp a (.head _), List.map_cons, List.sum_cons]
    cases rest with
    | nil =>
      rw [h.nil, reach]
      simp only [trailing, List.getLast?_singleton, Option.map_some, Option.getD_some,
        List.map_nil, List.sum_nil]
      omega
    | cons b rest =>
      have hlast : trailing size filled (a :: b :: rest) = trailing size filled (b :: rest) := by
        rw [trailing, List.getLast?_cons_cons]
        rfl
      have hfar : p + size a ≤ reach (p + size a) (chunks (n + 1) (b :: rest)) := by
        rw [h.cons, reach_append, h.tail.reach_eq (n + 1) (by omega) b (.head _)]
        omega
      rw [hlast]
      omega

/-- A word and the records behind it are written as a whole within a limit that is their size. -/
theorem complete {word : List UInt8} (hword : 4 ≤ word.length)
    (hlimit : word.length + (items.map size).sum < 2 ^ 32) :
    let written := writeAll (word.length + (items.map size).sum) 0 0
      (.put word.length word :: chunks 0 items)
    written.ok = true ∧
      written.extent + trailing size filled items = word.length + (items.map size).sum := by
  obtain ⟨hok, hextent⟩ := @writeAll_of_span_le (word.length + (items.map size).sum) 0 0
    (.put word.length word :: chunks 0 items)
    (by rw [span, h.span_chunks, Nat.zero_add]) hlimit
  refine ⟨hok, ?_⟩
  rw [hextent, reach, if_neg (List.ne_nil_of_length_pos (by omega)), Nat.zero_add]
  exact h.reach_chunks 0 hword

end

end Records

end Chunk

/-- A section: what is added to the running size, the word before it, what is written, and how far
the pointer moves behind the word. -/
structure Section where
  counted : Nat
  word : List UInt8
  content : Written
  advance : Nat
  deriving DecidableEq, Repr

namespace Section

def writeAll (limit : Nat) : Nat → Nat → List Section → Written
  | _, _, [] => { writes := [], ok := true }
  | p, size, s :: rest =>
    let size := wadd 32 size s.counted
    if limit < size then { writes := [], ok := false }
    else
      let here := ⟨p, s.word⟩ :: (s.content.from' (p + s.word.length)).writes
      if !s.content.ok then { writes := here, ok := false }
      else
        let more := writeAll limit (p + s.word.length + s.advance) size rest
        { writes := here ++ more.writes, ok := more.ok }

variable {limit p size : Nat} {s : Section} {sections : List Section}

theorem within_here (hword : s.word ≠ []) :
    (∀ write ∈ (⟨p, s.word⟩ :: (s.content.from' (p + s.word.length)).writes : List Write),
        write.bytes ≠ [] → write.offset + write.bytes.length ≤ limit) ↔
      p + s.word.length + s.content.extent ≤ limit := by
  rw [List.forall_mem_cons]
  constructor
  · rintro ⟨hfirst, hrest⟩
    exact (Written.from'_within_iff (hfirst hword)).mp hrest
  · intro h
    have hfirst : p + s.word.length ≤ limit := by omega
    exact ⟨fun _ => hfirst, (Written.from'_within_iff hfirst).mpr h⟩

/-- A first section that the limit passes must end within it, and so must the others if it is
written as a whole. -/
theorem within_cons (hword : s.word ≠ []) (hsize : size + s.counted < 2 ^ 32) :
    (writeAll limit p size (s :: sections)).Within limit ↔
      (size + s.counted ≤ limit → p + s.word.length + s.content.extent ≤ limit ∧
        (s.content.ok = true → (writeAll limit (p + s.word.length + s.advance)
          (size + s.counted) sections).Within limit)) := by
  rw [writeAll, wadd, Nat.mod_eq_of_lt hsize]
  dsimp only
  split
  · rename_i hover
    exact iff_of_true (by simp [Written.Within])
      (fun hfits => absurd hfits (Nat.not_le.mpr hover))
  · rename_i hfits
    rw [forall_prop_of_true (Nat.le_of_not_lt hfits)]
    split
    · rename_i hfails
      rw [Bool.not_eq_true'] at hfails
      rw [Written.Within, within_here hword, hfails]
      exact ⟨fun h => ⟨h, fun hok => absurd hok Bool.false_ne_true⟩, fun h => h.1⟩
    · rename_i hok
      rw [Bool.not_eq_true', Bool.not_eq_false] at hok
      rw [Written.Within, List.forall_mem_append, within_here hword, hok]
      exact and_congr_right fun _ => ⟨fun h _ => h, fun h => h rfl⟩

/-- The first section fits, and the others from where it ends. -/
theorem ok_cons (hsize : size + s.counted < 2 ^ 32) :
    (writeAll limit p size (s :: sections)).ok = true ↔
      size + s.counted ≤ limit ∧ s.content.ok = true ∧
        (writeAll limit (p + s.word.length + s.advance) (size + s.counted) sections).ok =
          true := by
  rw [writeAll, wadd, Nat.mod_eq_of_lt hsize]
  dsimp only
  split
  · rename_i hover
    exact iff_of_false Bool.false_ne_true fun h => absurd h.1 (Nat.not_le.mpr hover)
  · rename_i hfits
    split
    · rename_i hfails
      rw [Bool.not_eq_true'] at hfails
      exact iff_of_false Bool.false_ne_true fun h => by simp [hfails] at h
    · rename_i hok
      rw [Bool.not_eq_true', Bool.not_eq_false] at hok
      exact ⟨fun h => ⟨Nat.le_of_not_lt hfits, hok, h⟩, fun h => h.2.2⟩

end Section

end Ns3.Lib
