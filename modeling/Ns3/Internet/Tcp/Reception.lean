/-
  What the reception buffer is for.

  The stream of the peer is numbered by natural numbers from its first byte on.  A
  reception keeps the stretches of it that were received and not yet delivered, and
  the offset up to which it is contiguous.  There is no sequence number here and
  nothing wraps; the buffer of `RxBuffer.lean` is related to it in
  `RxOffsets.lean`.
-/
import Ns3.Lib.Reassembly
import Ns3.Network.Packet

namespace Ns3.Tcp

open Ns3.Lib

abbrev ByteStretch : Type := Stretch UInt8

/-- The state of a reception. -/
structure Reception where
  data : List ByteStretch := []
  next : Nat := 0
  avail : Nat := 0
  deriving DecidableEq, Repr

namespace Reception

/-! ## Operations -/

/-- The offset lies in the window, which begins with the first stretch.  Without a
stretch there is no window. -/
def Open (maxBuffer : Nat) (data : List ByteStretch) (k : Nat) : Prop :=
  ∀ s ∈ data.head?, k < s.start + maxBuffer

/-- The head and the tail of a new segment trimmed to the window. -/
def fit (maxBuffer : Nat) (data : List ByteStretch) (head tail : Nat) : Nat × Nat :=
  match data with
  | [] => (head, tail)
  | first :: _ =>
    (min head (min tail (first.start + maxBuffer)), min tail (first.start + maxBuffer))

/-- What is left of a segment `[off, off + len)`: the stretches that stay, and its
head and tail. -/
def cut (maxBuffer : Nat) (r : Reception) (off len : Nat) : List ByteStretch × Nat × Nat :=
  trim r.data (fit maxBuffer r.data (max off r.next) (off + len)).1
    (fit maxBuffer r.data (max off r.next) (off + len)).2

def stored (p : Packet) (off head tail : Nat) : ByteStretch :=
  ⟨head, p.createFragment (head - off) (tail - head)⟩

/-- `new` is stored among the stretches `data`. -/
def accept (r : Reception) (data : List ByteStretch) (new : ByteStretch) : Reception :=
  { data := place new data
    next := advance (place new data) r.next
    avail := r.avail + (advance (place new data) r.next - r.next) }

/-- A segment is received; whether any of it is stored. -/
def add (maxBuffer : Nat) (r : Reception) (p : Packet) (off : Nat) : Reception × Bool :=
  let left := r.cut maxBuffer off p.length
  if left.2.2 ≤ left.2.1 then ({ r with data := left.1 }, false)
  else (r.accept left.1 (stored p off left.2.1 left.2.2), true)

/-- Up to `maxSize` bytes are delivered. -/
def extract (r : Reception) (maxSize : Nat) : Reception × Option Packet :=
  let size := min maxSize r.avail
  if size = 0 then (r, none)
  else
    ({ r with data := (takeFront r.data size).2, avail := r.avail - size },
      some (takeFront r.data size).1)

/-- The peer's FIN, which occupies one offset, is passed. -/
def passFin (r : Reception) : Reception := { r with next := r.next + 1 }

/-! ## The invariant -/

variable {maxBuffer base : Nat} {r : Reception}

/-- From `base` on the reception holds what is available and the stretches after a
gap. -/
structure Sound (base : Nat) (r : Reception) : Prop where
  separate : Separate base r.data
  next : r.next = base + r.avail
  contiguous : ∀ k, base ≤ k → k < r.next → Held r.data k
  gap : ¬Held r.data r.next

theorem sound_empty (base : Nat) : Sound base { next := base } :=
  ⟨trivial, rfl, fun _ hle hlt => absurd hlt (Nat.not_lt.mpr hle), not_held_nil base⟩

theorem between_of_gap {l : List ByteStretch} {next : Nat} (h : ¬Held l next) : Between l next := by
  intro s hmem hlt
  by_contra hover
  exact h ⟨s, hmem, by omega, by omega⟩

theorem fit_spec (maxBuffer : Nat) (data : List ByteStretch) (head tail : Nat) :
    (fit maxBuffer data head tail).2 ≤ tail ∧
      ((fit maxBuffer data head tail).1 < (fit maxBuffer data head tail).2 →
        (fit maxBuffer data head tail).1 = head) ∧
      ∀ k, ((fit maxBuffer data head tail).1 ≤ k ∧ k < (fit maxBuffer data head tail).2) ↔
        (head ≤ k ∧ k < tail ∧ Open maxBuffer data k) := by
  cases data with
  | nil =>
    refine ⟨le_rfl, fun _ => rfl, fun k => ?_⟩
    simp [fit, Open]
  | cons first rest =>
    simp only [fit, Open, List.head?_cons, Option.mem_some_iff, forall_eq']
    exact ⟨by omega, by omega, fun k => by omega⟩

/-- What is left of a segment: the stretches `data` and the part `[head, tail)`. -/
structure Cuts (maxBuffer : Nat) (r : Reception) (off len : Nat) (data : List ByteStretch)
    (head tail : Nat) : Prop where
  sublist : data.Sublist r.data
  clear : ∀ k, Held data k → ¬(head ≤ k ∧ k < tail)
  held : ∀ k, (Held data k ∨ (head ≤ k ∧ k < tail)) ↔
    (Held r.data k ∨ (max off r.next ≤ k ∧ k < off + len ∧ Open maxBuffer r.data k))
  inside : head < tail → max off r.next ≤ head ∧ tail ≤ off + len
  open_below : head < tail → ∀ k < tail, Open maxBuffer r.data k
  gives_up : head < tail → ∀ s ∈ r.data, s ∉ data →
    (s.stop < off + len ∧ Open maxBuffer r.data s.stop) ∧
      ∃ k < s.start, max off r.next ≤ k ∧ ¬Held r.data k

variable {data : List ByteStretch}

theorem Open.mono {k k' : Nat} (h : Open maxBuffer data k) (hle : k' ≤ k) :
    Open maxBuffer data k' :=
  fun s hmem => hle.trans_lt (h s hmem)

theorem cuts (maxBuffer off len : Nat) (h : Separate base r.data) :
    ∃ data head tail, r.cut maxBuffer off len = (data, head, tail) ∧
      Cuts maxBuffer r off len data head tail := by
  obtain ⟨htail, hhead, hfit⟩ := fit_spec maxBuffer r.data (max off r.next) (off + len)
  unfold cut
  generalize (fit maxBuffer r.data (max off r.next) (off + len)).1 = head₀ at hhead hfit ⊢
  generalize (fit maxBuffer r.data (max off r.next) (off + len)).2 = tail₀ at htail hhead hfit ⊢
  have htrims := trims head₀ tail₀ h
  have hgives := fun s => @trim_gives_up _ base r.data s head₀ tail₀ h
  generalize trim r.data head₀ tail₀ = left at htrims hgives ⊢
  obtain ⟨data, head, tail⟩ := left
  obtain ⟨hle, hge, hsub, hclear, hheld⟩ := htrims
  dsimp only at hle hge hsub hclear hheld hgives
  refine ⟨data, head, tail, rfl, hsub, hclear, fun k => ?_, fun hlt => ?_, fun hlt k hk => ?_,
    fun hlt s hmem hgone => ?_⟩
  · rw [← hfit k]
    exact hheld k
  · have heq := hhead (by omega)
    omega
  · have hlast := ((hfit (tail₀ - 1)).mp ⟨by omega, by omega⟩).2.2
    exact hlast.mono (by omega)
  · obtain ⟨hstop, k, hk, hks, hnot⟩ := hgives _ hmem hgone
    have heq := hhead (by omega)
    have hlast := ((hfit (tail₀ - 1)).mp ⟨by omega, by omega⟩).2.2
    exact ⟨⟨by omega, hlast.mono (by omega)⟩, k, hks, by omega, hnot⟩

theorem stored_stop {p : Packet} {off head tail : Nat} (hoff : off ≤ head) (hlt : head < tail)
    (hlen : tail ≤ off + p.length) : (stored p off head tail).stop = tail := by
  simp only [stored, Stretch.stop, Packet.length_createFragment]
  omega

theorem Sound.accept {new : ByteStretch} (hnext : r.next = base + r.avail)
    (hsep : Separate base data) (hcontiguous : ∀ k, base ≤ k → k < r.next → Held data k)
    (hgap : ¬Held data r.next) (hnew : r.next ≤ new.start) (hne : new.start < new.stop)
    (hclear : ∀ k, Held data k → ¬(new.start ≤ k ∧ k < new.stop)) :
    Sound base (r.accept data new) := by
  have hplace : Separate base (place new data) := hsep.place (by omega) hne hclear
  have hbetween : Between (place new data) r.next := by
    intro s hmem hlt
    rcases mem_place.mp hmem with rfl | hin
    · omega
    · exact between_of_gap hgap s hin hlt
  obtain ⟨hle, hheld, hgap', _⟩ := advance_spec hplace hbetween
  refine ⟨hplace, ?_, fun k hk hlt => ?_, hgap'⟩
  · dsimp only [Reception.accept]
    omega
  · by_cases hold : k < r.next
    · exact held_place.mpr (.inr (hcontiguous k hk hold))
    · exact hheld k (by omega) hlt

theorem Sound.add {off : Nat} {p : Packet} (h : Sound base r) :
    Sound base (r.add maxBuffer p off).1 ∧
      ∀ k, base ≤ k → (Held (r.add maxBuffer p off).1.data k ↔
        (Held r.data k ∨ (off ≤ k ∧ k < off + p.length ∧ Open maxBuffer r.data k))) := by
  obtain ⟨data, head, tail, hcut, hsub, hclear, hheld, hinside⟩ :=
    cuts maxBuffer off p.length h.separate
  have hsep := h.separate.sublist hsub
  -- what lies before `next` is held anyway
  have hheld' : ∀ k, base ≤ k → ((Held data k ∨ (head ≤ k ∧ k < tail)) ↔
      (Held r.data k ∨ (off ≤ k ∧ k < off + p.length ∧ Open maxBuffer r.data k))) := by
    intro k hk
    rw [hheld k]
    constructor
    · rintro (hin | ⟨hle, hlt, hopen⟩)
      · exact .inl hin
      · exact .inr ⟨by omega, hlt, hopen⟩
    · rintro (hin | ⟨hle, hlt, hopen⟩)
      · exact .inl hin
      · by_cases hbehind : k < r.next
        · exact .inl (h.contiguous k hk hbehind)
        · exact .inr ⟨by omega, hlt, hopen⟩
  have hkeep : ∀ k, base ≤ k → k < r.next → Held data k := by
    intro k hk hlt
    rcases (hheld k).mpr (.inl (h.contiguous k hk hlt)) with hin | hin
    · exact hin
    · have hge := hinside (by omega)
      omega
  have hgap : ¬Held data r.next := by
    rintro ⟨s, hmem, hs⟩
    exact h.gap ⟨s, hsub.subset hmem, hs⟩
  unfold Reception.add
  rw [hcut]
  dsimp only
  split
  · rename_i hempty
    refine ⟨⟨hsep, h.next, hkeep, hgap⟩, fun k hk => ?_⟩
    rw [← hheld' k hk]
    constructor
    · exact .inl
    · rintro (hin | hin)
      · exact hin
      · omega
  · rename_i hne
    have hge := hinside (by omega)
    have hstop : (stored p off head tail).stop = tail :=
      stored_stop (by omega) (by omega) hge.2
    have hstart : (stored p off head tail).start = head := rfl
    refine ⟨.accept h.next hsep hkeep hgap (by omega) (by omega) ?_, fun k hk => ?_⟩
    · rw [hstart, hstop]
      exact hclear
    · dsimp only [Reception.accept]
      rw [held_place, hstart, hstop, or_comm]
      exact hheld' k hk

theorem le_next_add (maxBuffer off : Nat) (r : Reception) (p : Packet) :
    r.next ≤ (r.add maxBuffer p off).1.next := by
  unfold Reception.add
  dsimp only
  split
  · exact le_rfl
  · exact le_advance _ _

/-! ## The bytes themselves -/

/-- Every stretch has the bytes of the stream. -/
def Faithful (f : Nat → UInt8) (r : Reception) : Prop := ∀ s ∈ r.data, s.Of f

theorem stored_of {f : Nat → UInt8} {off len head tail : Nat} (hoff : off ≤ head)
    (hlt : head < tail) (hlen : tail ≤ off + len) :
    (stored (slice f off len) off head tail).Of f := by
  have hfrag : Packet.createFragment (slice f off len) (head - off) (tail - head) =
      slice f head (tail - head) := by
    rw [Packet.createFragment, drop_slice _ _ (by omega), take_slice _ _ (by omega)]
    congr 1
    omega
  simp only [Stretch.Of, stored, hfrag, length_slice]

theorem Faithful.add {f : Nat → UInt8} {off len : Nat} (hf : Faithful f r)
    (h : Separate base r.data) : Faithful f (r.add maxBuffer (slice f off len) off).1 := by
  obtain ⟨data, head, tail, hcut, hsub, _, _, hinside⟩ :=
    cuts maxBuffer off (slice f off len).length h
  rw [length_slice] at hinside
  unfold Reception.add
  rw [hcut]
  dsimp only
  split
  · exact fun s hmem => hf s (hsub.subset hmem)
  · rename_i hne
    have hge := hinside (by omega)
    intro s hmem
    rcases mem_place.mp hmem with rfl | hin
    · exact stored_of (by omega) (by omega) hge.2
    · exact hf s (hsub.subset hin)

theorem Sound.extract (h : Sound base r) (maxSize : Nat) :
    Sound (base + min maxSize r.avail) (r.extract maxSize).1 ∧
      (r.extract maxSize).1.next = r.next ∧
      (∀ k, Held (r.extract maxSize).1.data k ↔
        Held r.data k ∧ base + min maxSize r.avail ≤ k) ∧
      ∀ f : Nat → UInt8, Faithful f r → Faithful f (r.extract maxSize).1 ∧
        (r.extract maxSize).2.getD [] = slice f base (min maxSize r.avail) := by
  have hnext := h.next
  unfold Reception.extract
  dsimp only
  split
  · rename_i hzero
    rw [hzero]
    exact ⟨h, rfl, fun k => ⟨fun hk => ⟨hk, h.separate.le_of_held hk⟩, And.left⟩,
      fun f hf => ⟨hf, rfl⟩⟩
  · have hfront : ∀ k, base ≤ k → k < base + min maxSize r.avail → Held r.data k :=
      fun k hle hlt => h.contiguous k hle (by omega)
    obtain ⟨hsep, hheld, htaken⟩ := takeFront_spec h.separate hfront
    refine ⟨⟨hsep, ?_, fun k hle hlt => ?_, fun hin => ?_⟩, rfl, hheld, fun f hf => ?_⟩
    · dsimp only
      omega
    · exact (hheld k).mpr ⟨h.contiguous k (by omega) hlt, hle⟩
    · exact h.gap ((hheld _).mp hin).1
    · exact ⟨(htaken f hf).2, (htaken f hf).1⟩

theorem Sound.length_extract (h : Sound base r) (maxSize : Nat) :
    ((r.extract maxSize).2.getD []).length = min maxSize r.avail := by
  have hnext := h.next
  have hbelow := h.separate.heldBelow h.contiguous
  have hle := heldBelow_le r.next r.data
  unfold Reception.extract
  dsimp only
  split
  · rename_i hzero
    exact hzero.symm
  · exact (takeFront_shape h.separate (by omega)).1

end Reception

end Ns3.Tcp
