/-
  The serialized form of a packet
  (src/network/model/packet.cc, and the Serialize methods of nix-vector.cc,
  byte-tag-list.cc, packet-tag-list.cc, packet-metadata.cc and buffer.cc).

  A packet is five sections, each behind a word with its length: the nix-vector,
  the byte tags, the packet tags, the metadata and the buffer.  `Serialize`
  compares a running size with the limit before each section; the running size
  counts neither the words nor the padding.  The 32-bit variables are naturals
  and their arithmetic wraps; words are in the byte order of the host.
-/
import Ns3.Lib.Bytes
import Ns3.Lib.Sections
import Mathlib.Algebra.Order.BigOperators.Group.List

namespace Ns3

open Ns3.Lib

/-- `(n + 3) & (~3)`. -/
def align4 (n : Nat) : Nat := wadd 32 n 3 / 4 * 4

def word (n : Nat) : List UInt8 := (toBytes 4 n).reverse

/-! ## The nix-vector -/

structure NixVector where
  nixVector : List UInt32 := []
  used : UInt32 := 0
  totalBitSize : UInt32 := 0
  epoch : UInt32 := 0
  deriving DecidableEq, Repr

namespace NixVector

def getSerializedSize (v : NixVector) : Nat :=
  if v.totalBitSize = 0 then 4 else (4 + 4 + 4 * v.nixVector.length + 4) % 2 ^ 32

/-- The words that `Serialize` writes. -/
def words (v : NixVector) : List UInt32 :=
  v.totalBitSize ::
    if v.totalBitSize = 0 then [] else v.used :: (v.nixVector ++ [v.epoch])

def serialize (v : NixVector) (maxSize : Nat) : Written :=
  if maxSize < v.getSerializedSize then { writes := [], ok := false }
  else { writes := v.words.mapIdx fun i w => ⟨4 * i, word w.toNat⟩, ok := true }

end NixVector

/-! ## The tags -/

/-- A byte tag, as `ByteTagList::Iterator` hands it out. -/
structure ByteTagItem where
  /-- `item.tid.GetHash()` -/
  hash : UInt32
  start : UInt32
  finish : UInt32
  /-- the `item.size` bytes of the tag -/
  data : List UInt8
  deriving DecidableEq, Repr

abbrev ByteTagList : Type := List ByteTagItem

namespace ByteTagList

def getSerializedSize (tags : ByteTagList) : Nat :=
  tags.foldl (fun size item => wadd 32 (wadd 32 (wadd 32 size 4) 12) (align4 item.data.length)) 4

/-- What is written for an item, the count of those before being `n`. -/
def record (n : Nat) (item : ByteTagItem) : List Chunk :=
  [.put 4 (word item.hash.toNat), .put 4 (word item.data.length), .put 4 (word item.start.toNat),
    .put 4 (word item.finish.toNat), .put (align4 item.data.length) item.data,
    .patch (word (n + 1))]

def chunks : Nat → ByteTagList → List Chunk
  | _, [] => []
  | n, item :: rest => record n item ++ chunks (n + 1) rest

def serialize (tags : ByteTagList) (maxSize : Nat) : Written :=
  Chunk.writeAll maxSize 0 0 (.put 4 (word 0) :: chunks 0 tags)

end ByteTagList

structure PacketTagItem where
  /-- `cur->tid.GetHash()` -/
  hash : UInt32
  /-- the `cur->size` bytes of the tag -/
  data : List UInt8
  deriving DecidableEq, Repr

namespace PacketTagItem

def getSerializedSize (tags : List PacketTagItem) : Nat :=
  tags.foldl (fun size cur => wadd 32 (wadd 32 (wadd 32 size 4) 4) (align4 cur.data.length)) 4

/-- What is written for a tag, the count of those before being `n`. -/
def record (n : Nat) (cur : PacketTagItem) : List Chunk :=
  [.put 4 (word cur.data.length), .put 4 (word cur.hash.toNat),
    .put (align4 cur.data.length) cur.data, .patch (word (n + 1))]

def chunks : Nat → List PacketTagItem → List Chunk
  | _, [] => []
  | n, cur :: rest => record n cur ++ chunks (n + 1) rest

def serialize (tags : List PacketTagItem) (maxSize : Nat) : Written :=
  Chunk.writeAll maxSize 0 0 (.put 4 (word 0) :: chunks 0 tags)

end PacketTagItem

/-! ## The metadata -/

/-- A `PacketMetadata::SmallItem` with its `ExtraItem`. -/
structure MetadataItem where
  /-- the name of the type; payload, with the uid 0, has none -/
  name : Option (List UInt8)
  isBig : UInt8
  size : UInt32
  chunkUid : UInt16
  fragmentStart : UInt32
  fragmentEnd : UInt32
  packetUid : UInt64
  deriving DecidableEq, Repr

/-- `PacketMetadata`: `items` are those from `m_head` to `m_tail`, and `enable` is the
global `m_enable`. -/
structure PacketMetadata where
  packetUid : UInt64
  items : List MetadataItem := []
  enable : Bool := false
  deriving DecidableEq, Repr

namespace MetadataItem

def nameSize (item : MetadataItem) : Nat := (item.name.getD []).length

/-- What is written for an item. -/
def chunks (item : MetadataItem) : List Chunk :=
  .put 4 (word item.nameSize) ::
    ((item.name.map fun name => Chunk.put item.nameSize name).toList ++
      [.put 1 [item.isBig], .put 4 (word item.size.toNat),
        .put 2 (toBytes 2 item.chunkUid.toNat).reverse, .put 4 (word item.fragmentStart.toNat),
        .put 4 (word item.fragmentEnd.toNat), .put 8 (toBytes 8 item.packetUid.toNat).reverse])

end MetadataItem

namespace PacketMetadata

def getSerializedSize (m : PacketMetadata) : Nat :=
  if !m.enable then 8
  else m.items.foldl (fun totalSize item =>
    wadd 32 (wadd 32 totalSize (4 + item.nameSize)) (1 + 4 + 2 + 4 + 4 + 8)) 8

/-- `PacketMetadata::Serialize`, which does not look at `m_enable`. -/
def serialize (m : PacketMetadata) (maxSize : Nat) : Written :=
  Chunk.writeAll maxSize 0 0
    (.put 8 (toBytes 8 m.packetUid.toNat).reverse :: m.items.flatMap MetadataItem.chunks)

end PacketMetadata

/-! ## The buffer -/

/-- What `Buffer::Serialize` reads of a buffer. -/
structure BufferView where
  /-- `m_data->m_data` -/
  data : List UInt8
  start : Nat
  zeroAreaStart : Nat
  zeroAreaEnd : Nat
  finish : Nat
  deriving DecidableEq, Repr

namespace BufferView

def getSerializedSize (b : BufferView) : Nat :=
  wadd 32 (wadd 32 (4 + 4) (align4 (wsub 32 b.zeroAreaStart b.start)))
    (wadd 32 4 (align4 (wsub 32 b.finish b.zeroAreaEnd)))

def serialize (b : BufferView) (maxSize : Nat) : Written :=
  let dataStartLength := wsub 32 b.zeroAreaStart b.start
  let dataEndLength := wsub 32 b.finish b.zeroAreaEnd
  Chunk.writeAll maxSize 0 0
    [.put 4 (word (wsub 32 b.zeroAreaEnd b.zeroAreaStart)),
      .put 4 (word dataStartLength),
      .put (align4 dataStartLength) ((b.data.drop b.start).take dataStartLength),
      .put 4 (word dataEndLength),
      .put (align4 dataEndLength) ((b.data.drop b.zeroAreaStart).take dataEndLength)]

end BufferView

/-! ## The packet -/

/-- What `Packet::Serialize` reads of a packet. -/
structure PacketParts where
  nixVector : Option NixVector := none
  byteTagList : ByteTagList := []
  packetTagList : List PacketTagItem := []
  metadata : PacketMetadata
  buffer : BufferView
  deriving DecidableEq, Repr

namespace PacketParts

/-- A section of `size` bytes: the word before it counts itself too, and the pointer moves to
the next multiple of four. -/
def sectionOf (size : Nat) (content : Written) : Section where
  counted := size
  word := word (wadd 32 size 4)
  content := content
  advance := align4 size

/-- The section of the nix-vector.  Where there is none its word alone is written, and counted. -/
def nixSection (p : PacketParts) : Section :=
  match p.nixVector with
  | some v => sectionOf v.getSerializedSize (v.serialize v.getSerializedSize)
  | none => { counted := 4, word := word 4, content := { writes := [], ok := true }, advance := 0 }

/-- The five sections, in the order in which they are written. -/
def sections (p : PacketParts) : List Section :=
  [p.nixSection,
    sectionOf p.byteTagList.getSerializedSize
      (p.byteTagList.serialize p.byteTagList.getSerializedSize),
    sectionOf (PacketTagItem.getSerializedSize p.packetTagList)
      (PacketTagItem.serialize p.packetTagList (PacketTagItem.getSerializedSize p.packetTagList)),
    sectionOf p.metadata.getSerializedSize (p.metadata.serialize p.metadata.getSerializedSize),
    sectionOf p.buffer.getSerializedSize (p.buffer.serialize p.buffer.getSerializedSize)]

/-- `Packet::Serialize`: what it writes, and whether it returns 1. -/
def serialize (p : PacketParts) (maxSize : Nat) : Written :=
  Section.writeAll maxSize 0 0 p.sections

end PacketParts

/-! ## What the serialized form needs -/

def roundUp4 (n : Nat) : Nat := (n + 3) / 4 * 4

theorem le_roundUp4 (n : Nat) : n ≤ roundUp4 n := by
  unfold roundUp4
  omega

theorem align4_eq {n : Nat} (h : n + 3 < 2 ^ 32) : align4 n = roundUp4 n := by
  rw [align4, wadd, Nat.mod_eq_of_lt h, roundUp4]

theorem length_word (n : Nat) : (word n).length = 4 := by
  rw [word, List.length_reverse, length_toBytes]

theorem word_ne_nil (n : Nat) : word n ≠ [] := by
  intro h
  have hlength := length_word n
  rw [h] at hlength
  simp at hlength

/-- The bytes of a nix-vector in the serialized form, in numbers that do not wrap. -/
def NixVector.size (v : NixVector) : Nat :=
  if v.totalBitSize = 0 then 4 else 4 + 4 + 4 * v.nixVector.length + 4

theorem NixVector.getSerializedSize_eq {v : NixVector} (h : v.size < 2 ^ 32) :
    v.getSerializedSize = v.size := by
  rw [size] at h ⊢
  rw [getSerializedSize]
  split at h
  · rw [if_pos ‹_›, if_pos ‹_›]
  · rw [if_neg ‹_›, if_neg ‹_›, Nat.mod_eq_of_lt h]

theorem NixVector.length_words (v : NixVector) : 4 * v.words.length = v.size := by
  rw [words, size]
  split
  · rfl
  · simp only [List.length_cons, List.length_append, List.length_nil]
    omega

theorem extent_mapIdx (words : List UInt32) :
    Written.extent ⟨words.mapIdx fun i w => ⟨4 * i, word w.toNat⟩, true⟩ = 4 * words.length := by
  have hiff (limit : Nat) :
      Written.extent ⟨words.mapIdx fun i w => ⟨4 * i, word w.toNat⟩, true⟩ ≤ limit ↔
        4 * words.length ≤ limit := by
    rw [← Written.within_iff, Written.Within]
    simp only [List.mem_mapIdx]
    constructor
    · intro h
      rcases Nat.eq_zero_or_pos words.length with hzero | hpos
      · omega
      · have hlast := h _ ⟨words.length - 1, by omega, rfl⟩ (word_ne_nil _)
        rw [length_word] at hlast
        dsimp only at hlast
        omega
    · rintro h _ ⟨i, hi, rfl⟩ -
      rw [length_word]
      dsimp only
      omega
  exact Nat.le_antisymm ((hiff _).mpr le_rfl) ((hiff _).mp le_rfl)

theorem NixVector.serialize_complete (v : NixVector) :
    (v.serialize v.getSerializedSize).ok = true ∧
      (v.serialize v.getSerializedSize).extent = v.size := by
  rw [serialize, if_neg (Nat.lt_irrefl _), ← v.length_words]
  exact ⟨rfl, extent_mapIdx v.words⟩

/-- A running size that does not wrap is the sum. -/
theorem foldl_eq_sum {α : Type} {f : Nat → α → Nat} {size : α → Nat} {items : List α} {n : Nat}
    (hf : ∀ n a, n + size a < 2 ^ 32 → f n a = n + size a)
    (h : n + (items.map size).sum < 2 ^ 32) : items.foldl f n = n + (items.map size).sum := by
  induction items generalizing n with
  | nil => rfl
  | cons a rest ih =>
    rw [List.map_cons, List.sum_cons] at h ⊢
    rw [List.foldl_cons, hf n a (by omega), ih (by omega), Nat.add_assoc]

/-! ### Tags -/

section Tags

variable {α : Type} {header : Nat} {data : α → List UInt8} {tags : List α}

/-- The bytes of a tag behind `header` words, with its padding. -/
def tagSize (header : Nat) (data : List UInt8) : Nat := 4 * header + roundUp4 data.length

/-- The bytes of tags behind their count. -/
def tagsSize (header : Nat) (data : α → List UInt8) (tags : List α) : Nat :=
  4 + (tags.map fun a => tagSize header (data a)).sum

/-- The bytes of tags without the padding of the last one. -/
def tagsEnd (header : Nat) (data : α → List UInt8) (tags : List α) : Nat :=
  tagsSize header data tags -
    Chunk.trailing (fun a => tagSize header (data a)) (fun a => 4 * header + (data a).length) tags

theorem align4_tag {bytes : List UInt8} (hheader : 0 < header)
    (h : tagSize header bytes < 2 ^ 32) : align4 bytes.length = roundUp4 bytes.length := by
  have hle := le_roundUp4 bytes.length
  rw [tagSize] at h
  exact align4_eq (by omega)

theorem foldl_tags {first second : Nat} (hheader : 0 < header)
    (hwords : first + second = 4 * header) (h : tagsSize header data tags < 2 ^ 32) :
    tags.foldl (fun size a =>
      wadd 32 (wadd 32 (wadd 32 size first) second) (align4 (data a).length)) 4 =
        tagsSize header data tags := by
  refine @foldl_eq_sum _ _ (fun a => tagSize header (data a)) _ _ ?_ h
  intro n a hn
  rw [align4_tag hheader (by omega)]
  rw [tagSize] at hn ⊢
  simp only [wadd]
  omega

/-- Tags that fit 32 bits are written as a whole, up to the padding of the last one. -/
theorem tags_complete {record : Nat → α → List Chunk} {chunks : Nat → List α → List Chunk}
    (hheader : 0 < header) (hnil : ∀ n, chunks n [] = [])
    (hcons : ∀ n a rest, chunks n (a :: rest) = record n a ++ chunks (n + 1) rest)
    (hspan : ∀ n a, Chunk.span (record n a) = 4 * header + align4 (data a).length)
    (hreach : ∀ n p, 4 ≤ p → ∀ a,
      Chunk.reach p (record n a) = p + (4 * header + (data a).length))
    (h : tagsSize header data tags < 2 ^ 32) :
    let written := Chunk.writeAll (tagsSize header data tags) 0 0
      (.put 4 (word 0) :: chunks 0 tags)
    written.ok = true ∧ written.extent = tagsEnd header data tags := by
  have hrecords : Chunk.Records (fun a => tagSize header (data a))
      (fun a => 4 * header + (data a).length) record chunks tags := by
    refine ⟨hnil, hcons, fun n a ha => ?_, fun n p hp a _ => hreach n p hp a, fun a _ =>
      Nat.add_le_add_left (le_roundUp4 _) _⟩
    have hle : tagSize header (data a) ≤ (tags.map fun a => tagSize header (data a)).sum :=
      List.single_le_sum (fun _ _ => Nat.zero_le _) _ (List.mem_map_of_mem ha)
    rw [tagsSize] at h
    rw [hspan, align4_tag hheader (by omega), tagSize]
  obtain ⟨hok, hextent⟩ := hrecords.complete (Nat.le_of_eq (length_word 0).symm)
    (by rwa [length_word])
  rw [length_word] at hok hextent
  exact ⟨hok, Nat.eq_sub_of_add_eq hextent⟩

end Tags

/-! ### Metadata -/

namespace PacketMetadata

variable {m : PacketMetadata}

/-- The bytes that the metadata says it needs. -/
def size (m : PacketMetadata) : Nat :=
  if m.enable then 8 + (m.items.map fun item => 27 + item.nameSize).sum else 8

/-- The metadata says what it writes. -/
def Reported (m : PacketMetadata) : Prop := m.enable = true ∨ m.items = []

instance (m : PacketMetadata) : Decidable m.Reported := inferInstanceAs (Decidable (_ ∨ _))

theorem getSerializedSize_eq (h : m.size < 2 ^ 32) : m.getSerializedSize = m.size := by
  rw [size] at h ⊢
  rw [getSerializedSize]
  cases henable : m.enable with
  | false => rfl
  | true =>
    rw [henable] at h
    refine @foldl_eq_sum _ _ (fun item : MetadataItem => 27 + item.nameSize) _ _ ?_ h
    intro n item hn
    simp only [wadd]
    omega

theorem records (items : List MetadataItem) :
    Chunk.Records (fun item : MetadataItem => 27 + item.nameSize)
      (fun item => 27 + item.nameSize) (fun _ item => item.chunks)
      (fun _ items => items.flatMap MetadataItem.chunks) items := by
  refine ⟨fun _ => rfl, fun _ _ _ => rfl, fun _ item _ => ?_, fun _ p _ item _ => ?_,
    fun _ _ => le_rfl⟩
  · rw [MetadataItem.chunks, MetadataItem.nameSize]
    cases item.name with
    | none => rfl
    | some name =>
      simp only [Option.map_some, Option.toList_some, List.singleton_append, Chunk.span,
        Option.getD_some]
      omega
  · rw [MetadataItem.chunks, MetadataItem.nameSize]
    cases item.name with
    | none =>
      simp only [Option.map_none, Option.toList_none, List.nil_append, Option.getD_none,
        Chunk.reach, ← List.length_eq_zero_iff, length_word, List.length_reverse, length_toBytes,
        List.length_singleton, List.length_nil, OfNat.ofNat_ne_zero, one_ne_zero, if_false]
      omega
    | some name =>
      simp only [Option.map_some, Option.toList_some, List.singleton_append, Option.getD_some,
        Chunk.reach, ← List.length_eq_zero_iff, length_word, List.length_reverse, length_toBytes,
        List.length_singleton, OfNat.ofNat_ne_zero, one_ne_zero, if_false]
      split
      · omega
      · omega

theorem serialize_complete (hreported : m.Reported) (h : m.size < 2 ^ 32) :
    (m.serialize m.getSerializedSize).ok = true ∧
      (m.serialize m.getSerializedSize).extent = m.size := by
  have hsize : m.size = 8 + (m.items.map fun item => 27 + item.nameSize).sum := by
    rw [size]
    rcases hreported with henable | hitems
    · rw [henable, if_pos rfl]
    · rw [hitems]
      exact ite_self 8
  have hnone : Chunk.trailing (fun item : MetadataItem => 27 + item.nameSize)
      (fun item => 27 + item.nameSize) m.items = 0 := by
    rw [Chunk.trailing]
    cases m.items.getLast? with
    | none => rfl
    | some item => exact Nat.sub_self _
  have huid : (toBytes 8 m.packetUid.toNat).reverse.length = 8 := by
    rw [List.length_reverse, length_toBytes]
  obtain ⟨hok, hextent⟩ := @Chunk.Records.complete _ _ _ _ _ _ (records m.items)
    (toBytes 8 m.packetUid.toNat).reverse (by omega) (by omega)
  rw [huid, ← hsize] at hok hextent
  rw [getSerializedSize_eq h]
  exact ⟨hok, by rw [hnone] at hextent; exact hextent⟩

/-- Metadata that is disabled but holds items ends behind the packet uid. -/
theorem serialize_incomplete (hno : ¬m.Reported) : m.size = 8 ∧
    (m.serialize m.getSerializedSize).ok = false ∧
      (m.serialize m.getSerializedSize).extent = 8 := by
  obtain ⟨packetUid, items, enable⟩ := m
  cases enable with
  | true => exact absurd (.inl rfl) hno
  | false =>
    cases items with
    | nil => exact absurd (.inr rfl) hno
    | cons item items =>
      refine ⟨rfl, rfl, ?_⟩
      have hwrites : PacketMetadata.serialize ⟨packetUid, item :: items, false⟩
          (getSerializedSize ⟨packetUid, item :: items, false⟩) =
            ⟨[⟨0, (toBytes 8 packetUid.toNat).reverse⟩], false⟩ := rfl
      rw [hwrites]
      simp [Written.extent, ← List.length_eq_zero_iff, length_toBytes]

end PacketMetadata

namespace BufferView

/-- The bytes of a buffer: its zero area is written as a number. -/
def size (b : BufferView) : Nat :=
  12 + roundUp4 (wsub 32 b.zeroAreaStart b.start) + roundUp4 (wsub 32 b.finish b.zeroAreaEnd)

variable {b : BufferView}

theorem getSerializedSize_eq (h : b.size < 2 ^ 32) : b.getSerializedSize = b.size := by
  rw [size] at h ⊢
  have hfirst := le_roundUp4 (wsub 32 b.zeroAreaStart b.start)
  have hsecond := le_roundUp4 (wsub 32 b.finish b.zeroAreaEnd)
  rw [getSerializedSize, align4_eq (by omega), align4_eq (by omega)]
  simp only [wadd]
  omega

theorem serialize_complete (h : b.size < 2 ^ 32) :
    (b.serialize b.getSerializedSize).ok = true ∧
      (b.serialize b.getSerializedSize).extent ≤ b.size := by
  rw [getSerializedSize_eq h]
  rw [size] at h ⊢
  have hfirst := le_roundUp4 (wsub 32 b.zeroAreaStart b.start)
  have hsecond := le_roundUp4 (wsub 32 b.finish b.zeroAreaEnd)
  rw [serialize, align4_eq (by omega), align4_eq (by omega)]
  have hdata (n k : Nat) : ((b.data.drop k).take n).length ≤ n := List.length_take_le _ _
  have hone := hdata (wsub 32 b.zeroAreaStart b.start) b.start
  have htwo := hdata (wsub 32 b.finish b.zeroAreaEnd) b.zeroAreaStart
  refine ⟨(Chunk.writeAll_of_span_le ?_ h).1, ?_⟩
  · simp only [Chunk.span]
    omega
  · rw [(Chunk.writeAll_of_span_le ?_ h).2]
    · simp only [Chunk.reach, ← List.length_eq_zero_iff, length_word, OfNat.ofNat_ne_zero,
        if_false]
      split <;> split <;> omega
    · simp only [Chunk.span]
      omega

end BufferView

/-! ### The packet -/

namespace PacketParts

variable {p : PacketParts} {maxSize : Nat}

/-- The sizes of the five sections; a nix-vector that there is not has none. -/
def sizes (p : PacketParts) : List Nat :=
  [(p.nixVector.map NixVector.size).getD 0, tagsSize 4 ByteTagItem.data p.byteTagList,
    tagsSize 2 PacketTagItem.data p.packetTagList, p.metadata.size, p.buffer.size]

/-- The bytes that the serialized form needs: each section, up to a multiple of four, and the
word before it. -/
def serializedLength (p : PacketParts) : Nat := (p.sizes.map fun n => 4 + roundUp4 n).sum

/-- For each of the first four sections, the size that is compared with the limit before it is
written and where its last byte ends. -/
def bands (p : PacketParts) : List (Nat × Nat) :=
  let nix := (p.nixVector.map NixVector.size).getD 0
  let counted := (p.nixVector.map NixVector.size).getD 4
  let byteTags := tagsSize 4 ByteTagItem.data p.byteTagList
  let packetTags := tagsSize 2 PacketTagItem.data p.packetTagList
  let afterNix := 4 + roundUp4 nix
  let afterByteTags := afterNix + (4 + roundUp4 byteTags)
  let afterPacketTags := afterByteTags + (4 + roundUp4 packetTags)
  [(counted, 4 + nix),
    (counted + byteTags, afterNix + (4 + tagsEnd 4 ByteTagItem.data p.byteTagList)),
    (counted + byteTags + packetTags,
      afterByteTags + (4 + tagsEnd 2 PacketTagItem.data p.packetTagList)),
    (counted + byteTags + packetTags + p.metadata.size, afterPacketTags + (4 + p.metadata.size))]

/-- The size that is compared with the limit before the last section. -/
def counted (p : PacketParts) : Nat :=
  (p.nixVector.map NixVector.size).getD 4 + p.sizes.tail.sum

/-- The limit lies in none of the bands that the running size does not count: at or above what is
compared with it and below where the section ends, or, for the last section, below the length. -/
structure Spared (p : PacketParts) (maxSize : Nat) : Prop where
  bands : ∀ band ∈ p.bands, band.1 ≤ maxSize → band.2 ≤ maxSize
  whole : p.metadata.Reported → p.counted ≤ maxSize → p.serializedLength ≤ maxSize
  short : ¬p.metadata.Reported → maxSize < p.serializedLength

/-- **The limit is respected**: no byte is written at or beyond it, and 0 is returned
exactly when it is less than what the serialized form needs. -/
def RespectsLimit (p : PacketParts) (maxSize : Nat) : Prop :=
  (p.serialize maxSize).Within maxSize ∧
    ((p.serialize maxSize).ok = false ↔ maxSize < p.serializedLength)

/-- What is counted for a section, where its last byte ends, the size by which the pointer moves,
and when it is written as a whole. -/
structure Measured (s : Section) (counted extent size : Nat) (whole : Prop) : Prop where
  counted_eq : s.counted = counted
  word_length : s.word.length = 4
  extent_eq : s.content.extent = extent
  advance_eq : s.advance = roundUp4 size
  ok_iff : s.content.ok = true ↔ whole

theorem measured_sectionOf {n extent size : Nat} {content : Written} {whole : Prop}
    (hn : n = size) (hextent : content.extent = extent) (hok : content.ok = true ↔ whole)
    (h : size + 3 < 2 ^ 32) : Measured (sectionOf n content) size extent size whole := by
  rw [hn]
  exact ⟨rfl, length_word _, hextent, align4_eq h, hok⟩

theorem measured_nixSection (h : (p.nixVector.map NixVector.size).getD 0 + 3 < 2 ^ 32) :
    Measured p.nixSection ((p.nixVector.map NixVector.size).getD 4)
      ((p.nixVector.map NixVector.size).getD 0) ((p.nixVector.map NixVector.size).getD 0)
      True := by
  rw [nixSection]
  cases hnix : p.nixVector with
  | none => exact ⟨rfl, length_word _, rfl, rfl, iff_of_true rfl trivial⟩
  | some v =>
    rw [hnix] at h
    have hsize : v.size + 3 < 2 ^ 32 := h
    obtain ⟨hok, hextent⟩ := v.serialize_complete
    exact measured_sectionOf (NixVector.getSerializedSize_eq (by omega)) hextent
      (iff_of_true hok trivial) hsize

theorem measured_byteTags {tags : ByteTagList}
    (h : tagsSize 4 ByteTagItem.data tags + 3 < 2 ^ 32) :
    Measured (sectionOf tags.getSerializedSize (tags.serialize tags.getSerializedSize))
      (tagsSize 4 ByteTagItem.data tags) (tagsEnd 4 ByteTagItem.data tags)
      (tagsSize 4 ByteTagItem.data tags) True := by
  have hsize : tags.getSerializedSize = tagsSize 4 ByteTagItem.data tags :=
    foldl_tags (by decide) rfl (by omega)
  obtain ⟨hok, hextent⟩ := @tags_complete _ 4 ByteTagItem.data tags ByteTagList.record
    ByteTagList.chunks (by decide) (fun _ => rfl) (fun _ _ _ => rfl) (fun n item => by
      simp only [ByteTagList.record, Chunk.span]
      omega) (fun n p hp item => by
      simp only [ByteTagList.record, Chunk.reach, ← List.length_eq_zero_iff, length_word,
        OfNat.ofNat_ne_zero, if_false]
      split <;> omega) (by omega)
  rw [← hsize] at hok hextent
  exact measured_sectionOf hsize hextent (iff_of_true hok trivial) h

theorem measured_packetTags {tags : List PacketTagItem}
    (h : tagsSize 2 PacketTagItem.data tags + 3 < 2 ^ 32) :
    Measured (sectionOf (PacketTagItem.getSerializedSize tags)
        (PacketTagItem.serialize tags (PacketTagItem.getSerializedSize tags)))
      (tagsSize 2 PacketTagItem.data tags) (tagsEnd 2 PacketTagItem.data tags)
      (tagsSize 2 PacketTagItem.data tags) True := by
  have hsize : PacketTagItem.getSerializedSize tags = tagsSize 2 PacketTagItem.data tags :=
    foldl_tags (by decide) rfl (by omega)
  obtain ⟨hok, hextent⟩ := @tags_complete _ 2 PacketTagItem.data tags PacketTagItem.record
    PacketTagItem.chunks (by decide) (fun _ => rfl) (fun _ _ _ => rfl) (fun n cur => by
      simp only [PacketTagItem.record, Chunk.span]
      omega) (fun n p hp cur => by
      simp only [PacketTagItem.record, Chunk.reach, ← List.length_eq_zero_iff, length_word,
        OfNat.ofNat_ne_zero, if_false]
      split <;> omega) (by omega)
  rw [← hsize] at hok hextent
  exact measured_sectionOf hsize hextent (iff_of_true hok trivial) h

theorem measured_metadata {m : PacketMetadata} (h : m.size + 3 < 2 ^ 32) :
    Measured (sectionOf m.getSerializedSize (m.serialize m.getSerializedSize)) m.size m.size
      m.size m.Reported := by
  have hcounted := @PacketMetadata.getSerializedSize_eq m (by omega)
  by_cases hreported : m.Reported
  · obtain ⟨hok, hextent⟩ := PacketMetadata.serialize_complete hreported (by omega)
    exact measured_sectionOf hcounted hextent (iff_of_true hok hreported) h
  · obtain ⟨hsize, hfails, hextent⟩ := PacketMetadata.serialize_incomplete hreported
    rw [← hsize] at hextent
    exact measured_sectionOf hcounted hextent
      (iff_of_false (by rw [hfails]; decide) hreported) h

theorem measured_buffer {b : BufferView} (h : b.size + 3 < 2 ^ 32) :
    ∃ extent ≤ b.size, Measured
      (sectionOf b.getSerializedSize (b.serialize b.getSerializedSize)) b.size extent b.size
        True := by
  obtain ⟨hok, hextent⟩ := @BufferView.serialize_complete b (by omega)
  exact ⟨_, hextent, measured_sectionOf (BufferView.getSerializedSize_eq (by omega)) rfl
    (iff_of_true hok trivial) h⟩

theorem nixCounted_le (nixVector : Option NixVector) :
    (nixVector.map NixVector.size).getD 4 ≤ 4 + (nixVector.map NixVector.size).getD 0 := by
  cases nixVector with
  | none => exact le_rfl
  | some v => exact Nat.le_add_left _ _

/-- **Which limits `Serialize` respects**, for a packet whose serialized form fits 32 bits:
those that spare it. -/
theorem respectsLimit_iff (hrange : p.serializedLength < 2 ^ 32) :
    p.RespectsLimit maxSize ↔ p.Spared maxSize := by
  have hlength : p.serializedLength = (p.sizes.map fun n => 4 + roundUp4 n).sum := rfl
  have hround := fun n (_ : n ∈ p.sizes) => le_roundUp4 n
  have hnixCounted := nixCounted_le p.nixVector
  simp only [sizes, List.map_cons, List.map_nil, List.sum_cons, List.sum_nil,
    List.forall_mem_cons] at hlength hround
  obtain ⟨hnixRound, hbyteRound, htagRound, hmetaRound, hbufferRound, -⟩ := hround
  obtain ⟨hnixCount, hnixWord, hnixEnd, hnixMove, hnixOk⟩ := @measured_nixSection p (by omega)
  obtain ⟨hbyteCount, hbyteWord, hbyteEnd, hbyteMove, hbyteOk⟩ :=
    @measured_byteTags p.byteTagList (by omega)
  obtain ⟨htagCount, htagWord, htagEnd, htagMove, htagOk⟩ :=
    @measured_packetTags p.packetTagList (by omega)
  obtain ⟨hmetaCount, hmetaWord, hmetaEnd, hmetaMove, hmetaOk⟩ :=
    @measured_metadata p.metadata (by omega)
  obtain ⟨extent, hextent, hbufferCount, hbufferWord, hbufferEnd, hbufferMove, hbufferOk⟩ :=
    @measured_buffer p.buffer (by omega)
  have hword {s : Section} (h : s.word.length = 4) : s.word ≠ [] :=
    List.ne_nil_of_length_pos (by omega)
  have hdone {start size : Nat} : (Section.writeAll maxSize start size []).Within maxSize :=
    fun write hwrite => absurd hwrite List.not_mem_nil
  rw [RespectsLimit, ← Bool.not_eq_true, serialize, sections,
    Section.within_cons (hword hnixWord) (by omega),
    Section.within_cons (hword hbyteWord) (by omega),
    Section.within_cons (hword htagWord) (by omega),
    Section.within_cons (hword hmetaWord) (by omega),
    Section.within_cons (hword hbufferWord) (by omega), Section.ok_cons (by omega),
    Section.ok_cons (by omega), Section.ok_cons (by omega), Section.ok_cons (by omega),
    Section.ok_cons (by omega), hnixOk, hbyteOk, htagOk, hmetaOk, hbufferOk]
  have hspared : p.Spared maxSize ↔
      (∀ band ∈ p.bands, band.1 ≤ maxSize → band.2 ≤ maxSize) ∧
        (p.metadata.Reported → p.counted ≤ maxSize → p.serializedLength ≤ maxSize) ∧
          (¬p.metadata.Reported → maxSize < p.serializedLength) :=
    ⟨fun h => ⟨h.bands, h.whole, h.short⟩, fun h => ⟨h.1, h.2.1, h.2.2⟩⟩
  rw [hspared]
  simp only [hdone]
  simp only [Section.writeAll, bands, counted, sizes, List.tail_cons, List.sum_cons, List.sum_nil,
    List.forall_mem_cons, List.not_mem_nil, IsEmpty.forall_iff, true_imp_iff, true_and, and_true,
    implies_true]
  by_cases hreported : p.metadata.Reported
  · simp only [hreported, true_imp_iff, true_and, not_true, false_imp_iff, and_true]
    omega
  · simp only [hreported, false_imp_iff, false_and, and_false, not_false_iff, true_imp_iff,
      true_and, and_true, true_iff]
    omega

/-- A packet with a nix-vector of a word and a tag of five bytes: the sizes compared with the limit
are 16, 20, 40, 48 and 60, and the sections end at 20, 28, 49, 64 and 80. -/
def taggedPacket : PacketParts where
  nixVector := some { nixVector := [1], totalBitSize := 4 }
  packetTagList := [{ hash := 7, data := [1, 2, 3, 4, 5] }]
  metadata := { packetUid := 0 }
  buffer := { data := [], start := 0, zeroAreaStart := 0, zeroAreaEnd := 0, finish := 0 }

/-- A limit of 30 bytes stops before the tag; one of 48 lets it be written up to 49, and
the metadata up to 64. -/
theorem respectsLimit_iff_taggedPacket :
    taggedPacket.RespectsLimit 30 ∧ ¬taggedPacket.RespectsLimit 48 := by
  have hrange : taggedPacket.serializedLength < 2 ^ 32 := by decide
  refine ⟨(respectsLimit_iff hrange).mpr ⟨by decide, by decide, by decide⟩, fun h => ?_⟩
  have hbands := ((respectsLimit_iff hrange).mp h).bands
  exact absurd hbands (by decide)

/-- An empty packet: the sizes compared with the limit are 4, 8, 12, 20 and 32, and the
sections end at 4, 12, 20, 32 and 48. -/
def emptyPacket : PacketParts where
  metadata := { packetUid := 0 }
  buffer := { data := [], start := 0, zeroAreaStart := 0, zeroAreaEnd := 0, finish := 0 }

/-- A limit of 8 bytes for an empty packet: 12 are written. -/
theorem emptyPacket_overruns : ¬∀ (p : PacketParts) (maxSize : Nat), p.RespectsLimit maxSize := by
  intro h
  have hwithin := (Written.within_iff _).mp (h emptyPacket 8).1
  exact absurd hwithin (by decide +kernel)

end PacketParts

end Ns3
