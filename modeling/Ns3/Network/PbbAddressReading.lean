/-
  What is read of address blocks that were written.

  Two addresses or more are read with the tail of the last but one, whether or not it is theirs;
  if they are all equal, head and tail overlap and reading fails.
-/
import Ns3.Network.PbbHeadTail

namespace Ns3

namespace Pbb

open Lib BufferIterator

variable {k : PbbAddressLength} {rest : List UInt8}

/-! ## Heads and tails as lists -/

variable {a b : List UInt8}

theorem SameHead.take_eq {n : Nat} (h : SameHead n a b) : a.take n = b.take n := by
  refine List.ext_getElem? fun j => ?_
  rw [List.getElem?_take, List.getElem?_take]
  split
  · rename_i hj
    exact h j hj
  · rfl

theorem sameTail_iff_drop {length n : Nat} (hn : n ≤ length) :
    SameTail length n a b ↔ a.drop (length - n) = b.drop (length - n) := by
  constructor
  · intro h
    refine List.ext_getElem? fun j => ?_
    rw [List.getElem?_drop, List.getElem?_drop]
    exact h _ (by omega)
  · intro h j hj
    have hbyte : (a.drop (length - n))[j - (length - n)]? =
        (b.drop (length - n))[j - (length - n)]? := by rw [h]
    rw [List.getElem?_drop, List.getElem?_drop] at hbyte
    have hj' : length - n + (j - (length - n)) = j := by omega
    rwa [hj'] at hbyte

variable {as : List (List UInt8)}

theorem sameTail_self_of_mem {length n : Nat} {x : List UInt8} (hx : x ∈ as) :
    CommonTail length n as ↔ ∀ b ∈ as, SameTail length n x b := by
  constructor
  · intro h b hb
    exact h x hx b hb
  · intro h a ha b hb j hj
    exact (h a ha j hj).symm.trans (h b hb j hj)

/-! ## The flags -/

namespace PbbAddressBlock

variable {block : PbbAddressBlock k}

def flagBits (hasHead hasTail isZero hasSingle hasMulti : Bool) : UInt8 :=
  (if hasHead then AHAS_HEAD else 0) |||
    (if hasTail then (if isZero then AHAS_ZERO_TAIL else AHAS_FULL_TAIL) else 0) |||
    (if hasSingle then AHAS_SINGLE_PRE_LEN else if hasMulti then AHAS_MULTI_PRE_LEN else 0)

theorem flagBits_spec : ∀ hasHead hasTail isZero hasSingle hasMulti,
    let flags := flagBits hasHead hasTail isZero hasSingle hasMulti
    hasFlag flags AHAS_HEAD = hasHead ∧
      ((flags &&& AHAS_FULL_TAIL) ^^^ (flags &&& AHAS_ZERO_TAIL) != 0) = hasTail ∧
      hasFlag flags AHAS_FULL_TAIL = (hasTail && !isZero) ∧
      hasFlag flags AHAS_SINGLE_PRE_LEN = hasSingle ∧
      hasFlag flags AHAS_MULTI_PRE_LEN = (!hasSingle && hasMulti) := by
  decide

theorem getPrefixFlags_eq (block : PbbAddressBlock k) :
    block.getPrefixFlags = if block.prefixes.length = 1 then AHAS_SINGLE_PRE_LEN
      else if block.prefixes.length > 1 then AHAS_MULTI_PRE_LEN else 0 := by
  rw [getPrefixFlags]
  match block.prefixes.length with
  | 0 => rfl
  | 1 => rfl
  | n + 2 =>
    rw [if_neg (by omega), if_pos (by omega)]
    rfl

/-! ## Prefixes -/

theorem readPrefixes_write (prefixes : List UInt8) :
    readPrefixes prefixes.length (prefixes ++ rest) = .ok (prefixes, rest) := by
  induction prefixes with
  | nil => rfl
  | cons prefixLength prefixes ih =>
    rw [List.length_cons, readPrefixes, List.cons_append]
    dsimp only
    rw [readU8_cons, ok_bind]
    dsimp only
    rw [ih]
    rfl

variable {flags : UInt8}

theorem readPrefixPart_write {numaddr : Nat} {prefixes : List UInt8}
    (hsingle : hasFlag flags AHAS_SINGLE_PRE_LEN = decide (prefixes.length = 1))
    (hmulti : hasFlag flags AHAS_MULTI_PRE_LEN =
      (!decide (prefixes.length = 1) && decide (prefixes.length > 1)))
    (hcount : prefixes.length = 0 ∨ prefixes.length = 1 ∨ prefixes.length = numaddr) :
    readPrefixPart flags numaddr (prefixes ++ rest) = .ok (prefixes, rest) := by
  rw [readPrefixPart, hsingle, hmulti]
  rcases Nat.lt_trichotomy prefixes.length 1 with hnone | hone | hmany
  · have hnil : prefixes = [] := List.length_eq_zero_iff.mp (by omega)
    subst hnil
    rfl
  · rw [decide_eq_true hone, if_pos rfl]
    have hread : readPrefixes prefixes.length (prefixes ++ rest) = .ok (prefixes, rest) :=
      readPrefixes_write prefixes
    rwa [hone] at hread
  · have hnum : prefixes.length = numaddr := by omega
    rw [decide_eq_false (show ¬prefixes.length = 1 by omega), if_neg Bool.false_ne_true,
      decide_eq_true hmany, ← hnum]
    exact readPrefixes_write prefixes

/-! ## The address being put together -/

variable {head tail : List UInt8}

theorem readInto_write {addrtmp bytes : List UInt8} {offset : Nat}
    (h : offset + bytes.length ≤ addrtmp.length) :
    readInto addrtmp offset bytes.length (bytes ++ rest) =
      .ok (addrtmp.take offset ++ bytes ++ addrtmp.drop (offset + bytes.length), rest) := by
  rw [readInto, if_pos h, read_append rfl]
  rfl

theorem readInto_between {mid mid' : List UInt8} (hlen : mid.length = mid'.length) :
    readInto (head ++ mid ++ tail) head.length mid'.length (mid' ++ rest) =
      .ok (head ++ mid' ++ tail, rest) := by
  have hfit : head.length + mid'.length ≤ (head ++ mid ++ tail).length := by
    rw [List.length_append, List.length_append]
    omega
  have hafter : (head ++ mid ++ tail).drop (head.length + mid'.length) = tail := by
    have hsum : head.length + mid'.length = (head ++ mid).length := by
      rw [List.length_append, hlen]
    rw [hsum, List.drop_left]
  rw [readInto_write hfit, hafter, List.append_assoc head mid tail, List.take_left]

theorem toNat_ofInt (x : Int) : (UInt32.ofInt x).toNat = (x % 2 ^ 32).toNat := by
  rw [UInt32.ofInt, UInt32.toNat_ofNat']
  omega

theorem toNat_midSize {headlen taillen : Nat} (h : headlen + taillen ≤ k.addressLength) :
    (UInt32.ofInt ((k.addressLength : Int) - headlen - taillen)).toNat =
      k.addressLength - headlen - taillen := by
  have hsize : ((k.addressLength : Int) - headlen - taillen) =
      ((k.addressLength - headlen - taillen : Nat) : Int) := by omega
  have hbound : k.addressLength < 2 ^ 32 := by cases k <;> decide
  rw [hsize, toNat_ofInt]
  omega

theorem readMids_write {size : Nat} (mids : List (List UInt8))
    (hfit : head.length + size + tail.length = k.addressLength)
    (hmids : ∀ mid ∈ mids, mid.length = size) {mid : List UInt8} (hmid : mid.length = size) :
    readMids k head.length tail.length mids.length (head ++ mid ++ tail)
      (mids.flatMap id ++ rest) =
        .ok (mids.map fun mid => k.deserializeAddress (head ++ mid ++ tail), rest) := by
  induction mids generalizing mid with
  | nil => rfl
  | cons mid' mids ih =>
    have hmid' : mid'.length = size := hmids mid' (.head _)
    have hsize : (UInt32.ofInt ((k.addressLength : Int) - head.length - tail.length)).toNat =
        mid'.length := by
      rw [toNat_midSize (by omega)]
      omega
    have hrest := ih (fun m hm => hmids m (.tail _ hm)) hmid'
    have hbetween : readInto (head ++ mid ++ tail) head.length mid'.length
        (mid' ++ (mids.flatMap id ++ rest)) =
          .ok (head ++ mid' ++ tail, mids.flatMap id ++ rest) :=
      readInto_between (hmid.trans hmid'.symm)
    rw [List.length_cons, readMids, List.flatMap_cons, id_eq, List.append_assoc mid']
    dsimp only
    rw [hsize, hbetween, ok_bind]
    dsimp only
    rw [hrest]
    rfl

/-! ## Head and tail -/

def headBytes (s : HeadTail) : List UInt8 :=
  if s.headlen > 0 then UInt8.ofNat s.headlen :: s.head else []

def tailBytes (length : Nat) (s : HeadTail) : List UInt8 :=
  if s.taillen > 0 then
    if hasZeroTail (s.tail length) then [UInt8.ofNat s.taillen]
    else UInt8.ofNat s.taillen :: s.tail length
  else []

theorem headTailPart_eq (block : PbbAddressBlock k) :
    block.headTailPart =
      ((if block.headTail.headlen > 0 then AHAS_HEAD else 0) |||
        (if block.headTail.taillen > 0 then
          (if hasZeroTail (block.headTail.tail k.addressLength) then AHAS_ZERO_TAIL
            else AHAS_FULL_TAIL) else 0),
        headBytes block.headTail ++ tailBytes k.addressLength block.headTail) := by
  rw [headTailPart, headBytes, tailBytes]
  dsimp only
  split
  · split
    · split
      · rfl
      · rfl
    · rfl
  · split
    · split
      · rfl
      · rfl
    · rfl

variable {s : HeadTail}

theorem length_head (hbuf : s.bufcur.length = k.addressLength)
    (hle : s.headlen ≤ k.addressLength) : s.head.length = s.headlen := by
  rw [HeadTail.head, List.length_take]
  omega

theorem length_tail (hbuf : s.bufcur.length = k.addressLength)
    (hle : s.taillen ≤ k.addressLength) : (s.tail k.addressLength).length = s.taillen := by
  rw [HeadTail.tail, List.length_take, List.length_drop]
  omega

theorem addressLength_lt (k : PbbAddressLength) : 0 < k.addressLength ∧ k.addressLength < 256 := by
  cases k <;> decide

theorem readHead_write (hbuf : s.bufcur.length = k.addressLength)
    (hle : s.headlen ≤ k.addressLength) (hflag : hasFlag flags AHAS_HEAD = decide (s.headlen > 0)) :
    readHead flags (List.replicate k.addressLength 0) (headBytes s ++ rest) =
      .ok ((s.headlen, s.head ++ List.replicate (k.addressLength - s.headlen) 0), rest) := by
  have hlength := length_head hbuf hle
  have hbound := (addressLength_lt k).2
  rw [readHead, hflag, headBytes]
  by_cases hpos : s.headlen > 0
  · have hfield : (UInt8.ofNat s.headlen).toNat = s.head.length := by
      rw [UInt8.toNat_ofNat', hlength]
      exact Nat.mod_eq_of_lt (by omega)
    have hfit : 0 + s.head.length ≤ (List.replicate k.addressLength (0 : UInt8)).length := by
      rw [List.length_replicate, hlength, Nat.zero_add]
      exact hle
    rw [decide_eq_true hpos, if_pos rfl, if_pos hpos, List.cons_append, readU8_cons, ok_bind]
    dsimp only
    rw [hfield, readInto_write hfit, ok_bind]
    dsimp only
    rw [List.take_zero, List.nil_append, Nat.zero_add, List.drop_replicate, hlength]
    rfl
  · have hzero : s.headlen = 0 := by omega
    have hnil : s.head = [] := by rw [HeadTail.head, hzero, List.take_zero]
    rw [decide_eq_false hpos, if_neg Bool.false_ne_true, if_neg hpos, hzero, hnil]
    rfl

theorem eq_replicate_of_hasZeroTail (h : hasZeroTail tail = true) :
    tail = List.replicate tail.length 0 := by
  refine List.eq_replicate_iff.mpr ⟨rfl, fun b hb => ?_⟩
  have hbyte := List.all_eq_true.mp h b hb
  simpa using hbyte

theorem readTail_write {n : Nat} (hbuf : s.bufcur.length = k.addressLength)
    (hn : head.length + n = k.addressLength) (hle : s.taillen ≤ n)
    (htail : ((flags &&& AHAS_FULL_TAIL) ^^^ (flags &&& AHAS_ZERO_TAIL) != 0) =
      decide (s.taillen > 0))
    (hfull : hasFlag flags AHAS_FULL_TAIL =
      (decide (s.taillen > 0) && !hasZeroTail (s.tail k.addressLength))) :
    readTail k flags (head ++ List.replicate n 0) (tailBytes k.addressLength s ++ rest) =
      .ok ((s.taillen, head ++ List.replicate (n - s.taillen) 0 ++ s.tail k.addressLength),
        rest) := by
  have hlength := length_tail (s := s) hbuf (by omega)
  have hbound := (addressLength_lt k).2
  rw [readTail, htail, hfull, tailBytes]
  by_cases hpos : s.taillen > 0
  · have hfield : (UInt8.ofNat s.taillen).toNat = s.taillen := by
      rw [UInt8.toNat_ofNat']
      exact Nat.mod_eq_of_lt (by omega)
    rw [decide_eq_true hpos, if_pos rfl, if_pos hpos]
    cases hzero : hasZeroTail (s.tail k.addressLength) with
    | true =>
      have hzeros : List.replicate n (0 : UInt8) =
          List.replicate (n - s.taillen) 0 ++ s.tail k.addressLength := by
        rw [eq_replicate_of_hasZeroTail hzero, hlength, List.replicate_append_replicate,
          Nat.sub_add_cancel hle]
      rw [if_pos rfl, List.cons_append, List.nil_append, readU8_cons, ok_bind]
      dsimp only
      rw [hfield, hzeros, ← List.append_assoc]
      rfl
    | false =>
      have hstart : k.addressLength - (s.tail k.addressLength).length =
          (head ++ List.replicate (n - s.taillen) 0).length := by
        rw [hlength, List.length_append, List.length_replicate]
        omega
      have hsplit : head ++ List.replicate n (0 : UInt8) =
          head ++ List.replicate (n - s.taillen) 0 ++ List.replicate s.taillen 0 ++ [] := by
        rw [List.append_nil, List.append_assoc, List.replicate_append_replicate,
          Nat.sub_add_cancel hle]
      have hread : readInto (head ++ List.replicate n 0)
          (k.addressLength - (s.tail k.addressLength).length)
          (s.tail k.addressLength).length (s.tail k.addressLength ++ rest) =
            .ok (head ++ List.replicate (n - s.taillen) 0 ++ s.tail k.addressLength ++ [],
              rest) := by
        rw [hstart, hsplit]
        exact readInto_between (by rw [List.length_replicate, hlength])
      rw [if_neg Bool.false_ne_true, List.cons_append, readU8_cons, ok_bind]
      dsimp only
      rw [hfield, ← hlength, hread]
      rw [List.append_nil, hlength]
      rfl
  · have hzero : s.taillen = 0 := by omega
    have hnil : s.tail k.addressLength = [] := by rw [HeadTail.tail, hzero, List.take_zero]
    rw [decide_eq_false hpos, if_neg Bool.false_ne_true, if_neg hpos, hzero, hnil,
      List.append_nil]
    rfl

/-! ## Address blocks -/

/-- At most 255 addresses, none, one or as many prefixes, and a well-formed TLV block. -/
structure WellFormed (block : PbbAddressBlock k) : Prop where
  addresses : block.addresses.length ≤ 255
  prefixes : block.prefixes.length = 0 ∨ block.prefixes.length = 1 ∨
    block.prefixes.length = block.addresses.length
  tlvs : PbbTlvBlock.WellFormed block.addressTlvs

/-- An address as it is read: between the head and the tail that were written. -/
def between (length : Nat) (s : HeadTail) (buffer : List UInt8) : List UInt8 :=
  s.head ++ (buffer.drop s.headlen).take (length - s.headlen - s.taillen) ++ s.tail length

/-- The addresses and the prefixes as they are read, if reading succeeds. -/
def receivedAddresses (block : PbbAddressBlock k) : Option (List k.Address × List UInt8) :=
  match block.addresses with
  | [] => some ([], [])
  | [address] => some ([address], block.prefixes)
  | _ =>
    if block.headTail.headlen = k.addressLength then none
    else some (block.buffers.map fun buffer =>
      k.deserializeAddress (between k.addressLength block.headTail buffer), block.prefixes)

/-- The block as it is read, if reading succeeds. -/
def received (block : PbbAddressBlock k) : Option (PbbAddressBlock k) :=
  block.receivedAddresses.map fun part =>
    ⟨part.1, part.2, PbbTlvBlock.received block.addressTlvs⟩

theorem two_le_split {α : Type} {as : List α} (h : 2 ≤ as.length) :
    ∃ init x y, as = init ++ [x, y] := by
  obtain ⟨init', y, rfl⟩ : ∃ init' y, as = init' ++ [y] :=
    ⟨as.dropLast, as.getLast (by rintro rfl; simp at h), (List.dropLast_concat_getLast _).symm⟩
  have hne : init' ≠ [] := by
    rintro rfl
    simp at h
  refine ⟨init'.dropLast, init'.getLast hne, y, ?_⟩
  conv => lhs; rw [← List.dropLast_concat_getLast hne]
  simp

variable {buffer : List UInt8}

theorem buffers_width (h : buffer ∈ block.buffers) : buffer.length = k.addressLength := by
  obtain ⟨address, -, rfl⟩ := List.mem_map.mp h
  exact PbbAddressLength.length_serializeAddress k address

theorem found_headTail (h : 2 ≤ block.addresses.length) :
    ∃ init x y, block.buffers = init ++ [x, y] ∧
      Found k.addressLength block.buffers x y block.headTail := by
  have hlen : 2 ≤ block.buffers.length := by
    rw [buffers, List.length_map]
    exact h
  obtain ⟨init, x, y, hsplit⟩ := two_le_split hlen
  refine ⟨init, x, y, hsplit, ?_⟩
  have hfound := found_getHeadTail (x := x) (y := y) (addressLength_lt k).1 init fun a ha =>
    buffers_width (hsplit ▸ ha)
  rw [headTail, hsplit]
  exact hfound

theorem headTail_bounds (h : 2 ≤ block.addresses.length) :
    block.headTail.bufcur.length = k.addressLength ∧
      block.headTail.headlen ≤ k.addressLength ∧ block.headTail.taillen ≤ k.addressLength := by
  obtain ⟨init, x, y, hsplit, hfound⟩ := found_headTail h
  have hx : x ∈ block.buffers := by
    rw [hsplit]
    simp
  refine ⟨?_, hfound.headlen_le, ?_⟩
  · rw [hfound.bufcur]
    exact buffers_width hx
  · rcases Nat.lt_or_ge block.headTail.headlen k.addressLength with hlt | hge
    · have := hfound.apart hlt
      omega
    · rw [hfound.whole (Nat.le_antisymm hfound.headlen_le hge)]

variable {held : UInt8}

theorem addressPart_eq (h : 2 ≤ block.addresses.length) :
    block.addressPart held = (block.headTailPart.1 ||| block.getPrefixFlags,
      block.headTailPart.2 ++ block.mids ++ block.prefixes) := by
  rw [addressPart]
  match hmatch : block.addresses with
  | [] => simp [hmatch] at h
  | [address] => simp [hmatch] at h
  | _ :: _ :: _ => rfl

theorem receivedAddresses_eq (h : 2 ≤ block.addresses.length) :
    block.receivedAddresses = if block.headTail.headlen = k.addressLength then none
      else some (block.buffers.map fun buffer =>
        k.deserializeAddress (between k.addressLength block.headTail buffer), block.prefixes) := by
  rw [receivedAddresses]
  match hmatch : block.addresses with
  | [] => simp [hmatch] at h
  | [address] => simp [hmatch] at h
  | _ :: _ :: _ => rfl

theorem mids_eq (hroom : block.headTail.taillen + block.headTail.headlen < k.addressLength) :
    block.mids = (block.buffers.map fun buffer => (buffer.drop block.headTail.headlen).take
      (k.addressLength - block.headTail.headlen - block.headTail.taillen)).flatMap id := by
  rw [mids, if_pos (by omega), List.flatMap_map]
  rfl

theorem readAddresses_many (h : 2 ≤ block.addresses.length)
    (hcount : block.prefixes.length = 0 ∨ block.prefixes.length = 1 ∨
      block.prefixes.length = block.addresses.length) :
    Outcome (readAddresses k (block.addressPart held).1 block.addresses.length
      ((block.addressPart held).2 ++ rest)) rest block.receivedAddresses := by
  obtain ⟨init, x, y, hsplit, hfound⟩ := found_headTail h
  obtain ⟨hbuf, hhead, htail⟩ := headTail_bounds h
  have hpart := block.headTailPart_eq
  have hflags : (block.addressPart held).1 = flagBits (decide (block.headTail.headlen > 0))
      (decide (block.headTail.taillen > 0))
      (hasZeroTail (block.headTail.tail k.addressLength))
      (decide (block.prefixes.length = 1)) (decide (block.prefixes.length > 1)) := by
    rw [addressPart_eq h, hpart, getPrefixFlags_eq, flagBits]
    simp only [decide_eq_true_eq]
  obtain ⟨hisHead, hisTail, hisFull, hisSingle, hisMulti⟩ := flagBits_spec
    (decide (block.headTail.headlen > 0)) (decide (block.headTail.taillen > 0))
    (hasZeroTail (block.headTail.tail k.addressLength))
    (decide (block.prefixes.length = 1)) (decide (block.prefixes.length > 1))
  rw [← hflags] at hisHead hisTail hisFull hisSingle hisMulti
  have hbytes : (block.addressPart held).2 ++ rest = headBytes block.headTail ++
      (tailBytes k.addressLength block.headTail ++ (block.mids ++ (block.prefixes ++ rest))) := by
    rw [addressPart_eq h, hpart]
    simp only [List.append_assoc]
  rw [hbytes, readAddresses]
  dsimp only
  rw [readHead_write hbuf hhead hisHead, ok_bind]
  dsimp only
  rw [receivedAddresses_eq h]
  have hlength := length_head hbuf hhead
  by_cases hequal : block.headTail.headlen = k.addressLength
  · -- all the addresses are equal: the middles have a negative size
    have hwhole := hfound.whole hequal
    obtain ⟨flags, hflags'⟩ : ∃ flags, flags = (block.addressPart held).1 := ⟨_, rfl⟩
    have hpos := (addressLength_lt k).1
    have hlong := (addressLength_lt k).2
    rw [if_pos hequal]
    rw [hequal, Nat.sub_self, List.replicate_zero, List.append_nil]
    -- the tail is read over the head
    have hreadTail : ∃ addrtmp start,
        readTail k (block.addressPart held).1 block.headTail.head
          (tailBytes k.addressLength block.headTail ++ (block.mids ++ (block.prefixes ++ rest))) =
            .ok ((k.addressLength, addrtmp), start) ∧ addrtmp.length = k.addressLength := by
      have hfield : (UInt8.ofNat block.headTail.taillen).toNat = k.addressLength := by
        rw [UInt8.toNat_ofNat', hwhole]
        exact Nat.mod_eq_of_lt (by omega)
      have hsome : block.headTail.taillen > 0 := by omega
      rw [readTail, hisTail, decide_eq_true hsome, if_pos rfl, tailBytes, if_pos hsome, hisFull,
        decide_eq_true hsome, Bool.true_and]
      cases hzero : hasZeroTail (block.headTail.tail k.addressLength) with
      | true =>
        rw [if_pos rfl, List.cons_append, readU8_cons, ok_bind]
        dsimp only
        rw [hfield]
        exact ⟨block.headTail.head, _, rfl, by rw [hlength, hequal]⟩
      | false =>
        have htailLength := length_tail hbuf htail
        have hread := @readInto_write (block.mids ++ (block.prefixes ++ rest))
          block.headTail.head (block.headTail.tail k.addressLength) 0 (by omega)
        rw [htailLength, hwhole] at hread
        rw [if_neg Bool.false_ne_true, List.cons_append, readU8_cons, ok_bind]
        dsimp only
        rw [hfield, Nat.sub_self, hread]
        refine ⟨_, _, rfl, ?_⟩
        rw [List.length_append, List.length_append, List.length_take, List.length_drop,
          htailLength, hlength]
        omega
    obtain ⟨addrtmp, start, hread, haddrtmp⟩ := hreadTail
    obtain ⟨n, hn⟩ : ∃ n, block.addresses.length = n + 1 := ⟨block.addresses.length - 1, by omega⟩
    have hnegative : ¬k.addressLength +
        (UInt32.ofInt ((k.addressLength : Int) - k.addressLength - k.addressLength)).toNat ≤
          addrtmp.length := by
      rw [toNat_ofInt, haddrtmp]
      omega
    rw [hread, ok_bind]
    dsimp only
    rw [hn, readMids]
    dsimp only
    rw [readInto, if_neg hnegative]
    exact ⟨.badIterator, rfl⟩
  · have hroom := hfound.apart (Nat.lt_of_le_of_ne hhead hequal)
    have hn : block.headTail.head.length +
        (k.addressLength - block.headTail.headlen) = k.addressLength := by omega
    have htailLength := length_tail hbuf htail
    rw [if_neg hequal, readTail_write hbuf hn (by omega) hisTail hisFull, ok_bind]
    dsimp only
    have hmids := @readMids_write k (block.prefixes ++ rest)
      block.headTail.head (block.headTail.tail k.addressLength)
      (k.addressLength - block.headTail.headlen - block.headTail.taillen)
      (block.buffers.map fun buffer => (buffer.drop block.headTail.headlen).take
        (k.addressLength - block.headTail.headlen - block.headTail.taillen))
      (by omega)
      (by
        intro mid hmid
        obtain ⟨buffer, hbuffer, rfl⟩ := List.mem_map.mp hmid
        rw [List.length_take, List.length_drop, buffers_width hbuffer]
        omega)
      (List.replicate (k.addressLength - block.headTail.headlen - block.headTail.taillen) 0)
      List.length_replicate
    rw [← mids_eq hroom, List.length_map, buffers, List.length_map, hlength, htailLength] at hmids
    rw [hmids, ok_bind]
    dsimp only
    rw [readPrefixPart_write hisSingle hisMulti hcount, buffers, List.map_map]
    rfl

theorem readAddresses_one {address : k.Address} (h : block.addresses = [address])
    (hcount : block.prefixes.length = 0 ∨ block.prefixes.length = 1) :
    readAddresses k (block.addressPart held).1 1 ((block.addressPart held).2 ++ rest) =
      .ok (([address], block.prefixes), rest) := by
  have hpart : block.addressPart held =
      (flagBits false false false (decide (block.prefixes.length = 1)) false,
        k.serializeAddress address ++ block.prefixes) := by
    rw [addressPart, h]
    rcases hcount with hzero | hone
    · rw [List.length_eq_zero_iff.mp hzero, List.append_nil]
      rfl
    · obtain ⟨prefixFront, hsole⟩ := List.length_eq_one_iff.mp hone
      have hflags : flagBits false false false true false = AHAS_SINGLE_PRE_LEN := by decide
      rw [decide_eq_true hone, hflags, hsole]
  obtain ⟨hisHead, hisTail, -, hisSingle, hisMulti⟩ :=
    flagBits_spec false false false (decide (block.prefixes.length = 1)) false
  have hmids := @readMids_write k (block.prefixes ++ rest) [] [] k.addressLength
    [k.serializeAddress address] (by simp) (by simp)
    (List.replicate k.addressLength 0) List.length_replicate
  simp only [List.nil_append, List.append_nil, List.length_nil, List.length_singleton,
    List.flatMap_cons, List.flatMap_nil, id_eq, List.map_cons, List.map_nil,
    PbbAddressLength.deserializeAddress_serialize] at hmids
  rw [hpart, readAddresses, List.append_assoc]
  dsimp only
  rw [readHead, hisHead, if_neg Bool.false_ne_true]
  dsimp only [pure, Except.pure]
  rw [ok_bind]
  dsimp only
  rw [readTail, hisTail, if_neg Bool.false_ne_true]
  dsimp only [pure, Except.pure]
  rw [ok_bind]
  dsimp only
  rw [hmids, ok_bind]
  dsimp only
  rw [readPrefixPart_write hisSingle (by
    rw [hisMulti]
    rcases hcount with hzero | hone
    · rw [hzero]; rfl
    · rw [hone]; rfl) (hcount.imp id .inl)]
  rfl

theorem readsAs_deserialize (h : block.WellFormed) :
    ReadsAs (deserialize k) (block.serialize held) block.received := by
  intro rest
  have hfield : (UInt8.ofNat block.addresses.length).toNat = block.addresses.length := by
    rw [UInt8.toNat_ofNat']
    exact Nat.mod_eq_of_lt (by have := h.addresses; omega)
  have hpart : Outcome
      (readAddressPart k (block.addressPart held).1 (UInt8.ofNat block.addresses.length)
        ((block.addressPart held).2 ++ (PbbTlvBlock.serialize block.addressTlvs ++ rest)))
      (PbbTlvBlock.serialize block.addressTlvs ++ rest) block.receivedAddresses := by
    rw [readAddressPart, hfield]
    match hmatch : block.addresses with
    | [] =>
      have hnone : block.receivedAddresses = some ([], []) := by rw [receivedAddresses, hmatch]
      have hbytes : (block.addressPart held).2 = [] := by rw [addressPart, hmatch]
      rw [hnone, hbytes]
      rfl
    | [address] =>
      have hone : block.receivedAddresses = some ([address], block.prefixes) := by
        rw [receivedAddresses, hmatch]
      have hcount := h.prefixes
      rw [hmatch, List.length_singleton, or_self] at hcount
      rw [hone]
      exact readAddresses_one hmatch hcount
    | a :: b :: others =>
      have htwo : 2 ≤ block.addresses.length := by
        rw [hmatch]
        simp
      have hgo : UInt8.ofNat (a :: b :: others).length > 0 := by
        rw [gt_iff_lt, UInt8.lt_iff_toNat_lt, ← hmatch, hfield]
        exact Nat.two_pos.trans_le htwo
      rw [if_pos hgo, ← hmatch]
      exact readAddresses_many htwo h.prefixes
  have htlvs : PbbTlvBlock.deserialize (PbbTlvBlock.serialize block.addressTlvs ++ rest) =
      .ok (PbbTlvBlock.received block.addressTlvs, rest) :=
    PbbTlvBlock.readsAs_deserialize h.tlvs rest
  rw [serialize, deserialize]
  simp only [List.append_assoc, List.cons_append, List.nil_append]
  rw [readU8_cons, ok_bind]
  dsimp only
  rw [readU8_cons, ok_bind]
  dsimp only
  rw [received, Option.map_eq_bind]
  refine hpart.bind fun part _ => ?_
  dsimp only
  rw [htlvs]
  rfl

/-! ## When an address block is read back -/

/-- The addresses are not all equal, and the tail of the last two is that of all. -/
def Distinguishes (block : PbbAddressBlock k) : Prop :=
  (∃ a ∈ block.buffers, ∃ b ∈ block.buffers, a ≠ b) ∧
    ∀ init x y, block.buffers = init ++ [x, y] →
      TailCommon k.addressLength block.buffers x y

/-- What must hold of a block so that it is read back: no prefix without an address, addresses that
can be told apart, and no multivalue TLV. -/
structure ReadBack (block : PbbAddressBlock k) : Prop where
  prefixes : block.addresses = [] → block.prefixes = []
  addresses : 2 ≤ block.addresses.length → block.Distinguishes
  tlvs : ∀ tlv ∈ block.addressTlvs, tlv.isMultivalue = false

theorem between_eq_self (hhead : CommonHead s.headlen as) (hbuf : s.bufcur ∈ as)
    (hmem : buffer ∈ as) (hwidth : ∀ a ∈ as, a.length = k.addressLength)
    (hroom : s.taillen + s.headlen < k.addressLength) :
    between k.addressLength s buffer = buffer ↔
      SameTail k.addressLength s.taillen s.bufcur buffer := by
  have hlen := hwidth buffer hmem
  have hcur := hwidth s.bufcur hbuf
  have hhead' : s.head = buffer.take s.headlen := (hhead _ hbuf _ hmem).take_eq
  have htail' : s.tail k.addressLength = s.bufcur.drop (k.addressLength - s.taillen) := by
    rw [HeadTail.tail, List.take_of_length_le]
    rw [List.length_drop]
    omega
  have hsplit : buffer = buffer.take s.headlen ++
      (buffer.drop s.headlen).take (k.addressLength - s.headlen - s.taillen) ++
        buffer.drop (k.addressLength - s.taillen) := by
    have hsum : k.addressLength - s.taillen =
        s.headlen + (k.addressLength - s.headlen - s.taillen) := by omega
    rw [hsum, ← List.take_add, List.take_append_drop]
  rw [sameTail_iff_drop (by omega), between, hhead', htail']
  constructor
  · intro h
    exact List.append_cancel_left (h.trans hsplit)
  · intro h
    rw [h]
    exact hsplit.symm

theorem receivedAddresses_eq_self (h : 2 ≤ block.addresses.length) :
    block.receivedAddresses = some (block.addresses, block.prefixes) ↔ block.Distinguishes := by
  obtain ⟨init, x, y, hsplit, hfound⟩ := found_headTail h
  have hx : x ∈ block.buffers := by
    rw [hsplit]
    simp
  have hcommon : (∀ init x y, block.buffers = init ++ [x, y] →
      TailCommon k.addressLength block.buffers x y) ↔
        TailCommon k.addressLength block.buffers x y := by
    constructor
    · exact fun hall => hall init x y hsplit
    · intro htail init' x' y' hsplit'
      have hlast := List.append_inj_right' (hsplit.symm.trans hsplit') rfl
      simp only [List.cons.injEq, and_true] at hlast
      rw [← hlast.1, ← hlast.2]
      exact htail
  have hdiffer : (∃ a ∈ block.buffers, ∃ b ∈ block.buffers, a ≠ b) ↔
      block.headTail.headlen ≠ k.addressLength := by
    rw [Ne, hfound.equal]
    push Not
    rfl
  rw [Distinguishes, hdiffer, hcommon, receivedAddresses_eq h]
  by_cases hequal : block.headTail.headlen = k.addressLength
  · rw [if_pos hequal]
    exact iff_of_false nofun fun hboth => hboth.1 hequal
  · have hlt := Nat.lt_of_le_of_ne hfound.headlen_le hequal
    have hbufcur : block.headTail.bufcur ∈ block.buffers := by
      rw [hfound.bufcur]
      exact hx
    rw [if_neg hequal, Option.some.injEq, Prod.mk.injEq, and_iff_left rfl,
      and_iff_right hequal, ← hfound.common_iff hlt, sameTail_self_of_mem hbufcur]
    have hback : block.buffers.map (fun buffer => k.deserializeAddress
        (between k.addressLength block.headTail buffer)) = block.addresses ↔
          ∀ buffer ∈ block.buffers, between k.addressLength block.headTail buffer = buffer := by
      have hself : block.addresses = block.buffers.map k.deserializeAddress := by
        rw [buffers, List.map_map]
        refine (List.map_id block.addresses).symm.trans (List.map_congr_left fun a _ => ?_)
        exact (PbbAddressLength.deserializeAddress_serialize k a).symm
      have hiff := List.map_inj_left (l := block.buffers)
        (f := fun buffer => k.deserializeAddress
          (between k.addressLength block.headTail buffer)) (g := k.deserializeAddress)
      rw [← hself] at hiff
      rw [hiff]
      refine forall₂_congr fun buffer hbuffer => ⟨fun heq => ?_, fun heq => by rw [heq]⟩
      have hwidth : (between k.addressLength block.headTail buffer).length = k.addressLength := by
        have hbounds := headTail_bounds h
        rw [between, List.length_append, List.length_append, length_head hbounds.1 hbounds.2.1,
          length_tail hbounds.1 hbounds.2.2, List.length_take, List.length_drop,
          buffers_width hbuffer]
        have := hfound.apart hlt
        omega
      have hbytes := congrArg k.serializeAddress heq
      rwa [PbbAddressLength.serializeAddress_deserialize hwidth,
        PbbAddressLength.serializeAddress_deserialize (buffers_width hbuffer)] at hbytes
    rw [hback]
    exact forall₂_congr fun buffer hbuffer => between_eq_self hfound.head hbufcur hbuffer
      (fun a ha => buffers_width ha) (hfound.apart hlt)

theorem received_eq_self (block : PbbAddressBlock k) :
    block.received = some block ↔ block.ReadBack := by
  have hparts : block.received = some block ↔
      block.receivedAddresses = some (block.addresses, block.prefixes) ∧
        PbbTlvBlock.received block.addressTlvs = block.addressTlvs := by
    rw [received]
    cases hpart : block.receivedAddresses with
    | none => simp
    | some part =>
      obtain ⟨addresses, prefixes⟩ := part
      obtain ⟨addresses', prefixes', addressTlvs'⟩ := block
      simp [and_assoc]
  rw [hparts, PbbTlvBlock.received_eq_self]
  have haddresses : block.receivedAddresses = some (block.addresses, block.prefixes) ↔
      (block.addresses = [] → block.prefixes = []) ∧
        (2 ≤ block.addresses.length → block.Distinguishes) := by
    match hmatch : block.addresses with
    | [] =>
      rw [receivedAddresses, hmatch]
      simp [eq_comm]
    | [address] =>
      rw [receivedAddresses, hmatch]
      simp
    | a :: b :: others =>
      have htwo : 2 ≤ block.addresses.length := by
        rw [hmatch]
        simp
      rw [← hmatch, receivedAddresses_eq_self htwo]
      have hne : block.addresses ≠ [] := by
        rw [hmatch]
        simp
      exact ⟨fun h => ⟨fun hnil => absurd hnil hne, fun _ => h⟩, fun h => h.2 htwo⟩
  rw [haddresses]
  exact ⟨fun h => ⟨h.1.1, h.1.2, h.2⟩, fun h => ⟨⟨h.prefixes, h.addresses⟩, h.tlvs⟩⟩

/-! ## The size of an address block -/

theorem length_mids
    (hroom : block.headTail.taillen + block.headTail.headlen < k.addressLength) :
    block.mids.length = (k.addressLength - block.headTail.headlen - block.headTail.taillen) *
      block.addresses.length := by
  have hwidth : ∀ mid ∈ block.buffers.map (fun buffer =>
      (buffer.drop block.headTail.headlen).take
        (k.addressLength - block.headTail.headlen - block.headTail.taillen)),
      mid.length = k.addressLength - block.headTail.headlen - block.headTail.taillen := by
    intro mid hmid
    obtain ⟨buffer, hbuffer, rfl⟩ := List.mem_map.mp hmid
    rw [List.length_take, List.length_drop, buffers_width hbuffer]
    omega
  have hconst (n : Nat) (mids : List (List UInt8)) (hmids : ∀ mid ∈ mids, mid.length = n) :
      (mids.flatMap id).length = n * mids.length := by
    induction mids with
    | nil => rfl
    | cons mid mids ih =>
      rw [List.flatMap_cons, List.length_append, id_eq, hmids mid (.head _),
        ih fun m hm => hmids m (.tail _ hm), List.length_cons, Nat.mul_succ,
        Nat.add_comm]
  rw [mids_eq hroom, hconst _ _ hwidth, List.length_map, buffers, List.length_map]

theorem headTailSize_eq (h : 2 ≤ block.addresses.length)
    (hroom : block.headTail.taillen + block.headTail.headlen < k.addressLength) :
    block.headTailSize = UInt32.ofNat (block.headTailPart.2 ++ block.mids).length := by
  obtain ⟨hbuf, hhead, htail⟩ := headTail_bounds h
  have hmid : UInt32.ofInt (((k.addressLength : Int) - block.headTail.headlen -
      block.headTail.taillen) * block.addresses.length) = UInt32.ofNat block.mids.length := by
    have hsize : ((k.addressLength : Int) - block.headTail.headlen - block.headTail.taillen) *
        block.addresses.length = (block.mids.length : Int) := by
      rw [length_mids hroom]
      push_cast
      congr 1
      omega
    rw [hsize]
    apply UInt32.toNat_inj.mp
    rw [toNat_ofInt, UInt32.toNat_ofNat']
    omega
  have hheadBytes : (headBytes block.headTail).length =
      if block.headTail.headlen > 0 then 1 + block.headTail.headlen else 0 := by
    rw [headBytes]
    split
    · rw [List.length_cons, length_head hbuf hhead, Nat.add_comm]
    · rfl
  have htailBytes : (tailBytes k.addressLength block.headTail).length =
      if block.headTail.taillen > 0 then
        if hasZeroTail (block.headTail.tail k.addressLength) then 1
        else 1 + block.headTail.taillen else 0 := by
    rw [tailBytes]
    split
    · split
      · rfl
      · rw [List.length_cons, length_tail hbuf htail, Nat.add_comm]
    · rfl
  rw [headTailSize, hmid, headTailPart_eq, List.length_append, List.length_append, hheadBytes,
    htailBytes, UInt32.ofNat_add, UInt32.ofNat_add]
  congr 1
  by_cases hsomeHead : block.headTail.headlen > 0
  · by_cases hsomeTail : block.headTail.taillen > 0
    · cases hzero : hasZeroTail (block.headTail.tail k.addressLength) with
      | true =>
        rw [if_pos hsomeHead, if_pos hsomeTail, if_pos hsomeHead, if_pos hsomeTail]
        simp
      | false =>
        rw [if_pos hsomeHead, if_pos hsomeTail, if_pos hsomeHead, if_pos hsomeTail]
        simp [UInt32.add_assoc]
    · rw [if_pos hsomeHead, if_neg hsomeTail, if_pos hsomeHead, if_neg hsomeTail]
      simp
  · by_cases hsomeTail : block.headTail.taillen > 0
    · cases hzero : hasZeroTail (block.headTail.tail k.addressLength) with
      | true =>
        rw [if_neg hsomeHead, if_pos hsomeTail, if_neg hsomeHead, if_pos hsomeTail]
        simp
      | false =>
        rw [if_neg hsomeHead, if_pos hsomeTail, if_neg hsomeHead, if_pos hsomeTail]
        simp
    · rw [if_neg hsomeHead, if_neg hsomeTail, if_neg hsomeHead, if_neg hsomeTail]
      simp

theorem getSerializedSize_eq (h : block.WellFormed) (hread : block.ReadBack) :
    block.getSerializedSize = UInt32.ofNat (block.serialize held).length := by
  have htlvs := PbbTlvBlock.getSerializedSize_eq h.tlvs.tlvs
  have hlen : (block.serialize held).length =
      2 + (block.addressPart held).2.length + (PbbTlvBlock.serialize block.addressTlvs).length := by
    rw [serialize, List.length_append, List.length_append]
    rfl
  rw [hlen, getSerializedSize, htlvs, UInt32.ofNat_add, UInt32.ofNat_add]
  match hmatch : block.addresses with
  | [] =>
    have hbytes : (block.addressPart held).2 = [] := by rw [addressPart, hmatch]
    rw [hbytes]
    rfl
  | [address] =>
    have hcount := h.prefixes
    rw [hmatch, List.length_singleton, or_self] at hcount
    have hbytes : (block.addressPart held).2 = k.serializeAddress address ++ block.prefixes := by
      rw [addressPart, hmatch]
      rcases hcount with hzero | hone
      · rw [List.length_eq_zero_iff.mp hzero, List.append_nil]
      · obtain ⟨prefixFront, hsole⟩ := List.length_eq_one_iff.mp hone
        rw [hsole]
    rw [hbytes, List.length_singleton, if_pos rfl, List.length_append,
      PbbAddressLength.length_serializeAddress]
    simp only [UInt32.ofNat_add, UInt32.add_assoc]
    rfl
  | a :: b :: others =>
    have htwo : 2 ≤ block.addresses.length := by
      rw [hmatch]
      simp
    obtain ⟨init, x, y, hsplit, hfound⟩ := found_headTail htwo
    have hne : block.headTail.headlen ≠ k.addressLength := by
      intro hequal
      obtain ⟨a', ha', b', hb', hdiff⟩ := (hread.addresses htwo).1
      exact hdiff (hfound.equal.mp hequal a' ha' b' hb')
    have hroom := hfound.apart (Nat.lt_of_le_of_ne hfound.headlen_le hne)
    rw [← hmatch, if_neg (by omega), if_pos (by omega), headTailSize_eq htwo hroom,
      addressPart_eq htwo]
    dsimp only
    simp only [List.length_append, UInt32.ofNat_add, UInt32.add_assoc]
    rfl

theorem four_le_length (block : PbbAddressBlock k) (held : UInt8) :
    4 ≤ (block.serialize held).length := by
  rw [serialize, List.length_append, List.length_append, PbbTlvBlock.length_serialize]
  simp only [List.length_cons, List.length_nil]
  omega

theorem length_serialize_held (block : PbbAddressBlock k) (held : UInt8) :
    (block.serialize held).length = (block.serialize 0).length := by
  rw [serialize, serialize, addressPart, addressPart]
  match block.addresses with
  | [] => rfl
  | [_] => rfl
  | _ :: _ :: _ => rfl

/-- Only a block without addresses keeps a byte of the buffer. -/
theorem serialize_held_iff (block : PbbAddressBlock k) :
    (∀ held, block.serialize held = block.serialize 0) ↔ block.addresses ≠ [] := by
  constructor
  · intro h hnil
    have hbyte := h 1
    rw [serialize, serialize, addressPart, addressPart, hnil] at hbyte
    simp at hbyte
  · intro hne held
    rw [serialize, serialize, addressPart, addressPart]
    match hmatch : block.addresses with
    | [] => exact absurd hmatch hne
    | [_] => rfl
    | _ :: _ :: _ => rfl

end PbbAddressBlock

end Pbb

end Ns3
