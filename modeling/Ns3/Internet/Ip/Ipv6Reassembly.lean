/-
  When the fragments of an IPv6 packet are put together.

  Process reads back the pieces that GetFragments wrote.  A piece that arrives twice stays
  in the list twice, and no list with it is ever entire.
-/
import Mathlib.Data.List.FinRange
import Ns3.Internet.Ip.Ipv6Pieces

namespace Ns3.Ip.V6

open Lib BufferIterator

variable {parts : Parts} {identification : UInt32} {source : Vector UInt8 16} {offset : UInt8}

/-! ## Writing and reading a piece -/

variable {f : Fragment}

def sentHeaders (parts : Parts) : Packet := addHeaders [] parts.headers

def unfragmentablePart (parts : Parts) : Packet := parts.headers.flatMap ExtensionHeader.serialize

theorem addHeaders_append (fragment : Packet) (headers : List ExtensionHeader) :
    addHeaders fragment headers = addHeaders [] headers ++ fragment := by
  induction headers using List.reverseRecOn with
  | nil => rfl
  | append_singleton headers header ih =>
    rw [addHeaders, addHeaders, List.foldl_append, List.foldl_append] at *
    change header.serialize ++ _ = header.serialize ++ _ ++ _
    rw [List.append_assoc]
    congr 1

def pieceHeader (parts : Parts) (identification : UInt32) (f : Fragment) : FragmentHeader :=
  ({ nextHeader := parts.nextHeader, identification := identification : FragmentHeader }.setOffset
    f.fragmentOffset).setMoreFragment f.moreFragment

def encode (parts : Parts) (identification : UInt32) (f : Fragment) : Packet :=
  addHeaders ((pieceHeader parts identification f).serialize ++ f.data) parts.headers

def Aligned (f : Fragment) : Prop := f.fragmentOffset < 2 ^ 16 ∧ f.fragmentOffset % 8 = 0

theorem removeFrom_serialize (h : FragmentHeader) (hoffset : h.offset < 2 ^ 16) (data : Packet) :
    FragmentHeader.removeFrom (h.serialize ++ data) = .ok (h, data) := by
  have hlength : h.serialize.length = 8 := by
    simp only [FragmentHeader.serialize, List.length_append, length_writeHtonU16,
      length_writeHtonU32, List.length_cons, List.length_nil]
  have hrest : Packet.removeAtStart (h.serialize ++ data) 8 = data := List.drop_left' hlength
  rw [FragmentHeader.removeFrom, hrest, FragmentHeader.serialize, List.append_assoc,
    List.append_assoc, List.cons_append, List.cons_append, readU8_cons, ok_bind]
  dsimp only
  rw [readU8_cons, ok_bind]
  dsimp only
  rw [List.nil_append, readNtohU16_write, ok_bind]
  dsimp only
  rw [readNtohU32_write, ok_bind, UInt16.toNat_ofNat_of_lt' hoffset]
  rfl

theorem pieceHeader_read (parts : Parts) (identification : UInt32) (hf : Aligned f) :
    (pieceHeader parts identification f).offset < 2 ^ 16 ∧
      (pieceHeader parts identification f).getOffset = f.fragmentOffset ∧
      (pieceHeader parts identification f).getMoreFragment = f.moreFragment := by
  obtain ⟨hlt, haligned⟩ := hf
  have hoffset : (pieceHeader parts identification f).offset =
      (0 % 2 + f.fragmentOffset / 8 * 8) / 2 * 2 + f.moreFragment.toNat := rfl
  have hbit : f.moreFragment.toNat ≤ 1 := Bool.toNat_le _
  rw [FragmentHeader.getOffset, FragmentHeader.getMoreFragment, hoffset]
  refine ⟨by omega, by omega, ?_⟩
  cases f.moreFragment with
  | true =>
    rw [Bool.toNat_true]
    exact decide_eq_true (by omega)
  | false =>
    rw [Bool.toNat_false]
    exact decide_eq_false (by omega)

/-! ## One arrival -/

/-- What is kept after some pieces were received. -/
def ofReceived (parts : Parts) (received : List Fragment) : Fragments where
  toFragmentList := .ofReceived received
  unfragmentable :=
    if received.any (fun f => decide (f.fragmentOffset = 0)) then some (sentHeaders parts) else none

def joined (received : List Fragment) : Packet := (inOrder received).flatMap (·.data)

theorem foldl_addAtEnd (l : List Fragment) (p : Packet) :
    (l.map fun f => (f.data, f.fragmentOffset)).foldl (fun p it => p.addAtEnd it.1) p =
      p ++ l.flatMap (·.data) := by
  induction l generalizing p with
  | nil => exact (List.append_nil p).symm
  | cons f l ih => rw [List.map_cons, List.foldl_cons, ih, List.flatMap_cons, Packet.addAtEnd,
      List.append_assoc]

variable {received : List Fragment}

theorem any_zero_of_isEntire (h : isEntire (.ofReceived received) = true) :
    received.any (fun f => decide (f.fragmentOffset = 0)) = true := by
  obtain ⟨⟨f, hlast, -⟩, hgap⟩ := (isEntire_iff received).mp h
  cases hlist : inOrder received with
  | nil =>
    rw [hlist] at hlast
    cases hlast
  | cons g l =>
    rw [hlist] at hgap
    have hmem : g ∈ received := by
      apply mem_inOrder.mp
      rw [hlist]
      exact .head _
    exact List.any_eq_true.mpr ⟨g, hmem, decide_eq_true hgap.1.symm⟩

variable {m : FragmentsMap}

theorem process_encode (hf : Aligned f) (hoffset : offset.toNat = (sentHeaders parts).length)
    (hm : (m (source, identification)).getD {} = ofReceived parts received) :
    process m source (encode parts identification f) offset =
      if isEntire (.ofReceived (received ++ [f])) then
        .ok (Function.update m (source, identification) none,
          some (sentHeaders parts ++ joined (received ++ [f])))
      else .ok (Function.update m (source, identification)
        (some (ofReceived parts (received ++ [f]))), none) := by
  obtain ⟨hlt, hget, hmore⟩ := pieceHeader_read parts identification hf
  have hencode : encode parts identification f =
      sentHeaders parts ++ ((pieceHeader parts identification f).serialize ++ f.data) :=
    addHeaders_append _ _
  have hdrop : (encode parts identification f).removeAtStart offset.toNat =
      (pieceHeader parts identification f).serialize ++ f.data := by
    rw [hencode, hoffset]
    exact List.drop_left
  have htake : (encode parts identification f).take offset.toNat = sentHeaders parts := by
    rw [hencode, hoffset]
    exact List.take_left
  have hid : (pieceHeader parts identification f).identification = identification := rfl
  have hadd := FragmentList.addFragment_ofReceived received f
  have hnew : (ofReceived parts received).receive (sentHeaders parts) f =
      ofReceived parts (received ++ [f]) := by
    rw [Fragments.receive, ofReceived, ofReceived, hadd, List.any_append, List.any_cons,
      List.any_nil, Bool.or_false]
    congr 1
    split
    · rename_i hzero
      rw [decide_eq_true hzero, Bool.or_true]
      rfl
    · rename_i hzero
      rw [decide_eq_false hzero, Bool.or_false]
  rw [process, hdrop, htake, removeFrom_serialize _ hlt, ok_bind]
  dsimp only
  rw [hget, hmore, hid, hm, hnew]
  change (if isEntire (.ofReceived (received ++ [f])) = true then _ else _) = _
  split
  · rename_i hentire
    have hsome : (ofReceived parts (received ++ [f])).unfragmentable = some (sentHeaders parts) :=
      if_pos (any_zero_of_isEntire hentire)
    rw [getPacket, hsome]
    dsimp only
    have hjoin : (ofReceived parts (received ++ [f])).fragments =
        (inOrder (received ++ [f])).map fun f => (f.data, f.fragmentOffset) := rfl
    rw [hjoin, foldl_addAtEnd]
    rfl
  · rfl

/-! ## Runs -/

theorem getD_update (m : FragmentsMap) (key : FragmentKey) (fragments : Option Fragments) :
    ((Function.update m key fragments) key).getD {} = fragments.getD {} := by
  rw [Function.update_self]

theorem processAll_concat (m : FragmentsMap) (l : List Packet) (packet : Packet) :
    processAll source offset m (l ++ [packet]) =
      processAll source offset m l >>= fun r => process r.1 source packet offset >>= fun r' =>
        .ok (r'.1, r.2 ++ [r'.2]) := by
  induction l generalizing m with
  | nil =>
    rw [List.nil_append, processAll, processAll, ok_bind]
    rcases process m source packet offset with e | r
    · rfl
    · rfl
  | cons q l ih =>
    rw [List.cons_append, processAll, processAll]
    rcases process m source q offset with e | r
    · rfl
    · rw [ok_bind, ok_bind]
      dsimp only
      rw [ih]
      rcases processAll source offset r.1 l with e | r'
      · rfl
      · simp only [pure, Except.pure, ok_bind]
        rcases process r'.1 source packet offset with e | r''
        · rfl
        · rfl

section

variable (haligned : offset.toNat = (sentHeaders parts).length)
  {l : List Fragment}

include haligned

section

variable (hm : (m (source, identification)).getD {} = ofReceived parts []) (hl : ∀ f ∈ l, Aligned f)

include hm hl

theorem processAll_kept :
    ∃ m' reports received, processAll source offset m (l.map (encode parts identification)) =
        .ok (m', reports) ∧
      (m' (source, identification)).getD {} = ofReceived parts received ∧
        ∀ f ∈ received, f ∈ l := by
  induction l using List.reverseRecOn with
  | nil => exact ⟨m, [], [], rfl, hm, List.forall_mem_nil _⟩
  | append_singleton l f ih =>
    obtain ⟨m₁, reports, received, hrun, hkept, hsub⟩ :=
      ih fun g hg => hl g (List.mem_append_left _ hg)
    have hstep := process_encode (hl f (List.mem_append_right _ (List.mem_singleton_self f)))
      haligned hkept
    rw [List.map_append, List.map_singleton, processAll_concat, hrun, ok_bind]
    dsimp only
    rw [hstep]
    split
    · refine ⟨_, _, [], rfl, ?_, List.forall_mem_nil _⟩
      exact getD_update _ _ _
    · refine ⟨_, _, received ++ [f], rfl, ?_, ?_⟩
      · exact getD_update _ _ _
      · intro g hg
        rcases List.mem_append.mp hg with hg | hg
        · exact List.mem_append_left _ (hsub g hg)
        · exact List.mem_append_right _ hg

theorem processAll_incomplete
    (hnot : ∀ before after, l = before ++ after → ¬isEntire (.ofReceived before) = true) :
    ∃ m' reports, processAll source offset m (l.map (encode parts identification)) =
        .ok (m', reports) ∧ (m' (source, identification)).getD {} = ofReceived parts l := by
  induction l using List.reverseRecOn with
  | nil => exact ⟨m, [], rfl, hm⟩
  | append_singleton l f ih =>
    obtain ⟨m₁, reports, hrun, hkept⟩ := ih (fun g hg => hl g (List.mem_append_left _ hg))
      fun before after heq => hnot before (after ++ [f]) (by rw [heq, List.append_assoc])
    have hstep := process_encode (hl f (List.mem_append_right _ (List.mem_singleton_self f)))
      haligned hkept
    rw [List.map_append, List.map_singleton, processAll_concat, hrun, ok_bind]
    dsimp only
    rw [hstep, if_neg (hnot (l ++ [f]) [] (List.append_nil _).symm)]
    refine ⟨_, _, rfl, ?_⟩
    exact getD_update _ _ _

end

end

/-! ## The pieces of a packet -/

variable {fuel : Nat} {nextHeader : UInt8} {packet : Packet}

theorem pieceSize_mod (maxSize : Nat) : pieceSize maxSize % 8 = 0 := by
  rw [pieceSize]
  omega

theorem pieceOffset_aligned (maxSize i : Nat) :
    pieceOffset maxSize i < 2 ^ 16 ∧ pieceOffset maxSize i % 8 = 0 := by
  have hdvd : 8 ∣ i * pieceSize maxSize :=
    Nat.dvd_mul_left_of_dvd (Nat.dvd_of_mod_eq_zero (pieceSize_mod maxSize)) i
  rw [pieceOffset]
  omega

variable {p : Packet}

theorem Pieces.aligned {maxSize : Nat} {pieces : List Fragment} (hp : Pieces p maxSize pieces)
    (hf : f ∈ pieces) : Aligned f := by
  obtain ⟨i, hi, rfl⟩ := List.getElem_of_mem hf
  rw [Aligned, hp.offset_eq hi]
  exact pieceOffset_aligned maxSize i

variable {packets : List Packet}

theorem fragmentLoop_pieces {maxSize : Nat} (hsize : parts.p.length < 2 ^ 32) (k : Nat)
    (hrun : fragmentLoop parts maxSize identification fuel (pieceOffset maxSize k) = .ok packets) :
    ∃ pieces : List Fragment, packets = pieces.map (encode parts identification) ∧
      0 < pieces.length ∧
      (∀ i (hi : i + 1 < pieces.length),
        (pieceOffset maxSize (k + i) + maxSize) % 2 ^ 32 < parts.p.length ∧
          pieceOffset maxSize (k + i) + pieceSize maxSize ≤ parts.p.length ∧
          pieces[i] = ⟨parts.p.createFragment (pieceOffset maxSize (k + i)) (pieceSize maxSize),
            pieceOffset maxSize (k + i), true⟩) ∧
      ∀ i (hi : i < pieces.length), i + 1 = pieces.length →
        parts.p.length ≤ (pieceOffset maxSize (k + i) + maxSize) % 2 ^ 32 ∧
          pieceOffset maxSize (k + i) ≤ parts.p.length ∧
          pieces[i] = ⟨parts.p.createFragment (pieceOffset maxSize (k + i))
            (parts.p.length - pieceOffset maxSize (k + i)),
            pieceOffset maxSize (k + i), false⟩ := by
  induction fuel generalizing k packets with
  | zero => cases hrun
  | succ fuel ih =>
    obtain ⟨hlt, -⟩ := pieceOffset_aligned maxSize k
    rw [fragmentLoop] at hrun
    dsimp only at hrun
    by_cases hmore : (pieceOffset maxSize k + maxSize) % 2 ^ 32 < parts.p.length
    · rw [decide_eq_true hmore, if_pos rfl, if_pos rfl] at hrun
      obtain ⟨_, hassert, hrun⟩ := bind_eq_ok.mp hrun
      rw [nsAssert_eq_ok, decide_eq_true_iff] at hassert
      obtain ⟨rest, hrest, rfl⟩ := bind_pure_eq_ok.mp hrun
      have hnext : (pieceOffset maxSize k + pieceSize maxSize) % 2 ^ 16 =
          pieceOffset maxSize (k + 1) := by
        rw [pieceOffset, pieceOffset, Nat.mod_add_mod, Nat.succ_mul]
      rw [hnext] at hrest
      obtain ⟨pieces, rfl, hpos, hsome, hlast⟩ := ih (k + 1) hrest
      refine ⟨⟨parts.p.createFragment (pieceOffset maxSize k) (pieceSize maxSize),
        pieceOffset maxSize k, true⟩ :: pieces, rfl, Nat.succ_pos _, ?_, ?_⟩
      · intro i hi
        cases i with
        | zero => exact ⟨hmore, hassert, rfl⟩
        | succ i =>
          have hi' : i + 1 < pieces.length := Nat.lt_of_succ_lt_succ hi
          rw [show k + (i + 1) = k + 1 + i by omega, List.getElem_cons_succ]
          exact hsome i hi'
      · intro i hi hend
        cases i with
        | zero =>
          rw [List.length_cons] at hend
          omega
        | succ i =>
          have hi' : i < pieces.length := Nat.lt_of_succ_lt_succ hi
          have hend' : i + 1 = pieces.length := Nat.succ.inj hend
          rw [show k + (i + 1) = k + 1 + i by omega]
          exact hlast i hi' hend'
    · rw [decide_eq_false hmore, if_neg (by decide), if_neg (by decide)] at hrun
      obtain ⟨_, hassert, hrun⟩ := bind_eq_ok.mp hrun
      rw [nsAssert_eq_ok, decide_eq_true_iff] at hassert
      have hfits : pieceOffset maxSize k ≤ parts.p.length := by
        rw [wsub] at hassert
        omega
      have hrest : wsub 32 parts.p.length (pieceOffset maxSize k) =
          parts.p.length - pieceOffset maxSize k := wsub_eq hsize hfits
      rw [hrest] at hrun
      cases hrun
      refine ⟨[⟨parts.p.createFragment (pieceOffset maxSize k)
        (parts.p.length - pieceOffset maxSize k), pieceOffset maxSize k, false⟩], rfl,
        Nat.one_pos, ?_, ?_⟩
      · intro i hi
        rw [List.length_singleton] at hi
        omega
      · intro i hi _
        obtain rfl : i = 0 := by
          rw [List.length_singleton] at hi
          omega
        exact ⟨Nat.not_lt.mp hmore, hfits, rfl⟩

/-- The packets sent are the pieces of the payload, each behind the same headers. -/
theorem getFragments_pieces {maxFragmentSize : UInt32} (hsize : parts.p.length < 2 ^ 32)
    (hparts : partsOf fuel nextHeader packet = .ok parts)
    (hsent : getFragments fuel nextHeader packet maxFragmentSize identification = .ok packets) :
    ∃ pieces : List Fragment, packets = pieces.map (encode parts identification) ∧
      Pieces parts.p (maxFragmentablePartSize maxFragmentSize parts) pieces := by
  rw [getFragments, hparts, ok_bind] at hsent
  have hzero : pieceOffset (maxFragmentablePartSize maxFragmentSize parts) 0 = 0 := by
    rw [pieceOffset, Nat.zero_mul, Nat.zero_mod]
  rw [← hzero] at hsent
  obtain ⟨pieces, heq, hpos, hmore, hlast⟩ := fragmentLoop_pieces hsize 0 hsent
  refine ⟨pieces, heq, hpos, fun j hj => ?_, fun j hj hend => ?_⟩
  · have hstep := hmore j hj
    rwa [Nat.zero_add] at hstep
  · have hstep := hlast j hj hend
    rwa [Nat.zero_add] at hstep

/-! ## The extension headers -/

theorem moreHeader_ne (h : moreHeader nextHeader p = true) :
    nextHeader ≠ IPV6_EXT_FRAGMENTATION := by
  rintro rfl
  cases h

theorem headerLoop_headers (h : headerLoop fuel nextHeader p = .ok parts) :
    parts.p.length ≤ p.length ∧ ∃ init last, parts.headers = init ++ [last] ∧
      last.nextHeader = IPV6_EXT_FRAGMENTATION ∧
      ∀ header ∈ init, header.nextHeader ≠ IPV6_EXT_FRAGMENTATION := by
  induction fuel generalizing nextHeader p parts with
  | zero => cases h
  | succ fuel ih =>
    rw [headerLoop, bind_eq_ok] at h
    obtain ⟨header, -, h⟩ := h
    dsimp only at h
    have hle : (p.removeAtStart header.serializedSize).length ≤ p.length := by
      rw [Packet.length_removeAtStart]
      exact Nat.sub_le _ _
    cases hmore : moreHeader header.nextHeader (p.removeAtStart header.serializedSize) with
    | true =>
      rw [hmore, if_pos rfl, bind_eq_ok] at h
      obtain ⟨rest, hrest, heq⟩ := h
      cases heq
      obtain ⟨hlen, init, last, hheaders, hlast, hinit⟩ := ih hrest
      refine ⟨hlen.trans hle, header :: init, last, ?_, hlast, ?_⟩
      · change header :: rest.headers = _
        rw [hheaders, List.cons_append]
      · intro other hother
        rcases List.mem_cons.mp hother with rfl | hother
        · exact moreHeader_ne hmore
        · exact hinit other hother
    | false =>
      rw [hmore, if_neg (by decide)] at h
      cases h
      exact ⟨hle, [], header.setNextHeader IPV6_EXT_FRAGMENTATION, rfl,
        ExtensionHeader.nextHeader_setNextHeader _ _, fun _ hother =>
          absurd hother List.not_mem_nil⟩

theorem length_partsOf (h : partsOf fuel nextHeader packet = .ok parts) :
    parts.p.length ≤ packet.length := by
  rw [partsOf] at h
  split at h
  · exact (headerLoop_headers h).1
  · cases h
    exact le_rfl

theorem sentHeaders_eq_iff (h : partsOf fuel nextHeader packet = .ok parts) :
    sentHeaders parts = unfragmentablePart parts ↔ parts.headers.length ≤ 1 := by
  rw [partsOf] at h
  split at h
  · obtain ⟨-, init, last, hheaders, hlast, hinit⟩ := headerLoop_headers h
    obtain ⟨tail, htail⟩ := last.serialize_cons
    have hsent : sentHeaders parts = last.serialize ++ addHeaders [] init := by
      rw [sentHeaders, hheaders, addHeaders, addHeaders, List.foldl_append]
      rfl
    rw [hsent, unfragmentablePart, hheaders, List.length_append]
    cases init with
    | nil =>
      refine iff_of_true ?_ (Nat.le_refl 1)
      rw [List.nil_append, List.flatMap_singleton]
      exact List.append_nil _
    | cons header init =>
      refine iff_of_false ?_ (by rw [List.length_cons, List.length_singleton]; omega)
      obtain ⟨tail', htail'⟩ := header.serialize_cons
      rw [List.cons_append, List.flatMap_cons, htail, htail', hlast]
      intro heq
      exact hinit header (.head _) (List.cons.inj heq).1.symm
  · cases h
    exact iff_of_true rfl (Nat.zero_le _)

/-! ## All pieces have arrived -/

section

variable {maxSize : Nat} {pieces : List Fragment}

theorem length_sentHeaders (parts : Parts) :
    (sentHeaders parts).length = (unfragmentablePart parts).length := by
  rw [sentHeaders, unfragmentablePart]
  induction parts.headers using List.reverseRecOn with
  | nil => rfl
  | append_singleton headers header ih =>
    rw [addHeaders, List.foldl_append, List.flatMap_append, List.length_append, ← ih,
      List.flatMap_singleton, Nat.add_comm]
    exact List.length_append

theorem length_joined (received : List Fragment) :
    (joined received).length = ((inOrder received).map (·.data.length)).sum :=
  List.length_flatMap

section

variable (hp : Pieces parts.p maxSize pieces)

include hp

theorem Pieces.process_last (haligned : offset.toNat = (sentHeaders parts).length)
    {before : List Fragment} (hm : (m (source, identification)).getD {} = ofReceived parts before)
    (hf : f ∈ pieces) :
    (∃ m', process m source (encode parts identification f) offset =
        .ok (m', some (unfragmentablePart parts ++ parts.p))) ↔
      isEntire (.ofReceived (before ++ [f])) = true ∧ sentHeaders parts = unfragmentablePart parts ∧
        joined (before ++ [f]) = parts.p := by
  rw [process_encode (hp.aligned hf) haligned hm]
  constructor
  · rintro ⟨m', h⟩
    split at h
    · rename_i hentire
      obtain ⟨-, hpacket⟩ := pair_of_ok h
      obtain ⟨hsent, hjoined⟩ :=
        List.append_inj (Option.some.inj hpacket) (length_sentHeaders parts)
      exact ⟨hentire, hsent, hjoined⟩
    · cases h
  · rintro ⟨hentire, hsent, hjoined⟩
    rw [if_pos hentire, hsent, hjoined]
    exact ⟨_, rfl⟩

theorem Pieces.fits_of_joined (hsub : ∀ f ∈ received, f ∈ pieces)
    (hentire : isEntire (.ofReceived received) = true) (hjoined : joined received = parts.p) :
    FitsOffsets parts.p.length maxSize := by
  obtain ⟨⟨f, hlast, hflag⟩, hgap⟩ := (isEntire_iff received).mp hentire
  apply hp.fitsOffsets 0 (fun g hg => hsub g (mem_inOrder.mp hg))
  · rw [pieceOffset, Nat.zero_mul]
    exact hgap
  · exact ⟨f, List.mem_of_getLast? hlast, hflag⟩
  · rw [Nat.zero_mul, Nat.zero_add, ← length_joined, hjoined]

theorem Pieces.inOrder_of_entire (hword : maxSize < 2 ^ 32)
    (hfits : FitsOffsets parts.p.length maxSize) (htwo : 2 ≤ pieces.length)
    (hsub : ∀ f ∈ received, f ∈ pieces) (hentire : isEntire (.ofReceived received) = true) :
    inOrder received = pieces := by
  obtain ⟨hlast, hgap⟩ := (isEntire_iff received).mp hentire
  apply hp.eq_of_contiguous hword hfits htwo 0 hp.nonempty
    (fun g hg => hsub g (mem_inOrder.mp hg)) (inOrder_sorted received)
  · rw [pieceOffset, Nat.zero_mul]
    exact hgap
  · exact hlast

theorem Pieces.entire_of_perm (hword : maxSize < 2 ^ 32)
    (hfits : FitsOffsets parts.p.length maxSize) (hperm : received.Perm pieces) :
    isEntire (.ofReceived received) = true ∧ joined received = parts.p := by
  have hplaced := inOrder_perm received
  have horder : inOrder received = pieces := by
    rcases Nat.lt_or_ge pieces.length 2 with hone | htwo
    · have hpos := hp.nonempty
      obtain ⟨f, rfl⟩ := List.length_eq_one_iff.mp (show pieces.length = 1 by omega)
      exact List.perm_singleton.mp (hplaced.trans hperm)
    · have hsorted := hp.sorted hword hfits htwo
      apply (hplaced.trans hperm).eq_of_pairwise _ (inOrder_sorted received)
        (hsorted.imp fun h => Nat.le_of_lt h)
      intro f g hf hg hle hge
      obtain ⟨i, hi, rfl⟩ := List.getElem_of_mem (hperm.mem_iff.mp (mem_inOrder.mp hf))
      obtain ⟨j, hj, rfl⟩ := List.getElem_of_mem hg
      have heq := Nat.le_antisymm hle hge
      rw [hp.offset_eq hi, hp.offset_eq hj] at heq
      congr 1
      exact hp.offset_injective hword hfits htwo hi hj heq
  have hwrap : (pieces.length - 1) * pieceSize maxSize < 2 ^ 16 := by
    rcases Nat.lt_or_ge pieces.length 2 with hone | htwo
    · rw [show pieces.length - 1 = 0 by omega, Nat.zero_mul]
      decide
    · exact (hp.no_wrap hword hfits htwo).1
  have hzero : pieceOffset maxSize 0 = 0 := by rw [pieceOffset, Nat.zero_mul, Nat.zero_mod]
  refine ⟨(isEntire_iff received).mpr ⟨?_, ?_⟩, ?_⟩
  · have hlast : pieces.length - 1 < pieces.length := Nat.sub_lt hp.nonempty Nat.one_pos
    have hpos := hp.nonempty
    refine ⟨pieces[pieces.length - 1], ?_, ?_⟩
    · rw [horder, List.getLast?_eq_getElem?]
      exact List.getElem?_eq_getElem hlast
    · rw [hp.flag_eq hlast]
      exact decide_eq_false (by omega)
  · have hgap := hp.contiguous_drop hp.nonempty
    rw [List.drop_zero, hzero] at hgap
    rw [horder]
    exact hgap
  · have hjoin := hp.join_drop hwrap hp.nonempty
    rw [List.drop_zero, hzero, List.drop_zero] at hjoin
    rw [joined, horder]
    exact hjoin

end

end

/-! ## Every order of arrival -/

/-- Arrivals, by the index of the fragment, at the last of which all fragments have arrived. -/
structure LastArrival {n : Nat} (before : List (Fin n)) (i : Fin n) : Prop where
  all : ∀ j, j ∈ before ++ [i]
  missing : ∃ j, j ∉ before

/-- The last of the arrivals makes `Process` return the unfragmentable part followed by the
fragmentable bytes. -/
def ReassembledAt (parts : Parts) (source : Vector UInt8 16) (offset : UInt8) (m : FragmentsMap)
    (arrivals : List Packet) : Prop :=
  ∃ m' reports, processAll source offset m arrivals =
    .ok (m', reports ++ [some (unfragmentablePart parts ++ parts.p)])

theorem reassembledAt_concat {l : List Packet} :
    ReassembledAt parts source offset m (l ++ [packet]) ↔
      ∃ m₁ reports, processAll source offset m l = .ok (m₁, reports) ∧
        ∃ m', process m₁ source packet offset =
          .ok (m', some (unfragmentablePart parts ++ parts.p)) := by
  rw [ReassembledAt, processAll_concat]
  constructor
  · rintro ⟨m', reports, h⟩
    obtain ⟨⟨m₁, reports₁⟩, hrun, h⟩ := bind_eq_ok.mp h
    obtain ⟨⟨m₂, report⟩, hstep, h⟩ := bind_eq_ok.mp h
    obtain ⟨rfl, hreports⟩ := pair_of_ok h
    obtain ⟨-, hreport⟩ := List.append_inj' hreports rfl
    obtain rfl : report = _ := (List.cons.inj hreport).1
    exact ⟨m₁, reports₁, hrun, m₂, hstep⟩
  · rintro ⟨m₁, reports, hrun, m', hstep⟩
    refine ⟨m', reports, ?_⟩
    rw [hrun, ok_bind]
    dsimp only
    rw [hstep]
    rfl

section

variable {maxSize : Nat} {pieces : List Fragment} {before : List (Fin pieces.length)}
  {i : Fin pieces.length}

theorem LastArrival.eq_nil (harrival : LastArrival before i) (hone : pieces.length < 2) :
    before = [] := by
  obtain ⟨j, hj⟩ := harrival.missing
  apply List.eq_nil_iff_forall_not_mem.mpr
  intro k hk
  obtain rfl : k = j := Fin.ext (by omega)
  exact hj hk

theorem mem_of_mem_map_get {l : List (Fin pieces.length)} (hf : f ∈ l.map pieces.get) :
    f ∈ pieces := by
  obtain ⟨j, -, rfl⟩ := List.mem_map.mp hf
  exact List.get_mem pieces j

section

variable (hp : Pieces parts.p maxSize pieces) (hword : maxSize < 2 ^ 32)
  (hfits : FitsOffsets parts.p.length maxSize) (harrival : LastArrival before i)

include hp hword hfits harrival

theorem Pieces.not_entire_early (first rest : List Fragment)
    (hsplit : before.map pieces.get = first ++ rest) : ¬isEntire (.ofReceived first) = true := by
  intro hentire
  have hsub : ∀ f ∈ first, f ∈ before.map pieces.get := by
    intro f hf
    rw [hsplit]
    exact List.mem_append_left _ hf
  rcases Nat.lt_or_ge pieces.length 2 with hone | htwo
  · rw [harrival.eq_nil hone] at hsub
    obtain ⟨⟨f, hlast, -⟩, -⟩ := (isEntire_iff first).mp hentire
    exact absurd (hsub f (mem_inOrder.mp (List.mem_of_getLast? hlast))) List.not_mem_nil
  · obtain ⟨j, hj⟩ := harrival.missing
    have horder : inOrder first = pieces :=
      hp.inOrder_of_entire hword hfits htwo (fun f hf => mem_of_mem_map_get (hsub f hf)) hentire
    have hall : pieces.get j ∈ first := by
      apply mem_inOrder.mp
      rw [horder]
      exact List.get_mem pieces j
    obtain ⟨k, hk, hkj⟩ := List.mem_map.mp (hsub _ hall)
    have hindex : k = j := by
      apply Fin.ext
      apply hp.offset_injective hword hfits htwo k.isLt j.isLt
      rw [← hp.offset_eq k.isLt, ← hp.offset_eq j.isLt]
      exact congrArg Fragment.fragmentOffset hkj
    exact hj (hindex ▸ hk)

theorem Pieces.nodup_of_entire
    (hentire : isEntire (.ofReceived ((before ++ [i]).map pieces.get)) = true) :
    (before ++ [i]).Nodup := by
  rcases Nat.lt_or_ge pieces.length 2 with hone | htwo
  · rw [harrival.eq_nil hone]
    exact List.pairwise_singleton _ i
  · have horder : inOrder ((before ++ [i]).map pieces.get) = pieces :=
      hp.inOrder_of_entire hword hfits htwo (fun f hf => mem_of_mem_map_get hf) hentire
    have hperm := inOrder_perm ((before ++ [i]).map pieces.get)
    rw [horder] at hperm
    exact (hperm.nodup_iff.mp (hp.nodup hword hfits htwo)).of_map _

end

theorem LastArrival.perm (harrival : LastArrival before i) (hnodup : (before ++ [i]).Nodup) :
    ((before ++ [i]).map pieces.get).Perm pieces := by
  have hall : (before ++ [i]).Perm (List.finRange pieces.length) :=
    (List.perm_ext_iff_of_nodup hnodup (List.nodup_finRange _)).mpr fun j =>
      iff_of_true (harrival.all j) (List.mem_finRange j)
  have hmap := hall.map pieces.get
  rwa [List.map_get_finRange] at hmap

/-- The last arrival completes the packet when no header is cut off and the offsets fit. -/
theorem Pieces.reassembled_iff (hp : Pieces parts.p maxSize pieces) (hword : maxSize < 2 ^ 32)
    (haligned : offset.toNat = (sentHeaders parts).length) (hm : m (source, identification) = none)
    (harrival : LastArrival before i) :
    ReassembledAt parts source offset m
        ((before ++ [i]).map fun j => encode parts identification (pieces.get j)) ↔
      sentHeaders parts = unfragmentablePart parts ∧ FitsOffsets parts.p.length maxSize ∧
        (before ++ [i]).Nodup := by
  have hempty : (m (source, identification)).getD {} = ofReceived parts [] := by
    rw [hm]
    rfl
  have hsplit : (before ++ [i]).map (fun j => encode parts identification (pieces.get j)) =
      (before.map pieces.get).map (encode parts identification) ++
        [encode parts identification (pieces.get i)] := by
    rw [List.map_append, List.map_map]
    rfl
  have hjoin : (before ++ [i]).map pieces.get = before.map pieces.get ++ [pieces.get i] :=
    List.map_append
  have hmem : pieces.get i ∈ pieces := List.get_mem pieces i
  have hbefore : ∀ f ∈ before.map pieces.get, Aligned f :=
    fun f hf => hp.aligned (mem_of_mem_map_get hf)
  rw [hsplit, reassembledAt_concat]
  constructor
  · rintro ⟨m₁, reports, hrun, hlast⟩
    obtain ⟨m₂, reports₂, received, hrun₂, hkept, hsub⟩ :=
      processAll_kept haligned hempty hbefore
    cases hrun.symm.trans hrun₂
    obtain ⟨hentire, hsent, hjoined⟩ := (hp.process_last haligned hkept hmem).mp hlast
    have hreceived : ∀ f ∈ received ++ [pieces.get i], f ∈ pieces := by
      intro f hf
      rcases List.mem_append.mp hf with hf | hf
      · exact mem_of_mem_map_get (hsub f hf)
      · exact List.mem_singleton.mp hf ▸ hmem
    have hfits := hp.fits_of_joined hreceived hentire hjoined
    -- the offsets do not wrap around, so nothing was given out before
    obtain ⟨m₃, reports₃, hrun₃, hkept₃⟩ := processAll_incomplete
      haligned hempty hbefore
      (hp.not_entire_early hword hfits harrival)
    cases hrun.symm.trans hrun₃
    obtain ⟨hentire₃, -, -⟩ := (hp.process_last haligned hkept₃ hmem).mp hlast
    rw [← hjoin] at hentire₃
    exact ⟨hsent, hfits, hp.nodup_of_entire hword hfits harrival hentire₃⟩
  · rintro ⟨hsent, hfits, hnodup⟩
    obtain ⟨m₁, reports, hrun, hkept⟩ := processAll_incomplete
      haligned hempty hbefore
      (hp.not_entire_early hword hfits harrival)
    obtain ⟨hentire, hjoined⟩ := hp.entire_of_perm hword hfits (harrival.perm hnodup)
    rw [hjoin] at hentire hjoined
    exact ⟨m₁, reports, hrun, (hp.process_last haligned hkept hmem).mpr ⟨hentire, hsent, hjoined⟩⟩

end

/-- **IPv6 reassembly.** When the last fragment has arrived, in any order, Process returns the
packet exactly when there is at most one extension header, no offset wrapped around and no fragment
arrived twice. -/
theorem ipv6_reassembly_iff {fuel : Nat} {nextHeader : UInt8} {packet : Packet}
    {maxFragmentSize : UInt32} {packets : List Packet} {m : FragmentsMap}
    (hsize : packet.length < 2 ^ 32) (hparts : partsOf fuel nextHeader packet = .ok parts)
    (hsent : getFragments fuel nextHeader packet maxFragmentSize identification = .ok packets)
    (hoffset : offset.toNat = (sentHeaders parts).length)
    (hm : m (source, identification) = none) (before : List (Fin packets.length))
    (i : Fin packets.length) (harrival : LastArrival before i) :
    ReassembledAt parts source offset m ((before ++ [i]).map packets.get) ↔
      parts.headers.length ≤ 1 ∧
        FitsOffsets parts.p.length (maxFragmentablePartSize maxFragmentSize parts) ∧
        (before ++ [i]).Nodup := by
  have hlen := length_partsOf hparts
  have hword : maxFragmentablePartSize maxFragmentSize parts < 2 ^ 32 := wsub_lt _ _ _
  obtain ⟨pieces, rfl, hp⟩ := getFragments_pieces (by omega) hparts hsent
  have hcast : (pieces.map (encode parts identification)).length = pieces.length :=
    List.length_map _
  have hget : (before ++ [i]).map (pieces.map (encode parts identification)).get =
      (before.map (Fin.cast hcast) ++ [Fin.cast hcast i]).map
        fun j => encode parts identification (pieces.get j) := by
    rw [← List.map_singleton, ← List.map_append, List.map_map]
    apply List.map_congr_left
    intro j _
    exact List.getElem_map _
  have harrival' : LastArrival (before.map (Fin.cast hcast)) (Fin.cast hcast i) := by
    obtain ⟨hall, j, hj⟩ := harrival
    refine ⟨fun k => ?_, Fin.cast hcast j, fun hmem => ?_⟩
    · rw [← List.map_singleton, ← List.map_append]
      exact List.mem_map.mpr ⟨Fin.cast hcast.symm k, hall _, rfl⟩
    · obtain ⟨k, hk, hkj⟩ := List.mem_map.mp hmem
      exact hj (Fin.cast_injective hcast hkj ▸ hk)
  have hnodup :
      (before.map (Fin.cast hcast) ++ [Fin.cast hcast i]).Nodup ↔ (before ++ [i]).Nodup := by
    rw [← List.map_singleton, ← List.map_append]
    exact List.nodup_map_iff (Fin.cast_injective hcast)
  rw [hget, hp.reassembled_iff hword hoffset hm harrival', sentHeaders_eq_iff hparts, hnodup]

def smallPacket : Packet := [1, 2, 3, 4, 5, 6, 7, 8, 9, 10, 11, 12, 13, 14, 15, 16]

def sender : Vector UInt8 16 := Vector.replicate 16 1

def smallPackets : List Packet :=
  [[17, 0, 0, 1, 0, 0, 0, 7, 1, 2, 3, 4, 5, 6, 7, 8],
    [17, 0, 0, 8, 0, 0, 0, 7, 9, 10, 11, 12, 13, 14, 15, 16]]

def fragment0 : Fin smallPackets.length := ⟨0, by decide⟩

def fragment1 : Fin smallPackets.length := ⟨1, by decide⟩

/-- Two fragments arrive in the wrong order. -/
theorem ipv6_reassembly_reordered :
    ReassembledAt { headers := [], size := 0, nextHeader := 17, p := smallPacket } sender 0
      (fun _ => none) (([fragment1] ++ [fragment0]).map smallPackets.get) := by
  have hsent : getFragments 2 17 smallPacket 56 7 = .ok smallPackets := by decide
  apply (ipv6_reassembly_iff (by decide) rfl hsent rfl rfl [fragment1] fragment0 _).mpr
  · exact ⟨by decide, ⟨1, by decide, by decide⟩, by decide⟩
  · exact ⟨by decide, fragment0, by decide⟩

/-- The second fragment arrives twice, then the first one: nothing is put together. -/
theorem ipv6_reassembly_duplicate :
    getFragments 2 17 smallPacket 56 7 = .ok smallPackets ∧
      LastArrival [fragment1, fragment1] fragment0 ∧
      ¬ReassembledAt { headers := [], size := 0, nextHeader := 17, p := smallPacket } sender 0
        (fun _ => none) (([fragment1, fragment1] ++ [fragment0]).map smallPackets.get) := by
  refine ⟨by decide, ⟨by decide, fragment0, by decide⟩, ?_⟩
  rintro ⟨m', reports, hrun⟩
  obtain ⟨m, hnone⟩ : ∃ m, processAll sender 0 (fun _ => none)
      (([fragment1, fragment1] ++ [fragment0]).map smallPackets.get) =
        .ok (m, [none, none, none]) := ⟨_, rfl⟩
  rw [hnone] at hrun
  obtain ⟨-, hreports⟩ := pair_of_ok hrun
  have hlast := congrArg List.getLast? hreports
  rw [List.getLast?_concat] at hlast
  cases hlast

end Ns3.Ip.V6
