/-
  The chain of extension headers in the fragments of an
  IPv6 packet (GetFragments of Ipv6ExtensionFragment, src/internet/model/ipv6-extension.cc).

  Each header says which one comes next, and the last one before the cut says that a fragment
  header does.  The headers are put in front of a fragment one by one, so that the last one
  ends up first.
-/
import Ns3.Internet.Ip.Ipv6Reassembly

namespace Ns3.Ip

open Lib BufferIterator

/-! ## Headers that are read back -/

namespace ExtensionHeader

/-- The value of a next header field that announces this header. -/
def kind : ExtensionHeader → UInt8
  | hopByHop _ _ _ => IPV6_EXT_HOP_BY_HOP
  | destination _ _ _ => IPV6_EXT_DESTINATION
  | looseRouting _ _ _ _ _ => IPV6_EXT_ROUTING

/-- The length field agrees with the content. -/
def WellFormed : ExtensionHeader → Prop
  | hopByHop _ length optionData => optionData.length + 2 = (length.toNat + 1) * 8
  | destination _ length optionData => optionData.length + 2 = (length.toNat + 1) * 8
  | looseRouting _ length typeRouting _ routersAddress =>
    length.toNat = routersAddress.length * 2 ∧ typeRouting = 0 ∧
      ∀ address ∈ routersAddress, address.length = 16

section

variable {nextHeader length typeRouting segmentsLeft : UInt8} {optionData : List UInt8}
  {routersAddress : List (List UInt8)} {h : ExtensionHeader}

section

variable (hlen : optionData.length + 2 = (length.toNat + 1) * 8)

include hlen

theorem calculatePad_eq_zero : calculatePad optionData = 0 := by
  rw [calculatePad, hlen, wsub]
  omega

theorem serializeOptions_eq : serializeOptions optionData = optionData := by
  rw [serializeOptions, calculatePad_eq_zero hlen]
  exact List.append_nil _

theorem ofNat_length :
    UInt8.ofNat ((2 + (optionData.length + calculatePad optionData)) / 8 - 1) = length := by
  have hsize : (2 + (optionData.length + 0)) / 8 - 1 = length.toNat := by omega
  rw [calculatePad_eq_zero hlen, hsize, UInt8.ofNat_toNat]

theorem serialize_options :
    (hopByHop nextHeader length optionData).serialize = nextHeader :: length :: optionData ∧
      (destination nextHeader length optionData).serialize =
        nextHeader :: length :: optionData := by
  constructor
  · rw [serialize, serializedSize, ofNat_length hlen, serializeOptions_eq hlen]
    rfl
  · rw [serialize, serializedSize, ofNat_length hlen, serializeOptions_eq hlen]
    rfl

theorem readOptions_append (rest : List UInt8) :
    readOptions (nextHeader :: length :: optionData ++ rest) =
      .ok (nextHeader, length, optionData) := by
  have hsize : optionData.length = (length.toNat + 1) * 8 - 2 := by omega
  rw [List.cons_append, List.cons_append, readOptions, readU8_cons, ok_bind]
  dsimp only
  rw [readU8_cons, ok_bind]
  dsimp only
  rw [read_append hsize, ok_bind]
  rfl

end

theorem readAddresses_append (haddress : ∀ address ∈ routersAddress, address.length = 16)
    (rest : List UInt8) :
    readAddresses routersAddress.length (routersAddress.flatten ++ rest) = .ok routersAddress := by
  induction routersAddress with
  | nil => rfl
  | cons address routersAddress ih =>
    rw [List.length_cons, readAddresses, List.flatten_cons, List.append_assoc,
      read_append (haddress address (.head _)), ok_bind]
    dsimp only
    rw [ih fun a ha => haddress a (.tail _ ha)]
    rfl

theorem length_serialize_setNextHeader (h : ExtensionHeader) (nextHeader : UInt8) :
    (h.setNextHeader nextHeader).serialize.length = h.serialize.length := by
  cases h with
  | hopByHop _ length optionData => rfl
  | destination _ length optionData => rfl
  | looseRouting _ length typeRouting segmentsLeft routersAddress => rfl

theorem kind_setNextHeader (h : ExtensionHeader) (nextHeader : UInt8) :
    (h.setNextHeader nextHeader).kind = h.kind := by
  cases h with
  | hopByHop _ length optionData => rfl
  | destination _ length optionData => rfl
  | looseRouting _ length typeRouting segmentsLeft routersAddress => rfl

theorem length_serialize (hwell : h.WellFormed) :
    h.serialize.length = h.serializedSize ∧ h.length = h.serializedSize := by
  cases h with
  | hopByHop nextHeader length optionData =>
    rw [(serialize_options hwell).1, serializedSize, calculatePad_eq_zero hwell,
      ExtensionHeader.length, lengthField]
    rw [WellFormed] at hwell
    rw [List.length_cons, List.length_cons]
    omega
  | destination nextHeader length optionData =>
    rw [(serialize_options hwell).2, serializedSize, calculatePad_eq_zero hwell,
      ExtensionHeader.length, lengthField]
    rw [WellFormed] at hwell
    rw [List.length_cons, List.length_cons]
    omega
  | looseRouting nextHeader length typeRouting segmentsLeft routersAddress =>
    obtain ⟨hlen, -, haddress⟩ := hwell
    have hflat : routersAddress.flatten.length = routersAddress.length * 16 := by
      clear hlen
      induction routersAddress with
      | nil => rfl
      | cons address routersAddress ih =>
        rw [List.flatten_cons, List.length_append, haddress address (.head _),
          ih fun a ha => haddress a (.tail _ ha), List.length_cons]
        omega
    rw [serialize, serializedSize, List.length_append, hflat, ExtensionHeader.length, lengthField,
      hlen]
    exact ⟨rfl, by omega⟩

end

end ExtensionHeader

namespace V6

variable {nextHeader upper : UInt8} {p : Packet} {header : ExtensionHeader}
  {headers : List ExtensionHeader} {parts : Parts} {fuel : Nat}

/-! ## Chains -/

/-- Each header is announced by the one before, and the last one announces `final`. -/
def Linked (final : UInt8) : UInt8 → List ExtensionHeader → Prop
  | nextHeader, [] => nextHeader = final
  | nextHeader, header :: headers =>
    nextHeader = header.kind ∧ Linked final header.nextHeader headers

/-- The headers that come before the fragmentable part: well formed, and a destination header
only in front of a routing header. -/
def Unfragmentable (header : ExtensionHeader) : Prop :=
  header.WellFormed ∧ (header.kind = IPV6_EXT_DESTINATION → header.nextHeader = IPV6_EXT_ROUTING)

def bytesOf (headers : List ExtensionHeader) : Packet := headers.flatMap ExtensionHeader.serialize

def linkFragment : List ExtensionHeader → List ExtensionHeader
  | [] => []
  | [header] => [header.setNextHeader IPV6_EXT_FRAGMENTATION]
  | header :: next :: headers => header :: linkFragment (next :: headers)

/-- A packet whose unfragmentable part is these headers, and whose fragmentable part is `p`. -/
structure Chain (upper : UInt8) (p : Packet) (nextHeader : UInt8)
    (headers : List ExtensionHeader) : Prop where
  linked : Linked upper nextHeader headers
  unfragmentable : ∀ header ∈ headers, Unfragmentable header
  ends : moreHeader upper p = false

theorem readHeader_append (hwell : header.WellFormed) (rest : Packet) :
    readHeader header.kind (header.serialize ++ rest) = .ok header := by
  cases header with
  | hopByHop nextHeader length optionData =>
    change ExtensionHeader.deserializeHopByHop _ = _
    rw [(ExtensionHeader.serialize_options hwell).1, ExtensionHeader.deserializeHopByHop,
      ExtensionHeader.readOptions_append hwell]
    rfl
  | destination nextHeader length optionData =>
    change ExtensionHeader.deserializeDestination _ = _
    rw [(ExtensionHeader.serialize_options hwell).2, ExtensionHeader.deserializeDestination,
      ExtensionHeader.readOptions_append hwell]
    rfl
  | looseRouting nextHeader length typeRouting segmentsLeft routersAddress =>
    obtain ⟨hlen, rfl, haddress⟩ := hwell
    have hfield : UInt8.ofNat (routersAddress.length * 2) = length := by
      rw [← hlen, UInt8.ofNat_toNat]
    have hnum : length.toNat / 2 = routersAddress.length := by omega
    have hzero : ([0, 0, 0, 0] : List UInt8) = writeHtonU32 0 := by decide
    change ExtensionHeader.deserializeLooseRouting _ = _
    rw [ExtensionHeader.serialize, hfield, List.append_assoc]
    change ExtensionHeader.deserializeLooseRouting
      (nextHeader :: length :: 0 :: segmentsLeft ::
        ([0, 0, 0, 0] ++ (routersAddress.flatten ++ rest))) = _
    rw [hzero, ExtensionHeader.deserializeLooseRouting, readU8_cons, ok_bind]
    dsimp only
    rw [readU8_cons, ok_bind]
    dsimp only
    rw [readU8_cons, ok_bind]
    dsimp only
    rw [readU8_cons, ok_bind]
    dsimp only
    rw [readNtohU32_write, ok_bind]
    dsimp only
    rw [hnum, ExtensionHeader.readAddresses_append haddress]
    rfl

theorem moreHeader_kind (hunfrag : Unfragmentable header) (rest : Packet) :
    moreHeader header.kind (header.serialize ++ rest) = true := by
  obtain ⟨tail, htail⟩ := header.serialize_cons
  cases header with
  | hopByHop nextHeader length optionData => rfl
  | destination nextHeader length optionData =>
    have hnext : nextHeader = IPV6_EXT_ROUTING := hunfrag.2 rfl
    rw [htail, moreHeader]
    change (_ || _ || (_ && nextHeader == IPV6_EXT_ROUTING)) = true
    rw [hnext]
    rfl
  | looseRouting nextHeader length typeRouting segmentsLeft routersAddress => rfl

/-! ## The parts of a chain -/

theorem bytesOf_cons (header : ExtensionHeader) (headers : List ExtensionHeader) :
    bytesOf (header :: headers) = header.serialize ++ bytesOf headers :=
  List.flatMap_cons

theorem Chain.tail (hchain : Chain upper p nextHeader (header :: headers)) :
    Chain upper p header.nextHeader headers where
  linked := hchain.linked.2
  unfragmentable := fun h hh => hchain.unfragmentable h (.tail _ hh)
  ends := hchain.ends

/-- The sum of the lengths, each kept in a `uint8_t`. -/
def keptSize (headers : List ExtensionHeader) : Nat := (headers.map (·.length % 2 ^ 8)).sum

section

variable (hchain : Chain upper p nextHeader headers)

include hchain

theorem Chain.moreHeader_iff : moreHeader nextHeader (bytesOf headers ++ p) = !headers.isEmpty := by
  cases headers with
  | nil =>
    have hlast : nextHeader = upper := hchain.linked
    rw [hlast]
    exact hchain.ends
  | cons header headers =>
    rw [hchain.linked.1, bytesOf_cons, List.append_assoc]
    exact moreHeader_kind (hchain.unfragmentable header (.head _)) _

theorem Chain.headerLoop_eq (hne : headers ≠ [])
    (hrun : headerLoop fuel nextHeader (bytesOf headers ++ p) = .ok parts) :
    parts = ⟨linkFragment headers, keptSize headers, upper, p⟩ := by
  induction headers generalizing fuel nextHeader parts with
  | nil => exact absurd rfl hne
  | cons header headers ih =>
    cases fuel with
    | zero => cases hrun
    | succ fuel =>
      have hwell := (hchain.unfragmentable header (.head _)).1
      have hdrop : Packet.removeAtStart (header.serialize ++ (bytesOf headers ++ p))
          header.serializedSize = bytesOf headers ++ p := by
        rw [← (ExtensionHeader.length_serialize hwell).1]
        exact List.drop_left
      rw [hchain.linked.1, bytesOf_cons, List.append_assoc, headerLoop,
        readHeader_append hwell, ok_bind] at hrun
      dsimp only at hrun
      rw [hdrop, hchain.tail.moreHeader_iff] at hrun
      cases headers with
      | nil =>
        have hlast : header.nextHeader = upper := hchain.tail.linked
        cases hrun
        rw [hlast]
        rfl
      | cons next headers =>
        rw [List.isEmpty_cons, Bool.not_false, if_pos rfl, bind_eq_ok] at hrun
        obtain ⟨rest, hrest, heq⟩ := hrun
        obtain rfl := ih hchain.tail (List.cons_ne_nil _ _) hrest
        cases heq
        rfl

/-- What the loop over the chain hands to the fragmentation. -/
theorem Chain.partsOf_eq (hrun : partsOf fuel nextHeader (bytesOf headers ++ p) = .ok parts) :
    parts = ⟨linkFragment headers, keptSize headers, upper, p⟩ := by
  rw [partsOf, hchain.moreHeader_iff] at hrun
  cases headers with
  | nil =>
    have hlast : nextHeader = upper := hchain.linked
    cases hrun
    rw [hlast]
    rfl
  | cons header headers => exact hchain.headerLoop_eq (List.cons_ne_nil _ _) hrun

end

/-! ## The chain in a fragment -/

theorem length_linkFragment (headers : List ExtensionHeader) :
    (linkFragment headers).length = headers.length := by
  induction headers with
  | nil => rfl
  | cons header headers ih =>
    cases headers with
    | nil => rfl
    | cons next headers => exact congrArg Nat.succ ih

theorem length_bytesOf_linkFragment (headers : List ExtensionHeader) :
    (bytesOf (linkFragment headers)).length = (bytesOf headers).length := by
  induction headers with
  | nil => rfl
  | cons header headers ih =>
    cases headers with
    | nil =>
      rw [linkFragment, bytesOf, bytesOf, List.flatMap_singleton, List.flatMap_singleton]
      exact header.length_serialize_setNextHeader _
    | cons next headers =>
      rw [linkFragment, bytesOf_cons, bytesOf_cons header, List.length_append,
        List.length_append, ih]

def sentNextHeader (nextHeader : UInt8) (packet : Packet) : UInt8 :=
  if moreHeader nextHeader packet then nextHeader else IPV6_EXT_FRAGMENTATION

theorem Linked.linkFragment (hlinked : Linked upper nextHeader headers) (hne : headers ≠ []) :
    Linked IPV6_EXT_FRAGMENTATION nextHeader (linkFragment headers) := by
  induction headers generalizing nextHeader with
  | nil => exact absurd rfl hne
  | cons header headers ih =>
    cases headers with
    | nil =>
      exact ⟨hlinked.1.trans (header.kind_setNextHeader _).symm,
        header.nextHeader_setNextHeader _⟩
    | cons next headers => exact ⟨hlinked.1, ih hlinked.2 (List.cons_ne_nil _ _)⟩

/-- A fragment starts with the headers of the packet in their order, linked from the IPv6 header to
the fragment header, and fits in the size that was asked for. -/
structure ChainKept (headers : List ExtensionHeader) (upper nextHeader : UInt8)
    (maxFragmentSize : UInt32) (payload : Packet) : Prop where
  kept : ∃ fragmentHeader : FragmentHeader, ∃ data : Packet,
    payload = bytesOf (linkFragment headers) ++ (fragmentHeader.serialize ++ data) ∧
      fragmentHeader.nextHeader = upper
  linked : Linked IPV6_EXT_FRAGMENTATION nextHeader (linkFragment headers)
  fits : 40 + payload.length ≤ maxFragmentSize.toNat

theorem Chain.linked_sent (hchain : Chain upper p nextHeader headers) :
    Linked IPV6_EXT_FRAGMENTATION (sentNextHeader nextHeader (bytesOf headers ++ p))
      (linkFragment headers) := by
  rw [sentNextHeader, hchain.moreHeader_iff]
  cases headers with
  | nil => rfl
  | cons header headers => exact hchain.linked.linkFragment (List.cons_ne_nil _ _)

theorem length_encode (parts : Parts) (identification : UInt32) (f : Fragment) :
    (encode parts identification f).length =
      (unfragmentablePart parts).length + (8 + f.data.length) := by
  rw [encode, addHeaders_append]
  simp only [List.length_append, FragmentHeader.serialize, length_writeHtonU16,
    length_writeHtonU32, List.length_cons, List.length_nil]
  rw [← length_sentHeaders]
  rfl

theorem Chain.kept_iff {identification maxFragmentSize : UInt32} {f : Fragment}
    (hchain : Chain upper p nextHeader headers)
    (hparts : partsOf fuel nextHeader (bytesOf headers ++ p) = .ok parts) :
    ChainKept headers upper (sentNextHeader nextHeader (bytesOf headers ++ p)) maxFragmentSize
        (encode parts identification f) ↔
      headers.length ≤ 1 ∧
        48 + (bytesOf headers).length + f.data.length ≤ maxFragmentSize.toNat := by
  have horder := sentHeaders_eq_iff hparts
  have heq := hchain.partsOf_eq hparts
  have hunfrag : unfragmentablePart parts = bytesOf (linkFragment headers) := by
    rw [heq]
    rfl
  have hlen : parts.headers.length = headers.length := by
    rw [heq]
    exact length_linkFragment headers
  have hencode : encode parts identification f =
      sentHeaders parts ++ ((pieceHeader parts identification f).serialize ++ f.data) :=
    addHeaders_append _ _
  have hsize := length_encode parts identification f
  rw [hunfrag, length_bytesOf_linkFragment] at hsize
  rw [hlen] at horder
  constructor
  · rintro ⟨⟨fragmentHeader, data, hkept, -⟩, -, hfits⟩
    rw [hencode] at hkept
    rw [← hunfrag] at hkept
    obtain ⟨hsent, -⟩ := List.append_inj hkept (length_sentHeaders parts)
    exact ⟨horder.mp hsent, by omega⟩
  · rintro ⟨hone, hfits⟩
    refine ⟨⟨pieceHeader parts identification f, f.data, ?_, ?_⟩, hchain.linked_sent, by omega⟩
    · rw [hencode, horder.mpr hone, hunfrag]
    · rw [heq]
      rfl

/-! ## The size of a fragment -/

theorem length_header (hwell : header.WellFormed) :
    header.serialize.length = header.length ∧ header.length % 8 = 0 := by
  obtain ⟨hserialize, hlength⟩ := ExtensionHeader.length_serialize hwell
  refine ⟨hserialize.trans hlength.symm, ?_⟩
  rw [ExtensionHeader.length]
  omega

theorem keptSize_eq (hwell : ∀ header ∈ headers, header.WellFormed) (hone : headers.length ≤ 1) :
    (bytesOf headers).length % 8 = 0 ∧ keptSize headers = (bytesOf headers).length % 2 ^ 8 := by
  match headers, hone with
  | [], _ => exact ⟨rfl, rfl⟩
  | [header], _ =>
    obtain ⟨hlength, hmod⟩ := length_header (hwell header (.head _))
    rw [bytesOf, List.flatMap_singleton, hlength]
    exact ⟨hmod, rfl⟩

variable {pieces : List Fragment}

theorem Pieces.length_data_le {maxSize : Nat} (hp : Pieces p maxSize pieces) {f : Fragment}
    (hf : f ∈ pieces) : f.data.length ≤ p.length := by
  obtain ⟨i, hi, rfl⟩ := List.getElem_of_mem hf
  rcases Nat.lt_or_ge (i + 1) pieces.length with hmore | hlast
  · rw [(hp.more i hmore).2.2, Packet.length_createFragment]
    omega
  · rw [(hp.last i hi (by omega)).2.2, Packet.length_createFragment]
    omega

/-- When every fragment fits the limit, however the sizes wrap. -/
theorem Pieces.fit_iff {size max : Nat} (hmax : max < 2 ^ 32) (hsize : size % 8 = 0)
    (hp : Pieces p (wsub 32 (wsub 32 (wsub 32 max 40) (size % 2 ^ 8)) 8) pieces) :
    (∀ f ∈ pieces, 48 + size + f.data.length ≤ max) ↔
      (size < 2 ^ 8 ∧ 48 + size ≤ max) ∨ 48 + size + p.length ≤ max := by
  have hroom : 48 + size % 2 ^ 8 ≤ max →
      wsub 32 (wsub 32 (wsub 32 max 40) (size % 2 ^ 8)) 8 = max - 40 - size % 2 ^ 8 - 8 := by
    intro hle
    have hheader : wsub 32 max 40 = max - 40 := wsub_eq hmax (by omega)
    have hsub : wsub 32 (max - 40) (size % 2 ^ 8) = max - 40 - size % 2 ^ 8 :=
      wsub_eq (by omega) (by omega)
    rw [hheader, hsub]
    exact wsub_eq (by omega) (by omega)
  constructor
  · intro hall
    have hpos := hp.nonempty
    have hle := hall _ (List.getElem_mem hpos)
    rcases Nat.lt_or_ge 1 pieces.length with hmore | hone
    · -- a piece that is not the last is as long as the room, up to 7 bytes
      obtain ⟨hdata, -⟩ := hp.length_data (List.getElem_mem hpos)
      rw [hdata (by rw [hp.flag_eq, decide_eq_true hmore]), pieceSize, hroom (by omega)] at hle
      exact .inl (by omega)
    · obtain ⟨-, hdata⟩ := hp.length_data (List.getElem_mem hpos)
      have hlast : pieces[0].moreFragment = false := by
        rw [hp.flag_eq]
        exact decide_eq_false (by omega)
      rw [(hdata hlast).2.2, hp.offset_eq, pieceOffset, Nat.zero_mul, Nat.zero_mod,
        Nat.sub_zero] at hle
      exact .inr hle
  · rintro (⟨hbyte, hle⟩ | hle) f hf
    · obtain ⟨hmore, hlast⟩ := hp.length_data hf
      rw [hroom (by omega)] at hmore hlast
      cases hflag : f.moreFragment with
      | true =>
        rw [hmore hflag, pieceSize]
        omega
      | false =>
        obtain ⟨hreach, -, hdata⟩ := hlast hflag
        omega
    · have hdata := hp.length_data_le hf
      omega

/-- **The chain of extension headers.** Each fragment starts with the packet's headers, linked, and
fits, exactly when there is at most one header, and it is shorter than 256 bytes and the headers
fit, or the whole packet does. -/
theorem extension_chain_iff {maxFragmentSize identification : UInt32} {packets : List Packet}
    (hsize : (bytesOf headers ++ p).length < 2 ^ 32) (hchain : Chain upper p nextHeader headers)
    (hsent : getFragments fuel nextHeader (bytesOf headers ++ p) maxFragmentSize identification =
      .ok packets) :
    (∀ payload ∈ packets, ChainKept headers upper
        (sentNextHeader nextHeader (bytesOf headers ++ p)) maxFragmentSize payload) ↔
      headers.length ≤ 1 ∧
        (((bytesOf headers).length < 2 ^ 8 ∧
            48 + (bytesOf headers).length ≤ maxFragmentSize.toNat) ∨
          48 + (bytesOf headers).length + p.length ≤ maxFragmentSize.toNat) := by
  obtain ⟨parts, hparts, -⟩ := bind_eq_ok.mp hsent
  have heq := hchain.partsOf_eq hparts
  have hlen := length_partsOf hparts
  obtain ⟨pieces, rfl, hp⟩ := getFragments_pieces (by omega) hparts hsent
  have hkept : (∀ payload ∈ pieces.map (encode parts identification), ChainKept headers upper
        (sentNextHeader nextHeader (bytesOf headers ++ p)) maxFragmentSize payload) ↔
      headers.length ≤ 1 ∧ ∀ f ∈ pieces,
        48 + (bytesOf headers).length + f.data.length ≤ maxFragmentSize.toNat := by
    rw [List.forall_mem_map]
    constructor
    · intro hall
      have hfirst := (hchain.kept_iff hparts).mp (hall _ (List.getElem_mem hp.nonempty))
      exact ⟨hfirst.1, fun f hf => ((hchain.kept_iff hparts).mp (hall f hf)).2⟩
    · rintro ⟨hone, hfits⟩ f hf
      exact (hchain.kept_iff hparts).mpr ⟨hone, hfits f hf⟩
  rw [hkept]
  refine and_congr_right fun hone => ?_
  obtain ⟨hmod, hkeptSize⟩ := keptSize_eq (fun h hh => (hchain.unfragmentable h hh).1) hone
  rw [heq, maxFragmentablePartSize] at hp
  dsimp only at hp
  rw [hkeptSize] at hp
  exact hp.fit_iff maxFragmentSize.toNat_lt hmod

def hopHeader (nextHeader : UInt8) : ExtensionHeader := .hopByHop nextHeader 0 [1, 4, 0, 0, 0, 0]

def routingHeader (nextHeader : UInt8) : ExtensionHeader :=
  .looseRouting nextHeader 2 0 1 [List.replicate 16 1]

theorem unfragmentable_hopHeader (nextHeader : UInt8) : Unfragmentable (hopHeader nextHeader) :=
  ⟨rfl, fun h => absurd h (show IPV6_EXT_HOP_BY_HOP ≠ IPV6_EXT_DESTINATION by decide)⟩

theorem unfragmentable_routingHeader (nextHeader : UInt8) :
    Unfragmentable (routingHeader nextHeader) := by
  refine ⟨⟨rfl, rfl, ?_⟩,
    fun h => absurd h (show IPV6_EXT_ROUTING ≠ IPV6_EXT_DESTINATION by decide)⟩
  intro address haddress
  obtain rfl := List.mem_singleton.mp haddress
  rfl

def oneHeaderFirst : Packet :=
  [44, 0, 1, 4, 0, 0, 0, 0, 17, 0, 0, 1, 0, 0, 0, 7, 1, 2, 3, 4, 5, 6, 7, 8]

def oneHeaderLast : Packet :=
  [44, 0, 1, 4, 0, 0, 0, 0, 17, 0, 0, 8, 0, 0, 0, 7, 9, 10, 11, 12, 13, 14, 15, 16]

/-- A packet with one header, in two fragments. -/
theorem extension_chain_one :
    ChainKept [hopHeader 17] 17 IPV6_EXT_HOP_BY_HOP 64 oneHeaderFirst ∧
      ChainKept [hopHeader 17] 17 IPV6_EXT_HOP_BY_HOP 64 oneHeaderLast := by
  have hchain : Chain 17 smallPacket IPV6_EXT_HOP_BY_HOP [hopHeader 17] := by
    refine ⟨⟨rfl, rfl⟩, fun h hh => ?_, rfl⟩
    rw [List.mem_singleton.mp hh]
    exact unfragmentable_hopHeader 17
  have hsent : getFragments 2 IPV6_EXT_HOP_BY_HOP (bytesOf [hopHeader 17] ++ smallPacket) 64 7 =
      .ok [oneHeaderFirst, oneHeaderLast] := by decide
  have hall := (extension_chain_iff (by decide) hchain hsent).mpr
    ⟨Nat.le_refl 1, .inl (by decide)⟩
  exact ⟨hall _ (.head _), hall _ (.tail _ (.head _))⟩

def twoHeaders : List ExtensionHeader := [hopHeader IPV6_EXT_ROUTING, routingHeader 17]

/-- The start of the first fragment: the routing header, now followed by a fragment header, in front
of the hop-by-hop header. -/
def swappedHeaders : Packet :=
  [44, 2, 0, 1, 0, 0, 0, 0, 1, 1, 1, 1, 1, 1, 1, 1, 1, 1, 1, 1, 1, 1, 1, 1, 43, 0, 1, 4, 0, 0, 0, 0]

/-- A packet with two headers: its fragments have them in the wrong order. -/
theorem two_headers_swapped :
    Chain 17 smallPacket IPV6_EXT_HOP_BY_HOP twoHeaders ∧
      ∃ payload rest, getFragments 2 IPV6_EXT_HOP_BY_HOP (bytesOf twoHeaders ++ smallPacket) 88 7 =
          .ok (payload :: rest) ∧
        payload.take 32 = swappedHeaders ∧
        ¬ChainKept twoHeaders 17
          (sentNextHeader IPV6_EXT_HOP_BY_HOP (bytesOf twoHeaders ++ smallPacket)) 88 payload := by
  refine ⟨⟨⟨rfl, rfl, rfl⟩, fun h hh => ?_, rfl⟩,
    swappedHeaders ++ [17, 0, 0, 1, 0, 0, 0, 7, 1, 2, 3, 4, 5, 6, 7, 8],
    [swappedHeaders ++ [17, 0, 0, 8, 0, 0, 0, 7, 9, 10, 11, 12, 13, 14, 15, 16]],
    by decide, rfl, ?_⟩
  · rcases List.mem_cons.mp hh with rfl | hh
    · exact unfragmentable_hopHeader _
    · rw [List.mem_singleton.mp hh]
      exact unfragmentable_routingHeader 17
  · rintro ⟨⟨fragmentHeader, data, hkept, -⟩, -, -⟩
    -- the packet starts with the hop-by-hop header, which announces the routing header
    have hfirst : (44 : UInt8) = 43 := (List.cons.inj hkept).1
    exact absurd hfirst (by decide)

end V6

end Ns3.Ip
