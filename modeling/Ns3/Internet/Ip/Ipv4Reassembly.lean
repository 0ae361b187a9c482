/-
  When a datagram is reassembled.

  Every fragment, and every fragment of a fragment, is a slice of the payload, and the
  one that ends with it is flagged as the last.  The list of the receiver is complete when
  its slices cover the payload and the one that is last in the list is flagged so.
-/
import Ns3.Internet.Ip.Ipv4Fragmentation

namespace Ns3.Ip

open Lib

/-! ## Fragments are slices -/

variable {fragments : List Ipv4Datagram}

/-- The datagram is a slice of a payload, at the offset in its header. -/
structure SliceOf (key : FragmentKey) (payload : Packet) (d : Ipv4Datagram) : Prop where
  key_eq : d.header.key = key
  headerSize_eq : d.header.headerSize = 20
  aligned : d.header.fragmentOffset % 8 = 0
  fits : d.header.fragmentOffset + d.payload.length ≤ payload.length
  data_eq : d.payload = payload.createFragment d.header.fragmentOffset d.payload.length
  last_iff : d.header.moreFragments = false ↔
    d.header.fragmentOffset + d.payload.length = payload.length

variable {key : FragmentKey} {payload : Packet} {d : Ipv4Datagram} {fuel : Nat}

theorem createFragment_createFragment (p : Packet) {start length offset size : Nat}
    (h : offset + size ≤ length) :
    (p.createFragment start length).createFragment offset size =
      p.createFragment (start + offset) size := by
  rw [Packet.createFragment, Packet.createFragment, Packet.createFragment, List.drop_take,
    List.drop_drop, List.take_take, Nat.min_eq_left (by omega)]

theorem SliceOf.cut (hd : SliceOf key payload d) {offset size : Nat} (more : Bool)
    (haligned : offset % 8 = 0)
    (hfits : offset + size ≤ d.payload.length)
    (hmore : more = false ↔ offset + size = d.payload.length) :
    SliceOf key payload ⟨d.payload.createFragment offset size,
      { d.header with
        moreFragments := more || d.header.moreFragments
        fragmentOffset := offset + d.header.fragmentOffset
        payloadSize := size % 2 ^ 16 }⟩ := by
  have hroom := hd.fits
  have hdata := hd.data_eq
  have hlength : (d.payload.createFragment offset size).length = size := by
    rw [Packet.length_createFragment]
    omega
  refine ⟨hd.key_eq, hd.headerSize_eq, ?_, ?_, ?_, ?_⟩
  · have haligned' := hd.aligned
    change (offset + d.header.fragmentOffset) % 8 = 0
    omega
  · change offset + d.header.fragmentOffset + (d.payload.createFragment offset size).length ≤ _
    rw [hlength]
    omega
  · change d.payload.createFragment offset size = payload.createFragment
      (offset + d.header.fragmentOffset) (d.payload.createFragment offset size).length
    rw [hlength, hdata, createFragment_createFragment payload (by omega), Nat.add_comm]
  · have hlast := hd.last_iff
    change (more || d.header.moreFragments) = false ↔
      offset + d.header.fragmentOffset + (d.payload.createFragment offset size).length = _
    rw [hlength, Bool.or_eq_false_iff, hmore, hlast]
    omega

theorem fragmentLoop_slices (hd : SliceOf key payload d) (hsmall : payload.length ≤ 65515)
    {fragmentSize offset : Nat} (hsize : fragmentSize % 8 = 0) (hword : fragmentSize < 2 ^ 32)
    (haligned : offset % 8 = 0) (hoffset : offset ≤ d.payload.length)
    (hagain : offset = 0 ∨ fragmentSize < d.payload.length)
    (hrun : fragmentLoop d.payload d.header fragmentSize fuel offset = .ok fragments) :
    ∀ f ∈ fragments, SliceOf key payload f := by
  have hroom := hd.fits
  induction fuel generalizing offset fragments with
  | zero => cases hrun
  | succ fuel ih =>
    have hsum : (offset + fragmentSize) % 2 ^ 32 = offset + fragmentSize :=
      Nat.mod_eq_of_lt (by omega)
    have hshort : (offset + d.header.fragmentOffset) % 2 ^ 16 = offset + d.header.fragmentOffset :=
      Nat.mod_eq_of_lt (by omega)
    have haligned' := hd.aligned
    have hflag : (!d.header.isLastFragment) = d.header.moreFragments := Bool.not_not _
    rw [fragmentLoop, hsum, hshort, hflag] at hrun
    dsimp only at hrun
    by_cases hmore : offset + fragmentSize < d.payload.length
    · rw [decide_eq_true hmore, if_pos rfl, nsAssert_of (by omega), ok_bind,
        Ipv4Header.setFragmentOffset, if_neg (by omega), ok_bind, if_pos rfl] at hrun
      have hnext : (offset + fragmentSize) % 2 ^ 16 = offset + fragmentSize :=
        Nat.mod_eq_of_lt (by omega)
      rw [hnext] at hrun
      obtain ⟨rest, hrest, rfl⟩ := bind_pure_eq_ok.mp hrun
      intro f hf
      rcases List.mem_cons.mp hf with rfl | hf
      · exact hd.cut true haligned (by omega)
          ⟨nofun, fun heq => absurd heq (by omega)⟩
      · exact ih (by omega) (by omega) (.inr (by omega)) hrest f hf
    · have hrest : wsub 32 d.payload.length offset = d.payload.length - offset :=
        wsub_eq (by omega) hoffset
      rw [decide_eq_false hmore, if_neg (by decide), hrest, nsAssert_of (by omega), ok_bind,
        Ipv4Header.setFragmentOffset, if_neg (by omega), ok_bind, if_neg (by decide)] at hrun
      cases hrun
      intro f hf
      obtain rfl := List.mem_singleton.mp hf
      exact hd.cut false haligned (by omega)
        ⟨fun _ => by omega, fun _ => rfl⟩

theorem fragmentSize_of {mtu : UInt32} (hmtu : 68 ≤ mtu.toNat) :
    wsub 32 mtu.toNat 20 / 8 * 8 = (mtu.toNat - 20) / 8 * 8 := by
  rw [wsub_eq mtu.toNat_lt (by omega)]

theorem doFragmentation_slices (hd : SliceOf key payload d) (hsmall : payload.length ≤ 65515)
    {mtu : UInt32} (hmtu : 68 ≤ mtu.toNat) (hrun : doFragmentation fuel d mtu = .ok fragments) :
    ∀ f ∈ fragments, SliceOf key payload f := by
  have hlt : mtu.toNat < 2 ^ 32 := mtu.toNat_lt
  rw [doFragmentation, nsAssert_of hd.headerSize_eq, ok_bind, hd.headerSize_eq] at hrun
  dsimp only at hrun
  rw [fragmentSize_of hmtu] at hrun
  exact fragmentLoop_slices hd hsmall (by omega) (by omega) rfl (Nat.zero_le _) (.inl rfl) hrun

def datagram (key : FragmentKey) (payload : Packet) : Ipv4Datagram where
  payload := payload
  header :=
    { source := key.1
      destination := key.2.1
      identification := key.2.2.1
      protocol := key.2.2.2
      payloadSize := payload.length }

/-- Fragments of a datagram, fragmented again any number of times. -/
inductive FragmentOf (key : FragmentKey) (payload : Packet) : Ipv4Datagram → Prop where
  | once {fuel : Nat} {mtu : UInt32} {fragments : List Ipv4Datagram} {f : Ipv4Datagram}
      (hmtu : 68 ≤ mtu.toNat)
      (hrun : doFragmentation fuel (datagram key payload) mtu = .ok fragments)
      (hf : f ∈ fragments) : FragmentOf key payload f
  | again {fuel : Nat} {mtu : UInt32} {fragments : List Ipv4Datagram} {d f : Ipv4Datagram}
      (hd : FragmentOf key payload d) (hmtu : 68 ≤ mtu.toNat)
      (hrun : doFragmentation fuel d mtu = .ok fragments) (hf : f ∈ fragments) :
      FragmentOf key payload f

theorem sliceOf_datagram (key : FragmentKey) (payload : Packet) :
    SliceOf key payload (datagram key payload) where
  key_eq := rfl
  headerSize_eq := rfl
  aligned := rfl
  fits := Nat.le_of_eq (Nat.zero_add _)
  data_eq := by
    change payload = (payload.drop 0).take payload.length
    rw [List.drop_zero, List.take_length]
  last_iff := iff_of_true rfl (Nat.zero_add _)

theorem FragmentOf.sliceOf (h : FragmentOf key payload d) (hsmall : payload.length ≤ 65515) :
    SliceOf key payload d := by
  induction h with
  | once hmtu hrun hf =>
    exact doFragmentation_slices (sliceOf_datagram key payload) hsmall hmtu hrun _ hf
  | again _ hmtu hrun hf ih => exact doFragmentation_slices ih hsmall hmtu hrun _ hf

/-! ## The list of the receiver -/

variable {received : List Fragment}

/-- A fragment holds the bytes of the payload at its offset, and is flagged as the last when it
ends with it. -/
structure Fragment.Of (payload : Packet) (f : Fragment) : Prop where
  fits : f.stop ≤ payload.length
  data_eq : f.data = payload.createFragment f.fragmentOffset f.data.length
  last_iff : f.moreFragment = false ↔ f.stop = payload.length

theorem SliceOf.fragment (hd : SliceOf key payload d) : d.fragment.Of payload where
  fits := hd.fits
  data_eq := hd.data_eq
  last_iff := by
    have hflag : d.fragment.moreFragment = d.header.moreFragments := Bool.not_not _
    rw [hflag]
    exact hd.last_iff

/-- The fragments cover every byte of the payload, and include its end. -/
def Covers (payload : Packet) (received : List Fragment) : Prop :=
  (∀ i < payload.length, ∃ f ∈ received, f.fragmentOffset ≤ i ∧ i < f.stop) ∧
    ∃ f ∈ received, f.stop = payload.length

def EndsLatest (payload : Packet) (received : List Fragment) : Prop :=
  ∃ f, LatestGreatest Fragment.fragmentOffset received f ∧ f.stop = payload.length

variable {l : List Fragment}

theorem contiguous_iff (hl : ∀ f ∈ l, f.Of payload) (hsmall : payload.length ≤ 65515) (e : Nat) :
    contiguous e (l.map fun f => (f.data, f.fragmentOffset)) = true ↔
      NoGap Fragment.fragmentOffset Fragment.stop e l := by
  induction l generalizing e with
  | nil => exact iff_of_true rfl trivial
  | cons f l ih =>
    have hfits := (hl f (.head _)).fits
    have hstop : (f.data.length + f.fragmentOffset) % 2 ^ 16 = f.stop := by
      rw [Fragment.stop] at hfits ⊢
      rw [Nat.add_comm, Nat.mod_eq_of_lt (by omega)]
    rw [List.map_cons, contiguous, NoGap, hstop, ← Nat.not_lt]
    split
    · rename_i hlt
      exact ⟨nofun, fun h => absurd hlt h.1⟩
    · rename_i hle
      rw [ih fun g hg => hl g (.tail _ hg)]
      exact ⟨fun h => ⟨hle, h⟩, fun h => h.2⟩

theorem isEntire_iff (hof : ∀ f ∈ received, f.Of payload) (hsmall : payload.length ≤ 65515) :
    isEntire (.ofReceived received) = true ↔
      Covers payload received ∧ EndsLatest payload received := by
  have hof' : ∀ f ∈ inOrder received, f.Of payload := fun f hf => hof f (mem_inOrder.mp hf)
  have hentire : isEntire (.ofReceived received) = true ↔
      ((inOrder received).getLast?.elim false (·.moreFragment) = false ∧ inOrder received ≠ []) ∧
        NoGap Fragment.fragmentOffset Fragment.stop 0 (inOrder received) := by
    rw [← contiguous_iff hof' hsmall, isEntire, FragmentList.ofReceived]
    simp only [Bool.and_eq_true, Bool.not_eq_true', List.isEmpty_eq_false_iff, ne_eq,
      List.map_eq_nil_iff]
  have hlatest : ((inOrder received).getLast?.elim false (·.moreFragment) = false ∧
      inOrder received ≠ []) ↔ EndsLatest payload received := by
    constructor
    · rintro ⟨hflag, hne⟩
      obtain ⟨f, hlast⟩ := Option.ne_none_iff_exists'.mp (mt List.getLast?_eq_none_iff.mp hne)
      rw [hlast] at hflag
      exact ⟨f, getLast?_placed.mp hlast,
        (hof' f (List.mem_of_getLast? hlast)).last_iff.mp hflag⟩
    · rintro ⟨f, hf, hstop⟩
      have hlast : (inOrder received).getLast? = some f := hf.getLast?
      refine ⟨?_, ?_⟩
      · rw [hlast]
        exact (hof' f (List.mem_of_getLast? hlast)).last_iff.mpr hstop
      · intro hnil
        rw [hnil] at hlast
        cases hlast
  rw [hentire, hlatest]
  constructor
  · rintro ⟨hend, hgap⟩
    obtain ⟨f, hf, hstop⟩ := hend
    have hmem : f ∈ inOrder received := List.mem_of_getLast? hf.getLast?
    refine ⟨⟨fun i hi => ?_, f, mem_inOrder.mp hmem, hstop⟩, f, hf, hstop⟩
    have hreach : f.stop ≤ reach Fragment.stop 0 (inOrder received) := stop_le_reach hmem
    obtain ⟨g, hg, hcover⟩ := hgap.covers (Nat.zero_le i) (by omega)
    exact ⟨g, mem_inOrder.mp hg, hcover⟩
  · rintro ⟨⟨hcover, -⟩, hend⟩
    refine ⟨hend, noGap_of_covers (n := payload.length) (inOrder_sorted received) ?_ ?_⟩
    · intro f hf
      exact (Nat.le_add_right _ _).trans (hof' f hf).fits
    · intro i _ hi
      obtain ⟨f, hf, hcovered⟩ := hcover i hi
      exact ⟨f, mem_inOrder.mpr hf, hcovered⟩

/-! ## The packet that is returned -/

theorem take_append_createFragment (p : Packet) (e n : Nat) :
    p.take e ++ p.createFragment e n = p.take (e + n) := List.take_add.symm

theorem joinFragments_eq (hl : ∀ f ∈ l, f.Of payload) (hsmall : payload.length ≤ 65515) {e : Nat}
    (he : e ≤ payload.length) (hgap : NoGap Fragment.fragmentOffset Fragment.stop e l) :
    joinFragments (payload.take e) e (l.map fun f => (f.data, f.fragmentOffset)) =
      payload.take (reach Fragment.stop e l) := by
  induction l generalizing e with
  | nil => rfl
  | cons f l ih =>
    obtain ⟨hstart, hgap⟩ := hgap
    have hf := hl f (.head _)
    have hfits := hf.fits
    have hjoin : (if e > f.fragmentOffset then
          if f.data.length > e - f.fragmentOffset then
            Packet.addAtEnd (payload.take e) (f.data.createFragment (e - f.fragmentOffset)
              (f.data.length - (e - f.fragmentOffset)))
          else payload.take e
        else Packet.addAtEnd (payload.take e) f.data) = payload.take (max e f.stop) := by
      have hstop : f.stop = f.fragmentOffset + f.data.length := rfl
      split
      · split
        · have hdata : f.data.createFragment (e - f.fragmentOffset)
              (f.data.length - (e - f.fragmentOffset)) =
              payload.createFragment e (f.stop - e) := by
            have hsum : f.fragmentOffset + (e - f.fragmentOffset) = e := by omega
            have hsize : f.data.length - (e - f.fragmentOffset) = f.stop - e := by omega
            rw [hf.data_eq, createFragment_createFragment payload (by
              rw [← hf.data_eq]; omega), ← hf.data_eq, hsum, hsize]
          rw [Packet.addAtEnd, hdata, take_append_createFragment, Nat.max_eq_right (by omega)]
          congr 1
          omega
        · rw [Nat.max_eq_left (by omega)]
      · have heq : e = f.fragmentOffset := by omega
        rw [Packet.addAtEnd, hf.data_eq, ← heq, take_append_createFragment,
          Nat.max_eq_right (by omega), hstop, heq]
    have hlength : (payload.take (max e f.stop)).length = max e f.stop := by
      rw [List.length_take]
      omega
    have hword : max e f.stop % 2 ^ 16 = max e f.stop := Nat.mod_eq_of_lt (by omega)
    rw [List.map_cons, joinFragments]
    dsimp only
    rw [hjoin, hlength, hword]
    exact ih (fun g hg => hl g (.tail _ hg)) (by omega) hgap

theorem getPacket_eq (hof : ∀ f ∈ received, f.Of payload) (hsmall : payload.length ≤ 65515)
    (hentire : isEntire (.ofReceived received) = true) :
    getPacket (.ofReceived received) = .ok payload := by
  have hof' : ∀ f ∈ inOrder received, f.Of payload := fun f hf => hof f (mem_inOrder.mp hf)
  obtain ⟨-, f, hf, hstop⟩ := (isEntire_iff hof hsmall).mp hentire
  have hlast : f ∈ inOrder received := List.mem_of_getLast? hf.getLast?
  rw [isEntire, FragmentList.ofReceived, Bool.and_eq_true, contiguous_iff hof' hsmall] at hentire
  obtain ⟨-, hgap⟩ := hentire
  rw [getPacket, FragmentList.ofReceived]
  cases hlist : inOrder received with
  | nil =>
    rw [hlist] at hlast
    cases hlast
  | cons g l =>
    rw [hlist] at hgap hlast hof'
    have hg := hof' g (.head _)
    have hfits := hg.fits
    have hreach : f.stop ≤ reach Fragment.stop 0 (g :: l) := stop_le_reach hlast
    obtain ⟨hzero, hgap⟩ := hgap
    have hoffset : g.fragmentOffset = 0 := Nat.le_zero.mp hzero
    have hstart : g.stop = g.data.length := by rw [Fragment.stop, hoffset, Nat.zero_add]
    have hdata : g.data = payload.take g.stop := by
      have hfirst := hg.data_eq
      rw [hoffset, Packet.createFragment, List.drop_zero] at hfirst
      rw [hstart]
      exact hfirst
    have hword : g.data.length % 2 ^ 16 = g.stop := by
      rw [← hstart, Nat.mod_eq_of_lt (by omega)]
    rw [Nat.zero_max] at hgap
    have hjoin :=
      joinFragments_eq (fun h hh => hof' h (.tail _ hh)) hsmall hfits hgap
    have hall : payload.length ≤ reach Fragment.stop g.stop l := by
      rw [← hstop, ← Nat.zero_max g.stop]
      exact hreach
    rw [List.map_cons]
    dsimp only
    rw [hword]
    conv_lhs => rw [hdata]
    rw [hjoin, List.take_of_length_le hall]

/-! ## Runs -/

/-- What is to be reported for each arrival: the payload as soon as what has arrived since the
last report covers it, and nothing before. -/
inductive Reports (payload : Packet) :
    List Fragment → List Fragment → List (Option Packet) → Prop where
  | nil {received : List Fragment} : Reports payload received [] []
  | complete {received arrivals : List Fragment} {f : Fragment} {reports : List (Option Packet)}
      (hcovers : Covers payload (received ++ [f])) (hrest : Reports payload [] arrivals reports) :
      Reports payload received (f :: arrivals) (some payload :: reports)
  | incomplete {received arrivals : List Fragment} {f : Fragment} {reports : List (Option Packet)}
      (hcovers : ¬Covers payload (received ++ [f]))
      (hrest : Reports payload (received ++ [f]) arrivals reports) :
      Reports payload received (f :: arrivals) (none :: reports)

/-- Whenever what has arrived covers the payload, the latest fragment of the greatest offset
ends with it. -/
inductive EndsLatestWhenCovered (payload : Packet) : List Fragment → List Fragment → Prop where
  | nil {received : List Fragment} : EndsLatestWhenCovered payload received []
  | complete {received arrivals : List Fragment} {f : Fragment}
      (hcovers : Covers payload (received ++ [f])) (hends : EndsLatest payload (received ++ [f]))
      (hrest : EndsLatestWhenCovered payload [] arrivals) :
      EndsLatestWhenCovered payload received (f :: arrivals)
  | incomplete {received arrivals : List Fragment} {f : Fragment}
      (hcovers : ¬Covers payload (received ++ [f]))
      (hrest : EndsLatestWhenCovered payload (received ++ [f]) arrivals) :
      EndsLatestWhenCovered payload received (f :: arrivals)

theorem processFragment_eq {m : FragmentsMap} (hm : (m key).getD {} = .ofReceived received)
    (hd : SliceOf key payload d) (hsmall : payload.length ≤ 65515)
    (hof : ∀ f ∈ received ++ [d.fragment], f.Of payload) :
    (Covers payload (received ++ [d.fragment]) ∧ EndsLatest payload (received ++ [d.fragment]) ∧
        processFragment m d = .ok (Function.update m key none, some payload)) ∨
      (¬(Covers payload (received ++ [d.fragment]) ∧
        EndsLatest payload (received ++ [d.fragment])) ∧
        processFragment m d = .ok (Function.update m key
          (some (.ofReceived (received ++ [d.fragment]))), none)) := by
  have hiff := isEntire_iff hof hsmall
  rw [processFragment, hd.key_eq, hm, FragmentList.addFragment_ofReceived]
  cases hentire : isEntire (.ofReceived (received ++ [d.fragment])) with
  | true =>
    obtain ⟨hcovers, hends⟩ := hiff.mp hentire
    left
    refine ⟨hcovers, hends, ?_⟩
    rw [if_pos rfl, getPacket_eq hof hsmall hentire]
    rfl
  | false =>
    right
    refine ⟨fun h => ?_, rfl⟩
    rw [hiff.mpr h] at hentire
    cases hentire

/-- **Reassembly** reports as soon as the fragments cover the payload, and only then, exactly if the
latest fragment of the greatest offset then ends with it. -/
theorem reassembly_iff {m : FragmentsMap} {arrivals : List Ipv4Datagram}
    (hsmall : payload.length ≤ 65515) (hm : (m key).getD {} = .ofReceived received)
    (hof : ∀ f ∈ received, f.Of payload) (harrivals : ∀ d ∈ arrivals, SliceOf key payload d) :
    (∃ reports, processAll m arrivals = .ok reports ∧
        Reports payload received (arrivals.map (·.fragment)) reports) ↔
      EndsLatestWhenCovered payload received (arrivals.map (·.fragment)) := by
  induction arrivals generalizing m received with
  | nil => exact iff_of_true ⟨[], rfl, .nil⟩ .nil
  | cons d arrivals ih =>
    have hd := harrivals d (.head _)
    have hrest : ∀ d ∈ arrivals, SliceOf key payload d :=
      fun d hd => harrivals d (.tail _ hd)
    have hof' : ∀ f ∈ received ++ [d.fragment], f.Of payload := by
      intro f hf
      rcases List.mem_append.mp hf with hf | hf
      · exact hof f hf
      · obtain rfl := List.mem_singleton.mp hf
        exact hd.fragment
    rw [List.map_cons]
    rcases processFragment_eq hm hd hsmall hof' with
      ⟨hcovers, hends, hstep⟩ | ⟨hnot, hstep⟩
    · have hm' : ((Function.update m key none) key).getD {} = .ofReceived [] := by
        rw [Function.update_self]
        rfl
      have ih := ih hm' (List.forall_mem_nil _) hrest
      constructor
      · rintro ⟨reports, hrun, hreports⟩
        rw [processAll, hstep, ok_bind] at hrun
        obtain ⟨rest, hrun', rfl⟩ := bind_pure_eq_ok.mp hrun
        cases hreports with
        | complete _ hreports => exact .complete hcovers hends (ih.mp ⟨rest, hrun', hreports⟩)
      · intro h
        cases h with
        | incomplete hnot _ => exact absurd hcovers hnot
        | complete _ _ h =>
          obtain ⟨rest, hrun, hreports⟩ := ih.mpr h
          refine ⟨some payload :: rest, ?_, .complete hcovers hreports⟩
          rw [processAll, hstep, ok_bind]
          dsimp only
          rw [hrun]
          rfl
    · have hm' : ((Function.update m key (some (.ofReceived (received ++ [d.fragment])))) key).getD
          {} = .ofReceived (received ++ [d.fragment]) := by
        rw [Function.update_self]
        rfl
      have ih := ih hm' hof' hrest
      constructor
      · rintro ⟨reports, hrun, hreports⟩
        rw [processAll, hstep, ok_bind] at hrun
        obtain ⟨rest, hrun', rfl⟩ := bind_pure_eq_ok.mp hrun
        cases hreports with
        | incomplete hcovers hreports => exact .incomplete hcovers (ih.mp ⟨rest, hrun', hreports⟩)
      · intro h
        cases h with
        | complete hcovers hends _ => exact absurd ⟨hcovers, hends⟩ hnot
        | incomplete hcovers h =>
          obtain ⟨rest, hrun, hreports⟩ := ih.mpr h
          refine ⟨none :: rest, ?_, .incomplete hcovers hreports⟩
          rw [processAll, hstep, ok_bind]
          dsimp only
          rw [hrun]
          rfl

/-- **IPv4 reassembly** of a datagram that was fragmented any number of times is exact precisely if,
whenever the fragments cover the payload, the latest one of the greatest offset ends with it. -/
theorem ipv4_reassembly_iff (key : FragmentKey) (payload : Packet) (m : FragmentsMap)
    (arrivals : List Ipv4Datagram) (hsmall : payload.length ≤ 65515) (hm : m key = none)
    (harrivals : ∀ d ∈ arrivals, FragmentOf key payload d) :
    (∃ reports, processAll m arrivals = .ok reports ∧
        Reports payload [] (arrivals.map (·.fragment)) reports) ↔
      EndsLatestWhenCovered payload [] (arrivals.map (·.fragment)) := by
  apply reassembly_iff hsmall
  · rw [hm]
    rfl
  · exact List.forall_mem_nil _
  · exact fun d hd => (harrivals d hd).sliceOf hsmall

def udpKey : FragmentKey := (0x0a000001, 0x0a000002, 7, 17)

def piece (payload : Packet) (offset size : Nat) (more : Bool) : Ipv4Datagram where
  payload := payload.createFragment offset size
  header :=
    { (datagram udpKey payload).header with
      fragmentOffset := offset, moreFragments := more, payloadSize := size }

/-- Two fragments arrive in the wrong order. -/
theorem ipv4_reassembly_reordered : ∃ reports, processAll (fun _ => none)
      [piece (List.replicate 60 1) 48 12 false, piece (List.replicate 60 1) 0 48 true] =
        .ok reports ∧
    Reports (List.replicate 60 1) [] ([piece (List.replicate 60 1) 48 12 false,
      piece (List.replicate 60 1) 0 48 true].map (·.fragment)) reports := by
  have hrun : doFragmentation 3 (datagram udpKey (List.replicate 60 1)) 68 =
      .ok [piece (List.replicate 60 1) 0 48 true, piece (List.replicate 60 1) 48 12 false] := by
    decide
  apply (ipv4_reassembly_iff udpKey (List.replicate 60 1) (fun _ => none) _ (by decide) rfl _).mpr
  · apply EndsLatestWhenCovered.incomplete
    · rintro ⟨hcover, -⟩
      obtain ⟨f, hf, hle, -⟩ := hcover 0 (by decide)
      obtain rfl := List.mem_singleton.mp hf
      exact absurd hle (by decide)
    · apply EndsLatestWhenCovered.complete
      · exact ⟨by decide, by decide⟩
      · exact ⟨_, ⟨[], _, rfl, by decide, by decide⟩, by decide⟩
      · exact .nil
  · intro d hd
    rcases List.mem_cons.mp hd with rfl | hd
    · exact .once (by decide) hrun (by decide)
    · obtain rfl := List.mem_singleton.mp hd
      exact .once (by decide) hrun (by decide)

/-- The last fragment arrives, then the first part of a copy of it that was fragmented again, then
the first fragment: nothing is reported. -/
theorem ipv4_reassembly_stuck :
    let payload : Packet := List.replicate 112 1
    let arrivals := [piece payload 56 56 false, piece payload 56 48 true, piece payload 0 56 true]
    (∀ d ∈ arrivals, FragmentOf udpKey payload d) ∧ Covers payload (arrivals.map (·.fragment)) ∧
      processAll (fun _ => none) arrivals = .ok [none, none, none] := by
  have hrun : doFragmentation 3 (datagram udpKey (List.replicate 112 1)) 76 =
      .ok [piece (List.replicate 112 1) 0 56 true, piece (List.replicate 112 1) 56 56 false] := by
    decide +kernel
  have hagain : doFragmentation 3 (piece (List.replicate 112 1) 56 56 false) 68 =
      .ok [piece (List.replicate 112 1) 56 48 true, piece (List.replicate 112 1) 104 8 false] := by
    decide +kernel
  have hlast :
      FragmentOf udpKey (List.replicate 112 1) (piece (List.replicate 112 1) 56 56 false) :=
    .once (by decide) hrun (by decide)
  refine ⟨?_, ⟨by decide +kernel, by decide +kernel⟩, by decide +kernel⟩
  intro d hd
  rcases List.mem_cons.mp hd with rfl | hd
  · exact hlast
  · rcases List.mem_cons.mp hd with rfl | hd
    · exact .again hlast (by decide) hagain (by decide)
    · obtain rfl := List.mem_singleton.mp hd
      exact .once (by decide) hrun (by decide)

end Ns3.Ip
