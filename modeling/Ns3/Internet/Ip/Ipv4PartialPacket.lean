/-
  What is left of a datagram that is not complete in
  time (GetPartialPacket, src/internet/model/ipv4-l3-protocol.cc).

  GetPartialPacket joins the fragments up to the first gap.  It cuts off the part of a
  fragment that is there already and does not ask whether anything remains: of a fragment
  that lies inside, it asks CreateFragment for a part that starts behind its end.  The
  calls of CreateFragment are recorded here with their arguments.
-/
import Ns3.Internet.Ip.Ipv4Reassembly

namespace Ns3

open Lib

/-- A call of `CreateFragment` on a packet of some size. -/
structure CreateFragmentCall where
  size : Nat
  start : Nat
  length : Nat
  deriving DecidableEq, Repr

/-- The part that is asked for is a part of the packet. -/
def CreateFragmentCall.InRange (call : CreateFragmentCall) : Prop :=
  call.start + call.length ≤ call.size

instance (call : CreateFragmentCall) : Decidable call.InRange :=
  inferInstanceAs (Decidable (_ ≤ _))

/-- `Packet::CreateFragment` for any 32-bit arguments, without metadata: the sum wraps, and
`Buffer::RemoveAtStart` and `Buffer::RemoveAtEnd` remove no more than there is. -/
def Packet.createFragmentWrapping (p : Packet) (start length : Nat) : Except Fault Packet := do
  nsAssert (decide (wadd 32 start length ≤ p.length))
  let rest := p.removeAtStart start
  pure (rest.take (rest.length - wsub 32 p.length (wadd 32 start length)))

namespace Ip

/-- The loop of `GetPartialPacket`: the packet so far, continued, and the calls that are made. -/
def joinPartial (p : Packet) (lastEndOffset : Nat) :
    List (Packet × Nat) → Except Fault (Packet × List CreateFragmentCall)
  | [] => .ok (p, [])
  | it :: rest =>
    if lastEndOffset > it.2 then do
      let newStart := lastEndOffset - it.2
      let newSize := wsub 32 it.1.length newStart
      let tempFragment ← it.1.createFragmentWrapping newStart newSize
      let p := p.addAtEnd tempFragment
      let (p, calls) ← joinPartial p (p.length % 2 ^ 16) rest
      pure (p, ⟨it.1.length, newStart, newSize⟩ :: calls)
    else if lastEndOffset = it.2 then
      let p := p.addAtEnd it.1
      joinPartial p (p.length % 2 ^ 16) rest
    else joinPartial p (p.length % 2 ^ 16) rest

def getPartialPacket (s : FragmentList) : Except Fault (Packet × List CreateFragmentCall) :=
  match s.fragments with
  | [] => .error .badIterator
  | it :: rest => if it.2 > 0 then .ok ([], []) else joinPartial [] 0 (it :: rest)

/-- The fragment is a piece of the payload. -/
structure Fragment.PartOf (payload : Packet) (f : Fragment) : Prop where
  fits : f.stop ≤ payload.length
  data_eq : f.data = payload.createFragment f.fragmentOffset f.data.length

instance (payload : Packet) (f : Fragment) : Decidable (f.PartOf payload) :=
  decidable_of_iff (f.stop ≤ payload.length ∧
    f.data = payload.createFragment f.fragmentOffset f.data.length)
    ⟨fun h => ⟨h.1, h.2⟩, fun h => ⟨h.1, h.2⟩⟩

/-- No fragment ends before the end of the prefix that the ones stored before it cover. -/
def NoneEmbedded (stored : List Fragment) : Prop :=
  ∀ front f back n, stored = front ++ f :: back →
    LongestPrefix Fragment.fragmentOffset Fragment.stop front n → n ≤ f.stop

/-- As the loop goes: from `e` on, no fragment that starts in front of what has been joined
ends there too. -/
def Protrudes : Nat → List Fragment → Prop
  | _, [] => True
  | e, f :: l =>
    e ≤ f.stop ∧ Protrudes (if f.fragmentOffset ≤ e then max e f.stop else e) l

instance : (e : Nat) → (l : List Fragment) → Decidable (Protrudes e l)
  | _, [] => inferInstanceAs (Decidable True)
  | e, f :: l =>
    have : Decidable (Protrudes (if f.fragmentOffset ≤ e then max e f.stop else e) l) :=
      instDecidableProtrudes _ l
    inferInstanceAs (Decidable (_ ∧ _))

section

variable {payload : Packet} {e : Nat} {l : List Fragment} {f : Fragment}

theorem protrudes_iff : Protrudes e l ↔ ∀ front f back, l = front ++ f :: back →
    extent Fragment.fragmentOffset Fragment.stop e front ≤ f.stop := by
  induction l generalizing e with
  | nil => exact iff_of_true trivial fun front f back h => by simp at h
  | cons g l ih =>
    rw [Protrudes, ih]
    constructor
    · rintro ⟨hg, hrest⟩ front f back hsplit
      cases front with
      | nil =>
        obtain ⟨rfl, -⟩ := List.cons.inj hsplit
        exact hg
      | cons g' front =>
        obtain ⟨rfl, htail⟩ := List.cons.inj hsplit
        exact hrest front f back htail
    · intro h
      refine ⟨h [] g l rfl, fun front f back hsplit => ?_⟩
      have hfront := h (g :: front) f back (congrArg (List.cons g) hsplit)
      exact hfront

theorem noneEmbedded_iff (hl : l.Pairwise fun f g => f.fragmentOffset ≤ g.fragmentOffset) :
    NoneEmbedded l ↔ Protrudes 0 l := by
  rw [protrudes_iff]
  constructor
  · intro h front f back hsplit
    have hfront : front.Pairwise fun f g => f.fragmentOffset ≤ g.fragmentOffset :=
      hl.sublist (hsplit ▸ List.sublist_append_left _ _)
    exact h front f back _ hsplit ((longestPrefix_iff hfront).mpr rfl)
  · intro h front f back n hsplit hn
    have hfront : front.Pairwise fun f g => f.fragmentOffset ≤ g.fragmentOffset :=
      hl.sublist (hsplit ▸ List.sublist_append_left _ _)
    rw [(longestPrefix_iff hfront).mp hn]
    exact h front f back hsplit

theorem createFragmentWrapping_of (hf : f.PartOf payload) (hsmall : payload.length < 2 ^ 16)
    (hlt : f.fragmentOffset < e) (he : e ≤ payload.length) :
    f.data.createFragmentWrapping (e - f.fragmentOffset)
        (wsub 32 f.data.length (e - f.fragmentOffset)) =
      .ok (payload.createFragment e (f.stop - e)) := by
  have hfits := hf.fits
  have hstop : f.stop = f.fragmentOffset + f.data.length := rfl
  have hsum : wadd 32 (e - f.fragmentOffset) (wsub 32 f.data.length (e - f.fragmentOffset)) =
      f.data.length := by
    rw [wadd, wsub, Nat.mod_eq_of_lt (a := e - f.fragmentOffset) (by omega), Nat.add_mod_mod]
    have hround : e - f.fragmentOffset + (f.data.length + (2 ^ 32 - (e - f.fragmentOffset))) =
        f.data.length + 2 ^ 32 := by omega
    rw [hround, Nat.add_mod_right, Nat.mod_eq_of_lt (by omega)]
  rw [Packet.createFragmentWrapping, hsum, nsAssert_of le_rfl, ok_bind,
    wsub_eq (by omega) le_rfl, Nat.sub_self]
  dsimp only
  rw [Nat.sub_zero, List.take_length]
  congr 1
  have hsize : f.data.length - (e - f.fragmentOffset) = f.stop - e := by omega
  rw [Packet.removeAtStart, hf.data_eq, Packet.createFragment, List.drop_take, List.drop_drop,
    Nat.add_sub_cancel' hlt.le, hsize]
  rfl

theorem call_inRange_iff (hfits : f.stop ≤ payload.length) (hsmall : payload.length < 2 ^ 16)
    (hlt : f.fragmentOffset < e) :
    CreateFragmentCall.InRange ⟨f.data.length, e - f.fragmentOffset,
      wsub 32 f.data.length (e - f.fragmentOffset)⟩ ↔ e ≤ f.stop := by
  have hstop : f.stop = f.fragmentOffset + f.data.length := rfl
  change e - f.fragmentOffset + wsub 32 f.data.length (e - f.fragmentOffset) ≤ f.data.length ↔ _
  by_cases hle : e - f.fragmentOffset ≤ f.data.length
  · rw [wsub_eq (by omega) hle]
    omega
  · exact iff_of_false (by omega) (by omega)

theorem joinPartial_of (hl : ∀ f ∈ l, f.PartOf payload) (hsmall : payload.length < 2 ^ 16)
    (he : e ≤ payload.length) :
    ∃ calls, joinPartial (payload.take e) e (l.map fun f => (f.data, f.fragmentOffset)) =
        .ok (payload.take (extent Fragment.fragmentOffset Fragment.stop e l), calls) ∧
      ((∀ call ∈ calls, call.InRange) ↔ Protrudes e l) := by
  induction l generalizing e with
  | nil => exact ⟨[], rfl, iff_of_true (List.forall_mem_nil _) trivial⟩
  | cons f l ih =>
    have hf := hl f (.head _)
    have hfits := hf.fits
    have hstop : f.stop = f.fragmentOffset + f.data.length := rfl
    have hrest : ∀ g ∈ l, g.PartOf payload := fun g hg => hl g (.tail _ hg)
    have hword : ∀ n ≤ payload.length, (payload.take n).length % 2 ^ 16 = n := by
      intro n hn
      rw [List.length_take, Nat.min_eq_left hn, Nat.mod_eq_of_lt (by omega)]
    rw [List.map_cons, joinPartial, extent_cons, Protrudes]
    dsimp only
    by_cases hlt : e > f.fragmentOffset
    · -- the fragment starts in what has been joined
      have hjoin : payload.take e ++ payload.createFragment e (f.stop - e) =
          payload.take (max e f.stop) := by
        rw [take_append_createFragment]
        congr 1
        omega
      obtain ⟨calls, hrun, hcalls⟩ := ih hrest (show max e f.stop ≤ payload.length by omega)
      rw [if_pos hlt, createFragmentWrapping_of hf hsmall hlt he, ok_bind, Packet.addAtEnd, hjoin,
        hword _ (by omega), hrun, ok_bind, if_pos hlt.le]
      refine ⟨_, rfl, ?_⟩
      rw [List.forall_mem_cons, call_inRange_iff hfits hsmall hlt, hcalls]
    · by_cases heq : e = f.fragmentOffset
      · -- the fragment continues what has been joined
        have hjoin : payload.take e ++ f.data = payload.take (max e f.stop) := by
          rw [hf.data_eq, ← heq, take_append_createFragment]
          congr 1
          omega
        obtain ⟨calls, hrun, hcalls⟩ := ih hrest (show max e f.stop ≤ payload.length by omega)
        rw [if_neg hlt, if_pos heq, Packet.addAtEnd, hjoin, hword _ (by omega), hrun,
          if_pos heq.ge]
        exact ⟨calls, rfl, hcalls.trans (iff_and_self.mpr fun _ => by omega)⟩
      · -- there is a gap in front of the fragment
        obtain ⟨calls, hrun, hcalls⟩ := ih hrest he
        rw [if_neg hlt, if_neg heq, hword _ he, hrun, if_neg (by omega)]
        exact ⟨calls, rfl, hcalls.trans (iff_and_self.mpr fun _ => by omega)⟩

end

section

variable {payload : Packet} {received : List Fragment}

/-- The longest prefix that the stored fragments cover. -/
theorem getPartialPacket_of (hof : ∀ f ∈ received, f.PartOf payload)
    (hsmall : payload.length < 2 ^ 16) (hne : received ≠ []) :
    ∃ p calls n, getPartialPacket (.ofReceived received) = .ok (p, calls) ∧
      ((∀ call ∈ calls, call.InRange) ↔ NoneEmbedded (inOrder received)) ∧
      LongestPrefix Fragment.fragmentOffset Fragment.stop received n ∧ p = payload.take n := by
  have hsorted := inOrder_sorted received
  have hof' : ∀ f ∈ inOrder received, f.PartOf payload := fun f hf => hof f (mem_inOrder.mp hf)
  have hlongest : LongestPrefix Fragment.fragmentOffset Fragment.stop received
      (extent Fragment.fragmentOffset Fragment.stop 0 (inOrder received)) := by
    obtain ⟨hbelow, hend⟩ := (longestPrefix_iff hsorted).mpr rfl
    refine ⟨fun i hi => ?_, fun ⟨f, hf, hcover⟩ => hend ⟨f, mem_inOrder.mpr hf, hcover⟩⟩
    obtain ⟨f, hf, hcover⟩ := hbelow i hi
    exact ⟨f, mem_inOrder.mp hf, hcover⟩
  obtain ⟨calls, hrun, hcalls⟩ := joinPartial_of hof' hsmall (Nat.zero_le payload.length)
  rw [getPartialPacket, FragmentList.ofReceived, noneEmbedded_iff hsorted]
  cases hlist : inOrder received with
  | nil =>
    have hperm := inOrder_perm received
    rw [hlist] at hperm
    exact absurd hperm.symm.eq_nil hne
  | cons f l =>
    rw [hlist] at hlongest hrun hcalls hsorted
    rw [List.map_cons]
    dsimp only
    by_cases hgap : f.fragmentOffset > 0
    · -- the first byte is missing
      have hall : ∀ g ∈ f :: l, 0 < g.fragmentOffset := by
        intro g hg
        rcases List.mem_cons.mp hg with rfl | hg
        · exact hgap
        · exact hgap.trans_le ((List.pairwise_cons.mp hsorted).1 g hg)
      rw [if_pos hgap]
      rw [extent_eq_of_gap hall] at hlongest
      refine ⟨_, _, 0, rfl, iff_of_true (List.forall_mem_nil _) ?_, hlongest, rfl⟩
      rw [protrudes_iff]
      intro front g back hsplit
      have hfront : ∀ g ∈ front, 0 < g.fragmentOffset := fun g hg =>
        hall g (hsplit ▸ List.mem_append_left _ hg)
      rw [extent_eq_of_gap hfront]
      exact Nat.zero_le _
    · rw [if_neg hgap]
      rw [List.take_zero, List.map_cons] at hrun
      exact ⟨_, _, _, hrun, hcalls, hlongest, rfl⟩

/-- **Expiry is safe** for the stored fragments, in whatever order they came, exactly if there is
one and none lies inside what those stored before it cover. -/
theorem getPartialPacket_safe_iff (payload : Packet) (hsmall : payload.length < 2 ^ 16)
    (received : List Fragment) (hof : ∀ f ∈ received, f.PartOf payload) :
    (∃ p calls, getPartialPacket (.ofReceived received) = .ok (p, calls) ∧
        (∀ call ∈ calls, call.InRange) ∧
        ∃ n, LongestPrefix Fragment.fragmentOffset Fragment.stop received n ∧
          p = payload.take n) ↔
      received ≠ [] ∧ NoneEmbedded (inOrder received) := by
  constructor
  · rintro ⟨p, calls, hrun, hcalls, -⟩
    have hne : received ≠ [] := by
      rintro rfl
      cases hrun
    obtain ⟨p', calls', n, hrun', hiff, -⟩ := getPartialPacket_of hof hsmall hne
    obtain ⟨-, rfl⟩ := pair_of_ok (hrun.symm.trans hrun')
    exact ⟨hne, hiff.mp hcalls⟩
  · rintro ⟨hne, hnone⟩
    obtain ⟨p, calls, n, hrun, hiff, hprefix⟩ := getPartialPacket_of hof hsmall hne
    exact ⟨p, calls, hrun, hiff.mpr hnone, n, hprefix⟩

def samplePayload : Packet := (List.range 32).map UInt8.ofNat

def sampleFragment (offset size : Nat) : Fragment :=
  ⟨samplePayload.createFragment offset size, offset, true⟩

/-- Two fragments that overlap, the later one first, and one behind a gap. -/
theorem getPartialPacket_safe_overlapping :
    ∃ p calls, getPartialPacket (.ofReceived
        [sampleFragment 24 8, sampleFragment 8 8, sampleFragment 0 12]) = .ok (p, calls) ∧
      (∀ call ∈ calls, call.InRange) ∧
      ∃ n, LongestPrefix Fragment.fragmentOffset Fragment.stop
          [sampleFragment 24 8, sampleFragment 8 8, sampleFragment 0 12] n ∧
        p = samplePayload.take n :=
  (getPartialPacket_safe_iff samplePayload (by decide)
    [sampleFragment 24 8, sampleFragment 8 8, sampleFragment 0 12] (by decide)).mpr
    ⟨by decide, (noneEmbedded_iff (inOrder_sorted _)).mpr (by decide)⟩

/-- A fragment inside another one: 2 ^ 32 - 8 bytes, from byte 16 on, are asked for of a packet of 8
bytes. -/
theorem getPartialPacket_out_of_range :
    (∀ f ∈ [sampleFragment 0 24, sampleFragment 8 8], f.PartOf samplePayload) ∧
      getPartialPacket (.ofReceived [sampleFragment 0 24, sampleFragment 8 8]) =
        .ok (samplePayload.take 24, [⟨8, 16, 2 ^ 32 - 8⟩]) ∧
      ¬CreateFragmentCall.InRange ⟨8, 16, 2 ^ 32 - 8⟩ := by
  decide

end

end Ip

end Ns3
