/-
  The fragments that a receiver keeps of a datagram
  (AddFragment of Ipv4L3Protocol::Fragments in src/internet/model/ipv4-l3-protocol.cc and
  of Ipv6ExtensionFragment::Fragments in src/internet/model/ipv6-extension.cc).

  Both classes keep a list in the order of the offsets, and take the more-fragments flag
  from the fragment that was last appended at the end.
-/
import Ns3.Lib.OffsetList
import Ns3.Network.Packet

namespace Ns3.Ip

open Lib

/-- A fragment as `AddFragment` is given it. -/
structure Fragment where
  data : Packet
  fragmentOffset : Nat
  moreFragment : Bool
  deriving DecidableEq, Repr

def Fragment.stop (f : Fragment) : Nat := f.fragmentOffset + f.data.length

/-- `m_fragments` (`m_packetFragments` for IPv6) and `m_moreFragment`. -/
structure FragmentList where
  fragments : List (Packet × Nat) := []
  moreFragment : Bool := false
  deriving DecidableEq, Repr

def FragmentList.addFragment (s : FragmentList) (f : Fragment) : FragmentList :=
  let before := s.fragments.takeWhile fun it => decide (it.2 ≤ f.fragmentOffset)
  let it := s.fragments.dropWhile fun it => decide (it.2 ≤ f.fragmentOffset)
  { fragments := before ++ (f.data, f.fragmentOffset) :: it
    moreFragment := if it.isEmpty then f.moreFragment else s.moreFragment }

abbrev inOrder (received : List Fragment) : List Fragment := placed Fragment.fragmentOffset received

theorem inOrder_perm (received : List Fragment) : (inOrder received).Perm received :=
  placed_perm received

theorem mem_inOrder {received : List Fragment} {f : Fragment} :
    f ∈ inOrder received ↔ f ∈ received :=
  (inOrder_perm received).mem_iff

theorem inOrder_sorted (received : List Fragment) :
    (inOrder received).Pairwise fun f g => f.fragmentOffset ≤ g.fragmentOffset :=
  placed_sorted received

def FragmentList.ofReceived (received : List Fragment) : FragmentList :=
  { fragments := (inOrder received).map fun f => (f.data, f.fragmentOffset)
    moreFragment := (inOrder received).getLast?.elim false (·.moreFragment) }

theorem FragmentList.addFragment_ofReceived (received : List Fragment) (f : Fragment) :
    (ofReceived received).addFragment f = ofReceived (received ++ [f]) := by
  have hbefore : ∀ l : List Fragment, (l.map fun f => (f.data, f.fragmentOffset)).takeWhile
      (fun it => decide (it.2 ≤ f.fragmentOffset)) =
        (l.takeWhile fun g => decide (g.fragmentOffset ≤ f.fragmentOffset)).map
          fun f => (f.data, f.fragmentOffset) := fun _ => List.takeWhile_map
  have hafter : ∀ l : List Fragment, (l.map fun f => (f.data, f.fragmentOffset)).dropWhile
      (fun it => decide (it.2 ≤ f.fragmentOffset)) =
        (l.dropWhile fun g => decide (g.fragmentOffset ≤ f.fragmentOffset)).map
          fun f => (f.data, f.fragmentOffset) := fun _ => List.dropWhile_map
  have hconcat : inOrder (received ++ [f]) =
      insertAfter Fragment.fragmentOffset f (inOrder received) := placed_concat _ _
  rw [addFragment, ofReceived, ofReceived, hconcat, getLast?_insertAfter]
  generalize inOrder received = l
  dsimp only
  rw [hbefore, hafter, insertAfter, List.map_append, List.map_cons, List.isEmpty_map]
  congr 1
  cases l.dropWhile fun g => decide (g.fragmentOffset ≤ f.fragmentOffset) with
  | nil => rfl
  | cons g rest => rfl

end Ns3.Ip
