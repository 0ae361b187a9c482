/-
  The advertisements that routes are computed from,
  and the vertices a shortest path is searched among.

  A router advertises its links; a transit network advertises the addresses of the routers
  that are attached to it.  Advertisements of AS external routes are kept elsewhere, and
  none of another type is made.  The status flag that the source keeps in an advertisement
  is part of the state of the computation.

  The queue is a list in the order of the distance from the root, with networks before
  routers.  The tree is made of the popped vertices; a vertex names its parents by their
  identifiers, since no two vertices of a tree have the same one.

  Comparing two vertices is comparing a number: twice the distance, and one more for a
  router.  The operations of the queue then are insertion and sorting by a key.
-/
import Mathlib.Data.List.Destutter
import Mathlib.Data.List.Nodup
import Ns3.Core.Fault
import Ns3.Lib.OffsetList
import Ns3.Network.Ipv4Address

namespace Ns3

inductive LinkType where
  | unknown
  | pointToPoint
  | transitNetwork
  | stubNetwork
  | virtualLink
  deriving DecidableEq, Repr

/-- One link of a router. -/
structure GlobalRoutingLinkRecord where
  linkType : LinkType
  linkId : Ipv4Address
  linkData : Ipv4Address
  metric : Nat
  /-- `m_metric` is a `uint16_t` -/
  metric_lt : metric < 2 ^ 16
  deriving DecidableEq, Repr

theorem metric_one : 1 < 2 ^ 16 := by decide

inductive LSType where
  | routerLSA
  | networkLSA
  deriving DecidableEq, Repr

/-- A link state advertisement. -/
structure GlobalRoutingLSA where
  lsType : LSType
  linkStateId : Ipv4Address
  linkRecords : List GlobalRoutingLinkRecord
  networkLSANetworkMask : Ipv4Mask
  attachedRouters : List Ipv4Address
  /-- records are added to the advertisements of routers -/
  bare : lsType = .networkLSA → linkRecords = []
  deriving DecidableEq, Repr

theorem bare_nil (lsType : LSType) :
    lsType = .networkLSA → ([] : List GlobalRoutingLinkRecord) = [] := fun _ => rfl

/-- `m_database` of `GlobalRouteManagerLSDB`, in the order of the map. -/
structure GlobalRouteManagerLSDB where
  database : List GlobalRoutingLSA
  /-- an advertisement is inserted under its link state ID -/
  sorted : database.Pairwise fun a b => a.linkStateId < b.linkStateId

namespace GlobalRouteManagerLSDB

variable {db : GlobalRouteManagerLSDB} {lsa lsa' : GlobalRoutingLSA} {addr : Ipv4Address}

def getLSA (db : GlobalRouteManagerLSDB) (addr : Ipv4Address) : Option GlobalRoutingLSA :=
  db.database.find? fun lsa => lsa.linkStateId = addr

def getLSAByLinkData (db : GlobalRouteManagerLSDB) (addr : Ipv4Address) :
    Option GlobalRoutingLSA :=
  db.database.find? fun lsa => lsa.linkRecords.any fun lr =>
    lr.linkType = .transitNetwork ∧ lr.linkData = addr

theorem mem_of_getLSA (h : db.getLSA addr = some lsa) :
    lsa ∈ db.database ∧ lsa.linkStateId = addr := by
  have hid := List.find?_some h
  exact ⟨List.mem_of_find?_eq_some h, of_decide_eq_true hid⟩

theorem mem_of_getLSAByLinkData (h : db.getLSAByLinkData addr = some lsa) :
    lsa ∈ db.database ∧ ∃ lr ∈ lsa.linkRecords, lr.linkType = .transitNetwork ∧
      lr.linkData = addr := by
  have hany := List.find?_some h
  obtain ⟨lr, hlr, hdata⟩ := List.any_eq_true.mp hany
  exact ⟨List.mem_of_find?_eq_some h, lr, hlr, of_decide_eq_true hdata⟩

theorem isRouter_of_getLSAByLinkData (h : db.getLSAByLinkData addr = some lsa) :
    lsa.lsType = .routerLSA := by
  obtain ⟨-, lr, hlr, -⟩ := mem_of_getLSAByLinkData h
  cases htype : lsa.lsType with
  | routerLSA => rfl
  | networkLSA =>
    rw [lsa.bare htype] at hlr
    cases hlr

theorem eq_of_linkStateId (h : lsa ∈ db.database) (h' : lsa' ∈ db.database)
    (hid : lsa.linkStateId = lsa'.linkStateId) : lsa = lsa' := by
  have hnodup : (db.database.map GlobalRoutingLSA.linkStateId).Nodup :=
    List.pairwise_map.mpr (db.sorted.imp Nat.ne_of_lt)
  exact List.inj_on_of_nodup_map hnodup h h' hid

theorem getLSA_of_mem (h : lsa ∈ db.database) : db.getLSA lsa.linkStateId = some lsa := by
  cases hget : db.getLSA lsa.linkStateId with
  | none => exact absurd (decide_eq_true rfl) (List.find?_eq_none.mp hget lsa h)
  | some lsa' =>
    obtain ⟨hmem, hid⟩ := mem_of_getLSA hget
    rw [eq_of_linkStateId hmem h hid]

end GlobalRouteManagerLSDB

/-! ## Vertices -/

inductive VertexType where
  | vertexRouter
  | vertexNetwork
  deriving DecidableEq, Repr

/-- `SPFVertex::NodeExit_t`: the next hop, and the interface of the root. -/
abbrev NodeExit : Type := Ipv4Address × Int

/-- A vertex of the shortest path tree. -/
structure SPFVertex where
  lsa : GlobalRoutingLSA
  distanceFromRoot : Nat
  ecmpRootExits : List NodeExit
  parents : List Ipv4Address
  deriving DecidableEq, Repr

def SPF_INFINITY : Nat := 2 ^ 32 - 1

namespace SPFVertex

def new (lsa : GlobalRoutingLSA) : SPFVertex :=
  { lsa, distanceFromRoot := SPF_INFINITY, ecmpRootExits := [], parents := [] }

def vertexType (v : SPFVertex) : VertexType :=
  match v.lsa.lsType with
  | .routerLSA => .vertexRouter
  | .networkLSA => .vertexNetwork

def vertexId (v : SPFVertex) : Ipv4Address := v.lsa.linkStateId

def setRootExitDirection (v : SPFVertex) (exit : NodeExit) : SPFVertex :=
  { v with ecmpRootExits := [exit] }

def getRootExitDirectionAt (v : SPFVertex) (i : Nat) : Except Fault NodeExit :=
  match v.ecmpRootExits[i]? with
  | some exit => .ok exit
  | none => .error .assertFailed

def getRootExitDirection (v : SPFVertex) : Except Fault NodeExit := do
  nsAssert (v.ecmpRootExits.length ≤ 1)
  v.getRootExitDirectionAt 0

def inheritAllRootExitDirections (w v : SPFVertex) : SPFVertex :=
  { w with ecmpRootExits := v.ecmpRootExits }

/-- The order of `std::pair<Ipv4Address, int32_t>`. -/
def exitLe (a b : NodeExit) : Bool := a.1 < b.1 ∨ a.1 = b.1 ∧ a.2 ≤ b.2

def mergeRootExitDirections (cw w : SPFVertex) : SPFVertex :=
  { cw with
    ecmpRootExits := ((cw.ecmpRootExits ++ w.ecmpRootExits).mergeSort exitLe).destutter (· ≠ ·) }

/-- `SPFVertex::MergeParent`: the parents are sorted by their addresses in memory. -/
def mergeParent (address : Ipv4Address → Nat) (cw w : SPFVertex) : SPFVertex :=
  { cw with
    parents := ((cw.parents ++ w.parents).mergeSort fun a b =>
      address a ≤ address b).destutter (· ≠ ·) }

/-- `SPFVertex::SetDistanceFromRoot`, then `SPFVertex::SetParent`. -/
def reachedFrom (w : SPFVertex) (parent : Ipv4Address) (distance : Nat) : SPFVertex :=
  { w with distanceFromRoot := distance, parents := [parent] }

end SPFVertex

abbrev CandidateQueue : Type := List SPFVertex

namespace CandidateQueue

def compareSPFVertex (v1 v2 : SPFVertex) : Bool :=
  if v1.distanceFromRoot < v2.distanceFromRoot then
    true
  else if v1.distanceFromRoot = v2.distanceFromRoot then
    v1.vertexType = .vertexNetwork ∧ v2.vertexType = .vertexRouter
  else
    false

/-- `CandidateQueue::Push`: the place is `std::upper_bound` in an ordered list. -/
def push (q : CandidateQueue) (vNew : SPFVertex) : CandidateQueue :=
  q.takeWhile (fun v => !compareSPFVertex vNew v) ++ vNew ::
    q.dropWhile (fun v => !compareSPFVertex vNew v)

def find (q : CandidateQueue) (addr : Ipv4Address) : Option SPFVertex :=
  q.find? fun v => v.vertexId = addr

/-- `CandidateQueue::Reorder`: `std::list::sort` keeps the order of equal elements. -/
def reorder (q : CandidateQueue) : CandidateQueue :=
  q.mergeSort fun v1 v2 => !compareSPFVertex v2 v1

/-- The vertex that `Find` returned is changed through its pointer; no other vertex of the
queue has its identifier. -/
def update (q : CandidateQueue) (addr : Ipv4Address) (cw : SPFVertex) : CandidateQueue :=
  q.map fun v => if v.vertexId = addr then cw else v

end CandidateQueue

/-! ## The queue stays in order -/

open Ns3.Lib

def SPFVertex.rank (v : SPFVertex) : Nat :=
  2 * v.distanceFromRoot + match v.vertexType with
    | .vertexNetwork => 0
    | .vertexRouter => 1

theorem SPFVertex.distanceFromRoot_le_of_rank_le {v w : SPFVertex} (h : v.rank ≤ w.rank) :
    v.distanceFromRoot ≤ w.distanceFromRoot := by
  rw [rank, rank] at h
  split at h <;> split at h <;> omega

namespace CandidateQueue

variable {q : CandidateQueue} {v w cw : SPFVertex} {addr x : Ipv4Address} {d : Nat}

theorem compareSPFVertex_iff : compareSPFVertex v w = true ↔ v.rank < w.rank := by
  rw [compareSPFVertex, SPFVertex.rank, SPFVertex.rank]
  cases v.vertexType <;> cases w.vertexType <;> simp <;> omega

theorem not_compareSPFVertex : (!compareSPFVertex v w) = decide (w.rank ≤ v.rank) := by
  rw [Bool.eq_iff_iff, Bool.not_eq_true', Bool.eq_false_iff, Ne, compareSPFVertex_iff, Nat.not_lt,
    decide_eq_true_iff]

def Sorted (q : CandidateQueue) : Prop := q.Pairwise fun u v => u.rank ≤ v.rank

def Distinct (q : CandidateQueue) : Prop := (q.map SPFVertex.vertexId).Nodup

theorem push_eq : q.push v = insertAfter SPFVertex.rank v q := by
  simp only [push, not_compareSPFVertex, insertAfter]

theorem push_perm : (q.push v).Perm (v :: q) := by
  rw [push_eq]
  exact insertAfter_perm

theorem push_sorted (h : q.Sorted) : (q.push v).Sorted := by
  rw [push_eq]
  exact insertAfter_sorted h

theorem reorder_perm : q.reorder.Perm q := List.mergeSort_perm q _

theorem reorder_sorted : q.reorder.Sorted := by
  have htrans : ∀ a b c : SPFVertex, decide (a.rank ≤ b.rank) = true →
      decide (b.rank ≤ c.rank) = true → decide (a.rank ≤ c.rank) = true := by
    simp only [decide_eq_true_iff]
    exact fun a b c => Nat.le_trans
  have htotal : ∀ a b : SPFVertex,
      (decide (a.rank ≤ b.rank) || decide (b.rank ≤ a.rank)) = true := by
    simp only [Bool.or_eq_true, decide_eq_true_iff]
    exact fun a b => Nat.le_total a.rank b.rank
  have hsorted := List.pairwise_mergeSort htrans htotal q
  simp only [reorder, not_compareSPFVertex]
  exact hsorted.imp fun h => of_decide_eq_true h

theorem Sorted.nearest (h : Sorted (v :: q)) (hw : w ∈ v :: q) :
    v.distanceFromRoot ≤ w.distanceFromRoot := by
  rcases List.mem_cons.mp hw with rfl | hw
  · exact le_rfl
  · exact SPFVertex.distanceFromRoot_le_of_rank_le (List.rel_of_pairwise_cons h hw)

def Has (q : CandidateQueue) (x : Ipv4Address) (d : Nat) : Prop :=
  ∃ v ∈ q, v.vertexId = x ∧ v.distanceFromRoot = d

theorem find_eq_some (h : q.find addr = some cw) : cw ∈ q ∧ cw.vertexId = addr := by
  have hid := List.find?_some h
  exact ⟨List.mem_of_find?_eq_some h, of_decide_eq_true hid⟩

theorem exists_find (hv : v ∈ q) : ∃ cw, q.find v.vertexId = some cw := by
  cases hfind : q.find v.vertexId with
  | none => exact absurd (decide_eq_true rfl) (List.find?_eq_none.mp hfind v hv)
  | some cw => exact ⟨cw, rfl⟩

theorem mem_update (h : v ∈ q.update addr cw) :
    v = cw ∨ v ∈ q ∧ v.vertexId ≠ addr := by
  obtain ⟨u, hu, rfl⟩ := List.mem_map.mp h
  split
  · exact .inl rfl
  · rename_i hid
    exact .inr ⟨hu, hid⟩

theorem mem_update_of_ne (hv : v ∈ q) (hid : v.vertexId ≠ addr) : v ∈ q.update addr cw :=
  List.mem_map.mpr ⟨v, hv, if_neg hid⟩

theorem self_mem_update (hw : w ∈ q) (hid : w.vertexId = addr) : cw ∈ q.update addr cw :=
  List.mem_map.mpr ⟨w, hw, if_pos hid⟩

theorem update_ids (hid : cw.vertexId = addr) :
    (q.update addr cw).map SPFVertex.vertexId = q.map SPFVertex.vertexId := by
  rw [update, List.map_map]
  apply List.map_congr_left
  intro v _
  rw [Function.comp_apply]
  split
  · rename_i hv
    rw [hid, hv]
  · rfl

theorem Distinct.eq (h : q.Distinct) (hv : v ∈ q) (hw : w ∈ q) (hid : v.vertexId = w.vertexId) :
    v = w :=
  List.inj_on_of_nodup_map h hv hw hid

theorem Distinct.perm {q' : CandidateQueue} (h : q.Distinct) (hperm : q'.Perm q) : q'.Distinct :=
  (hperm.map SPFVertex.vertexId).nodup_iff.mpr h

end CandidateQueue

end Ns3
