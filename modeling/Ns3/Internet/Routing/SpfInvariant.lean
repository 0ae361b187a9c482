/-
  What holds while the shortest-path tree is built.

  The status of an advertisement says where its vertex is: in the tree, in the queue, or in
  neither.  The tree and the queue are the settled and the candidate vertices of a search
  for shortest walks.  One round of `SPFNext` looks at one edge of the vertex settled last.
-/
import Ns3.Internet.Routing.SpfExits

namespace Ns3

open Ns3.Lib GlobalRouteManagerLSDB CandidateQueue

/-- The edges of `v` that the entries `es` stand for. -/
def Pending (db : GlobalRouteManagerLSDB) (v : SPFVertex) (es : List SpfEntry)
    (u w : Ipv4Address) (c : Nat) : Prop :=
  u = v.vertexId ∧ ∃ e ∈ es, e.Leads db w c

/-- What holds while the entries that are still `pending` are looked at. -/
structure SpfInv (env : RoutingEnv) (db : GlobalRouteManagerLSDB) (root : Ipv4Address)
    (tree : List SPFVertex) (s : SpfState) (pending : Ipv4Address → Ipv4Address → Nat → Prop) :
    Prop where
  frontier : Frontier (Edge db) root (Has tree) (Has s.candidate) pending
  inTree : ∀ v ∈ tree, TreeVertex env db root v
  candidates : ∀ v ∈ s.candidate, VertexOk env db root v
  statusTree : ∀ x, s.status x = .inSpfTree ↔ x ∈ tree.map SPFVertex.vertexId
  statusCandidate : ∀ x, s.status x = .candidate ↔ x ∈ s.candidate.map SPFVertex.vertexId
  distinctTree : Distinct tree
  distinct : s.candidate.Distinct
  sorted : s.candidate.Sorted

/-- The vertex whose entries are looked at is the last of the tree. -/
structure Current (tree : List SPFVertex) (v : SPFVertex) : Prop where
  mem : v ∈ tree
  last : ∀ u ∈ tree, u.distanceFromRoot ≤ v.distanceFromRoot

section

variable {env : RoutingEnv} {db : GlobalRouteManagerLSDB} {root x : Ipv4Address}
  {tree : List SPFVertex} {s t : SpfState} {v w cw : SPFVertex} {e : SpfEntry}
  {es : List SpfEntry} {w_lsa : GlobalRoutingLSA} {d : Nat}
  {pending pending' : Ipv4Address → Ipv4Address → Nat → Prop}

theorem mem_ids_iff {q : List SPFVertex} :
    x ∈ q.map SPFVertex.vertexId ↔ ∃ d, Has q x d := by
  constructor
  · intro hx
    obtain ⟨v, hv, rfl⟩ := List.mem_map.mp hx
    exact ⟨_, v, hv, rfl, rfl⟩
  · rintro ⟨d, v, hv, rfl, -⟩
    exact List.mem_map_of_mem hv

namespace SpfInv

theorem pass (h : SpfInv env db root tree s (Pending db v (e :: es)))
    (hdone : ∀ w c, e.Leads db w c → Edge db v.vertexId w c →
      (∃ d, Has tree w d) ∨ ∃ d, Has s.candidate w d ∧ d ≤ v.distanceFromRoot + c)
    (hv : Current tree v) : SpfInv env db root tree s (Pending db v es) := by
  refine { h with frontier := ?_ }
  refine { h.frontier with relaxed := ?_ }
  intro u du w c hu hedge hnot
  by_cases hpending : Pending db v (e :: es) u w c
  · obtain ⟨rfl, e', he', hleads⟩ := hpending
    rcases List.mem_cons.mp he' with rfl | he'
    · have hdu : v.distanceFromRoot ≤ du :=
        ((h.inTree v hv.mem).shortest).least du (h.frontier.exact _ du hu).walk
      rcases hdone w c hleads hedge with hw | ⟨d, hw, hle⟩
      · exact .inl hw
      · exact .inr ⟨d, hw, by omega⟩
    · exact absurd ⟨rfl, e', he', hleads⟩ hnot
  · exact h.frontier.relaxed u du w c hu hedge hpending

theorem reach (h : SpfInv env db root tree s (Pending db v (e :: es))) (hv : Current tree v)
    (hedge : Edge db v.vertexId w.vertexId e.cost)
    (hleads : ∀ x c, e.Leads db x c → x = w.vertexId ∧ c = e.cost)
    (hok : VertexOk env db root w) (hnot : w.vertexId ∉ tree.map SPFVertex.vertexId)
    (hdist : w.distanceFromRoot = v.distanceFromRoot + e.cost)
    (hbest : ∀ cw ∈ s.candidate, cw.vertexId = w.vertexId →
      w.distanceFromRoot ≤ cw.distanceFromRoot)
    (hmem : ∀ u, u ∈ t.candidate ↔ u = w ∨ u ∈ s.candidate ∧ u.vertexId ≠ w.vertexId)
    (hstatus : ∀ x, t.status x = if x = w.vertexId then .candidate else s.status x)
    (hdistinct : t.candidate.Distinct) (hsorted : t.candidate.Sorted) :
    SpfInv env db root tree t (Pending db v es) where
  frontier := by
    have hkeep : ∀ u d, u ≠ w.vertexId → (Has t.candidate u d ↔ Has s.candidate u d) := by
      intro u d hu
      constructor
      · rintro ⟨y, hy, rfl, rfl⟩
        rcases (hmem y).mp hy with rfl | ⟨hy, -⟩
        · exact absurd rfl hu
        · exact ⟨y, hy, rfl, rfl⟩
      · rintro ⟨y, hy, rfl, rfl⟩
        exact ⟨y, (hmem y).mpr (.inr ⟨hy, hu⟩), rfl, rfl⟩
    have hself : Has t.candidate w.vertexId w.distanceFromRoot :=
      ⟨w, (hmem w).mpr (.inl rfl), rfl, rfl⟩
    have hnew : ∀ d, Has t.candidate w.vertexId d → d = w.distanceFromRoot := by
      rintro d ⟨y, hy, hyid, rfl⟩
      rcases (hmem y).mp hy with rfl | ⟨-, hne⟩
      · rfl
      · exact absurd hyid hne
    have hsettled : Has tree v.vertexId v.distanceFromRoot := ⟨v, hv.mem, rfl, rfl⟩
    refine h.frontier.relax hsettled ?_ hedge ?_ hkeep ?_ ?_ (.inr ⟨_, hself, by omega⟩)
    · rintro u d ⟨y, hy, -, rfl⟩
      exact hv.last y hy
    · rintro u x c ⟨hu, e', he', hx⟩
      rcases List.mem_cons.mp he' with rfl | he'
      · exact .inr ⟨hu, hleads x c hx⟩
      · exact .inl ⟨hu, e', he', hx⟩
    · intro d hd
      refine .inr ⟨(hnew d hd).trans hdist, fun d' hw => hnot (mem_ids_iff.mpr ⟨d', hw⟩)⟩
    · rintro d ⟨y, hy, hyid, rfl⟩
      exact ⟨_, hself, hbest y hy hyid⟩
  inTree := h.inTree
  candidates u hu := by
    rcases (hmem u).mp hu with rfl | ⟨hu, -⟩
    · exact hok
    · exact h.candidates u hu
  statusTree x := by
    rw [hstatus]
    by_cases hx : x = w.vertexId
    · rw [if_pos hx, hx]
      exact ⟨nofun, fun hin => absurd hin hnot⟩
    · rw [if_neg hx]
      exact h.statusTree x
  statusCandidate x := by
    rw [hstatus]
    by_cases hx : x = w.vertexId
    · rw [if_pos hx, hx]
      exact ⟨fun _ => List.mem_map_of_mem ((hmem w).mpr (.inl rfl)), fun _ => rfl⟩
    · rw [if_neg hx, h.statusCandidate, List.mem_map, List.mem_map]
      constructor
      · rintro ⟨u, hu, rfl⟩
        exact ⟨u, (hmem u).mpr (.inr ⟨hu, hx⟩), rfl⟩
      · rintro ⟨u, hu, rfl⟩
        rcases (hmem u).mp hu with rfl | ⟨hu, -⟩
        · exact absurd rfl hx
        · exact ⟨u, hu, rfl⟩
  distinctTree := h.distinctTree
  distinct := hdistinct
  sorted := hsorted

end SpfInv

theorem VertexOk.merge (hcw : VertexOk env db root cw) (hw : VertexOk env db root w)
    (hlsa : w.lsa = cw.lsa) (hdist : w.distanceFromRoot = cw.distanceFromRoot) :
    VertexOk env db root ((cw.mergeRootExitDirections w).mergeParent env.address w) where
  advertised := hcw.advertised
  parents hmem := by
    have hsub := List.destutter_sublist (· ≠ ·) ((cw.parents ++ w.parents).mergeSort fun a b =>
      env.address a ≤ env.address b)
    have hperm := List.mergeSort_perm (cw.parents ++ w.parents) fun a b =>
      env.address a ≤ env.address b
    rcases List.mem_append.mp (hperm.mem_iff.mp (hsub.subset hmem)) with hmem | hmem
    · exact hcw.parents hmem
    · have hedge := hw.parents hmem
      rw [SPFVertex.vertexId, hlsa, hdist] at hedge
      exact hedge
  exits := by
    rcases hcw.exits with hastray | hcw
    · exact .inl hastray
    · rcases hw.exits with hastray | hw
      · exact .inl hastray
      · rw [SPFVertex.vertexId, hlsa, hdist] at hw
        exact .inr (hcw.merge hw)

namespace SpfInv

theorem not_in_tree (h : SpfInv env db root tree s pending)
    (hx : s.status x = .candidate ∨ s.status x = .notExplored) :
    x ∉ tree.map SPFVertex.vertexId := by
  intro hin
  rw [(h.statusTree x).mpr hin] at hx
  exact hx.elim nofun nofun

section

variable (h : SpfInv env db root tree s (Pending db v (e :: es)))

include h

theorem explore_of (hwf : db.WellFormed) (hv : Current tree v) (he : e ∈ SpfEntry.entries v.lsa)
    (htarget : e.target db = .ok (some w_lsa)) (hstatus : s.status w_lsa.linkStateId = .notExplored)
    (hedge : Edge db v.vertexId w_lsa.linkStateId e.cost)
    (hleads : ∀ x c, e.Leads db x c → x = w_lsa.linkStateId ∧ c = e.cost) :
    (∃ t, s.explore env root v w_lsa e (v.distanceFromRoot + e.cost) = .ok t ∧
        SpfInv env db root tree t (Pending db v es)) ∨
      s.explore env root v w_lsa e (v.distanceFromRoot + e.cost) = .error .assertFailed ∧
        (SeveralExits env db root ∨ Astray db) := by
  rw [SpfState.explore]
  rcases nexthop_of (w := .new w_lsa) hwf (h.inTree v hv.mem) he htarget with
    ⟨w, hcalc, hlsa, hdist, hok⟩ | ⟨hcalc, hwhy⟩
  · obtain rfl : w.lsa = w_lsa := hlsa
    have hfresh : ∀ u ∈ s.candidate, u.vertexId ≠ w.vertexId := by
      intro u hu hid
      have hcandidate := (h.statusCandidate w.vertexId).mpr (hid ▸ List.mem_map_of_mem hu)
      rw [SPFVertex.vertexId, hstatus] at hcandidate
      cases hcandidate
    rw [hcalc]
    refine .inl ⟨_, rfl, h.reach hv hedge hleads hok (h.not_in_tree (.inr hstatus)) hdist
      ?_ ?_ (fun x => rfl) ?_ (push_sorted h.sorted)⟩
    · exact fun cw hcw hid => absurd hid (hfresh cw hcw)
    · intro u
      change u ∈ s.candidate.push w ↔ _
      rw [push_perm.mem_iff, List.mem_cons]
      exact or_congr_right ⟨fun hu => ⟨hu, hfresh u hu⟩, And.left⟩
    · have hnew : Distinct (w :: s.candidate) := by
        refine List.nodup_cons.mpr ⟨fun hmem => ?_, h.distinct⟩
        obtain ⟨u, hu, hid⟩ := List.mem_map.mp hmem
        exact hfresh u hu hid
      exact hnew.perm push_perm
  · rw [hcalc]
    exact .inr ⟨rfl, hwhy⟩

theorem replace_of (hv : Current tree v) (hedge : Edge db v.vertexId w.vertexId e.cost)
    (hleads : ∀ x c, e.Leads db x c → x = w.vertexId ∧ c = e.cost)
    (hstatus : s.status w.vertexId = .candidate) (hcw : cw ∈ s.candidate)
    (hid : cw.vertexId = w.vertexId) (hok : VertexOk env db root w)
    (hdist : w.distanceFromRoot = v.distanceFromRoot + e.cost)
    (hle : w.distanceFromRoot ≤ cw.distanceFromRoot) {q : CandidateQueue}
    (hperm : q.Perm (s.candidate.update w.vertexId w)) (hsorted : q.Sorted) :
    SpfInv env db root tree { s with candidate := q } (Pending db v es) := by
  refine h.reach hv hedge hleads hok (h.not_in_tree (.inl hstatus)) hdist ?_ ?_ ?_ ?_ hsorted
  · intro cw' hcw' hid'
    obtain rfl := h.distinct.eq hcw' hcw (hid'.trans hid.symm)
    exact hle
  · intro u
    change u ∈ q ↔ _
    rw [hperm.mem_iff]
    constructor
    · exact mem_update
    · rintro (rfl | ⟨hu, hne⟩)
      · exact self_mem_update hcw hid
      · exact mem_update_of_ne hu hne
  · intro x
    by_cases hx : x = w.vertexId
    · rw [if_pos hx, hx]
      exact hstatus
    · rw [if_neg hx]
  · refine Distinct.perm ?_ hperm
    rw [Distinct, update_ids rfl]
    exact h.distinct

theorem improve_of (hwf : db.WellFormed) (hv : Current tree v) (he : e ∈ SpfEntry.entries v.lsa)
    (htarget : e.target db = .ok (some w_lsa)) (hstatus : s.status w_lsa.linkStateId = .candidate)
    (hedge : Edge db v.vertexId w_lsa.linkStateId e.cost)
    (hleads : ∀ x c, e.Leads db x c → x = w_lsa.linkStateId ∧ c = e.cost) :
    (∃ t, s.improve env root v w_lsa e (v.distanceFromRoot + e.cost) = .ok t ∧
        SpfInv env db root tree t (Pending db v es)) ∨
      s.improve env root v w_lsa e (v.distanceFromRoot + e.cost) = .error .assertFailed ∧
        (SeveralExits env db root ∨ Astray db) := by
  obtain ⟨y, hy, hyid⟩ := List.mem_map.mp ((h.statusCandidate _).mp hstatus)
  obtain ⟨cw, hfind⟩ := exists_find hy
  rw [hyid] at hfind
  obtain ⟨hcw, hid⟩ := find_eq_some hfind
  have hcwOk := h.candidates cw hcw
  obtain rfl : cw.lsa = w_lsa :=
    db.eq_of_linkStateId hcwOk.advertised (SpfEntry.target_eq_some htarget).1 hid
  rw [SpfState.improve, hfind]
  dsimp only
  by_cases hlt : cw.distanceFromRoot < v.distanceFromRoot + e.cost
  · rw [if_pos hlt]
    refine .inl ⟨s, rfl, h.pass (fun w c hw _ => ?_) hv⟩
    obtain ⟨rfl, rfl⟩ := hleads w c hw
    exact .inr ⟨_, ⟨cw, hcw, rfl, rfl⟩, Nat.le_of_lt hlt⟩
  rw [if_neg hlt]
  by_cases heq : cw.distanceFromRoot = v.distanceFromRoot + e.cost
  · rw [if_pos heq]
    rcases nexthop_of (w := .new cw.lsa) hwf (h.inTree v hv.mem) he htarget with
      ⟨w, hcalc, hlsa, hdist, hok⟩ | ⟨hcalc, hwhy⟩
    · rw [hcalc]
      have hmerge := hcwOk.merge hok hlsa (hdist.trans heq.symm)
      refine .inl ⟨_, rfl, h.replace_of
        (w := (cw.mergeRootExitDirections w).mergeParent env.address w) hv hedge hleads hstatus hcw
        rfl hmerge heq le_rfl (.refl _) ?_⟩
      refine List.pairwise_map.mpr (h.sorted.imp_of_mem fun {a b} ha hb hab => ?_)
      have hrank : ∀ u ∈ s.candidate, (if u.vertexId = cw.lsa.linkStateId then
          (cw.mergeRootExitDirections w).mergeParent env.address w else u).rank = u.rank := by
        intro u hu
        split
        · rename_i huid
          rw [h.distinct.eq hu hcw huid]
          rfl
        · rfl
      rw [hrank a ha, hrank b hb]
      exact hab
    · rw [hcalc]
      exact .inr ⟨rfl, hwhy⟩
  · rw [if_neg heq]
    rcases nexthop_of (w := cw) hwf (h.inTree v hv.mem) he htarget with
      ⟨w, hcalc, hlsa, hdist, hok⟩ | ⟨hcalc, hwhy⟩
    · have hwid : w.vertexId = cw.lsa.linkStateId := congrArg GlobalRoutingLSA.linkStateId hlsa
      rw [hcalc]
      refine .inl ⟨_, rfl, ?_⟩
      rw [← hwid] at hedge hleads hstatus hid
      have hreplace := h.replace_of hv hedge hleads hstatus hcw hid hok hdist (by omega)
        (q := (s.candidate.update w.vertexId w).reorder) reorder_perm reorder_sorted
      rw [hwid] at hreplace
      exact hreplace
    · rw [hcalc]
      exact .inr ⟨rfl, hwhy⟩

theorem examine_of (hwf : db.WellFormed) (hfits : db.Fits root) (hv : Current tree v)
    (he : e ∈ SpfEntry.entries v.lsa) :
    (∃ t, s.examine env root db v e = .ok t ∧ SpfInv env db root tree t (Pending db v es)) ∨
      s.examine env root db v e = .error .assertFailed ∧
        (SeveralExits env db root ∨ Astray db) := by
  have hvTree := h.inTree v hv.mem
  obtain ⟨o, htarget⟩ := SpfEntry.exists_target hwf hvTree.advertised he
  rw [SpfState.examine, htarget, ok_bind]
  cases o with
  | none =>
    refine .inl ⟨s, rfl, h.pass (fun w c ⟨w_lsa, hw, _⟩ _ => ?_) hv⟩
    rw [htarget] at hw
    exact absurd (Except.ok.inj hw) nofun
  | some w_lsa =>
    have hleads : ∀ x c, e.Leads db x c → x = w_lsa.linkStateId ∧ c = e.cost := by
      rintro x c ⟨w_lsa', hw, rfl, rfl⟩
      rw [htarget] at hw
      rw [Option.some.inj (Except.ok.inj hw)]
      exact ⟨rfl, rfl⟩
    have hedge : Edge db v.vertexId w_lsa.linkStateId e.cost :=
      (SpfEntry.edge_iff hwf hvTree.advertised).mpr ⟨e, he, w_lsa, htarget, rfl, rfl⟩
    have hdistance : (v.distanceFromRoot + e.cost) % 2 ^ 32 = v.distanceFromRoot + e.cost :=
      Nat.mod_eq_of_lt (hfits _ _ _ _ hvTree.shortest hedge)
    dsimp only
    rw [hdistance]
    cases hstatus : s.status w_lsa.linkStateId with
    | inSpfTree =>
      refine .inl ⟨s, rfl, h.pass (fun w c hw _ => .inl ?_) hv⟩
      obtain ⟨rfl, -⟩ := hleads w c hw
      exact mem_ids_iff.mp ((h.statusTree _).mp hstatus)
    | notExplored => exact h.explore_of hwf hv he htarget hstatus hedge hleads
    | candidate => exact h.improve_of hwf hv he htarget hstatus hedge hleads

end

theorem spfNext_of (h : SpfInv env db root tree s (Pending db v (SpfEntry.entries v.lsa)))
    (hwf : db.WellFormed) (hfits : db.Fits root) (hv : Current tree v) :
    (∃ t, s.spfNext env root db v = .ok t ∧
        SpfInv env db root tree t fun _ _ _ => False) ∨
      s.spfNext env root db v = .error .assertFailed ∧
        (SeveralExits env db root ∨ Astray db) := by
  rw [SpfState.spfNext]
  suffices hfold : ∀ es, es ⊆ SpfEntry.entries v.lsa → ∀ s,
      SpfInv env db root tree s (Pending db v es) →
      (∃ t, es.foldlM (fun s e => s.examine env root db v e) s = .ok t ∧
          SpfInv env db root tree t (Pending db v [])) ∨
        es.foldlM (fun s e => s.examine env root db v e) s = .error .assertFailed ∧
          (SeveralExits env db root ∨ Astray db) by
    rcases hfold _ (List.Subset.refl _) s h with ⟨t, hrun, ht⟩ | hstop
    · refine .inl ⟨t, hrun, { ht with frontier := ht.frontier.weaken ?_ }⟩
      rintro u w c - ⟨-, e, he, -⟩
      exact List.not_mem_nil he
    · exact .inr hstop
  intro es
  induction es with
  | nil => exact fun _ s h => .inl ⟨s, rfl, h⟩
  | cons e es ih =>
    intro hsub s h
    rw [List.foldlM_cons]
    rcases h.examine_of hwf hfits hv (hsub (.head _)) with ⟨t, hstep, ht⟩ | ⟨hstep, hwhy⟩
    · rw [hstep, ok_bind]
      exact ih (fun _ hx => hsub (.tail _ hx)) t ht
    · rw [hstep]
      exact .inr ⟨rfl, hwhy⟩

end SpfInv

end

end Ns3
