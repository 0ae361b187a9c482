/-
  The ways out of the root that a vertex is known to have.

  Every exit of a vertex is one along a walk as long as its distance; no exit is listed
  twice, and there is one unless an address leads astray.  A network passes its exit on
  when it has just one.
-/
import Ns3.Internet.Routing.SpfGraph

namespace Ns3

open Ns3.Lib GlobalRouteManagerLSDB

/-! ## Merging exits -/

section

variable {α : Type*} {r : α → α → Bool} {l : List α}

theorem nodup_of_sorted (hl : l.Pairwise fun a b => r a b = true) (hne : l.IsChain (· ≠ ·))
    (hanti : ∀ a b, r a b = true → r b a = true → a = b) : l.Nodup := by
  induction l with
  | nil => exact .nil
  | cons a l ih =>
    obtain ⟨ha, hl⟩ := List.pairwise_cons.mp hl
    refine List.nodup_cons.mpr ⟨fun hmem => ?_, ih hl hne.tail⟩
    cases l with
    | nil => cases hmem
    | cons b l =>
      have hab : a ≠ b := (List.isChain_cons_cons.mp hne).1
      rcases List.mem_cons.mp hmem with heq | hmem
      · exact hab heq
      · exact hab (hanti a b (ha b (.head _)) (List.rel_of_pairwise_cons hl hmem))

end

theorem SPFVertex.exitLe_iff {a b : NodeExit} :
    SPFVertex.exitLe a b = true ↔ a.1 < b.1 ∨ a.1 = b.1 ∧ a.2 ≤ b.2 := by
  rw [exitLe, decide_eq_true_iff]

section

variable (env : RoutingEnv) (db : GlobalRouteManagerLSDB) (root : Ipv4Address)

/-- The exits are first hops of shortest paths to `x`. -/
structure ExitsOk (x : Ipv4Address) (d : Nat) (exits : List NodeExit) : Prop where
  some_exit : exits ≠ []
  distinct : exits.Nodup
  leads : ∀ e ∈ exits, Exit env db root x d e

/-- What a vertex off the root keeps. -/
structure VertexOk (v : SPFVertex) : Prop where
  advertised : v.lsa ∈ db.database
  /-- a parent of a vertex is the root when it was reached from there -/
  parents : root ∈ v.parents → Edge db root v.vertexId v.distanceFromRoot
  exits : Astray db ∨ ExitsOk env db root v.vertexId v.distanceFromRoot v.ecmpRootExits

end

variable {env : RoutingEnv} {db : GlobalRouteManagerLSDB} {root x : Ipv4Address} {d : Nat}
  {v w cw : SPFVertex} {e : SpfEntry} {w_lsa : GlobalRoutingLSA}

theorem ExitsOk.singleton {e : NodeExit} (h : Exit env db root x d e) :
    ExitsOk env db root x d [e] where
  some_exit := List.cons_ne_nil e []
  distinct := List.nodup_singleton e
  leads _ he := List.mem_singleton.mp he ▸ h

theorem ExitsOk.merge {es fs : List NodeExit} (h : ExitsOk env db root x d es)
    (h' : ExitsOk env db root x d fs) : ExitsOk env db root x d
      (((es ++ fs).mergeSort SPFVertex.exitLe).destutter (· ≠ ·)) := by
  have hperm := List.mergeSort_perm (es ++ fs) SPFVertex.exitLe
  have hsub := List.destutter_sublist (· ≠ ·) ((es ++ fs).mergeSort SPFVertex.exitLe)
  have hsorted : ((es ++ fs).mergeSort SPFVertex.exitLe).Pairwise fun a b =>
      SPFVertex.exitLe a b = true := by
    apply List.pairwise_mergeSort
    · intro a b c hab hbc
      rw [SPFVertex.exitLe_iff] at *
      grind
    · intro a b
      rw [Bool.or_eq_true, SPFVertex.exitLe_iff, SPFVertex.exitLe_iff]
      grind
  refine ⟨?_, nodup_of_sorted (hsorted.sublist hsub) (List.isChain_destutter _ _) ?_, ?_⟩
  · rw [Ne, List.destutter_eq_nil]
    intro hnil
    rw [hnil] at hperm
    exact h.some_exit (List.append_eq_nil_iff.mp (List.nil_perm.mp hperm)).1
  · intro a b hab hba
    rw [SPFVertex.exitLe_iff] at *
    exact Prod.ext (by grind) (by grind)
  · intro e he
    rcases List.mem_append.mp (hperm.mem_iff.mp (hsub.subset he)) with he | he
    · exact h.leads e he
    · exact h'.leads e he

theorem getRootExitDirection_cases (v : SPFVertex) :
    (∃ e, v.ecmpRootExits = [e] ∧ v.getRootExitDirection = .ok e) ∨
      v.ecmpRootExits.length ≠ 1 ∧ v.getRootExitDirection = .error .assertFailed := by
  rw [SPFVertex.getRootExitDirection, SPFVertex.getRootExitDirectionAt]
  match hexits : v.ecmpRootExits with
  | [] => exact .inr ⟨Nat.zero_ne_one, rfl⟩
  | [e] => exact .inl ⟨e, rfl, rfl⟩
  | _ :: _ :: rest => exact .inr ⟨by simp, by rfl⟩

theorem several_of_network (hv : VertexOk env db root v) (htype : v.lsa.lsType = .networkLSA)
    (hdist : IsDist (Edge db) root v.vertexId v.distanceFromRoot)
    (hlen : v.ecmpRootExits.length ≠ 1) : SeveralExits env db root ∨ Astray db := by
  rcases hv.exits with hastray | hexits
  · exact .inr hastray
  · left
    match h : v.ecmpRootExits with
    | [] => exact absurd h hexits.some_exit
    | [e] => exact absurd (congrArg List.length h) hlen
    | e₁ :: e₂ :: rest =>
      have hdistinct := hexits.distinct
      rw [h] at hdistinct
      have hne : e₁ ≠ e₂ := fun heq =>
        (List.nodup_cons.mp hdistinct).1 (heq ▸ (.head _))
      have hleads := hexits.leads
      rw [h] at hleads
      exact ⟨v.lsa, hv.advertised, htype, _, e₁, e₂, hne, hdist, hleads e₁ (.head _),
        hleads e₂ (.tail _ (.head _))⟩

/-! ## The next hop -/

/-- What a vertex of the tree keeps. -/
structure TreeVertex (env : RoutingEnv) (db : GlobalRouteManagerLSDB) (root : Ipv4Address)
    (v : SPFVertex) : Prop where
  advertised : v.lsa ∈ db.database
  shortest : IsDist (Edge db) root v.vertexId v.distanceFromRoot
  isRouter : v.vertexId = root → v.lsa.lsType = .routerLSA
  ok : v.vertexId ≠ root → VertexOk env db root v

theorem TreeVertex.root_distance (hv : TreeVertex env db root v) (hroot : v.vertexId = root) :
    v.distanceFromRoot = 0 := by
  have hle := hv.shortest.least 0 (hroot ▸ .nil)
  exact Nat.le_zero.mp hle

theorem vertexType_router (h : v.lsa.lsType = .routerLSA) : v.vertexType = .vertexRouter := by
  rw [SPFVertex.vertexType, h]

theorem vertexType_network (h : v.lsa.lsType = .networkLSA) : v.vertexType = .vertexNetwork := by
  rw [SPFVertex.vertexType, h]

section

variable (hwf : db.WellFormed) (hv : TreeVertex env db root v)

include hwf hv

theorem nexthop_of_root (hroot : v.vertexId = root) (he : e ∈ SpfEntry.entries v.lsa)
    (htarget : e.target db = .ok (some w.lsa)) :
    ∃ exit, spfNexthopCalculation env root v w e.record (v.distanceFromRoot + e.cost) =
        .ok ((w.setRootExitDirection exit).reachedFrom v.vertexId (v.distanceFromRoot + e.cost)) ∧
      Exit env db root w.vertexId (v.distanceFromRoot + e.cost) exit := by
  have hget : db.getLSA root = some v.lsa := hroot ▸ db.getLSA_of_mem hv.advertised
  obtain ⟨hw, ⟨l, rfl, htransit, hl⟩ | ⟨addr, rfl, -⟩⟩ := SpfEntry.target_eq_some htarget
  · obtain ⟨-, hmem⟩ := SpfEntry.mem_entries_link.mp he
    have hid : w.vertexId = l.linkId := (mem_of_getLSA hl).2
    rw [spfNexthopCalculation.eq_def, if_pos hroot, hv.root_distance hroot, Nat.zero_add, hid]
    cases htype : w.lsa.lsType with
    | networkLSA =>
      rw [vertexType_network htype]
      exact ⟨_, rfl, .network hget hmem hl htype⟩
    | routerLSA =>
      rw [vertexType_router htype]
      -- a record to a router is a point-to-point record, with a matching reverse record
      have hp2p : l.linkType = .pointToPoint := by
        rcases of_decide_eq_true htransit with hnet | hp2p
        · obtain ⟨n, hn, hnid, hntype⟩ := hwf.transit v.lsa hv.advertised l hmem hnet
          rw [db.eq_of_linkStateId hn hw (hnid.trans hid.symm), htype] at hntype
          cases hntype
        · exact hp2p
      obtain ⟨w', hw', hid', back, hback, -, hbid⟩ :=
        hwf.reverse v.lsa hv.advertised l hmem hp2p
      obtain rfl := db.eq_of_linkStateId hw' hw (hid'.trans hid.symm)
      cases hfind : w.lsa.linkRecords.find? fun l => l.linkId = root with
      | none =>
        exact absurd (decide_eq_true (hbid.trans hroot)) (List.find?_eq_none.mp hfind back hback)
      | some back' =>
        refine ⟨_, ?_, .router hget hmem hl htype hfind⟩
        have hlink : spfGetNextLink w v false = some back' := by
          rw [spfGetNextLink, hroot]
          exact spfGetNextLinkFrom_first.trans hfind
        simp only [SpfEntry.record, hlink]
  · obtain ⟨hnet, -⟩ := SpfEntry.mem_entries_attached.mp he
    rw [hv.isRouter hroot] at hnet
    cases hnet

theorem setExitOnNetwork_of (hroot : v.vertexId ≠ root) (hnet : v.lsa.lsType = .networkLSA)
    (hparent : root ∈ v.parents) (he : e ∈ SpfEntry.entries v.lsa)
    (htarget : e.target db = .ok (some w.lsa)) :
    (∃ exits, setExitOnNetwork v w = .ok { w with ecmpRootExits := exits } ∧
        (Astray db ∨ ExitsOk env db root w.vertexId v.distanceFromRoot exits)) ∨
      setExitOnNetwork v w = .error .assertFailed ∧ (SeveralExits env db root ∨ Astray db) := by
  have hok := hv.ok hroot
  obtain ⟨hw, ⟨l, rfl, -, -⟩ | ⟨addr, rfl, haddr⟩⟩ := SpfEntry.target_eq_some htarget
  · obtain ⟨hrouter, -⟩ := SpfEntry.mem_entries_link.mp he
    rw [hnet] at hrouter
    cases hrouter
  · obtain ⟨-, hmem⟩ := SpfEntry.mem_entries_attached.mp he
    have hfirst : spfGetNextLink w v false =
        w.lsa.linkRecords.find? fun l => l.linkId = v.vertexId := spfGetNextLinkFrom_first
    have hnext : spfGetNextLink w v true = none :=
      spfGetNextLinkFrom_next
        ((hwf.single w.lsa hw v.lsa hok.advertised hnet).trans (Nat.le_succ 1))
    rw [setExitOnNetwork, hfirst, hnext]
    cases hfind : w.lsa.linkRecords.find? fun l => l.linkId = v.vertexId with
    | none =>
      refine .inl ⟨w.ecmpRootExits, rfl,
        .inl ⟨v.lsa, hok.advertised, hnet, addr, hmem, w.lsa, haddr, ?_⟩⟩
      intro l hl hid
      exact List.find?_eq_none.mp hfind l hl (decide_eq_true hid)
    | some back =>
      rcases getRootExitDirection_cases v with ⟨exit, hexits, hget⟩ | ⟨hlen, hget⟩
      · refine .inl ⟨[(back.linkData, exit.2)], by rw [hget]; rfl, ?_⟩
        rcases hok.exits with hastray | hexitsOk
        · exact .inl hastray
        · have hexit := hexitsOk.leads exit (by rw [hexits]; exact List.mem_singleton_self exit)
          have hedge : Edge db v.vertexId w.lsa.linkStateId 0 :=
            .attached hok.advertised hnet hmem haddr
          exact .inr (.singleton (.onNetwork hv.shortest (hok.parents hparent) hexit hedge hfind))
      · exact .inr ⟨by rw [hget]; rfl, several_of_network hok hnet hv.shortest hlen⟩

theorem nexthop_of (he : e ∈ SpfEntry.entries v.lsa) (htarget : e.target db = .ok (some w.lsa)) :
    (∃ w', spfNexthopCalculation env root v w e.record (v.distanceFromRoot + e.cost) = .ok w' ∧
        w'.lsa = w.lsa ∧ w'.distanceFromRoot = v.distanceFromRoot + e.cost ∧
        VertexOk env db root w') ∨
      spfNexthopCalculation env root v w e.record (v.distanceFromRoot + e.cost) =
        .error .assertFailed ∧ (SeveralExits env db root ∨ Astray db) := by
  obtain ⟨hw, hsplit⟩ := SpfEntry.target_eq_some htarget
  have hedge : Edge db v.vertexId w.vertexId e.cost :=
    (SpfEntry.edge_iff hwf hv.advertised).mpr ⟨e, he, w.lsa, htarget, rfl, rfl⟩
  by_cases hroot : v.vertexId = root
  · obtain ⟨exit, hcalc, hexit⟩ := nexthop_of_root hwf hv hroot he htarget
    refine .inl ⟨_, hcalc, rfl, rfl, hw, fun _ => ?_, .inr (.singleton hexit)⟩
    change Edge db root w.vertexId (v.distanceFromRoot + e.cost)
    rw [hv.root_distance hroot, Nat.zero_add]
    exact hroot ▸ hedge
  · have hok := hv.ok hroot
    have hfar : ∀ w' : SPFVertex, w'.parents = [v.vertexId] → root ∈ w'.parents →
        Edge db root w'.vertexId w'.distanceFromRoot := by
      intro w' hparents hmem
      rw [hparents, List.mem_singleton] at hmem
      exact absurd hmem.symm hroot
    rw [spfNexthopCalculation.eq_def, if_neg hroot]
    cases htype : v.lsa.lsType with
    | routerLSA =>
      rw [vertexType_router htype]
      refine .inl ⟨_, rfl, rfl, rfl, hw, hfar _ rfl, ?_⟩
      rcases hok.exits with hastray | hexits
      · exact .inl hastray
      · exact .inr ⟨hexits.some_exit, hexits.distinct, fun exit hexit =>
          .inherit hv.shortest (hexits.leads exit hexit) hedge⟩
    | networkLSA =>
      rw [vertexType_network htype]
      dsimp only
      by_cases hparent : v.parents.head? = some root
      · rw [if_pos hparent]
        have hrouter : w.vertexType = .vertexRouter := by
          rcases hsplit with ⟨l, rfl, -, -⟩ | ⟨addr, -, haddr⟩
          · rw [(SpfEntry.mem_entries_link.mp he).1] at htype
            cases htype
          · exact vertexType_router (db.isRouter_of_getLSAByLinkData haddr)
        have hcost : e.cost = 0 := by
          rcases hsplit with ⟨l, rfl, -, -⟩ | ⟨addr, rfl, -⟩
          · rw [(SpfEntry.mem_entries_link.mp he).1] at htype
            cases htype
          · rfl
        rw [nsAssert_of hrouter, ok_bind]
        rcases setExitOnNetwork_of hwf hv hroot htype (List.mem_of_mem_head? hparent) he
          htarget with ⟨exits, hset, hexits⟩ | ⟨hset, hwhy⟩
        · rw [hset, hcost]
          exact .inl ⟨_, rfl, rfl, rfl, hw, hfar _ rfl, hexits⟩
        · rw [hset]
          exact .inr ⟨rfl, hwhy⟩
      · rw [if_neg hparent]
        rcases getRootExitDirection_cases v with ⟨exit, hexits, hget⟩ | ⟨hlen, hget⟩
        · rw [hget]
          refine .inl ⟨_, rfl, rfl, rfl, hw, hfar _ rfl, ?_⟩
          rcases hok.exits with hastray | hexitsOk
          · exact .inl hastray
          · have hexit := hexitsOk.leads exit (by rw [hexits]; exact List.mem_singleton_self exit)
            exact .inr (.singleton (.inherit hv.shortest hexit hedge))
        · rw [hget]
          exact .inr ⟨rfl, several_of_network hok htype hv.shortest hlen⟩

end

end Ns3
