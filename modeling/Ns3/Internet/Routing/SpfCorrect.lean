/-
  The popped vertices are the shortest-path tree.

  The root of a stub router is the exception that the source makes for itself: no tree is
  built there.  Otherwise the vertices that can be reached are popped once each, from the
  near ones to the far ones, at their shortest distance --- unless a network that is
  reached by several exits is to pass one on, where the computation stops.
-/
import Mathlib.Data.List.Perm.Subperm
import Ns3.Internet.Routing.SpfInvariant

namespace Ns3

open Ns3.Lib GlobalRouteManagerLSDB CandidateQueue

section

variable {env : RoutingEnv} {db : GlobalRouteManagerLSDB} {root x : Ipv4Address}
  {tree popped : List SPFVertex} {s t : SpfState} {v w : SPFVertex} {q : CandidateQueue}
  {lsa : GlobalRoutingLSA}

namespace SpfInv

theorem pop (h : SpfInv env db root tree s fun _ _ _ => False) (hwf : db.WellFormed)
    (hq : s.candidate = w :: q) : SpfInv env db root (w :: tree)
      ({ s with candidate := q }.setStatus w.lsa .inSpfTree)
      (Pending db w (SpfEntry.entries w.lsa)) := by
  have hsorted : Sorted (w :: q) := hq ▸ h.sorted
  have hdistinct : Distinct (w :: q) := hq ▸ h.distinct
  have hwq : w ∈ s.candidate := hq ▸ (.head _)
  have hfresh : ∀ u ∈ q, u.vertexId ≠ w.vertexId := fun u hu hid =>
    (List.nodup_cons.mp hdistinct).1 (hid ▸ List.mem_map_of_mem hu)
  have hw : Has s.candidate w.vertexId w.distanceFromRoot := ⟨w, hwq, rfl, rfl⟩
  have hmin : ∀ u d, Has s.candidate u d → w.distanceFromRoot ≤ d := by
    rintro u d ⟨y, hy, -, rfl⟩
    rw [hq] at hy
    exact hsorted.nearest hy
  have hnot : w.vertexId ∉ tree.map SPFVertex.vertexId := fun hin => by
    obtain ⟨d, hd⟩ := mem_ids_iff.mp hin
    exact h.frontier.apart _ _ _ hw hd
  have hok := h.candidates w hwq
  have hstatus : ∀ x, (({ s with candidate := q } : SpfState).setStatus w.lsa .inSpfTree).status x =
      if x = w.vertexId then .inSpfTree else s.status x := fun _ => rfl
  constructor
  case frontier =>
    have hsettle : Frontier (Edge db) root (Has (w :: tree)) (Has q) fun u _ _ =>
        u = w.vertexId := by
      refine h.frontier.settle hw hmin ?_ ?_ ?_
      · intro u d
        constructor
        · rintro ⟨y, hy, rfl, rfl⟩
          rcases List.mem_cons.mp hy with rfl | hy
          · exact .inr ⟨rfl, rfl⟩
          · exact .inl ⟨y, hy, rfl, rfl⟩
        · rintro (⟨y, hy, rfl, rfl⟩ | ⟨rfl, rfl⟩)
          · exact ⟨y, List.mem_cons_of_mem w hy, rfl, rfl⟩
          · exact ⟨w, .head _, rfl, rfl⟩
      · rintro u d ⟨y, hy, rfl, rfl⟩
        exact ⟨⟨y, hq ▸ List.mem_cons_of_mem w hy, rfl, rfl⟩, hfresh y hy⟩
      · rintro u d ⟨y, hy, rfl, rfl⟩ hne
        rw [hq] at hy
        rcases List.mem_cons.mp hy with rfl | hy
        · exact absurd rfl hne
        · exact ⟨y, hy, rfl, rfl⟩
    refine hsettle.weaken ?_
    rintro u x c hedge rfl
    exact ⟨rfl, (SpfEntry.edge_iff hwf hok.advertised).mp hedge⟩
  case inTree =>
    intro u hu
    rcases List.mem_cons.mp hu with rfl | hu
    · refine ⟨hok.advertised, h.frontier.nearest hw hmin, fun hroot => ?_, fun _ => hok⟩
      exact absurd (mem_ids_iff.mpr ⟨0, hroot ▸ h.frontier.rooted⟩) hnot
    · exact h.inTree u hu
  case candidates => exact fun u hu => h.candidates u (hq ▸ List.mem_cons_of_mem w hu)
  case statusTree =>
    intro x
    rw [hstatus, List.map_cons, List.mem_cons, ← h.statusTree]
    by_cases hx : x = w.vertexId
    · rw [if_pos hx]
      exact ⟨fun _ => .inl hx, fun _ => rfl⟩
    · rw [if_neg hx, or_iff_right hx]
  case statusCandidate =>
    intro x
    rw [hstatus]
    by_cases hx : x = w.vertexId
    · rw [if_pos hx, hx]
      exact ⟨nofun, fun hin => absurd hin (List.nodup_cons.mp hdistinct).1⟩
    · rw [if_neg hx, h.statusCandidate, hq, List.map_cons, List.mem_cons, or_iff_right hx]
      rfl
  case distinctTree => exact List.nodup_cons.mpr ⟨hnot, h.distinctTree⟩
  case distinct => exact (List.nodup_cons.mp hdistinct).2
  case sorted => exact (List.pairwise_cons.mp hsorted).2

theorem tree_length_le {pending : Ipv4Address → Ipv4Address → Nat → Prop}
    (h : SpfInv env db root tree s pending) : tree.length ≤ db.database.length := by
  have hsub : tree.map SPFVertex.vertexId ⊆ db.database.map GlobalRoutingLSA.linkStateId := by
    intro x hx
    obtain ⟨v, hv, rfl⟩ := List.mem_map.mp hx
    exact List.mem_map_of_mem (h.inTree v hv).advertised
  have hle := (List.Nodup.subperm h.distinctTree hsub).length_le
  rwa [List.length_map, List.length_map] at hle

end SpfInv

/-- What the vertices popped after `v` are. -/
structure PoppedFrom (env : RoutingEnv) (db : GlobalRouteManagerLSDB) (root : Ipv4Address)
    (tree : List SPFVertex) (v : SPFVertex) (popped : List SPFVertex) : Prop where
  ordered : popped.Pairwise fun u v => u.distanceFromRoot ≤ v.distanceFromRoot
  far : ∀ u ∈ popped, v.distanceFromRoot ≤ u.distanceFromRoot
  distinct : Distinct popped
  apart : ∀ u ∈ popped, u.vertexId ∉ tree.map SPFVertex.vertexId
  inTree : ∀ u ∈ popped, TreeVertex env db root u
  complete : ∀ x d, Walk (Edge db) root x d →
    x ∈ popped.map SPFVertex.vertexId ∨ x ∈ tree.map SPFVertex.vertexId

/-- The invariant carries the loop to the tree, unless it stops at an assertion. -/
theorem spfLoop_of (fuel : Nat) (hwf : db.WellFormed) (hfits : db.Fits root)
    (h : SpfInv env db root tree s (Pending db v (SpfEntry.entries v.lsa))) (hv : Current tree v)
    (hfuel : db.database.length < tree.length + fuel) :
    (∃ popped, s.spfLoop env root db fuel v = .ok popped ∧
        PoppedFrom env db root tree v popped) ∨
      s.spfLoop env root db fuel v = .error .assertFailed ∧
        (SeveralExits env db root ∨ Astray db) := by
  induction fuel generalizing tree s v with
  | zero => exact absurd h.tree_length_le (Nat.not_le.mpr hfuel)
  | succ fuel ih =>
    rw [SpfState.spfLoop]
    rcases h.spfNext_of hwf hfits hv with ⟨t, hnext, ht⟩ | ⟨hnext, hwhy⟩
    · rw [hnext, ok_bind]
      cases hq : t.candidate with
      | nil =>
        refine .inl ⟨[], rfl, .nil, nofun, List.nodup_nil, nofun, nofun, fun x d hwalk => .inr ?_⟩
        have hnone : ∀ u d, ¬Has t.candidate u d := by
          rintro u d ⟨y, hy, -⟩
          rw [hq] at hy
          exact List.not_mem_nil hy
        exact mem_ids_iff.mpr (ht.frontier.complete hnone hwalk)
      | cons w q =>
        have hw : Current (w :: tree) w := by
          refine ⟨.head _, fun u hu => ?_⟩
          rcases List.mem_cons.mp hu with rfl | hu
          · exact le_rfl
          · exact ht.frontier.ordered _ _ _ _ ⟨u, hu, rfl, rfl⟩
              ⟨w, hq ▸ (.head _), rfl, rfl⟩
        have hpop := ht.pop hwf hq
        have hvw := hw.last v (.tail _ hv.mem)
        rcases ih hpop hw (by rw [List.length_cons]; omega) with
          ⟨popped, hloop, hpopped⟩ | ⟨hloop, hwhy⟩
        · dsimp only
          rw [hloop, ok_bind]
          refine .inl ⟨_, rfl, List.pairwise_cons.mpr ⟨hpopped.far, hpopped.ordered⟩, ?_, ?_,
            ?_, ?_, ?_⟩
          · intro u hu
            rcases List.mem_cons.mp hu with rfl | hu
            · exact hvw
            · exact hvw.trans (hpopped.far u hu)
          · refine List.nodup_cons.mpr ⟨fun hmem => ?_, hpopped.distinct⟩
            obtain ⟨u, hu, hid⟩ := List.mem_map.mp hmem
            exact hpopped.apart u hu (hid ▸ (.head _))
          · intro u hu
            rcases List.mem_cons.mp hu with rfl | hu
            · exact (List.nodup_cons.mp hpop.distinctTree).1
            · exact fun hmem => hpopped.apart u hu (.tail _ hmem)
          · intro u hu
            rcases List.mem_cons.mp hu with rfl | hu
            · exact hpop.inTree u (.head _)
            · exact hpopped.inTree u hu
          · intro x d hwalk
            rcases hpopped.complete x d hwalk with hx | hx
            · exact .inl (.tail _ hx)
            · rcases List.mem_cons.mp hx with rfl | hx
              · exact .inl (.head _)
              · exact .inr hx
        · dsimp only
          rw [hloop]
          exact .inr ⟨rfl, hwhy⟩
    · rw [hnext]
      exact .inr ⟨rfl, hwhy⟩

/-- The root alone, before its links are examined. -/
theorem SpfInv.start (env : RoutingEnv) (hwf : db.WellFormed) (hlsa : lsa ∈ db.database)
    (hrouter : lsa.lsType = .routerLSA) : SpfInv env db lsa.linkStateId
      [{ SPFVertex.new lsa with distanceFromRoot := 0 }]
      (SpfState.setStatus { status := fun _ => .notExplored, candidate := [] } lsa .inSpfTree)
      (Pending db { SPFVertex.new lsa with distanceFromRoot := 0 } (SpfEntry.entries lsa)) := by
  have hroot : IsDist (Edge db) lsa.linkStateId lsa.linkStateId 0 :=
    ⟨.nil, fun d _ => Nat.zero_le d⟩
  constructor
  case frontier =>
    refine ⟨⟨_, List.mem_singleton_self _, rfl, rfl⟩, ?_, ?_, nofun, nofun, nofun⟩
    · rintro u d ⟨y, hy, rfl, rfl⟩
      obtain rfl := List.mem_singleton.mp hy
      exact hroot
    · rintro u d w c ⟨y, hy, rfl, rfl⟩ hedge hnot
      obtain rfl := List.mem_singleton.mp hy
      exact absurd ⟨rfl, (SpfEntry.edge_iff hwf hlsa).mp hedge⟩ hnot
  case inTree =>
    intro v hv
    obtain rfl := List.mem_singleton.mp hv
    exact ⟨hlsa, hroot, fun _ => hrouter, fun hne => absurd rfl hne⟩
  case candidates => exact nofun
  case statusTree =>
    intro x
    change (if x = lsa.linkStateId then SPFStatus.inSpfTree else .notExplored) = _ ↔
      x ∈ [lsa.linkStateId]
    rw [List.mem_singleton]
    by_cases hx : x = lsa.linkStateId
    · rw [if_pos hx]
      exact ⟨fun _ => hx, fun _ => rfl⟩
    · rw [if_neg hx]
      exact ⟨nofun, fun h => absurd h hx⟩
  case statusCandidate =>
    intro x
    change (if x = lsa.linkStateId then SPFStatus.inSpfTree else .notExplored) = _ ↔ x ∈ []
    by_cases hx : x = lsa.linkStateId
    · rw [if_pos hx]
      exact ⟨nofun, nofun⟩
    · rw [if_neg hx]
      exact ⟨nofun, nofun⟩
  case distinctTree => exact List.nodup_singleton _
  case distinct => exact List.nodup_nil
  case sorted => exact .nil

theorem PoppedFrom.shortestPathTree (h : PoppedFrom env db root tree v popped)
    (htree : tree.map SPFVertex.vertexId = [root]) : ShortestPathTree db root popped where
  ordered := h.ordered
  once := h.distinct
  reached x := by
    constructor
    · intro hx
      obtain ⟨u, hu, rfl⟩ := List.mem_map.mp hx
      have hne := h.apart u hu
      rw [htree, List.mem_singleton] at hne
      exact ⟨hne, _, (h.inTree u hu).shortest.walk⟩
    · rintro ⟨hne, d, hwalk⟩
      rcases h.complete x d hwalk with hx | hx
      · exact hx
      · rw [htree, List.mem_singleton] at hx
        exact absurd hx hne
  advertised u hu := (h.inTree u hu).advertised
  shortest u hu := (h.inTree u hu).shortest

/-! ## Stub routers -/

theorem walk_eq_root (hlsa : lsa ∈ db.database) (hrouter : lsa.lsType = .routerLSA)
    (hnone : lsa.linkRecords.filter (fun l => l.isTransit) = []) {d : Nat}
    (hwalk : Walk (Edge db) lsa.linkStateId x d) : x = lsa.linkStateId := by
  induction hwalk with
  | nil => rfl
  | @snoc u w d c _ hedge ih =>
    rw [ih] at hedge
    generalize hid : lsa.linkStateId = u at hedge
    cases hedge with
    | link hlsa' htype hl htransit =>
      obtain rfl := db.eq_of_linkStateId hlsa hlsa' hid
      exact absurd htransit (List.filter_eq_nil_iff.mp hnone _ hl)
    | attached hlsa' htype _ _ =>
      obtain rfl := db.eq_of_linkStateId hlsa hlsa' hid
      rw [hrouter] at htype
      cases htype

theorem checkForStubNode_of (hget : db.getLSA root = some lsa) (hstub : ¬lsa.IsStub) :
    ∃ b, checkForStubNode db root = .ok b ∧
      (b = true → lsa.linkRecords.filter (fun l => l.isTransit) = []) := by
  rw [checkForStubNode, hget]
  dsimp only
  generalize hfilter : lsa.linkRecords.filter (fun l => l.isTransit) = links
  match links with
  | [] => exact ⟨true, rfl, fun _ => rfl⟩
  | [l] =>
    have hmem : l ∈ lsa.linkRecords.filter fun l => l.isTransit :=
      hfilter ▸ List.mem_singleton_self l
    rcases of_decide_eq_true (List.mem_filter.mp hmem).2 with htype | htype
    · dsimp only
      rw [if_pos htype]
      exact ⟨false, rfl, nofun⟩
    · exact absurd ⟨l, hfilter, htype⟩ hstub
  | _ :: _ :: _ => exact ⟨false, rfl, nofun⟩

/-- **Shortest paths.** Unless the root is a stub router, the popped vertices are the shortest-path
tree, or the calculation stops: a network is reached by several exits, or an address is astray. -/
theorem spfCalculate_shortest (hwf : db.WellFormed) (hfits : db.Fits root)
    (hget : db.getLSA root = some lsa) (hrouter : lsa.lsType = .routerLSA)
    (hstub : env.nNodes = 0 ∨ ¬lsa.IsStub) :
    (∃ popped, spfCalculate env db root = .ok popped ∧ ShortestPathTree db root popped) ∨
      spfCalculate env db root = .error .assertFailed ∧
        (SeveralExits env db root ∨ Astray db) := by
  obtain ⟨hlsa, rfl⟩ := mem_of_getLSA hget
  have hcurrent : Current [{ SPFVertex.new lsa with distanceFromRoot := 0 }]
      { SPFVertex.new lsa with distanceFromRoot := 0 } := by
    refine ⟨List.mem_singleton_self _, fun u hu => ?_⟩
    obtain rfl := List.mem_singleton.mp hu
    exact le_rfl
  have hstart := SpfInv.start env hwf hlsa hrouter
  have hrun := spfLoop_of db.database.length hwf hfits hstart hcurrent
    (by rw [List.length_singleton]; omega)
  have hresult := hrun.imp_left fun ⟨popped, hloop, hpopped⟩ =>
    (⟨popped, hloop, hpopped.shortestPathTree rfl⟩ : ∃ popped, _ = Except.ok popped ∧
      ShortestPathTree db lsa.linkStateId popped)
  rw [spfCalculate, hget]
  dsimp only
  split
  · rename_i hnodes
    obtain ⟨b, hcheck, hshort⟩ := checkForStubNode_of hget (hstub.resolve_left (by omega))
    rw [hcheck, ok_bind]
    cases b with
    | false => exact hresult
    | true =>
      refine .inl ⟨[], rfl, .nil, List.nodup_nil, fun x => ⟨nofun, ?_⟩, nofun, nofun⟩
      rintro ⟨hne, d, hwalk⟩
      exact absurd (walk_eq_root hlsa hrouter (hshort rfl) hwalk) hne
  · exact hresult

theorem fits_of_walks (h : ∀ u ∈ db.database, ∃ d, Walk (Edge db) root u.linkStateId d ∧
    d + 2 ^ 16 ≤ 2 ^ 32) : db.Fits root := by
  intro u w d c hdist hedge
  have hstep : ∃ y ∈ db.database, y.linkStateId = u ∧ c < 2 ^ 16 := by
    cases hedge with
    | @link lsa l hlsa _ _ _ => exact ⟨lsa, hlsa, rfl, l.metric_lt⟩
    | @attached lsa w addr hlsa _ _ _ => exact ⟨lsa, hlsa, rfl, Nat.two_pow_pos 16⟩
  obtain ⟨y, hy, rfl, hc⟩ := hstep
  obtain ⟨d', hwalk, hle⟩ := h y hy
  have hleast := hdist.least d' hwalk
  omega

end

/-! ## Two routers -/

def oneLinkRouter (id : Ipv4Address) (linkType : LinkType) (peer addr : Ipv4Address) :
    GlobalRoutingLSA where
  lsType := .routerLSA
  linkStateId := id
  linkRecords := [⟨linkType, peer, addr, 1, metric_one⟩]
  networkLSANetworkMask := 0
  attachedRouters := []
  bare := nofun

def onNetwork : GlobalRouteManagerLSDB where
  database := [oneLinkRouter 1 .transitNetwork 10 10, oneLinkRouter 2 .transitNetwork 10 11,
    ⟨.networkLSA, 10, [], 0xffffff00, [10, 11], bare_nil _⟩]
  sorted := by decide

def onLink : GlobalRouteManagerLSDB where
  database := [oneLinkRouter 1 .pointToPoint 2 10, oneLinkRouter 2 .pointToPoint 1 11]
  sorted := by decide

theorem spfCalculate_shortest_onNetwork :
    ∃ popped, spfCalculate ⟨2, fun _ _ => 1, id⟩ onNetwork 1 = .ok popped ∧
      ShortestPathTree onNetwork 1 popped := by
  have hwf : onNetwork.WellFormed := ⟨by decide, by decide, by decide, by decide⟩
  have hone : Edge onNetwork 1 10 1 :=
    (SpfEntry.edge_iff hwf (.head _)).mpr ⟨_, .head _, _, rfl, rfl, rfl⟩
  have hnet : (⟨.networkLSA, 10, [], 0xffffff00, [10, 11], bare_nil _⟩ : GlobalRoutingLSA) ∈
      onNetwork.database := by decide
  have htwo : Edge onNetwork 10 2 0 :=
    (SpfEntry.edge_iff hwf hnet).mpr
      ⟨.attached 11, List.mem_of_getElem? (i := 1) rfl, _, rfl, rfl, rfl⟩
  have hends : (spfCalculate ⟨2, fun _ _ => 1, id⟩ onNetwork 1).toOption.isSome := by decide
  refine (spfCalculate_shortest hwf (fits_of_walks ?_) rfl rfl (.inr ?_)).resolve_right
    fun ⟨hstop, _⟩ => by rw [hstop] at hends; cases hends
  · intro u hu
    rcases List.mem_cons.mp hu with rfl | hu
    · exact ⟨_, .nil, by decide⟩
    · rcases List.mem_cons.mp hu with rfl | hu
      · exact ⟨_, .snoc (.snoc .nil hone) htwo, by decide⟩
      · obtain rfl := List.mem_singleton.mp hu
        exact ⟨_, .snoc .nil hone, by decide⟩
  · rintro ⟨l, hl, htype⟩
    obtain rfl := List.singleton_inj.mp hl
    cases htype

/-- The root of a stub router pops nothing, though it has a neighbour. -/
theorem spfCalculate_stub : onLink.WellFormed ∧ onLink.Fits 1 ∧
    ¬∃ popped, spfCalculate ⟨2, fun _ _ => 1, id⟩ onLink 1 = .ok popped ∧
      ShortestPathTree onLink 1 popped := by
  have hwf : onLink.WellFormed := ⟨by decide, by decide, by decide, by decide⟩
  have hone : Edge onLink 1 2 1 :=
    (SpfEntry.edge_iff hwf (.head _)).mpr ⟨_, .head _, _, rfl, rfl, rfl⟩
  refine ⟨hwf, fits_of_walks ?_, ?_⟩
  · intro u hu
    rcases List.mem_cons.mp hu with rfl | hu
    · exact ⟨_, .nil, by decide⟩
    · obtain rfl := List.mem_singleton.mp hu
      exact ⟨_, .snoc .nil hone, by decide⟩
  · rintro ⟨popped, hrun, htree⟩
    have hnone : spfCalculate ⟨2, fun _ _ => 1, id⟩ onLink 1 = .ok [] := rfl
    rw [hnone] at hrun
    cases hrun
    exact absurd ((htree.reached 2).mpr ⟨by decide, _, .snoc .nil hone⟩) List.not_mem_nil

end Ns3
