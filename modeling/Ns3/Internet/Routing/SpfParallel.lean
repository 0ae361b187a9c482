/-
  The exits of the root to a router next to it.

  Several point-to-point links may lead from the root to one router.  The interface of an
  exit is that of the record at the root which is looked at; the next hop is the address in
  the first record of the other router that names the root.  The two belong to one link only
  if that link is the one listed first.
-/
import Ns3.Internet.Routing.SpfTermination

namespace Ns3

open GlobalRouteManagerLSDB CandidateQueue

/-! ## Links with both ends -/

/-- The links between two routers: each has a record at either end. -/
structure SharedLinks (lsa w_lsa : GlobalRoutingLSA) where
  links : List (GlobalRoutingLinkRecord × GlobalRoutingLinkRecord)
  near : links.map Prod.fst =
    lsa.linkRecords.filter fun l => l.isTransit ∧ l.linkId = w_lsa.linkStateId
  far : (links.map Prod.snd).Perm
    (w_lsa.linkRecords.filter fun l => l.isTransit ∧ l.linkId = lsa.linkStateId)

def exitOver (env : RoutingEnv) (l : GlobalRoutingLinkRecord) (nextHop : Ipv4Address) : NodeExit :=
  (nextHop, env.outgoingInterfaceId l.linkData Ipv4Mask.ones)

namespace SharedLinks

variable {lsa w_lsa : GlobalRoutingLSA}

def LeastCost (shared : SharedLinks lsa w_lsa)
    (p : GlobalRoutingLinkRecord × GlobalRoutingLinkRecord) : Prop :=
  p ∈ shared.links ∧ ∀ q ∈ shared.links, p.1.metric ≤ q.1.metric

/-- Each exit is made of the two ends of one link, and each link of least cost is there. -/
structure Paired (shared : SharedLinks lsa w_lsa) (env : RoutingEnv) (exits : List NodeExit) :
    Prop where
  together : ∀ e ∈ exits, ∃ p ∈ shared.links, e = exitOver env p.1 p.2.linkData
  complete : ∀ p, shared.LeastCost p → exitOver env p.1 p.2.linkData ∈ exits

/-- The first record of the other router that names the root is at the far end of each link of
least cost. -/
def ListedFirst (shared : SharedLinks lsa w_lsa) : Prop :=
  ∀ p, shared.LeastCost p → ∃ back,
    w_lsa.linkRecords.find? (fun l => l.linkId = lsa.linkStateId) = some back ∧
      back.linkData = p.2.linkData

end SharedLinks

/-! ## What one entry changes -/

theorem mem_destutter_ne {α : Type*} [DecidableEq α] {x : α} {l : List α} :
    x ∈ l.destutter (· ≠ ·) ↔ x ∈ l := by
  have hcons : ∀ (l : List α) (a : α), x ∈ l.destutter' (· ≠ ·) a ↔ x ∈ a :: l := by
    intro l
    induction l with
    | nil => exact fun a => .rfl
    | cons b l ih =>
      intro a
      by_cases hab : a ≠ b
      · rw [List.destutter'_cons_pos l hab, List.mem_cons, ih, List.mem_cons (b := a)]
      · rw [List.destutter'_cons_neg l hab, ih, not_not.mp hab, List.mem_cons, List.mem_cons,
          List.mem_cons, ← or_assoc, or_self]
  cases l with
  | nil => exact .rfl
  | cons a l => exact hcons l a

theorem mem_mergeRootExitDirections {cw w : SPFVertex} {e : NodeExit} :
    e ∈ (cw.mergeRootExitDirections w).ecmpRootExits ↔
      e ∈ cw.ecmpRootExits ∨ e ∈ w.ecmpRootExits := by
  rw [SPFVertex.mergeRootExitDirections, mem_destutter_ne,
    (List.mergeSort_perm _ _).mem_iff, List.mem_append]

section

variable {env : RoutingEnv} {db : GlobalRouteManagerLSDB} {root x : Ipv4Address}
  {v w w' cw : SPFVertex} {l : GlobalRoutingLinkRecord} {e : SpfEntry} {s s' : SpfState}
  {lsa w_lsa : GlobalRoutingLSA} {distance : Nat}

theorem nexthop_from_root (hroot : v.vertexId = root) (hw : w.lsa.lsType = .routerLSA)
    (h : spfNexthopCalculation env root v w (some l) distance = .ok w') :
    ∃ back, w.lsa.linkRecords.find? (fun l => l.linkId = root) = some back ∧
      w' = (w.setRootExitDirection (exitOver env l back.linkData)).reachedFrom root distance := by
  have hlink : spfGetNextLink w v false = w.lsa.linkRecords.find? fun l => l.linkId = root := by
    rw [spfGetNextLink, hroot]
    exact spfGetNextLinkFrom_first
  rw [spfNexthopCalculation.eq_def, if_pos hroot, vertexType_router hw] at h
  dsimp only at h
  rw [hlink] at h
  cases hfind : w.lsa.linkRecords.find? fun l => l.linkId = root with
  | none =>
    rw [hfind] at h
    cases h
  | some back =>
    rw [hfind] at h
    exact ⟨back, rfl, by rw [← Except.ok.inj h, hroot]; rfl⟩

theorem examine_elsewhere (hother : ∀ w, e.target db = .ok (some w) → w.linkStateId ≠ x)
    (hrun : s.examine env root db v e = .ok s') :
    s'.status x = s.status x ∧
      ∀ u ∈ s.candidate, u.vertexId = x → u ∈ s'.candidate := by
  rw [SpfState.examine] at hrun
  obtain ⟨o, htarget, hrun⟩ := bind_eq_ok.mp hrun
  cases o with
  | none =>
    cases hrun
    exact ⟨rfl, fun u hu _ => hu⟩
  | some w_lsa =>
    have hne := hother w_lsa htarget
    dsimp only at hrun
    split at hrun
    · cases hrun
      exact ⟨rfl, fun u hu _ => hu⟩
    · rw [SpfState.explore] at hrun
      obtain ⟨w, -, rfl⟩ := bind_pure_eq_ok.mp hrun
      refine ⟨if_neg (Ne.symm hne), fun u hu _ => ?_⟩
      exact push_perm.mem_iff.mpr (.tail _ hu)
    · rw [SpfState.improve] at hrun
      split at hrun
      · cases hrun
      · split at hrun
        · cases hrun
          exact ⟨rfl, fun u hu _ => hu⟩
        · split at hrun
          · obtain ⟨w, -, rfl⟩ := bind_pure_eq_ok.mp hrun
            exact ⟨rfl, fun u hu hid => mem_update_of_ne hu (hid ▸ Ne.symm hne)⟩
          · obtain ⟨w, -, rfl⟩ := bind_pure_eq_ok.mp hrun
            refine ⟨rfl, fun u hu hid => reorder_perm.mem_iff.mpr ?_⟩
            exact mem_update_of_ne hu (hid ▸ Ne.symm hne)

/-! ## What is known while the records of the root are looked at -/

variable {back : GlobalRoutingLinkRecord} {ls : List GlobalRoutingLinkRecord}

/-- The exits to the router `w_lsa` after some records `ls` that lead to it. -/
structure RootExits (env : RoutingEnv) (root : Ipv4Address) (w_lsa : GlobalRoutingLSA)
    (ls : List GlobalRoutingLinkRecord) (cw : SPFVertex) : Prop where
  self : cw.lsa = w_lsa
  below : ∀ l ∈ ls, cw.distanceFromRoot ≤ l.metric
  reached : ∃ l ∈ ls, l.metric = cw.distanceFromRoot
  exits : ∀ e, e ∈ cw.ecmpRootExits ↔ ∃ l ∈ ls, l.metric = cw.distanceFromRoot ∧
    ∃ back, w_lsa.linkRecords.find? (fun l => l.linkId = root) = some back ∧
      e = exitOver env l back.linkData

/-- The router is not explored before the first of these records, and a candidate after it. -/
structure Looked (env : RoutingEnv) (root : Ipv4Address) (w_lsa : GlobalRoutingLSA)
    (ls : List GlobalRoutingLinkRecord) (s : SpfState) : Prop where
  before : ls = [] → s.status w_lsa.linkStateId = .notExplored
  after : ls ≠ [] → s.status w_lsa.linkStateId = .candidate ∧
    ∃ cw ∈ s.candidate, RootExits env root w_lsa ls cw

def SpfEntry.toward (x : Ipv4Address) (e : SpfEntry) : Option GlobalRoutingLinkRecord :=
  e.record.filter fun l => l.isTransit ∧ l.linkId = x

theorem RootExits.first (hw : w.lsa = w_lsa)
    (hback : w_lsa.linkRecords.find? (fun l => l.linkId = root) = some back) :
    RootExits env root w_lsa [l]
      ((w.setRootExitDirection (exitOver env l back.linkData)).reachedFrom root l.metric) where
  self := hw
  below l' hl' := Nat.le_of_eq (List.mem_singleton.mp hl' ▸ rfl)
  reached := ⟨l, List.mem_singleton_self l, rfl⟩
  exits e := by
    constructor
    · intro he
      exact ⟨l, List.mem_singleton_self l, rfl, back, hback, List.mem_singleton.mp he⟩
    · rintro ⟨l', hl', -, back', hback', rfl⟩
      obtain rfl := List.mem_singleton.mp hl'
      obtain rfl := Option.mem_unique hback hback'
      exact List.mem_singleton_self _

theorem RootExits.dearer (h : RootExits env root w_lsa ls cw)
    (hlt : cw.distanceFromRoot < l.metric) :
    RootExits env root w_lsa (ls ++ [l]) cw where
  self := h.self
  below l' hl' := by
    rcases List.mem_append.mp hl' with hl' | hl'
    · exact h.below l' hl'
    · exact List.mem_singleton.mp hl' ▸ hlt.le
  reached := by
    obtain ⟨l', hl', hmetric⟩ := h.reached
    exact ⟨l', List.mem_append_left _ hl', hmetric⟩
  exits e := by
    rw [h.exits e]
    constructor
    · rintro ⟨l', hl', hrest⟩
      exact ⟨l', List.mem_append_left _ hl', hrest⟩
    · rintro ⟨l', hl', hmetric, hrest⟩
      rcases List.mem_append.mp hl' with hl' | hl'
      · exact ⟨l', hl', hmetric, hrest⟩
      · obtain rfl := List.mem_singleton.mp hl'
        exact absurd hmetric (Nat.ne_of_gt hlt)

theorem RootExits.equal (h : RootExits env root w_lsa ls cw) (heq : cw.distanceFromRoot = l.metric)
    (hback : w_lsa.linkRecords.find? (fun l => l.linkId = root) = some back)
    (address : Ipv4Address → Nat) (hw : w.ecmpRootExits = [exitOver env l back.linkData]) :
    RootExits env root w_lsa (ls ++ [l]) ((cw.mergeRootExitDirections w).mergeParent address w)
    where
  self := h.self
  below l' hl' := by
    rcases List.mem_append.mp hl' with hl' | hl'
    · exact h.below l' hl'
    · exact List.mem_singleton.mp hl' ▸ heq.le
  reached := ⟨l, List.mem_append_right _ (List.mem_singleton_self l), heq.symm⟩
  exits e := by
    have hmerge : e ∈ ((cw.mergeRootExitDirections w).mergeParent address w).ecmpRootExits ↔
        e ∈ cw.ecmpRootExits ∨ e ∈ w.ecmpRootExits := mem_mergeRootExitDirections
    rw [hmerge, h.exits e, hw, List.mem_singleton]
    constructor
    · rintro (⟨l', hl', hrest⟩ | rfl)
      · exact ⟨l', List.mem_append_left _ hl', hrest⟩
      · exact ⟨l, List.mem_append_right _ (List.mem_singleton_self l), heq.symm, back, hback, rfl⟩
    · rintro ⟨l', hl', hmetric, back', hback', rfl⟩
      rcases List.mem_append.mp hl' with hl' | hl'
      · exact .inl ⟨l', hl', hmetric, back', hback', rfl⟩
      · obtain rfl := List.mem_singleton.mp hl'
        obtain rfl := Option.mem_unique hback hback'
        exact .inr rfl

theorem RootExits.cheaper (h : RootExits env root w_lsa ls cw)
    (hlt : l.metric < cw.distanceFromRoot)
    (hback : w_lsa.linkRecords.find? (fun l => l.linkId = root) = some back) :
    RootExits env root w_lsa (ls ++ [l])
      ((cw.setRootExitDirection (exitOver env l back.linkData)).reachedFrom root l.metric) where
  self := h.self
  below l' hl' := by
    rcases List.mem_append.mp hl' with hl' | hl'
    · exact hlt.le.trans (h.below l' hl')
    · exact Nat.le_of_eq (List.mem_singleton.mp hl' ▸ rfl)
  reached := ⟨l, List.mem_append_right _ (List.mem_singleton_self l), rfl⟩
  exits e := by
    constructor
    · intro he
      exact ⟨l, List.mem_append_right _ (List.mem_singleton_self l), rfl, back, hback,
        List.mem_singleton.mp he⟩
    · rintro ⟨l', hl', hmetric, back', hback', rfl⟩
      rcases List.mem_append.mp hl' with hl' | hl'
      · have hle := h.below l' hl'
        have hmetric' : l'.metric = l.metric := hmetric
        omega
      · obtain rfl := List.mem_singleton.mp hl'
        obtain rfl := Option.mem_unique hback hback'
        exact List.mem_singleton_self _

theorem toward_eq_some : e.toward x = some l ↔ e = .link l ∧ l.isTransit ∧ l.linkId = x := by
  cases e with
  | attached addr => exact iff_of_false nofun (fun h => nomatch h.1)
  | link l' =>
    rw [SpfEntry.toward, SpfEntry.record, Option.filter_eq_some_iff, decide_eq_true_iff]
    constructor
    · rintro ⟨hl, h⟩
      cases hl
      exact ⟨rfl, h⟩
    · rintro ⟨hl, h⟩
      obtain rfl := SpfEntry.link.inj hl
      exact ⟨rfl, h⟩

theorem target_toward {o : Option GlobalRoutingLSA} (hw : w_lsa ∈ db.database)
    (htoward : e.toward w_lsa.linkStateId = some l) (h : e.target db = .ok o) : o = some w_lsa := by
  obtain ⟨rfl, htransit, hid⟩ := toward_eq_some.mp htoward
  obtain ⟨w', rfl⟩ := SpfEntry.exists_of_isTransit htransit h
  obtain ⟨hw', ⟨l', hl', -, hget⟩ | ⟨addr, haddr, -⟩⟩ := SpfEntry.target_eq_some h
  · obtain rfl := SpfEntry.link.inj hl'
    rw [db.eq_of_linkStateId hw' hw ((mem_of_getLSA hget).2.trans hid)]
  · cases haddr

theorem target_elsewhere (hv : v.lsa.lsType = .routerLSA) (he : e ∈ SpfEntry.entries v.lsa)
    (htoward : e.toward x = none) (h : e.target db = .ok (some w_lsa)) : w_lsa.linkStateId ≠ x := by
  rintro rfl
  obtain ⟨-, ⟨l, rfl, htransit, hget⟩ | ⟨addr, rfl, -⟩⟩ := SpfEntry.target_eq_some h
  · have hsome := toward_eq_some.mpr ⟨rfl, htransit, (mem_of_getLSA hget).2.symm⟩
    rw [htoward] at hsome
    cases hsome
  · obtain ⟨hnet, -⟩ := SpfEntry.mem_entries_attached.mp he
    rw [hv] at hnet
    cases hnet

theorem Looked.record (h : Looked env root w_lsa ls s) (hlisted : Listed db s)
    (hrouter : w_lsa.lsType = .routerLSA) (hroot : v.vertexId = root)
    (hrun : (match s.status w_lsa.linkStateId with
      | .inSpfTree => Except.ok s
      | .notExplored => s.explore env root v w_lsa (.link l) l.metric
      | .candidate => s.improve env root v w_lsa (.link l) l.metric) = .ok s') :
    Looked env root w_lsa (ls ++ [l]) s' := by
  refine ⟨fun hnil => absurd hnil (by simp), fun _ => ?_⟩
  by_cases hls : ls = []
  · rw [h.before hls] at hrun
    dsimp only at hrun
    rw [SpfState.explore] at hrun
    obtain ⟨w, hnext, rfl⟩ := bind_pure_eq_ok.mp hrun
    obtain ⟨back, hback, rfl⟩ := nexthop_from_root hroot hrouter hnext
    rw [hls]
    refine ⟨if_pos rfl, _, push_perm.mem_iff.mpr (.head _), .first rfl hback⟩
  · obtain ⟨hstatus, cw, hcw, hexits⟩ := h.after hls
    rw [hstatus] at hrun
    dsimp only at hrun
    rw [SpfState.improve] at hrun
    have hid : cw.vertexId = w_lsa.linkStateId :=
      congrArg GlobalRoutingLSA.linkStateId hexits.self
    have hrouter' : cw.lsa.lsType = .routerLSA := hexits.self ▸ hrouter
    obtain ⟨cw', hfind⟩ := exists_find hcw
    obtain ⟨hcw', hid'⟩ := find_eq_some hfind
    obtain rfl := hlisted.distinct.eq hcw' hcw hid'
    rw [hid] at hfind
    rw [hfind] at hrun
    dsimp only at hrun
    split at hrun
    · rename_i hlt
      cases hrun
      exact ⟨hstatus, _, hcw, hexits.dearer hlt⟩
    · rename_i hnlt
      split at hrun
      · rename_i heq
        obtain ⟨w, hnext, rfl⟩ := bind_pure_eq_ok.mp hrun
        obtain ⟨back, hback, rfl⟩ := nexthop_from_root hroot hrouter hnext
        exact ⟨hstatus, _, self_mem_update hcw hid, hexits.equal heq hback env.address rfl⟩
      · rename_i hne
        obtain ⟨w, hnext, rfl⟩ := bind_pure_eq_ok.mp hrun
        obtain ⟨back, hback, rfl⟩ := nexthop_from_root hroot hrouter' hnext
        rw [hexits.self] at hback
        exact ⟨hstatus, _, reorder_perm.mem_iff.mpr (self_mem_update hcw hid),
          hexits.cheaper (by omega) hback⟩

theorem Looked.examine (h : Looked env root w_lsa ls s) (hlisted : Listed db s)
    (hw : w_lsa ∈ db.database) (hrouter : w_lsa.lsType = .routerLSA) (hroot : v.vertexId = root)
    (hzero : v.distanceFromRoot = 0) (hv : v.lsa.lsType = .routerLSA)
    (he : e ∈ SpfEntry.entries v.lsa) (hrun : s.examine env root db v e = .ok s') :
    Looked env root w_lsa (ls ++ (e.toward w_lsa.linkStateId).toList) s' := by
  cases htoward : e.toward w_lsa.linkStateId with
  | none =>
    obtain ⟨hstatus, hkeep⟩ :=
      examine_elsewhere (fun w hw => target_elsewhere hv he htoward hw) hrun
    rw [Option.toList_none, List.append_nil]
    refine ⟨fun hls => hstatus.trans (h.before hls), fun hls => ?_⟩
    obtain ⟨hcandidate, cw, hcw, hexits⟩ := h.after hls
    have hid : cw.vertexId = w_lsa.linkStateId :=
      congrArg GlobalRoutingLSA.linkStateId hexits.self
    exact ⟨hstatus.trans hcandidate, cw, hkeep cw hcw hid, hexits⟩
  | some l =>
    obtain ⟨rfl, -, -⟩ := toward_eq_some.mp htoward
    rw [SpfState.examine] at hrun
    obtain ⟨o, htarget, hrun⟩ := bind_eq_ok.mp hrun
    obtain rfl := target_toward hw htoward htarget
    have hdistance : (v.distanceFromRoot + (SpfEntry.link l).cost) % 2 ^ 32 = l.metric := by
      have hlt := l.metric_lt
      rw [hzero, SpfEntry.cost]
      omega
    dsimp only at hrun
    rw [hdistance] at hrun
    exact h.record hlisted hrouter hroot hrun

def SpfEntry.allToward (x : Ipv4Address) (es : List SpfEntry) : List GlobalRoutingLinkRecord :=
  es.filterMap (SpfEntry.toward x)

variable {es : List SpfEntry}

theorem allToward_cons : SpfEntry.allToward x (e :: es) =
    (e.toward x).toList ++ SpfEntry.allToward x es := by
  rw [SpfEntry.allToward, SpfEntry.allToward, List.filterMap_cons]
  cases e.toward x <;> rfl

theorem allToward_entries (hrouter : lsa.lsType = .routerLSA) :
    SpfEntry.allToward x (SpfEntry.entries lsa) =
      lsa.linkRecords.filter fun l => l.isTransit ∧ l.linkId = x := by
  have hlink : ∀ l : GlobalRoutingLinkRecord, (SpfEntry.link l).toward x =
      Option.guard (fun l => decide (l.isTransit ∧ l.linkId = x)) l := fun l => rfl
  rw [SpfEntry.allToward, SpfEntry.entries, hrouter]
  dsimp only
  rw [List.filterMap_map, ← List.filterMap_eq_filter]
  exact List.filterMap_congr fun l _ => hlink l

theorem Looked.spfNext (h : Looked env root w_lsa ls s) (hlisted : Listed db s)
    (hw : w_lsa ∈ db.database) (hrouter : w_lsa.lsType = .routerLSA) (hroot : v.vertexId = root)
    (hzero : v.distanceFromRoot = 0) (hv : v.lsa.lsType = .routerLSA)
    (hes : ∀ e ∈ es, e ∈ SpfEntry.entries v.lsa)
    (hrun : es.foldlM (fun s e => s.examine env root db v e) s = .ok s') :
    Looked env root w_lsa (ls ++ SpfEntry.allToward w_lsa.linkStateId es) s' ∧ Listed db s' := by
  induction es generalizing s ls with
  | nil =>
    cases hrun
    rw [SpfEntry.allToward, List.filterMap_nil, List.append_nil]
    exact ⟨h, hlisted⟩
  | cons e es ih =>
    rw [List.foldlM_cons] at hrun
    obtain ⟨s₁, hexamine, hrun⟩ := bind_eq_ok.mp hrun
    have h₁ := h.examine hlisted hw hrouter hroot hzero hv (hes e (.head _)) hexamine
    have hmore := ih h₁ (hlisted.examine hexamine).1
      (fun e he => hes e (.tail _ he)) hrun
    rwa [List.append_assoc, ← allToward_cons] at hmore

end

/-! ## The exits that are stored -/

def rootVertex (lsa : GlobalRoutingLSA) : SPFVertex :=
  { SPFVertex.new lsa with distanceFromRoot := 0 }

/-- The state in which `SPFCalculate` looks at the root. -/
def rootState (lsa : GlobalRoutingLSA) : SpfState :=
  SpfState.setStatus { status := fun _ => .notExplored, candidate := [] } lsa .inSpfTree

section

variable {env : RoutingEnv} {lsa w_lsa : GlobalRoutingLSA} {cw : SPFVertex}

section

variable (shared : SharedLinks lsa w_lsa)
  (h : RootExits env lsa.linkStateId w_lsa (shared.links.map Prod.fst) cw)

include shared h

theorem SharedLinks.leastCost_iff (p : GlobalRoutingLinkRecord × GlobalRoutingLinkRecord) :
    shared.LeastCost p ↔ p ∈ shared.links ∧ p.1.metric = cw.distanceFromRoot := by
  constructor
  · rintro ⟨hp, hleast⟩
    refine ⟨hp, Nat.le_antisymm ?_ (h.below _ (List.mem_map_of_mem hp))⟩
    obtain ⟨l, hl, hmetric⟩ := h.reached
    obtain ⟨q, hq, rfl⟩ := List.mem_map.mp hl
    exact hmetric ▸ hleast q hq
  · rintro ⟨hp, hmetric⟩
    refine ⟨hp, fun q hq => ?_⟩
    rw [hmetric]
    exact h.below _ (List.mem_map_of_mem hq)

theorem SharedLinks.paired_iff : shared.Paired env cw.ecmpRootExits ↔ shared.ListedFirst := by
  constructor
  · intro hpaired p hp
    obtain ⟨l, -, -, back, hback, heq⟩ := (h.exits _).mp (hpaired.complete p hp)
    exact ⟨back, hback, (congrArg Prod.fst heq).symm⟩
  · intro hfirst
    refine ⟨fun e he => ?_, fun p hp => ?_⟩
    · obtain ⟨l, hl, hmetric, back, hback, rfl⟩ := (h.exits e).mp he
      obtain ⟨p, hp, rfl⟩ := List.mem_map.mp hl
      obtain ⟨back', hback', hdata⟩ := hfirst p ((shared.leastCost_iff h p).mpr ⟨hp, hmetric⟩)
      obtain rfl := Option.mem_unique hback hback'
      exact ⟨p, hp, by rw [hdata]⟩
    · obtain ⟨back, hback, hdata⟩ := hfirst p hp
      obtain ⟨hmem, hmetric⟩ := (shared.leastCost_iff h p).mp hp
      exact (h.exits _).mpr ⟨p.1, List.mem_map_of_mem hmem, hmetric, back, hback, by rw [hdata]⟩

end

end

/-- The router behind the shared links, with the exits they gave it. -/
theorem exists_rootExits {env : RoutingEnv} {db : GlobalRouteManagerLSDB}
    {lsa w_lsa : GlobalRoutingLSA} {s : SpfState} (hrouter : lsa.lsType = .routerLSA)
    (hw : w_lsa ∈ db.database) (hwrouter : w_lsa.lsType = .routerLSA)
    (hne : w_lsa.linkStateId ≠ lsa.linkStateId) (shared : SharedLinks lsa w_lsa)
    (hnext : shared.links ≠ [])
    (hrun : (rootState lsa).spfNext env lsa.linkStateId db (rootVertex lsa) = .ok s) :
    ∃ cw, s.candidate.find w_lsa.linkStateId = some cw ∧
      RootExits env lsa.linkStateId w_lsa (shared.links.map Prod.fst) cw := by
  have hstart : Looked env lsa.linkStateId w_lsa [] (rootState lsa) :=
    ⟨fun _ => if_neg hne, fun h => absurd rfl h⟩
  have hlisted : Listed db (rootState lsa) := ⟨nofun, nofun, List.nodup_nil⟩
  obtain ⟨hlooked, hlisted'⟩ :=
    hstart.spfNext hlisted hw hwrouter rfl rfl hrouter (fun _ he => he) hrun
  have hentries : (rootVertex lsa).lsa = lsa := rfl
  rw [List.nil_append, hentries, allToward_entries hrouter, ← shared.near] at hlooked
  obtain ⟨-, cw, hcw, hexits⟩ := hlooked.after (by simpa using hnext)
  have hid : cw.vertexId = w_lsa.linkStateId :=
    congrArg GlobalRoutingLSA.linkStateId hexits.self
  obtain ⟨cw', hfind⟩ := exists_find hcw
  obtain ⟨hcw', hid'⟩ := find_eq_some hfind
  obtain rfl := hlisted'.distinct.eq hcw' hcw hid'
  exact ⟨cw', hid ▸ hfind, hexits⟩

/-- **The exits to a router next to the root** are the ends of its links of least cost exactly if
the first record of the router that names the root is at the end of each of them. -/
theorem root_exits_paired_iff (env : RoutingEnv) (db : GlobalRouteManagerLSDB)
    (lsa w_lsa : GlobalRoutingLSA) (hrouter : lsa.lsType = .routerLSA)
    (hw : w_lsa ∈ db.database) (hwrouter : w_lsa.lsType = .routerLSA)
    (hne : w_lsa.linkStateId ≠ lsa.linkStateId) (shared : SharedLinks lsa w_lsa)
    (hnext : shared.links ≠ []) (s : SpfState)
    (hrun : (rootState lsa).spfNext env lsa.linkStateId db (rootVertex lsa) = .ok s) :
    ∃ cw, s.candidate.find w_lsa.linkStateId = some cw ∧
      (shared.Paired env cw.ecmpRootExits ↔ shared.ListedFirst) := by
  obtain ⟨cw, hfind, hexits⟩ := exists_rootExits hrouter hw hwrouter hne shared hnext hrun
  exact ⟨cw, hfind, shared.paired_iff hexits⟩

def linkRecord (peer addr : Ipv4Address) (metric : Nat) (h : metric < 2 ^ 16) :
    GlobalRoutingLinkRecord :=
  ⟨.pointToPoint, peer, addr, metric, h⟩

def twoLinkRouter (id peer addr addr' : Ipv4Address) (metric : Nat) (h : metric < 2 ^ 16) :
    GlobalRoutingLSA where
  lsType := .routerLSA
  linkStateId := id
  linkRecords := [linkRecord peer addr 1 metric_one, linkRecord peer addr' metric h]
  networkLSANetworkMask := 0
  attachedRouters := []
  bare := nofun

def twoLinks (metric : Nat) (h : metric < 2 ^ 16) : GlobalRouteManagerLSDB where
  database := [twoLinkRouter 1 2 11 12 metric h, twoLinkRouter 2 1 21 22 metric h]
  sorted := by simp [twoLinkRouter]

def twoLinksShared (metric : Nat) (h : metric < 2 ^ 16) :
    SharedLinks (twoLinkRouter 1 2 11 12 metric h) (twoLinkRouter 2 1 21 22 metric h) where
  links := [(linkRecord 2 11 1 metric_one, linkRecord 1 21 1 metric_one),
    (linkRecord 2 12 metric h, linkRecord 1 22 metric h)]
  near := rfl
  far := .of_eq rfl

def twoLinksEnv : RoutingEnv where
  nNodes := 2
  outgoingInterfaceId a _ := if a = 11 then 1 else if a = 12 then 2 else -1
  address := id

/-- The second link costs more. -/
theorem root_exits_paired_dearer :
    ∃ s, (rootState (twoLinkRouter 1 2 11 12 5 (by decide))).spfNext twoLinksEnv 1
        (twoLinks 5 (by decide)) (rootVertex (twoLinkRouter 1 2 11 12 5 (by decide))) = .ok s ∧
      ∃ cw, s.candidate.find 2 = some cw ∧
        ((twoLinksShared 5 (by decide)).Paired twoLinksEnv cw.ecmpRootExits ↔
          (twoLinksShared 5 (by decide)).ListedFirst) := by
  have hne : (twoLinkRouter 2 1 21 22 5 (by decide)).linkStateId ≠
      (twoLinkRouter 1 2 11 12 5 (by decide)).linkStateId := by decide
  obtain ⟨s, hrun⟩ : ∃ s, (rootState (twoLinkRouter 1 2 11 12 5 (by decide))).spfNext twoLinksEnv 1
      (twoLinks 5 (by decide)) (rootVertex (twoLinkRouter 1 2 11 12 5 (by decide))) = .ok s :=
    ⟨_, rfl⟩
  exact ⟨s, hrun, root_exits_paired_iff twoLinksEnv (twoLinks 5 (by decide)) _ _ rfl
    (List.mem_of_getElem? (i := 1) rfl) rfl hne (twoLinksShared 5 (by decide)) nofun s hrun⟩

/-- Both links cost the same: an exit over the second interface goes to the far end of the
first link. -/
theorem root_exits_mixed :
    ∃ s, (rootState (twoLinkRouter 1 2 11 12 1 (by decide))).spfNext twoLinksEnv 1
        (twoLinks 1 (by decide)) (rootVertex (twoLinkRouter 1 2 11 12 1 (by decide))) = .ok s ∧
      ∃ cw, s.candidate.find 2 = some cw ∧ (21, 2) ∈ cw.ecmpRootExits ∧
        ¬(twoLinksShared 1 (by decide)).Paired twoLinksEnv cw.ecmpRootExits := by
  have hne : (twoLinkRouter 2 1 21 22 1 (by decide)).linkStateId ≠
      (twoLinkRouter 1 2 11 12 1 (by decide)).linkStateId := by decide
  obtain ⟨s, hrun⟩ : ∃ s, (rootState (twoLinkRouter 1 2 11 12 1 (by decide))).spfNext twoLinksEnv 1
      (twoLinks 1 (by decide)) (rootVertex (twoLinkRouter 1 2 11 12 1 (by decide))) = .ok s :=
    ⟨_, rfl⟩
  obtain ⟨cw, hfind, hexits⟩ := exists_rootExits rfl (List.mem_of_getElem? (i := 1) rfl) rfl hne
    (twoLinksShared 1 (by decide)) nofun hrun
  have hmixed : (21, 2) ∈ cw.ecmpRootExits := by
    obtain ⟨l, hl, hmetric⟩ := hexits.reached
    have hone : ∀ l ∈ (twoLinksShared 1 (by decide)).links.map Prod.fst, l.metric = 1 := by decide
    refine (hexits.exits _).mpr ⟨_, List.mem_of_getElem? (i := 1) rfl, ?_, _, rfl, rfl⟩
    exact (hone l hl).symm.trans hmetric
  refine ⟨s, hrun, cw, hfind, hmixed, fun hpaired => ?_⟩
  obtain ⟨p, hp, heq⟩ := hpaired.together _ hmixed
  have hno : ∀ p ∈ (twoLinksShared 1 (by decide)).links,
      (21, 2) ≠ exitOver twoLinksEnv p.1 p.2.linkData := by decide
  exact hno p hp heq

end Ns3
