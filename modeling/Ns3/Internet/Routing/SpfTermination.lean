/-
  When the search for shortest paths ends.

  `SPFGetNextLink` takes the previous link for a flag: after the first record it returns the
  third one again and again.  Where no vertex has two records that point to another, every
  loop ends; each vertex that is popped puts one more advertisement into the tree.
-/
import Ns3.Internet.Routing.SpfExits

namespace Ns3

open GlobalRouteManagerLSDB CandidateQueue

/-! ## The records that point to a vertex -/

/-- The records of an advertisement that point to a vertex. -/
def GlobalRoutingLSA.linksTo (lsa : GlobalRoutingLSA) (id : Ipv4Address) :
    List GlobalRoutingLinkRecord :=
  lsa.linkRecords.filter fun l => l.linkId = id

/-- What repeated calls of `SPFGetNextLink` return before they return null, each with the link
returned before. -/
def linksReturned (v w : SPFVertex) :
    Nat → Option GlobalRoutingLinkRecord → Except Fault (List GlobalRoutingLinkRecord)
  | 0, _ => .error .noProgress
  | fuel + 1, prevLink =>
    match spfGetNextLink v w prevLink.isSome with
    | none => .ok []
    | some l => do
        let ls ← linksReturned v w fuel (some l)
        return l :: ls

/-- The calls return each record that points to `w` once, and then null. -/
def EnumeratesLinks (v w : SPFVertex) : Prop :=
  ∃ fuel ls, linksReturned v w fuel none = .ok ls ∧ ls.Perm (v.lsa.linksTo w.vertexId)

section

variable {v w : SPFVertex} {fuel : Nat} {l : GlobalRoutingLinkRecord}

theorem spfGetNextLink_first : spfGetNextLink v w false = (v.lsa.linksTo w.vertexId)[0]? :=
  spfGetNextLinkFrom_eq true false

theorem spfGetNextLink_next : spfGetNextLink v w true = (v.lsa.linksTo w.vertexId)[2]? :=
  spfGetNextLinkFrom_eq false true

/-- The third parallel link is returned without end. -/
theorem linksReturned_forever (hl : (v.lsa.linksTo w.vertexId)[2]? = some l) (fuel : Nat)
    (prev : GlobalRoutingLinkRecord) : linksReturned v w fuel (some prev) = .error .noProgress := by
  induction fuel generalizing prev with
  | zero => rfl
  | succ fuel ih =>
    rw [linksReturned, Option.isSome_some, spfGetNextLink_next, hl]
    dsimp only
    rw [ih]
    rfl

theorem linksReturned_few (hfew : (v.lsa.linksTo w.vertexId).length ≤ 2) :
    linksReturned v w (fuel + 2) none = .ok (v.lsa.linksTo w.vertexId).head?.toList := by
  have hnext : ∀ prev, linksReturned v w (fuel + 1) (some prev) = .ok [] := by
    intro prev
    rw [linksReturned, Option.isSome_some, spfGetNextLink_next, List.getElem?_eq_none hfew]
  rw [linksReturned, Option.isSome_none, spfGetNextLink_first, ← List.head?_eq_getElem?]
  cases (v.lsa.linksTo w.vertexId).head? with
  | none => rfl
  | some l =>
    dsimp only
    rw [hnext]
    rfl

theorem enumeratesLinks_iff :
    EnumeratesLinks v w ↔ (v.lsa.linksTo w.vertexId).length ≤ 1 := by
  constructor
  · rintro ⟨fuel, ls, hrun, hperm⟩
    by_contra hmany
    match fuel with
    | 0 => cases hrun
    | 1 =>
      rw [linksReturned, Option.isSome_none, spfGetNextLink_first,
        List.getElem?_eq_getElem (by omega)] at hrun
      cases hrun
    | fuel + 2 =>
      rcases Nat.lt_or_ge 2 (v.lsa.linksTo w.vertexId).length with hthree | htwo
      · rw [linksReturned, Option.isSome_none, spfGetNextLink_first,
          List.getElem?_eq_getElem (by omega)] at hrun
        dsimp only at hrun
        rw [linksReturned_forever (List.getElem?_eq_getElem hthree)] at hrun
        cases hrun
      · rw [linksReturned_few htwo] at hrun
        cases hrun
        have hlen := hperm.length_eq
        have hone : (v.lsa.linksTo w.vertexId).head?.toList.length ≤ 1 :=
          Option.length_toList_le
        omega
  · intro hfew
    have hrun : linksReturned v w 2 none = .ok (v.lsa.linksTo w.vertexId).head?.toList :=
      linksReturned_few (hfew.trans (Nat.le_succ 1))
    refine ⟨2, _, hrun, .of_eq ?_⟩
    match hlinks : v.lsa.linksTo w.vertexId with
    | [] => rfl
    | [l] => rfl
    | _ :: _ :: _ =>
      rw [hlinks] at hfew
      exact absurd hfew (by simp)

end

/-! ## The search -/

/-- No advertisement has more than `n` records that point to one vertex. -/
def GlobalRouteManagerLSDB.LinksAtMost (db : GlobalRouteManagerLSDB) (n : Nat) : Prop :=
  ∀ lsa ∈ db.database, ∀ w ∈ db.database, (lsa.linksTo w.linkStateId).length ≤ n

/-- The candidates are advertised and wait, each once. -/
structure Listed (db : GlobalRouteManagerLSDB) (s : SpfState) : Prop where
  advertised : ∀ v ∈ s.candidate, v.lsa ∈ db.database
  waiting : ∀ v ∈ s.candidate, s.status v.vertexId = .candidate
  distinct : s.candidate.Distinct

def outsideTree (db : GlobalRouteManagerLSDB) (s : SpfState) : List GlobalRoutingLSA :=
  db.database.filter fun lsa => s.status lsa.linkStateId ≠ .inSpfTree

section

variable {env : RoutingEnv} {db : GlobalRouteManagerLSDB} {root : Ipv4Address}
  {v w w' : SPFVertex} {l : Option GlobalRoutingLinkRecord} {e : SpfEntry} {s s' : SpfState}
  {w_lsa lsa : GlobalRoutingLSA} {distance fuel : Nat}

theorem ends_getRootExitDirection (v : SPFVertex) : Ends v.getRootExitDirection := by
  rcases getRootExitDirection_cases v with ⟨e, -, h⟩ | ⟨-, h⟩
  · rw [h]
    exact .ok e
  · rw [h]
    exact nofun

theorem ends_setExitOnNetwork (hfew : (w.lsa.linksTo v.vertexId).length ≤ 2) :
    Ends (setExitOnNetwork v w) := by
  rw [setExitOnNetwork, spfGetNextLink_next, List.getElem?_eq_none hfew]
  cases spfGetNextLink w v false with
  | none => exact .ok w
  | some linkRemote => exact (ends_getRootExitDirection v).bind fun exit _ => .ok _

theorem ends_nexthop (hfew : (w.lsa.linksTo v.vertexId).length ≤ 2) :
    Ends (spfNexthopCalculation env root v w l distance) := by
  rw [spfNexthopCalculation.eq_def]
  split
  · split
    · cases l with
      | none => exact fun h => by cases h
      | some l =>
        dsimp only
        split
        · exact fun h => by cases h
        · exact .ok _
    · exact .ok _
  · split
    · split
      · exact (Ends.nsAssert _).bind fun _ _ => (ends_setExitOnNetwork hfew).bind fun _ _ => .ok _
      · exact (ends_getRootExitDirection v).bind fun _ _ => .ok _
    · exact .ok _

theorem setExitOnNetwork_lsa (h : setExitOnNetwork v w = .ok w') : w'.lsa = w.lsa := by
  rw [setExitOnNetwork] at h
  split at h
  · rw [← Except.ok.inj h]
  · obtain ⟨exit, -, h⟩ := bind_eq_ok.mp h
    split at h
    · rw [← Except.ok.inj h]
      rfl
    · cases h

theorem nexthop_lsa (h : spfNexthopCalculation env root v w l distance = .ok w') :
    w'.lsa = w.lsa := by
  rw [spfNexthopCalculation.eq_def] at h
  split at h
  · split at h
    · cases l with
      | none => cases h
      | some l =>
        dsimp only at h
        split at h
        · cases h
        · rw [← Except.ok.inj h]
          rfl
    · rw [← Except.ok.inj h]
      rfl
  · split at h
    · split at h
      · obtain ⟨_, -, h⟩ := bind_eq_ok.mp h
        obtain ⟨w₁, hset, h⟩ := bind_eq_ok.mp h
        rw [← Except.ok.inj h]
        exact (setExitOnNetwork_lsa hset : w₁.lsa = w.lsa)
      · obtain ⟨exit, -, h⟩ := bind_eq_ok.mp h
        rw [← Except.ok.inj h]
        rfl
    · rw [← Except.ok.inj h]
      rfl

theorem ends_target (e : SpfEntry) : Ends (e.target db) := by
  cases e with
  | attached addr => exact .ok _
  | link l =>
    rw [SpfEntry.target.eq_def]
    dsimp only
    split
    · exact .ok _
    · split
      · exact nofun
      · exact .ok _
    · split
      · exact nofun
      · exact .ok _
    · exact nofun
    · exact nofun

section

variable (h : Listed db s)

include h

theorem Listed.explore (hw : w_lsa ∈ db.database)
    (hstatus : s.status w_lsa.linkStateId = .notExplored)
    (hrun : s.explore env root v w_lsa e distance = .ok s') :
    Listed db s' ∧ ∀ x, s'.status x = .inSpfTree ↔ s.status x = .inSpfTree := by
  rw [SpfState.explore] at hrun
  obtain ⟨w, hnext, rfl⟩ := bind_pure_eq_ok.mp hrun
  have hlsa : w.lsa = w_lsa := nexthop_lsa hnext
  have hid : w.vertexId = w_lsa.linkStateId := congrArg GlobalRoutingLSA.linkStateId hlsa
  have hnew : w.vertexId ∉ s.candidate.map SPFVertex.vertexId := by
    intro hmem
    obtain ⟨u, hu, hu'⟩ := List.mem_map.mp hmem
    have hwaiting := h.waiting u hu
    rw [hu', hid, hstatus] at hwaiting
    cases hwaiting
  refine ⟨⟨?_, ?_, ?_⟩, ?_⟩
  · intro u hu
    rcases List.mem_cons.mp (push_perm.mem_iff.mp hu) with rfl | hu
    · exact hlsa ▸ hw
    · exact h.advertised u hu
  · intro u hu
    change (if u.vertexId = w_lsa.linkStateId then _ else _) = _
    split
    · rfl
    · rename_i hne
      rcases List.mem_cons.mp (push_perm.mem_iff.mp hu) with rfl | hu
      · exact absurd hid hne
      · exact h.waiting u hu
  · refine Distinct.perm ?_ push_perm
    exact List.nodup_cons.mpr ⟨hnew, h.distinct⟩
  · intro x
    change (if x = w_lsa.linkStateId then _ else _) = _ ↔ _
    split
    · rename_i hx
      rw [hx, hstatus]
      exact iff_of_false nofun nofun
    · exact .rfl

theorem Listed.update {cw : SPFVertex} (hcw : cw.lsa ∈ db.database) :
    Listed db { s with candidate := s.candidate.update cw.vertexId cw } where
  advertised u hu := by
    rcases mem_update hu with rfl | ⟨hu, -⟩
    · exact hcw
    · exact h.advertised u hu
  waiting u hu := by
    have hids := List.mem_map_of_mem (f := SPFVertex.vertexId) hu
    rw [update_ids rfl] at hids
    obtain ⟨u', hu', hid⟩ := List.mem_map.mp hids
    rw [← hid]
    exact h.waiting u' hu'
  distinct := by
    rw [Distinct, update_ids rfl]
    exact h.distinct

theorem Listed.reorder :
    Listed db { s with candidate := s.candidate.reorder } where
  advertised u hu := h.advertised u (reorder_perm.mem_iff.mp hu)
  waiting u hu := h.waiting u (reorder_perm.mem_iff.mp hu)
  distinct := h.distinct.perm reorder_perm

theorem Listed.improve (hrun : s.improve env root v w_lsa e distance = .ok s') :
    Listed db s' ∧ ∀ x, s'.status x = .inSpfTree ↔ s.status x = .inSpfTree := by
  rw [SpfState.improve] at hrun
  split at hrun
  · cases hrun
  · rename_i cw hfind
    obtain ⟨hcw, hid⟩ := find_eq_some hfind
    split at hrun
    · cases hrun
      exact ⟨h, fun _ => .rfl⟩
    · split at hrun
      · obtain ⟨w, -, rfl⟩ := bind_pure_eq_ok.mp hrun
        have hmerged : ((cw.mergeRootExitDirections w).mergeParent env.address w).lsa ∈
            db.database := h.advertised cw hcw
        rw [← hid]
        exact ⟨h.update hmerged, fun _ => .rfl⟩
      · obtain ⟨cw', hnext, rfl⟩ := bind_pure_eq_ok.mp hrun
        have hlsa : cw'.lsa = cw.lsa := nexthop_lsa hnext
        have hid' : cw'.vertexId = w_lsa.linkStateId :=
          (congrArg GlobalRoutingLSA.linkStateId hlsa).trans hid
        rw [← hid']
        exact ⟨(h.update (hlsa ▸ h.advertised cw hcw)).reorder, fun _ => .rfl⟩

theorem Listed.examine (hrun : s.examine env root db v e = .ok s') :
    Listed db s' ∧ ∀ x, s'.status x = .inSpfTree ↔ s.status x = .inSpfTree := by
  rw [SpfState.examine] at hrun
  obtain ⟨o, htarget, hrun⟩ := bind_eq_ok.mp hrun
  cases o with
  | none =>
    cases hrun
    exact ⟨h, fun _ => .rfl⟩
  | some w_lsa =>
    have hw : w_lsa ∈ db.database := (SpfEntry.target_eq_some htarget).1
    dsimp only at hrun
    cases hstatus : s.status w_lsa.linkStateId with
    | inSpfTree =>
      rw [hstatus] at hrun
      cases hrun
      exact ⟨h, fun _ => .rfl⟩
    | notExplored =>
      rw [hstatus] at hrun
      exact h.explore hw hstatus hrun
    | candidate =>
      rw [hstatus] at hrun
      exact h.improve hrun

theorem Listed.ends_examine (hfew : db.LinksAtMost 2) (hv : v.lsa ∈ db.database) :
    Ends (s.examine env root db v e) := by
  rw [SpfState.examine]
  refine (ends_target e).bind ?_
  intro o htarget
  cases o with
  | none => exact .ok _
  | some w_lsa =>
    have hw : w_lsa ∈ db.database := (SpfEntry.target_eq_some htarget).1
    dsimp only
    split
    · exact .ok _
    · rw [SpfState.explore]
      exact (ends_nexthop (hfew w_lsa hw v.lsa hv)).bind fun _ _ => .ok _
    · rw [SpfState.improve]
      split
      · exact nofun
      · rename_i cw hfind
        obtain ⟨hcw, -⟩ := find_eq_some hfind
        split
        · exact .ok _
        · split
          · exact (ends_nexthop (hfew w_lsa hw v.lsa hv)).bind fun _ _ => .ok _
          · exact (ends_nexthop (hfew cw.lsa (h.advertised cw hcw) v.lsa hv)).bind
              fun _ _ => .ok _

variable {es : List SpfEntry}

theorem Listed.spfNext (hrun : es.foldlM (fun s e => s.examine env root db v e) s = .ok s') :
    Listed db s' ∧ ∀ x, s'.status x = .inSpfTree ↔ s.status x = .inSpfTree := by
  induction es generalizing s with
  | nil =>
    cases hrun
    exact ⟨h, fun _ => .rfl⟩
  | cons e es ih =>
    rw [List.foldlM_cons] at hrun
    obtain ⟨s₁, hexamine, hrun⟩ := bind_eq_ok.mp hrun
    obtain ⟨h₁, htree⟩ := h.examine hexamine
    obtain ⟨h', htree'⟩ := ih h₁ hrun
    exact ⟨h', fun x => (htree' x).trans (htree x)⟩

theorem Listed.ends_spfNext (hfew : db.LinksAtMost 2) (hv : v.lsa ∈ db.database) :
    Ends (es.foldlM (fun s e => s.examine env root db v e) s) := by
  induction es generalizing s with
  | nil => exact .ok s
  | cons e es ih =>
    rw [List.foldlM_cons]
    exact (h.ends_examine hfew hv).bind fun s₁ hexamine => ih (h.examine hexamine).1

theorem Listed.pop {candidate : CandidateQueue} (hqueue : s.candidate = v :: candidate) :
    Listed db ({ s with candidate }.setStatus v.lsa .inSpfTree) ∧
      (outsideTree db ({ s with candidate }.setStatus v.lsa .inSpfTree)).length <
        (outsideTree db s).length := by
  have hv : v ∈ s.candidate := hqueue ▸ (.head _)
  have hdistinct := h.distinct
  rw [hqueue, Distinct, List.map_cons] at hdistinct
  obtain ⟨hnew, hdistinct⟩ := List.nodup_cons.mp hdistinct
  have hmem : ∀ u ∈ candidate, u ∈ s.candidate := fun u hu => hqueue ▸ List.mem_cons_of_mem v hu
  refine ⟨⟨fun u hu => h.advertised u (hmem u hu), fun u hu => ?_, hdistinct⟩, ?_⟩
  · have hne : u.vertexId ≠ v.vertexId := fun heq => hnew (heq ▸ List.mem_map_of_mem hu)
    exact (if_neg hne).trans (h.waiting u (hmem u hu))
  · have houtside : outsideTree db ({ s with candidate }.setStatus v.lsa .inSpfTree) =
        (outsideTree db s).filter fun lsa => lsa.linkStateId ≠ v.vertexId := by
      rw [outsideTree, outsideTree, List.filter_filter]
      apply List.filter_congr
      intro lsa _
      have hset : ({ s with candidate }.setStatus v.lsa .inSpfTree).status
          lsa.linkStateId = if lsa.linkStateId = v.vertexId then .inSpfTree else
            s.status lsa.linkStateId := rfl
      rw [hset]
      by_cases hid : lsa.linkStateId = v.vertexId <;> simp [hid]
    have hwaiting : s.status v.lsa.linkStateId = .candidate := h.waiting v hv
    rw [houtside, List.length_filter_lt_length_iff_exists]
    refine ⟨v.lsa, List.mem_filter.mpr ⟨h.advertised v hv, ?_⟩, ?_⟩
    · simp [hwaiting]
    · simp [SPFVertex.vertexId]

theorem Listed.ends_spfLoop (hfew : db.LinksAtMost 2) (hv : v.lsa ∈ db.database)
    (hfuel : (outsideTree db s).length < fuel) : Ends (s.spfLoop env root db fuel v) := by
  induction fuel generalizing s v with
  | zero => cases hfuel
  | succ fuel ih =>
    rw [SpfState.spfLoop]
    refine (h.ends_spfNext hfew hv).bind ?_
    intro s₁ hnext
    obtain ⟨h₁, htree⟩ := h.spfNext hnext
    have houtside : outsideTree db s₁ = outsideTree db s := by
      simp only [outsideTree, ne_eq, htree]
    dsimp only
    split
    · exact .ok _
    · rename_i v' candidate hqueue
      obtain ⟨h', hless⟩ := h₁.pop hqueue
      have hv' : v'.lsa ∈ db.database := h₁.advertised v' (hqueue ▸ (.head _))
      rw [houtside] at hless
      exact (ih h' hv' (by omega)).bind fun _ _ => .ok _

end

theorem ends_checkForStubNode (db : GlobalRouteManagerLSDB) (root : Ipv4Address) :
    Ends (checkForStubNode db root) := by
  rw [checkForStubNode]
  split
  · exact nofun
  · split
    · exact .ok _
    · split
      · exact .ok _
      · split
        · exact nofun
        · exact .ok _
    · exact .ok _

theorem ends_spfCalculate (env : RoutingEnv) (root : Ipv4Address) (hfew : db.LinksAtMost 2) :
    Ends (spfCalculate env db root) := by
  rw [spfCalculate]
  split
  · exact nofun
  · rename_i lsa hget
    obtain ⟨hlsa, -⟩ := mem_of_getLSA hget
    have hstart : Listed db (SpfState.setStatus ⟨fun _ => .notExplored, []⟩ lsa .inSpfTree) :=
      ⟨nofun, nofun, List.nodup_nil⟩
    have hroom : (outsideTree db (SpfState.setStatus ⟨fun _ => .notExplored, []⟩ lsa
        .inSpfTree)).length < db.database.length := by
      rw [outsideTree, List.length_filter_lt_length_iff_exists]
      exact ⟨lsa, hlsa, by simp [SpfState.setStatus]⟩
    have hloop : Ends (SpfState.spfLoop env root db db.database.length _
        { SPFVertex.new lsa with distanceFromRoot := 0 }) := hstart.ends_spfLoop hfew hlsa hroom
    dsimp only
    split
    · refine (ends_checkForStubNode db root).bind ?_
      intro b _
      cases b with
      | true => exact .ok _
      | false => exact hloop
    · exact hloop

/-- **Every enumeration of links is right, and every search ends**, exactly if no vertex has
two records that point to another. -/
theorem spf_links_enumerated_iff (db : GlobalRouteManagerLSDB) :
    ((∀ v w : SPFVertex, v.lsa ∈ db.database → w.lsa ∈ db.database → EnumeratesLinks v w) ∧
        ∀ env root, Ends (spfCalculate env db root)) ↔ db.LinksAtMost 1 := by
  constructor
  · rintro ⟨hlinks, -⟩ lsa hlsa w hw
    exact enumeratesLinks_iff.mp (hlinks (.new lsa) (.new w) hlsa hw)
  · intro hone
    refine ⟨fun v w hv hw => enumeratesLinks_iff.mpr (hone v.lsa hv w.lsa hw), ?_⟩
    intro env root
    exact ends_spfCalculate env root fun lsa hlsa w hw => (hone lsa hlsa w hw).trans (Nat.le_succ 1)

end

def routerOfThree : GlobalRoutingLSA where
  lsType := .routerLSA
  linkStateId := 2
  linkRecords := [⟨.transitNetwork, 10, 11, 1, metric_one⟩,
    ⟨.transitNetwork, 10, 12, 1, metric_one⟩, ⟨.transitNetwork, 10, 13, 1, metric_one⟩]
  networkLSANetworkMask := 0
  attachedRouters := []
  bare := nofun

def networkOfFour : GlobalRoutingLSA where
  lsType := .networkLSA
  linkStateId := 10
  linkRecords := []
  networkLSANetworkMask := 0xffffff00
  attachedRouters := [10, 11, 12, 13]
  bare := bare_nil _

def threeInterfaces : GlobalRouteManagerLSDB where
  database := [⟨.routerLSA, 1, [⟨.transitNetwork, 10, 10, 1, metric_one⟩], 0, [], nofun⟩,
    routerOfThree, networkOfFour]
  sorted := by decide

/-- The calls go on for ever, and with them the search from the other router. -/
theorem spf_threeInterfaces_forever :
    (∀ fuel, linksReturned (.new routerOfThree) (.new networkOfFour) fuel none =
        .error .noProgress) ∧
      spfCalculate ⟨2, fun _ _ => 1, id⟩ threeInterfaces 1 = .error .noProgress ∧
      ¬((∀ v w : SPFVertex, v.lsa ∈ threeInterfaces.database →
          w.lsa ∈ threeInterfaces.database → EnumeratesLinks v w) ∧
        ∀ env root, Ends (spfCalculate env threeInterfaces root)) := by
  have hrun : spfCalculate ⟨2, fun _ _ => 1, id⟩ threeInterfaces 1 = .error .noProgress := rfl
  have hthird : (routerOfThree.linksTo 10)[2]? =
      some ⟨.transitNetwork, 10, 13, 1, metric_one⟩ := rfl
  refine ⟨fun fuel => ?_, hrun, fun h => h.2 _ _ hrun⟩
  cases fuel with
  | zero => rfl
  | succ fuel =>
    have hnext : ∀ prev, linksReturned (.new routerOfThree) (.new networkOfFour) fuel
        (some prev) = .error .noProgress := linksReturned_forever hthird fuel
    rw [linksReturned]
    change linksReturned _ _ fuel (some _) >>= _ = _
    rw [hnext]
    rfl

end Ns3
