/-
  The routes to the networks of gateways
  (RoutingProtocol::RoutingTableComputation, step 5, src/olsr/model/olsr-routing-protocol.cc,
  over src/internet/model/ipv4-static-routing.cc).

  The loop that is to clear the table counts up to a number of routes that goes down as it runs,
  so that the later half of the routes stays.  What comes after it merges each announcement with
  the first route to the same network, whether it is new or was left.
-/
import Ns3.Internet.Routing.Ipv4StaticRouting
import Ns3.Olsr.RoutingTable

namespace Ns3

namespace Ipv4StaticRouting

def removeRoute (networkRoutes : NetworkRoutes) (index : Nat) : Except Fault NetworkRoutes :=
  if index < networkRoutes.length then .ok (networkRoutes.eraseIdx index)
  else .error .assertFailed

def getMetric (networkRoutes : NetworkRoutes) (index : Nat) : Except Fault UInt32 :=
  match networkRoutes[index]? with
  | some route => .ok route.2
  | none => .error .assertFailed

end Ipv4StaticRouting

namespace Olsr

open Ipv4StaticRouting

abbrev HnaNetwork : Type := Ipv4Address × Ipv4Mask

structure Association where
  networkAddr : Ipv4Address
  netmask : Ipv4Mask
  deriving DecidableEq, Repr

/-- `AssociationTuple`, but for its expiration time. -/
structure AssociationTuple where
  gatewayAddr : Ipv4Address
  networkAddr : Ipv4Address
  netmask : Ipv4Mask
  deriving DecidableEq, Repr

def AssociationTuple.network (tuple : AssociationTuple) : HnaNetwork :=
  (tuple.networkAddr, tuple.netmask)

namespace HnaRoutes

/-- "Clear HNA routing table", from `i` on: each round removes the first route. -/
def clearFrom : Nat → NetworkRoutes → NetworkRoutes
  | _, [] => []
  | i, route :: hna => if i < hna.length + 1 then clearFrom (i + 1) hna else route :: hna

def announcedLocally (associations : List Association) (tuple : AssociationTuple) : Bool :=
  associations.any fun localHnaAssoc =>
    localHnaAssoc.networkAddr = tuple.networkAddr ∧ localHnaAssoc.netmask = tuple.netmask

def addRoute (hna : NetworkRoutes) (tuple : AssociationTuple) (gatewayEntry : RoutingTableEntry) :
    NetworkRoutes :=
  addNetworkRouteTo hna tuple.networkAddr tuple.netmask (some gatewayEntry.nextAddr)
    gatewayEntry.interface (UInt32.ofNat gatewayEntry.distance)

def leadsTo (tuple : AssociationTuple) (route : Ipv4RoutingTableEntry × UInt32) : Bool :=
  route.1.dest = tuple.networkAddr ∧ route.1.destNetworkMask = tuple.netmask

/-- One association: a route to its gateway, unless one as good is there. -/
def associationStep (table : RoutingTable) (associations : List Association)
    (hna : NetworkRoutes) (tuple : AssociationTuple) : Except Fault NetworkRoutes :=
  if announcedLocally associations tuple then .ok hna
  else
    let routeIndex := hna.findIdx (leadsTo tuple)
    match table.lookup tuple.gatewayAddr with
    | none => .ok hna
    | some gatewayEntry =>
      if routeIndex = hna.length then .ok (addRoute hna tuple gatewayEntry)
      else do
        let metric ← getMetric hna routeIndex
        if metric > UInt32.ofNat gatewayEntry.distance then
          let hna ← removeRoute hna routeIndex
          .ok (addRoute hna tuple gatewayEntry)
        else .ok hna

/-- What `RoutingTableComputation` does with the associations. -/
def computation (table : RoutingTable) (associationSet : List AssociationTuple)
    (associations : List Association) (hna : NetworkRoutes) : Except Fault NetworkRoutes :=
  associationSet.foldlM (associationStep table associations) (clearFrom 0 hna)

/-! ## What the table should hold -/

def networkOf (route : Ipv4RoutingTableEntry × UInt32) : HnaNetwork :=
  (route.1.dest, route.1.destNetworkMask)

def routeTo (network : HnaNetwork) (gatewayEntry : RoutingTableEntry) :
    Ipv4RoutingTableEntry × UInt32 :=
  ({ dest := network.1, destNetworkMask := network.2, gateway := gatewayEntry.nextAddr
     interface := gatewayEntry.interface }, UInt32.ofNat gatewayEntry.distance)

def gateways (table : RoutingTable) (associationSet : List AssociationTuple)
    (associations : List Association) (network : HnaNetwork) : List RoutingTableEntry :=
  (associationSet.filter fun tuple =>
    tuple.network = network ∧ announcedLocally associations tuple = false).filterMap fun tuple =>
      table.lookup tuple.gatewayAddr

/-- A gateway of least distance. -/
def Nearest (entries : List RoutingTableEntry) (entry : RoutingTableEntry) : Prop :=
  entry ∈ entries ∧ ∀ other ∈ entries, entry.distance ≤ other.distance

/-- The routes follow the announcements: exactly one route to each network that has a gateway,
through the nearest one. -/
structure Follows (gateways : HnaNetwork → List RoutingTableEntry) (hna : NetworkRoutes) :
    Prop where
  one : ∀ network, gateways network ≠ [] → ∃ entry, Nearest (gateways network) entry ∧
    hna.filter (fun route => networkOf route = network) = [routeTo network entry]
  only : ∀ route ∈ hna, gateways (networkOf route) ≠ []

def Distinct (hna : NetworkRoutes) : Prop := (hna.map networkOf).Nodup

/-- The routes may stay: each leads to a network that still has a gateway, and is farther than the
nearest one, or through it. -/
def MayStay (gateways : HnaNetwork → List RoutingTableEntry) (hna : NetworkRoutes) : Prop :=
  ∀ route ∈ hna, ∃ entry, Nearest (gateways (networkOf route)) entry ∧
    (entry.distance < route.2.toNat ∨ route = routeTo (networkOf route) entry)

/-! ## What is left -/

theorem clearFrom_eq_drop (i : Nat) (hna : NetworkRoutes) :
    clearFrom i hna = hna.drop ((hna.length - i + 1) / 2) := by
  induction hna generalizing i with
  | nil => rw [clearFrom, List.drop_nil]
  | cons route hna ih =>
    rw [clearFrom, List.length_cons]
    split
    · rw [ih, show (hna.length + 1 - i + 1) / 2 = (hna.length - (i + 1) + 1) / 2 + 1 by omega]
      rfl
    · rw [show (hna.length + 1 - i + 1) / 2 = 0 by omega]
      rfl

theorem clearFrom_zero (hna : NetworkRoutes) :
    clearFrom 0 hna = hna.drop ((hna.length + 1) / 2) := clearFrom_eq_drop 0 hna

/-! ## One network -/

def merge (routes : NetworkRoutes) (route : Ipv4RoutingTableEntry × UInt32) : NetworkRoutes :=
  match routes with
  | [] => [route]
  | first :: rest =>
    if first.2 > route.2 then if route ∈ rest then rest else rest ++ [route]
    else first :: rest

/-- What announcements through several gateways do. -/
def mergeAll (network : HnaNetwork) (routes : NetworkRoutes) (entries : List RoutingTableEntry) :
    NetworkRoutes :=
  entries.foldl (fun routes entry => merge routes (routeTo network entry)) routes

def routesTo (network : HnaNetwork) (hna : NetworkRoutes) : NetworkRoutes :=
  hna.filter fun route => networkOf route = network

section

variable {table : RoutingTable} {associations : List Association} {hna rest : NetworkRoutes}
  {tuple : AssociationTuple} {network : HnaNetwork} {route : Ipv4RoutingTableEntry × UInt32}
  {entry : RoutingTableEntry} {entries : List RoutingTableEntry}

theorem mem_routesTo : route ∈ routesTo network hna ↔ route ∈ hna ∧ networkOf route = network := by
  rw [routesTo, List.mem_filter, decide_eq_true_eq]

theorem routesTo_append (network : HnaNetwork) (hna rest : NetworkRoutes) :
    routesTo network (hna ++ rest) = routesTo network hna ++ routesTo network rest :=
  List.filter_append _ _

theorem lookupRoute_iff {entry : Ipv4RoutingTableEntry} {metric : UInt32} :
    lookupRoute hna entry metric = true ↔ (entry, metric) ∈ hna := by
  rw [lookupRoute, List.any_eq_true]
  constructor
  · rintro ⟨⟨⟨dest, mask, gateway, interface⟩, other⟩, hmem, hsame⟩
    simp only [decide_eq_true_eq] at hsame
    obtain ⟨rfl, rfl, rfl, rfl, rfl⟩ := hsame
    exact hmem
  · intro hmem
    exact ⟨_, hmem, by simp⟩

theorem addRoute_eq : addRoute hna tuple entry =
    if routeTo tuple.network entry ∈ hna then hna else hna ++ [routeTo tuple.network entry] := by
  have hlookup : lookupRoute hna (routeTo tuple.network entry).1
      (UInt32.ofNat entry.distance) = decide (routeTo tuple.network entry ∈ hna) := by
    rw [Bool.eq_iff_iff, lookupRoute_iff, decide_eq_true_eq]
    rfl
  change (if !lookupRoute hna (routeTo tuple.network entry).1 (UInt32.ofNat entry.distance) then
    _ else _) = _
  rw [hlookup]
  by_cases hmem : routeTo tuple.network entry ∈ hna
  · rw [if_pos hmem, decide_eq_true hmem]
    rfl
  · rw [if_neg hmem, decide_eq_false hmem]
    rfl

theorem routesTo_addRoute_of_ne (h : network ≠ tuple.network) :
    routesTo network (addRoute hna tuple entry) = routesTo network hna := by
  have hnone : routesTo network [routeTo tuple.network entry] = [] :=
    List.filter_eq_nil_iff.mpr fun route hroute => by
      rw [List.mem_singleton.mp hroute, decide_eq_true_eq]
      exact h.symm
  rw [addRoute_eq]
  split
  · rfl
  · rw [routesTo_append, hnone, List.append_nil]

theorem routesTo_addRoute : routesTo tuple.network (addRoute hna tuple entry) =
    if routeTo tuple.network entry ∈ routesTo tuple.network hna then routesTo tuple.network hna
    else routesTo tuple.network hna ++ [routeTo tuple.network entry] := by
  have hiff : routeTo tuple.network entry ∈ routesTo tuple.network hna ↔
      routeTo tuple.network entry ∈ hna := mem_routesTo.trans (and_iff_left rfl)
  have hone : routesTo tuple.network [routeTo tuple.network entry] =
      [routeTo tuple.network entry] :=
    List.filter_eq_self.mpr fun route hroute => by
      rw [List.mem_singleton.mp hroute, decide_eq_true_eq]
      rfl
  rw [addRoute_eq, if_congr hiff rfl rfl]
  split
  · rfl
  · rw [routesTo_append, hone]

theorem leadsTo_iff : leadsTo tuple route = true ↔ networkOf route = tuple.network := by
  rw [leadsTo, decide_eq_true_eq, networkOf, AssociationTuple.network, Prod.mk.injEq]

theorem routesTo_eq_nil_iff : routesTo tuple.network hna = [] ↔
    ∀ route ∈ hna, leadsTo tuple route = false := by
  rw [routesTo, List.filter_eq_nil_iff]
  refine forall_congr' fun route => imp_congr_right fun _ => ?_
  rw [decide_eq_true_eq, ← leadsTo_iff, Bool.not_eq_true]

theorem findIdx_cases (tuple : AssociationTuple) (hna : NetworkRoutes) :
    (routesTo tuple.network hna = [] ∧ hna.findIdx (leadsTo tuple) = hna.length) ∨
    ∃ before first after, hna = before ++ first :: after ∧ routesTo tuple.network before = [] ∧
      networkOf first = tuple.network ∧ hna.findIdx (leadsTo tuple) = before.length := by
  cases hfind : hna.find? (leadsTo tuple) with
  | none =>
    have hnone (route : Ipv4RoutingTableEntry × UInt32) (hroute : route ∈ hna) :
        leadsTo tuple route = false :=
      Bool.not_eq_true _ ▸ List.find?_eq_none.mp hfind route hroute
    exact .inl ⟨routesTo_eq_nil_iff.mpr hnone, List.findIdx_eq_length_of_false hnone⟩
  | some first =>
    obtain ⟨hfirst, before, after, hsplit, hbefore⟩ := List.find?_eq_some_iff_append.mp hfind
    have hnone (route : Ipv4RoutingTableEntry × UInt32) (hroute : route ∈ before) :
        leadsTo tuple route = false := by
      simpa using hbefore route hroute
    refine .inr ⟨before, first, after, hsplit, routesTo_eq_nil_iff.mpr hnone,
      leadsTo_iff.mp hfirst, ?_⟩
    rw [hsplit, List.findIdx_append, List.findIdx_eq_length_of_false hnone,
      if_neg (Nat.lt_irrefl _), List.findIdx_cons, hfirst]
    exact Nat.zero_add _

theorem associationStep_of_lookup (hlocal : announcedLocally associations tuple = false)
    (hlookup : table.lookup tuple.gatewayAddr = some entry) :
    ∃ hna', associationStep table associations hna tuple = .ok hna' ∧
      (∀ network, network ≠ tuple.network → routesTo network hna' = routesTo network hna) ∧
        routesTo tuple.network hna' =
          merge (routesTo tuple.network hna) (routeTo tuple.network entry) := by
  rw [associationStep, hlocal, if_neg Bool.false_ne_true, hlookup]
  dsimp only
  obtain ⟨hnone, hindex⟩ | ⟨before, first, after, rfl, hbefore, hfirst, hindex⟩ :=
    findIdx_cases tuple hna
  · refine ⟨addRoute hna tuple entry, by rw [if_pos hindex], fun network h =>
      routesTo_addRoute_of_ne h, ?_⟩
    rw [routesTo_addRoute, hnone, if_neg List.not_mem_nil]
    rfl
  · have hlt : before.length < (before ++ first :: after).length := by simp
    have hmetric : getMetric (before ++ first :: after) before.length = .ok first.2 := by
      rw [getMetric, List.getElem?_append_right le_rfl, Nat.sub_self]
      rfl
    have hremove :
        removeRoute (before ++ first :: after) before.length = .ok (before ++ after) := by
      rw [removeRoute, if_pos hlt, List.eraseIdx_append_of_length_le le_rfl, Nat.sub_self]
      rfl
    have hroutes : routesTo tuple.network (before ++ first :: after) =
        first :: routesTo tuple.network after := by
      rw [routesTo_append, hbefore, routesTo, List.filter_cons_of_pos (by simpa using hfirst)]
      rfl
    rw [hindex, if_neg (Nat.ne_of_lt hlt), hmetric, ok_bind, hroutes, merge]
    by_cases hfar : first.2 > UInt32.ofNat entry.distance
    · rw [if_pos hfar]
      refine ⟨addRoute (before ++ after) tuple entry, by rw [hremove, ok_bind], fun network h => ?_,
        ?_⟩
      · rw [routesTo_addRoute_of_ne h, routesTo_append, routesTo_append]
        congr 1
        exact (List.filter_cons_of_neg (by simpa [hfirst] using h.symm)).symm
      · rw [routesTo_addRoute, routesTo_append, hbefore, List.nil_append]
        exact (if_pos hfar).symm
    · rw [if_neg hfar]
      exact ⟨_, rfl, fun _ _ => rfl, hroutes.trans (if_neg hfar).symm⟩

theorem gateways_cons (associationSet : List AssociationTuple) :
    gateways table (tuple :: associationSet) associations network =
      gateways table [tuple] associations network ++
        gateways table associationSet associations network := by
  rw [gateways, gateways, gateways, ← List.filterMap_append, ← List.filter_append]
  rfl

theorem gateways_singleton_of_none (h : network ≠ tuple.network ∨
    announcedLocally associations tuple = true ∨ table.lookup tuple.gatewayAddr = none) :
    gateways table [tuple] associations network = [] := by
  rw [gateways, List.filterMap_eq_nil_iff]
  intro x hx
  obtain ⟨hx, hannounces⟩ := List.mem_filter.mp hx
  obtain rfl := List.mem_singleton.mp hx
  obtain ⟨hnetwork, hlocal⟩ := of_decide_eq_true hannounces
  obtain hne | hsome | hnone := h
  · exact absurd hnetwork.symm hne
  · exact absurd (hsome.symm.trans hlocal) Bool.true_eq_false.mp
  · exact hnone

theorem gateways_singleton (hlocal : announcedLocally associations tuple = false)
    (hlookup : table.lookup tuple.gatewayAddr = some entry) :
    gateways table [tuple] associations tuple.network = [entry] := by
  rw [gateways, List.filter_cons_of_pos (by simpa using hlocal)]
  simp [hlookup]

theorem associationStep_eq (table : RoutingTable) (associations : List Association)
    (hna : NetworkRoutes) (tuple : AssociationTuple) :
    ∃ hna', associationStep table associations hna tuple = .ok hna' ∧ ∀ network,
      routesTo network hna' = mergeAll network (routesTo network hna)
        (gateways table [tuple] associations network) := by
  have hpassed (h : announcedLocally associations tuple = true ∨
      table.lookup tuple.gatewayAddr = none) (network : HnaNetwork) : routesTo network hna =
        mergeAll network (routesTo network hna) (gateways table [tuple] associations network) := by
    rw [gateways_singleton_of_none (.inr h)]
    rfl
  cases hlocal : announcedLocally associations tuple with
  | true => exact ⟨hna, by rw [associationStep, if_pos hlocal], hpassed (.inl hlocal)⟩
  | false =>
    cases hlookup : table.lookup tuple.gatewayAddr with
    | none =>
      refine ⟨hna, ?_, hpassed (.inr hlookup)⟩
      rw [associationStep, hlocal, if_neg Bool.false_ne_true, hlookup]
    | some entry =>
      obtain ⟨hna', hstep, hother, hsame⟩ : ∃ hna', associationStep _ _ hna _ = .ok hna' ∧ _ :=
        associationStep_of_lookup hlocal hlookup
      refine ⟨hna', hstep, fun network => ?_⟩
      by_cases hne : network = tuple.network
      · rw [hne, gateways_singleton hlocal hlookup, hsame]
        rfl
      · rw [gateways_singleton_of_none (.inl hne), hother network hne]
        rfl

theorem mergeAll_append (network : HnaNetwork) (hna : NetworkRoutes)
    (entries others : List RoutingTableEntry) : mergeAll network hna (entries ++ others) =
      mergeAll network (mergeAll network hna entries) others := List.foldl_append

/-- The loop merges the gateways into what the table held before. -/
theorem foldlM_associationStep (table : RoutingTable) (associationSet : List AssociationTuple)
    (associations : List Association) (hna : NetworkRoutes) :
    ∃ hna', associationSet.foldlM (associationStep table associations) hna = .ok hna' ∧
      ∀ network, routesTo network hna' = mergeAll network (routesTo network hna)
        (gateways table associationSet associations network) := by
  induction associationSet generalizing hna with
  | nil => exact ⟨hna, rfl, fun _ => rfl⟩
  | cons tuple associationSet ih =>
    obtain ⟨hna₁, hstep, hone⟩ := associationStep_eq table associations hna tuple
    obtain ⟨hna₂, hrest, hall⟩ := ih hna₁
    refine ⟨hna₂, ?_, fun network => ?_⟩
    · rw [List.foldlM_cons, hstep, ok_bind, hrest]
    · rw [hall, hone, gateways_cons associationSet, mergeAll_append]

/-! ## Merging -/

theorem gt_ofNat_iff {metric : UInt32} (h : entry.distance < 2 ^ 32) :
    metric > UInt32.ofNat entry.distance ↔ entry.distance < metric.toNat := by
  rw [gt_iff_lt, UInt32.lt_iff_toNat_lt, UInt32.toNat_ofNat', Nat.mod_eq_of_lt h]

theorem Nearest.cons {other : RoutingTableEntry} (h : Nearest entries other)
    (hle : other.distance ≤ entry.distance) : Nearest (entry :: entries) other :=
  ⟨List.mem_cons_of_mem _ h.1, List.forall_mem_cons.mpr ⟨hle, h.2⟩⟩

theorem nearest_of_first
    (hentry : entry.distance < 2 ^ 32)
    (h : (mergeAll network [routeTo network entry] entries = [routeTo network entry] ∧
        ∀ other ∈ entries, (routeTo network entry).2.toNat ≤ other.distance) ∨
      ∃ other, Nearest entries other ∧ other.distance < (routeTo network entry).2.toNat ∧
        mergeAll network [routeTo network entry] entries = [routeTo network other]) :
    ∃ other, Nearest (entry :: entries) other ∧ other.distance ≤ entry.distance ∧
      mergeAll network [routeTo network entry] entries = [routeTo network other] := by
  have hmetric : (routeTo network entry).2.toNat = entry.distance := by
    rw [routeTo, UInt32.toNat_ofNat', Nat.mod_eq_of_lt hentry]
  rw [hmetric] at h
  obtain ⟨hsame, hleast⟩ | ⟨other, hnearest, hless, hresult⟩ := h
  · exact ⟨entry, ⟨.head _, List.forall_mem_cons.mpr ⟨le_rfl, hleast⟩⟩,
      le_rfl, hsame⟩
  · exact ⟨other, hnearest.cons (Nat.le_of_lt hless), Nat.le_of_lt hless, hresult⟩

theorem mergeAll_singleton (network : HnaNetwork) (route : Ipv4RoutingTableEntry × UInt32)
    (hdistance : ∀ entry ∈ entries, entry.distance < 2 ^ 32) :
    (mergeAll network [route] entries = [route] ∧
      ∀ entry ∈ entries, route.2.toNat ≤ entry.distance) ∨
    ∃ entry, Nearest entries entry ∧ entry.distance < route.2.toNat ∧
      mergeAll network [route] entries = [routeTo network entry] := by
  induction entries generalizing route with
  | nil => exact .inl ⟨rfl, List.forall_mem_nil _⟩
  | cons entry entries ih =>
    obtain ⟨hentry, hrest⟩ := List.forall_mem_cons.mp hdistance
    have hmerge : merge [route] (routeTo network entry) =
        if entry.distance < route.2.toNat then [routeTo network entry] else [route] :=
      if_congr (gt_ofNat_iff hentry) (if_neg List.not_mem_nil) rfl
    have hcons : mergeAll network [route] (entry :: entries) =
        mergeAll network (merge [route] (routeTo network entry)) entries := rfl
    rw [hcons, hmerge]
    by_cases hfar : entry.distance < route.2.toNat
    · rw [if_pos hfar]
      obtain ⟨other, hnearest, hle, hresult⟩ := nearest_of_first hentry (ih _ hrest)
      exact .inr ⟨other, hnearest, hle.trans_lt hfar, hresult⟩
    · rw [if_neg hfar]
      obtain ⟨hsame, hleast⟩ | ⟨other, hnearest, hless, hresult⟩ := ih route hrest
      · exact .inl ⟨hsame, List.forall_mem_cons.mpr ⟨Nat.le_of_not_lt hfar, hleast⟩⟩
      · exact .inr ⟨other, hnearest.cons (by omega), hless, hresult⟩

theorem mergeAll_nil (network : HnaNetwork) (hne : entries ≠ [])
    (hdistance : ∀ entry ∈ entries, entry.distance < 2 ^ 32) :
    ∃ entry, Nearest entries entry ∧ mergeAll network [] entries = [routeTo network entry] := by
  cases entries with
  | nil => exact absurd rfl hne
  | cons entry entries =>
    obtain ⟨hentry, hrest⟩ := List.forall_mem_cons.mp hdistance
    obtain ⟨other, hnearest, -, hresult⟩ :=
      nearest_of_first hentry (mergeAll_singleton network _ hrest)
    exact ⟨other, hnearest, hresult⟩

theorem mem_mergeAll (network : HnaNetwork) (hdistance : ∀ entry ∈ entries, entry.distance < 2 ^ 32)
    (hroute : route ∈ hna) : route ∈ mergeAll network hna entries ∨
      ∃ entry ∈ entries, entry.distance < route.2.toNat := by
  induction entries generalizing hna with
  | nil => exact .inl hroute
  | cons entry entries ih =>
    obtain ⟨hentry, hrest⟩ := List.forall_mem_cons.mp hdistance
    have hkept : route ∈ merge hna (routeTo network entry) ∨ entry.distance < route.2.toNat := by
      cases hna with
      | nil => cases hroute
      | cons first rest =>
        rw [merge]
        by_cases hfar : first.2 > (routeTo network entry).2
        · rw [if_pos hfar]
          obtain rfl | hrest := List.mem_cons.mp hroute
          · exact .inr ((gt_ofNat_iff hentry).mp hfar)
          · refine .inl ?_
            split
            · exact hrest
            · exact List.mem_append_left _ hrest
        · rw [if_neg hfar]
          exact .inl hroute
    obtain hkept | hnear := hkept
    · obtain hfinal | ⟨other, hother, hless⟩ := ih hrest hkept
      · exact .inl hfinal
      · exact .inr ⟨other, List.mem_cons_of_mem _ hother, hless⟩
    · exact .inr ⟨entry, .head _, hnear⟩

end

/-! ## After the computation -/

theorem distance_of_mem_gateways {table : RoutingTable}
    (hdistance : ∀ dest entry, table.lookup dest = some entry → entry.distance < 2 ^ 32)
    (associationSet : List AssociationTuple) (associations : List Association)
    (network : HnaNetwork) : ∀ entry ∈ gateways table associationSet associations network,
      entry.distance < 2 ^ 32 := by
  intro entry hentry
  obtain ⟨tuple, -, hlookup⟩ := List.mem_filterMap.mp hentry
  exact hdistance _ _ hlookup

variable {hna : NetworkRoutes}

theorem Distinct.routesTo (h : Distinct hna) (network : HnaNetwork) :
    routesTo network hna = [] ∨ ∃ route, routesTo network hna = [route] := by
  have hnodup : ((HnaRoutes.routesTo network hna).map networkOf).Nodup :=
    h.sublist (List.filter_sublist.map networkOf)
  rcases hroutes : HnaRoutes.routesTo network hna with _ | ⟨first, _ | ⟨second, rest⟩⟩
  · exact .inl rfl
  · exact .inr ⟨first, rfl⟩
  · have hfirst := (mem_routesTo.mp (hroutes ▸ List.mem_cons_self)).2
    have hsecond := (mem_routesTo.mp (hroutes ▸ List.mem_cons_of_mem _ (.head _))).2
    rw [hroutes, List.map_cons, List.map_cons, hfirst, hsecond] at hnodup
    exact absurd (.head _) (List.nodup_cons.mp hnodup).1

theorem distinct_of_routesTo (h : ∀ network, (HnaRoutes.routesTo network hna).length ≤ 1) :
    Distinct hna := by
  induction hna with
  | nil => exact List.nodup_nil
  | cons route hna ih =>
    refine List.nodup_cons.mpr ⟨fun hmem => ?_, ih fun network => ?_⟩
    · obtain ⟨other, hother, hsame⟩ := List.mem_map.mp hmem
      have hpos := List.length_pos_of_mem (mem_routesTo.mpr ⟨hother, hsame⟩)
      have hone := h (networkOf route)
      have hcons : routesTo (networkOf route) (route :: hna) =
          route :: routesTo (networkOf route) hna :=
        List.filter_cons_of_pos (by simp)
      rw [hcons, List.length_cons] at hone
      omega
    · have hsub : (routesTo network hna).Sublist (routesTo network (route :: hna)) :=
        (List.sublist_cons_self route hna).filter _
      exact hsub.length_le.trans (h network)

def leftOver (prior : NetworkRoutes) : NetworkRoutes := prior.drop ((prior.length + 1) / 2)

section

variable {table : RoutingTable} {associationSet : List AssociationTuple}
  {associations : List Association} {left : NetworkRoutes}

section

variable (hdistance : ∀ dest entry, table.lookup dest = some entry → entry.distance < 2 ^ 32)
  (hmerged : ∀ network, routesTo network hna =
    mergeAll network (routesTo network left) (gateways table associationSet associations network))

include hdistance hmerged

theorem mayStay_of_follows (h : Follows (gateways table associationSet associations) hna) :
    MayStay (gateways table associationSet associations) left := by
  intro route hroute
  have hmem : route ∈ routesTo (networkOf route) left := mem_routesTo.mpr ⟨hroute, rfl⟩
  have hfate := mem_mergeAll (networkOf route)
    (distance_of_mem_gateways hdistance associationSet associations (networkOf route)) hmem
  rw [← hmerged] at hfate
  have hne : gateways table associationSet associations (networkOf route) ≠ [] := by
    obtain hkept | ⟨entry, hentry, -⟩ := hfate
    · exact h.only route (mem_routesTo.mp hkept).1
    · exact List.ne_nil_of_mem hentry
  obtain ⟨nearest, hnearest, hone⟩ := h.one _ hne
  refine ⟨nearest, hnearest, ?_⟩
  obtain hkept | ⟨entry, hentry, hless⟩ := hfate
  · rw [routesTo, hone] at hkept
    exact .inr (List.mem_singleton.mp hkept)
  · exact .inl ((hnearest.2 entry hentry).trans_lt hless)

theorem follows_of_mayStay (hstay : MayStay (gateways table associationSet associations) left)
    (hdistinct : Distinct left) : Follows (gateways table associationSet associations) hna := by
  constructor
  · intro network hne
    have hentries := distance_of_mem_gateways hdistance associationSet associations network
    obtain hnone | ⟨route, hone⟩ := hdistinct.routesTo network
    · obtain ⟨entry, hnearest, hresult⟩ := mergeAll_nil network hne hentries
      exact ⟨entry, hnearest, by rw [← routesTo, hmerged, hnone, hresult]⟩
    · obtain ⟨hmem, rfl⟩ := mem_routesTo.mp (hone ▸ List.mem_singleton_self route)
      obtain ⟨entry, hnearest, hmay⟩ := hstay route hmem
      obtain ⟨hsame, hleast⟩ | ⟨other, hother, hless, hresult⟩ :=
        mergeAll_singleton (networkOf route) route hentries
      · obtain hless | hroute := hmay
        · exact absurd (hleast entry hnearest.1) (Nat.not_le_of_lt hless)
        · refine ⟨entry, hnearest, ?_⟩
          rw [← routesTo, hmerged, hone, hsame, ← hroute]
      · exact ⟨other, hother, by rw [← routesTo, hmerged, hone, hresult]⟩
  · intro route hroute hnone
    have hmem : route ∈ routesTo (networkOf route) hna := mem_routesTo.mpr ⟨hroute, rfl⟩
    rw [hmerged, hnone] at hmem
    obtain ⟨entry, hnearest, -⟩ := hstay route (mem_routesTo.mp hmem).1
    exact List.ne_nil_of_mem hnearest.1 hnone

theorem distinct_of_merged (hdistinct : Distinct left) : Distinct hna := by
  refine distinct_of_routesTo fun network => ?_
  have hentries := distance_of_mem_gateways hdistance associationSet associations network
  rw [hmerged]
  obtain hnone | ⟨route, hone⟩ := hdistinct.routesTo network
  · rw [hnone]
    by_cases hne : gateways table associationSet associations network = []
    · rw [hne]
      exact Nat.zero_le 1
    · obtain ⟨entry, -, hresult⟩ := mergeAll_nil network hne hentries
      rw [hresult]
      exact Nat.le_refl 1
  · rw [hone]
    obtain ⟨hsame, -⟩ | ⟨entry, -, -, hresult⟩ := mergeAll_singleton network route hentries
    · rw [hsame]
      exact Nat.le_refl 1
    · rw [hresult]
      exact Nat.le_refl 1

end

end

/-- **The computation** returns. Its routes follow the announcements only if all that the clearing
loop left may stay, and they do so if besides no two routes left lead to the same network. -/
theorem computation_follows {table : RoutingTable}
    (hdistance : ∀ dest entry, table.lookup dest = some entry → entry.distance < 2 ^ 32)
    (associationSet : List AssociationTuple) (associations : List Association)
    (prior : NetworkRoutes) :
    ∃ hna, computation table associationSet associations prior = .ok hna ∧
      (Follows (gateways table associationSet associations) hna →
        MayStay (gateways table associationSet associations) (leftOver prior)) ∧
      (MayStay (gateways table associationSet associations) (leftOver prior) →
        Distinct (leftOver prior) → Follows (gateways table associationSet associations) hna) ∧
      (Distinct prior → Distinct hna) := by
  obtain ⟨hna, hrun, hmerged⟩ :=
    foldlM_associationStep table associationSet associations (leftOver prior)
  refine ⟨hna, ?_, mayStay_of_follows hdistance hmerged, follows_of_mayStay hdistance hmerged,
    fun hprior => ?_⟩
  · rw [computation, clearFrom_zero]
    exact hrun
  · exact distinct_of_merged hdistance hmerged (hprior.sublist ((List.drop_sublist _ _).map _))

def gatewayNearby : RoutingTable :=
  Function.update RoutingTable.clear 10 (some ⟨10, 10, 0, 1⟩)

theorem distance_gatewayNearby (dest : Ipv4Address) (entry : RoutingTableEntry)
    (h : gatewayNearby.lookup dest = some entry) : entry.distance < 2 ^ 32 := by
  rw [gatewayNearby, RoutingTable.lookup, Function.update_apply] at h
  split at h
  · cases h
    decide
  · cases h

def twoNetworks : List AssociationTuple :=
  [⟨10, 0x0a010000, 0xffff0000⟩, ⟨10, 0x0a020000, 0xffff0000⟩]

def twoRoutes : NetworkRoutes :=
  [routeTo (0x0a010000, 0xffff0000) ⟨10, 10, 0, 1⟩, routeTo (0x0a020000, 0xffff0000) ⟨10, 10, 0, 1⟩]

/-- The second route is left by the loop, and may stay. -/
theorem computation_twoNetworks :
    ∃ hna, computation gatewayNearby twoNetworks [] twoRoutes = .ok hna ∧
      Follows (gateways gatewayNearby twoNetworks []) hna := by
  obtain ⟨hna, hrun, -, hfollows, -⟩ :=
    computation_follows distance_gatewayNearby twoNetworks [] twoRoutes
  have hleft : leftOver twoRoutes = [routeTo (0x0a020000, 0xffff0000) ⟨10, 10, 0, 1⟩] := rfl
  rw [hleft] at hfollows
  refine ⟨hna, hrun, hfollows (fun route hroute => ?_) (List.nodup_singleton _)⟩
  obtain rfl := List.mem_singleton.mp hroute
  exact ⟨⟨10, 10, 0, 1⟩, ⟨by decide, by decide⟩, .inr rfl⟩

/-- The gateway no longer announces its two networks, but one of the routes stays. -/
theorem route_left_over : ∃ prior hna,
    computation gatewayNearby twoNetworks [] [] = .ok prior ∧
      computation gatewayNearby [] [] prior = .ok hna ∧
        ¬Follows (gateways gatewayNearby [] []) hna := by
  have hbefore : computation gatewayNearby twoNetworks [] [] = .ok twoRoutes := by decide
  refine ⟨_, _, hbefore, rfl, fun h => ?_⟩
  exact h.only _ (.head _) rfl

end HnaRoutes

end Olsr

end Ns3
