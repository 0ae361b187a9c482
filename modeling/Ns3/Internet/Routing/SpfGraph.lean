/-
  The graph that a link state database describes.

  Routers and transit networks are the vertices.  A link record costs its metric; from a
  network to an attached router costs nothing.  The way from the root to a vertex starts
  with a next hop and an interface: a vertex at the end of several shortest walks may be
  reached by several of them.
-/
import Ns3.Internet.Routing.GlobalRouteManager
import Ns3.Lib.ShortestPath

namespace Ns3

open Ns3.Lib

namespace GlobalRouteManagerLSDB

/-- The edges between routers and transit networks. -/
inductive Edge (db : GlobalRouteManagerLSDB) : Ipv4Address → Ipv4Address → Nat → Prop where
  | link {lsa : GlobalRoutingLSA} {l : GlobalRoutingLinkRecord} : lsa ∈ db.database →
      lsa.lsType = .routerLSA → l ∈ lsa.linkRecords → l.isTransit →
      Edge db lsa.linkStateId l.linkId l.metric
  | attached {lsa w : GlobalRoutingLSA} {addr : Ipv4Address} : lsa ∈ db.database →
      lsa.lsType = .networkLSA → addr ∈ lsa.attachedRouters →
      db.getLSAByLinkData addr = some w → Edge db lsa.linkStateId w.linkStateId 0

/-- What the records of a database agree on. -/
structure WellFormed (db : GlobalRouteManagerLSDB) : Prop where
  /-- the record of a link is of a type that is in use -/
  known : ∀ lsa ∈ db.database, ∀ l ∈ lsa.linkRecords,
    l.linkType = .pointToPoint ∨ l.linkType = .transitNetwork ∨ l.linkType = .stubNetwork
  /-- a point-to-point record has a matching reverse record -/
  reverse : ∀ lsa ∈ db.database, ∀ l ∈ lsa.linkRecords, l.linkType = .pointToPoint →
    ∃ w ∈ db.database, w.linkStateId = l.linkId ∧
      ∃ back ∈ w.linkRecords, back.linkType = .pointToPoint ∧ back.linkId = lsa.linkStateId
  /-- a transit link has its network LSA -/
  transit : ∀ lsa ∈ db.database, ∀ l ∈ lsa.linkRecords, l.linkType = .transitNetwork →
    ∃ n ∈ db.database, n.linkStateId = l.linkId ∧ n.lsType = .networkLSA
  /-- a router attaches to a network through one interface -/
  single : ∀ lsa ∈ db.database, ∀ n ∈ db.database, n.lsType = .networkLSA →
    (lsa.linkRecords.filter fun l => l.linkId = n.linkStateId).length ≤ 1

/-- No shortest distance and the cost of one more edge exceed a `uint32_t`. -/
def Fits (db : GlobalRouteManagerLSDB) (root : Ipv4Address) : Prop :=
  ∀ u w d c, IsDist (Edge db) root u d → Edge db u w c → d + c < 2 ^ 32

/-- A network lists an address whose router has no record of the network. -/
def Astray (db : GlobalRouteManagerLSDB) : Prop :=
  ∃ n ∈ db.database, n.lsType = .networkLSA ∧ ∃ addr ∈ n.attachedRouters,
    ∃ w, db.getLSAByLinkData addr = some w ∧ ∀ l ∈ w.linkRecords, l.linkId ≠ n.linkStateId

end GlobalRouteManagerLSDB

def GlobalRoutingLSA.IsStub (lsa : GlobalRoutingLSA) : Prop :=
  ∃ l, lsa.linkRecords.filter (fun l => l.isTransit) = [l] ∧ l.linkType = .pointToPoint

open GlobalRouteManagerLSDB

section

variable (env : RoutingEnv) (db : GlobalRouteManagerLSDB) (root : Ipv4Address)

/-- Packets to a vertex at a distance may leave the root by an exit. -/
inductive Exit : Ipv4Address → Nat → NodeExit → Prop where
  /-- the next hop is the address of the router on a link to the root -/
  | router {lsa w : GlobalRoutingLSA} {l back : GlobalRoutingLinkRecord} :
      db.getLSA root = some lsa → l ∈ lsa.linkRecords → db.getLSA l.linkId = some w →
      w.lsType = .routerLSA → w.linkRecords.find? (fun l => l.linkId = root) = some back →
      Exit l.linkId l.metric (back.linkData, env.outgoingInterfaceId l.linkData Ipv4Mask.ones)
  /-- a network of the root has no next hop -/
  | network {lsa w : GlobalRoutingLSA} {l : GlobalRoutingLinkRecord} :
      db.getLSA root = some lsa → l ∈ lsa.linkRecords → db.getLSA l.linkId = some w →
      w.lsType = .networkLSA →
      Exit l.linkId l.metric
        (0, env.outgoingInterfaceId w.linkStateId w.networkLSANetworkMask)
  /-- the next hop on a network of the root is the address of the router there -/
  | onNetwork {n : Ipv4Address} {d : Nat} {e : NodeExit} {w : GlobalRoutingLSA}
      {back : GlobalRoutingLinkRecord} : IsDist (Edge db) root n d → Edge db root n d →
      Exit n d e → Edge db n w.linkStateId 0 →
      w.linkRecords.find? (fun l => l.linkId = n) = some back →
      Exit w.linkStateId d (back.linkData, e.2)
  /-- further on, the exit is inherited -/
  | inherit {u w : Ipv4Address} {d c : Nat} {e : NodeExit} : IsDist (Edge db) root u d →
      Exit u d e → Edge db u w c → Exit w (d + c) e

/-- Shortest paths to a network begin with different exits of the root. -/
def SeveralExits : Prop :=
  ∃ n ∈ db.database, n.lsType = .networkLSA ∧ ∃ d e₁ e₂, e₁ ≠ e₂ ∧
    IsDist (Edge db) root n.linkStateId d ∧ Exit env db root n.linkStateId d e₁ ∧
    Exit env db root n.linkStateId d e₂

/-- The vertices that were popped are the ones that can be reached, from the near ones to
the far ones. -/
structure ShortestPathTree (popped : List SPFVertex) : Prop where
  ordered : popped.Pairwise fun u v => u.distanceFromRoot ≤ v.distanceFromRoot
  once : (popped.map SPFVertex.vertexId).Nodup
  reached : ∀ x, x ∈ popped.map SPFVertex.vertexId ↔ x ≠ root ∧ ∃ d, Walk (Edge db) root x d
  advertised : ∀ v ∈ popped, v.lsa ∈ db.database
  shortest : ∀ v ∈ popped, IsDist (Edge db) root v.vertexId v.distanceFromRoot

end

/-! ## The entries of an advertisement -/

section

variable {db : GlobalRouteManagerLSDB} {lsa w_lsa : GlobalRoutingLSA} {e : SpfEntry}
  {root w : Ipv4Address} {c : Nat}

namespace SpfEntry

variable {l : GlobalRoutingLinkRecord}

theorem mem_entries_link :
    SpfEntry.link l ∈ entries lsa ↔ lsa.lsType = .routerLSA ∧ l ∈ lsa.linkRecords := by
  rw [entries]
  split <;> rename_i htype <;> simp [htype]

theorem mem_entries_attached {addr : Ipv4Address} :
    SpfEntry.attached addr ∈ entries lsa ↔
      lsa.lsType = .networkLSA ∧ addr ∈ lsa.attachedRouters := by
  rw [entries]
  split <;> rename_i htype <;> simp [htype]

theorem exists_target (hwf : db.WellFormed) (hlsa : lsa ∈ db.database) (he : e ∈ entries lsa) :
    ∃ o, e.target db = .ok o := by
  cases e with
  | attached addr => exact ⟨_, rfl⟩
  | link l =>
    obtain ⟨-, hl⟩ := mem_entries_link.mp he
    rcases hwf.known lsa hlsa l hl with htype | htype | htype
    · obtain ⟨w, hw, hid, -⟩ := hwf.reverse lsa hlsa l hl htype
      have hget := db.getLSA_of_mem hw
      rw [hid] at hget
      exact ⟨some w, by simp only [target, htype, hget]⟩
    · obtain ⟨w, hw, hid, -⟩ := hwf.transit lsa hlsa l hl htype
      have hget := db.getLSA_of_mem hw
      rw [hid] at hget
      exact ⟨some w, by simp only [target, htype, hget]⟩
    · exact ⟨none, by simp only [target, htype]⟩

theorem target_eq_some (h : e.target db = .ok (some w_lsa)) : w_lsa ∈ db.database ∧
    ((∃ l, e = .link l ∧ l.isTransit ∧ db.getLSA l.linkId = some w_lsa) ∨
      ∃ addr, e = .attached addr ∧ db.getLSAByLinkData addr = some w_lsa) := by
  cases e with
  | attached addr =>
    have hget : db.getLSAByLinkData addr = some w_lsa := Except.ok.inj h
    exact ⟨(mem_of_getLSAByLinkData hget).1, .inr ⟨addr, rfl, hget⟩⟩
  | link l =>
    have hfound : l.isTransit ∧ db.getLSA l.linkId = some w_lsa := by
      simp only [target] at h
      split at h
      · cases h
      · rename_i htype
        split at h
        · cases h
        · rename_i w' hget
          cases Except.ok.inj h
          exact ⟨by simp [GlobalRoutingLinkRecord.isTransit, htype], hget⟩
      · rename_i htype
        split at h
        · cases h
        · rename_i w' hget
          cases Except.ok.inj h
          exact ⟨by simp [GlobalRoutingLinkRecord.isTransit, htype], hget⟩
      · cases h
      · cases h
    exact ⟨(mem_of_getLSA hfound.2).1, .inl ⟨l, rfl, hfound.1, hfound.2⟩⟩

theorem exists_of_isTransit {o : Option GlobalRoutingLSA} (hl : l.isTransit)
    (h : (SpfEntry.link l).target db = .ok o) : ∃ w_lsa, o = some w_lsa := by
  cases o with
  | some w_lsa => exact ⟨w_lsa, rfl⟩
  | none =>
    simp only [GlobalRoutingLinkRecord.isTransit, decide_eq_true_eq] at hl
    simp only [target] at h
    rcases hl with htype | htype <;> simp only [htype] at h <;> split at h <;> cases h

def Leads (db : GlobalRouteManagerLSDB) (e : SpfEntry) (w : Ipv4Address) (c : Nat) : Prop :=
  ∃ w_lsa, e.target db = .ok (some w_lsa) ∧ w_lsa.linkStateId = w ∧ e.cost = c

theorem edge_iff (hwf : db.WellFormed) (hlsa : lsa ∈ db.database) :
    Edge db lsa.linkStateId w c ↔ ∃ e ∈ entries lsa, Leads db e w c := by
  constructor
  · intro h
    generalize hu : lsa.linkStateId = u at h
    cases h with
    | @link lsa' l hlsa' htype hl htransit =>
      obtain rfl := db.eq_of_linkStateId hlsa hlsa' hu
      have he : SpfEntry.link l ∈ entries lsa := mem_entries_link.mpr ⟨htype, hl⟩
      obtain ⟨o, ho⟩ := exists_target hwf hlsa he
      obtain ⟨w_lsa, rfl⟩ := exists_of_isTransit htransit ho
      obtain ⟨-, ⟨l', hl', -, hget⟩ | ⟨addr, haddr, -⟩⟩ := target_eq_some ho
      · obtain rfl := SpfEntry.link.inj hl'
        exact ⟨.link l, he, w_lsa, ho, (mem_of_getLSA hget).2, rfl⟩
      · cases haddr
    | @attached lsa' w addr hlsa' htype haddr hget =>
      obtain rfl := db.eq_of_linkStateId hlsa hlsa' hu
      have he : SpfEntry.attached addr ∈ entries lsa := mem_entries_attached.mpr ⟨htype, haddr⟩
      exact ⟨_, he, w, congrArg Except.ok hget, rfl, rfl⟩
  · rintro ⟨e, he, w_lsa, hw, rfl, rfl⟩
    obtain ⟨-, ⟨l, rfl, htransit, hget⟩ | ⟨addr, rfl, hget⟩⟩ := target_eq_some hw
    · obtain ⟨htype, hl⟩ := mem_entries_link.mp he
      rw [(mem_of_getLSA hget).2]
      exact .link hlsa htype hl htransit
    · obtain ⟨htype, haddr⟩ := mem_entries_attached.mp he
      exact .attached hlsa htype haddr hget

end SpfEntry

end

/-! ## The record that leads back -/

section

variable {id : Ipv4Address} {ls : List GlobalRoutingLinkRecord}

theorem spfGetNextLinkFrom_eq (foundPrevLink skip : Bool) :
    spfGetNextLinkFrom id foundPrevLink skip ls =
      (ls.filter fun l => l.linkId = id)[(!foundPrevLink).toNat + skip.toNat]? := by
  induction ls generalizing foundPrevLink skip with
  | nil => rfl
  | cons l ls ih =>
    rw [spfGetNextLinkFrom, List.filter_cons]
    by_cases hid : l.linkId = id
    · cases foundPrevLink <;> cases skip <;> simp [hid, ih]
    · simp [hid, ih]

theorem spfGetNextLinkFrom_first :
    spfGetNextLinkFrom id true false ls = ls.find? fun l => l.linkId = id := by
  rw [spfGetNextLinkFrom_eq, ← List.head?_filter, List.head?_eq_getElem?]
  rfl

theorem spfGetNextLinkFrom_next (h : (ls.filter fun l => l.linkId = id).length ≤ 2) :
    spfGetNextLinkFrom id false true ls = none := by
  rw [spfGetNextLinkFrom_eq]
  exact List.getElem?_eq_none h

end

end Ns3
