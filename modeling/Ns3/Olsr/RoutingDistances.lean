/-
  The routing table gives shortest paths.

  The three steps of the computation are three kinds of edges: from the node to a neighbor,
  from a neighbor to a 2-hop neighbor, and from further on along the topology set.  After
  step 3 the first two levels of the graph are known, and every round of the loop finds the
  next one.
-/
import Mathlib.Data.Finset.Card
import Ns3.Lib.ShortestPath
import Ns3.Olsr.RoutingTable

namespace Ns3

namespace Olsr

open Lib

namespace OlsrState

variable {s : OlsrState} {now : Time} {ipv4 : List (List Ipv4Address)} {x u : Ipv4Address}
  {table table' : RoutingTable} {h : Nat}

def Sym (s : OlsrState) (x : Ipv4Address) : Prop :=
  ∃ n ∈ s.neighborSet, n.neighborMainAddr = x ∧ n.status = .sym

def Linked (s : OlsrState) (now : Time) (x : Ipv4Address) : Prop :=
  s.Sym x ∧ ∃ l ∈ s.linkSet, l.neighborIfaceAddr = x ∧ l.time ≥ now

def NotNever (s : OlsrState) (x : Ipv4Address) : Prop :=
  ∃ n ∈ s.neighborSet, n.neighborMainAddr = x ∧ n.willingness ≠ Willingness.NEVER

/-- The edges of the graph that a node knows. -/
inductive Edge (s : OlsrState) (now : Time) : Ipv4Address → Ipv4Address → Prop where
  | neighbor {x : Ipv4Address} : s.Linked now x → Edge s now s.mainAddress x
  | twoHop {t : TwoHopNeighborTuple} : t ∈ s.twoHopNeighborSet →
      s.Linked now t.neighborMainAddr → s.NotNever t.neighborMainAddr →
      Edge s now t.neighborMainAddr t.twoHopNeighborAddr
  | topology {t : TopologyTuple} : t ∈ s.topologySet → t.lastAddr ≠ s.mainAddress →
      ¬s.Linked now t.lastAddr → Edge s now t.lastAddr t.destAddr

theorem Edge.target (h : s.Edge now u x) :
    s.Linked now x ∨
      (∃ t ∈ s.twoHopNeighborSet, t.twoHopNeighborAddr = x ∧ s.Linked now t.neighborMainAddr) ∨
      ∃ t ∈ s.topologySet, t.destAddr = x := by
  cases h with
  | neighbor hlinked => exact .inl hlinked
  | twoHop ht hlinked _ => exact .inr (.inl ⟨_, ht, rfl, hlinked⟩)
  | topology ht _ _ => exact .inr (.inr ⟨_, ht, rfl⟩)

/-- What the computation needs: no 2-hop tuple of a node that is not linked comes after one that
makes this node a 2-hop neighbor; a symmetric 2-hop neighbor is linked; no tuple of the node itself
is used, a topology tuple only when another leads to the node. -/
structure Orderly (s : OlsrState) (now : Time) : Prop where
  stale : s.twoHopNeighborSet.Pairwise fun t' t =>
    s.Linked now t'.neighborMainAddr → s.nb2hopOk t' = true → s.nb2hopOk t = true →
      t.neighborMainAddr ≠ t'.twoHopNeighborAddr
  linked : ∀ t ∈ s.twoHopNeighborSet, s.Linked now t.neighborMainAddr →
    s.NotNever t.neighborMainAddr → t.twoHopNeighborAddr ≠ s.mainAddress →
    s.Sym t.twoHopNeighborAddr → s.Linked now t.twoHopNeighborAddr
  ownTwoHop : ∀ t ∈ s.twoHopNeighborSet, t.neighborMainAddr = s.mainAddress →
    s.nb2hopOk t = true → ¬s.Linked now s.mainAddress
  ownTopology : ∀ t ∈ s.topologySet, t.lastAddr = s.mainAddress →
    ∀ t' ∈ s.topologySet, t'.destAddr ≠ s.mainAddress

theorem findSymNeighborTuple_isNone : (s.findSymNeighborTuple x).isNone = true ↔ ¬s.Sym x := by
  rw [findSymNeighborTuple, Option.isNone_iff_eq_none, List.find?_eq_none, Sym]
  simp only [decide_eq_true_eq]
  push Not
  rfl

variable {t : TwoHopNeighborTuple}

theorem nb2hopOk_iff :
    s.nb2hopOk t = true ↔ ¬s.Sym t.twoHopNeighborAddr ∧ t.twoHopNeighborAddr ≠ s.mainAddress ∧
      s.NotNever t.neighborMainAddr := by
  rw [nb2hopOk, Bool.and_eq_true, Bool.and_eq_true, findSymNeighborTuple_isNone, bne_iff_ne,
    and_assoc]
  simp only [List.any_eq_true, decide_eq_true_eq]
  rfl

/-! ## Adding an entry -/

theorem addEntry_eq {dest next : Ipv4Address} {interface distance : Nat} (hd : 0 < distance) :
    table.addEntry dest next interface distance =
      .ok (Function.update table dest (some ⟨dest, next, interface, distance⟩)) := by
  rw [RoutingTable.addEntry, nsAssert_of hd]
  rfl

theorem addEntryTo_eq {dest next addr : Ipv4Address} {distance : Nat} (hd : 0 < distance)
    (hlocal : ∃ addresses ∈ ipv4, addr ∈ addresses) :
    ∃ i, table.addEntryTo ipv4 dest next addr distance =
      .ok (Function.update table dest (some ⟨dest, next, i, distance⟩)) := by
  obtain ⟨addresses, hmem, haddr⟩ := hlocal
  have hsome : (ipv4.findIdx? fun addresses => addresses.contains addr).isSome := by
    rw [List.findIdx?_isSome, List.any_eq_true]
    exact ⟨addresses, hmem, List.contains_iff_mem.mpr haddr⟩
  obtain ⟨i, hi⟩ := Option.isSome_iff_exists.mp hsome
  refine ⟨i, ?_⟩
  rw [RoutingTable.addEntryTo, nsAssert_of hd, ok_bind, hi]
  exact addEntry_eq hd

/-! ## Step 2 -/

def Direct (table : RoutingTable) (x : Ipv4Address) : Prop := ∃ i, table x = some ⟨x, x, i, 1⟩

theorem Direct.update (i : Nat) (h : Direct table x ∨ x = u) :
    Direct (Function.update table u (some ⟨u, u, i, 1⟩)) x := by
  by_cases hxu : x = u
  · subst hxu
    exact ⟨i, Function.update_self ..⟩
  · obtain ⟨j, hj⟩ := h.resolve_right hxu
    exact ⟨j, (Function.update_of_ne hxu ..).trans hj⟩

theorem linkStep_foldlM (hassoc : s.ifaceAssocSet = []) (n : NeighborTuple) {links : List LinkTuple}
    (hlocal : ∀ l ∈ links, ∃ addresses ∈ ipv4, l.localIfaceAddr ∈ addresses)
    {nb : Bool} {lt : Option LinkTuple} (hlt : lt.isSome = true → nb = true) :
    ∃ table' nb' lt',
      links.foldlM (s.linkStep now ipv4 n) (table, nb, lt) = .ok (table', nb', lt') ∧
      (lt'.isSome = true → nb' = true) ∧ (∀ x ≠ n.neighborMainAddr, table' x = table x) ∧
      (Direct table n.neighborMainAddr → Direct table' n.neighborMainAddr) ∧
      ((∃ l ∈ links, l.neighborIfaceAddr = n.neighborMainAddr ∧ l.time ≥ now) →
        Direct table' n.neighborMainAddr) ∧
      ((∀ l ∈ links, l.neighborIfaceAddr = n.neighborMainAddr → ¬l.time ≥ now) →
        table' = table) := by
  induction links generalizing table nb lt with
  | nil => exact ⟨table, nb, lt, rfl, hlt, fun _ _ => rfl, fun h => h, by simp, fun _ => rfl⟩
  | cons l links ih =>
    have hlocal' : ∀ l ∈ links, ∃ addresses ∈ ipv4, l.localIfaceAddr ∈ addresses :=
      fun l' hl' => hlocal l' (.tail _ hl')
    have hmain : s.getMainAddress l.neighborIfaceAddr = l.neighborIfaceAddr := by
      rw [getMainAddress, hassoc]
      rfl
    rw [List.foldlM_cons]
    by_cases hmatch : l.neighborIfaceAddr = n.neighborMainAddr ∧ l.time ≥ now
    · obtain ⟨i, hadd⟩ := @addEntryTo_eq _ table l.neighborIfaceAddr l.neighborIfaceAddr _ 1
        Nat.one_pos (hlocal l (.head _))
      have hstep : s.linkStep now ipv4 n (table, nb, lt) l = .ok
          (Function.update table l.neighborIfaceAddr
            (some ⟨l.neighborIfaceAddr, l.neighborIfaceAddr, i, 1⟩), true, some l) := by
        rw [linkStep, hmain]
        rw [if_pos hmatch, hadd, ok_bind, beq_iff_eq.mpr hmatch.1, Bool.or_true]
      rw [hstep, ok_bind, hmatch.1]
      obtain ⟨table', nb', lt', heq, hlt', hframe, hkeep, -, -⟩ :=
        @ih (Function.update table n.neighborMainAddr
          (some ⟨n.neighborMainAddr, n.neighborMainAddr, i, 1⟩)) hlocal' true (some l)
          fun _ => rfl
      have hdirect := hkeep (Direct.update i (.inr rfl))
      refine ⟨table', nb', lt', heq, hlt', fun x hx => ?_, fun _ => hdirect, fun _ => hdirect, ?_⟩
      · rw [hframe x hx, Function.update_of_ne hx]
      · intro hnone
        exact absurd hmatch.2 (hnone l (.head _) hmatch.1)
    · have hstep : s.linkStep now ipv4 n (table, nb, lt) l = .ok (table, nb, lt) := by
        rw [linkStep, hmain]
        exact if_neg hmatch
      rw [hstep, ok_bind]
      obtain ⟨table', nb', lt', heq, hlt', hframe, hkeep, hsome, hnone⟩ :=
        @ih table hlocal' nb lt hlt
      refine ⟨table', nb', lt', heq, hlt', hframe, hkeep, ?_, ?_⟩
      · rintro ⟨l', hl', hiface, htime⟩
        rcases List.mem_cons.mp hl' with rfl | hl'
        · exact absurd ⟨hiface, htime⟩ hmatch
        · exact hsome ⟨l', hl', hiface, htime⟩
      · exact fun hall => hnone fun l' hl' => hall l' (.tail _ hl')

/-- The table after step 2 holds the linked neighbors among those looked at. -/
structure Neighbors (s : OlsrState) (now : Time) (ns : List NeighborTuple) (table : RoutingTable) :
    Prop where
  direct : ∀ n ∈ ns, n.status = .sym → s.Linked now n.neighborMainAddr →
    Direct table n.neighborMainAddr
  none : ∀ x, ¬s.Linked now x → table x = none

section

variable (hassoc : s.ifaceAssocSet = [])
  (hlocal : ∀ l ∈ s.linkSet, ∃ addresses ∈ ipv4, l.localIfaceAddr ∈ addresses)

include hassoc hlocal

theorem neighborStep_spec {ns : List NeighborTuple} {n : NeighborTuple} (hn : n ∈ s.neighborSet)
    (h : Neighbors s now ns table) :
    ∃ table', s.neighborStep now ipv4 table n = .ok table' ∧
      Neighbors s now (ns ++ [n]) table' := by
  by_cases hsym : n.status = .sym
  · obtain ⟨table', nb', lt', heq, hlt, hframe, hkeep, hsome, hnone⟩ :=
      @linkStep_foldlM s now ipv4 table hassoc n _ hlocal false .none nofun
    have hstep : s.neighborStep now ipv4 table n = .ok table' := by
      rw [neighborStep, if_pos hsym, heq, ok_bind]
      cases lt' with
      | none => rfl
      | some l => simp only [hlt rfl, if_true]
    refine ⟨table', hstep, ?_, ?_⟩
    · intro n' hn' hsym' hlinked
      by_cases haddr : n'.neighborMainAddr = n.neighborMainAddr
      · rw [haddr] at hlinked ⊢
        exact hsome hlinked.2
      · rcases List.mem_append.mp hn' with hn' | hn'
        · obtain ⟨i, hi⟩ := h.direct n' hn' hsym' hlinked
          exact ⟨i, (hframe _ haddr).trans hi⟩
        · rw [List.mem_singleton.mp hn'] at haddr
          exact absurd rfl haddr
    · intro x hx
      by_cases haddr : x = n.neighborMainAddr
      · rw [hnone fun l hl hiface htime =>
          hx ⟨⟨n, hn, haddr.symm, hsym⟩, l, hl, hiface.trans haddr.symm, htime⟩]
        exact h.none x hx
      · rw [hframe x haddr]
        exact h.none x hx
  · refine ⟨table, if_neg hsym, ?_, h.none⟩
    intro n' hn' hsym' hlinked
    rcases List.mem_append.mp hn' with hn' | hn'
    · exact h.direct n' hn' hsym' hlinked
    · rw [List.mem_singleton.mp hn'] at hsym'
      exact absurd hsym' hsym

theorem step2_spec :
    ∃ table, s.neighborSet.foldlM (s.neighborStep now ipv4) .clear = .ok table ∧
      (∀ x, s.Linked now x → Direct table x) ∧ ∀ x, ¬s.Linked now x → table x = none := by
  have hfold : ∀ ns : List NeighborTuple, ns <+: s.neighborSet →
      ∃ table, ns.foldlM (s.neighborStep now ipv4) .clear = .ok table ∧
        Neighbors s now ns table := by
    intro ns
    induction ns using List.reverseRecOn with
    | nil => exact fun _ => ⟨.clear, rfl, nofun, fun _ _ => rfl⟩
    | append_singleton ns n ih =>
      intro hpre
      obtain ⟨table, heq, hneighbors⟩ := ih ((List.prefix_append ns [n]).trans hpre)
      obtain ⟨table', hstep, hneighbors'⟩ :=
        neighborStep_spec hassoc hlocal (n := n) (hpre.subset (by simp)) hneighbors
      refine ⟨table', ?_, hneighbors'⟩
      rw [List.foldlM_append, heq, ok_bind, List.foldlM_cons, hstep]
      rfl
  obtain ⟨table, heq, hneighbors⟩ := hfold _ List.prefix_rfl
  refine ⟨table, heq, ?_, hneighbors.none⟩
  intro x hx
  obtain ⟨n, hn, rfl, hsym⟩ := hx.1
  exact hneighbors.direct n hn hsym hx

end

/-! ## Step 3 -/

/-- The table of step 3, when the tuples `done` were looked at. -/
structure TwoHops (s : OlsrState) (now : Time) (done : List TwoHopNeighborTuple)
    (table : RoutingTable) : Prop where
  direct : ∀ x, s.Linked now x → Direct table x
  sound : ∀ x e, ¬s.Linked now x → table x = some e → e.destAddr = x ∧ e.distance = 2 ∧
    ∃ t ∈ done, t.twoHopNeighborAddr = x ∧ t.neighborMainAddr = e.nextAddr ∧
      s.nb2hopOk t = true ∧ s.Linked now e.nextAddr
  reached : ∀ t ∈ done, s.nb2hopOk t = true → s.Linked now t.neighborMainAddr →
    (table t.twoHopNeighborAddr).isSome

theorem TwoHops.concat {done : List TwoHopNeighborTuple}
    (h : TwoHops s now done table)
    (hstale : ∀ t' ∈ done, s.Linked now t'.neighborMainAddr → s.nb2hopOk t' = true →
      s.nb2hopOk t = true → t.neighborMainAddr ≠ t'.twoHopNeighborAddr) :
    ∃ table', s.twoHopStep table t = .ok table' ∧ TwoHops s now (done ++ [t]) table' := by
  -- nothing is added
  have hsame (hno : ¬(s.nb2hopOk t = true ∧ s.Linked now t.neighborMainAddr)) :
      TwoHops s now (done ++ [t]) table := by
    refine ⟨h.direct, fun x e hx he => ?_, fun t' ht' hok hlinked => ?_⟩
    · obtain ⟨hdest, hdist, t', ht', hrest⟩ := h.sound x e hx he
      exact ⟨hdest, hdist, t', List.mem_append_left [t] ht', hrest⟩
    · rcases List.mem_append.mp ht' with ht' | ht'
      · exact h.reached t' ht' hok hlinked
      · rw [List.mem_singleton.mp ht'] at hok hlinked
        exact absurd ⟨hok, hlinked⟩ hno
  unfold twoHopStep
  by_cases hok : s.nb2hopOk t = true
  rotate_left
  · exact ⟨table, if_neg hok, hsame fun hboth => hok hboth.1⟩
  rw [if_pos hok]
  by_cases hlinked : s.Linked now t.neighborMainAddr
  rotate_left
  · -- a tuple of a node without a link has found no entry
    have hnone : table.lookup t.neighborMainAddr = none := by
      refine Option.eq_none_iff_forall_ne_some.mpr fun e he => ?_
      obtain ⟨-, -, t', ht', hdest, hnext, hok', hlinked'⟩ := h.sound _ e hlinked he
      exact hstale t' ht' (hnext ▸ hlinked') hok' hok hdest.symm
    rw [hnone]
    exact ⟨table, rfl, hsame fun hboth => hlinked hboth.2⟩
  obtain ⟨i, hi⟩ := h.direct _ hlinked
  have hlookup :
      table.lookup t.neighborMainAddr = some ⟨t.neighborMainAddr, t.neighborMainAddr, i, 1⟩ :=
    hi
  have hfar : ¬s.Linked now t.twoHopNeighborAddr := fun hl => (nb2hopOk_iff.mp hok).1 hl.1
  rw [hlookup]
  refine ⟨_, addEntry_eq Nat.two_pos, ?_, ?_, ?_⟩
  · intro x hx
    have hne : x ≠ t.twoHopNeighborAddr := fun heq => hfar (heq ▸ hx)
    obtain ⟨j, hj⟩ := h.direct x hx
    exact ⟨j, (Function.update_of_ne hne ..).trans hj⟩
  · intro x e hx he
    by_cases hxt : x = t.twoHopNeighborAddr
    · subst hxt
      rw [Function.update_self] at he
      cases he
      exact ⟨rfl, rfl, t, by simp, rfl, rfl, hok, hlinked⟩
    · rw [Function.update_of_ne hxt] at he
      obtain ⟨hdest, hdist, t', ht', hrest⟩ := h.sound x e hx he
      exact ⟨hdest, hdist, t', List.mem_append_left [t] ht', hrest⟩
  · intro t' ht' hok' hlinked'
    by_cases heq : t'.twoHopNeighborAddr = t.twoHopNeighborAddr
    · rw [heq, Function.update_self]
      rfl
    · rw [Function.update_of_ne heq]
      rcases List.mem_append.mp ht' with ht' | ht'
      · exact h.reached t' ht' hok' hlinked'
      · rw [List.mem_singleton.mp ht'] at heq
        exact absurd rfl heq

theorem step3_spec (ho : s.Orderly now) (hdirect : ∀ x, s.Linked now x → Direct table x)
    (hnone : ∀ x, ¬s.Linked now x → table x = none) :
    ∃ table', s.twoHopNeighborSet.foldlM s.twoHopStep table = .ok table' ∧
      TwoHops s now s.twoHopNeighborSet table' := by
  have hfold : ∀ ts : List TwoHopNeighborTuple, ts <+: s.twoHopNeighborSet →
      ∃ table', ts.foldlM s.twoHopStep table = .ok table' ∧ TwoHops s now ts table' := by
    intro ts
    induction ts using List.reverseRecOn with
    | nil =>
      refine fun _ => ⟨table, rfl, hdirect, fun x e hx he => ?_, nofun⟩
      rw [hnone x hx] at he
      cases he
    | append_singleton ts t ih =>
      intro hpre
      obtain ⟨table', heq, htwo⟩ := ih ((List.prefix_append ts [t]).trans hpre)
      have hpair := ho.stale.sublist hpre.sublist
      obtain ⟨table'', hstep, htwo'⟩ := htwo.concat (t := t) fun t' ht' =>
        (List.pairwise_append.mp hpair).2.2 t' ht' t (.head _)
      refine ⟨table'', ?_, htwo'⟩
      rw [List.foldlM_append, heq, ok_bind, List.foldlM_cons, hstep]
      rfl
  exact hfold _ List.prefix_rfl

/-! ## The first two levels -/

theorem level_one (ho : s.Orderly now) :
    Level (s.Edge now) s.mainAddress 1 x ↔ x ≠ s.mainAddress ∧ s.Linked now x := by
  rw [Level.one]
  refine and_congr_right fun hne => ⟨?_, .neighbor⟩
  intro hedge
  generalize hself : s.mainAddress = r at hedge
  cases hedge with
  | neighbor hx => exact hx
  | @twoHop t ht hlinked hnever =>
    by_cases hok : s.nb2hopOk t = true
    · exact absurd (hself ▸ hlinked) (ho.ownTwoHop t ht hself.symm hok)
    · rw [nb2hopOk_iff] at hok
      refine ho.linked t ht hlinked hnever hne ?_
      by_contra hsym
      exact hok ⟨hsym, hne, hnever⟩
  | @topology t ht hfar _ => exact absurd hself.symm hfar

theorem level_two (ho : s.Orderly now) :
    Level (s.Edge now) s.mainAddress 2 x ↔ ∃ t ∈ s.twoHopNeighborSet,
      t.twoHopNeighborAddr = x ∧ s.Linked now t.neighborMainAddr ∧ s.nb2hopOk t = true := by
  constructor
  · intro hx
    have hne := hx.ne_root Nat.two_pos
    have hfar : ¬s.Linked now x := fun hlinked =>
      absurd (hx.unique ((level_one ho).mpr ⟨hne, hlinked⟩)) (by decide)
    obtain ⟨u, hu, hedge⟩ := hx.pred
    obtain ⟨hune, hlinked⟩ := (level_one ho).mp hu
    cases hedge with
    | neighbor _ => exact absurd rfl hune
    | @twoHop t ht _ hnever =>
      refine ⟨t, ht, rfl, hlinked, nb2hopOk_iff.mpr ⟨fun hsym => ?_, hne, hnever⟩⟩
      exact hfar (ho.linked t ht hlinked hnever hne hsym)
    | topology _ _ hnot => exact absurd hlinked hnot
  · rintro ⟨t, ht, rfl, hlinked, hok⟩
    obtain ⟨hsym, hne, hnever⟩ := nb2hopOk_iff.mp hok
    have hu : Level (s.Edge now) s.mainAddress 1 t.neighborMainAddr := by
      refine (level_one ho).mpr ⟨fun hself => ?_, hlinked⟩
      exact ho.ownTwoHop t ht hself hok (hself ▸ hlinked)
    rcases hu.succ (.twoHop ht hlinked hnever) with hx | ⟨d, hd, hx⟩
    · exact hx
    · rcases Nat.le_one_iff_eq_zero_or_eq_one.mp hd with rfl | rfl
      · exact absurd hx.eq_root hne
      · exact absurd ((level_one ho).mp hx).2.1 hsym

theorem level_succ (ho : s.Orderly now) (hh : 2 ≤ h) :
    Level (s.Edge now) s.mainAddress (h + 1) x ↔
      (∀ d ≤ h, ¬Level (s.Edge now) s.mainAddress d x) ∧ ∃ t ∈ s.topologySet,
        t.destAddr = x ∧ Level (s.Edge now) s.mainAddress h t.lastAddr := by
  constructor
  · intro hx
    refine ⟨fun d hd hd' => absurd (hx.unique hd') (by omega), ?_⟩
    obtain ⟨u, hu, hedge⟩ := hx.pred
    have hne := hu.ne_root (by omega)
    have hfar : ¬s.Linked now u := fun hlinked =>
      absurd (hu.unique ((level_one ho).mpr ⟨hne, hlinked⟩)) (by omega)
    cases hedge with
    | neighbor _ => exact absurd rfl hne
    | twoHop _ hlinked _ => exact absurd hlinked hfar
    | @topology t ht _ _ => exact ⟨t, ht, rfl, hu⟩
  · rintro ⟨hnew, t, ht, rfl, hu⟩
    have hne := hu.ne_root (by omega)
    have hfar : ¬s.Linked now t.lastAddr := fun hlinked =>
      absurd (hu.unique ((level_one ho).mpr ⟨hne, hlinked⟩)) (by omega)
    rcases hu.succ (.topology ht hne hfar) with hx | ⟨d, hd, hx⟩
    · exact hx
    · exact absurd hx (hnew d hd)

/-! ## The loop -/

/-- The entries give the shortest paths of at most `h` edges; the next address of an entry is
a linked neighbor on such a path. -/
structure UpTo (s : OlsrState) (now : Time) (h : Nat) (table : RoutingTable) : Prop where
  direct : ∀ x, s.Linked now x → Direct table x
  own : ∀ e, table s.mainAddress = some e →
    e.distance = 1 ∨ ∃ t ∈ s.topologySet, t.destAddr = s.mainAddress
  sound : ∀ x e, x ≠ s.mainAddress → table x = some e → e.destAddr = x ∧ e.distance ≤ h ∧
    Level (s.Edge now) s.mainAddress e.distance x ∧ s.Linked now e.nextAddr ∧
    Walk (UnitEdge (s.Edge now)) e.nextAddr x (e.distance - 1)
  complete : ∀ x d, x ≠ s.mainAddress → d ≤ h → Level (s.Edge now) s.mainAddress d x →
    (table x).isSome

theorem TwoHops.upTo (ho : s.Orderly now) (ht : TwoHops s now s.twoHopNeighborSet table) :
    UpTo s now 2 table where
  direct := ht.direct
  own := by
    intro e he
    by_cases hlinked : s.Linked now s.mainAddress
    · obtain ⟨i, hi⟩ := ht.direct _ hlinked
      obtain rfl := Option.mem_unique hi he
      exact .inl rfl
    · obtain ⟨-, -, t, -, hself, -, hok, -⟩ := ht.sound _ e hlinked he
      exact absurd hself (nb2hopOk_iff.mp hok).2.1
  sound := by
    intro x e hne he
    by_cases hlinked : s.Linked now x
    · obtain ⟨i, hi⟩ := ht.direct x hlinked
      obtain rfl := Option.mem_unique hi he
      exact ⟨rfl, Nat.le_succ 1, (level_one ho).mpr ⟨hne, hlinked⟩, hlinked, .nil⟩
    · obtain ⟨hdest, hdist, t, hmem, htx, hnext, hok, hlnext⟩ := ht.sound x e hlinked he
      have hlevel : Level (s.Edge now) s.mainAddress 2 x :=
        (level_two ho).mpr ⟨t, hmem, htx, hnext ▸ hlnext, hok⟩
      refine ⟨hdest, hdist.le, hdist ▸ hlevel, hlnext, ?_⟩
      have hedge : s.Edge now e.nextAddr x := by
        rw [← hnext, ← htx]
        exact .twoHop hmem (hnext ▸ hlnext) (nb2hopOk_iff.mp hok).2.2
      rw [hdist]
      exact Level.walk_snoc .nil hedge
  complete := by
    intro x d hne hd hlevel
    have hcases : d = 0 ∨ d = 1 ∨ d = 2 := by omega
    rcases hcases with rfl | rfl | rfl
    · exact absurd hlevel.eq_root hne
    · obtain ⟨i, hi⟩ := ht.direct x ((level_one ho).mp hlevel).2
      rw [hi]
      rfl
    · obtain ⟨t, hmem, rfl, hlinked, hok⟩ := (level_two ho).mp hlevel
      exact ht.reached t hmem hok hlinked

/-- What one round adds to the table `base`, when the tuples `done` were looked at. -/
structure Grown (h : Nat) (base : RoutingTable) (done : List TopologyTuple)
    (table : RoutingTable) (added : Bool) : Prop where
  keeps : ∀ x e, base x = some e → table x = some e
  fresh : ∀ x e, base x = none → table x = some e → ∃ t ∈ done, ∃ last,
    t.destAddr = x ∧ base t.lastAddr = some last ∧ last.distance = h ∧
      e = ⟨x, last.nextAddr, last.interface, h + 1⟩
  reached : ∀ t ∈ done, ∀ last, base t.lastAddr = some last → last.distance = h →
    (table t.destAddr).isSome
  added_iff : added = true ↔ ∃ x, base x = none ∧ (table x).isSome

theorem Grown.concat {base : RoutingTable} {done : List TopologyTuple} {added : Bool}
    {t : TopologyTuple} (hg : Grown h base done table added) :
    ∃ table' added', topologyStep h (table, added) t = .ok (table', added') ∧
      Grown h base (done ++ [t]) table' added' := by
  -- an entry of the table with distance `h` was there before the round
  have hbase (last : RoutingTableEntry) (hlast : table t.lastAddr = some last)
      (hdist : last.distance = h) : base t.lastAddr = some last := by
    cases hb : base t.lastAddr with
    | some e => rw [← hg.keeps _ e hb, hlast]
    | none =>
      obtain ⟨t', -, last', -, -, -, heq⟩ := hg.fresh _ last hb hlast
      rw [heq] at hdist
      exact absurd hdist (Nat.succ_ne_self h)
  have hsame (hdone : ∀ last, base t.lastAddr = some last → last.distance = h →
      (table t.destAddr).isSome) : Grown h base (done ++ [t]) table added := by
    refine ⟨hg.keeps, fun x e hb he => ?_, fun t' ht' => ?_, hg.added_iff⟩
    · obtain ⟨t', ht', hrest⟩ := hg.fresh x e hb he
      exact ⟨t', List.mem_append_left [t] ht', hrest⟩
    · rcases List.mem_append.mp ht' with ht' | ht'
      · exact hg.reached t' ht'
      · rw [List.mem_singleton.mp ht']
        exact hdone
  unfold topologyStep
  dsimp only [RoutingTable.lookup]
  cases hdest : table t.destAddr with
  | some e =>
    refine ⟨_, _, rfl, hsame fun _ _ _ => ?_⟩
    rw [hdest]
    rfl
  | none =>
    cases hlast : table t.lastAddr with
    | none =>
      refine ⟨_, _, rfl, hsame fun last hb _ => ?_⟩
      rw [hg.keeps _ last hb] at hlast
      cases hlast
    | some last =>
      dsimp only
      by_cases hdist : last.distance = h
      rotate_left
      · rw [if_neg hdist]
        refine ⟨_, _, rfl, hsame fun last' hb hdist' => ?_⟩
        cases (hg.keeps _ last' hb).symm.trans hlast
        exact absurd hdist' hdist
      rw [if_pos hdist, addEntry_eq (Nat.succ_pos h)]
      have hbdest : base t.destAddr = none := by
        cases hb : base t.destAddr with
        | none => rfl
        | some e =>
          rw [hg.keeps _ e hb] at hdest
          cases hdest
      refine ⟨_, _, rfl, ?_, ?_, ?_, ?_⟩
      · intro x e hb
        have hne : x ≠ t.destAddr := by
          rintro rfl
          rw [hb] at hbdest
          cases hbdest
        exact (Function.update_of_ne hne ..).trans (hg.keeps x e hb)
      · intro x e hb he
        by_cases hx : x = t.destAddr
        · subst hx
          rw [Function.update_self] at he
          exact ⟨t, by simp, last, rfl, hbase last hlast hdist, hdist,
            (Option.some.inj he).symm⟩
        · rw [Function.update_of_ne hx] at he
          obtain ⟨t', ht', hrest⟩ := hg.fresh x e hb he
          exact ⟨t', List.mem_append_left [t] ht', hrest⟩
      · intro t' ht' last' hb hdist'
        by_cases hx : t'.destAddr = t.destAddr
        · rw [hx, Function.update_self]
          rfl
        · rw [Function.update_of_ne hx]
          rcases List.mem_append.mp ht' with ht' | ht'
          · exact hg.reached t' ht' last' hb hdist'
          · rw [List.mem_singleton.mp ht'] at hx
            exact absurd rfl hx
      · refine iff_of_true rfl ⟨t.destAddr, hbdest, ?_⟩
        rw [Function.update_self]
        rfl

theorem round_spec (h : Nat) (base : RoutingTable) (ts : List TopologyTuple) :
    ∃ table added, ts.foldlM (topologyStep h) (base, false) = .ok (table, added) ∧
      Grown h base ts table added := by
  induction ts using List.reverseRecOn with
  | nil =>
    refine ⟨base, false, rfl, fun _ _ he => he, ?_, nofun, ?_⟩
    · intro x e hb he
      rw [hb] at he
      cases he
    · refine iff_of_false Bool.false_ne_true ?_
      rintro ⟨x, hb, hsome⟩
      rw [hb] at hsome
      cases hsome
  | append_singleton ts t ih =>
    obtain ⟨table, added, heq, hg⟩ := ih
    obtain ⟨table', added', hstep, hg'⟩ := hg.concat (t := t)
    refine ⟨table', added', ?_, hg'⟩
    rw [List.foldlM_append, heq, ok_bind, List.foldlM_cons, hstep]
    rfl

theorem UpTo.round (ho : s.Orderly now) (hh : 2 ≤ h) (hup : UpTo s now h table) {added : Bool}
    (hg : Grown h table s.topologySet table' added) : UpTo s now (h + 1) table' where
  direct := by
    intro x hx
    obtain ⟨i, hi⟩ := hup.direct x hx
    exact ⟨i, hg.keeps x _ hi⟩
  own := by
    intro e he
    cases hb : table s.mainAddress with
    | some e' =>
      obtain rfl := Option.mem_unique (hg.keeps _ e' hb) he
      exact hup.own e' hb
    | none =>
      obtain ⟨t, ht, -, hself, -⟩ := hg.fresh _ e hb he
      exact .inr ⟨t, ht, hself⟩
  sound := by
    intro x e hne he
    cases hb : table x with
    | some e' =>
      obtain rfl := Option.some.inj ((hg.keeps x e' hb).symm.trans he)
      obtain ⟨hdest, hle, hlevel, hnext⟩ := hup.sound x e' hne hb
      exact ⟨hdest, Nat.le_succ_of_le hle, hlevel, hnext⟩
    | none =>
      obtain ⟨t, ht, last, rfl, hlast, hdist, rfl⟩ := hg.fresh x e hb he
      have hlne : t.lastAddr ≠ s.mainAddress := by
        intro hself
        rcases hup.own last (hself ▸ hlast) with hone | ⟨t', ht', hself'⟩
        · omega
        · exact ho.ownTopology t ht hself t' ht' hself'
      obtain ⟨-, -, hlevel, hlinked, hwalk⟩ := hup.sound _ last hlne hlast
      rw [hdist] at hlevel hwalk
      have hnew : ∀ d ≤ h, ¬Level (s.Edge now) s.mainAddress d t.destAddr := by
        intro d hd hd'
        have hsome := hup.complete _ d hne hd hd'
        rw [hb] at hsome
        cases hsome
      have hfar : ¬s.Linked now t.lastAddr := fun hl =>
        absurd (hlevel.unique ((level_one ho).mpr ⟨hlne, hl⟩)) (by omega)
      refine ⟨rfl, le_rfl, (level_succ ho hh).mpr ⟨hnew, t, ht, rfl, hlevel⟩, hlinked, ?_⟩
      have hlen : h + 1 - 1 = h - 1 + 1 := by omega
      rw [hlen]
      exact Level.walk_snoc hwalk (.topology ht hlne hfar)
  complete := by
    intro x d hne hd hlevel
    rcases Nat.le_succ_iff.mp hd with hd | rfl
    · obtain ⟨e, he⟩ := Option.isSome_iff_exists.mp (hup.complete x d hne hd hlevel)
      rw [hg.keeps x e he]
      rfl
    · obtain ⟨-, t, ht, rfl, hlast⟩ := (level_succ ho hh).mp hlevel
      have hne := hlast.ne_root (by omega)
      obtain ⟨last, hl⟩ :=
        Option.isSome_iff_exists.mp (hup.complete _ h hne le_rfl hlast)
      obtain ⟨-, -, hlevel', -⟩ := hup.sound _ last hne hl
      exact hg.reached t ht last hl (hlevel'.unique hlast)

def missing (s : OlsrState) (table : RoutingTable) : Finset Ipv4Address :=
  (s.topologySet.map TopologyTuple.destAddr).toFinset.filter fun x => table x = none

theorem missing_lt (hg : Grown h table s.topologySet table' true) :
    (s.missing table').card < (s.missing table).card := by
  refine Finset.card_lt_card ⟨fun x hx => ?_, fun hsub => ?_⟩
  · obtain ⟨hmem, hnone⟩ := Finset.mem_filter.mp hx
    refine Finset.mem_filter.mpr ⟨hmem, ?_⟩
    cases hb : table x with
    | none => rfl
    | some e =>
      rw [hg.keeps x e hb] at hnone
      cases hnone
  · obtain ⟨x, hb, hsome⟩ := hg.added_iff.mp rfl
    obtain ⟨e, he⟩ := Option.isSome_iff_exists.mp hsome
    obtain ⟨t, ht, -, rfl, -⟩ := hg.fresh x e hb he
    have hx : t.destAddr ∈ s.missing table :=
      Finset.mem_filter.mpr ⟨List.mem_toFinset.mpr (List.mem_map_of_mem ht), hb⟩
    obtain ⟨-, hnone⟩ := Finset.mem_filter.mp (hsub hx)
    rw [he] at hnone
    cases hnone

theorem topologyLoop_spec (ho : s.Orderly now) (fuel : Nat) (hh : 2 ≤ h)
    (hfuel : (s.missing table).card < fuel) (hup : UpTo s now h table) :
    ∃ table', s.topologyLoop fuel h table = .ok table' ∧ ∀ d, ∃ h' ≥ d, UpTo s now h' table' := by
  induction fuel generalizing h table with
  | zero => cases hfuel
  | succ fuel ih =>
    obtain ⟨table', added, heq, hg⟩ := round_spec h table s.topologySet
    rw [topologyLoop, heq, ok_bind]
    cases added with
    | true =>
      have hlt := missing_lt hg
      exact ih (Nat.le_succ_of_le hh) (by omega) (hup.round ho hh hg)
    | false =>
      -- nothing was added: the next level is empty
      have hsame : table' = table := by
        funext x
        cases hb : table x with
        | some e => exact hg.keeps x e hb
        | none =>
          by_contra hne
          exact absurd (hg.added_iff.mpr ⟨x, hb, Option.isSome_iff_ne_none.mpr hne⟩)
            Bool.false_ne_true
      have hnone : ∀ x, ¬Level (s.Edge now) s.mainAddress (h + 1) x := by
        intro x hx
        have hne := hx.ne_root (Nat.succ_pos h)
        have hsome := (hup.round ho hh hg).complete x (h + 1) hne le_rfl hx
        rw [hsame] at hsome
        obtain ⟨e, he⟩ := Option.isSome_iff_exists.mp hsome
        obtain ⟨-, hle, hlevel, -⟩ := hup.sound x e hne he
        exact absurd (hlevel.unique hx) (by omega)
      rw [hsame]
      refine ⟨table, rfl, fun d => ⟨max d h, Nat.le_max_left d h, hup.direct, hup.own, ?_, ?_⟩⟩
      · intro x e hne he
        obtain ⟨hdest, hle, hrest⟩ := hup.sound x e hne he
        exact ⟨hdest, hle.trans (Nat.le_max_right d h), hrest⟩
      · intro x d' hne _ hlevel
        exact hup.complete x d' hne (Level.le_of_empty hnone hlevel) hlevel

/-! ## The table -/

/-- The table gives shortest paths: it has an entry for whatever can be reached; its distance is the
least number of edges; and `FindSendEntry` finds the entry of a symmetric neighbor on a shortest
path. -/
structure ShortestPaths (s : OlsrState) (now : Time) (table : RoutingTable) : Prop where
  reachable : ∀ x ≠ s.mainAddress,
    (table x).isSome ↔ ∃ d, Walk (UnitEdge (s.Edge now)) s.mainAddress x d
  distance : ∀ x ≠ s.mainAddress, ∀ e, table x = some e →
    e.destAddr = x ∧ IsDist (UnitEdge (s.Edge now)) s.mainAddress x e.distance
  send : ∀ x ≠ s.mainAddress, ∀ e, table x = some e →
    ∃ e', (∀ fuel ≥ 1, table.findSendEntry fuel e = .ok (some e')) ∧
      table e'.destAddr = some e' ∧ s.Linked now e'.destAddr ∧
      Walk (UnitEdge (s.Edge now)) e'.destAddr x (e.distance - 1)

theorem findSendEntry_spec {e : RoutingTableEntry} (hx : table e.destAddr = some e)
    (hdirect : Direct table e.nextAddr) :
    ∃ e', (∀ fuel ≥ 1, table.findSendEntry fuel e = .ok (some e')) ∧
      table e'.destAddr = some e' ∧ e'.destAddr = e.nextAddr := by
  have hdone (fuel : Nat) (e : RoutingTableEntry) (heq : e.destAddr = e.nextAddr) :
      table.findSendEntry fuel e = .ok (some e) := by
    cases fuel <;> rw [RoutingTable.findSendEntry, if_pos heq]
  by_cases heq : e.destAddr = e.nextAddr
  · exact ⟨e, fun fuel _ => hdone fuel e heq, hx, heq⟩
  · obtain ⟨i, hi⟩ := hdirect
    refine ⟨⟨e.nextAddr, e.nextAddr, i, 1⟩, fun fuel hfuel => ?_, hi, rfl⟩
    obtain ⟨fuel, rfl⟩ := Nat.exists_eq_add_of_le' hfuel
    have hlookup : table.lookup e.nextAddr = some ⟨e.nextAddr, e.nextAddr, i, 1⟩ := hi
    rw [RoutingTable.findSendEntry, if_neg heq, hlookup]
    exact hdone fuel _ rfl

/-- Exact up to every distance means exact. -/
theorem shortestPaths_of_upTo (hup : ∀ d, ∃ h ≥ d, UpTo s now h table) :
    ShortestPaths s now table where
  reachable := by
    intro x hne
    constructor
    · intro hsome
      obtain ⟨e, he⟩ := Option.isSome_iff_exists.mp hsome
      obtain ⟨h, -, hup⟩ := hup 0
      exact ⟨e.distance, (hup.sound x e hne he).2.2.1.walk⟩
    · rintro ⟨d, hwalk⟩
      obtain ⟨d', -, hlevel⟩ := Level.exists_of_walk hwalk
      obtain ⟨h, hh, hup⟩ := hup d'
      exact hup.complete x d' hne hh hlevel
  distance := by
    intro x hne e he
    obtain ⟨h, -, hup⟩ := hup 0
    obtain ⟨hdest, -, hlevel, -⟩ := hup.sound x e hne he
    exact ⟨hdest, hlevel⟩
  send := by
    intro x hne e he
    obtain ⟨h, -, hup⟩ := hup 0
    obtain ⟨hdest, -, -, hlinked, hwalk⟩ := hup.sound x e hne he
    obtain ⟨e', hsend, hentry, haddr⟩ :=
      findSendEntry_spec (hdest.symm ▸ he) (hup.direct _ hlinked)
    exact ⟨e', hsend, hentry, haddr.symm ▸ hlinked, haddr.symm ▸ hwalk⟩

/-- **The routing table gives shortest paths**, when the sets are orderly. -/
theorem routingTableComputation_shortest (hassoc : s.ifaceAssocSet = [])
    (hlocal : ∀ l ∈ s.linkSet, ∃ addresses ∈ ipv4, l.localIfaceAddr ∈ addresses)
    (ho : s.Orderly now) :
    ∃ table, s.routingTableComputation now ipv4 = .ok table ∧ ShortestPaths s now table := by
  obtain ⟨table₂, hstep2, hdirect, hnone⟩ := @step2_spec s now ipv4 hassoc hlocal
  obtain ⟨table₃, hstep3, htwo⟩ := step3_spec ho hdirect hnone
  have hfuel : (s.missing table₃).card < s.topologySet.length + 1 := by
    refine Nat.lt_succ_of_le ((Finset.card_filter_le _ _).trans ?_)
    exact (List.toFinset_card_le _).trans (List.length_map _).le
  obtain ⟨table, hloop, hup⟩ := topologyLoop_spec ho _ le_rfl hfuel (htwo.upTo ho)
  refine ⟨table, ?_, shortestPaths_of_upTo hup⟩
  rw [routingTableComputation, hstep2, ok_bind, hstep3, ok_bind, hloop, ok_bind, hassoc]
  rfl

/-- Node 1 with the symmetric neighbor 2, its former neighbor 3 and the given 2-hop tuples, and
the topology tuple from 3 to 5. -/
def sample (twoHops : List (Ipv4Address × Ipv4Address)) : OlsrState :=
  { mainAddress := 1
    linkSet := [⟨1, 2, 9, 9, 9⟩]
    neighborSet := [⟨2, .sym, 3⟩, ⟨3, .notSym, 3⟩]
    twoHopNeighborSet := twoHops.map fun p => ⟨p.1, p.2, 9⟩
    topologySet := [⟨5, 3, 0, 9⟩]
    mprSet := ∅
    mprSelectorSet := []
    duplicateSet := []
    ifaceAssocSet := [] }

theorem sample_not_sym (twoHops : List (Ipv4Address × Ipv4Address)) :
    ∀ x ≠ 2, ¬(sample twoHops).Sym x := by
  rintro x hx ⟨n, hn, rfl, hsym⟩
  have hcases : n = ⟨2, .sym, 3⟩ ∨ n = ⟨3, .notSym, 3⟩ := by simpa [sample] using hn
  rcases hcases with rfl | rfl
  · exact hx rfl
  · cases hsym

/-- The former neighbor's tuple stands before the one that makes it a 2-hop neighbor. -/
theorem routingTableComputation_shortest_sample : ∃ table,
    (sample [(3, 4), (2, 3)]).routingTableComputation 0 [[1]] = .ok table ∧
      ShortestPaths (sample [(3, 4), (2, 3)]) 0 table := by
  have hnot := sample_not_sym [(3, 4), (2, 3)]
  refine routingTableComputation_shortest rfl (by decide) ⟨?_, ?_, ?_, by decide⟩
  · exact List.pairwise_pair.mpr fun hlinked _ _ => absurd hlinked.1 (hnot 3 (by decide))
  · intro t ht _ _ _ hsym
    have hcases : t = ⟨3, 4, 9⟩ ∨ t = ⟨2, 3, 9⟩ := by simpa [sample] using ht
    rcases hcases with rfl | rfl
    · exact absurd hsym (hnot 4 (by decide))
    · exact absurd hsym (hnot 3 (by decide))
  · exact fun _ _ _ _ hlinked => hnot 1 (by decide) hlinked.1

/-- In the other order node 4 gets an entry although no path leads there. -/
theorem not_routingTableComputation_shortest :
    ¬∀ (s : OlsrState) (now : Time) (ipv4 : List (List Ipv4Address)), s.ifaceAssocSet = [] →
      (∀ l ∈ s.linkSet, ∃ addresses ∈ ipv4, l.localIfaceAddr ∈ addresses) →
      ∃ table, s.routingTableComputation now ipv4 = .ok table ∧ ShortestPaths s now table := by
  intro hall
  obtain ⟨table, htable, hshort⟩ := hall (sample [(2, 3), (3, 4)]) 0 [[1]] rfl (by decide)
  have hentry : ((sample [(2, 3), (3, 4)]).routingTableComputation 0 [[1]]).toOption.map
      (fun table => table 4) = some (some ⟨4, 2, 0, 2⟩) := by decide +kernel
  rw [htable] at hentry
  have h4 : table 4 = some ⟨4, 2, 0, 2⟩ := Option.some.inj hentry
  obtain ⟨d, hwalk⟩ := (hshort.reachable 4 (by decide)).mp (by rw [h4]; rfl)
  have hnot := sample_not_sym [(2, 3), (3, 4)]
  obtain ⟨u, hedge⟩ := Level.last_edge hwalk (by decide)
  rcases hedge.target with hlinked | ⟨t, ht, hdest, hlinked⟩ | ⟨t, ht, hdest⟩
  · exact hnot 4 (by decide) hlinked.1
  · have hcases : t = ⟨2, 3, 9⟩ ∨ t = ⟨3, 4, 9⟩ := by simpa [sample] using ht
    rcases hcases with rfl | rfl
    · exact absurd hdest (by decide)
    · exact hnot 3 (by decide) hlinked.1
  · obtain rfl : t = ⟨5, 3, 0, 9⟩ := by simpa [sample] using ht
    exact absurd hdest (by decide)

end OlsrState

end Olsr

end Ns3
