/-
  The choice of multipoint relays
  (RoutingProtocol::MprComputation, src/olsr/model/olsr-routing-protocol.cc).

  The working copy `N2` loses a tuple only when its 2-hop neighbor is reached through a
  relay that was chosen; what is chosen is a willing symmetric neighbor.  A round of the
  loop chooses a neighbor that has a tuple left, so the copy shrinks.  But the copy leaves
  out what is reached through a neighbor whose first symmetric tuple is not willing, also
  when another one of its tuples is.
-/
import Mathlib.Data.List.Sort
import Ns3.Lib.Covering
import Ns3.Olsr.OlsrState

namespace Ns3

namespace Olsr

def coverTwoHopNeighbors (neighborMainAddr : Ipv4Address) (N2 : List TwoHopNeighborTuple) :
    List TwoHopNeighborTuple :=
  let toRemove := (N2.filter fun t => t.neighborMainAddr = neighborMainAddr).map
    TwoHopNeighborTuple.twoHopNeighborAddr
  N2.filter fun t => t.twoHopNeighborAddr ∉ toRemove

namespace OlsrState

def degree (s : OlsrState) (tuple : NeighborTuple) : Nat :=
  s.twoHopNeighborSet.countP fun t =>
    t.neighborMainAddr = tuple.neighborMainAddr ∧
      (s.findNeighborTuple t.neighborMainAddr).isNone

/-- The local variable `N` of `MprComputation`. -/
def symNeighbors (s : OlsrState) : List NeighborTuple :=
  s.neighborSet.filter fun n => n.status = .sym

/-- Exclusion (i): the first member of `N` with this address, if any, is willing. -/
def willingInN (s : OlsrState) (addr : Ipv4Address) : Bool :=
  match s.symNeighbors.find? fun n => n.neighborMainAddr = addr with
  | some n => decide (n.willingness ≠ Willingness.NEVER)
  | none => false

/-- Whether a tuple goes into the local variable `N2` of `MprComputation`. -/
def inN2 (s : OlsrState) (t : TwoHopNeighborTuple) : Bool :=
  t.twoHopNeighborAddr != s.mainAddress && s.willingInN t.neighborMainAddr &&
    !s.symNeighbors.any fun n => n.neighborMainAddr = t.twoHopNeighborAddr

def alwaysStep (state : Finset Ipv4Address × List TwoHopNeighborTuple) (n : NeighborTuple) :
    Finset Ipv4Address × List TwoHopNeighborTuple :=
  if n.willingness = Willingness.ALWAYS then
    (insert n.neighborMainAddr state.1, coverTwoHopNeighbors n.neighborMainAddr state.2)
  else state

/-- Step 3, for one tuple: a neighbor that alone provides reachability.  The second
component is `coveredTwoHopNeighbors`. -/
def onlyStep (N2 : List TwoHopNeighborTuple) (state : Finset Ipv4Address × Finset Ipv4Address)
    (t : TwoHopNeighborTuple) : Finset Ipv4Address × Finset Ipv4Address :=
  let onlyOne := !N2.any fun other =>
    other.twoHopNeighborAddr = t.twoHopNeighborAddr ∧ other.neighborMainAddr ≠ t.neighborMainAddr
  if onlyOne then
    (insert t.neighborMainAddr state.1,
      (N2.filter fun other => other.neighborMainAddr = t.neighborMainAddr).foldl
        (fun covered other => insert other.twoHopNeighborAddr covered) state.2)
  else state

def reach (N2 : List TwoHopNeighborTuple) (n : NeighborTuple) : Nat :=
  N2.countP fun t => n.neighborMainAddr = t.neighborMainAddr

/-- Step 4.2, for one neighbor of reachability `r`. -/
def consider (s : OlsrState) (r : Nat) (max : Option (NeighborTuple × Nat)) (n : NeighborTuple) :
    Option (NeighborTuple × Nat) :=
  match max with
  | none => some (n, r)
  | some (m, maxR) =>
    if n.willingness > m.willingness then some (n, r)
    else if n.willingness = m.willingness then
      if r > maxR then some (n, r)
      else if r = maxR then
        if s.degree n > s.degree m then some (n, r) else some (m, maxR)
      else some (m, maxR)
    else some (m, maxR)

/-- Step 4.2: `rs` is gone through in ascending order. -/
def selectMax (s : OlsrState) (N : List NeighborTuple) (N2 : List TwoHopNeighborTuple) :
    Option (NeighborTuple × Nat) :=
  let rs := ((N.map (reach N2)).dedup).insertionSort (· ≤ ·)
  rs.foldl (fun max r =>
    if r = 0 then max
    else (N.filter fun n => reach N2 n = r).foldl (s.consider r) max) none

def greedyLoop (s : OlsrState) (N : List NeighborTuple) :
    Nat → Finset Ipv4Address → List TwoHopNeighborTuple → Except Fault (Finset Ipv4Address)
  | _, mprSet, [] => .ok mprSet
  | 0, _, _ :: _ => .error .noProgress
  | fuel + 1, mprSet, N2 =>
    match s.selectMax N N2 with
    | none => s.greedyLoop N fuel mprSet N2
    | some (max, _) =>
      s.greedyLoop N fuel (insert max.neighborMainAddr mprSet)
        (coverTwoHopNeighbors max.neighborMainAddr N2)

/-- `MprComputation`: every round of the loop removes a tuple. -/
def mprComputation (s : OlsrState) : Except Fault OlsrState := do
  let N := s.symNeighbors
  let N2 := s.twoHopNeighborSet.filter s.inN2
  let (mprSet, N2) := N.foldl alwaysStep (∅, N2)
  let (mprSet, covered) := N2.foldl (onlyStep N2) (mprSet, ∅)
  let N2 := N2.filter fun t => t.twoHopNeighborAddr ∉ covered
  let mprSet ← s.greedyLoop N N2.length mprSet N2
  .ok { s with mprSet }

end OlsrState

/-! ## The multipoint relays reach the whole 2-hop neighborhood -/

open Lib

namespace OlsrState

variable {s : OlsrState} {addr : Ipv4Address} {mprSet : Finset Ipv4Address}
  {all N2 : List TwoHopNeighborTuple} {t : TwoHopNeighborTuple} {N : List NeighborTuple}
  {n m : NeighborTuple}

/-- The node has a symmetric neighbor of this address that is willing. -/
def Willing (s : OlsrState) (addr : Ipv4Address) : Prop :=
  ∃ n ∈ s.neighborSet,
    n.neighborMainAddr = addr ∧ n.status = .sym ∧ n.willingness ≠ Willingness.NEVER

/-- The address is neither the node's nor that of a symmetric neighbor. -/
def Beyond (s : OlsrState) (addr : Ipv4Address) : Prop :=
  addr ≠ s.mainAddress ∧ ∀ n ∈ s.neighborSet, n.status = .sym → n.neighborMainAddr ≠ addr

/-- Whoever is reached through a willing neighbor only is reached through a relay. -/
def Covers (s : OlsrState) (mprSet : Finset Ipv4Address) : Prop :=
  ∀ t ∈ s.twoHopNeighborSet, s.Willing t.neighborMainAddr → s.Beyond t.twoHopNeighborAddr →
    ∃ t' ∈ s.twoHopNeighborSet, t'.twoHopNeighborAddr = t.twoHopNeighborAddr ∧
      t'.neighborMainAddr ∈ mprSet

/-- The first symmetric tuple of the address is willing, or one of them is ALWAYS so. -/
def Eligible (s : OlsrState) (addr : Ipv4Address) : Prop :=
  (∃ n, s.findSymNeighborTuple addr = some n ∧ n.willingness ≠ Willingness.NEVER) ∨
    ∃ n ∈ s.neighborSet,
      n.neighborMainAddr = addr ∧ n.status = .sym ∧ n.willingness = Willingness.ALWAYS

/-- Whoever is reached through a willing neighbor only is reached through an eligible one. -/
def Heard (s : OlsrState) : Prop :=
  ∀ t ∈ s.twoHopNeighborSet, s.Willing t.neighborMainAddr → s.Beyond t.twoHopNeighborAddr →
    ∃ t' ∈ s.twoHopNeighborSet, t'.twoHopNeighborAddr = t.twoHopNeighborAddr ∧
      s.Eligible t'.neighborMainAddr

theorem mem_symNeighbors : n ∈ s.symNeighbors ↔ n ∈ s.neighborSet ∧ n.status = .sym := by
  simp [symNeighbors]

theorem willingInN_iff : s.willingInN addr = true ↔
    ∃ n, s.findSymNeighborTuple addr = some n ∧ n.willingness ≠ Willingness.NEVER := by
  have hfind : s.symNeighbors.find? (fun n => n.neighborMainAddr = addr) =
      s.findSymNeighborTuple addr := by
    rw [symNeighbors, List.find?_filter, findSymNeighborTuple]
    refine congrArg (fun p => s.neighborSet.find? p) (funext fun n => ?_)
    simp only [decide_eq_true_eq, and_comm]
  rw [willingInN, hfind]
  cases s.findSymNeighborTuple addr with
  | none => simp
  | some n => simp

theorem findSymNeighborTuple_spec (h : s.findSymNeighborTuple addr = some n) :
    n ∈ s.neighborSet ∧ n.neighborMainAddr = addr ∧ n.status = .sym := by
  rw [findSymNeighborTuple] at h
  exact ⟨List.mem_of_find?_eq_some h, by simpa using List.find?_some h⟩

theorem Eligible.willing (h : s.Eligible addr) : s.Willing addr := by
  rcases h with ⟨n, hfind, hne⟩ | ⟨n, hn, haddr, hsym, halways⟩
  · obtain ⟨hn, haddr, hsym⟩ := findSymNeighborTuple_spec hfind
    exact ⟨n, hn, haddr, hsym, hne⟩
  · exact ⟨n, hn, haddr, hsym, by rw [halways]; decide⟩

/-- The tuples of one main address agree, as they do when there is but one. -/
theorem Willing.eligible (h : s.Willing addr)
    (hagree : ∀ n ∈ s.neighborSet, ∀ n' ∈ s.neighborSet, n.neighborMainAddr = n'.neighborMainAddr →
      n.willingness ≠ Willingness.NEVER → n'.willingness ≠ Willingness.NEVER) :
    s.Eligible addr := by
  obtain ⟨n, hn, haddr, hsym, hne⟩ := h
  have hsome : (s.findSymNeighborTuple addr).isSome :=
    List.find?_isSome.mpr ⟨n, hn, decide_eq_true ⟨haddr, hsym⟩⟩
  obtain ⟨n', hfind⟩ := Option.isSome_iff_exists.mp hsome
  obtain ⟨hn', haddr', -⟩ := findSymNeighborTuple_spec hfind
  exact .inl ⟨n', hfind, hagree n hn n' hn' (haddr.trans haddr'.symm) hne⟩

theorem inN2_iff :
    s.inN2 t = true ↔ s.willingInN t.neighborMainAddr = true ∧ s.Beyond t.twoHopNeighborAddr := by
  have hneighbor : (!s.symNeighbors.any fun n => n.neighborMainAddr = t.twoHopNeighborAddr) = true ↔
      ∀ n ∈ s.neighborSet, n.status = .sym → n.neighborMainAddr ≠ t.twoHopNeighborAddr := by
    simp only [Bool.not_eq_true', List.any_eq_false, mem_symNeighbors, decide_eq_true_eq, and_imp]
  rw [inN2, Bool.and_eq_true, Bool.and_eq_true, hneighbor, bne_iff_ne, Beyond,
    and_comm (a := _ ≠ _), and_assoc]

/-! ## What the steps keep -/

/-- The tuples put aside are reached through relays, and the relays are eligible. -/
structure Chosen (s : OlsrState) (all N2 : List TwoHopNeighborTuple) (mprSet : Finset Ipv4Address) :
    Prop where
  covering : Covering TwoHopNeighborTuple.neighborMainAddr TwoHopNeighborTuple.twoHopNeighborAddr
    all N2 mprSet
  eligible : ∀ addr ∈ mprSet, s.Eligible addr

theorem mem_coverTwoHopNeighbors :
    t ∈ coverTwoHopNeighbors addr N2 ↔ t ∈ N2 ∧
      ¬∃ t' ∈ N2, t'.twoHopNeighborAddr = t.twoHopNeighborAddr ∧ t'.neighborMainAddr = addr := by
  simp only [coverTwoHopNeighbors, List.mem_filter, List.mem_map, decide_eq_true_eq]
  refine and_congr_right fun _ => not_congr (exists_congr fun t' => ?_)
  tauto

theorem Chosen.insert (h : Chosen s all N2 mprSet) (he : s.Eligible addr) :
    Chosen s all (coverTwoHopNeighbors addr N2) (insert addr mprSet) where
  covering := by
    refine h.covering.choose (Finset.subset_insert addr mprSet)
      (fun t ht => (mem_coverTwoHopNeighbors.mp ht).1) ?_
    intro t ht hgone
    rw [mem_coverTwoHopNeighbors, not_and, not_not] at hgone
    obtain ⟨t', ht', htarget, hsource⟩ := hgone ht
    exact ⟨t', ht', htarget, hsource ▸ Finset.mem_insert_self addr mprSet⟩
  eligible := by
    intro a ha
    rcases Finset.mem_insert.mp ha with rfl | ha
    · exact he
    · exact h.eligible a ha

theorem Chosen.always (h : Chosen s all N2 mprSet) (hN : ∀ n ∈ N, n ∈ s.symNeighbors) :
    Chosen s all (N.foldl alwaysStep (mprSet, N2)).2 (N.foldl alwaysStep (mprSet, N2)).1 := by
  induction N generalizing mprSet N2 with
  | nil => exact h
  | cons n N ih =>
    have hN' : ∀ n' ∈ N, n' ∈ s.symNeighbors := fun n' hn' => hN n' (.tail _ hn')
    rw [List.foldl_cons, alwaysStep]
    split
    · next halways =>
        have hmem := mem_symNeighbors.mp (hN n (.head _))
        exact ih (h.insert (.inr ⟨n, hmem.1, rfl, hmem.2, halways⟩)) hN'
    · exact ih h hN'

theorem mem_alwaysStep (haddr : addr ∈ mprSet ∨
      ∃ n ∈ N, n.neighborMainAddr = addr ∧ n.willingness = Willingness.ALWAYS) :
    addr ∈ (N.foldl alwaysStep (mprSet, N2)).1 := by
  induction N generalizing mprSet N2 with
  | nil => exact haddr.resolve_right (by simp)
  | cons n N ih =>
    have hhead {mprSet' : Finset Ipv4Address} (hsub : mprSet ⊆ mprSet')
        (hn : n.willingness = Willingness.ALWAYS → n.neighborMainAddr ∈ mprSet') :
        addr ∈ mprSet' ∨
          ∃ n ∈ N, n.neighborMainAddr = addr ∧ n.willingness = Willingness.ALWAYS := by
      rcases haddr with hmem | ⟨n', hn', rfl, halways⟩
      · exact .inl (hsub hmem)
      · rcases List.mem_cons.mp hn' with rfl | hn'
        · exact .inl (hn halways)
        · exact .inr ⟨n', hn', rfl, halways⟩
    rw [List.foldl_cons, alwaysStep]
    split
    · exact ih (hhead (Finset.subset_insert _ _) fun _ => Finset.mem_insert_self _ _)
    · next hne => exact ih (hhead (Finset.Subset.refl _) fun halways => absurd halways hne)

theorem onlyStep_spec {ts : List TwoHopNeighborTuple} (hts : ∀ t ∈ ts, t ∈ N2)
    {covered : Finset Ipv4Address}
    (hcovered : ∀ x ∈ covered, ∃ t ∈ N2, t.twoHopNeighborAddr = x ∧ t.neighborMainAddr ∈ mprSet) :
    mprSet ⊆ (ts.foldl (onlyStep N2) (mprSet, covered)).1 ∧
    (∀ addr ∈ (ts.foldl (onlyStep N2) (mprSet, covered)).1,
      addr ∈ mprSet ∨ ∃ t ∈ N2, t.neighborMainAddr = addr) ∧
    ∀ x ∈ (ts.foldl (onlyStep N2) (mprSet, covered)).2, ∃ t ∈ N2, t.twoHopNeighborAddr = x ∧
      t.neighborMainAddr ∈ (ts.foldl (onlyStep N2) (mprSet, covered)).1 := by
  induction ts generalizing mprSet covered with
  | nil => exact ⟨Finset.Subset.refl _, fun addr ha => .inl ha, hcovered⟩
  | cons t ts ih =>
    have hts' : ∀ t' ∈ ts, t' ∈ N2 := fun t' ht' => hts t' (.tail _ ht')
    rw [List.foldl_cons, onlyStep]
    split
    · have hcollect : ∀ (l : List TwoHopNeighborTuple) (c : Finset Ipv4Address) (x : Ipv4Address),
          x ∈ l.foldl (fun covered other => insert other.twoHopNeighborAddr covered) c →
            x ∈ c ∨ ∃ other ∈ l, other.twoHopNeighborAddr = x := by
        intro l
        induction l with
        | nil => exact fun c x hx => .inl hx
        | cons other l ihl =>
          intro c x hx
          rcases ihl _ x hx with hx | ⟨other', hmem, hx⟩
          · rcases Finset.mem_insert.mp hx with rfl | hx
            · exact .inr ⟨other, .head _, rfl⟩
            · exact .inl hx
          · exact .inr ⟨other', List.mem_cons_of_mem other hmem, hx⟩
      obtain ⟨hsub, hfrom, hcov⟩ := @ih (insert t.neighborMainAddr mprSet) hts' _ (by
        intro x hx
        rcases hcollect _ _ x hx with hx | ⟨other, hmem, rfl⟩
        · obtain ⟨t', ht', htarget, hsource⟩ := hcovered x hx
          exact ⟨t', ht', htarget, Finset.mem_insert_of_mem hsource⟩
        · obtain ⟨hother, haddr⟩ := List.mem_filter.mp hmem
          exact ⟨other, hother, rfl,
            Finset.mem_insert.mpr (.inl (of_decide_eq_true haddr))⟩)
      refine ⟨(Finset.subset_insert _ _).trans hsub, fun addr ha => ?_, hcov⟩
      rcases hfrom addr ha with ha | ht'
      · rcases Finset.mem_insert.mp ha with rfl | ha
        · exact .inr ⟨t, hts t (.head _), rfl⟩
        · exact .inl ha
      · exact .inr ht'
    · exact ih hts' hcovered

theorem Chosen.only (h : Chosen s all N2 mprSet)
    (hall : ∀ t ∈ all, s.willingInN t.neighborMainAddr = true) :
    mprSet ⊆ (N2.foldl (onlyStep N2) (mprSet, ∅)).1 ∧ Chosen s all
      (N2.filter fun t => t.twoHopNeighborAddr ∉ (N2.foldl (onlyStep N2) (mprSet, ∅)).2)
      (N2.foldl (onlyStep N2) (mprSet, ∅)).1 := by
  obtain ⟨hsub, hfrom, hcov⟩ := @onlyStep_spec mprSet N2 N2 (fun t ht => ht) ∅ (by simp)
  refine ⟨hsub, h.covering.choose hsub (fun t ht => (List.mem_filter.mp ht).1) ?_, ?_⟩
  · intro t ht hgone
    have hmem : t.twoHopNeighborAddr ∈ (N2.foldl (onlyStep N2) (mprSet, ∅)).2 := by
      by_contra hnot
      exact hgone (List.mem_filter.mpr ⟨ht, decide_eq_true hnot⟩)
    exact hcov _ hmem
  · intro addr ha
    rcases hfrom addr ha with ha | ⟨t, ht, rfl⟩
    · exact h.eligible addr ha
    · exact .inl (willingInN_iff.mp (hall t (h.covering.subset t ht)))

/-! ## The loop -/

/-- What has been selected, if anything, can reach a tuple. -/
def Reaching (N : List NeighborTuple) (N2 : List TwoHopNeighborTuple)
    (max : Option (NeighborTuple × Nat)) : Prop :=
  ∀ m r, max = some (m, r) → m ∈ N ∧ 0 < reach N2 m

theorem consider_spec (s : OlsrState) (r : Nat) (max : Option (NeighborTuple × Nat))
    (n : NeighborTuple) :
    (s.consider r max n).isSome ∧
      (s.consider r max n = some (n, r) ∨ s.consider r max n = max) := by
  cases max with
  | none => exact ⟨rfl, .inl rfl⟩
  | some best =>
    obtain ⟨m, maxR⟩ := best
    unfold consider
    dsimp only
    split_ifs
    all_goals first
      | exact ⟨rfl, .inl rfl⟩
      | exact ⟨rfl, .inr rfl⟩

theorem foldl_consider_spec (s : OlsrState) (r : Nat) {ns : List NeighborTuple}
    {max : Option (NeighborTuple × Nat)} (hns : ∀ n ∈ ns, n ∈ N ∧ 0 < reach N2 n)
    (hmax : Reaching N N2 max) :
    Reaching N N2 (ns.foldl (s.consider r) max) ∧
      (max.isSome ∨ ns ≠ [] → (ns.foldl (s.consider r) max).isSome) := by
  induction ns generalizing max with
  | nil => exact ⟨hmax, fun h => h.resolve_right fun hne => hne rfl⟩
  | cons n ns ih =>
    obtain ⟨hsome, hfrom⟩ := consider_spec s r max n
    have hreach : Reaching N N2 (s.consider r max n) := by
      rcases hfrom with heq | heq
      · rw [heq]
        intro m r' hm
        obtain ⟨rfl, -⟩ := Prod.mk.inj (Option.some.inj hm)
        exact hns n (.head _)
      · rwa [heq]
    rw [List.foldl_cons]
    obtain ⟨hall, hkeep⟩ := ih (fun n' hn' => hns n' (.tail _ hn')) hreach
    exact ⟨hall, fun _ => hkeep (.inl hsome)⟩

theorem selectMax_spec (s : OlsrState) (hn : n ∈ N) (hpos : 0 < reach N2 n) :
    ∃ m r, s.selectMax N N2 = some (m, r) ∧ m ∈ N ∧ 0 < reach N2 m := by
  let step (max : Option (NeighborTuple × Nat)) (r : Nat) : Option (NeighborTuple × Nat) :=
    if r = 0 then max else (N.filter fun n => reach N2 n = r).foldl (s.consider r) max
  have hfold (rs : List Nat) (max : Option (NeighborTuple × Nat)) (hmax : Reaching N N2 max) :
      Reaching N N2 (rs.foldl step max) ∧
        (max.isSome ∨ reach N2 n ∈ rs → (rs.foldl step max).isSome) := by
    induction rs generalizing max with
    | nil => exact ⟨hmax, fun h => h.resolve_right (by simp)⟩
    | cons r rs ih =>
      rw [List.foldl_cons]
      by_cases hr : r = 0
      · have hstep : step max r = max := if_pos hr
        rw [hstep]
        obtain ⟨hall, hsome⟩ := ih max hmax
        refine ⟨hall, fun h => hsome (h.imp_right fun hmem => ?_)⟩
        exact (List.mem_cons.mp hmem).resolve_left (by omega)
      · have hstep : step max r = (N.filter fun n => reach N2 n = r).foldl (s.consider r) max :=
          if_neg hr
        rw [hstep]
        obtain ⟨hround, hkeep⟩ := @foldl_consider_spec N2 N s r
          (N.filter fun n => reach N2 n = r) max (by
            intro n' hn'
            obtain ⟨hN, hreach⟩ := List.mem_filter.mp hn'
            have hreach : reach N2 n' = r := of_decide_eq_true hreach
            exact ⟨hN, by omega⟩) hmax
        obtain ⟨hall, hsome⟩ := ih _ hround
        refine ⟨hall, fun h => hsome ?_⟩
        rcases h with h | hmem
        · exact .inl (hkeep (.inl h))
        · rcases List.mem_cons.mp hmem with heq | hmem
          · exact .inl (hkeep (.inr (List.ne_nil_of_mem
              (List.mem_filter.mpr ⟨hn, decide_eq_true heq⟩))))
          · exact .inr hmem
  obtain ⟨hall, hsome⟩ := hfold (((N.map (reach N2)).dedup).insertionSort (· ≤ ·)) none (by
    intro m r hnone
    cases hnone)
  have hmem : reach N2 n ∈ ((N.map (reach N2)).dedup).insertionSort (· ≤ ·) := by
    rw [List.mem_insertionSort, List.mem_dedup]
    exact List.mem_map_of_mem hn
  obtain ⟨⟨m, r⟩, hselect⟩ := Option.isSome_iff_exists.mp (hsome (.inr hmem))
  exact ⟨m, r, hselect, hall m r hselect⟩

theorem length_coverTwoHopNeighbors (h : 0 < reach N2 m) :
    (coverTwoHopNeighbors m.neighborMainAddr N2).length < N2.length := by
  obtain ⟨t, ht, haddr⟩ := List.countP_pos_iff.mp h
  have haddr : m.neighborMainAddr = t.neighborMainAddr := of_decide_eq_true haddr
  refine List.length_filter_lt_length_iff_exists.mpr ⟨t, ht, ?_⟩
  simp only [decide_eq_true_eq, not_not]
  exact List.mem_map.mpr ⟨t, List.mem_filter.mpr ⟨ht, decide_eq_true haddr.symm⟩, rfl⟩

/-- The greedy loop ends, and nothing is left uncovered of what it was given. -/
theorem greedyLoop_spec (hall : ∀ t ∈ all, s.willingInN t.neighborMainAddr = true) (fuel : Nat)
    (hfuel : N2.length ≤ fuel) (h : Chosen s all N2 mprSet) :
    ∃ mprSet', s.greedyLoop s.symNeighbors fuel mprSet N2 = .ok mprSet' ∧
      mprSet ⊆ mprSet' ∧ Chosen s all [] mprSet' := by
  induction fuel generalizing mprSet N2 with
  | zero =>
    obtain rfl : N2 = [] := List.length_eq_zero_iff.mp (Nat.le_zero.mp hfuel)
    exact ⟨mprSet, rfl, Finset.Subset.refl _, h⟩
  | succ fuel ih =>
    cases N2 with
    | nil => exact ⟨mprSet, rfl, Finset.Subset.refl _, h⟩
    | cons t N2 =>
      -- the neighbor of the first tuple can be chosen
      obtain ⟨n, hfind, -⟩ := willingInN_iff.mp (hall t (h.covering.subset t (.head _)))
      obtain ⟨hn, haddr, hsym⟩ := findSymNeighborTuple_spec hfind
      have hreach : 0 < reach (t :: N2) n :=
        List.countP_pos_iff.mpr ⟨t, .head _, decide_eq_true haddr⟩
      obtain ⟨m, r, hselect, -, hmreach⟩ :=
        selectMax_spec s (mem_symNeighbors.mpr ⟨hn, hsym⟩) hreach
      -- and the one that is chosen has a tuple left
      obtain ⟨t', ht', haddr'⟩ := List.countP_pos_iff.mp hmreach
      have hmw : s.Eligible m.neighborMainAddr := by
        rw [of_decide_eq_true haddr']
        exact .inl (willingInN_iff.mp (hall t' (h.covering.subset t' ht')))
      have hlt := length_coverTwoHopNeighbors hmreach
      have hlen : (coverTwoHopNeighbors m.neighborMainAddr (t :: N2)).length ≤ fuel := by omega
      obtain ⟨mprSet', heq, hsub, hchosen⟩ := ih hlen (h.insert hmw)
      refine ⟨mprSet', ?_, (Finset.subset_insert _ _).trans hsub, hchosen⟩
      rw [greedyLoop, hselect]
      · exact heq
      · exact List.cons_ne_nil t N2

/-- **Multipoint relays cover the 2-hop neighborhood**, exactly when whoever is reached through a
willing neighbor only is reached through one whose first tuple is willing or which is always so.
The computation ends and every relay is a willing symmetric neighbor in any case. -/
theorem mprComputation_covers_iff (s : OlsrState) :
    ∃ mprSet, s.mprComputation = .ok { s with mprSet } ∧
      (∀ addr ∈ mprSet, s.Willing addr) ∧ (s.Covers mprSet ↔ s.Heard) := by
  have hall : ∀ t ∈ s.twoHopNeighborSet.filter s.inN2,
      s.willingInN t.neighborMainAddr = true :=
    fun t ht => (inN2_iff.mp (List.mem_filter.mp ht).2).1
  have hstart :
      Chosen s (s.twoHopNeighborSet.filter s.inN2) (s.twoHopNeighborSet.filter s.inN2) ∅ :=
    ⟨.start _ _, by simp⟩
  have halways := hstart.always (N := s.symNeighbors) fun n hn => hn
  obtain ⟨honly, hchosen⟩ := halways.only hall
  obtain ⟨mprSet, hloop, hgrown, hcovered⟩ := greedyLoop_spec hall _ le_rfl hchosen
  refine ⟨mprSet, bind_eq_ok.mpr ⟨mprSet, hloop, rfl⟩,
    fun addr ha => (hcovered.eligible addr ha).willing, fun h t ht hw hbeyond => ?_,
    fun h t ht hw hbeyond => ?_⟩
  · obtain ⟨t', ht', htarget, hrelay⟩ := h t ht hw hbeyond
    exact ⟨t', ht', htarget, hcovered.eligible _ hrelay⟩
  · obtain ⟨t', ht', htarget, hfirst | ⟨n, hn, haddr, hsym, hn7⟩⟩ := h t ht hw hbeyond
    · rw [← htarget] at hbeyond
      obtain ⟨t'', ht'', htarget', hrelay⟩ := hcovered.covering.complete t'
        (List.mem_filter.mpr ⟨ht', inN2_iff.mpr ⟨willingInN_iff.mpr hfirst, hbeyond⟩⟩)
      exact ⟨t'', (List.mem_filter.mp ht'').1, htarget'.trans htarget, hrelay⟩
    · have hrelay := @mem_alwaysStep t'.neighborMainAddr ∅ (s.twoHopNeighborSet.filter s.inN2) _
        (.inr ⟨n, mem_symNeighbors.mpr ⟨hn, hsym⟩, haddr, hn7⟩)
      exact ⟨t', ht', htarget, hgrown (honly hrelay)⟩

/-- Node 1 hears its neighbor 10 through the interface 11 as well, which it takes for another
neighbor. -/
def twoInterfaces : OlsrState :=
  { mainAddress := 1
    linkSet := [⟨1, 10, 9, 9, 9⟩, ⟨1, 11, 9, 9, 9⟩]
    neighborSet := [⟨10, .sym, Willingness.NEVER⟩, ⟨11, .sym, 3⟩]
    twoHopNeighborSet := [⟨10, 99, 9⟩]
    topologySet := []
    mprSet := ∅
    mprSelectorSet := []
    duplicateSet := []
    ifaceAssocSet := [] }

/-- A MID message tells that the interface belongs to 10, which then has two tuples; the second one
is willing, but the first one decides. -/
theorem not_covers_twoInterfaces :
    ¬∃ mprSet, (twoInterfaces.processMid ⟨10, 9, [11]⟩ 10 0).mprComputation =
        .ok { twoInterfaces.processMid ⟨10, 9, [11]⟩ 10 0 with mprSet } ∧
      (twoInterfaces.processMid ⟨10, 9, [11]⟩ 10 0).Covers mprSet := by
  rintro ⟨mprSet, heq, hcovers⟩
  have hnone : ((twoInterfaces.processMid ⟨10, 9, [11]⟩ 10 0).mprComputation).toOption.map
      OlsrState.mprSet = some ∅ := by decide
  rw [heq] at hnone
  obtain rfl : mprSet = ∅ := Option.some.inj hnone
  obtain ⟨t', -, -, hrelay⟩ := hcovers ⟨10, 99, 9⟩ (by decide)
    ⟨⟨10, .sym, 3⟩, by decide, rfl, rfl, by decide⟩ ⟨by decide, by decide⟩
  exact absurd hrelay (Finset.notMem_empty _)

end OlsrState

end Olsr

end Ns3
