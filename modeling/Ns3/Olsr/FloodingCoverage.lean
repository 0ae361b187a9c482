/-
  A flood reaches every node once.

  Suppose that no copy is queued any more and a node `w` has not heard the message.  Among
  the senders nearest to `w`, take the one that sent first.  It has a relay that is nearer
  to `w`, and the relay heard the message from it first: so the relay has sent the message,
  or has it queued.

  Each node knows its neighbors and their neighbors, computes its relays from these, and
  learns from its neighbors who has selected it.
-/
import Mathlib.Data.Finset.Card
import Mathlib.Data.Finset.Sort
import Ns3.Olsr.FloodingRuns

namespace Ns3

namespace Olsr

open Lib

namespace Network

variable {net : Network} {horizon : Time} {states : Ipv4Address → OlsrState}
  {u v w o : Ipv4Address} {σ σ' : State} {q k : Nat}

theorem level_le_succ (hu : Level net.Adj w k u) (hadj : net.Adj u v) :
    ∃ j ≤ k + 1, Level net.Adj w j v := by
  rcases hu.succ hadj with hv | ⟨j, hle, hv⟩
  · exact ⟨k + 1, le_rfl, hv⟩
  · exact ⟨j, Nat.le_succ_of_le hle, hv⟩

theorem Converged.exists_nearer (hconv : Converged net horizon states)
    (hu : Level net.Adj w (k + 2) u) :
    ∃ m x, m ∈ (states u).mprSet ∧ net.Adj u m ∧ net.Adj m x ∧ Level net.Adj w (k + 1) m ∧
      Level net.Adj w k x := by
  obtain ⟨y, hy, hyu⟩ := hu.pred
  obtain ⟨x, hx, hxy⟩ := hy.pred
  have hxu : x ≠ u := by
    rintro rfl
    have := hx.unique hu
    omega
  have hux : ¬net.Adj u x := by
    intro hadj
    obtain ⟨j, hle, hj⟩ := level_le_succ hx (net.symm u x hadj)
    have := hj.unique hu
    omega
  obtain ⟨m, hm, hum, hmx⟩ :=
    hconv.exists_relay (net.symm y u hyu) (net.symm x y hxy) hxu hux
  refine ⟨m, x, hm, hum, hmx, ?_, hx⟩
  obtain ⟨j, hle, hj⟩ := level_le_succ hx (net.symm m x hmx)
  obtain ⟨i, hle', hi⟩ := level_le_succ hj (net.symm u m hum)
  have := hi.unique hu
  obtain rfl : j = k + 1 := by omega
  exact hj

theorem find?_eq_of_imp {α : Type*} {P Q : α → Bool} {l : List α} {a : α}
    (hfind : l.find? P = some a) (ha : Q a) (himp : ∀ b ∈ l, Q b → P b) : l.find? Q = some a := by
  obtain ⟨-, as, bs, rfl, has⟩ := List.find?_eq_some_iff_append.mp hfind
  refine List.find?_eq_some_iff_append.mpr ⟨ha, as, bs, rfl, fun b hb => ?_⟩
  have hP := has b hb
  cases hQ : Q b with
  | false => rfl
  | true =>
    rw [himp b (List.mem_append_left _ hb) hQ] at hP
    cases hP

def Quiet (net : Network) (σ : State) (κ : Ipv4Address × Nat) : Prop :=
  ∀ v ∈ net.nodes, ∀ msg ∈ (σ.node v).queuedMessages, msg.key ≠ κ

theorem Quiet.copies {κ : Ipv4Address × Nat} (h : Quiet net σ κ) (hv : v ∈ net.nodes) :
    ((σ.node v).view κ).copies = [] :=
  List.filter_eq_nil_iff.mpr fun msg hmsg => by simpa using h v hv msg hmsg

section

variable (h : FloodInv net states o q σ) (hv : v ∈ net.nodes)

include h hv

theorem FloodInv.received (hne : v ≠ o) (hheard : net.firstHeard (sent σ (o, q)) v ≠ none) :
    (o, q) ∈ (σ.node v).received := by
  have hstands := h.stands v hv hne
  obtain ⟨p, hp⟩ := Option.ne_none_iff_exists'.mp hheard
  rw [Stands, hp] at hstands
  have hcontains : (σ.node v).received.contains (o, q) = true := hstands.2.1
  simpa using hcontains

theorem FloodInv.forwards_le : (σ.node v).forwarded.count (o, q) ≤ 1 := by
  show ((σ.node v).view (o, q)).forwards ≤ 1
  by_cases hne : v = o
  · subst hne
    rw [h.origin]
    exact Nat.zero_le 1
  · have hstands := h.stands v hv hne
    rw [Stands] at hstands
    split at hstands
    · rw [hstands.1]
      exact Nat.zero_le 1
    · obtain ⟨-, -, hrest⟩ := hstands
      split at hrest
      · exact Nat.le_of_eq hrest.1
      · rw [hrest.1]
        exact Nat.zero_le 1

theorem FloodInv.relay_queues {p : Ipv4Address × MessageHeader} (hne : v ≠ o)
    (hfirst : net.firstHeard (sent σ (o, q)) v = some p) (httl : 1 < p.2.timeToLive)
    (hmpr : v ∈ (states p.1).mprSet) (hnot : v ∉ (sent σ (o, q)).map Prod.fst) :
    ((σ.node v).view (o, q)).copies = [p.2.relayed] := by
  have hstands := h.stands v hv hne
  rw [Stands, hfirst] at hstands
  obtain ⟨-, -, hrest⟩ := hstands
  rw [if_pos ⟨httl, hmpr⟩, if_neg hnot] at hrest
  exact hrest.2

theorem FloodInv.length_add_two_le (hw : w ∈ net.nodes) (hne : v ≠ w)
    (hv' : v ∉ (sent σ (o, q)).map Prod.fst) (hw' : w ∉ (sent σ (o, q)).map Prod.fst) :
    (sent σ (o, q)).length + 2 ≤ net.nodes.card := by
  classical
  have hnodup : (v :: w :: (sent σ (o, q)).map Prod.fst).Nodup := by
    refine List.nodup_cons.mpr ⟨?_, List.nodup_cons.mpr ⟨hw', h.nodup⟩⟩
    rintro (_ | ⟨_, hin⟩)
    · exact hne rfl
    · exact hv' hin
  have hsub : (v :: w :: (sent σ (o, q)).map Prod.fst).toFinset ⊆ net.nodes := by
    intro x hx
    rw [List.mem_toFinset] at hx
    rcases List.mem_cons.mp hx with rfl | hx
    · exact hv
    rcases List.mem_cons.mp hx with rfl | hx
    · exact hw
    · obtain ⟨p, hp, rfl⟩ := List.mem_map.mp hx
      exact h.senders p hp
  have hcard := Finset.card_le_card hsub
  rw [List.toFinset_card_of_nodup hnodup, List.length_cons, List.length_cons,
    List.length_map] at hcard
  exact hcard

end

/-- When all is quiet, every node has heard the message. -/
theorem FloodInv.covers (h : FloodInv net states o q σ) (hconv : Converged net horizon states)
    (hconn : net.Connected) (ho : o ∈ net.nodes) (hquiet : Quiet net σ (o, q))
    (httl : net.nodes.card ≤ 256 ∨ ∀ p ∈ sent σ (o, q), 1 < p.2.timeToLive)
    (hw : w ∈ net.nodes) (hwo : w ≠ o) : net.firstHeard (sent σ (o, q)) w ≠ none := by
  classical
  intro hnone
  have hw' : w ∉ (sent σ (o, q)).map Prod.fst := by
    have hstands := h.stands w hw hwo
    rw [Stands, hnone] at hstands
    exact hstands.2
  have ho' : o ∈ (sent σ (o, q)).map Prod.fst := by
    by_contra hnot
    have horigin := congrArg FloodView.copies h.origin
    rw [hquiet.copies ho, if_neg hnot] at horigin
    cases horigin
  -- the senders nearest to `w`
  have hlevel (v : Ipv4Address) (hv : v ∈ net.nodes) : ∃ k, Level net.Adj w k v := by
    obtain ⟨d, hd⟩ := hconn w hw v hv
    obtain ⟨k, -, hk⟩ := Level.exists_of_walk hd
    exact ⟨k, hk⟩
  have hex : ∃ k, ∃ p ∈ sent σ (o, q), Level net.Adj w k p.1 := by
    obtain ⟨p, hp, hpo⟩ := List.mem_map.mp ho'
    obtain ⟨k, hk⟩ := hlevel o ho
    exact ⟨k, p, hp, hpo ▸ hk⟩
  have hleast (p : Ipv4Address × MessageHeader) (hp : p ∈ sent σ (o, q)) (j : Nat)
      (hj : Level net.Adj w j p.1) : Nat.find hex ≤ j := Nat.find_min' hex ⟨p, hp, hj⟩
  obtain ⟨p₀, hp₀, hk₀⟩ := Nat.find_spec hex
  generalize Nat.find hex = k at hleast hk₀
  -- the first of them
  have hsome : ((sent σ (o, q)).find? fun p => Level net.Adj w k p.1).isSome :=
    List.find?_isSome.mpr ⟨p₀, hp₀, decide_eq_true hk₀⟩
  obtain ⟨p, hfind⟩ := Option.isSome_iff_exists.mp hsome
  have hp : p ∈ sent σ (o, q) := List.mem_of_find?_eq_some hfind
  have hk : Level net.Adj w k p.1 := by simpa using List.find?_some hfind
  rcases k with _ | _ | k
  · exact hw' (hk.eq_root ▸ List.mem_map_of_mem hp)
  · have hadj : net.Adj p.1 w := net.symm w p.1 (Level.one.mp hk).2
    have hno := List.find?_eq_none.mp hnone p hp
    exact hno (decide_eq_true hadj)
  · obtain ⟨m, x, hmpr, hpm, hmx, hm, hx⟩ := hconv.exists_nearer hk
    have hmnodes : m ∈ net.nodes := net.mem_of_adj m x hmx
    have hm' : m ∉ (sent σ (o, q)).map Prod.fst := by
      intro hin
      obtain ⟨p', hp', rfl⟩ := List.mem_map.mp hin
      have := hleast p' hp' _ hm
      omega
    have hmo : m ≠ o := by
      rintro rfl
      exact hm' ho'
    have hmw : m ≠ w := by
      rintro rfl
      exact absurd (hm.unique .zero) (Nat.succ_ne_zero k)
    have hfirst : net.firstHeard (sent σ (o, q)) m = some p := by
      refine find?_eq_of_imp hfind (decide_eq_true hpm) fun p' hp' hadj => ?_
      obtain ⟨j, hle, hj⟩ := level_le_succ hm (net.symm p'.1 m (of_decide_eq_true hadj))
      have := hleast p' hp' j hj
      obtain rfl : j = k + 2 := by omega
      exact decide_eq_true hj
    have hlive : 1 < p.2.timeToLive := by
      rcases httl with hcard | hlive
      · obtain ⟨i, hi⟩ := List.mem_iff_getElem?.mp hp
        have hlt : i < (sent σ (o, q)).length := (List.getElem?_eq_some_iff.mp hi).1
        have hhops := h.hops i p hi
        have hlen := h.length_add_two_le hmnodes hw hmw hm' hw'
        omega
      · exact hlive p hp
    have hqueued := h.relay_queues hmnodes hmo hfirst hlive hmpr hm'
    rw [hquiet.copies hmnodes] at hqueued
    cases hqueued

/-! ## The end of a flood -/

theorem exists_transmit {now : Time} {msg : MessageHeader} (hu : u ∈ net.nodes)
    (hnow : now ≤ horizon) (hmsg : msg ∈ ((σ.node u).view (o, q)).copies) :
    ∃ e σ', Step net (o, q) horizon σ e σ' ∧ sent σ' (o, q) = sent σ (o, q) ++ [(u, msg)] := by
  obtain ⟨hmem, hkey⟩ := List.mem_filter.mp hmsg
  obtain ⟨i, hi⟩ := List.mem_iff_getElem?.mp hmem
  refine ⟨.transmit u i now, net.transmit σ u i msg now, .transmit hu hnow hi, ?_⟩
  rw [sent_transmit, if_pos (of_decide_eq_true hkey)]

theorem FloodInv.length_le (h : FloodInv net states o q σ) :
    (sent σ (o, q)).length ≤ net.nodes.card := by
  classical
  have hsub : ((sent σ (o, q)).map Prod.fst).toFinset ⊆ net.nodes := by
    intro x hx
    obtain ⟨p, hp, rfl⟩ := List.mem_map.mp (List.mem_toFinset.mp hx)
    exact h.senders p hp
  have hcard := Finset.card_le_card hsub
  rw [List.toFinset_card_of_nodup h.nodup] at hcard
  simpa using hcard

/-- The flood comes to rest. -/
theorem FloodInv.exists_quiet (h : FloodInv net states o q σ)
    (hconv : Converged net horizon states) (ho : o ∈ net.nodes) :
    ∃ events σ', Run (Step net (o, q) horizon) σ events σ' ∧ Quiet net σ' (o, q) := by
  generalize hn : net.nodes.card - (sent σ (o, q)).length = n
  induction n generalizing σ with
  | zero =>
    refine ⟨[], σ, .nil, fun v hv msg hmsg hkey => ?_⟩
    obtain ⟨e, σ', hstep, hsent⟩ := exists_transmit hv (le_refl horizon)
      (List.mem_filter.mpr ⟨hmsg, decide_eq_true hkey⟩)
    have hle := (h.step hconv ho hstep).length_le
    rw [hsent, List.length_append, List.length_singleton] at hle
    omega
  | succ n ih =>
    by_cases hquiet : Quiet net σ (o, q)
    · exact ⟨[], σ, .nil, hquiet⟩
    rw [Quiet] at hquiet
    push Not at hquiet
    obtain ⟨v, hv, msg, hmsg, hkey⟩ := hquiet
    obtain ⟨e, σ', hstep, hsent⟩ := exists_transmit hv (le_refl horizon)
      (List.mem_filter.mpr ⟨hmsg, decide_eq_true hkey⟩)
    have hlen : net.nodes.card - (sent σ' (o, q)).length = n := by
      rw [hsent, List.length_append, List.length_singleton]
      omega
    obtain ⟨events, σ'', hrun, hquiet'⟩ := ih (h.step hconv ho hstep) hlen
    exact ⟨e :: events, σ'', .cons hstep hrun, hquiet'⟩

/-- **MPR flooding.** Each node queues and sends the message at most once. When no copy is queued,
every node has received it, if the network has at most 256 nodes or no copy was sent with a time to
live of one. -/
theorem run_floods (net : Network) (horizon : Time) (states : Ipv4Address → OlsrState)
    (hconv : Converged net horizon states) (hconn : net.Connected) (o : Ipv4Address)
    (ho : o ∈ net.nodes) (q : Nat) (σ σ' : State) (events : List Event)
    (hfresh : Fresh net states (o, q) σ)
    (hrun : Run (Step net (o, q) horizon) (queueMessage σ o (.newTc o q)) events σ') :
    (∀ v ∈ net.nodes, (σ'.node v).forwarded.count (o, q) ≤ 1) ∧
    ((sent σ' (o, q)).map Prod.fst).Nodup ∧
    (Quiet net σ' (o, q) →
      net.nodes.card ≤ 256 ∨ (∀ p ∈ sent σ' (o, q), 1 < p.2.timeToLive) →
      ∀ v ∈ net.nodes, v ≠ o → (o, q) ∈ (σ'.node v).received) := by
  have hinv : FloodInv net states o q σ' := .run hconv ho hfresh hrun
  refine ⟨fun v hv => hinv.forwards_le hv, hinv.nodup, fun hquiet httl v hv hne => ?_⟩
  exact hinv.received hv hne (hinv.covers hconv hconn ho hquiet httl hv hne)

end Network

/-! ## Every network has converged sets -/

namespace OlsrState

theorem mprComputation_congr (s : OlsrState) (mprs : Finset Ipv4Address)
    (selectors : List MprSelectorTuple) {mprSet : Finset Ipv4Address}
    (h : s.mprComputation = .ok { s with mprSet }) :
    ({ s with mprSet := mprs, mprSelectorSet := selectors }).mprComputation =
      .ok { s with mprSet, mprSelectorSet := selectors } := by
  let s' : OlsrState := { s with mprSet := mprs, mprSelectorSet := selectors }
  have hloop (N : List NeighborTuple) (fuel : Nat) (chosen : Finset Ipv4Address)
      (N2 : List TwoHopNeighborTuple) :
      s'.greedyLoop N fuel chosen N2 = s.greedyLoop N fuel chosen N2 := by
    induction fuel generalizing chosen N2 with
    | zero =>
      cases N2 with
      | nil => rfl
      | cons t rest => rfl
    | succ fuel ih =>
      cases N2 with
      | nil => rfl
      | cons t rest =>
        have hselect : s'.selectMax N (t :: rest) = s.selectMax N (t :: rest) := rfl
        simp only [greedyLoop, hselect, ih]
  have hcomputed (r : OlsrState) (hr : s.mprComputation = .ok r) :
      s'.mprComputation = .ok { s' with mprSet := r.mprSet } := by
    obtain ⟨result, hresult, rfl⟩ := bind_pure_eq_ok.mp hr
    exact bind_eq_ok.mpr ⟨result, (hloop ..).trans hresult, rfl⟩
  exact hcomputed _ h

end OlsrState

namespace Network

variable (net : Network) (horizon : Time) (u : Ipv4Address)

def neighborsOf : List Ipv4Address := (net.nodes.sort (· ≤ ·)).filter fun v => net.Adj u v

theorem mem_neighborsOf {net : Network} {u v : Ipv4Address} :
    v ∈ net.neighborsOf u ↔ net.Adj u v := by
  rw [neighborsOf, List.mem_filter, Finset.mem_sort, decide_eq_true_eq]
  exact and_iff_right_of_imp fun hadj => net.mem_of_adj v u (net.symm u v hadj)

/-- What a node knows of the nodes around it. -/
def localState : OlsrState where
  mainAddress := u
  linkSet := (net.neighborsOf u).map fun v => ⟨u, v, horizon + 1, horizon + 1, horizon + 1⟩
  neighborSet := (net.neighborsOf u).map fun v => ⟨v, .sym, 3⟩
  twoHopNeighborSet := (net.neighborsOf u).flatMap fun v =>
    ((net.neighborsOf v).filter fun w => w ≠ u).map fun w => ⟨v, w, horizon + 1⟩
  topologySet := []
  mprSet := ∅
  mprSelectorSet := []
  duplicateSet := []
  ifaceAssocSet := []

def relaysOf : Finset Ipv4Address :=
  match (net.localState horizon u).mprComputation with
  | .ok s => s.mprSet
  | .error _ => ∅

/-- The sets of a node, its relays and its selectors among them. -/
def convergedState : OlsrState :=
  { net.localState horizon u with
    mprSet := net.relaysOf horizon u
    mprSelectorSet := ((net.neighborsOf u).filter fun v => u ∈ net.relaysOf horizon v).map
      fun v => ⟨v, horizon + 1⟩ }

theorem mprComputation_localState : (net.localState horizon u).mprComputation =
    .ok { net.localState horizon u with mprSet := net.relaysOf horizon u } := by
  obtain ⟨mprSet, heq, -⟩ := (net.localState horizon u).mprComputation_covers_iff
  have hrelays : net.relaysOf horizon u = mprSet := by
    rw [relaysOf, heq]
  rw [hrelays, heq]

theorem findSymLinkTuple_localState {net : Network} {horizon now : Time} {u v : Ipv4Address}
    (hadj : net.Adj u v) (hnow : now ≤ horizon) :
    ((net.localState horizon u).findSymLinkTuple v now).isSome := by
  let links : List LinkTuple :=
    (net.neighborsOf u).map fun v => ⟨u, v, horizon + 1, horizon + 1, horizon + 1⟩
  have hsome : (links.find? fun it => it.neighborIfaceAddr = v).isSome :=
    List.find?_isSome.mpr
      ⟨_, List.mem_map_of_mem (mem_neighborsOf.mpr hadj), decide_eq_true rfl⟩
  obtain ⟨it, hit⟩ := Option.isSome_iff_exists.mp hsome
  obtain ⟨w, -, rfl⟩ := List.mem_map.mp (List.mem_of_find?_eq_some hit)
  have hlate : now < horizon + 1 := Int.lt_add_one_of_le hnow
  show ((links.find? fun it => it.neighborIfaceAddr = v).filter fun it => it.symTime > now).isSome
  rw [hit, Option.filter_some, if_pos (decide_eq_true hlate)]
  rfl

theorem converged_convergedState : Converged net horizon (net.convergedState horizon) where
  main _ _ := rfl
  noAssoc _ _ := rfl
  links _ _ hadj _ hnow := findSymLinkTuple_localState hadj hnow
  neighbors := by
    intro u hu v
    rw [← mem_neighborsOf]
    constructor
    · rintro ⟨n, hn, rfl, -⟩
      obtain ⟨w, hw, rfl⟩ := List.mem_map.mp hn
      exact hw
    · intro hv
      exact ⟨⟨v, .sym, 3⟩, List.mem_map_of_mem hv, rfl, rfl⟩
  willing := by
    intro u hu n hn
    obtain ⟨w, -, rfl⟩ := List.mem_map.mp hn
    exact fun h => by cases h
  twoHops := by
    intro u hu v w
    constructor
    · rintro ⟨t, ht, rfl, rfl⟩
      obtain ⟨v, hv, ht⟩ := List.mem_flatMap.mp ht
      obtain ⟨w, hw, rfl⟩ := List.mem_map.mp ht
      obtain ⟨hw, hwu⟩ := List.mem_filter.mp hw
      exact ⟨mem_neighborsOf.mp hv, mem_neighborsOf.mp hw, of_decide_eq_true hwu⟩
    · rintro ⟨huv, hvw, hwu⟩
      refine ⟨⟨v, w, horizon + 1⟩, ?_, rfl, rfl⟩
      refine List.mem_flatMap.mpr ⟨v, mem_neighborsOf.mpr huv, List.mem_map.mpr ⟨w, ?_, rfl⟩⟩
      exact List.mem_filter.mpr ⟨mem_neighborsOf.mpr hvw, decide_eq_true hwu⟩
  mprs _ _ := OlsrState.mprComputation_congr _ _ _ (net.mprComputation_localState horizon _)
  selectors := by
    intro u hu v
    rw [← mem_neighborsOf]
    constructor
    · rintro ⟨t, ht, rfl⟩
      obtain ⟨w, hw, rfl⟩ := List.mem_map.mp ht
      obtain ⟨hw, hmpr⟩ := List.mem_filter.mp hw
      exact ⟨hw, of_decide_eq_true hmpr⟩
    · rintro ⟨hv, hmpr⟩
      refine ⟨⟨v, horizon + 1⟩, List.mem_map.mpr ⟨v, ?_, rfl⟩, rfl⟩
      exact List.mem_filter.mpr ⟨hv, decide_eq_true hmpr⟩

/-- The nodes have their converged sets, and there are no messages. -/
def idle : State where
  node := fun u => ⟨net.convergedState horizon u, [], [], []⟩
  log := []

theorem fresh_idle (κ : Ipv4Address × Nat) :
    Fresh net (net.convergedState horizon) κ (net.idle horizon) :=
  ⟨fun _ _ => rfl, fun _ => rfl, rfl⟩

/-! ## Three nodes in a line -/

def LineAdj (u v : Nat) : Prop := (v = u + 1 ∧ v < 3) ∨ (u = v + 1 ∧ u < 3)

def line : Network where
  nodes := Finset.range 3
  Adj := LineAdj
  decidableAdj := fun (u v : Nat) => by
    unfold LineAdj
    infer_instance
  symm u v h := by
    unfold LineAdj at h ⊢
    omega
  irrefl u h := by
    unfold LineAdj at h
    omega
  mem_of_adj u v h := by
    unfold LineAdj at h
    have hlt : @LT.lt Nat _ u 3 := by omega
    exact Finset.mem_range.mpr hlt

theorem connected_line : line.Connected := by
  have hedge (u v : Nat) (h : LineAdj u v) : Walk (UnitEdge line.Adj) u v 1 := .single h
  have hthree (v : Nat) (hv : v < 3) : v = 0 ∨ v = 1 ∨ v = 2 := by omega
  intro u hu v hv
  have hmiddle : ∃ d, Walk (UnitEdge line.Adj) 1 v d := by
    rcases hthree v (Finset.mem_range.mp hv) with rfl | rfl | rfl
    · exact ⟨1, hedge 1 0 (by unfold LineAdj; omega)⟩
    · exact ⟨0, .nil⟩
    · exact ⟨1, hedge 1 2 (by unfold LineAdj; omega)⟩
  obtain ⟨d, hd⟩ := hmiddle
  rcases hthree u (Finset.mem_range.mp hu) with rfl | rfl | rfl
  · exact ⟨1 + d, (hedge 0 1 (by unfold LineAdj; omega)).append hd⟩
  · exact ⟨d, hd⟩
  · exact ⟨1 + d, (hedge 2 1 (by unfold LineAdj; omega)).append hd⟩

/-- A flood from one end of the line to the other. -/
theorem run_floods_line : ∃ (events : List Event) (σ' : State),
    Run (Step line (0, 0) 0) (queueMessage (line.idle 0) 0 (.newTc 0 0)) events σ' ∧
      (0, 0) ∈ (σ'.node 2).received := by
  have hconv := converged_convergedState line 0
  have hfresh := fresh_idle line 0 (0, 0)
  have hzero : 0 ∈ line.nodes := Finset.mem_range.mpr (by decide)
  obtain ⟨events, σ', hrun, hquiet⟩ := (Fresh.originate hfresh).exists_quiet hconv hzero
  obtain ⟨-, -, hreach⟩ :=
    run_floods line 0 _ hconv connected_line 0 hzero 0 _ σ' events hfresh hrun
  exact ⟨events, σ', hrun, hreach hquiet (.inl (by decide)) 2 (Finset.mem_range.mpr (by decide))
    (by decide)⟩

end Network

end Olsr

end Ns3
