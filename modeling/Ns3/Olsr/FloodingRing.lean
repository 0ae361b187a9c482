/-
  A network in which the time to live runs out.

  The nodes 0, ..., 256 form a ring, and node 257 hears node 255 only.  When the message
  goes around the ring from 0 to 254 before node 256 sends its copy, node 255 hears it first
  with a time to live of one.
-/
import Ns3.Olsr.FloodingCoverage

namespace Ns3

namespace Olsr

open Lib

namespace Network

def RingAdj (u v : Nat) : Prop :=
  (u < 257 ∧ v < 257 ∧ (v = u + 1 ∨ u = v + 1 ∨ (u = 0 ∧ v = 256) ∨ (u = 256 ∧ v = 0))) ∨
    (u = 255 ∧ v = 257) ∨ (u = 257 ∧ v = 255)

instance : DecidableRel RingAdj := fun (u v : Nat) => by
  unfold RingAdj
  infer_instance

def ring : Network where
  nodes := Finset.range 258
  Adj := RingAdj
  symm u v h := by
    unfold RingAdj at h ⊢
    omega
  irrefl u h := by
    unfold RingAdj at h
    omega
  mem_of_adj u v h := by
    unfold RingAdj at h
    have hlt : @LT.lt Nat _ u 258 := by omega
    exact Finset.mem_range.mpr hlt

theorem ring_adj {u v : Nat} : ring.Adj u v ↔ RingAdj u v := Iff.rfl

/-! ## How far the nodes are apart -/

variable {u : Nat}

theorem walk_up (k : Nat) (h : u + k < 257) : Walk (UnitEdge ring.Adj) u (u + k) k := by
  induction k with
  | zero => exact .nil
  | succ k ih =>
    refine .snoc (ih (by omega)) ⟨rfl, ring_adj.mpr ?_⟩
    unfold RingAdj
    omega

theorem walk_down (k : Nat) (h : u + k < 257) : Walk (UnitEdge ring.Adj) (u + k) u k := by
  induction k generalizing u with
  | zero => exact .nil
  | succ k ih =>
    have hwalk : Walk (UnitEdge ring.Adj) (u + 1 + k) (u + 1) k := ih (by omega)
    rw [show u + 1 + k = u + (k + 1) by omega] at hwalk
    refine .snoc hwalk ⟨rfl, ring_adj.mpr ?_⟩
    unfold RingAdj
    omega

theorem walk_ring {v : Nat} (hu : u < 257) (hv : v < 257) :
    ∃ d ≤ 253, Walk (UnitEdge ring.Adj) u v d := by
  have hwrap : Walk (UnitEdge ring.Adj) 0 256 1 := .single (ring_adj.mpr (by unfold RingAdj; omega))
  have hwrap' : Walk (UnitEdge ring.Adj) 256 0 1 :=
    .single (ring_adj.mpr (by unfold RingAdj; omega))
  rcases Nat.le_total u v with hle | hle
  · obtain ⟨k, rfl⟩ := Nat.exists_eq_add_of_le hle
    by_cases hk : k ≤ 253
    · exact ⟨k, hk, walk_up k hv⟩
    · obtain ⟨j, hj⟩ := Nat.exists_eq_add_of_le (Nat.le_of_lt_succ hv)
      have hfirst := walk_down (u := 0) u (by omega)
      have hlast := walk_down (u := u + k) j (by omega)
      rw [Nat.zero_add] at hfirst
      rw [← hj] at hlast
      exact ⟨u + 1 + j, by omega, (hfirst.append hwrap).append hlast⟩
  · obtain ⟨k, rfl⟩ := Nat.exists_eq_add_of_le hle
    by_cases hk : k ≤ 253
    · exact ⟨k, hk, walk_down k hu⟩
    · obtain ⟨j, hj⟩ := Nat.exists_eq_add_of_le (Nat.le_of_lt_succ hu)
      have hfirst := walk_up (u := v + k) j (by omega)
      have hlast := walk_up (u := 0) v (by omega)
      rw [Nat.zero_add] at hlast
      rw [← hj] at hfirst
      exact ⟨j + 1 + v, by omega, (hfirst.append hwrap').append hlast⟩

theorem diameter_ring : ring.DiameterLE 254 := by
  have hout : Walk (UnitEdge ring.Adj) 255 257 1 :=
    .single (ring_adj.mpr (by unfold RingAdj; omega))
  have hin : Walk (UnitEdge ring.Adj) 257 255 1 := .single (ring_adj.mpr (by unfold RingAdj; omega))
  intro u hu v hv
  change Nat at u v
  have hu : u < 258 := Finset.mem_range.mp hu
  have hv : v < 258 := Finset.mem_range.mp hv
  by_cases hu' : u = 257
  · subst hu'
    by_cases hv' : v = 257
    · subst hv'
      exact ⟨0, Nat.zero_le _, .nil⟩
    · obtain ⟨d, hd, hwalk⟩ := walk_ring (u := 255) (v := v) (by omega) (by omega)
      exact ⟨1 + d, by omega, hin.append hwalk⟩
  · by_cases hv' : v = 257
    · subst hv'
      obtain ⟨d, hd, hwalk⟩ := walk_ring (u := u) (v := 255) (by omega) (by omega)
      exact ⟨d + 1, by omega, hwalk.append hout⟩
    · obtain ⟨d, hd, hwalk⟩ := walk_ring (u := u) (v := v) (by omega) (by omega)
      exact ⟨d, by omega, hwalk⟩

theorem DiameterLE.connected {net : Network} {k : Nat} (h : net.DiameterLE k) : net.Connected := by
  intro u hu v hv
  obtain ⟨d, -, hwalk⟩ := h u hu v hv
  exact ⟨d, hwalk⟩

/-! ## Around the ring -/

section Clockwise

variable {states : Ipv4Address → OlsrState} {σ : State} {horizon : Time}

def hop (q k : Nat) : MessageHeader := MessageHeader.relayed^[k] (.newTc 0 q)

theorem hop_succ (q k : Nat) : hop q (k + 1) = (hop q k).relayed :=
  Function.iterate_succ_apply' ..

theorem timeToLive_hop (q k : Nat) : (hop q k).timeToLive = 255 - k := by
  induction k with
  | zero => rfl
  | succ k ih =>
    rw [hop_succ]
    show (hop q k).timeToLive - 1 = 255 - (k + 1)
    omega

/-- The nodes 0, ..., `k` - 1 have sent in this order. -/
def clockwise (q k : Nat) : List (Ipv4Address × MessageHeader) :=
  (List.range k).map fun j => (j, hop q j)

theorem clockwise_succ (q k : Nat) : clockwise q (k + 1) = clockwise q k ++ [(k, hop q k)] := by
  rw [clockwise, List.range_succ, List.map_append]
  rfl

variable {q k : Nat}

theorem mem_clockwise : u ∈ (clockwise q k).map Prod.fst ↔ u < k := by
  simp [clockwise]

theorem firstHeard_clockwise_none {v : Nat} (h : ∀ u < k, ¬RingAdj u v) :
    ring.firstHeard (clockwise q k) v = none := by
  refine List.find?_eq_none.mpr fun p hp => ?_
  have hlt : p.1 < k := mem_clockwise.mp (List.mem_map_of_mem hp)
  rw [decide_eq_true_eq]
  exact h p.1 hlt

theorem firstHeard_clockwise (h : k < 255) :
    ring.firstHeard (clockwise q (k + 1)) (k + 1) = some (k, hop q k) := by
  have hnone : ring.firstHeard (clockwise q k) (k + 1) = none := by
    refine firstHeard_clockwise_none fun u hu hadj => ?_
    unfold RingAdj at hadj
    omega
  have hadj : ring.Adj k (k + 1) := ring_adj.mpr (by unfold RingAdj; omega)
  rw [clockwise_succ, firstHeard_concat, hnone, if_pos hadj]
  rfl

theorem relay_ring (hconv : Converged ring horizon states) {w x : Nat}
    (huw : RingAdj u w) (hwx : RingAdj w x) (hxu : x ≠ u) (hux : ¬RingAdj u x)
    (honly : ∀ m, RingAdj u m → RingAdj m x → m = w) : w ∈ (states u).mprSet := by
  obtain ⟨m, hm, hum, hmx⟩ := hconv.exists_relay huw hwx hxu hux
  exact honly m hum hmx ▸ hm

theorem run_clockwise (hconv : Converged ring 0 states) (hfresh : Fresh ring states (0, q) σ)
    (k : Nat) (hk : k ≤ 255) :
    ∃ events σ', Run (Step ring (0, q) 0) (queueMessage σ 0 (.newTc 0 q)) events σ' ∧
      sent σ' (0, q) = clockwise q k := by
  have hzero : 0 ∈ ring.nodes := Finset.mem_range.mpr (by omega)
  induction k with
  | zero => exact ⟨[], _, .nil, hfresh.unsent⟩
  | succ k ih =>
    obtain ⟨events, σ', hrun, hsent⟩ := ih (by omega)
    have hinv : FloodInv ring states 0 q σ' := .run hconv hzero hfresh hrun
    have hnodes : k ∈ ring.nodes := Finset.mem_range.mpr (by omega)
    have hcopy : hop q k ∈ ((σ'.node k).view (0, q)).copies := by
      cases k with
      | zero =>
        rw [hinv.origin, hsent]
        exact List.mem_singleton_self _
      | succ k =>
        have hfirst : ring.firstHeard (sent σ' (0, q)) (k + 1) = some (k, hop q k) := by
          rw [hsent]
          exact firstHeard_clockwise (by omega)
        have hmpr : k + 1 ∈ (states k).mprSet := by
          refine relay_ring hconv (x := k + 2) ?_ ?_ ?_ ?_ fun m hm hm' => ?_
          all_goals unfold RingAdj at *
          all_goals omega
        have hnot : k + 1 ∉ (sent σ' (0, q)).map Prod.fst := by
          rw [hsent, mem_clockwise]
          exact Nat.lt_irrefl _
        rw [hinv.relay_queues hnodes (Nat.succ_ne_zero k) hfirst
          (by rw [timeToLive_hop]; omega) hmpr hnot, hop_succ]
        exact List.mem_singleton_self _
    obtain ⟨e, σ'', hstep, hsent'⟩ := @exists_transmit _ _ _ _ _ _ 0 _ hnodes le_rfl hcopy
    refine ⟨events ++ [e], σ'', .snoc hrun hstep, ?_⟩
    rw [hsent', hsent, clockwise_succ]

/-- The message goes clockwise until its time to live is used up. -/
theorem run_around (hconv : Converged ring 0 states) (hfresh : Fresh ring states (0, q) σ) :
    ∃ events σ', Run (Step ring (0, q) 0) (queueMessage σ 0 (.newTc 0 q)) events σ' ∧
      sent σ' (0, q) = clockwise q 255 ++ [(256, hop q 1)] := by
  have hzero : 0 ∈ ring.nodes := Finset.mem_range.mpr (by omega)
  obtain ⟨events, σ', hrun, hsent⟩ := run_clockwise hconv hfresh 255 le_rfl
  have hinv : FloodInv ring states 0 q σ' := .run hconv hzero hfresh hrun
  have hnodes : 256 ∈ ring.nodes := Finset.mem_range.mpr (by omega)
  have hfirst : ring.firstHeard (sent σ' (0, q)) 256 = some (0, hop q 0) := by
    have hcons : clockwise q 255 =
        (0, hop q 0) :: (List.range 254).map fun j => (j + 1, hop q (j + 1)) := by
      rw [clockwise, List.range_succ_eq_map, List.map_cons, List.map_map]
      rfl
    rw [hsent, hcons, firstHeard, List.find?_cons_of_pos]
    exact decide_eq_true (ring_adj.mpr (by unfold RingAdj; omega))
  have hmpr : 256 ∈ (states 0).mprSet := by
    refine relay_ring hconv (x := 255) ?_ ?_ ?_ ?_ fun m hm hm' => ?_
    all_goals unfold RingAdj at *
    all_goals omega
  have hnot : 256 ∉ (sent σ' (0, q)).map Prod.fst := by
    rw [hsent, mem_clockwise]
    omega
  have hcopy : hop q 1 ∈ ((σ'.node 256).view (0, q)).copies := by
    rw [hinv.relay_queues hnodes (by decide) hfirst (by rw [timeToLive_hop]; omega) hmpr hnot]
    exact List.mem_singleton_self _
  obtain ⟨e, σ'', hstep, hsent'⟩ := @exists_transmit _ _ _ _ _ _ 0 _ hnodes le_rfl hcopy
  exact ⟨events ++ [e], σ'', .snoc hrun hstep, by rw [hsent', hsent]⟩

theorem quiet_around (hinv : FloodInv ring states 0 q σ)
    (hsent : sent σ (0, q) = clockwise q 255 ++ [(256, hop q 1)]) :
    Quiet ring σ (0, q) ∧ (0, q) ∉ (σ.node 257).received := by
  have hmem (v : Ipv4Address) : v ∈ (sent σ (0, q)).map Prod.fst ↔ v < 255 ∨ v = 256 := by
    rw [hsent, List.map_append, List.mem_append, mem_clockwise]
    simp
  have hnone : ring.firstHeard (sent σ (0, q)) 257 = none := by
    rw [hsent, firstHeard_concat, firstHeard_clockwise_none, if_neg]
    · rfl
    · exact fun hadj => by unfold ring RingAdj at hadj; omega
    · exact fun u hu hadj => by unfold RingAdj at hadj; omega
  have hfirst : ring.firstHeard (sent σ (0, q)) 255 = some (254, hop q 254) := by
    rw [hsent, firstHeard_concat, firstHeard_clockwise (k := 254) (by omega)]
    rfl
  refine ⟨fun v hv msg hmsg hkey => ?_, fun hin => ?_⟩
  · have hcopy : msg ∈ ((σ.node v).view (0, q)).copies :=
      List.mem_filter.mpr ⟨hmsg, decide_eq_true hkey⟩
    by_cases hzero : v = 0
    · subst hzero
      exact (hinv.copies_origin hcopy).1 ((hmem 0).mpr (.inl (Nat.zero_lt_succ _)))
    · obtain ⟨p, hp, httl, -, hnot, -⟩ := hinv.copies_other hv hzero hcopy
      rw [hmem] at hnot
      have hlast (v : Nat) (hlt : v < 258) (hnot : ¬(v < 255 ∨ v = 256)) : v = 255 ∨ v = 257 := by
        omega
      rcases hlast v (Finset.mem_range.mp hv) hnot with rfl | rfl
      · rw [hfirst] at hp
        rw [← Option.some.inj hp] at httl
        change 1 < (hop q 254).timeToLive at httl
        rw [timeToLive_hop] at httl
        omega
      · rw [hnone] at hp
        cases hp
  · have hstands := hinv.stands 257 (Finset.mem_range.mpr (by omega)) (by decide)
    rw [Stands, hnone] at hstands
    have hcontains : (σ.node 257).received.contains (0, q) = false :=
      congrArg FloodView.received hstands.1
    rw [List.contains_eq_mem, decide_eq_false_iff_not] at hcontains
    exact hcontains hin

end Clockwise

/-- On the ring a node does not receive the message, although the diameter is below 255. -/
theorem not_run_floods : ¬∀ (net : Network) (horizon : Time) (states : Ipv4Address → OlsrState),
    Converged net horizon states → net.Connected → net.DiameterLE 254 →
    ∀ o ∈ net.nodes, ∀ (q : Nat) (σ σ' : State) (events : List Event),
      Fresh net states (o, q) σ →
      Run (Step net (o, q) horizon) (queueMessage σ o (.newTc o q)) events σ' →
      (∀ v ∈ net.nodes, (σ'.node v).forwarded.count (o, q) ≤ 1) ∧
      (Quiet net σ' (o, q) → ∀ v ∈ net.nodes, v ≠ o → (o, q) ∈ (σ'.node v).received) := by
  intro h
  have hzero : 0 ∈ ring.nodes := Finset.mem_range.mpr (by omega)
  have hconv := converged_convergedState ring 0
  have hfresh := fresh_idle ring 0 (0, 0)
  obtain ⟨events, σ', hrun, hsent⟩ := run_around hconv hfresh
  obtain ⟨hquiet, hnot⟩ := quiet_around (.run hconv hzero hfresh hrun) hsent
  exact hnot ((h ring 0 _ hconv diameter_ring.connected diameter_ring 0 hzero 0 _ σ' events hfresh
    hrun).2 hquiet 257 (Finset.mem_range.mpr (by omega)) (by decide))

end Network

end Olsr

end Ns3
