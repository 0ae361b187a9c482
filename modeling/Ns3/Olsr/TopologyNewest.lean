/-
  When the topology set says what the newest TC message said.

  The numbers of tuples and messages are compared as 16-bit numbers, not around the circle.  So
  a message after a wrap is taken for an old one while tuples from before the wrap are held, and
  an old message from before the wrap for a new one.  A message under the same number does not
  replace what is held, and the originator loses an MPR selector without incrementing.
-/
import Ns3.Olsr.TopologySet

namespace Ns3

namespace Olsr

open Lib TcSystem

variable {o o' : Ipv4Address} {set : List TopologyTuple} {held : List (Ipv4Address × Nat)}
  {destAddr lastAddr a : Ipv4Address} {ansn : Nat} {time : Time}

/-! ## What is held of an originator -/

/-- A neighbor is recorded under a number, unless it is held already. -/
def recordOne (ansn : Nat) (held : List (Ipv4Address × Nat)) (a : Ipv4Address) :
    List (Ipv4Address × Nat) :=
  if a ∈ held.map Prod.fst then held else held ++ [(a, ansn)]

def recordAll (ansn : Nat) (held : List (Ipv4Address × Nat)) (neighbors : List Ipv4Address) :
    List (Ipv4Address × Nat) :=
  neighbors.foldl (recordOne ansn) held

theorem recordAll_cons (neighbors : List Ipv4Address) :
    recordAll ansn held (a :: neighbors) = recordAll ansn (recordOne ansn held a) neighbors := rfl

theorem heldOf_refresh :
    heldOf o (refreshTopologyTuple destAddr lastAddr time set) = heldOf o set := by
  induction set with
  | nil => rfl
  | cons it rest ih =>
    rw [refreshTopologyTuple]
    rw [heldOf, heldOf] at ih
    split
    · rw [heldOf, heldOf, List.filter_cons, List.filter_cons]
      split
      · rfl
      · rfl
    · rw [heldOf, heldOf, List.filter_cons, List.filter_cons]
      split
      · rw [List.map_cons, List.map_cons, ih]
      · exact ih

theorem find_eq_none : findTopologyTuple set a o = none ↔ a ∉ (heldOf o set).map Prod.fst := by
  rw [findTopologyTuple, List.find?_eq_none, heldOf, List.map_map]
  constructor
  · intro h hin
    obtain ⟨it, hit, rfl⟩ := List.mem_map.mp hin
    obtain ⟨hmem, hlast⟩ := List.mem_filter.mp hit
    exact h it hmem (decide_eq_true ⟨rfl, of_decide_eq_true hlast⟩)
  · intro h it hmem hfound
    obtain ⟨hdest, hlast⟩ := of_decide_eq_true hfound
    exact h (List.mem_map.mpr ⟨it, List.mem_filter.mpr ⟨hmem, decide_eq_true hlast⟩, hdest⟩)

theorem heldOf_record (set : List TopologyTuple) (a : Ipv4Address) :
    heldOf o (recordNeighbor o ansn time set a) = recordOne ansn (heldOf o set) a := by
  rw [recordNeighbor, recordOne]
  cases hfind : findTopologyTuple set a o with
  | none =>
    rw [if_neg (find_eq_none.mp hfind)]
    simp [heldOf, List.filter_append]
  | some tuple =>
    have hin : a ∈ (heldOf o set).map Prod.fst := by
      by_contra hnot
      rw [find_eq_none.mpr hnot] at hfind
      cases hfind
    rw [if_pos hin]
    exact heldOf_refresh

theorem heldOf_record_other (hne : o' ≠ o) :
    heldOf o (recordNeighbor o' ansn time set a) = heldOf o set := by
  rw [recordNeighbor]
  cases findTopologyTuple set a o' with
  | none => simp [heldOf, List.filter_append, hne]
  | some tuple => exact heldOf_refresh

theorem heldOf_recordAll (neighbors : List Ipv4Address) :
    heldOf o (neighbors.foldl (recordNeighbor o ansn time) set) =
      recordAll ansn (heldOf o set) neighbors := by
  induction neighbors generalizing set with
  | nil => rfl
  | cons a neighbors ih =>
    rw [List.foldl_cons, ih, heldOf_record]
    rfl

theorem heldOf_recordAll_other (hne : o' ≠ o) (neighbors : List Ipv4Address) :
    heldOf o (neighbors.foldl (recordNeighbor o' ansn time) set) = heldOf o set := by
  induction neighbors generalizing set with
  | nil => rfl
  | cons a neighbors ih => rw [List.foldl_cons, ih, heldOf_record_other hne]

theorem heldOf_eraseOlder :
    heldOf o (eraseOlderTopologyTuples set o ansn) =
      (heldOf o set).filter fun p => ¬p.2 < ansn := by
  rw [heldOf, heldOf, eraseOlderTopologyTuples, List.filter_map, List.filter_filter,
    List.filter_filter]
  congr 1
  refine List.filter_congr fun it _ => ?_
  by_cases hlast : it.lastAddr = o
  · simp [hlast]
  · simp [hlast]

theorem heldOf_eraseOlder_other (hne : o' ≠ o) :
    heldOf o (eraseOlderTopologyTuples set o' ansn) = heldOf o set := by
  rw [heldOf, heldOf, eraseOlderTopologyTuples, List.filter_filter]
  congr 1
  refine List.filter_congr fun it _ => ?_
  by_cases hlast : it.lastAddr = o
  · simp [hlast, hne.symm]
  · simp [hlast]

theorem findNewer_eq_none :
    findNewerTopologyTuple set o ansn = none ↔ ∀ p ∈ heldOf o set, p.2 ≤ ansn := by
  rw [findNewerTopologyTuple, List.find?_eq_none]
  constructor
  · intro h p hp
    obtain ⟨it, hit, rfl⟩ := List.mem_map.mp hp
    obtain ⟨hmem, hlast⟩ := List.mem_filter.mp hit
    have hnot := h it hmem
    rw [decide_eq_true_eq, not_and, Nat.not_lt] at hnot
    exact hnot (of_decide_eq_true hlast)
  · intro h it hmem hfound
    obtain ⟨hlast, hnewer⟩ := of_decide_eq_true hfound
    have hin : (it.destAddr, it.sequenceNumber) ∈ heldOf o set :=
      List.mem_map.mpr ⟨it, List.mem_filter.mpr ⟨hmem, decide_eq_true hlast⟩, rfl⟩
    exact absurd (h _ hin) (Nat.not_le.mpr hnewer)

theorem heldOf_erase_sublist (tuple : TopologyTuple) :
    List.Sublist (heldOf o (eraseTopologyTuple set tuple)) (heldOf o set) :=
  ((List.eraseP_sublist).filter _).map _

/-! ## Recording -/

variable {neighbors : List Ipv4Address}

theorem mem_recordAll {p : Ipv4Address × Nat} :
    p ∈ recordAll ansn held neighbors ↔
      p ∈ held ∨ (p.2 = ansn ∧ p.1 ∈ neighbors ∧ p.1 ∉ held.map Prod.fst) := by
  induction neighbors generalizing held with
  | nil => simp [recordAll]
  | cons a neighbors ih =>
    rw [recordAll_cons, ih]
    by_cases hin : a ∈ held.map Prod.fst
    · rw [recordOne, if_pos hin]
      refine or_congr_right (and_congr_right fun _ => ?_)
      constructor
      · exact fun h => ⟨List.mem_cons_of_mem a h.1, h.2⟩
      · rintro ⟨hp, hnot⟩
        rcases List.mem_cons.mp hp with heq | hp
        · exact absurd (heq ▸ hin) hnot
        · exact ⟨hp, hnot⟩
    · rw [recordOne, if_neg hin, List.mem_append, List.mem_singleton, List.map_append,
        List.mem_append]
      have hsingle : p.1 ∈ [(a, ansn)].map Prod.fst ↔ p.1 = a := List.mem_singleton
      rw [hsingle]
      constructor
      · rintro ((hp | rfl) | ⟨hq, hp, hnot⟩)
        · exact .inl hp
        · exact .inr ⟨rfl, .head _, hin⟩
        · exact .inr ⟨hq, List.mem_cons_of_mem a hp, fun h => hnot (.inl h)⟩
      · rintro (hp | ⟨hq, hp, hnot⟩)
        · exact .inl (.inl hp)
        · by_cases hpa : p.1 = a
          · exact .inl (.inr (Prod.ext hpa hq))
          · refine .inr ⟨hq, (List.mem_cons.mp hp).resolve_left hpa, ?_⟩
            exact fun h => h.elim hnot hpa

theorem mem_dests_recordAll :
    a ∈ (recordAll ansn held neighbors).map Prod.fst ↔
      a ∈ held.map Prod.fst ∨ a ∈ neighbors := by
  constructor
  · intro h
    obtain ⟨p, hp, rfl⟩ := List.mem_map.mp h
    rcases mem_recordAll.mp hp with hp | ⟨-, hp, -⟩
    · exact .inl (List.mem_map_of_mem hp)
    · exact .inr hp
  · intro h
    by_cases hin : a ∈ held.map Prod.fst
    · obtain ⟨p, hp, rfl⟩ := List.mem_map.mp hin
      exact List.mem_map_of_mem (mem_recordAll.mpr (.inl hp))
    · have hnew : (a, ansn) ∈ recordAll ansn held neighbors :=
        mem_recordAll.mpr (.inr ⟨rfl, h.resolve_left hin, hin⟩)
      exact List.mem_map_of_mem hnew

theorem nodup_recordAll (h : (held.map Prod.fst).Nodup) :
    ((recordAll ansn held neighbors).map Prod.fst).Nodup := by
  induction neighbors generalizing held with
  | nil => exact h
  | cons a neighbors ih =>
    rw [recordAll_cons]
    refine ih ?_
    rw [recordOne]
    split
    · exact h
    · rename_i hnot
      rw [List.map_append]
      refine List.Nodup.append h (List.nodup_singleton a) ?_
      intro b hb hb'
      rw [List.map_cons, List.map_nil, List.mem_singleton] at hb'
      have hba : b = a := hb'
      exact hnot (hba ▸ hb)

theorem recordAll_of_held (h : ∀ a ∈ neighbors, a ∈ held.map Prod.fst) :
    recordAll ansn held neighbors = held := by
  induction neighbors with
  | nil => rfl
  | cons a neighbors ih =>
    rw [recordAll_cons, recordOne, if_pos (h a (.head _))]
    exact ih fun b hb => h b (.tail _ hb)

/-! ## ProcessTc -/

/-- What is held of the originator after one of its messages from a symmetric neighbor. -/
def heldAfter (held : List (Ipv4Address × Nat)) (tc : SentTc) : List (Ipv4Address × Nat) :=
  if ∀ p ∈ held, p.2 ≤ tc.ansn then
    recordAll tc.ansn (held.filter fun p => ¬p.2 < tc.ansn) tc.neighborAddresses
  else held

variable {s : OlsrState} {senderIface : Ipv4Address} {now : Time}

theorem heldOf_processTc (tc : SentTc) (vTime : Time)
    (hsym : (s.findSymLinkTuple senderIface now).isSome) :
    heldOf o (s.processTc (messageAt o tc vTime) senderIface now).topologySet =
      heldAfter (heldOf o s.topologySet) tc := by
  obtain ⟨link, hlink⟩ := Option.isSome_iff_exists.mp hsym
  rw [OlsrState.processTc, hlink]
  cases hnewer : findNewerTopologyTuple s.topologySet o tc.ansn with
  | none =>
    rw [heldAfter, if_pos (findNewer_eq_none.mp hnewer)]
    simp only [messageAt, hnewer]
    rw [heldOf_recordAll, heldOf_eraseOlder]
  | some tuple =>
    have hnot : ¬∀ p ∈ heldOf o s.topologySet, p.2 ≤ tc.ansn := by
      intro hall
      rw [findNewer_eq_none.mpr hall] at hnewer
      cases hnewer
    rw [heldAfter, if_neg hnot]
    simp only [messageAt, hnewer]

theorem heldOf_processTc_other {msg : TcMessage} (hne : msg.originator ≠ o) :
    heldOf o (s.processTc msg senderIface now).topologySet = heldOf o s.topologySet := by
  rw [OlsrState.processTc]
  split
  · rfl
  split
  · rfl
  · exact (heldOf_recordAll_other hne _).trans (heldOf_eraseOlder_other hne)

theorem heldOf_expire_sublist :
    List.Sublist (heldOf o (s.topologyTupleTimerExpire destAddr lastAddr now).topologySet)
      (heldOf o s.topologySet) := by
  rw [OlsrState.topologyTupleTimerExpire]
  split
  · exact .refl _
  split
  · exact heldOf_erase_sublist _
  · exact .refl _

/-! ## The originator -/

/-- The numbers of the messages are the counts modulo 2^16, and the counts do not fall. -/
structure SentOk (σ : TcSystem) : Prop where
  ansn : σ.originator.ansn = (OLSR_MAX_SEQ_NUM + σ.originator.increments) % 2 ^ 16
  sent : ∀ tc ∈ σ.sent, tc.ansn = (OLSR_MAX_SEQ_NUM + tc.increments) % 2 ^ 16 ∧
    tc.increments ≤ σ.originator.increments
  sorted : σ.sent.Pairwise fun tc tc' => tc.increments ≤ tc'.increments

theorem incrementAnsn_ansn {origin : Originator}
    (h : origin.ansn = (OLSR_MAX_SEQ_NUM + origin.increments) % 2 ^ 16) :
    origin.incrementAnsn.ansn =
      (OLSR_MAX_SEQ_NUM + origin.incrementAnsn.increments) % 2 ^ 16 := by
  show (origin.ansn + 1) % (OLSR_MAX_SEQ_NUM + 1) =
    (OLSR_MAX_SEQ_NUM + (origin.increments + 1)) % 2 ^ 16
  rw [h, OLSR_MAX_SEQ_NUM]
  omega

theorem SentOk.step {σ τ : TcSystem} {l : TcEvent} (h : SentOk σ) (hstep : Step o σ l τ) :
    SentOk τ := by
  cases hstep with
  | @originator e =>
    have hincrement (origin : Originator) (hsame : origin.increments = σ.originator.increments)
        (hansn : origin.ansn = σ.originator.ansn) :
        SentOk { σ with originator := origin.incrementAnsn, sent := σ.sent ++ [] } := by
      refine ⟨incrementAnsn_ansn (by rw [hansn, hsame]; exact h.ansn), fun tc htc => ?_, ?_⟩
      · rw [List.append_nil] at htc
        have hle : origin.incrementAnsn.increments = σ.originator.increments + 1 :=
          congrArg (· + 1) hsame
        exact ⟨(h.sent tc htc).1, hle ▸ Nat.le_succ_of_le (h.sent tc htc).2⟩
      · rw [List.append_nil]
        exact h.sorted
    cases e with
    | addMprSelectorTuple mainAddr => exact hincrement _ rfl rfl
    | removeMprSelectorTuple mainAddr => exact hincrement _ rfl rfl
    | addNeighborTuple => exact hincrement _ rfl rfl
    | removeNeighborTuple => exact hincrement _ rfl rfl
    | neighborLoss mainAddr =>
      refine ⟨h.ansn, fun tc htc => h.sent tc ?_, ?_⟩
      · exact (List.append_nil σ.sent) ▸ htc
      · exact (List.append_nil σ.sent).symm ▸ h.sorted
    | sendTc =>
      refine ⟨h.ansn, fun tc htc => ?_, ?_⟩
      · rcases List.mem_append.mp htc with htc | htc
        · exact h.sent tc htc
        · rw [List.mem_singleton.mp htc]
          exact ⟨h.ansn, le_rfl⟩
      · refine List.pairwise_append.mpr ⟨h.sorted, List.pairwise_singleton _ _, ?_⟩
        intro tc htc tc' htc'
        rw [List.mem_singleton.mp htc']
        exact (h.sent tc htc).2
  | receive => exact ⟨h.ansn, h.sent, h.sorted⟩
  | discard => exact ⟨h.ansn, h.sent, h.sorted⟩
  | receiveOther => exact ⟨h.ansn, h.sent, h.sorted⟩
  | expire => exact ⟨h.ansn, h.sent, h.sorted⟩
  | other => exact ⟨h.ansn, h.sent, h.sorted⟩

theorem SentOk.mono {σ : TcSystem} (h : SentOk σ) {i j : Nat} {tc tc' : SentTc}
    (hi : σ.sent[i]? = some tc) (hj : σ.sent[j]? = some tc') (hij : i ≤ j) :
    tc.increments ≤ tc'.increments := by
  obtain ⟨hi', rfl⟩ := List.getElem?_eq_some_iff.mp hi
  obtain ⟨hj', rfl⟩ := List.getElem?_eq_some_iff.mp hj
  rcases Nat.lt_or_eq_of_le hij with hlt | rfl
  · exact List.pairwise_iff_getElem.mp h.sorted i j hi' hj' hlt
  · exact le_rfl

/-! ## One message -/

/-- The tuples held are the neighbors that a message advertises, under its number. -/
def Exactly (held : List (Ipv4Address × Nat)) (tc : SentTc) : Prop :=
  (held.map Prod.fst).Nodup ∧ (∀ p ∈ held, p.2 = tc.ansn) ∧
    ∀ a, a ∈ held.map Prod.fst ↔ a ∈ tc.neighborAddresses

theorem exactly_heldAfter (tc : SentTc) {n : Nat} (hnodup : (held.map Prod.fst).Nodup)
    (hsame : ∀ p ∈ held, p.2 = n) :
    Exactly (heldAfter held tc) tc ↔
      held = [] ∨ n < tc.ansn ∨ (n = tc.ansn ∧ ∀ p ∈ held, p.1 ∈ tc.neighborAddresses) := by
  have hnone {l : List (Ipv4Address × Nat)} (hl : l = []) :
      Exactly (recordAll tc.ansn l tc.neighborAddresses) tc := by
    subst hl
    refine ⟨nodup_recordAll List.nodup_nil, fun p hp => ?_, fun a => ?_⟩
    · rcases mem_recordAll.mp hp with hp | hp
      · cases hp
      · exact hp.1
    · rw [mem_dests_recordAll]
      simp
  rcases List.eq_nil_or_concat held with rfl | ⟨front, q, rfl⟩
  · refine iff_of_true ?_ (.inl rfl)
    rw [heldAfter, if_pos nofun]
    exact hnone rfl
  have hq : q ∈ front ++ [q] := List.mem_append_right _ (.head _)
  rw [List.concat_eq_append] at hnodup hsame ⊢
  generalize front ++ [q] = held at hq hnodup hsame ⊢
  have hne : held ≠ [] := List.ne_nil_of_mem hq
  rcases Nat.lt_trichotomy n tc.ansn with hlt | heq | hgt
  · refine iff_of_true ?_ (.inr (.inl hlt))
    rw [heldAfter, if_pos fun p hp => by rw [hsame p hp]; exact Nat.le_of_lt hlt]
    refine hnone (List.filter_eq_nil_iff.mpr fun p hp => ?_)
    rw [hsame p hp]
    simpa using hlt
  · have hfilter : (held.filter fun p => ¬p.2 < tc.ansn) = held :=
      List.filter_eq_self.mpr fun p hp => by
        rw [hsame p hp, heq]
        simp
    rw [heldAfter, if_pos fun p hp => by rw [hsame p hp]; exact Nat.le_of_eq heq, hfilter]
    constructor
    · intro hexact
      refine .inr (.inr ⟨heq, fun p hp => (hexact.2.2 p.1).mp ?_⟩)
      exact mem_dests_recordAll.mpr (.inl (List.mem_map_of_mem hp))
    · intro hcond
      have hin : ∀ p ∈ held, p.1 ∈ tc.neighborAddresses := by
        rcases hcond with hnil | hlt | hin
        · exact absurd hnil hne
        · omega
        · exact hin.2
      refine ⟨nodup_recordAll hnodup, fun p hp => ?_, fun a => ?_⟩
      · rcases mem_recordAll.mp hp with hp | hp
        · exact (hsame p hp).trans heq
        · exact hp.1
      · rw [mem_dests_recordAll]
        refine ⟨fun h => h.elim (fun hmem => ?_) id, .inr⟩
        obtain ⟨p, hp, rfl⟩ := List.mem_map.mp hmem
        exact hin p hp
  · refine iff_of_false ?_ ?_
    · rw [heldAfter, if_neg fun hall => absurd (hall q hq) (by rw [hsame q hq]; omega)]
      intro hexact
      have hnum := hexact.2.1 q hq
      rw [hsame q hq] at hnum
      omega
    · rintro (hnil | hlt | ⟨heq, -⟩)
      · exact hne hnil
      · omega
      · omega

theorem heldAfter_eq_self (tc : SentTc) {n : Nat} (hne : held ≠ [])
    (hsame : ∀ p ∈ held, p.2 = n) :
    heldAfter held tc = held ↔
      tc.ansn < n ∨ (tc.ansn = n ∧ ∀ a ∈ tc.neighborAddresses, a ∈ held.map Prod.fst) := by
  obtain ⟨q, hq⟩ := List.exists_mem_of_ne_nil held hne
  rcases Nat.lt_trichotomy tc.ansn n with hlt | heq | hgt
  · refine iff_of_true ?_ (.inl hlt)
    rw [heldAfter, if_neg fun hall => absurd (hall q hq) (by rw [hsame q hq]; omega)]
  · have hfilter : (held.filter fun p => ¬p.2 < tc.ansn) = held :=
      List.filter_eq_self.mpr fun p hp => by
        rw [hsame p hp, heq]
        simp
    rw [heldAfter, if_pos fun p hp => by rw [hsame p hp]; exact Nat.le_of_eq heq.symm, hfilter]
    constructor
    · intro hself
      refine .inr ⟨heq, fun a ha => ?_⟩
      rw [← hself]
      exact mem_dests_recordAll.mpr (.inr ha)
    · rintro (hlt | ⟨-, hin⟩)
      · omega
      · exact recordAll_of_held hin
  · refine iff_of_false ?_ ?_
    · rw [heldAfter, if_pos fun p hp => by rw [hsame p hp]; exact Nat.le_of_lt hgt]
      intro hself
      have hin : q ∈ recordAll tc.ansn (held.filter fun p => ¬p.2 < tc.ansn)
          tc.neighborAddresses := hself.symm ▸ hq
      rcases mem_recordAll.mp hin with hkept | hnew
      · have hnot := (List.mem_filter.mp hkept).2
        rw [hsame q hq] at hnot
        simp only [decide_eq_true_eq] at hnot
        exact hnot hgt
      · have hnum := hnew.1
        rw [hsame q hq] at hnum
        omega
    · rintro (hlt | ⟨heq, -⟩)
      · omega
      · omega

end Olsr

end Ns3
