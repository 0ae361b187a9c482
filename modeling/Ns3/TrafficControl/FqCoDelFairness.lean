/-
  The deficit round robin of FqCoDel.

  A flow is in the list that its status names and its deficit stays within a quantum.
  Between two turns of one backlogged flow there is one turn of every other, so that what
  two of them send differs by their deficits and one quantum.
-/
import Ns3.TrafficControl.FqCoDelOrder

namespace Ns3.FqCoDelQueueDisc

open Ns3.Lib

variable {α : Type} {a : FqCoDelAttributes α} {M : Nat} {d d' : FqCoDelQueueDisc α}

/-- The flows are in the lists their status names, and their deficits in range, for packets
of `M` bytes at most. -/
structure Fair (a : FqCoDelAttributes α) (M : Nat) (d : FqCoDelQueueDisc α) : Prop where
  /-- `m_newFlows` holds the flows with status `NEW_FLOW` -/
  statusNew : ∀ k, k ∈ d.newFlows ↔ (d.flow k).status = .newFlow
  /-- `m_oldFlows` holds the flows with status `OLD_FLOW` -/
  statusOld : ∀ k, k ∈ d.oldFlows ↔ (d.flow k).status = .oldFlow
  nodupNew : d.newFlows.Nodup
  nodupOld : d.oldFlows.Nodup
  /-- a flow with packets is not inactive -/
  active : ∀ k, (d.flow k).queueDisc.queue ≠ [] → (d.flow k).status ≠ .inactive
  /-- a deficit is a part of a quantum, or what the last packet took too much -/
  deficit : ∀ k, k < d.classes.length →
    -(M : Int) < (d.flow k).deficit ∧ (d.flow k).deficit ≤ a.quantum
  /-- an old flow that waits for its turn has had its quantum -/
  behind : ∀ k ∈ d.oldFlows.tail, min 0 ((a.quantum : Int) - M) < (d.flow k).deficit
  sizes : ∀ k, ∀ item ∈ (d.flow k).queueDisc.queue, item.size ≤ M

variable {k : Nat}

theorem lt_length_of_status (h : (d.flow k).status ≠ .inactive) : k < d.classes.length := by
  by_contra hk
  rw [flow_of_length_le (Nat.le_of_not_lt hk)] at h
  exact h rfl

theorem Fair.lt_length_of_new (h : Fair a M d) (hk : k ∈ d.newFlows) : k < d.classes.length :=
  lt_length_of_status (by rw [(h.statusNew k).mp hk]; decide)

theorem Fair.lt_length_of_old (h : Fair a M d) (hk : k ∈ d.oldFlows) : k < d.classes.length :=
  lt_length_of_status (by rw [(h.statusOld k).mp hk]; decide)

theorem Fair.not_old_of_new (h : Fair a M d) (hk : k ∈ d.newFlows) : k ∉ d.oldFlows := by
  intro hold
  have hnew := (h.statusNew k).mp hk
  rw [(h.statusOld k).mp hold] at hnew
  cases hnew

variable {rest : List Nat}

theorem Fair.new_cons (h : Fair a M d) (hnew : d.newFlows = k :: rest) :
    k < d.classes.length ∧ k ∉ d.oldFlows ∧ k ∉ rest ∧ rest.Nodup := by
  have hk : k ∈ d.newFlows := by rw [hnew]; exact .head _
  exact ⟨h.lt_length_of_new hk, h.not_old_of_new hk, List.nodup_cons.mp (hnew ▸ h.nodupNew)⟩

theorem Fair.old_cons (h : Fair a M d) (hold : d.oldFlows = k :: rest) :
    k < d.classes.length ∧ k ∉ rest ∧ rest.Nodup := by
  have hk : k ∈ d.oldFlows := by rw [hold]; exact .head _
  exact ⟨h.lt_length_of_old hk, List.nodup_cons.mp (hold ▸ h.nodupOld)⟩

/-- The queue that a packet is taken from is one of the flows, and the packet one of the packets
that wait there. -/
theorem Fair.of_taken {rest dropped : List (QueueDiscItem α)} {item : QueueDiscItem α}
    (h : Fair a M d)
    (htaken : CoDelQueueDisc.Taken (d.flow k).queueDisc.queue dropped item rest) :
    k < d.classes.length ∧ (d.flow k).status ≠ .inactive ∧ item.size ≤ M ∧
      ∀ x ∈ rest, x.size ≤ M := by
  obtain ⟨head, hqueue, -, hsize⟩ := htaken
  have hactive := h.active k (by rw [hqueue]; simp)
  refine ⟨lt_length_of_status hactive, hactive, ?_, fun x hx => h.sizes k x ?_⟩
  · rw [hsize]
    exact h.sizes k head (by rw [hqueue]; simp)
  · rw [hqueue]
    exact List.mem_append_right _ (.tail _ hx)

variable {e : FqCoDelQueueDisc α} {f : FqCoDelFlow α}

theorem Fair.change (h : Fair a M d) (hclasses : e.classes = (d.setFlow k f).classes)
    (hk : k < d.classes.length) (hnew : ∀ j, j ≠ k → (j ∈ e.newFlows ↔ j ∈ d.newFlows))
    (hnewk : k ∈ e.newFlows ↔ f.status = .newFlow)
    (hold : ∀ j, j ≠ k → (j ∈ e.oldFlows ↔ j ∈ d.oldFlows))
    (holdk : k ∈ e.oldFlows ↔ f.status = .oldFlow) (hnodupNew : e.newFlows.Nodup)
    (hnodupOld : e.oldFlows.Nodup) (hactive : f.queueDisc.queue ≠ [] → f.status ≠ .inactive)
    (hdeficit : -(M : Int) < f.deficit ∧ f.deficit ≤ a.quantum)
    (hbehind : ∀ j ∈ e.oldFlows.tail, (j ≠ k → j ∈ d.oldFlows.tail) ∧
      (j = k → min 0 ((a.quantum : Int) - M) < f.deficit))
    (hsizes : ∀ item ∈ f.queueDisc.queue, item.size ≤ M) : Fair a M e := by
  have hflow : ∀ j, e.flow j = (d.setFlow k f).flow j := fun j => by rw [flow, flow, hclasses]
  have hself : e.flow k = f := by rw [hflow, flow_setFlow_self f hk]
  have hother : ∀ j, j ≠ k → e.flow j = d.flow j := fun j hj => by rw [hflow, flow_setFlow_ne f hj]
  have hlength : e.classes.length = d.classes.length := by rw [hclasses, length_setFlow]
  refine ⟨fun j => ?_, fun j => ?_, hnodupNew, hnodupOld, fun j => ?_, fun j hj => ?_,
    fun j hj => ?_, fun j => ?_⟩ <;> by_cases hjk : j = k
  · rw [hjk, hself]
    exact hnewk
  · rw [hother j hjk]
    exact (hnew j hjk).trans (h.statusNew j)
  · rw [hjk, hself]
    exact holdk
  · rw [hother j hjk]
    exact (hold j hjk).trans (h.statusOld j)
  · rw [hjk, hself]
    exact hactive
  · rw [hother j hjk]
    exact h.active j
  · rw [hjk, hself]
    exact hdeficit
  · rw [hother j hjk]
    exact h.deficit j (hlength ▸ hj)
  · have hlt := (hbehind j hj).2 hjk
    rw [hjk, hself]
    exact hlt
  · rw [hother j hjk]
    exact h.behind j ((hbehind j hj).1 hjk)
  · rw [hjk, hself]
    exact hsizes
  · rw [hother j hjk]
    exact h.sizes j

/-! ## Rounds -/

variable {j : Nat}

theorem mem_tail_concat {l : List Nat} (h : j ∈ (l ++ [k]).tail) : j ∈ l.tail ∨ j = k := by
  cases l with
  | nil => cases h
  | cons x l =>
    rw [List.cons_append, List.tail_cons] at h
    rw [List.tail_cons]
    simpa using h

/-- The attributes and sizes are below the range of an `int32_t`. -/
structure Sized (a : FqCoDelAttributes α) (M : Nat) : Prop where
  quantum_pos : 0 < a.quantum
  /-- the quantum is an `int32_t` -/
  quantum_lt : a.quantum < 2 ^ 31
  /-- so is the size of a packet -/
  size_lt : M < 2 ^ 31

theorem Sized.signed_quantum (h : Sized a M) : signed 32 a.quantum = a.quantum :=
  signed_eq h.quantum_lt

theorem Sized.signed_neg (h : Sized a M) {size : Nat} (hsize : size ≤ M) :
    signed 32 (wsub 32 0 size) = -(size : Int) := by
  have hlt := h.size_lt
  by_cases hz : size = 0
  · subst hz
    rfl
  · have hw : wsub 32 0 size = 2 ^ 32 - size := by
      unfold wsub
      omega
    rw [hw, signed, if_neg (by omega)]
    omega

theorem Round.fair {out : Visit α} (hround : Round a d d' out) (hs : Sized a M)
    (h : Fair a M d) : Fair a M d' := by
  have hpos := hs.quantum_pos
  cases hround with
  | nothing _ _ => exact h
  | @replenishNew k rest hnew hdef =>
    obtain ⟨hk, hkold, hnot, hrest⟩ := h.new_cons hnew
    have hd := h.deficit k hk
    refine h.change rfl hk (fun j hj => ?_) ?_ (fun j hj => ?_) ?_ hrest ?_ (fun _ => by simp) ?_
      (fun j hj => ⟨?_, ?_⟩) (h.sizes k)
    · simp [hnew, hj]
    · simp [hnot]
    · simp [hj]
    · simp
    · simpa [List.nodup_append] using ⟨h.nodupOld, fun x hx hxk => hkold (hxk ▸ hx)⟩
    · rw [hs.signed_quantum]
      constructor <;> simp only <;> omega
    · intro hne
      exact (mem_tail_concat hj).resolve_right hne
    · intro _
      rw [hs.signed_quantum]
      simp only
      omega
  | @replenishOld k rest hnew hold hdef =>
    obtain ⟨hk, hnot, hrest⟩ := h.old_cons hold
    have hd := h.deficit k hk
    refine h.change rfl hk (fun j hj => Iff.rfl) (h.statusNew k)
      (fun j hj => ?_) ?_ h.nodupNew ?_ (h.active k) ?_ (fun j hj => ⟨?_, ?_⟩) (h.sizes k)
    · simp [hold, hj]
    · simp [(h.statusOld k).mp (by rw [hold]; exact .head _)]
    · simpa [List.nodup_append] using ⟨hrest, fun x hx hxk => hnot (hxk ▸ hx)⟩
    · rw [hs.signed_quantum]
      constructor <;> simp only <;> omega
    · intro hne
      rw [hold, List.tail_cons]
      exact List.mem_of_mem_tail ((mem_tail_concat hj).resolve_right hne)
    · intro _
      rw [hs.signed_quantum]
      simp only
      omega
  | @demote k rest child hnew hdef hempty hempty' =>
    obtain ⟨hk, hkold, hnot, hrest⟩ := h.new_cons hnew
    refine h.change rfl hk (fun j hj => ?_) ?_ (fun j hj => ?_) ?_ hrest ?_
      (fun hne => absurd hempty' hne) (h.deficit k hk) (fun j hj => ⟨?_, ?_⟩) ?_
    · simp [hnew, hj]
    · simp [hnot]
    · simp [hj]
    · simp
    · simpa [List.nodup_append] using ⟨h.nodupOld, fun x hx hxk => hkold (hxk ▸ hx)⟩
    · intro hne
      exact (mem_tail_concat hj).resolve_right hne
    · intro _
      simp only
      omega
    · simp only [hempty']
      exact fun item hitem => by cases hitem
  | @retire k rest child hnew hold hdef hempty hempty' =>
    obtain ⟨hk, hnot, hrest⟩ := h.old_cons hold
    refine h.change rfl hk (fun j hj => Iff.rfl) ?_ (fun j hj => ?_) ?_
      h.nodupNew hrest (fun hne => absurd hempty' hne) (h.deficit k hk)
      (fun j hj => ⟨fun _ => ?_, fun hjk => ?_⟩) ?_
    · simp [setFlow, hnew]
    · simp [hold, hj]
    · simp [hnot]
    · rw [hold, List.tail_cons]
      exact List.mem_of_mem_tail hj
    · exact absurd (hjk ▸ List.mem_of_mem_tail hj) hnot
    · simp only [hempty']
      exact fun item hitem => by cases hitem
  | @sent k n child dropped item hfront hdef htaken =>
    obtain ⟨hk, hactive, hitem, hsizes⟩ := h.of_taken htaken
    have hd := h.deficit k hk
    have hlast : k ∉ d.oldFlows.tail := by
      cases hnew : d.newFlows with
      | cons k' rest =>
        obtain rfl : k' = k := by simpa [front, hnew] using hfront
        exact fun htail => (h.new_cons hnew).2.1 (List.mem_of_mem_tail htail)
      | nil =>
        exact (h.old_cons (old_of_front hfront hnew)).2.1
    refine h.change rfl hk (fun j hj => Iff.rfl) (h.statusNew k) (fun j hj => Iff.rfl)
      (h.statusOld k) h.nodupNew h.nodupOld (fun _ => hactive) ?_
      (fun j hj => ⟨fun _ => hj, fun hjk => absurd (hjk ▸ hj) hlast⟩) hsizes
    rw [hs.signed_neg hitem]
    constructor <;> simp only <;> omega

/-! ## Deficits -/

def deficits (d : FqCoDelQueueDisc α) (k : Nat) : Int := (d.flow k).deficit

section

variable (hclasses : e.classes = (d.setFlow k f).classes)

include hclasses

theorem deficits_setFlow_ne (hj : j ≠ k) : e.deficits j = d.deficits j := by
  have hflow : e.flow j = (d.setFlow k f).flow j := by rw [flow, flow, hclasses]
  rw [deficits, hflow, flow_setFlow_ne f hj, deficits]

theorem deficits_setFlow_self (hk : k < d.classes.length) : e.deficits k = f.deficit := by
  have hflow : e.flow k = (d.setFlow k f).flow k := by rw [flow, flow, hclasses]
  rw [deficits, hflow, flow_setFlow_self f hk]

theorem deficits_setFlow_same (hdeficit : f.deficit = (d.flow k).deficit) (j : Nat) :
    e.deficits j = d.deficits j := by
  have hflow : e.flow j = (d.setFlow k f).flow j := by rw [flow, flow, hclasses]
  rw [deficits, hflow]
  exact flow_setFlow_same (fun f => f.deficit) hdeficit j

end

theorem Round.again_deficits (hround : Round a d d' .again) (hs : Sized a M) (h : Fair a M d) :
    ∃ k rest, (∀ j, j ≠ k → d'.deficits j = d.deficits j) ∧
      ((d.newFlows = k :: rest ∧ d'.newFlows = rest ∧ d'.oldFlows = d.oldFlows ++ [k] ∧
          (d.deficits k ≤ 0 ∧ d'.deficits k = d.deficits k + a.quantum ∨
            d'.deficits k = d.deficits k)) ∨
        (d.newFlows = [] ∧ d.oldFlows = k :: rest ∧ d'.newFlows = [] ∧
          (d'.oldFlows = rest ++ [k] ∧ d.deficits k ≤ 0 ∧
              d'.deficits k = d.deficits k + a.quantum ∨
            d'.oldFlows = rest ∧ d.lane k = [] ∧ d'.deficits k = d.deficits k))) := by
  cases hround with
  | @replenishNew k rest hnew hdef =>
    have hk := (h.new_cons hnew).1
    refine ⟨k, rest, fun j hj => deficits_setFlow_ne rfl hj,
      .inl ⟨hnew, rfl, rfl, .inl ⟨hdef, ?_⟩⟩⟩
    exact (deficits_setFlow_self rfl hk).trans (by rw [hs.signed_quantum]; rfl)
  | @replenishOld k rest hnew hold hdef =>
    have hk := (h.old_cons hold).1
    refine ⟨k, rest, fun j hj => deficits_setFlow_ne rfl hj,
      .inr ⟨hnew, hold, hnew, .inl ⟨rfl, hdef, ?_⟩⟩⟩
    exact (deficits_setFlow_self rfl hk).trans (by rw [hs.signed_quantum]; rfl)
  | @demote k rest child hnew hdef hempty hempty' =>
    have hk := (h.new_cons hnew).1
    exact ⟨k, rest, fun j hj => deficits_setFlow_ne rfl hj,
      .inl ⟨hnew, rfl, rfl, .inr ((deficits_setFlow_self rfl hk).trans rfl)⟩⟩
  | @retire k rest child hnew hold hdef hempty hempty' =>
    have hk := (h.old_cons hold).1
    exact ⟨k, rest, fun j hj => deficits_setFlow_ne rfl hj,
      .inr ⟨hnew, hold, hnew, .inr ⟨rfl, by rw [lane, hempty]; rfl,
        (deficits_setFlow_self rfl hk).trans rfl⟩⟩⟩

/-! ## Enqueues -/

variable {item : QueueDiscItem α} {now : Time} {b : Bool}

section

variable (h : Fair a M d)

include h

theorem Fair.same (hclasses : e.classes = d.classes) (hnew : e.newFlows = d.newFlows)
    (hold : e.oldFlows = d.oldFlows) : Fair a M e := by
  have hflow : ∀ j, e.flow j = d.flow j := fun j => by rw [flow, flow, hclasses]
  refine ⟨fun k => ?_, fun k => ?_, hnew ▸ h.nodupNew, hold ▸ h.nodupOld, fun k => ?_,
    fun k hk => ?_, fun k hk => ?_, fun k => ?_⟩
  · rw [hnew, hflow]
    exact h.statusNew k
  · rw [hold, hflow]
    exact h.statusOld k
  · rw [hflow]
    exact h.active k
  · rw [hflow]
    exact h.deficit k (hclasses ▸ hk)
  · rw [hflow]
    exact h.behind k (hold ▸ hk)
  · rw [hflow]
    exact h.sizes k

theorem Fair.create (hpos : 0 < a.quantum) (hclasses : e.classes = d.classes ++ [f])
    (hnew : e.newFlows = d.newFlows ++ [d.classes.length]) (hold : e.oldFlows = d.oldFlows)
    (hstatus : f.status = .newFlow) (hdeficit : f.deficit = a.quantum)
    (hqueue : f.queueDisc.queue = []) : Fair a M e := by
  have hself : e.flow d.classes.length = f := by
    simp [flow, hclasses, List.getD_eq_getElem?_getD]
  have hother : ∀ j, j ≠ d.classes.length → e.flow j = d.flow j := by
    intro j hj
    rcases Nat.lt_or_gt_of_ne hj with hlt | hgt
    · simp [flow, hclasses, List.getD_eq_getElem?_getD, List.getElem?_append_left hlt]
    · rw [flow_of_length_le (d := d) (by omega), flow_of_length_le]
      rw [hclasses, List.length_append]
      exact hgt
  have hnotNew : d.classes.length ∉ d.newFlows :=
    fun hk => absurd (h.lt_length_of_new hk) (by omega)
  have hnotOld : d.classes.length ∉ d.oldFlows :=
    fun hk => absurd (h.lt_length_of_old hk) (by omega)
  refine ⟨fun j => ?_, fun j => ?_, ?_, hold ▸ h.nodupOld, fun j => ?_, fun j hj => ?_,
    fun j hj => ?_, fun j => ?_⟩
  · by_cases hjk : j = d.classes.length
    · subst hjk
      simp [hself, hnew, hstatus]
    · rw [hother j hjk, hnew]
      simpa [hjk] using h.statusNew j
  · by_cases hjk : j = d.classes.length
    · subst hjk
      simp [hself, hold, hstatus, hnotOld]
    · rw [hother j hjk, hold]
      exact h.statusOld j
  · rw [hnew]
    simpa [List.nodup_append] using ⟨h.nodupNew, fun x hx hxk => hnotNew (hxk ▸ hx)⟩
  · by_cases hjk : j = d.classes.length
    · subst hjk
      rw [hself]
      exact fun hne => absurd hqueue hne
    · rw [hother j hjk]
      exact h.active j
  · by_cases hjk : j = d.classes.length
    · subst hjk
      rw [hself, hdeficit]
      omega
    · rw [hother j hjk]
      refine h.deficit j ?_
      rw [hclasses, List.length_append, List.length_singleton] at hj
      omega
  · rw [hold] at hj
    by_cases hjk : j = d.classes.length
    · exact absurd (hjk ▸ List.mem_of_mem_tail hj) hnotOld
    · rw [hother j hjk]
      exact h.behind j hj
  · by_cases hjk : j = d.classes.length
    · subst hjk
      rw [hself, hqueue]
      exact fun item hitem => by cases hitem
    · rw [hother j hjk]
      exact h.sizes j

theorem Fair.find_activate {q : Nat} (hindexed : Indexed d) (hs : Sized a M)
    (hfind : d.findFlow a q = (d', k)) :
    Fair a M (d'.activate a k) ∧ k < (d'.activate a k).classes.length ∧
      ((d'.activate a k).flow k).status ≠ .inactive := by
  have hlt : k < d'.classes.length := (findFlow_indexed hindexed hfind).2.1
  have hpos := hs.quantum_pos
  unfold activate
  split
  · next hinactive =>
      have hself := flow_setFlow_self
        { d'.flow k with status := .newFlow, deficit := signed 32 a.quantum } hlt
      refine ⟨?_, by simpa using hlt, ?_⟩
      · rcases findFlow_cases hfind with ⟨-, rfl⟩ | ⟨-, rfl, rfl⟩
        · have hnot : k ∉ d'.newFlows := by
            intro hk
            rw [(h.statusNew k).mp hk] at hinactive
            cases hinactive
          refine h.change rfl hlt (fun j hj => ?_) ?_ (fun j hj => Iff.rfl) ?_ ?_ h.nodupOld
            (fun _ => by simp) ?_ (fun j hj => ⟨fun _ => hj, fun hjk => ?_⟩) (h.sizes k)
          · simp [hj]
          · simp
          · simp [setFlow, h.statusOld k, hinactive]
          · simpa [setFlow, List.nodup_append] using
              ⟨h.nodupNew, fun x hx hxk => hnot (hxk ▸ hx)⟩
          · rw [hs.signed_quantum]
            constructor <;> simp only <;> omega
          · have := (h.statusOld j).mp (List.mem_of_mem_tail hj)
            rw [hjk, hinactive] at this
            cases this
        · refine h.create (f := { a.createFlow q with
              status := .newFlow, deficit := signed 32 a.quantum }) hpos ?_ rfl rfl rfl
            hs.signed_quantum rfl
          simp [setFlow, flow, List.getD_eq_getElem?_getD]
      · rw [show ({ d'.setFlow k { d'.flow k with
            status := .newFlow, deficit := signed 32 a.quantum } with
          newFlows := d'.newFlows ++ [k] } : FqCoDelQueueDisc α).flow k = _ from hself]
        simp
  · next hactive =>
      rcases findFlow_cases hfind with ⟨-, rfl⟩ | ⟨-, rfl, rfl⟩
      · exact ⟨h, hlt, hactive⟩
      · refine absurd ?_ hactive
        simp [flow, List.getD_eq_getElem?_getD, FqCoDelAttributes.createFlow]

theorem Fair.enqueueChild (hk : k < d.classes.length) (hactive : (d.flow k).status ≠ .inactive)
    (hsize : item.size ≤ M) : Fair a M (d.enqueueChild k item now) := by
  have hsizes : ∀ x ∈ ((d.flow k).queueDisc.enqueue item now).1.queue, x.size ≤ M := by
    intro x hx
    rcases CoDelQueueDisc.enqueue_cases (d.flow k).queueDisc item now with heq | heq
    · rw [heq] at hx
      exact h.sizes k x hx
    · rw [heq] at hx
      rcases List.mem_append.mp hx with hx | hx
      · exact h.sizes k x hx
      · rw [List.mem_singleton.mp hx]
        exact hsize
  have hbehind : ∀ j ∈ d.oldFlows.tail, j = k →
      min 0 ((a.quantum : Int) - M) < (d.flow k).deficit := fun j hj hjk => hjk ▸ h.behind j hj
  exact h.change (f := { d.flow k with queueDisc := _ }) rfl hk (fun j hj => Iff.rfl)
    (h.statusNew k) (fun j hj => Iff.rfl) (h.statusOld k) h.nodupNew h.nodupOld
    (fun _ => hactive) (h.deficit k hk) (fun j hj => ⟨fun _ => hj, hbehind j hj⟩) hsizes

theorem Fair.fqCoDelDrop (hd : d.fqCoDelDrop a = .ok d') : Fair a M d' := by
  obtain ⟨i, queue, n, hsuffix, rfl⟩ := fqCoDelDrop_eq_ok hd
  by_cases hi : i < d.classes.length
  · refine h.change rfl hi (fun j hj => Iff.rfl) (h.statusNew i) (fun j hj => Iff.rfl)
      (h.statusOld i) h.nodupNew h.nodupOld (fun hne => h.active i fun hnil => hne ?_)
      (h.deficit i hi) (fun j hj => ⟨fun _ => hj, fun hji => hji ▸ h.behind j hj⟩)
      fun x hx => h.sizes i x (hsuffix.subset hx)
    rw [hnil] at hsuffix
    exact List.suffix_nil.mp hsuffix
  · exact h.same (List.set_eq_of_length_le (Nat.le_of_not_lt hi)) rfl rfl

theorem Fair.doEnqueue (hindexed : Indexed d) (hs : Sized a M) (hsize : item.size ≤ M)
    (hd : d.doEnqueue a item now = .ok (d', b)) : Fair a M d' := by
  rcases doEnqueue_eq_ok hd with ⟨-, rfl⟩ | ⟨x, tagged, q, found, k, -, hqueue, hfind, hdisc⟩
  · exact h
  · obtain ⟨tags, rfl⟩ := queueOf_eq_ok hqueue
    have htagged : Fair a M { d with tags } := h.same rfl rfl rfl
    have hindexed' : Indexed { d with tags } := ⟨hindexed.found, hindexed.find⟩
    obtain ⟨hfair, hk, hactive⟩ := htagged.find_activate hindexed' hs hfind
    have hjoined : Fair a M ((found.activate a k).enqueueChild k item now) :=
      hfair.enqueueChild hk hactive hsize
    rcases hdisc with rfl | hdrop
    · exact hjoined
    · exact hjoined.fqCoDelDrop hdrop

end

/-! ## Turns -/

variable {out : Option (Nat × QueueDiscItem α)}

variable {s : History α} {fuel : Nat}

def Backlogged (i j : Nat) (d : FqCoDelQueueDisc α) : Prop :=
  d.newFlows = [] ∧ i ∈ d.oldFlows ∧ j ∈ d.oldFlows ∧ d.lane i ≠ [] ∧ d.lane j ≠ []

instance (i j : Nat) (d : FqCoDelQueueDisc α) [DecidableEq α] : Decidable (Backlogged i j d) :=
  inferInstanceAs (Decidable (_ ∧ _ ∧ _ ∧ _ ∧ _))

variable {i : Nat} {c : Int}

theorem Round.turns_again {spent : Nat → Int} (hround : Round a d d' .again) (hs : Sized a M)
    (h : Fair a M d) (hnew : d.newFlows = []) (hi : d.lane i ≠ []) (hj : d.lane j ≠ [])
    (hturns : Turns a.quantum M c d.oldFlows i j spent d.deficits) :
    d'.newFlows = [] ∧ Turns a.quantum M c d'.oldFlows i j spent d'.deficits := by
  obtain ⟨k, rest, hother, ⟨hnew', -⟩ | ⟨-, hold, hnew', hcase⟩⟩ := hround.again_deficits hs h
  · rw [hnew] at hnew'
    cases hnew'
  have hk := (h.old_cons hold).1
  have hnodup := h.nodupOld
  rw [hold] at hturns hnodup
  refine ⟨hnew', ?_⟩
  rcases hcase with ⟨hold', -, hdef'⟩ | ⟨hold', hempty, hdef'⟩
  · rw [hold']
    exact hturns.turn hnodup (h.deficit k hk).1 hdef' hother
  · -- neither of the two is empty
    have hik : i ≠ k := fun hik => hi (hik ▸ hempty)
    have hjk : j ≠ k := fun hjk => hj (hjk ▸ hempty)
    rw [hold']
    refine (hturns.leave hik hjk).congr (fun _ => rfl) fun x => ?_
    by_cases hx : x = k
    · rw [hx, hdef']
    · exact hother x hx

def sentBytes (s : History α) (k : Nat) : Int :=
  ((s.returned.filter fun sent => sent.1 = k).map fun sent => (sent.2.size : Int)).sum

theorem sentBytes_concat (s : History α) (e : FqCoDelQueueDisc α) (k x : Nat)
    (item : QueueDiscItem α) :
    sentBytes { s with disc := e, returned := s.returned ++ [(k, item)] } x =
      sentBytes s x + if k = x then (item.size : Int) else 0 := by
  unfold sentBytes
  rw [List.filter_append, List.map_append, List.sum_append]
  by_cases hk : k = x <;> simp [hk]

theorem Round.sent_deficits (hround : Round a d d' (.sent k item)) (hs : Sized a M)
    (h : Fair a M d) :
    d.front = some k ∧ d'.oldFlows = d.oldFlows ∧ d'.deficits k = d.deficits k - item.size ∧
      ∀ x, x ≠ k → d'.deficits x = d.deficits x := by
  cases hround with
  | @sent k n child dropped item hfront hdef htaken =>
    obtain ⟨hk, -, hitem, -⟩ := h.of_taken htaken
    refine ⟨hfront, rfl, ?_, fun x hx => deficits_setFlow_ne rfl hx⟩
    refine (deficits_setFlow_self rfl hk).trans ?_
    simp only [hs.signed_neg hitem, deficits]
    omega

theorem Round.turns_sent (hround : Round a d d' (.sent k item)) (hs : Sized a M) (h : Fair a M d)
    (hnew : d.newFlows = [])
    (hturns : Turns a.quantum M c d.oldFlows i j (sentBytes s) d.deficits) :
    Turns a.quantum M c d'.oldFlows i j
      (sentBytes { s with disc := d', returned := s.returned ++ [(k, item)] }) d'.deficits := by
  obtain ⟨hfront, hsame, hk, hother⟩ := hround.sent_deficits hs h
  rw [hsame]
  have hold := old_of_front hfront hnew
  have hnodup := h.nodupOld
  rw [hold] at hturns hnodup ⊢
  refine hturns.spend hnodup (fun x => ?_) hother
  rw [sentBytes_concat]
  by_cases hx : k = x
  · subst hx
    rw [if_pos rfl, hk]
    omega
  · rw [if_neg hx, hother x (Ne.symm hx)]
    omega

/-- One dequeue keeps the deficits of the backlogged flows close. -/
theorem Fair.doDequeue (h : Fair a M d) (hs : Sized a M)
    (hd : d.doDequeue a fuel now = .ok (d', out)) : Fair a M d' := by
  obtain ⟨mid, hrounds, hlast⟩ := doDequeue_rounds hd
  have hmid : Fair a M mid := by
    clear hlast
    induction hrounds with
    | refl => exact h
    | tail _ hround ih => exact hround.fair hs ih
  rcases hlast with ⟨-, hlast⟩ | ⟨k, item, -, hlast⟩
  · exact hlast.fair hs hmid
  · exact hlast.fair hs hmid

theorem doDequeue_turns (hs : Sized a M) (h : Fair a M d) (hback : Backlogged i j d)
    (hturns : Turns a.quantum M c d.oldFlows i j (sentBytes s) d.deficits)
    (hd : d.doDequeue a fuel now = .ok (d', out)) :
    Turns a.quantum M c d'.oldFlows i j
      (sentBytes { s with disc := d', returned := s.returned ++ out.toList }) d'.deficits := by
  obtain ⟨hnew, -, -, hi, hj⟩ := hback
  obtain ⟨mid, hrounds, hlast⟩ := doDequeue_rounds hd
  have hmid : Fair a M mid ∧ mid.newFlows = [] ∧ mid.lane i ≠ [] ∧ mid.lane j ≠ [] ∧
      Turns a.quantum M c mid.oldFlows i j (sentBytes s) mid.deficits := by
    clear hlast
    induction hrounds with
    | refl => exact ⟨h, hnew, hi, hj, hturns⟩
    | tail _ hround ih =>
      obtain ⟨hfair, hnew', hi', hj', hturns'⟩ := ih
      obtain ⟨hnew'', hturns''⟩ := hround.turns_again hs hfair hnew' hi' hj' hturns'
      have hlane := hround.thins_again.2
      exact ⟨hround.fair hs hfair, hnew'', by rw [hlane]; exact hi', by rw [hlane]; exact hj',
        hturns''⟩
  obtain ⟨hfair, hnew', -, -, hturns'⟩ := hmid
  rcases hlast with ⟨rfl, hlast⟩ | ⟨k, item, rfl, hlast⟩
  · cases hlast
    rw [Option.toList_none, List.append_nil]
    exact hturns'
  · exact hlast.turns_sent hs hfair hnew' hturns'

theorem deficits_enqueueChild (d : FqCoDelQueueDisc α) (k : Nat) (item : QueueDiscItem α)
    (now : Time) : ∀ j, (d.enqueueChild k item now).deficits j = d.deficits j := by
  unfold enqueueChild
  exact deficits_setFlow_same rfl rfl

theorem fqCoDelDrop_old (h : d.fqCoDelDrop a = .ok d') :
    d'.oldFlows = d.oldFlows ∧ ∀ j, d'.deficits j = d.deficits j := by
  obtain ⟨i, queue, n, -, rfl⟩ := fqCoDelDrop_eq_ok h
  exact ⟨rfl, deficits_setFlow_same rfl rfl⟩

theorem doEnqueue_old (hd : d.doEnqueue a item now = .ok (d', b)) :
    d'.oldFlows = d.oldFlows ∧
      ∀ k, (d.flow k).status ≠ .inactive → d'.deficits k = d.deficits k := by
  rcases doEnqueue_eq_ok hd with ⟨-, rfl⟩ | ⟨x, tagged, q, found, k, -, hqueue, hfind, hdisc⟩
  · exact ⟨rfl, fun _ _ => rfl⟩
  · obtain ⟨tags, rfl⟩ := queueOf_eq_ok hqueue
    have hfound : found.oldFlows = d.oldFlows ∧
        ∀ j, (d.flow j).status ≠ .inactive → found.flow j = d.flow j := by
      rcases findFlow_cases hfind with ⟨-, rfl⟩ | ⟨-, rfl, rfl⟩
      · exact ⟨rfl, fun _ _ => rfl⟩
      · refine ⟨rfl, fun j hj => ?_⟩
        simp [flow, List.getD_eq_getElem?_getD,
          List.getElem?_append_left (lt_length_of_status hj)]
    have hactive : (found.activate a k).oldFlows = d.oldFlows ∧
        ∀ j, (d.flow j).status ≠ .inactive →
          (found.activate a k).deficits j = d.deficits j := by
      unfold activate
      split
      · next hinactive =>
          refine ⟨hfound.1, fun j hj => ?_⟩
          have hjk : j ≠ k := by
            rintro rfl
            rw [hfound.2 j hj] at hinactive
            exact hj hinactive
          refine (deficits_setFlow_ne rfl hjk).trans ?_
          rw [deficits, hfound.2 j hj, deficits]
      · exact ⟨hfound.1, fun j hj => by rw [deficits, hfound.2 j hj, deficits]⟩
    have hjoined : ((found.activate a k).enqueueChild k item now).oldFlows = d.oldFlows ∧
        ∀ j, (d.flow j).status ≠ .inactive →
          ((found.activate a k).enqueueChild k item now).deficits j = d.deficits j :=
      ⟨hactive.1, fun j hj => (deficits_enqueueChild _ k item now j).trans (hactive.2 j hj)⟩
    rcases hdisc with rfl | hdrop
    · exact hjoined
    · obtain ⟨hold, hsame⟩ := fqCoDelDrop_old hdrop
      exact ⟨hold.trans hjoined.1, fun j hj => (hsame j).trans (hjoined.2 j hj)⟩

/-! ## Runs -/

variable {t : History α}

theorem Indexed.doEnqueue (h : Indexed d) (hd : d.doEnqueue a item now = .ok (d', b)) :
    Indexed d' := by
  rcases doEnqueue_eq_ok hd with ⟨-, rfl⟩ | ⟨x, tagged, q, found, k, -, hqueue, hfind, hdisc⟩
  · exact h
  · obtain ⟨tags, rfl⟩ := queueOf_eq_ok hqueue
    have htagged : Indexed { d with tags } := ⟨h.found, h.find⟩
    obtain ⟨hfound, hlt, -⟩ := findFlow_indexed htagged hfind
    obtain ⟨hthin, -⟩ := activate_thins (a := a) found k
    have hactive := hfound.thin hthin
    have hjoined : Indexed ((found.activate a k).enqueueChild k item now) := by
      rcases enqueueChild_lane item now (by rw [hthin.length]; exact hlt) with
        hthin' | ⟨hi, hl, hix, -⟩
      · exact hactive.thin hthin'
      · refine ⟨fun r j hr => ?_, fun j hj => ?_⟩
        · rw [hl, hix]
          exact hactive.found r j (hi ▸ hr)
        · rw [hi, hix]
          exact hactive.find j (hl ▸ hj)
    rcases hdisc with rfl | hdrop
    · exact hjoined
    · exact hjoined.thin (fqCoDelDrop_thins hdrop)

/-- The packets of a sequence of calls have `M` bytes at most. -/
def AtMost (M : Nat) (calls : List (Call α)) : Prop :=
  ∀ item now, Call.enqueue item now ∈ calls → item.size ≤ M

theorem Fair.exec {call : Call α} (h : Fair a M s.disc) (hindexed : Indexed s.disc) (hs : Sized a M)
    (hsize : ∀ item now, call = .enqueue item now → item.size ≤ M)
    (hrun : exec a fuel s call = .ok t) : Fair a M t.disc ∧ Indexed t.disc := by
  cases call with
  | enqueue item now =>
    obtain ⟨⟨d, b⟩, hd, rfl⟩ := bind_pure_eq_ok.mp hrun
    exact ⟨h.doEnqueue hindexed hs (hsize item now rfl) hd, hindexed.doEnqueue hd⟩
  | dequeue now =>
    obtain ⟨⟨d, out⟩, hd, rfl⟩ := bind_pure_eq_ok.mp hrun
    exact ⟨h.doDequeue hs hd, hindexed.thin (doDequeue_thins hd).1⟩

theorem Fair.execAll {calls : List (Call α)} (h : Fair a M s.disc) (hindexed : Indexed s.disc)
    (hs : Sized a M) (hsize : AtMost M calls) (hrun : execAll a fuel s calls = .ok t) :
    Fair a M t.disc ∧ Indexed t.disc := by
  induction calls using List.reverseRecOn generalizing t with
  | nil =>
    cases hrun
    exact ⟨h, hindexed⟩
  | append_singleton calls call ih =>
    obtain ⟨u, hu, hcall⟩ := execAll_concat.mp hrun
    obtain ⟨hfair, hix⟩ := ih (fun item now hmem => hsize item now (by simp [hmem])) hu
    exact hfair.exec hix hs (fun item now heq => hsize item now (by simp [heq])) hcall

theorem fair_start (a : FqCoDelAttributes α) (M : Nat) :
    Fair a M ({} : FqCoDelQueueDisc α) ∧ Indexed ({} : FqCoDelQueueDisc α) := by
  have hflow : ∀ k, ({} : FqCoDelQueueDisc α).flow k = default := fun _ => rfl
  refine ⟨⟨fun k => ?_, fun k => ?_, List.nodup_nil, List.nodup_nil, fun k hk => ?_,
    fun k hk => ?_, fun k hk => ?_, fun k item hitem => ?_⟩, ⟨fun q k hk => ?_, fun k hk => ?_⟩⟩
  · rw [hflow]
    constructor <;> intro hk <;> cases hk
  · rw [hflow]
    constructor <;> intro hk <;> cases hk
  · rw [hflow] at hk
    exact absurd rfl hk
  · cases hk
  · cases hk
  · rw [hflow] at hitem
    cases hitem
  · cases hk
  · cases hk

theorem exec_turns {call : Call α} (h : Fair a M s.disc) (hs : Sized a M)
    (hback : Backlogged i j s.disc) (hrun : exec a fuel s call = .ok t)
    (hturns : Turns a.quantum M c s.disc.oldFlows i j (sentBytes s) s.disc.deficits) :
    Turns a.quantum M c t.disc.oldFlows i j (sentBytes t) t.disc.deficits := by
  cases call with
  | enqueue item now =>
    obtain ⟨⟨d, b⟩, hd, rfl⟩ := bind_pure_eq_ok.mp hrun
    obtain ⟨hold, hsame⟩ := doEnqueue_old hd
    obtain ⟨-, hi, hj, -, -⟩ := hback
    have hactive : ∀ k ∈ s.disc.oldFlows, d.deficits k = s.disc.deficits k :=
      fun k hk => hsame k (by rw [(h.statusOld k).mp hk]; decide)
    have hsent : sentBytes { s with disc := d, offered := s.offered ++ [item] } = sentBytes s :=
      rfl
    unfold Turns at hturns ⊢
    rw [hsent, hold, hactive i hi, hactive j hj]
    exact hturns
  | dequeue now =>
    obtain ⟨⟨d, out⟩, hd, rfl⟩ := bind_pure_eq_ok.mp hrun
    exact doDequeue_turns hs h hback hturns hd

theorem turns_execAll {past rest : List (Call α)} (hs : Sized a M)
    (hsize : AtMost M (past ++ rest)) (hpast : execAll a fuel {} past = .ok s)
    (hback : ∀ mid u, past <+: mid → mid <+: past ++ rest → execAll a fuel {} mid = .ok u →
      Backlogged i j u.disc)
    (hturns : Turns a.quantum M c s.disc.oldFlows i j (sentBytes s) s.disc.deficits)
    (hrun : execAll a fuel {} (past ++ rest) = .ok t) :
    Turns a.quantum M c t.disc.oldFlows i j (sentBytes t) t.disc.deficits := by
  induction rest using List.reverseRecOn generalizing t with
  | nil =>
    rw [List.append_nil, hpast] at hrun
    cases hrun
    exact hturns
  | append_singleton rest call ih =>
    have happend : past ++ (rest ++ [call]) = past ++ rest ++ [call] :=
      (List.append_assoc _ _ _).symm
    rw [happend] at hrun hsize
    obtain ⟨u, hu, hcall⟩ := execAll_concat.mp hrun
    have hpre : past ++ rest <+: past ++ (rest ++ [call]) := by
      rw [happend]
      exact List.prefix_append _ _
    have hsize' : AtMost M (past ++ rest) := fun item now hmem =>
      hsize item now (List.mem_append_left _ hmem)
    have hturns' := ih hsize' (fun mid v hmid hmid' => hback mid v hmid (hmid'.trans hpre)) hu
    obtain ⟨hstart, hindexed⟩ := fair_start a M
    have hfair := (Fair.execAll hstart hindexed hs hsize' hu).1
    exact exec_turns hfair hs (hback _ u (List.prefix_append _ _) hpre hu) hcall hturns'

/-- Two flows backlogged throughout differ by a bounded number of bytes. -/
theorem sentBytes_fair {past calls : List (Call α)} (hs : Sized a M)
    (hsize : AtMost M calls) (hpast : execAll a fuel {} past = .ok s) (hpre : past <+: calls)
    (hrun : execAll a fuel {} calls = .ok t)
    (hback : ∀ mid u, past <+: mid → mid <+: calls → execAll a fuel {} mid = .ok u →
      Backlogged i j u.disc) :
    |(sentBytes t i - sentBytes s i) - (sentBytes t j - sentBytes s j)| ≤
      a.quantum + M + max (a.quantum : Int) M := by
  obtain ⟨rest, rfl⟩ := hpre
  obtain ⟨hstart, hindexed⟩ := fair_start a M
  have hsize' : AtMost M past := fun item now hmem => hsize item now (List.mem_append_left _ hmem)
  have hfair := (Fair.execAll hstart hindexed hs hsize' hpast).1
  have hfair' := (Fair.execAll hstart hindexed hs hsize hrun).1
  have hb := hback past s (List.prefix_refl _) (List.prefix_append _ _) hpast
  have hb' := hback _ t (List.prefix_append _ _) (List.prefix_refl _) hrun
  by_cases hij : i = j
  · subst hij
    simp only [sub_self, abs_zero]
    omega
  · have hrange : ∀ x, x = i ∨ x = j → -(M : Int) < t.disc.deficits x ∧
        t.disc.deficits x ≤ a.quantum := by
      rintro x (rfl | rfl)
      · exact hfair'.deficit x (hfair'.lt_length_of_old hb'.2.1)
      · exact hfair'.deficit x (hfair'.lt_length_of_old hb'.2.2.1)
    have hrange₀ : ∀ x, x = i ∨ x = j → -(M : Int) < s.disc.deficits x ∧
        s.disc.deficits x ≤ a.quantum := by
      rintro x (rfl | rfl)
      · exact hfair.deficit x (hfair.lt_length_of_old hb.2.1)
      · exact hfair.deficit x (hfair.lt_length_of_old hb.2.2.1)
    rcases Before.total hb.2.1 hb.2.2.1 hij with hbefore | hbefore
    · have hturns := turns_execAll hs hsize hpast hback (.start hbefore) hrun
      exact hturns.bound hrange hrange₀ hfair'.behind (hfair.behind j hbefore.mem_tail)
    · have hback' : ∀ mid u, past <+: mid → mid <+: past ++ rest →
          execAll a fuel {} mid = .ok u → Backlogged j i u.disc := by
        intro mid u hmid hmid' hu
        obtain ⟨hnew, hi, hj, hli, hlj⟩ := hback mid u hmid hmid' hu
        exact ⟨hnew, hj, hi, hlj, hli⟩
      have hturns := turns_execAll hs hsize hpast hback' (.start hbefore) hrun
      rw [abs_sub_comm]
      exact hturns.bound (fun x hx => hrange x hx.symm) (fun x hx => hrange₀ x hx.symm)
        hfair'.behind (hfair.behind i hbefore.mem_tail)

/-- **Deficit round robin.** With a quantum and packets below 2^31 bytes, the lists agree with the
statuses, the deficits stay within a quantum, and what two backlogged flows send differs by a
quantum, a packet and the larger of the two at most. -/
theorem execAll_fair (a : FqCoDelAttributes α) (M fuel : Nat) (calls : List (Call α))
    (t : History α) (hconfig : a.CheckConfig) (hquantum : a.quantum < 2 ^ 31) (hM : M < 2 ^ 31)
    (hsize : AtMost M calls) (ht : execAll a fuel {} calls = .ok t) :
    (t.disc.newFlows.Nodup ∧ t.disc.oldFlows.Nodup ∧
      ∀ k, (k ∈ t.disc.newFlows ↔ (t.disc.flow k).status = .newFlow) ∧
        (k ∈ t.disc.oldFlows ↔ (t.disc.flow k).status = .oldFlow)) ∧
    (∀ k, t.disc.lane k ≠ [] → (t.disc.flow k).status ≠ .inactive) ∧
    (∀ k, k < t.disc.classes.length →
      -(M : Int) < (t.disc.flow k).deficit ∧ (t.disc.flow k).deficit ≤ a.quantum) ∧
    ∀ past s i j, past <+: calls → execAll a fuel {} past = .ok s →
      (∀ mid u, past <+: mid → mid <+: calls → execAll a fuel {} mid = .ok u →
        Backlogged i j u.disc) →
      |(sentBytes t i - sentBytes s i) - (sentBytes t j - sentBytes s j)| ≤
        a.quantum + M + max (a.quantum : Int) M := by
  have hs : Sized a M := ⟨Nat.pos_of_ne_zero hconfig.1, hquantum, hM⟩
  obtain ⟨hstart, hindexed⟩ := fair_start a M
  have hfair := (Fair.execAll hstart hindexed hs hsize ht).1
  refine ⟨⟨hfair.nodupNew, hfair.nodupOld, fun k => ⟨hfair.statusNew k, hfair.statusOld k⟩⟩,
    fun k hk => hfair.active k fun hnil => hk (by rw [lane, hnil]; rfl), hfair.deficit, ?_⟩
  intro past s i j hpre hpast hback
  exact sentBytes_fair hs hsize hpast hpre ht hback

def twoFlows (quantum : Nat) : FqCoDelAttributes (Nat × Nat) :=
  { twoWay with quantum, enableSetAssociativeHash := false }

/-- Flow 0 has spent its quantum of 5 and got another one.  Flow 1 joins the old flows
behind it, with 1 of its deficit left. -/
def behindLast : List (Call (Nat × Nat)) :=
  List.replicate 16 (.enqueue (packet 0 0 1) 0) ++ List.replicate 5 (.dequeue 0) ++
    List.replicate 4 (.enqueue (packet 1 0 1) 0) ++ List.replicate 5 (.dequeue 0) ++
    List.replicate 3 (.enqueue (packet 1 0 1) 0)

/-- Ten packets are dequeued then. -/
def tenMore : List (Call (Nat × Nat)) := behindLast ++ List.replicate 10 (.dequeue 0)

theorem tenMore_atMost : AtMost 1 tenMore := by
  intro item now hmem
  simp only [tenMore, behindLast, List.mem_append, List.mem_replicate, reduceCtorEq, and_false,
    or_false, Call.enqueue.injEq] at hmem
  rcases hmem with (⟨-, rfl, -⟩ | ⟨-, rfl, -⟩) | ⟨-, rfl, -⟩ <;> decide

theorem tenMore_backlogged {mid : List (Call (Nat × Nat))} {u : History (Nat × Nat)}
    (hpast : behindLast <+: mid) (hmid : mid <+: tenMore)
    (hu : execAll (twoFlows 5) 20 {} mid = .ok u) : Backlogged 0 1 u.disc := by
  have hback : ∀ n < 11, (execAll (twoFlows 5) 20 {}
      (behindLast ++ List.replicate n (.dequeue 0))).toOption.map
        (fun u => decide (Backlogged 0 1 u.disc)) = some true := by
    decide +kernel
  obtain ⟨r, rfl⟩ := hpast
  obtain ⟨hlen, heq⟩ := List.prefix_replicate_iff.mp
    ((List.prefix_append_right_inj behindLast).mp hmid)
  have := hback r.length (by omega)
  rw [← heq, toOption_eq_some.mpr hu] at this
  simpa using this

theorem tenMore_sent : ∃ s t, execAll (twoFlows 5) 20 {} behindLast = .ok s ∧
    execAll (twoFlows 5) 20 {} tenMore = .ok t ∧ sentBytes s 0 = 6 ∧ sentBytes s 1 = 4 ∧
      sentBytes t 0 = 15 ∧ sentBytes t 1 = 5 := by
  have hsent : (execAll (twoFlows 5) 20 {} behindLast).toOption.map
      (fun s => (sentBytes s 0, sentBytes s 1)) = some (6, 4) := by
    decide +kernel
  have hsent' : (execAll (twoFlows 5) 20 {} tenMore).toOption.map
      (fun s => (sentBytes s 0, sentBytes s 1)) = some (15, 5) := by
    decide +kernel
  obtain ⟨s, hs, hs'⟩ := Option.map_eq_some_iff.mp hsent
  obtain ⟨t, ht, ht'⟩ := Option.map_eq_some_iff.mp hsent'
  obtain ⟨hs0, hs1⟩ := Prod.mk.inj hs'
  obtain ⟨ht0, ht1⟩ := Prod.mk.inj ht'
  exact ⟨s, t, toOption_eq_some.mp hs, toOption_eq_some.mp ht, hs0, hs1, ht0, ht1⟩

/-- What the two flows send in ten dequeues, nine bytes and one, differs by 11 at most. -/
theorem execAll_fair_twoFlows : ∃ s t, execAll (twoFlows 5) 20 {} behindLast = .ok s ∧
    execAll (twoFlows 5) 20 {} tenMore = .ok t ∧
      (∀ k, t.disc.lane k ≠ [] → (t.disc.flow k).status ≠ .inactive) ∧
      sentBytes t 0 - sentBytes s 0 = 9 ∧ sentBytes t 1 - sentBytes s 1 = 1 ∧
      |(sentBytes t 0 - sentBytes s 0) - (sentBytes t 1 - sentBytes s 1)| ≤
        5 + 1 + max (5 : Int) 1 := by
  obtain ⟨s, t, hs, ht, hs0, hs1, ht0, ht1⟩ := tenMore_sent
  obtain ⟨-, hactive, -, hfair⟩ := execAll_fair (twoFlows 5) 1 20 tenMore t (by decide)
    (by decide) (by decide) tenMore_atMost ht
  exact ⟨s, t, hs, ht, hactive, by rw [ht0, hs0]; rfl, by rw [ht1, hs1]; rfl,
    hfair behindLast s 0 1 (List.prefix_append _ _) hs fun _ _ => tenMore_backlogged⟩

/-- The flows of `behindLast` stay backlogged for ten dequeues, and flow 0 sends nine packets of one
byte where flow 1 sends one.  A quantum from 2^31 on is a negative deficit, and a packet above 2^31
bytes raises one. -/
theorem execAll_unfair :
    (¬∀ (a : FqCoDelAttributes (Nat × Nat)) (M fuel : Nat) (calls : List (Call (Nat × Nat)))
        (t : History (Nat × Nat)), a.CheckConfig → AtMost M calls →
        execAll a fuel {} calls = .ok t →
        ∀ past s i j, past <+: calls → execAll a fuel {} past = .ok s →
          (∀ mid u, past <+: mid → mid <+: calls → execAll a fuel {} mid = .ok u →
            Backlogged i j u.disc) →
          |(sentBytes t i - sentBytes s i) - (sentBytes t j - sentBytes s j)| ≤
            a.quantum + 2 * M) ∧
      (¬∀ (a : FqCoDelAttributes (Nat × Nat)) (M fuel : Nat) (calls : List (Call (Nat × Nat)))
        (t : History (Nat × Nat)), a.CheckConfig → AtMost M calls →
        execAll a fuel {} calls = .ok t → ∀ k, k < t.disc.classes.length →
          -(M : Int) < (t.disc.flow k).deficit) ∧
      ¬∀ (a : FqCoDelAttributes (Nat × Nat)) (M fuel : Nat) (calls : List (Call (Nat × Nat)))
        (t : History (Nat × Nat)), a.CheckConfig → a.quantum < 2 ^ 31 → AtMost M calls →
        execAll a fuel {} calls = .ok t → ∀ k, k < t.disc.classes.length →
          (t.disc.flow k).deficit ≤ a.quantum := by
  refine ⟨?_, ?_, ?_⟩
  · intro h
    obtain ⟨s, t, hs, ht, hs0, hs1, ht0, ht1⟩ := tenMore_sent
    have hfair := h (twoFlows 5) 1 20 tenMore t (by decide) tenMore_atMost ht behindLast s 0 1
      (List.prefix_append _ _) hs fun _ _ => tenMore_backlogged
    rw [hs0, hs1, ht0, ht1] at hfair
    exact absurd hfair (by decide)
  · intro h
    obtain ⟨t, ht⟩ : ∃ t, execAll (twoFlows (2 ^ 31)) 10 {} [.enqueue (packet 0 0 100) 0] = .ok t :=
      ⟨_, rfl⟩
    have hsize : AtMost 100 [Call.enqueue (packet 0 0 100) 0] := by
      intro item now hmem
      obtain ⟨rfl, -⟩ := Call.enqueue.inj (List.mem_singleton.mp hmem)
      decide
    have hdeficit : (execAll (twoFlows (2 ^ 31)) 10 {} [.enqueue (packet 0 0 100) 0]).toOption.map
        (fun t => (t.disc.classes.length, (t.disc.flow 0).deficit)) = some (1, -2 ^ 31) := by
      decide +kernel
    rw [ht] at hdeficit
    obtain ⟨hlen, hdef⟩ := Prod.mk.inj (Option.some.inj hdeficit)
    have := h (twoFlows (2 ^ 31)) 100 10 _ t (by decide) hsize ht 0 (by omega)
    omega
  · intro h
    have hsize :
        AtMost (2 ^ 32 - 100) [Call.enqueue (packet 0 0 (2 ^ 32 - 100)) 0, .dequeue 0] := by
      intro item now hmem
      simp only [List.mem_cons, Call.enqueue.injEq, reduceCtorEq, List.not_mem_nil, or_false]
        at hmem
      obtain ⟨rfl, -⟩ := hmem
      decide
    have hdeficit : (execAll (twoFlows 1500) 10 {}
        [.enqueue (packet 0 0 (2 ^ 32 - 100)) 0, .dequeue 0]).toOption.map
          (fun t => (t.disc.classes.length, (t.disc.flow 0).deficit)) = some (1, 1600) := by
      decide +kernel
    obtain ⟨t, ht, ht'⟩ := Option.map_eq_some_iff.mp hdeficit
    obtain ⟨hlen, hdef⟩ := Prod.mk.inj ht'
    have hle := h (twoFlows 1500) (2 ^ 32 - 100) 10 _ t (by decide) (by decide) hsize
      (toOption_eq_some.mp ht) 0 (by omega)
    rw [hdef] at hle
    exact absurd hle (by decide)

end Ns3.FqCoDelQueueDisc
