/-
  What the calls of FqCoDel do, case by case.

  A dequeue is a sequence of rounds, each of one of six kinds.  An enqueue chooses a
  queue, finds its flow, and may drop from the fat flow.
-/
import Ns3.TrafficControl.FqCoDelQueueDisc
import Mathlib.Logic.Relation

namespace Ns3.FqCoDelQueueDisc

open Ns3.Lib

variable {α : Type} {a : FqCoDelAttributes α} {d d' : FqCoDelQueueDisc α}

/-- The packets that wait in a flow, the next one first. -/
def lane (d : FqCoDelQueueDisc α) (k : Nat) : List α := (d.flow k).queueDisc.queue.map (·.packet)

def front (d : FqCoDelQueueDisc α) : Option Nat := (d.newFlows ++ d.oldFlows).head?

/-! ## A flow that is changed -/

variable {k : Nat}

theorem flow_of_length_le (h : d.classes.length ≤ k) : d.flow k = default := by
  unfold flow
  rw [List.getD_eq_getElem?_getD, List.getElem?_eq_none h, Option.getD_none]

theorem flow_setFlow (d : FqCoDelQueueDisc α) (k : Nat) (f : FqCoDelFlow α) (j : Nat) :
    (d.setFlow k f).flow j = if j = k ∧ k < d.classes.length then f else d.flow j := by
  unfold flow setFlow
  simp only [List.getD_eq_getElem?_getD, List.getElem?_set]
  by_cases hjk : k = j
  · subst hjk
    by_cases hlen : k < d.classes.length
    · simp [hlen]
    · simp [hlen]
  · simp [hjk, Ne.symm hjk]

theorem flow_setFlow_self (f : FqCoDelFlow α) (h : k < d.classes.length) :
    (d.setFlow k f).flow k = f := by
  rw [flow_setFlow, if_pos ⟨rfl, h⟩]

theorem flow_setFlow_ne {j : Nat} (f : FqCoDelFlow α) (h : j ≠ k) :
    (d.setFlow k f).flow j = d.flow j := by
  rw [flow_setFlow, if_neg (fun hk => h hk.1)]

theorem flow_setFlow_same {β : Type} (g : FqCoDelFlow α → β) {f : FqCoDelFlow α}
    (hf : g f = g (d.flow k)) (j : Nat) : g ((d.setFlow k f).flow j) = g (d.flow j) := by
  rw [flow_setFlow]
  split
  · next h =>
      obtain ⟨rfl, -⟩ := h
      exact hf
  · rfl

@[simp] theorem length_setFlow (d : FqCoDelQueueDisc α) (k : Nat) (f : FqCoDelFlow α) :
    (d.setFlow k f).classes.length = d.classes.length := by
  simp [setFlow]

theorem lane_setFlow_ne {j : Nat} (f : FqCoDelFlow α) (h : j ≠ k) :
    (d.setFlow k f).lane j = d.lane j := by
  unfold lane
  rw [flow_setFlow_ne f h]

theorem lt_length_of_mem_lane {p : α} (h : p ∈ d.lane k) : k < d.classes.length := by
  by_contra hk
  unfold lane at h
  rw [flow_of_length_le (Nat.le_of_not_lt hk)] at h
  cases h

/-! ## The rounds of a dequeue -/

/-- One round of the loops of `DoDequeue`, by kinds. -/
inductive Round (a : FqCoDelAttributes α) (d : FqCoDelQueueDisc α) :
    FqCoDelQueueDisc α → Visit α → Prop where
  | nothing : d.newFlows = [] → d.oldFlows = [] → Round a d d .nothing
  /-- a new flow has no deficit left and becomes an old one -/
  | replenishNew {k : Nat} {rest : List Nat} : d.newFlows = k :: rest → (d.flow k).deficit ≤ 0 →
      Round a d
        { d.setFlow k { d.flow k with
            deficit := (d.flow k).deficit + signed 32 a.quantum, status := .oldFlow } with
          newFlows := rest, oldFlows := d.oldFlows ++ [k] } .again
  /-- an old flow has no deficit left and goes to the end -/
  | replenishOld {k : Nat} {rest : List Nat} : d.newFlows = [] → d.oldFlows = k :: rest →
      (d.flow k).deficit ≤ 0 →
      Round a d
        { d.setFlow k { d.flow k with deficit := (d.flow k).deficit + signed 32 a.quantum } with
          oldFlows := rest ++ [k] } .again
  | demote {k : Nat} {rest : List Nat} {child : CoDelQueueDisc α} : d.newFlows = k :: rest →
      0 < (d.flow k).deficit → (d.flow k).queueDisc.queue = [] → child.queue = [] →
      Round a d
        { d.setFlow k { d.flow k with queueDisc := child, status := .oldFlow } with
          newFlows := rest, oldFlows := d.oldFlows ++ [k] } .again
  | retire {k : Nat} {rest : List Nat} {child : CoDelQueueDisc α} : d.newFlows = [] →
      d.oldFlows = k :: rest → 0 < (d.flow k).deficit → (d.flow k).queueDisc.queue = [] →
      child.queue = [] →
      Round a d
        { d.setFlow k { d.flow k with queueDisc := child, status := .inactive } with
          oldFlows := rest } .again
  | sent {k n : Nat} {child : CoDelQueueDisc α} {dropped : List (QueueDiscItem α)}
      {item : QueueDiscItem α} : d.front = some k → 0 < (d.flow k).deficit →
      CoDelQueueDisc.Taken (d.flow k).queueDisc.queue dropped item child.queue →
      Round a d
        { d.setFlow k { d.flow k with
            queueDisc := child
            deficit := (d.flow k).deficit + signed 32 (wsub 32 0 item.size) } with
          nPackets := n } (.sent k item)

theorem old_of_front (hfront : d.front = some k) (hnew : d.newFlows = []) :
    d.oldFlows = k :: d.oldFlows.tail := by
  rw [front, hnew, List.nil_append] at hfront
  exact List.eq_cons_of_mem_head? hfront

variable {now : Time}

theorem serve_round {out : Visit α} (hfront : d.front = some k) (hpos : 0 < (d.flow k).deficit)
    (h : d.serve k now = .ok (d', out)) : Round a d d' out := by
  unfold serve at h
  obtain ⟨⟨child, dropped, item?⟩, hchild, h⟩ := bind_eq_ok.mp h
  rcases CoDelQueueDisc.doDequeue_eq_ok hchild with
    ⟨rfl, rfl, hempty, hempty'⟩ | ⟨item, rfl, htaken⟩
  · simp only at h
    split at h
    · next k' rest hnew =>
        cases h
        obtain rfl : k' = k := by simpa [front, hnew] using hfront
        exact .demote hnew hpos hempty hempty'
    · next hnew =>
        cases h
        exact .retire hnew (old_of_front hfront hnew) hpos hempty hempty'
  · cases h
    exact .sent hfront hpos htaken

theorem visit_round {out : Visit α} (h : d.visit a now = .ok (d', out)) : Round a d d' out := by
  unfold visit at h
  split at h
  · next k rest hnew =>
      simp only at h
      split at h
      · next hdef =>
          cases h
          exact .replenishNew hnew hdef
      · next hdef =>
          have hfront : d.front = some k := by simp [front, hnew]
          exact serve_round hfront (by omega) h
  · next hnew =>
      split at h
      · next k rest hold =>
          simp only at h
          split at h
          · next hdef =>
              cases h
              exact .replenishOld hnew hold hdef
          · next hdef =>
              have hfront : d.front = some k := by simp [front, hnew, hold]
              exact serve_round hfront (by omega) h
      · next hold =>
          cases h
          exact .nothing hnew hold

theorem doDequeue_rounds {fuel : Nat} {out : Option (Nat × QueueDiscItem α)}
    (h : d.doDequeue a fuel now = .ok (d', out)) :
    ∃ mid, Relation.ReflTransGen (fun s t => Round a s t .again) d mid ∧
      ((out = none ∧ Round a mid d' .nothing) ∨
        ∃ k item, out = some (k, item) ∧ Round a mid d' (.sent k item)) := by
  induction fuel generalizing d with
  | zero => cases h
  | succ fuel ih =>
    unfold doDequeue at h
    obtain ⟨⟨t, outcome⟩, hvisit, h⟩ := bind_eq_ok.mp h
    have hround := visit_round hvisit
    cases outcome with
    | nothing =>
      cases h
      exact ⟨d, .refl, .inl ⟨rfl, hround⟩⟩
    | again =>
      obtain ⟨mid, hrest, hlast⟩ := ih h
      exact ⟨mid, .head hround hrest, hlast⟩
    | sent k item =>
      cases h
      exact ⟨d, .refl, .inr ⟨k, item, rfl, hround⟩⟩

/-! ## The steps of an enqueue -/

theorem doEnqueue_eq_ok {item : QueueDiscItem α} {b : Bool}
    (h : d.doEnqueue a item now = .ok (d', b)) :
    (a.flowHash item.packet = none ∧ d' = d) ∨
      ∃ x tagged q found k, a.flowHash item.packet = some x ∧ d.queueOf a x = .ok (tagged, q) ∧
        tagged.findFlow a q = (found, k) ∧
        (d' = (found.activate a k).enqueueChild k item now ∨
          ((found.activate a k).enqueueChild k item now).fqCoDelDrop a = .ok d') := by
  unfold doEnqueue at h
  split at h
  · next hnone =>
      cases h
      exact .inl ⟨hnone, rfl⟩
  · next x hx =>
      obtain ⟨⟨tagged, q⟩, hqueue, h⟩ := bind_eq_ok.mp h
      refine .inr ⟨x, tagged, q, (tagged.findFlow a q).1, (tagged.findFlow a q).2, hx,
        hqueue, rfl, ?_⟩
      simp only at h
      split at h
      · obtain ⟨t, hdrop, h⟩ := bind_eq_ok.mp h
        cases h
        exact .inr hdrop
      · cases h
        exact .inl rfl

theorem queueOf_eq_ok {x q : Nat} (h : d.queueOf a x = .ok (d', q)) :
    ∃ tags, d' = { d with tags } := by
  unfold queueOf at h
  split at h
  · unfold setAssociativeHash at h
    split at h
    · cases h
    · split at h <;>
      · cases h
        exact ⟨_, rfl⟩
  · split at h
    · cases h
    · cases h
      exact ⟨d.tags, rfl⟩

theorem findFlow_cases {q : Nat} (h : d.findFlow a q = (d', k)) :
    (d.flowsIndices.lookup q = some k ∧ d' = d) ∨
      (d.flowsIndices.lookup q = none ∧ k = d.classes.length ∧
        d' = { d with
          classes := d.classes ++ [a.createFlow q]
          flowsIndices := (q, d.classes.length) :: d.flowsIndices }) := by
  unfold findFlow at h
  split at h
  · next hnone =>
      cases h
      exact .inr ⟨hnone, rfl, rfl⟩
  · next hsome =>
      cases h
      exact .inl ⟨hsome, rfl⟩

theorem dropBatch_suffix {batch threshold : Nat} {queue rest : List (QueueDiscItem α)}
    {count len n : Nat} (h : dropBatch batch threshold queue count len = .ok (rest, n)) :
    rest <:+ queue := by
  induction queue generalizing count len with
  | nil => cases h
  | cons item queue ih =>
    unfold dropBatch at h
    simp only at h
    split at h
    · exact (ih h).trans (List.suffix_cons item queue)
    · obtain ⟨rfl, -⟩ := pair_of_ok h
      exact List.suffix_cons item queue

theorem fqCoDelDrop_eq_ok (h : d.fqCoDelDrop a = .ok d') :
    ∃ i queue n, queue <:+ (d.flow i).queueDisc.queue ∧
      d' = { d.setFlow i { d.flow i with queueDisc := { (d.flow i).queueDisc with queue } }
        with nPackets := n } := by
  unfold fqCoDelDrop at h
  obtain ⟨⟨queue, count⟩, hbatch, rfl⟩ := bind_pure_eq_ok.mp h
  exact ⟨_, queue, _, dropBatch_suffix hbatch, rfl⟩

end Ns3.FqCoDelQueueDisc
