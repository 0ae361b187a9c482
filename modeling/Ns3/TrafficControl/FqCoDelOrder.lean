/-
  The order in which FqCoDel returns the packets
  of a flow hash.

  The flows of a FqCoDel queue disc are lanes.  Without the set-associative hash the lane
  of a packet is a function of its hash; with it, the lane depends on the tags and the
  activity of the queues of the set, and can change while packets of the hash wait.
-/
import Ns3.Lib.Run
import Ns3.TrafficControl.FqCoDelRounds
import Ns3.Lib.Turns

namespace Ns3.FqCoDelQueueDisc

open Ns3.Lib

variable {α : Type} {a : FqCoDelAttributes α} {d d' : FqCoDelQueueDisc α}

/-! ## Steps that only lose packets -/

variable {out : Option (Nat × QueueDiscItem α)}

variable {k fuel : Nat}

/-- The flows stay where they are, and their lanes lose packets at most. -/
structure Thins (d d' : FqCoDelQueueDisc α) : Prop where
  /-- the queues stay those of the same flows -/
  indices : d'.flowsIndices = d.flowsIndices
  length : d'.classes.length = d.classes.length
  index : ∀ k, (d'.flow k).index = (d.flow k).index
  /-- the lanes lose packets at most -/
  lanes : ∀ k, (d'.lane k).Sublist (d.lane k)

theorem Thins.refl (d : FqCoDelQueueDisc α) : Thins d d :=
  ⟨rfl, rfl, fun _ => rfl, fun _ => .refl _⟩

theorem Thins.trans {d'' : FqCoDelQueueDisc α} (h : Thins d d') (h' : Thins d' d'') :
    Thins d d'' :=
  ⟨h'.indices.trans h.indices, h'.length.trans h.length,
    fun k => (h'.index k).trans (h.index k), fun k => (h'.lanes k).trans (h.lanes k)⟩

variable {f : FqCoDelFlow α}

theorem Thins.setFlow (hindex : f.index = (d.flow k).index)
    (hlane : (f.queueDisc.queue.map (·.packet)).Sublist (d.lane k)) : Thins d (d.setFlow k f) := by
  refine ⟨rfl, length_setFlow d k f, flow_setFlow_same _ hindex, fun j => ?_⟩
  unfold lane
  rw [flow_setFlow]
  split
  · next h =>
      obtain ⟨rfl, -⟩ := h
      exact hlane
  · exact .refl _

variable {e : FqCoDelQueueDisc α}

theorem Thins.relist (h : Thins d d') (hindices : e.flowsIndices = d'.flowsIndices)
    (hclasses : e.classes = d'.classes) : Thins d e := by
  have hflow : ∀ k, e.flow k = d'.flow k := fun k => by rw [flow, flow, hclasses]
  refine ⟨hindices.trans h.indices, hclasses ▸ h.length, fun k => ?_, fun k => ?_⟩
  · rw [hflow k]
    exact h.index k
  · rw [lane, hflow k]
    exact h.lanes k

theorem Thins.of_setFlow (hclasses : e.classes = (d.setFlow k f).classes)
    (hindices : e.flowsIndices = d.flowsIndices) (hindex : f.index = (d.flow k).index)
    (hlane : (f.queueDisc.queue.map (·.packet)).Sublist (d.lane k)) : Thins d e :=
  (Thins.setFlow hindex hlane).relist hindices hclasses

theorem Round.thins_again (h : Round a d d' .again) : Thins d d' ∧ ∀ k, d'.lane k = d.lane k := by
  -- in every case one flow changes, whose queue stays the same
  have hset : ∀ (k : Nat) (f : FqCoDelFlow α) (e : FqCoDelQueueDisc α),
      e.classes = (d.setFlow k f).classes → e.flowsIndices = d.flowsIndices →
      f.index = (d.flow k).index → f.queueDisc.queue = (d.flow k).queueDisc.queue →
      Thins d e ∧ ∀ k, e.lane k = d.lane k := by
    intro k f e hclasses hindices hindex hqueue
    constructor
    · refine .of_setFlow hclasses hindices hindex ?_
      rw [lane, hqueue]
    · intro j
      have hflow : e.flow j = (d.setFlow k f).flow j := by rw [flow, flow, hclasses]
      have hsame : ((d.setFlow k f).flow j).queueDisc.queue = (d.flow j).queueDisc.queue :=
        flow_setFlow_same (fun f => f.queueDisc.queue) hqueue j
      rw [lane, lane, hflow, hsame]
  cases h with
  | replenishNew _ _ => exact hset _ _ _ rfl rfl rfl rfl
  | replenishOld _ _ _ => exact hset _ _ _ rfl rfl rfl rfl
  | demote _ _ hempty hempty' => exact hset _ _ _ rfl rfl rfl (hempty'.trans hempty.symm)
  | retire _ _ _ hempty hempty' => exact hset _ _ _ rfl rfl rfl (hempty'.trans hempty.symm)

variable {item : QueueDiscItem α}

theorem Round.thins_sent (h : Round a d d' (.sent k item)) :
    Thins d d' ∧ ∃ dropped rest, d.lane k = dropped ++ item.packet :: rest ∧ d'.lane k = rest ∧
      ∀ j, j ≠ k → d'.lane j = d.lane j := by
  cases h with
  | @sent k n child dropped item hfront hpos htaken =>
    obtain ⟨head, hqueue, hpacket, -⟩ := htaken
    have hlane :
        d.lane k = dropped.map (·.packet) ++ item.packet :: child.queue.map (·.packet) := by
      rw [lane, hqueue, hpacket]
      simp
    have hk : k < d.classes.length :=
      lt_length_of_mem_lane (p := item.packet) (by rw [hlane]; simp)
    refine ⟨.of_setFlow rfl rfl rfl ?_, _, _, hlane, ?_, fun j hj => ?_⟩
    · rw [hlane]
      exact (List.sublist_cons_self _ _).trans (List.sublist_append_right _ _)
    · have := flow_setFlow_self { d.flow k with
        queueDisc := child
        deficit := (d.flow k).deficit + signed 32 (wsub 32 0 item.size) } hk
      exact congrArg (fun f => f.queueDisc.queue.map (·.packet)) this
    · exact lane_setFlow_ne _ hj

theorem rounds_again (h : Relation.ReflTransGen (fun s t => Round a s t .again) d d') :
    Thins d d' ∧ ∀ k, d'.lane k = d.lane k := by
  induction h with
  | refl => exact ⟨.refl d, fun _ => rfl⟩
  | tail _ hround ih =>
    obtain ⟨hthin, hlane⟩ := hround.thins_again
    exact ⟨ih.1.trans hthin, fun k => (hlane k).trans (ih.2 k)⟩

variable {now : Time}

theorem doDequeue_thins (h : d.doDequeue a fuel now = .ok (d', out)) :
    Thins d d' ∧ ∀ k item, out = some (k, item) → ∃ dropped rest,
      d.lane k = dropped ++ item.packet :: rest ∧ d'.lane k = rest ∧
        ∀ j, j ≠ k → d'.lane j = d.lane j := by
  obtain ⟨mid, hrounds, ⟨rfl, hlast⟩ | ⟨k, item, rfl, hlast⟩⟩ := doDequeue_rounds h
  · cases hlast
    exact ⟨(rounds_again hrounds).1, fun k item hitem => by cases hitem⟩
  · obtain ⟨hthin, hsame⟩ := rounds_again hrounds
    obtain ⟨hthin', dropped, rest, hk, hk', hj⟩ := hlast.thins_sent
    refine ⟨hthin.trans hthin', fun k' item' hitem => ?_⟩
    cases hitem
    exact ⟨dropped, rest, (hsame k).symm.trans hk, hk', fun j hne => (hj j hne).trans (hsame j)⟩

/-! ## The queue of a packet -/

/-- Every queue is that of the flow found for it. -/
structure Indexed (d : FqCoDelQueueDisc α) : Prop where
  /-- the flow found for a queue has its index -/
  found : ∀ q k, d.flowsIndices.lookup q = some k → k < d.classes.length ∧ (d.flow k).index = q
  find : ∀ k, k < d.classes.length → d.flowsIndices.lookup (d.flow k).index = some k

theorem Indexed.thin (h : Indexed d) (hthin : Thins d d') : Indexed d' := by
  constructor
  · intro q k hk
    rw [hthin.indices] at hk
    rw [hthin.length, hthin.index k]
    exact h.found q k hk
  · intro k hk
    rw [hthin.length] at hk
    rw [hthin.indices, hthin.index k]
    exact h.find k hk

theorem findFlow_indexed {q : Nat} (h : Indexed d) (hfind : d.findFlow a q = (d', k)) :
    Indexed d' ∧ k < d'.classes.length ∧ (d'.flow k).index = q ∧ (∀ j, d'.lane j = d.lane j) ∧
      ∀ j, j < d.classes.length → (d'.flow j).index = (d.flow j).index := by
  rcases findFlow_cases hfind with ⟨hsome, rfl⟩ | ⟨hnone, rfl, rfl⟩
  · obtain ⟨hlt, hindex⟩ := h.found q k hsome
    exact ⟨h, hlt, hindex, fun _ => rfl, fun _ _ => rfl⟩
  · have hold : ∀ j, j < d.classes.length →
        ({ d with
            classes := d.classes ++ [a.createFlow q]
            flowsIndices := (q, d.classes.length) :: d.flowsIndices } :
          FqCoDelQueueDisc α).flow j = d.flow j := by
      intro j hj
      simp [flow, List.getD_eq_getElem?_getD, List.getElem?_append_left hj]
    have hnew : ({ d with
            classes := d.classes ++ [a.createFlow q]
            flowsIndices := (q, d.classes.length) :: d.flowsIndices } :
          FqCoDelQueueDisc α).flow d.classes.length = a.createFlow q := by
      simp [flow, List.getD_eq_getElem?_getD]
    have hlen : (d.classes ++ [a.createFlow q]).length = d.classes.length + 1 := by simp
    refine ⟨⟨fun r j hr => ?_, fun j hj => ?_⟩, ?_, ?_, fun j => ?_, fun j hj => ?_⟩
    · rw [List.lookup_cons] at hr
      by_cases hq : r = q
      · subst hq
        obtain rfl : d.classes.length = j := by simpa using hr
        exact ⟨by rw [hlen]; exact Nat.lt_succ_self _, by rw [hnew]; rfl⟩
      · rw [beq_eq_false_iff_ne.mpr hq] at hr
        obtain ⟨hlt, hindex⟩ := h.found r j hr
        exact ⟨by rw [hlen]; exact Nat.lt_succ_of_lt hlt, by rw [hold j hlt]; exact hindex⟩
    · simp only [hlen] at hj
      by_cases hlt : j < d.classes.length
      · rw [hold j hlt, List.lookup_cons]
        have hfound := h.find j hlt
        have hq : (d.flow j).index ≠ q := by
          intro hq
          rw [hq, hnone] at hfound
          cases hfound
        rw [beq_eq_false_iff_ne.mpr hq]
        exact hfound
      · obtain rfl : j = d.classes.length := by omega
        rw [hnew]
        simp [FqCoDelAttributes.createFlow]
    · simp
    · rw [hnew]
      rfl
    · unfold lane
      by_cases hlt : j < d.classes.length
      · rw [hold j hlt]
      · rw [flow_of_length_le (d := d) (by omega)]
        by_cases heq : j = d.classes.length
        · subst heq
          rw [hnew]
          rfl
        · rw [flow_of_length_le]
          simp only [hlen]
          omega
    · rw [hold j hj]

/-- `i` is where the search of `SetAssociativeHash` ends: every queue of the set before it
is used by other flows, and it has the tag of the hash or is the one that serves when no
queue of the set can be used. -/
def SearchEndsAt (a : FqCoDelAttributes α) (d : FqCoDelQueueDisc α) (x i : Nat) : Prop :=
  i ∈ a.wayQueues x ∧ (∀ j ∈ a.wayQueues x, j < i → d.usable x j = false) ∧
    (d.tags.lookup i = some x ∨
      i = a.outerHash x ∧ ∀ j ∈ a.wayQueues x, d.usable x j = false)

instance (a : FqCoDelAttributes α) (d : FqCoDelQueueDisc α) (x i : Nat) :
    Decidable (SearchEndsAt a d x i) :=
  inferInstanceAs (Decidable (_ ∧ _ ∧ (_ ∨ _ ∧ _)))

/-- Where packets of the hash of `p` wait, the search of `SetAssociativeHash` ends. -/
def KeepsQueue (a : FqCoDelAttributes α) (d : FqCoDelQueueDisc α) (p : α) : Prop :=
  a.enableSetAssociativeHash = true → ∀ x, a.flowHash p = some x →
    ∀ k, ∀ q ∈ d.lane k, a.flowHash q = some x → SearchEndsAt a d x (d.flow k).index

instance (a : FqCoDelAttributes α) (d : FqCoDelQueueDisc α) (p : α) :
    Decidable (KeepsQueue a d p) :=
  decidable_of_iff (a.enableSetAssociativeHash = true → ∀ x ∈ a.flowHash p,
      ∀ k < d.classes.length, ∀ q ∈ d.lane k, a.flowHash q = some x →
        SearchEndsAt a d x (d.flow k).index)
    ⟨fun h hon x hx k q hq => h hon x hx k (lt_length_of_mem_lane hq) q hq,
      fun h hon x hx k _ q hq => h hon x hx k q hq⟩

theorem usable_of_tag {x i : Nat} (h : d.tags.lookup i = some x) : d.usable x i = true := by
  unfold usable
  split
  · rfl
  · simp [h]

theorem setAssociativeHash_of_ends {x i q : Nat} (hends : SearchEndsAt a d x i)
    (h : d.setAssociativeHash a x = .ok (d', q)) : q = i := by
  obtain ⟨hmem, hbefore, hwhy⟩ := hends
  unfold setAssociativeHash at h
  split at h
  · cases h
  · split at h
    · next j hfind =>
        obtain ⟨-, rfl⟩ := pair_of_ok h
        obtain ⟨husable, before, after, hset, hnone⟩ := List.find?_eq_some_iff_append.mp hfind
        have hj : j ∈ a.wayQueues x := by rw [hset]; simp
        rcases hwhy with htag | ⟨-, hnever⟩
        · rcases Nat.lt_trichotomy j i with hlt | heq | hgt
          · rw [hbefore j hj hlt] at husable
            cases husable
          · exact heq
          · -- a queue with the tag of the hash comes first
            rw [hset] at hmem
            rcases List.mem_append.mp hmem with hb | ha
            · have := hnone i hb
              rw [usable_of_tag htag] at this
              cases this
            · rcases List.mem_cons.mp ha with heq | ha
              · exact heq.symm
              · have hsorted : (a.wayQueues x).Pairwise (· < ·) := List.pairwise_lt_range'
                rw [hset] at hsorted
                have := (List.pairwise_cons.mp (List.pairwise_append.mp hsorted).2.1).1 i ha
                omega
        · rw [hnever j hj] at husable
          cases husable
    · next hfind =>
        cases h
        rcases hwhy with htag | ⟨houter, -⟩
        · have := List.find?_eq_none.mp hfind i hmem
          rw [usable_of_tag htag] at this
          exact absurd rfl this
        · exact houter.symm

/-! ## Runs -/

/-- A call of the disc, and when it is made. -/
inductive Call (α : Type) where
  | enqueue (item : QueueDiscItem α) (now : Time)
  | dequeue (now : Time)

/-- The disc, and the items offered to it and returned by it so far. -/
structure History (α : Type) where
  disc : FqCoDelQueueDisc α := {}
  /-- the items of the calls of `DoEnqueue`, in order -/
  offered : List (QueueDiscItem α) := []
  /-- the items returned by `DoDequeue`, in order, with their flows -/
  returned : List (Nat × QueueDiscItem α) := []
  deriving DecidableEq

def History.packetsIn (s : History α) : List α := s.offered.map (·.packet)

def History.packetsOut (s : History α) : List α := s.returned.map (·.2.packet)

/-- One call; a dequeue makes `fuel` rounds at most. -/
def exec (a : FqCoDelAttributes α) (fuel : Nat) (s : History α) :
    Call α → Except Fault (History α)
  | .enqueue item now => do
      let (d, _) ← s.disc.doEnqueue a item now
      pure { s with disc := d, offered := s.offered ++ [item] }
  | .dequeue now => do
      let (d, out) ← s.disc.doDequeue a fuel now
      pure { s with disc := d, returned := s.returned ++ out.toList }

def execAll (a : FqCoDelAttributes α) (fuel : Nat) (s : History α) (calls : List (Call α)) :
    Except Fault (History α) :=
  calls.foldlM (exec a fuel) s

variable {s : History α} {calls : List (Call α)}

theorem execAll_concat {t : History α} {call : Call α} :
    execAll a fuel s (calls ++ [call]) = .ok t ↔
      ∃ u, execAll a fuel s calls = .ok u ∧ exec a fuel u call = .ok t := by
  unfold execAll
  rw [List.foldlM_append, bind_eq_ok]
  simp

/-- Each flow keeps to its queue, each hash to its flow, and the packets of a hash to
their order. -/
structure Ordered (a : FqCoDelAttributes α) (s : History α) : Prop where
  /-- the flows are found by their queues -/
  indexed : Indexed s.disc
  /-- without the set-associative hash the queue of a packet is a function of its hash -/
  hashed : a.enableSetAssociativeHash = false → ∀ k, ∀ p ∈ s.disc.lane k, ∀ x,
    a.flowHash p = some x → x % a.flows = (s.disc.flow k).index
  /-- no hash has packets in two queues -/
  separate : SingleLane a.flowHash s.disc.lane
  /-- the packets of a hash are in order -/
  inOrder : InOrder a.flowHash s.disc.lane s.packetsIn s.packetsOut

theorem ordered_start (a : FqCoDelAttributes α) : Ordered a ({} : History α) := by
  have hlane : ∀ k, ({} : FqCoDelQueueDisc α).lane k = [] := fun _ => rfl
  refine ⟨⟨?_, ?_⟩, ?_, ?_, ?_⟩
  · intro q k hk
    cases hk
  · intro k hk
    cases hk
  · intro _ k p hp
    cases hp
  · intro i j p hp
    cases hp
  · intro x i
    rw [hlane]
    exact .refl _

theorem Ordered.thin (h : Ordered a s) (hthin : Thins s.disc d') :
    Ordered a { s with disc := d' } where
  indexed := h.indexed.thin hthin
  hashed := fun hoff k p hp x hx =>
    (h.hashed hoff k p ((hthin.lanes k).subset hp) x hx).trans (hthin.index k).symm
  separate := h.separate.thin hthin.lanes
  inOrder := h.inOrder.thin hthin.lanes

theorem Ordered.refuse (h : Ordered a s) (item : QueueDiscItem α) :
    Ordered a { s with offered := s.offered ++ [item] } := by
  refine ⟨h.indexed, h.hashed, h.separate, ?_⟩
  rw [History.packetsIn, List.map_append]
  exact h.inOrder.refuse

theorem Ordered.dequeue (h : Ordered a s) (hd : s.disc.doDequeue a fuel now = .ok (d', out)) :
    Ordered a { s with disc := d', returned := s.returned ++ out.toList } := by
  obtain ⟨hthin, hsent⟩ := doDequeue_thins hd
  have hkept := h.thin hthin
  refine ⟨hkept.indexed, hkept.hashed, hkept.separate, ?_⟩
  cases out with
  | none =>
    rw [Option.toList_none, List.append_nil]
    exact hkept.inOrder
  | some sent =>
    obtain ⟨dropped, rest, hk, hk', hj⟩ := hsent sent.1 sent.2 rfl
    rw [History.packetsOut, List.map_append]
    exact h.inOrder.leave h.separate hk hk' hj

theorem Ordered.own_lane (h : Ordered a s) {p : α} (hkeeps : KeepsQueue a s.disc p) {x q : Nat}
    {tagged : FqCoDelQueueDisc α} (hx : a.flowHash p = some x)
    (hqueue : s.disc.queueOf a x = .ok (tagged, q)) (hfind : tagged.findFlow a q = (d', k)) :
    ∀ j, ∀ r ∈ s.disc.lane j, a.flowHash r = a.flowHash p → j = k := by
  intro j r hr hkey
  -- the packets of the hash wait in queue `q`
  have hindex : (s.disc.flow j).index = q := by
    unfold queueOf at hqueue
    split at hqueue
    · next hon =>
        exact (setAssociativeHash_of_ends (hkeeps hon x hx j r hr (hkey.trans hx)) hqueue).symm
    · next hoff =>
        split at hqueue
        · cases hqueue
        · cases hqueue
          exact (h.hashed (by simpa using hoff) j r hr x (hkey.trans hx)).symm
  have hj : s.disc.flowsIndices.lookup q = some j := by
    rw [← hindex]
    exact h.indexed.find j (lt_length_of_mem_lane hr)
  obtain ⟨tags, rfl⟩ := queueOf_eq_ok hqueue
  rcases findFlow_cases hfind with ⟨hsome, -⟩ | ⟨hnone, -, -⟩
  · exact Option.mem_unique hj hsome
  · have hnone' : s.disc.flowsIndices.lookup q = none := hnone
    rw [hj] at hnone'
    cases hnone'

theorem Ordered.find (h : Ordered a s) {q : Nat} (hfind : s.disc.findFlow a q = (d', k)) :
    Ordered a { s with disc := d' } ∧ k < d'.classes.length ∧ (d'.flow k).index = q ∧
      d'.lane = s.disc.lane := by
  obtain ⟨hindexed, hlt, hindex, hlane, hold⟩ := findFlow_indexed h.indexed hfind
  have hlanes : d'.lane = s.disc.lane := funext hlane
  refine ⟨⟨hindexed, fun hoff j p hp x hx => ?_, ?_, ?_⟩, hlt, hindex, hlanes⟩
  · have hp' : p ∈ s.disc.lane j := hlane j ▸ hp
    exact (h.hashed hoff j p hp' x hx).trans (hold j (lt_length_of_mem_lane hp')).symm
  · exact hlanes ▸ h.separate
  · exact hlanes ▸ h.inOrder

theorem activate_thins (d : FqCoDelQueueDisc α) (k : Nat) :
    Thins d (d.activate a k) ∧ (d.activate a k).lane = d.lane := by
  unfold activate
  split
  · have hqueue := flow_setFlow_same (d := d) (k := k) (fun f => f.queueDisc.queue)
      (f := { d.flow k with status := .newFlow, deficit := signed 32 a.quantum }) rfl
    refine ⟨.of_setFlow rfl rfl rfl (.refl _), ?_⟩
    funext j
    exact congrArg (List.map (·.packet)) (hqueue j)
  · exact ⟨.refl d, rfl⟩

theorem enqueueChild_lane (item : QueueDiscItem α) (now : Time) (hk : k < d.classes.length) :
    Thins d (d.enqueueChild k item now) ∨
      ((d.enqueueChild k item now).flowsIndices = d.flowsIndices ∧
        (d.enqueueChild k item now).classes.length = d.classes.length ∧
        (∀ j, ((d.enqueueChild k item now).flow j).index = (d.flow j).index) ∧
        (d.enqueueChild k item now).lane k = d.lane k ++ [item.packet] ∧
        ∀ j, j ≠ k → (d.enqueueChild k item now).lane j = d.lane j) := by
  unfold enqueueChild
  rcases CoDelQueueDisc.enqueue_cases (d.flow k).queueDisc item now with heq | heq
  · rw [heq]
    exact .inl (.of_setFlow rfl rfl rfl (.refl _))
  · rw [heq]
    refine .inr ⟨rfl, length_setFlow d k _, flow_setFlow_same _ rfl, ?_, fun j hj => ?_⟩
    · have hself := flow_setFlow_self { d.flow k with
        queueDisc := { (d.flow k).queueDisc with
          queue := (d.flow k).queueDisc.queue ++ [{ item with timeStamp := now }] } } hk
      have hqueue := congrArg (fun f => f.queueDisc.queue.map (·.packet)) hself
      refine Eq.trans hqueue ?_
      simp [lane]
    · exact lane_setFlow_ne _ hj

theorem fqCoDelDrop_thins (h : d.fqCoDelDrop a = .ok d') : Thins d d' := by
  obtain ⟨i, queue, n, hsuffix, rfl⟩ := fqCoDelDrop_eq_ok h
  exact .of_setFlow rfl rfl rfl (hsuffix.sublist.map _)

theorem Ordered.enqueue (h : Ordered a s) {b : Bool} (hkeeps : KeepsQueue a s.disc item.packet)
    (hd : s.disc.doEnqueue a item now = .ok (d', b)) :
    Ordered a { s with disc := d', offered := s.offered ++ [item] } := by
  have hrefuse : ∀ e, Thins s.disc e →
      Ordered a { s with disc := e, offered := s.offered ++ [item] } :=
    fun e he => (h.thin he).refuse item
  rcases doEnqueue_eq_ok hd with ⟨-, rfl⟩ | ⟨x, tagged, q, found, k, hx, hqueue, hfind, hdisc⟩
  · exact hrefuse _ (.refl _)
  have hown := h.own_lane hkeeps hx hqueue hfind
  -- without the set-associative hash the queue is the one of the hash
  have hq : a.enableSetAssociativeHash = false → x % a.flows = q := by
    intro hoff
    unfold queueOf at hqueue
    rw [if_neg (by simp [hoff])] at hqueue
    split at hqueue
    · cases hqueue
    · exact (pair_of_ok hqueue).2
  have htagged : Ordered a { s with disc := tagged } := by
    obtain ⟨tags, rfl⟩ := queueOf_eq_ok hqueue
    exact h.thin ((Thins.refl s.disc).relist rfl rfl)
  have hsame : tagged.lane = s.disc.lane := by
    obtain ⟨tags, rfl⟩ := queueOf_eq_ok hqueue
    rfl
  obtain ⟨hfound, hlt, hindex, hlanes⟩ := htagged.find hfind
  obtain ⟨hthin, hact⟩ := activate_thins (a := a) found k
  have hactive := hfound.thin hthin
  have hlt' : k < (found.activate a k).classes.length := by rw [hthin.length]; exact hlt
  have hjoined : Ordered a
      { s with
        disc := (found.activate a k).enqueueChild k item now
        offered := s.offered ++ [item] } := by
    rcases enqueueChild_lane item now hlt' with hthin' | ⟨hi, hl, hix, hk, hj⟩
    · exact (hactive.thin hthin').refuse item
    · have hown' : ∀ j, ∀ r ∈ (found.activate a k).lane j, a.flowHash r = a.flowHash item.packet →
          j = k := by
        rw [hact, hlanes]
        exact hsame ▸ hown
      refine ⟨⟨fun r j hr => ?_, fun j hlj => ?_⟩, fun hoff j p hp y hy => ?_,
        hactive.separate.arrive hk hj hown', ?_⟩
      · rw [hl, hix]
        rw [hi] at hr
        exact hactive.indexed.found r j hr
      · rw [hi, hix]
        rw [hl] at hlj
        exact hactive.indexed.find j hlj
      · rw [hix]
        by_cases hjk : j = k
        · subst hjk
          rw [hk] at hp
          rcases List.mem_append.mp hp with hp | hp
          · exact hactive.hashed hoff j p hp y hy
          · obtain rfl := List.mem_singleton.mp hp
            obtain rfl : x = y := Option.mem_unique hx hy
            rw [hthin.index, hindex]
            exact hq hoff
        · rw [hj j hjk] at hp
          exact hactive.hashed hoff j p hp y hy
      · rw [History.packetsIn, List.map_append]
        exact hactive.inOrder.arrive hk hj
  rcases hdisc with rfl | hdrop
  · exact hjoined
  · exact hjoined.thin (fqCoDelDrop_thins hdrop)

theorem Ordered.exec {t : History α} {call : Call α} (h : Ordered a s)
    (hkeeps : ∀ item now, call = .enqueue item now → KeepsQueue a s.disc item.packet)
    (hrun : exec a fuel s call = .ok t) : Ordered a t := by
  cases call with
  | enqueue item now =>
    obtain ⟨⟨d, b⟩, hd, rfl⟩ := bind_pure_eq_ok.mp hrun
    exact h.enqueue (hkeeps item now rfl) hd
  | dequeue now =>
    obtain ⟨⟨d, out⟩, hd, rfl⟩ := bind_pure_eq_ok.mp hrun
    exact h.dequeue hd

/-- Packets of one flow leave in the order they came. -/
theorem ordered_execAll (hrun : execAll a fuel {} calls = .ok s)
    (hkeeps : ∀ past item now t, past ++ [Call.enqueue item now] <+: calls →
      execAll a fuel {} past = .ok t → KeepsQueue a t.disc item.packet) :
    Ordered a s := by
  induction calls using List.reverseRecOn generalizing s with
  | nil =>
    cases hrun
    exact ordered_start a
  | append_singleton calls call ih =>
    obtain ⟨t, ht, hcall⟩ := execAll_concat.mp hrun
    have hprev : Ordered a t :=
      ih ht fun past item now u hpre => hkeeps past item now u
        (hpre.trans (List.prefix_append calls [call]))
    refine hprev.exec (fun item now hcall' => ?_) hcall
    subst hcall'
    exact hkeeps calls item now t (List.prefix_refl _) ht

/-- **Order.**  In every run in which the search for a queue ends where packets of the arriving
packet's hash still wait, no hash has packets in two queues and the packets of each are returned in
the order they were offered. -/
theorem execAll_inOrder (a : FqCoDelAttributes α) (fuel : Nat) (calls : List (Call α))
    (s : History α) (hrun : execAll a fuel {} calls = .ok s)
    (hkeeps : ∀ past item now t, past ++ [Call.enqueue item now] <+: calls →
      execAll a fuel {} past = .ok t → KeepsQueue a t.disc item.packet) :
    (∀ i j, ∀ p ∈ s.disc.lane i, ∀ q ∈ s.disc.lane j, a.flowHash p = a.flowHash q → i = j) ∧
      ∀ x, (s.packetsOut.filter fun p => a.flowHash p = x).Sublist
        (s.packetsIn.filter fun p => a.flowHash p = x) := by
  have h := ordered_execAll hrun hkeeps
  exact ⟨h.separate, fun x => h.inOrder.sent_sublist 0 x⟩

def twoWay : FqCoDelAttributes (Nat × Nat) where
  flows := 2
  setWays := 2
  quantum := 1500
  dropBatchSize := 64
  enableSetAssociativeHash := true
  maxSize := 10240
  perturbation := 0
  filters := []
  hash := fun p _ => p.1
  codel :=
    { useEcn := true, useL4s := false, minBytes := 1500, interval := 100000000, target := 5000000
      ceThreshold := Time.max, maxSize := ⟨.packets, 10240⟩ }

def packet (hash number size : Nat) : QueueDiscItem (Nat × Nat) :=
  { packet := (hash, number), size, timeStamp := 0, dsField := none }

/-- Two packets of one hash find the same queue, with another hash in the set. -/
theorem execAll_inOrder_twoWay :
    ∃ s, execAll twoWay 10 {} [.enqueue (packet 0 0 100) 0, .enqueue (packet 2 1 100) 0,
        .enqueue (packet 2 2 100) 0, .dequeue 0] = .ok s ∧
      (∀ i j, ∀ p ∈ s.disc.lane i, ∀ q ∈ s.disc.lane j,
        twoWay.flowHash p = twoWay.flowHash q → i = j) ∧
      ∀ x, (s.packetsOut.filter fun p => twoWay.flowHash p = x).Sublist
        (s.packetsIn.filter fun p => twoWay.flowHash p = x) := by
  obtain ⟨s, hs⟩ : ∃ s, execAll twoWay 10 {} [.enqueue (packet 0 0 100) 0,
      .enqueue (packet 2 1 100) 0, .enqueue (packet 2 2 100) 0, .dequeue 0] = .ok s := ⟨_, rfl⟩
  refine ⟨s, hs, execAll_inOrder twoWay 10 _ s hs ?_⟩
  intro past item now t hpre ht
  obtain ⟨rfl, hcall⟩ | ⟨_, rfl, hpre₁⟩ := before_cons hpre
  · cases hcall
    cases ht
    decide
  obtain ⟨rfl, hcall⟩ | ⟨_, rfl, hpre₂⟩ := before_cons hpre₁
  · cases hcall
    cases ht
    decide
  obtain ⟨rfl, hcall⟩ | ⟨_, rfl, hpre₃⟩ := before_cons hpre₂
  · cases hcall
    cases ht
    decide
  cases (before_singleton hpre₃).2

/-- The first queue of the set becomes inactive while packets wait in the second; the next
packet of their hash is put in the first and returned before them. -/
theorem execAll_reorders :
    ¬∀ (a : FqCoDelAttributes (Nat × Nat)) (fuel : Nat) (calls : List (Call (Nat × Nat)))
        (s : History (Nat × Nat)), a.CheckConfig → execAll a fuel {} calls = .ok s →
      (∀ i j, ∀ p ∈ s.disc.lane i, ∀ q ∈ s.disc.lane j, a.flowHash p = a.flowHash q → i = j) ∧
        ∀ x, (s.packetsOut.filter fun p => a.flowHash p = x).Sublist
          (s.packetsIn.filter fun p => a.flowHash p = x) := by
  intro h
  have hall := h twoWay 10
    [.enqueue (packet 0 0 100) 0, .enqueue (packet 2 1 1500) 0, .enqueue (packet 2 2 1500) 0,
      .enqueue (packet 2 3 1500) 0, .dequeue 0, .dequeue 0, .dequeue 0,
      .enqueue (packet 2 4 1500) 0, .dequeue 0, .dequeue 0] _ (by decide) rfl
  exact absurd (hall.2 (some 2)) (by decide)

end Ns3.FqCoDelQueueDisc
