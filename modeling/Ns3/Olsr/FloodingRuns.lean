/-
  The flood of one message, step by step.

  The invariant speaks about the transmissions of the message in their order: they tell
  for each node whether it has heard the message and from whom first, and with this
  whether it relays it.
-/
import Ns3.Olsr.FloodingInvariant

namespace Ns3

namespace Olsr

open Lib

namespace Network

variable {net : Network} {horizon : Time} {states : Ipv4Address → OlsrState}
  {u v o : Ipv4Address} {σ σ' : State} {κ : Ipv4Address × Nat}

/-- The sets of every node tell what the network is like, until `horizon`. -/
structure Converged (net : Network) (horizon : Time) (states : Ipv4Address → OlsrState) :
    Prop where
  main : ∀ u ∈ net.nodes, (states u).mainAddress = u
  noAssoc : ∀ u ∈ net.nodes, (states u).ifaceAssocSet = []
  links : ∀ u v, net.Adj u v → ∀ now ≤ horizon, ((states u).findSymLinkTuple v now).isSome
  neighbors : ∀ u ∈ net.nodes, ∀ v,
    (∃ n ∈ (states u).neighborSet, n.neighborMainAddr = v ∧ n.status = .sym) ↔ net.Adj u v
  willing : ∀ u ∈ net.nodes, ∀ n ∈ (states u).neighborSet,
    n.willingness ≠ Willingness.NEVER
  twoHops : ∀ u ∈ net.nodes, ∀ v w,
    (∃ t ∈ (states u).twoHopNeighborSet, t.neighborMainAddr = v ∧ t.twoHopNeighborAddr = w) ↔
      net.Adj u v ∧ net.Adj v w ∧ w ≠ u
  mprs : ∀ u ∈ net.nodes, (states u).mprComputation = .ok (states u)
  selectors : ∀ u ∈ net.nodes, ∀ v,
    (∃ t ∈ (states u).mprSelectorSet, t.mainAddr = v) ↔ net.Adj u v ∧ u ∈ (states v).mprSet

theorem Converged.exists_relay (h : Converged net horizon states) {w x : Ipv4Address}
    (huw : net.Adj u w) (hwx : net.Adj w x) (hxu : x ≠ u) (hux : ¬net.Adj u x) :
    ∃ m ∈ (states u).mprSet, net.Adj u m ∧ net.Adj m x := by
  have hu : u ∈ net.nodes := net.mem_of_adj u w huw
  obtain ⟨mprSet, heq, -, hcover⟩ := (states u).mprComputation_covers_iff
  have hmpr : (states u).mprSet = mprSet :=
    congrArg OlsrState.mprSet (Except.ok.inj ((h.mprs u hu).symm.trans heq))
  have hheard : (states u).Heard := fun t ht hw _ =>
    ⟨t, ht, rfl, hw.eligible fun _ _ n' hn' _ _ => h.willing u hu n' hn'⟩
  obtain ⟨t, ht, rfl, rfl⟩ := (h.twoHops u hu w x).mpr ⟨huw, hwx, hxu⟩
  obtain ⟨n, hn, haddr, hsym⟩ := (h.neighbors u hu t.neighborMainAddr).mpr huw
  obtain ⟨t', ht', htarget, hrelay⟩ := hcover.mpr hheard t ht
    ⟨n, hn, haddr, hsym, h.willing u hu n hn⟩ ⟨by rwa [h.main u hu], fun n' hn' hsym' haddr' =>
      hux ((h.neighbors u hu _).mp ⟨n', hn', haddr', hsym'⟩)⟩
  obtain ⟨hadj, hadj', -⟩ :=
    (h.twoHops u hu t'.neighborMainAddr t'.twoHopNeighborAddr).mp ⟨t', ht', rfl, rfl⟩
  exact ⟨t'.neighborMainAddr, hmpr ▸ hrelay, hadj, htarget ▸ hadj'⟩

theorem Converged.retransmits_iff (h : Converged net horizon states) {node : FloodNode}
    (hs : FloodNode.Static (states v) node) (hv : v ∈ net.nodes) (huv : net.Adj u v)
    (msg : MessageHeader) :
    FloodNode.retransmits node.state msg u = true ↔
      1 < msg.timeToLive ∧ v ∈ (states u).mprSet := by
  have hmain : node.state.getMainAddress u = u := by
    have hnone : node.state.ifaceAssocSet = [] := by
      rw [hs]
      exact h.noAssoc v hv
    rw [OlsrState.getMainAddress, hnone]
    rfl
  have hfind : (node.state.findMprSelectorTuple u).isSome = true ↔ v ∈ (states u).mprSet := by
    rw [hs]
    show ((states v).mprSelectorSet.find? fun it => it.mainAddr = u).isSome = true ↔ _
    rw [List.find?_isSome]
    simp only [decide_eq_true_eq]
    rw [h.selectors v hv u]
    exact and_iff_right (net.symm u v huv)
  rw [FloodNode.retransmits, decide_eq_true_eq, hmain, hfind, gt_iff_lt]

/-! ## The invariant -/

variable {msg : MessageHeader} {q : Nat}

/-- Who has sent the message, and as what. -/
def sent (σ : State) (κ : Ipv4Address × Nat) : List (Ipv4Address × MessageHeader) :=
  σ.log.filter fun p => p.2.key = κ

def firstHeard (net : Network) (sent : List (Ipv4Address × MessageHeader)) (v : Ipv4Address) :
    Option (Ipv4Address × MessageHeader) :=
  sent.find? fun p => net.Adj p.1 v

def Stands (net : Network) (states : Ipv4Address → OlsrState)
    (sent : List (Ipv4Address × MessageHeader)) (v : Ipv4Address) (view : FloodView) : Prop :=
  match net.firstHeard sent v with
  | none => view = .unheard ∧ v ∉ sent.map Prod.fst
  | some p =>
    (∃ d, view.dup = some d ∧ v ∈ d.ifaceList) ∧ view.received = true ∧
    if 1 < p.2.timeToLive ∧ v ∈ (states p.1).mprSet then
      view.forwards = 1 ∧
        if v ∈ sent.map Prod.fst then (v, p.2.relayed) ∈ sent ∧ view.copies = []
        else view.copies = [p.2.relayed]
    else view.forwards = 0 ∧ view.copies = [] ∧ v ∉ sent.map Prod.fst

/-- The flood of the message that `o` has made with sequence number `q`. -/
structure FloodInv (net : Network) (states : Ipv4Address → OlsrState) (o : Ipv4Address) (q : Nat)
    (σ : State) : Prop where
  static : ∀ v ∈ net.nodes, FloodNode.Static (states v) (σ.node v)
  origin : (σ.node o).view (o, q) =
    ⟨none, if o ∈ (sent σ (o, q)).map Prod.fst then [] else [.newTc o q], false, 0⟩
  originSent : o ∈ (sent σ (o, q)).map Prod.fst → (o, .newTc o q) ∈ sent σ (o, q)
  stands : ∀ v ∈ net.nodes, v ≠ o → Stands net states (sent σ (o, q)) v ((σ.node v).view (o, q))
  senders : ∀ p ∈ sent σ (o, q), p.1 ∈ net.nodes
  nodup : ((sent σ (o, q)).map Prod.fst).Nodup
  sound : ∀ p ∈ sent σ (o, q), p.2.messageType = .tc ∧ p.2.timeToLive ≠ 0
  hops : ∀ i p, (sent σ (o, q))[i]? = some p → 255 ≤ p.2.timeToLive + i

theorem firstHeard_concat (sent : List (Ipv4Address × MessageHeader))
    (p : Ipv4Address × MessageHeader) (v : Ipv4Address) :
    net.firstHeard (sent ++ [p]) v =
      (net.firstHeard sent v).or (if net.Adj p.1 v then some p else none) := by
  rw [firstHeard, List.find?_append, firstHeard]
  by_cases hadj : net.Adj p.1 v
  · rw [if_pos hadj, List.find?_cons_of_pos (by simpa using hadj)]
  · rw [if_neg hadj, List.find?_cons_of_neg (by simpa using hadj), List.find?_nil]

theorem FloodInv.copies_origin (h : FloodInv net states o q σ)
    (hmsg : msg ∈ ((σ.node o).view (o, q)).copies) :
    o ∉ (sent σ (o, q)).map Prod.fst ∧ msg = .newTc o q ∧
      ((σ.node o).view (o, q)).copies = [msg] := by
  rw [h.origin] at hmsg ⊢
  by_cases hsent : o ∈ (sent σ (o, q)).map Prod.fst
  · rw [if_pos hsent] at hmsg
    cases hmsg
  · rw [if_neg hsent] at hmsg ⊢
    obtain rfl := List.mem_singleton.mp hmsg
    exact ⟨hsent, rfl, rfl⟩

theorem FloodInv.copies_other (h : FloodInv net states o q σ) (hv : v ∈ net.nodes) (hne : v ≠ o)
    (hmsg : msg ∈ ((σ.node v).view (o, q)).copies) :
    ∃ p, net.firstHeard (sent σ (o, q)) v = some p ∧ 1 < p.2.timeToLive ∧
      v ∈ (states p.1).mprSet ∧ v ∉ (sent σ (o, q)).map Prod.fst ∧ msg = p.2.relayed ∧
      ((σ.node v).view (o, q)).copies = [msg] := by
  have hstands := h.stands v hv hne
  rw [Stands] at hstands
  cases hfirst : net.firstHeard (sent σ (o, q)) v with
  | none =>
    rw [hfirst] at hstands
    rw [hstands.1] at hmsg
    cases hmsg
  | some p =>
    rw [hfirst] at hstands
    obtain ⟨-, -, hrest⟩ := hstands
    by_cases hrelay : 1 < p.2.timeToLive ∧ v ∈ (states p.1).mprSet
    · rw [if_pos hrelay] at hrest
      by_cases hsent : v ∈ (sent σ (o, q)).map Prod.fst
      · rw [if_pos hsent] at hrest
        rw [hrest.2.2] at hmsg
        cases hmsg
      · rw [if_neg hsent] at hrest
        rw [hrest.2] at hmsg ⊢
        obtain rfl := List.mem_singleton.mp hmsg
        exact ⟨p, rfl, hrelay.1, hrelay.2, hsent, rfl, rfl⟩
    · rw [if_neg hrelay] at hrest
      rw [hrest.2.1] at hmsg
      cases hmsg

/-! ## The steps -/

variable {i : Nat} {now : Time}

theorem filter_eraseIdx {l : List MessageHeader} (hi : l[i]? = some msg) :
    (msg.key ≠ κ → (l.eraseIdx i).filter (fun m => m.key = κ) = l.filter fun m => m.key = κ) ∧
    (msg.key = κ → l.filter (fun m => m.key = κ) = [msg] →
      (l.eraseIdx i).filter (fun m => m.key = κ) = []) := by
  obtain ⟨hlt, rfl⟩ := List.getElem?_eq_some_iff.mp hi
  have hsplit : l.filter (fun m => m.key = κ) = (l.take i).filter (fun m => m.key = κ) ++
      (l[i] :: l.drop (i + 1)).filter fun m => m.key = κ := by
    rw [← List.filter_append, ← List.drop_eq_getElem_cons hlt, List.take_append_drop]
  rw [List.eraseIdx_eq_take_drop_succ, List.filter_append, hsplit]
  constructor
  · intro hne
    rw [List.filter_cons_of_neg (by simpa using hne)]
  · intro hkey
    rw [List.filter_cons_of_pos (by simpa using hkey)]
    intro heq
    have hlen := congrArg List.length heq
    rw [List.length_append, List.length_cons, List.length_singleton] at hlen
    rw [List.length_eq_zero_iff.mp (by omega : ((l.take i).filter fun m => m.key = κ).length = 0),
      List.length_eq_zero_iff.mp
        (by omega : ((l.drop (i + 1)).filter fun m => m.key = κ).length = 0)]
    rfl

def afterSending (node : FloodNode) (i : Nat) : FloodNode :=
  { node with queuedMessages := node.queuedMessages.eraseIdx i }

theorem transmit_self :
    (net.transmit σ u i msg now).node u = afterSending (σ.node u) i := if_pos rfl

theorem transmit_adj (hadj : net.Adj u v) :
    (net.transmit σ u i msg now).node v = (σ.node v).recvOlsr msg v u now := by
  have hne : v ≠ u := by
    rintro rfl
    exact net.irrefl v hadj
  exact (if_neg hne).trans (if_pos hadj)

theorem transmit_far (hne : v ≠ u) (hadj : ¬net.Adj u v) :
    (net.transmit σ u i msg now).node v = σ.node v :=
  (if_neg hne).trans (if_neg hadj)

theorem sent_transmit :
    sent (net.transmit σ u i msg now) κ = sent σ κ ++ if msg.key = κ then [(u, msg)] else [] := by
  rw [sent, transmit, List.filter_append, sent]
  refine congrArg _ ?_
  by_cases hkey : msg.key = κ
  · rw [if_pos hkey, List.filter_cons_of_pos (by simpa using hkey), List.filter_nil]
  · rw [if_neg hkey, List.filter_cons_of_neg (by simpa using hkey), List.filter_nil]

theorem FloodInv.congr (h : FloodInv net states o q σ)
    (hstatic : ∀ v ∈ net.nodes, FloodNode.Static (states v) (σ'.node v))
    (hsent : sent σ' (o, q) = sent σ (o, q))
    (hview : ∀ v, (σ'.node v).view (o, q) = (σ.node v).view (o, q)) :
    FloodInv net states o q σ' where
  static := hstatic
  origin := by rw [hview, hsent, h.origin]
  originSent := by rw [hsent]; exact h.originSent
  stands := by
    intro v hv hne
    rw [hview, hsent]
    exact h.stands v hv hne
  senders := by rw [hsent]; exact h.senders
  nodup := by rw [hsent]; exact h.nodup
  sound := by rw [hsent]; exact h.sound
  hops := by rw [hsent]; exact h.hops

theorem static_transmit (h : ∀ v ∈ net.nodes, FloodNode.Static (states v) (σ.node v)) :
    ∀ v ∈ net.nodes, FloodNode.Static (states v) ((net.transmit σ u i msg now).node v) := by
  intro v hv
  by_cases hvu : v = u
  · subst hvu
    rw [transmit_self]
    exact h v hv
  · by_cases hadj : net.Adj u v
    · rw [transmit_adj hadj]
      exact FloodNode.static_recvOlsr (h v hv)
    · rw [transmit_far hvu hadj]
      exact h v hv

theorem FloodInv.originate (h : FloodInv net states o q σ) (hkey : msg.key ≠ (o, q)) :
    FloodInv net states o q (queueMessage σ u msg) := by
  refine h.congr (fun v hv => ?_) rfl fun v => ?_
  · by_cases hvu : v = u
    · subst hvu
      have hnode : (queueMessage σ v msg).node v = _ := Function.update_self ..
      rw [hnode]
      exact h.static v hv
    · have hnode : (queueMessage σ u msg).node v = σ.node v := Function.update_of_ne hvu ..
      rw [hnode]
      exact h.static v hv
  · by_cases hvu : v = u
    · subst hvu
      have hnode : (queueMessage σ v msg).node v = _ := Function.update_self ..
      have hcopies : ((σ.node v).queuedMessages ++ [msg]).filter (fun m => m.key = (o, q)) =
          (σ.node v).queuedMessages.filter fun m => m.key = (o, q) := by
        rw [List.filter_append, List.filter_cons_of_neg (by simpa using hkey), List.filter_nil,
          List.append_nil]
      rw [hnode]
      simp only [FloodNode.view, hcopies]
    · have hnode : (queueMessage σ u msg).node v = σ.node v := Function.update_of_ne hvu ..
      rw [hnode]

theorem FloodInv.transmit_other (h : FloodInv net states o q σ) (hkey : msg.key ≠ (o, q))
    (hi : (σ.node u).queuedMessages[i]? = some msg) :
    FloodInv net states o q (net.transmit σ u i msg now) := by
  refine h.congr (static_transmit h.static) ?_ fun v => ?_
  · rw [sent_transmit, if_neg hkey, List.append_nil]
  · by_cases hvu : v = u
    · subst hvu
      rw [transmit_self]
      have hcopies := (filter_eraseIdx (κ := (o, q)) hi).1 hkey
      simp only [FloodNode.view, afterSending, hcopies]
    · by_cases hadj : net.Adj u v
      · rw [transmit_adj hadj, FloodNode.view_recvOlsr_of_ne hkey]
      · rw [transmit_far hvu hadj]

theorem FloodInv.queued (h : FloodInv net states o q σ) (hu : u ∈ net.nodes)
    (hmsg : msg ∈ ((σ.node u).view (o, q)).copies) :
    u ∉ (sent σ (o, q)).map Prod.fst ∧ ((σ.node u).view (o, q)).copies = [msg] ∧
      msg.messageType = .tc ∧ msg.timeToLive ≠ 0 ∧
      255 ≤ msg.timeToLive + (sent σ (o, q)).length := by
  by_cases hne : u = o
  · subst hne
    obtain ⟨hnot, rfl, hcopies⟩ := h.copies_origin hmsg
    exact ⟨hnot, hcopies, rfl, by simp [MessageHeader.newTc], Nat.le_add_right ..⟩
  · obtain ⟨p, hfirst, httl, -, hnot, rfl, hcopies⟩ := h.copies_other hu hne hmsg
    have hp : p ∈ sent σ (o, q) := List.mem_of_find?_eq_some hfirst
    obtain ⟨j, hj⟩ := List.mem_iff_getElem?.mp hp
    have hlt : j < (sent σ (o, q)).length := (List.getElem?_eq_some_iff.mp hj).1
    have hhops := h.hops j p hj
    have hrelayed : p.2.relayed.timeToLive = p.2.timeToLive - 1 := rfl
    refine ⟨hnot, hcopies, (h.sound p hp).1, ?_, ?_⟩
    · omega
    · omega

theorem Stands.concat {sent : List (Ipv4Address × MessageHeader)} {view : FloodView}
    (h : Stands net states sent v view) (hne : v ≠ u)
    (hfirst : net.firstHeard (sent ++ [(u, msg)]) v = net.firstHeard sent v) :
    Stands net states (sent ++ [(u, msg)]) v view := by
  have hmem : v ∈ (sent ++ [(u, msg)]).map Prod.fst ↔ v ∈ sent.map Prod.fst := by
    simp [hne]
  have hmem' (m : MessageHeader) : (v, m) ∈ sent ++ [(u, msg)] ↔ (v, m) ∈ sent := by
    simp [hne]
  rw [Stands] at h ⊢
  simp only [hfirst, hmem, hmem']
  exact h

theorem FloodInv.stands_self (h : FloodInv net states o q σ) (hu : u ∈ net.nodes) (hne : u ≠ o)
    (hkey : msg.key = (o, q)) (hi : (σ.node u).queuedMessages[i]? = some msg)
    (hmsg : msg ∈ ((σ.node u).view (o, q)).copies) :
    Stands net states (sent σ (o, q) ++ [(u, msg)]) u
      ((afterSending (σ.node u) i).view (o, q)) := by
  obtain ⟨p, hfirst, httl, hmpr, hnot, hrelayed, hcopies⟩ := h.copies_other hu hne hmsg
  have hstands := h.stands u hu hne
  have hempty : ((afterSending (σ.node u) i).view (o, q)).copies = [] :=
    (filter_eraseIdx hi).2 hkey hcopies
  have hfirst' : net.firstHeard (sent σ (o, q) ++ [(u, msg)]) u = some p := by
    rw [firstHeard_concat, hfirst]
    rfl
  rw [Stands, hfirst] at hstands
  obtain ⟨hdup, hreceived, hrest⟩ := hstands
  rw [if_pos ⟨httl, hmpr⟩] at hrest
  rw [Stands, hfirst']
  refine ⟨hdup, hreceived, ?_⟩
  rw [if_pos ⟨httl, hmpr⟩]
  refine ⟨hrest.1, ?_⟩
  rw [if_pos (by simp)]
  exact ⟨by simp [hrelayed], hempty⟩

section

variable (h : FloodInv net states o q σ) (hconv : Converged net horizon states)

include h hconv

theorem FloodInv.stands_adj (hnow : now ≤ horizon) (hadj : net.Adj u v) (hne : v ≠ o)
    (hkey : msg.key = (o, q)) (htc : msg.messageType = .tc) (httl : msg.timeToLive ≠ 0) :
    Stands net states (sent σ (o, q) ++ [(u, msg)]) v
      (((σ.node v).recvOlsr msg v u now).view (o, q)) := by
  have hvu : v ≠ u := by
    rintro rfl
    exact net.irrefl v hadj
  have hv : v ∈ net.nodes := net.mem_of_adj v u (net.symm u v hadj)
  have hstands := h.stands v hv hne
  have hstatic := h.static v hv
  obtain rfl : o = msg.originatorAddress := congrArg Prod.fst hkey.symm
  obtain rfl : q = msg.messageSequenceNumber := congrArg Prod.snd hkey.symm
  cases hfirst : net.firstHeard (sent σ msg.key) v with
  | some p =>
    have hfirst' : net.firstHeard (sent σ msg.key ++ [(u, msg)]) v = some p := by
      rw [firstHeard_concat, hfirst]
      rfl
    have hstands' := hstands
    rw [Stands, show net.firstHeard (sent σ (_, _)) v = some p from hfirst] at hstands'
    obtain ⟨⟨d, hdup, hmem⟩, -⟩ := hstands'
    rw [FloodNode.recvOlsr_again hdup hmem]
    exact hstands.concat hvu (hfirst'.trans hfirst.symm)
  | none =>
    have hfirst' : net.firstHeard (sent σ msg.key ++ [(u, msg)]) v = some (u, msg) := by
      rw [firstHeard_concat, hfirst, if_pos hadj]
      rfl
    rw [Stands, show net.firstHeard (sent σ (_, _)) v = none from hfirst] at hstands
    obtain ⟨hunheard, hnot⟩ := hstands
    have hmain : msg.originatorAddress ≠ (σ.node v).state.mainAddress := by
      rw [hstatic]
      show msg.originatorAddress ≠ (states v).mainAddress
      rw [hconv.main v hv]
      exact hne.symm
    have hlink : ((σ.node v).state.findSymLinkTuple u now).isSome := by
      rw [hstatic]
      exact hconv.links v u (net.symm u v hadj) now hnow
    obtain ⟨d, hd, hview⟩ := @FloodNode.view_recvOlsr_first _ _ _ _ now hunheard hmain httl
      (by rw [htc]; exact MessageType.noConfusion) hlink
    have hnot' : v ∉ (sent σ msg.key ++ [(u, msg)]).map Prod.fst := by
      rw [List.map_append, List.mem_append]
      rintro (hin | hin)
      · exact hnot hin
      · exact hvu (List.mem_singleton.mp hin)
    show Stands net states (sent σ msg.key ++ [(u, msg)]) v
      (((σ.node v).recvOlsr msg v u now).view msg.key)
    rw [hview, Stands, hfirst']
    by_cases hrelay : 1 < msg.timeToLive ∧ v ∈ (states u).mprSet
    · rw [if_pos ((hconv.retransmits_iff hstatic hv hadj msg).mpr hrelay)]
      refine ⟨⟨d, rfl, by simp [hd]⟩, rfl, ?_⟩
      rw [if_pos hrelay]
      refine ⟨rfl, ?_⟩
      rw [if_neg hnot']
    · rw [if_neg (mt (hconv.retransmits_iff hstatic hv hadj msg).mp hrelay)]
      refine ⟨⟨d, rfl, by simp [hd]⟩, rfl, ?_⟩
      rw [if_neg hrelay]
      exact ⟨rfl, rfl, hnot'⟩

theorem FloodInv.transmit (ho : o ∈ net.nodes) (hu : u ∈ net.nodes) (hnow : now ≤ horizon)
    (hkey : msg.key = (o, q)) (hi : (σ.node u).queuedMessages[i]? = some msg) :
    FloodInv net states o q (net.transmit σ u i msg now) := by
  have hmsg : msg ∈ ((σ.node u).view (o, q)).copies :=
    List.mem_filter.mpr ⟨List.mem_of_getElem? hi, decide_eq_true hkey⟩
  obtain ⟨hnot, hcopies, htc, httl, hhops⟩ := h.queued hu hmsg
  have hsent : sent (net.transmit σ u i msg now) (o, q) = sent σ (o, q) ++ [(u, msg)] := by
    rw [sent_transmit, if_pos hkey]
  refine ⟨static_transmit h.static, ?_, ?_, ?_, ?_, ?_, ?_, ?_⟩
  · rw [hsent]
    by_cases huo : u = o
    · subst huo
      have hempty := (filter_eraseIdx hi).2 hkey hcopies
      have horigin := h.origin
      rw [if_neg hnot] at horigin
      rw [if_pos (by simp), transmit_self]
      have hview : (afterSending (σ.node u) i).view (u, q) =
          { (σ.node u).view (u, q) with copies := [] } := by
        rw [← hempty]
        rfl
      rw [hview, horigin]
    · have hmem : o ∈ (sent σ (o, q) ++ [(u, msg)]).map Prod.fst ↔
          o ∈ (sent σ (o, q)).map Prod.fst := by
        simp [Ne.symm huo]
      have hnode : (net.transmit σ u i msg now).node o = σ.node o := by
        by_cases hadj : net.Adj u o
        · rw [transmit_adj hadj]
          refine FloodNode.recvOlsr_own ?_
          rw [h.static o ho]
          show msg.originatorAddress = (states o).mainAddress
          rw [hconv.main o ho]
          exact congrArg Prod.fst hkey
        · exact transmit_far (Ne.symm huo) hadj
      rw [hnode, h.origin]
      simp only [hmem]
  · rw [hsent]
    intro hin
    by_cases huo : u = o
    · subst huo
      obtain ⟨-, rfl, -⟩ := h.copies_origin hmsg
      simp
    · have hin' : o ∈ (sent σ (o, q)).map Prod.fst := by simpa [Ne.symm huo] using hin
      exact List.mem_append_left _ (h.originSent hin')
  · intro v hv hne
    rw [hsent]
    by_cases hvu : v = u
    · subst hvu
      rw [transmit_self]
      exact h.stands_self hu hne hkey hi hmsg
    · by_cases hadj : net.Adj u v
      · rw [transmit_adj hadj]
        exact h.stands_adj hconv hnow hadj hne hkey htc httl
      · rw [transmit_far hvu hadj]
        refine (h.stands v hv hne).concat hvu ?_
        rw [firstHeard_concat, if_neg hadj, Option.or_none]
  · rw [hsent]
    intro p hp
    rcases List.mem_append.mp hp with hp | hp
    · exact h.senders p hp
    · rw [List.mem_singleton.mp hp]
      exact hu
  · rw [hsent, List.map_append]
    refine List.nodup_append.mpr ⟨h.nodup, List.nodup_singleton _, ?_⟩
    intro a ha b hb hab
    rw [hab, List.mem_singleton.mp hb] at ha
    exact hnot ha
  · rw [hsent]
    intro p hp
    rcases List.mem_append.mp hp with hp | hp
    · exact h.sound p hp
    · rw [List.mem_singleton.mp hp]
      exact ⟨htc, httl⟩
  · rw [hsent]
    intro j p hj
    rcases Nat.lt_or_ge j (sent σ (o, q)).length with hlt | hge
    · rw [List.getElem?_append_left hlt] at hj
      exact h.hops j p hj
    · rw [List.getElem?_append_right hge] at hj
      have hp : p = (u, msg) := List.mem_singleton.mp (List.mem_of_getElem? hj)
      rw [hp]
      show 255 ≤ msg.timeToLive + j
      omega

theorem FloodInv.step {e : Event} (ho : o ∈ net.nodes) (hstep : Step net (o, q) horizon σ e σ') :
    FloodInv net states o q σ' := by
  cases hstep with
  | originate hu hkey => exact h.originate hkey
  | @transmit u i now msg hu hnow hi =>
    by_cases hkey : msg.key = (o, q)
    · exact h.transmit hconv ho hu hnow hkey hi
    · exact h.transmit_other hkey hi

end

/-- No node has heard of a message with the key, and none is queued. -/
structure Fresh (net : Network) (states : Ipv4Address → OlsrState) (κ : Ipv4Address × Nat)
    (σ : State) : Prop where
  static : ∀ v ∈ net.nodes, FloodNode.Static (states v) (σ.node v)
  unheard : ∀ v, (σ.node v).view κ = .unheard
  unsent : sent σ κ = []

theorem Fresh.originate (h : Fresh net states (o, q) σ) :
    FloodInv net states o q (queueMessage σ o (.newTc o q)) := by
  have hsent : sent (queueMessage σ o (.newTc o q)) (o, q) = [] := h.unsent
  have hself : (queueMessage σ o (.newTc o q)).node o = _ := Function.update_self ..
  have hother (v : Ipv4Address) (hv : v ≠ o) :
      (queueMessage σ o (.newTc o q)).node v = σ.node v := Function.update_of_ne hv ..
  refine ⟨fun v hv => ?_, ?_, ?_, fun v hv hne => ?_, ?_, ?_, ?_, ?_⟩
  · by_cases hvo : v = o
    · subst hvo
      rw [hself]
      exact h.static v hv
    · rw [hother v hvo]
      exact h.static v hv
  · have hempty : (σ.node o).queuedMessages.filter (fun m => m.key = (o, q)) = [] :=
      congrArg FloodView.copies (h.unheard o)
    have hcopies : ((σ.node o).queuedMessages ++ [MessageHeader.newTc o q]).filter
        (fun m => m.key = (o, q)) = [.newTc o q] := by
      rw [List.filter_append, hempty, List.filter_cons_of_pos (by simp [MessageHeader.key,
        MessageHeader.newTc])]
      rfl
    have hview : ((queueMessage σ o (.newTc o q)).node o).view (o, q) =
        { (σ.node o).view (o, q) with
          copies := ((σ.node o).queuedMessages ++ [MessageHeader.newTc o q]).filter fun m =>
            m.key = (o, q) } := by
      rw [hself]
      rfl
    rw [hview, hcopies, h.unheard, hsent]
    rfl
  · rw [hsent]
    intro hin
    cases hin
  · rw [hother v hne, hsent, h.unheard, Stands]
    exact ⟨rfl, List.not_mem_nil⟩
  · rw [hsent]
    intro p hp
    cases hp
  · rw [hsent]
    exact List.nodup_nil
  · rw [hsent]
    intro p hp
    cases hp
  · rw [hsent]
    intro j p hj
    cases hj

theorem FloodInv.run {events : List Event} (hconv : Converged net horizon states)
    (ho : o ∈ net.nodes) (hfresh : Fresh net states (o, q) σ)
    (hrun : Run (Step net (o, q) horizon) (queueMessage σ o (.newTc o q)) events σ') :
    FloodInv net states o q σ' :=
  hrun.invariant hfresh.originate fun _ _ _ h hstep => h.step hconv ho hstep

end Network

end Olsr

end Ns3
