/-
  What a flood has done so far.

  Only the transmissions of the flooded message matter, in their order.  A node has heard
  the message if a neighbor has sent it; the first neighbor that did decides whether the
  node relays it, and a node that relays it either has it queued or has sent it.
-/
import Ns3.Olsr.Flooding
import Ns3.Olsr.MprComputation

namespace Ns3

namespace Olsr

/-! ## One node -/

/-- What a node has to do with the messages of one key: its duplicate tuple, its queued copies,
whether it has read one, and how many it has queued. -/
structure FloodView where
  dup : Option DuplicateTuple
  copies : List MessageHeader
  received : Bool
  forwards : Nat

def FloodView.unheard : FloodView := ⟨none, [], false, 0⟩

def MessageHeader.relayed (msg : MessageHeader) : MessageHeader :=
  { msg with timeToLive := msg.timeToLive - 1, hopCount := (msg.hopCount + 1) % 2 ^ 8 }

namespace FloodNode

def view (node : FloodNode) (κ : Ipv4Address × Nat) : FloodView :=
  { dup := node.state.findDuplicateTuple κ.1 κ.2
    copies := node.queuedMessages.filter fun msg => msg.key = κ
    received := node.received.contains κ
    forwards := node.forwarded.count κ }

/-- The node knows what `base` knows, its duplicate set apart. -/
def Static (base : OlsrState) (node : FloodNode) : Prop :=
  node.state = { base with duplicateSet := node.state.duplicateSet }

variable {node : FloodNode} {base : OlsrState} {κ : Ipv4Address × Nat} {msg : MessageHeader}
  {iface sender : Ipv4Address} {now : Time}

/-! ### Messages of another key -/

section

variable (h : msg.key ≠ κ)

include h

theorem not_match_of_ne : ¬(msg.originatorAddress = κ.1 ∧ msg.messageSequenceNumber = κ.2) :=
  fun heq => h (Prod.ext heq.1 heq.2)

theorem find_updateDuplicate {tuples : List DuplicateTuple} {r : Bool} :
    (updateDuplicate msg now r iface tuples).find?
        (fun it => it.address = κ.1 ∧ it.sequenceNumber = κ.2) =
      tuples.find? fun it => it.address = κ.1 ∧ it.sequenceNumber = κ.2 := by
  induction tuples with
  | nil => rfl
  | cons it rest ih =>
    unfold updateDuplicate
    split
    · next hmatch =>
        have hno : ¬(it.address = κ.1 ∧ it.sequenceNumber = κ.2) := by
          rw [hmatch.1, hmatch.2]
          exact not_match_of_ne h
        rw [List.find?_cons_of_neg (by simpa using hno),
          List.find?_cons_of_neg (by simpa using hno)]
    · rw [List.find?_cons, List.find?_cons, ih]

theorem view_noteDuplicate_of_ne (dup : Option DuplicateTuple) (r : Bool) :
    (node.noteDuplicate msg dup now r iface).view κ = node.view κ := by
  have hfind : (node.noteDuplicate msg dup now r iface).state.findDuplicateTuple κ.1 κ.2 =
      node.state.findDuplicateTuple κ.1 κ.2 := by
    cases dup with
    | some d => exact find_updateDuplicate h
    | none =>
      have hno : [newDuplicate msg now r iface].find?
          (fun it => it.address = κ.1 ∧ it.sequenceNumber = κ.2) = none :=
        List.find?_cons_of_neg fun heq => not_match_of_ne h (of_decide_eq_true heq)
      refine (List.find?_append ..).trans ?_
      rw [hno, Option.or_none]
      rfl
  simp only [view, hfind]
  rfl

theorem view_queueRelayed_of_ne : (node.queueRelayed msg).view κ = node.view κ := by
  have hcopies : (node.queueRelayed msg).queuedMessages.filter (fun m => m.key = κ) =
      node.queuedMessages.filter fun m => m.key = κ := by
    rw [queueRelayed, List.filter_append, List.filter_cons_of_neg, List.filter_nil,
      List.append_nil]
    exact fun heq => h (of_decide_eq_true heq)
  have hcount : (node.queueRelayed msg).forwarded.count κ = node.forwarded.count κ := by
    rw [queueRelayed, List.count_append, List.count_singleton, if_neg (by simpa using h),
      Nat.add_zero]
  simp only [view, hcopies, hcount]
  rfl

theorem view_read_of_ne (dup : Option DuplicateTuple) :
    (node.read msg dup).view κ = node.view κ := by
  unfold read
  split
  · have hcontains : (node.received ++ [msg.key]).contains κ = node.received.contains κ := by
      simp [h.symm]
    simp only [view, hcontains]
  · rfl

theorem view_recvOlsr_of_ne : (node.recvOlsr msg iface sender now).view κ = node.view κ := by
  unfold recvOlsr
  split
  · rfl
  dsimp only
  split
  · unfold forwardDefault
    split
    · exact view_read_of_ne h _
    split
    · exact view_read_of_ne h _
    split
    · rw [view_noteDuplicate_of_ne h, view_queueRelayed_of_ne h, view_read_of_ne h]
    · rw [view_noteDuplicate_of_ne h, view_read_of_ne h]
  · exact view_read_of_ne h _

end

/-! ### What a message does not change -/

theorem static_noteDuplicate (h : Static base node) (dup : Option DuplicateTuple) (r : Bool) :
    Static base (node.noteDuplicate msg dup now r iface) := by
  have hset (tuples : List DuplicateTuple) :
      { node.state with duplicateSet := tuples } = { base with duplicateSet := tuples } := by
    rw [Static] at h
    rw [h]
  exact hset _

theorem static_read (h : Static base node) (dup : Option DuplicateTuple) :
    Static base (node.read msg dup) := by
  unfold read
  split
  · exact h
  · exact h

theorem static_recvOlsr (h : Static base node) :
    Static base (node.recvOlsr msg iface sender now) := by
  unfold recvOlsr
  split
  · exact h
  dsimp only
  split
  · unfold forwardDefault
    split
    · exact static_read h _
    split
    · exact static_read h _
    split
    · exact @static_noteDuplicate ((node.read msg _).queueRelayed msg) _ _ _ _ (static_read h _) _ _
    · exact static_noteDuplicate (static_read h _) _ _
  · exact static_read h _

/-! ### Messages of the key -/

theorem recvOlsr_own (h : msg.originatorAddress = node.state.mainAddress) :
    node.recvOlsr msg iface sender now = node := if_pos (.inr h)

theorem recvOlsr_again {d : DuplicateTuple}
    (hdup : node.state.findDuplicateTuple msg.originatorAddress msg.messageSequenceNumber = some d)
    (hiface : iface ∈ d.ifaceList) : node.recvOlsr msg iface sender now = node := by
  unfold recvOlsr
  split
  · rfl
  · simp [hdup, hiface, read]

theorem view_noteDuplicate_none (r : Bool)
    (hnone : node.state.findDuplicateTuple msg.originatorAddress msg.messageSequenceNumber = none) :
    (node.noteDuplicate msg none now r iface).view msg.key =
      { node.view msg.key with dup := some (newDuplicate msg now r iface) } := by
  have hfind : (node.noteDuplicate msg none now r iface).state.findDuplicateTuple
      msg.originatorAddress msg.messageSequenceNumber = some (newDuplicate msg now r iface) := by
    refine (List.find?_append ..).trans ?_
    rw [show node.state.duplicateSet.find? _ = none from hnone, Option.none_or]
    exact List.find?_cons_of_pos (by simp [newDuplicate])
  simp only [view, MessageHeader.key, hfind]
  rfl

theorem view_queueRelayed :
    (node.queueRelayed msg).view msg.key =
      { node.view msg.key with
        copies := (node.view msg.key).copies ++ [msg.relayed]
        forwards := (node.view msg.key).forwards + 1 } := by
  have hcopies : (node.queueRelayed msg).queuedMessages.filter (fun m => m.key = msg.key) =
      (node.queuedMessages.filter fun m => m.key = msg.key) ++ [msg.relayed] := by
    refine (List.filter_append ..).trans (congrArg _ ?_)
    exact List.filter_cons_of_pos (by simp [MessageHeader.key])
  have hcount : (node.queueRelayed msg).forwarded.count msg.key =
      node.forwarded.count msg.key + 1 := by
    simp [queueRelayed]
  simp only [view, hcopies, hcount]
  rfl

theorem view_recvOlsr_first (hnone : node.view msg.key = .unheard)
    (hown : msg.originatorAddress ≠ node.state.mainAddress) (httl : msg.timeToLive ≠ 0)
    (htype : msg.messageType ≠ .hello) (hlink : (node.state.findSymLinkTuple sender now).isSome) :
    ∃ d, d.ifaceList = [iface] ∧ (node.recvOlsr msg iface sender now).view msg.key =
      if retransmits node.state msg sender then ⟨some d, [msg.relayed], true, 1⟩
      else ⟨some d, [], true, 0⟩ := by
  have hdup :
      node.state.findDuplicateTuple msg.originatorAddress msg.messageSequenceNumber = none :=
    congrArg FloodView.dup hnone
  have hread : (node.read msg none).view msg.key = ⟨none, [], true, 0⟩ := by
    have hcontains : (node.received ++ [msg.key]).contains msg.key = true := by simp
    have hview : (node.read msg none).view msg.key =
        { node.view msg.key with received := true } := by
      rw [← hcontains]
      rfl
    rw [hview, hnone]
    rfl
  have hlink' : ¬((node.read msg none).state.findSymLinkTuple sender now).isNone = true := by
    rw [Option.isNone_iff_eq_none]
    exact Option.isSome_iff_ne_none.mp hlink
  rw [recvOlsr, if_neg (by rintro (h | h); exacts [httl h, hown h])]
  simp only [hdup, Option.any_none, Bool.not_false, htype, ne_eq, not_false_eq_true, and_self,
    if_true]
  rw [forwardDefault, if_neg hlink', if_neg (by simp)]
  have hretransmits : retransmits (node.read msg none).state msg sender =
      retransmits node.state msg sender := rfl
  rw [hretransmits]
  cases retransmits node.state msg sender with
  | true =>
    refine ⟨newDuplicate msg now true iface, rfl, ?_⟩
    have hdup' : ((node.read msg none).queueRelayed msg).state.findDuplicateTuple
        msg.originatorAddress msg.messageSequenceNumber = none := hdup
    rw [if_pos rfl, if_pos rfl, view_noteDuplicate_none true hdup', view_queueRelayed, hread]
    rfl
  | false =>
    refine ⟨newDuplicate msg now false iface, rfl, ?_⟩
    have hdup' : (node.read msg none).state.findDuplicateTuple
        msg.originatorAddress msg.messageSequenceNumber = none := hdup
    rw [if_neg Bool.false_ne_true, if_neg Bool.false_ne_true,
      view_noteDuplicate_none false hdup', hread]

end FloodNode

end Olsr

end Ns3
