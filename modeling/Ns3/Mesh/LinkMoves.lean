/-
  What an event can do to one end of a peer link.

  Whatever a station is asked for, the link to one given peer is erased, created anew under the
  next id, or reacts, any number of times.  A reaction takes the peer's id from a frame of the
  peer only, and the link is confirmed only by a Confirm that repeats its own id.
-/
import Ns3.Lib.Run
import Ns3.Mesh.PeerManagementProtocol

namespace Ns3

namespace Mesh

open Lib

def PeerState.KnowsPeer (s : PeerState) : Prop := s = .cnfRcvd ∨ s = .opnRcvd ∨ s = .estab

def PeerState.Confirmed (s : PeerState) : Prop := s = .cnfRcvd ∨ s = .estab

/-- The frame names the two ends of the link. -/
structure SentBy (l : PeerLink) (f : Frame) : Prop where
  addr1 : f.addr1 = l.peerAddress
  addr2 : f.addr2 = l.macAddress
  localLinkId : f.peerElement.getLocalLinkId = l.localLinkId
  peerLinkId : ∀ a b, f.peerElement = .peerConfirm a b → b = l.peerLinkId

/-! ## The state machine -/

namespace Reaction

variable (r : Reaction)

@[simp] theorem sendPeerLinkOpen_state : r.sendPeerLinkOpen.link.state = r.link.state := rfl

@[simp] theorem sendPeerLinkConfirm_state : r.sendPeerLinkConfirm.link.state = r.link.state := rfl

@[simp] theorem sendPeerLinkClose_state (reasoncode : PmpReasonCode) :
    (r.sendPeerLinkClose reasoncode).link.state = r.link.state := rfl

@[simp] theorem clearRetryTimer_state : r.clearRetryTimer.link.state = r.link.state := rfl

@[simp] theorem clearConfirmTimer_state : r.clearConfirmTimer.link.state = r.link.state := rfl

@[simp] theorem clearHoldingTimer_state : r.clearHoldingTimer.link.state = r.link.state := rfl

@[simp] theorem setRetryTimer_state : r.setRetryTimer.link.state = r.link.state := rfl

@[simp] theorem setConfirmTimer_state : r.setConfirmTimer.link.state = r.link.state := rfl

@[simp] theorem setHoldingTimer_state : r.setHoldingTimer.link.state = r.link.state := rfl

@[simp] theorem countRetry_state : r.countRetry.link.state = r.link.state := rfl

end Reaction

@[simp] theorem PeerLink.ignore_state (l : PeerLink) : l.ignore.link.state = l.state := rfl

@[simp] theorem PeerLink.enter_state (l : PeerLink) (nstate : PeerState) :
    (l.enter nstate).link.state = nstate := rfl

/-- The link has the ids and addresses it had, and what was sent is from it. -/
structure Same (l : PeerLink) (r : Reaction) : Prop where
  macAddress : r.link.macAddress = l.macAddress
  peerAddress : r.link.peerAddress = l.peerAddress
  localLinkId : r.link.localLinkId = l.localLinkId
  peerLinkId : r.link.peerLinkId = l.peerLinkId
  sent : ∀ f ∈ r.sent, SentBy l f

variable {e : IePeerManagement}

namespace Same

variable {l : PeerLink} {r : Reaction}

theorem ignore : Same l l.ignore := ⟨rfl, rfl, rfl, rfl, nofun⟩

theorem enter (nstate : PeerState) : Same l (l.enter nstate) := ⟨rfl, rfl, rfl, rfl, nofun⟩

section

variable (h : Same l r)

include h

theorem send (hid : e.getLocalLinkId = l.localLinkId)
    (hpeer : ∀ a b, e = .peerConfirm a b → b = l.peerLinkId) : Same l (r.send e) := by
  refine ⟨h.macAddress, h.peerAddress, h.localLinkId, h.peerLinkId, fun f hf => ?_⟩
  rcases List.mem_append.mp hf with hf | hf
  · exact h.sent f hf
  · obtain rfl := List.mem_singleton.mp hf
    exact ⟨h.peerAddress, h.macAddress, hid, hpeer⟩

theorem sendPeerLinkOpen : Same l r.sendPeerLinkOpen :=
  h.send h.localLinkId nofun

theorem sendPeerLinkConfirm : Same l r.sendPeerLinkConfirm := by
  refine h.send h.localLinkId fun a b heq => ?_
  obtain ⟨-, rfl⟩ := IePeerManagement.peerConfirm.inj heq
  exact h.peerLinkId

theorem sendPeerLinkClose (reasoncode : PmpReasonCode) : Same l (r.sendPeerLinkClose reasoncode) :=
  h.send h.localLinkId nofun

theorem clearRetryTimer : Same l r.clearRetryTimer :=
  ⟨h.macAddress, h.peerAddress, h.localLinkId, h.peerLinkId, h.sent⟩

theorem clearConfirmTimer : Same l r.clearConfirmTimer :=
  ⟨h.macAddress, h.peerAddress, h.localLinkId, h.peerLinkId, h.sent⟩

theorem clearHoldingTimer : Same l r.clearHoldingTimer :=
  ⟨h.macAddress, h.peerAddress, h.localLinkId, h.peerLinkId, h.sent⟩

theorem setRetryTimer : Same l r.setRetryTimer :=
  ⟨h.macAddress, h.peerAddress, h.localLinkId, h.peerLinkId, h.sent⟩

theorem setConfirmTimer : Same l r.setConfirmTimer :=
  ⟨h.macAddress, h.peerAddress, h.localLinkId, h.peerLinkId, h.sent⟩

theorem setHoldingTimer : Same l r.setHoldingTimer :=
  ⟨h.macAddress, h.peerAddress, h.localLinkId, h.peerLinkId, h.sent⟩

theorem countRetry : Same l r.countRetry :=
  ⟨h.macAddress, h.peerAddress, h.localLinkId, h.peerLinkId, h.sent⟩

theorem sentBy (f : Frame) (hf : f ∈ r.sent) : SentBy r.link f := by
  have hsent := h.sent f hf
  refine ⟨hsent.addr1.trans h.peerAddress.symm, hsent.addr2.trans h.macAddress.symm,
    hsent.localLinkId.trans h.localLinkId.symm, fun a b heq => ?_⟩
  exact (hsent.peerLinkId a b heq).trans h.peerLinkId.symm

end

end Same

variable {l l' : PeerLink} {r : Reaction} {event : PeerEvent} {reason : PmpReasonCode}

/-- What the state machine does to a link. -/
structure Moves (l : PeerLink) (event : PeerEvent) (r : Reaction) : Prop where
  same : Same l r
  knowsPeer : r.link.state.KnowsPeer → l.state.KnowsPeer ∨ event = .opnAcpt ∨ event = .cnfAcpt
  confirmed : r.link.state.Confirmed → l.state.Confirmed ∨ event = .cnfAcpt
  estab : r.link.state = .estab → l.state = .estab ∨
    l.state = .cnfRcvd ∧ event = .opnAcpt ∨ l.state = .opnRcvd ∧ event = .cnfAcpt
  status : r.status = none ∧ r.link.state = l.state ∨ r.status = some (l.state, r.link.state)

theorem stateMachine_moves (h : l.stateMachine event reason = .ok r) : Moves l event r := by
  unfold PeerLink.stateMachine at h
  cases hs : l.state <;> cases event <;> simp only [hs, pure_eq_ok, bind_eq_ok] at h
  all_goals first | obtain rfl := h | obtain ⟨_, -, rfl⟩ := h
  all_goals refine ⟨?_, ?_, ?_, ?_, ?_⟩
  all_goals first
    | exact .inl ⟨rfl, rfl⟩
    | exact .inr rfl
    | apply_rules [Same.ignore, Same.enter, Same.sendPeerLinkOpen, Same.sendPeerLinkConfirm,
      Same.sendPeerLinkClose, Same.clearRetryTimer, Same.clearConfirmTimer,
      Same.clearHoldingTimer, Same.setRetryTimer, Same.setConfirmTimer, Same.setHoldingTimer,
      Same.countRetry]
    | simp_all [PeerState.KnowsPeer, PeerState.Confirmed]

/-! ## The reactions of a link -/

variable {peerMp : Mac48Address} {localLinkId : Nat}

/-- The reaction of a link, to a frame of its peer if one was heard. -/
structure Reacts (l : PeerLink) (heard : Option IePeerManagement) (r : Reaction) : Prop where
  macAddress : r.link.macAddress = l.macAddress
  peerAddress : r.link.peerAddress = l.peerAddress
  localLinkId : r.link.localLinkId = l.localLinkId
  peerLinkId : r.link.peerLinkId = l.peerLinkId ∨
    ∃ e, heard = some e ∧ r.link.peerLinkId = e.getLocalLinkId
  knowsPeer : r.link.state.KnowsPeer →
    (l.state.KnowsPeer ∧ r.link.peerLinkId = l.peerLinkId) ∨
      ∃ e, heard = some e ∧ r.link.peerLinkId = e.getLocalLinkId
  confirmed : r.link.state.Confirmed →
    l.state.Confirmed ∨ ∃ a, heard = some (.peerConfirm a l.localLinkId)
  sent : ∀ f ∈ r.sent, SentBy r.link f

variable {heard : Option IePeerManagement}

/-- Only timers, counters and the mesh point of the peer have changed. -/
structure Touched (l l' : PeerLink) : Prop where
  macAddress : l'.macAddress = l.macAddress
  peerAddress : l'.peerAddress = l.peerAddress
  localLinkId : l'.localLinkId = l.localLinkId
  peerLinkId : l'.peerLinkId = l.peerLinkId
  state : l'.state = l.state

theorem Touched.refl : Touched l l := ⟨rfl, rfl, rfl, rfl, rfl⟩

theorem reacts_touch (ht : Touched l l') : Reacts l heard l'.ignore :=
  { macAddress := ht.macAddress
    peerAddress := ht.peerAddress
    localLinkId := ht.localLinkId
    peerLinkId := .inl ht.peerLinkId
    knowsPeer := fun hknows => .inl ⟨ht.state ▸ hknows, ht.peerLinkId⟩
    confirmed := fun hconf => .inl (ht.state ▸ hconf)
    sent := nofun }

theorem reacts_stateMachine (h : l'.stateMachine event reason = .ok r) (ht : Touched l l')
    (hopn : event ≠ .opnAcpt) (hcnf : event ≠ .cnfAcpt) : Reacts l heard r := by
  have hmoves := stateMachine_moves h
  have hsame := hmoves.same
  have hid := hsame.peerLinkId.trans ht.peerLinkId
  refine ⟨hsame.macAddress.trans ht.macAddress, hsame.peerAddress.trans ht.peerAddress,
    hsame.localLinkId.trans ht.localLinkId, .inl hid, fun hknows => ?_, fun hconf => ?_,
    hsame.sentBy⟩
  · rcases hmoves.knowsPeer hknows with hknown | hevent | hevent
    · exact .inl ⟨ht.state ▸ hknown, hid⟩
    · exact absurd hevent hopn
    · exact absurd hevent hcnf
  · rcases hmoves.confirmed hconf with hconfirmed | hevent
    · exact .inl (ht.state ▸ hconfirmed)
    · exact absurd hevent hcnf

theorem reacts_frame (h : l'.stateMachine event reason = .ok r)
    (ht : Touched { l with peerLinkId := e.getLocalLinkId } l')
    (hcnf : event = .cnfAcpt → ∃ a, e = .peerConfirm a l.localLinkId) : Reacts l (some e) r := by
  have hmoves := stateMachine_moves h
  have hsame := hmoves.same
  have hid : ∃ e', some e = some e' ∧ r.link.peerLinkId = e'.getLocalLinkId :=
    ⟨e, rfl, hsame.peerLinkId.trans ht.peerLinkId⟩
  refine ⟨hsame.macAddress.trans ht.macAddress, hsame.peerAddress.trans ht.peerAddress,
    hsame.localLinkId.trans ht.localLinkId, .inr hid, fun _ => .inr hid, fun hconf => ?_,
    hsame.sentBy⟩
  rcases hmoves.confirmed hconf with hconfirmed | hevent
  · have hstate : l'.state = l.state := ht.state
    exact .inl (hstate ▸ hconfirmed)
  · obtain ⟨a, rfl⟩ := hcnf hevent
    exact .inr ⟨a, rfl⟩

theorem learnMeshPoint_ok (h : l.learnMeshPoint peerMp = .ok l') : Touched l l' := by
  rw [PeerLink.learnMeshPoint] at h
  split at h
  · obtain ⟨-, -, rfl⟩ := bind_pure_eq_ok.mp h
    exact .refl
  · cases h
    exact ⟨rfl, rfl, rfl, rfl, rfl⟩

theorem reacts_openAccept (h : l.openAccept localLinkId peerMp = .ok r) :
    Reacts l (some (.peerOpen localLinkId)) r := by
  rw [PeerLink.openAccept] at h
  obtain ⟨l', hl', hr⟩ := bind_eq_ok.mp h
  exact reacts_frame hr (learnMeshPoint_ok hl') nofun

theorem reacts_openReject (h : l.openReject localLinkId peerMp reason = .ok r) :
    Reacts l (some (.peerOpen localLinkId)) r := by
  rw [PeerLink.openReject] at h
  obtain ⟨l', hl', hr⟩ := bind_eq_ok.mp h
  have ht := learnMeshPoint_ok hl'
  by_cases hzero : l.peerLinkId = 0
  · rw [if_pos hzero] at ht
    exact reacts_frame hr ht nofun
  · rw [if_neg hzero] at ht
    exact reacts_stateMachine hr ht nofun nofun

theorem reacts_close {peerLinkId : Nat} (h : l.close localLinkId peerLinkId reason = .ok r) :
    Reacts l (some (.peerClose localLinkId peerLinkId reason)) r := by
  rw [PeerLink.close] at h
  split at h
  · cases h
    exact reacts_touch .refl
  split at h
  · exact reacts_frame h .refl nofun
  split at h
  · cases h
    exact reacts_touch .refl
  · exact reacts_stateMachine h .refl nofun nofun

theorem reacts_confirm {a peerAid : Nat} (h : l'.confirm peerAid peerMp = .ok r)
    (ht : Touched { l with peerLinkId := a } l') :
    Reacts l (some (.peerConfirm a l.localLinkId)) r := by
  rw [PeerLink.confirm] at h
  obtain ⟨l₁, hl₁, hr⟩ := bind_eq_ok.mp h
  have ht₁ := learnMeshPoint_ok hl₁
  exact reacts_frame hr ⟨ht₁.macAddress.trans ht.macAddress, ht₁.peerAddress.trans ht.peerAddress,
    ht₁.localLinkId.trans ht.localLinkId, ht₁.peerLinkId.trans ht.peerLinkId,
    ht₁.state.trans ht.state⟩ fun _ => ⟨a, rfl⟩

theorem reacts_confirmAccept {peerLinkId peerAid : Nat}
    (h : l.confirmAccept localLinkId peerLinkId peerAid peerMp = .ok r) :
    Reacts l (some (.peerConfirm localLinkId peerLinkId)) r := by
  rw [PeerLink.confirmAccept] at h
  split at h
  · cases h
    exact reacts_touch .refl
  · next hown =>
    obtain rfl := not_ne_iff.mp hown
    split at h
    · exact reacts_confirm h .refl
    · split at h
      · cases h
        exact reacts_touch .refl
      · next hpeer => exact reacts_confirm h ⟨rfl, rfl, rfl, not_ne_iff.mp hpeer, rfl⟩

/-! ## One end of the link -/

/-- The link of a station to one peer, and how many links the station has created. -/
structure LinkEnd where
  link : Option PeerLink
  created : Nat

/-- What can happen at one end, if the frame `heard` has come from the peer: `sent` are the
frames for the peer. -/
inductive EndStep (macAddress : Mac48Address) (heard : Option IePeerManagement) :
    LinkEnd → List Frame → LinkEnd → Prop where
  | erase {l : PeerLink} {n : Nat} : EndStep macAddress heard ⟨some l, n⟩ [] ⟨none, n⟩
  | createOther {link : Option PeerLink} {n : Nat} :
      EndStep macAddress heard ⟨link, n⟩ [] ⟨link, n + 1⟩
  | create {l : PeerLink} {n : Nat} : l.localLinkId = (n + 1) % 2 ^ 16 → l.peerLinkId = 0 →
      l.state = .idle → l.macAddress = macAddress →
      EndStep macAddress heard ⟨none, n⟩ [] ⟨some l, n + 1⟩
  | react {l : PeerLink} {r : Reaction} {n : Nat} : Reacts l heard r →
      EndStep macAddress heard ⟨some l, n⟩ r.sent ⟨some r.link, n⟩

/-! ## The links of an interface -/

namespace PeerLinksOnInterface

variable {ls : PeerLinksOnInterface} {p a : Mac48Address}

theorem peerAddress_of_linkTo (h : ls.linkTo a = some l) : l.peerAddress = a := by
  rw [linkTo] at h
  simpa using List.find?_some h

theorem linkTo_erase : (ls.erase a).linkTo p = if p = a then none else ls.linkTo p := by
  rw [linkTo, erase, List.find?_filter]
  by_cases hp : p = a
  · rw [if_pos hp]
    refine List.find?_eq_none.mpr fun l _ => ?_
    simp [hp]
  · rw [if_neg hp, linkTo]
    congr 1
    funext l
    by_cases hl : l.peerAddress = p
    · simp [hl, hp]
    · simp [hl]

theorem linkTo_pushBack (hnone : ls.linkTo l.peerAddress = none) :
    (ls.pushBack l).linkTo p = if p = l.peerAddress then some l else ls.linkTo p := by
  have hnot : l.peerAddress ∉ ls.links.map PeerLink.peerAddress := by
    intro hmem
    obtain ⟨l', hl', heq⟩ := List.mem_map.mp hmem
    exact List.find?_eq_none.mp hnone l' hl' (decide_eq_true heq)
  rw [pushBack, dif_neg hnot, linkTo, List.find?_append]
  by_cases hp : p = l.peerAddress
  · rw [linkTo, ← hp] at hnone
    rw [hnone, if_pos hp]
    simp [hp]
  · have hp' : ¬l.peerAddress = p := fun heq => hp heq.symm
    simp [linkTo, hp, hp']

theorem linkTo_set (hsome : ls.linkTo r.link.peerAddress = some l) :
    (ls.set r.link).linkTo p = if p = r.link.peerAddress then some r.link else ls.linkTo p := by
  rw [linkTo, set, List.find?_map]
  by_cases hp : p = r.link.peerAddress
  · have hfind : ls.links.find? ((fun l : PeerLink => decide (l.peerAddress = p)) ∘ fun l' =>
        if l'.peerAddress = r.link.peerAddress then r.link else l') = some l := by
      rw [← hsome, linkTo]
      congr 1
      funext l'
      by_cases hl' : l'.peerAddress = r.link.peerAddress
      · simp [hl', hp]
      · simp [hl', hp]
    rw [hfind, if_pos hp, Option.map_some, if_pos (peerAddress_of_linkTo hsome)]
  · have hfind : ((fun l : PeerLink => decide (l.peerAddress = p)) ∘ fun l' =>
        if l'.peerAddress = r.link.peerAddress then r.link else l') =
        fun l => decide (l.peerAddress = p) := by
      funext l'
      by_cases hl' : l'.peerAddress = r.link.peerAddress
      · simp [hl', Ne.symm hp]
      · simp [hl']
    rw [hfind, if_neg hp]
    change (ls.linkTo p).map _ = _
    cases hl : ls.linkTo p with
    | none => rfl
    | some l' =>
      have haddr := peerAddress_of_linkTo hl
      rw [Option.map_some, if_neg fun heq => hp (haddr.symm.trans heq)]

end PeerLinksOnInterface

/-! ## The station -/

namespace PeerManagementProtocol

def endTo (m : PeerManagementProtocol) (p : Mac48Address) : LinkEnd :=
  ⟨m.peerLinks.linkTo p, m.created⟩

/-- What has become of a station, of which the frames `sent` are for the peer `p`. -/
structure Moved (p : Mac48Address) (heard : Mac48Address → Option IePeerManagement)
    (m : PeerManagementProtocol) (sent : List Frame) (m' : PeerManagementProtocol) : Prop where
  macAddress : m'.macAddress = m.macAddress
  lastLocalLinkId : m.lastLocalLinkId = (m.created + 1) % 2 ^ 16 →
    m'.lastLocalLinkId = (m'.created + 1) % 2 ^ 16
  ends : m.lastLocalLinkId = (m.created + 1) % 2 ^ 16 →
    ∃ ls, Run (EndStep m.macAddress (heard p)) (m.endTo p) ls (m'.endTo p) ∧ sent = ls.flatten

variable {p a : Mac48Address} {heard : Mac48Address → Option IePeerManagement}
  {m m' m₁ m₂ : PeerManagementProtocol} {sent sent₁ sent₂ : List Frame}

namespace Moved

theorem refl : Moved p heard m [] m :=
  ⟨rfl, id, fun _ => ⟨[], .nil, rfl⟩⟩

theorem trans (h₁ : Moved p heard m sent₁ m₁) (h₂ : Moved p heard m₁ sent₂ m₂) :
    Moved p heard m (sent₁ ++ sent₂) m₂ := by
  refine ⟨h₂.macAddress.trans h₁.macAddress, fun hid => h₂.lastLocalLinkId (h₁.lastLocalLinkId hid),
    fun hid => ?_⟩
  obtain ⟨ls₁, hrun₁, rfl⟩ := h₁.ends hid
  obtain ⟨ls₂, hrun₂, rfl⟩ := h₂.ends (h₁.lastLocalLinkId hid)
  rw [h₁.macAddress] at hrun₂
  exact ⟨ls₁ ++ ls₂, hrun₁.append hrun₂, List.flatten_append.symm⟩

theorem of_endTo (hmac : m'.macAddress = m.macAddress)
    (hid : m'.lastLocalLinkId = m.lastLocalLinkId) (hend : m'.endTo p = m.endTo p) :
    Moved p heard m [] m' := by
  have hcreated : m'.created = m.created := congrArg LinkEnd.created hend
  refine ⟨hmac, fun h => by rw [hid, hcreated, h], fun _ => ⟨[], ?_, rfl⟩⟩
  rw [hend]
  exact .nil

theorem of_step {fs : List Frame} (hmac : m'.macAddress = m.macAddress)
    (hid : m'.lastLocalLinkId = m.lastLocalLinkId) (hcreated : m'.created = m.created)
    (hstep : EndStep m.macAddress (heard p) (m.endTo p) fs (m'.endTo p)) : Moved p heard m fs m' :=
  ⟨hmac, fun h => by rw [hid, hcreated, h], fun _ => ⟨[fs], .single hstep, by simp⟩⟩

end Moved

theorem set_moved {r : Reaction} (hlink : m.peerLinks.linkTo a = some l)
    (hreacts : Reacts l (heard a) r) :
    Moved p heard m (r.sent.filter fun f => f.addr1 = p)
      { m with peerLinks := m.peerLinks.set r.link } := by
  have haddr : r.link.peerAddress = a :=
    hreacts.peerAddress.trans (PeerLinksOnInterface.peerAddress_of_linkTo hlink)
  have hset := @PeerLinksOnInterface.linkTo_set l r m.peerLinks p (haddr ▸ hlink)
  by_cases hp : p = a
  · subst hp
    have hall : (r.sent.filter fun f => f.addr1 = p) = r.sent := by
      refine List.filter_eq_self.mpr fun f hf => ?_
      exact decide_eq_true ((hreacts.sent f hf).addr1.trans haddr)
    have hend : endTo { m with peerLinks := m.peerLinks.set r.link } p =
        ⟨some r.link, m.created⟩ := by
      rw [endTo, hset, if_pos haddr.symm]
    rw [hall]
    refine .of_step rfl rfl rfl ?_
    rw [hend, endTo, hlink]
    exact .react hreacts
  · have hnone : (r.sent.filter fun f => f.addr1 = p) = [] := by
      refine List.filter_eq_nil_iff.mpr fun f hf heq => ?_
      exact hp ((of_decide_eq_true heq).symm.trans ((hreacts.sent f hf).addr1.trans haddr))
    rw [hnone]
    refine .of_endTo rfl rfl ?_
    rw [endTo, hset, if_neg fun heq => hp (heq.trans haddr)]
    rfl

theorem findPeerLink_moved : Moved p heard m [] (m.findPeerLink a).2 := by
  rw [findPeerLink]
  cases hlink : m.peerLinks.linkTo a with
  | none => exact .refl
  | some l =>
    by_cases hidle : l.linkIsIdle
    · simp only [if_pos hidle]
      by_cases hp : p = a
      · subst hp
        refine .of_step rfl rfl rfl ?_
        rw [endTo, endTo, PeerLinksOnInterface.linkTo_erase, if_pos rfl, hlink]
        exact .erase
      · refine .of_endTo rfl rfl ?_
        rw [endTo, PeerLinksOnInterface.linkTo_erase, if_neg hp]
        rfl
    · simp only [if_neg hidle]
      exact .refl

theorem findPeerLink_some (h : m.findPeerLink a = (some l, m')) :
    m' = m ∧ m.peerLinks.linkTo a = some l := by
  rw [findPeerLink] at h
  cases hlink : m.peerLinks.linkTo a with
  | none =>
    rw [hlink] at h
    cases h
  | some l' =>
    rw [hlink] at h
    by_cases hidle : l'.linkIsIdle
    · simp only [if_pos hidle] at h
      cases h
    · simp only [if_neg hidle] at h
      cases h
      exact ⟨rfl, rfl⟩

theorem findPeerLink_none (h : m.findPeerLink a = (none, m')) :
    m'.peerLinks.linkTo a = none := by
  rw [findPeerLink] at h
  cases hlink : m.peerLinks.linkTo a with
  | none =>
    rw [hlink] at h
    cases h
    exact hlink
  | some l' =>
    rw [hlink] at h
    by_cases hidle : l'.linkIsIdle
    · simp only [if_pos hidle] at h
      cases h
      exact PeerLinksOnInterface.linkTo_erase.trans (if_pos rfl)
    · simp only [if_neg hidle] at h
      cases h

theorem notifyLinkOpen_moved : Moved p heard m [] m.notifyLinkOpen := by
  rw [notifyLinkOpen]
  exact .of_endTo rfl rfl (by rw [endTo, endTo])

theorem notifyLinkClose_moved : Moved p heard m [] m.notifyLinkClose := by
  rw [notifyLinkClose]
  exact .of_endTo rfl rfl (by rw [endTo, endTo])

theorem peerLinkStatus_moved {ostate nstate : PeerState}
    (h : m.peerLinkStatus a ostate nstate = .ok m') : Moved p heard m [] m' := by
  have hopen : Moved p heard m []
      (if nstate = .estab ∧ ostate ≠ .estab then m.notifyLinkOpen else m) := by
    split
    · exact notifyLinkOpen_moved
    · exact .refl
  rw [peerLinkStatus] at h
  generalize (if nstate = .estab ∧ ostate ≠ .estab then m.notifyLinkOpen else m) = n at h hopen
  have hclose : Moved p heard n []
      (if ostate = .estab ∧ nstate ≠ .estab then n.notifyLinkClose else n) := by
    split
    · exact notifyLinkClose_moved
    · exact .refl
  generalize (if ostate = .estab ∧ nstate ≠ .estab then n.notifyLinkClose else n) = n' at h hclose
  split at h
  · obtain ⟨-, -, rfl⟩ := bind_pure_eq_ok.mp h
    exact (hopen.trans hclose).trans findPeerLink_moved
  · cases h
    exact hopen.trans hclose

theorem settle_moved {r : Reaction} (hlink : m.peerLinks.linkTo a = some l)
    (hreacts : Reacts l (heard a) r) (h : m.settle r = .ok (m', sent)) :
    Moved p heard m (sent.filter fun f => f.addr1 = p) m' := by
  have hset := @set_moved l p a heard m r hlink hreacts
  rw [settle] at h
  cases hstatus : r.status with
  | none =>
    rw [hstatus] at h
    cases h
    exact hset
  | some status =>
    rw [hstatus] at h
    obtain ⟨n, hn, ⟨⟩⟩ := bind_pure_eq_ok.mp h
    have hboth := hset.trans (peerLinkStatus_moved hn)
    rwa [List.append_nil] at hboth

theorem initiateLink_eq_ok (h : m.initiateLink a peerMp = .ok (l, m')) :
    ∃ n, m.findPeerLink a = (none, n) ∧ l = n.newLink a peerMp ∧
      m' = { n with
        lastAssocId := (n.lastAssocId + 1) % 2 ^ 16
        lastLocalLinkId := (n.lastLocalLinkId + 1) % 2 ^ 16
        peerLinks := n.peerLinks.pushBack l
        created := n.created + 1 } ∧
      n.peerLinks.linkTo a = none ∧
        ∀ q, m'.peerLinks.linkTo q = if q = a then some l else n.peerLinks.linkTo q := by
  rw [initiateLink] at h
  cases hfind : m.findPeerLink a with
  | mk found n =>
  rw [hfind] at h
  cases found with
  | some l' => cases h
  | none =>
    cases h
    have hnone : n.peerLinks.linkTo (n.newLink a peerMp).peerAddress = none :=
      findPeerLink_none hfind
    exact ⟨n, rfl, rfl, rfl, hnone, fun q => PeerLinksOnInterface.linkTo_pushBack hnone⟩

theorem initiateLink_moved (h : m.initiateLink a peerMp = .ok (l, m')) : Moved p heard m [] m' := by
  obtain ⟨n, hfind, rfl, rfl, hnone, hpush⟩ := initiateLink_eq_ok h
  have hfound : Moved p heard m [] n := by
    have hmoved := @findPeerLink_moved p a heard m
    rwa [hfind] at hmoved
  refine hfound.trans ⟨rfl, fun hid => ?_, fun hid => ?_⟩
  · show (n.lastLocalLinkId + 1) % 2 ^ 16 = (n.created + 1 + 1) % 2 ^ 16
    rw [hid, Nat.mod_add_mod]
  · refine ⟨[[]], .single ?_, rfl⟩
    rw [endTo, endTo, hpush p]
    by_cases hp : p = a
    · subst hp
      rw [if_pos rfl, hnone]
      exact .create hid rfl rfl rfl
    · rw [if_neg hp]
      exact .createOther

/-! ## What an event does -/

def heardIn (e : PmpEvent) (a : Mac48Address) : Option IePeerManagement :=
  match e with
  | .frame f => if f.addr2 = a then some f.peerElement else none
  | _ => none

def answerFrame (m : PeerManagementProtocol) (f : Frame) (l : PeerLink) : Except Fault Reaction :=
  match f.peerElement with
  | .peerOpen id => answerOpen m.shouldAcceptOpen l id f.addr3
  | .peerConfirm a b => l.confirmAccept a b f.aid f.addr3
  | .peerClose a b reason => l.close a b reason

/-- The link to the peer `a`, which is new or was there before, answers an event: a frame, or an
event of the link that is not one. -/
inductive Answers (m : PeerManagementProtocol) (e : PmpEvent) (a : Mac48Address) (l : PeerLink)
    (r : Reaction) : Prop where
  | frame {f : Frame} : e = .frame f → f.addr2 = a →
      l.state = .idle ∨ m.peerLinks.linkTo a = some l → m.answerFrame f l = .ok r →
      Answers m e a l r
  | event {l' : PeerLink} {r' : Reaction} {event : PeerEvent} {reason : PmpReasonCode} :
      l'.stateMachine event reason = .ok r' → Touched l l' → event ≠ .opnAcpt →
      event ≠ .cnfAcpt → Touched r'.link r.link → r.status = r'.status → r.sent = r'.sent →
      Answers m e a l r
  | touch {l' : PeerLink} : Touched l l' → r = l'.ignore → Answers m e a l r

/-- No link reacts: idle links are erased, links are created, or what does not matter of a link
is changed. -/
inductive Quiet (m : PeerManagementProtocol) : PeerManagementProtocol → Prop where
  | refl : Quiet m m
  | find {n : PeerManagementProtocol} (a : Mac48Address) : Quiet m n → Quiet m (n.findPeerLink a).2
  | create {n n' : PeerManagementProtocol} {a peerMp : Mac48Address} {l : PeerLink} :
      Quiet m n → n.initiateLink a peerMp = .ok (l, n') → Quiet m n'
  | touch {n : PeerManagementProtocol} {a : Mac48Address} {l l' : PeerLink} : Quiet m n →
      n.peerLinks.linkTo a = some l → Touched l l' →
      Quiet m { n with peerLinks := n.peerLinks.set l' }

/-- One link reacts at most, and what else is done is quiet. -/
inductive Handled (e : PmpEvent) (m : PeerManagementProtocol) :
    List Frame → PeerManagementProtocol → Prop where
  | quiet {m' : PeerManagementProtocol} : Quiet m m' → Handled e m [] m'
  | react {n n' m' : PeerManagementProtocol} {a : Mac48Address} {l : PeerLink} {r : Reaction}
      {sent : List Frame} : Quiet m n → n.peerLinks.linkTo a = some l → Answers m e a l r →
      n.settle r = .ok (n', sent) → Quiet n' m' → Handled e m sent m'

section

variable {e : PmpEvent}

theorem Answers.of_event (h : l'.stateMachine event reason = .ok r) (ht : Touched l l')
    (hopn : event ≠ .opnAcpt) (hcnf : event ≠ .cnfAcpt) : Answers m e a l r :=
  .event h ht hopn hcnf .refl rfl rfl

theorem answers_transmissionFailure (h : l.transmissionFailure = .ok r) : Answers m e a l r := by
  rw [PeerLink.transmissionFailure] at h
  split at h
  · obtain ⟨r', hr', rfl⟩ := bind_pure_eq_ok.mp h
    exact .event hr' ⟨rfl, rfl, rfl, rfl, rfl⟩ nofun nofun ⟨rfl, rfl, rfl, rfl, rfl⟩ rfl rfl
  · have ht : Touched l { l with packetFail := (l.packetFail + 1) % 2 ^ 16 } :=
      ⟨rfl, rfl, rfl, rfl, rfl⟩
    exact .touch ht (pure_eq_ok.mp h).symm

theorem answers_retryTimeout (h : l.retryTimeout = .ok r) : Answers m e a l r := by
  rw [PeerLink.retryTimeout] at h
  split at h
  · exact .of_event h ⟨rfl, rfl, rfl, rfl, rfl⟩ nofun nofun
  · exact .of_event h ⟨rfl, rfl, rfl, rfl, rfl⟩ nofun nofun

theorem findPeerLink_common : (m.findPeerLink a).2.linksTotal = m.linksTotal ∧
    (m.findPeerLink a).2.maxNumberOfPeerLinks = m.maxNumberOfPeerLinks := by
  rw [findPeerLink]
  split
  · split <;> exact ⟨rfl, rfl⟩
  · exact ⟨rfl, rfl⟩

theorem Quiet.common (hq : Quiet m m') : m'.linksTotal = m.linksTotal ∧
    m'.maxNumberOfPeerLinks = m.maxNumberOfPeerLinks := by
  induction hq with
  | refl => exact ⟨rfl, rfl⟩
  | @find n a _ ih =>
    obtain ⟨htotal, hmax⟩ := @findPeerLink_common a n
    exact ⟨htotal.trans ih.1, hmax.trans ih.2⟩
  | @create n n' a peerMp l _ hinit ih =>
    obtain ⟨n₁, hfind, -, rfl, -⟩ := initiateLink_eq_ok hinit
    obtain ⟨htotal, hmax⟩ := @findPeerLink_common a n
    rw [hfind] at htotal hmax
    exact ⟨htotal.trans ih.1, hmax.trans ih.2⟩
  | touch _ _ _ ih => exact ih

theorem Quiet.beaconHeard (hq : Quiet m m') (a : Mac48Address) : Quiet m (m'.beaconHeard a) := by
  rw [PeerManagementProtocol.beaconHeard]
  cases hlink : m'.peerLinks.linkTo a with
  | none => exact hq
  | some l => exact hq.touch hlink ⟨rfl, rfl, rfl, rfl, rfl⟩

theorem receiveBeacon_handled (h : m.receiveBeacon a = .ok (m', sent)) : Handled e m sent m' := by
  rw [receiveBeacon] at h
  have hfound : Quiet m (m.findPeerLink a).2 := .find a .refl
  split at h
  · cases h
    exact .quiet .refl
  split at h
  · next l n hfind =>
    rw [hfind] at hfound
    cases h
    exact .quiet (hfound.beaconHeard a)
  · next n hfind =>
    rw [hfind] at hfound
    split at h
    · obtain ⟨⟨l, n₁⟩, hinit, hrest⟩ := bind_eq_ok.mp h
      obtain ⟨r, hr, hrest⟩ := bind_eq_ok.mp hrest
      obtain ⟨⟨n₂, fs⟩, hsettle, ⟨⟩⟩ := bind_pure_eq_ok.mp hrest
      obtain ⟨n₀, -, -, -, -, hlink⟩ := initiateLink_eq_ok hinit
      exact .react (hfound.create hinit) ((hlink a).trans (if_pos rfl))
        (.of_event hr .refl nofun nofun) hsettle (Quiet.refl.beaconHeard a)
    · cases h
      exact .quiet hfound

theorem receivePeerLinkFrame_handled {f : Frame} (h : m.receivePeerLinkFrame f = .ok (m', sent)) :
    Handled (.frame f) m sent m' := by
  rw [receivePeerLinkFrame] at h
  have hfound : Quiet m (m.findPeerLink f.addr2).2 := .find f.addr2 .refl
  cases hfind : m.findPeerLink f.addr2 with
  | mk found n =>
  rw [hfind] at h hfound
  -- a link that is there answers
  have hthere (l : PeerLink) (hl : found = some l) (r : Reaction) (hr : n.answerFrame f l = .ok r)
      (hsettle : n.settle r = .ok (m', sent)) : Handled (.frame f) m sent m' := by
    subst hl
    obtain ⟨rfl, hlink⟩ := findPeerLink_some hfind
    exact .react hfound hlink (.frame rfl rfl (.inr hlink) hr) hsettle .refl
  cases helement : f.peerElement with
  | peerOpen id =>
    rw [helement] at h
    obtain ⟨⟨l, n₁⟩, hready, hrest⟩ := bind_eq_ok.mp h
    obtain ⟨r, hr, hsettle⟩ := bind_eq_ok.mp hrest
    cases found with
    | some l' =>
      obtain ⟨rfl, rfl⟩ := pair_of_ok hready
      exact hthere l' rfl r (by rw [answerFrame, helement]; exact hr) hsettle
    | none =>
      obtain ⟨n₀, -, hl, -, -, hlink⟩ := initiateLink_eq_ok hready
      have hr : m.answerFrame f l = .ok r := by
        rw [answerFrame, helement, shouldAcceptOpen, ← hfound.common.1, ← hfound.common.2]
        exact hr
      exact .react (hfound.create hready) ((hlink f.addr2).trans (if_pos rfl))
        (.frame rfl rfl (.inl (congrArg PeerLink.state hl)) hr) hsettle .refl
  | peerConfirm i j =>
    rw [helement] at h
    cases found with
    | none =>
      cases h
      exact .quiet hfound
    | some l =>
      obtain ⟨r, hr, hsettle⟩ := bind_eq_ok.mp h
      exact hthere l rfl r (by rw [answerFrame, helement]; exact hr) hsettle
  | peerClose i j reason =>
    rw [helement] at h
    cases found with
    | none =>
      cases h
      exact .quiet hfound
    | some l =>
      obtain ⟨r, hr, hsettle⟩ := bind_eq_ok.mp h
      exact hthere l rfl r (by rw [answerFrame, helement]; exact hr) hsettle

variable {act : PeerLink → Except Fault Reaction}

theorem findPeerLink_handled (hact : ∀ l r, act l = .ok r → Answers m e a l r)
    (h : (match m.findPeerLink a with
      | (none, n) => pure (n, [])
      | (some l, n) => (act l).bind n.settle) = .ok (m', sent)) :
    Handled e m sent m' := by
  have hfound : Quiet m (m.findPeerLink a).2 := .find a .refl
  split at h
  · next n hfind =>
    rw [hfind] at hfound
    cases h
    exact .quiet hfound
  · next l n hfind =>
    obtain ⟨rfl, hlink⟩ := findPeerLink_some hfind
    obtain ⟨r, hr, hsettle⟩ := bind_eq_ok.mp h
    exact .react .refl hlink (hact l r hr) hsettle .refl

theorem timeout_handled {pending : PeerLink → Bool}
    (hact : ∀ l r, act l = .ok r → Answers m e a l r) (h : m.timeout a pending act = .ok
    (m', sent)) :
    Handled e m sent m' := by
  rw [timeout] at h
  split at h
  · cases h
    exact .quiet .refl
  · next l hlink =>
    split at h
    · obtain ⟨r, hr, hsettle⟩ := bind_eq_ok.mp h
      exact .react .refl hlink (hact l r hr) hsettle .refl
    · cases h
      exact .quiet .refl

theorem handle_handled (h : m.handle e = .ok (m', sent)) : Handled e m sent m' := by
  cases e with
  | beacon a => exact receiveBeacon_handled h
  | frame f => exact receivePeerLinkFrame_handled h
  | configurationMismatch a =>
    refine findPeerLink_handled (fun l r hr => ?_) h
    exact .of_event hr .refl nofun nofun
  | transmissionFailure a =>
    exact findPeerLink_handled (fun l r => answers_transmissionFailure) h
  | transmissionSuccess a =>
    cases h
    have hfound : Quiet m (m.findPeerLink a).2 := .find a .refl
    rw [transmissionSuccess]
    refine .quiet ?_
    split
    · next n hfind =>
      rw [hfind] at hfound
      exact hfound
    · next l n hfind =>
      obtain ⟨rfl, hlink⟩ := findPeerLink_some hfind
      exact .touch .refl hlink ⟨rfl, rfl, rfl, rfl, rfl⟩
  | isActiveLink a =>
    cases h
    have hactive : (m.isActiveLink a).2 = (m.findPeerLink a).2 := by
      rw [isActiveLink]
      split
      · next n hfind => rw [hfind]
      · next l n hfind => rw [hfind]
    exact .quiet (hactive ▸ .find a .refl)
  | beaconLoss a =>
    refine timeout_handled (fun l r hr => ?_) h
    exact .of_event hr ⟨rfl, rfl, rfl, rfl, rfl⟩ nofun nofun
  | retryTimeout a => exact timeout_handled (fun l r => answers_retryTimeout) h
  | confirmTimeout a =>
    refine timeout_handled (fun l r hr => ?_) h
    exact .of_event hr ⟨rfl, rfl, rfl, rfl, rfl⟩ nofun nofun
  | holdingTimeout a =>
    refine timeout_handled (fun l r hr => ?_) h
    exact .of_event hr ⟨rfl, rfl, rfl, rfl, rfl⟩ nofun nofun

theorem Answers.reacts (h : Answers m e a l r) : Reacts l (heardIn e a) r := by
  cases h with
  | @frame f he ha _ hr =>
    subst he
    have hheard : heardIn (.frame f) a = some f.peerElement := if_pos ha
    rw [hheard]
    rw [answerFrame] at hr
    cases helement : f.peerElement with
    | peerOpen id =>
      rw [helement] at hr
      cases haccept : m.shouldAcceptOpen with
      | ok u => exact reacts_openAccept (haccept ▸ hr)
      | error reasonCode => exact reacts_openReject (haccept ▸ hr)
    | peerConfirm i j =>
      rw [helement] at hr
      exact reacts_confirmAccept hr
    | peerClose i j reason =>
      rw [helement] at hr
      exact reacts_close hr
  | @event l' r' event reason hr ht hopn hcnf ht' hstatus hsent =>
    have hreacts : Reacts _ (heardIn e a) _ := reacts_stateMachine hr ht hopn hcnf
    have hid := ht'.peerLinkId
    refine ⟨ht'.macAddress.trans hreacts.macAddress, ht'.peerAddress.trans hreacts.peerAddress,
      ht'.localLinkId.trans hreacts.localLinkId, ?_, ?_, ?_, fun f hf => ?_⟩
    · rw [hid]
      exact hreacts.peerLinkId
    · rw [hid, ht'.state]
      exact hreacts.knowsPeer
    · rw [ht'.state]
      exact hreacts.confirmed
    · obtain ⟨h1, h2, h3, h4⟩ := hreacts.sent f (hsent ▸ hf)
      exact ⟨h1.trans ht'.peerAddress.symm, h2.trans ht'.macAddress.symm,
        h3.trans ht'.localLinkId.symm, fun i j hij => (h4 i j hij).trans hid.symm⟩
  | touch ht heq =>
    subst heq
    exact reacts_touch ht

theorem Quiet.moved (hq : Quiet m m') : Moved p heard m [] m' := by
  induction hq with
  | refl => exact .refl
  | find a _ ih => exact ih.trans findPeerLink_moved
  | create _ hinit ih => exact ih.trans (initiateLink_moved hinit)
  | @touch n a l l' _ hlink ht ih =>
    exact ih.trans (set_moved hlink (reacts_touch ht))

theorem handle_moved (h : m.handle e = .ok (m', sent)) :
    Moved p (heardIn e) m (sent.filter fun f => f.addr1 = p) m' := by
  cases handle_handled h with
  | quiet hq => exact hq.moved
  | @react n n' m' a l r sent hbefore hlink hanswers hsettle hafter =>
    have hall := (hbefore.moved.trans
      (@settle_moved _ p a (heardIn e) _ _ _ _ hlink hanswers.reacts hsettle)).trans hafter.moved
    rwa [List.append_nil] at hall

end

end PeerManagementProtocol

end Mesh

end Ns3
