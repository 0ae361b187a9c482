/-
  The limit on the peer links of a station
  (PeerManagementProtocol, src/mesh/model/dot11s/peer-management-protocol.cc).

  The links of all interfaces are counted together when they are established, but admitted when
  an Open arrives, or is sent.  The limit is passed by a Confirm that establishes a link which was
  admitted before, and a repeated Open on an established link is rejected once the limit is met.
-/
import Ns3.Mesh.LinkMoves
import Mathlib.Algebra.BigOperators.Group.Finset.Basic
import Mathlib.Algebra.Order.Ring.Nat

namespace Ns3

namespace Mesh

open Lib PeerManagementProtocol

/-! ## Established links -/

def PeerState.weight (s : PeerState) : Nat := if s = .estab then 1 else 0

theorem weight_le (s : PeerState) : s.weight ≤ 1 := by
  rw [PeerState.weight]
  split <;> omega

namespace PeerLinksOnInterface

def established (ls : PeerLinksOnInterface) : Nat := (ls.links.map fun l => l.state.weight).sum

variable {ls : PeerLinksOnInterface} {a : Mac48Address} {l l' : PeerLink}

theorem split_of_linkTo (h : ls.linkTo a = some l) : ∃ before after,
    ls.links = before ++ l :: after ∧ (∀ x ∈ before, x.peerAddress ≠ a) ∧
      ∀ x ∈ after, x.peerAddress ≠ a := by
  have haddr := peerAddress_of_linkTo h
  obtain ⟨-, before, after, heq, hbefore⟩ := List.find?_eq_some_iff_append.mp h
  refine ⟨before, after, heq, fun x hx => by simpa using hbefore x hx, fun x hx hxa => ?_⟩
  have hnodup := ls.nodup
  rw [heq, List.map_append, List.map_cons] at hnodup
  have hrest := (List.nodup_append.mp hnodup).2.1
  exact (List.nodup_cons.mp hrest).1 (haddr ▸ hxa ▸ List.mem_map_of_mem hx)

theorem established_erase (h : ls.linkTo a = some l) :
    (ls.erase a).established + l.state.weight = ls.established := by
  obtain ⟨before, after, heq, hbefore, hafter⟩ := split_of_linkTo h
  have hlinks : (ls.erase a).links = before ++ after := by
    have hl : l.peerAddress = a := peerAddress_of_linkTo h
    change ls.links.filter (fun l => l.peerAddress ≠ a) = _
    rw [heq, List.filter_append, List.filter_cons_of_neg (by simpa using hl),
      List.filter_eq_self.mpr (by simpa using hbefore),
      List.filter_eq_self.mpr (by simpa using hafter)]
  rw [established, established, hlinks, heq]
  simp only [List.map_append, List.map_cons, List.sum_append, List.sum_cons]
  omega

theorem established_set (h : ls.linkTo l'.peerAddress = some l) :
    (ls.set l').established + l.state.weight = ls.established + l'.state.weight := by
  obtain ⟨before, after, heq, hbefore, hafter⟩ := split_of_linkTo h
  have hkept (xs : List PeerLink) (hxs : ∀ x ∈ xs, x.peerAddress ≠ l'.peerAddress) :
      (xs.map fun x => if x.peerAddress = l'.peerAddress then l' else x) = xs :=
    (List.map_congr_left fun x hx => if_neg (hxs x hx)).trans (List.map_id' xs)
  have hlinks : (ls.set l').links = before ++ l' :: after := by
    change ls.links.map (fun x => if x.peerAddress = l'.peerAddress then l' else x) = _
    rw [heq, List.map_append, List.map_cons, if_pos (peerAddress_of_linkTo h),
      hkept before hbefore, hkept after hafter]
  rw [established, established, hlinks, heq]
  simp only [List.map_append, List.map_cons, List.sum_append, List.sum_cons]
  omega

theorem established_pushBack (hidle : l.state = .idle) :
    (ls.pushBack l).established = ls.established := by
  rw [pushBack]
  split
  · rfl
  · rw [established, List.map_append, List.sum_append, List.map_singleton, hidle]
    rfl

end PeerLinksOnInterface

/-! ## Reactions -/

/-- What the protocol is told of a reaction is what has happened, and the link counts `k` more at
most. -/
structure Noted (k : Nat) (l : PeerLink) (r : Reaction) : Prop where
  peerAddress : r.link.peerAddress = l.peerAddress
  status : r.status = none ∧ r.link.state = l.state ∨ r.status = some (l.state, r.link.state)
  weight : r.link.state.weight ≤ l.state.weight + k

section

variable {k : Nat} {l l' : PeerLink} {r : Reaction} {event : PeerEvent}
  {reason : PmpReasonCode}

section

variable (h : l'.stateMachine event reason = .ok r) (haddr : l'.peerAddress = l.peerAddress)
  (hstate : l'.state = l.state)

include h haddr hstate

theorem noted_stateMachine
    (hk : l.state = .cnfRcvd ∧ event = .opnAcpt ∨ l.state = .opnRcvd ∧ event = .cnfAcpt → 1 ≤ k) :
    Noted k l r := by
  have hmoves := stateMachine_moves h
  refine ⟨hmoves.same.peerAddress.trans haddr, hstate ▸ hmoves.status, ?_⟩
  by_cases hestab : r.link.state = .estab
  · rcases hmoves.estab hestab with hwas | hcases
    · rw [hestab, ← hstate, hwas]
      exact Nat.le_add_right _ _
    · exact (weight_le _).trans ((hk (hstate ▸ hcases)).trans (Nat.le_add_left _ _))
  · rw [PeerState.weight, if_neg hestab]
    exact Nat.zero_le _

theorem noted_other (hopn : event ≠ .opnAcpt) (hcnf : event ≠ .cnfAcpt) : Noted k l r :=
  noted_stateMachine h haddr hstate fun hcases =>
    hcases.elim (fun h => absurd h.2 hopn) fun h => absurd h.2 hcnf

end

theorem noted_touch (ht : Touched l l') : Noted k l l'.ignore :=
  ⟨ht.peerAddress, .inl ⟨rfl, ht.state⟩, (congrArg _ ht.state).le.trans (Nat.le_add_right _ _)⟩

variable {localLinkId : Nat}

theorem noted_close {peerLinkId : Nat} (h : l.close localLinkId peerLinkId reason = .ok r) :
    Noted k l r := by
  rw [PeerLink.close] at h
  split at h
  · cases h
    exact noted_touch .refl
  split at h
  · exact noted_other h rfl rfl (by decide) (by decide)
  split at h
  · cases h
    exact noted_touch .refl
  · exact noted_other h rfl rfl (by decide) (by decide)

variable {peerMp : Mac48Address}

theorem noted_openAccept (h : l.openAccept localLinkId peerMp = .ok r) (hk : 1 ≤ k) :
    Noted k l r ∧ (l.state = .estab → r.link.state = .estab) := by
  rw [PeerLink.openAccept] at h
  obtain ⟨l', hl', hr⟩ := bind_eq_ok.mp h
  have ht := learnMeshPoint_ok hl'
  refine ⟨noted_stateMachine hr ht.peerAddress ht.state fun _ => hk, fun hestab => ?_⟩
  have hstate : l'.state = .estab := ht.state.trans hestab
  unfold PeerLink.stateMachine at hr
  simp only [hstate, pure_eq_ok] at hr
  obtain rfl := hr
  exact hstate

theorem noted_openReject (h : l.openReject localLinkId peerMp reason = .ok r) :
    Noted k l r ∧ (l.state = .estab → r.link.state = .holding) := by
  rw [PeerLink.openReject] at h
  obtain ⟨l', hl', hr⟩ := bind_eq_ok.mp h
  have ht := learnMeshPoint_ok hl'
  obtain ⟨haddr, hstate⟩ : l'.peerAddress = l.peerAddress ∧ l'.state = l.state := by
    by_cases hzero : l.peerLinkId = 0
    · rw [if_pos hzero] at ht
      exact ⟨ht.peerAddress, ht.state⟩
    · rw [if_neg hzero] at ht
      exact ⟨ht.peerAddress, ht.state⟩
  refine ⟨noted_other hr haddr hstate (by decide) (by decide), fun hestab => ?_⟩
  unfold PeerLink.stateMachine at hr
  simp only [hstate.trans hestab, pure_eq_ok] at hr
  obtain rfl := hr
  rfl

/-- A Confirm establishes the link, if it repeats the ids and the peer has sent an Open. -/
def Completes (l : PeerLink) (localLinkId peerLinkId : Nat) : Prop :=
  l.state = .opnRcvd ∧ l.localLinkId = peerLinkId ∧
    (l.peerLinkId = 0 ∨ l.peerLinkId = localLinkId)

theorem noted_confirm {peerAid : Nat} (h : l'.confirm peerAid peerMp = .ok r)
    (haddr : l'.peerAddress = l.peerAddress) (hstate : l'.state = l.state)
    (hk : l.state = .opnRcvd → 1 ≤ k) :
    Noted k l r ∧ (l.state = .opnRcvd → r.link.state = .estab) := by
  rw [PeerLink.confirm] at h
  obtain ⟨l₁, hl₁, hr⟩ := bind_eq_ok.mp h
  have ht := learnMeshPoint_ok hl₁
  have hboth : l₁.state = l.state := ht.state.trans hstate
  refine ⟨noted_stateMachine hr (ht.peerAddress.trans haddr) hboth fun hcases => ?_,
    fun hopen => ?_⟩
  · rcases hcases with ⟨-, hevent⟩ | ⟨hopen, -⟩
    · cases hevent
    · exact hk hopen
  · unfold PeerLink.stateMachine at hr
    simp only [hboth.trans hopen, bind_eq_ok, pure_eq_ok] at hr
    obtain ⟨-, -, rfl⟩ := hr
    rfl

theorem noted_confirmAccept {peerLinkId peerAid : Nat}
    (h : l.confirmAccept localLinkId peerLinkId peerAid peerMp = .ok r)
    (hk : Completes l localLinkId peerLinkId → 1 ≤ k) :
    Noted k l r ∧ (Completes l localLinkId peerLinkId → r.link.state = .estab) := by
  rw [PeerLink.confirmAccept] at h
  split at h
  · next hown =>
    cases h
    exact ⟨noted_touch .refl, fun hc => absurd hc.2.1 hown⟩
  next hown =>
  split at h
  · next hzero =>
    obtain ⟨hnoted, hestab⟩ := noted_confirm (l := l) h rfl rfl fun hs =>
      hk ⟨hs, not_ne_iff.mp hown, .inl hzero⟩
    exact ⟨hnoted, fun hc => hestab hc.1⟩
  next hset =>
  split at h
  · next hpeer =>
    cases h
    exact ⟨noted_touch .refl, fun hc => absurd hc.2.2 (not_or.mpr ⟨hset, hpeer⟩)⟩
  · next hpeer =>
    obtain ⟨hnoted, hestab⟩ := noted_confirm (l := l) h rfl rfl fun hs =>
      hk ⟨hs, not_ne_iff.mp hown, .inr (not_ne_iff.mp hpeer)⟩
    exact ⟨hnoted, fun hc => hestab hc.1⟩

end

/-! ## One interface -/

namespace PeerManagementProtocol

def established (m : PeerManagementProtocol) : Nat := m.peerLinks.established

/-- The total moves with the links that are established. -/
structure Counts (m m' : PeerManagementProtocol) : Prop where
  max : m'.maxNumberOfPeerLinks = m.maxNumberOfPeerLinks
  lt : m.linksTotal < 2 ^ 16 → m'.linksTotal < 2 ^ 16
  total : (m'.linksTotal + m.established) % 2 ^ 16 = (m.linksTotal + m'.established) % 2 ^ 16

/-- And at most `k` links more are established. -/
structure Grows (k : Nat) (m m' : PeerManagementProtocol) : Prop extends Counts m m' where
  grown : m'.established ≤ m.established + k

section

variable {k : Nat} {l : PeerLink} {r : Reaction} {m m' m₁ m₂ : PeerManagementProtocol}
  {a : Mac48Address} {sent : List Frame} {ostate nstate : PeerState}

theorem Counts.trans (h₁ : Counts m m₁) (h₂ : Counts m₁ m₂) : Counts m m₂ := by
  have htotal₁ := h₁.total
  have htotal₂ := h₂.total
  exact ⟨h₂.max.trans h₁.max, fun h => h₂.lt (h₁.lt h), by omega⟩

theorem Grows.trans (h₁ : Grows 0 m m₁) (h₂ : Grows k m₁ m₂) : Grows k m m₂ :=
  ⟨h₁.toCounts.trans h₂.toCounts, h₂.grown.trans (Nat.add_le_add_right h₁.grown k)⟩

theorem Grows.then (h₁ : Grows k m m₁) (h₂ : Grows 0 m₁ m₂) : Grows k m m₂ :=
  ⟨h₁.toCounts.trans h₂.toCounts, h₂.grown.trans h₁.grown⟩

theorem Grows.of_eq (hmax : m'.maxNumberOfPeerLinks = m.maxNumberOfPeerLinks)
    (htotal : m'.linksTotal = m.linksTotal) (hestab : m'.established = m.established) :
    Grows k m m' :=
  ⟨⟨hmax, fun h => htotal ▸ h, by rw [htotal, hestab]⟩, hestab.le.trans (Nat.le_add_right _ _)⟩

theorem Grows.refl : Grows k m m := .of_eq rfl rfl rfl

theorem findPeerLink_grows : Grows k m (m.findPeerLink a).2 := by
  rw [findPeerLink]
  cases hlink : m.peerLinks.linkTo a with
  | none => exact .refl
  | some l =>
    by_cases hidle : l.linkIsIdle = true
    · have hstate : l.state = .idle := by simpa [PeerLink.linkIsIdle] using hidle
      have herase := PeerLinksOnInterface.established_erase hlink
      rw [hstate] at herase
      simp only [if_pos hidle]
      exact .of_eq rfl rfl herase
    · simp only [if_neg hidle]
      exact .refl

/-- What `PeerLinkStatus` counts when a link goes from one state to another. -/
def reported (m : PeerManagementProtocol) (ostate nstate : PeerState) : PeerManagementProtocol :=
  let m := if nstate = .estab ∧ ostate ≠ .estab then m.notifyLinkOpen else m
  if ostate = .estab ∧ nstate ≠ .estab then m.notifyLinkClose else m

theorem reported_eq (m : PeerManagementProtocol) (ostate nstate : PeerState) :
    ∃ total, m.reported ostate nstate = { m with linksTotal := total } ∧
      (m.linksTotal < 2 ^ 16 → total < 2 ^ 16) ∧
      (total + ostate.weight) % 2 ^ 16 = (m.linksTotal + nstate.weight) % 2 ^ 16 := by
  simp only [reported, PeerState.weight]
  by_cases ho : ostate = .estab
  · by_cases hn : nstate = .estab
    · rw [if_neg (not_and.mpr fun _ h => h hn), if_neg (not_and.mpr fun _ h => h ho), if_pos ho,
        if_pos hn]
      exact ⟨m.linksTotal, rfl, id, rfl⟩
    · rw [if_pos ⟨ho, hn⟩, if_neg (not_and.mpr fun h => absurd h hn), if_pos ho, if_neg hn]
      exact ⟨_, rfl, fun _ => Nat.mod_lt _ (by decide), by omega⟩
  · by_cases hn : nstate = .estab
    · rw [if_neg (not_and.mpr fun h => absurd h ho), if_pos ⟨hn, ho⟩, if_neg ho, if_pos hn]
      exact ⟨_, rfl, fun _ => Nat.mod_lt _ (by decide), by omega⟩
    · rw [if_neg (not_and.mpr fun h => absurd h ho), if_neg (not_and.mpr fun h => absurd h hn),
        if_neg ho, if_neg hn]
      exact ⟨m.linksTotal, rfl, id, rfl⟩

theorem peerLinkStatus_eq (h : m.peerLinkStatus a ostate nstate = .ok m') :
    Grows 0 (m.reported ostate nstate) m' ∧
      (nstate ≠ .idle → m' = m.reported ostate nstate) := by
  rw [peerLinkStatus] at h
  change (if nstate = .idle then _ else pure (m.reported ostate nstate)) = _ at h
  split at h
  · next hidle =>
    obtain ⟨-, -, rfl⟩ := bind_pure_eq_ok.mp h
    exact ⟨findPeerLink_grows, fun hne => absurd hidle hne⟩
  · cases h
    exact ⟨.refl, fun _ => rfl⟩

theorem settle_counts (hlink : m.peerLinks.linkTo a = some l) (hnoted : Noted k l r)
    (h : m.settle r = .ok (m', sent)) :
    Grows k m m' ∧ (r.link.state ≠ .idle →
      m'.peerLinks.linkTo a = some r.link ∧
      m'.established + l.state.weight = m.established + r.link.state.weight) := by
  have haddr : r.link.peerAddress = a :=
    hnoted.peerAddress.trans (PeerLinksOnInterface.peerAddress_of_linkTo hlink)
  have hset : m.peerLinks.linkTo r.link.peerAddress = some l := haddr ▸ hlink
  have hweights := PeerLinksOnInterface.established_set hset
  have hfound : (m.peerLinks.set r.link).linkTo a = some r.link :=
    (PeerLinksOnInterface.linkTo_set hset).trans (if_pos haddr.symm)
  have hweight := hnoted.weight
  rw [settle] at h
  rcases hnoted.status with ⟨hnone, hsame⟩ | hsome
  · rw [hnone] at h
    cases h
    rw [hsame] at hweights
    have heq : (m.peerLinks.set r.link).established = m.established := Nat.add_right_cancel hweights
    refine ⟨.of_eq rfl rfl heq, fun _ => ⟨hfound, ?_⟩⟩
    rw [hsame]
    exact hweights
  · rw [hsome] at h
    obtain ⟨n, hn, ⟨⟩⟩ := bind_pure_eq_ok.mp h
    obtain ⟨hgrows, hstays⟩ := peerLinkStatus_eq hn
    obtain ⟨total, hreported, hlt, htotal⟩ := reported_eq
      { m with peerLinks := m.peerLinks.set r.link } l.state r.link.state
    rw [hreported] at hgrows hstays
    have hbooks : (total + m.established) % 2 ^ 16 =
        (m.linksTotal + (m.peerLinks.set r.link).established) % 2 ^ 16 := by
      change _ = (m.linksTotal + r.link.state.weight) % 2 ^ 16 at htotal
      rw [established]
      omega
    have hset : Grows k m
        { m with peerLinks := m.peerLinks.set r.link, linksTotal := total } :=
      ⟨⟨rfl, hlt, hbooks⟩, (by rw [established]; omega : (m.peerLinks.set r.link).established ≤ _)⟩
    refine ⟨hset.then hgrows, fun hne => ?_⟩
    · rw [hstays hne]
      exact ⟨hfound, hweights⟩

/-! ## One event -/

theorem Quiet.grows (hq : Quiet m m') : Grows k m m' := by
  induction hq with
  | refl => exact .refl
  | find a _ ih => exact ih.then findPeerLink_grows
  | @create n n' a peerMp l _ hinit ih =>
    obtain ⟨n₁, hfind, hl, rfl, -⟩ := initiateLink_eq_ok hinit
    have hfound : Grows 0 n (n.findPeerLink a).2 := findPeerLink_grows
    rw [hfind] at hfound
    have hidle : l.state = .idle := congrArg PeerLink.state hl
    have hpush : (n₁.peerLinks.pushBack l).established = _ :=
      PeerLinksOnInterface.established_pushBack hidle
    exact (ih.then hfound).then (.of_eq rfl rfl hpush)
  | @touch n a l l' _ hlink ht ih =>
    have haddr := ht.peerAddress.trans (PeerLinksOnInterface.peerAddress_of_linkTo hlink)
    have hset := PeerLinksOnInterface.established_set (haddr ▸ hlink)
    rw [ht.state] at hset
    exact ih.then (.of_eq rfl rfl (Nat.add_right_cancel hset))

def Establishes (m : PeerManagementProtocol) (e : PmpEvent) : Prop := ∃ f, e = .frame f ∧
  ((∃ i, f.peerElement = .peerOpen i) ∧ m.linksTotal < m.maxNumberOfPeerLinks ∨
    ∃ i j l, f.peerElement = .peerConfirm i j ∧ m.peerLinks.linkTo f.addr2 = some l ∧
      Completes l i j)

theorem Answers.noted {e : PmpEvent} (h : Answers m e a l r) (hk : m.Establishes e → 1 ≤ k) :
    Noted k l r := by
  cases h with
  | @frame f he ha hlink hr =>
    subst ha
    rw [answerFrame] at hr
    cases helement : f.peerElement with
    | peerOpen i =>
      rw [helement] at hr
      dsimp only at hr
      rw [shouldAcceptOpen] at hr
      by_cases hfull : m.linksTotal ≥ m.maxNumberOfPeerLinks
      · rw [if_pos hfull] at hr
        exact (noted_openReject hr).1
      · rw [if_neg hfull] at hr
        exact (noted_openAccept hr (hk ⟨f, he, .inl ⟨⟨i, helement⟩, Nat.not_le.mp hfull⟩⟩)).1
    | peerConfirm i j =>
      rw [helement] at hr
      refine (noted_confirmAccept hr fun hcompletes => ?_).1
      have hthere := hlink.resolve_left (hcompletes.1 ▸ by decide)
      exact hk ⟨f, he, .inr ⟨i, j, l, helement, hthere, hcompletes⟩⟩
    | peerClose i j reason =>
      rw [helement] at hr
      exact noted_close hr
  | event hr ht hopn hcnf ht' hstatus _ =>
    obtain ⟨haddr, hnoted, hweight⟩ := noted_other (k := k) hr ht.peerAddress ht.state hopn hcnf
    rw [← hstatus, ← ht'.state] at hnoted
    rw [← ht'.state] at hweight
    exact ⟨ht'.peerAddress.trans haddr, hnoted, hweight⟩
  | touch ht heq => exact heq ▸ noted_touch ht

theorem handle_grows {e : PmpEvent} (hk : m.Establishes e → 1 ≤ k)
    (h : m.handle e = .ok (m', sent)) : Grows k m m' := by
  cases handle_handled h with
  | quiet hq => exact hq.grows
  | react hbefore hlink hanswers hsettle hafter =>
    have hsettled := (settle_counts hlink (hanswers.noted hk) hsettle).1
    exact (hbefore.grows.trans hsettled).then hafter.grows

theorem findPeerLink_of (hlink : m.peerLinks.linkTo a = some l) (hne : l.state ≠ .idle) :
    m.findPeerLink a = (some l, m) := by
  have hidle : ¬l.linkIsIdle = true := by simpa [PeerLink.linkIsIdle] using hne
  rw [findPeerLink, hlink]
  exact if_neg hidle

theorem receiveConfirm_established {f : Frame} {i j : Nat} (hf : f.peerElement = .peerConfirm i j)
    (hlink : m.peerLinks.linkTo f.addr2 = some l) (hcompletes : Completes l i j)
    (h : m.receivePeerLinkFrame f = .ok (m', sent)) : m'.established = m.established + 1 := by
  have hopen : l.state = .opnRcvd := hcompletes.1
  rw [receivePeerLinkFrame, findPeerLink_of hlink (hopen ▸ by decide), hf] at h
  obtain ⟨r, hr, hsettle⟩ := bind_eq_ok.mp h
  obtain ⟨hnoted, hestab⟩ := noted_confirmAccept (k := 1) hr fun _ => le_rfl
  have hstate := hestab hcompletes
  have hweights := ((settle_counts hlink hnoted hsettle).2 (hstate ▸ by decide)).2
  rw [hstate, hopen] at hweights
  exact hweights

theorem receiveOpen_established {f : Frame} {i : Nat} (hf : f.peerElement = .peerOpen i)
    (hlink : m.peerLinks.linkTo f.addr2 = some l) (hestab : l.state = .estab)
    (h : m.receivePeerLinkFrame f = .ok (m', sent)) :
    ∃ l', m'.peerLinks.linkTo f.addr2 = some l' ∧
      (l'.state = .estab ↔ m.linksTotal < m.maxNumberOfPeerLinks) := by
  rw [receivePeerLinkFrame, findPeerLink_of hlink (hestab ▸ by decide), hf] at h
  obtain ⟨⟨l₁, n⟩, hready, hrest⟩ := bind_eq_ok.mp h
  cases hready
  obtain ⟨r, hr, hsettle⟩ := bind_eq_ok.mp hrest
  rw [shouldAcceptOpen] at hr
  by_cases hfull : m.linksTotal ≥ m.maxNumberOfPeerLinks
  · rw [if_pos hfull] at hr
    obtain ⟨hnoted, hclosed⟩ := noted_openReject (k := 0) hr
    have hstate := hclosed hestab
    have hthere := ((settle_counts hlink hnoted hsettle).2 (hstate ▸ by decide)).1
    refine ⟨r.link, hthere, iff_of_false (fun h => ?_) (Nat.not_lt.mpr hfull)⟩
    cases h.symm.trans hstate
  · rw [if_neg hfull] at hr
    obtain ⟨hnoted, hopen⟩ := noted_openAccept hr le_rfl
    have hstate := hopen hestab
    have hthere := ((settle_counts hlink hnoted hsettle).2 (hstate ▸ by decide)).1
    exact ⟨r.link, hthere, iff_of_true hstate (Nat.not_le.mp hfull)⟩

end

end PeerManagementProtocol

/-! ## The station -/

/-- A station with several interfaces.  `common` has what they share, and beside it the interface
that was used last. -/
structure MeshPoint (ι : Type) where
  common : PeerManagementProtocol
  macAddress : ι → Mac48Address
  peerLinks : ι → PeerLinksOnInterface

namespace MeshPoint

variable {ι : Type} [Fintype ι] [DecidableEq ι]

def on (σ : MeshPoint ι) (i : ι) : PeerManagementProtocol :=
  { σ.common with macAddress := σ.macAddress i, peerLinks := σ.peerLinks i }

def put (σ : MeshPoint ι) (i : ι) (m : PeerManagementProtocol) : MeshPoint ι :=
  { σ with common := m, peerLinks := Function.update σ.peerLinks i m.peerLinks }

/-- One event at an interface.  The beacons of all own interfaces are ignored. -/
def handle (σ : MeshPoint ι) (i : ι) (e : PmpEvent) : Except Fault (MeshPoint ι × List Frame) :=
  if ∃ j, e = .beacon (σ.macAddress j) then pure (σ, [])
  else do
    let (m, sent) ← (σ.on i).handle e
    pure (σ.put i m, sent)

def Starts (σ : MeshPoint ι) : Prop := σ.common.linksTotal = 0 ∧ ∀ i, (σ.peerLinks i).links = []

def Step (σ : MeshPoint ι) (e : ι × PmpEvent) (τ : MeshPoint ι) : Prop :=
  ∃ sent, σ.handle e.1 e.2 = .ok (τ, sent)

def established (σ : MeshPoint ι) : Nat := ∑ i, (σ.peerLinks i).established

def WithinLimit (σ : MeshPoint ι) : Prop :=
  σ.common.linksTotal = σ.established ∧ σ.established ≤ σ.common.maxNumberOfPeerLinks

def Honours (σ : MeshPoint ι) (e : ι × PmpEvent) (τ : MeshPoint ι) : Prop :=
  τ.WithinLimit ∧ ∀ f n l, e.2 = .frame f → f.peerElement = .peerOpen n →
    (σ.peerLinks e.1).linkTo f.addr2 = some l → l.state = .estab →
      ∃ l', (τ.peerLinks e.1).linkTo f.addr2 = some l' ∧ l'.state = .estab

/-- At the limit, an Open comes from the peer of an established link, or a Confirm that completes a
link. -/
def Spoils (σ : MeshPoint ι) (e : ι × PmpEvent) : Prop :=
  σ.common.maxNumberOfPeerLinks ≤ σ.common.linksTotal ∧ ∃ f l, e.2 = .frame f ∧
    (σ.peerLinks e.1).linkTo f.addr2 = some l ∧
      ((∃ n, f.peerElement = .peerOpen n) ∧ l.state = .estab ∨
        ∃ i j, f.peerElement = .peerConfirm i j ∧ Completes l i j)

variable {σ τ : MeshPoint ι} {e : ι × PmpEvent} {es : List (ι × PmpEvent)}

theorem established_put (i : ι) (m : PeerManagementProtocol) :
    (σ.put i m).established + (σ.peerLinks i).established = σ.established + m.established := by
  have hbefore := Finset.add_sum_erase Finset.univ (fun j => (σ.peerLinks j).established)
    (Finset.mem_univ i)
  have hafter := Finset.add_sum_erase Finset.univ (fun j => ((σ.put i m).peerLinks j).established)
    (Finset.mem_univ i)
  have hrest : ∑ j ∈ Finset.univ.erase i, ((σ.put i m).peerLinks j).established =
      ∑ j ∈ Finset.univ.erase i, (σ.peerLinks j).established := by
    refine Finset.sum_congr rfl fun j hj => ?_
    exact congrArg _ (Function.update_of_ne (Finset.ne_of_mem_erase hj) _ _)
  have hself : ((σ.put i m).peerLinks i).established = m.established :=
    congrArg _ (Function.update_self _ _ _)
  rw [hrest, hself] at hafter
  rw [established, established]
  omega

/-- The limit is honoured by exactly the steps that do not spoil it. -/
theorem honours_iff (hin : σ.WithinLimit) (hmax : σ.common.maxNumberOfPeerLinks < 2 ^ 8)
    (hstep : Step σ e τ) : (Honours σ e τ ↔ ¬σ.Spoils e) ∧
      τ.common.maxNumberOfPeerLinks = σ.common.maxNumberOfPeerLinks := by
  obtain ⟨i, e⟩ := e
  obtain ⟨sent, hhandle⟩ := hstep
  obtain ⟨htotal, hle⟩ := hin
  rw [handle] at hhandle
  split at hhandle
  · next hown =>
    obtain ⟨j, hj⟩ := hown
    cases hhandle
    refine ⟨iff_of_true ⟨⟨htotal, hle⟩, fun f n l hf => ?_⟩ ?_, rfl⟩
    · cases hj.symm.trans hf
    · rintro ⟨-, f, l, hf, -⟩
      cases hj.symm.trans hf
  obtain ⟨⟨m, fs⟩, hm, ⟨⟩⟩ := bind_pure_eq_ok.mp hhandle
  have hput := established_put (σ := σ) i m
  have hbefore : (σ.on i).established = (σ.peerLinks i).established := rfl
  have hone : Grows 1 (σ.on i) m := handle_grows (fun _ => le_rfl) hm
  -- the total is a word, but the limit is a byte
  have hcounted : m.linksTotal = (σ.put i m).established := by
    have hword := hone.lt (by omega : σ.common.linksTotal < 2 ^ 16)
    have hgrown := hone.grown
    have hbooks : (m.linksTotal + (σ.on i).established) % 2 ^ 16 =
      (σ.common.linksTotal + m.established) % 2 ^ 16 := hone.total
    omega
  have hlinks : (σ.put i m).peerLinks i = m.peerLinks := Function.update_self _ _ _
  have hmax' : m.maxNumberOfPeerLinks = σ.common.maxNumberOfPeerLinks := hone.max
  refine ⟨⟨?_, fun hnot => ⟨⟨hcounted, ?_⟩, ?_⟩⟩, hone.max⟩
  · rintro ⟨⟨-, hle'⟩, hstays⟩ ⟨hfull, f, l, rfl, hlink, ⟨⟨n, hf⟩, hestab⟩ | ⟨a, b, hf, hcompletes⟩⟩
    · obtain ⟨l', hl', hestab'⟩ := hstays f n l rfl hf hlink hestab
      obtain ⟨l₂, hl₂, hiff⟩ := receiveOpen_established (m := σ.on i) hf hlink hestab hm
      rw [hlinks, hl₂] at hl'
      cases hl'
      exact absurd (hiff.mp hestab') (Nat.not_lt.mpr hfull)
    · have hmore := receiveConfirm_established (m := σ.on i) hf hlink hcompletes hm
      change (σ.put i m).established ≤ m.maxNumberOfPeerLinks at hle'
      omega
  · change (σ.put i m).established ≤ m.maxNumberOfPeerLinks
    by_cases hroom : σ.common.linksTotal < σ.common.maxNumberOfPeerLinks
    · have hgrown := hone.grown
      omega
    · have hzero : Grows 0 (σ.on i) m := by
        refine handle_grows (fun hestablishes => ?_) hm
        obtain ⟨f, rfl, ⟨-, hlt⟩ | ⟨a, b, l, hf, hlink, hcompletes⟩⟩ := hestablishes
        · exact absurd hlt hroom
        · exact absurd ⟨Nat.not_lt.mp hroom, f, l, rfl, hlink, .inr ⟨a, b, hf, hcompletes⟩⟩ hnot
      have hgrown := hzero.grown
      omega
  · rintro f n l rfl hf hlink hestab
    obtain ⟨l', hl', hiff⟩ := receiveOpen_established (m := σ.on i) hf hlink hestab hm
    refine ⟨l', (congrArg (·.linkTo f.addr2) hlinks).trans hl', hiff.mpr ?_⟩
    by_contra hfull
    exact hnot ⟨Nat.not_lt.mp hfull, f, l, rfl, hlink, .inl ⟨⟨n, hf⟩, hestab⟩⟩

/-- **The limit on peer links** is honoured along a run, and no Open closes an established link,
exactly if no step spoils it. -/
theorem links_limited_iff (hstart : σ.Starts) (hmax : σ.common.maxNumberOfPeerLinks < 2 ^ 8)
    (hrun : Run Step σ es τ) :
    (∀ ks e u v, ks ++ [e] <+: es → Run Step σ ks u → Step u e v → Honours u e v) ↔
      ∀ ks e u v, ks ++ [e] <+: es → Run Step σ ks u → Step u e v → ¬u.Spoils e := by
  have hnone : σ.established = 0 := by
    refine Finset.sum_eq_zero fun i _ => ?_
    rw [PeerLinksOnInterface.established, hstart.2 i]
    rfl
  refine Run.steps_iff (I := fun σ => σ.WithinLimit ∧ σ.common.maxNumberOfPeerLinks < 2 ^ 8)
    ⟨⟨hstart.1.trans hnone.symm, hnone ▸ Nat.zero_le _⟩, hmax⟩ ?_ ?_ hrun
  · rintro t e u ⟨hin, hmax⟩ hstep hhonours
    exact ⟨hhonours.1, (honours_iff hin hmax hstep).2 ▸ hmax⟩
  · rintro t e u ⟨hin, hmax⟩ hstep
    exact (honours_iff hin hmax hstep).1

def station (n : UInt8) : Mac48Address := ⟨[0, 0, 0, 0, 0, n], rfl⟩

def oneLink : MeshPoint Unit :=
  let m := install (station 0) (station 0) 1 4 2
  ⟨m, fun _ => m.macAddress, fun _ => m.peerLinks⟩

def frameOf (n : UInt8) (e : IePeerManagement) : Unit × PmpEvent :=
  ((), .frame ⟨station 0, station n, station n, 0, e⟩)

def onePeer : List (Unit × PmpEvent) :=
  [((), .beacon (station 1)), frameOf 1 (.peerOpen 7), frameOf 1 (.peerConfirm 7 1)]

theorem links_limited_one : ∃ τ, Run Step oneLink onePeer τ ∧ τ.established = 1 ∧
    ((∀ ks e u v, ks ++ [e] <+: onePeer → Run Step oneLink ks u → Step u e v → Honours u e v) ↔
      ∀ ks e u v, ks ++ [e] <+: onePeer → Run Step oneLink ks u → Step u e v → ¬u.Spoils e) := by
  have hrun : Run Step oneLink onePeer _ :=
    .cons ⟨_, rfl⟩ (.cons ⟨_, rfl⟩ (.single ⟨_, rfl⟩))
  exact ⟨_, hrun, rfl, links_limited_iff ⟨rfl, fun _ => rfl⟩ (by decide) hrun⟩

/-- Two peers are heard, and their Opens arrive before their Confirms; and a peer sends its Open
once more. -/
theorem halfOpen_exceeds :
    (∃ τ, Run Step oneLink [((), .beacon (station 1)), ((), .beacon (station 2)),
      frameOf 1 (.peerOpen 7), frameOf 2 (.peerOpen 8), frameOf 1 (.peerConfirm 7 1),
      frameOf 2 (.peerConfirm 8 2)] τ ∧ τ.common.maxNumberOfPeerLinks = 1 ∧ τ.established = 2) ∧
    (∃ τ, Run Step oneLink (onePeer ++ [frameOf 1 (.peerOpen 7)]) τ ∧
      ((τ.peerLinks ()).linkTo (station 1)).map PeerLink.state = some .holding) ∧
    ¬∀ es τ, Run Step oneLink es τ → τ.WithinLimit := by
  have hrun : Run Step oneLink [((), .beacon (station 1)), ((), .beacon (station 2)),
      frameOf 1 (.peerOpen 7), frameOf 2 (.peerOpen 8), frameOf 1 (.peerConfirm 7 1),
      frameOf 2 (.peerConfirm 8 2)] _ := .cons ⟨_, rfl⟩ (.cons ⟨_, rfl⟩ (.cons ⟨_, rfl⟩
    (.cons ⟨_, rfl⟩ (.cons ⟨_, rfl⟩ (.single ⟨_, rfl⟩)))))
  have hagain : Run Step oneLink (onePeer ++ [frameOf 1 (.peerOpen 7)]) _ :=
    .cons ⟨_, rfl⟩ (.cons ⟨_, rfl⟩ (.cons ⟨_, rfl⟩ (.single ⟨_, rfl⟩)))
  exact ⟨⟨_, hrun, rfl, rfl⟩, ⟨_, hagain, rfl⟩, fun h => absurd (h _ _ hrun).2 (by decide)⟩

end MeshPoint

end Mesh

end Ns3
