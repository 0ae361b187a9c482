/-
  Two stations agree on the ids of their link.

  Frames from one station to the other arrive in order, and some are lost; anything else may
  happen at either station.  The invariant of each direction is kept by every step, and of two
  established links each has the id of the other.
-/
import Ns3.Mesh.LinkDirection

namespace Ns3

namespace Mesh

open Lib PeerManagementProtocol

/-- The two stations. -/
inductive Side where
  | first
  | second
  deriving DecidableEq, Repr

def Side.other : Side → Side
  | .first => .second
  | .second => .first

@[simp] theorem Side.other_other (s : Side) : s.other.other = s := by
  cases s <;> rfl

theorem Side.eq_or_eq_other (s t : Side) : t = s ∨ t = s.other := by
  cases s <;> cases t <;> simp [Side.other]

theorem Side.other_ne (s : Side) : s.other ≠ s := by
  cases s <;> simp [Side.other]

/-- Two stations, and the frames on their way from each of them to the other. -/
structure PeeringSystem where
  station : Side → PeerManagementProtocol
  air : Side → List Frame

/-- What happens: an event at a station other than the arrival of a frame of the other, the arrival
of the first frame that is on its way, or its loss. -/
inductive PeeringEvent where
  | event (s : Side) (e : PmpEvent)
  | deliver (s : Side)
  | lose (s : Side) (place : Nat)
  deriving DecidableEq, Repr

namespace PeeringSystem

def act (σ : PeeringSystem) (s : Side) (m : PeerManagementProtocol) (sent : List Frame) :
    PeeringSystem :=
  { station := Function.update σ.station s m
    air := Function.update σ.air s
      (σ.air s ++ sent.filter fun f => f.addr1 = (σ.station s.other).macAddress) }

/-- One such event. -/
inductive Step : PeeringSystem → PeeringEvent → PeeringSystem → Prop where
  | event {σ : PeeringSystem} {s : Side} {e : PmpEvent} {m : PeerManagementProtocol}
      {sent : List Frame} : (σ.station s).handle e = .ok (m, sent) →
      (∀ f, e = .frame f → f.addr2 ≠ (σ.station s.other).macAddress) →
      Step σ (.event s e) (σ.act s m sent)
  | deliver {σ : PeeringSystem} {s : Side} {f : Frame} {rest : List Frame}
      {m : PeerManagementProtocol} {sent : List Frame} : σ.air s = f :: rest →
      (σ.station s.other).handle (.frame f) = .ok (m, sent) →
      Step σ (.deliver s) ({ σ with air := Function.update σ.air s rest }.act s.other m sent)
  | lose {σ : PeeringSystem} {s : Side} {place : Nat} :
      Step σ (.lose s place)
        { σ with air := Function.update σ.air s ((σ.air s).eraseIdx place) }

def Starts (σ : PeeringSystem) : Prop :=
  ∀ s, σ.air s = [] ∧ ∃ address macAddress maxLinks maxRetries maxFail,
    σ.station s = install address macAddress maxLinks maxRetries maxFail

def endOf (σ : PeeringSystem) (s : Side) : LinkEnd :=
  (σ.station s).endTo (σ.station s.other).macAddress

def link (σ : PeeringSystem) (s : Side) : Option PeerLink := (σ.endOf s).link

variable {σ τ : PeeringSystem} {s t : Side} {l : PeeringEvent} {h : Nat}

/-! ## The invariant -/

/-- The direction from a station to the other, when the other has heard `h` last. -/
structure Direction (σ : PeeringSystem) (s : Side) (h : Nat) : Prop where
  sending : Sending (σ.station s).macAddress h (σ.endOf s) (σ.air s)
  receiving : Receiving h (σ.endOf s.other) (σ.air s.other)

/-- The invariant, as long as the ids have not wrapped. -/
structure Linked (σ : PeeringSystem) : Prop where
  lastLocalLinkId : ∀ s, (σ.station s).lastLocalLinkId = ((σ.station s).created + 1) % 2 ^ 16
  direction : (∀ s, (σ.station s).created < 65535) → ∀ s, ∃ h, Direction σ s h

theorem linked_start (hstart : Starts σ) : Linked σ := by
  refine ⟨fun s => ?_, fun _ s => ⟨0, ?_, ?_⟩⟩
  · obtain ⟨-, address, macAddress, maxLinks, maxRetries, maxFail, hs⟩ := hstart s
    rw [hs]
    rfl
  · obtain ⟨hair, address, macAddress, maxLinks, maxRetries, maxFail, hs⟩ := hstart s
    rw [hair, endOf, hs]
    exact sending_start 0
  · obtain ⟨hair, address, macAddress, maxLinks, maxRetries, maxFail, hs⟩ := hstart s.other
    rw [hair, endOf, hs]
    exact receiving_start 0

/-! ## One step -/

section Act

variable {m : PeerManagementProtocol} {sent : List Frame} {e : PmpEvent}

theorem act_station_self : (σ.act s m sent).station s = m := Function.update_self _ _ _

theorem act_station_other : (σ.act s m sent).station s.other = σ.station s.other :=
  Function.update_of_ne s.other_ne _ _

theorem act_air_self : (σ.act s m sent).air s =
    σ.air s ++ sent.filter fun f => f.addr1 = (σ.station s.other).macAddress :=
  Function.update_self _ _ _

theorem act_air_other : (σ.act s m sent).air s.other = σ.air s.other :=
  Function.update_of_ne s.other_ne _ _

theorem act_endOf_self : (σ.act s m sent).endOf s = m.endTo (σ.station s.other).macAddress := by
  rw [endOf, act_station_self, act_station_other]

theorem act_endOf_other (hmac : m.macAddress = (σ.station s).macAddress) :
    (σ.act s m sent).endOf s.other = σ.endOf s.other := by
  rw [endOf, act_station_other, Side.other_other, act_station_self, hmac, endOf, Side.other_other]

section

variable (hid : (σ.station s).lastLocalLinkId = ((σ.station s).created + 1) % 2 ^ 16)
  (hhandle : (σ.station s).handle e = .ok (m, sent))

include hid hhandle

theorem direction_out (hcreated : m.created < 65535)
    (hs : Sending (σ.station s).macAddress h (σ.endOf s) (σ.air s))
    (hr : Receiving h (σ.endOf s.other) (σ.air s.other))
    (hheard : ∀ a b, heardIn e (σ.station s.other).macAddress = some (.peerConfirm a b) → b ≤ h) :
    Direction (σ.act s m sent) s h := by
  have hmoved := @handle_moved (σ.station s.other).macAddress _ _ _ _ hhandle
  obtain ⟨ls, hrun, hsent⟩ := hmoved.ends hid
  constructor
  · rw [act_station_self, act_endOf_self, hmoved.macAddress, act_air_self, hsent]
    exact hs.run hheard hrun hcreated
  · rw [act_endOf_other hmoved.macAddress, act_air_other]
    exact hr

theorem direction_in (hr : Receiving h (σ.endOf s) (σ.air s))
    (hheard : ∀ el, heardIn e (σ.station s.other).macAddress = some el →
      h ≤ el.getLocalLinkId ∧ el.getLocalLinkId ≠ 0)
    (hs : ∀ k, (k = h ∨ ∃ el, heardIn e (σ.station s.other).macAddress = some el ∧
        k = el.getLocalLinkId) →
      Sending (σ.station s.other).macAddress k (σ.endOf s.other) (σ.air s.other)) :
    ∃ h', Direction (σ.act s m sent) s.other h' := by
  have hmoved := @handle_moved (σ.station s.other).macAddress _ _ _ _ hhandle
  obtain ⟨ls, hrun, hsent⟩ := hmoved.ends hid
  obtain ⟨k, hk, hr'⟩ := hr.run hheard hrun
  refine ⟨k, ?_, ?_⟩
  · rw [act_station_other, act_endOf_other hmoved.macAddress, act_air_other]
    exact hs k hk
  · rw [Side.other_other, act_endOf_self, act_air_self, hsent]
    exact hr'

end

theorem act_counters (hids : ∀ t, (σ.station t).lastLocalLinkId =
      ((σ.station t).created + 1) % 2 ^ 16)
    (hhandle : (σ.station s).handle e = .ok (m, sent)) (t : Side) :
    ((σ.act s m sent).station t).lastLocalLinkId =
        (((σ.act s m sent).station t).created + 1) % 2 ^ 16 ∧
      (σ.station t).created ≤ ((σ.act s m sent).station t).created := by
  have hmoved := @handle_moved (σ.station s.other).macAddress _ _ _ _ hhandle
  rcases s.eq_or_eq_other t with rfl | rfl
  · rw [act_station_self]
    obtain ⟨ls, hrun, -⟩ := hmoved.ends (hids t)
    exact ⟨hmoved.lastLocalLinkId (hids t), created_le_of_run hrun⟩
  · rw [act_station_other]
    exact ⟨hids _, le_rfl⟩

end Act

theorem Linked.step (hl : Linked σ) (hstep : Step σ l τ) : Linked τ := by
  cases hstep with
  | @event s e m sent hhandle hnot =>
    have hcounters := act_counters hl.lastLocalLinkId hhandle
    have hnone : heardIn e (σ.station s.other).macAddress = none := by
      cases e with
      | frame f => exact if_neg (hnot f rfl)
      | _ => rfl
    refine ⟨fun t => (hcounters t).1, fun hcreated t => ?_⟩
    have hbefore := hl.direction fun t => (hcounters t).2.trans_lt (hcreated t)
    have hm : m.created < 65535 := by
      have hs := hcreated s
      rwa [act_station_self] at hs
    rcases s.eq_or_eq_other t with rfl | rfl
    · obtain ⟨h, hd⟩ := hbefore t
      refine ⟨h, direction_out (hl.lastLocalLinkId t) hhandle hm hd.sending hd.receiving ?_⟩
      rw [hnone]
      exact nofun
    · obtain ⟨h, hd⟩ := hbefore s.other
      have hr := hd.receiving
      rw [Side.other_other] at hr
      refine direction_in (hl.lastLocalLinkId s) hhandle hr ?_ ?_
      · rw [hnone]
        exact nofun
      · rw [hnone]
        rintro k (rfl | ⟨el, hel, -⟩)
        · exact hd.sending
        · cases hel
  | @deliver s f rest m sent hair hhandle =>
    -- the station at the other side acts, on what is left in the air
    let ρ : PeeringSystem := { σ with air := Function.update σ.air s rest }
    have hcounters := @act_counters ρ s.other m sent (.frame f) hl.lastLocalLinkId hhandle
    refine ⟨fun t => (hcounters t).1, fun hcreated t => ?_⟩
    have hbefore := hl.direction fun t => (hcounters t).2.trans_lt (hcreated t)
    have hm : m.created < 65535 := by
      have hs := hcreated s.other
      rwa [act_station_self] at hs
    have hself : ρ.air s = rest := Function.update_self _ _ _
    have hother : ρ.air s.other = σ.air s.other := Function.update_of_ne s.other_ne _ _
    obtain ⟨h, hd⟩ := hbefore s
    obtain ⟨k, hback⟩ := hbefore s.other
    have hsend := hd.sending
    rw [hair] at hsend
    have hanswer := hback.receiving
    rw [Side.other_other, hair] at hanswer
    have hheard : heardIn (.frame f) (σ.station s.other.other).macAddress =
        some f.peerElement := by
      rw [Side.other_other]
      exact if_pos (hsend.frame f (.head _)).2
    rcases s.eq_or_eq_other t with rfl | rfl
    · have hin := @direction_in ρ t.other h m sent (.frame f) (hl.lastLocalLinkId _) hhandle
      rw [Side.other_other] at hin
      rw [Side.other_other] at hheard
      refine hin ?_ ?_ ?_
      · rw [hother]
        exact hd.receiving
      · intro el hel
        obtain rfl := Option.mem_unique hheard hel
        exact ⟨hsend.flight.above _ (.head _), (hsend.frame f (.head _)).1⟩
      · rw [hself]
        rintro j (rfl | ⟨el, hel, rfl⟩)
        · exact hsend.lose
        · obtain rfl := Option.mem_unique hheard hel
          exact hsend.hear
    · refine ⟨k, @direction_out ρ s.other k m sent (.frame f) (hl.lastLocalLinkId _) hhandle hm
        ?_ ?_ ?_⟩
      · rw [hother]
        exact hback.sending
      · rw [Side.other_other, hself]
        exact hanswer.sublist fun g hg => List.mem_cons_of_mem f hg
      · intro a b hab
        have heq := Option.mem_unique hheard hab
        exact hanswer.answered f (.head _) a b heq
  | @lose s place =>
    refine ⟨hl.lastLocalLinkId, fun hcreated t => ?_⟩
    obtain ⟨h, hd⟩ := hl.direction hcreated t
    refine ⟨h, ?_, ?_⟩
    · by_cases ht : t = s
      · subst ht
        show Sending _ h (σ.endOf t) (Function.update σ.air t _ t)
        rw [Function.update_self]
        exact hd.sending.eraseIdx place
      · show Sending _ h (σ.endOf t) (Function.update σ.air s _ t)
        rw [Function.update_of_ne ht]
        exact hd.sending
    · by_cases ht : t.other = s
      · subst ht
        show Receiving h (σ.endOf t.other) (Function.update σ.air t.other _ t.other)
        rw [Function.update_self]
        exact hd.receiving.sublist fun g hg => List.mem_of_mem_eraseIdx hg
      · show Receiving h (σ.endOf t.other) (Function.update σ.air s _ t.other)
        rw [Function.update_of_ne ht]
        exact hd.receiving

/-- The two ends of a confirmed link know each other by the same identifiers. -/
theorem Direction.agree (hd : Direction σ s h) {a b : PeerLink} (ha : σ.link s = some a)
    (hb : σ.link s.other = some b) (hconf : a.state.Confirmed) (hknows : b.state.KnowsPeer) :
    b.peerLinkId = a.localLinkId := by
  have hle : h ≤ a.localLinkId := by
    have hlatest := hd.sending.flight.le
    rwa [LinkEnd.latest, show (σ.endOf s).link = some a from ha] at hlatest
  have hge := hd.sending.confirmed a ha hconf
  rcases hd.receiving.adopted b hb with hzero | heq
  · exact absurd hzero (hd.receiving.known b hb hknows)
  · omega

variable {ls : List PeeringEvent}

/-- **Two established links agree.** Along any run of two stations, with frames in order but
possibly lost, as long as each has created fewer than 65535 links, each has the other's local id as
its peer's id. -/
theorem established_agree (hstart : Starts σ) (hrun : Run Step σ ls τ)
    (hcreated : ∀ s, (τ.station s).created < 65535) {a b : PeerLink}
    (ha : τ.link .first = some a) (hb : τ.link .second = some b) (haestab : a.state = .estab)
    (hbestab : b.state = .estab) : a.peerLinkId = b.localLinkId ∧ b.peerLinkId = a.localLinkId := by
  have hlinked : Linked τ :=
    hrun.invariant (linked_start hstart) fun _ _ _ hl hstep => hl.step hstep
  obtain ⟨h, hfirst⟩ := hlinked.direction hcreated .first
  obtain ⟨k, hsecond⟩ := hlinked.direction hcreated .second
  constructor
  · exact hsecond.agree hb ha (.inr hbestab) (.inr (.inr haestab))
  · exact hfirst.agree ha hb (.inr haestab) (.inr (.inr hbestab))

def sampleAddress (s : Side) : Mac48Address :=
  ⟨[0, 0, 0, 0, 0, if s = .first then 1 else 2], rfl⟩

def sampleSystem : PeeringSystem :=
  { station := fun s => install (sampleAddress s) (sampleAddress s) 32 4 2
    air := fun _ => [] }

theorem sampleSystem_starts : Starts sampleSystem :=
  fun s => ⟨rfl, sampleAddress s, sampleAddress s, 32, 4, 2, rfl⟩

/-- The first station hears a beacon; an Open, a Confirm and an Open, and a Confirm arrive. -/
theorem established_agree_sample : ∃ ls τ a b, Run Step sampleSystem ls τ ∧
    τ.link .first = some a ∧ τ.link .second = some b ∧ a.state = .estab ∧ b.state = .estab ∧
    a.peerLinkId = b.localLinkId ∧ b.peerLinkId = a.localLinkId := by
  have hrun : Run Step sampleSystem _ _ :=
    ((((Run.nil.snoc (@Step.event sampleSystem .first (.beacon (sampleAddress .second)) _ _ rfl
      nofun)).snoc (.deliver (s := .first) rfl rfl)).snoc (.deliver (s := .second) rfl rfl)).snoc
        (.deliver (s := .second) rfl rfl)).snoc (.deliver (s := .first) rfl rfl)
  have hagree := established_agree sampleSystem_starts hrun (fun s => by cases s <;> decide)
    rfl rfl rfl rfl
  exact ⟨_, _, _, _, hrun, rfl, rfl, rfl, rfl, hagree⟩

end PeeringSystem

end Mesh

end Ns3
