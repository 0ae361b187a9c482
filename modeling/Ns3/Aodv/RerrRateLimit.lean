/-
  The rate limit of the route errors of AODV
  (RoutingProtocol::SendRerrMessage, SendRerrWhenNoRouteToForward and RerrRateLimitTimerExpire,
  src/aodv/model/aodv-routing-protocol.cc).

  All paths compare `m_rerrCount` with the limit, but only the one that unicasts to a single
  precursor counts.  A run that takes no other path respects the limit; route errors that are
  broadcast, or that answer a packet without a route, are not limited at all.
-/
import Ns3.Aodv.RouteErrors
import Ns3.Lib.Run

namespace Ns3

namespace Aodv

open Lib

variable {σ : Type}

/-- What can make a node originate a RERR, and the timer that resets the count. -/
inductive RerrEvent (σ : Type) where
  | linkBreak (now : Time) (nextHop : Ipv4Address)
  | routeError (now : Time) (rerrHeader : RerrHeader) (src : Ipv4Address)
  | noRoute (now : Time) (dst : Ipv4Address) (dstSeqNo : Nat) (origin : Ipv4Address)
  | timerExpires
  /-- Routes and interfaces come and go. -/
  | others (routingTable : RoutingTable) (socketAddresses : List (σ × Ipv4InterfaceAddress))

namespace RoutingProtocol

/-- A new interval begins; `originated` restarts with it. -/
def rerrRateLimitTimerExpire (s : RoutingProtocol σ) : RoutingProtocol σ :=
  { s with rerrCount := 0, rerrRateLimitTimerRunning := true, originated := [] }

def step (s : RoutingProtocol σ) : RerrEvent σ → Except Fault (RoutingProtocol σ)
  | .linkBreak now nextHop => s.sendRerrWhenBreaksLinkToNextHop now nextHop
  | .routeError now rerrHeader src => s.recvError now rerrHeader src
  | .noRoute now dst dstSeqNo origin => s.sendRerrWhenNoRouteToForward now dst dstSeqNo origin
  | .timerExpires => .ok s.rerrRateLimitTimerExpire
  | .others routingTable socketAddresses =>
    .ok { s with routingTable, socketAddresses }

def Step (s : RoutingProtocol σ) (event : RerrEvent σ) (s' : RoutingProtocol σ) : Prop :=
  s.step event = .ok s'

/-! ## Counted route errors -/

/-- `SendRerrMessage` does not broadcast: the limit is reached, or there is no more than one
precursor, or no valid route. -/
def Unicasts (s : RoutingProtocol σ) (table : RoutingTable) (precursors : List Ipv4Address) :
    Prop :=
  s.rerrCount = s.rerrRateLimit ∨ precursors.length ≤ 1 ∨
    ∀ iface, ¬LeadsToPrecursor table precursors iface

/-- `SendRerrWhenNoRouteToForward` sends nothing: the limit is reached, or there is neither a valid
route to the origin nor a socket. -/
def Silent (s : RoutingProtocol σ) (now : Time) (origin : Ipv4Address) : Prop :=
  s.rerrCount = s.rerrRateLimit ∨ s.socketAddresses = [] ∧
    ((s.routingTable.purge now).find? origin).filter (fun rt => rt.flag = .valid) = none

/-- The step sends nothing without counting it. -/
def Counted (s : RoutingProtocol σ) : RerrEvent σ → Prop
  | .linkBreak now nextHop => ∀ toNextHop,
      (s.routingTable.purge now).find? nextHop = some toNextHop →
        s.Unicasts (s.settledTable now) (s.breakPrecursors now nextHop toNextHop)
  | .routeError now rerrHeader src =>
    s.Unicasts (s.settledTable now) (s.errorPrecursors now rerrHeader src)
  | .noRoute now _ _ origin => s.Silent now origin
  | .timerExpires => True
  | .others _ _ => True

def CountedStep (s : RoutingProtocol σ) (event : RerrEvent σ) (s' : RoutingProtocol σ) : Prop :=
  s.Counted event ∧ s.Step event s'

/-- At most one route error is originated, and counted. -/
structure Counts (s s' : RoutingProtocol σ) : Prop where
  rerrRateLimit : s'.rerrRateLimit = s.rerrRateLimit
  originated : (s'.originated = s.originated ∧ s'.rerrCount = s.rerrCount) ∨
    (s.rerrCount ≠ s.rerrRateLimit ∧ s'.rerrCount = s.rerrCount + 1 ∧
      ∃ message, s'.originated = s.originated ++ [message])

/-- What was originated since the timer expired is within the count, and the count within the
limit. -/
structure WithinLimit (s : RoutingProtocol σ) : Prop where
  originated : s.originated.length ≤ s.rerrCount.toNat
  rerrCount : s.rerrCount.toNat ≤ s.rerrRateLimit.toNat

section

variable {s s' : RoutingProtocol σ} {now : Time} {packet : RerrHeader} {event : RerrEvent σ}
  {iface : Ipv4InterfaceAddress} {destination nextHop src origin : Ipv4Address}
  {precursors : List Ipv4Address}

theorem Counts.refl (s : RoutingProtocol σ) : Counts s s := ⟨rfl, .inl ⟨rfl, rfl⟩⟩

theorem WithinLimit.counts (h : s.WithinLimit) (hcounts : Counts s s') : s'.WithinLimit := by
  obtain ⟨hlimit, ⟨horiginated, hcount⟩ | ⟨hne, hcount, message, horiginated⟩⟩ := hcounts
  · exact ⟨by rw [horiginated, hcount]; exact h.originated,
      by rw [hcount, hlimit]; exact h.rerrCount⟩
  · have hlt : s.rerrCount.toNat < s.rerrRateLimit.toNat :=
      Nat.lt_of_le_of_ne h.rerrCount (mt UInt16.toNat_inj.mp hne)
    have hroom : s.rerrCount.toNat + 1 < 2 ^ 16 :=
      Nat.lt_of_le_of_lt hlt (UInt16.toNat_lt _)
    have hnext : s'.rerrCount.toNat = s.rerrCount.toNat + 1 := by
      rw [hcount, UInt16.toNat_add]
      exact Nat.mod_eq_of_lt hroom
    constructor
    · rw [horiginated, hnext, List.length_append]
      exact Nat.succ_le_succ h.originated
    · rw [hnext, hlimit]
      exact hlt

theorem withinLimit_expire (s : RoutingProtocol σ) : s.rerrRateLimitTimerExpire.WithinLimit :=
  ⟨le_rfl, Nat.zero_le _⟩

theorem sendTo_eq_ok (h : s.sendTo iface packet destination = .ok s') :
    ∃ message, s' = { s with originated := s.originated ++ [message] } := by
  by_cases hsocket : (s.findSocketWithInterfaceAddress iface).isSome
  · obtain ⟨message, hsend⟩ := sendTo_of_isSome packet destination hsocket
    exact ⟨message, Except.ok.inj (h.symm.trans hsend)⟩
  · rw [sendTo_of_not hsocket] at h
    cases h

theorem sendRerrMessage_counts (hsettled : s.routingTable.Settled now)
    (hunicasts : s.Unicasts s.routingTable precursors)
    (hok : s.sendRerrMessage now packet precursors = .ok s') : Counts s s' := by
  cases precursors with
  | nil =>
    cases hok
    exact .refl s
  | cons front rest =>
    rw [sendRerrMessage] at hok
    by_cases hlimit : s.rerrCount = s.rerrRateLimit
    · rw [if_pos hlimit] at hok
      obtain ⟨_, -, rfl⟩ := bind_pure_eq_ok.mp hok
      exact .refl s
    rw [if_neg hlimit] at hok
    by_cases hone : rest = []
    · rw [if_pos hone, lookupValidRoute_eq hsettled] at hok
      dsimp only at hok
      cases hfind : (s.routingTable.find? front).filter fun rt => rt.flag = .valid with
      | none =>
        rw [hfind] at hok
        cases hok
        exact .refl s
      | some toPrecursor =>
        rw [hfind] at hok
        obtain ⟨s₁, hsend, hok⟩ := bind_eq_ok.mp hok
        obtain ⟨message, rfl⟩ := sendTo_eq_ok hsend
        cases hok
        exact ⟨rfl, .inr ⟨hlimit, rfl, message, rfl⟩⟩
    · -- Several precursors, of which none is led to: nothing is broadcast.
      have hlong : ¬(front :: rest).length ≤ 1 := by
        rw [List.length_cons, Nat.succ_le_succ_iff, Nat.le_zero, List.length_eq_zero_iff]
        exact hone
      have hnone := (hunicasts.resolve_left hlimit).resolve_left hlong
      obtain ⟨htable, hifaces⟩ := foldl_addIface hsettled (front :: rest) []
      have hempty : ((front :: rest).foldl (addIface now) (s.routingTable, [])).2 = [] :=
        List.eq_nil_iff_forall_not_mem.mpr fun iface hmem =>
          ((hifaces iface).mp hmem).elim List.not_mem_nil (hnone iface)
      rw [if_neg hone] at hok
      dsimp only at hok
      rw [htable, hempty] at hok
      cases hok
      exact .refl s

theorem not_counts {messages : List (RerrMessage σ)} (hne : messages ≠ [])
    (horiginated : s'.originated = s.originated ++ messages) (hcount : s'.rerrCount = s.rerrCount) :
    ¬Counts s s' := by
  rintro ⟨-, ⟨hsame, -⟩ | ⟨-, hnext, -⟩⟩
  · exact hne (List.append_right_eq_self.mp (horiginated.symm.trans hsame))
  · have htoNat := congrArg UInt16.toNat (hcount.symm.trans hnext)
    have hlt := s.rerrCount.toNat_lt
    rw [UInt16.toNat_add, UInt16.toNat_one] at htoNat
    omega

theorem broadcast_eq_ok {ifaces : List Ipv4InterfaceAddress}
    (hok : ifaces.foldlM (fun s iface => s.sendTo iface packet (broadcastOf iface)) s = .ok s') :
    ∃ messages, messages.length = ifaces.length ∧
      s' = { s with originated := s.originated ++ messages } := by
  by_cases hall : ∀ iface ∈ ifaces, (s.findSocketWithInterfaceAddress iface).isSome
  · obtain ⟨messages, hlength, hsent⟩ := broadcast_ok packet hall
    exact ⟨messages, hlength, Except.ok.inj (hok.symm.trans hsent)⟩
  · rw [Classical.not_forall] at hall
    obtain ⟨iface, hall⟩ := hall
    rw [Classical.not_imp] at hall
    rw [broadcast_error hall.1 hall.2] at hok
    cases hok

theorem sendRerrMessage_not_counts (hsettled : s.routingTable.Settled now)
    (hnot : ¬s.Unicasts s.routingTable precursors)
    (hok : s.sendRerrMessage now packet precursors = .ok s') : ¬Counts s s' := by
  rw [Unicasts, not_or, not_or, Classical.not_forall] at hnot
  obtain ⟨hlimit, hlong, iface, hleads⟩ := hnot
  have hleads := Classical.not_not.mp hleads
  cases precursors with
  | nil => exact absurd (Nat.zero_le 1) hlong
  | cons front rest =>
    have hmore : rest ≠ [] := by
      rintro rfl
      exact hlong (Nat.le_refl 1)
    obtain ⟨htable, hifaces⟩ := foldl_addIface hsettled (front :: rest) []
    rw [sendRerrMessage, if_neg hlimit, if_neg hmore] at hok
    dsimp only at hok
    rw [htable] at hok
    obtain ⟨messages, hlength, rfl⟩ := broadcast_eq_ok hok
    refine not_counts ?_ rfl rfl
    rintro rfl
    have hempty := List.length_eq_zero_iff.mp hlength.symm
    exact List.not_mem_nil (hempty ▸ (hifaces iface).mpr (.inr hleads))

theorem sendRerr_counts_iff {table : RoutingTable} (hsettled : table.Settled now)
    (hok : { s with routingTable := table }.sendRerr now packet precursors = .ok s') :
    Counts s s' ↔ s.Unicasts table precursors := by
  constructor
  · intro hcounts
    by_contra hnot
    refine sendRerrMessage_not_counts
      (s := { s with routingTable := table, built := s.built ++ [packet] }) hsettled hnot hok ?_
    exact ⟨hcounts.rerrRateLimit, hcounts.originated⟩
  · intro hunicasts
    obtain ⟨hlimit, horiginated⟩ := sendRerrMessage_counts
      (s := { s with routingTable := table, built := s.built ++ [packet] }) hsettled hunicasts hok
    exact ⟨hlimit, horiginated⟩

theorem linkBreak_counts_iff (hok : s.sendRerrWhenBreaksLinkToNextHop now nextHop = .ok s') :
    Counts s s' ↔ s.Counted (.linkBreak now nextHop) := by
  cases hnext : (s.routingTable.purge now).find? nextHop with
  | none =>
    rw [sendRerrWhenBreaks_of_none hnext] at hok
    cases hok
    refine iff_of_true ⟨rfl, .inl ⟨rfl, rfl⟩⟩ fun toNextHop hknown => ?_
    cases hnext.symm.trans hknown
  | some toNextHop =>
    have hcounted : s.Counted (.linkBreak now nextHop) ↔
        s.Unicasts (s.settledTable now) (s.breakPrecursors now nextHop toNextHop) := by
      refine ⟨fun h => h toNextHop hnext, fun h other hother => ?_⟩
      obtain rfl := Option.mem_unique hnext hother
      exact h
    rw [sendRerrWhenBreaks_eq hnext] at hok
    by_cases hroom : (s.brokenDestinations now nextHop toNextHop).size ≤ 255
    · rw [if_pos hroom] at hok
      obtain ⟨s₁, hsend, rfl⟩ := bind_pure_eq_ok.mp hok
      rw [hcounted, ← sendRerr_counts_iff (s.settled_settledTable now) hsend]
      exact ⟨fun h => ⟨h.rerrRateLimit, h.originated⟩, fun h => ⟨h.rerrRateLimit, h.originated⟩⟩
    · rw [if_neg hroom] at hok
      cases hok

theorem routeError_counts_iff {rerrHeader : RerrHeader}
    (hok : s.recvError now rerrHeader src = .ok s') :
    Counts s s' ↔ s.Counted (.routeError now rerrHeader src) := by
  rw [recvError_eq] at hok
  by_cases hroom : (s.listedDestinations now rerrHeader src).size ≤ 255
  · rw [if_pos hroom] at hok
    obtain ⟨s₁, hsend, rfl⟩ := bind_pure_eq_ok.mp hok
    by_cases hnone : (s.listedDestinations now rerrHeader src).entries = []
    · rw [if_pos hnone] at hsend
      cases hsend
      refine iff_of_true ⟨rfl, .inl ⟨rfl, rfl⟩⟩ (.inr (.inl ?_))
      rw [errorPrecursors, hnone]
      exact Nat.zero_le 1
    · rw [if_neg hnone] at hsend
      rw [Counted, ← sendRerr_counts_iff (s.settled_settledTable now) hsend]
      exact ⟨fun h => ⟨h.rerrRateLimit, h.originated⟩, fun h => ⟨h.rerrRateLimit, h.originated⟩⟩
  · rw [if_neg hroom] at hok
    cases hok

theorem noRoute_cases {dst : Ipv4Address} {dstSeqNo : Nat}
    (hok : s.sendRerrWhenNoRouteToForward now dst dstSeqNo origin = .ok s') :
    s'.rerrRateLimit = s.rerrRateLimit ∧ s'.rerrCount = s.rerrCount ∧
      s'.socketAddresses = s.socketAddresses ∧
      ∃ messages, s'.originated = s.originated ++ messages ∧
        (messages = [] ↔ s.Silent now origin) := by
  rw [sendRerrWhenNoRouteToForward] at hok
  by_cases hlimit : s.rerrCount = s.rerrRateLimit
  · rw [if_pos hlimit] at hok
    obtain ⟨_, -, rfl⟩ := bind_pure_eq_ok.mp hok
    exact ⟨rfl, rfl, rfl, [], (List.append_nil _).symm, iff_of_true rfl (.inl hlimit)⟩
  · rw [if_neg hlimit] at hok
    obtain ⟨added, -, hok⟩ := bind_eq_ok.mp hok
    dsimp only [RoutingTable.lookupValidRoute] at hok
    cases horigin : ((s.routingTable.purge now).find? origin).filter fun rt => rt.flag = .valid with
    | none =>
      rw [horigin] at hok
      cases hok
      refine ⟨rfl, rfl, rfl, _, rfl, ?_⟩
      rw [List.map_eq_nil_iff, Silent, or_iff_right hlimit, horigin]
      exact (and_iff_left rfl).symm
    | some toOrigin =>
      rw [horigin] at hok
      obtain ⟨message, rfl⟩ := sendTo_eq_ok hok
      refine ⟨rfl, rfl, rfl, _, rfl, iff_of_false (List.cons_ne_nil _ _) ?_⟩
      rw [Silent, or_iff_right hlimit, horigin]
      rintro ⟨-, hnone⟩
      cases hnone

theorem noRoute_counts_iff {dst : Ipv4Address} {dstSeqNo : Nat}
    (hok : s.sendRerrWhenNoRouteToForward now dst dstSeqNo origin = .ok s') :
    Counts s s' ↔ s.Silent now origin := by
  obtain ⟨hlimit, hcount, -, messages, horiginated, hsilent⟩ := noRoute_cases hok
  rw [← hsilent]
  constructor
  · intro hcounts
    by_contra hne
    exact not_counts hne horiginated hcount hcounts
  · rintro rfl
    rw [List.append_nil] at horiginated
    exact ⟨hlimit, .inl ⟨horiginated, hcount⟩⟩

theorem counts_iff_counted (hok : s.Step event s') (hevent : event ≠ .timerExpires) :
    Counts s s' ↔ s.Counted event := by
  cases event with
  | linkBreak now nextHop => exact linkBreak_counts_iff hok
  | routeError now rerrHeader src => exact routeError_counts_iff hok
  | noRoute now dst dstSeqNo origin => exact noRoute_counts_iff hok
  | timerExpires => exact absurd rfl hevent
  | others routingTable socketAddresses =>
    cases hok
    exact iff_of_true ⟨rfl, .inl ⟨rfl, rfl⟩⟩ trivial

theorem WithinLimit.step (h : s.WithinLimit) (hstep : CountedStep s event s') :
    s'.WithinLimit ∧ s'.rerrRateLimit = s.rerrRateLimit := by
  obtain ⟨hcounted, hok⟩ := hstep
  by_cases hevent : event = .timerExpires
  · subst hevent
    cases hok
    exact ⟨s.withinLimit_expire, rfl⟩
  · have hcounts := (counts_iff_counted hok hevent).mpr hcounted
    exact ⟨h.counts hcounts, hcounts.rerrRateLimit⟩

end

/-- **The rate limit** holds, at any time of a run, of what was originated since the timer last
expired, if no route error goes uncounted. -/
theorem originated_le_rerrRateLimit {s s' : RoutingProtocol σ} {events : List (RerrEvent σ)}
    (hcount : s.rerrCount = 0) (hnone : s.originated = []) (hrun : Run CountedStep s events s') :
    s'.originated.length ≤ s.rerrRateLimit.toNat := by
  have hstart : s.WithinLimit := by
    constructor
    · rw [hnone]
      exact Nat.zero_le _
    · rw [hcount]
      exact Nat.zero_le _
  have hreached : s'.WithinLimit ∧ s'.rerrRateLimit = s.rerrRateLimit := by
    refine hrun.invariant (P := fun t => t.WithinLimit ∧ t.rerrRateLimit = s.rerrRateLimit)
      ⟨hstart, rfl⟩ ?_
    rintro t event u ⟨ht, hsame⟩ hstep
    obtain ⟨hu, hlimit⟩ := ht.step hstep
    exact ⟨hu, hlimit.trans hsame⟩
  exact hreached.2 ▸ hreached.1.originated.trans hreached.1.rerrCount

def toNeighbor : RoutingTableEntry :=
  { seqNo := 0, nextHop := 0x0a010001, iface := oneInterface, lifeTime := 3000000000,
    precursorList := [0x0a010003] }

def onePrecursor : RoutingProtocol Nat :=
  { routingTable := ⟨(SortedMap.empty.insert 0x0a010001 toNeighbor).insert 0x0a010003
      { toNeighbor with nextHop := 0x0a010003, precursorList := [] }, 15000000000⟩
    socketAddresses := [(0, oneInterface)] }

/-- The timer expires, and the link to the neighbor breaks. -/
theorem originated_onePrecursor :
    ∃ s', Run CountedStep onePrecursor [.timerExpires, .linkBreak 0 0x0a010001] s' ∧
      s'.originated.length ≤ onePrecursor.rerrRateLimit.toNat := by
  have hnext : (onePrecursor.rerrRateLimitTimerExpire.routingTable.purge 0).find? 0x0a010001 =
      some toNeighbor := by decide +kernel
  have hcounted : onePrecursor.rerrRateLimitTimerExpire.Counted (.linkBreak 0 0x0a010001) := by
    intro toNextHop hknown
    obtain rfl := Option.mem_unique hnext hknown
    exact .inr (.inl (by decide +kernel))
  have hreturns : (onePrecursor.rerrRateLimitTimerExpire.step (.linkBreak 0 0x0a010001)).isOk =
      true := by decide +kernel
  cases hbreak : onePrecursor.rerrRateLimitTimerExpire.step (.linkBreak 0 0x0a010001) with
  | error fault =>
    rw [hbreak] at hreturns
    cases hreturns
  | ok s' =>
    have hrun : Run CountedStep onePrecursor [.timerExpires, .linkBreak 0 0x0a010001] s' :=
      .cons ⟨trivial, rfl⟩ (.single ⟨hcounted, hbreak⟩)
    exact ⟨s', hrun, originated_le_rerrRateLimit rfl rfl hrun⟩

/-- Each of `n` unforwardable packets is answered on every socket, and the count stands still. -/
theorem run_forwardingFailures {s : RoutingProtocol σ} (now : Time) (dst origin : Ipv4Address)
    (dstSeqNo n : Nat) (hlimit : s.rerrCount ≠ s.rerrRateLimit)
    (hempty : ∀ dst, s.routingTable.find? dst = none) :
    ∃ s', Run Step s (List.replicate n (.noRoute now dst dstSeqNo origin)) s' ∧
      s'.rerrRateLimit = s.rerrRateLimit ∧
        s'.originated.length = s.originated.length + n * s.socketAddresses.length := by
  induction n generalizing s with
  | zero => exact ⟨s, .nil, rfl, by rw [Nat.zero_mul, Nat.add_zero]⟩
  | succ n ih =>
    have hpurged (dst : Ipv4Address) : (s.routingTable.purge now).find? dst = none := by
      rw [RoutingTable.find?_purge, hempty, Option.bind_none]
    have hadded : ({} : RerrHeader).addUnDestination dst dstSeqNo =
        .ok ({ unreachableDstSeqNo := SortedMap.empty.insert dst dstSeqNo }, true) := rfl
    have hstep : ∃ s₁, s.Step (.noRoute now dst dstSeqNo origin) s₁ ∧
        s₁.routingTable = s.routingTable.purge now ∧ s₁.rerrCount = s.rerrCount ∧
        s₁.rerrRateLimit = s.rerrRateLimit ∧ s₁.socketAddresses = s.socketAddresses ∧
        s₁.originated.length = s.originated.length + s.socketAddresses.length := by
      simp only [Step, step]
      rw [sendRerrWhenNoRouteToForward, if_neg hlimit, hadded, ok_bind]
      dsimp only [RoutingTable.lookupValidRoute]
      rw [hpurged, Option.filter_none]
      exact ⟨_, rfl, rfl, rfl, rfl, rfl, by rw [List.length_append, List.length_map]⟩
    obtain ⟨s₁, hstep, htable, hcount, hlimit', hsockets, hlength⟩ := hstep
    obtain ⟨s', hrun, hlast, htotal⟩ := ih (s := s₁) (by rw [hcount, hlimit']; exact hlimit)
      (by rw [htable]; exact hpurged)
    refine ⟨s', ?_, hlast.trans hlimit', ?_⟩
    · rw [List.replicate_succ]
      exact .cons hstep hrun
    · rw [htotal, hlength, hsockets, Nat.add_assoc, Nat.succ_mul, Nat.add_comm (n * _)]

def noRoutes : RoutingProtocol Nat :=
  { routingTable := ⟨.empty, 15000000000⟩, socketAddresses := [(0, oneInterface)] }

/-- Eleven packets that it cannot forward are answered within an interval, and the limit is ten. -/
theorem noRoutes_beyond_limit : ∃ s',
    Run Step noRoutes (List.replicate 11 (.noRoute 0 0x0a010005 0 0x0a010006)) s' ∧
      noRoutes.rerrRateLimit.toNat < s'.originated.length := by
  obtain ⟨s', hrun, -, hlength⟩ := run_forwardingFailures (s := noRoutes) 0 0x0a010005 0x0a010006
    0 11 (by decide) fun _ => rfl
  refine ⟨s', hrun, ?_⟩
  rw [hlength]
  decide

end RoutingProtocol

end Aodv

end Ns3
