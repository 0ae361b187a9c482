/-
  Route errors of AODV (RoutingProtocol::RecvError,
  SendRerrWhenBreaksLinkToNextHop, SendRerrWhenNoRouteToForward and SendRerrMessage,
  src/aodv/model/aodv-routing-protocol.cc, and RerrHeader, src/aodv/model/aodv-packet.cc).

  The loop that fills route errors is written for a header that refuses one destination too many,
  so that it can send what it has and go on with a cleared header.  The header does not refuse: it
  fails an assertion.
-/
import Ns3.Aodv.RoutingTable
import Ns3.Lib.Wrap

namespace Ns3

namespace Aodv

open Lib

/-! ## The header -/

/-- The body of a RERR. -/
structure RerrHeader where
  flag : Nat := 0
  reserved : Nat := 0
  unreachableDstSeqNo : SortedMap Nat := .empty

namespace RerrHeader

def getDestCount (h : RerrHeader) : Nat := h.unreachableDstSeqNo.size % 2 ^ 8

/-- A full header is an assertion; false is never returned. -/
def addUnDestination (h : RerrHeader) (dst : Ipv4Address) (seqNo : Nat) :
    Except Fault (RerrHeader × Bool) :=
  if h.unreachableDstSeqNo.contains dst then .ok (h, true)
  else do
    nsAssert (h.getDestCount < 255)
    .ok ({ h with unreachableDstSeqNo := h.unreachableDstSeqNo.insert dst seqNo }, true)

def clear (_h : RerrHeader) : RerrHeader := {}

/-- `RemoveUnDestination`, until it returns false. -/
def removeAll (h : RerrHeader) : RerrHeader := { h with unreachableDstSeqNo := .empty }

/-- All destinations of the table are added. -/
def addAll (h : RerrHeader) (unreachable : SortedMap Nat) : RerrHeader :=
  { h with unreachableDstSeqNo := h.unreachableDstSeqNo.insertAll unreachable.entries }

end RerrHeader

/-! ## The protocol -/

/-- A route error on its way. -/
structure RerrMessage (σ : Type) where
  socket : σ
  header : RerrHeader
  destination : Ipv4Address

/-- `RoutingProtocol`: what the route errors read and change of it, and what they build and send. -/
structure RoutingProtocol (σ : Type) where
  routingTable : RoutingTable
  socketAddresses : List (σ × Ipv4InterfaceAddress)
  rerrRateLimit : UInt16 := 10
  rerrCount : UInt16 := 0
  /-- `m_rerrRateLimitTimer.IsRunning()` -/
  rerrRateLimitTimerRunning : Bool := true
  /-- the headers of the packets that were built; the code does not keep this -/
  built : List RerrHeader := []
  /-- what was originated since the timer last expired; the code does not keep this -/
  originated : List (RerrMessage σ) := []

namespace RoutingProtocol

variable {σ : Type}

/-- The first socket that is bound to this interface address. -/
def findSocketWithInterfaceAddress (s : RoutingProtocol σ) (addr : Ipv4InterfaceAddress) :
    Option σ := (s.socketAddresses.find? fun j => j.2 = addr).map Prod.fst

/-- A send through the socket of the interface; without a socket the code asserts. -/
def sendTo (s : RoutingProtocol σ) (iface : Ipv4InterfaceAddress) (packet : RerrHeader)
    (destination : Ipv4Address) : Except Fault (RoutingProtocol σ) :=
  match s.findSocketWithInterfaceAddress iface with
  | some socket => .ok { s with originated := s.originated ++ [⟨socket, packet, destination⟩] }
  | none => .error .assertFailed

/-- "Send to all-hosts broadcast if on /32 addr, subnet-directed otherwise". -/
def broadcastOf (iface : Ipv4InterfaceAddress) : Ipv4Address :=
  if iface.mask = Ipv4Mask.ones then 0xffffffff else iface.broadcast

/-- One turn of the loop that collects the interfaces of the precursors with a valid route. -/
def addIface (now : Time) (state : RoutingTable × List Ipv4InterfaceAddress) (i : Ipv4Address) :
    RoutingTable × List Ipv4InterfaceAddress :=
  let (table, toPrecursor) := state.1.lookupValidRoute now i
  match toPrecursor with
  | some toPrecursor =>
    (table, if toPrecursor.iface ∈ state.2 then state.2 else state.2 ++ [toPrecursor.iface])
  | none => (table, state.2)

/-- One precursor gets a unicast, several get a broadcast on each of their interfaces. -/
def sendRerrMessage (s : RoutingProtocol σ) (now : Time) (packet : RerrHeader)
    (precursors : List Ipv4Address) : Except Fault (RoutingProtocol σ) :=
  match precursors with
  | [] => .ok s
  | front :: rest =>
    if s.rerrCount = s.rerrRateLimit then do
      nsAssert s.rerrRateLimitTimerRunning
      .ok s
    else if rest = [] then
      let (table, toPrecursor) := s.routingTable.lookupValidRoute now front
      let s := { s with routingTable := table }
      match toPrecursor with
      | some toPrecursor => do
          let s ← s.sendTo toPrecursor.iface packet front
          .ok { s with rerrCount := s.rerrCount + 1 }
      | none => .ok s
    else
      let (table, ifaces) := (front :: rest).foldl (addIface now) (s.routingTable, [])
      ifaces.foldlM (fun s iface => s.sendTo iface packet (broadcastOf iface))
        { s with routingTable := table }

/-- `SendRerrMessage`, with the header recorded as built. -/
def sendRerr (s : RoutingProtocol σ) (now : Time) (rerrHeader : RerrHeader)
    (precursors : List Ipv4Address) : Except Fault (RoutingProtocol σ) :=
  { s with built := s.built ++ [rerrHeader] }.sendRerrMessage now rerrHeader precursors

/-- The precursors of the entry that `LookupRoute` found are added; without an entry there are
none. -/
def addPrecursors (toDst : Option RoutingTableEntry) (precursors : List Ipv4Address) :
    List Ipv4Address :=
  match toDst with
  | some toDst => toDst.getPrecursors precursors
  | none => precursors

/-- The loop over the unreachable destinations, for so many rounds. -/
def reportUnreachable (now : Time) : Nat → List (Ipv4Address × Nat) →
    RoutingProtocol σ × RerrHeader × List Ipv4Address →
      Except Fault (RoutingProtocol σ × RerrHeader × List Ipv4Address)
  | _, [], state => .ok state
  | 0, _ :: _, _ => .error .noProgress
  | fuel + 1, i :: unreachable, (s, rerrHeader, precursors) => do
      let (rerrHeader, added) ← rerrHeader.addUnDestination i.1 i.2
      if !added then
        let s ← s.sendRerr now rerrHeader precursors
        reportUnreachable now fuel (i :: unreachable) (s, rerrHeader.clear, precursors)
      else
        let (table, toDst) := s.routingTable.lookupRoute now i.1
        reportUnreachable now fuel unreachable ({ s with routingTable := table }, rerrHeader,
          addPrecursors toDst precursors)

/-- What both callers of the loop do with it: every destination is added after at most one packet
has been sent. -/
def reportAll (s : RoutingProtocol σ) (now : Time) (unreachable : SortedMap Nat)
    (rerrHeader : RerrHeader) (precursors : List Ipv4Address) :
    Except Fault (RoutingProtocol σ) := do
  let (s, rerrHeader, precursors) ← reportUnreachable now (2 * unreachable.size)
    unreachable.entries (s, rerrHeader, precursors)
  if rerrHeader.getDestCount ≠ 0 then s.sendRerr now rerrHeader precursors else .ok s

/-- The link to a neighbor breaks: its routes are reported and invalidated. -/
def sendRerrWhenBreaksLinkToNextHop (s : RoutingProtocol σ) (now : Time) (nextHop : Ipv4Address) :
    Except Fault (RoutingProtocol σ) :=
  let (table, toNextHop) := s.routingTable.lookupRoute now nextHop
  match toNextHop with
  | none => .ok { s with routingTable := table }
  | some toNextHop => do
      let precursors := toNextHop.getPrecursors []
      let (rerrHeader, _) ← RerrHeader.addUnDestination {} nextHop toNextHop.seqNo
      let (table, unreachable) := table.getListOfDestinationWithNextHop now nextHop
      let s ← { s with routingTable := table }.reportAll now unreachable rerrHeader precursors
      let unreachable := unreachable.insertNew nextHop toNextHop.seqNo
      .ok { s with routingTable := s.routingTable.invalidateRoutesWithDst now unreachable }

/-- A RERR arrives: the routes that it names and that lead through its sender go. -/
def recvError (s : RoutingProtocol σ) (now : Time) (rerrHeader : RerrHeader) (src : Ipv4Address) :
    Except Fault (RoutingProtocol σ) := do
  let (table, dstWithNextHopSrc) := s.routingTable.getListOfDestinationWithNextHop now src
  let unreachable := rerrHeader.unreachableDstSeqNo.filterMap fun dst seqNo =>
    if dstWithNextHopSrc.contains dst then some seqNo else none
  let s ← { s with routingTable := table }.reportAll now unreachable rerrHeader.removeAll []
  .ok { s with routingTable := s.routingTable.invalidateRoutesWithDst now unreachable }

/-- A packet has no route: a RERR towards its origin, or on every interface. -/
def sendRerrWhenNoRouteToForward (s : RoutingProtocol σ) (now : Time) (dst : Ipv4Address)
    (dstSeqNo : Nat) (origin : Ipv4Address) : Except Fault (RoutingProtocol σ) :=
  if s.rerrCount = s.rerrRateLimit then do
    nsAssert s.rerrRateLimitTimerRunning
    .ok s
  else do
    let (rerrHeader, _) ← RerrHeader.addUnDestination {} dst dstSeqNo
    let s := { s with built := s.built ++ [rerrHeader] }
    let (table, toOrigin) := s.routingTable.lookupValidRoute now origin
    let s := { s with routingTable := table }
    match toOrigin with
    | some toOrigin => s.sendTo toOrigin.iface rerrHeader toOrigin.nextHop
    | none =>
      .ok { s with
        originated := s.originated ++ s.socketAddresses.map fun i =>
          ⟨i.1, rerrHeader, broadcastOf i.2⟩ }

/-! ## The loop -/

/-- The precursors of the listed destinations, each once. -/
def precursorsOf (table : RoutingTable) (unreachable : List (Ipv4Address × Nat))
    (precursors : List Ipv4Address) : List Ipv4Address :=
  unreachable.foldl (fun precursors i => addPrecursors (table.find? i.1) precursors) precursors

section

variable {s : RoutingProtocol σ} {now : Time} {table : RoutingTable} {h : RerrHeader}

theorem addUnDestination_eq (hsize : h.unreachableDstSeqNo.size ≤ 255) (dst : Ipv4Address)
    (seqNo : Nat) : h.addUnDestination dst seqNo =
      if (h.unreachableDstSeqNo.insertNew dst seqNo).size ≤ 255 then
        .ok ({ h with unreachableDstSeqNo := h.unreachableDstSeqNo.insertNew dst seqNo }, true)
      else .error .assertFailed := by
  rw [RerrHeader.addUnDestination, SortedMap.insertNew]
  by_cases hcontains : h.unreachableDstSeqNo.contains dst = true
  · rw [if_pos hcontains, if_pos hcontains, if_pos hsize]
  · rw [if_neg hcontains, if_neg hcontains,
      SortedMap.size_insert (Bool.eq_false_iff.mpr hcontains), RerrHeader.getDestCount,
      Nat.mod_eq_of_lt (by omega)]
    by_cases hroom : h.unreachableDstSeqNo.size < 255
    · rw [nsAssert_of hroom, ok_bind, if_pos (Nat.succ_le_of_lt hroom)]
    · rw [decide_eq_false hroom, if_neg fun hle => hroom (Nat.lt_of_succ_le hle)]
      rfl

theorem reportUnreachable_eq (hsettled : table.Settled now)
    (htable : s.routingTable.purge now = table) (unreachable : List (Ipv4Address × Nat))
    (hsize : h.unreachableDstSeqNo.size ≤ 255) {fuel : Nat} (hfuel : unreachable.length ≤ fuel)
    (precursors : List Ipv4Address) :
    reportUnreachable now fuel unreachable (s, h, precursors) =
      if (h.unreachableDstSeqNo.insertAll unreachable).size ≤ 255 then
        .ok ({ s with routingTable := if unreachable = [] then s.routingTable else table },
          { h with unreachableDstSeqNo := h.unreachableDstSeqNo.insertAll unreachable },
          precursorsOf table unreachable precursors)
      else .error .assertFailed := by
  induction unreachable generalizing s h fuel precursors with
  | nil =>
    rw [reportUnreachable]
    exact (if_pos hsize).symm
  | cons i unreachable ih =>
    obtain ⟨fuel, rfl⟩ : ∃ n, fuel = n + 1 := ⟨fuel - 1, by rw [List.length_cons] at hfuel; omega⟩
    have hcons : h.unreachableDstSeqNo.insertAll (i :: unreachable) =
        (h.unreachableDstSeqNo.insertNew i.1 i.2).insertAll unreachable := rfl
    rw [reportUnreachable, addUnDestination_eq hsize, hcons]
    by_cases hroom : (h.unreachableDstSeqNo.insertNew i.1 i.2).size ≤ 255
    · rw [if_pos hroom, ok_bind]
      dsimp only [RoutingTable.lookupRoute]
      rw [htable]
      have hrest := ih (s := { s with routingTable := table })
        (h := { h with unreachableDstSeqNo := h.unreachableDstSeqNo.insertNew i.1 i.2 })
        hsettled hroom (Nat.le_of_succ_le_succ hfuel) (addPrecursors (table.find? i.1) precursors)
      refine hrest.trans ?_
      dsimp only
      rw [ite_self, if_neg (List.cons_ne_nil _ _)]
      rfl
    · have hmore := SortedMap.size_le_insertAll (h.unreachableDstSeqNo.insertNew i.1 i.2)
        unreachable
      rw [if_neg hroom, if_neg (by omega)]
      rfl

/-! ## Sending -/

variable {ifaces : List Ipv4InterfaceAddress}

/-- The interface carries a valid route to one of the precursors. -/
def LeadsToPrecursor (table : RoutingTable) (precursors : List Ipv4Address)
    (iface : Ipv4InterfaceAddress) : Prop :=
  ∃ p ∈ precursors, ∃ e, table.find? p = some e ∧ e.flag = .valid ∧ e.iface = iface

/-- The assertions of `SendRerrMessage` hold: where there are precursors, either the limit is
reached and its timer runs, or every interface that leads to them has a socket. -/
def Sendable (s : RoutingProtocol σ) (table : RoutingTable) (precursors : List Ipv4Address) :
    Prop :=
  precursors ≠ [] →
    if s.rerrCount = s.rerrRateLimit then s.rerrRateLimitTimerRunning = true
    else ∀ iface, LeadsToPrecursor table precursors iface →
      (s.findSocketWithInterfaceAddress iface).isSome

/-- What no send changes. -/
structure Frame (s s' : RoutingProtocol σ) : Prop where
  routingTable : s'.routingTable = s.routingTable
  socketAddresses : s'.socketAddresses = s.socketAddresses
  rerrRateLimit : s'.rerrRateLimit = s.rerrRateLimit
  rerrRateLimitTimerRunning : s'.rerrRateLimitTimerRunning = s.rerrRateLimitTimerRunning
  built : s'.built = s.built

variable {s' : RoutingProtocol σ} {iface : Ipv4InterfaceAddress} {packet : RerrHeader}
  {precursors : List Ipv4Address} {p destination : Ipv4Address}

theorem lookupValidRoute_eq (hsettled : table.Settled now) (p : Ipv4Address) :
    table.lookupValidRoute now p = (table, (table.find? p).filter fun rt => rt.flag = .valid) := by
  rw [RoutingTable.lookupValidRoute, hsettled]

theorem filter_valid_eq_some {e : RoutingTableEntry} :
    ((table.find? p).filter fun rt => rt.flag = .valid) = some e ↔
      table.find? p = some e ∧ e.flag = .valid := by
  rw [Option.filter_eq_some_iff, decide_eq_true_eq]

theorem sendTo_of_isSome (packet : RerrHeader) (destination : Ipv4Address)
    (hsocket : (s.findSocketWithInterfaceAddress iface).isSome) :
    ∃ message, s.sendTo iface packet destination =
      .ok { s with originated := s.originated ++ [message] } := by
  obtain ⟨socket, hfind⟩ := Option.isSome_iff_exists.mp hsocket
  exact ⟨⟨socket, packet, destination⟩, by rw [sendTo, hfind]⟩

theorem sendTo_of_not (hsocket : ¬(s.findSocketWithInterfaceAddress iface).isSome) :
    s.sendTo iface packet destination = .error .assertFailed := by
  rw [sendTo, Option.not_isSome_iff_eq_none.mp hsocket]

theorem foldl_addIface (hsettled : table.Settled now) (precursors : List Ipv4Address)
    (ifaces : List Ipv4InterfaceAddress) :
    (precursors.foldl (addIface now) (table, ifaces)).1 = table ∧
      ∀ iface, iface ∈ (precursors.foldl (addIface now) (table, ifaces)).2 ↔
        iface ∈ ifaces ∨ LeadsToPrecursor table precursors iface := by
  induction precursors generalizing ifaces with
  | nil => exact ⟨rfl, fun iface => (or_iff_left fun ⟨_, hmem, _⟩ => List.not_mem_nil hmem).symm⟩
  | cons p precursors ih =>
    have hleads (iface : Ipv4InterfaceAddress) : LeadsToPrecursor table (p :: precursors) iface ↔
        (∃ e, table.find? p = some e ∧ e.flag = .valid ∧ e.iface = iface) ∨
          LeadsToPrecursor table precursors iface := List.exists_mem_cons_iff _ _ _
    rw [List.foldl_cons, addIface, lookupValidRoute_eq hsettled]
    dsimp only
    cases hfind : (table.find? p).filter fun rt => rt.flag = .valid with
    | none =>
      refine ⟨(ih ifaces).1, fun iface => ?_⟩
      rw [(ih ifaces).2, hleads]
      refine or_congr_right (or_iff_right ?_).symm
      rintro ⟨e, he, hvalid, -⟩
      rw [filter_valid_eq_some.mpr ⟨he, hvalid⟩] at hfind
      cases hfind
    | some e =>
      obtain ⟨he, hvalid⟩ := filter_valid_eq_some.mp hfind
      have hone (iface : Ipv4InterfaceAddress) :
          (∃ e, table.find? p = some e ∧ e.flag = .valid ∧ e.iface = iface) ↔
            iface = e.iface := by
        constructor
        · rintro ⟨e', he', -, rfl⟩
          exact congrArg RoutingTableEntry.iface (Option.mem_unique he' he)
        · rintro rfl
          exact ⟨e, he, hvalid, rfl⟩
      have hmem (iface : Ipv4InterfaceAddress) :
          iface ∈ (if e.iface ∈ ifaces then ifaces else ifaces ++ [e.iface]) ↔
            iface ∈ ifaces ∨ iface = e.iface := by
        split
        · next hknown => exact (or_iff_left_of_imp fun h => h ▸ hknown).symm
        · rw [List.mem_append, List.mem_singleton]
      refine ⟨(ih _).1, fun iface => ?_⟩
      rw [(ih _).2, hleads, hone, hmem, or_assoc]

theorem broadcast_ok (packet : RerrHeader)
    (h : ∀ iface ∈ ifaces, (s.findSocketWithInterfaceAddress iface).isSome) :
    ∃ messages, messages.length = ifaces.length ∧
      ifaces.foldlM (fun s iface => s.sendTo iface packet (broadcastOf iface)) s =
        .ok { s with originated := s.originated ++ messages } := by
  induction ifaces generalizing s with
  | nil => exact ⟨[], rfl, by rw [List.append_nil]; rfl⟩
  | cons iface ifaces ih =>
    obtain ⟨hsocket, hrest⟩ := List.forall_mem_cons.mp h
    obtain ⟨message, hsend⟩ :=
      sendTo_of_isSome packet (broadcastOf iface) hsocket
    obtain ⟨messages, hlength, hmore⟩ := ih (s := { s with
      originated := s.originated ++ [message] }) hrest
    refine ⟨message :: messages, congrArg (· + 1) hlength, ?_⟩
    rw [List.foldlM_cons, hsend, ok_bind, hmore, List.append_assoc]
    rfl

theorem broadcast_error (hmem : iface ∈ ifaces)
    (hnone : ¬(s.findSocketWithInterfaceAddress iface).isSome) :
    ifaces.foldlM (fun s iface => s.sendTo iface packet (broadcastOf iface)) s =
      .error .assertFailed := by
  induction ifaces generalizing s with
  | nil => cases hmem
  | cons first ifaces ih =>
    rw [List.foldlM_cons]
    by_cases hsocket : (s.findSocketWithInterfaceAddress first).isSome
    · obtain ⟨message, hsend⟩ :=
        sendTo_of_isSome packet (broadcastOf first) hsocket
      obtain rfl | hmem := List.mem_cons.mp hmem
      · exact absurd hsocket hnone
      · rw [hsend, ok_bind]
        exact ih (s := { s with originated := s.originated ++ [message] }) hmem hnone
    · rw [sendTo_of_not hsocket]
      rfl

theorem leadsToPrecursor_singleton :
    LeadsToPrecursor table [p] iface ↔
      ∃ e, table.find? p = some e ∧ e.flag = .valid ∧ e.iface = iface := by
  simp only [LeadsToPrecursor, List.mem_singleton, exists_eq_left]

theorem sendRerrMessage_ok (packet : RerrHeader) (hsettled : s.routingTable.Settled now)
    (hsend : s.Sendable s.routingTable precursors) :
    ∃ s', s.sendRerrMessage now packet precursors = .ok s' ∧ Frame s s' := by
  cases precursors with
  | nil => exact ⟨s, rfl, rfl, rfl, rfl, rfl, rfl⟩
  | cons front rest =>
    have hassert := hsend (List.cons_ne_nil _ _)
    rw [sendRerrMessage]
    by_cases hlimit : s.rerrCount = s.rerrRateLimit
    · rw [if_pos hlimit] at hassert ⊢
      rw [hassert]
      exact ⟨s, rfl, rfl, rfl, rfl, rfl, rfl⟩
    · rw [if_neg hlimit] at hassert ⊢
      by_cases hone : rest = []
      · rw [if_pos hone, lookupValidRoute_eq hsettled]
        dsimp only
        cases hfind : (s.routingTable.find? front).filter fun rt => rt.flag = .valid with
        | none => exact ⟨_, rfl, rfl, rfl, rfl, rfl, rfl⟩
        | some e =>
          obtain ⟨he, hvalid⟩ := filter_valid_eq_some.mp hfind
          have hsocket := hassert e.iface
            ⟨front, .head _, e, he, hvalid, rfl⟩
          obtain ⟨message, hsent⟩ := sendTo_of_isSome packet front hsocket
          dsimp only
          rw [hsent]
          exact ⟨_, rfl, rfl, rfl, rfl, rfl, rfl⟩
      · obtain ⟨htable, hifaces⟩ := foldl_addIface hsettled (front :: rest) []
        rw [if_neg hone]
        dsimp only
        rw [htable]
        obtain ⟨messages, -, hsent⟩ := broadcast_ok packet fun iface hmem => hassert iface
          (((hifaces iface).mp hmem).resolve_left List.not_mem_nil)
        exact ⟨_, hsent, rfl, rfl, rfl, rfl, rfl⟩

theorem sendRerrMessage_error (hsettled : s.routingTable.Settled now)
    (hnot : ¬s.Sendable s.routingTable precursors) :
    s.sendRerrMessage now packet precursors = .error .assertFailed := by
  rw [Sendable, Classical.not_imp] at hnot
  obtain ⟨hne, hassert⟩ := hnot
  cases precursors with
  | nil => exact absurd rfl hne
  | cons front rest =>
    rw [sendRerrMessage]
    by_cases hlimit : s.rerrCount = s.rerrRateLimit
    · rw [if_pos hlimit] at hassert ⊢
      rw [Bool.eq_false_iff.mpr hassert]
      rfl
    · rw [if_neg hlimit] at hassert ⊢
      rw [Classical.not_forall] at hassert
      obtain ⟨iface, hassert⟩ := hassert
      rw [Classical.not_imp] at hassert
      obtain ⟨hleads, hnone⟩ := hassert
      by_cases hone : rest = []
      · subst hone
        obtain ⟨e, he, hvalid, rfl⟩ := leadsToPrecursor_singleton.mp hleads
        rw [if_pos rfl, lookupValidRoute_eq hsettled, filter_valid_eq_some.mpr ⟨he, hvalid⟩]
        dsimp only
        rw [sendTo_of_not hnone]
        rfl
      · obtain ⟨htable, hifaces⟩ := foldl_addIface hsettled (front :: rest) []
        rw [if_neg hone]
        dsimp only
        rw [htable]
        exact broadcast_error (s := s) ((hifaces iface).mpr (.inr hleads)) hnone

theorem reportAll_eq (hsettled : table.Settled now) (htable : s.routingTable.purge now = table)
    (unreachable : SortedMap Nat) (hsize : h.unreachableDstSeqNo.size ≤ 255)
    (precursors : List Ipv4Address) :
    s.reportAll now unreachable h precursors =
      if (h.addAll unreachable).unreachableDstSeqNo.size ≤ 255 then
        if (h.addAll unreachable).unreachableDstSeqNo.size ≠ 0 then
          { s with
            routingTable := if unreachable.entries = [] then s.routingTable else table
          }.sendRerr now (h.addAll unreachable) (precursorsOf table unreachable.entries precursors)
        else .ok { s with
          routingTable := if unreachable.entries = [] then s.routingTable else table }
      else .error .assertFailed := by
  have hfuel : unreachable.entries.length ≤ 2 * unreachable.size :=
    Nat.le_mul_of_pos_left _ (by decide)
  have hmap : (h.addAll unreachable).unreachableDstSeqNo =
      h.unreachableDstSeqNo.insertAll unreachable.entries := rfl
  rw [reportAll, reportUnreachable_eq hsettled htable _ hsize hfuel, ← hmap]
  by_cases hroom : (h.addAll unreachable).unreachableDstSeqNo.size ≤ 255
  · have hcount : (h.addAll unreachable).getDestCount =
        (h.addAll unreachable).unreachableDstSeqNo.size := Nat.mod_eq_of_lt (by omega)
    rw [if_pos hroom, if_pos hroom, ← hcount]
    rfl
  · rw [if_neg hroom, if_neg hroom]
    rfl

theorem sendRerr_cases (hsettled : s.routingTable.Settled now) (packet : RerrHeader)
    (precursors : List Ipv4Address) :
    (s.Sendable s.routingTable precursors ∧ ∃ s', s.sendRerr now packet precursors = .ok s' ∧
      s'.routingTable = s.routingTable ∧ s'.built = s.built ++ [packet]) ∨
    (¬s.Sendable s.routingTable precursors ∧
      s.sendRerr now packet precursors = .error .assertFailed) := by
  by_cases hsend : s.Sendable s.routingTable precursors
  · obtain ⟨s', hok, hframe⟩ := sendRerrMessage_ok packet
      (s := { s with built := s.built ++ [packet] }) hsettled hsend
    exact .inl ⟨hsend, s', hok, hframe.routingTable, hframe.built⟩
  · exact .inr ⟨hsend, sendRerrMessage_error
      (s := { s with built := s.built ++ [packet] }) hsettled hsend⟩

end

/-! ## What is reported -/

/-- The packets that a call builds have at most 255 destinations each, together exactly the
unreachable ones, and the routes to these that are valid after the first purge of the call are
invalidated. -/
structure Reports (s s' : RoutingProtocol σ) (now : Time) (unreachable : Ipv4Address → Prop) :
    Prop where
  packets : ∃ packets, s'.built = s.built ++ packets ∧
    (∀ packet ∈ packets, packet.unreachableDstSeqNo.size ≤ 255) ∧
      ∀ dst, unreachable dst ↔
        ∃ packet ∈ packets, packet.unreachableDstSeqNo.contains dst = true
  invalid : ∀ dst e, unreachable dst → (s.routingTable.purge now).find? dst = some e →
    e.flag = .valid → ∃ e', s'.routingTable.find? dst = some e' ∧ e'.flag = .invalid

section

variable (s : RoutingProtocol σ) (now : Time)

/-- The table once purging changes nothing more. -/
def settledTable : RoutingTable := (s.routingTable.purge now).purge now

/-- What a broken link to `nextHop` makes unreachable: the next hop and all that goes through it. -/
def UnreachableByBreak (nextHop dst : Ipv4Address) : Prop :=
  (dst = nextHop ∧ ∃ e, (s.routingTable.purge now).find? nextHop = some e) ∨
    ∃ e, (s.settledTable now).find? dst = some e ∧ e.nextHop = nextHop

/-- What a route error from `src` makes unreachable: the destinations it lists that are reached
through its sender. -/
def UnreachableByError (rerrHeader : RerrHeader) (src dst : Ipv4Address) : Prop :=
  rerrHeader.unreachableDstSeqNo.contains dst = true ∧
    ∃ e, (s.routingTable.purge now).find? dst = some e ∧ e.nextHop = src

/-- The destinations that a broken link makes unreachable, where there is a route to `nextHop`. -/
def brokenDestinations (nextHop : Ipv4Address) (toNextHop : RoutingTableEntry) : SortedMap Nat :=
  ((s.settledTable now).destinationsVia nextHop).insertNew nextHop toNextHop.seqNo

/-- Who has to hear of a broken link: the precursors of all that it makes unreachable. -/
def breakPrecursors (nextHop : Ipv4Address) (toNextHop : RoutingTableEntry) : List Ipv4Address :=
  precursorsOf (s.settledTable now) ((s.settledTable now).destinationsVia nextHop).entries
    (toNextHop.getPrecursors [])

/-- A broken link can be reported: at most 255 destinations become unreachable and `Sendable` holds;
or the next hop is not known and nothing goes through it. -/
def BreakReportable (nextHop : Ipv4Address) : Prop :=
  (∃ toNextHop, (s.routingTable.purge now).find? nextHop = some toNextHop ∧
    (s.brokenDestinations now nextHop toNextHop).size ≤ 255 ∧
      s.Sendable (s.settledTable now) (s.breakPrecursors now nextHop toNextHop)) ∨
  ((s.routingTable.purge now).find? nextHop = none ∧
    ∀ dst e, (s.settledTable now).find? dst = some e → e.nextHop ≠ nextHop)

/-- The destinations that the route error lists and that are reached through its sender. -/
def listedDestinations (rerrHeader : RerrHeader) (src : Ipv4Address) : SortedMap Nat :=
  rerrHeader.unreachableDstSeqNo.filterMap fun dst seqNo =>
    if ((s.routingTable.purge now).destinationsVia src).contains dst then some seqNo else none

/-- Who is told of a received RERR. -/
def errorPrecursors (rerrHeader : RerrHeader) (src : Ipv4Address) : List Ipv4Address :=
  precursorsOf (s.settledTable now) (s.listedDestinations now rerrHeader src).entries []

/-- A route error can be passed on: at most 255 destinations become unreachable, and if there is
one, the assertions of `SendRerrMessage` hold. -/
def ErrorReportable (rerrHeader : RerrHeader) (src : Ipv4Address) : Prop :=
  (s.listedDestinations now rerrHeader src).size ≤ 255 ∧
    ((s.listedDestinations now rerrHeader src).entries ≠ [] →
      s.Sendable (s.settledTable now) (s.errorPrecursors now rerrHeader src))

end

section

variable {s : RoutingProtocol σ} {now : Time} {nextHop src dst : Ipv4Address}
  {toNextHop : RoutingTableEntry} {rerrHeader : RerrHeader}

theorem settled_settledTable (s : RoutingProtocol σ) (now : Time) :
    (s.settledTable now).Settled now := s.routingTable.settled_purge_purge now

theorem contains_brokenDestinations
    (hnext : (s.routingTable.purge now).find? nextHop = some toNextHop) :
    (s.brokenDestinations now nextHop toNextHop).contains dst = true ↔
      s.UnreachableByBreak now nextHop dst := by
  rw [brokenDestinations, SortedMap.contains_insertNew, RoutingTable.contains_destinationsVia,
    UnreachableByBreak]
  exact or_congr_left (iff_self_and.mpr fun _ => ⟨toNextHop, hnext⟩)

theorem contains_listedDestinations :
    (s.listedDestinations now rerrHeader src).contains dst = true ↔
      s.UnreachableByError now rerrHeader src dst := by
  rw [UnreachableByError, SortedMap.contains_iff, SortedMap.contains_iff,
    ← RoutingTable.contains_destinationsVia]
  constructor
  · rintro ⟨seqNo, h⟩
    obtain ⟨a, ha, hif⟩ := SortedMap.mem_filterMap.mp h
    by_cases hvia : ((s.routingTable.purge now).destinationsVia src).contains dst = true
    · exact ⟨⟨a, ha⟩, hvia⟩
    · rw [if_neg hvia] at hif
      cases hif
  · rintro ⟨⟨a, ha⟩, hvia⟩
    exact ⟨a, SortedMap.mem_filterMap.mpr ⟨a, ha, if_pos hvia⟩⟩

/-- The header that reports a broken link, with the next hop alone. -/
def breakHeader (nextHop : Ipv4Address) (toNextHop : RoutingTableEntry) : RerrHeader :=
  { unreachableDstSeqNo := (SortedMap.empty : SortedMap Nat).insertNew nextHop toNextHop.seqNo }

theorem contains_breakHeader :
    ((breakHeader nextHop toNextHop).addAll
      ((s.settledTable now).destinationsVia nextHop)).unreachableDstSeqNo.contains dst = true ↔
        (s.brokenDestinations now nextHop toNextHop).contains dst = true := by
  have hempty : (SortedMap.empty : SortedMap Nat).contains dst = true ↔ False :=
    ⟨fun h => Bool.false_ne_true h, False.elim⟩
  rw [RerrHeader.addAll, breakHeader, SortedMap.contains_insertAll, SortedMap.contains_insertNew,
    hempty, or_false, brokenDestinations, SortedMap.contains_insertNew, ← SortedMap.mem_keys,
    List.mem_map]

theorem size_breakHeader (s : RoutingProtocol σ) (now : Time) (nextHop : Ipv4Address)
    (toNextHop : RoutingTableEntry) :
    ((breakHeader nextHop toNextHop).addAll
      ((s.settledTable now).destinationsVia nextHop)).unreachableDstSeqNo.size =
        (s.brokenDestinations now nextHop toNextHop).size :=
  SortedMap.size_eq_of_contains fun _ => contains_breakHeader

theorem sendRerrWhenBreaks_eq
    (hnext : (s.routingTable.purge now).find? nextHop = some toNextHop) :
    s.sendRerrWhenBreaksLinkToNextHop now nextHop =
      if (s.brokenDestinations now nextHop toNextHop).size ≤ 255 then
        { s with routingTable := s.settledTable now }.sendRerr now
          ((breakHeader nextHop toNextHop).addAll ((s.settledTable now).destinationsVia nextHop))
          (s.breakPrecursors now nextHop toNextHop) >>= fun s' => .ok { s' with
            routingTable := s'.routingTable.invalidateRoutesWithDst now
              (s.brokenDestinations now nextHop toNextHop) }
      else .error .assertFailed := by
  have hsettled := s.settled_settledTable now
  have hheader : ({} : RerrHeader).addUnDestination nextHop toNextHop.seqNo =
      .ok (breakHeader nextHop toNextHop, true) := rfl
  have hrun : s.sendRerrWhenBreaksLinkToNextHop now nextHop =
      { s with routingTable := s.settledTable now }.reportAll now
        ((s.settledTable now).destinationsVia nextHop) (breakHeader nextHop toNextHop)
        (toNextHop.getPrecursors []) >>= fun s' => .ok { s' with
          routingTable := s'.routingTable.invalidateRoutesWithDst now
            (s.brokenDestinations now nextHop toNextHop) } := by
    rw [sendRerrWhenBreaksLinkToNextHop, RoutingTable.lookupRoute, hnext]
    dsimp only
    rw [hheader]
    rfl
  have hsize := s.size_breakHeader now nextHop toNextHop
  have hpos : (s.brokenDestinations now nextHop toNextHop).size ≠ 0 :=
    SortedMap.size_ne_zero (SortedMap.contains_insertNew.mpr (.inl rfl))
  have hone : (breakHeader nextHop toNextHop).unreachableDstSeqNo.size ≤ 255 :=
    (by decide : 1 ≤ 255)
  rw [hrun, reportAll_eq (s := { s with routingTable := s.settledTable now }) hsettled hsettled _
    hone, hsize]
  by_cases hroom : (s.brokenDestinations now nextHop toNextHop).size ≤ 255
  · rw [if_pos hroom, if_pos hroom, if_pos hpos, ite_self]
    rfl
  · rw [if_neg hroom, if_neg hroom]
    rfl

theorem sendRerrWhenBreaks_cases
    (hnext : (s.routingTable.purge now).find? nextHop = some toNextHop) :
    ((s.brokenDestinations now nextHop toNextHop).size ≤ 255 ∧
        s.Sendable (s.settledTable now) (s.breakPrecursors now nextHop toNextHop) ∧
      ∃ s', s.sendRerrWhenBreaksLinkToNextHop now nextHop = .ok s' ∧
        s.Reports s' now (s.UnreachableByBreak now nextHop)) ∨
    (¬((s.brokenDestinations now nextHop toNextHop).size ≤ 255 ∧
        s.Sendable (s.settledTable now) (s.breakPrecursors now nextHop toNextHop)) ∧
      s.sendRerrWhenBreaksLinkToNextHop now nextHop = .error .assertFailed) := by
  have hsettled := s.settled_settledTable now
  have hsize := s.size_breakHeader now nextHop toNextHop
  rw [sendRerrWhenBreaks_eq hnext]
  by_cases hroom : (s.brokenDestinations now nextHop toNextHop).size ≤ 255
  · rw [if_pos hroom]
    obtain ⟨hsend, s', hok, htable, hbuilt⟩ | ⟨hnot, herror⟩ :=
      sendRerr_cases (s := { s with routingTable := s.settledTable now }) hsettled
        ((breakHeader nextHop toNextHop).addAll ((s.settledTable now).destinationsVia nextHop))
        (s.breakPrecursors now nextHop toNextHop)
    · refine .inl ⟨hroom, hsend, _, congrArg (· >>= _) hok, ⟨_, hbuilt, ?_, fun dst => ?_⟩, ?_⟩
      · exact List.forall_mem_singleton.mpr (hsize.symm ▸ hroom)
      · simp only [List.mem_singleton, exists_eq_left]
        exact (contains_breakHeader.trans (contains_brokenDestinations hnext)).symm
      · intro dst e hdst he hvalid
        refine RoutingTable.find?_invalidateRoutesWithDst (htable.symm ▸ hsettled)
          ((contains_brokenDestinations hnext).mpr hdst) ?_ hvalid
        rw [htable]
        exact RoutingTable.find?_purge_of_valid he hvalid
    · refine .inr ⟨fun h => hnot h.2, ?_⟩
      exact congrArg (· >>= _) herror
  · refine .inr ⟨fun h => hroom h.1, ?_⟩
    rw [if_neg hroom]

theorem contains_errorHeader (unreachable : SortedMap Nat) :
    (rerrHeader.removeAll.addAll unreachable).unreachableDstSeqNo.contains dst = true ↔
      unreachable.contains dst = true := by
  have hempty : (SortedMap.empty : SortedMap Nat).contains dst = true ↔ False :=
    ⟨fun h => Bool.false_ne_true h, False.elim⟩
  rw [RerrHeader.addAll, RerrHeader.removeAll, SortedMap.contains_insertAll, hempty, false_or,
    ← SortedMap.mem_keys, List.mem_map]

theorem size_errorHeader (unreachable : SortedMap Nat) :
    (rerrHeader.removeAll.addAll unreachable).unreachableDstSeqNo.size = unreachable.size :=
  SortedMap.size_eq_of_contains fun _ => contains_errorHeader unreachable

theorem recvError_eq (s : RoutingProtocol σ) (now : Time) (rerrHeader : RerrHeader)
    (src : Ipv4Address) : s.recvError now rerrHeader src =
      if (s.listedDestinations now rerrHeader src).size ≤ 255 then
        (if (s.listedDestinations now rerrHeader src).entries = [] then
          .ok { s with routingTable := s.routingTable.purge now }
        else { s with routingTable := s.settledTable now }.sendRerr now
          (rerrHeader.removeAll.addAll (s.listedDestinations now rerrHeader src))
          (s.errorPrecursors now rerrHeader src)) >>= fun s' => .ok { s' with
            routingTable := s'.routingTable.invalidateRoutesWithDst now
              (s.listedDestinations now rerrHeader src) }
      else .error .assertFailed := by
  have hrun : s.recvError now rerrHeader src =
      { s with routingTable := s.routingTable.purge now }.reportAll now
        (s.listedDestinations now rerrHeader src) rerrHeader.removeAll [] >>= fun s' =>
          .ok { s' with
            routingTable := s'.routingTable.invalidateRoutesWithDst now
              (s.listedDestinations now rerrHeader src) } := rfl
  have hcleared : rerrHeader.removeAll.unreachableDstSeqNo.size ≤ 255 := Nat.zero_le 255
  rw [hrun, reportAll_eq (s := { s with routingTable := s.routingTable.purge now })
    (s.settled_settledTable now) rfl _ hcleared, size_errorHeader]
  by_cases hroom : (s.listedDestinations now rerrHeader src).size ≤ 255
  · rw [if_pos hroom, if_pos hroom]
    by_cases hnone : (s.listedDestinations now rerrHeader src).entries = []
    · have hzero : (s.listedDestinations now rerrHeader src).size = 0 :=
        List.length_eq_zero_iff.mpr hnone
      rw [if_pos hnone, if_pos hnone, if_neg (not_not_intro hzero)]
    · have hpos : (s.listedDestinations now rerrHeader src).size ≠ 0 :=
        mt List.length_eq_zero_iff.mp hnone
      rw [if_neg hnone, if_neg hnone, if_pos hpos]
      rfl
  · rw [if_neg hroom, if_neg hroom]
    rfl

/-- Either the routes are reported and invalidated, or the call stops at an assertion. -/
theorem recvError_cases (s : RoutingProtocol σ) (now : Time) (rerrHeader : RerrHeader)
    (src : Ipv4Address) :
    (s.ErrorReportable now rerrHeader src ∧ ∃ s', s.recvError now rerrHeader src = .ok s' ∧
      s.Reports s' now (s.UnreachableByError now rerrHeader src)) ∨
    (¬s.ErrorReportable now rerrHeader src ∧
      s.recvError now rerrHeader src = .error .assertFailed) := by
  have hsettled := s.settled_settledTable now
  rw [recvError_eq]
  by_cases hroom : (s.listedDestinations now rerrHeader src).size ≤ 255
  · rw [if_pos hroom]
    by_cases hnone : (s.listedDestinations now rerrHeader src).entries = []
    · have hno (dst : Ipv4Address) : ¬s.UnreachableByError now rerrHeader src dst := fun h =>
        SortedMap.size_ne_zero (contains_listedDestinations.mpr h)
          (List.length_eq_zero_iff.mpr hnone)
      rw [if_pos hnone]
      refine .inl ⟨⟨hroom, fun h => absurd hnone h⟩, _, rfl, ⟨[], (List.append_nil _).symm,
        List.forall_mem_nil _, fun dst => ?_⟩,
        fun dst e hdst => absurd hdst (hno dst)⟩
      exact iff_of_false (hno dst) fun ⟨_, h, _⟩ => List.not_mem_nil h
    · rw [if_neg hnone]
      obtain ⟨hsend, s', hok, htable, hbuilt⟩ | ⟨hnot, herror⟩ :=
        sendRerr_cases (s := { s with routingTable := s.settledTable now }) hsettled
          (rerrHeader.removeAll.addAll (s.listedDestinations now rerrHeader src))
          (s.errorPrecursors now rerrHeader src)
      · refine .inl ⟨⟨hroom, fun _ => hsend⟩, _, congrArg (· >>= _) hok,
          ⟨_, hbuilt, ?_, fun dst => ?_⟩, ?_⟩
        · exact List.forall_mem_singleton.mpr ((size_errorHeader _).symm ▸ hroom)
        · simp only [List.mem_singleton, exists_eq_left]
          exact ((contains_errorHeader _).trans contains_listedDestinations).symm
        · intro dst e hdst he hvalid
          refine RoutingTable.find?_invalidateRoutesWithDst (htable.symm ▸ hsettled)
            (contains_listedDestinations.mpr hdst) ?_ hvalid
          rw [htable]
          exact RoutingTable.find?_purge_of_valid he hvalid
      · refine .inr ⟨fun h => hnot (h.2 hnone), ?_⟩
        exact congrArg (· >>= _) herror
  · refine .inr ⟨fun h => hroom h.1, ?_⟩
    rw [if_neg hroom]

theorem sendRerrWhenBreaks_of_none (hnone : (s.routingTable.purge now).find? nextHop = none) :
    s.sendRerrWhenBreaksLinkToNextHop now nextHop =
      .ok { s with routingTable := s.routingTable.purge now } := by
  rw [sendRerrWhenBreaksLinkToNextHop, RoutingTable.lookupRoute, hnone]

end

/-- **Route errors** are reported completely, without a failed assertion, exactly if the broken
links and the received errors are reportable. -/
theorem reports_iff (s : RoutingProtocol σ) (now : Time) :
    (∀ nextHop, (∃ s', s.sendRerrWhenBreaksLinkToNextHop now nextHop = .ok s' ∧
      s.Reports s' now (s.UnreachableByBreak now nextHop)) ↔ s.BreakReportable now nextHop) ∧
    (∀ rerrHeader src, (∃ s', s.recvError now rerrHeader src = .ok s' ∧
      s.Reports s' now (s.UnreachableByError now rerrHeader src)) ↔
        s.ErrorReportable now rerrHeader src) := by
  constructor
  · intro nextHop
    cases hnext : (s.routingTable.purge now).find? nextHop with
    | none =>
      have hunreachable (dst : Ipv4Address) : s.UnreachableByBreak now nextHop dst ↔
          ∃ e, (s.settledTable now).find? dst = some e ∧ e.nextHop = nextHop := by
        refine or_iff_right fun h => ?_
        obtain ⟨-, e, he⟩ := h
        cases hnext.symm.trans he
      rw [sendRerrWhenBreaks_of_none hnext]
      constructor
      · rintro ⟨s', hok, ⟨packets, hbuilt, -, hall⟩, -⟩
        cases hok
        obtain rfl : packets = [] := List.self_eq_append_right.mp hbuilt
        refine .inr ⟨hnext, fun dst e he hvia => ?_⟩
        obtain ⟨packet, hpacket, -⟩ := (hall dst).mp ((hunreachable dst).mpr ⟨e, he, hvia⟩)
        exact List.not_mem_nil hpacket
      · rintro (⟨toNextHop, hknown, -⟩ | ⟨-, hnone⟩)
        · cases hnext.symm.trans hknown
        · have hno (dst : Ipv4Address) : ¬s.UnreachableByBreak now nextHop dst := by
            rw [hunreachable]
            rintro ⟨e, he, hvia⟩
            exact hnone dst e he hvia
          refine ⟨_, rfl, ⟨[], (List.append_nil _).symm, List.forall_mem_nil _,
            fun dst => ?_⟩, fun dst e hdst => absurd hdst (hno dst)⟩
          exact iff_of_false (hno dst) fun ⟨_, h, _⟩ => List.not_mem_nil h
    | some toNextHop =>
      obtain ⟨hroom, hsend, hreports⟩ | ⟨hnot, herror⟩ := sendRerrWhenBreaks_cases hnext
      · exact iff_of_true hreports (.inl ⟨toNextHop, hnext, hroom, hsend⟩)
      · refine iff_of_false ?_ ?_
        · rintro ⟨s', hok, -⟩
          cases herror.symm.trans hok
        · rintro (⟨other, hknown, hreportable⟩ | ⟨hnone, -⟩)
          · obtain rfl := Option.mem_unique hnext hknown
            exact hnot hreportable
          · cases hnext.symm.trans hnone
  · intro rerrHeader src
    obtain ⟨hreportable, hreports⟩ | ⟨hnot, herror⟩ := s.recvError_cases now rerrHeader src
    · exact iff_of_true hreports hreportable
    · refine iff_of_false ?_ hnot
      rintro ⟨s', hok, -⟩
      cases herror.symm.trans hok

def oneInterface : Ipv4InterfaceAddress := ⟨0x0a010002, 0xffff0000, 0x0a01ffff, 2, false⟩

def routesThrough (n : Nat) : List (Nat × RoutingTableEntry) :=
  (List.range n).map fun host => (0x0a010001 + host,
    { seqNo := 0, nextHop := 0x0a010001, iface := oneInterface, lifeTime := 3000000000 })

theorem sorted_routesThrough (n : Nat) :
    (routesThrough n).Pairwise fun e e' => e.1 < e'.1 :=
  List.pairwise_map.mpr (List.pairwise_lt_range.imp fun hlt => Nat.add_lt_add_left hlt _)

def crowded : RoutingProtocol Nat :=
  { routingTable := ⟨⟨routesThrough 256, sorted_routesThrough 256⟩, 15000000000⟩
    socketAddresses := [(0, oneInterface)] }

/-- Its link to the neighbor breaks. -/
theorem crowded_not_reported :
    ¬∃ s', crowded.sendRerrWhenBreaksLinkToNextHop 0 0x0a010001 = .ok s' ∧
      crowded.Reports s' 0 (crowded.UnreachableByBreak 0 0x0a010001) := by
  have hnext : (crowded.routingTable.purge 0).find? 0x0a010001 = some
      { seqNo := 0, nextHop := 0x0a010001, iface := oneInterface, lifeTime := 3000000000 } := by
    decide +kernel
  obtain ⟨hroom, -⟩ | ⟨-, herror⟩ := sendRerrWhenBreaks_cases hnext
  · exact absurd hroom (by decide +kernel)
  · rintro ⟨s', hok, -⟩
    cases herror.symm.trans hok

end RoutingProtocol

end Aodv

end Ns3
