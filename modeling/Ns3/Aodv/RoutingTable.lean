/-
  The routing table of AODV (src/aodv/model/aodv-rtable.cc).

  Every access purges the table first.  At one time purging twice does all that purging can do:
  an entry that is invalidated may be erased by the next call, but nothing else changes.
-/
import Ns3.Core.Fault
import Ns3.Lib.SortedMap
import Ns3.Network.Ipv4Address

namespace Ns3

namespace Aodv

open Lib

/-- An address of an interface, with its mask. -/
structure Ipv4InterfaceAddress where
  /-- `m_local` -/
  localAddress : Ipv4Address
  mask : Ipv4Mask
  broadcast : Ipv4Address
  scope : Nat := 2
  secondary : Bool := false
  deriving DecidableEq, Repr

/-- The state of a route. -/
inductive RouteFlags where
  | valid
  | invalid
  | inSearch
  deriving DecidableEq, Repr

/-- `RoutingTableEntry`: what the route errors read and change of it. -/
structure RoutingTableEntry where
  seqNo : Nat
  /-- `GetNextHop()`, the gateway of `m_ipv4Route` -/
  nextHop : Ipv4Address
  iface : Ipv4InterfaceAddress
  flag : RouteFlags := .valid
  reqCount : Nat := 0
  lifeTime : Time
  precursorList : List Ipv4Address := []
  deriving DecidableEq, Repr

namespace RoutingTableEntry

/-- `GetPrecursors`: those that `prec` does not have are added to it. -/
def getPrecursors (e : RoutingTableEntry) (prec : List Ipv4Address) : List Ipv4Address :=
  e.precursorList.foldl (fun prec i => if i ∈ prec then prec else prec ++ [i]) prec

def getLifeTime (e : RoutingTableEntry) (now : Time) : Time := e.lifeTime - now

def invalidate (e : RoutingTableEntry) (badLinkLifetime now : Time) : RoutingTableEntry :=
  if e.flag = .invalid then e
  else { e with flag := .invalid, reqCount := 0, lifeTime := badLinkLifetime + now }

def purge (badLinkLifetime now : Time) (e : RoutingTableEntry) : Option RoutingTableEntry :=
  if e.getLifeTime now < 0 then
    match e.flag with
    | .invalid => none
    | .valid => some (e.invalidate badLinkLifetime now)
    | .inSearch => some e
  else some e

variable {bad now : Time} {e e' : RoutingTableEntry}

theorem purge_cases (bad now : Time) (e : RoutingTableEntry) :
    e.purge bad now = none ∨ e.purge bad now = some e ∨
      (e.getLifeTime now < 0 ∧ e.flag = .valid ∧
        e.purge bad now =
          some { e with flag := .invalid, reqCount := 0, lifeTime := bad + now }) := by
  rw [purge]
  by_cases hexpired : e.getLifeTime now < 0
  · rw [if_pos hexpired]
    cases hflag : e.flag with
    | invalid => exact .inl rfl
    | valid =>
      refine .inr (.inr ⟨hexpired, rfl, ?_⟩)
      simp [invalidate, hflag]
    | inSearch => exact .inr (.inl rfl)
  · rw [if_neg hexpired]
    exact .inr (.inl rfl)

theorem purge_invalidated (bad now : Time) (h : e.flag = .invalid) :
    e.purge bad now = none ∨ e.purge bad now = some e := by
  obtain hnone | hsome | ⟨-, hvalid, -⟩ := purge_cases bad now e
  · exact .inl hnone
  · exact .inr hsome
  · rw [h] at hvalid
    cases hvalid

theorem purge_purge_purge (bad now : Time) (e : RoutingTableEntry) :
    ((e.purge bad now).bind (purge bad now)).bind (purge bad now) =
      (e.purge bad now).bind (purge bad now) := by
  obtain hnone | hsome | ⟨-, -, hsome⟩ := purge_cases bad now e
  · rw [hnone]
    rfl
  · rw [hsome, Option.bind_some, hsome, Option.bind_some, hsome]
  · rw [hsome, Option.bind_some]
    obtain hnone | hkept := purge_invalidated bad now
      (e := { e with flag := .invalid, reqCount := 0, lifeTime := bad + now }) rfl
    · rw [hnone]
      rfl
    · rw [hkept, Option.bind_some, hkept]

theorem purge_of_valid (h : e.purge bad now = some e') (hvalid : e'.flag = .valid) :
    e'.purge bad now = some e' := by
  obtain hnone | hsome | ⟨-, -, hsome⟩ := purge_cases bad now e
  · rw [hnone] at h
    cases h
  · obtain rfl := Option.mem_unique hsome h
    exact h
  · obtain rfl := Option.mem_unique hsome h
    cases hvalid

end RoutingTableEntry

/-- `m_ipv4AddressEntry`, ordered by destination as the source's map is. -/
structure RoutingTable where
  ipv4AddressEntry : SortedMap RoutingTableEntry
  badLinkLifetime : Time

namespace RoutingTable

def purge (t : RoutingTable) (now : Time) : RoutingTable :=
  { t with
    ipv4AddressEntry := t.ipv4AddressEntry.filterMap fun _ e => e.purge t.badLinkLifetime now }

def find? (t : RoutingTable) (dst : Ipv4Address) : Option RoutingTableEntry :=
  t.ipv4AddressEntry.find? dst

/-- Every lookup purges the table first. -/
def lookupRoute (t : RoutingTable) (now : Time) (id : Ipv4Address) :
    RoutingTable × Option RoutingTableEntry :=
  (t.purge now, (t.purge now).find? id)

def lookupValidRoute (t : RoutingTable) (now : Time) (id : Ipv4Address) :
    RoutingTable × Option RoutingTableEntry :=
  (t.purge now, ((t.purge now).find? id).filter fun rt => rt.flag = .valid)

/-- The destinations reached through a neighbor, with their sequence numbers. -/
def destinationsVia (t : RoutingTable) (nextHop : Ipv4Address) : SortedMap Nat :=
  t.ipv4AddressEntry.filterMap fun _ e => if e.nextHop = nextHop then some e.seqNo else none

def getListOfDestinationWithNextHop (t : RoutingTable) (now : Time) (nextHop : Ipv4Address) :
    RoutingTable × SortedMap Nat :=
  (t.purge now, (t.purge now).destinationsVia nextHop)

/-- `InvalidateRoutesWithDst`; a destination is in `unreachable` at most once. -/
def invalidateRoutesWithDst (t : RoutingTable) (now : Time) (unreachable : SortedMap Nat) :
    RoutingTable :=
  let t := t.purge now
  { t with
    ipv4AddressEntry := t.ipv4AddressEntry.filterMap fun dst e =>
      if unreachable.contains dst ∧ e.flag = .valid then some (e.invalidate t.badLinkLifetime now)
      else some e }

/-! ## Purging -/

variable {t : RoutingTable} {now : Time} {dst nextHop : Ipv4Address} {e : RoutingTableEntry}

theorem find?_purge :
    (t.purge now).find? dst = (t.find? dst).bind fun e => e.purge t.badLinkLifetime now :=
  SortedMap.find?_filterMap

/-- Nothing is left to purge at this time. -/
def Settled (t : RoutingTable) (now : Time) : Prop := t.purge now = t

theorem settled_purge_purge (t : RoutingTable) (now : Time) :
    ((t.purge now).purge now).Settled now := by
  have hentries : (((t.purge now).purge now).purge now).ipv4AddressEntry =
      ((t.purge now).purge now).ipv4AddressEntry := by
    simp only [purge, SortedMap.filterMap_filterMap]
    refine congrArg (fun f => SortedMap.filterMap f t.ipv4AddressEntry) ?_
    funext dst e
    exact e.purge_purge_purge t.badLinkLifetime now
  rw [Settled, purge]
  rw [purge] at hentries
  dsimp only at hentries ⊢
  rw [hentries]

theorem find?_purge_of_valid (h : (t.purge now).find? dst = some e) (hvalid : e.flag = .valid) :
    ((t.purge now).purge now).find? dst = some e := by
  have hfound := h
  rw [find?_purge] at hfound
  obtain ⟨e₀, -, hpurge⟩ := Option.bind_eq_some_iff.mp hfound
  rw [find?_purge, h]
  exact RoutingTableEntry.purge_of_valid hpurge hvalid

theorem contains_destinationsVia : (t.destinationsVia nextHop).contains dst = true ↔
    ∃ e, t.find? dst = some e ∧ e.nextHop = nextHop := by
  rw [SortedMap.contains_iff]
  constructor
  · rintro ⟨seqNo, h⟩
    obtain ⟨e, he, hvia⟩ := SortedMap.mem_filterMap.mp h
    by_cases hnext : e.nextHop = nextHop
    · exact ⟨e, SortedMap.find?_eq_some.mpr he, hnext⟩
    · rw [if_neg hnext] at hvia
      cases hvia
  · rintro ⟨e, he, hnext⟩
    exact ⟨e.seqNo, SortedMap.mem_filterMap.mpr
      ⟨e, SortedMap.find?_eq_some.mp he, if_pos hnext⟩⟩

theorem find?_invalidateRoutesWithDst {unreachable : SortedMap Nat} (hsettled : t.Settled now)
    (hdst : unreachable.contains dst = true) (h : t.find? dst = some e) (hvalid : e.flag = .valid) :
    ∃ e', (t.invalidateRoutesWithDst now unreachable).find? dst = some e' ∧ e'.flag = .invalid := by
  refine ⟨e.invalidate t.badLinkLifetime now, ?_, ?_⟩
  · rw [invalidateRoutesWithDst, hsettled, find?]
    dsimp only
    rw [SortedMap.find?_filterMap]
    rw [find?] at h
    rw [h, Option.bind_some, if_pos ⟨hdst, hvalid⟩]
  · rw [RoutingTableEntry.invalidate, hvalid]
    rfl

end RoutingTable

end Aodv

end Ns3
