/-
  Port demultiplexing
  (src/internet/model/ipv4-end-point-demux.cc, ipv4-end-point.cc).

  No two end points have the same addresses and ports.  A packet can still be for several whose
  local addresses differ: the address any and the addresses of networks are one class.
-/
import Mathlib.Data.List.Nodup
import Mathlib.Data.List.Pairwise
import Ns3.Core.Fault
import Ns3.Lib.Run
import Ns3.Network.Ipv4Address

namespace Ns3

open Lib

def Ipv4Address.getAny : Ipv4Address := 0

/-- A socket as the demultiplexer sees it. -/
structure Ipv4EndPoint where
  localAddr : Ipv4Address
  localPort : Nat
  peerAddr : Ipv4Address := .getAny
  peerPort : Nat := 0
  boundNetDevice : Option Nat := none
  rxEnabled : Bool := true
  deriving DecidableEq, Repr

def Ipv4EndPoint.remoteMatchesWildCard (e : Ipv4EndPoint) : Bool :=
  e.peerAddr = .getAny ∧ e.peerPort = 0

/-- What `Lookup` asks an `Ipv4Interface` for: its device, and its addresses with their masks. -/
structure Ipv4Interface where
  device : Nat
  addresses : List (Ipv4Address × Ipv4Mask)
  deriving DecidableEq, Repr

structure Ipv4EndPointDemux where
  ephemeral : Nat := 49152
  portLast : Nat := 65535
  portFirst : Nat := 49152
  endPoints : List Ipv4EndPoint := []
  deriving DecidableEq, Repr

/-- The addresses and ports of a packet, and the interface that it comes in at. -/
structure Arrival where
  daddr : Ipv4Address
  dport : Nat
  saddr : Ipv4Address
  sport : Nat
  incomingInterface : Ipv4Interface
  deriving DecidableEq, Repr

namespace Ipv4EndPointDemux

variable (d : Ipv4EndPointDemux)

def lookupPortLocal (port : Nat) : Bool := d.endPoints.any (·.localPort = port)

def lookupLocal (boundNetDevice : Option Nat) (addr : Ipv4Address) (port : Nat) : Bool :=
  d.endPoints.any fun i =>
    i.localPort = port ∧ i.localAddr = addr ∧ i.boundNetDevice = boundNetDevice

/-- The loop of `AllocateEphemeralPort`; 0 when `count` rounds found no port. -/
def ephemeralLoop : Nat → Nat → Nat
  | 0, _ => 0
  | count + 1, port =>
    let port := (port + 1) % 2 ^ 16
    let port := if port < d.portFirst ∨ d.portLast < port then d.portFirst else port
    if d.lookupPortLocal port then ephemeralLoop count port else port

def allocateEphemeralPort : Nat := d.ephemeralLoop (d.portLast - d.portFirst + 1) d.ephemeral

def pushBack (endPoint : Ipv4EndPoint) : Ipv4EndPointDemux :=
  { d with endPoints := d.endPoints ++ [endPoint] }

def allocateEphemeral (address : Ipv4Address) : Option Ipv4EndPointDemux :=
  let port := d.allocateEphemeralPort
  if port = 0 then none
  else some ({ d with ephemeral := port }.pushBack { localAddr := address, localPort := port })

/-- `Allocate(boundNetDevice, address, port)`, or `Allocate(boundNetDevice, port)` for the address
any. -/
def allocateLocal (boundNetDevice : Option Nat) (address : Ipv4Address) (port : Nat) :
    Option Ipv4EndPointDemux :=
  if d.lookupLocal boundNetDevice address port || d.lookupLocal none address port then none
  else some (d.pushBack { localAddr := address, localPort := port })

def allocatePeer (boundNetDevice : Option Nat) (localAddress : Ipv4Address) (localPort : Nat)
    (peerAddress : Ipv4Address) (peerPort : Nat) : Option Ipv4EndPointDemux :=
  if d.endPoints.any fun i =>
      i.localPort = localPort ∧ i.localAddr = localAddress ∧ i.peerPort = peerPort ∧
        i.peerAddr = peerAddress ∧ (i.boundNetDevice = boundNetDevice ∨ i.boundNetDevice = none)
  then none
  else some (d.pushBack
    { localAddr := localAddress, localPort, peerAddr := peerAddress
      peerPort })

def deAllocate (place : Nat) : Ipv4EndPointDemux :=
  { d with endPoints := d.endPoints.eraseIdx place }

/-- `Ipv4EndPoint::SetRxEnabled`, of the end point at a place of the list. -/
def setRxEnabled (place : Nat) (enabled : Bool) : Ipv4EndPointDemux :=
  { d with endPoints := d.endPoints.modify place ({ · with rxEnabled := enabled }) }

/-! ## Lookup -/

end Ipv4EndPointDemux

namespace Arrival

variable (p : Arrival) (e : Ipv4EndPoint)

def localAddressIsSubnetAny : Bool :=
  p.incomingInterface.addresses.any fun addr =>
    let addrNetpart := addr.1 &&& addr.2
    e.localAddr = addrNetpart ∧ addrNetpart = p.daddr &&& addr.2

def localAddressMatchesExact : Bool := e.localAddr = p.daddr

def localAddressMatchesWildCard : Bool :=
  !p.localAddressMatchesExact e && (e.localAddr = .getAny || p.localAddressIsSubnetAny e)

def remoteMatchesExact : Bool := e.peerAddr = p.saddr ∧ e.peerPort = p.sport

/-- No check passes the end point over. -/
def considers : Bool :=
  e.rxEnabled && e.localPort = p.dport &&
    e.boundNetDevice.all (· = p.incomingInterface.device) &&
    (p.localAddressMatchesExact e || p.localAddressMatchesWildCard e) &&
    (e.peerPort = p.sport || e.peerPort = 0) &&
    (e.peerAddr = p.saddr || e.peerAddr = .getAny)

end Arrival

namespace Ipv4EndPointDemux

def lookup (d : Ipv4EndPointDemux) (p : Arrival) : Except Fault (List Ipv4EndPoint) :=
  let considered := d.endPoints.filter p.considers
  let retval4 := considered.filter fun e => p.localAddressMatchesExact e && p.remoteMatchesExact e
  let retval3 := considered.filter fun e =>
    p.localAddressMatchesWildCard e && p.remoteMatchesExact e
  let retval2 := considered.filter fun e =>
    p.localAddressMatchesExact e && e.remoteMatchesWildCard
  let retval1 := considered.filter fun e =>
    p.localAddressMatchesWildCard e && e.remoteMatchesWildCard
  let retval :=
    if !retval4.isEmpty then retval4
    else if !retval3.isEmpty then retval3
    else if !retval2.isEmpty then retval2
    else retval1
  if 1 < retval.length then .error .aborted else .ok retval

end Ipv4EndPointDemux

/-! ## Classes of matches -/

/-- Which sides of an end point match a packet exactly; the others are wildcards. -/
structure MatchClass where
  localExact : Bool
  remoteExact : Bool
  deriving DecidableEq, Repr

namespace MatchClass

/-- Less is more specific: an exact remote side counts before an exact local one. -/
def rank (c : MatchClass) : Nat :=
  (if c.remoteExact then 0 else 2) + if c.localExact then 0 else 1

def holds (c : MatchClass) (p : Arrival) (e : Ipv4EndPoint) : Bool :=
  e.rxEnabled && e.localPort = p.dport &&
    (if c.localExact then p.localAddressMatchesExact e else p.localAddressMatchesWildCard e) &&
    if c.remoteExact then p.remoteMatchesExact e else e.remoteMatchesWildCard

end MatchClass

def Ipv4EndPoint.key (e : Ipv4EndPoint) : Ipv4Address × Nat × Ipv4Address × Nat :=
  (e.localAddr, e.localPort, e.peerAddr, e.peerPort)

namespace Ipv4EndPointDemux

def matching (d : Ipv4EndPointDemux) (c : MatchClass) (p : Arrival) : List Ipv4EndPoint :=
  d.endPoints.filter (c.holds p)

/-- No end point is bound to a device, and no two have the same addresses and ports. -/
structure Distinct (d : Ipv4EndPointDemux) : Prop where
  keys : (d.endPoints.map Ipv4EndPoint.key).Nodup
  unbound : ∀ e ∈ d.endPoints, e.boundNetDevice = none

variable {d : Ipv4EndPointDemux} {p : Arrival} {c : MatchClass}

theorem Distinct.pairwise (h : d.Distinct) :
    (d.matching c p).Pairwise fun e e' => e.localAddr ≠ e'.localAddr := by
  have hkeys := (List.pairwise_map.mp h.keys).filter (c.holds p)
  refine hkeys.imp_of_mem fun {e e'} he he' hne haddr => hne ?_
  have hc := (List.mem_filter.mp he).2
  have hc' := (List.mem_filter.mp he').2
  obtain ⟨localExact, remoteExact⟩ := c
  cases remoteExact <;>
    simp_all [MatchClass.holds, Ipv4EndPoint.key, Arrival.remoteMatchesExact,
      Ipv4EndPoint.remoteMatchesWildCard]

theorem Distinct.matching_cases (h : d.Distinct) (hne : d.matching c p ≠ []) :
    (∃ e, d.matching c p = [e]) ∨ c.localExact = false ∧ 1 < (d.matching c p).length ∧
      ∃ e ∈ d.matching c p, ∃ e' ∈ d.matching c p, e.localAddr ≠ e'.localAddr := by
  have hpairwise := h.pairwise (c := c) (p := p)
  have hexact : ∀ e ∈ d.matching c p, c.localExact = true → e.localAddr = p.daddr := by
    intro e he hlocal
    have hc := (List.mem_filter.mp he).2
    simp_all [MatchClass.holds, Arrival.localAddressMatchesExact]
  match hm : d.matching c p with
  | [] => exact absurd hm hne
  | [e] => exact .inl ⟨e, rfl⟩
  | e :: e' :: rest =>
    rw [hm] at hpairwise hexact
    have haddr := (List.pairwise_cons.mp hpairwise).1 e' (.head _)
    refine .inr ⟨?_, by simp, e, .head _, e', by simp, haddr⟩
    cases hlocal : c.localExact with
    | false => rfl
    | true =>
      exact absurd ((hexact e (by simp) hlocal).trans (hexact e' (by simp) hlocal).symm) haddr

theorem Distinct.collected (h : d.Distinct) :
    (d.endPoints.filter p.considers).filter (fun e =>
      (if c.localExact then p.localAddressMatchesExact e else p.localAddressMatchesWildCard e) &&
        if c.remoteExact then p.remoteMatchesExact e else e.remoteMatchesWildCard) =
      d.matching c p := by
  rw [List.filter_filter]
  refine List.filter_congr fun e he => ?_
  have hunbound := h.unbound e he
  obtain ⟨localExact, remoteExact⟩ := c
  cases localExact <;> cases remoteExact <;>
    simp [Arrival.considers, MatchClass.holds, hunbound, Arrival.remoteMatchesExact,
      Ipv4EndPoint.remoteMatchesWildCard] <;> grind

/-- What `Lookup` answers for a packet: nothing if no class has an end point, and else the one of
the most specific class that has any.  It aborts if these are several, which differ in their
local addresses and match the packet's as wildcards. -/
def Answers (d : Ipv4EndPointDemux) (p : Arrival) : Prop :=
  (∀ c, d.matching c p = []) ∧ d.lookup p = .ok [] ∨
    ∃ c, (∀ c' : MatchClass, c'.rank < c.rank → d.matching c' p = []) ∧
      ((∃ e, d.matching c p = [e] ∧ d.lookup p = .ok [e]) ∨
        c.localExact = false ∧ d.lookup p = .error .aborted ∧
          ∃ e ∈ d.matching c p, ∃ e' ∈ d.matching c p, e.localAddr ≠ e'.localAddr)

theorem Distinct.lookup_eq (h : d.Distinct) : d.lookup p =
    let retval :=
      if d.matching ⟨true, true⟩ p ≠ [] then d.matching ⟨true, true⟩ p
      else if d.matching ⟨false, true⟩ p ≠ [] then d.matching ⟨false, true⟩ p
      else if d.matching ⟨true, false⟩ p ≠ [] then d.matching ⟨true, false⟩ p
      else d.matching ⟨false, false⟩ p
    if 1 < retval.length then .error .aborted else .ok retval := by
  rw [← h.collected (c := ⟨true, true⟩), ← h.collected (c := ⟨false, true⟩),
    ← h.collected (c := ⟨true, false⟩), ← h.collected (c := ⟨false, false⟩)]
  simp [lookup]

theorem Distinct.answers_of (h : d.Distinct) (hne : d.matching c p ≠ [])
    (hbefore : ∀ c' : MatchClass, c'.rank < c.rank → d.matching c' p = [])
    (hlookup : d.lookup p = if 1 < (d.matching c p).length then .error .aborted
      else .ok (d.matching c p)) : d.Answers p := by
  refine .inr ⟨c, hbefore, ?_⟩
  rcases h.matching_cases hne with ⟨e, he⟩ | ⟨hlocal, hlength, hmem⟩
  · refine .inl ⟨e, he, ?_⟩
    rw [hlookup, he]
    rfl
  · exact .inr ⟨hlocal, hlookup.trans (if_pos hlength), hmem⟩

/-- Without duplicates the first class that matches decides. -/
theorem Distinct.answers (h : d.Distinct) (p : Arrival) : d.Answers p := by
  have heq := h.lookup_eq (p := p)
  by_cases h₁ : d.matching ⟨true, true⟩ p = []
  · by_cases h₂ : d.matching ⟨false, true⟩ p = []
    · by_cases h₃ : d.matching ⟨true, false⟩ p = []
      · by_cases h₄ : d.matching ⟨false, false⟩ p = []
        · refine .inl ⟨fun c => ?_, by simp [heq, h₁, h₂, h₃, h₄]⟩
          obtain ⟨_ | _, _ | _⟩ := c <;> assumption
        · refine h.answers_of (c := ⟨false, false⟩) h₄ ?_ (by simp [heq, h₁, h₂, h₃])
          rintro ⟨_ | _, _ | _⟩ hrank <;> simp_all [MatchClass.rank]
      · refine h.answers_of (c := ⟨true, false⟩) h₃ ?_ (by simp [heq, h₁, h₂, h₃])
        rintro ⟨_ | _, _ | _⟩ hrank <;> simp_all [MatchClass.rank]
    · refine h.answers_of (c := ⟨false, true⟩) h₂ ?_ (by simp [heq, h₁, h₂])
      rintro ⟨_ | _, _ | _⟩ hrank <;> simp_all [MatchClass.rank]
  · refine h.answers_of (c := ⟨true, true⟩) h₁ ?_ (by simp [heq, h₁])
    rintro ⟨_ | _, _ | _⟩ hrank <;> simp_all [MatchClass.rank]

/-! ## Calls -/

theorem ephemeralLoop_free {count port : Nat} (h : d.ephemeralLoop count port ≠ 0) :
    ∀ e ∈ d.endPoints, e.localPort ≠ d.ephemeralLoop count port := by
  induction count generalizing port with
  | zero => exact absurd rfl h
  | succ count ih =>
    dsimp only [ephemeralLoop] at h ⊢
    generalize (if (port + 1) % 2 ^ 16 < d.portFirst ∨ d.portLast < (port + 1) % 2 ^ 16 then
      d.portFirst else (port + 1) % 2 ^ 16) = port' at h ⊢
    split at h
    · next htaken =>
        rw [if_pos htaken]
        exact ih h
    · next hfree =>
        rw [if_neg hfree]
        simpa [lookupPortLocal] using hfree

theorem Distinct.pushBack (h : d.Distinct) {e : Ipv4EndPoint}
    (hnew : ∀ e' ∈ d.endPoints, e'.key ≠ e.key) (hunbound : e.boundNetDevice = none) :
    (d.pushBack e).Distinct where
  keys := by
    rw [Ipv4EndPointDemux.pushBack, List.map_append, List.map_singleton]
    refine List.nodup_append.mpr ⟨h.keys, List.nodup_singleton _, fun a ha b hb => ?_⟩
    obtain ⟨e', he', rfl⟩ := List.mem_map.mp ha
    rw [List.mem_singleton.mp hb]
    exact hnew e' he'
  unbound := by
    intro e' he'
    rcases List.mem_append.mp he' with hold | hlast
    · exact h.unbound e' hold
    · rw [List.mem_singleton.mp hlast]
      exact hunbound

end Ipv4EndPointDemux

/-- The calls; those that return a null pointer are left out of runs. -/
inductive DemuxCall where
  | allocateEphemeral (address : Ipv4Address)
  | allocateLocal (boundNetDevice : Option Nat) (address : Ipv4Address) (port : Nat)
  | allocatePeer (boundNetDevice : Option Nat) (localAddress : Ipv4Address) (localPort : Nat)
      (peerAddress : Ipv4Address) (peerPort : Nat)
  | deAllocate (place : Nat)
  | setRxEnabled (place : Nat) (enabled : Bool)
  deriving DecidableEq, Repr

namespace Ipv4EndPointDemux

def next (d : Ipv4EndPointDemux) : DemuxCall → Option Ipv4EndPointDemux
  | .allocateEphemeral address => d.allocateEphemeral address
  | .allocateLocal boundNetDevice address port => d.allocateLocal boundNetDevice address port
  | .allocatePeer boundNetDevice localAddress localPort peerAddress peerPort =>
    d.allocatePeer boundNetDevice localAddress localPort peerAddress peerPort
  | .deAllocate place => some (d.deAllocate place)
  | .setRxEnabled place enabled => some (d.setRxEnabled place enabled)

variable {d d' : Ipv4EndPointDemux}

theorem Distinct.next (h : d.Distinct) {call : DemuxCall} (hnext : d.next call = some d') :
    d'.Distinct := by
  cases call with
  | allocateEphemeral address =>
    obtain ⟨hport, hd⟩ := Option.ite_none_left_eq_some.mp hnext
    cases hd
    have hsame : Distinct { d with ephemeral := d.allocateEphemeralPort } := ⟨h.keys, h.unbound⟩
    refine hsame.pushBack (e := { localAddr := address, localPort := d.allocateEphemeralPort })
      (fun e he hkey => ?_) rfl
    exact ephemeralLoop_free hport e he (Prod.mk.inj (Prod.mk.inj hkey).2).1
  | allocateLocal boundNetDevice address port =>
    obtain ⟨hfree, hd⟩ := Option.ite_none_left_eq_some.mp hnext
    cases hd
    refine h.pushBack (fun e he hkey => ?_) rfl
    have hunbound := h.unbound e he
    simp_all [lookupLocal, Ipv4EndPoint.key]
  | allocatePeer boundNetDevice localAddress localPort peerAddress peerPort =>
    obtain ⟨hfree, hd⟩ := Option.ite_none_left_eq_some.mp hnext
    cases hd
    refine h.pushBack (fun e he hkey => ?_) rfl
    have hunbound := h.unbound e he
    simp_all [Ipv4EndPoint.key]
  | deAllocate place =>
    cases hnext
    have hsub : (d.deAllocate place).endPoints.Sublist d.endPoints := List.eraseIdx_sublist ..
    exact ⟨h.keys.sublist (hsub.map _), fun e he => h.unbound e (hsub.subset he)⟩
  | setRxEnabled place enabled =>
    cases hnext
    have hmap : (d.setRxEnabled place enabled).endPoints.map (fun e => (e.key, e.boundNetDevice)) =
        d.endPoints.map fun e => (e.key, e.boundNetDevice) := by
      refine List.ext_getElem? fun i => ?_
      simp only [setRxEnabled, List.getElem?_map, List.getElem?_modify]
      cases d.endPoints[i]? <;> split <;> rfl
    have hkeys := congrArg (List.map Prod.fst) hmap
    rw [List.map_map, List.map_map] at hkeys
    refine ⟨hkeys ▸ h.keys, fun e he => ?_⟩
    have hmem := List.mem_map_of_mem (f := fun e => (e.key, e.boundNetDevice)) he
    rw [hmap] at hmem
    obtain ⟨e', he', heq⟩ := List.mem_map.mp hmem
    exact (Prod.mk.inj heq).2.symm.trans (h.unbound e' he')

/-- **Port demultiplexing.** After any calls `Lookup` answers from the most specific class that has
an end point, unless that one is ambiguous. -/
theorem run_answers {calls : List DemuxCall}
    (hrun : Run (fun d call d' => next d call = some d') ({} : Ipv4EndPointDemux) calls d)
    (p : Arrival) : d.Answers p := by
  have hdistinct := hrun.invariant (P := Distinct) ⟨List.nodup_nil, nofun⟩
    (fun _ _ _ h hnext => h.next hnext)
  exact hdistinct.answers p

/-- An end point of each class is for the packet, and it goes to the connection. -/
theorem run_answers_classes : ∃ d, Run (fun d call d' => next d call = some d')
      ({} : Ipv4EndPointDemux) [.allocateLocal none .getAny 80, .allocateLocal none 0x0a000001 80,
        .allocatePeer none .getAny 80 0x0a000002 1000,
        .allocatePeer none 0x0a000001 80 0x0a000002 1000] d ∧
    d.lookup ⟨0x0a000001, 80, 0x0a000002, 1000, ⟨0, [(0x0a000001, 0xffffff00)]⟩⟩ =
      .ok [⟨0x0a000001, 80, 0x0a000002, 1000, none, true⟩] ∧
    d.Answers ⟨0x0a000001, 80, 0x0a000002, 1000, ⟨0, [(0x0a000001, 0xffffff00)]⟩⟩ := by
  exact Run.exists_of_foldlM (fun _ _ _ h => h) rfl fun hrun => ⟨by decide, run_answers hrun _⟩

/-- One end point is for any address, and one for those of the network 10.0.0.0/24: a packet to
10.0.0.1 is for both. -/
theorem any_and_network_abort : ¬∀ calls d, Run (fun d call d' => next d call = some d')
    ({} : Ipv4EndPointDemux) calls d → ∀ p, d.lookup p ≠ .error .aborted := by
  intro h
  have hrun := Run.of_foldlM (fun _ _ _ h => h)
    (by decide : [DemuxCall.allocateLocal none .getAny 80, .allocateLocal none 0x0a000000 80].foldlM
      next {} = some { endPoints := [
        { localAddr := .getAny, localPort := 80 }, { localAddr := 0x0a000000, localPort := 80 }] })
  exact h _ _ hrun ⟨0x0a000001, 80, 0x0a000002, 1000, ⟨0, [(0x0a000001, 0xffffff00)]⟩⟩ (by decide)

end Ipv4EndPointDemux

end Ns3
