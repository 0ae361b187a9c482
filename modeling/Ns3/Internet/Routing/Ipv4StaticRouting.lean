/-
  The unicast routes of a static routing protocol
  (Ipv4StaticRouting::LookupStatic and the calls that add routes,
  src/internet/model/ipv4-static-routing.cc).

  The lookup is one pass that keeps the best route so far; it leaves the pass at the first
  route to a host.
-/
import Mathlib.Data.List.Induction
import Mathlib.Data.List.Nodup
import Ns3.Core.Fault
import Ns3.Network.Ipv4Address

namespace Ns3

/-! ## Masks -/

namespace Ipv4Mask

def isMatch (mask : Ipv4Mask) (a b : Ipv4Address) : Bool := a &&& mask = b &&& mask

/-- The loop of `Ipv4Mask::GetPrefixLength`, a number of rounds. -/
def prefixLengthIn : Nat → Ipv4Mask → Nat
  | 0, _ => 0
  | rounds + 1, mask => if mask = 0 then 0 else prefixLengthIn rounds (mask * 2 % 2 ^ 32) + 1

/-- `Ipv4Mask::GetPrefixLength`: 32 shifts leave nothing of a mask. -/
def prefixLength (mask : Ipv4Mask) : Nat := prefixLengthIn 32 mask

theorem prefixLengthIn_le (rounds : Nat) (mask : Ipv4Mask) :
    prefixLengthIn rounds mask ≤ rounds := by
  induction rounds generalizing mask with
  | zero => exact Nat.le_refl 0
  | succ rounds ih =>
    rw [prefixLengthIn]
    split
    · exact Nat.zero_le _
    · exact Nat.succ_le_succ (ih _)

theorem prefixLength_le (mask : Ipv4Mask) : mask.prefixLength ≤ 32 := prefixLengthIn_le 32 mask

end Ipv4Mask

def Ipv4Address.isLocalMulticast (addr : Ipv4Address) : Bool :=
  addr &&& 0xffffff00 = 0xe0000000

/-! ## The table -/

structure Ipv4RoutingTableEntry where
  dest : Ipv4Address
  destNetworkMask : Ipv4Mask
  gateway : Ipv4Address
  interface : Nat
  deriving DecidableEq, Repr

structure Ipv4Route (δ : Type) where
  destination : Ipv4Address
  source : Ipv4Address
  gateway : Ipv4Address
  outputDevice : δ
  deriving DecidableEq, Repr

/-- What a lookup asks `m_ipv4` for. -/
structure StaticRoutingEnv (δ : Type) where
  getNetDevice : Nat → δ
  sourceAddressSelection : Nat → Ipv4Address → Ipv4Address
  /-- `GetAddress(GetInterfaceForDevice(oif), 0).GetLocal()` -/
  localAddress : δ → Ipv4Address

/-- `m_networkRoutes`: the routes, with their metrics. -/
abbrev NetworkRoutes : Type := List (Ipv4RoutingTableEntry × UInt32)

namespace Ipv4StaticRouting

def lookupRoute (networkRoutes : NetworkRoutes) (route : Ipv4RoutingTableEntry) (metric : UInt32) :
    Bool :=
  networkRoutes.any fun j =>
    j.1.dest = route.dest ∧ j.1.destNetworkMask = route.destNetworkMask ∧
      j.1.gateway = route.gateway ∧ j.1.interface = route.interface ∧ j.2 = metric

/-- `AddNetworkRouteTo`; without a next hop the gateway is 0.0.0.0. -/
def addNetworkRouteTo (networkRoutes : NetworkRoutes) (network : Ipv4Address)
    (networkMask : Ipv4Mask) (nextHop : Option Ipv4Address) (interface : Nat) (metric : UInt32) :
    NetworkRoutes :=
  let route : Ipv4RoutingTableEntry :=
    { dest := network, destNetworkMask := networkMask, gateway := nextHop.getD 0,
      interface }
  if !lookupRoute networkRoutes route metric then networkRoutes ++ [(route, metric)]
  else networkRoutes

def addHostRouteTo (networkRoutes : NetworkRoutes) (dest : Ipv4Address)
    (nextHop : Option Ipv4Address) (interface : Nat) (metric : UInt32) : NetworkRoutes :=
  addNetworkRouteTo networkRoutes dest Ipv4Mask.ones nextHop interface metric

def setDefaultRoute (networkRoutes : NetworkRoutes) (nextHop : Ipv4Address) (interface : Nat)
    (metric : UInt32) : NetworkRoutes :=
  addNetworkRouteTo networkRoutes 0 0 (some nextHop) interface metric

/-- The calls that write the table. -/
inductive RouteCall where
  | addNetworkRouteTo (network : Ipv4Address) (networkMask : Ipv4Mask)
      (nextHop : Option Ipv4Address) (interface : Nat) (metric : UInt32)
  | addHostRouteTo (dest : Ipv4Address) (nextHop : Option Ipv4Address) (interface : Nat)
      (metric : UInt32)
  | setDefaultRoute (nextHop : Ipv4Address) (interface : Nat) (metric : UInt32)
  deriving DecidableEq, Repr

def RouteCall.apply (networkRoutes : NetworkRoutes) : RouteCall → NetworkRoutes
  | .addNetworkRouteTo network networkMask nextHop interface metric =>
    Ipv4StaticRouting.addNetworkRouteTo networkRoutes network networkMask nextHop interface metric
  | .addHostRouteTo dest nextHop interface metric =>
    Ipv4StaticRouting.addHostRouteTo networkRoutes dest nextHop interface metric
  | .setDefaultRoute nextHop interface metric =>
    Ipv4StaticRouting.setDefaultRoute networkRoutes nextHop interface metric

def tableOf (calls : List RouteCall) : NetworkRoutes := calls.foldl RouteCall.apply []

/-! ## The lookup -/

section

variable {δ : Type} [DecidableEq δ] (env : StaticRoutingEnv δ)

def routeVia (j : Ipv4RoutingTableEntry) : Ipv4Route δ where
  destination := j.dest
  source := env.sourceAddressSelection j.interface j.dest
  gateway := j.gateway
  outputDevice := env.getNetDevice j.interface

/-- The locals of `LookupStatic`. -/
structure LookupState (δ : Type) where
  rtentry : Option (Ipv4Route δ) := none
  longestMask : Nat := 0
  shortestMetric : UInt32 := 0xffffffff

def lookupFrom (dest : Ipv4Address) (oif : Option δ) : LookupState δ → NetworkRoutes → LookupState δ
  | st, [] => st
  | st, (j, metric) :: rest =>
    let masklen := j.destNetworkMask.prefixLength
    if j.destNetworkMask.isMatch dest j.dest then
      if oif.any fun oif => oif ≠ env.getNetDevice j.interface then
        lookupFrom dest oif st rest
      else if masklen < st.longestMask then
        lookupFrom dest oif st rest
      else
        let shortestMetric := if masklen > st.longestMask then 0xffffffff else st.shortestMetric
        if metric > shortestMetric then
          lookupFrom dest oif
            { st with longestMask := masklen, shortestMetric } rest
        else
          let st := { rtentry := some (routeVia env j), longestMask := masklen,
                      shortestMetric := metric }
          if masklen = 32 then st else lookupFrom dest oif st rest
    else
      lookupFrom dest oif st rest

def lookupStatic (networkRoutes : NetworkRoutes) (dest : Ipv4Address) (oif : Option δ) :
    Except Fault (Option (Ipv4Route δ)) :=
  if dest.isLocalMulticast then
    match oif with
    | none => .error .assertFailed
    | some oif => .ok (some { destination := dest, source := env.localAddress oif, gateway := 0,
                              outputDevice := oif })
  else
    .ok (lookupFrom env dest oif {} networkRoutes).rtentry

end

/-! ## The best route -/

section

variable {δ : Type} {env : StaticRoutingEnv δ} {dest : Ipv4Address} {oif : Option δ}
  {routes : NetworkRoutes} {r : Ipv4RoutingTableEntry × UInt32} {st : LookupState δ}

def prefixLengthOf (r : Ipv4RoutingTableEntry × UInt32) : Nat := r.1.destNetworkMask.prefixLength

def Usable (env : StaticRoutingEnv δ) (dest : Ipv4Address) (oif : Option δ)
    (r : Ipv4RoutingTableEntry × UInt32) : Prop :=
  r.1.destNetworkMask.isMatch dest r.1.dest = true ∧
    ∀ device ∈ oif, device = env.getNetDevice r.1.interface

/-- An entry that can be used, with the longest prefix and then the least metric. -/
structure Best (env : StaticRoutingEnv δ) (dest : Ipv4Address) (oif : Option δ)
    (routes : NetworkRoutes) (r : Ipv4RoutingTableEntry × UInt32) : Prop where
  mem : r ∈ routes
  usable : Usable env dest oif r
  longest : ∀ q ∈ routes, Usable env dest oif q → prefixLengthOf q ≤ prefixLengthOf r
  cheapest : ∀ q ∈ routes, Usable env dest oif q → prefixLengthOf q = prefixLengthOf r → r.2 ≤ q.2

def Beats (r q : Ipv4RoutingTableEntry × UInt32) : Prop :=
  prefixLengthOf q < prefixLengthOf r ∨ prefixLengthOf q = prefixLengthOf r ∧ r.2 ≤ q.2

theorem Beats.refl (r : Ipv4RoutingTableEntry × UInt32) : Beats r r :=
  .inr ⟨rfl, UInt32.le_refl r.2⟩

theorem Beats.trans {q q' : Ipv4RoutingTableEntry × UInt32} (h : Beats r q) (h' : Beats q q') :
    Beats r q' := by
  rcases h with hlt | ⟨heq, hle⟩
  · rcases h' with hlt' | ⟨heq', -⟩
    · exact .inl (hlt'.trans hlt)
    · exact .inl (heq' ▸ hlt)
  · rcases h' with hlt' | ⟨heq', hle'⟩
    · exact .inl (heq ▸ hlt')
    · exact .inr ⟨heq'.trans heq, UInt32.le_trans hle hle'⟩

theorem best_iff : Best env dest oif routes r ↔
    r ∈ routes ∧ Usable env dest oif r ∧ ∀ q ∈ routes, Usable env dest oif q → Beats r q := by
  constructor
  · intro h
    refine ⟨h.mem, h.usable, fun q hq hu => ?_⟩
    rcases Nat.lt_or_ge (prefixLengthOf q) (prefixLengthOf r) with hlt | hge
    · exact .inl hlt
    · have heq := Nat.le_antisymm (h.longest q hq hu) hge
      exact .inr ⟨heq, h.cheapest q hq hu heq⟩
  · rintro ⟨hmem, husable, hbeats⟩
    refine ⟨hmem, husable, fun q hq hu => ?_, fun q hq hu hsame => ?_⟩
    · rcases hbeats q hq hu with hlt | ⟨heq, -⟩
      · exact Nat.le_of_lt hlt
      · exact Nat.le_of_eq heq
    · rcases hbeats q hq hu with hlt | ⟨-, hle⟩
      · exact absurd hsame (Nat.ne_of_lt hlt)
      · exact hle

theorem Best.keep {q : Ipv4RoutingTableEntry × UInt32} (h : Best env dest oif routes r)
    (hworse : Usable env dest oif q → Beats r q) : Best env dest oif (routes ++ [q]) r := by
  obtain ⟨hmem, husable, hbeats⟩ := best_iff.mp h
  refine best_iff.mpr ⟨List.mem_append_left _ hmem, husable, fun q' hq' hu => ?_⟩
  rcases List.mem_append.mp hq' with hq' | hq'
  · exact hbeats q' hq' hu
  · obtain rfl := List.mem_singleton.mp hq'
    exact hworse hu

theorem Best.last (husable : Usable env dest oif r)
    (hbeats : ∀ q ∈ routes, Usable env dest oif q → Beats r q) :
    Best env dest oif (routes ++ [r]) r := by
  refine best_iff.mpr ⟨List.mem_append_right _ (List.mem_singleton_self r), husable, ?_⟩
  intro q hq hu
  rcases List.mem_append.mp hq with hq | hq
  · exact hbeats q hq hu
  · exact List.mem_singleton.mp hq ▸ .refl _

/-- What the lookup is for. -/
def LongestThenCheapest (env : StaticRoutingEnv δ) (dest : Ipv4Address) (oif : Option δ)
    (routes : NetworkRoutes) : Option (Ipv4Route δ) → Prop
  | none => ∀ q ∈ routes, ¬Usable env dest oif q
  | some route => ∃ r, Best env dest oif routes r ∧ route = routeVia env r.1

/-- What the loop has found in the routes behind it. -/
inductive Scanned (env : StaticRoutingEnv δ) (dest : Ipv4Address) (oif : Option δ)
    (routes : NetworkRoutes) : LookupState δ → Prop where
  | nothing (h : ∀ q ∈ routes, ¬Usable env dest oif q) : Scanned env dest oif routes {}
  | found {r : Ipv4RoutingTableEntry × UInt32} (h : Best env dest oif routes r) :
      Scanned env dest oif routes ⟨some (routeVia env r.1), prefixLengthOf r, r.2⟩

/-! ## The pass -/

variable [DecidableEq δ]

instance (env : StaticRoutingEnv δ) (dest : Ipv4Address) (oif : Option δ)
    (r : Ipv4RoutingTableEntry × UInt32) : Decidable (Usable env dest oif r) :=
  inferInstanceAs (Decidable (_ ∧ _))

theorem lookupFrom_unusable (rest : NetworkRoutes) (h : ¬Usable env dest oif r) :
    lookupFrom env dest oif st (r :: rest) = lookupFrom env dest oif st rest := by
  obtain ⟨j, metric⟩ := r
  rw [lookupFrom]
  split
  · rename_i hmatch
    have hdevice : oif.any (fun oif => oif ≠ env.getNetDevice j.interface) = true := by
      by_contra hno
      refine h ⟨hmatch, fun device hdevice => ?_⟩
      rw [Option.mem_def] at hdevice
      rw [hdevice] at hno
      simpa using hno
    rw [if_pos hdevice]
  · rfl

theorem lookupFrom_usable (rest : NetworkRoutes) (h : Usable env dest oif r) :
    lookupFrom env dest oif st (r :: rest) =
      if prefixLengthOf r < st.longestMask then lookupFrom env dest oif st rest
      else if prefixLengthOf r = st.longestMask ∧ st.shortestMetric < r.2 then
        lookupFrom env dest oif st rest
      else if prefixLengthOf r = 32 then ⟨some (routeVia env r.1), 32, r.2⟩
      else lookupFrom env dest oif ⟨some (routeVia env r.1), prefixLengthOf r, r.2⟩ rest := by
  obtain ⟨j, metric⟩ := r
  obtain ⟨hmatch, hdevice⟩ := h
  have hsame : ¬(oif.any (fun oif => oif ≠ env.getNetDevice j.interface) = true) := by
    cases oif with
    | none => exact nofun
    | some device => simpa using hdevice device rfl
  have hmax : ∀ m : UInt32, ¬m > 0xffffffff := by
    intro m
    rw [gt_iff_lt, UInt32.lt_iff_toNat_lt, Nat.not_lt]
    exact Nat.le_of_lt_succ m.toNat_lt
  have hlen : prefixLengthOf (j, metric) = j.destNetworkMask.prefixLength := rfl
  rw [lookupFrom, if_pos hmatch, if_neg hsame, hlen]
  dsimp only
  generalize j.destNetworkMask.prefixLength = masklen
  by_cases hshorter : masklen < st.longestMask
  · rw [if_pos hshorter, if_pos hshorter]
  · rw [if_neg hshorter, if_neg hshorter]
    by_cases hlonger : masklen > st.longestMask
    · -- the metric starts anew
      have hne : ¬(masklen = st.longestMask ∧ st.shortestMetric < metric) :=
        fun h => absurd h.1 (Nat.ne_of_gt hlonger)
      rw [if_pos hlonger, if_neg (hmax metric), if_neg hne]
      by_cases h32 : masklen = 32
      · rw [if_pos h32, if_pos h32, h32]
      · rw [if_neg h32, if_neg h32]
    · have heq : masklen = st.longestMask := by omega
      rw [if_neg hlonger]
      by_cases hdearer : st.shortestMetric < metric
      · rw [if_pos hdearer, if_pos ⟨heq, hdearer⟩, heq]
      · have hne : ¬(masklen = st.longestMask ∧ st.shortestMetric < metric) :=
          fun h => hdearer h.2
        rw [if_neg hdearer, if_neg hne]
        by_cases h32 : masklen = 32
        · rw [if_pos h32, if_pos h32, h32]
        · rw [if_neg h32, if_neg h32]

def HostUsable (env : StaticRoutingEnv δ) (dest : Ipv4Address) (oif : Option δ)
    (r : Ipv4RoutingTableEntry × UInt32) : Prop :=
  Usable env dest oif r ∧ prefixLengthOf r = 32

instance (env : StaticRoutingEnv δ) (dest : Ipv4Address) (oif : Option δ)
    (r : Ipv4RoutingTableEntry × UInt32) : Decidable (HostUsable env dest oif r) :=
  inferInstanceAs (Decidable (_ ∧ _))

theorem Scanned.step (rest : NetworkRoutes) (h : Scanned env dest oif routes st)
    (hhost : ¬HostUsable env dest oif r) :
    ∃ st', lookupFrom env dest oif st (r :: rest) = lookupFrom env dest oif st' rest ∧
      Scanned env dest oif (routes ++ [r]) st' := by
  by_cases hu : Usable env dest oif r
  · have h32 : prefixLengthOf r ≠ 32 := fun h32 => hhost ⟨hu, h32⟩
    rw [lookupFrom_usable rest hu]
    cases h with
    | nothing hnone =>
      have hfirst : ¬(prefixLengthOf r = 0 ∧ (0xffffffff : UInt32) < r.2) := by
        rintro ⟨-, hlt⟩
        have hle := Nat.le_of_lt_succ r.2.toNat_lt
        exact absurd (UInt32.lt_iff_toNat_lt.mp hlt) (Nat.not_lt.mpr hle)
      rw [if_neg (Nat.not_lt_zero _), if_neg hfirst, if_neg h32]
      exact ⟨_, rfl, .found (.last hu fun q hq huq => absurd huq (hnone q hq))⟩
    | @found q hbest =>
      dsimp only
      by_cases hshorter : prefixLengthOf r < prefixLengthOf q
      · rw [if_pos hshorter]
        exact ⟨_, rfl, .found (hbest.keep fun _ => .inl hshorter)⟩
      · rw [if_neg hshorter]
        by_cases hdearer : prefixLengthOf r = prefixLengthOf q ∧ q.2 < r.2
        · rw [if_pos hdearer]
          exact ⟨_, rfl, .found (hbest.keep fun _ => .inr ⟨hdearer.1, UInt32.le_of_lt hdearer.2⟩)⟩
        · rw [if_neg hdearer, if_neg h32]
          have hbeats : Beats r q := by
            rcases Nat.lt_or_ge (prefixLengthOf q) (prefixLengthOf r) with hlt | hge
            · exact .inl hlt
            · have heq : prefixLengthOf r = prefixLengthOf q := by omega
              exact .inr ⟨heq.symm, UInt32.not_lt.mp fun hlt => hdearer ⟨heq, hlt⟩⟩
          exact ⟨_, rfl, .found (.last hu fun q' hq' huq' =>
            hbeats.trans ((best_iff.mp hbest).2.2 q' hq' huq'))⟩
  · refine ⟨st, lookupFrom_unusable rest hu, ?_⟩
    cases h with
    | nothing hnone =>
      refine .nothing fun q hq => ?_
      rcases List.mem_append.mp hq with hq | hq
      · exact hnone q hq
      · exact List.mem_singleton.mp hq ▸ hu
    | found hbest => exact .found (hbest.keep fun h => absurd h hu)

theorem Scanned.front {front : NetworkRoutes} (rest : NetworkRoutes)
    (h : Scanned env dest oif routes st)
    (hhost : ∀ r ∈ front, ¬HostUsable env dest oif r) :
    ∃ st', lookupFrom env dest oif st (front ++ rest) = lookupFrom env dest oif st' rest ∧
      Scanned env dest oif (routes ++ front) st' := by
  induction front generalizing routes st with
  | nil => exact ⟨st, rfl, by rwa [List.append_nil]⟩
  | cons r front ih =>
    obtain ⟨st₁, heq, h₁⟩ := h.step (front ++ rest) (hhost r (.head _))
    obtain ⟨st', heq', h'⟩ := ih h₁ fun q hq => hhost q (.tail _ hq)
    refine ⟨st', heq.trans heq', ?_⟩
    rwa [List.append_assoc] at h'

/-- Without a host route the longest mask wins, then the smallest metric. -/
theorem lookup_of_none (hhost : ∀ r ∈ routes, ¬HostUsable env dest oif r) :
    LongestThenCheapest env dest oif routes (lookupFrom env dest oif {} routes).rtentry := by
  obtain ⟨st, heq, h⟩ := Scanned.front [] (.nothing fun q hq => absurd hq List.not_mem_nil) hhost
  rw [List.append_nil] at heq
  rw [heq, lookupFrom]
  cases h with
  | nothing hnone => exact hnone
  | found hbest => exact ⟨_, hbest, rfl⟩

/-- A usable host route ends the loop, whatever comes after it. -/
theorem lookup_of_host {front back : NetworkRoutes}
    (hfront : ∀ q ∈ front, ¬HostUsable env dest oif q) (hr : HostUsable env dest oif r) :
    (lookupFrom env dest oif {} (front ++ r :: back)).rtentry = some (routeVia env r.1) := by
  obtain ⟨st, heq, h⟩ := Scanned.front (r :: back)
    (.nothing fun q hq => absurd hq List.not_mem_nil) hfront
  rw [List.nil_append] at h
  have hless : st.longestMask < 32 := by
    cases h with
    | nothing _ => exact Nat.succ_pos 31
    | @found q hbest =>
      have hne : prefixLengthOf q ≠ 32 := fun h32 => hfront q hbest.mem ⟨hbest.usable, h32⟩
      exact Nat.lt_of_le_of_ne (Ipv4Mask.prefixLength_le _) hne
  obtain ⟨hu, h32⟩ := hr
  have hne : ¬(prefixLengthOf r = st.longestMask ∧ st.shortestMetric < r.2) :=
    fun h => absurd h.1 (by omega)
  rw [heq, lookupFrom_usable back hu, if_neg (by omega), if_neg hne, if_pos h32]

/-- The first entry for a host that can be used gives the route of one of least metric. -/
def FirstHostCheapest (env : StaticRoutingEnv δ) (dest : Ipv4Address) (oif : Option δ)
    (routes : NetworkRoutes) : Prop :=
  ∀ first, routes.find? (fun r => HostUsable env dest oif r) = some first →
    ∃ r ∈ routes, HostUsable env dest oif r ∧
      (∀ q ∈ routes, HostUsable env dest oif q → r.2 ≤ q.2) ∧
      routeVia env first.1 = routeVia env r.1

/-- **The lookup** returns a route of the longest prefix and then the least metric, for every table,
exactly if the first usable entry for a host is as cheap as any. -/
theorem lookupStatic_best_iff (env : StaticRoutingEnv δ) (calls : List RouteCall)
    (dest : Ipv4Address) (oif : Option δ) (hdest : dest.isLocalMulticast = false) :
    (∃ result, lookupStatic env (tableOf calls) dest oif = .ok result ∧
        LongestThenCheapest env dest oif (tableOf calls) result) ↔
      FirstHostCheapest env dest oif (tableOf calls) := by
  have hrun : lookupStatic env (tableOf calls) dest oif =
      .ok (lookupFrom env dest oif {} (tableOf calls)).rtentry := by
    rw [lookupStatic.eq_def, hdest]
    rfl
  have hresult : (∃ result, lookupStatic env (tableOf calls) dest oif = .ok result ∧
      LongestThenCheapest env dest oif (tableOf calls) result) ↔
      LongestThenCheapest env dest oif (tableOf calls)
        (lookupFrom env dest oif {} (tableOf calls)).rtentry := by
    rw [hrun]
    constructor
    · rintro ⟨result, heq, h⟩
      exact Except.ok.inj heq ▸ h
    · exact fun h => ⟨_, rfl, h⟩
  rw [hresult, FirstHostCheapest]
  cases hfind : (tableOf calls).find? fun r => HostUsable env dest oif r with
  | none =>
    have hhost : ∀ r ∈ tableOf calls, ¬HostUsable env dest oif r := fun r hr h =>
      List.find?_eq_none.mp hfind r hr (decide_eq_true h)
    exact iff_of_true (lookup_of_none hhost) nofun
  | some first =>
    obtain ⟨hfirst, front, back, htable, hfront⟩ := List.find?_eq_some_iff_append.mp hfind
    have hhost : HostUsable env dest oif first := of_decide_eq_true hfirst
    have hmem : first ∈ tableOf calls := List.mem_of_find?_eq_some hfind
    have hroute : (lookupFrom env dest oif {} (tableOf calls)).rtentry =
        some (routeVia env first.1) := by
      rw [htable]
      exact lookup_of_host (fun q hq h => by simpa [h] using hfront q hq) hhost
    rw [hroute]
    constructor
    · rintro ⟨r, hbest, heq⟩ first' hsame
      cases hsame
      have h32 : prefixLengthOf r = 32 := Nat.le_antisymm (Ipv4Mask.prefixLength_le _)
        (hhost.2 ▸ hbest.longest first hmem hhost.1)
      exact ⟨r, hbest.mem, ⟨hbest.usable, h32⟩, fun q hq hq' =>
        hbest.cheapest q hq hq'.1 (hq'.2.trans h32.symm), heq⟩
    · intro h
      obtain ⟨r, hr, ⟨hu, h32⟩, hleast, heq⟩ := h first rfl
      refine ⟨r, ⟨hr, hu, fun q _ _ => ?_, fun q hq huq hsame => ?_⟩, heq⟩
      · rw [h32]
        exact Ipv4Mask.prefixLength_le _
      · exact hleast q hq ⟨huq, hsame.trans h32⟩

end

def plainEnv : StaticRoutingEnv Nat where
  getNetDevice i := i
  sourceAddressSelection i _ := 0x0a000000 + i
  localAddress device := 0x0a000000 + device

/-- Two routes to the host 10.1.1.1, the cheaper one first, and one to its network. -/
theorem lookupStatic_best_cheaperFirst :
    ∃ result, lookupStatic plainEnv (tableOf [.addHostRouteTo 0x0a010101 none 2 1,
        .addHostRouteTo 0x0a010101 none 1 5,
        .addNetworkRouteTo 0x0a010100 0xffffff00 none 3 0]) 0x0a010101 none = .ok result ∧
      LongestThenCheapest plainEnv 0x0a010101 none (tableOf [.addHostRouteTo 0x0a010101 none 2 1,
        .addHostRouteTo 0x0a010101 none 1 5,
        .addNetworkRouteTo 0x0a010100 0xffffff00 none 3 0]) result := by
  refine (lookupStatic_best_iff plainEnv _ 0x0a010101 none (by decide)).mpr fun first hfirst => ?_
  obtain rfl : first = (⟨0x0a010101, Ipv4Mask.ones, 0, 2⟩, 1) :=
    Option.some.inj (hfirst.symm.trans (by decide))
  exact ⟨_, List.mem_of_find?_eq_some hfirst, by decide, by decide, rfl⟩

/-- The route to the host with metric 5 was added first, and hides the one with metric 1. -/
theorem lookupStatic_dearer :
    lookupStatic plainEnv (tableOf [.addHostRouteTo 0x0a010101 none 1 5,
        .addHostRouteTo 0x0a010101 none 2 1]) 0x0a010101 none =
        .ok (some ⟨0x0a010101, 0x0a000001, 0, 1⟩) ∧
      ¬LongestThenCheapest plainEnv 0x0a010101 none (tableOf [.addHostRouteTo 0x0a010101 none 1 5,
        .addHostRouteTo 0x0a010101 none 2 1]) (some ⟨0x0a010101, 0x0a000001, 0, 1⟩) := by
  have htable : tableOf [.addHostRouteTo 0x0a010101 none 1 5, .addHostRouteTo 0x0a010101 none 2 1] =
      [(⟨0x0a010101, Ipv4Mask.ones, 0, 1⟩, 5), (⟨0x0a010101, Ipv4Mask.ones, 0, 2⟩, 1)] := by decide
  rw [htable]
  refine ⟨by decide, ?_⟩
  rintro ⟨r, hbest, heq⟩
  have hsecond : (⟨⟨0x0a010101, Ipv4Mask.ones, 0, 2⟩, 1⟩ : Ipv4RoutingTableEntry × UInt32) ∈
      [((⟨0x0a010101, Ipv4Mask.ones, 0, 1⟩ : Ipv4RoutingTableEntry), (5 : UInt32)),
        (⟨0x0a010101, Ipv4Mask.ones, 0, 2⟩, 1)] := by decide
  have hmem := hbest.mem
  rcases List.mem_cons.mp hmem with rfl | hmem
  · have hle := hbest.cheapest _ hsecond (by decide) (by decide)
    exact absurd hle (by decide)
  · obtain rfl := List.mem_singleton.mp hmem
    exact absurd heq (by decide)

end Ipv4StaticRouting

end Ns3
