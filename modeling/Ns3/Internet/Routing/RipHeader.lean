/-
  RIP messages (src/internet/model/rip-header.cc), and how
  a router puts its routes into them (src/internet/model/rip.cc).

  The number of entries is not in the message: the reader takes it from the size of what is
  left, and keeps it in eight bits.  The sender counts in sixteen, up to what the MTU allows.
-/
import Ns3.Network.BufferIterator

namespace Ns3

namespace Rip

open BufferIterator

/-! ## Entries -/

/-- A routing table entry of a message. -/
structure RipRte where
  tag : UInt16 := 0
  rtePrefix : UInt32 := 0x7f000001
  subnetMask : UInt32 := 0
  nextHop : UInt32 := 0
  metric : UInt32 := 16
  deriving DecidableEq, Repr

namespace RipRte

def serializedSize : Nat := 20

def serialize (rte : RipRte) : List UInt8 :=
  writeHtonU16 2 ++ writeHtonU16 rte.tag ++ writeHtonU32 rte.rtePrefix ++
    writeHtonU32 rte.subnetMask ++ writeHtonU32 rte.nextHop ++ writeHtonU32 rte.metric

/-- `Deserialize`: the entry, and the size that is returned. -/
def deserialize (rte : RipRte) (i : List UInt8) : Except Fault (RipRte × Nat) := do
  let (tmp, i) ← readNtohU16 i
  if tmp ≠ 2 then pure (rte, 0)
  else
    let (tag, i) ← readNtohU16 i
    let (rtePrefix, i) ← readNtohU32 i
    let (subnetMask, i) ← readNtohU32 i
    let (nextHop, i) ← readNtohU32 i
    let (metric, _) ← readNtohU32 i
    pure ({ tag, rtePrefix, subnetMask, nextHop, metric }, serializedSize)

@[simp] theorem length_serialize (rte : RipRte) : rte.serialize.length = 20 := by
  simp [serialize]

theorem deserialize_serialize (rte fresh : RipRte) (rest : List UInt8) :
    fresh.deserialize (rte.serialize ++ rest) = .ok (rte, 20) := by
  simp only [deserialize, serialize, List.append_assoc, readNtohU16_write, readNtohU32_write,
    ok_bind, ne_eq, not_true_eq_false, if_false]
  rfl

end RipRte

/-! ## Messages -/

def REQUEST : UInt8 := 1

def RESPONSE : UInt8 := 2

structure RipHeader where
  command : UInt8 := 0
  rteList : List RipRte := []
  deriving DecidableEq, Repr

namespace RipHeader

def serializedSize (h : RipHeader) : Nat := (4 + h.rteList.length * RipRte.serializedSize) % 2 ^ 32

def rteNumber (h : RipHeader) : UInt16 := UInt16.ofNat h.rteList.length

def addRte (h : RipHeader) (rte : RipRte) : RipHeader := { h with rteList := h.rteList ++ [rte] }

def clearRtes (h : RipHeader) : RipHeader := { h with rteList := [] }

def serialize (h : RipHeader) : List UInt8 :=
  [h.command, 2, 0, 0] ++ h.rteList.flatMap RipRte.serialize

/-- The loop of `Deserialize`, over the entries that are still to be read. -/
def readRtes : Nat → List RipRte → List UInt8 → Except Fault (List RipRte)
  | 0, rteList, _ => pure rteList
  | n + 1, rteList, i => do
      let (rte, size) ← ({} : RipRte).deserialize i
      let i ← next i size
      readRtes n (rteList ++ [rte]) i

def deserialize (h : RipHeader) (start : List UInt8) : Except Fault (RipHeader × Nat) := do
  let (temp, i) ← readU8 start
  if temp = REQUEST ∨ temp = RESPONSE then
    let h := { h with command := temp }
    let (version, i) ← readU8 i
    if version ≠ 2 then pure (h, 0)
    else
      let (flags, i) ← readU16 i
      if flags ≠ 0 then pure (h, 0)
      else
        let rteNumber := UInt8.ofNat (i.length / 20)
        let rteList ← readRtes rteNumber.toNat h.rteList i
        let h := { h with rteList }
        pure (h, h.serializedSize)
  else pure (h, 0)

/-- A message is read back into a fresh header, as many bytes as were written. -/
def RoundTrips (h : RipHeader) : Prop :=
  ({} : RipHeader).deserialize h.serialize = .ok (h, h.serialize.length)

section

variable {h : RipHeader}

theorem length_serialize_rtes (rtes : List RipRte) :
    (rtes.flatMap RipRte.serialize).length = rtes.length * 20 := by
  induction rtes with
  | nil => rfl
  | cons rte rtes ih =>
    rw [List.flatMap_cons, List.length_append, RipRte.length_serialize, ih, List.length_cons,
      Nat.succ_mul, Nat.add_comm]

@[simp] theorem length_serialize (h : RipHeader) :
    h.serialize.length = 4 + h.rteList.length * 20 := by
  rw [serialize, List.length_append, length_serialize_rtes]
  rfl

theorem readRtes_write (n : Nat) (rtes done : List RipRte) (hn : n ≤ rtes.length) :
    readRtes n done (rtes.flatMap RipRte.serialize) = .ok (done ++ rtes.take n) := by
  induction n generalizing rtes done with
  | zero =>
    rw [List.take_zero, List.append_nil]
    rfl
  | succ n ih =>
    cases rtes with
    | nil => cases hn
    | cons rte rtes =>
      rw [List.flatMap_cons, readRtes, RipRte.deserialize_serialize, ok_bind]
      dsimp only
      rw [next_append (RipRte.length_serialize rte), ok_bind,
        ih rtes _ (Nat.le_of_succ_le_succ hn), List.take_succ_cons, List.append_assoc]
      rfl

section

variable (hcommand : h.command = REQUEST ∨ h.command = RESPONSE)

include hcommand

theorem deserialize_serialize :
    ({} : RipHeader).deserialize h.serialize =
      .ok (⟨h.command, h.rteList.take (h.rteList.length % 2 ^ 8)⟩,
        4 + h.rteList.length % 2 ^ 8 * 20) := by
  have hcount : (UInt8.ofNat ((h.rteList.flatMap RipRte.serialize).length / 20)).toNat =
      h.rteList.length % 2 ^ 8 := by
    rw [length_serialize_rtes, Nat.mul_div_cancel _ (Nat.succ_pos 19), UInt8.toNat_ofNat']
  have hle : h.rteList.length % 2 ^ 8 ≤ h.rteList.length := Nat.mod_le _ _
  have hflags : readU16 (0 :: 0 :: h.rteList.flatMap RipRte.serialize) =
      .ok (0, h.rteList.flatMap RipRte.serialize) := rfl
  have hsize : serializedSize ⟨h.command, h.rteList.take (h.rteList.length % 2 ^ 8)⟩ =
      4 + h.rteList.length % 2 ^ 8 * 20 := by
    rw [serializedSize, RipRte.serializedSize]
    dsimp only
    rw [List.length_take, Nat.min_eq_left hle]
    omega
  have hbytes : h.serialize = h.command :: 2 :: 0 :: 0 :: h.rteList.flatMap RipRte.serialize := rfl
  rw [deserialize, hbytes, readU8_cons, ok_bind]
  dsimp only
  rw [if_pos hcommand, readU8_cons, ok_bind]
  dsimp only
  rw [if_neg (not_not.mpr rfl), hflags, ok_bind]
  dsimp only
  rw [hcount, if_neg (not_not.mpr rfl), readRtes_write _ _ _ hle, ok_bind, List.nil_append, hsize]
  rfl

/-- The count of entries fits its byte. -/
theorem roundTrips_of_le (hle : h.rteList.length ≤ 255) : h.RoundTrips := by
  have hmod : h.rteList.length % 2 ^ 8 = h.rteList.length :=
    Nat.mod_eq_of_lt (Nat.lt_succ_of_le hle)
  rw [RoundTrips, deserialize_serialize hcommand, length_serialize, hmod, List.take_length]

theorem not_roundTrips (hlt : 255 < h.rteList.length) : ¬h.RoundTrips := by
  rw [RoundTrips, deserialize_serialize hcommand, length_serialize]
  intro heq
  have hlen := congrArg Prod.snd (Except.ok.inj heq)
  dsimp only at hlen
  omega

end

/-- **A message is read back** exactly if it has no more than 255 entries. -/
theorem round_trip_iff (h : RipHeader) (hcommand : h.command = REQUEST ∨ h.command = RESPONSE) :
    h.RoundTrips ↔ h.rteList.length ≤ 255 := by
  refine ⟨fun hround => ?_, roundTrips_of_le hcommand⟩
  by_contra hlt
  exact not_roundTrips hcommand (Nat.lt_of_not_le hlt) hround

/-- A request for two routes. -/
theorem round_trip_request :
    RoundTrips ⟨REQUEST, [{ rtePrefix := 0x0a010000 }, { rtePrefix := 0x0a020000, tag := 7 }]⟩ :=
  (round_trip_iff _ (.inl rfl)).mpr (by decide)

end

end RipHeader

/-! ## What a router sends -/

inductive SplitHorizonType where
  | noSplitHorizon
  | splitHorizon
  | poisonReverse
  deriving DecidableEq, Repr

/-- `RipRoutingTableEntry::Status_e`. -/
inductive RouteStatus where
  | ripValid
  | ripInvalid
  deriving DecidableEq, Repr

structure RipRoutingTableEntry where
  destNetwork : UInt32
  destNetworkMask : UInt32
  interface : Nat
  routeTag : UInt16
  routeMetric : UInt8
  routeStatus : RouteStatus
  routeChanged : Bool
  deriving DecidableEq, Repr

/-- An interface that messages are sent on: its index, MTU, and addresses with their masks. -/
structure RipInterface where
  index : Nat
  mtu : UInt16
  addresses : List (UInt32 × UInt32)
  deriving DecidableEq, Repr

/-- `maxRte`: the headers are subtracted in 32 bits. -/
def maxRte (mtu : UInt16) : UInt16 := ((mtu.toUInt32 - 20 - 8 - 4) / 20).toUInt16

namespace RipRoutingTableEntry

variable (route : RipRoutingTableEntry)

/-- `isGlobal`: only the loopback address has another scope. -/
def isGlobal : Bool := route.destNetwork ≠ 0x7f000001

def isDefaultRoute (interface : Nat) : Bool :=
  route.destNetwork = 0 ∧ route.destNetworkMask = 0 ∧ route.interface ≠ interface

def sameNetwork (interface : RipInterface) : Bool :=
  interface.addresses.any fun addr => addr.1 &&& addr.2 = route.destNetwork

end RipRoutingTableEntry

end Rip

structure Rip where
  splitHorizonStrategy : Rip.SplitHorizonType
  linkDown : UInt32
  routes : List Rip.RipRoutingTableEntry
  deriving DecidableEq, Repr

namespace Rip

section

variable (rip : Rip)

def rteFor (interface : RipInterface) (route : RipRoutingTableEntry) : Option RipRte :=
  let splitHorizoning : Bool := route.interface = interface.index
  let rte : RipRte :=
    { rtePrefix := route.destNetwork
      subnetMask := route.destNetworkMask
      metric := if rip.splitHorizonStrategy = .poisonReverse ∧ splitHorizoning then rip.linkDown
        else route.routeMetric.toUInt32
      tag := route.routeTag }
  if (rip.splitHorizonStrategy = .splitHorizon ∧ !splitHorizoning) ∨
      rip.splitHorizonStrategy ≠ .splitHorizon then some rte
  else none

def updateRte (interface : RipInterface) (periodic : Bool) (route : RipRoutingTableEntry) :
    Option RipRte :=
  if (route.isGlobal ∨ route.isDefaultRoute interface.index) ∧ (periodic ∨ route.routeChanged) ∧
      !route.sameNetwork interface then rip.rteFor interface route
  else none

/-- The loop over the routes: the messages that are sent.  What `RemoveHeader`
reads back is cleared. -/
def packRtes (maxRte : UInt16) : RipHeader → List (Option RipRte) → List RipHeader
  | hdr, [] => if hdr.rteNumber > 0 then [hdr] else []
  | hdr, rte :: rest =>
    let hdr := rte.elim hdr hdr.addRte
    if hdr.rteNumber = maxRte then hdr :: packRtes maxRte hdr.clearRtes rest
    else packRtes maxRte hdr rest

def doSendRouteUpdate (interface : RipInterface) (periodic : Bool) : List RipHeader :=
  packRtes (maxRte interface.mtu) { command := RESPONSE }
    (rip.routes.map (rip.updateRte interface periodic))

end

section

variable {max : UInt16} {hdr msg : RipHeader} {rtes : List (Option RipRte)}

theorem packRtes_fill {entries : List RipRte} (hne : entries ≠ [])
    (hfill : hdr.rteList.length + entries.length = max.toNat) :
    packRtes max hdr (entries.map some) = [⟨hdr.command, hdr.rteList ++ entries⟩] := by
  induction entries generalizing hdr with
  | nil => exact absurd rfl hne
  | cons rte entries ih =>
    have hmax : max.toNat < 2 ^ 16 := max.toNat_lt
    have hlen : (hdr.addRte rte).rteList.length = hdr.rteList.length + 1 := by
      rw [RipHeader.addRte, List.length_append, List.length_singleton]
    rw [List.length_cons] at hfill
    have hnumber : (hdr.addRte rte).rteNumber.toNat = hdr.rteList.length + 1 := by
      rw [RipHeader.rteNumber, hlen, UInt16.toNat_ofNat', Nat.mod_eq_of_lt (by omega)]
    have hfull : (hdr.addRte rte).rteNumber = max ↔ hdr.rteList.length + 1 = max.toNat := by
      rw [← UInt16.toNat_inj, hnumber]
    rw [List.map_cons, packRtes, Option.elim_some]
    cases entries with
    | nil =>
      rw [if_pos (hfull.mpr hfill), List.map_nil, packRtes]
      rfl
    | cons rte' entries =>
      have hmore : ¬hdr.rteList.length + 1 = max.toNat := by
        rw [List.length_cons] at hfill
        omega
      have hfill' : (hdr.addRte rte).rteList.length + (rte' :: entries).length = max.toNat := by
        omega
      rw [if_neg fun h => hmore (hfull.mp h), ih (List.cons_ne_nil _ _) hfill',
        RipHeader.addRte, List.append_assoc]
      rfl

end

def sampleRoute : RipRoutingTableEntry where
  destNetwork := 0x0a010000
  destNetworkMask := 0xffff0000
  interface := 2
  routeTag := 0
  routeMetric := 1
  routeStatus := .ripValid
  routeChanged := true

/-- An interface with an MTU that leaves room for 256 entries. -/
def largeInterface : RipInterface where
  index := 1
  mtu := 5152
  addresses := [(0x0a000001, 0xffffff00)]

/-- The periodic update of a router with 256 such routes is one message, which is read back as an
empty one. -/
theorem update_read_empty : ∃ msg : RipHeader,
    doSendRouteUpdate ⟨.poisonReverse, 16, List.replicate 256 sampleRoute⟩ largeInterface true =
        [msg] ∧
      (msg.command = RESPONSE ∧ msg.rteList.length = 256) ∧
      ({} : RipHeader).deserialize msg.serialize = .ok (⟨RESPONSE, []⟩, 4) ∧ ¬msg.RoundTrips := by
  have hrte : ∀ rip : Rip, rip.splitHorizonStrategy = .poisonReverse →
      ∃ rte, rip.updateRte largeInterface true sampleRoute = some rte := by
    rintro ⟨_, linkDown, routes⟩ rfl
    exact ⟨_, rfl⟩
  obtain ⟨rte, hrte⟩ := hrte ⟨.poisonReverse, 16, List.replicate 256 sampleRoute⟩ rfl
  have hfill : packRtes (maxRte largeInterface.mtu) { command := RESPONSE }
      ((List.replicate 256 rte).map some) = [⟨RESPONSE, List.replicate 256 rte⟩] :=
    packRtes_fill (List.ne_nil_of_length_pos (by rw [List.length_replicate]; decide))
      (by rw [List.length_replicate]; rfl)
  refine ⟨⟨RESPONSE, List.replicate 256 rte⟩, ?_, ⟨rfl, List.length_replicate⟩, ?_, ?_⟩
  · rw [doSendRouteUpdate, List.map_replicate, hrte, ← List.map_replicate, hfill]
  · rw [RipHeader.deserialize_serialize (.inr rfl), List.length_replicate]
    rfl
  · refine RipHeader.not_roundTrips (.inr rfl) ?_
    rw [List.length_replicate]
    decide

section

variable {max : UInt16} {hdr : RipHeader} {rtes : List (Option RipRte)}

/-- The messages hold the entries, in order, and none is empty or longer than `max`. -/
structure Packs (max : Nat) (entries : List RipRte) (msgs : List RipHeader) : Prop where
  rteList : msgs.flatMap RipHeader.rteList = entries
  ok : ∀ msg ∈ msgs, msg.command = RESPONSE ∧ msg.rteList ≠ [] ∧ msg.rteList.length ≤ max

theorem rteNumber_eq_iff {n : UInt16} (hle : hdr.rteList.length ≤ max.toNat) :
    hdr.rteNumber = n ↔ hdr.rteList.length = n.toNat := by
  have hmax : max.toNat < 2 ^ 16 := max.toNat_lt
  rw [← UInt16.toNat_inj, RipHeader.rteNumber, UInt16.toNat_ofNat', Nat.mod_eq_of_lt (by omega)]

/-- The induction is on the routes; the header that is filled has room for an entry. -/
theorem packRtes_packs (hcommand : hdr.command = RESPONSE)
    (hlt : hdr.rteList.length < max.toNat) :
    Packs max.toNat (hdr.rteList ++ rtes.filterMap id) (packRtes max hdr rtes) := by
  induction rtes generalizing hdr with
  | nil =>
    have hzero := rteNumber_eq_iff (n := 0) hlt.le
    rw [packRtes, List.filterMap_nil, List.append_nil]
    split
    · next hpos =>
      refine ⟨List.flatMap_singleton _ _, List.forall_mem_singleton.mpr ⟨hcommand, ?_, hlt.le⟩⟩
      rintro hnil
      rw [hzero.mpr (by rw [hnil]; rfl)] at hpos
      exact absurd hpos (by decide)
    · next hpos =>
      have hnil : hdr.rteNumber = 0 := by
        rw [← UInt16.toNat_inj]
        exact Nat.eq_zero_of_not_pos hpos
      exact ⟨(List.eq_nil_of_length_eq_zero (hzero.mp hnil)).symm, nofun⟩
  | cons rte rest ih =>
    cases rte with
    | none =>
      rw [packRtes, Option.elim_none, if_neg fun h => hlt.ne ((rteNumber_eq_iff hlt.le).mp h)]
      exact ih hcommand hlt
    | some rte =>
      have hlen : (hdr.addRte rte).rteList.length = hdr.rteList.length + 1 := List.length_append
      have hfull : (hdr.addRte rte).rteNumber = max ↔ _ := rteNumber_eq_iff (hlen.trans_le hlt)
      rw [packRtes, Option.elim_some, List.filterMap_cons_some (f := id) rfl, List.append_cons]
      split
      · next hmax =>
        obtain ⟨hrest, hok⟩ : Packs _ _ (packRtes max (hdr.addRte rte).clearRtes rest) :=
          ih hcommand (Nat.zero_lt_of_lt hlt)
        refine ⟨?_, List.forall_mem_cons.mpr ⟨⟨hcommand, ?_, (hfull.mp hmax).le⟩, hok⟩⟩
        · rw [List.flatMap_cons, hrest]
          rfl
        · exact List.ne_nil_of_length_pos (hlen.symm ▸ Nat.succ_pos _)
      · next hmax =>
        have hroom : (hdr.addRte rte).rteList.length < max.toNat :=
          lt_of_le_of_ne (hlen.trans_le hlt) fun h => hmax (hfull.mpr h)
        exact @ih (hdr.addRte rte) hcommand hroom

/-- **A route update is complete.** With an MTU for 1 to 255 entries each route that is to be sent
is in one message, in order; no message is empty or exceeds the MTU, and each is read back, so that
`RemoveHeader` leaves nothing of it. -/
theorem update_complete (rip : Rip) (interface : RipInterface) (periodic : Bool)
    (hmtu : 52 ≤ interface.mtu.toNat ∧ interface.mtu.toNat < 5152) :
    (rip.doSendRouteUpdate interface periodic).flatMap RipHeader.rteList =
        rip.routes.filterMap (rip.updateRte interface periodic) ∧
      ∀ msg ∈ rip.doSendRouteUpdate interface periodic, msg.rteList ≠ [] ∧
        28 + msg.serializedSize ≤ interface.mtu.toNat ∧ msg.RoundTrips := by
  obtain ⟨hmin, hmax'⟩ := hmtu
  have hmax : (maxRte interface.mtu).toNat = (interface.mtu.toNat - 32) / 20 := by
    rw [maxRte, UInt32.toNat_toUInt16, UInt32.toNat_div, UInt32.toNat_sub, UInt32.toNat_sub,
      UInt32.toNat_sub, UInt16.toNat_toUInt32]
    change (2 ^ 32 - 4 + (2 ^ 32 - 8 + (2 ^ 32 - 20 + interface.mtu.toNat) % 2 ^ 32) % 2 ^ 32) %
      2 ^ 32 / 20 % 2 ^ 16 = _
    omega
  have hroom : ([] : List RipRte).length < (maxRte interface.mtu).toNat := by
    rw [hmax, List.length_nil]
    omega
  obtain ⟨hrtes, hok⟩ : Packs _ _ (rip.doSendRouteUpdate interface periodic) :=
    packRtes_packs rfl hroom
  refine ⟨hrtes.trans ?_, fun msg hmsg => ?_⟩
  · rw [List.nil_append, List.filterMap_map]
    rfl
  · obtain ⟨hcommand, hne, hle⟩ := hok msg hmsg
    rw [hmax] at hle
    refine ⟨hne, ?_, RipHeader.roundTrips_of_le (.inr hcommand) (by omega)⟩
    rw [RipHeader.serializedSize, RipRte.serializedSize]
    omega

/-- An interface whose messages hold one entry. -/
def smallInterface : RipInterface := { largeInterface with mtu := 52 }

/-- Two routes are sent in two messages. -/
theorem update_complete_small :
    (doSendRouteUpdate ⟨.poisonReverse, 16, [sampleRoute, sampleRoute]⟩ smallInterface
      true).map (·.rteList.length) = [1, 1] ∧
    ∀ msg ∈ doSendRouteUpdate ⟨.poisonReverse, 16, [sampleRoute, sampleRoute]⟩ smallInterface true,
      28 + msg.serializedSize ≤ 52 ∧ msg.RoundTrips := by
  refine ⟨by decide, fun msg hmsg => ?_⟩
  exact ((update_complete ⟨.poisonReverse, 16, [sampleRoute, sampleRoute]⟩ smallInterface true
    (by decide)).2 msg hmsg).2

end

end Rip

end Ns3
