/-
  The entries of an ARP cache (ArpCache and ArpCache::Entry,
  src/internet/model/arp-cache.cc).

  All entries share one wait-reply timer, of which the cache keeps when it expires.  `P` is a
  packet together with its IPv4 header.

  ArpL3Protocol (src/internet/model/arp-l3-protocol.cc), ArpCache::HandleWaitReplyTimeout and
  Ipv4Interface::Send.

  The node keeps what its calls have had as an effect: the packets that were looked up, those
  that went to the device, those reported as dropped, and the ARP messages it was to send.
-/
import Ns3.Core.Fault
import Ns3.Lib.Custody
import Ns3.Network.Ipv4Address

namespace Ns3

open Lib

/-- A hardware address: its type and its bytes. -/
structure Address where
  type : UInt8
  data : List UInt8
  deriving DecidableEq, Repr, Inhabited

def Address.invalid : Address := ⟨0, []⟩

def Address.isInvalid (a : Address) : Bool := a.data.length = 0 && a.type = 0

namespace Arp

/-- The attributes of an `ArpCache`.  A timeout is not negative. -/
structure CacheConfig where
  aliveTimeout : Time
  deadTimeout : Time
  waitReplyTimeout : Time
  maxRetries : UInt32
  pendingQueueSize : UInt32
  aliveTimeout_nonneg : 0 ≤ aliveTimeout
  waitReplyTimeout_nonneg : 0 ≤ waitReplyTimeout

/-- `ArpCache::Entry::ArpCacheEntryState_e`. -/
inductive EntryState where
  | alive
  | waitReply
  | dead
  | permanent
  | staticAutogenerated
  deriving DecidableEq, Repr

/-- `ArpCache::Entry`, with the packets that wait for its address. -/
structure Entry (P : Type) where
  state : EntryState
  lastSeen : Time
  macAddress : Address
  ipv4Address : Ipv4Address
  pending : List P
  retries : UInt32
  deriving DecidableEq, Repr

variable {P : Type}

namespace Entry

def new (addr : Ipv4Address) : Entry P :=
  { state := .alive
    lastSeen := 0
    macAddress := .invalid
    ipv4Address := addr
    pending := []
    retries := 0 }

def updateSeen (e : Entry P) (now : Time) : Entry P := { e with lastSeen := now }

def clearRetries (e : Entry P) : Entry P := { e with retries := 0 }

def incrementRetries (e : Entry P) (now : Time) : Entry P :=
  { e with retries := e.retries + 1 }.updateSeen now

def markDead (e : Entry P) (now : Time) : Except Fault (Entry P) := do
  nsAssert (e.state = .alive || e.state = .waitReply || e.state = .dead)
  pure ({ e with state := .dead }.clearRetries.updateSeen now)

def markAlive (e : Entry P) (now : Time) (macAddress : Address) : Except Fault (Entry P) := do
  nsAssert (e.state = .waitReply)
  pure ({ e with macAddress, state := .alive }.clearRetries.updateSeen now)

def markPermanent (e : Entry P) (now : Time) : Except Fault (Entry P) := do
  nsAssert (!e.macAddress.isInvalid)
  pure ({ e with state := .permanent }.clearRetries.updateSeen now)

def markAutoGenerated (e : Entry P) (now : Time) : Except Fault (Entry P) := do
  nsAssert (!e.macAddress.isInvalid)
  pure ({ e with state := .staticAutogenerated }.clearRetries.updateSeen now)

def setMacAddress (e : Entry P) (macAddress : Address) : Entry P :=
  { e with macAddress }

/-- The entry with the packet queued, and whether there was room for it. -/
def updateWaitReply (e : Entry P) (c : CacheConfig) (waiting : P) :
    Except Fault (Entry P × Bool) := do
  nsAssert (e.state = .waitReply)
  if c.pendingQueueSize.toNat ≤ e.pending.length then
    pure (e, false)
  else
    pure ({ e with pending := e.pending ++ [waiting] }, true)

/-- `MarkWaitReply`: the packet is the first that waits. -/
def markWaitReply (e : Entry P) (now : Time) (waiting : P) : Except Fault (Entry P) := do
  nsAssert (e.state = .alive || e.state = .dead)
  nsAssert e.pending.isEmpty
  pure ({ e with state := .waitReply, pending := e.pending ++ [waiting] }.updateSeen now)

def getTimeout (e : Entry P) (c : CacheConfig) : Time :=
  match e.state with
  | .waitReply => c.waitReplyTimeout
  | .dead => c.deadTimeout
  | .alive => c.aliveTimeout
  | .permanent => Time.max
  | .staticAutogenerated => Time.max

/-- `IsExpired`: longer unseen than the timeout of its state. -/
def isExpired (e : Entry P) (c : CacheConfig) (now : Time) : Bool :=
  let delta := now - e.lastSeen
  delta > e.getTimeout c

end Entry

/-- An `ArpCache`: its entries by address, and when the wait-reply timer expires, while it is
pending. -/
structure ArpCache (P : Type) where
  entries : SortedMap (Entry P)
  waitReplyTimer : Option Time

namespace ArpCache

def new : ArpCache P := ⟨.empty, none⟩

def lookup (cache : ArpCache P) (addr : Ipv4Address) : Option (Entry P) := cache.entries.find? addr

def set (cache : ArpCache P) (addr : Ipv4Address) (e : Entry P) : ArpCache P :=
  { cache with entries := cache.entries.insert addr e }

def startWaitReplyTimer (cache : ArpCache P) (c : CacheConfig) (now : Time) : ArpCache P :=
  if cache.waitReplyTimer.isSome then cache
  else { cache with waitReplyTimer := some (now + c.waitReplyTimeout) }

end ArpCache

end Arp

/-! ## Resolution of addresses over one device -/

namespace Arp

/-- A received ARP message (ArpHeader).  `Deserialize` ends with the assertions of
`GetSerializedSize` on the lengths of its hardware addresses. -/
structure ArpHeader where
  type : UInt16
  sourceHardwareAddress : Address
  sourceIpv4Address : Ipv4Address
  destinationHardwareAddress : Address
  destinationIpv4Address : Ipv4Address
  source_length : sourceHardwareAddress.data.length ∈ [6, 8, 1]
  length_eq : sourceHardwareAddress.data.length = destinationHardwareAddress.data.length
  deriving DecidableEq, Repr

def ArpHeader.isRequest (arp : ArpHeader) : Bool := arp.type = 1

def ArpHeader.isReply (arp : ArpHeader) : Bool := arp.type = 2

/-- The cache's attributes, and the interface and the device it belongs to. -/
structure NodeConfig extends CacheConfig where
  deviceAddress : Address
  addresses : List Ipv4Address
  /-- the hardware address of a destination that `Ipv4Interface::Send` does not look up: an
  address of its own, a broadcast or a multicast address -/
  linkAddress : Ipv4Address → Option Address
  linkAddress_valid : ∀ dest address, linkAddress dest = some address → address.isInvalid = false

/-- An ARP message that the node sends. -/
inductive ArpMessage where
  | request (addr : Ipv4Address)
  | reply (myIp toIp : Ipv4Address) (toMac : Address)
  deriving DecidableEq, Repr

variable {P : Type}

/-- The ARP of a node, with one cache. -/
structure ArpL3Protocol (P : Type) where
  now : Time
  cache : ArpCache P
  looked : List P
  /-- the packets given to the device, and the hardware address they go to -/
  sent : List (P × Address)
  /-- the packets reported on a drop trace -/
  dropped : List P
  messages : List ArpMessage
  /-- the replies reported on the drop trace -/
  droppedReplies : List ArpHeader

namespace ArpL3Protocol

def new : ArpL3Protocol P :=
  { now := 0
    cache := .new
    looked := []
    sent := []
    dropped := []
    messages := []
    droppedReplies := [] }

def setEntry (n : ArpL3Protocol P) (addr : Ipv4Address) (e : Entry P) : ArpL3Protocol P :=
  { n with cache := n.cache.set addr e }

def dropTrace (n : ArpL3Protocol P) (packet : P) : ArpL3Protocol P :=
  { n with dropped := n.dropped ++ [packet] }

def sendArpRequest (n : ArpL3Protocol P) (addr : Ipv4Address) : ArpL3Protocol P :=
  { n with messages := n.messages ++ [.request addr] }

def sendArpReply (n : ArpL3Protocol P) (myIp toIp : Ipv4Address) (toMac : Address) :
    ArpL3Protocol P :=
  { n with messages := n.messages ++ [.reply myIp toIp toMac] }

def sendTo (n : ArpL3Protocol P) (packet : P) (hardwareDestination : Address) :
    ArpL3Protocol P :=
  { n with sent := n.sent ++ [(packet, hardwareDestination)] }

def waitReply (c : NodeConfig) (n : ArpL3Protocol P) (entry : Entry P) (packet : P)
    (destination : Ipv4Address) : Except Fault (ArpL3Protocol P) := do
  let entry ← entry.markWaitReply n.now packet
  let cache := (n.cache.set destination entry).startWaitReplyTimer c.toCacheConfig n.now
  pure ({ n with cache }.sendArpRequest destination)

/-- `ArpL3Protocol::Lookup`: the hardware address, if there is one. -/
def lookup (c : NodeConfig) (n : ArpL3Protocol P) (packet : P) (destination : Ipv4Address) :
    Except Fault (ArpL3Protocol P × Option Address) := do
  match n.cache.lookup destination with
  | some entry =>
    if entry.isExpired c.toCacheConfig n.now then
      if entry.state = .dead then
        let n ← waitReply c n entry packet destination
        pure (n, none)
      else if entry.state = .alive then
        let n ← waitReply c n entry packet destination
        pure (n, none)
      else .error .fatalError
    else if entry.state = .dead then pure (n.dropTrace packet, none)
    else if entry.state = .alive then pure (n, some entry.macAddress)
    else if entry.state = .waitReply then
      let (entry, queued) ← entry.updateWaitReply c.toCacheConfig packet
      let n := n.setEntry destination entry
      pure (if queued then n else n.dropTrace packet, none)
    else pure (n, some entry.macAddress)
  | none =>
    let n ← waitReply c n (.new destination) packet destination
    pure (n, none)

/-- `ArpIpv4Interface::Send`: to an address that needs no lookup, or after one. -/
def interfaceSend (c : NodeConfig) (n : ArpL3Protocol P) (packet : P) (dest : Ipv4Address) :
    Except Fault (ArpL3Protocol P) :=
  match c.linkAddress dest with
  | some hardwareDestination => .ok (n.sendTo packet hardwareDestination)
  | none => do
      let (n, found) ← lookup c n packet dest
      match found with
      | some hardwareDestination => pure (n.sendTo packet hardwareDestination)
      | none => pure n

/-- The loop of `Receive` that sends what an entry has pending.  `fuel` bounds the rounds. -/
def flushLoop (c : NodeConfig) (source : Ipv4Address) :
    Nat → ArpL3Protocol P → Except Fault (ArpL3Protocol P)
  | fuel, n =>
    match n.cache.lookup source with
    | none => .error .nullDereference
    | some entry =>
      match entry.pending, fuel with
      | [], _ => .ok n
      | _ :: _, 0 => .error .noProgress
      | packet :: rest, fuel + 1 => do
          let n ← interfaceSend c (n.setEntry source { entry with pending := rest }) packet source
          flushLoop c source fuel n

/-- A reply sends what waits for it. -/
def receiveReply (c : NodeConfig) (n : ArpL3Protocol P) (arp : ArpHeader) :
    Except Fault (ArpL3Protocol P) :=
  match n.cache.lookup arp.sourceIpv4Address with
  | some entry =>
    if entry.state = .waitReply then do
      let entry ← entry.markAlive n.now arp.sourceHardwareAddress
      flushLoop c arp.sourceIpv4Address entry.pending.length
        (n.setEntry arp.sourceIpv4Address entry)
    else
      .ok { n with droppedReplies := n.droppedReplies ++ [arp] }
  | none => .ok { n with droppedReplies := n.droppedReplies ++ [arp] }

def receiveLoop (c : NodeConfig) (n : ArpL3Protocol P) (arp : ArpHeader) :
    List Ipv4Address → Except Fault (ArpL3Protocol P)
  | [] => .ok n
  | address :: rest =>
    if arp.isRequest && arp.destinationIpv4Address = address then
      .ok (n.sendArpReply arp.destinationIpv4Address arp.sourceIpv4Address
        arp.sourceHardwareAddress)
    else if arp.isReply && arp.destinationIpv4Address = address &&
        arp.destinationHardwareAddress = c.deviceAddress then
      receiveReply c n arp
    else receiveLoop c n arp rest

/-- `ArpL3Protocol::Receive`.  There is no header when it has another protocol type. -/
def receive (c : NodeConfig) (n : ArpL3Protocol P) (header : Option ArpHeader) :
    Except Fault (ArpL3Protocol P) :=
  match header with
  | none => .ok n
  | some arp => receiveLoop c n arp c.addresses

/-- One entry in the loop of `HandleWaitReplyTimeout`, and whether the timer is to be restarted. -/
def handleEntry (c : NodeConfig) (n : ArpL3Protocol P) (restart : Bool) (addr : Ipv4Address) :
    Except Fault (ArpL3Protocol P × Bool) :=
  match n.cache.lookup addr with
  | none => .ok (n, restart)
  | some entry =>
    if entry.state = .waitReply then
      if entry.retries < c.maxRetries then
        let n := n.sendArpRequest entry.ipv4Address
        .ok (n.setEntry addr (entry.incrementRetries n.now), true)
      else do
        let entry ← entry.markDead n.now
        let entry := entry.clearRetries
        let n := n.setEntry addr { entry with pending := [] }
        pure ({ n with dropped := n.dropped ++ entry.pending }, restart)
    else .ok (n, restart)

def handleLoop (c : NodeConfig) :
    List Ipv4Address → ArpL3Protocol P → Bool → Except Fault (ArpL3Protocol P × Bool)
  | [], n, restart => .ok (n, restart)
  | addr :: rest, n, restart => do
      let (n, restart) ← handleEntry c n restart addr
      handleLoop c rest n restart

/-- `HandleWaitReplyTimeout`: each waiting entry asks again, or gives up. -/
def handleWaitReplyTimeout (c : NodeConfig) (n : ArpL3Protocol P) :
    Except Fault (ArpL3Protocol P) := do
  let n := { n with cache := { n.cache with waitReplyTimer := none } }
  let (n, restart) ← handleLoop c (n.cache.entries.entries.map Prod.fst) n false
  if restart then
    pure { n with cache := n.cache.startWaitReplyTimer c.toCacheConfig n.now }
  else
    pure n

/-- A Mark function is called on an existing entry, after `SetMacAddress` where there is an
address to set. -/
def markEntry (n : ArpL3Protocol P) (addr : Ipv4Address) (macAddress : Option Address)
    (mark : Entry P → Except Fault (Entry P)) : Except Fault (ArpL3Protocol P) :=
  match n.cache.lookup addr with
  | none => .error .nullDereference
  | some entry => do
      let entry ← mark (macAddress.elim entry entry.setMacAddress)
      pure (n.setEntry addr entry)

/-! ## Runs -/

/-- What happens at a node. -/
inductive ArpEvent (P : Type) where
  | lookup (packet : P) (destination : Ipv4Address)
  | receive (header : Option ArpHeader)
  | waitReplyTimeout
  | markPermanent (addr : Ipv4Address) (macAddress : Option Address)
  | markAutoGenerated (addr : Ipv4Address) (macAddress : Option Address)
  deriving DecidableEq, Repr

def handle (c : NodeConfig) (n : ArpL3Protocol P) : ArpEvent P → Except Fault (ArpL3Protocol P)
  | .lookup packet destination => do
      let (n, found) ← lookup c { n with looked := n.looked ++ [packet] } packet destination
      match found with
      | some hardwareDestination => pure (n.sendTo packet hardwareDestination)
      | none => pure n
  | .receive header => receive c n header
  | .waitReplyTimeout => handleWaitReplyTimeout c n
  | .markPermanent addr macAddress => markEntry n addr macAddress fun e => e.markPermanent n.now
  | .markAutoGenerated addr macAddress =>
    markEntry n addr macAddress fun e => e.markAutoGenerated n.now

/-- Whether an event can happen at a time: time does not go back, and the timer has priority
over what is later. -/
def enabled (n : ArpL3Protocol P) (t : Time) (e : ArpEvent P) : Bool :=
  n.now ≤ t && t ≤ Time.max && n.cache.waitReplyTimer.all (t ≤ ·) &&
    (match e with
      | .waitReplyTimeout => n.cache.waitReplyTimer == some t
      | _ => true)

def handleAt (c : NodeConfig) (n : ArpL3Protocol P) (t : Time) (e : ArpEvent P) :
    Except Fault (ArpL3Protocol P) :=
  handle c { n with now := t } e

def next (c : NodeConfig) (n : ArpL3Protocol P) (l : Time × ArpEvent P) :
    Option (ArpL3Protocol P) :=
  if n.enabled l.1 l.2 then (handleAt c n l.1 l.2).toOption else none

end ArpL3Protocol

end Arp

end Ns3
