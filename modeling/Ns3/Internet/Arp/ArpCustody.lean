/-
  No packet is lost while an address is resolved.

  Every packet that was looked up is with the device, on the drop trace, or pending at an
  entry, and an entry that waits for a reply has seen the node no longer ago than the
  wait-reply timer has been running.  Calling a Mark function on an entry that waits is the one
  thing that separates a pending packet from the timer.
-/
import Ns3.Internet.Arp.ArpL3Protocol
import Ns3.Lib.Run
import Mathlib.Tactic.Linarith

namespace Ns3

open Lib

namespace Arp

variable {P : Type} {c : NodeConfig} {served : Prop} {now : Time} {timer : Option Time}
  {e : Entry P} {n n' : ArpL3Protocol P} {addr source : Ipv4Address}

/-! ## Entries -/

/-- What holds of an entry.  With `served`, an entry that was marked has nothing pending. -/
structure EntryOk (c : CacheConfig) (served : Prop) (timer : Option Time) (e : Entry P) :
    Prop where
  seen : 0 ≤ e.lastSeen
  idle : e.state = .alive ∨ e.state = .dead → e.pending = []
  marked : served → e.state = .permanent ∨ e.state = .staticAutogenerated → e.pending = []
  waiting : e.state = .waitReply →
    e.pending ≠ [] ∧ ∃ τ, timer = some τ ∧ τ ≤ e.lastSeen + c.waitReplyTimeout
  mac : e.state ≠ .waitReply → e.state ≠ .dead → e.macAddress.isInvalid = false

theorem EntryOk.not_expired_of_waiting (h : EntryOk c.toCacheConfig served timer e)
    (hwait : e.state = .waitReply) (hnow : ∀ τ, timer = some τ → now ≤ τ) :
    e.isExpired c.toCacheConfig now = false := by
  obtain ⟨τ, hτ, hle⟩ := (h.waiting hwait).2
  have hlate := hnow τ hτ
  rw [Entry.isExpired, Entry.getTimeout, hwait]
  refine decide_eq_false (not_lt.mpr ?_)
  linarith

theorem EntryOk.not_expired_of_marked (h : EntryOk c.toCacheConfig served timer e)
    (hmarked : e.state = .permanent ∨ e.state = .staticAutogenerated) (hnow : now ≤ Time.max) :
    e.isExpired c.toCacheConfig now = false := by
  have hseen := h.seen
  have htimeout : e.getTimeout c.toCacheConfig = Time.max := by
    rcases hmarked with hstate | hstate
    · rw [Entry.getTimeout, hstate]
    · rw [Entry.getTimeout, hstate]
  rw [Entry.isExpired, htimeout]
  refine decide_eq_false (not_lt.mpr ?_)
  linarith

/-! ## The cache and the packets -/

variable {cache : ArpCache P}

/-- What holds of the cache at a time. -/
structure CacheOk (c : CacheConfig) (served : Prop) (now : Time) (cache : ArpCache P) : Prop where
  now_nonneg : 0 ≤ now
  now_le : now ≤ Time.max
  timer : ∀ τ, cache.waitReplyTimer = some τ → now ≤ τ ∧ τ ≤ now + c.waitReplyTimeout
  entries : ∀ e ∈ cache.entries, EntryOk c served cache.waitReplyTimer e.2

/-- Where the packets are.  Those of `hand` are on their way. -/
structure Custody (hand : Multiset P) (n : ArpL3Protocol P) : Prop where
  packets : (n.looked : Multiset P) =
    hand + n.sent.map Prod.fst + n.dropped + n.cache.entries.held Entry.pending
  resolved : ∀ s ∈ n.sent, s.2.isInvalid = false

/-- What holds of a node between two events. -/
structure Kept (c : NodeConfig) (served : Prop) (hand : Multiset P) (n : ArpL3Protocol P) :
    Prop extends Custody hand n where
  cacheOk : CacheOk c.toCacheConfig served n.now n.cache

section

variable (h : CacheOk c.toCacheConfig served now cache)

include h

theorem CacheOk.set (he : EntryOk c.toCacheConfig served cache.waitReplyTimer e) :
    CacheOk c.toCacheConfig served now (cache.set addr e) := by
  refine ⟨h.now_nonneg, h.now_le, h.timer, fun e' he' => ?_⟩
  rcases SortedMap.mem_insert.mp he' with rfl | ⟨hmem, -⟩
  · exact he
  · exact h.entries e' hmem

theorem CacheOk.entry (hfind : cache.lookup addr = some e) :
    EntryOk c.toCacheConfig served cache.waitReplyTimer e :=
  h.entries (addr, e) (SortedMap.find?_eq_some.mp hfind)

theorem CacheOk.wait (hstate : e.state = .waitReply) (hpending : e.pending ≠ [])
    (hseen : e.lastSeen = now) :
    CacheOk c.toCacheConfig served now
      ((cache.set addr e).startWaitReplyTimer c.toCacheConfig now) := by
  have hwait := c.waitReplyTimeout_nonneg
  have hnow := h.now_nonneg
  have hok (τ : Time) (hτ : τ ≤ now + c.waitReplyTimeout) :
      EntryOk c.toCacheConfig served (some τ) e :=
    { seen := hseen ▸ hnow
      idle := by simp [hstate]
      marked := by simp [hstate]
      waiting := fun _ => ⟨hpending, τ, rfl, hseen ▸ hτ⟩
      mac := fun hne => absurd hstate hne }
  cases htimer : cache.waitReplyTimer with
  | some τ =>
    have hstart :
        (cache.set addr e).startWaitReplyTimer c.toCacheConfig now = cache.set addr e := by
      simp [ArpCache.startWaitReplyTimer, ArpCache.set, htimer]
    rw [hstart]
    refine h.set ?_
    rw [htimer]
    exact hok τ (h.timer τ htimer).2
  | none =>
    have hstart : (cache.set addr e).startWaitReplyTimer c.toCacheConfig now =
        { cache.set addr e with waitReplyTimer := some (now + c.waitReplyTimeout) } := by
      simp [ArpCache.startWaitReplyTimer, ArpCache.set, htimer]
    rw [hstart]
    refine ⟨hnow, h.now_le, fun τ hτ => ?_, fun e' he' => ?_⟩
    · obtain rfl := Option.some.inj hτ
      exact ⟨by linarith, le_refl _⟩
    · rcases SortedMap.mem_insert.mp he' with rfl | ⟨hmem, -⟩
      · exact hok _ (le_refl _)
      · -- no entry waits while the timer is not pending
        have hold := h.entries e' hmem
        refine ⟨hold.seen, hold.idle, hold.marked, fun hwaits => ?_, hold.mac⟩
        obtain ⟨τ, hτ, -⟩ := (hold.waiting hwaits).2
        rw [htimer] at hτ
        cases hτ

end

namespace Custody

variable {p : P}

theorem take (h : Custody {p} n)
    (hset : n'.cache.entries.held Entry.pending = n.cache.entries.held Entry.pending + {p})
    (hlooked : n'.looked = n.looked) (hsent : n'.sent = n.sent)
    (hdropped : n'.dropped = n.dropped) : Custody 0 n' := by
  refine ⟨?_, hsent ▸ h.resolved⟩
  rw [hlooked, h.packets, hsent, hdropped, hset]
  abel

theorem dropTrace (h : Custody {p} n) : Custody 0 (n.dropTrace p) := by
  refine ⟨?_, h.resolved⟩
  rw [ArpL3Protocol.dropTrace, h.packets, ← Multiset.coe_add]
  simp only [Multiset.coe_singleton]
  abel

theorem sendTo {mac : Address} (h : Custody {p} n) (hmac : mac.isInvalid = false) :
    Custody 0 (n.sendTo p mac) := by
  refine ⟨?_, fun s hs => ?_⟩
  · rw [ArpL3Protocol.sendTo, h.packets, List.map_append, ← Multiset.coe_add]
    simp only [List.map_cons, List.map_nil, Multiset.coe_singleton]
    abel
  · rcases List.mem_append.mp hs with hs | hs
    · exact h.resolved s hs
    · rw [List.mem_singleton.mp hs]
      exact hmac

end Custody

/-! ## Looking an address up -/

open ArpL3Protocol

@[simp] theorem startWaitReplyTimer_entries (cache : ArpCache P) :
    (cache.startWaitReplyTimer c.toCacheConfig now).entries = cache.entries := by
  rw [ArpCache.startWaitReplyTimer]
  split <;> rfl

variable {p : P}

theorem waitReply_spec (h : Kept c served {p} n) (hstate : e.state = .alive ∨ e.state = .dead)
    (hempty : e.pending = []) (hfind : n.cache.lookup addr = some e ∨ n.cache.lookup addr = none) :
    ∃ n', waitReply c n e p addr = .ok n' ∧ Kept c served 0 n' := by
  have hmark : e.markWaitReply n.now p =
      .ok ({ e with state := .waitReply, pending := e.pending ++ [p] }.updateSeen n.now) := by
    have hassert : (decide (e.state = .alive) || decide (e.state = .dead)) = true := by
      rcases hstate with hs | hs <;> simp [hs]
    simp [Entry.markWaitReply, nsAssert, hassert, hempty, pure, Except.pure, bind, Except.bind]
  have hheld : (n.cache.entries.insert addr
      ({ e with state := .waitReply, pending := e.pending ++ [p] }.updateSeen n.now)).held
        Entry.pending = n.cache.entries.held Entry.pending + {p} := by
    rcases hfind with hsome | hnone
    · have hset := SortedMap.held_insert_of_some Entry.pending
        (a := { e with state := .waitReply, pending := e.pending ++ [p] }.updateSeen n.now) hsome
      simpa [Entry.updateSeen, hempty] using hset
    · rw [SortedMap.held_insert_of_none Entry.pending hnone, add_comm]
      simp [Entry.updateSeen, hempty]
  refine ⟨_, by rw [waitReply, hmark]; rfl, ?_, ?_⟩
  · refine h.toCustody.take ?_ rfl rfl rfl
    rw [← hheld]
    exact congrArg _ (startWaitReplyTimer_entries _)
  · exact h.cacheOk.wait rfl (by simp [Entry.updateSeen]) rfl

/-- What `Lookup` leaves to be done with the packet. -/
def Looked (c : NodeConfig) (served : Prop) (p : P) (n : ArpL3Protocol P) :
    Option Address → Prop
  | none => Kept c served 0 n
  | some mac => Kept c served {p} n ∧ mac.isInvalid = false

theorem lookup_spec (addr : Ipv4Address) (h : Kept c served {p} n) :
    ∃ n' found, lookup c n p addr = .ok (n', found) ∧ Looked c served p n' found := by
  rw [lookup]
  cases hfind : n.cache.lookup addr with
  | none =>
    obtain ⟨n', heq, hkept⟩ := waitReply_spec (e := .new addr) h (.inl rfl) rfl (.inr hfind)
    exact ⟨n', none, by rw [heq]; rfl, hkept⟩
  | some e =>
    have he := h.cacheOk.entry hfind
    have hwaits (hstate : e.state = .alive ∨ e.state = .dead) :
        ∃ n' found, (do
          let n ← waitReply c n e p addr
          pure (n, none)) = Except.ok (n', found) ∧ Looked c served p n' found := by
      obtain ⟨n', heq, hkept⟩ := waitReply_spec h hstate (he.idle hstate) (.inl hfind)
      exact ⟨n', none, by rw [heq]; rfl, hkept⟩
    have hdrop : Kept c served 0 (n.dropTrace p) :=
      ⟨h.toCustody.dropTrace, h.cacheOk⟩
    by_cases hexp : e.isExpired c.toCacheConfig n.now = true
    · simp only [hexp, if_true]
      cases hstate : e.state with
      | dead => simpa [hstate] using hwaits (.inr hstate)
      | alive => simpa [hstate] using hwaits (.inl hstate)
      | waitReply =>
        have hno := he.not_expired_of_waiting hstate fun τ hτ => (h.cacheOk.timer τ hτ).1
        rw [hexp] at hno
        cases hno
      | permanent =>
        have hno := he.not_expired_of_marked (.inl hstate) h.cacheOk.now_le
        rw [hexp] at hno
        cases hno
      | staticAutogenerated =>
        have hno := he.not_expired_of_marked (.inr hstate) h.cacheOk.now_le
        rw [hexp] at hno
        cases hno
    · simp only [hexp]
      cases hstate : e.state with
      | dead => exact ⟨_, none, rfl, hdrop⟩
      | alive => exact ⟨n, some e.macAddress, rfl, h, he.mac (by simp [hstate]) (by simp [hstate])⟩
      | waitReply =>
        have hok := he.waiting hstate
        by_cases hfull : c.pendingQueueSize.toNat ≤ e.pending.length
        · have hupdate : e.updateWaitReply c.toCacheConfig p = .ok (e, false) := by
            simp [Entry.updateWaitReply, nsAssert, hstate, hfull, pure, Except.pure, bind,
              Except.bind]
          refine ⟨(n.setEntry addr e).dropTrace p, none, ?_, Custody.dropTrace ?_, h.cacheOk.set he⟩
          · rw [hupdate]
            rfl
          · refine ⟨?_, h.resolved⟩
            rw [setEntry, ArpCache.set, SortedMap.held_insert_of_eq Entry.pending hfind rfl]
            exact h.packets
        · have hupdate : e.updateWaitReply c.toCacheConfig p =
              .ok ({ e with pending := e.pending ++ [p] }, true) := by
            simp [Entry.updateWaitReply, nsAssert, hstate, hfull, pure, Except.pure, bind,
              Except.bind]
          refine ⟨n.setEntry addr { e with pending := e.pending ++ [p] }, none, ?_, ?_, ?_⟩
          · rw [hupdate]
            rfl
          · refine h.toCustody.take ?_ rfl rfl rfl
            have hset := SortedMap.held_insert_of_some Entry.pending
              (a := { e with pending := e.pending ++ [p] }) hfind
            have hsum : ((e.pending ++ [p] : List P) : Multiset P) = {p} + e.pending := by
              rw [← Multiset.coe_add, Multiset.coe_singleton, add_comm]
            rw [hsum, ← add_assoc] at hset
            exact add_right_cancel hset
          · refine h.cacheOk.set ⟨he.seen, ?_, ?_, fun _ => ⟨by simp, hok.2⟩, ?_⟩
            · simp [hstate]
            · simp [hstate]
            · exact fun hne => absurd hstate hne
      | permanent =>
        exact ⟨n, some e.macAddress, rfl, h, he.mac (by simp [hstate]) (by simp [hstate])⟩
      | staticAutogenerated =>
        exact ⟨n, some e.macAddress, rfl, h, he.mac (by simp [hstate]) (by simp [hstate])⟩

theorem looked_sent {found : Option Address} (h : Looked c served p n found) :
    Kept c served 0 (match found with
      | some hardwareDestination => n.sendTo p hardwareDestination
      | none => n) := by
  cases found with
  | none => exact h
  | some mac => exact ⟨h.1.toCustody.sendTo h.2, h.1.cacheOk⟩

theorem lookup_alive (hfind : n.cache.lookup addr = some e) (hstate : e.state = .alive)
    (hseen : e.lastSeen = n.now) : lookup c n p addr = .ok (n, some e.macAddress) := by
  have halive := c.aliveTimeout_nonneg
  have hexp : e.isExpired c.toCacheConfig n.now = false := by
    rw [Entry.isExpired, Entry.getTimeout, hstate, hseen]
    refine decide_eq_false (not_lt.mpr ?_)
    rw [sub_self]
    exact halive
  rw [lookup, hfind]
  simp [hexp, hstate, pure, Except.pure]

/-! ## A reply -/

/-- Where the packets for an address go once it is known. -/
def resolvedTo (c : NodeConfig) (source : Ipv4Address) (mac : Address) : Address :=
  (c.linkAddress source).getD mac

theorem interfaceSend_alive (hfind : n.cache.lookup source = some e) (hstate : e.state = .alive)
    (hseen : e.lastSeen = n.now) :
    interfaceSend c n p source = .ok (n.sendTo p (resolvedTo c source e.macAddress)) := by
  rw [interfaceSend, resolvedTo]
  cases hlink : c.linkAddress source with
  | some mac => rfl
  | none =>
    rw [lookup_alive hfind hstate hseen]
    rfl

theorem flushLoop_eq (hstate : e.state = .alive) (hseen : e.lastSeen = n.now) :
    flushLoop c source e.pending.length (n.setEntry source e) =
      .ok { n.setEntry source { e with pending := [] } with
        sent := n.sent ++ e.pending.map fun p => (p, resolvedTo c source e.macAddress) } := by
  generalize hps : e.pending = ps
  induction ps generalizing e n with
  | nil =>
    have hfind : (n.setEntry source e).cache.lookup source = some e := SortedMap.find?_insert_self
    obtain ⟨state, lastSeen, macAddress, ipv4Address, pending, retries⟩ := e
    obtain rfl : pending = [] := hps
    rw [flushLoop, hfind]
    simp [setEntry]
  | cons p ps ih =>
    have hfind : (n.setEntry source e).cache.lookup source = some e := SortedMap.find?_insert_self
    have hset : (n.setEntry source e).setEntry source { e with pending := ps } =
        n.setEntry source { e with pending := ps } := by
      simp [setEntry, ArpCache.set]
    have hsend : interfaceSend c (n.setEntry source { e with pending := ps }) p source =
        .ok ((n.setEntry source { e with pending := ps }).sendTo p
          (resolvedTo c source e.macAddress)) :=
      interfaceSend_alive (e := { e with pending := ps }) SortedMap.find?_insert_self hstate hseen
    have hrest := ih (n := n.sendTo p (resolvedTo c source e.macAddress))
      (e := { e with pending := ps }) hstate hseen rfl
    rw [List.length_cons, flushLoop, hfind]
    simp only [hps]
    rw [hset, hsend]
    refine hrest.trans ?_
    simp [setEntry, sendTo]

theorem receiveReply_spec {arp : ArpHeader} (h : Kept c served 0 n) :
    ∃ n', receiveReply c n arp = .ok n' ∧ Kept c served 0 n' := by
  rw [receiveReply]
  cases hfind : n.cache.lookup arp.sourceIpv4Address with
  | none => exact ⟨_, rfl, ⟨h.packets, h.resolved⟩, h.cacheOk⟩
  | some e =>
    by_cases hstate : e.state = .waitReply
    · have he := h.cacheOk.entry hfind
      have hmark : e.markAlive n.now arp.sourceHardwareAddress =
          .ok ({ e with macAddress := arp.sourceHardwareAddress, state := .alive
            }.clearRetries.updateSeen n.now) := by
        simp [Entry.markAlive, nsAssert, hstate, pure, Except.pure, bind, Except.bind]
      have hmac : arp.sourceHardwareAddress.isInvalid = false := by
        have hlen := arp.source_length
        simp only [Address.isInvalid, Bool.and_eq_false_imp, decide_eq_true_eq]
        intro hzero
        simp [hzero] at hlen
      have hto : (resolvedTo c arp.sourceIpv4Address arp.sourceHardwareAddress).isInvalid =
          false := by
        rw [resolvedTo]
        cases hlink : c.linkAddress arp.sourceIpv4Address with
        | none => exact hmac
        | some mac => exact c.linkAddress_valid _ _ hlink
      simp only [hstate, if_true]
      refine ⟨_, by rw [hmark]; exact flushLoop_eq rfl rfl, ⟨?_, ?_⟩, ?_⟩
      · have hset := SortedMap.held_insert_of_some Entry.pending
          (a := { ({ e with macAddress := arp.sourceHardwareAddress, state := .alive
            } : Entry P).clearRetries.updateSeen n.now with pending := [] }) hfind
        rw [Multiset.coe_nil, add_zero] at hset
        have hpackets := h.packets
        rw [← hset] at hpackets
        refine hpackets.trans ?_
        simp only [setEntry, ArpCache.set, Entry.clearRetries, Entry.updateSeen, List.map_append,
          List.map_map, Function.comp_def, List.map_id', ← Multiset.coe_add]
        abel
      · intro s hs
        rcases List.mem_append.mp hs with hs | hs
        · exact h.resolved s hs
        · obtain ⟨p, -, rfl⟩ := List.mem_map.mp hs
          exact hto
      · exact h.cacheOk.set
          ⟨h.cacheOk.now_nonneg, fun _ => rfl, fun _ _ => rfl, (fun h => by cases h),
          fun _ _ => hmac⟩
    · simp only [hstate, if_false]
      exact ⟨_, rfl, ⟨h.packets, h.resolved⟩, h.cacheOk⟩

theorem receiveLoop_spec {arp : ArpHeader} (h : Kept c served 0 n) (addresses : List Ipv4Address) :
    ∃ n', receiveLoop c n arp addresses = .ok n' ∧ Kept c served 0 n' := by
  induction addresses with
  | nil => exact ⟨n, rfl, h⟩
  | cons address rest ih =>
    rw [receiveLoop]
    split
    · exact ⟨_, rfl, ⟨h.packets, h.resolved⟩, h.cacheOk⟩
    split
    · exact receiveReply_spec h
    · exact ih

/-! ## The timer -/

/-- What holds in the loop of `HandleWaitReplyTimeout`: an entry that waits is still to be visited,
or was just seen to. -/
structure Handling (c : NodeConfig) (served : Prop) (rest : List Ipv4Address) (restart : Bool)
    (n : ArpL3Protocol P) : Prop extends Custody 0 n where
  now_nonneg : 0 ≤ n.now
  now_le : n.now ≤ Time.max
  stopped : n.cache.waitReplyTimer = none
  entries : ∀ e ∈ n.cache.entries, EntryOk c.toCacheConfig served (some n.now) e.2
  waiting : ∀ e ∈ n.cache.entries, e.2.state = .waitReply →
    e.1 ∈ rest ∨ (restart = true ∧ e.2.lastSeen = n.now)

variable {rest : List Ipv4Address}

theorem handleEntry_spec {restart : Bool} (h : Handling c served (addr :: rest) restart n) :
    ∃ n' restart', handleEntry c n restart addr = .ok (n', restart') ∧
      Handling c served rest restart' n' := by
  have hskip (hno : ∀ e, n.cache.lookup addr = some e → e.state ≠ .waitReply) :
      Handling c served rest restart n := by
    refine { h with waiting := fun e he hwait => ?_ }
    rcases h.waiting e he hwait with hmem | hdone
    · rcases List.mem_cons.mp hmem with heq | hmem
      · exact absurd hwait (hno e.2 (SortedMap.find?_eq_some.mpr (heq ▸ he)))
      · exact .inl hmem
    · exact .inr hdone
  rw [handleEntry]
  cases hfind : n.cache.lookup addr with
  | none => exact ⟨n, restart, rfl, hskip fun e he => by rw [hfind] at he; cases he⟩
  | some e =>
    have he := h.entries (addr, e) (SortedMap.find?_eq_some.mp hfind)
    by_cases hstate : e.state = .waitReply
    · have hothers (e' : Nat × Entry P) (he' : e' ∈ n.cache.entries) (hne : e'.1 ≠ addr)
          (hwait : e'.2.state = .waitReply) :
          e'.1 ∈ rest ∨ (restart = true ∧ e'.2.lastSeen = n.now) := by
        rcases h.waiting e' he' hwait with hmem | hdone
        · exact .inl ((List.mem_cons.mp hmem).resolve_left hne)
        · exact .inr hdone
      have hpending := (he.waiting hstate).1
      simp only [hstate, if_true]
      by_cases hretry : e.retries < c.maxRetries
      · -- one more request
        simp only [hretry, if_true]
        refine ⟨_, true, rfl, ⟨?_, h.resolved⟩, h.now_nonneg, h.now_le, h.stopped,
          fun e' he' => ?_, fun e' he' hwait => ?_⟩
        · have hheld := SortedMap.held_insert_of_eq Entry.pending
            (a := e.incrementRetries n.now) hfind rfl
          exact h.packets.trans (congrArg _ hheld.symm)
        · rcases SortedMap.mem_insert.mp he' with rfl | ⟨hmem, -⟩
          · refine ⟨h.now_nonneg, ?_, ?_, fun _ => ⟨hpending, n.now, rfl, ?_⟩, ?_⟩
            · simp [Entry.incrementRetries, Entry.updateSeen, hstate]
            · simp [Entry.incrementRetries, Entry.updateSeen, hstate]
            · have hnonneg := c.waitReplyTimeout_nonneg
              show n.now ≤ n.now + c.waitReplyTimeout
              linarith
            · exact fun hne => absurd hstate hne
          · exact h.entries e' hmem
        · rcases SortedMap.mem_insert.mp he' with rfl | ⟨hmem, hne⟩
          · exact .inr ⟨rfl, rfl⟩
          · exact (hothers e' hmem hne hwait).imp_right fun hdone => ⟨rfl, hdone.2⟩
      · -- the entry is given up, and what it has pending is reported
        have hmark : e.markDead n.now =
            .ok ({ e with state := .dead }.clearRetries.updateSeen n.now) := by
          simp [Entry.markDead, nsAssert, hstate, pure, Except.pure, bind, Except.bind]
        simp only [hretry, if_false, hmark]
        refine ⟨_, restart, rfl, ⟨?_, h.resolved⟩, h.now_nonneg, h.now_le, h.stopped,
          fun e' he' => ?_, fun e' he' hwait => ?_⟩
        · have hset := SortedMap.held_insert_of_some Entry.pending
            (a := { (({ e with state := .dead } : Entry P).clearRetries.updateSeen
              n.now).clearRetries with pending := [] }) hfind
          rw [Multiset.coe_nil, add_zero] at hset
          have hpackets := h.packets
          rw [← hset] at hpackets
          refine hpackets.trans ?_
          simp only [setEntry, ArpCache.set, Entry.clearRetries, Entry.updateSeen,
            ← Multiset.coe_add]
          abel
        · rcases SortedMap.mem_insert.mp he' with rfl | ⟨hmem, -⟩
          · exact ⟨h.now_nonneg, fun _ => rfl, fun _ _ => rfl, (fun h => by cases h),
              fun _ hne => absurd rfl hne⟩
          · exact h.entries e' hmem
        · rcases SortedMap.mem_insert.mp he' with rfl | ⟨hmem, hne⟩
          · cases hwait
          · exact hothers e' hmem hne hwait
    · simp only [hstate, if_false]
      refine ⟨n, restart, rfl, hskip fun e' he' => ?_⟩
      obtain rfl := Option.mem_unique hfind he'
      exact hstate

theorem handleLoop_spec {restart : Bool} (h : Handling c served rest restart n) :
    ∃ n' restart', handleLoop c rest n restart = .ok (n', restart') ∧
      Handling c served [] restart' n' := by
  induction rest generalizing n restart with
  | nil => exact ⟨n, restart, rfl, h⟩
  | cons addr rest ih =>
    obtain ⟨n₁, restart₁, hentry, h₁⟩ := handleEntry_spec h
    obtain ⟨n', restart', hrest, h'⟩ := ih h₁
    exact ⟨n', restart', by rw [handleLoop, hentry]; exact hrest, h'⟩

theorem handleWaitReplyTimeout_spec (h : Kept c served 0 n)
    (htimer : n.cache.waitReplyTimer = some n.now) :
    ∃ n', handleWaitReplyTimeout c n = .ok n' ∧ Kept c served 0 n' := by
  have hstart : Handling c served (n.cache.entries.entries.map Prod.fst) false
      { n with cache := { n.cache with waitReplyTimer := none } } :=
    { packets := h.packets
      resolved := h.resolved
      now_nonneg := h.cacheOk.now_nonneg
      now_le := h.cacheOk.now_le
      stopped := rfl
      entries := fun e he => htimer ▸ h.cacheOk.entries e he
      waiting := fun e he _ => .inl (List.mem_map_of_mem he) }
  obtain ⟨n', restart, hloop, h'⟩ := handleLoop_spec hstart
  have hwait := c.waitReplyTimeout_nonneg
  rw [handleWaitReplyTimeout]
  simp only
  rw [hloop, ok_bind]
  cases restart with
  | true =>
    refine ⟨_, rfl, ⟨?_, h'.resolved⟩, h'.now_nonneg, h'.now_le, fun τ hτ => ?_, fun e he => ?_⟩
    · exact h'.packets.trans (congrArg _ (congrArg _ (startWaitReplyTimer_entries _).symm))
    · simp only [ArpCache.startWaitReplyTimer, h'.stopped] at hτ
      obtain rfl := Option.some.inj hτ
      exact ⟨by linarith, le_refl _⟩
    · simp only [startWaitReplyTimer_entries] at he
      have hold := h'.entries e he
      refine ⟨hold.seen, hold.idle, hold.marked, fun hstate => ⟨(hold.waiting hstate).1, ?_⟩,
        hold.mac⟩
      rcases h'.waiting e he hstate with hmem | ⟨-, hseen⟩
      · cases hmem
      · refine ⟨n'.now + c.waitReplyTimeout, ?_, by rw [hseen]⟩
        simp [ArpCache.startWaitReplyTimer, h'.stopped]
  | false =>
    refine ⟨n', rfl, h'.toCustody, h'.now_nonneg, h'.now_le, fun τ hτ => ?_, fun e he => ?_⟩
    · rw [h'.stopped] at hτ
      cases hτ
    · have hold := h'.entries e he
      refine ⟨hold.seen, hold.idle, hold.marked, fun hstate => ?_, hold.mac⟩
      rcases h'.waiting e he hstate with hmem | ⟨hno, -⟩
      · cases hmem
      · cases hno

end Arp

end Ns3
