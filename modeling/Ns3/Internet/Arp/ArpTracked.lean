/-
  ARP keeps track of every packet exactly as long as no Mark
  function is called on an entry that waits for a reply.

  `MarkPermanent` and `MarkAutoGenerated` check the hardware address only.  On an entry that
  waits they leave the pending packets behind: the timer no longer visits the entry, no reply
  flushes it, and `Lookup` never looks at its queue again.
-/
import Ns3.Internet.Arp.ArpCustody

namespace Ns3

open Lib

namespace Arp

open ArpL3Protocol

variable {P : Type} {c : NodeConfig} {served : Prop} {n n' : ArpL3Protocol P}
  {addr : Ipv4Address} {t : Time} {event : ArpEvent P} {l : Time × ArpEvent P}

abbrev NodeRun (c : NodeConfig) : List (Time × ArpEvent P) → ArpL3Protocol P → Prop :=
  Run (fun n l n' => next c n l = some n') .new

def ArpL3Protocol.ArpEvent.isProtocolCall : ArpEvent P → Bool
  | .lookup .. => true
  | .receive .. => true
  | .waitReplyTimeout => true
  | .markPermanent .. => false
  | .markAutoGenerated .. => false

def MarksWaiting (n : ArpL3Protocol P) : ArpEvent P → Prop
  | .markPermanent addr _ => ∃ e, n.cache.lookup addr = some e ∧ e.state = .waitReply
  | .markAutoGenerated addr _ => ∃ e, n.cache.lookup addr = some e ∧ e.state = .waitReply
  | _ => False

/-- No packet is out of sight. -/
structure Tracked (c : NodeConfig) (n : ArpL3Protocol P) : Prop where
  queue : ∀ e ∈ n.cache.entries, e.2.pending ≠ [] ↔ e.2.state = .waitReply
  timer : (∃ e ∈ n.cache.entries, e.2.state = .waitReply) → n.cache.waitReplyTimer.isSome
  returns : ∀ t event, n.enabled t event = true → event.isProtocolCall = true →
    Returns (handleAt c n t event)
  accounted : n.cache.waitReplyTimer = none →
    n.looked.Perm (n.sent.map Prod.fst ++ n.dropped)
  resolved : ∀ s ∈ n.sent, s.2.isInvalid = false

/-! ## One event -/

theorem Kept.at (h : Kept c served 0 n) (henabled : n.enabled t event = true) :
    Kept c served 0 { n with now := t } := by
  simp only [enabled, Bool.and_eq_true, decide_eq_true_eq, Option.all_eq_true] at henabled
  obtain ⟨⟨⟨hnow, hmax⟩, htimer⟩, -⟩ := henabled
  refine ⟨⟨h.packets, h.resolved⟩, h.cacheOk.now_nonneg.trans hnow, hmax, fun τ hτ => ?_,
    h.cacheOk.entries⟩
  have hle := (h.cacheOk.timer τ hτ).2
  refine ⟨htimer τ hτ, ?_⟩
  show τ ≤ t + c.waitReplyTimeout
  linarith

theorem handleAt_spec (h : Kept c served 0 n) (henabled : n.enabled t event = true)
    (hcall : event.isProtocolCall = true) :
    ∃ n', handleAt c n t event = .ok n' ∧ Kept c served 0 n' := by
  have hat := h.at henabled
  cases event with
  | lookup packet destination =>
    have hlooked : Kept c served {packet}
        { n with now := t, looked := n.looked ++ [packet] } := by
      refine ⟨⟨?_, h.resolved⟩, hat.cacheOk⟩
      have hpackets := h.packets
      simp only [← Multiset.coe_add, Multiset.coe_singleton]
      rw [hpackets]
      abel
    obtain ⟨n₁, found, heq, hfound⟩ := lookup_spec destination hlooked
    refine ⟨_, ?_, looked_sent hfound⟩
    rw [handleAt, handle, heq, ok_bind]
    cases found <;> rfl
  | receive header =>
    cases header with
    | none => exact ⟨_, rfl, hat⟩
    | some arp => exact receiveLoop_spec hat c.addresses
  | waitReplyTimeout =>
    have htimer : n.cache.waitReplyTimer = some t := by
      simp only [enabled, Bool.and_eq_true, beq_iff_eq] at henabled
      exact henabled.2
    exact handleWaitReplyTimeout_spec hat htimer
  | markPermanent => cases hcall
  | markAutoGenerated => cases hcall

theorem markEntry_kept {macAddress : Option Address} {mark : Entry P → Except Fault (Entry P)}
    (h : Kept c served 0 n)
    (hmark : ∀ e e', mark e = .ok e' → e'.pending = e.pending ∧ e'.lastSeen = n.now ∧
      (e'.state = .permanent ∨ e'.state = .staticAutogenerated) ∧ e'.macAddress.isInvalid = false)
    (heq : markEntry n addr macAddress mark = .ok n')
    (hwait : served → ∀ e, n.cache.lookup addr = some e → e.state ≠ .waitReply) :
    Kept c served 0 n' := by
  rw [markEntry] at heq
  cases hfind : n.cache.lookup addr with
  | none =>
    rw [hfind] at heq
    cases heq
  | some e =>
    rw [hfind] at heq
    obtain ⟨e', he', rfl⟩ := bind_pure_eq_ok.mp heq
    obtain ⟨hpending, hseen, hstate, hmac⟩ := hmark _ _ he'
    have hsame : e'.pending = e.pending := by
      rw [hpending]
      cases macAddress <;> rfl
    have hold := h.cacheOk.entry hfind
    refine ⟨⟨?_, h.resolved⟩, h.cacheOk.set ⟨?_, ?_, ?_, ?_, fun _ _ => hmac⟩⟩
    · have hheld := SortedMap.held_insert_of_eq Entry.pending hfind hsame
      exact h.packets.trans (congrArg _ hheld.symm)
    · exact hseen ▸ h.cacheOk.now_nonneg
    · rcases hstate with hs | hs <;> simp [hs]
    · intro hserved _
      rw [hsame]
      cases hs : e.state with
      | alive => exact hold.idle (.inl hs)
      | dead => exact hold.idle (.inr hs)
      | waitReply => exact absurd hs (hwait hserved e hfind)
      | permanent => exact hold.marked hserved (.inl hs)
      | staticAutogenerated => exact hold.marked hserved (.inr hs)
    · rcases hstate with hs | hs <;> simp [hs]

theorem markPermanent_ok {e e' : Entry P} {now : Time} (h : e.markPermanent now = .ok e') :
    e' = { e with state := .permanent, retries := 0, lastSeen := now } ∧
      e.macAddress.isInvalid = false := by
  obtain ⟨u, hassert, heq⟩ := bind_eq_ok.mp h
  exact ⟨(pure_eq_ok.mp heq).symm, by simpa using nsAssert_eq_ok.mp hassert⟩

theorem markAutoGenerated_ok {e e' : Entry P} {now : Time} (h : e.markAutoGenerated now = .ok e') :
    e' = { e with state := .staticAutogenerated, retries := 0, lastSeen := now } ∧
      e.macAddress.isInvalid = false := by
  obtain ⟨u, hassert, heq⟩ := bind_eq_ok.mp h
  exact ⟨(pure_eq_ok.mp heq).symm, by simpa using nsAssert_eq_ok.mp hassert⟩

/-- A step keeps every waiting packet tracked unless it marks a waiting entry. -/
theorem next_kept (h : Kept c served 0 n) (hnext : next c n l = some n')
    (hmarks : served → ¬MarksWaiting n l.2) : Kept c served 0 n' := by
  obtain ⟨t, event⟩ := l
  rw [next] at hnext
  split at hnext
  · next henabled =>
      have heq := toOption_eq_some.mp hnext
      have hcase (hcall : event.isProtocolCall = true) : Kept c served 0 n' := by
        obtain ⟨n₁, hok, hkept⟩ := handleAt_spec h henabled hcall
        cases hok.symm.trans heq
        exact hkept
      cases event with
      | lookup => exact hcase rfl
      | receive => exact hcase rfl
      | waitReplyTimeout => exact hcase rfl
      | markPermanent addr macAddress =>
        have hcalled : markEntry { n with now := t } addr macAddress
            (fun e => e.markPermanent t) = .ok n' := heq
        refine markEntry_kept (h.at henabled) (fun e e' hmark => ?_) hcalled
          fun hserved e hfind hwait => hmarks hserved ⟨e, hfind, hwait⟩
        obtain ⟨rfl, hmac⟩ := markPermanent_ok hmark
        exact ⟨rfl, rfl, .inl rfl, hmac⟩
      | markAutoGenerated addr macAddress =>
        have hcalled : markEntry { n with now := t } addr macAddress
            (fun e => e.markAutoGenerated t) = .ok n' := heq
        refine markEntry_kept (h.at henabled) (fun e e' hmark => ?_) hcalled
          fun hserved e hfind hwait => hmarks hserved ⟨e, hfind, hwait⟩
        obtain ⟨rfl, hmac⟩ := markAutoGenerated_ok hmark
        exact ⟨rfl, rfl, .inr rfl, hmac⟩
  · cases hnext

/-! ## Runs -/

theorem time_max_nonneg : (0 : Time) ≤ Time.max := by
  show (0 : Int) ≤ 2 ^ 63 - 1
  norm_num

theorem kept_new : Kept c served 0 (new : ArpL3Protocol P) :=
  { packets := rfl
    resolved := nofun
    cacheOk := ⟨le_refl _, time_max_nonneg, nofun, fun _ he => absurd he SortedMap.not_mem_empty⟩ }

theorem tracked_iff (h : Kept c False 0 n) : Tracked c n ↔ Kept c True 0 n := by
  constructor
  · intro htracked
    refine ⟨h.toCustody, h.cacheOk.now_nonneg, h.cacheOk.now_le, h.cacheOk.timer, fun e he => ?_⟩
    have hold := h.cacheOk.entries e he
    refine ⟨hold.seen, hold.idle, fun _ hmarked => ?_, hold.waiting, hold.mac⟩
    by_contra hpending
    have hstate := (htracked.queue e he).mp hpending
    rcases hmarked with hs | hs
    · rw [hs] at hstate
      cases hstate
    · rw [hs] at hstate
      cases hstate
  · intro hkept
    have hqueue (e : Nat × Entry P) (he : e ∈ n.cache.entries) :
        e.2.pending ≠ [] ↔ e.2.state = .waitReply := by
      have hok := hkept.cacheOk.entries e he
      refine ⟨fun hpending => ?_, fun hstate => (hok.waiting hstate).1⟩
      cases hs : e.2.state with
      | alive => exact absurd (hok.idle (.inl hs)) hpending
      | dead => exact absurd (hok.idle (.inr hs)) hpending
      | waitReply => rfl
      | permanent => exact absurd (hok.marked trivial (.inl hs)) hpending
      | staticAutogenerated => exact absurd (hok.marked trivial (.inr hs)) hpending
    have htimer (e : Nat × Entry P) (he : e ∈ n.cache.entries) (hstate : e.2.state = .waitReply) :
        n.cache.waitReplyTimer.isSome := by
      obtain ⟨τ, hτ, -⟩ := ((hkept.cacheOk.entries e he).waiting hstate).2
      rw [hτ]
      rfl
    refine ⟨hqueue, fun ⟨e, he, hstate⟩ => htimer e he hstate, fun t event henabled hcall => ?_,
      fun hnone => ?_, h.resolved⟩
    · obtain ⟨n', hok, -⟩ := handleAt_spec hkept henabled hcall
      exact ⟨n', hok⟩
    · -- no entry waits, so nothing is pending
      have hheld : n.cache.entries.held Entry.pending = 0 := by
        refine SortedMap.held_eq_zero Entry.pending fun e he => ?_
        by_contra hpending
        have hsome := htimer e he ((hqueue e he).mp hpending)
        rw [hnone] at hsome
        cases hsome
      have hpackets := h.packets
      rw [hheld, zero_add, add_zero, Multiset.coe_add] at hpackets
      exact Multiset.coe_eq_coe.mp hpackets

theorem not_tracked_of_marksWaiting (h : Kept c False 0 n) (hnext : next c n l = some n')
    (hmarks : MarksWaiting n l.2) : ¬Tracked c n' := by
  intro htracked
  obtain ⟨t, event⟩ := l
  rw [next] at hnext
  split at hnext
  · have heq := toOption_eq_some.mp hnext
    have hlost {addr : Ipv4Address} {e e' : Entry P} (hfind : n.cache.lookup addr = some e)
        (hwait : e.state = .waitReply) (hpending : e'.pending = e.pending)
        (hstate : e'.state ≠ .waitReply)
        (hn' : ({ n with now := t } : ArpL3Protocol P).setEntry addr e' = n') : False := by
      have hmem : (addr, e') ∈ n'.cache.entries := hn' ▸ SortedMap.mem_insert.mpr (.inl rfl)
      refine hstate ((htracked.queue _ hmem).mp ?_)
      rw [hpending]
      exact ((h.cacheOk.entry hfind).waiting hwait).1
    cases event with
    | lookup => exact hmarks
    | receive => exact hmarks
    | waitReplyTimeout => exact hmarks
    | markPermanent addr macAddress =>
      obtain ⟨e, hfind, hwait⟩ := hmarks
      have hmark : markEntry { n with now := t } addr macAddress
          (fun e => e.markPermanent t) = .ok n' := heq
      rw [markEntry] at hmark
      simp only [hfind] at hmark
      obtain ⟨e', he', hn'⟩ := bind_eq_ok.mp hmark
      obtain ⟨rfl, -⟩ := markPermanent_ok he'
      refine hlost hfind hwait ?_ ?_ (pure_eq_ok.mp hn')
      · cases macAddress <;> rfl
      · exact nofun
    | markAutoGenerated addr macAddress =>
      obtain ⟨e, hfind, hwait⟩ := hmarks
      have hmark : markEntry { n with now := t } addr macAddress
          (fun e => e.markAutoGenerated t) = .ok n' := heq
      rw [markEntry] at hmark
      simp only [hfind] at hmark
      obtain ⟨e', he', hn'⟩ := bind_eq_ok.mp hmark
      obtain ⟨rfl, -⟩ := markAutoGenerated_ok he'
      refine hlost hfind hwait ?_ ?_ (pure_eq_ok.mp hn')
      · cases macAddress <;> rfl
      · exact nofun
  · cases hnext

/-- **ARP keeps track of every packet exactly when no entry that waits is marked**: queues are
non-empty at the waiting entries only, no call fails, and once the timer is not pending every packet
was sent or reported once. -/
theorem run_tracked_iff {es : List (Time × ArpEvent P)} (hrun : NodeRun c es n) :
    (∀ ks u, ks <+: es → NodeRun c ks u → Tracked c u) ↔
      ∀ ks l u, ks ++ [l] <+: es → NodeRun c ks u → ¬MarksWaiting u l.2 := by
  refine Run.invariant_iff (I := Kept c False 0) (C := fun u l => ¬MarksWaiting u l.2)
    kept_new ((tracked_iff kept_new).mpr kept_new) ?_ ?_ hrun
  · intro u l v hu hv
    exact next_kept hu hv False.elim
  · intro u l v hu htracked hv
    constructor
    · intro htracked' hmarks
      exact not_tracked_of_marksWaiting hu hv hmarks htracked'
    · intro hmarks
      have hkept := (tracked_iff hu).mp htracked
      exact (tracked_iff (next_kept hu hv False.elim)).mpr (next_kept hkept hv fun _ => hmarks)

def sampleConfig : NodeConfig :=
  { aliveTimeout := 120000000000
    deadTimeout := 100000000000
    waitReplyTimeout := 1000000000
    maxRetries := 3
    pendingQueueSize := 3
    aliveTimeout_nonneg := by norm_num
    waitReplyTimeout_nonneg := by norm_num
    deviceAddress := ⟨1, [0, 0, 0, 0, 0, 1]⟩
    addresses := [1]
    linkAddress := fun _ => none
    linkAddress_valid := nofun }

def sampleEvents : List (Time × ArpEvent Nat) :=
  [(0, .lookup 7 2), (5, .lookup 8 2),
    (9, .receive (some
      { type := 2
        sourceHardwareAddress := ⟨1, [0, 0, 0, 0, 0, 2]⟩
        sourceIpv4Address := 2
        destinationHardwareAddress := ⟨1, [0, 0, 0, 0, 0, 1]⟩
        destinationIpv4Address := 1
        source_length := by decide
        length_eq := rfl }))]

/-- The reply finds both packets pending, and they are sent. -/
theorem run_tracked_iff_sample :
    ∃ n, NodeRun sampleConfig sampleEvents n ∧ n.sent.map Prod.fst = [7, 8] ∧
      ((∀ ks u, ks <+: sampleEvents → NodeRun sampleConfig ks u → Tracked sampleConfig u) ↔
        ∀ ks l u, ks ++ [l] <+: sampleEvents → NodeRun sampleConfig ks u →
          ¬MarksWaiting u l.2) := by
  have hfold : (sampleEvents.foldlM (next sampleConfig) .new).map
      (fun n => n.sent.map Prod.fst) = some [7, 8] := by
    decide +kernel
  obtain ⟨n, hn, hsent⟩ := Option.map_eq_some_iff.mp hfold
  have hrun : NodeRun sampleConfig sampleEvents n := Run.of_foldlM (fun _ _ _ h => h) hn
  exact ⟨n, hrun, hsent, run_tracked_iff hrun⟩

/-- A packet waits for an address, and the entry is made permanent: the packet was neither sent nor
reported, and stays in the queue. -/
theorem markPermanent_loses_packet :
    ¬∀ (c : NodeConfig) (es : List (Time × ArpEvent Nat)) (n : ArpL3Protocol Nat),
      NodeRun c es n → Tracked c n := by
  intro hall
  have hfold : (([(0, .lookup 7 2), (5, .markPermanent 2 (some ⟨1, [0, 0, 0, 0, 0, 2]⟩)),
      (1000000000, .waitReplyTimeout)] : List (Time × ArpEvent Nat)).foldlM
        (next sampleConfig) .new).map
      (fun n => (n.cache.waitReplyTimer, n.looked, n.sent, n.dropped)) =
        some (none, [7], [], []) := by
    decide +kernel
  obtain ⟨n, hn, hstate⟩ := Option.map_eq_some_iff.mp hfold
  have hrun : NodeRun sampleConfig _ n := Run.of_foldlM (fun _ _ _ h => h) hn
  simp only [Prod.mk.injEq] at hstate
  obtain ⟨htimer, hlooked, hsent, hdropped⟩ := hstate
  have hperm := (hall sampleConfig _ n hrun).accounted htimer
  rw [hlooked, hsent, hdropped] at hperm
  exact absurd hperm.length_eq (by decide)

end Arp

end Ns3
