/-
  The packets that a queue disc sends, and those that it reports as sent
  (src/traffic-control/model/queue-disc.cc).

  What is sent is not counted: GetStats takes from the dequeued packets those that were
  dropped afterwards, and the packet in m_requeued.  That packet has been counted as
  dequeued if its transmission failed, and has not if it was merely peeked.  In that case
  AddHeader has not been called on it either, and is not before it is sent.
-/
import Mathlib.Algebra.BigOperators.Group.Multiset.Basic
import Ns3.Lib.Run
import Ns3.TrafficControl.QueueDiscLedger

namespace Ns3

open Ns3.Lib Ns3.Lib.Notice

namespace QueueDisc

/-! ## Transmission -/

variable {it : QueuedItem}

section

variable {δ : Type} (iface : δ → Option (List Bool)) (send : Option (QueuedItem → δ → δ))

/-- `!m_devQueueIface || !m_devQueueIface->GetTxQueue (i)->IsStopped ()`. -/
def canSend (dev : δ) (i : Nat) : Except Fault Bool :=
  match iface dev with
  | none => pure true
  | some stopped =>
    match stopped[i]? with
    | none => .error .assertFailed
    | some stopped => pure !stopped

/-- `DequeuePacket`.  The header that it adds is counted in the size all along. -/
def dequeuePacket (script : DequeueScript) (dev : δ) (d : QueueDisc) :
    Except Fault (Outcome (Option QueuedItem)) := do
  match d.state.requeued with
  | some item =>
    if ← canSend iface dev item.txQueueIndex then pure (takeRequeued d item)
    else pure (d, [], none)
  | none =>
    if ← (if ((iface dev).elim 0 List.length) > 1 then pure true else canSend iface dev 0) then
      dequeue (doDequeue script) d
    else pure (d, [], none)

def requeue (item : QueuedItem) (d : QueueDisc) : QueueDisc :=
  d.withState { d.state with
    requeued := some item
    stats := { d.state.stats with requeued := d.state.stats.requeued.add item } }

/-- `Transmit`: also the packet that the device got, and whether there may be more to send. -/
def transmit (item : QueuedItem) (dev : δ) (d : QueueDisc) :
    Except Fault (QueueDisc × δ × List QueuedItem × Bool) := do
  if ← canSend iface dev item.txQueueIndex then
    match send with
    | none => .error .assertFailed
    | some send =>
      let dev := send item dev
      if d.state.nPackets = 0 then pure (d, dev, [item], false)
      else pure (d, dev, [item], ← canSend iface dev item.txQueueIndex)
  else pure (d.requeue item, dev, [], false)

def restart (script : DequeueScript) (dev : δ) (d : QueueDisc) :
    Except Fault (QueueDisc × δ × List (Notice QueuedItem) × List QueuedItem × Bool) := do
  let (d, notices, item) ← dequeuePacket iface script dev d
  match item with
  | none => pure (d, dev, notices, [], false)
  | some item => do
      let (d, dev, sent, more) ← transmit iface send item dev d
      pure (d, dev, notices, sent, more)

/-- The loop of `Run`, with what is left of the quota after a packet, and what the subclass does
for each. -/
def runLoop : Nat → (Nat → DequeueScript) → δ → QueueDisc →
    Except Fault (QueueDisc × List (Notice QueuedItem) × List QueuedItem)
  | quota, scripts, dev, d => do
      let (d, dev, notices, sent, more) ← restart iface send (scripts quota) dev d
      if more then
        match quota with
        | 0 => pure (d, notices, sent)
        | quota + 1 => do
            let (d, notices', sent') ← runLoop quota scripts dev d
            pure (d, notices ++ notices', sent ++ sent')
      else pure (d, notices, sent)

/-- `Run`: the quota is decremented before it is compared with zero. -/
def run (quota : Nat) (scripts : Nat → DequeueScript) (dev : δ) (d : QueueDisc) :
    Except Fault (QueueDisc × List (Notice QueuedItem) × List QueuedItem) :=
  runLoop iface send (wsub 32 quota 1) scripts dev d

variable {iface send} {script : DequeueScript} {dev dev' : δ} {d d' : QueueDisc}
  {notices : List (Notice QueuedItem)} {item : Option QueuedItem} {sent : List QueuedItem}
  {more : Bool}

theorem dequeuePacket_inv (h : dequeuePacket iface script dev d = .ok (d', notices, item)) :
    (∃ it, d.state.requeued = some it ∧ canSend iface dev it.txQueueIndex = .ok true ∧
        takeRequeued d it = (d', notices, item)) ∨
      d.state.requeued = none ∧ dequeue (doDequeue script) d = .ok (d', notices, item) ∨
      (d, [], none) = (d', notices, item) ∧
        ∀ it, d.state.requeued = some it → canSend iface dev it.txQueueIndex ≠ .ok true := by
  rw [dequeuePacket] at h
  split at h
  · rename_i it hsome
    obtain ⟨send, hsend, h⟩ := bind_eq_ok.mp h
    cases send with
    | true => exact .inl ⟨it, hsome, hsend, Except.ok.inj h⟩
    | false =>
      refine .inr (.inr ⟨Except.ok.inj h, fun it' hit' => ?_⟩)
      obtain rfl := Option.mem_unique hsome hit'
      rw [hsend]
      simp
  · rename_i hnone
    obtain ⟨send, -, h⟩ := bind_eq_ok.mp h
    cases send with
    | true => exact .inr (.inl ⟨hnone, h⟩)
    | false =>
      refine .inr (.inr ⟨Except.ok.inj h, fun it hit => ?_⟩)
      cases hnone.symm.trans hit

theorem dequeuePacket_balanced (hd : d.ClassesSettled)
    (hheld : d.state.peeked = true → d.state.requeued.isSome = true)
    (h : dequeuePacket iface script dev d = .ok (d', notices, item)) :
    d.Balanced d' notices item.toList ∧
      (item.isSome = true → d'.state.requeued = none ∧ d'.state.peeked = false) := by
  rcases dequeuePacket_inv h with ⟨it, hsome, -, htake⟩ | ⟨-, hdequeue⟩ | ⟨hstopped, -⟩
  · obtain ⟨hbalanced, hnone⟩ := takeRequeued_balanced hd hsome htake
    exact ⟨hbalanced, fun _ => hnone⟩
  · obtain ⟨hbalanced, hnone⟩ := dequeue_balanced (doDequeue_hands script) hd hheld hdequeue
    exact ⟨hbalanced, fun _ => hnone⟩
  · cases hstopped
    exact ⟨.refl hd hheld, fun h => by cases h⟩

theorem transmit_cases (h : transmit iface send it dev d = .ok (d', dev', sent, more)) :
    (canSend iface dev it.txQueueIndex = .ok true ∧ d' = d ∧ sent = [it]) ∨
      canSend iface dev it.txQueueIndex = .ok false ∧ d' = d.requeue it ∧ sent = [] := by
  unfold transmit at h
  obtain ⟨cansend, hsend, h⟩ := bind_eq_ok.mp h
  cases cansend with
  | false =>
    cases h
    exact .inr ⟨hsend, rfl, rfl⟩
  | true =>
    cases send with
    | none => exact nomatch h
    | some send =>
      dsimp only at h
      rw [if_pos rfl] at h
      split at h
      · cases h
        exact .inl ⟨hsend, rfl, rfl⟩
      · obtain ⟨_, -, ⟨⟩⟩ := bind_pure_eq_ok.mp h
        exact .inl ⟨hsend, rfl, rfl⟩

theorem Balanced.requeue (h : d.Balanced d' notices {it}) (hnone : d'.state.requeued = none)
    (hpeeked : d'.state.peeked = false) : d.Balanced (d'.requeue it) notices 0 := by
  have htallied := h.tallied
  have hkept : DiscState.kept { d'.state with
      requeued := some it
      stats := { d'.state.stats with requeued := d'.state.stats.requeued.add it } } = {it} := by
    rw [DiscState.kept, hpeeked]
    rfl
  refine ⟨?_, ?_, ?_, h.classes.withState _⟩
  · rw [QueueDisc.requeue, state_withState]
    exact ⟨htallied.dequeued, htallied.droppedAfterDequeue, htallied.agree⟩
  · have hbalance := h.balance
    rw [kept_of_none hnone] at hbalance
    rw [QueueDisc.requeue, state_withState, hkept, hbalance, add_zero, add_zero]
  · rw [QueueDisc.requeue, state_withState]
    exact fun _ => rfl

theorem restart_balanced (hd : d.ClassesSettled)
    (hheld : d.state.peeked = true → d.state.requeued.isSome = true)
    (h : restart iface send script dev d = .ok (d', dev', notices, sent, more)) :
    d.Balanced d' notices sent := by
  rw [restart] at h
  obtain ⟨⟨d₁, n₁, item⟩, hgot, h⟩ := bind_eq_ok.mp h
  obtain ⟨hbalanced, hnone⟩ := dequeuePacket_balanced hd hheld hgot
  cases item with
  | none =>
    cases h
    exact hbalanced
  | some it =>
    obtain ⟨hnone, hpeeked⟩ := hnone rfl
    obtain ⟨⟨d₂, dev₂, sent₂, more₂⟩, hsent, ⟨⟩⟩ := bind_pure_eq_ok.mp h
    rcases transmit_cases hsent with ⟨-, rfl, rfl⟩ | ⟨-, rfl, rfl⟩
    · exact hbalanced
    · exact hbalanced.requeue hnone hpeeked

theorem runLoop_balanced (quota : Nat) (scripts : Nat → DequeueScript) (hd : d.ClassesSettled)
    (hheld : d.state.peeked = true → d.state.requeued.isSome = true)
    (h : runLoop iface send quota scripts dev d = .ok (d', notices, sent)) :
    d.Balanced d' notices sent := by
  induction quota generalizing dev d notices sent with
  | zero =>
    rw [runLoop] at h
    obtain ⟨⟨d₁, dev₁, n₁, sent₁, more⟩, hfirst, h⟩ := bind_eq_ok.mp h
    have hbalanced := restart_balanced hd hheld hfirst
    cases more with
    | false =>
      cases h
      exact hbalanced
    | true =>
      cases h
      exact hbalanced
  | succ quota ih =>
    rw [runLoop] at h
    obtain ⟨⟨d₁, dev₁, n₁, sent₁, more⟩, hfirst, h⟩ := bind_eq_ok.mp h
    have hbalanced := restart_balanced hd hheld hfirst
    cases more with
    | false =>
      cases h
      exact hbalanced
    | true =>
      obtain ⟨⟨d₂, n₂, sent₂⟩, hrest, ⟨⟩⟩ := bind_pure_eq_ok.mp h
      rw [← Multiset.coe_add]
      exact hbalanced.trans (ih hbalanced.classes hbalanced.held hrest)

end

/-! ## Runs -/

/-- What is done to the disc. -/
inductive Call (δ : Type) where
  | enqueue (item : QueuedItem) (script : EnqueueScript)
  | dequeue (script : DequeueScript)
  | peek (script : PeekScript)
  /-- `Run`, with the device as it is then -/
  | run (quota : Nat) (scripts : Nat → DequeueScript) (dev : δ)

/-- A queue disc, what it told of since it was made, and the packets it handed out: those that
`Dequeue` returned and those that the device got. -/
structure History where
  disc : QueueDisc
  notices : List (Notice QueuedItem) := []
  handed : List QueuedItem := []

/-- A queue disc that was just made, with the queue discs of its classes. -/
inductive Fresh : QueueDisc → Prop where
  | mk {reaches : Bool} {sizes : List QueueSize} {cs : List QueueDisc} (hcs : ∀ c ∈ cs, c.Fresh) :
      Fresh (mk {} reaches (sizes.map fun size => { maxSize := size }) cs)

section

variable {δ : Type} (iface : δ → Option (List Bool)) (send : Option (QueuedItem → δ → δ))

/-- A call: the queue disc after it, what it told of, and the packets it handed out. -/
def exec (d : QueueDisc) : Call δ → Except Fault (QueueDisc × List (Notice QueuedItem) ×
    List QueuedItem)
  | .enqueue item script => do
      let (d, notices, _) ← enqueue (doEnqueue item script) item d
      pure (d, notices, [])
  | .dequeue script => do
      let (d, notices, item) ← dequeue (doDequeue script) d
      pure (d, notices, item.toList)
  | .peek script => do
      let (d, notices, _) ← doPeek script d
      pure (d, notices, [])
  | .run quota scripts dev => run iface send quota scripts dev d

def Step (r : History) (call : Call δ) (r' : History) : Prop :=
  ∃ d notices handed, exec iface send r.disc call = .ok (d, notices, handed) ∧
    r' = ⟨d, r.notices ++ notices, r.handed ++ handed⟩

def History.ReportsSent (r : History) : Prop :=
  ∃ stats sent, r.disc.state.getStats = .ok (stats, sent) ∧
    sent.packets = r.handed.length ∧ sent.bytes = Counter.bytesOf r.handed

/-- Nothing is borrowed when `GetStats` subtracts. -/
def NoBorrow (s : DiscState) : Prop :=
  (if s.requeued.isSome then 1 else 0) + s.stats.droppedAfterDequeue.packets ≤
      s.stats.dequeued.packets ∧
    s.requeued.elim 0 QueuedItem.size + s.stats.droppedAfterDequeue.bytes ≤
      s.stats.dequeued.bytes

def Fit (items : List QueuedItem) : Prop := items.length < 2 ^ 32 ∧ Counter.bytesOf items < 2 ^ 64

variable {iface send} {d : QueueDisc} {r r' : History} {call : Call δ} {calls : List (Call δ)}

/-- The counters are the sums of the notices. -/
structure History.Invariant (r : History) : Prop where
  dequeued : r.disc.state.stats.dequeued = Counter.addAll {} (taken r.notices)
  droppedAfterDequeue :
    r.disc.state.stats.droppedAfterDequeue = Counter.addAll {} (discarded r.notices)
  agree : r.disc.state.stats.DropsAgree
  balance : (taken r.notices : Multiset QueuedItem) =
    discarded r.notices + r.disc.state.kept + r.handed
  held : r.disc.state.peeked = true → r.disc.state.requeued.isSome = true
  classes : r.disc.ClassesSettled

theorem Fresh.settled (h : d.Fresh) : ∀ reaches, d.Settled reaches := by
  induction h with
  | mk hcs ih =>
    exact fun reaches =>
      ⟨rfl, fun _ => rfl, classesSettled_iff.mpr fun c hc => ih c hc _⟩

theorem Fresh.invariant (h : d.Fresh) : History.Invariant ⟨d, [], []⟩ := by
  have hclasses := (h.settled true).classes
  cases h
  exact ⟨rfl, rfl, rfl, rfl, nofun, hclasses⟩

theorem exec_balanced {d' : QueueDisc} {notices : List (Notice QueuedItem)}
    {handed : List QueuedItem} (hd : d.ClassesSettled)
    (hheld : d.state.peeked = true → d.state.requeued.isSome = true)
    (h : exec iface send d call = .ok (d', notices, handed)) : d.Balanced d' notices handed := by
  cases call with
  | enqueue item script =>
    obtain ⟨⟨d₁, n₁, _⟩, hcall, ⟨⟩⟩ := bind_pure_eq_ok.mp h
    exact (enqueue_hands (doEnqueue_hands script) hd hcall).balanced_zero hheld
  | dequeue script =>
    obtain ⟨⟨d₁, n₁, item⟩, hcall, ⟨⟩⟩ := bind_pure_eq_ok.mp h
    exact (dequeue_balanced (doDequeue_hands script) hd hheld hcall).1
  | peek script =>
    obtain ⟨⟨d₁, n₁, _⟩, hcall, ⟨⟩⟩ := bind_pure_eq_ok.mp h
    exact (doPeek_balanced script _ _ _ _ hd hheld hcall).1
  | run quota scripts dev => exact runLoop_balanced _ scripts hd hheld h

theorem History.Invariant.step (hinv : r.Invariant) (hstep : Step iface send r call r') :
    r'.Invariant := by
  obtain ⟨d, notices, handed, hcall, rfl⟩ := hstep
  have h := exec_balanced hinv.classes hinv.held hcall
  refine ⟨?_, ?_, h.tallied.agree hinv.agree, ?_, h.held, h.classes⟩
  · rw [h.tallied.dequeued, hinv.dequeued, taken_append, Counter.addAll_append]
  · rw [h.tallied.droppedAfterDequeue, hinv.droppedAfterDequeue, discarded_append,
      Counter.addAll_append]
  · have hbalance := h.balance
    have hbefore := hinv.balance
    rw [taken_append, discarded_append, ← Multiset.coe_add, ← Multiset.coe_add,
      ← Multiset.coe_add, hbefore]
    calc discarded r.notices + r.disc.state.kept + r.handed + taken notices
        = discarded r.notices + r.handed + (taken notices + r.disc.state.kept) := by abel
      _ = _ := by
        rw [hbalance]
        abel

theorem run_invariant (hfresh : d.Fresh) (hrun : Run (Step iface send) ⟨d, [], []⟩ calls r) :
    r.Invariant :=
  hrun.invariant hfresh.invariant fun _ _ _ hinv hstep => hinv.step hstep

theorem kept_of_not_peeked {s : DiscState} (hpeeked : s.peeked = false) :
    s.kept = s.requeued.toList := by
  rw [DiscState.kept, hpeeked]
  rfl

section

variable {w : Nat}

theorem wsub_wsub (a k h : Nat) :
    wsub w (wsub w ((a + k + h) % 2 ^ w) k) (a % 2 ^ w) = h % 2 ^ w := by
  have hmod (x b : Nat) : wsub w x (b % 2 ^ w) = wsub w x b := by
    rw [wsub, wsub, Nat.mod_mod]
  rw [hmod, Nat.add_right_comm, Nat.add_comm, wsub_mod, wsub_mod]

end

section

variable (hinv : r.Invariant)

include hinv

theorem History.Invariant.count :
    (taken r.notices).length =
        (discarded r.notices).length + r.disc.state.kept.card + r.handed.length ∧
      Counter.bytesOf (taken r.notices) = Counter.bytesOf (discarded r.notices) +
        (r.disc.state.kept.map QueuedItem.size).sum + Counter.bytesOf r.handed := by
  have hcard := congrArg Multiset.card hinv.balance
  have hsum := congrArg (fun m => (m.map QueuedItem.size).sum) hinv.balance
  simp only [Multiset.card_add, Multiset.coe_card] at hcard
  simp only [Multiset.map_add, Multiset.sum_add, Multiset.map_coe, Multiset.sum_coe] at hsum
  exact ⟨hcard, hsum⟩

theorem History.Invariant.sent_eq (hpeeked : r.disc.state.peeked = false) :
    r.disc.state.sent = ⟨r.handed.length % 2 ^ 32, Counter.bytesOf r.handed % 2 ^ 64⟩ := by
  obtain ⟨hcount, hbytes⟩ := hinv.count
  rw [kept_of_not_peeked hpeeked] at hcount hbytes
  have hone : (r.disc.state.requeued.toList : Multiset QueuedItem).card =
      if r.disc.state.requeued.isSome then 1 else 0 := by
    cases r.disc.state.requeued <;> rfl
  have hsize : ((r.disc.state.requeued.toList : Multiset QueuedItem).map QueuedItem.size).sum =
      r.disc.state.requeued.elim 0 QueuedItem.size := by
    cases r.disc.state.requeued <;> rfl
  rw [hone] at hcount
  rw [hsize] at hbytes
  rw [DiscState.sent, hinv.dequeued, hinv.droppedAfterDequeue, Counter.addAll_empty,
    Counter.addAll_empty]
  dsimp only
  rw [hcount, hbytes, wsub_wsub, wsub_wsub]

theorem History.Invariant.sent_ne (hpeeked : r.disc.state.peeked = true) :
    r.disc.state.sent.packets ≠ r.handed.length := by
  obtain ⟨hcount, -⟩ := hinv.count
  rw [kept_of_peeked hpeeked, Multiset.card_zero, Nat.add_zero] at hcount
  rw [DiscState.sent, hinv.dequeued, hinv.droppedAfterDequeue, Counter.addAll_empty,
    Counter.addAll_empty, if_pos (hinv.held hpeeked)]
  dsimp only
  rw [hcount]
  generalize (discarded r.notices).length = a, r.handed.length = h
  rw [wsub, wsub]
  omega

/-- The statistics say what was sent when nothing is peeked and no counter wrapped. -/
theorem History.Invariant.reportsSent_iff :
    r.ReportsSent ↔ r.disc.state.peeked = false ∧ Fit r.handed := by
  have hstats := DiscState.getStats_eq hinv.agree
  constructor
  · rintro ⟨stats, sent, hget, hpackets, hbytes⟩
    cases hstats.symm.trans hget
    have hpeeked : r.disc.state.peeked = false := by
      rw [← Bool.not_eq_true]
      exact fun hp => hinv.sent_ne hp hpackets
    rw [hinv.sent_eq hpeeked] at hpackets hbytes
    refine ⟨hpeeked, ?_, ?_⟩
    · rw [← hpackets]
      exact Nat.mod_lt _ (Nat.two_pow_pos 32)
    · rw [← hbytes]
      exact Nat.mod_lt _ (Nat.two_pow_pos 64)
  · rintro ⟨hpeeked, hlen, hsize⟩
    refine ⟨_, _, hstats, ?_, ?_⟩
    · rw [hinv.sent_eq hpeeked]
      exact Nat.mod_eq_of_lt hlen
    · rw [hinv.sent_eq hpeeked]
      exact Nat.mod_eq_of_lt hsize

theorem History.Invariant.noBorrow (hpeeked : r.disc.state.peeked = false)
    (hfit : Fit (taken r.notices)) : NoBorrow r.disc.state := by
  obtain ⟨hcount, hbytes⟩ := hinv.count
  obtain ⟨hlen, hsize⟩ := hfit
  rw [kept_of_not_peeked hpeeked] at hcount hbytes
  rw [NoBorrow, hinv.dequeued, hinv.droppedAfterDequeue, Counter.addAll_empty,
    Counter.addAll_empty]
  dsimp only
  rw [Nat.mod_eq_of_lt hlen, Nat.mod_eq_of_lt hsize, hcount, hbytes]
  have hdropped : (discarded r.notices).length % 2 ^ 32 ≤ (discarded r.notices).length :=
    Nat.mod_le _ _
  have hdropped' : Counter.bytesOf (discarded r.notices) % 2 ^ 64 ≤
      Counter.bytesOf (discarded r.notices) := Nat.mod_le _ _
  cases r.disc.state.requeued with
  | none =>
    refine ⟨?_, ?_⟩
    · change 0 + _ ≤ _ + 0 + _
      omega
    · change 0 + _ ≤ _ + 0 + _
      omega
  | some it =>
    have hone : (((some it).toList : List QueuedItem) : Multiset QueuedItem).card = 1 := rfl
    have hweight : ((((some it).toList : List QueuedItem) : Multiset QueuedItem).map
        QueuedItem.size).sum = it.size := rfl
    rw [hone, hweight]
    refine ⟨?_, ?_⟩
    · change 1 + _ ≤ _
      omega
    · change it.size + _ ≤ _
      omega

end

/-- **Sent packets**: in every state that a run reaches, they are reported right exactly if no
packet is held back for a peek and what was sent fits into the counters, and nothing is then
borrowed while the dequeued packets fit too. -/
theorem reports_sent_iff (hfresh : d.Fresh)
    (hrun : Run (Step iface send) ⟨d, [], []⟩ calls r) :
    (r.ReportsSent ↔ r.disc.state.peeked = false ∧ Fit r.handed) ∧
      (r.disc.state.peeked = false → Fit (taken r.notices) → NoBorrow r.disc.state) := by
  have hinv := run_invariant hfresh hrun
  exact ⟨hinv.reportsSent_iff, hinv.noBorrow⟩

end

def oneQueue : QueueDisc := empty false [⟨.packets, 1000⟩]

def aPacket : QueuedItem where
  uid := 1
  size := 100
  txQueueIndex := 0

def enqueueIt : Call Unit := .enqueue aPacket (.toQueue 0 0 .null)

def takeIt : DequeueScript := .fromQueue 0 0 true .null

theorem oneQueue_fresh : oneQueue.Fresh := .mk nofun

/-- A packet is enqueued and dequeued. -/
theorem reports_sent_one : ∃ r, Run (Step (fun _ => none) none) ⟨oneQueue, [], []⟩
      [enqueueIt, .dequeue takeIt] r ∧
    (r.ReportsSent ↔ r.disc.state.peeked = false ∧ Fit r.handed) ∧
      (r.disc.state.peeked = false → Fit (taken r.notices) → NoBorrow r.disc.state) := by
  have hrun : Run (Step (fun _ : Unit => none) none) ⟨oneQueue, [], []⟩
      [enqueueIt, .dequeue takeIt] _ :=
    .snoc (.snoc .nil ⟨_, _, _, rfl, rfl⟩) ⟨_, _, _, rfl, rfl⟩
  exact ⟨_, hrun, reports_sent_iff oneQueue_fresh hrun⟩

/-- A packet is enqueued and peeked: `GetStats` reports 4294967295 packets as sent. -/
theorem peek_reports_sent : ∃ r, Run (Step (fun _ => none) none) ⟨oneQueue, [], []⟩
      [enqueueIt, .peek (.byDequeue takeIt)] r ∧
    r.handed = [] ∧ r.disc.state.sent = ⟨2 ^ 32 - 1, 2 ^ 64 - 100⟩ ∧ ¬r.ReportsSent ∧
      ¬NoBorrow r.disc.state := by
  refine ⟨_, .snoc (.snoc .nil ⟨_, _, _, rfl, rfl⟩) ⟨_, _, _, rfl, rfl⟩, rfl, rfl, ?_, ?_⟩
  · rintro ⟨stats, sent, hget, hpackets, -⟩
    cases hget
    exact absurd hpackets (by decide)
  · exact fun h => absurd h.1 (by decide)

/-! ## Headers -/

/-- A queue disc, how often `AddHeader` was called on the packet in `m_requeued`, and the packets
that the device got, each with how often it was called on them. -/
structure Marked where
  disc : QueueDisc
  held : Nat := 0
  sent : List (QueuedItem × Nat) := []

section

variable {δ : Type} (iface : δ → Option (List Bool)) (send : Option (QueuedItem → δ → δ))

/-- `Restart`, with the calls of `AddHeader` that `DequeuePacket` makes. -/
def restartMarked (script : DequeueScript) (dev : δ) (m : Marked) :
    Except Fault (Marked × δ × Bool) := do
  let (d, dev, _, sent, more) ← restart iface send script dev m.disc
  -- only what `Dequeue` returned is given a header
  let headers := if m.disc.state.requeued.isSome then m.held else 1
  pure (⟨d, headers, m.sent ++ sent.map fun item => (item, headers)⟩, dev, more)

def runMarked : Nat → (Nat → DequeueScript) → δ → Marked → Except Fault Marked
  | quota, scripts, dev, m => do
      let (m, dev, more) ← restartMarked iface send (scripts quota) dev m
      if more then
        match quota with
        | 0 => pure m
        | quota + 1 => runMarked quota scripts dev m
      else pure m

/-- After a call other than `Run`: what it peeked has no header yet. -/
def Marked.after (m : Marked)
    (outcome : Except Fault (QueueDisc × List (Notice QueuedItem) × List QueuedItem)) :
    Except Fault Marked := do
  let (d, _, _) ← outcome
  pure { m with disc := d, held := if m.disc.state.requeued.isSome then m.held else 0 }

def execMarked (m : Marked) : Call δ → Except Fault Marked
  | .run quota scripts dev => runMarked iface send (wsub 32 quota 1) scripts dev m
  | call => m.after (exec iface send m.disc call)

def MarkedStep (m : Marked) (call : Call δ) (m' : Marked) : Prop :=
  execMarked iface send m call = .ok m'

/-- `AddHeader` was called once on every packet that was sent. -/
def Marked.HeadersOnce (m : Marked) : Prop := ∀ p ∈ m.sent, p.2 = 1

/-- No packet is held back for a peek that the device would take. -/
def Marked.Unpeeked (m : Marked) (dev : δ) : Prop :=
  ∀ item, m.disc.state.requeued = some item → m.disc.state.peeked = true →
    canSend iface dev item.txQueueIndex ≠ .ok true

/-- A call does not send what was peeked. -/
def Marked.Spares (m : Marked) : Call δ → Prop
  | .run _ _ dev => m.Unpeeked iface dev
  | _ => True

/-- `AddHeader` was called once on every packet that a call of a run has sent. -/
def OnceAlong (d : QueueDisc) (calls : List (Call δ)) : Prop :=
  ∀ pre call t u, pre ++ [call] <+: calls → Run (MarkedStep iface send) { disc := d } pre t →
    MarkedStep iface send t call u → u.HeadersOnce

def SparesAlong (d : QueueDisc) (calls : List (Call δ)) : Prop :=
  ∀ pre call t u, pre ++ [call] <+: calls → Run (MarkedStep iface send) { disc := d } pre t →
    MarkedStep iface send t call u → t.Spares iface call

variable {iface send} {script : DequeueScript} {dev dev' : δ} {d d' : QueueDisc}
  {notices : List (Notice QueuedItem)} {item : QueuedItem} {headers : Nat} {more : Bool}
  {m m' m'' : Marked} {call : Call δ} {calls : List (Call δ)} {P : Prop}

/-- Only a requeued packet that was not peeked has its header. -/
structure Marked.Invariant (m : Marked) : Prop where
  held : m.disc.state.peeked = true → m.disc.state.requeued.isSome = true
  classes : m.disc.ClassesSettled
  headers : m.disc.state.requeued.isSome = true → m.held = if m.disc.state.peeked then 0 else 1

/-- The packets that are sent have one header each exactly if `P`. -/
structure Marked.Sends (m m' : Marked) (P : Prop) : Prop where
  inv : m'.Invariant
  sent : ∃ l, m'.sent = m.sent ++ l ∧ ((∀ p ∈ l, p.2 = 1) ↔ P)

theorem Marked.Sends.trans (h : m.Sends m' P) (h' : m'.Sends m'' True) : m.Sends m'' P := by
  obtain ⟨l, hl, honce⟩ := h.sent
  obtain ⟨l', hl', honce'⟩ := h'.sent
  refine ⟨h'.inv, l ++ l', ?_, ?_⟩
  · rw [hl', hl, List.append_assoc]
  · rw [List.forall_mem_append, honce, honce', and_true]

theorem Marked.Sends.nothing (h : m'.Invariant) (hsent : m'.sent = m.sent) (hP : P) :
    m.Sends m' P :=
  ⟨h, [], by rw [hsent, List.append_nil], iff_of_true nofun hP⟩

variable {hand : Multiset QueuedItem}

theorem Marked.Invariant.of_empty {marked : List (QueuedItem × Nat)}
    (h : d.Balanced d' notices hand) (hempty : d'.state.requeued = none) :
    Marked.Invariant ⟨d', headers, marked⟩ := by
  refine ⟨h.held, h.classes, ?_⟩
  rw [hempty]
  exact nofun

theorem takeRequeued_item {item : Option QueuedItem} (h : takeRequeued d it = (d', notices, item)) :
    some it = item := by
  rw [takeRequeued] at h
  dsimp only at h
  split at h
  · exact (Prod.mk.inj (Prod.mk.inj h).2).2
  · exact (Prod.mk.inj (Prod.mk.inj h).2).2

theorem restartMarked_sends (hinv : m.Invariant)
    (h : restartMarked iface send script dev m = .ok (m', dev', more)) :
    m.Sends m' (m.Unpeeked iface dev) ∧ (more = true → m'.disc.state.peeked = false) := by
  obtain ⟨⟨d, dev₁, notices, sent, more₁⟩, hrestart, ⟨⟩⟩ := bind_pure_eq_ok.mp h
  obtain ⟨⟨d₁, n₁, taken⟩, hgot, hrestart⟩ := bind_eq_ok.mp hrestart
  obtain ⟨hbalanced, hleft⟩ := dequeuePacket_balanced hinv.classes hinv.held hgot
  rcases dequeuePacket_inv hgot with ⟨it, hsome, hsend, htake⟩ | ⟨hnone, hdequeue⟩ |
      ⟨hkept, hstopped⟩
  · obtain rfl : some it = taken := takeRequeued_item htake
    obtain ⟨⟨d₂, dev₂, sent₂, more₂⟩, htransmit, ⟨⟩⟩ := bind_pure_eq_ok.mp hrestart
    obtain ⟨hempty, hpeeked⟩ := hleft rfl
    have hisSome : m.disc.state.requeued.isSome = true := by
      rw [hsome]
      rfl
    rcases transmit_cases htransmit with ⟨-, rfl, rfl⟩ | ⟨hstop, -⟩
    · rw [if_pos hisSome, hinv.headers hisSome]
      refine ⟨⟨.of_empty hbalanced hempty, [_], rfl, ?_⟩, fun _ => hpeeked⟩
      rw [List.forall_mem_singleton]
      cases hwas : m.disc.state.peeked with
      | true => exact iff_of_false Nat.zero_ne_one fun hun => hun it hsome hwas hsend
      | false => exact iff_of_true rfl fun _ _ hp => nomatch hwas.symm.trans hp
    · cases hsend.symm.trans hstop
  · have hun : m.Unpeeked iface dev := fun it hit => by cases hnone.symm.trans hit
    have hone : (if m.disc.state.requeued.isSome then m.held else 1) = 1 := by
      rw [hnone]
      rfl
    rw [hone]
    cases taken with
    | none =>
      cases hrestart
      have hempty := (dequeue_balanced (doDequeue_hands script) hinv.classes hinv.held hdequeue).2.1
      exact ⟨.nothing (.of_empty hbalanced hempty) (List.append_nil _) hun, nofun⟩
    | some it =>
      obtain ⟨⟨d₂, dev₂, sent₂, more₂⟩, htransmit, ⟨⟩⟩ := bind_pure_eq_ok.mp hrestart
      obtain ⟨hempty, hpeeked⟩ := hleft rfl
      rcases transmit_cases htransmit with ⟨-, rfl, rfl⟩ | ⟨-, rfl, rfl⟩
      · refine ⟨⟨.of_empty hbalanced hempty, [_], rfl, ?_⟩, fun _ => hpeeked⟩
        exact iff_of_true (List.forall_mem_singleton.mpr rfl) hun
      · have hrequeued := hbalanced.requeue hempty hpeeked
        have hstill : (d₁.requeue it).state.peeked = false := by
          rw [QueueDisc.requeue, state_withState]
          exact hpeeked
        refine ⟨.nothing ⟨hrequeued.held, hrequeued.classes, fun _ => ?_⟩ (List.append_nil _) hun,
          fun _ => hstill⟩
        rw [hstill]
        rfl
  · cases hkept
    cases hrestart
    refine ⟨.nothing ⟨hinv.held, hinv.classes, fun hsome => ?_⟩ (List.append_nil _)
      fun it hit _ => hstopped it hit, nofun⟩
    rw [if_pos hsome]
    exact hinv.headers hsome

theorem runMarked_sends (quota : Nat) (scripts : Nat → DequeueScript) (hinv : m.Invariant)
    (h : runMarked iface send quota scripts dev m = .ok m') :
    m.Sends m' (m.Unpeeked iface dev) := by
  induction quota generalizing dev m with
  | zero =>
    rw [runMarked] at h
    obtain ⟨⟨m₁, dev₁, more⟩, hfirst, h⟩ := bind_eq_ok.mp h
    have hsends := (restartMarked_sends hinv hfirst).1
    cases more with
    | false =>
      cases h
      exact hsends
    | true =>
      cases h
      exact hsends
  | succ quota ih =>
    rw [runMarked] at h
    obtain ⟨⟨m₁, dev₁, more⟩, hfirst, h⟩ := bind_eq_ok.mp h
    obtain ⟨hsends, hpeeked⟩ := restartMarked_sends hinv hfirst
    cases more with
    | false =>
      cases h
      exact hsends
    | true =>
      have hun : m₁.Unpeeked iface dev₁ := fun _ _ hp => nomatch (hpeeked rfl).symm.trans hp
      obtain ⟨hinv', l, hl, honce⟩ := ih hsends.inv h
      exact hsends.trans ⟨hinv', l, hl, honce.trans (iff_true_intro hun)⟩

theorem Marked.Sends.after (hinv : m.Invariant) (h : m.disc.Balanced d' notices hand)
    (hmarks : Holds m.disc.state d'.state ∨ d'.state.requeued = none) :
    m.Sends { m with
      disc := d'
      held := if m.disc.state.requeued.isSome then m.held else 0 } True := by
  refine .nothing ⟨h.held, h.classes, fun hsome => ?_⟩ rfl trivial
  rcases hmarks with (⟨hrequeued, hpeeked⟩ | ⟨hnone, hpeeked⟩) | hempty
  · rw [hrequeued] at hsome
    rw [if_pos hsome, hpeeked]
    exact hinv.headers hsome
  · rw [hnone, hpeeked, hsome]
    rfl
  · rw [hempty] at hsome
    cases hsome

theorem execMarked_sends (hinv : m.Invariant) (h : execMarked iface send m call = .ok m') :
    m.Sends m' (m.Spares iface call) := by
  cases call with
  | run quota scripts dev => exact runMarked_sends _ scripts hinv h
  | enqueue item script =>
    obtain ⟨⟨d, n, handed⟩, hcall, ⟨⟩⟩ := bind_pure_eq_ok.mp h
    have hbalanced := exec_balanced hinv.classes hinv.held hcall
    obtain ⟨⟨d₁, n₁, _⟩, henqueue, ⟨⟩⟩ := bind_pure_eq_ok.mp hcall
    have hcounted := (enqueue_hands (doEnqueue_hands script) hinv.classes henqueue).counted
    exact .after hinv hbalanced (.inl (.inl ⟨hcounted.requeued, hcounted.peeked⟩))
  | dequeue script =>
    obtain ⟨⟨d, n, handed⟩, hcall, ⟨⟩⟩ := bind_pure_eq_ok.mp h
    have hbalanced := exec_balanced hinv.classes hinv.held hcall
    obtain ⟨⟨d₁, n₁, _⟩, hdequeue, ⟨⟩⟩ := bind_pure_eq_ok.mp hcall
    have hempty := (dequeue_balanced (doDequeue_hands script) hinv.classes hinv.held hdequeue).2.1
    exact .after hinv hbalanced (.inr hempty)
  | peek script =>
    obtain ⟨⟨d, n, handed⟩, hcall, ⟨⟩⟩ := bind_pure_eq_ok.mp h
    have hbalanced := exec_balanced hinv.classes hinv.held hcall
    obtain ⟨⟨d₁, n₁, _⟩, hpeek, ⟨⟩⟩ := bind_pure_eq_ok.mp hcall
    have hholds := (doPeek_balanced script _ _ _ _ hinv.classes hinv.held hpeek).2
    exact .after hinv hbalanced (.inl hholds)

/-- **Headers** are added once to every packet that a run sends exactly if no call sends what was
peeked. -/
theorem headers_once_iff (hfresh : d.Fresh)
    (hrun : Run (MarkedStep iface send) { disc := d } calls m) :
    OnceAlong iface send d calls ↔ SparesAlong iface send d calls := by
  have hinv : Marked.Invariant { disc := d } := by
    have hclasses := (hfresh.settled true).classes
    cases hfresh
    exact ⟨nofun, hclasses, nofun⟩
  refine hrun.steps_iff (I := fun m => m.Invariant ∧ m.HeadersOnce)
    (P := fun _ _ u => u.HeadersOnce)
    ⟨hinv, nofun⟩ (fun _ _ _ h hstep honce => ⟨(execMarked_sends h.1 hstep).inv, honce⟩) ?_
  intro t call u h hstep
  obtain ⟨l, hl, honce⟩ := (execMarked_sends h.1 hstep).sent
  rw [Marked.HeadersOnce, hl, List.forall_mem_append, honce]
  exact and_iff_right h.2

end

/-- A packet is enqueued, and the device takes it. -/
theorem headers_once_one : ∃ m,
    Run (MarkedStep (fun _ => none) (some fun _ dev => dev)) { disc := oneQueue }
      [enqueueIt, .run 1 (fun _ => takeIt) ()] m ∧ m.sent = [(aPacket, 1)] ∧
    (OnceAlong (fun _ => none) (some fun _ dev => dev) oneQueue
        [enqueueIt, .run 1 (fun _ => takeIt) ()] ↔
      SparesAlong (fun _ => none) (some fun _ dev => dev) oneQueue
        [enqueueIt, .run 1 (fun _ => takeIt) ()]) := by
  have hrun : Run (MarkedStep (fun _ : Unit => none) (some fun _ dev => dev)) { disc := oneQueue }
      [enqueueIt, .run 1 (fun _ => takeIt) ()] _ := .snoc (.snoc .nil rfl) (by rfl)
  exact ⟨_, hrun, rfl, headers_once_iff oneQueue_fresh hrun⟩

/-- A packet is enqueued and peeked: the device gets it without a header. -/
theorem peek_no_header : ∃ m, Run (MarkedStep (fun _ => none) (some fun _ dev => dev))
      { disc := oneQueue } [enqueueIt, .peek (.byDequeue takeIt), .run 1 (fun _ => takeIt) ()] m ∧
    m.sent = [(aPacket, 0)] ∧ ¬m.HeadersOnce := by
  refine ⟨_, .snoc (.snoc (.snoc .nil rfl) rfl) (by rfl), rfl, fun h => ?_⟩
  exact absurd (h (aPacket, 0) (.head _)) Nat.zero_ne_one

end QueueDisc

end Ns3
