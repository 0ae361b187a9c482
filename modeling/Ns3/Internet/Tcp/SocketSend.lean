/-
  What a socket refuses to send
  (src/internet/model/tcp-socket-base.cc).

  `Send` stores the packet before it looks at `m_shutdownSend`, so that it can
  refuse a packet that is in the buffer already.  A run is made of the calls of
  the application, which are the source's, and of what the rest of the socket
  may do meanwhile: it calls the buffer as it likes, but for `Add`, and sets the
  other variables as it likes.
-/
import Ns3.Internet.Tcp.SocketWindow
import Ns3.Internet.Tcp.TcpRateOps
import Ns3.Internet.Tcp.TxLimit

namespace Ns3.Tcp

open Ns3.Lib SequenceNumber TcpTxBuffer

/-- `Socket::SocketErrno`, the values that `Send` sets. -/
inductive SocketErrno where
  | notError
  | notConn
  | msgSize
  | shutdown
  deriving DecidableEq, Repr

/-- What `Send`, `ShutdownSend` and `Close` read and write of a socket. -/
structure SendSocket where
  state : TcpState := .closed
  errno : SocketErrno := .notError
  shutdownSend : Bool := false
  closeOnEmpty : Bool := false
  closeNotified : Bool := false
  /-- `m_endPoint` or `m_endPoint6` is set -/
  endPoint : Bool := true
  /-- `m_sendPendingDataEvent` is pending -/
  sendPending : Bool := false
  txBuffer : TcpTxBuffer
  rateOps : TcpRateLinux := {}
  cWnd : Nat := 0
  rWnd : Nat := 0
  bytesInFlight : Nat := 0
  segmentSize : Nat := 536
  nextTxSequence : SequenceNumber32 := .ofNat 0
  deriving DecidableEq, Repr

namespace SendSocket

/-- `AvailableWindow`; `BytesInFlight` keeps what it computes in `m_bytesInFlight`. -/
def availableWindow (s : SendSocket) : Except Fault (SendSocket × Nat) := do
  let win := min s.rWnd s.cWnd
  let inflight ← s.txBuffer.bytesInFlight
  pure ({ s with bytesInFlight := inflight }, if win < inflight then 0 else win - inflight)

/-- The end of `Send`: the data is submitted to the lower layers. -/
def submit (s : SendSocket) : Except Fault SendSocket :=
  if s.state = .established ∨ s.state = .closeWait then do
    let (s, window) ← s.availableWindow
    pure (if 0 < window then { s with sendPending := true } else s)
  else pure s

/-- The states in which `Send` takes data. -/
def canSend (s : SendSocket) : Bool :=
  s.state = .established || s.state = .synSent || s.state = .closeWait

def store (s : SendSocket) (p : Packet) : SendSocket :=
  { s with txBuffer := (s.txBuffer.add p).1 }

/-- The estimator is told whether the application limits the connection. -/
def calculateAppLimited (s : SendSocket) : SendSocket :=
  { s with
    rateOps := s.rateOps.calculateAppLimited s.cWnd s.bytesInFlight s.segmentSize
      s.txBuffer.tailSequence s.nextTxSequence s.txBuffer.lostOut s.txBuffer.retrans }

/-- `Send`: the socket, and the `int` it returns. -/
def send (s : SendSocket) (p : Packet) (flags : UInt32) : Except Fault (SendSocket × Int) :=
  if flags ≠ 0 then .error .aborted
  else if s.canSend then
    if !(s.txBuffer.add p).2 then pure ({ s.store p with errno := .msgSize }, -1)
    else if s.shutdownSend then pure ({ s.store p with errno := .shutdown }, -1)
    else do
      let s ← (s.store p).calculateAppLimited.submit
      pure (s, toSigned 32 p.length)
  else pure ({ s with errno := .notConn }, -1)

/-- `ShutdownSend`. -/
def shutdown (s : SendSocket) : SendSocket :=
  let s := { s with shutdownSend := true, closeOnEmpty := true }
  if s.txBuffer.size = 0 then
    match s.state with
    | .established => { s with state := .finWait1 }
    | .closeWait => { s with state := .lastAck }
    | _ => s
  else s

/-- `DeallocateEndPoint`, which cancels the timers. -/
def deallocateEndPoint (s : SendSocket) : SendSocket :=
  if s.endPoint then { s with endPoint := false, sendPending := false } else s

def closeAndNotify (s : SendSocket) : SendSocket :=
  deallocateEndPoint { s with closeNotified := true, state := .closed }

def doClose (s : SendSocket) : SendSocket :=
  match s.state with
  | .synRcvd | .established => { s with state := .finWait1 }
  | .closeWait => { s with state := .lastAck }
  | .synSent | .closing => s.deallocateEndPoint.closeAndNotify
  | .listen => s.closeAndNotify
  | _ => s

/-- `Close`; `unread` tells that the reception buffer is not empty. -/
def close (s : SendSocket) (unread : Bool) : SendSocket :=
  if unread then s.deallocateEndPoint
  else if 0 < s.txBuffer.sizeFromSequence s.nextTxSequence then { s with closeOnEmpty := true }
  else s.doClose

end SendSocket

/-! ## Runs -/

/-- A call of the application, or something that the rest of the socket does. -/
inductive SocketOp where
  | send (p : Packet) (flags : UInt32)
  | shutdownSend
  | close (unread : Bool)
  | setSndBufSize (n : UInt32)
  | buffer (op : TxOp)
  | setHeadSequence (seq : SequenceNumber32)
  /-- the variables but `m_txBuffer` and `m_shutdownSend` are set -/
  | other (s : SendSocket)
  deriving DecidableEq, Repr

/-- A socket, and the bytes that the application was told had been taken. -/
structure SendRun where
  socket : SendSocket
  taken : List UInt8
  deriving DecidableEq, Repr

namespace SendRun

def withBuffer (r : SendRun) (b : TcpTxBuffer) : SendRun :=
  { r with socket := { r.socket with txBuffer := b } }

def next (r : SendRun) : SocketOp → Option SendRun
  | .send p flags =>
    match r.socket.send p flags with
    | .error _ => none
    | .ok (s, result) =>
      some { socket := s, taken := if result = -1 then r.taken else r.taken ++ p }
  | .shutdownSend => some { r with socket := r.socket.shutdown }
  | .close unread => some { r with socket := r.socket.close unread }
  | .setSndBufSize n => some (r.withBuffer (r.socket.txBuffer.setMaxBufferSize n))
  | .buffer (.add _) => none
  | .buffer op => (op.exec r.socket.txBuffer).toOption.map r.withBuffer
  | .setHeadSequence seq => (r.socket.txBuffer.setHeadSequence seq).toOption.map r.withBuffer
  | .other s =>
    some { r with
      socket := { s with
        txBuffer := r.socket.txBuffer
        shutdownSend := r.socket.shutdownSend } }

/-- A refusal is one: `Send` returns -1 with the buffer as it was, and a segment carries
bytes that were taken. -/
def Refuses (r : SendRun) : SocketOp → Prop
  | .send p flags => ∀ s, r.socket.send p flags = .ok (s, -1) → s.txBuffer = r.socket.txBuffer
  | .buffer (.copyFromSequence now numBytes seq) => ∀ b item,
      r.socket.txBuffer.copyFromSequence now numBytes seq = .ok (b, some item) →
        List.Subperm item.packet r.taken
  | _ => True

end SendRun

/-- `Send` stores the packet and returns -1: sending was shut down, or the size of the
packet is -1 when it is read as an `int`, and no assertion stops `Send` before. -/
def SendSocket.leaks (s : SendSocket) (p : Packet) (flags : UInt32) : Bool :=
  flags == 0 && s.canSend && decide (0 < p.length) && decide (p.length ≤ s.txBuffer.available) &&
    (s.shutdownSend || decide (p.length = 2 ^ 32 - 1) && (decide (s.state = .synSent) ||
      decide (wadd 32 s.txBuffer.sackedOut s.txBuffer.lostOut ≤ s.txBuffer.sentSize)))

/-! ## One call of `Send` -/

namespace TcpTxBuffer

variable {b : TcpTxBuffer} {p : Packet}

theorem add_eq_self_iff : (b.add p).1 = b ↔ ¬(0 < p.length ∧ p.length ≤ b.available) := by
  rw [add]
  split
  · split
    · refine iff_of_false ?_ (by omega)
      intro h
      have hlist := congrArg (fun b => b.appList.length) h
      simp at hlist
    · exact iff_of_true rfl (by omega)
  · exact iff_of_true rfl (by omega)

theorem add_refused_iff : (b.add p).2 = false ↔ ¬p.length ≤ b.available := by
  rw [add]
  split
  · split <;> simp_all
  · simp_all

theorem add_counters (b : TcpTxBuffer) (p : Packet) : (b.add p).1.sackedOut = b.sackedOut ∧
    (b.add p).1.lostOut = b.lostOut ∧ (b.add p).1.sentSize = b.sentSize := by
  rw [add]
  split
  · split
    · exact ⟨rfl, rfl, rfl⟩
    · exact ⟨rfl, rfl, rfl⟩
  · exact ⟨rfl, rfl, rfl⟩

theorem available_lt (b : TcpTxBuffer) : b.available < 2 ^ 32 := Nat.mod_lt _ (by decide)

end TcpTxBuffer

namespace SendSocket

variable {s s' : SendSocket} {p : Packet} {flags : UInt32}

/-- No assertion stops the end of `Send`: the window is not computed, or the counters of
the buffer are not more than what was sent. -/
def Submits (s : SendSocket) : Prop :=
  s.state = .synSent ∨ wadd 32 s.txBuffer.sackedOut s.txBuffer.lostOut ≤ s.txBuffer.sentSize

theorem submit_eq_ok (hcan : s.canSend = true) (h : s.submit = .ok s') :
    s'.txBuffer = s.txBuffer ∧ s.Submits := by
  rw [submit] at h
  split at h
  · simp only [availableWindow, TcpTxBuffer.bytesInFlight, bind_eq_ok, nsAssert_eq_ok,
      pure_eq_ok] at h
    obtain ⟨_, ⟨inflight, ⟨_, hcounts, _⟩, rfl⟩, rfl⟩ := h
    refine ⟨?_, .inr (of_decide_eq_true hcounts)⟩
    dsimp only
    generalize (if min s.rWnd s.cWnd < inflight then 0 else min s.rWnd s.cWnd - inflight) = window
    split <;> rfl
  · rename_i hopen
    rw [pure_eq_ok] at h
    subst h
    refine ⟨rfl, .inl ?_⟩
    simp only [canSend, Bool.or_eq_true, decide_eq_true_eq] at hcan
    tauto

theorem submit_returns (hsubmits : s.Submits) : ∃ s', s.submit = .ok s' := by
  rw [submit]
  by_cases hopen : s.state = .established ∨ s.state = .closeWait
  · have hcounts : wadd 32 s.txBuffer.sackedOut s.txBuffer.lostOut ≤ s.txBuffer.sentSize := by
      rcases hsubmits with hsyn | hcounts
      · rw [hsyn] at hopen
        simp at hopen
      · exact hcounts
    rw [if_pos hopen, availableWindow, TcpTxBuffer.bytesInFlight,
      nsAssert_of hcounts]
    exact ⟨_, rfl⟩
  · rw [if_neg hopen]
    exact ⟨s, rfl⟩

theorem store_submits : (s.store p).calculateAppLimited.Submits ↔ s.Submits := by
  rw [Submits, Submits, ← (add_counters s.txBuffer p).1, ← (add_counters s.txBuffer p).2.1,
    ← (add_counters s.txBuffer p).2.2]
  rfl

theorem toSigned_eq_neg_one (hlt : p.length < 2 ^ 32) :
    toSigned 32 p.length = -1 ↔ p.length = 2 ^ 32 - 1 := by
  unfold toSigned halfMaxValue
  split <;> omega

theorem send_cases {result : Int} (h : s.send p flags = .ok (s', result)) :
    flags = 0 ∧
    ((s.canSend = false ∧ s'.txBuffer = s.txBuffer ∧ result = -1) ∨
      (s.canSend = true ∧ ¬p.length ≤ s.txBuffer.available ∧ s'.txBuffer = s.txBuffer ∧
        result = -1) ∨
      (s.canSend = true ∧ p.length ≤ s.txBuffer.available ∧ s.shutdownSend = true ∧
        s'.txBuffer = (s.txBuffer.add p).1 ∧ result = -1) ∨
      (s.canSend = true ∧ p.length ≤ s.txBuffer.available ∧ s.shutdownSend = false ∧
        s'.txBuffer = (s.txBuffer.add p).1 ∧ s.Submits ∧ result = toSigned 32 p.length)) := by
  rw [send] at h
  dsimp only at h
  split at h
  · simp at h
  · rename_i hflags
    refine ⟨by simpa using hflags, ?_⟩
    split at h
    · rename_i hcan
      split at h
      · rename_i hfull
        rw [Bool.not_eq_true'] at hfull
        have hroom := TcpTxBuffer.add_refused_iff.mp hfull
        simp only [pure_eq_ok, Prod.mk.injEq] at h
        obtain ⟨rfl, rfl⟩ := h
        exact .inr (.inl ⟨hcan, hroom, TcpTxBuffer.add_eq_self_iff.mpr (by omega), rfl⟩)
      · rename_i hfull
        have hroom : p.length ≤ s.txBuffer.available := by
          by_contra hno
          rw [TcpTxBuffer.add_refused_iff.mpr hno] at hfull
          simp at hfull
        split at h
        · rename_i hshut
          simp only [pure_eq_ok, Prod.mk.injEq] at h
          obtain ⟨rfl, rfl⟩ := h
          exact .inr (.inr (.inl ⟨hcan, hroom, hshut, rfl, rfl⟩))
        · rename_i hshut
          simp only [bind_eq_ok, pure_eq_ok, Prod.mk.injEq] at h
          obtain ⟨s₁, hsubmit, rfl, rfl⟩ := h
          obtain ⟨hbuffer, hsubmits⟩ :=
            submit_eq_ok (s := (s.store p).calculateAppLimited) hcan hsubmit
          exact .inr (.inr (.inr ⟨hcan, hroom, by simpa using hshut, hbuffer,
            store_submits.mp hsubmits, rfl⟩))
    · rename_i hcan
      simp only [pure_eq_ok, Prod.mk.injEq] at h
      obtain ⟨rfl, rfl⟩ := h
      exact .inl ⟨by simpa using hcan, rfl, rfl⟩

theorem leaks_iff : s.leaks p flags = true ↔ flags = 0 ∧ s.canSend = true ∧ 0 < p.length ∧
    p.length ≤ s.txBuffer.available ∧
      (s.shutdownSend = true ∨ p.length = 2 ^ 32 - 1 ∧ s.Submits) := by
  simp only [leaks, Submits, Bool.and_eq_true, Bool.or_eq_true, decide_eq_true_eq, beq_iff_eq,
    and_assoc]

theorem send_refuses_iff :
    (∀ s', s.send p flags = .ok (s', -1) → s'.txBuffer = s.txBuffer) ↔
      s.leaks p flags = false := by
  constructor
  · intro h
    by_contra hleaks
    rw [Bool.not_eq_false, leaks_iff] at hleaks
    obtain ⟨rfl, hcan, hpos, hroom, hcause⟩ := hleaks
    have hadded : (s.txBuffer.add p).2 = true := by
      rw [← Bool.not_eq_false, TcpTxBuffer.add_refused_iff, not_not]
      exact hroom
    have hchanged : (s.txBuffer.add p).1 ≠ s.txBuffer := fun heq =>
      TcpTxBuffer.add_eq_self_iff.mp heq ⟨hpos, hroom⟩
    rw [send, if_neg (by simp), if_pos hcan, hadded, if_neg (by simp)] at h
    cases hshut : s.shutdownSend with
    | true =>
      rw [if_pos hshut] at h
      exact hchanged (h _ rfl)
    | false =>
      rw [hshut] at hcause
      obtain ⟨hsize, hasserts⟩ := hcause.resolve_left Bool.false_ne_true
      obtain ⟨s₁, hsubmit⟩ := submit_returns (store_submits (p := p) |>.mpr hasserts)
      have hresult : toSigned 32 p.length = -1 :=
        (toSigned_eq_neg_one (by have := s.txBuffer.available_lt; omega)).mpr hsize
      rw [hshut, if_neg Bool.false_ne_true, hsubmit, hresult] at h
      have hbuffer := (submit_eq_ok (s := (s.store p).calculateAppLimited) hcan hsubmit).1
      exact hchanged (hbuffer.symm.trans (h s₁ rfl))
  · intro hleaks s' hsend
    obtain ⟨rfl, hcase⟩ := send_cases hsend
    obtain ⟨_, _, hsame, _⟩ | ⟨_, _, hsame, _⟩ | ⟨hcan, hroom, hshut, hbuffer, _⟩ |
      ⟨hcan, hroom, hshut, hbuffer, hsubmits, hresult⟩ := hcase
    · assumption
    · exact hsame
    · rw [hbuffer, add_eq_self_iff]
      rintro ⟨hpos, -⟩
      rw [leaks_iff.mpr ⟨rfl, hcan, hpos, hroom, .inl hshut⟩] at hleaks
      exact Bool.noConfusion hleaks
    · have hlt := s.txBuffer.available_lt
      have hsize := (toSigned_eq_neg_one (p := p) (by omega)).mp hresult.symm
      rw [leaks_iff.mpr ⟨rfl, hcan, by omega, hroom, .inr ⟨hsize, hsubmits⟩⟩] at hleaks
      exact Bool.noConfusion hleaks

theorem shutdown_txBuffer (s : SendSocket) : s.shutdown.txBuffer = s.txBuffer := by
  rw [shutdown]
  dsimp only
  split
  · split <;> rfl
  · rfl

theorem deallocateEndPoint_txBuffer (s : SendSocket) :
    s.deallocateEndPoint.txBuffer = s.txBuffer := by
  rw [deallocateEndPoint]
  split <;> rfl

theorem closeAndNotify_txBuffer (s : SendSocket) : s.closeAndNotify.txBuffer = s.txBuffer :=
  deallocateEndPoint_txBuffer _

theorem doClose_txBuffer (s : SendSocket) : s.doClose.txBuffer = s.txBuffer := by
  rw [doClose]
  split
  · rfl
  · rfl
  · rfl
  · rw [closeAndNotify_txBuffer, deallocateEndPoint_txBuffer]
  · rw [closeAndNotify_txBuffer, deallocateEndPoint_txBuffer]
  · exact closeAndNotify_txBuffer s
  · rfl

theorem close_txBuffer (s : SendSocket) (unread : Bool) :
    (s.close unread).txBuffer = s.txBuffer := by
  rw [close]
  split
  · exact deallocateEndPoint_txBuffer s
  · split
    · rfl
    · exact doClose_txBuffer s

end SendSocket

/-! ## Whole runs -/

def SocketOp.leaks (s : SendSocket) : SocketOp → Bool
  | .send p flags => s.leaks p flags
  | _ => false

namespace SendRun

variable {r r' : SendRun} {op : SocketOp}

theorem next_buffer {op : TxOp} (hop : ∀ p, op ≠ .add p) :
    r.next (.buffer op) = (op.exec r.socket.txBuffer).toOption.map r.withBuffer := by
  cases op with
  | add p => exact absurd rfl (hop p)
  | _ => rfl

/-- The buffer holds no byte but those that were taken. -/
def Covered (r : SendRun) : Prop := List.Subperm r.socket.txBuffer.content r.taken

/-- **Step lemma.**  A step refuses properly exactly if it does not leak. -/
theorem Covered.op_refuses_iff (h : r.Covered) : r.Refuses op ↔ op.leaks r.socket = false := by
  cases op with
  | send p flags => exact SendSocket.send_refuses_iff
  | buffer op =>
    refine iff_of_true ?_ rfl
    cases op with
    | copyFromSequence now numBytes seq =>
      intro b item hcopy
      obtain ⟨hkept, hitem⟩ := copyFromSequence_noNewBytes hcopy
      obtain ⟨before, after, hlist⟩ := List.append_of_mem (hitem item rfl)
      have hpart : List.Sublist item.packet b.content := by
        rw [content, hlist, payload_append, payload_cons, List.append_assoc, List.append_assoc]
        exact (List.sublist_append_left _ _).trans (List.sublist_append_right _ _)
      exact (hpart.subperm.trans hkept.subperm).trans h
    | _ => trivial
  | _ => exact iff_of_true trivial rfl

/-- **Step lemma.**  A step that refuses properly keeps the buffer covered. -/
theorem Covered.step (h : r.Covered) (hnext : r.next op = some r') (hrefuses : r.Refuses op) :
    r'.Covered := by
  cases op with
  | send p flags =>
    rw [next] at hnext
    split at hnext
    · simp at hnext
    · rename_i s result hsend
      rw [Option.some.injEq] at hnext
      subst hnext
      by_cases hresult : result = -1
      · subst hresult
        rw [Covered, if_pos rfl]
        dsimp only
        rw [hrefuses s hsend]
        exact h
      · obtain ⟨-, ⟨_, _, hr⟩ | ⟨_, _, _, hr⟩ | ⟨_, _, _, _, hr⟩ | ⟨_, hroom, _, hbuffer, _⟩⟩ :=
          SendSocket.send_cases hsend
        · exact absurd hr hresult
        · exact absurd hr hresult
        · exact absurd hr hresult
        · have haccept : (r.socket.txBuffer.add p).2 = true := by
            rw [← Bool.not_eq_false, add_refused_iff, not_not]
            exact hroom
          rw [Covered, if_neg hresult]
          dsimp only
          rw [hbuffer, add_content, TxOp.accepted, if_pos haccept]
          exact (List.subperm_append_right p).mpr h
  | shutdownSend =>
    rw [next, Option.some.injEq] at hnext
    subst hnext
    rw [Covered]
    dsimp only
    rw [SendSocket.shutdown_txBuffer]
    exact h
  | close unread =>
    rw [next, Option.some.injEq] at hnext
    subst hnext
    rw [Covered]
    dsimp only
    rw [SendSocket.close_txBuffer]
    exact h
  | setSndBufSize n =>
    rw [next, Option.some.injEq] at hnext
    subst hnext
    exact h
  | buffer op =>
    by_cases hadd : ∃ p, op = .add p
    · obtain ⟨p, rfl⟩ := hadd
      simp [next] at hnext
    · have hop : ∀ p, op ≠ .add p := fun p hp => hadd ⟨p, hp⟩
      rw [next_buffer hop] at hnext
      obtain ⟨b, hb, rfl⟩ := Option.map_eq_some_iff.mp hnext
      exact (exec_noNewBytes hop (toOption_eq_some.mp hb)).subperm.trans h
  | setHeadSequence seq =>
    rw [next] at hnext
    obtain ⟨b, hb, rfl⟩ := Option.map_eq_some_iff.mp hnext
    have hset := toOption_eq_some.mp hb
    simp only [setHeadSequence, bind_eq_ok, pure_eq_ok] at hset
    obtain ⟨_, _, rfl⟩ := hset
    exact h
  | other s =>
    rw [next, Option.some.injEq] at hnext
    subst hnext
    exact h

/-- **What a socket refuses to send.** Along a run a `Send` that returns -1 leaves the buffer as it
was, and no segment carries a byte that was refused, exactly if no `Send` of the run leaks. -/
theorem refuses_iff {r₀ r : SendRun} {ops : List SocketOp} (hstart : r₀.Covered)
    (hrun : Run (fun r op r' => next r op = some r') r₀ ops r) :
    (∀ before op u v, before ++ [op] <+: ops →
        Run (fun r op r' => next r op = some r') r₀ before u → next u op = some v →
          u.Refuses op) ↔
      ∀ before op u v, before ++ [op] <+: ops →
        Run (fun r op r' => next r op = some r') r₀ before u → next u op = some v →
          op.leaks u.socket = false :=
  hrun.steps_iff (I := Covered) (P := fun u op _ => Refuses u op)
    (C := fun u op => SocketOp.leaks u.socket op = false) hstart
    (fun _ _ _ h hnext hrefuses => h.step hnext hrefuses) (fun _ _ _ h _ => h.op_refuses_iff)

def connected : SendRun where
  socket := { state := .established, txBuffer := { firstByteSeq := .ofNat 1 } }
  taken := []

theorem connected_covered : connected.Covered := List.Subperm.refl []

/-- Two bytes are taken; once the buffer is empty and sending is shut down, a third is refused. -/
theorem refuses_iff_shutdown :
    connected.Covered ∧ ∀ before op u v, before ++ [op] <+:
        [.send [1, 2] 0, .buffer (.discardUpTo 0 (.ofNat 3)), .shutdownSend, .close false] →
      Run (fun r op r' => next r op = some r') connected before u → next u op = some v →
        u.Refuses op := by
  obtain ⟨r, hfold⟩ : ∃ r, [SocketOp.send [1, 2] 0, .buffer (.discardUpTo 0 (.ofNat 3)),
      .shutdownSend, .close false].foldlM next connected = some r :=
    Option.isSome_iff_exists.mp (by decide +kernel)
  have hrun := Run.of_foldlM (fun _ _ _ h => h) hfold
  refine ⟨connected_covered, (refuses_iff connected_covered hrun).mpr ?_⟩
  intro before op u v hpre hu _
  obtain ⟨rfl, rfl⟩ | ⟨_, rfl, hpre₁⟩ := before_cons hpre
  · obtain rfl := hu.nil_eq
    decide
  obtain ⟨rfl, rfl⟩ | ⟨_, rfl, hpre₂⟩ := before_cons hpre₁
  · rfl
  obtain ⟨rfl, rfl⟩ | ⟨_, rfl, hpre₃⟩ := before_cons hpre₂
  · rfl
  obtain ⟨rfl, rfl⟩ := before_singleton hpre₃
  rfl

/-- Sending is shut down while a byte is queued.  The next byte is refused, and sent. -/
theorem refused_byte_sent :
    ¬∀ (r₀ r r' : SendRun) (ops : List SocketOp) (op : SocketOp), r₀.Covered →
      Run (fun r op r' => next r op = some r') r₀ ops r → next r op = some r' →
        r.Refuses op := by
  intro h
  obtain ⟨r, hfold, hsent⟩ := (Option.any_eq_true (fun r : SendRun =>
      decide (r.taken = [1]) &&
        decide ((r.socket.txBuffer.copyFromSequence 0 2 (.ofNat 1)).toOption.map
          (fun found => found.2.map (·.packet)) = some (some [1, 2])))
    ([SocketOp.send [1] 0, .shutdownSend, .send [2] 0].foldlM next connected)).mp
      (by decide +kernel)
  rw [Bool.and_eq_true, decide_eq_true_eq, decide_eq_true_eq] at hsent
  obtain ⟨htaken, hsegment⟩ := hsent
  obtain ⟨⟨b, result⟩, hcopy, hpacket⟩ := Option.map_eq_some_iff.mp hsegment
  obtain ⟨item, rfl, hitem⟩ := Option.map_eq_some_iff.mp hpacket
  have hexec := toOption_eq_some.mp hcopy
  have hnext : next r (.buffer (.copyFromSequence 0 2 (.ofNat 1))) = some (r.withBuffer b) := by
    rw [next_buffer (by simp), TxOp.exec, hexec]
    rfl
  have hrefuses :=
    h _ _ _ _ _ connected_covered (Run.of_foldlM (fun _ _ _ h => h) hfold) hnext
  have hlength := (hrefuses b item hexec).length_le
  rw [htaken, hitem] at hlength
  exact absurd hlength (by decide)

end SendRun

end Ns3.Tcp
