/-
  What the reordering buffer passes up.

  The trace of an agreement is read along an axis that does not wrap: the window start
  has moved by `moved` numbers since the agreement was made, and an MPDU passed up
  while it stands there has the position `moved` plus its distance from the window
  start.  In order and at most once means that these positions increase.
-/
import Ns3.Lib.Run
import Ns3.Wifi.RecipientBlockAckAgreement

namespace Ns3.RecipientBlockAckAgreement

open Ns3.Lib

/-! ## The trace -/

/-- The MPDUs that entered the buffer. -/
def storedMpdus : List RxEvent → List WifiMpdu
  | [] => []
  | .stored mpdu :: events => mpdu :: storedMpdus events
  | _ :: events => storedMpdus events

def passedMpdus : List RxEvent → List WifiMpdu
  | [] => []
  | .receive mpdu :: events => mpdu :: passedMpdus events
  | _ :: events => passedMpdus events

@[simp] theorem storedMpdus_append (events events' : List RxEvent) :
    storedMpdus (events ++ events') = storedMpdus events ++ storedMpdus events' := by
  induction events with
  | nil => rfl
  | cons event events ih => cases event <;> simp [storedMpdus, ih]

@[simp] theorem passedMpdus_append (events events' : List RxEvent) :
    passedMpdus (events ++ events') = passedMpdus events ++ passedMpdus events' := by
  induction events with
  | nil => rfl
  | cons event events ih => cases event <;> simp [passedMpdus, ih]

/-- An MPDU passed up, seen on the axis. -/
structure Delivery where
  seqNumber : Nat
  /-- how far the window start had moved -/
  moved : Nat
  position : Nat
  deriving DecidableEq, Repr

/-- How far the window has moved, and what was passed up. -/
structure Progress where
  moved : Nat
  winStart : Nat
  deliveries : List Delivery
  deriving DecidableEq, Repr

def Progress.event (p : Progress) : RxEvent → Progress
  | .stored _ => p
  | .receive mpdu => { p with
      deliveries := p.deliveries ++ [{
        seqNumber := mpdu.sequenceNumber
        moved := p.moved
        position := p.moved + seqDistance mpdu.sequenceNumber p.winStart }] }
  | .winStart seqNumber => { p with
      moved := p.moved + seqDistance seqNumber p.winStart
      winStart := seqNumber }

/-- A trace that begins at the window start `start`. -/
def progress (start : Nat) (events : List RxEvent) : Progress :=
  events.foldl Progress.event { moved := 0, winStart := start, deliveries := [] }

theorem progress_concat (start : Nat) (events : List RxEvent) (event : RxEvent) :
    progress start (events ++ [event]) = (progress start events).event event := by
  rw [progress, List.foldl_append]
  rfl

def deliveries (start : Nat) (a : RecipientBlockAckAgreement) : List Delivery :=
  (progress start a.trace).deliveries

/-- What the reordering buffer is for. -/
structure DeliversInOrder (start : Nat) (a : RecipientBlockAckAgreement) : Prop where
  winStartB_lt : a.winStartB < SEQNO_SPACE_SIZE
  /-- every buffered MPDU lies less than half the number space after the window start -/
  ahead : ∀ mpdu ∈ a.bufferedMpdus, mpdu.sequenceNumber < SEQNO_SPACE_SIZE ∧
    seqDistance mpdu.sequenceNumber a.winStartB < SEQNO_SPACE_HALF_SIZE
  /-- what was stored is buffered or was passed up, and nothing else is -/
  kept : (storedMpdus a.trace).Perm (passedMpdus a.trace ++ a.bufferedMpdus)
  inOrder : (deliveries start a).Pairwise fun d e => d.position < e.position
  /-- a sequence number is passed up again only after the window start has moved by half
  the number space -/
  once : (deliveries start a).Pairwise fun d e =>
    d.seqNumber = e.seqNumber → d.moved + SEQNO_SPACE_HALF_SIZE ≤ e.moved

/-! ## The invariant -/

/-- The buffer between two moves of the window start: what is buffered lies at least
`limit` after the window start, what was passed up before that. -/
structure Reordering (start limit : Nat) (a : RecipientBlockAckAgreement) : Prop where
  winStartB_lt : a.winStartB < SEQNO_SPACE_SIZE
  seqNumber_lt : ∀ mpdu ∈ a.bufferedMpdus, mpdu.sequenceNumber < SEQNO_SPACE_SIZE
  ahead : ∀ mpdu ∈ a.bufferedMpdus,
    limit ≤ seqDistance mpdu.sequenceNumber a.winStartB ∧
      seqDistance mpdu.sequenceNumber a.winStartB < SEQNO_SPACE_HALF_SIZE
  sorted : a.bufferedMpdus.Pairwise fun m m' =>
    seqDistance m.sequenceNumber a.winStartB < seqDistance m'.sequenceNumber a.winStartB
  kept : (storedMpdus a.trace).Perm (passedMpdus a.trace ++ a.bufferedMpdus)
  winStart_eq : (progress start a.trace).winStart = a.winStartB
  moved_mod : a.winStartB = (start + (progress start a.trace).moved) % SEQNO_SPACE_SIZE
  before : ∀ d ∈ deliveries start a, d.position < (progress start a.trace).moved + limit
  placed : ∀ d ∈ deliveries start a, d.seqNumber = (start + d.position) % SEQNO_SPACE_SIZE ∧
    d.moved ≤ d.position ∧ d.position < d.moved + SEQNO_SPACE_HALF_SIZE
  inOrder : (deliveries start a).Pairwise fun d e => d.position < e.position

variable {start limit : Nat} {a : RecipientBlockAckAgreement}

theorem Reordering.create {bufferSize : Nat} (hstart : start < SEQNO_SPACE_SIZE) :
    Reordering start 0 (create bufferSize start) where
  winStartB_lt := hstart
  seqNumber_lt := nofun
  ahead := nofun
  sorted := .nil
  kept := .refl _
  winStart_eq := rfl
  moved_mod := (Nat.mod_eq_of_lt hstart).symm
  before := nofun
  placed := nofun
  inOrder := .nil

theorem Reordering.delivers (h : Reordering start limit a) : DeliversInOrder start a where
  winStartB_lt := h.winStartB_lt
  ahead := fun mpdu hmem => ⟨h.seqNumber_lt mpdu hmem, (h.ahead mpdu hmem).2⟩
  kept := h.kept
  inOrder := h.inOrder
  once := by
    refine h.inOrder.imp_of_mem ?_
    intro d e hd he hlt heq
    obtain ⟨hdseq, hdge, hdlt⟩ := h.placed d hd
    obtain ⟨heseq, hege, helt⟩ := h.placed e he
    rw [hdseq, heseq] at heq
    simp only [SEQNO_SPACE_HALF_SIZE, SEQNO_SPACE_SIZE] at *
    omega

theorem Reordering.setScoreboard (h : Reordering start limit a) (scoreboard : BlockAckWindow) :
    Reordering start limit { a with scoreboard } :=
  ⟨h.winStartB_lt, h.seqNumber_lt, h.ahead, h.sorted, h.kept, h.winStart_eq, h.moved_mod,
    h.before, h.placed, h.inOrder⟩

/-! ### Inserting -/

variable {winStartB : Nat} {ms : List WifiMpdu}

theorem compare_iff {x y : Nat} (hwin : winStartB < SEQNO_SPACE_SIZE) :
    compare winStartB x y = true ↔ seqDistance x winStartB < seqDistance y winStartB := by
  rw [compare, decide_eq_true_eq, seqOffset_eq hwin, seqOffset_eq hwin]
  exact Int.ofNat_lt

variable {ms' : List WifiMpdu}

theorem insert_spec {mpdu : WifiMpdu} (hwin : winStartB < SEQNO_SPACE_SIZE)
    (hsorted : ms.Pairwise fun m m' =>
      seqDistance m.sequenceNumber winStartB < seqDistance m'.sequenceNumber winStartB)
    (h : insert winStartB mpdu ms = some ms') :
    ms'.Perm (mpdu :: ms) ∧ ms'.Pairwise fun m m' =>
      seqDistance m.sequenceNumber winStartB < seqDistance m'.sequenceNumber winStartB := by
  induction ms generalizing ms' with
  | nil =>
    obtain rfl : [mpdu] = ms' := by simpa [insert] using h
    exact ⟨.refl _, List.pairwise_singleton _ _⟩
  | cons m rest ih =>
    obtain ⟨hhead, htail⟩ := List.pairwise_cons.mp hsorted
    rw [insert] at h
    split at h
    · rename_i hbefore
      rw [compare_iff hwin] at hbefore
      cases h
      refine ⟨.refl _, List.pairwise_cons.mpr ⟨?_, hsorted⟩⟩
      intro m' hm'
      rcases List.mem_cons.mp hm' with rfl | hm'
      · exact hbefore
      · exact hbefore.trans (hhead m' hm')
    · split at h
      · rename_i hafter
        rw [compare_iff hwin] at hafter
        obtain ⟨rest', hrest, rfl⟩ := Option.map_eq_some_iff.mp h
        obtain ⟨hperm, hpair⟩ := ih htail hrest
        refine ⟨(hperm.cons m).trans (.swap mpdu m rest), List.pairwise_cons.mpr ⟨?_, hpair⟩⟩
        intro m' hm'
        rcases List.mem_cons.mp (hperm.subset hm') with rfl | hm'
        · exact hafter
        · exact hhead m' hm'
      · cases h

theorem insert_ne_nil {mpdu : WifiMpdu} (h : insert winStartB mpdu ms = some ms') : ms' ≠ [] := by
  cases ms with
  | nil =>
    obtain rfl : [mpdu] = ms' := by simpa [insert] using h
    exact nofun
  | cons m rest =>
    rw [insert] at h
    split at h
    · cases h
      exact nofun
    · split at h
      · obtain ⟨rest', _, rfl⟩ := Option.map_eq_some_iff.mp h
        exact nofun
      · cases h

theorem insert_nil_ne_none {mpdu : WifiMpdu} :
    insert winStartB mpdu [] ≠ none := nofun

section

variable (a : RecipientBlockAckAgreement) (mpdu : WifiMpdu)

theorem store_winSizeB : (a.store mpdu).winSizeB = a.winSizeB := by
  unfold store
  split <;> rfl

theorem store_scoreboard : (a.store mpdu).scoreboard = a.scoreboard := by
  unfold store
  split <;> rfl

theorem store_ne_nil : (a.store mpdu).bufferedMpdus ≠ [] := by
  unfold store
  split
  · rename_i ms hinsert
    exact insert_ne_nil hinsert
  · rename_i hinsert
    intro hnil
    rw [hnil] at hinsert
    exact insert_nil_ne_none hinsert

end

theorem Reordering.store (h : Reordering start 0 a) {mpdu : WifiMpdu}
    (hseq : mpdu.sequenceNumber < SEQNO_SPACE_SIZE)
    (hahead : seqDistance mpdu.sequenceNumber a.winStartB < SEQNO_SPACE_HALF_SIZE) :
    Reordering start 0 (a.store mpdu) := by
  unfold RecipientBlockAckAgreement.store
  split
  · rename_i ms hinsert
    obtain ⟨hperm, hsorted⟩ := insert_spec h.winStartB_lt h.sorted hinsert
    have hprogress : progress start (a.trace ++ [.stored mpdu]) = progress start a.trace :=
      progress_concat start a.trace _
    have hdel : deliveries start
        { a with bufferedMpdus := ms, trace := a.trace ++ [.stored mpdu] } =
        deliveries start a := congrArg Progress.deliveries hprogress
    constructor
    · exact h.winStartB_lt
    · intro m hm
      rcases List.mem_cons.mp (hperm.subset hm) with rfl | hm
      · exact hseq
      · exact h.seqNumber_lt m hm
    · intro m hm
      rcases List.mem_cons.mp (hperm.subset hm) with rfl | hm
      · exact ⟨Nat.zero_le _, hahead⟩
      · exact h.ahead m hm
    · exact hsorted
    · have hstored : storedMpdus (a.trace ++ [.stored mpdu]) = storedMpdus a.trace ++ [mpdu] :=
        storedMpdus_append _ _
      have hpassed : passedMpdus (a.trace ++ [.stored mpdu]) = passedMpdus a.trace := by
        rw [passedMpdus_append]
        exact List.append_nil _
      dsimp only
      rw [hstored, hpassed]
      have hadd : ((passedMpdus a.trace ++ a.bufferedMpdus) ++ [mpdu]).Perm
          (passedMpdus a.trace ++ (mpdu :: a.bufferedMpdus)) := by
        rw [List.append_assoc]
        exact (List.perm_append_singleton mpdu a.bufferedMpdus).append_left _
      exact ((h.kept.append_right [mpdu]).trans hadd).trans (hperm.symm.append_left _)
    · rw [hprogress]
      exact h.winStart_eq
    · rw [hprogress]
      exact h.moved_mod
    · rw [hdel, hprogress]
      exact h.before
    · rw [hdel]
      exact h.placed
    · rw [hdel]
      exact h.inOrder
  · exact h

/-! ### Passing up and moving -/

variable {seqNumber : Nat} {rest : List WifiMpdu}

theorem Reordering.forwardUp (h : Reordering start limit a) {mpdu : WifiMpdu}
    (hbuf : a.bufferedMpdus = mpdu :: rest) :
    Reordering start (seqDistance mpdu.sequenceNumber a.winStartB + 1) (a.forwardUp mpdu rest) := by
  have hmem : mpdu ∈ a.bufferedMpdus := by
    rw [hbuf]
    exact .head _
  have hrest : ∀ m ∈ rest, m ∈ a.bufferedMpdus := by
    intro m hm
    rw [hbuf]
    exact .tail _ hm
  have hsorted := h.sorted
  rw [hbuf] at hsorted
  obtain ⟨hhead, htail⟩ := List.pairwise_cons.mp hsorted
  have hprogress : progress start (a.trace ++ [.receive mpdu]) =
      (progress start a.trace).event (.receive mpdu) := progress_concat start a.trace _
  let d : Delivery := {
    seqNumber := mpdu.sequenceNumber
    moved := (progress start a.trace).moved
    position := (progress start a.trace).moved + seqDistance mpdu.sequenceNumber a.winStartB }
  have hdel : deliveries start (a.forwardUp mpdu rest) = deliveries start a ++ [d] := by
    unfold deliveries RecipientBlockAckAgreement.forwardUp
    rw [hprogress]
    simp only [Progress.event, h.winStart_eq, d]
  have hmoved : (progress start (a.forwardUp mpdu rest).trace).moved =
      (progress start a.trace).moved := by
    have hmoved := congrArg Progress.moved hprogress
    exact hmoved
  constructor
  · exact h.winStartB_lt
  · exact fun m hm => h.seqNumber_lt m (hrest m hm)
  · exact fun m hm => ⟨hhead m hm, (h.ahead m (hrest m hm)).2⟩
  · exact htail
  · have hstored : storedMpdus (a.trace ++ [.receive mpdu]) = storedMpdus a.trace := by
      rw [storedMpdus_append]
      exact List.append_nil _
    have hpassed : passedMpdus (a.trace ++ [.receive mpdu]) = passedMpdus a.trace ++ [mpdu] :=
      passedMpdus_append _ _
    have hkept := h.kept
    rw [hbuf] at hkept
    dsimp only [RecipientBlockAckAgreement.forwardUp]
    rw [hstored, hpassed, List.append_assoc]
    exact hkept
  · exact (congrArg Progress.winStart hprogress).trans h.winStart_eq
  · rw [hmoved]
    exact h.moved_mod
  · rw [hdel, hmoved]
    intro e he
    rcases List.mem_append.mp he with he | he
    · have hbefore := h.before e he
      have hlimit := (h.ahead mpdu hmem).1
      omega
    · obtain rfl := List.mem_singleton.mp he
      exact Nat.lt_succ_self _
  · rw [hdel]
    intro e he
    rcases List.mem_append.mp he with he | he
    · exact h.placed e he
    · obtain rfl := List.mem_singleton.mp he
      have hahead := (h.ahead mpdu hmem).2
      refine ⟨?_, Nat.le_add_right _ _, Nat.add_lt_add_left hahead _⟩
      have hadd := add_seqDistance (h.seqNumber_lt mpdu hmem) h.winStartB_lt
      have hmod := h.moved_mod
      dsimp only [d]
      simp only [SEQNO_SPACE_SIZE] at *
      omega
  · rw [hdel]
    refine List.pairwise_append.mpr ⟨h.inOrder, List.pairwise_singleton _ _, ?_⟩
    intro e he e' he'
    obtain rfl := List.mem_singleton.mp he'
    have hbefore := h.before e he
    have hlimit := (h.ahead mpdu hmem).1
    dsimp only [d]
    omega

theorem Reordering.setWinStartB (h : Reordering start limit a) (hseq : seqNumber < SEQNO_SPACE_SIZE)
    (hlimit : limit ≤ seqDistance seqNumber a.winStartB)
    (hahead : ∀ mpdu ∈ a.bufferedMpdus,
      seqDistance seqNumber a.winStartB ≤ seqDistance mpdu.sequenceNumber a.winStartB) :
    Reordering start 0 (a.setWinStartB seqNumber) := by
  have hprogress : progress start (a.trace ++ [.winStart seqNumber]) =
      (progress start a.trace).event (.winStart seqNumber) := progress_concat start a.trace _
  have hdel : deliveries start (a.setWinStartB seqNumber) = deliveries start a := by
    have hdel := congrArg Progress.deliveries hprogress
    exact hdel
  have hmoved : (progress start (a.setWinStartB seqNumber).trace).moved =
      (progress start a.trace).moved + seqDistance seqNumber a.winStartB := by
    dsimp only [RecipientBlockAckAgreement.setWinStartB]
    rw [hprogress]
    simp only [Progress.event, h.winStart_eq]
  have hcloser : ∀ mpdu ∈ a.bufferedMpdus, seqDistance mpdu.sequenceNumber seqNumber =
      seqDistance mpdu.sequenceNumber a.winStartB - seqDistance seqNumber a.winStartB := by
    intro mpdu hmem
    have hadvance := seqDistance_advance (h.seqNumber_lt mpdu hmem) h.winStartB_lt
      (hahead mpdu hmem)
    rw [add_seqDistance hseq h.winStartB_lt] at hadvance
    exact hadvance
  constructor
  · exact hseq
  · exact h.seqNumber_lt
  · intro mpdu hmem
    have hlt := (h.ahead mpdu hmem).2
    refine ⟨Nat.zero_le _, ?_⟩
    dsimp only [RecipientBlockAckAgreement.setWinStartB]
    rw [hcloser mpdu hmem]
    omega
  · refine h.sorted.imp_of_mem ?_
    intro m m' hm hm' hlt
    have hle := hahead m hm
    dsimp only [RecipientBlockAckAgreement.setWinStartB]
    rw [hcloser m hm, hcloser m' hm']
    omega
  · have hstored : storedMpdus (a.trace ++ [.winStart seqNumber]) = storedMpdus a.trace := by
      rw [storedMpdus_append]
      exact List.append_nil _
    have hpassed : passedMpdus (a.trace ++ [.winStart seqNumber]) = passedMpdus a.trace := by
      rw [passedMpdus_append]
      exact List.append_nil _
    dsimp only [RecipientBlockAckAgreement.setWinStartB]
    rw [hstored, hpassed]
    exact h.kept
  · exact congrArg Progress.winStart hprogress
  · rw [hmoved]
    have hmod := h.moved_mod
    have hadd := add_seqDistance hseq h.winStartB_lt
    dsimp only [RecipientBlockAckAgreement.setWinStartB]
    simp only [SEQNO_SPACE_SIZE] at *
    omega
  · rw [hdel, hmoved]
    intro d hd
    have hbefore := h.before d hd
    omega
  · rw [hdel]
    exact h.placed
  · rw [hdel]
    exact h.inOrder

/-! ### The loops -/

variable {newWinStartB : Nat}

theorem Reordering.assertNoOldMpdu (h : Reordering start limit a) :
    a.assertNoOldMpdu = .ok () := by
  unfold RecipientBlockAckAgreement.assertNoOldMpdu
  split
  · rfl
  · rename_i mpdu hlast
    have hmem : mpdu ∈ a.bufferedMpdus := List.mem_of_getLast? hlast
    rw [getDistance_of (h.seqNumber_lt mpdu hmem) h.winStartB_lt, ok_bind,
      nsAssert_of (h.ahead mpdu hmem).2]

theorem Reordering.next (h : Reordering start 0 a) {mpdu : WifiMpdu}
    (hbuf : a.bufferedMpdus = mpdu :: rest) (hseq : mpdu.sequenceNumber = a.winStartB) :
    Reordering start 0
      ((a.forwardUp mpdu rest).setWinStartB ((a.winStartB + 1) % SEQNO_SPACE_SIZE)) := by
  have hone : seqDistance ((a.winStartB + 1) % SEQNO_SPACE_SIZE) a.winStartB = 1 :=
    seqDistance_add h.winStartB_lt (by decide)
  have hpassed := h.forwardUp hbuf
  rw [hseq, seqDistance_self] at hpassed
  refine hpassed.setWinStartB (Nat.mod_lt _ (by decide)) ?_ ?_
  · exact Nat.le_of_eq hone.symm
  · intro m hm
    rw [show (a.forwardUp mpdu rest).winStartB = a.winStartB from rfl, hone]
    exact (hpassed.ahead m hm).1

theorem Reordering.passUntilFirstLost (h : Reordering start 0 a) (hbuf : a.bufferedMpdus = ms) :
    Reordering start 0 (a.passUntilFirstLost ms) := by
  induction ms generalizing a with
  | nil => exact h
  | cons mpdu rest ih =>
    rw [RecipientBlockAckAgreement.passUntilFirstLost]
    split
    · rename_i hseq
      exact ih (h.next hbuf hseq) rfl
    · exact h

theorem passUntilFirstLost_frame (a : RecipientBlockAckAgreement) (ms : List WifiMpdu) :
    (a.passUntilFirstLost ms).scoreboard = a.scoreboard ∧
      (a.passUntilFirstLost ms).winSizeB = a.winSizeB := by
  induction ms generalizing a with
  | nil => exact ⟨rfl, rfl⟩
  | cons mpdu rest ih =>
    rw [passUntilFirstLost]
    split
    · exact ih _
    · exact ⟨rfl, rfl⟩

theorem Reordering.untilFirstLost (h : Reordering start 0 a) :
    ∃ a', a.passBufferedMpdusUntilFirstLost = .ok a' ∧ Reordering start 0 a' ∧
      a'.scoreboard = a.scoreboard ∧ a'.winSizeB = a.winSizeB := by
  refine ⟨a.passUntilFirstLost a.bufferedMpdus, ?_, h.passUntilFirstLost rfl,
    passUntilFirstLost_frame a _⟩
  rw [passBufferedMpdusUntilFirstLost, h.assertNoOldMpdu]
  rfl

theorem Reordering.passLessThan (hnew : newWinStartB < SEQNO_SPACE_SIZE)
    (h : Reordering start limit a) (hlimit : limit ≤ seqDistance newWinStartB a.winStartB)
    (hbuf : a.bufferedMpdus = ms) :
    ∃ a', a.passLessThan newWinStartB ms = .ok a' ∧
      Reordering start 0 (a'.setWinStartB newWinStartB) ∧
      a'.scoreboard = a.scoreboard ∧ a'.winSizeB = a.winSizeB := by
  induction ms generalizing a limit with
  | nil =>
    refine ⟨a, rfl, h.setWinStartB hnew hlimit ?_, rfl, rfl⟩
    rw [hbuf]
    exact nofun
  | cons mpdu rest ih =>
    have hmem : mpdu ∈ a.bufferedMpdus := by
      rw [hbuf]
      exact .head _
    rw [RecipientBlockAckAgreement.passLessThan,
      getDistance_of (h.seqNumber_lt mpdu hmem) h.winStartB_lt, ok_bind,
      getDistance_of hnew h.winStartB_lt, ok_bind]
    split
    · rename_i hlt
      exact ih (h.forwardUp hbuf) hlt rfl
    · rename_i hge
      refine ⟨a, rfl, h.setWinStartB hnew hlimit ?_, rfl, rfl⟩
      have hsorted := h.sorted
      rw [hbuf] at hsorted ⊢
      intro m hm
      rcases List.mem_cons.mp hm with rfl | hm
      · omega
      · have hlt := (List.pairwise_cons.mp hsorted).1 m hm
        omega

theorem Reordering.withSeqNumberLessThan (h : Reordering start 0 a)
    (hnew : newWinStartB < SEQNO_SPACE_SIZE) :
    ∃ a', a.passBufferedMpdusWithSeqNumberLessThan newWinStartB = .ok a' ∧ Reordering start 0 a' ∧
      a'.scoreboard = a.scoreboard ∧ a'.winSizeB = a.winSizeB := by
  obtain ⟨a', hpass, hreorder, hscore, hsize⟩ := h.passLessThan hnew (Nat.zero_le _) rfl
  refine ⟨a'.setWinStartB newWinStartB, ?_, hreorder, hscore, hsize⟩
  rw [passBufferedMpdusWithSeqNumberLessThan, h.assertNoOldMpdu, ok_bind, hpass]
  rfl

theorem Reordering.not_withSeqNumberLessThan (h : Reordering start limit a)
    (hbuf : a.bufferedMpdus ≠ []) (hnew : ¬newWinStartB < SEQNO_SPACE_SIZE) :
    a.passBufferedMpdusWithSeqNumberLessThan newWinStartB = .error .assertFailed := by
  obtain ⟨mpdu, rest, hcons⟩ := List.exists_cons_of_ne_nil hbuf
  have hmem : mpdu ∈ a.bufferedMpdus := by
    rw [hcons]
    exact .head _
  have hfail : getDistance newWinStartB a.winStartB = .error .assertFailed := by
    rw [getDistance, decide_eq_false (fun hlt => hnew hlt.1)]
    rfl
  rw [passBufferedMpdusWithSeqNumberLessThan, h.assertNoOldMpdu, ok_bind, hcons,
    RecipientBlockAckAgreement.passLessThan,
    getDistance_of (h.seqNumber_lt mpdu hmem) h.winStartB_lt, ok_bind, hfail]
  rfl

/-! ## The scoreboard -/

variable {w : BlockAckWindow}

theorem scoreMpdu_of (hw : w.WellFormed) (hseq : seqNumber < SEQNO_SPACE_SIZE)
    (hsize : seqDistance seqNumber w.winStart < SEQNO_SPACE_HALF_SIZE → 0 < w.getWinSize) :
    ∃ w', scoreMpdu w seqNumber = .ok w' ∧ w'.WellFormed ∧ w'.getWinSize = w.getWinSize := by
  rw [scoreMpdu, BlockAckWindow.getWinStart, getDistance_of hseq hw.winStart_lt, ok_bind]
  split
  · rename_i hin
    obtain ⟨w', hset, hw', _, hsame, _⟩ := BlockAckWindow.setAt_of hw hin
    exact ⟨w', hset, hw', hsame⟩
  · split
    · rename_i hbeyond
      have hpos := hsize hbeyond
      obtain ⟨hwa, hsizea, _⟩ := BlockAckWindow.advance_of hw
        (seqDistance seqNumber w.winStart - w.getWinSize + 1)
      have hlast : w.getWinSize - 1 <
          (w.advance (seqDistance seqNumber w.winStart - w.getWinSize + 1)).getWinSize := by
        rw [hsizea]
        omega
      obtain ⟨w', hset, hw', _, hsame, _⟩ := BlockAckWindow.setAt_of hwa hlast
      refine ⟨w', ?_, hw', hsame.trans hsizea⟩
      dsimp only
      rw [hsizea]
      exact hset
    · exact ⟨w, rfl, hw, rfl⟩

theorem scoreMpdu_empty (hw : w.WellFormed) (hseq : seqNumber < SEQNO_SPACE_SIZE)
    (hahead : seqDistance seqNumber w.winStart < SEQNO_SPACE_HALF_SIZE) (hsize : w.getWinSize = 0) :
    scoreMpdu w seqNumber = .error .assertFailed := by
  obtain ⟨_, hsizea, _⟩ := BlockAckWindow.advance_of hw
    (seqDistance seqNumber w.winStart - w.getWinSize + 1)
  rw [scoreMpdu, BlockAckWindow.getWinStart, getDistance_of hseq hw.winStart_lt, ok_bind,
    if_neg (by omega), if_pos hahead]
  exact BlockAckWindow.setAt_eq_error (by omega)

theorem scoreBar_of {ssn : Nat} (hw : w.WellFormed) (hssn : ssn < SEQNO_SPACE_SIZE) :
    ∃ w', scoreBar w ssn = .ok w' ∧ w'.WellFormed ∧ w'.getWinSize = w.getWinSize := by
  rw [scoreBar, BlockAckWindow.getWinStart, getDistance_of hssn hw.winStart_lt, ok_bind]
  split
  · obtain ⟨hwa, hsizea, _⟩ := BlockAckWindow.advance_of hw (seqDistance ssn w.winStart)
    refine ⟨w.advance (seqDistance ssn w.winStart), ?_, hwa, hsizea⟩
    have hstart : (w.advance (seqDistance ssn w.winStart)).getWinStart = ssn := by
      rw [BlockAckWindow.getWinStart, BlockAckWindow.winStart_advance]
      exact add_seqDistance hssn hw.winStart_lt
    dsimp only
    rw [nsAssert_of hstart]
    rfl
  · split
    · exact ⟨_, rfl, .init hssn, BlockAckWindow.getWinSize_init _ _⟩
    · exact ⟨w, rfl, hw, rfl⟩

/-! ## One frame -/

/-- An agreement with buffer size `size` in a run. -/
structure Steady (start size : Nat) (a : RecipientBlockAckAgreement) : Prop where
  scoreboard : a.scoreboard.WellFormed
  winSize : a.scoreboard.getWinSize = size
  winSizeB : a.winSizeB = size
  reordering : Reordering start 0 a

theorem Steady.create {size : Nat} (hstart : start < SEQNO_SPACE_SIZE) :
    Steady start size (create size start) where
  scoreboard := .init hstart
  winSize := BlockAckWindow.getWinSize_init _ _
  winSizeB := rfl
  reordering := .create hstart

/-- The new window start computed for an MPDU beyond the window stays within the sequence numbers.
(With buffer size zero no MPDU is taken that the scoreboard would have to record.) -/
def MovesInRange (a : RecipientBlockAckAgreement) : RxFrame → Prop
  | .mpdu m =>
    (seqDistance m.sequenceNumber a.scoreboard.winStart < SEQNO_SPACE_HALF_SIZE →
      a.winSizeB ≠ 0) ∧
    (a.winSizeB ≤ seqDistance m.sequenceNumber a.winStartB →
      seqDistance m.sequenceNumber a.winStartB < SEQNO_SPACE_HALF_SIZE →
      a.winSizeB ≤ m.sequenceNumber + 1 ∧
        m.sequenceNumber + 1 - a.winSizeB < SEQNO_SPACE_SIZE)
  | .bar _ => True

instance (a : RecipientBlockAckAgreement) (frame : RxFrame) : Decidable (a.MovesInRange frame) := by
  cases frame <;> unfold MovesInRange <;> infer_instance

theorem newWinStartB_eq {size : Nat} (hsize : size ≤ 1024) (hseq : seqNumber < SEQNO_SPACE_SIZE) :
    wadd 64 (wsub 64 seqNumber size) 1 % 2 ^ 16 =
      if size ≤ seqNumber + 1 then seqNumber + 1 - size else 2 ^ 16 + seqNumber + 1 - size := by
  simp only [wadd, wsub, SEQNO_SPACE_SIZE] at *
  split <;> omega

variable {size : Nat}

/-- A received MPDU keeps the order of what is delivered. -/
theorem Reordering.mpdu (h : Reordering start 0 a) (hwin : a.winSizeB ≤ 1024) {m : WifiMpdu}
    (hseq : m.sequenceNumber < SEQNO_SPACE_SIZE)
    (hmove : a.winSizeB ≤ seqDistance m.sequenceNumber a.winStartB →
      seqDistance m.sequenceNumber a.winStartB < SEQNO_SPACE_HALF_SIZE →
      a.winSizeB ≤ m.sequenceNumber + 1 ∧ m.sequenceNumber + 1 - a.winSizeB < SEQNO_SPACE_SIZE) :
    ∃ a', a.reorderMpdu m = .ok a' ∧ Reordering start 0 a' ∧
      a'.scoreboard = a.scoreboard ∧ a'.winSizeB = a.winSizeB := by
  rw [reorderMpdu, getDistance_of hseq h.winStartB_lt, ok_bind]
  split
  · rename_i hin
    have hhalf : seqDistance m.sequenceNumber a.winStartB < SEQNO_SPACE_HALF_SIZE :=
      hin.trans_le (hwin.trans (by decide))
    obtain ⟨c, hpass, hc, hcscore, hcsize⟩ := (h.store hseq hhalf).untilFirstLost
    exact ⟨c, hpass, hc, hcscore.trans (store_scoreboard a m), hcsize.trans (store_winSizeB a m)⟩
  · rename_i hout
    split
    · rename_i hhalf
      obtain ⟨hle, hlt⟩ := hmove (Nat.le_of_not_lt hout) hhalf
      have hnew : wadd 64 (wsub 64 m.sequenceNumber a.winSizeB) 1 % 2 ^ 16 < SEQNO_SPACE_SIZE := by
        rw [newWinStartB_eq hwin hseq, if_pos hle]
        exact hlt
      obtain ⟨c, hpass, hc, hcscore, hcsize⟩ := (h.store hseq hhalf).withSeqNumberLessThan hnew
      obtain ⟨c', hpass', hc', hcscore', hcsize'⟩ := hc.untilFirstLost
      rw [hpass, ok_bind]
      exact ⟨c', hpass', hc', (hcscore'.trans hcscore).trans (store_scoreboard a m),
        (hcsize'.trans hcsize).trans (store_winSizeB a m)⟩
    · exact ⟨a, rfl, h, rfl, rfl⟩

section

variable {m : WifiMpdu} (h : Steady start size a) (hsize : size ≤ 1024)
  (hseq : m.sequenceNumber < SEQNO_SPACE_SIZE)

include h hsize hseq

theorem Steady.mpdu (hrange : a.MovesInRange (.mpdu m)) :
    ∃ a', a.notifyReceivedMpdu m = .ok a' ∧ Steady start size a' := by
  obtain ⟨hpos, hmove⟩ := hrange
  have hwin : a.winSizeB ≤ 1024 := by rw [h.winSizeB]; exact hsize
  obtain ⟨w', hscore, hw', hsame⟩ := scoreMpdu_of h.scoreboard hseq (by
    intro hahead
    rw [h.winSize, ← h.winSizeB]
    exact Nat.pos_of_ne_zero (hpos hahead))
  obtain ⟨c, hreorder, hc, hcscore, hcsize⟩ :=
    (h.reordering.setScoreboard w').mpdu hwin hseq hmove
  have hcboard : c.scoreboard = w' := hcscore
  rw [notifyReceivedMpdu, hscore, ok_bind]
  exact ⟨c, hreorder, by rw [hcboard]; exact hw', by rw [hcboard]; exact hsame.trans h.winSize,
    hcsize.trans h.winSizeB, hc⟩

theorem Steady.not_mpdu (hrange : ¬a.MovesInRange (.mpdu m)) :
    a.notifyReceivedMpdu m = .error .assertFailed := by
  have hwin : a.winSizeB ≤ 1024 := by rw [h.winSizeB]; exact hsize
  by_cases hempty : seqDistance m.sequenceNumber a.scoreboard.winStart < SEQNO_SPACE_HALF_SIZE ∧
      a.winSizeB = 0
  · obtain ⟨hahead, hzero⟩ := hempty
    have hnone : a.scoreboard.getWinSize = 0 := by rw [h.winSize, ← h.winSizeB, hzero]
    rw [notifyReceivedMpdu, scoreMpdu_empty h.scoreboard hseq hahead hnone]
    rfl
  · have hpos : seqDistance m.sequenceNumber a.scoreboard.winStart < SEQNO_SPACE_HALF_SIZE →
        a.winSizeB ≠ 0 := fun hahead hzero => hempty ⟨hahead, hzero⟩
    obtain ⟨w', hscore, _, _⟩ := scoreMpdu_of h.scoreboard hseq (by
      intro hahead
      rw [h.winSize, ← h.winSizeB]
      exact Nat.pos_of_ne_zero (hpos hahead))
    obtain ⟨hge, hhalf, hout⟩ : a.winSizeB ≤ seqDistance m.sequenceNumber a.winStartB ∧
        seqDistance m.sequenceNumber a.winStartB < SEQNO_SPACE_HALF_SIZE ∧
        ¬(a.winSizeB ≤ m.sequenceNumber + 1 ∧
          m.sequenceNumber + 1 - a.winSizeB < SEQNO_SPACE_SIZE) := by
      by_contra hcontra
      refine hrange ⟨hpos, fun hge hhalf => ?_⟩
      by_contra hout
      exact hcontra ⟨hge, hhalf, hout⟩
    have hnew : ¬wadd 64 (wsub 64 m.sequenceNumber a.winSizeB) 1 % 2 ^ 16 < SEQNO_SPACE_SIZE := by
      rw [newWinStartB_eq hwin hseq]
      split
      · rename_i hle
        exact fun hlt => hout ⟨hle, hlt⟩
      · simp only [SEQNO_SPACE_SIZE]
        omega
    have hb := (h.reordering.setScoreboard w').store hseq hhalf
    rw [notifyReceivedMpdu, hscore, ok_bind, reorderMpdu,
      getDistance_of hseq h.reordering.winStartB_lt, ok_bind, if_neg (Nat.not_lt_of_le hge),
      if_pos hhalf, hb.not_withSeqNumberLessThan (store_ne_nil _ m) hnew]
    rfl

end

theorem Steady.bar (h : Steady start size a) {ssn : Nat} (hssn : ssn < SEQNO_SPACE_SIZE) :
    ∃ a', a.notifyReceivedBar ssn = .ok a' ∧ Steady start size a' := by
  obtain ⟨w', hscore, hw', hsame⟩ := scoreBar_of h.scoreboard hssn
  have hb : Reordering start 0 { a with scoreboard := w' } := h.reordering.setScoreboard w'
  rw [notifyReceivedBar, hscore, ok_bind, reorderBar, getDistance_of hssn h.reordering.winStartB_lt,
    ok_bind]
  split
  · obtain ⟨c, hpass, hc, hcscore, hcsize⟩ := hb.withSeqNumberLessThan hssn
    obtain ⟨c', hpass', hc', hcscore', hcsize'⟩ := hc.untilFirstLost
    have hscoreboard : c'.scoreboard = w' := hcscore'.trans hcscore
    rw [hpass, ok_bind]
    exact ⟨c', hpass', by rw [hscoreboard]; exact hw',
      by rw [hscoreboard]; exact hsame.trans h.winSize,
      (hcsize'.trans hcsize).trans h.winSizeB, hc'⟩
  · exact ⟨_, rfl, hw', hsame.trans h.winSize, h.winSizeB, hb⟩

theorem Steady.notify (h : Steady start size a) (hsize : size ≤ 1024) {frame : RxFrame}
    (hseq : frame.seqNumber < SEQNO_SPACE_SIZE) :
    (∀ a', a.notify frame = .ok a' → Steady start size a') ∧
      ((∃ a', a.notify frame = .ok a') ↔ a.MovesInRange frame) := by
  cases frame with
  | mpdu m =>
    by_cases hrange : a.MovesInRange (.mpdu m)
    · obtain ⟨a', hnotify, ha'⟩ := h.mpdu hsize hseq hrange
      refine ⟨fun c hc => ?_, fun _ => hrange, fun _ => ⟨a', hnotify⟩⟩
      cases hnotify.symm.trans hc
      exact ha'
    · have herr := h.not_mpdu hsize hseq hrange
      refine ⟨fun c hc => ?_, fun ⟨c, hc⟩ => ?_, fun hr => absurd hr hrange⟩
      · exact absurd (herr.symm.trans hc) nofun
      · exact absurd (herr.symm.trans hc) nofun
  | bar ssn =>
    obtain ⟨a', hnotify, ha'⟩ := h.bar hseq
    refine ⟨fun c hc => ?_, fun _ => trivial, fun _ => ⟨a', hnotify⟩⟩
    cases hnotify.symm.trans hc
    exact ha'

/-! ## Histories -/

theorem steady_receiveAll {frames : List RxFrame} (hstart : start < SEQNO_SPACE_SIZE)
    (hsize : size ≤ 1024) (hseq : ∀ frame ∈ frames, frame.seqNumber < SEQNO_SPACE_SIZE)
    (h : (create size start).receiveAll frames = .ok a) : Steady start size a := by
  induction frames using List.reverseRecOn generalizing a with
  | nil =>
    cases h
    exact .create hstart
  | append_singleton frames frame ih =>
    rw [receiveAll_concat] at h
    obtain ⟨b, hb, hlast⟩ := bind_eq_ok.mp h
    have hsteady := ih (fun f hf => hseq f (List.mem_append_left _ hf)) hb
    exact (hsteady.notify hsize (hseq frame (by simp))).1 a hlast

/-- **Reordering.**  Along a history all calls return and the buffer delivers in order
and at most once, exactly when no MPDU makes the computation of the new window start
leave the sequence numbers. -/
theorem receiveAll_deliversInOrder_iff {frames : List RxFrame} (hstart : start < SEQNO_SPACE_SIZE)
    (hsize : size ≤ 1024) (hseq : ∀ frame ∈ frames, frame.seqNumber < SEQNO_SPACE_SIZE) :
    (∀ past, past <+: frames → ∃ a, (create size start).receiveAll past = .ok a ∧
        DeliversInOrder start a) ↔
      ∀ past frame a, past ++ [frame] <+: frames →
        (create size start).receiveAll past = .ok a → a.MovesInRange frame := by
  have hpast : ∀ {past : List RxFrame}, past <+: frames →
      ∀ frame ∈ past, frame.seqNumber < SEQNO_SPACE_SIZE :=
    fun hpre frame hmem => hseq frame (hpre.subset hmem)
  constructor
  · intro h past frame a hpre ha
    have hsteady := steady_receiveAll hstart hsize
      (hpast ((List.prefix_append past [frame]).trans hpre)) ha
    obtain ⟨b, hb, _⟩ := h _ hpre
    rw [receiveAll_concat, ha, ok_bind] at hb
    exact (hsteady.notify hsize (hpast hpre frame (by simp))).2.mp ⟨b, hb⟩
  · intro h past hpre
    induction past using List.reverseRecOn with
    | nil => exact ⟨_, rfl, (Reordering.create hstart).delivers⟩
    | append_singleton past frame ih =>
      have hpre' := (List.prefix_append past [frame]).trans hpre
      obtain ⟨a, ha, _⟩ := ih hpre'
      have hsteady := steady_receiveAll hstart hsize (hpast hpre') ha
      obtain ⟨hkeep, hreturns⟩ := hsteady.notify hsize (hpast hpre frame (by simp))
      obtain ⟨b, hb⟩ := hreturns.mpr (h past frame a hpre ha)
      refine ⟨b, ?_, (hkeep b hb).reordering.delivers⟩
      rw [receiveAll_concat, ha]
      exact hb

/-- Two frames in order, then a third beyond the window. -/
theorem receiveAll_deliversInOrder_beyond :
    ∃ a, (create 4 0).receiveAll [.mpdu ⟨0, 0, 7⟩, .mpdu ⟨2, 0, 8⟩, .mpdu ⟨90, 0, 9⟩] = .ok a ∧
      DeliversInOrder 0 a := by
  refine (receiveAll_deliversInOrder_iff (by decide) (by decide) (by decide)).mpr ?_ _
    (List.prefix_refl _)
  intro past frame a hpre ha
  obtain ⟨rfl, rfl⟩ | ⟨_, rfl, hpre₁⟩ := before_cons hpre
  · cases ha
    decide
  obtain ⟨rfl, rfl⟩ | ⟨_, rfl, hpre₂⟩ := before_cons hpre₁
  · cases ha
    decide
  obtain ⟨rfl, rfl⟩ := before_singleton hpre₂
  cases ha
  decide

/-- An MPDU that follows the wrap beyond the window stops the program: window start 4000,
window of 64, number 10. -/
theorem receiveAll_wrap_fails :
    ¬∀ (start size : Nat) (frames : List RxFrame), start < SEQNO_SPACE_SIZE → size ≤ 1024 →
      (∀ frame ∈ frames, frame.seqNumber < SEQNO_SPACE_SIZE) →
      ∃ a, (create size start).receiveAll frames = .ok a ∧ DeliversInOrder start a := by
  intro h
  obtain ⟨a, ha, -⟩ := h 4000 64 [.mpdu ⟨10, 0, 7⟩] (by decide) (by decide) (by decide)
  have hfail : (create 64 4000).receiveAll [.mpdu ⟨10, 0, 7⟩] = .error .assertFailed := by decide
  exact absurd (hfail.symm.trans ha) nofun

end Ns3.RecipientBlockAckAgreement
