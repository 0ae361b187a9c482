/-
  What unacknowledged mode passes to reassembly, over whole runs.
-/
import Ns3.Lte.RlcUmSteps

namespace Ns3

namespace Lte

open Lib

namespace LteRlcUm

variable {α : Type} {pdu : Nat → RlcPdu α} {rx : Reception α} {r : Reordering} {n : Nat}

def Reception.step (pdu : Nat → RlcPdu α) (rx : Reception α) :
    Event → Except Fault (Reception α)
  | .receive n => rx.doReceivePdu (pdu n)
  | .expire => rx.expireReorderingTimer

def run (pdu : Nat → RlcPdu α) (events : List Event) : Except Fault (Reception α) :=
  events.foldlM (Reception.step pdu) .new

def reordering (events : List Event) : Reordering := events.foldl Reordering.step .new

/-- The transmitter numbers its PDUs modulo 1024. -/
def Numbered (pdu : Nat → RlcPdu α) : Prop :=
  ∀ n, (pdu n).header.sequenceNumber.value = n % 1024

/-- Every event is possible: no PDU is displaced by 512 numbers or more, and the timer expires
only while it runs. -/
def Admissible (events : List Event) : Prop :=
  ∀ ks e, ks ++ [e] <+: events → (reordering ks).Admits e

/-- No event shows that the buffer is kept in numeric order, nor that `newVrUr` is a word. -/
def Handled (events : List Event) : Prop :=
  ∀ ks e, ks ++ [e] <+: events → (reordering ks).Handles e

structure Reorders (pdu : Nat → RlcPdu α) (r : Reordering) (rx : Reception α) : Prop where
  /-- PDUs are passed to reassembly in the order of transmission, and none twice -/
  inOrder : ∃ numbers : List Nat, numbers.Pairwise (· < ·) ∧ rx.reassembled = numbers.map pdu
  /-- the buffer keeps PDUs of the window that are not below `VR(UR)` -/
  kept : ∀ e ∈ rx.rxBuffer, ∃ n ∈ r.accepted,
    e = (n % 1024, pdu n) ∧ r.ur ≤ n ∧ r.uh ≤ n + windowSize ∧ n < r.uh
  vrUr : rx.vrUr.value = r.ur % 1024

/-- Where `VR(UR)` is looked for after an event: at its previous value or the window start, and
after an expiry at `VR(UX)`. -/
def searchFrom (r r' : Reordering) : Event → Nat
  | .receive _ => max r.ur (r'.uh - windowSize)
  | .expire => r.ux

/-! ## One event -/

variable {e : Event}

section

variable (h : Refines pdu r rx) (hr : r.Sound)

include h hr

theorem Refines.receive (hpdu : Numbered pdu) (hadm : r.Admits (.receive n))
    (hhandles : r.Handles (.receive n)) :
    ∃ rx', rx.doReceivePdu (pdu n) = .ok rx' ∧ Refines pdu (r.receive n) rx' := by
  obtain ⟨hlo, hhi⟩ := hadm
  have hle := hr.ur_le
  have hge := hr.uh_le
  let vrUr := rx.vrUr.setModulusBase (rx.vrUh.sub windowSize)
  let vrUh := rx.vrUh.setModulusBase (rx.vrUh.sub windowSize)
  let seqNumber := (pdu n).header.sequenceNumber.setModulusBase (vrUh.sub windowSize)
  have hstart := Reception.value_windowStart h.vrUh
  have hvrUr : vrUr.At ((r.uh : Int) - windowSize) r.ur :=
    Reception.at_setModulusBase (by rw [h.vrUr]; omega) hstart
  have hvrUh : vrUh.At ((r.uh : Int) - windowSize) r.uh :=
    Reception.at_setModulusBase (by rw [h.vrUh]; omega) hstart
  have hsn : seqNumber.At ((r.uh : Int) - windowSize) n :=
    Reception.at_setModulusBase (by rw [hpdu]; omega) (hvrUh.sub windowSize).value
  have hdiscards := @Reception.discards_eq _ _
    { rx with vrUr, vrUh } _ _ _ _ _ _ rfl hvrUr
    hvrUh hsn hle hge hlo hhi h.buffer
    (fun k hk => hr.lt_uh k (Finset.mem_of_mem_filter k hk))
    (fun hk => hr.ur_not_mem (Finset.mem_of_mem_filter _ hk))
  have hiff : (n < r.ur ∨ n ∈ r.accepted.filter fun k => r.ur ≤ k) ↔ r.Discarded n := by
    rw [Finset.mem_filter, Reordering.Discarded]
    constructor
    · rintro (hlt | ⟨hk, -⟩)
      · exact .inl hlt
      · exact .inr hk
    · rintro (hlt | hk)
      · exact .inl hlt
      · by_cases hlt : n < r.ur
        · exact .inl hlt
        · exact .inr ⟨hk, Nat.le_of_not_lt hlt⟩
  have hreceive : rx.doReceivePdu (pdu n) = (do
      if ← ({ rx with vrUr, vrUh } : Reception α).discards seqNumber then
        pure { rx with vrUr, vrUh }
      else
        let rx' ← ({ rx with
          vrUr, vrUh,
          rxBuffer := rx.rxBuffer.insert seqNumber.value (pdu n) } : Reception α).updateVrUh
            seqNumber
        let rx' ← rx'.updateVrUr
        rx'.updateTimer) := rfl
  rw [hreceive, hdiscards, ok_bind, decide_eq_decide.mpr hiff]
  by_cases hdiscard : r.Discarded n
  · rw [decide_eq_true hdiscard, if_pos rfl, Reordering.receive, if_pos hdiscard]
    refine ⟨_, rfl, ?_, ?_, h.timer, fun hrunning => ⟨hvrUr, (h.based hrunning).2.1, hvrUh⟩,
      h.buffer, h.passed⟩
    · exact h.vrUr
    · exact h.vrUh
  · rw [decide_eq_false hdiscard, if_neg Bool.false_ne_true, Reordering.receive, if_neg hdiscard]
    obtain ⟨hleaves, hstays⟩ := hhandles.resolve_left hdiscard
    have hbelow : r.ur ≤ n := Nat.le_of_not_lt fun hlt => hdiscard (.inl hlt)
    have hvalue : seqNumber.value = n % 1024 := hpdu n
    have hinsert : (insert n r.accepted).filter (fun k => r.ur ≤ k) =
        insert n (r.accepted.filter fun k => r.ur ≤ k) := by
      rw [Finset.filter_insert, if_pos hbelow]
    have hbuffer : Holds pdu r.ur ((insert n r.accepted).filter fun k => r.ur ≤ k)
        (rx.rxBuffer.insert seqNumber.value (pdu n)) := by
      rw [hinsert, hvalue]
      exact h.buffer.insert hbelow (by unfold windowSize at hge hhi; omega)
    have hpassed : PassedBelow pdu (insert n r.accepted) r.ur rx.reassembled := by
      obtain ⟨numbers, hsorted, heq, hmem⟩ := h.passed
      refine ⟨numbers, hsorted, heq, fun k => (hmem k).trans (and_congr_left fun hlt => ?_)⟩
      rw [Finset.mem_insert]
      exact (or_iff_right (by omega)).symm
    obtain ⟨rx₁, heq₁, hmoved₁⟩ := @Reception.updateVrUh_eq _ _
      { rx with
        vrUr, vrUh, rxBuffer := rx.rxBuffer.insert seqNumber.value (pdu n) }
      _ _ hr ⟨hlo, hhi⟩ _ hdiscard hleaves hvrUr h.vrUh hvalue hbuffer hpassed
    obtain ⟨rx₂, heq₂, hmoved₂⟩ := Reception.updateVrUr_eq hr ⟨hlo, hhi⟩ hstays hmoved₁
    obtain ⟨base, -, -, hur₂⟩ := hmoved₂.vrUr
    have hlow := le_firstMissing (insert n r.accepted) (r.start n)
    have hstart' : r.newUh n ≤ r.start n + windowSize := by
      unfold Reordering.start
      omega
    let r' : Reordering := { r with
      ur := firstMissing (insert n r.accepted) (r.start n)
      uh := r.newUh n
      accepted := insert n r.accepted }
    have hvalue₂ : rx₂.vrUr.value = firstMissing (insert n r.accepted) (r.start n) % 1024 := by
      have := hur₂.value
      omega
    obtain ⟨vrUr', vrUx', vrUh', hvrUr', hvrUh', hvrUx', heq₃⟩ := @Reception.updateTimer_eq _
      rx₂ r' hvalue₂ hmoved₂.vrUh
      (Reordering.firstMissing_le_newUh hr) (hstart'.trans (Nat.add_le_add_right hlow _))
      (hmoved₂.timer.trans h.timer) fun hrunning => by
        obtain ⟨hlt, hle'⟩ := hr.running hrunning
        have hux := (h.based hrunning).2.1.value
        rw [hmoved₂.vrUx]
        unfold windowSize at hge hhi
        refine ⟨by show rx.vrUx.value = r.ux % 1024; omega, ?_, ?_⟩
        · show r.newUh n < r.ux + 1024
          unfold Reordering.newUh
          omega
        · exact hle'.trans (le_max_left ..)
    rw [heq₁, ok_bind, heq₂, ok_bind, heq₃]
    refine ⟨_, rfl, ?_, ?_, rfl, fun hrunning => ?_, ?_, ?_⟩
    · rw [Reordering.restart_ur]
      have hvalue' : (vrUr'.value : Int) =
          ((firstMissing (insert n r.accepted) (r.start n) : Nat) : Int) % 1024 := hvrUr'.value
      show vrUr'.value = firstMissing (insert n r.accepted) (r.start n) % 1024
      omega
    · rw [Reordering.restart_uh]
      have hvalue' : (vrUh'.value : Int) = ((r.newUh n : Nat) : Int) % 1024 := hvrUh'.value
      show vrUh'.value = r.newUh n % 1024
      omega
    · rw [Reordering.restart_uh, Reordering.restart_ur]
      exact ⟨hvrUr', hvrUx' hrunning, hvrUh'⟩
    · rw [Reordering.restart_ur, Reordering.restart_accepted]
      refine hmoved₂.buffer.shift fun k hk => ?_
      obtain ⟨hmem, hge'⟩ := Finset.mem_filter.mp hk
      have hnear := hmoved₂.buffer.near k hk
      have hmax : r.ur ≤ r.start n := le_max_left ..
      refine ⟨hge', ?_⟩
      show k < firstMissing (insert n r.accepted) (r.start n) + 1024
      omega
    · rw [Reordering.restart_ur, Reordering.restart_accepted]
      exact hmoved₂.passed

theorem Refines.expire (hrunning : r.running = true) :
    ∃ rx', rx.expireReorderingTimer = .ok rx' ∧ Refines pdu r.expire rx' := by
  obtain ⟨hur, hux, huh⟩ := h.based hrunning
  obtain ⟨hlt, hle⟩ := hr.running hrunning
  have hge : r.uh ≤ r.ur + 512 := hr.uh_le
  have hlow := le_firstMissing r.accepted r.ux
  have hhigh : firstMissing r.accepted r.ux ≤ r.uh :=
    firstMissing_le hle fun hmem => Nat.lt_irrefl _ (hr.lt_uh _ hmem)
  have hmissing := firstMissing_not_mem r.accepted r.ux
  let r' : Reordering := { r with ur := firstMissing r.accepted r.ux, running := false }
  obtain ⟨newVrUr, hnew, hloop⟩ := Reception.expireLoop_eq (f := 1025) h.buffer hux
    (by omega) (by omega) hlow
    (fun j hj hlt' => Finset.mem_filter.mpr ⟨mem_of_lt_firstMissing hj hlt', by omega⟩)
    (fun hmem => hmissing (Finset.mem_of_mem_filter _ hmem)) (by omega)
  obtain ⟨rxBuffer, hbuffer, hinterval⟩ := @Reception.snIntervalLoop_eq _ _
    { rx with reorderingTimer := false, vrUr := newVrUr } _ _ _ _ _ 1024 _ _
    hur hnew (by unfold windowSize; omega) (by omega) (by unfold windowSize; omega) le_rfl
    (by omega) (by omega) h.buffer
  obtain ⟨vrUx, hvrUx, hstart⟩ := @Reception.startTimer_eq _
    { rx with
      reorderingTimer := false
      vrUr := newVrUr
      rxBuffer,
      reassembled := rx.reassembled ++
        (Reception.between (r.accepted.filter fun k => r.ur ≤ k) r.ur
          (firstMissing r.accepted r.ux)).map pdu }
    r' _ rfl hnew huh hhigh (by show r.uh ≤ firstMissing r.accepted r.ux + 512; omega)
    (fun hidle => nomatch hidle.1) rfl
  have hexpire : rx.expireReorderingTimer = (do
      let newVrUr ← Reception.expireLoop rx.rxBuffer 1025 rx.vrUx
      let rx' ← ({ rx with
        reorderingTimer := false
        vrUr := newVrUr } : Reception α).reassembleSnInterval rx.vrUr newVrUr
      rx'.startTimer) := rfl
  rw [hexpire, hloop, ok_bind]
  refine ⟨_, (congrArg (fun x => x >>= Reception.startTimer) hinterval).trans hstart, ?_, ?_, ?_,
    fun hrunning' => ?_, ?_, ?_⟩
  · show newVrUr.value = r'.restart.ur % 1024
    rw [Reordering.restart_ur]
    have := hnew.value
    show newVrUr.value = firstMissing r.accepted r.ux % 1024
    omega
  · show rx.vrUh.value = r'.restart.uh % 1024
    rw [Reordering.restart_uh]
    exact h.vrUh
  · rfl
  · show newVrUr.At ((r'.restart.uh : Int) - windowSize) r'.restart.ur ∧
      vrUx.At ((r'.restart.uh : Int) - windowSize) r'.restart.ux ∧
      rx.vrUh.At ((r'.restart.uh : Int) - windowSize) r'.restart.uh
    rw [Reordering.restart_uh, Reordering.restart_ur]
    exact ⟨hnew, hvrUx hrunning', huh⟩
  · show Holds pdu r'.restart.ur (r'.restart.accepted.filter fun k => r'.restart.ur ≤ k) rxBuffer
    rw [Reordering.restart_ur, Reordering.restart_accepted]
    have hfilter : (r.accepted.filter fun k => r.ur ≤ k).filter
        (fun k => ¬(r.ur ≤ k ∧ k < firstMissing r.accepted r.ux)) =
        r.accepted.filter fun k => firstMissing r.accepted r.ux ≤ k := by
      rw [Finset.filter_filter]
      refine Finset.filter_congr fun k _ => ?_
      omega
    rw [hfilter] at hbuffer
    refine hbuffer.shift fun k hk => ?_
    obtain ⟨hmem, hge'⟩ := Finset.mem_filter.mp hk
    have hlt' := hr.lt_uh k hmem
    refine ⟨hge', ?_⟩
    show k < firstMissing r.accepted r.ux + 1024
    omega
  · show PassedBelow pdu r'.restart.accepted r'.restart.ur _
    rw [Reordering.restart_ur, Reordering.restart_accepted]
    refine h.passed.append (by show r.ur ≤ firstMissing r.accepted r.ux; omega)
      (Reception.pairwise_between ..) fun k => ?_
    rw [Reception.mem_between, Finset.mem_filter]
    constructor
    · rintro ⟨⟨hk, hle'⟩, -, hlt'⟩
      exact ⟨hk, hle', hlt'⟩
    · rintro ⟨hk, hle', hlt'⟩
      exact ⟨⟨hk, hle'⟩, hle', hlt'⟩

theorem Refines.step (hpdu : Numbered pdu) (hadm : r.Admits e) (hhandles : r.Handles e) :
    ∃ rx', rx.step pdu e = .ok rx' ∧ Refines pdu (r.step e) rx' := by
  cases e with
  | receive n => exact h.receive hr hpdu hadm hhandles
  | expire => exact h.expire hr hadm

theorem Refines.reorders : Reorders pdu r rx := by
  refine ⟨?_, fun e he => ?_, h.vrUr⟩
  · obtain ⟨numbers, hsorted, heq, -⟩ := h.passed
    exact ⟨numbers, hsorted, heq⟩
  · obtain ⟨k, hk, rfl⟩ := (h.buffer.mem e).mp he
    obtain ⟨hmem, hge⟩ := Finset.mem_filter.mp hk
    have hle := hr.uh_le
    exact ⟨k, hmem, rfl, hge, by omega, hr.lt_uh k hmem⟩

end

theorem Reordering.step_ur (hr : r.Sound) (hadm : r.Admits e) :
    (r.step e).ur = firstMissing (r.step e).accepted (searchFrom r (r.step e) e) := by
  cases e with
  | receive n =>
    show (r.receive n).ur =
      firstMissing (r.receive n).accepted (max r.ur ((r.receive n).uh - windowSize))
    unfold Reordering.receive
    split
    · have hmax : max r.ur (r.uh - windowSize) = r.ur := by
        have := hr.uh_le
        omega
      rw [hmax]
      exact (firstMissing_eq le_rfl hr.ur_not_mem (by omega)).symm
    · rw [Reordering.restart_ur, Reordering.restart_uh, Reordering.restart_accepted]
      rfl
  | expire =>
    show r.expire.ur = firstMissing r.expire.accepted r.ux
    unfold Reordering.expire
    rw [Reordering.restart_ur, Reordering.restart_accepted]

/-! ## Every run -/

variable {events : List Event}

theorem reordering_concat (ks : List Event) (e : Event) :
    reordering (ks ++ [e]) = (reordering ks).step e := List.foldl_concat ..

theorem run_concat (pdu : Nat → RlcPdu α) (ks : List Event) (e : Event) :
    run pdu (ks ++ [e]) = run pdu ks >>= fun rx => rx.step pdu e := by
  rw [run, List.foldlM_append]
  refine congrArg _ (funext fun rx => ?_)
  exact bind_pure _

theorem Admissible.dropLast {ks : List Event} (h : Admissible (ks ++ [e])) : Admissible ks :=
  fun ks' e' hpre => h ks' e' (hpre.trans (List.prefix_append ..))

theorem Handled.dropLast {ks : List Event} (h : Handled (ks ++ [e])) : Handled ks :=
  fun ks' e' hpre => h ks' e' (hpre.trans (List.prefix_append ..))

theorem sound_reordering (hadm : Admissible events) : (reordering events).Sound := by
  induction events using List.reverseRecOn with
  | nil => exact Reordering.sound_new
  | append_singleton ks e ih =>
    rw [reordering_concat]
    exact Reordering.sound_step (ih hadm.dropLast) (hadm ks e (List.prefix_refl _))

/-- The code follows the reordering of the abstract layer along every run. -/
theorem refines_run (hpdu : Numbered pdu) (hadm : Admissible events) (hhandled : Handled events) :
    ∃ rx, run pdu events = .ok rx ∧ Refines pdu (reordering events) rx := by
  induction events using List.reverseRecOn with
  | nil => exact ⟨_, rfl, refines_new⟩
  | append_singleton ks e ih =>
    obtain ⟨rx, hrun, hrefines⟩ := ih hadm.dropLast hhandled.dropLast
    obtain ⟨rx', hstep, hrefines'⟩ := hrefines.step (sound_reordering hadm.dropLast) hpdu
      (hadm ks e (List.prefix_refl _)) (hhandled ks e (List.prefix_refl _))
    refine ⟨rx', ?_, ?_⟩
    · rw [run_concat, hrun, ok_bind, hstep]
    · rwa [reordering_concat]

/-- **Unacknowledged mode reorders exactly** in every run in which no PDU leaves the window with one
of the next turn of the sequence numbers, and no block of PDUs from `VR(UR)` on reaches into the
next turn. -/
theorem run_reorders (pdu : Nat → RlcPdu α) (hpdu : Numbered pdu) (events : List Event)
    (hadm : Admissible events) (hhandled : Handled events) :
    ∃ rx, run pdu events = .ok rx ∧ Reorders pdu (reordering events) rx ∧
      ∀ ks e, events = ks ++ [e] →
        (reordering events).ur = firstMissing (reordering events).accepted
          (searchFrom (reordering ks) (reordering events) e) := by
  obtain ⟨rx, hrun, hrefines⟩ := refines_run hpdu hadm hhandled
  refine ⟨rx, hrun, hrefines.reorders (sound_reordering hadm), ?_⟩
  rintro ks e rfl
  rw [reordering_concat]
  exact Reordering.step_ur (sound_reordering hadm.dropLast) (hadm ks e (List.prefix_refl _))

/-! ## Two runs -/

instance (r : Reordering) (e : Event) : Decidable (r.Admits e) := by
  unfold Reordering.Admits
  split <;> infer_instance

instance (r : Reordering) (e : Event) : Decidable (r.Handles e) := by
  have hstays (n : Nat) : Decidable (r.StaysInTurn n) :=
    decidable_of_iff _ Reordering.staysInTurn_iff.symm
  unfold Reordering.Handles Reordering.LeavesInTurn
  split <;> infer_instance

theorem forall_prefix_iff {P : List Event → Event → Prop} :
    (∀ ks e, ks ++ [e] <+: events → P ks e) ↔
      ∀ i : Fin events.length, P (events.take i) (events.get i) := by
  constructor
  · intro h i
    refine h _ _ ?_
    rw [List.get_eq_getElem, List.take_concat_get' events i i.isLt]
    exact List.take_prefix _ _
  · rintro h ks e ⟨rest, rfl⟩
    have hi : ks.length < (ks ++ [e] ++ rest).length := by simp
    have hP := h ⟨ks.length, hi⟩
    simpa using hP

def emptyPdu (n : Nat) : RlcPdu Unit := ⟨LteRlcHeader.new.setSequenceNumber (.ofValue n), []⟩

theorem run_reorders_sample : ∃ rx,
    run emptyPdu [.receive 1, .receive 0, .receive 3, .expire, .receive 2] = .ok rx ∧
      Reorders emptyPdu (reordering [.receive 1, .receive 0, .receive 3, .expire, .receive 2]) rx ∧
      ∀ ks e, [.receive 1, .receive 0, .receive 3, .expire, .receive 2] = ks ++ [e] →
        (reordering [.receive 1, .receive 0, .receive 3, .expire, .receive 2]).ur =
          firstMissing (reordering [.receive 1, .receive 0, .receive 3, .expire,
            .receive 2]).accepted (searchFrom (reordering ks) (reordering [.receive 1, .receive 0,
              .receive 3, .expire, .receive 2]) e) :=
  run_reorders emptyPdu (fun _ => rfl) _ (forall_prefix_iff.mpr (by decide +kernel))
    (forall_prefix_iff.mpr (by decide +kernel))

/-- PDU 1023 arrives when `VR(UR)` waits for it and PDU 1024 has come: `VR(UR)` stops at number 0.
-/
theorem not_run_reorders : ¬∀ pdu : Nat → RlcPdu Unit, Numbered pdu →
    ∀ events, Admissible events →
      ∃ rx, run pdu events = .ok rx ∧ Reorders pdu (reordering events) rx := by
  intro h
  have hadm : Admissible [.receive 511, .receive 1022, .receive 1024, .expire, .receive 1023] :=
    forall_prefix_iff.mpr (by decide +kernel)
  obtain ⟨rx, hrun, hreorders⟩ := h emptyPdu (fun _ => rfl) _ hadm
  have hvrUr : (run emptyPdu [.receive 511, .receive 1022, .receive 1024, .expire,
      .receive 1023]).toOption.map (fun rx => rx.vrUr.value) = some 0 := by decide +kernel
  have hur : (reordering [.receive 511, .receive 1022, .receive 1024, .expire,
      .receive 1023]).ur = 1025 := by decide +kernel
  rw [hrun] at hvrUr
  have hzero : rx.vrUr.value = 0 := Option.some.inj hvrUr
  have hone := hreorders.vrUr
  rw [hur, hzero] at hone
  cases hone

end LteRlcUm

end Lte

end Ns3
