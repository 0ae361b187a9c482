/-
  The receiver takes the steps of the abstract reordering.

  This holds as long as no PDU of an earlier turn of the sequence numbers falls out of the
  window when a PDU of the next turn moves it, and no block of PDUs from `VR(UR)` on reaches
  from one turn into the next.
-/
import Ns3.Lte.RlcUmRefines

namespace Ns3

namespace Lte

open Lib

namespace LteRlcUm

namespace Reordering

def LeavesInTurn (r : Reordering) (n : Nat) : Prop :=
  ∀ k ∈ r.accepted, r.ur ≤ k → k + windowSize < r.newUh n → k / 1024 = n / 1024

/-- A PDU is missing from `VR(UR)` on, at the latest the first one of the next turn. -/
def StaysInTurn (r : Reordering) (n : Nat) : Prop :=
  ∃ k, r.start n ≤ k ∧ k ≤ 1024 * (r.start n / 1024 + 1) ∧ k ∉ insert n r.accepted

theorem staysInTurn_iff {r : Reordering} {n : Nat} : r.StaysInTurn n ↔
    firstMissing (insert n r.accepted) (r.start n) ≤ 1024 * (r.start n / 1024 + 1) := by
  constructor
  · rintro ⟨k, hk, hle, hnot⟩
    exact (firstMissing_le hk hnot).trans hle
  · intro hle
    exact ⟨_, le_firstMissing .., hle, firstMissing_not_mem _ _⟩

/-- The event does not show that the buffer is kept in numeric order, nor that `newVrUr` is a
word and not a sequence number. -/
def Handles (r : Reordering) : Event → Prop
  | .receive n => r.Discarded n ∨ (r.LeavesInTurn n ∧ r.StaysInTurn n)
  | .expire => True

end Reordering

variable {α : Type} {pdu : Nat → RlcPdu α} {rx : Reception α} {r : Reordering} {n : Nat}

/-- The receiver is in the state that the abstract reordering is in. -/
structure Refines (pdu : Nat → RlcPdu α) (r : Reordering) (rx : Reception α) : Prop where
  vrUr : rx.vrUr.value = r.ur % 1024
  vrUh : rx.vrUh.value = r.uh % 1024
  timer : rx.reorderingTimer = r.running
  based : r.running = true → rx.vrUr.At ((r.uh : Int) - windowSize) r.ur ∧
    rx.vrUx.At ((r.uh : Int) - windowSize) r.ux ∧ rx.vrUh.At ((r.uh : Int) - windowSize) r.uh
  buffer : Holds pdu r.ur (r.accepted.filter fun k => r.ur ≤ k) rx.rxBuffer
  passed : PassedBelow pdu r.accepted r.ur rx.reassembled

theorem refines_new : Refines pdu .new .new := by
  refine ⟨rfl, rfl, rfl, nofun, ?_, [], .nil, rfl, fun n => ?_⟩
  · exact Holds.empty
  · exact ⟨nofun, fun h => absurd h.1 (Finset.notMem_empty n)⟩

/-! ## Moving the window -/

theorem takeWhile_eq_filter {β : Type} {P : β → Bool} {l : List β}
    (h : l.Pairwise fun a b => P b = true → P a = true) : l.takeWhile P = l.filter P := by
  induction l with
  | nil => rfl
  | cons a l ih =>
    by_cases ha : P a = true
    · rw [List.takeWhile_cons_of_pos ha, List.filter_cons_of_pos ha, ih h.tail]
    · have hnone : l.filter P = [] :=
        List.filter_eq_nil_iff.mpr fun b hb hPb => ha (List.rel_of_pairwise_cons h hb hPb)
      rw [List.takeWhile_cons_of_neg ha, List.filter_cons_of_neg ha, hnone]

theorem mem_foldl_erase {entries : List (Nat × RlcPdu α)} {m : SortedMap (RlcPdu α)}
    {e : Nat × RlcPdu α} :
    e ∈ entries.foldl (fun m e => m.erase e.1) m ↔ e ∈ m ∧ ∀ e' ∈ entries, e.1 ≠ e'.1 := by
  induction entries generalizing m with
  | nil => simp
  | cons e' entries ih =>
    rw [List.foldl_cons, ih, SortedMap.mem_erase, List.forall_mem_cons, and_assoc]

namespace Reception

theorem outsideWindowLoop_eq {outside : Nat × RlcPdu α → Bool} {uh : Nat}
    (entries : List (Nat × RlcPdu α)) (huh : rx.vrUh.value = uh % 1024)
    (h : ∀ e ∈ entries, ∃ k, e.1 = k % 1024 ∧ uh ≤ k + 1024 ∧ k < uh ∧
      outside e = decide (k + windowSize < uh)) :
    ∃ vrUh : SequenceNumber10, vrUh.value = uh % 1024 ∧
      outsideWindowLoop entries rx = .ok { rx with
        vrUh, rxBuffer := (entries.takeWhile outside).foldl (fun m e => m.erase e.1) rx.rxBuffer
        reassembled := rx.reassembled ++ (entries.takeWhile outside).map Prod.snd } := by
  induction entries generalizing rx with
  | nil =>
    refine ⟨rx.vrUh, huh, ?_⟩
    rw [List.takeWhile_nil, List.map_nil, List.append_nil]
    rfl
  | cons e entries ih =>
    obtain ⟨⟨k, hkey, hlo, hhi, hout⟩, hrest⟩ := List.forall_mem_cons.mp h
    obtain ⟨vrUh, hvrUh, heq⟩ := @isInsideReorderingWindow_eq _ _ _ (.ofValue e.1) _ huh
      (by rw [hkey]; exact Nat.mod_mod ..) hlo (by omega)
    have hvalue : vrUh.value = uh % 1024 := by
      have := hvrUh.value
      omega
    obtain ⟨key, packet⟩ := e
    rw [outsideWindowLoop, heq, ok_bind]
    by_cases hin : k + windowSize < uh
    · have hnot : ¬(uh ≤ k + 512 ∧ k < uh) := by
        unfold windowSize at hin
        omega
      obtain ⟨vrUh', hvrUh', heq'⟩ :=
        @ih (reassemble { rx with vrUh } key packet) hvalue hrest
      refine ⟨vrUh', hvrUh', ?_⟩
      rw [decide_eq_false hnot]
      show outsideWindowLoop entries (reassemble { rx with vrUh } key packet) = _
      rw [heq', List.takeWhile_cons_of_pos (hout.trans (decide_eq_true hin)), List.map_cons,
        List.append_cons, List.foldl_cons]
      rfl
    · have hyes : uh ≤ k + 512 ∧ k < uh := by
        unfold windowSize at hin
        omega
      refine ⟨vrUh, hvalue, ?_⟩
      rw [decide_eq_true hyes, List.takeWhile_cons_of_neg, List.map_nil, List.append_nil]
      · rfl
      · rw [hout, decide_eq_false hin]
        exact Bool.false_ne_true

theorem reassembleOutsideWindow_eq {lo : Nat} {held : Finset Nat}
    (huh : rx.vrUh.value = (n + 1) % 1024) (hholds : Holds pdu lo held rx.rxBuffer)
    (hheld : ∀ k ∈ held, k ≤ n) (hlo : n < lo + 1024)
    (hturn : ∀ k ∈ held, k + windowSize < n + 1 → k / 1024 = n / 1024) :
    ∃ (vrUh : SequenceNumber10) (rxBuffer : SortedMap (RlcPdu α)) (numbers : List Nat),
      vrUh.value = (n + 1) % 1024 ∧
      Holds pdu lo (held.filter fun k => n + 1 ≤ k + windowSize) rxBuffer ∧
      numbers.Pairwise (· < ·) ∧ (∀ k, k ∈ numbers ↔ k ∈ held ∧ k + windowSize < n + 1) ∧
      rx.reassembleOutsideWindow = .ok { rx with
        vrUh, rxBuffer, reassembled := rx.reassembled ++ numbers.map pdu } := by
  -- the number of an entry that has left the window
  let number (e : Nat × RlcPdu α) : Nat := 1024 * (n / 1024) + e.1
  let outside (e : Nat × RlcPdu α) : Bool :=
    decide (number e ∈ held ∧ number e + windowSize < n + 1)
  have hentry (e : Nat × RlcPdu α) (he : e ∈ rx.rxBuffer) : ∃ k ∈ held, e = (k % 1024, pdu k) ∧
      outside e = decide (k + windowSize < n + 1) ∧ (k + windowSize < n + 1 → number e = k) := by
    obtain ⟨k, hk, rfl⟩ := (hholds.mem e).mp he
    have hnumber : k + windowSize < n + 1 → number (k % 1024, pdu k) = k := by
      intro hlt
      have := hturn k hk hlt
      show 1024 * (n / 1024) + k % 1024 = k
      omega
    refine ⟨k, hk, rfl, decide_eq_decide.mpr ⟨?_, fun hlt => ?_⟩, hnumber⟩
    · rintro ⟨hmem, hlt⟩
      have hnear := hholds.near _ hmem
      have hnear' := hholds.near k hk
      have hnum : number (k % 1024, pdu k) = 1024 * (n / 1024) + k % 1024 := rfl
      have hsame : number (k % 1024, pdu k) = k := by omega
      rwa [hsame] at hlt
    · rw [hnumber hlt]
      exact ⟨hk, hlt⟩
  obtain ⟨vrUh, hvrUh, heq⟩ := @outsideWindowLoop_eq _ _ outside _ rx.rxBuffer.entries huh
    fun e he => by
      obtain ⟨k, hk, rfl, hout, -⟩ := hentry e he
      have hnear := hholds.near k hk
      have hle := hheld k hk
      exact ⟨k, rfl, by omega, by omega, hout⟩
  have hfilter : rx.rxBuffer.entries.takeWhile outside = rx.rxBuffer.entries.filter outside := by
    refine takeWhile_eq_filter (rx.rxBuffer.sorted.imp_of_mem fun {e e'} he he' hlt hout => ?_)
    obtain ⟨k, hk, rfl, houtk, -⟩ := hentry e he
    obtain ⟨k', hk', rfl, houtk', -⟩ := hentry e' he'
    rw [houtk', decide_eq_true_eq] at hout
    rw [houtk, decide_eq_true_eq]
    by_contra hin
    -- then both are of the turn of `n`, and the order of the keys is that of the numbers
    have hturn' := hturn k' hk' hout
    have hle := hheld k hk
    omega
  have hmem (e : Nat × RlcPdu α) : e ∈ rx.rxBuffer.entries.filter outside ↔
      ∃ k ∈ held, k + windowSize < n + 1 ∧ e = (k % 1024, pdu k) := by
    rw [List.mem_filter]
    constructor
    · rintro ⟨he, hout⟩
      obtain ⟨k, hk, rfl, houtk, -⟩ := hentry e he
      rw [houtk, decide_eq_true_eq] at hout
      exact ⟨k, hk, hout, rfl⟩
    · rintro ⟨k, hk, hlt, rfl⟩
      have he : (k % 1024, pdu k) ∈ rx.rxBuffer := (hholds.mem _).mpr ⟨k, hk, rfl⟩
      obtain ⟨k', hk', heq', houtk, -⟩ := hentry _ he
      have hkey : k % 1024 = k' % 1024 := congrArg Prod.fst heq'
      have hnear := hholds.near k hk
      have hnear' := hholds.near k' hk'
      obtain rfl : k = k' := by omega
      exact ⟨he, houtk.trans (decide_eq_true hlt)⟩
  have hnumbers (e : Nat × RlcPdu α) (he : e ∈ rx.rxBuffer.entries.filter outside) :
      pdu (number e) = e.2 := by
    obtain ⟨he', -⟩ := List.mem_filter.mp he
    obtain ⟨k, hk, hlt, rfl⟩ := (hmem e).mp he
    have := hturn k hk hlt
    have hnum : number (k % 1024, pdu k) = k := by
      show 1024 * (n / 1024) + k % 1024 = k
      omega
    rw [hnum]
  rw [hfilter] at heq
  refine ⟨vrUh, (rx.rxBuffer.entries.filter outside).foldl (fun m e => m.erase e.1) rx.rxBuffer,
    (rx.rxBuffer.entries.filter outside).map number, hvrUh, ?_, ?_, ?_, heq.trans ?_⟩
  · refine ⟨fun e => ?_, fun k hk => hholds.near k (Finset.mem_of_mem_filter k hk)⟩
    rw [mem_foldl_erase, hholds.mem]
    simp only [Finset.mem_filter]
    constructor
    · rintro ⟨⟨k, hk, rfl⟩, hkeys⟩
      refine ⟨k, ⟨hk, ?_⟩, rfl⟩
      by_contra hlt
      exact hkeys _ ((hmem _).mpr ⟨k, hk, Nat.lt_of_not_le hlt, rfl⟩) rfl
    · rintro ⟨k, ⟨hk, hin⟩, rfl⟩
      refine ⟨⟨k, hk, rfl⟩, fun e' he' hkey => ?_⟩
      obtain ⟨k', hk', hlt, rfl⟩ := (hmem e').mp he'
      have hnear := hholds.near k hk
      have hnear' := hholds.near k' hk'
      omega
  · refine List.pairwise_map.mpr ((rx.rxBuffer.sorted.filter _).imp fun hlt => ?_)
    exact Nat.add_lt_add_left hlt _
  · intro k
    rw [List.mem_map]
    constructor
    · rintro ⟨e, he, rfl⟩
      obtain ⟨k, hk, hlt, rfl⟩ := (hmem e).mp he
      have := hturn k hk hlt
      have hnum : number (k % 1024, pdu k) = k := by
        show 1024 * (n / 1024) + k % 1024 = k
        omega
      rw [hnum]
      exact ⟨hk, hlt⟩
    · rintro ⟨hk, hlt⟩
      refine ⟨(k % 1024, pdu k), (hmem _).mpr ⟨k, hk, hlt, rfl⟩, ?_⟩
      have := hturn k hk hlt
      show 1024 * (n / 1024) + k % 1024 = k
      omega
  · rw [List.map_map]
    have hmap : (rx.rxBuffer.entries.filter outside).map Prod.snd =
        (rx.rxBuffer.entries.filter outside).map (pdu ∘ number) :=
      List.map_congr_left fun e he => (hnumbers e he).symm
    rw [hmap]

/-- The state on the way through `DoReceivePdu`: the window ends at `uh`, and what is below `ur`
has been passed on. -/
structure Moved (pdu : Nat → RlcPdu α) (r : Reordering) (accepted : Finset Nat) (ur uh : Nat)
    (rx rx' : Reception α) : Prop where
  vrUx : rx'.vrUx = rx.vrUx
  timer : rx'.reorderingTimer = rx.reorderingTimer
  vrUh : rx'.vrUh.value = uh % 1024
  vrUr : ∃ base : Int, (r.uh : Int) - windowSize ≤ base ∧ base ≤ ur ∧ rx'.vrUr.At base ur
  buffer : Holds pdu r.ur (accepted.filter fun k => ur ≤ k) rx'.rxBuffer
  passed : PassedBelow pdu accepted ur rx'.reassembled

section

variable (hr : r.Sound) (hadm : r.Admits (.receive n))

include hr hadm

theorem updateVrUh_eq {sn : SequenceNumber10} (hnew : ¬r.Discarded n) (hturn : r.LeavesInTurn n)
    (hur : rx.vrUr.At ((r.uh : Int) - windowSize) r.ur) (huh : rx.vrUh.value = r.uh % 1024)
    (hsn : sn.value = n % 1024)
    (hholds : Holds pdu r.ur ((insert n r.accepted).filter fun k => r.ur ≤ k) rx.rxBuffer)
    (hpassed : PassedBelow pdu (insert n r.accepted) r.ur rx.reassembled) :
    ∃ rx', rx.updateVrUh sn = .ok rx' ∧
      Moved pdu r (insert n r.accepted) (r.start n) (r.newUh n) rx rx' := by
  obtain ⟨hlo, hhi⟩ := hadm
  have hle := hr.ur_le
  have hge := hr.uh_le
  have hbelow : r.ur ≤ n := Nat.le_of_not_lt fun hlt => hnew (.inl hlt)
  have hbase : (r.uh : Int) - windowSize ≤ r.ur := by omega
  obtain ⟨vrUh, hvrUh, heq⟩ := isInsideReorderingWindow_eq huh hsn
    (by unfold windowSize at hlo; omega) (by unfold windowSize at hhi; omega)
  rw [updateVrUh, heq, ok_bind]
  unfold windowSize at hlo hhi hge
  by_cases hin : n < r.uh
  · -- the window stays where it is
    have hnewUh : r.newUh n = r.uh := by
      unfold Reordering.newUh
      omega
    have hstart : r.start n = r.ur := by
      unfold Reordering.start windowSize
      omega
    refine ⟨{ rx with vrUh }, ?_, ?_⟩
    · rw [decide_eq_true ⟨by omega, hin⟩]
      rfl
    · rw [hstart, hnewUh]
      refine ⟨rfl, rfl, ?_, ⟨_, le_rfl, hbase, hur⟩, hholds, hpassed⟩
      have := hvrUh.value
      show vrUh.value = r.uh % 1024
      omega
  · have hnewUh : r.newUh n = n + 1 := by
      unfold Reordering.newUh
      omega
    have hupper (k : Nat) (hk : k ∈ (insert n r.accepted).filter fun k => r.ur ≤ k) : k ≤ n := by
      rcases Finset.mem_insert.mp (Finset.mem_of_mem_filter k hk) with rfl | hk
      · exact le_rfl
      · exact (hr.lt_uh k hk).le.trans (Nat.le_of_not_lt hin)
    have hmoved : ({ rx with vrUh := sn.add 1 } : Reception α).vrUh.value = (n + 1) % 1024 := by
      show (sn.value + 1) % 1024 = (n + 1) % 1024
      omega
    obtain ⟨vrUh', rxBuffer, numbers, hvrUh', hholds', hsorted, hnumbers, heq'⟩ :=
      reassembleOutsideWindow_eq hmoved hholds hupper (by omega) fun k hk hlt => by
        obtain ⟨hk, hge'⟩ := Finset.mem_filter.mp hk
        rcases Finset.mem_insert.mp hk with rfl | hk
        · rfl
        · exact hturn k hk hge' (by rwa [hnewUh])
    have hnot : ¬(r.uh ≤ n + 512 ∧ n < r.uh) := fun h => hin h.2
    rw [decide_eq_false hnot]
    dsimp only
    rw [if_neg Bool.false_ne_true, heq', ok_bind]
    dsimp only
    obtain ⟨vrUh'', hvrUh'', heq''⟩ := @isInsideReorderingWindow_eq _
      { rx with
        vrUh := vrUh'
        rxBuffer, reassembled := rx.reassembled ++ numbers.map pdu }
      r.ur rx.vrUr _ hvrUh' (by have := hur.value; omega) (by omega) (by omega)
    rw [heq'', ok_bind]
    have hvalue : vrUh''.value = r.newUh n % 1024 := by
      have := hvrUh''.value
      rw [hnewUh]
      omega
    have hwhole : ((insert n r.accepted).filter fun k => r.ur ≤ k).filter
        (fun k => n + 1 ≤ k + windowSize) =
        (insert n r.accepted).filter fun k => r.start n ≤ k := by
      rw [Finset.filter_filter]
      refine Finset.filter_congr fun k _ => ?_
      unfold Reordering.start windowSize
      rw [hnewUh]
      omega
    rw [hwhole] at hholds'
    have hpassed' : PassedBelow pdu (insert n r.accepted) (r.start n)
        (rx.reassembled ++ numbers.map pdu) := by
      refine hpassed.append (le_max_left ..) hsorted fun k => ?_
      rw [hnumbers, Finset.mem_filter, and_assoc]
      refine and_congr_right fun _ => ?_
      unfold Reordering.start windowSize
      rw [hnewUh]
      omega
    by_cases hkeep : n + 1 ≤ r.ur + 512
    · have hstart : r.start n = r.ur := by
        unfold Reordering.start windowSize
        rw [hnewUh]
        omega
      refine ⟨{ rx with
        vrUh := vrUh''
        rxBuffer, reassembled := rx.reassembled ++ numbers.map pdu }, ?_, rfl, rfl, hvalue,
        ⟨(r.uh : Int) - windowSize, le_rfl, ?_, ?_⟩, hholds', hpassed'⟩
      · rw [decide_eq_true ⟨hkeep, by omega⟩]
        rfl
      · rw [hstart]
        exact hbase
      · rw [hstart]
        exact hur
    · have hstart : (r.start n : Int) = ((n + 1 : Nat) : Int) - windowSize := by
        unfold Reordering.start windowSize
        rw [hnewUh]
        omega
      refine ⟨{ rx with
        vrUr := vrUh''.sub windowSize
        vrUh := vrUh''
        rxBuffer, reassembled := rx.reassembled ++ numbers.map pdu }, ?_, rfl, rfl, hvalue,
        ⟨((n + 1 : Nat) : Int) - windowSize, ?_, hstart.ge, ?_⟩, hholds', hpassed'⟩
      · rw [decide_eq_false fun h => hkeep h.1]
        rfl
      · unfold windowSize
        omega
      · rw [hstart]
        exact hvrUh''.sub windowSize

theorem firstMissing_le_succ : firstMissing (insert n r.accepted) (r.start n) ≤ r.uh + 1 := by
  obtain ⟨hlo, hhi⟩ := hadm
  have hle := hr.ur_le
  have hstart : r.start n ≤ r.uh := by
    unfold Reordering.start Reordering.newUh
    omega
  by_cases huh : r.uh ∈ insert n r.accepted
  · refine firstMissing_le (by omega) fun hmem => ?_
    rcases Finset.mem_insert.mp huh with heq | huh
    · rcases Finset.mem_insert.mp hmem with heq' | hmem
      · omega
      · have := hr.lt_uh _ hmem
        omega
    · exact Nat.lt_irrefl _ (hr.lt_uh _ huh)
  · exact (firstMissing_le hstart huh).trans (Nat.le_succ _)

theorem updateVrUr_eq {rx₀ : Reception α} (hturn : r.StaysInTurn n)
    (h : Moved pdu r (insert n r.accepted) (r.start n) (r.newUh n) rx₀ rx) :
    ∃ rx', rx.updateVrUr = .ok rx' ∧
      Moved pdu r (insert n r.accepted) (firstMissing (insert n r.accepted) (r.start n))
        (r.newUh n) rx₀ rx' := by
  obtain ⟨base, hbase, hbase', hur⟩ := h.vrUr
  have hge := hr.uh_le
  have hfirst := firstMissing_le_succ hr hadm
  have hstart : r.ur ≤ r.start n := le_max_left ..
  have hvalue : rx.vrUr.value = r.start n % 1024 := by
    have := hur.value
    omega
  have hlow := le_firstMissing (insert n r.accepted) (r.start n)
  have hmissing := firstMissing_not_mem (insert n r.accepted) (r.start n)
  have hall (k : Nat) : r.start n ≤ k → k < firstMissing (insert n r.accepted) (r.start n) →
      k ∈ insert n r.accepted := mem_of_lt_firstMissing
  have hend := Reordering.staysInTurn_iff.mp hturn
  generalize firstMissing (insert n r.accepted) (r.start n) = first at *
  unfold windowSize at hbase hge
  rw [updateVrUr, hvalue, h.buffer.contains_eq hstart (by omega)]
  by_cases hmem : r.start n ∈ insert n r.accepted
  · have hne : first ≠ r.start n := by
      rintro rfl
      exact hmissing hmem
    have hloop := @newVrUrLoop_eq _ _ _ _ _ (r.start n / 1024) first (r.start n + 1)
      1024 h.buffer (by omega) (by omega) (by omega) (by omega) hend
      (fun j hj hlt => Finset.mem_filter.mpr ⟨hall j (by omega) hlt, by omega⟩)
      (fun hin => hmissing (Finset.mem_of_mem_filter _ hin)) (by omega)
    rw [show r.start n + 1 - 1024 * (r.start n / 1024) = r.start n % 1024 + 1 by omega] at hloop
    have hnew : (rx.vrUr.assign (first - 1024 * (r.start n / 1024))).At base first := by
      refine ⟨?_, hur.modulusBase⟩
      show (((first - 1024 * (r.start n / 1024)) % 1024 : Nat) : Int) = (first : Int) % 1024
      omega
    obtain ⟨rxBuffer, hbuffer, heq⟩ := @snIntervalLoop_eq _ _
      { rx with vrUr := rx.vrUr.assign (first - 1024 * (r.start n / 1024)) }
      _ _ _ _ _ 1024 _ _ hur hnew hbase' (by omega) (by omega) hstart (by omega) (by omega) h.buffer
    refine ⟨{ rx with
      vrUr := rx.vrUr.assign (first - 1024 * (r.start n / 1024))
      rxBuffer,
      reassembled := rx.reassembled ++
        (between ((insert n r.accepted).filter fun k => r.start n ≤ k) (r.start n) first).map pdu },
      ?_, h.vrUx, h.timer, h.vrUh, ⟨base, hbase, by omega, hnew⟩, ?_,
      h.passed.append (by omega) (pairwise_between ..) fun k => ?_⟩
    · rw [decide_eq_true (Finset.mem_filter.mpr ⟨hmem, le_rfl⟩), if_pos rfl, hloop, ok_bind]
      exact heq
    · have hfilter : ((insert n r.accepted).filter fun k => r.start n ≤ k).filter
          (fun k => ¬(r.start n ≤ k ∧ k < first)) =
          (insert n r.accepted).filter fun k => first ≤ k := by
        rw [Finset.filter_filter]
        refine Finset.filter_congr fun k _ => ?_
        omega
      rwa [hfilter] at hbuffer
    · rw [mem_between, Finset.mem_filter]
      constructor
      · rintro ⟨⟨hk, hle⟩, -, hlt⟩
        exact ⟨hk, hle, hlt⟩
      · rintro ⟨hk, hle, hlt⟩
        exact ⟨⟨hk, hle⟩, hle, hlt⟩
  · have hsame : first = r.start n := by
      by_contra hne
      exact hmem (hall _ le_rfl (by omega))
    refine ⟨rx, ?_, hsame ▸ h⟩
    rw [decide_eq_false fun hin => hmem (Finset.mem_of_mem_filter _ hin),
      if_neg Bool.false_ne_true]
    rfl

end

section

variable {base : Int} (hbase : base = (r.uh : Int) - windowSize) (hur : rx.vrUr.At base r.ur)
  (huh : rx.vrUh.At base r.uh) (hle : r.ur ≤ r.uh) (hge : r.uh ≤ r.ur + windowSize)

include hbase hur huh hle hge

theorem startTimer_eq (hidle : ¬(r.running = true ∧ r.ur < r.ux))
    (htimer : rx.reorderingTimer = false) :
    ∃ vrUx : SequenceNumber10, (r.restart.running = true → vrUx.At base r.restart.ux) ∧
      rx.startTimer = .ok { rx with vrUx, reorderingTimer := r.restart.running } := by
  unfold windowSize at hbase hge
  rw [startTimer, huh.gt hur (by omega) (by omega) (by omega) (by omega), ok_bind,
    Reordering.restart, if_neg hidle]
  by_cases hlt : r.ur < r.uh
  · rw [decide_eq_true (by omega), if_pos rfl, if_pos hlt]
    exact ⟨rx.vrUh, fun _ => huh, rfl⟩
  · rw [decide_eq_false (by omega), if_neg Bool.false_ne_true, if_neg hlt]
    refine ⟨rx.vrUx, nofun, ?_⟩
    rw [← htimer]
    rfl

theorem stopTimer_eq (htimer : rx.reorderingTimer = r.running)
    (hux : r.running = true → rx.vrUx.At base r.ux ∧ r.uh < r.ux + 1024 ∧ r.ux ≤ r.uh) :
    ∃ vrUh : SequenceNumber10, vrUh.At base r.uh ∧ rx.stopTimer = .ok { rx with
      vrUh, reorderingTimer := decide (r.running = true ∧ r.ur < r.ux) } := by
  unfold windowSize at hbase hge
  rw [stopTimer]
  by_cases hrunning : r.running = true
  · obtain ⟨hux, hnear, hle'⟩ := hux hrunning
    have huhvalue : rx.vrUh.value = r.uh % 1024 := by
      have := huh.value
      omega
    have huxvalue : rx.vrUx.value = r.ux % 1024 := by
      have := hux.value
      omega
    obtain ⟨vrUh, hvrUh, heq⟩ :=
      @isInsideReorderingWindow_eq _ _ _ rx.vrUx _ huhvalue huxvalue (by omega) (by omega)
    have hvrUhvalue : vrUh.value = r.uh % 1024 := by
      have := hvrUh.value
      omega
    rw [htimer, if_pos hrunning, heq]
    by_cases hwindow : r.uh ≤ r.ux + 512
    · rw [hux.le hur (by omega) (by omega) (by omega) (by omega), ok_bind]
      by_cases hlt : r.ur < r.ux
      · rw [decide_eq_false (by omega), if_neg Bool.false_ne_true, ok_bind,
          decide_eq_true (⟨hrunning, hlt⟩ : r.running = true ∧ r.ur < r.ux)]
        refine ⟨vrUh, by rwa [hbase], ?_⟩
        dsimp only
        have hkeep : (!decide (r.uh ≤ r.ux + 512 ∧ r.ux < r.uh) &&
            decide (rx.vrUx.value ≠ vrUh.value)) = false := by
          rw [Bool.and_eq_false_iff]
          by_cases heq' : r.ux = r.uh
          · right
            rw [huxvalue, hvrUhvalue, heq']
            exact decide_eq_false (not_not.mpr rfl)
          · left
            rw [decide_eq_true ⟨hwindow, by omega⟩]
            rfl
        rw [hkeep, if_neg Bool.false_ne_true, ← hrunning, ← htimer]
        rfl
      · rw [decide_eq_true (by omega), if_pos rfl, decide_eq_false fun h => hlt h.2]
        exact ⟨rx.vrUh, huh, rfl⟩
    · -- `VR(UX)` has fallen out of the window; the comparison sees it one turn later
      have hux' : rx.vrUx.At base ((r.ux : Int) + 1024) :=
        ⟨by have := hux.value; omega, hux.modulusBase⟩
      have hstop : (!decide (r.uh ≤ r.ux + 512 ∧ r.ux < r.uh) &&
          decide (rx.vrUx.value ≠ vrUh.value)) = true := by
        rw [Bool.and_eq_true, huxvalue, hvrUhvalue, decide_eq_false fun h => hwindow h.1]
        exact ⟨rfl, decide_eq_true (by omega)⟩
      rw [hux'.le hur (by omega) (by omega) (by omega) (by omega), ok_bind,
        decide_eq_false (by omega), if_neg Bool.false_ne_true, ok_bind]
      dsimp only
      rw [hstop, if_pos rfl, decide_eq_false fun h => by omega]
      exact ⟨vrUh, by rwa [hbase], rfl⟩
  · rw [htimer, if_neg hrunning, decide_eq_false fun h => hrunning h.1]
    refine ⟨rx.vrUh, huh, ?_⟩
    rw [← Bool.eq_false_iff.mpr hrunning, ← htimer]
    rfl

end

theorem updateTimer_eq (hur : rx.vrUr.value = r.ur % 1024) (huh : rx.vrUh.value = r.uh % 1024)
    (hle : r.ur ≤ r.uh) (hge : r.uh ≤ r.ur + windowSize) (htimer : rx.reorderingTimer = r.running)
    (hux : r.running = true →
      rx.vrUx.value = r.ux % 1024 ∧ r.uh < r.ux + 1024 ∧ r.ux ≤ r.uh) :
    ∃ vrUr vrUx vrUh : SequenceNumber10, vrUr.At ((r.uh : Int) - windowSize) r.ur ∧
      vrUh.At ((r.uh : Int) - windowSize) r.uh ∧
      (r.restart.running = true → vrUx.At ((r.uh : Int) - windowSize) r.restart.ux) ∧
      rx.updateTimer = .ok { rx with
        vrUr, vrUx, vrUh, reorderingTimer := r.restart.running } := by
  have hstart := value_windowStart huh
  have hur' : (rx.vrUr.setModulusBase (rx.vrUh.sub windowSize)).At
      ((r.uh : Int) - windowSize) r.ur :=
    at_setModulusBase (by omega) hstart
  have huh' : (rx.vrUh.setModulusBase (rx.vrUh.sub windowSize)).At
      ((r.uh : Int) - windowSize) r.uh :=
    at_setModulusBase (by omega) hstart
  have hux' (hrunning : r.running = true) :
      (rx.vrUx.setModulusBase (rx.vrUh.sub windowSize)).At ((r.uh : Int) - windowSize) r.ux ∧
        r.uh < r.ux + 1024 ∧ r.ux ≤ r.uh := by
    obtain ⟨hvalue, hrest⟩ := hux hrunning
    exact ⟨at_setModulusBase (by omega) hstart, hrest⟩
  obtain ⟨vrUh, hvrUh, heq⟩ := @stopTimer_eq _
    { rx with
      vrUr := rx.vrUr.setModulusBase (rx.vrUh.sub windowSize)
      vrUx := rx.vrUx.setModulusBase (rx.vrUh.sub windowSize)
      vrUh := rx.vrUh.setModulusBase (rx.vrUh.sub windowSize) }
    _ _ rfl hur' huh' hle hge htimer hux'
  have hupdate : rx.updateTimer = _ := congrArg (fun x => x >>= fun rx : Reception α =>
    if rx.reorderingTimer then pure rx else rx.startTimer) heq
  rw [hupdate, ok_bind]
  by_cases hkeep : r.running = true ∧ r.ur < r.ux
  · have hrestart : r.restart = r := if_pos hkeep
    refine ⟨_, rx.vrUx.setModulusBase (rx.vrUh.sub windowSize), vrUh, hur', hvrUh, fun _ => ?_, ?_⟩
    · rw [hrestart]
      exact (hux' hkeep.1).1
    · dsimp only
      rw [decide_eq_true hkeep, if_pos rfl, hrestart, hkeep.1]
      rfl
  · obtain ⟨vrUx, hvrUx, heq'⟩ := @startTimer_eq _
      { rx with
        vrUr := rx.vrUr.setModulusBase (rx.vrUh.sub windowSize)
        vrUx := rx.vrUx.setModulusBase (rx.vrUh.sub windowSize)
        vrUh, reorderingTimer := false }
      _ _ rfl hur' hvrUh hle hge hkeep rfl
    refine ⟨_, vrUx, vrUh, hur', hvrUh, hvrUx, ?_⟩
    dsimp only
    rw [decide_eq_false hkeep, if_neg Bool.false_ne_true]
    exact heq'

end Reception

end LteRlcUm

end Lte

end Ns3
