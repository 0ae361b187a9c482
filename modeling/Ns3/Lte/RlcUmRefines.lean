/-
  The steps of `DoReceivePdu`, read as steps on positions.

  Each function of the receiver has one lemma that says what it does to a state whose
  variables stand for known positions and whose buffer holds a known set of PDUs.
-/
import Ns3.Lte.RlcUmReception

namespace Ns3

namespace Lte

open Lib

namespace LteRlcUm

variable {α : Type} {pdu : Nat → RlcPdu α} {rx : Reception α} {lo n : Nat} {held : Finset Nat}
  {m : SortedMap (RlcPdu α)}

/-! ## The buffer -/

/-- The buffer holds the PDUs of the set, which are less than 1024 numbers from `lo` on. -/
structure Holds (pdu : Nat → RlcPdu α) (lo : Nat) (held : Finset Nat) (m : SortedMap (RlcPdu α)) :
    Prop where
  mem : ∀ e, e ∈ m ↔ ∃ n ∈ held, e = (n % 1024, pdu n)
  near : ∀ n ∈ held, lo ≤ n ∧ n < lo + 1024

namespace Holds

section

variable (h : Holds pdu lo held m)

include h

theorem contains_iff (hlo : lo ≤ n) (hlt : n < lo + 1024) :
    m.contains (n % 1024) = true ↔ n ∈ held := by
  rw [SortedMap.contains_iff]
  constructor
  · rintro ⟨a, ha⟩
    obtain ⟨k, hk, heq⟩ := (h.mem _).mp ha
    have hkey : n % 1024 = k % 1024 := congrArg Prod.fst heq
    have hnear := h.near k hk
    obtain rfl : n = k := by omega
    exact hk
  · intro hn
    exact ⟨pdu n, (h.mem _).mpr ⟨n, hn, rfl⟩⟩

theorem contains_eq (hlo : lo ≤ n) (hlt : n < lo + 1024) :
    m.contains (n % 1024) = decide (n ∈ held) :=
  Bool.eq_iff_iff.mpr ((h.contains_iff hlo hlt).trans decide_eq_true_iff.symm)

theorem key_lt {e : Nat × RlcPdu α} (he : e ∈ m) : e.1 < 1024 := by
  obtain ⟨k, -, rfl⟩ := (h.mem e).mp he
  exact Nat.mod_lt _ (by decide)

theorem find?_eq (hlo : lo ≤ n) (hlt : n < lo + 1024) :
    m.find? (n % 1024) = if n ∈ held then some (pdu n) else none := by
  split
  · next hn => exact SortedMap.find?_eq_some.mpr ((h.mem _).mpr ⟨n, hn, rfl⟩)
  · next hn =>
      rw [SortedMap.find?_eq_none, h.contains_eq hlo hlt]
      exact decide_eq_false hn

theorem insert (hlo : lo ≤ n) (hlt : n < lo + 1024) :
    Holds pdu lo (insert n held) (m.insert (n % 1024) (pdu n)) := by
  refine ⟨fun e => ?_, fun k hk => ?_⟩
  · rw [SortedMap.mem_insert, h.mem]
    simp only [Finset.mem_insert]
    constructor
    · rintro (rfl | ⟨⟨k, hk, rfl⟩, -⟩)
      · exact ⟨n, .inl rfl, rfl⟩
      · exact ⟨k, .inr hk, rfl⟩
    · rintro ⟨k, rfl | hk, rfl⟩
      · exact .inl rfl
      · by_cases hkey : k % 1024 = n % 1024
        · have hnear := h.near k hk
          obtain rfl : k = n := by omega
          exact .inl rfl
        · exact .inr ⟨⟨k, hk, rfl⟩, hkey⟩
  · rcases Finset.mem_insert.mp hk with rfl | hk
    · exact ⟨hlo, hlt⟩
    · exact h.near k hk

theorem erase (hlo : lo ≤ n) (hlt : n < lo + 1024) :
    Holds pdu lo (held.erase n) (m.erase (n % 1024)) := by
  refine ⟨fun e => ?_, fun k hk => h.near k (Finset.mem_of_mem_erase hk)⟩
  rw [SortedMap.mem_erase, h.mem]
  simp only [Finset.mem_erase]
  constructor
  · rintro ⟨⟨k, hk, rfl⟩, hkey⟩
    refine ⟨k, ⟨?_, hk⟩, rfl⟩
    rintro rfl
    exact hkey rfl
  · rintro ⟨k, ⟨hne, hk⟩, rfl⟩
    refine ⟨⟨k, hk, rfl⟩, fun hkey => hne ?_⟩
    have hnear := h.near k hk
    omega

end

theorem empty : Holds pdu lo ∅ (.empty : SortedMap (RlcPdu α)) :=
  ⟨fun _ => ⟨fun he => absurd he SortedMap.not_mem_empty, fun ⟨_, hk, _⟩ => absurd hk
    (Finset.notMem_empty _)⟩, fun _ hk => absurd hk (Finset.notMem_empty _)⟩

theorem shift (h : Holds pdu lo held m) {lo' : Nat} (hnear : ∀ n ∈ held, lo' ≤ n ∧ n < lo' + 1024) :
    Holds pdu lo' held m :=
  ⟨h.mem, hnear⟩

end Holds

/-- The PDUs that were accepted and are below `ur` have been passed on, in their order. -/
def PassedBelow (pdu : Nat → RlcPdu α) (accepted : Finset Nat) (ur : Nat)
    (passed : List (RlcPdu α)) : Prop :=
  ∃ numbers : List Nat, numbers.Pairwise (· < ·) ∧ passed = numbers.map pdu ∧
    ∀ n, n ∈ numbers ↔ n ∈ accepted ∧ n < ur

theorem PassedBelow.append {accepted : Finset Nat} {ur ur' : Nat} {passed : List (RlcPdu α)}
    (h : PassedBelow pdu accepted ur passed) {more : List Nat} (hle : ur ≤ ur')
    (hsorted : more.Pairwise (· < ·))
    (hmore : ∀ n, n ∈ more ↔ n ∈ accepted ∧ ur ≤ n ∧ n < ur') :
    PassedBelow pdu accepted ur' (passed ++ more.map pdu) := by
  obtain ⟨numbers, hnumbers, rfl, hmem⟩ := h
  refine ⟨numbers ++ more, ?_, (List.map_append ..).symm, fun n => ?_⟩
  · refine List.pairwise_append.mpr ⟨hnumbers, hsorted, fun a ha b hb => ?_⟩
    exact Nat.lt_of_lt_of_le ((hmem a).mp ha).2 ((hmore b).mp hb).2.1
  · rw [List.mem_append, hmem, hmore]
    constructor
    · rintro (⟨hn, hlt⟩ | ⟨hn, -, hlt⟩)
      · exact ⟨hn, hlt.trans_le hle⟩
      · exact ⟨hn, hlt⟩
    · rintro ⟨hn, hlt⟩
      by_cases hur : n < ur
      · exact .inl ⟨hn, hur⟩
      · exact .inr ⟨hn, Nat.le_of_not_lt hur, hlt⟩

/-! ## The functions -/

variable {sn : SequenceNumber10}

namespace Reception

theorem at_setModulusBase {base : SequenceNumber10} {b k : Int}
    (hvalue : (sn.value : Int) = k % 1024) (hbase : (base.value : Int) = b % 1024) :
    (sn.setModulusBase base).At b k :=
  ⟨hvalue, hbase⟩

theorem value_windowStart {uh : Nat} (h : sn.value = uh % 1024) :
    ((sn.sub windowSize).value : Int) = ((uh : Int) - windowSize) % 1024 := by
  rw [SequenceNumber10.value_sub, h]
  unfold windowSize
  omega

theorem isInsideReorderingWindow_eq {uh : Nat} (huh : rx.vrUh.value = uh % 1024)
    (hsn : sn.value = n % 1024) (hlo : uh ≤ n + 1024) (hhi : n < uh + 512) :
    ∃ vrUh : SequenceNumber10, vrUh.At ((uh : Int) - windowSize) uh ∧
      rx.isInsideReorderingWindow sn =
        .ok ({ rx with vrUh }, decide (uh ≤ n + 512 ∧ n < uh)) := by
  let vrUh := rx.vrUh.setModulusBase (rx.vrUh.sub windowSize)
  have hvrUh : vrUh.At ((uh : Int) - windowSize) uh :=
    at_setModulusBase (by omega) (value_windowStart huh)
  have hstart : (vrUh.sub windowSize).At ((uh : Int) - windowSize) ((uh : Int) - windowSize) :=
    hvrUh.sub windowSize
  have hsn' : (sn.setModulusBase (vrUh.sub windowSize)).At ((uh : Int) - windowSize) n :=
    at_setModulusBase (by omega) hstart.value
  refine ⟨vrUh, hvrUh, ?_⟩
  show (do
    if ← (vrUh.sub windowSize).le (sn.setModulusBase (vrUh.sub windowSize)) then
      pure ({ rx with vrUh }, ← (sn.setModulusBase (vrUh.sub windowSize)).lt vrUh)
    else pure ({ rx with vrUh }, false)) = _
  unfold windowSize at *
  by_cases hin : uh ≤ n + 512
  · rw [hstart.le hsn' (by omega) (by omega) (by omega) (by omega), ok_bind,
      decide_eq_true (by omega), if_pos rfl,
      hsn'.lt hvrUh (by omega) (by omega) (by omega) (by omega), ok_bind]
    have hiff : ((n : Int) < uh) ↔ (uh ≤ n + 512 ∧ n < uh) := by omega
    exact congrArg (fun b => Except.ok ({ rx with vrUh }, b)) (decide_eq_decide.mpr hiff)
  · have hsn'' :
        (sn.setModulusBase (vrUh.sub 512)).At ((uh : Int) - (512 : Nat)) ((n : Int) + 1024) :=
      ⟨by have := hsn'.value; omega, hsn'.modulusBase⟩
    rw [hstart.le hsn'' (by omega) (by omega) (by omega) (by omega), ok_bind,
      decide_eq_true (by omega), if_pos rfl,
      hsn''.lt hvrUh (by omega) (by omega) (by omega) (by omega), ok_bind]
    have hiff : ((n : Int) + 1024 < uh) ↔ (uh ≤ n + 512 ∧ n < uh) := by omega
    exact congrArg (fun b => Except.ok ({ rx with vrUh }, b)) (decide_eq_decide.mpr hiff)

variable {base : Int}

theorem discards_eq {ur uh : Nat} (hbase : base = (uh : Int) - windowSize)
    (hur : rx.vrUr.At base ur) (huh : rx.vrUh.At base uh) (hsn : sn.At base n) (hle : ur ≤ uh)
    (hge : uh ≤ ur + windowSize) (hlo : uh ≤ n + windowSize) (hhi : n < uh + windowSize)
    (hholds : Holds pdu ur held rx.rxBuffer) (hheld : ∀ k ∈ held, k < uh) (hnot : ur ∉ held) :
    rx.discards sn = .ok (decide (n < ur ∨ n ∈ held)) := by
  have hstart : (rx.vrUh.sub windowSize).At base base := by
    have hsub := huh.sub windowSize
    rwa [← hbase] at hsub
  unfold windowSize at *
  have heval : rx.discards sn = .ok (decide ((ur : Int) < n) && decide ((n : Int) < uh) &&
      rx.rxBuffer.contains sn.value || decide (base ≤ n) && decide ((n : Int) < ur)) := by
    unfold discards windowSize
    rw [hur.lt hsn (by omega) (by omega) (by omega) (by omega),
      hsn.lt huh (by omega) (by omega) (by omega) (by omega),
      hstart.le hsn (by omega) (by omega) (by omega) (by omega),
      hsn.lt hur (by omega) (by omega) (by omega) (by omega)]
    generalize decide ((ur : Int) < n) = a
    generalize decide ((n : Int) < uh) = b
    generalize rx.rxBuffer.contains sn.value = c
    generalize decide (base ≤ n) = d
    generalize decide ((n : Int) < ur) = e
    cases a <;> cases b <;> cases c <;> cases d <;> rfl
  have hvalue : sn.value = n % 1024 := by
    have := hsn.value
    omega
  rw [heval]
  refine congrArg Except.ok (Bool.eq_iff_iff.mpr ?_)
  simp only [Bool.or_eq_true, Bool.and_eq_true, decide_eq_true_eq]
  constructor
  · rintro (⟨⟨hlt, -⟩, hcontains⟩ | ⟨-, hlt⟩)
    · rw [hvalue, hholds.contains_iff (by omega) (by omega)] at hcontains
      exact .inr hcontains
    · exact .inl (by omega)
  · rintro (hlt | hmem)
    · exact .inr ⟨by omega, by omega⟩
    · have hlt := hheld n hmem
      have hnear := hholds.near n hmem
      have hne : n ≠ ur := by
        rintro rfl
        exact hnot hmem
      rw [hvalue, hholds.contains_iff (by omega) (by omega)]
      exact .inl ⟨⟨by omega, by omega⟩, hmem⟩

/-! ### Passing on an interval -/

/-- The numbers of an interval that the buffer holds. -/
def between (held : Finset Nat) (low high : Nat) : List Nat :=
  (List.range' low (high - low)).filter fun k => k ∈ held

theorem mem_between {low high k : Nat} :
    k ∈ between held low high ↔ k ∈ held ∧ low ≤ k ∧ k < high := by
  rw [between, List.mem_filter, List.mem_range'_1, decide_eq_true_eq]
  constructor
  · rintro ⟨⟨hlo, hhi⟩, hk⟩
    exact ⟨hk, hlo, by omega⟩
  · rintro ⟨hk, hlo, hhi⟩
    exact ⟨⟨hlo, by omega⟩, hk⟩

theorem pairwise_between (held : Finset Nat) (low high : Nat) :
    (between held low high).Pairwise (· < ·) :=
  (List.pairwise_lt_range' ..).filter _

theorem between_succ {low high : Nat} (h : low < high) :
    between held low high =
      if low ∈ held then low :: between (held.erase low) (low + 1) high
      else between held (low + 1) high := by
  have hrange : List.range' low (high - low) =
      low :: List.range' (low + 1) (high - (low + 1)) := by
    rw [show high - low = (high - (low + 1)) + 1 by omega, List.range'_succ]
  have herase : between (held.erase low) (low + 1) high = between held (low + 1) high := by
    refine List.filter_congr fun k hk => decide_eq_decide.mpr ?_
    have hlt := (List.mem_range'_1.mp hk).1
    rw [Finset.mem_erase]
    exact and_iff_right (by omega)
  rw [between, hrange]
  split
  · next hlow => rw [List.filter_cons_of_pos (by simpa using hlow), herase, between]
  · next hlow => rw [List.filter_cons_of_neg (by simpa using hlow), between]

theorem snIntervalLoop_eq {low high f : Nat} {lowSn highSn : SequenceNumber10}
    (hlow : lowSn.At base low) (hhigh : highSn.At base high) (hbase : base ≤ low) (hle : low ≤ high)
    (hlt : (high : Int) < base + 1024) (hlo : lo ≤ low) (hhi : high ≤ lo + 1024)
    (hfuel : high - low < f) (hholds : Holds pdu lo held rx.rxBuffer) :
    ∃ rxBuffer, Holds pdu lo (held.filter fun k => ¬(low ≤ k ∧ k < high)) rxBuffer ∧
      snIntervalLoop highSn f lowSn rx = .ok { rx with
        rxBuffer, reassembled := rx.reassembled ++ (between held low high).map pdu } := by
  obtain ⟨d, hd⟩ := Nat.exists_eq_add_of_le hle
  induction d generalizing low f lowSn rx held with
  | zero =>
    obtain ⟨fuel, rfl⟩ := Nat.exists_eq_succ_of_ne_zero (by omega : f ≠ 0)
    refine ⟨rx.rxBuffer, ?_, ?_⟩
    · have hall : (held.filter fun k => ¬(low ≤ k ∧ k < high)) = held :=
        Finset.filter_true_of_mem fun k _ => by omega
      rwa [hall]
    · have hempty : between held low high = [] := by
        rw [between, show high - low = 0 by omega]
        rfl
      rw [snIntervalLoop, hlow.lt hhigh (by omega) (by omega) (by omega) (by omega), ok_bind,
        decide_eq_false (by omega), if_neg Bool.false_ne_true, hempty, List.map_nil,
        List.append_nil]
      rfl
  | succ d ih =>
    obtain ⟨fuel, rfl⟩ := Nat.exists_eq_succ_of_ne_zero (by omega : f ≠ 0)
    have hvalue : lowSn.value = low % 1024 := by
      have := hlow.value
      omega
    have hsucc : lowSn.succ.At base ((low + 1 : Nat) : Int) := by
      push_cast
      exact hlow.succ
    rw [snIntervalLoop, hlow.lt hhigh (by omega) (by omega) (by omega) (by omega), ok_bind,
      decide_eq_true (by omega), if_pos rfl, hvalue, hholds.find?_eq hlo (by omega),
      between_succ (by omega)]
    by_cases hmem : low ∈ held
    · rw [if_pos hmem, if_pos hmem]
      have herased :
          Holds pdu lo (held.erase low) (rx.reassemble (low % 1024) (pdu low)).rxBuffer :=
        hholds.erase hlo (by omega)
      obtain ⟨rxBuffer, hrest, heq⟩ := ih (f := fuel) hsucc (by omega) (by omega) (by omega)
        (by omega) herased (by omega)
      refine ⟨rxBuffer, ?_, heq.trans ?_⟩
      · have hfilter : ((held.erase low).filter fun k => ¬(low + 1 ≤ k ∧ k < high)) =
            held.filter fun k => ¬(low ≤ k ∧ k < high) := by
          ext k
          simp only [Finset.mem_filter, Finset.mem_erase]
          constructor
          · rintro ⟨⟨hne, hk⟩, hout⟩
            exact ⟨hk, by omega⟩
          · rintro ⟨hk, hout⟩
            exact ⟨⟨by omega, hk⟩, by omega⟩
        rwa [hfilter] at hrest
      · rw [List.map_cons, List.append_cons]
        rfl
    · rw [if_neg hmem, if_neg hmem]
      obtain ⟨rxBuffer, hrest, heq⟩ := ih (f := fuel) hsucc (by omega) (by omega) (by omega)
        (by omega) hholds (by omega)
      refine ⟨rxBuffer, ?_, heq⟩
      have hfilter : (held.filter fun k => ¬(low + 1 ≤ k ∧ k < high)) =
          held.filter fun k => ¬(low ≤ k ∧ k < high) := by
        refine Finset.filter_congr fun k hk => not_congr ?_
        have hne : k ≠ low := by
          rintro rfl
          exact hmem hk
        omega
      rwa [hfilter] at hrest

/-! ### Looking for the first missing number -/

theorem newVrUrLoop_eq {turn first k f : Nat} (hholds : Holds pdu lo held m) (hlo : lo ≤ k)
    (hhi : first < lo + 1024) (hturn : 1024 * turn ≤ k) (hle : k ≤ first)
    (hend : first ≤ 1024 * (turn + 1)) (hall : ∀ j, k ≤ j → j < first → j ∈ held)
    (hnot : first ∉ held) (hfuel : first - k < f) :
    newVrUrLoop m f (k - 1024 * turn) = .ok (first - 1024 * turn) := by
  obtain ⟨d, hd⟩ := Nat.exists_eq_add_of_le hle
  induction d generalizing k f with
  | zero =>
    obtain ⟨fuel, rfl⟩ := Nat.exists_eq_succ_of_ne_zero (by omega : f ≠ 0)
    obtain rfl : first = k := hd
    have hno : m.contains (first - 1024 * turn) = false := by
      by_cases hlast : first < 1024 * (turn + 1)
      · rw [show first - 1024 * turn = first % 1024 by omega, hholds.contains_eq hlo (by omega)]
        exact decide_eq_false hnot
      · rw [← Bool.not_eq_true, SortedMap.contains_iff]
        rintro ⟨a, ha⟩
        have hkey : first - 1024 * turn < 1024 := hholds.key_lt ha
        omega
    rw [newVrUrLoop, hno, if_neg Bool.false_ne_true]
    rfl
  | succ d ih =>
    obtain ⟨fuel, rfl⟩ := Nat.exists_eq_succ_of_ne_zero (by omega : f ≠ 0)
    have hmem : m.contains (k - 1024 * turn) = true := by
      rw [show k - 1024 * turn = k % 1024 by omega, hholds.contains_eq hlo (by omega)]
      exact decide_eq_true (hall k le_rfl (by omega))
    have hstep := ih (k := k + 1) (f := fuel) (by omega) (by omega) (by omega)
      (fun j hj hlt => hall j (by omega) (by omega)) (by omega) (by omega)
    rw [newVrUrLoop, if_pos hmem, show k - 1024 * turn + 1 = k + 1 - 1024 * turn by omega, hstep]

theorem expireLoop_eq {first k f : Nat} (hholds : Holds pdu lo held m) (hsn : sn.At base k)
    (hlo : lo ≤ k) (hhi : first < lo + 1024) (hle : k ≤ first)
    (hall : ∀ j, k ≤ j → j < first → j ∈ held) (hnot : first ∉ held) (hfuel : first - k < f) :
    ∃ newVrUr : SequenceNumber10, newVrUr.At base first ∧ expireLoop m f sn = .ok newVrUr := by
  obtain ⟨d, hd⟩ := Nat.exists_eq_add_of_le hle
  induction d generalizing k f sn with
  | zero =>
    obtain ⟨fuel, rfl⟩ := Nat.exists_eq_succ_of_ne_zero (by omega : f ≠ 0)
    obtain rfl : first = k := hd
    have hvalue : sn.value = first % 1024 := by
      have := hsn.value
      omega
    have hno : m.contains sn.value = false := by
      rw [hvalue, hholds.contains_eq hlo (by omega)]
      exact decide_eq_false hnot
    refine ⟨sn, hsn, ?_⟩
    rw [expireLoop, hno, if_neg Bool.false_ne_true]
    rfl
  | succ d ih =>
    obtain ⟨fuel, rfl⟩ := Nat.exists_eq_succ_of_ne_zero (by omega : f ≠ 0)
    have hvalue : sn.value = k % 1024 := by
      have := hsn.value
      omega
    have hmem : m.contains sn.value = true := by
      rw [hvalue, hholds.contains_eq hlo (by omega)]
      exact decide_eq_true (hall k le_rfl (by omega))
    have hsucc : sn.succ.At base ((k + 1 : Nat) : Int) := by
      have := hsn.succ
      push_cast
      exact this
    obtain ⟨newVrUr, hnew, heq⟩ := ih (f := fuel) hsucc (by omega) (by omega)
      (fun j hj hlt => hall j (by omega) (by omega)) (by omega) (by omega)
    refine ⟨newVrUr, hnew, ?_⟩
    rw [expireLoop, if_pos hmem, heq]

end Reception

end LteRlcUm

end Lte

end Ns3
