/-
  What `IsNetworkAllocated` says about the
  addresses allocated in a network.

  The query looks at the two ends of each entry and at no address between them.  It
  misses a network that an entry passes over: one that the entry enters and leaves
  between its ends while no entry ends inside.
-/
import Ns3.Internet.Ip.Ipv4AddressGenerator

namespace Ns3

open Lib

namespace Ipv4AddressGeneratorImpl

open Range (Covered Ascending)

variable {entries : List (Range (BitVec 32))} {net mask a x : BitVec 32}

def EndsIn (entries : List (Range (BitVec 32))) (net mask : BitVec 32) : Prop :=
  ∃ i ∈ entries, net = i.lo &&& mask ∨ net = i.hi &&& mask

/-- An entry holds an address of the network between its ends, and no entry starts or
ends in the network. -/
def PassedOver (entries : List (Range (BitVec 32))) (net mask : BitVec 32) : Prop :=
  (∃ i ∈ entries, ∃ a, i.lo < a ∧ a < i.hi ∧ a &&& mask = net) ∧ ¬EndsIn entries net mask

def IsPrefixMask (mask : BitVec 32) : Prop := ∃ k ≤ 32, mask = BitVec.allOnes 32 <<< k

/-! ## Networks of a prefix mask -/

theorem le_of_and_eq (h : a &&& mask = net) : net ≤ a := by
  rw [BitVec.le_def, ← h, BitVec.toNat_and]
  exact Nat.and_le_left

theorem le_last_of_and_eq (h : a &&& mask = net) : a ≤ net ||| ~~~mask := by
  have hor : (a &&& mask) ||| ~~~mask = a ||| ~~~mask := by
    ext j hj
    simp only [BitVec.getElem_or, BitVec.getElem_and, BitVec.getElem_not]
    cases a[j] <;> cases mask[j] <;> rfl
  rw [← h, hor, BitVec.le_def, BitVec.toNat_or]
  exact Nat.left_le_or

theorem and_shifted_ones (k : Nat) : a &&& BitVec.allOnes 32 <<< k = (a >>> k) <<< k := by
  ext j hj
  simp only [BitVec.getElem_and, BitVec.getElem_shiftLeft, BitVec.getElem_allOnes]
  by_cases hjk : j < k
  · simp [hjk]
  · have hsub : k + (j - k) = j := by omega
    simp [hjk, BitVec.getElem_ushiftRight, hsub, BitVec.getLsbD_eq_getElem hj]

theorem and_eq_of_between (hmask : IsPrefixMask mask) (ha : a &&& mask = net) (hlo : net ≤ x)
    (hhi : x ≤ a) : x &&& mask = net := by
  obtain ⟨k, -, rfl⟩ := hmask
  have hnet : net >>> k = a >>> k := by
    rw [← ha, and_shifted_ones]
    ext j hj
    simp only [BitVec.getElem_ushiftRight, BitVec.getLsbD_shiftLeft, Nat.add_sub_cancel_left]
    by_cases hlt : k + j < 32
    · simp [hlt]
    · simp [hlt, BitVec.getLsbD_of_ge a (k + j) (by omega)]
  have hdiv : net.toNat / 2 ^ k = a.toNat / 2 ^ k := by
    have := congrArg BitVec.toNat hnet
    simpa only [BitVec.toNat_ushiftRight, Nat.shiftRight_eq_div_pow] using this
  have hle : net.toNat / 2 ^ k ≤ x.toNat / 2 ^ k := Nat.div_le_div_right hlo
  have hge : x.toNat / 2 ^ k ≤ a.toNat / 2 ^ k := Nat.div_le_div_right hhi
  have hx : x >>> k = a >>> k := by
    apply BitVec.eq_of_toNat_eq
    rw [BitVec.toNat_ushiftRight, BitVec.toNat_ushiftRight, Nat.shiftRight_eq_div_pow,
      Nat.shiftRight_eq_div_pow]
    omega
  rw [and_shifted_ones, hx, ← and_shifted_ones, ha]

theorem last_and_eq (hnet : net = net &&& mask) : (net ||| ~~~mask) &&& mask = net := by
  rw [hnet]
  ext j hj
  simp only [BitVec.getElem_or, BitVec.getElem_and, BitVec.getElem_not]
  cases net[j] <;> cases mask[j] <;> rfl

theorem and_eq_iff (hmask : IsPrefixMask mask) (hnet : net = net &&& mask) :
    x &&& mask = net ↔ net ≤ x ∧ x ≤ net ||| ~~~mask :=
  ⟨fun h => ⟨le_of_and_eq h, le_last_of_and_eq h⟩,
    fun h => and_eq_of_between hmask (last_and_eq hnet) h.1 h.2⟩

theorem passedOver_iff (hasc : Ascending entries) (hmask : IsPrefixMask mask)
    (hnet : net = net &&& mask) :
    PassedOver entries net mask ↔ ∃ i ∈ entries, i.lo < net ∧ net ||| ~~~mask < i.hi := by
  have hin {y : BitVec 32} := and_eq_iff (x := y) hmask hnet
  have hproper : net ≤ net ||| ~~~mask := (hin.mp hnet.symm).2
  constructor
  · rintro ⟨⟨i, hi, a, hlo, hhi, ha⟩, hends⟩
    obtain ⟨hnet_le, hle_last⟩ := hin.mp ha
    refine ⟨i, hi, ?_, ?_⟩
    · by_contra hge
      exact hends ⟨i, hi, .inl (hin.mpr ⟨not_lt.mp hge, hlo.le.trans hle_last⟩).symm⟩
    · by_contra hge
      exact hends ⟨i, hi, .inr (hin.mpr ⟨hnet_le.trans hhi.le, not_lt.mp hge⟩).symm⟩
  · rintro ⟨i, hi, hlo, hhi⟩
    refine ⟨⟨i, hi, net, hlo, hproper.trans_lt hhi, hnet.symm⟩, ?_⟩
    -- an end inside the network would lie in this entry too
    have hsame {j : Range (BitVec 32)} {y : BitVec 32} (hj : j ∈ entries) (hy : j.Holds y)
        (hnety : net = y &&& mask) : j = i ∧ i.lo < y ∧ y < i.hi := by
      obtain ⟨hnet_le, hle_last⟩ := hin.mp hnety.symm
      have hyi : i.lo < y ∧ y < i.hi := ⟨hlo.trans_le hnet_le, hle_last.trans_lt hhi⟩
      exact ⟨hasc.eq_of_holds hj hi hy ⟨hyi.1.le, hyi.2.le⟩, hyi⟩
    rintro ⟨j, hj, hend | hend⟩
    · obtain ⟨rfl, hlt, -⟩ := hsame hj ⟨le_rfl, hasc.proper j hj⟩ hend
      exact absurd hlt (lt_irrefl _)
    · obtain ⟨rfl, -, hlt⟩ := hsame hj ⟨hasc.proper j hj, le_rfl⟩ hend
      exact absurd hlt (lt_irrefl _)

/-! ## The query -/

theorem isNetworkAllocated_eq {g : Ipv4AddressGeneratorImpl} (hnet : net = net &&& mask) :
    ∃ b, g.isNetworkAllocated net mask = .ok b ∧ (b = false ↔ EndsIn g.entries net mask) := by
  refine ⟨_, if_pos hnet, ?_⟩
  simp only [Bool.not_eq_false', List.any_eq_true, decide_eq_true_eq]
  exact Iff.rfl

/-- The loop sees the ranges that end in the network, and passes over the others. -/
theorem covered_in_network (hasc : Ascending entries) :
    (∃ a, Covered entries a ∧ a &&& mask = net) ↔
      EndsIn entries net mask ∨ PassedOver entries net mask := by
  constructor
  · rintro ⟨a, ⟨i, hi, hlo, hhi⟩, ha⟩
    by_cases hends : EndsIn entries net mask
    · exact .inl hends
    · refine .inr ⟨⟨i, hi, a, ?_, ?_, ha⟩, hends⟩
      · exact lt_of_le_of_ne hlo fun heq => hends ⟨i, hi, .inl (heq ▸ ha.symm)⟩
      · exact lt_of_le_of_ne hhi fun heq => hends ⟨i, hi, .inr (heq ▸ ha.symm)⟩
  · rintro (⟨i, hi, hend⟩ | ⟨⟨i, hi, a, hlo, hhi, ha⟩, -⟩)
    · have hle : i.lo ≤ i.hi := hasc.proper i hi
      rcases hend with hend | hend
      · exact ⟨i.lo, ⟨i, hi, le_rfl, hle⟩, hend.symm⟩
      · exact ⟨i.hi, ⟨i, hi, hle, le_rfl⟩, hend.symm⟩
    · exact ⟨a, ⟨i, hi, hlo.le, hhi.le⟩, ha⟩

/-- **The allocator as a set.** In every run in test mode the entries ascend and are disjoint, and
adding and looking up an address are exact; so is the network query for the networks that no entry
passes over. -/
theorem run_exact {past : List (Call × Answer)} {g : Ipv4AddressGeneratorImpl}
    (hrun : Run Returned reset.testMode past g) :
    (∀ i ∈ g.entries, i.lo ≤ i.hi) ∧ g.entries.Pairwise (fun i j => i.hi < j.lo) ∧
    (∀ addr ≠ 0, ∃ g' added, g.addAllocated addr = .ok (g', added) ∧
      (added = true ↔ ¬Allocated past addr)) ∧
    (∀ addr ≠ 0, ∃ b, g.isAddressAllocated addr = .ok b ∧ (b = true ↔ Allocated past addr)) ∧
    (∀ net mask, net = net &&& mask →
      ((∃ b, g.isNetworkAllocated net mask = .ok b ∧
          (b = false ↔ ∃ addr, Allocated past addr ∧ addr &&& mask = net)) ↔
        ¬PassedOver g.entries net mask)) ∧
    (∀ net mask, net = net &&& mask → IsPrefixMask mask →
      (PassedOver g.entries net mask ↔
        ∃ i ∈ g.entries, i.lo < net ∧ net ||| ~~~mask < i.hi)) := by
  have hexact : Exact past g := .run hrun
  have hasc : Ascending g.entries := hexact.recorded.ascending
  refine ⟨hasc.proper, hasc.apart, ?_, ?_, ?_, fun net mask hnet hmask =>
    passedOver_iff hasc hmask hnet⟩
  · intro addr hnz
    obtain ⟨after, added, hadd, -, hspec⟩ := addAllocated_spec hnz hexact.test hexact.recorded
    exact ⟨_, added, hadd, by rw [hspec.answer, hexact.covered]⟩
  · intro addr hnz
    obtain ⟨b, hb, hcov⟩ := isAddressAllocated_eq (g := g) hnz
    exact ⟨b, hb, hcov.trans (hexact.covered addr)⟩
  · intro net mask hnet
    obtain ⟨b, hb, hends⟩ := isNetworkAllocated_eq (g := g) hnet
    have hin : (∃ addr, Allocated past addr ∧ addr &&& mask = net) ↔
        EndsIn g.entries net mask ∨ PassedOver g.entries net mask := by
      rw [← covered_in_network hasc]
      simp only [hexact.covered]
    constructor
    · rintro ⟨b', hb', hiff⟩ hover
      cases hb.symm.trans hb'
      exact hover.2 (hends.mp (hiff.mpr (hin.mpr (.inr hover))))
    · intro hover
      exact ⟨b, hb, by rw [hends, hin, or_iff_left hover]⟩

/-- After 0.0.0.4, 0.0.0.5 and 0.0.0.7 were reported and 0.0.0.6 was not. -/
theorem run_exact_three : ∃ g : Ipv4AddressGeneratorImpl,
    g.entries = [⟨4, 5⟩, ⟨7, 7⟩] ∧
    (∃ g' added, g.addAllocated 6 = .ok (g', added) ∧ added = true) ∧
    ∃ b, g.isNetworkAllocated 4 0xfffffffc = .ok b ∧ b = false := by
  let state (entries : List (Range (BitVec 32))) : Ipv4AddressGeneratorImpl :=
    { reset.testMode with entries }
  have hrun : Run Returned reset.testMode
      [(.addAllocated 4, .flag true), (.addAllocated 7, .flag true), (.addAllocated 5, .flag true)]
      (state [⟨4, 5⟩, ⟨7, 7⟩]) :=
    .cons (t := state [⟨4, 4⟩]) rfl (.cons (t := state [⟨4, 4⟩, ⟨7, 7⟩]) rfl (.single rfl))
  obtain ⟨-, -, hadd, -, hnet, hover⟩ := run_exact hrun
  have hfree : ∀ addr, Allocated
      [(.addAllocated 4, .flag true), (.addAllocated 7, .flag true), (.addAllocated 5, .flag true)]
      addr ↔ addr = 4 ∨ addr = 7 ∨ addr = 5 := by
    intro addr
    simp [Allocated, Records, eq_comm]
  refine ⟨state [⟨4, 5⟩, ⟨7, 7⟩], rfl, ?_, ?_⟩
  · obtain ⟨g', added, hg', hadded⟩ := hadd 6 (by decide)
    exact ⟨g', added, hg', hadded.mpr (by rw [hfree]; decide)⟩
  · obtain ⟨b, hb, hiff⟩ := (hnet 4 0xfffffffc (by decide)).mpr
      ((hover 4 0xfffffffc (by decide) ⟨2, by decide, by decide⟩).not.mpr (by decide))
    exact ⟨b, hb, hiff.mpr ⟨4, (hfree 4).mpr (.inl rfl), by decide⟩⟩

/-- With 0.0.0.3 to 0.0.0.8 allocated in this order, 0.0.0.4/30 is reported free. -/
theorem not_run_exact :
    ¬∀ past g, Run Returned reset.testMode past g → ∀ net mask, net = net &&& mask →
      ∃ b, g.isNetworkAllocated net mask = .ok b ∧
        (b = false ↔ ∃ addr, Allocated past addr ∧ addr &&& mask = net) := by
  intro hall
  let state (hi : BitVec 32) : Ipv4AddressGeneratorImpl :=
    { reset.testMode with entries := [⟨3, hi⟩] }
  have hrun : Run Returned reset.testMode
      [(.addAllocated 3, .flag true), (.addAllocated 4, .flag true), (.addAllocated 5, .flag true),
        (.addAllocated 6, .flag true), (.addAllocated 7, .flag true), (.addAllocated 8, .flag true)]
      (state 8) :=
    .cons (t := state 3) rfl (.cons (t := state 4) rfl (.cons (t := state 5) rfl
      (.cons (t := state 6) rfl (.cons (t := state 7) rfl (.single rfl)))))
  obtain ⟨b, hb, hiff⟩ := hall _ _ hrun 4 0xfffffffc (by decide)
  obtain rfl : b = true := by
    have htrue : (state 8).isNetworkAllocated 4 0xfffffffc = .ok true := rfl
    exact Except.ok.inj (hb.symm.trans htrue)
  refine absurd (hiff.mpr ⟨4, ⟨(.addAllocated 4, .flag true), ?_, rfl⟩, by decide⟩) (by decide)
  exact .tail _ (.head _)

end Ipv4AddressGeneratorImpl

end Ns3
