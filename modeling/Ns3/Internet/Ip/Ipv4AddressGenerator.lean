/-
  `Ipv4AddressGeneratorImpl`, the allocator
  of IPv4 addresses.

  Addresses and masks are 32-bit words.  One row of `m_netTable` is kept for each
  network size; every address handed out, or reported by another allocator, is
  recorded in `m_entries`, a list of ranges of addresses.

  One scan of `AddAllocated` is followed entry by entry; over a run the entries then
  stay ascending and disjoint and cover exactly what was allocated.
-/
import Ns3.Core.Fault
import Ns3.Lib.RangeList
import Ns3.Lib.Run

namespace Ns3

open Lib

/-- The generator's state for one mask. -/
structure NetworkState where
  mask : BitVec 32
  shift : Nat
  network : BitVec 32
  addr : BitVec 32
  addrMax : BitVec 32
  deriving DecidableEq, Repr

/-- `Ipv4AddressGeneratorImpl`; an `Entry` is the range from its `addrLow` to its
`addrHigh`. -/
structure Ipv4AddressGeneratorImpl where
  netTable : List NetworkState
  entries : List (Range (BitVec 32))
  test : Bool
  deriving DecidableEq, Repr

namespace Ipv4AddressGeneratorImpl

def N_BITS : Nat := 32

def MOST_SIGNIFICANT_BIT : BitVec 32 := 0x80000000#32

/-- The loop of `Reset`, with `n` rows still to write. -/
def resetLoop : Nat → Nat → BitVec 32 → List NetworkState
  | 0, _, _ => []
  | n + 1, i, mask =>
    { mask, shift := N_BITS - i, network := 1, addr := 1, addrMax := ~~~mask } ::
      resetLoop n (i + 1) (mask >>> 1 ||| MOST_SIGNIFICANT_BIT)

/-- `Reset`, which the constructor calls. -/
def reset : Ipv4AddressGeneratorImpl :=
  { netTable := resetLoop N_BITS 0 0, entries := [], test := false }

def testMode (g : Ipv4AddressGeneratorImpl) : Ipv4AddressGeneratorImpl := { g with test := true }

def maskToIndexLoop : Nat → Nat → BitVec 32 → Except Fault Nat
  | 0, _, _ => .error .assertFailed
  | n + 1, i, maskBits =>
    if maskBits &&& 1 ≠ 0 then
      if N_BITS - i > 0 ∧ N_BITS - i < N_BITS then .ok (N_BITS - i) else .error .aborted
    else
      maskToIndexLoop n (i + 1) (maskBits >>> 1)

def maskToIndex (mask : BitVec 32) : Except Fault Nat := maskToIndexLoop N_BITS 0 mask

def row (g : Ipv4AddressGeneratorImpl) (index : Nat) : Except Fault NetworkState :=
  match g.netTable[index]? with
  | some r => .ok r
  | none => .error .badIterator

def setRow (g : Ipv4AddressGeneratorImpl) (index : Nat) (r : NetworkState) :
    Ipv4AddressGeneratorImpl :=
  { g with netTable := g.netTable.set index r }

def init (g : Ipv4AddressGeneratorImpl) (net mask addr : BitVec 32) :
    Except Fault Ipv4AddressGeneratorImpl := do
  if net &&& ~~~mask ≠ 0 then .error .aborted
  else if addr &&& mask ≠ 0 then .error .aborted
  else
    let index ← maskToIndex mask
    let r ← g.row index
    if addr ≤ r.addrMax then
      .ok (g.setRow index { r with network := net >>> r.shift, addr })
    else .error .aborted

def nextNetwork (g : Ipv4AddressGeneratorImpl) (mask : BitVec 32) :
    Except Fault (Ipv4AddressGeneratorImpl × BitVec 32) := do
  let index ← maskToIndex mask
  let r ← g.row index
  .ok (g.setRow index { r with network := r.network + 1 }, (r.network + 1) <<< r.shift)

def initAddress (g : Ipv4AddressGeneratorImpl) (addr mask : BitVec 32) :
    Except Fault Ipv4AddressGeneratorImpl := do
  let index ← maskToIndex mask
  let r ← g.row index
  if addr ≤ r.addrMax then .ok (g.setRow index { r with addr }) else .error .aborted

/-- An address collision: fatal, but in test mode. -/
def collision (test : Bool) (entries : List (Range (BitVec 32))) :
    Except Fault (List (Range (BitVec 32)) × Bool) :=
  if test then .ok (entries, false) else .error .fatalError

/-- The scan of `AddAllocated`, from one of the entries on. -/
def addScan (test : Bool) (addr : BitVec 32) :
    List (Range (BitVec 32)) → Except Fault (List (Range (BitVec 32)) × Bool)
  | [] => .ok ([⟨addr, addr⟩], true)
  | i :: rest =>
    if addr ≥ i.lo ∧ addr ≤ i.hi then
      collision test (i :: rest)
    else if addr < i.lo - 1 then
      -- a new block before this one
      .ok (⟨addr, addr⟩ :: i :: rest, true)
    else if addr = i.hi + 1 then
      match rest with
      | [] => .ok ([⟨i.lo, addr⟩], true)
      | j :: rest =>
        if addr = j.lo then collision test (i :: j :: rest)
        else .ok (⟨i.lo, addr⟩ :: j :: rest, true)
    else if addr = i.lo - 1 then
      .ok (⟨addr, i.hi⟩ :: rest, true)
    else do
      let (rest, added) ← addScan test addr rest
      .ok (i :: rest, added)

def addAllocated (g : Ipv4AddressGeneratorImpl) (addr : BitVec 32) :
    Except Fault (Ipv4AddressGeneratorImpl × Bool) := do
  if addr = 0 then .error .aborted
  else
    let (entries, added) ← addScan g.test addr g.entries
    .ok ({ g with entries }, added)

def nextAddress (g : Ipv4AddressGeneratorImpl) (mask : BitVec 32) :
    Except Fault (Ipv4AddressGeneratorImpl × BitVec 32) := do
  let index ← maskToIndex mask
  let r ← g.row index
  if r.addr ≤ r.addrMax then
    let addr := r.network <<< r.shift ||| r.addr
    let (g, _) ← (g.setRow index { r with addr := r.addr + 1 }).addAllocated addr
    .ok (g, addr)
  else .error .aborted

def isAddressAllocated (g : Ipv4AddressGeneratorImpl) (addr : BitVec 32) : Except Fault Bool :=
  if addr = 0 then .error .aborted
  else .ok (g.entries.any fun i => decide (addr ≥ i.lo ∧ addr ≤ i.hi))

/-- `IsNetworkAllocated`, which answers `false` when the network is taken. -/
def isNetworkAllocated (g : Ipv4AddressGeneratorImpl) (address mask : BitVec 32) :
    Except Fault Bool :=
  if address = address &&& mask then
    .ok (!g.entries.any fun i => decide (address = i.lo &&& mask ∨ address = i.hi &&& mask))
  else .error .aborted

/-! ## Runs -/

/-- A call that may change the generator. -/
inductive Call where
  | addAllocated (addr : BitVec 32)
  | nextAddress (mask : BitVec 32)
  | nextNetwork (mask : BitVec 32)
  | initAddress (addr mask : BitVec 32)
  | init (net mask addr : BitVec 32)
  deriving DecidableEq, Repr

/-- What a call returns. -/
inductive Answer where
  | none
  | flag (b : Bool)
  | address (addr : BitVec 32)
  deriving DecidableEq, Repr

def call (g : Ipv4AddressGeneratorImpl) : Call → Except Fault (Ipv4AddressGeneratorImpl × Answer)
  | .addAllocated addr => do
      let (g, added) ← g.addAllocated addr
      .ok (g, .flag added)
  | .nextAddress mask => do
      let (g, addr) ← g.nextAddress mask
      .ok (g, .address addr)
  | .nextNetwork mask => do
      let (g, addr) ← g.nextNetwork mask
      .ok (g, .address addr)
  | .initAddress addr mask => do
      let g ← g.initAddress addr mask
      .ok (g, .none)
  | .init net mask addr => do
      let g ← g.init net mask addr
      .ok (g, .none)

def Returned (g : Ipv4AddressGeneratorImpl) (event : Call × Answer)
    (g' : Ipv4AddressGeneratorImpl) : Prop :=
  g.call event.1 = .ok (g', event.2)

/-- The call reports `addr`, or hands it out. -/
def Records (addr : BitVec 32) : Call × Answer → Prop
  | (.addAllocated a, _) => a = addr
  | (.nextAddress _, .address a) => a = addr
  | _ => False

def Allocated (past : List (Call × Answer)) (addr : BitVec 32) : Prop :=
  ∃ event ∈ past, Records addr event

end Ipv4AddressGeneratorImpl

/-! ## The entries are the set of the addresses reported to the generator or handed out by it -/

namespace Ipv4AddressGeneratorImpl

open Range (Covered Ascending)

/-- The entries ascend, are disjoint and hold no zero address. -/
structure Recorded (entries : List (Range (BitVec 32))) : Prop where
  ascending : Ascending entries
  nonzero : ¬Covered entries 0

/-- What adding an address does to the entries. -/
structure Added (addr : BitVec 32) (before after : List (Range (BitVec 32))) (added : Bool) :
    Prop where
  answer : added = true ↔ ¬Covered before addr
  ascending : Ascending after
  covered : ∀ x, Covered after x ↔ Covered before x ∨ x = addr

variable {entries : List (Range (BitVec 32))}

section

variable {addr : BitVec 32} {i : Range (BitVec 32)} {rest : List (Range (BitVec 32))}

theorem Added.collision (h : Ascending entries) (hc : Covered entries addr) :
    Added addr entries entries false where
  answer := by simpa using hc
  ascending := h
  covered := by
    intro x
    constructor
    · exact Or.inl
    · rintro (hx | rfl)
      · exact hx
      · exact hc

theorem Added.block (h : Ascending rest) (hlt : ∀ r ∈ rest, addr < r.lo) :
    Added addr rest (⟨addr, addr⟩ :: rest) true where
  answer := by
    simp only [true_iff]
    rintro ⟨r, hr, hlo, -⟩
    exact absurd (hlt r hr) (not_lt.mpr hlo)
  ascending := h.cons_point hlt
  covered := by
    intro x
    rw [Range.covered_cons, or_comm]
    refine or_congr_right ?_
    constructor
    · rintro ⟨hlo, hhi⟩
      exact le_antisymm hhi hlo
    · rintro rfl
      exact ⟨le_rfl, le_rfl⟩

theorem Added.up (h : Ascending (i :: rest)) (haddr : addr = i.hi + 1) (hnz : addr ≠ 0)
    (hlt : ∀ r ∈ rest, addr < r.lo) : Added addr (i :: rest) (⟨i.lo, addr⟩ :: rest) true where
  answer := by
    have hle : i.lo ≤ i.hi := h.head_le
    simp only [true_iff, Range.covered_cons]
    rintro (⟨-, hhi⟩ | ⟨r, hr, hlo, -⟩)
    · bv_omega
    · exact absurd (hlt r hr) (not_lt.mpr hlo)
  ascending := h.replace_head (by have hle : i.lo ≤ i.hi := h.head_le; bv_omega) hlt
  covered := by
    have hle : i.lo ≤ i.hi := h.head_le
    refine fun x => Range.covered_grow ?_
    show i.lo ≤ x ∧ x ≤ addr ↔ (i.lo ≤ x ∧ x ≤ i.hi) ∨ x = addr
    bv_omega

theorem Added.down (h : Ascending (i :: rest)) (haddr : addr = i.lo - 1) (hlo : i.lo ≠ 0) :
    Added addr (i :: rest) (⟨addr, i.hi⟩ :: rest) true where
  answer := by
    simp only [true_iff]
    exact h.not_covered_of_lt (by bv_omega)
  ascending := h.replace_head (by have hle : i.lo ≤ i.hi := h.head_le; bv_omega)
    fun r hr => h.head_lt hr
  covered := by
    have hle : i.lo ≤ i.hi := h.head_le
    refine fun x => Range.covered_grow ?_
    show addr ≤ x ∧ x ≤ i.hi ↔ (i.lo ≤ x ∧ x ≤ i.hi) ∨ x = addr
    bv_omega

theorem Added.later {rest' : List (Range (BitVec 32))} {added : Bool} (h : Ascending (i :: rest))
    (hlt : i.hi < addr) (hadd : Added addr rest rest' added) :
    Added addr (i :: rest) (i :: rest') added where
  answer := by
    rw [hadd.answer, Range.covered_cons, not_or, and_iff_right]
    exact fun hi => absurd hlt (not_lt.mpr hi.2)
  ascending := h.replace_tail hadd.ascending hadd.covered hlt
  covered := fun x => Range.covered_grow_tail (hadd.covered x)

end

theorem addScan_spec {addr : BitVec 32} (hnz : addr ≠ 0) (h : Recorded entries) :
    ∃ after added, addScan true addr entries = .ok (after, added) ∧
      Added addr entries after added := by
  induction entries with
  | nil => exact ⟨[⟨addr, addr⟩], true, rfl, .block .nil nofun⟩
  | cons i rest ih =>
    obtain ⟨hasc, hzero⟩ := h
    have hle : i.lo ≤ i.hi := hasc.head_le
    have hlo : i.lo ≠ 0 := by
      intro h0
      exact hzero (Range.covered_cons.mpr (.inl ⟨h0.le, by bv_omega⟩))
    have hrest : Recorded rest := ⟨hasc.tail, fun hc => hzero (Range.covered_cons.mpr (.inr hc))⟩
    unfold addScan
    split
    · next hin => exact ⟨_, _, rfl, .collision hasc (Range.covered_cons.mpr (.inl hin))⟩
    split
    · next hbelow =>
        refine ⟨_, _, rfl, .block hasc ?_⟩
        intro r hr
        have hlt : addr < i.lo := by bv_omega
        rcases List.mem_cons.mp hr with rfl | hr
        · exact hlt
        · exact hlt.trans_le (hle.trans (hasc.head_lt hr).le)
    split
    · next hup =>
        -- the next block must not start at the new address
        cases rest with
        | nil => exact ⟨_, _, rfl, .up hasc hup hnz nofun⟩
        | cons j rest =>
          have hj : i.hi < j.lo := hasc.head_lt (.head _)
          have hjle : j.lo ≤ j.hi := hasc.tail.head_le
          dsimp only
          split
          · next heq =>
              refine ⟨_, _, rfl, .collision hasc ?_⟩
              exact Range.covered_cons.mpr (.inr (Range.covered_cons.mpr
                (.inl ⟨heq.ge, by bv_omega⟩)))
          · next hne =>
              refine ⟨_, _, rfl, .up hasc hup hnz ?_⟩
              intro r hr
              have hlt : addr < j.lo := by bv_omega
              rcases List.mem_cons.mp hr with rfl | hr
              · exact hlt
              · exact hlt.trans_le (hjle.trans (hasc.tail.head_lt hr).le)
    split
    · next hdown => exact ⟨_, _, rfl, .down hasc hdown hlo⟩
    · next hin hbelow hup hdown =>
        obtain ⟨after, added, hscan, hadd⟩ := ih hrest
        refine ⟨i :: after, added, ?_, .later hasc (by bv_omega) hadd⟩
        rw [hscan]
        rfl

/-! ## One call -/

/-- The generator is in test mode and its entries record the allocated addresses. -/
structure Exact (past : List (Call × Answer)) (g : Ipv4AddressGeneratorImpl) : Prop where
  test : g.test = true
  recorded : Recorded g.entries
  covered : ∀ addr, Covered g.entries addr ↔ Allocated past addr

section

variable {g g' : Ipv4AddressGeneratorImpl} {past : List (Call × Answer)} {addr mask : BitVec 32}

variable {event : Call × Answer}

theorem allocated_concat :
    Allocated (past ++ [event]) addr ↔ Allocated past addr ∨ Records addr event := by
  simp only [Allocated, List.mem_append, List.mem_singleton, or_and_right, exists_or,
    exists_eq_left]

/-- The address is covered afterwards; the answer says whether it was new. -/
theorem addAllocated_spec (hnz : addr ≠ 0) (htest : g.test = true) (h : Recorded g.entries) :
    ∃ after added, g.addAllocated addr = .ok ({ g with entries := after }, added) ∧
      Recorded after ∧ Added addr g.entries after added := by
  obtain ⟨after, added, hscan, hadd⟩ := addScan_spec hnz h
  refine ⟨after, added, ?_, ⟨hadd.ascending, ?_⟩, hadd⟩
  · rw [addAllocated, if_neg hnz, htest, hscan]
    rfl
  · rw [hadd.covered]
    rintro (h0 | h0)
    · exact h.nonzero h0
    · exact hnz h0.symm

theorem Exact.other (h : Exact past g) (htest : g'.test = g.test)
    (hentries : g'.entries = g.entries) (hrec : ∀ a, ¬Records a event) :
    Exact (past ++ [event]) g' where
  test := htest.trans h.test
  recorded := hentries ▸ h.recorded
  covered := by
    intro a
    rw [hentries, h.covered, allocated_concat, or_iff_left (hrec a)]

theorem Exact.add (h : Exact past g) (htest : g'.test = true) (hrec : Recorded g'.entries)
    (hcov : ∀ a, Covered g'.entries a ↔ Covered g.entries a ∨ a = addr)
    (hevent : ∀ a, Records a event ↔ addr = a) : Exact (past ++ [event]) g' where
  test := htest
  recorded := hrec
  covered := by
    intro a
    rw [hcov, h.covered, allocated_concat, hevent, eq_comm]

theorem ne_zero_of_addAllocated {added : Bool} (h : g.addAllocated addr = .ok (g', added)) :
    addr ≠ 0 := by
  rintro rfl
  cases h

theorem nextNetwork_frame (h : g.nextNetwork mask = .ok (g', addr)) :
    g'.test = g.test ∧ g'.entries = g.entries := by
  obtain ⟨index, -, h⟩ := bind_eq_ok.mp h
  obtain ⟨r, -, h⟩ := bind_eq_ok.mp h
  cases h
  exact ⟨rfl, rfl⟩

theorem initAddress_frame (h : g.initAddress addr mask = .ok g') :
    g'.test = g.test ∧ g'.entries = g.entries := by
  obtain ⟨index, -, h⟩ := bind_eq_ok.mp h
  obtain ⟨r, -, h⟩ := bind_eq_ok.mp h
  split at h
  · cases h
    exact ⟨rfl, rfl⟩
  · cases h

theorem init_frame {net : BitVec 32} (h : g.init net mask addr = .ok g') :
    g'.test = g.test ∧ g'.entries = g.entries := by
  unfold init at h
  split at h
  · cases h
  split at h
  · cases h
  obtain ⟨index, -, h⟩ := bind_eq_ok.mp h
  obtain ⟨r, -, h⟩ := bind_eq_ok.mp h
  split at h
  · cases h
    exact ⟨rfl, rfl⟩
  · cases h

theorem nextAddress_spec (htest : g.test = true) (hrec : Recorded g.entries)
    (h : g.nextAddress mask = .ok (g', addr)) :
    g'.test = true ∧ Recorded g'.entries ∧
      ∀ a, Covered g'.entries a ↔ Covered g.entries a ∨ a = addr := by
  obtain ⟨index, -, h⟩ := bind_eq_ok.mp h
  obtain ⟨r, -, h⟩ := bind_eq_ok.mp h
  split at h
  · obtain ⟨⟨g'', added⟩, hadd, ⟨⟩⟩ := bind_pure_eq_ok.mp h
    obtain ⟨after, added', hspec, hafter, hcov⟩ :=
      addAllocated_spec (g := g.setRow index { r with addr := r.addr + 1 })
        (ne_zero_of_addAllocated hadd) htest hrec
    cases hspec.symm.trans hadd
    exact ⟨htest, hafter, hcov.covered⟩
  · cases h

theorem Exact.step (h : Exact past g) (hcall : g.Returned event g') :
    Exact (past ++ [event]) g' := by
  obtain ⟨c, answer⟩ := event
  change g.call c = .ok (g', answer) at hcall
  cases c with
  | addAllocated addr =>
    obtain ⟨⟨g'', added⟩, hadd, ⟨⟩⟩ := bind_pure_eq_ok.mp hcall
    obtain ⟨after, added', hspec, hafter, hcov⟩ :=
      addAllocated_spec (ne_zero_of_addAllocated hadd) h.test h.recorded
    cases hspec.symm.trans hadd
    exact h.add h.test hafter hcov.covered fun a => Iff.rfl
  | nextAddress mask =>
    obtain ⟨⟨g'', addr⟩, hnext, ⟨⟩⟩ := bind_pure_eq_ok.mp hcall
    obtain ⟨htest, hafter, hcov⟩ := nextAddress_spec h.test h.recorded hnext
    exact h.add htest hafter hcov fun a => Iff.rfl
  | nextNetwork mask =>
    obtain ⟨⟨g'', addr⟩, hnext, ⟨⟩⟩ := bind_pure_eq_ok.mp hcall
    obtain ⟨htest, hentries⟩ := nextNetwork_frame hnext
    exact h.other htest hentries fun a => id
  | initAddress addr mask =>
    obtain ⟨g'', hinit, ⟨⟩⟩ := bind_pure_eq_ok.mp hcall
    obtain ⟨htest, hentries⟩ := initAddress_frame hinit
    exact h.other htest hentries fun a => id
  | init net mask addr =>
    obtain ⟨g'', hinit, ⟨⟩⟩ := bind_pure_eq_ok.mp hcall
    obtain ⟨htest, hentries⟩ := init_frame hinit
    exact h.other htest hentries fun a => id

theorem Exact.run (hrun : Run Returned reset.testMode past g) : Exact past g := by
  refine hrun.invariant_trace ?_ fun past t l u h hl => h.step hl
  refine ⟨rfl, ⟨.nil, Range.not_covered_nil⟩, fun addr => ?_⟩
  refine iff_of_false Range.not_covered_nil ?_
  rintro ⟨event, hmem, -⟩
  cases hmem

theorem isAddressAllocated_eq (hnz : addr ≠ 0) :
    ∃ b, g.isAddressAllocated addr = .ok b ∧ (b = true ↔ Covered g.entries addr) := by
  refine ⟨_, if_neg hnz, ?_⟩
  simp only [List.any_eq_true, decide_eq_true_eq]
  exact Iff.rfl

end

end Ipv4AddressGeneratorImpl

end Ns3
