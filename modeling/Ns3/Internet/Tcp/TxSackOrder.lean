/-
  SACK blocks in their order of arrival.

  A block sacks the items it covers, whatever came before it.  What depends on the
  order is the cache: `Update` compares the cached sequence number with the end of
  the item it sacks, so the item directly below the cached one takes the cache
  over when a later block sacks it.
-/
import Ns3.Internet.Tcp.TxHighestAck

namespace Ns3.Tcp

open Ns3.Lib SequenceNumber

/-! ## One block -/

variable {l l' : List TcpTxItem} {start base : SequenceNumber32}

def covers (block : SackBlock) (item : TcpTxItem) : Bool :=
  item.startSeq.ge block.1 && (item.startSeq.add item.size).le block.2

def sackItem (block : SackBlock) (item : TcpTxItem) : TcpTxItem :=
  if covers block item && !item.sacked then { item with lost := false, sacked := true } else item

/-- What a block makes of the variables of the loop at an item. -/
def sackStep (block : SackBlock) (pass : TcpTxBuffer.SackPass) (item : TcpTxItem) :
    TcpTxBuffer.SackPass :=
  if covers block item && !item.sacked then pass.sack item.startSeq item else pass

theorem sack_idle {block : SackBlock} (pass : TcpTxBuffer.SackPass)
    (h : ∀ item ∈ l, (covers block item && !item.sacked) = false) :
    l.map (sackItem block) = l ∧ l.foldl (sackStep block) pass = pass := by
  induction l with
  | nil => exact ⟨rfl, rfl⟩
  | cons item rest ih =>
    have hitem := h item (.head _)
    obtain ⟨hmap, hfold⟩ := ih fun later hmem => h later (.tail _ hmem)
    constructor
    · rw [List.map_cons, hmap, sackItem, hitem]
      rfl
    · rw [List.foldl_cons, sackStep, hitem]
      exact hfold

/-- The block reaches the end of the head of the list.  The inner loop of `Update`
ends at the head otherwise. -/
def reachesHead (items : List TcpTxItem) (block : SackBlock) : Bool :=
  items.head?.all fun head => (head.startSeq.add head.size).le block.2

theorem covers_beyond {block : SackBlock} {k : Nat} (hend : start.le block.2 = true)
    (hchain : Chain (start.add k) l) (hspan : k + bytes l < 2 ^ 31)
    (hbeyond : (start.add k).gt block.2 = true) : ∀ item ∈ l, covers block item = false := by
  induction l generalizing k with
  | nil => exact List.forall_mem_nil _
  | cons item rest ih =>
    rw [bytes_cons] at hspan
    obtain ⟨hstart, hrest⟩ := hchain
    rw [add_add] at hrest
    have hlater := gt_of_gt hend (Nat.le_add_right k item.size) (by omega) hbeyond
    refine List.forall_mem_cons.mpr ⟨?_, ih hrest (by omega) hlater⟩
    rw [covers, hstart, add_add, SequenceNumber.le, hlater]
    exact Bool.and_false _

def EndsOnce (block : SackBlock) : List TcpTxItem → Prop
  | [] => True
  | item :: rest =>
    ((item.startSeq.add item.size).gt block.2 = true →
      ∀ later ∈ rest, covers block later = false) ∧ EndsOnce block rest

theorem endsOnce_behind {block : SackBlock} {k : Nat} (hend : start.le block.2 = true)
    (hchain : Chain (start.add k) l) (hspan : k + bytes l < 2 ^ 31) : EndsOnce block l := by
  induction l generalizing k with
  | nil => trivial
  | cons item rest ih =>
    rw [bytes_cons] at hspan
    obtain ⟨hstart, hrest⟩ := hchain
    rw [add_add] at hrest
    refine ⟨?_, ih hrest (by omega)⟩
    intro hpast
    rw [hstart, add_add] at hpast
    exact covers_beyond hend hrest (by omega) hpast

theorem endsOnce_of_reachesHead {block : SackBlock} (hchain : Chain base l)
    (hspan : bytes l < 2 ^ 31) (hreaches : reachesHead l block = true) : EndsOnce block l := by
  cases l with
  | nil => trivial
  | cons head rest =>
    obtain ⟨hstart, hrest⟩ := hchain
    rw [bytes_cons] at hspan
    have hend : (head.startSeq.add head.size).le block.2 = true := hreaches
    refine ⟨?_, ?_⟩
    · intro hpast
      simp [SequenceNumber.le, hpast] at hend
    · rw [← hstart, ← add_zero (head.startSeq.add head.size)] at hrest
      exact endsOnce_behind hend hrest (by omega)

variable {pass pass' : TcpTxBuffer.SackPass}

theorem sackItems_map {block : SackBlock} (hends : EndsOnce block l) (hchain : Chain start l)
    (hrun : TcpTxBuffer.sackItems block start l pass = .ok (l', pass')) :
    l' = l.map (sackItem block) ∧ pass' = l.foldl (sackStep block) pass := by
  induction l generalizing start pass l' pass' with
  | nil =>
    simp only [TcpTxBuffer.sackItems, pure_eq_ok, Prod.mk.injEq] at hrun
    obtain ⟨rfl, rfl⟩ := hrun
    exact ⟨rfl, rfl⟩
  | cons item rest ih =>
    obtain ⟨rfl, hrest⟩ := hchain
    obtain ⟨hpastRest, hendsRest⟩ := hends
    unfold TcpTxBuffer.sackItems at hrun
    dsimp only at hrun
    split at hrun
    · rename_i hcovers
      have hcovers : covers block item = true := hcovers
      split at hrun
      · rename_i hsacked
        simp only [bind_eq_ok, pure_eq_ok, Prod.mk.injEq] at hrun
        obtain ⟨_, _, ⟨rest', pass''⟩, hrec, rfl, rfl⟩ := hrun
        obtain ⟨rfl, rfl⟩ := ih hendsRest hrest hrec
        simp [sackItem, sackStep, hsacked]
      · rename_i hsacked
        simp only [bind_eq_ok, pure_eq_ok, Prod.mk.injEq] at hrun
        obtain ⟨⟨rest', pass''⟩, hrec, rfl, rfl⟩ := hrun
        obtain ⟨rfl, rfl⟩ := ih hendsRest hrest hrec
        simp [sackItem, sackStep, hsacked, hcovers]
    · rename_i hcovers
      have hcovers : covers block item = false := by simpa [covers] using hcovers
      have hskip : sackItem block item = item ∧ sackStep block pass item = pass := by
        simp [sackItem, sackStep, hcovers]
      split at hrun
      · rename_i hpast
        simp only [pure_eq_ok, Prod.mk.injEq] at hrun
        obtain ⟨rfl, rfl⟩ := hrun
        obtain ⟨hmap, hfold⟩ :=
          @sack_idle rest block pass fun later hmem => by simp [hpastRest hpast later hmem]
        exact ⟨by rw [List.map_cons, hmap, hskip.1],
          by rw [List.foldl_cons, hskip.2, hfold]⟩
      · simp only [bind_eq_ok, pure_eq_ok, Prod.mk.injEq] at hrun
        obtain ⟨⟨rest', pass''⟩, hrec, rfl, rfl⟩ := hrun
        obtain ⟨rfl, rfl⟩ := ih hendsRest hrest hrec
        exact ⟨by rw [List.map_cons, hskip.1], by rw [List.foldl_cons, hskip.2]⟩

theorem sackItems_short {block : SackBlock} (hchain : Chain base l)
    (hshort : reachesHead l block = false)
    (hrun : TcpTxBuffer.sackItems block base l pass = .ok (l', pass')) : l' = l ∧ pass' = pass := by
  cases l with
  | nil => simp [reachesHead] at hshort
  | cons head rest =>
    obtain ⟨rfl, _⟩ := hchain
    have hshort : (head.startSeq.add head.size).le block.2 = false := hshort
    have hpast : (head.startSeq.add head.size).gt block.2 = true := by
      simpa [SequenceNumber.le] using hshort
    unfold TcpTxBuffer.sackItems at hrun
    dsimp only at hrun
    rw [hshort, Bool.and_false, if_neg (by decide), if_pos hpast] at hrun
    simp only [pure_eq_ok, Prod.mk.injEq] at hrun
    exact ⟨hrun.1.symm, hrun.2.symm⟩

section

variable (block : SackBlock) (item : TcpTxItem)

@[simp] theorem sackItem_startSeq : (sackItem block item).startSeq = item.startSeq := by
  unfold sackItem
  split <;> rfl

@[simp] theorem sackItem_size : (sackItem block item).size = item.size := by
  unfold sackItem
  split <;> rfl

@[simp] theorem sackItem_node : (sackItem block item).node = item.node := by
  unfold sackItem
  split <;> rfl

theorem sackItem_sacked : (sackItem block item).sacked = (item.sacked || covers block item) := by
  unfold sackItem
  cases hsacked : item.sacked <;> cases hcovers : covers block item <;> simp [hsacked]

end

@[simp] theorem covers_sackItem (block other : SackBlock) (item : TcpTxItem) :
    covers other (sackItem block item) = covers other item := by
  simp [covers]

/-! ## When an item is sacked -/

variable {blocks : List SackBlock} {item : TcpTxItem} {after : List TcpTxItem}

/-- The number of the block that sacks the item, from one; zero if it is sacked before all of them,
nothing if never. -/
def sackTime (blocks : List SackBlock) (item : TcpTxItem) : Option Nat :=
  if item.sacked then some 0 else (blocks.findIdx? (covers · item)).map (· + 1)

theorem sackTime_nil (item : TcpTxItem) :
    sackTime [] item = if item.sacked then some 0 else none := rfl

theorem sackTime_cons (block : SackBlock) (blocks : List SackBlock) (item : TcpTxItem) :
    sackTime blocks (sackItem block item) = (sackTime (block :: blocks) item).map (· - 1) := by
  simp only [sackTime, sackItem_sacked, covers_sackItem, List.findIdx?_cons]
  cases item.sacked <;> cases hcovers : covers block item <;> simp
  cases blocks.findIdx? (covers · item) <;> simp

theorem sackTime_eq_none {block : SackBlock} (h : sackTime (block :: blocks) item = none) :
    covers block item = false ∧ sackTime blocks item = none := by
  have hrest := sackTime_cons block blocks item
  have hcovers : covers block item = false := by
    cases hcovers : covers block item with
    | false => rfl
    | true =>
      rw [sackTime, List.findIdx?_cons, hcovers] at h
      split at h <;> simp at h
  refine ⟨hcovers, ?_⟩
  rw [h, sackItem, hcovers] at hrest
  exact hrest

theorem sackTime_eq_one {block : SackBlock} (blocks : List SackBlock) (hclear : item.sacked = false)
    (hcovers : covers block item = true) : sackTime (block :: blocks) item = some 1 := by
  simp [sackTime, hclear, List.findIdx?_cons, hcovers]

/-- The item directly below the last one that is sacked by the end is sacked no later
than that one, or not at all. -/
def sackedInOrder (blocks : List SackBlock) : List TcpTxItem → Bool
  | [] => true
  | [_] => true
  | below :: item :: rest =>
    sackedInOrder blocks (item :: rest) &&
      (rest.any (fun later => (sackTime blocks later).isSome) ||
        ((sackTime blocks item).elim true fun time =>
          (sackTime blocks below).elim true fun time' => decide (time' ≤ time)))

theorem sackedInOrder_place {below : TcpTxItem} {time time' : Nat} (before : List TcpTxItem)
    (h : sackedInOrder blocks (before ++ below :: item :: after) = true)
    (hafter : ∀ later ∈ after, sackTime blocks later = none)
    (hitem : sackTime blocks item = some time) (hbelow : sackTime blocks below = some time') :
    time' ≤ time := by
  induction before with
  | nil =>
    have hnone : (after.any fun later => (sackTime blocks later).isSome) = false := by
      rw [List.any_eq_false]
      intro later hmem
      simp [hafter later hmem]
    simp only [List.nil_append, sackedInOrder, Bool.and_eq_true, hnone, Bool.false_or, hitem,
      hbelow, Option.elim_some, decide_eq_true_eq] at h
    exact h.2
  | cons first rest ih =>
    refine ih ?_
    cases rest with
    | nil =>
      simp only [List.cons_append, List.nil_append, sackedInOrder, Bool.and_eq_true] at h ⊢
      exact h.1
    | cons second more =>
      simp only [List.cons_append, sackedInOrder, Bool.and_eq_true] at h ⊢
      exact h.1

theorem last_with {p : TcpTxItem → Bool} (l : List TcpTxItem) :
    (∀ item ∈ l, p item = false) ∨ ∃ before item after, l = before ++ item :: after ∧
      p item = true ∧ ∀ later ∈ after, p later = false := by
  induction l with
  | nil => exact .inl fun _ hmem => absurd hmem List.not_mem_nil
  | cons first rest ih =>
    obtain hnone | ⟨before, item, after, hrest, hitem, hafter⟩ := ih
    · cases hfirst : p first with
      | false => exact .inl (List.forall_mem_cons.mpr ⟨hfirst, hnone⟩)
      | true => exact .inr ⟨[], first, rest, rfl, hfirst, hnone⟩
    · exact .inr ⟨first :: before, item, after, by rw [hrest]; rfl, hitem, hafter⟩

namespace TcpTxBuffer

/-! ## The cache over one block -/

variable {pass : SackPass} {before : List TcpTxItem}

/-- The cache is empty or points below byte `n`. -/
def SackPass.Below (base : SequenceNumber32) (n : Nat) (pass : SackPass) : Prop :=
  pass.highestSack.1 = none ∨ ∃ k, k < n ∧ pass.highestSack.2 = base.add k

theorem SackPass.Below.foldl {n k : Nat} (block : SackBlock) (h : pass.Below base n)
    (hchain : Chain (base.add k) l) (hne : Nonempty l) (hspan : k + bytes l ≤ n) :
    (l.foldl (sackStep block) pass).Below base n := by
  induction l generalizing k pass with
  | nil => exact h
  | cons item rest ih =>
    rw [bytes_cons] at hspan
    obtain ⟨hstart, hrest⟩ := hchain
    rw [add_add] at hrest
    obtain ⟨hpos, hne⟩ := nonempty_cons.mp hne
    refine ih ?_ hrest hne (by omega)
    unfold sackStep
    split
    · unfold SackPass.sack SackPass.Below
      dsimp only
      split
      · exact .inr ⟨k, by omega, hstart⟩
      · exact h
    · exact h

theorem SackPass.foldl_below {block : SackBlock} {n k node : Nat} (hn : n < 2 ^ 31)
    (hcache : pass.highestSack = (some node, base.add n)) (hchain : Chain (base.add k) l)
    (hspan : k + bytes l < n) :
    (l.foldl (sackStep block) pass).highestSack = pass.highestSack ∧
      (l.foldl (sackStep block) pass).sackSeen = pass.sackSeen := by
  induction l generalizing k pass with
  | nil => exact ⟨rfl, rfl⟩
  | cons item rest ih =>
    rw [bytes_cons] at hspan
    obtain ⟨hstart, hrest⟩ := hchain
    rw [add_add] at hrest
    have hstep : (sackStep block pass item).highestSack = pass.highestSack ∧
        (sackStep block pass item).sackSeen = pass.sackSeen := by
      unfold sackStep
      split
      · have hpos : pos base (base.add n) = n := pos_base_add (by omega)
        have hend : pos base (base.add (k + item.size)) = k + item.size :=
          pos_base_add (by omega)
        have hnear : Near base (base.add n) (base.add (k + item.size)) :=
          near_of_lt (by omega) (by omega)
        have hahead : (base.add n).le (base.add (k + item.size)) = false := by
          rw [Bool.eq_false_iff, ne_eq, le_iff hnear]
          omega
        simp [SackPass.sack, hcache, hstart, add_add, hahead]
      · exact ⟨rfl, rfl⟩
    obtain ⟨hcache', hseen'⟩ := ih (hstep.1.trans hcache) hrest (by omega)
    exact ⟨hcache'.trans hstep.1, hseen'.trans hstep.2⟩

/-- The cache when the last item to be sacked by the end is `item`: exact if that
item is sacked already, and below it otherwise. -/
def SackPass.Caches (pass : SackPass) (base : SequenceNumber32) (before : List TcpTxItem)
    (item : TcpTxItem) : Prop :=
  (item.sacked = true ∧ pass.highestSack = pointerTo (some item) ∧ pass.sackSeen = true) ∨
    (item.sacked = false ∧ pass.Below base (bytes before))

theorem bytes_map_sackItem (block : SackBlock) (l : List TcpTxItem) :
    bytes (l.map (sackItem block)) = bytes l :=
  bytes_of_places (by
    rw [List.map_map]
    refine List.map_congr_left fun item _ => ?_
    simp only [Function.comp_apply, sackItem]
    split <;> rfl)

theorem SackPass.Caches.block {block : SackBlock} (h : pass.Caches base before item)
    (hchain : Chain base (before ++ item :: after)) (hne : Nonempty (before ++ item :: after))
    (hspan : bytes (before ++ item :: after) < 2 ^ 31)
    (hafter : ∀ later ∈ after, covers block later = false)
    (hbelow : ∀ rest below, before = rest ++ [below] → item.sacked = true →
      below.sacked = true ∨ covers block below = false) :
    ((before ++ item :: after).foldl (sackStep block) pass).Caches base
      (before.map (sackItem block)) (sackItem block item) := by
  obtain ⟨hbefore, hstart, _⟩ := chain_append.mp hchain
  obtain ⟨hneBefore, hneItem⟩ := nonempty_append.mp hne
  rw [bytes_append, bytes_cons] at hspan
  rw [← add_zero base] at hbefore
  have hidle : ∀ later ∈ after, (covers block later && !later.sacked) = false :=
    fun later hmem => by simp [hafter later hmem]
  rw [List.foldl_append, List.foldl_cons, (sack_idle _ hidle).2]
  unfold SackPass.Caches
  rw [bytes_map_sackItem, sackItem_sacked]
  obtain ⟨hsacked, hcache, hseen⟩ | ⟨hclear, hpass⟩ := h
  · -- the cached item is sacked: only the item directly below it could take the cache over
    refine .inl ⟨by rw [hsacked, Bool.true_or], ?_⟩
    have hkept : (before.foldl (sackStep block) pass).highestSack = pass.highestSack ∧
        (before.foldl (sackStep block) pass).sackSeen = pass.sackSeen := by
      rcases List.eq_nil_or_concat before with rfl | ⟨rest, below, rfl⟩
      · exact ⟨rfl, rfl⟩
      · rw [List.concat_eq_append] at hbefore hneBefore hspan hstart ⊢
        have hskip : ∀ pass : SackPass, sackStep block pass below = pass := by
          intro pass
          obtain hdone | huncovered := hbelow rest below (by simp) hsacked
          · simp [sackStep, hdone]
          · simp [sackStep, huncovered]
        rw [List.foldl_append, List.foldl_cons, List.foldl_nil, hskip]
        have hlt := (nonempty_cons.mp (nonempty_append.mp hneBefore).2).1
        rw [bytes_append, bytes_cons, bytes_nil] at hspan
        have hpointer : pass.highestSack
            = (some item.node, base.add (bytes (rest ++ [below]))) := by
          rw [hcache, pointerTo, Option.elim_some, hstart]
        rw [bytes_append, bytes_cons, bytes_nil] at hpointer
        exact SackPass.foldl_below (by omega) hpointer (chain_append.mp hbefore).1 (by omega)
    have hstep : sackStep block (before.foldl (sackStep block) pass) item
        = before.foldl (sackStep block) pass := by
      simp [sackStep, hsacked]
    rw [hstep]
    refine ⟨?_, hkept.2.trans hseen⟩
    rw [hkept.1, hcache]
    simp [pointerTo]
  · have hfold := hpass.foldl block hbefore hneBefore (by omega)
    rw [hclear, Bool.false_or]
    cases hcovers : covers block item with
    | false =>
      refine .inr ⟨rfl, ?_⟩
      rw [sackStep, hcovers]
      exact hfold
    | true =>
      have hmove : ((before.foldl (sackStep block) pass).highestSack.1.isNone ||
          (before.foldl (sackStep block) pass).highestSack.2.le
            (item.startSeq.add item.size)) = true := by
        obtain hnone | ⟨k, hk, hpointer⟩ := hfold
        · rw [hnone]
          rfl
        · have hpos : pos base (base.add k) = k := pos_base_add (by omega)
          have hend : pos base (base.add (bytes before + item.size))
              = bytes before + item.size := pos_base_add (by omega)
          have hnear : Near base (base.add k) (base.add (bytes before + item.size)) :=
            near_of_lt (by omega) (by omega)
          rw [hpointer, hstart, add_add, (le_iff hnear).mpr (by omega), Bool.or_true]
      refine .inl ⟨rfl, ?_, ?_⟩
      · simp [sackStep, hcovers, hclear, SackPass.sack, hmove, pointerTo]
      · simp [sackStep, hcovers, hclear, SackPass.sack, hmove]

/-! ## The blocks of one option -/

variable {list : List SackBlock}

/-- The marking loop of `Update` without its early ends. -/
def sackRuns : List SackBlock → List TcpTxItem → SackPass → List TcpTxItem × SackPass
  | [], items, pass => (items, pass)
  | block :: blocks, items, pass =>
    sackRuns blocks (items.map (sackItem block)) (items.foldl (sackStep block) pass)

theorem sackItem_place (block : SackBlock) (item : TcpTxItem) :
    place (sackItem block item) = place item := by
  unfold sackItem
  split <;> rfl

/-- The blocks of a list that `Update` looks at: the ones before the first beyond the sent list that
reach the end of the head. -/
def heeded (firstUnsent : SequenceNumber32) (items : List TcpTxItem) (list : List SackBlock) :
    List SackBlock :=
  (list.takeWhile fun block => !firstUnsent.lt block.1).filter (reachesHead items)

theorem reachesHead_of_places {r : List TcpTxItem} (h : l.map place = r.map place) :
    reachesHead l = reachesHead r := by
  have hhead : ∀ items : List TcpTxItem, reachesHead items = fun block : SackBlock =>
      (items.map place).head?.all fun head => (head.1.add head.2.length).le block.2 := by
    intro items
    funext block
    cases items <;> rfl
  rw [hhead l, hhead r, h]

/-- **Marking lemma.**  `Update` marks what the blocks it looks at cover. -/
theorem sackBlocks_eq {firstUnsent : SequenceNumber32} {pass' : SackPass} {early : Bool}
    (hchain : Chain base l) (hspan : bytes l < 2 ^ 31)
    (hrun : sackBlocks base firstUnsent list l pass = .ok (l', pass', early)) :
    early = list.any (firstUnsent.lt ·.1) ∧
      sackRuns (heeded firstUnsent l list) l pass = (l', pass') := by
  induction list generalizing l pass with
  | nil =>
    simp only [sackBlocks, pure_eq_ok, Prod.mk.injEq] at hrun
    obtain ⟨rfl, rfl, rfl⟩ := hrun
    exact ⟨rfl, rfl⟩
  | cons block blocks ih =>
    unfold sackBlocks at hrun
    split at hrun
    · rename_i hbeyond
      simp only [pure_eq_ok, Prod.mk.injEq] at hrun
      obtain ⟨rfl, rfl, rfl⟩ := hrun
      simp [heeded, hbeyond, sackRuns]
    · rename_i hinside
      have hinside : firstUnsent.lt block.1 = false := by simpa using hinside
      rw [bind_eq_ok] at hrun
      obtain ⟨⟨items, pass''⟩, hblock, hrun⟩ := hrun
      have hplaces := sackItems_places hblock
      obtain ⟨hearly, hrest⟩ := ih (chain_of_places hplaces hchain)
        (by rw [bytes_of_places hplaces]; exact hspan) hrun
      have hsame : heeded firstUnsent items blocks = heeded firstUnsent l blocks := by
        rw [heeded, heeded, reachesHead_of_places hplaces]
      refine ⟨by rw [hearly, List.any_cons, hinside, Bool.false_or], ?_⟩
      rw [← hrest, hsame, heeded, List.takeWhile_cons_of_pos (by simp [hinside]),
        List.filter_cons]
      cases hreaches : reachesHead l block with
      | true =>
        obtain ⟨rfl, rfl⟩ :=
          sackItems_map (endsOnce_of_reachesHead hchain hspan hreaches) hchain hblock
        rfl
      | false =>
        obtain ⟨rfl, rfl⟩ := sackItems_short hchain hreaches hblock
        rfl

theorem sackRuns_idle (pass : SackPass)
    (h : ∀ item ∈ l, item.sacked = true ∨ sackTime blocks item = none) :
    sackRuns blocks l pass = (l, pass) := by
  induction blocks generalizing pass with
  | nil => rfl
  | cons block blocks ih =>
    obtain ⟨hmap, hfold⟩ := @sack_idle l block pass (by
      intro item hmem
      obtain hsacked | htime := h item hmem
      · simp [hsacked]
      · simp [(sackTime_eq_none htime).1])
    rw [sackRuns, hmap, hfold]
    exact ih pass fun item hmem => (h item hmem).imp id fun htime => (sackTime_eq_none htime).2

/-- **Order lemma.**  The cache ends at the last item if the one below is sacked no later. -/
theorem sackRuns_caches {time : Nat} (h : pass.Caches base before item)
    (hchain : Chain base (before ++ item :: after)) (hne : Nonempty (before ++ item :: after))
    (hspan : bytes (before ++ item :: after) < 2 ^ 31) (hitem : sackTime blocks item = some time)
    (hafter : ∀ later ∈ after, sackTime blocks later = none)
    (horder : ∀ rest below time', before = rest ++ [below] → sackTime blocks below = some time' →
      time' ≤ time) :
    ∃ before' item', (sackRuns blocks (before ++ item :: after) pass).1
        = before' ++ item' :: after ∧ item'.sacked = true ∧
      (sackRuns blocks (before ++ item :: after) pass).2.highestSack = pointerTo (some item') ∧
      (sackRuns blocks (before ++ item :: after) pass).2.sackSeen = true := by
  induction blocks generalizing before item pass time with
  | nil =>
    have hsacked : item.sacked = true := by
      cases hsacked : item.sacked with
      | true => rfl
      | false => simp [sackTime_nil, hsacked] at hitem
    obtain ⟨_, hcache, hseen⟩ | ⟨hclear, _⟩ := h
    · exact ⟨before, item, rfl, hsacked, hcache, hseen⟩
    · simp [hclear] at hsacked
  | cons block blocks ih =>
    have huncovered : ∀ later ∈ after, covers block later = false :=
      fun later hmem => (sackTime_eq_none (hafter later hmem)).1
    have hidle : ∀ later ∈ after, (covers block later && !later.sacked) = false :=
      fun later hmem => by simp [huncovered later hmem]
    have hmapAfter := (sack_idle pass hidle).1
    have hbelow : ∀ rest below, before = rest ++ [below] → item.sacked = true →
        below.sacked = true ∨ covers block below = false := by
      intro rest below hplace hsacked
      by_contra hnewly
      obtain ⟨hclear, hcovers⟩ := not_or.mp hnewly
      have hone := sackTime_eq_one blocks (by simpa using hclear) (by simpa using hcovers)
      have hle := horder rest below 1 hplace hone
      have hzero : time = 0 := by
        rw [sackTime, if_pos hsacked] at hitem
        exact (Option.some.inj hitem).symm
      omega
    have hnext := h.block hchain hne hspan huncovered hbelow
    have hplaces : ((before ++ item :: after).map (sackItem block)).map place
        = (before ++ item :: after).map place :=
      map_place_eq (sackItem_place block)
    have hmap : (before ++ item :: after).map (sackItem block)
        = before.map (sackItem block) ++ sackItem block item :: after := by
      rw [List.map_append, List.map_cons, hmapAfter]
    rw [sackRuns, hmap]
    rw [hmap] at hplaces
    have htime : sackTime blocks (sackItem block item) = some (time - 1) := by
      rw [sackTime_cons, hitem]
      rfl
    refine ih hnext (chain_of_places hplaces hchain) (nonempty_of_places hplaces hne) ?_ htime
      ?_ ?_
    · rw [bytes_of_places hplaces]
      exact hspan
    · intro later hmem
      exact (sackTime_eq_none (hafter later hmem)).2
    · intro rest below time' hplace htime
      obtain ⟨rest₀, belows, rfl, _, hlast⟩ := List.map_eq_append_iff.mp hplace
      obtain ⟨below₀, rfl, rfl⟩ := List.map_eq_singleton_iff.mp hlast
      rw [sackTime_cons, Option.map_eq_some_iff] at htime
      obtain ⟨time₀, htime₀, rfl⟩ := htime
      have hle := horder rest₀ below₀ time₀ rfl htime₀
      omega

/-! ## `Update` -/

variable {b : TcpTxBuffer}

def insideSent (b : TcpTxBuffer) (block : SackBlock) : Bool :=
  decide (pos b.firstByteSeq block.1 ≤ pos b.firstByteSeq block.2) &&
    decide (pos b.firstByteSeq block.2 ≤ b.sentSize)

theorem Placed.not_beyond {block : SackBlock} (h : Placed b) (hinside : b.insideSent block = true) :
    b.firstUnsent.lt block.1 = false := by
  have hlt := h.sentSize_lt
  simp only [insideSent, Bool.and_eq_true, decide_eq_true_eq] at hinside
  have hunsent : pos b.firstByteSeq b.firstUnsent = b.sentSize := pos_base_add (by omega)
  have hnear : Near b.firstByteSeq b.firstUnsent block.1 := near_of_lt (by omega) (by omega)
  rw [Bool.eq_false_iff, ne_eq, lt_iff hnear]
  omega

theorem HighestExact.caches (h : HighestExact b) (hlist : b.sentList = before ++ item :: after)
    (hafter : ∀ later ∈ after, later.sacked = false) :
    b.startPass.Caches b.firstByteSeq before item := by
  have hafterNone := lastSacked_eq_none.mpr hafter
  have hlast : lastSacked b.sentList
      = (if item.sacked then some item else none).or (lastSacked before) := by
    rw [hlist, lastSacked_append, lastSacked_cons, hafterNone, Option.none_or]
  have hcache : b.startPass.highestSack = pointerTo (lastSacked b.sentList) := h.cache
  have hseen : b.startPass.sackSeen = (lastSacked b.sentList).isSome := h.seen
  cases hsacked : item.sacked with
  | true =>
    rw [hsacked, if_pos rfl, Option.some_or] at hlast
    exact .inl ⟨hsacked, by rw [hcache, hlast], by rw [hseen, hlast]; rfl⟩
  | false =>
    rw [hsacked, if_neg (by decide), Option.none_or] at hlast
    refine .inr ⟨hsacked, ?_⟩
    rw [SackPass.Below, hcache, hlast]
    cases hbefore : lastSacked before with
    | none => exact .inl rfl
    | some highest =>
      obtain ⟨front, rest, hplace, _, _⟩ := lastSacked_eq_some hbefore
      have hchain := h.placed.chain
      have hne := h.placed.nonempty
      rw [hlist, hplace, List.append_assoc, List.cons_append] at hchain hne
      have hpos := (nonempty_cons.mp (nonempty_append.mp hne).2).1
      refine .inr ⟨bytes front, ?_, startSeq_of_chain hchain⟩
      rw [hplace, bytes_append, bytes_cons]
      omega

theorem HighestExact.withPass {items : List TcpTxItem} (h : HighestExact b)
    (hplaces : items.map place = b.sentList.map place)
    (horder : sackedInOrder blocks b.sentList = true)
    (hheads : ∀ head ∈ items.head?, head.sacked = false)
    (hruns : sackRuns blocks b.sentList b.startPass = (items, pass)) :
    HighestExact (b.withPass items pass) := by
  have hplaced : Placed (b.withPass items pass) :=
    h.placed.of_samePlaces (withPass_samePlaces hplaces)
  have hcache : pass.highestSack = pointerTo (lastSacked items) ∧
      pass.sackSeen = (lastSacked items).isSome := by
    obtain hnone | ⟨before, item, after, hlist, hitem, hafter⟩ :=
      last_with (p := fun item => (sackTime blocks item).isSome) b.sentList
    · rw [sackRuns_idle _ fun item hmem => .inr (by simpa using hnone item hmem)] at hruns
      cases hruns
      exact ⟨h.cache, h.seen⟩
    · obtain ⟨time, htime⟩ := Option.isSome_iff_exists.mp hitem
      have hafter : ∀ later ∈ after, sackTime blocks later = none :=
        fun later hmem => by simpa using hafter later hmem
      have hclear : ∀ later ∈ after, later.sacked = false := by
        intro later hmem
        have hlater := hafter later hmem
        by_contra hsacked
        rw [sackTime, if_pos (by simpa using hsacked)] at hlater
        simp at hlater
      have hspan := h.placed.bytes_eq
      have hlt := h.placed.sentSize_lt
      have hbelow : ∀ rest below time', before = rest ++ [below] →
          sackTime blocks below = some time' → time' ≤ time := by
        intro rest below time' hplace htime'
        refine sackedInOrder_place rest ?_ hafter htime htime'
        rw [← horder, hlist, hplace, List.append_assoc]
        rfl
      obtain ⟨before', item', hitems, hsacked, hpointer, hseen⟩ :=
        sackRuns_caches (h.caches hlist hclear) (hlist ▸ h.placed.chain)
          (hlist ▸ h.placed.nonempty) (by rw [← hlist]; omega) htime hafter hbelow
      rw [← hlist, hruns] at hitems hpointer hseen
      dsimp only at hitems hpointer hseen
      have hlast : lastSacked items = some item' := by
        rw [hitems]
        exact lastSacked_of_place hsacked hclear
      rw [hlast]
      exact ⟨hpointer, hseen⟩
  exact ⟨hplaced, h.app_unsacked, hheads, hcache.1, hcache.2⟩

/-- The blocks of the option that `Update` looks at. -/
def heededOf (b : TcpTxBuffer) (list : List SackBlock) : List SackBlock :=
  heeded b.firstUnsent b.sentList list

variable {newlySacked : List TcpTxItem} {bytesSacked : Nat} {b' : TcpTxBuffer}

theorem update_heeded (h : Placed b) (hrun : b.update list = .ok (b', bytesSacked, newlySacked)) :
    ∃ items pass, sackRuns (b.heededOf list) b.sentList b.startPass = (items, pass) ∧
      items.map place = b.sentList.map place ∧
      ((list.any (b.firstUnsent.lt ·.1) = true ∧ b' = b.withPass items pass) ∨
        (list.any (b.firstUnsent.lt ·.1) = false ∧
          (∀ head ∈ items.head?, head.sacked = false) ∧
          ((0 < pass.bytesSacked ∧ (b.withPass items pass).updateLostCount = .ok b') ∨
            (pass.bytesSacked = 0 ∧ b' = b.withPass items pass)))) := by
  obtain ⟨items, pass, early, hblocks, -, -, hend⟩ := update_cases hrun
  have hspan := h.bytes_eq
  have hlt := h.sentSize_lt
  obtain ⟨rfl, hruns⟩ := sackBlocks_eq h.chain (by omega) hblocks
  refine ⟨items, pass, hruns, sackBlocks_places hblocks, ?_⟩
  obtain hearly | ⟨hall, ⟨head, tail, hlist', hhead⟩, hcount⟩ := hend
  · exact .inl hearly
  · have hunlost : b'.sentList.map unlost = items.map unlost := by
      obtain ⟨_, _, hcount⟩ | ⟨_, rfl⟩ := hcount
      · exact updateLostCount_unlost hcount
      · rfl
    refine .inr ⟨hall, ?_, ?_⟩
    · intro first hfirst
      have hmarks := congrArg List.head? (marks_of_unlost hunlost)
      rw [List.head?_map, List.head?_map, hlist', hfirst] at hmarks
      simp only [List.head?_cons, Option.map_some, Option.some.injEq, mark, Prod.mk.injEq] at hmarks
      rw [← hmarks.2.2, hhead]
    · exact hcount.imp (fun hcount => ⟨hcount.1, hcount.2.2⟩) id

theorem HighestExact.update (h : HighestExact b)
    (hinside : ∀ block ∈ list, b.insideSent block = true)
    (horder : sackedInOrder (b.heededOf list) b.sentList = true)
    (hrun : b.update list = .ok (b', bytesSacked, newlySacked)) : HighestExact b' := by
  obtain ⟨items, pass, hruns, hplaces, hend⟩ := update_heeded h.placed hrun
  obtain ⟨hbeyond, _⟩ | ⟨_, hheads, hcount⟩ := hend
  · obtain ⟨block, hmem, hbeyond⟩ := List.any_eq_true.mp hbeyond
    have hinside := h.placed.not_beyond (hinside block hmem)
    simp [hinside] at hbeyond
  · have hmarked := h.withPass hplaces horder hheads hruns
    obtain ⟨_, hcount⟩ | ⟨_, rfl⟩ := hcount
    · exact hmarked.updateLostCount hcount
    · exact hmarked

end TcpTxBuffer

end Ns3.Tcp
