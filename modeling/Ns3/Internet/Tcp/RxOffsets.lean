/-
  The reception buffer over the offsets of a stream.

  The buffer compares sequence numbers on their circle.  As long as everything it
  compares lies within half a turn, each of its loops does what the loop of
  `Reception.lean` does on the offsets of the stream.
-/
import Ns3.Internet.Tcp.Reception
import Ns3.Internet.Tcp.RxBuffer

namespace Ns3.Tcp

open Ns3.Lib SequenceNumber

def entryOf (start : SequenceNumber32) (s : ByteStretch) : RxEntry :=
  (start.add s.start, s.elems)

def InHalf (lo : Nat) (l : List ByteStretch) : Prop :=
  ∀ s ∈ l, lo ≤ s.start ∧ s.stop < lo + 2 ^ 31

theorem inHalf_cons {lo : Nat} {s : ByteStretch} {rest : List ByteStretch} :
    InHalf lo (s :: rest) ↔ (lo ≤ s.start ∧ s.stop < lo + 2 ^ 31) ∧ InHalf lo rest :=
  List.forall_mem_cons

theorem entryOf_stop (start : SequenceNumber32) (s : ByteStretch) :
    (start.add s.start).add s.elems.length = start.add s.stop :=
  add_add start s.start s.elems.length

theorem start_le_stop (s : ByteStretch) : s.start ≤ s.stop := Nat.le_add_right _ _

namespace TcpRxBuffer

variable {start : SequenceNumber32} {lo : Nat}

/-! ## Trimming and storing -/

variable {head tail : Nat} {l : List ByteStretch}

theorem trimData_offsets {size : Nat} (hhalf : InHalf lo l) (hhead : lo ≤ head ∧ head < lo + 2 ^ 31)
    (htail : lo ≤ tail ∧ tail < lo + 2 ^ 31) (hsize : heldSize l ≤ size) (hlt : size < 2 ^ 32) :
    trimData (l.map (entryOf start)) (start.add head) (start.add tail) size =
      { data := (trim l head tail).1.map (entryOf start)
        headSeq := start.add (trim l head tail).2.1
        tailSeq := start.add (trim l head tail).2.2
        size := size - heldSize l + heldSize (trim l head tail).1 } := by
  induction l generalizing head tail size with
  | nil =>
    simp only [List.map_nil, trimData, trim, heldSize_nil, Nat.sub_zero, Nat.add_zero]
  | cons s rest ih =>
    obtain ⟨hs, hrest⟩ := inHalf_cons.mp hhalf
    have hle := start_le_stop s
    rw [heldSize_cons] at hsize
    rw [List.map_cons, trimData]
    simp (disch := omega) only [entryOf, entryOf_stop, le_offsets, gt_offsets, lt_offsets,
      ge_offsets, decide_eq_true_eq, Bool.and_eq_true]
    rw [trim]
    split
    · split
      · split
        · -- the stretch is given up
          rw [wsub_eq hlt (by omega), ih hrest hhead htail (by omega) (by omega), heldSize_cons]
          refine congrArg _ ?_
          omega
        · rw [← apply_ite start.add, ← apply_ite start.add,
            ih hrest (by split <;> omega) (by split <;> omega) (by omega) hlt]
          simp only [List.map_cons, heldSize_cons, entryOf, Trimmed.mk.injEq, true_and]
          omega
      · rw [ih hrest hhead htail (by omega) hlt]
        simp only [List.map_cons, heldSize_cons, entryOf, Trimmed.mk.injEq, true_and]
        omega
    · simp only [List.map_cons, heldSize_cons, entryOf, Trimmed.mk.injEq, true_and]
      omega

theorem setEntry_offsets {new : ByteStretch} (hhalf : InHalf lo l)
    (hnew : lo ≤ new.start ∧ new.start < lo + 2 ^ 31) (hfree : ∀ s ∈ l, s.start ≠ new.start) :
    setEntry (start.add new.start) new.elems (l.map (entryOf start)) =
      (place new l).map (entryOf start) := by
  induction l with
  | nil => rfl
  | cons s rest ih =>
    obtain ⟨hs, hrest⟩ := inHalf_cons.mp hhalf
    obtain ⟨hne, hfree⟩ := List.forall_mem_cons.mp hfree
    have hle := start_le_stop s
    rw [List.map_cons, setEntry, place]
    simp (disch := omega) only [entryOf, lt_offsets, decide_eq_true_eq]
    by_cases hlt : new.start < s.start
    · rw [if_pos hlt, if_pos hlt]
      rfl
    · rw [if_neg hlt, if_neg hlt, if_pos (by omega), List.map_cons, ih hrest hfree]
      rfl

/-! ## Looking for data in sequence -/

theorem scanData_ok {next avail : Nat} {list : List SackBlock}
    {result : SequenceNumber32 × Nat × List SackBlock} (hhalf : InHalf lo l)
    (hnext : lo ≤ next ∧ next < lo + 2 ^ 31) (hlt : avail < 2 ^ 32)
    (h : scanData (l.map (entryOf start)) (start.add next) avail list = .ok result) :
    result.1 = start.add (advance l next) ∧
      result.2.1 = (avail + (advance l next - next)) % 2 ^ 32 := by
  induction l generalizing next avail list with
  | nil =>
    cases h
    refine ⟨rfl, ?_⟩
    rw [advance, Nat.sub_self, Nat.add_zero, Nat.mod_eq_of_lt hlt]
  | cons s rest ih =>
    obtain ⟨hs, hrest⟩ := inHalf_cons.mp hhalf
    have hle := start_le_stop s
    rw [List.map_cons, scanData] at h
    simp (disch := omega) only [entryOf, entryOf_stop, lt_offsets, gt_offsets,
      decide_eq_true_eq] at h
    rw [advance]
    split at h
    · rename_i hbehind
      rw [if_pos hbehind]
      exact ih hrest hnext hlt h
    · rename_i hbehind
      rw [if_neg hbehind]
      split at h
      · rename_i hahead
        cases h
        rw [if_pos hahead]
        refine ⟨rfl, ?_⟩
        rw [Nat.sub_self, Nat.add_zero, Nat.mod_eq_of_lt hlt]
      · rename_i hahead
        rw [if_neg hahead]
        obtain ⟨list', _, h⟩ := bind_eq_ok.mp h
        have hlen : s.stop = s.start + s.elems.length := rfl
        have hadvance := le_advance rest s.stop
        obtain ⟨hnext', havail'⟩ := ih hrest (by omega) (wadd_lt 32 _ _) h
        refine ⟨hnext', ?_⟩
        rw [havail', wadd, Nat.mod_add_mod]
        congr 1
        omega

/-! ## Taking data out -/

variable {b' : TcpRxBuffer} {base : Nat} {b : TcpRxBuffer}

theorem extractLoop_ok {n : Nat} {out out' : Packet} (hsep : Separate base l) (hhalf : InHalf lo l)
    (hsize : b.size = heldSize l) (hlt : heldSize l < 2 ^ 32)
    (havail : n ≤ b.availBytes ∧ b.availBytes < 2 ^ 32)
    (h : extractLoop b (l.map (entryOf start)) n out = .ok (b', out')) :
    n ≤ heldSize l ∧ out' = out ++ (takeFront l n).1 ∧
      b' = { b with
        data := (takeFront l n).2.map (entryOf start)
        size := heldSize l - n
        availBytes := b.availBytes - n } := by
  induction l generalizing b base n out with
  | nil =>
    cases n with
    | zero =>
      cases h
      rw [takeFront, List.append_nil]
      exact ⟨le_rfl, rfl, by simp [hsize]⟩
    | succ n => cases h
  | cons s rest ih =>
    obtain ⟨hlo, hpos, hrest⟩ := hsep
    obtain ⟨hs, hhalfRest⟩ := inHalf_cons.mp hhalf
    have hcons := heldSize_cons s rest
    cases n with
    | zero =>
      cases h
      rw [takeFront, if_pos rfl, List.append_nil]
      exact ⟨Nat.zero_le _, rfl, by simp [hsize]⟩
    | succ n =>
      rw [List.map_cons, extractLoop] at h
      simp only [bind_eq_ok, nsAssert_eq_ok] at h
      obtain ⟨_, hkey, h⟩ := h
      rw [takeFront, if_neg (Nat.succ_ne_zero n)]
      by_cases hwhole : s.elems.length ≤ n + 1
      · rw [if_pos hwhole]
        replace h := (if_pos hwhole).symm.trans h
        dsimp only [entryOf] at h
        rw [wsub_eq (by omega) (by omega), wsub_eq havail.2 (by omega)] at h
        obtain ⟨hle, hout, hb⟩ := ih hrest hhalfRest (by dsimp only; omega) (by omega)
          (by dsimp only; omega) h
        refine ⟨by omega, ?_, ?_⟩
        · rw [hout, Packet.addAtEnd, List.append_assoc]
        · rw [hb]
          dsimp only
          congr 1
          · omega
          · omega
      · rw [if_neg hwhole]
        replace h := (if_neg hwhole).symm.trans h
        dsimp only [entryOf] at h
        cases h
        obtain ⟨left, hleft, hleftStart, hleftElems⟩ : ∃ left : ByteStretch,
            ⟨s.start + (n + 1), s.elems.drop (n + 1)⟩ = left ∧
            left.start = s.start + (n + 1) ∧ left.elems = s.elems.drop (n + 1) :=
          ⟨_, rfl, rfl, rfl⟩
        have hlen : s.stop = s.start + s.elems.length := rfl
        have hfree : ∀ s' ∈ rest, s'.start ≠ left.start := by
          intro s' hmem
          have hle := (hrest.le_of_mem hmem).1
          omega
        have hset := @setEntry_offsets start lo rest left hhalfRest (by omega) hfree
        rw [place_front hrest (by omega)] at hset
        refine ⟨by omega, rfl, ?_⟩
        rw [hleft, Packet.createFragment_rest, add_add, ← hleftElems, ← hleftStart, hset,
          wsub_eq (by omega) (by omega), wsub_eq havail.2 (by omega), hsize]

/-! ## The operations -/

variable {data : List ByteStretch}

/-- The buffer has the data of the reception. -/
structure Represents (start : SequenceNumber32) (r : Reception) (b : TcpRxBuffer) : Prop where
  data : b.data = r.data.map (entryOf start)
  next : b.nextRxSeq = start.add r.next
  size : b.size = heldSize r.data

/-- Everything `Add` compares about a segment `[off, off + len)` lies in half a turn
from `lo` on. -/
structure Compares (lo : Nat) (maxBuffer : Nat) (r : Reception) (off len : Nat) : Prop where
  data : InHalf lo r.data
  next : lo ≤ r.next ∧ r.next < lo + 2 ^ 31
  segment : lo ≤ off ∧ off + len < lo + 2 ^ 31
  edge : ∀ s ∈ r.data.head?, s.start + maxBuffer < lo + 2 ^ 31

variable {r : Reception}

theorem fitWindow_offsets (hdata : b.data = r.data.map (entryOf start)) (hhalf : InHalf lo r.data)
    (hedge : ∀ s ∈ r.data.head?, s.start + b.maxBuffer < lo + 2 ^ 31)
    (hhead : lo ≤ head ∧ head < lo + 2 ^ 31) (htail : lo ≤ tail ∧ tail < lo + 2 ^ 31) :
    b.fitWindow (start.add head) (start.add tail) =
      (start.add (Reception.fit b.maxBuffer r.data head tail).1,
        start.add (Reception.fit b.maxBuffer r.data head tail).2) ∧
      lo ≤ (Reception.fit b.maxBuffer r.data head tail).1 ∧
      (Reception.fit b.maxBuffer r.data head tail).1 < lo + 2 ^ 31 ∧
      lo ≤ (Reception.fit b.maxBuffer r.data head tail).2 ∧
      (Reception.fit b.maxBuffer r.data head tail).2 < lo + 2 ^ 31 := by
  unfold fitWindow
  rw [hdata]
  cases hcase : r.data with
  | nil => exact ⟨rfl, hhead.1, hhead.2, htail.1, htail.2⟩
  | cons first rest =>
    rw [hcase] at hhalf hedge
    obtain ⟨hfirst, _⟩ := inHalf_cons.mp hhalf
    have hlimit := hedge first rfl
    simp only [List.map_cons, entryOf, Reception.fit]
    refine ⟨?_, by omega, by omega, by omega, by omega⟩
    rw [add_add, lt_offsets (by omega) (by omega), ← apply_ite start.add]
    have hmin : (if decide (first.start + b.maxBuffer < tail) = true then first.start + b.maxBuffer
        else tail) = min tail (first.start + b.maxBuffer) := by
      by_cases hlt : first.start + b.maxBuffer < tail
      · rw [if_pos (decide_eq_true hlt)]
        omega
      · rw [if_neg (by simpa using hlt)]
        omega
    rw [hmin, lt_offsets (by omega) (by omega), ← apply_ite start.add]
    congr 2
    by_cases hlt : min tail (first.start + b.maxBuffer) < head
    · rw [if_pos (decide_eq_true hlt)]
      omega
    · rw [if_neg (by simpa using hlt)]
      omega

theorem heldSize_lt_half (hsep : Separate base l) (hhalf : InHalf lo l) : heldSize l < 2 ^ 31 := by
  have hraised : Separate lo l := hsep.raise fun s hmem => (hhalf s hmem).1
  have hstop : ∀ s ∈ l, s.stop ≤ lo + (2 ^ 31 - 1) := by
    intro s hmem
    have hbefore := (hhalf s hmem).2
    omega
  have hle := hraised.heldSize_le (by omega) hstop
  omega

/-- The segment fitted to the window is `[head, tail)`, and what it is compared with
then lies in half a turn from `lo` on. -/
structure Fitted (start : SequenceNumber32) (lo : Nat) (b : TcpRxBuffer) (r : Reception)
    (seq : SequenceNumber32) (len head tail : Nat) : Prop where
  data : InHalf lo r.data
  next : lo ≤ r.next ∧ r.next < lo + 2 ^ 31
  fit : b.fitWindow (if seq.lt b.nextRxSeq then b.nextRxSeq else seq) (seq.add len) =
    (start.add head, start.add tail)
  head : lo ≤ head ∧ head < lo + 2 ^ 31
  tail : lo ≤ tail ∧ tail < lo + 2 ^ 31

def newStretch (start seq : SequenceNumber32) (p : Packet) (head tail : Nat) : ByteStretch :=
  ⟨head, p.createFragment ((start.add head).distance seq) (tail - head)⟩

theorem length_newStretch_le (start seq : SequenceNumber32) (p : Packet) (head tail : Nat) :
    (newStretch start seq p head tail).elems.length ≤ tail - head := by
  rw [newStretch, Packet.length_createFragment]
  exact Nat.min_le_left _ _

variable {p : Packet} {seq : SequenceNumber32} {head₀ tail₀ : Nat}

theorem add_fitted (hrep : Represents start r b) (hsep : Separate base r.data)
    (hfit : Fitted start lo b r seq p.length head₀ tail₀)
    (htrim : trim r.data head₀ tail₀ = (data, head, tail)) :
    b.add p seq =
      if tail ≤ head then
        .ok ({ b with data := data.map (entryOf start), size := heldSize data }, false)
      else (do
        let new := newStretch start seq p head tail
        nsAssert (tail - head = new.elems.length)
        let sackList ←
          if r.next < head then
            updateSackList (start.add r.next) b.sackList (start.add head) (start.add tail)
          else pure b.sackList
        let (nextRxSeq, availBytes, sackList) ←
          scanData ((place new data).map (entryOf start)) (start.add r.next) b.availBytes sackList
        pure ({ b with
          data := (place new data).map (entryOf start)
          size := heldSize (place new data)
          nextRxSeq := if b.gotFin && nextRxSeq = b.finSeq then nextRxSeq.add 1 else nextRxSeq
          availBytes, sackList }, true)) := by
  obtain ⟨hdata, hnext, hsize⟩ := hrep
  obtain ⟨hhalf, hnextHalf, hwindow, hhead₀, htail₀⟩ := hfit
  have hlt31 := heldSize_lt_half hsep hhalf
  have htrims := trims head₀ tail₀ hsep
  have htrimData := @trimData_offsets start lo _ _ r.data (heldSize r.data) hhalf hhead₀ htail₀
    le_rfl (by omega)
  have hends := @trim_ends _ r.data _ _ (fun x => lo ≤ x ∧ x < lo + 2 ^ 31)
    (fun s hmem => by
      have hs := hhalf s hmem
      have hle := start_le_stop s
      exact ⟨by omega, by omega⟩) hhead₀ htail₀
  rw [htrim] at htrims hends
  rw [htrim, Nat.sub_self, Nat.zero_add] at htrimData
  obtain ⟨_, _, hsub, hclear, _⟩ := htrims
  dsimp only at htrimData hends hsub hclear
  unfold add
  dsimp only
  rw [hwindow, hdata, hsize]
  dsimp only
  rw [htrimData]
  dsimp only
  rw [ge_offsets (by omega) (by omega)]
  by_cases hempty : tail ≤ head
  · rw [if_pos hempty, if_pos (decide_eq_true hempty)]
    rfl
  · have hfree : ∀ s ∈ data, s.start ≠ head := by
      intro s hmem heq
      have hpos := (hsep.le_of_mem (hsub.subset hmem)).2
      have hne := hclear s.start ⟨s, hmem, le_rfl, hpos⟩
      omega
    have hfresh : (data.map (entryOf start)).all (fun entry =>
        entry.1.lt (start.add head) || (start.add head).lt entry.1) = true := by
      rw [List.all_map, List.all_eq_true]
      intro s hmem
      have hs := hhalf s (hsub.subset hmem)
      have hle := start_le_stop s
      have hne := hfree s hmem
      simp (disch := omega) only [Function.comp, entryOf, lt_offsets, Bool.or_eq_true,
        decide_eq_true_eq]
      omega
    have hset : setEntry (start.add head)
        (p.createFragment ((start.add head).distance seq) (tail - head))
        (data.map (entryOf start)) =
        (place (newStretch start seq p head tail) data).map (entryOf start) :=
      @setEntry_offsets start lo data (newStretch start seq p head tail)
        (fun s hmem => hhalf s (hsub.subset hmem)) hends.1 hfree
    have hheld := heldSize_sublist hsub
    have hlength := length_newStretch_le start seq p head tail
    have hsum : wadd 32 (heldSize data)
        (p.createFragment ((start.add head).distance seq) (tail - head)).length =
        heldSize (place (newStretch start seq p head tail) data) := by
      rw [heldSize_place, Nat.add_comm]
      exact wadd_eq (by dsimp only [newStretch] at hlength; omega)
    rw [if_neg hempty, if_neg (by simpa using hempty), distance_offsets (by omega) (by omega),
      hfresh, hnext, gt_offsets (by omega) (by omega), hset, hsum]
    simp only [decide_eq_true_eq]
    rfl

theorem Compares.fitted {off len : Nat} (hrep : Represents start r b)
    (h : Compares lo b.maxBuffer r off len) :
    Fitted start lo b r (start.add off) len
      (Reception.fit b.maxBuffer r.data (max off r.next) (off + len)).1
      (Reception.fit b.maxBuffer r.data (max off r.next) (off + len)).2 := by
  obtain ⟨hhalf, hnext, hseg, hedge⟩ := h
  -- the head is moved up to `m_nextRxSeq`
  have hhead : (if (start.add off).lt b.nextRxSeq then b.nextRxSeq else start.add off) =
      start.add (max off r.next) := by
    rw [hrep.next, lt_offsets (by omega) (by omega), ← apply_ite start.add]
    congr 1
    by_cases hlt : off < r.next
    · rw [if_pos (decide_eq_true hlt)]
      omega
    · rw [if_neg (by simpa using hlt)]
      omega
  obtain ⟨hfit, hhead₀, hhead₁, htail₀, htail₁⟩ := @fitWindow_offsets start lo (max off r.next)
    (off + len) b r hrep.data hhalf hedge (by omega) (by omega)
  refine ⟨hhalf, hnext, ?_, ⟨hhead₀, hhead₁⟩, ⟨htail₀, htail₁⟩⟩
  rw [hhead, add_add]
  exact hfit

theorem add_offsets {off : Nat} (hrep : Represents start r b) (hsep : Separate base r.data)
    (hcmp : Compares lo b.maxBuffer r off p.length)
    (hcut : r.cut b.maxBuffer off p.length = (data, head, tail)) :
    b.add p (start.add off) =
      if tail ≤ head then
        .ok ({ b with data := data.map (entryOf start), size := heldSize data }, false)
      else (do
        let data := place (Reception.stored p off head tail) data
        let sackList ←
          if r.next < head then
            updateSackList (start.add r.next) b.sackList (start.add head) (start.add tail)
          else pure b.sackList
        let (nextRxSeq, availBytes, sackList) ←
          scanData (data.map (entryOf start)) (start.add r.next) b.availBytes sackList
        pure ({ b with
          data := data.map (entryOf start)
          size := heldSize data
          nextRxSeq := if b.gotFin && nextRxSeq = b.finSeq then nextRxSeq.add 1 else nextRxSeq
          availBytes, sackList }, true)) := by
  have hcuts := Reception.cuts b.maxBuffer off p.length hsep
  rw [hcut] at hcuts
  obtain ⟨_, _, _, heq, _, _, _, hinside⟩ := hcuts
  cases heq
  rw [add_fitted hrep hsep (hcmp.fitted hrep) hcut]
  by_cases hempty : tail ≤ head
  · rw [if_pos hempty, if_pos hempty]
  · have hin := hinside (by omega)
    have hsegment := hcmp.segment
    have hnew : newStretch start (start.add off) p head tail =
        Reception.stored p off head tail := by
      rw [newStretch, distance_offsets (by omega) (by omega)]
      rfl
    have hlength : tail - head = (Reception.stored p off head tail).elems.length := by
      rw [Reception.stored, Packet.length_createFragment]
      omega
    rw [if_neg hempty, if_neg hempty, hnew]
    dsimp only
    rw [nsAssert, if_pos (decide_eq_true hlength)]
    rfl

def passFinIf (b : TcpRxBuffer) (start : SequenceNumber32) (r : Reception) : Reception :=
  if b.gotFin && start.add r.next = b.finSeq then r.passFin else r

section

variable (b : TcpRxBuffer) (start : SequenceNumber32) (r : Reception)

@[simp] theorem passFinIf_data : (passFinIf b start r).data = r.data := by
  unfold passFinIf
  split <;> rfl

theorem passFinIf_next_le :
    r.next ≤ (passFinIf b start r).next ∧
      (passFinIf b start r).next ≤ r.next + if b.gotFin then 1 else 0 := by
  unfold passFinIf
  split
  · rename_i hfin
    rw [Bool.and_eq_true] at hfin
    rw [if_pos hfin.1]
    exact ⟨Nat.le_succ _, le_rfl⟩
  · exact ⟨le_rfl, Nat.le_add_right _ _⟩

theorem add_passFinIf_next :
    start.add (passFinIf b start r).next =
      if b.gotFin && start.add r.next = b.finSeq then (start.add r.next).add 1
      else start.add r.next := by
  unfold passFinIf
  split
  · exact (add_add _ _ _).symm
  · rfl

end

theorem add_fitted_ok {result : Bool} (hrep : Represents start r b) (hsep : Separate base r.data)
    (hfit : Fitted start lo b r seq p.length head₀ tail₀)
    (htrim : trim r.data head₀ tail₀ = (data, head, tail)) (havail : b.availBytes < 2 ^ 32)
    (h : b.add p seq = .ok (b', result)) :
    (b'.gotFin = b.gotFin ∧ b'.finSeq = b.finSeq ∧ b'.maxBuffer = b.maxBuffer) ∧
    ((tail ≤ head ∧ result = false ∧ Represents start { r with data } b' ∧
        b'.availBytes = b.availBytes) ∨
      (head < tail ∧ result = true ∧
        (newStretch start seq p head tail).elems.length = tail - head ∧
        Represents start (passFinIf b start (r.accept data (newStretch start seq p head tail))) b' ∧
        b'.availBytes = (b.availBytes +
          ((r.accept data (newStretch start seq p head tail)).next - r.next)) % 2 ^ 32)) := by
  rw [add_fitted hrep hsep hfit htrim] at h
  by_cases hempty : tail ≤ head
  · rw [if_pos hempty] at h
    cases h
    exact ⟨⟨rfl, rfl, rfl⟩, .inl ⟨hempty, rfl, ⟨rfl, hrep.next, rfl⟩, rfl⟩⟩
  · rw [if_neg hempty] at h
    have htrims := trims head₀ tail₀ hsep
    have hends := @trim_ends _ r.data _ _ (fun x => lo ≤ x ∧ x < lo + 2 ^ 31)
      (fun s hmem => by
        have hs := hfit.data s hmem
        have hle := start_le_stop s
        exact ⟨by omega, by omega⟩) hfit.head hfit.tail
    rw [htrim] at htrims hends
    dsimp only at hends
    have hlength := length_newStretch_le start seq p head tail
    have hplace : InHalf lo (place (newStretch start seq p head tail) data) := by
      intro s hmem
      rcases mem_place.mp hmem with rfl | hin
      · refine ⟨hends.1.1, ?_⟩
        have hstop : (newStretch start seq p head tail).stop =
            head + (newStretch start seq p head tail).elems.length := rfl
        rw [hstop]
        omega
      · exact hfit.data s (htrims.sublist.subset hin)
    dsimp only at h
    obtain ⟨_, hassert, h⟩ := bind_eq_ok.mp h
    have hequal := of_decide_eq_true (nsAssert_eq_ok.mp hassert)
    have hscan : ∃ sackList found, scanData
        ((place (newStretch start seq p head tail) data).map (entryOf start))
        (start.add r.next) b.availBytes sackList = .ok found ∧
        { b with
          data := (place (newStretch start seq p head tail) data).map (entryOf start)
          size := heldSize (place (newStretch start seq p head tail) data)
          nextRxSeq := if b.gotFin && found.1 = b.finSeq then found.1.add 1 else found.1
          availBytes := found.2.1
          sackList := found.2.2 } = b' ∧ true = result := by
      split at h
      · simp only [bind_eq_ok, pure_eq_ok, Prod.mk.injEq] at h
        obtain ⟨sackList, _, found, hscan, hb, hresult⟩ := h
        exact ⟨sackList, found, hscan, hb, hresult⟩
      · simp only [bind_eq_ok, pure_eq_ok, Prod.mk.injEq] at h
        obtain ⟨sackList, _, found, hscan, hb, hresult⟩ := h
        exact ⟨sackList, found, hscan, hb, hresult⟩
    obtain ⟨sackList, found, hscan, rfl, rfl⟩ := hscan
    obtain ⟨hnextRx, havail'⟩ := scanData_ok hplace hfit.next havail hscan
    refine ⟨⟨rfl, rfl, rfl⟩, .inr ⟨by omega, rfl, hequal.symm, ⟨?_, ?_, ?_⟩, havail'⟩⟩
    · rw [passFinIf_data]
      rfl
    · dsimp only
      rw [add_passFinIf_next, hnextRx]
      rfl
    · rw [passFinIf_data]
      rfl

theorem add_ok {off : Nat} {result : Bool} (hrep : Represents start r b)
    (hsep : Separate base r.data) (hcmp : Compares lo b.maxBuffer r off p.length)
    (havail : b.availBytes < 2 ^ 32) (h : b.add p (start.add off) = .ok (b', result)) :
    result = (r.add b.maxBuffer p off).2 ∧
      Represents start (if result then passFinIf b start (r.add b.maxBuffer p off).1
        else (r.add b.maxBuffer p off).1) b' ∧
      b'.availBytes = (b.availBytes + ((r.add b.maxBuffer p off).1.next - r.next)) % 2 ^ 32 ∧
      b'.gotFin = b.gotFin ∧ b'.finSeq = b.finSeq ∧ b'.maxBuffer = b.maxBuffer := by
  obtain ⟨data, head, tail, hcut, hcuts⟩ := Reception.cuts b.maxBuffer off p.length hsep
  obtain ⟨hfields, hcases⟩ := add_fitted_ok hrep hsep (hcmp.fitted hrep) hcut havail h
  unfold Reception.add
  rw [hcut]
  dsimp only
  rcases hcases with ⟨hempty, rfl, hrep', havail'⟩ | ⟨hlt, rfl, _, hrep', havail'⟩
  · rw [if_pos hempty]
    refine ⟨rfl, hrep', ?_, hfields⟩
    rw [havail', Nat.sub_self, Nat.add_zero, Nat.mod_eq_of_lt havail]
  · have hin := hcuts.inside hlt
    have hsegment := hcmp.segment
    have hnew : newStretch start (start.add off) p head tail =
        Reception.stored p off head tail := by
      rw [newStretch, distance_offsets (by omega) (by omega)]
      rfl
    rw [hnew] at hrep' havail'
    rw [if_neg (by omega), if_pos rfl]
    exact ⟨rfl, hrep', havail', hfields⟩

theorem extract_ok {maxSize : Nat} {out : Option Packet} (hrep : Represents start r b)
    (havail : b.availBytes = r.avail) (hsep : Separate base r.data) (hhalf : InHalf lo r.data)
    (hlt : b.availBytes < 2 ^ 32) (h : b.extract maxSize = .ok (b', out)) :
    out = (r.extract maxSize).2 ∧ min maxSize r.avail ≤ heldSize r.data ∧
      Represents start (r.extract maxSize).1 b' ∧
      b'.availBytes = (r.extract maxSize).1.avail ∧
      b'.gotFin = b.gotFin ∧ b'.finSeq = b.finSeq ∧ b'.maxBuffer = b.maxBuffer ∧
      b'.sackList = b.sackList := by
  obtain ⟨hdata, hnext, hsize⟩ := hrep
  have hlt31 := heldSize_lt_half hsep hhalf
  unfold extract at h
  dsimp only at h
  rw [havail] at h
  unfold Reception.extract
  dsimp only
  split at h
  · rename_i hzero
    cases h
    rw [if_pos hzero]
    exact ⟨rfl, by omega, ⟨hdata, hnext, hsize⟩, havail, rfl, rfl, rfl, rfl⟩
  · rename_i hpos
    rw [if_neg hpos]
    simp only [bind_eq_ok, nsAssert_eq_ok, pure_eq_ok, Prod.mk.injEq] at h
    obtain ⟨_, _, ⟨left, taken⟩, hloop, rfl, rfl⟩ := h
    rw [hdata] at hloop
    obtain ⟨hle, htaken, rfl⟩ := extractLoop_ok hsep hhalf hsize (by omega) (by omega) hloop
    obtain ⟨hlen, _, _, hleft⟩ := takeFront_shape hsep hle
    have hne : ¬taken.length = 0 := by
      rw [htaken, List.nil_append, hlen]
      exact hpos
    rw [if_neg hne]
    refine ⟨congrArg some htaken, hle, ⟨rfl, hnext, ?_⟩, ?_, rfl, rfl, rfl, rfl⟩
    · dsimp only
      omega
    · dsimp only
      rw [havail]

theorem setFinSequence_ok (s : SequenceNumber32) (hrep : Represents start r b) :
    Represents start (if start.add r.next = s then r.passFin else r) (b.setFinSequence s) := by
  obtain ⟨hdata, hnext, hsize⟩ := hrep
  unfold setFinSequence
  rw [hnext]
  split
  · exact ⟨hdata, add_add _ _ _, hsize⟩
  · exact ⟨hdata, rfl, hsize⟩

end TcpRxBuffer

end Ns3.Tcp
