/-
  The neighbor set mirrors the link set.

  The invariant carries the deadlines along: a link that is symmetric has a timer that goes off
  when its symmetric time has passed, and a neighbor that is held to be symmetric has a link of
  which that is still so.  A step keeps it unless it removes one of several links to a neighbor,
  misses the loss of a neighbor, or moves a symmetric time before the link's timer.
-/
import Mathlib.Tactic.Linarith
import Mathlib.Tactic.NormNum
import Ns3.Olsr.LinkSensing

namespace Ns3

namespace Olsr

open Lib

variable {s s' s₁ s₂ : OlsrState} {tuple l : LinkTuple} {nb : NeighborTuple}
  {mainAddr a : Ipv4Address} {now now' : Time} {timers timers' : List (Time × Ipv4Address)}
  {willingness : Willingness} {msg : HelloMessage} {receiverIface senderIface : Ipv4Address}

/-! ## What is to hold, and when it does -/

variable {n : SensingNode}

/-- The neighbor set mirrors the link set: there is one tuple for each main address of a link, and
one that is symmetric has a link that was so at most two microseconds ago. -/
def Mirrors (n : SensingNode) : Prop :=
  (∀ a, (∃ nb ∈ n.state.neighborSet, nb.neighborMainAddr = a) ↔
    ∃ l ∈ n.state.linkSet, n.state.getMainAddress l.neighborIfaceAddr = a) ∧
  (n.state.neighborSet.map NeighborTuple.neighborMainAddr).Nodup ∧
  ∀ nb ∈ n.state.neighborSet, nb.status = .sym →
    ∃ l ∈ n.state.linkSet, n.state.getMainAddress l.neighborIfaceAddr = nb.neighborMainAddr ∧
      n.now - 2 * microsecond ≤ l.symTime

def listing (iface : Ipv4Address) (ms : List HelloLinkMessage) : Option LinkType :=
  (ms.filter fun m => m.valid ∧ iface ∈ m.neighborInterfaceAddresses).getLast?.map
    fun m => LinkType.ofCode m.linkCode

def HelloMessage.listedAs (msg : HelloMessage) (iface : Ipv4Address) : Option LinkType :=
  listing iface msg.linkMessages

/-- What is asked of an event: a HELLO that lists the receiver's interface is valid until the link's
timer; a link whose time has passed is the only one to its neighbor; and the loss that is skipped
leaves no neighbor symmetric without a symmetric link. -/
def Regular (n : SensingNode) (e : SensingEvent × Time) : Prop :=
  match e with
  | (.hello msg receiverIface senderIface, now) =>
    (n.state.findLinkTuple senderIface).isSome →
    msg.listedAs receiverIface = some .symLink ∨ msg.listedAs receiverIface = some .asymLink →
      ∃ p ∈ n.timers, p.2 = senderIface ∧ p.1 ≤ now + msg.vTime + microsecond
  | (.timer place, now) =>
    ∀ a tuple, n.timers[place]? = some (now, a) → n.state.findLinkTuple a = some tuple →
      (tuple.time < now → ∀ l ∈ n.state.linkSet, l.neighborIfaceAddr ≠ a →
        n.state.getMainAddress l.neighborIfaceAddr ≠ n.state.getMainAddress a) ∧
      (now ≤ tuple.time → tuple.symTime < now → n.linkTupleTimerFirstTime →
        ∀ nb ∈ n.state.neighborSet, nb.neighborMainAddr = n.state.getMainAddress a →
          nb.status = .sym → ∃ l ∈ n.state.linkSet,
            n.state.getMainAddress l.neighborIfaceAddr = n.state.getMainAddress a ∧
            now ≤ l.symTime)
  | (.other, _) => True

/-- A timer of the link goes off when its symmetric time has passed. -/
def Due (timers : List (Time × Ipv4Address)) (l : LinkTuple) : Prop :=
  ∃ p ∈ timers, p.2 = l.neighborIfaceAddr ∧ p.1 ≤ l.symTime + microsecond

/-- The neighbor set mirrors the link set, and every link has its timer. -/
structure Sensed (s : OlsrState) (timers : List (Time × Ipv4Address)) (now : Time) : Prop where
  nodup : (s.linkSet.map LinkTuple.neighborIfaceAddr).Nodup
  unique : (s.neighborSet.map NeighborTuple.neighborMainAddr).Nodup
  mirror : ∀ a, (∃ nb ∈ s.neighborSet, nb.neighborMainAddr = a) ↔
    ∃ l ∈ s.linkSet, s.getMainAddress l.neighborIfaceAddr = a
  deadline : ∀ l ∈ s.linkSet, now ≤ l.symTime → Due timers l
  guarded : ∀ nb ∈ s.neighborSet, nb.status = .sym →
    ∃ l ∈ s.linkSet, s.getMainAddress l.neighborIfaceAddr = nb.neighborMainAddr ∧ Due timers l
  pending : ∀ p ∈ timers, now ≤ p.1

theorem microsecond_pos : 0 < microsecond := by
  show (0 : Int) < 10 ^ 3
  norm_num

theorem Sensed.mirrors (h : Sensed n.state n.timers n.now) : Mirrors n := by
  refine ⟨h.mirror, h.unique, fun nb hnb hsym => ?_⟩
  obtain ⟨l, hl, hmain, p, hp, -, hle⟩ := h.guarded nb hnb hsym
  have hpending := h.pending p hp
  have hpos := microsecond_pos
  exact ⟨l, hl, hmain, by linarith⟩

theorem Sensed.advance (h : Sensed s timers now) (hle : now ≤ now')
    (hpending : ∀ p ∈ timers, now' ≤ p.1) : Sensed s timers now' :=
  { nodup := h.nodup
    unique := h.unique
    mirror := h.mirror
    deadline := fun l hl hsym => h.deadline l hl (hle.trans hsym)
    guarded := h.guarded
    pending := hpending }

theorem SameLinks.getMainAddress (h : SameLinks s s') (a : Ipv4Address) :
    s'.getMainAddress a = s.getMainAddress a := by
  rw [OlsrState.getMainAddress, OlsrState.getMainAddress, h.2.2]

theorem Sensed.same (h : Sensed s timers now) (hsame : SameLinks s s') :
    Sensed s' timers now := by
  have hlinks := hsame.1
  have hneighbors := hsame.2.1
  refine ⟨?_, ?_, ?_, ?_, ?_, h.pending⟩
  · rw [hlinks]
    exact h.nodup
  · rw [hneighbors]
    exact h.unique
  · intro a
    simp only [hlinks, hneighbors, hsame.getMainAddress]
    exact h.mirror a
  · rw [hlinks]
    exact h.deadline
  · rw [hlinks, hneighbors]
    simp only [hsame.getMainAddress]
    exact h.guarded

/-! ## The neighbor tuples -/

theorem mem_insertNeighborTuple (hunique : (s.neighborSet.map NeighborTuple.neighborMainAddr).Nodup)
    {nb' : NeighborTuple} :
    nb' ∈ (s.insertNeighborTuple nb).neighborSet ↔
      nb' = nb ∨ (nb' ∈ s.neighborSet ∧ nb'.neighborMainAddr ≠ nb.neighborMainAddr) :=
  Keyed.mem_put hunique

/-- The neighbor tuple of a main address has been computed from the links. -/
structure Recomputed (s s' : OlsrState) (mainAddr : Ipv4Address) (now : Time) : Prop where
  linkSet : s'.linkSet = s.linkSet
  ifaceAssocSet : s'.ifaceAssocSet = s.ifaceAssocSet
  unique : (s'.neighborSet.map NeighborTuple.neighborMainAddr).Nodup
  addr : ∃ nb ∈ s'.neighborSet, nb.neighborMainAddr = mainAddr
  others : ∀ nb, nb.neighborMainAddr ≠ mainAddr →
    (nb ∈ s'.neighborSet ↔ nb ∈ s.neighborSet)
  sym : ∀ nb ∈ s'.neighborSet, nb.neighborMainAddr = mainAddr → nb.status = .sym →
    ∃ l ∈ s.linkSet, s.getMainAddress l.neighborIfaceAddr = mainAddr ∧ now ≤ l.symTime

theorem Recomputed.getMainAddress (h : Recomputed s s' mainAddr now) (a : Ipv4Address) :
    s'.getMainAddress a = s.getMainAddress a := by
  rw [OlsrState.getMainAddress, OlsrState.getMainAddress, h.ifaceAssocSet]

theorem Recomputed.trans (h : Recomputed s s₁ mainAddr now) (h₁ : Recomputed s₁ s₂ mainAddr now) :
    Recomputed s s₂ mainAddr now := by
  refine ⟨h₁.linkSet.trans h.linkSet, h₁.ifaceAssocSet.trans h.ifaceAssocSet, h₁.unique,
    h₁.addr, fun nb hne => (h₁.others nb hne).trans (h.others nb hne), fun nb hnb haddr hsym => ?_⟩
  have hlink := h₁.sym nb hnb haddr hsym
  simp only [h.linkSet, h.getMainAddress] at hlink
  exact hlink

theorem recomputed_insert (hunique : (s.neighborSet.map NeighborTuple.neighborMainAddr).Nodup)
    (haddr : nb.neighborMainAddr = mainAddr)
    (hsym : nb.status = .sym →
      ∃ l ∈ s.linkSet, s.getMainAddress l.neighborIfaceAddr = mainAddr ∧ now ≤ l.symTime) :
    Recomputed s (s.insertNeighborTuple nb) mainAddr now := by
  refine ⟨rfl, rfl, Keyed.nodup_put hunique,
    ⟨nb, (mem_insertNeighborTuple hunique).mpr (.inl rfl), haddr⟩, fun nb' hne => ?_,
    fun nb' hnb' haddr' hstatus => ?_⟩
  · rw [mem_insertNeighborTuple hunique, haddr]
    constructor
    · rintro (rfl | ⟨hmem, -⟩)
      · exact absurd haddr hne
      · exact hmem
    · exact fun hmem => .inr ⟨hmem, hne⟩
  · rcases (mem_insertNeighborTuple hunique).mp hnb' with rfl | ⟨-, hne⟩
    · exact hsym hstatus
    · exact absurd (haddr'.trans haddr.symm) hne

section

variable (htuple : tuple ∈ s.linkSet)
  (hunique : (s.neighborSet.map NeighborTuple.neighborMainAddr).Nodup)

include htuple hunique

theorem linkTupleAdded_recomputed :
    Recomputed s (s.linkTupleAdded tuple willingness now)
      (s.getMainAddress tuple.neighborIfaceAddr) now := by
  refine recomputed_insert hunique rfl fun hsym => ⟨tuple, htuple, rfl, ?_⟩
  by_contra hlt
  rw [if_neg hlt] at hsym
  cases hsym

theorem linkTupleUpdated_recomputed :
    Recomputed s (s.linkTupleUpdated tuple willingness now)
      (s.getMainAddress tuple.neighborIfaceAddr) now := by
  -- once the tuple is there, it is computed from the links
  have hsym {u : OlsrState} {nb : NeighborTuple}
      (hnb : nb.neighborMainAddr = s.getMainAddress tuple.neighborIfaceAddr)
      (hstatus : (if u.linkSet.any (fun it => u.getMainAddress it.neighborIfaceAddr =
        nb.neighborMainAddr ∧ it.symTime ≥ now) then Status.sym else .notSym) = .sym) :
      ∃ l ∈ u.linkSet, u.getMainAddress l.neighborIfaceAddr =
        s.getMainAddress tuple.neighborIfaceAddr ∧ now ≤ l.symTime := by
    split at hstatus
    · next hany =>
        obtain ⟨it, hit, hmatch⟩ := List.any_eq_true.mp hany
        obtain ⟨hmain, hsymTime⟩ := of_decide_eq_true hmatch
        exact ⟨it, hit, hmain.trans hnb, hsymTime⟩
    · cases hstatus
  have haddr {u : OlsrState} {nb : NeighborTuple} {a : Ipv4Address}
      (hfind : u.findNeighborTuple a = some nb) : nb.neighborMainAddr = a := by
    rw [OlsrState.findNeighborTuple] at hfind
    simpa using List.find?_some hfind
  rw [OlsrState.linkTupleUpdated]
  cases hfind : s.findNeighborTuple (s.getMainAddress tuple.neighborIfaceAddr) with
  | some nb =>
    simp only [hfind]
    have hnb := haddr hfind
    exact recomputed_insert hunique hnb (hsym hnb)
  | none =>
    have hadded := @linkTupleAdded_recomputed s tuple now willingness htuple hunique
    cases hagain : (s.linkTupleAdded tuple willingness now).findNeighborTuple
        (s.getMainAddress tuple.neighborIfaceAddr) with
    | none =>
      obtain ⟨nb, hnb, heq⟩ := hadded.addr
      rw [OlsrState.findNeighborTuple] at hagain
      exact absurd heq (Keyed.find?_eq_none.mp hagain nb hnb)
    | some nb =>
      have hnb := haddr hagain
      refine hadded.trans (recomputed_insert hadded.unique hnb fun hstatus => ?_)
      exact hsym hnb hstatus

theorem neighborLoss_recomputed :
    Recomputed s (s.neighborLoss tuple now) (s.getMainAddress tuple.neighborIfaceAddr) now := by
  have hupdated := @linkTupleUpdated_recomputed s tuple now .DEFAULT htuple hunique
  exact ⟨hupdated.linkSet, hupdated.ifaceAssocSet, hupdated.unique, hupdated.addr,
    hupdated.others, hupdated.sym⟩

end

theorem Sensed.recomputed (h : Sensed s timers now) (hrec : Recomputed s₁ s₂ mainAddr now)
    (hneighbors : s₁.neighborSet = s.neighborSet) (hassoc : s₁.ifaceAssocSet = s.ifaceAssocSet)
    (hnodup : (s₁.linkSet.map LinkTuple.neighborIfaceAddr).Nodup)
    (hlinks : ∀ l, s.getMainAddress l.neighborIfaceAddr ≠ mainAddr →
      (l ∈ s₁.linkSet ↔ l ∈ s.linkSet))
    (hsome : ∃ l ∈ s₁.linkSet, s.getMainAddress l.neighborIfaceAddr = mainAddr)
    (hdeadline : ∀ l ∈ s₁.linkSet, now ≤ l.symTime → Due timers' l)
    (hdue : ∀ l ∈ s.linkSet, s.getMainAddress l.neighborIfaceAddr ≠ mainAddr → Due timers l →
      Due timers' l)
    (hpending : ∀ p ∈ timers', now ≤ p.1) : Sensed s₂ timers' now := by
  have hmain (a : Ipv4Address) : s₁.getMainAddress a = s.getMainAddress a := by
    rw [OlsrState.getMainAddress, OlsrState.getMainAddress, hassoc]
  have hmain' (a : Ipv4Address) : s₂.getMainAddress a = s.getMainAddress a :=
    (hrec.getMainAddress a).trans (hmain a)
  have hothers (nb : NeighborTuple) (hne : nb.neighborMainAddr ≠ mainAddr) :
      nb ∈ s₂.neighborSet ↔ nb ∈ s.neighborSet := by
    rw [hrec.others nb hne, hneighbors]
  refine ⟨by rw [hrec.linkSet]; exact hnodup, hrec.unique, fun a => ?_, ?_,
    fun nb hnb hsym => ?_, hpending⟩
  · simp only [hrec.linkSet, hmain']
    by_cases ha : a = mainAddr
    · subst ha
      exact iff_of_true hrec.addr hsome
    · have hiff := h.mirror a
      constructor
      · rintro ⟨nb, hnb, rfl⟩
        obtain ⟨l, hl, hla⟩ := hiff.mp ⟨nb, (hothers nb ha).mp hnb, rfl⟩
        exact ⟨l, (hlinks l (hla ▸ ha)).mpr hl, hla⟩
      · rintro ⟨l, hl, rfl⟩
        obtain ⟨nb, hnb, hnba⟩ := hiff.mpr ⟨l, (hlinks l ha).mp hl, rfl⟩
        exact ⟨nb, (hothers nb (hnba ▸ ha)).mpr hnb, hnba⟩
  · rw [hrec.linkSet]
    exact hdeadline
  · simp only [hrec.linkSet, hmain']
    by_cases ha : nb.neighborMainAddr = mainAddr
    · obtain ⟨l, hl, hla, hle⟩ := hrec.sym nb hnb ha hsym
      rw [hmain] at hla
      exact ⟨l, hl, hla.trans ha.symm, hdeadline l hl hle⟩
    · obtain ⟨l, hl, hla, hlinkDue⟩ := h.guarded nb ((hothers nb ha).mp hnb) hsym
      exact ⟨l, (hlinks l (hla ▸ ha)).mpr hl, hla, hdue l hl (hla ▸ ha) hlinkDue⟩

theorem Sensed.populate (h : Sensed s timers now) :
    Sensed (s.populateNeighborSet msg) timers now := by
  rw [OlsrState.populateNeighborSet]
  cases hfind : s.findNeighborTuple msg.originator with
  | none => exact h
  | some nb =>
    obtain ⟨hnb, -⟩ := (Keyed.find?_eq_some h.unique).mp hfind
    refine ⟨h.nodup, Keyed.nodup_put h.unique, fun a => ?_, h.deadline,
      fun nb' hnb' hsym => ?_, h.pending⟩
    · refine Iff.trans ?_ (h.mirror a)
      constructor
      · rintro ⟨nb', hnb', ha⟩
        rcases (mem_insertNeighborTuple h.unique).mp hnb' with rfl | ⟨hmem, -⟩
        · exact ⟨nb, hnb, ha⟩
        · exact ⟨nb', hmem, ha⟩
      · rintro ⟨nb', hnb', ha⟩
        by_cases hsame : nb'.neighborMainAddr = nb.neighborMainAddr
        · exact ⟨_, (mem_insertNeighborTuple h.unique).mpr (.inl rfl), hsame.symm.trans ha⟩
        · exact ⟨nb', (mem_insertNeighborTuple h.unique).mpr (.inr ⟨hnb', hsame⟩), ha⟩
    · rcases (mem_insertNeighborTuple h.unique).mp hnb' with rfl | ⟨hmem, -⟩
      · exact h.guarded nb hnb hsym
      · exact h.guarded nb' hmem hsym

/-! ## A HELLO -/

variable {scheduled : List (Time × Ipv4Address)}

/-- The symmetric time after link messages that list the receiver's interface in a way. -/
def Listed (vTime now : Time) (listed : Option LinkType) (before after : Time) : Prop :=
  match listed with
  | none => after = before
  | some .lostLink => after = now - second
  | some .unspecLink => False
  | some _ => after = now + vTime

theorem sense_ok {vTime holdTime : Time} {ms : List HelloLinkMessage} {first last : LinkTuple}
    {before after : Bool}
    (h : ms.foldlM (senseLinkMessage vTime holdTime receiverIface now) (first, before) =
      .ok (last, after)) :
    last.neighborIfaceAddr = first.neighborIfaceAddr ∧ (before = true → after = true) ∧
      Listed vTime now (listing receiverIface ms) first.symTime last.symTime := by
  induction ms using List.reverseRecOn generalizing last after with
  | nil =>
    cases h
    exact ⟨rfl, id, rfl⟩
  | append_singleton ms m ih =>
    rw [List.foldlM_append] at h
    obtain ⟨⟨tuple, updated⟩, hprev, hlast⟩ := bind_eq_ok.mp h
    rw [List.foldlM_cons] at hlast
    obtain ⟨r, hr, rfl⟩ := bind_pure_eq_ok.mp hlast
    obtain ⟨hiface, hupdated, hsym⟩ := ih hprev
    rw [listing, List.filter_append]
    rw [senseLinkMessage] at hr
    split at hr
    · next hmatch =>
        have hone : [m].filter (fun m => decide (m.valid ∧
            receiverIface ∈ m.neighborInterfaceAddresses)) = [m] :=
          List.filter_cons_of_pos (decide_eq_true hmatch)
        rw [hone, List.getLast?_concat, Option.map_some]
        cases hcode : LinkType.ofCode m.linkCode with
        | unspecLink =>
          rw [hcode] at hr
          cases hr
        | asymLink =>
          rw [hcode] at hr
          cases hr
          exact ⟨hiface, fun _ => rfl, rfl⟩
        | symLink =>
          rw [hcode] at hr
          cases hr
          exact ⟨hiface, fun _ => rfl, rfl⟩
        | lostLink =>
          rw [hcode] at hr
          cases hr
          exact ⟨hiface, fun _ => rfl, rfl⟩
    · next hmatch =>
        have hone : [m].filter (fun m => decide (m.valid ∧
            receiverIface ∈ m.neighborInterfaceAddresses)) = [] :=
          List.filter_cons_of_neg (by simpa using hmatch)
        cases hr
        rw [hone, List.append_nil]
        exact ⟨hiface, hupdated, hsym⟩

theorem le_delayed (time now : Time) : now ≤ delayed time now := by
  have hpos := microsecond_pos
  rw [delayed]
  split
  · linarith
  · linarith

theorem delayed_le {time symTime : Time} (hsym : now ≤ symTime) :
    delayed (min time symTime) now ≤ symTime + microsecond := by
  have hmin := min_le_right time symTime
  rw [delayed]
  split
  · linarith
  · linarith

theorem Due.append (h : Due timers l) (scheduled : List (Time × Ipv4Address)) :
    Due (timers ++ scheduled) l := by
  obtain ⟨p, hp, hiface, hle⟩ := h
  exact ⟨p, List.mem_append_left _ hp, hiface, hle⟩

theorem mem_writeLinkTuple : tuple ∈ (s.writeLinkTuple tuple).linkSet := Keyed.mem_put_self

theorem Sensed.put (h : Sensed s timers now) (tuple : LinkTuple)
    (hdue : now ≤ tuple.symTime → Due (timers ++ scheduled) tuple)
    (hpending : ∀ p ∈ scheduled, now ≤ p.1)
    (hrec : Recomputed (s.writeLinkTuple tuple) s₂ (s.getMainAddress tuple.neighborIfaceAddr) now) :
    Sensed s₂ (timers ++ scheduled) now := by
  refine h.recomputed hrec rfl rfl (Keyed.nodup_put h.nodup) (fun l hne => ?_) ?_ ?_ ?_ ?_
  · refine (Keyed.mem_put h.nodup).trans ?_
    constructor
    · rintro (rfl | ⟨hl, -⟩)
      · exact absurd rfl hne
      · exact hl
    · exact fun hl => .inr ⟨hl, fun heq => hne (congrArg s.getMainAddress heq)⟩
  · exact ⟨tuple, mem_writeLinkTuple, rfl⟩
  · intro l hl hsym
    rcases (Keyed.mem_put h.nodup).mp hl with rfl | ⟨hl, -⟩
    · exact hdue hsym
    · exact (h.deadline l hl hsym).append scheduled
  · exact fun l _ _ hlink => hlink.append scheduled
  · intro p hp
    rcases List.mem_append.mp hp with hp | hp
    · exact h.pending p hp
    · exact hpending p hp

variable {helloInterval : Time}

theorem Sensed.linkSensing (h : Sensed s timers now)
    (hsense : linkSensing s helloInterval msg receiverIface senderIface now = .ok (s', scheduled))
    (hregular : (s.findLinkTuple senderIface).isSome →
      msg.listedAs receiverIface = some .symLink ∨ msg.listedAs receiverIface = some .asymLink →
        ∃ p ∈ timers, p.2 = senderIface ∧ p.1 ≤ now + msg.vTime + microsecond) :
    Sensed s' (timers ++ scheduled) now := by
  rw [Olsr.linkSensing] at hsense
  obtain ⟨-, -, hsense⟩ := bind_eq_ok.mp hsense
  obtain ⟨⟨last, updated⟩, hfold, hsense⟩ := bind_eq_ok.mp hsense
  cases hfind : s.findLinkTuple senderIface with
  | some old =>
    obtain ⟨hold, hiface⟩ := (Keyed.find?_eq_some h.nodup).mp hfind
    rw [linkTupleFor, hfind] at hfold
    rw [hfind] at hsense hregular
    obtain ⟨hlast, hupdated, hsym⟩ := sense_ok hfold
    rw [hupdated rfl] at hsense
    cases hsense
    have hlast' : last.neighborIfaceAddr = senderIface := hlast.trans hiface
    refine h.put { last with time := max last.time last.asymTime } ?_ nofun ?_
    · intro hle
      rw [List.append_nil]
      change now ≤ last.symTime at hle
      change Listed msg.vTime now (msg.listedAs receiverIface) old.symTime last.symTime at hsym
      cases hlisted : msg.listedAs receiverIface with
      | none =>
        rw [hlisted] at hsym
        change last.symTime = old.symTime at hsym
        obtain ⟨p, hp, hpiface, hple⟩ := h.deadline old hold (hsym ▸ hle)
        exact ⟨p, hp, hpiface.trans hlast.symm, hsym ▸ hple⟩
      | some linkType =>
        rw [hlisted] at hsym hregular
        have hvalid (htype : some linkType = some LinkType.symLink ∨
            some linkType = some LinkType.asymLink) (heq : last.symTime = now + msg.vTime) :
            Due timers { last with time := max last.time last.asymTime } := by
          obtain ⟨p, hp, hpiface, hple⟩ := hregular rfl htype
          exact ⟨p, hp, hpiface.trans hlast'.symm, heq ▸ hple⟩
        cases linkType with
        | symLink => exact hvalid (.inl rfl) hsym
        | asymLink => exact hvalid (.inr rfl) hsym
        | lostLink =>
          change last.symTime = now - second at hsym
          have hsecond : (0 : Int) < second := by
            show (0 : Int) < 10 ^ 9
            norm_num
          rw [hsym] at hle
          exact absurd hle (by linarith)
        | unspecLink => exact hsym.elim
    · exact linkTupleUpdated_recomputed mem_writeLinkTuple h.unique
  | none =>
    rw [linkTupleFor, hfind] at hfold
    rw [hfind] at hsense
    obtain ⟨hlast, -, -⟩ := sense_ok hfold
    cases hsense
    have hlast' : last.neighborIfaceAddr = senderIface := hlast
    refine h.put { last with time := max last.time last.asymTime } ?_ ?_ ?_
    · exact fun hle => ⟨_, List.mem_append_right _ (.head _), hlast'.symm,
        delayed_le hle⟩
    · intro p hp
      obtain rfl := List.mem_singleton.mp hp
      exact le_delayed _ _
    · cases updated with
      | true =>
        have hupdated := @linkTupleUpdated_recomputed _ _ now msg.willingness
          (@mem_writeLinkTuple s { last with time := max last.time last.asymTime }) h.unique
        have hmem := @mem_writeLinkTuple s { last with time := max last.time last.asymTime }
        rw [← hupdated.linkSet] at hmem
        have hadded := @linkTupleAdded_recomputed _ _ now msg.willingness hmem hupdated.unique
        rw [hupdated.getMainAddress] at hadded
        exact hupdated.trans hadded
      | false => exact linkTupleAdded_recomputed mem_writeLinkTuple h.unique

/-! ## A timer -/

theorem Due.eraseIdx {place : Nat} {t : Time} (h : Due timers l)
    (hplace : timers[place]? = some (t, a)) (hne : l.neighborIfaceAddr ≠ a) :
    Due (timers.eraseIdx place) l := by
  obtain ⟨p, hp, hiface, hle⟩ := h
  obtain ⟨i, hi⟩ := List.getElem?_of_mem hp
  refine ⟨p, List.mem_eraseIdx_iff_getElem?.mpr ⟨i, ?_, hi⟩, hiface, hle⟩
  rintro rfl
  obtain rfl := Option.mem_unique hi hplace
  exact hne hiface.symm

theorem mem_eraseLinkTuple (hnodup : (s.linkSet.map LinkTuple.neighborIfaceAddr).Nodup)
    (htuple : tuple ∈ s.linkSet) :
    l ∈ (s.eraseLinkTuple tuple).linkSet ↔
      l ∈ s.linkSet ∧ l.neighborIfaceAddr ≠ tuple.neighborIfaceAddr := by
  refine Keyed.mem_eraseP hnodup fun it hit => ?_
  constructor
  · exact fun hmatch => (of_decide_eq_true hmatch).2
  · intro hiface
    rw [List.inj_on_of_nodup_map hnodup hit htuple hiface]
    exact decide_eq_true ⟨rfl, rfl⟩

theorem Sensed.removeLinkTuple (h : Sensed s timers now) (htuple : tuple ∈ s.linkSet)
    (honly : ∀ l ∈ s.linkSet, l.neighborIfaceAddr ≠ tuple.neighborIfaceAddr →
      s.getMainAddress l.neighborIfaceAddr ≠ s.getMainAddress tuple.neighborIfaceAddr)
    (hdue : ∀ l ∈ s.linkSet, l.neighborIfaceAddr ≠ tuple.neighborIfaceAddr → Due timers l →
      Due timers' l)
    (hpending : ∀ p ∈ timers', now ≤ p.1) : Sensed (s.removeLinkTuple tuple) timers' now := by
  have hlinks (l : LinkTuple) : l ∈ (s.removeLinkTuple tuple).linkSet ↔
      l ∈ s.linkSet ∧ l.neighborIfaceAddr ≠ tuple.neighborIfaceAddr :=
    mem_eraseLinkTuple h.nodup htuple
  have hneighbors (nb : NeighborTuple) : nb ∈ (s.removeLinkTuple tuple).neighborSet ↔
      nb ∈ s.neighborSet ∧
        nb.neighborMainAddr ≠ s.getMainAddress tuple.neighborIfaceAddr :=
    Keyed.mem_eraseP h.unique fun it _ => decide_eq_true_iff
  -- the links to another neighbor are all there
  have hother (l : LinkTuple) (hl : l ∈ s.linkSet)
      (hne : s.getMainAddress l.neighborIfaceAddr ≠ s.getMainAddress tuple.neighborIfaceAddr) :
      l.neighborIfaceAddr ≠ tuple.neighborIfaceAddr := by
    intro heq
    exact hne (congrArg s.getMainAddress heq)
  refine ⟨Keyed.nodup_eraseP h.nodup _, Keyed.nodup_eraseP h.unique _, fun a => ?_,
    fun l hl hsym => ?_, fun nb hnb hsym => ?_, hpending⟩
  · constructor
    · rintro ⟨nb, hnb, rfl⟩
      obtain ⟨hnb, hne⟩ := (hneighbors nb).mp hnb
      obtain ⟨l, hl, hla⟩ := (h.mirror _).mp ⟨nb, hnb, rfl⟩
      exact ⟨l, (hlinks l).mpr ⟨hl, hother l hl (hla ▸ hne)⟩, hla⟩
    · rintro ⟨l, hl, rfl⟩
      obtain ⟨hl, hne⟩ := (hlinks l).mp hl
      obtain ⟨nb, hnb, hnba⟩ := (h.mirror _).mpr ⟨l, hl, rfl⟩
      exact ⟨nb, (hneighbors nb).mpr ⟨hnb, hnba ▸ honly l hl hne⟩, hnba⟩
  · obtain ⟨hl, hne⟩ := (hlinks l).mp hl
    exact hdue l hl hne (h.deadline l hl hsym)
  · obtain ⟨hnb, hne⟩ := (hneighbors nb).mp hnb
    obtain ⟨l, hl, hla, hlinkDue⟩ := h.guarded nb hnb hsym
    have hiface := hother l hl (hla ▸ hne)
    exact ⟨l, (hlinks l).mpr ⟨hl, hiface⟩, hla, hdue l hl hiface hlinkDue⟩

theorem Sensed.timer {place : Nat} (h : Sensed n.state n.timers now)
    (hplace : n.timers[place]? = some (now, a)) (hregular : Regular n (.timer place, now)) :
    Sensed (linkTupleTimerExpire { n with timers := n.timers.eraseIdx place } a now).state
      (linkTupleTimerExpire { n with timers := n.timers.eraseIdx place } a now).timers now := by
  have hpending : ∀ p ∈ n.timers.eraseIdx place, now ≤ p.1 :=
    fun p hp => h.pending p (List.mem_of_mem_eraseIdx hp)
  rw [linkTupleTimerExpire]
  cases hfind : n.state.findLinkTuple a with
  | none =>
    have hne (l : LinkTuple) (hl : l ∈ n.state.linkSet) : l.neighborIfaceAddr ≠ a := by
      rw [OlsrState.findLinkTuple] at hfind
      exact Keyed.find?_eq_none.mp hfind l hl
    refine ⟨h.nodup, h.unique, h.mirror, fun l hl hsym => ?_, fun nb hnb hsym => ?_, hpending⟩
    · exact (h.deadline l hl hsym).eraseIdx hplace (hne l hl)
    · obtain ⟨l, hl, hla, hdue⟩ := h.guarded nb hnb hsym
      exact ⟨l, hl, hla, hdue.eraseIdx hplace (hne l hl)⟩
  | some tuple =>
    obtain ⟨htuple, rfl⟩ := (Keyed.find?_eq_some h.nodup).mp hfind
    obtain ⟨honly, hfirst⟩ := hregular _ tuple hplace hfind
    have hpending' (t : Time) : ∀ p ∈ n.timers.eraseIdx place ++
        [(delayed t now, tuple.neighborIfaceAddr)], now ≤ p.1 := by
      intro p hp
      rcases List.mem_append.mp hp with hp | hp
      · exact hpending p hp
      · obtain rfl := List.mem_singleton.mp hp
        exact le_delayed t now
    have hkept (t : Time) (l : LinkTuple) (hdue : Due n.timers l)
        (hne : l.neighborIfaceAddr ≠ tuple.neighborIfaceAddr) :
        Due (n.timers.eraseIdx place ++ [(delayed t now, tuple.neighborIfaceAddr)]) l :=
      (hdue.eraseIdx hplace hne).append _
    dsimp only
    split
    · next htime =>
        exact h.removeLinkTuple htuple (honly htime)
          (fun l _ hne hdue => hdue.eraseIdx hplace hne) hpending
    split
    · next htime hsymTime =>
        -- the link is not symmetric any more, so the links that are have their timers
        have hdeadline : ∀ l ∈ n.state.linkSet, now ≤ l.symTime →
            Due (n.timers.eraseIdx place ++
              [(delayed tuple.time now, tuple.neighborIfaceAddr)]) l := by
          intro l hl hsym
          refine hkept tuple.time l (h.deadline l hl hsym) fun heq => ?_
          obtain rfl := List.inj_on_of_nodup_map h.nodup hl htuple heq
          exact absurd hsym (not_le.mpr hsymTime)
        have hdue : ∀ l ∈ n.state.linkSet, n.state.getMainAddress l.neighborIfaceAddr ≠
            n.state.getMainAddress tuple.neighborIfaceAddr → Due n.timers l →
            Due (n.timers.eraseIdx place ++
              [(delayed tuple.time now, tuple.neighborIfaceAddr)]) l :=
          fun l _ hne hdue => hkept tuple.time l hdue fun heq =>
            hne (congrArg n.state.getMainAddress heq)
        cases hflag : n.linkTupleTimerFirstTime with
        | true =>
          refine ⟨h.nodup, h.unique, h.mirror, hdeadline, fun nb hnb hsym => ?_, hpending' _⟩
          by_cases ha : nb.neighborMainAddr =
              n.state.getMainAddress tuple.neighborIfaceAddr
          · obtain ⟨l, hl, hla, hle⟩ :=
              hfirst (not_lt.mp htime) hsymTime hflag nb hnb ha hsym
            exact ⟨l, hl, hla.trans ha.symm, hdeadline l hl hle⟩
          · obtain ⟨l, hl, hla, hlinkDue⟩ := h.guarded nb hnb hsym
            exact ⟨l, hl, hla, hdue l hl (hla ▸ ha) hlinkDue⟩
        | false =>
          exact h.recomputed (neighborLoss_recomputed htuple h.unique) rfl rfl h.nodup
            (fun l _ => Iff.rfl) ⟨tuple, htuple, rfl⟩ hdeadline hdue (hpending' _)
    · next htime hsymTime =>
        have hdue (l : LinkTuple) (hl : l ∈ n.state.linkSet) (hlinkDue : Due n.timers l) :
            Due (n.timers.eraseIdx place ++
              [(delayed (min tuple.time tuple.symTime) now, tuple.neighborIfaceAddr)]) l := by
          by_cases heq : l.neighborIfaceAddr = tuple.neighborIfaceAddr
          · obtain rfl := List.inj_on_of_nodup_map h.nodup hl htuple heq
            exact ⟨_, List.mem_append_right _ (.head _), rfl,
              delayed_le (not_lt.mp hsymTime)⟩
          · exact hkept _ l hlinkDue heq
        refine ⟨h.nodup, h.unique, h.mirror, fun l hl hsym => hdue l hl (h.deadline l hl hsym),
          fun nb hnb hsym => ?_, hpending' _⟩
        obtain ⟨l, hl, hla, hlinkDue⟩ := h.guarded nb hnb hsym
        exact ⟨l, hl, hla, hdue l hl hlinkDue⟩

/-! ## Runs -/

def SensingNode.Unlinked (n : SensingNode) : Prop :=
  n.state.linkSet = [] ∧ n.state.neighborSet = [] ∧ n.timers = []

theorem sensed_start (h : n.Unlinked) : Sensed n.state n.timers n.now := by
  obtain ⟨hlinks, hneighbors, htimers⟩ := h
  refine ⟨?_, ?_, fun a => ?_, ?_, ?_, ?_⟩
  · rw [hlinks]
    exact .nil
  · rw [hneighbors]
    exact .nil
  · rw [hlinks, hneighbors]
    simp
  · rw [hlinks]
    exact nofun
  · rw [hneighbors]
    exact nofun
  · rw [htimers]
    exact nofun

/-- The two sets mirror each other again after every event. -/
theorem Sensed.step {n' : SensingNode} {e : SensingEvent × Time} (h : Sensed n.state n.timers n.now)
    (hstep : SensingStep helloInterval n e n') (hregular : Regular n e) :
    Sensed n'.state n'.timers n'.now := by
  cases hstep with
  | hello hontime hsense hsame =>
    have hnow := h.advance hontime.1 hontime.2
    exact (hnow.linkSensing hsense hregular).populate.same hsame
  | timer hontime hplace heq hsame =>
    subst heq
    exact ((h.advance hontime.1 hontime.2).timer hplace hregular).same hsame
  | other hontime hsame => exact (h.advance hontime.1 hontime.2).same hsame

/-- **The neighbor set mirrors the link set along every run of regular events.** -/
theorem run_mirrors {helloInterval : Time} {n n' : SensingNode} {es : List (SensingEvent × Time)}
    (hstart : n.Unlinked)
    (hrun : Run (fun u e v => SensingStep helloInterval u e v ∧ Regular u e) n es n') :
    Mirrors n' := by
  have hsensed : Sensed n'.state n'.timers n'.now :=
    hrun.invariant (P := fun u => Sensed u.state u.timers u.now) (sensed_start hstart)
      fun _ _ _ hu hstep => hu.step hstep.1 hstep.2
  exact hsensed.mirrors

/-- A node that knows the interfaces 11 and 12 of the neighbor 10. -/
def sensingState : OlsrState :=
  { mainAddress := 1
    linkSet := []
    neighborSet := []
    twoHopNeighborSet := []
    topologySet := []
    mprSet := ∅
    mprSelectorSet := []
    duplicateSet := []
    ifaceAssocSet := [⟨11, 10, 100 * second⟩, ⟨12, 10, 100 * second⟩] }

def sensingNode : SensingNode :=
  { state := sensingState, linkTupleTimerFirstTime := true, timers := [], now := 0 }

def sampleHello (linkMessages : List HelloLinkMessage) : HelloMessage :=
  { originator := 10, vTime := 6 * second, willingness := 3, linkMessages }

/-- A HELLO lists the interface 1 as symmetric. -/
theorem run_mirrors_sample : ∃ es n', Run (fun u e v => SensingStep (2 * second) u e v ∧
      Regular u e) sensingNode es n' ∧
    n'.state.neighborSet = [⟨10, .sym, 3⟩] ∧ Mirrors n' := by
  have hrun : Run (fun u e v => SensingStep (2 * second) u e v ∧ Regular u e) sensingNode _ _ :=
    Run.nil.snoc ⟨@SensingStep.hello (2 * second) sensingNode (sampleHello [⟨6, [1]⟩]) 1 11 0 _ _ _
      (by decide) rfl ⟨rfl, rfl, rfl⟩, fun hknown => by cases hknown⟩
  exact ⟨_, _, hrun, rfl, run_mirrors ⟨rfl, rfl, rfl⟩ hrun⟩

/-- HELLOs arrive from both interfaces, and once more from the second one.  When the link to the
first expires, the neighbor tuple is erased, though the other link is there. -/
theorem erased_with_one_link_left :
    ¬∀ (helloInterval : Time) (n n' : SensingNode) (es : List (SensingEvent × Time)),
      n.Unlinked → Run (SensingStep helloInterval) n es n' → Mirrors n' := by
  intro hall
  have hrun : Run (SensingStep (2 * second)) sensingNode _ _ :=
    (((((Run.nil.snoc
      (@SensingStep.hello _ sensingNode (sampleHello []) 1 11 0 _ _ _ (by decide) rfl
        ⟨rfl, rfl, rfl⟩)).snoc
      (@SensingStep.hello _ _ (sampleHello []) 1 12 0 _ _ _ (by decide) rfl ⟨rfl, rfl, rfl⟩)).snoc
      (@SensingStep.timer _ _ 0 microsecond 11 _ _ (by decide) rfl rfl ⟨rfl, rfl, rfl⟩)).snoc
      (@SensingStep.timer _ _ 0 microsecond 12 _ _ (by decide) rfl rfl ⟨rfl, rfl, rfl⟩)).snoc
      (@SensingStep.hello _ _ (sampleHello []) 1 12 (2 * second) _ _ _ (by decide) rfl
        ⟨rfl, rfl, rfl⟩)).snoc
      (@SensingStep.timer _ _ 0 (6 * second + microsecond) 11 _ _ (by decide) rfl rfl
        ⟨rfl, rfl, rfl⟩)
  obtain ⟨nb, hnb, -⟩ := ((hall _ _ _ _ ⟨rfl, rfl, rfl⟩ hrun).1 10).mpr
    ⟨_, .head _, rfl⟩
  cases hnb

end Olsr

end Ns3
