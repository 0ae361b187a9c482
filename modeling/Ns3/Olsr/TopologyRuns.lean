/-
  The topology set along a run, for any number of wraps.

  Every TC message has the right effect exactly as long as each of them compares, as a 16-bit
  number, with what is held as the counts of the originator do, and a message under the number
  that is held advertises what is held.
-/
import Ns3.Olsr.TopologyNewest

namespace Ns3

namespace Olsr

open Lib TcSystem

variable {o : Ipv4Address} {σ τ : TcSystem} {l : TcEvent}

/-! ## What is to hold, and when it does -/

/-- The message arrives in order: nothing is held of the originator, or none that was sent
later has been processed. -/
def InOrder (o : Ipv4Address) (σ : TcSystem) (place : Nat) : Prop :=
  σ.held o = [] ∨ ∀ i, σ.newest = some i → i ≤ place

def Older (o : Ipv4Address) (σ : TcSystem) (tc : SentTc) : Prop :=
  σ.held o ≠ [] ∧ ∃ i tc', σ.newest = some i ∧ σ.sent[i]? = some tc' ∧
    tc.increments < tc'.increments

/-- The effect of a step: after a message that arrives in order, exactly the neighbors that it
advertises are held; an older one changes nothing. -/
def Effect (o : Ipv4Address) (σ : TcSystem) (l : TcEvent) (τ : TcSystem) : Prop :=
  match l with
  | .receive place _ senderIface now =>
    ∀ tc, σ.sent[place]? = some tc → (σ.node.findSymLinkTuple senderIface now).isSome →
      (InOrder o σ place → Exactly (τ.held o) tc) ∧
      (Older o σ tc → τ.held o = σ.held o)
  | _ => True

/-- The numbers compare as they should: a message in order has a higher one than the newest, or the
same and everything held is advertised; an older one has a lower one, or the same and everything
advertised is held. -/
def Compares (o : Ipv4Address) (σ : TcSystem) (l : TcEvent) : Prop :=
  match l with
  | .receive place _ senderIface now =>
    ∀ tc i tc', σ.sent[place]? = some tc → (σ.node.findSymLinkTuple senderIface now).isSome →
      σ.held o ≠ [] → σ.newest = some i → σ.sent[i]? = some tc' →
      (i ≤ place → tc'.ansn < tc.ansn ∨
        (tc'.ansn = tc.ansn ∧ ∀ p ∈ σ.held o, p.1 ∈ tc.neighborAddresses)) ∧
      (tc.increments < tc'.increments → tc.ansn < tc'.ansn ∨
        (tc.ansn = tc'.ansn ∧ ∀ a ∈ tc.neighborAddresses, a ∈ (σ.held o).map Prod.fst))
  | _ => True

/-- The topology tuples are of the newest TC received. -/
structure HeldOk (o : Ipv4Address) (σ : TcSystem) : Prop extends SentOk σ where
  nodup : ((σ.held o).map Prod.fst).Nodup
  newest : σ.held o ≠ [] → ∃ i tc, σ.newest = some i ∧ σ.sent[i]? = some tc ∧
    ∀ p ∈ σ.held o, p.2 = tc.ansn

theorem heldOk_start (h : Starts o σ) : HeldOk o σ := by
  obtain ⟨horigin, hsent, hheld, -⟩ := h
  refine ⟨⟨?_, ?_, ?_⟩, ?_, fun hne => absurd hheld hne⟩
  · rw [horigin]
    rfl
  · rw [hsent]
    exact nofun
  · rw [hsent]
    exact .nil
  · rw [hheld]
    exact List.nodup_nil

/-! ## One step -/

theorem HeldOk.sublist (h : HeldOk o σ) (hsent : SentOk τ)
    (hsub : List.Sublist (τ.held o) (σ.held o)) (hnewest : τ.newest = σ.newest)
    (hkept : ∀ (i : Nat) (tc : SentTc), σ.sent[i]? = some tc → τ.sent[i]? = some tc) :
    HeldOk o τ := by
  refine ⟨hsent, h.nodup.sublist (hsub.map _), fun hne => ?_⟩
  have hne' : σ.held o ≠ [] := by
    intro hnil
    rw [hnil] at hsub
    exact hne (List.eq_nil_of_sublist_nil hsub)
  obtain ⟨i, tc, hi, htc, hsame⟩ := h.newest hne'
  exact ⟨i, tc, hnewest.trans hi, hkept i tc htc, fun p hp => hsame p (hsub.subset hp)⟩

theorem effect_receive_iff (place : Nat) (tc : SentTc) (h : HeldOk o σ) :
    ((InOrder o σ place → Exactly (heldAfter (σ.held o) tc) tc) ∧
      (Older o σ tc → heldAfter (σ.held o) tc = σ.held o)) ↔
    ∀ i tc', σ.held o ≠ [] → σ.newest = some i → σ.sent[i]? = some tc' →
      (i ≤ place → tc'.ansn < tc.ansn ∨
        (tc'.ansn = tc.ansn ∧ ∀ p ∈ σ.held o, p.1 ∈ tc.neighborAddresses)) ∧
      (tc.increments < tc'.increments → tc.ansn < tc'.ansn ∨
        (tc.ansn = tc'.ansn ∧ ∀ a ∈ tc.neighborAddresses, a ∈ (σ.held o).map Prod.fst)) := by
  by_cases hne : σ.held o = []
  · refine iff_of_true ⟨fun _ => ?_, fun hold => absurd hne hold.1⟩ fun i tc' hne' =>
      absurd hne hne'
    exact (@exactly_heldAfter _ tc 0 h.nodup (by rw [hne]; exact nofun)).mpr (.inl hne)
  obtain ⟨i, tc', hi, htc', hsame⟩ := h.newest hne
  have hexact := exactly_heldAfter tc h.nodup hsame
  have hself := heldAfter_eq_self tc hne hsame
  constructor
  · rintro ⟨horder, holder⟩ j tc'' - hj htc''
    obtain rfl := Option.mem_unique hi hj
    obtain rfl := Option.mem_unique htc' htc''
    constructor
    · intro hle
      have hin : InOrder o σ place := .inr fun k hk => by
        obtain rfl := Option.mem_unique hi hk
        exact hle
      exact (hexact.mp (horder hin)).resolve_left hne
    · exact fun hlt => hself.mp (holder ⟨hne, i, tc', hi, htc', hlt⟩)
  · intro hcond
    obtain ⟨horder, holder⟩ := hcond i tc' hne hi htc'
    constructor
    · rintro (hnil | hle)
      · exact absurd hnil hne
      · exact hexact.mpr (.inr (horder (hle i hi)))
    · rintro ⟨-, j, tc'', hj, htc'', hlt⟩
      obtain rfl := Option.mem_unique hi hj
      obtain rfl := Option.mem_unique htc' htc''
      exact hself.mpr (holder hlt)

theorem HeldOk.receive {place : Nat} {tc : SentTc} {node : OlsrState} (h : HeldOk o σ)
    (hsent : SentOk { σ with node, newest := σ.newestAfter o place })
    (htc : σ.sent[place]? = some tc)
    (hheld : heldOf o node.topologySet = heldAfter (σ.held o) tc)
    (horder : InOrder o σ place → Exactly (heldAfter (σ.held o) tc) tc)
    (holder : Older o σ tc → heldAfter (σ.held o) tc = σ.held o) :
    HeldOk o { σ with node, newest := σ.newestAfter o place } := by
  have hview : TcSystem.held { σ with node, newest := σ.newestAfter o place } o =
      heldAfter (σ.held o) tc := hheld
  -- after a message in order it is the newest
  have hdone (hin : InOrder o σ place) (hnew : σ.newestAfter o place = some place) :
      HeldOk o { σ with node, newest := σ.newestAfter o place } := by
    have hexact := horder hin
    refine ⟨hsent, by rw [hview]; exact hexact.1, fun _ => ⟨place, tc, hnew, htc, ?_⟩⟩
    rw [hview]
    exact hexact.2.1
  by_cases hne : σ.held o = []
  · exact hdone (.inl hne) (if_pos hne)
  obtain ⟨i, tc', hi, htc', hsame⟩ := h.newest hne
  have hmax : σ.newestAfter o place = some (max i place) := by
    rw [newestAfter, if_neg hne, hi]
  rcases Nat.lt_or_ge place i with hlt | hge
  · have hnew : σ.newestAfter o place = some i := by
      rw [hmax, Nat.max_eq_left (Nat.le_of_lt hlt)]
    have hle := h.mono htc htc' (Nat.le_of_lt hlt)
    rcases Nat.lt_or_eq_of_le hle with hold | heq
    · have hsame' := holder ⟨hne, i, tc', hi, htc', hold⟩
      refine ⟨hsent, by rw [hview, hsame']; exact h.nodup, fun _ => ⟨i, tc', hnew, htc', ?_⟩⟩
      rw [hview, hsame']
      exact hsame
    · -- a message under the same number adds to what is held
      have hnum : tc.ansn = tc'.ansn := by
        rw [(h.sent tc (List.mem_of_getElem? htc)).1,
          (h.sent tc' (List.mem_of_getElem? htc')).1, heq]
      have hfilter : ((σ.held o).filter fun p => ¬p.2 < tc.ansn) = σ.held o :=
        List.filter_eq_self.mpr fun p hp => by
          rw [hsame p hp, hnum]
          simp
      have hafter : heldAfter (σ.held o) tc =
          recordAll tc.ansn (σ.held o) tc.neighborAddresses := by
        rw [heldAfter, if_pos fun p hp => by rw [hsame p hp, hnum], hfilter]
      refine ⟨hsent, by rw [hview, hafter]; exact nodup_recordAll h.nodup,
        fun _ => ⟨i, tc', hnew, htc', ?_⟩⟩
      rw [hview, hafter]
      intro p hp
      rcases mem_recordAll.mp hp with hp | hp
      · exact hsame p hp
      · exact hp.1.trans hnum
  · refine hdone (.inr fun k hk => ?_) (by rw [hmax, Nat.max_eq_right hge])
    obtain rfl := Option.mem_unique hi hk
    exact hge

theorem HeldOk.step (h : HeldOk o σ) (hstep : Step o σ l τ) (heffect : Effect o σ l τ) :
    HeldOk o τ := by
  have hsent := h.toSentOk.step hstep
  cases hstep with
  | @originator e =>
    refine h.sublist hsent (.refl _) rfl fun i tc htc => ?_
    obtain ⟨hi, -⟩ := List.getElem?_eq_some_iff.mp htc
    exact (List.getElem?_append_left hi).trans htc
  | @receive place tc vTime senderIface now htc hsym =>
    have hheld := heldOf_processTc (o := o) tc vTime hsym
    obtain ⟨horder, holder⟩ := heffect tc htc hsym
    refine h.receive hsent htc hheld (fun hin => ?_) fun hold => hheld.symm.trans (holder hold)
    show Exactly (heldAfter (heldOf o σ.node.topologySet) tc) tc
    rw [← hheld]
    exact horder hin
  | @discard place tc vTime senderIface now htc hnone =>
    refine h.sublist hsent ?_ rfl fun i tc htc => htc
    show List.Sublist (heldOf o (σ.node.processTc _ senderIface now).topologySet) _
    rw [OlsrState.processTc, hnone]
    exact .refl _
  | @receiveOther msg senderIface now hne =>
    refine h.sublist hsent ?_ rfl fun i tc htc => htc
    show List.Sublist (heldOf o (σ.node.processTc msg senderIface now).topologySet) _
    rw [heldOf_processTc_other hne]
    exact .refl _
  | expire => exact h.sublist hsent heldOf_expire_sublist rfl fun i tc htc => htc
  | @other node hsame =>
    refine h.sublist hsent ?_ rfl fun i tc htc => htc
    show List.Sublist (heldOf o node.topologySet) _
    rw [hsame]
    exact .refl _

/-- A step has its effect exactly when the numbers compare as they should. -/
theorem effect_iff (h : HeldOk o σ) (hstep : Step o σ l τ) :
    Effect o σ l τ ↔ Compares o σ l := by
  cases hstep with
  | originator => exact Iff.rfl
  | @receive place tc vTime senderIface now htc hsym =>
    have hheld := heldOf_processTc (o := o) tc vTime hsym
    have hiff := effect_receive_iff place tc h
    constructor
    · intro heffect tc₁ i tc' htc₁ _
      obtain rfl := Option.mem_unique htc htc₁
      refine hiff.mp ?_ i tc'
      have hboth := heffect tc htc hsym
      rw [TcSystem.held] at hboth
      rw [hheld] at hboth
      exact hboth
    · intro hcompares tc₁ htc₁ _
      obtain rfl := Option.mem_unique htc htc₁
      have hboth := hiff.mpr fun i tc' hne hi htc' => hcompares tc i tc' htc hsym hne hi htc'
      rw [TcSystem.held]
      rw [hheld]
      exact hboth
  | @discard place tc vTime senderIface now htc hnone =>
    refine iff_of_true (fun tc₁ _ hsym => ?_) fun tc₁ i tc' _ hsym => ?_
    · rw [hnone] at hsym
      cases hsym
    · rw [hnone] at hsym
      cases hsym
  | receiveOther => exact Iff.rfl
  | expire => exact Iff.rfl
  | other => exact Iff.rfl

/-! ## Runs -/

/-- **The topology set holds the newest information exactly as long as the numbers compare.** The TC
messages carry the count of increments modulo 2^16, and every one that arrives from a symmetric
neighbor has the right effect if and only if each compares as it should. -/
theorem run_effect_iff {ls : List TcEvent} (hstart : Starts o σ) (hrun : Run (Step o) σ ls τ) :
    (∀ tc ∈ τ.sent, tc.ansn = (OLSR_MAX_SEQ_NUM + tc.increments) % 2 ^ 16) ∧
    ((∀ ks l u v, ks ++ [l] <+: ls → Run (Step o) σ ks u → Step o u l v → Effect o u l v) ↔
      ∀ ks l u v, ks ++ [l] <+: ls → Run (Step o) σ ks u → Step o u l v → Compares o u l) := by
  have hok := heldOk_start hstart
  have hsent : SentOk τ := hrun.invariant hok.toSentOk fun _ _ _ h hstep => h.step hstep
  refine ⟨fun tc htc => (hsent.sent tc htc).1, ?_⟩
  exact Run.steps_iff hok (fun u l v hu hstep heffect => hu.step hstep heffect)
    (fun u l v hu hstep => effect_iff hu hstep) hrun

def sampleNode : OlsrState :=
  { mainAddress := 1
    linkSet := [⟨1, 2, 100, 100, 100⟩]
    neighborSet := []
    twoHopNeighborSet := []
    topologySet := []
    mprSet := ∅
    mprSelectorSet := []
    duplicateSet := []
    ifaceAssocSet := [] }

def sampleSystem : TcSystem :=
  { originator := .new, sent := [], node := sampleNode, newest := none }

theorem sampleSystem_starts : Starts 9 sampleSystem := ⟨rfl, rfl, rfl, rfl⟩

theorem run_effect_iff_sample :
    ∃ τ, Run (Step 9) sampleSystem [.originator (.addMprSelectorTuple 5), .originator .sendTc,
        .receive 0 30 2 1] τ ∧ τ.held 9 = [(5, 0)] ∧
      ∀ tc ∈ τ.sent, tc.ansn = (OLSR_MAX_SEQ_NUM + tc.increments) % 2 ^ 16 := by
  have hrun : Run (Step 9) sampleSystem _ _ :=
    ((Run.nil.snoc (@Step.originator 9 _ (.addMprSelectorTuple 5))).snoc
      (@Step.originator 9 _ .sendTc)).snoc (@Step.receive 9 _ 0 ⟨1, 0, [5]⟩ 30 2 1 rfl rfl)
  exact ⟨_, hrun, rfl, (run_effect_iff sampleSystem_starts hrun).1⟩

theorem increments_run (n : Nat) (hansn : σ.originator.ansn < 65536) :
    ∃ τ, Run (Step o) σ (List.replicate n (.originator .addNeighborTuple)) τ ∧
      τ.originator.ansn = (σ.originator.ansn + n) % 65536 ∧
      τ.originator.mprSelectorSet = σ.originator.mprSelectorSet ∧ τ.sent = σ.sent ∧
      τ.node = σ.node ∧ τ.newest = σ.newest := by
  induction n with
  | zero => exact ⟨σ, .nil, (Nat.mod_eq_of_lt hansn).symm, rfl, rfl, rfl, rfl⟩
  | succ n ih =>
    obtain ⟨τ, hrun, hnum, hsel, hsent, hnode, hnewest⟩ := ih
    rw [List.replicate_succ']
    refine ⟨_, hrun.snoc .originator, ?_, hsel, ?_, hnode, hnewest⟩
    · show (τ.originator.ansn + 1) % 65536 = _
      rw [hnum]
      omega
    · exact (List.append_nil _).trans hsent

/-- The ANSN is incremented to 65535 and sent, and then once more and sent.  The node takes the
second message for an old one. -/
theorem newer_message_ignored :
    ¬∀ (o : Ipv4Address) (σ : TcSystem) (ls : List TcEvent) (l : TcEvent) (u v : TcSystem),
      Starts o σ → Run (Step o) σ ls u → Step o u l v → Effect o u l v := by
  intro hall
  have hfirst : Run (Step 9) sampleSystem _ _ :=
    Run.nil.snoc (@Step.originator 9 _ (.addMprSelectorTuple 5))
  obtain ⟨⟨⟨count, ansn, selectors⟩, sent, node, newest⟩, hmany, hansn, hsel, hsent, hnode,
    hnewest⟩ := @increments_run 9 { sampleSystem with
      originator := (sampleSystem.originator.handle (.addMprSelectorTuple 5)).1 } 65535 (by decide)
  obtain rfl : ansn = 65535 := hansn
  obtain rfl : selectors = [5] := hsel
  obtain rfl : sent = [] := hsent
  obtain rfl : node = sampleNode := hnode
  obtain rfl : newest = none := hnewest
  have hrun := ((((hfirst.append hmany).snoc (@Step.originator 9 _ .sendTc)).snoc
    (@Step.originator 9 _ (.addMprSelectorTuple 6))).snoc (@Step.originator 9 _ .sendTc)).snoc
      (@Step.receive 9 _ 0 ⟨count, 65535, [5]⟩ 30 2 1 rfl rfl)
  -- the first message has been processed, and the second one has been sent
  generalize hu : (TcSystem.mk _ _ _ _) = u at hrun
  have hget : u.sent[1]? = some ⟨count + 1, 0, [5, 6]⟩ := by
    rw [← hu]
    simp [Originator.handle, Originator.incrementAnsn, OLSR_MAX_SEQ_NUM]
  have hsym : (u.node.findSymLinkTuple 2 2).isSome := by rw [← hu]; rfl
  have hnew : u.newest = some 0 := by rw [← hu]; rfl
  have heffect := hall 9 sampleSystem _ _ _ _ sampleSystem_starts hrun
    (@Step.receive 9 u 1 ⟨count + 1, 0, [5, 6]⟩ 30 2 2 hget hsym)
  obtain ⟨horder, -⟩ := heffect ⟨count + 1, 0, [5, 6]⟩ hget hsym
  have hexact := horder (.inr fun i hi => by
    obtain rfl : 0 = i := Option.mem_unique hnew hi
    exact Nat.zero_le 1)
  -- the second message advertises 5 too, but the tuple of 5 still has the first one's number
  have hheld : TcSystem.held
      { u with
        node := u.node.processTc (messageAt 9 ⟨count + 1, 0, [5, 6]⟩ 30) 2 2
        newest := u.newestAfter 9 1 } 9 = [(5, 65535)] := by
    rw [← hu]
    rfl
  rw [hheld] at hexact
  have hnum := hexact.2.1 (5, 65535) (.head _)
  exact absurd hnum (Nat.succ_ne_zero 65534)

end Olsr

end Ns3
