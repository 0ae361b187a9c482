/-
  The shared tag lists are maps of their own.

  Each list that is alive carries the entries of its map, in the same order, and each
  operation does to the list what it does to the map.
-/
import Ns3.Lib.Run
import Ns3.Network.PacketTagOps

namespace Ns3

open Ns3.Lib TagStore

variable {τ : Type} {T : TagInterface τ}

/-! ## What a node holds -/

/-- The bytes of a node are those of the tag, with room behind them. -/
structure Holds (T : TagInterface τ) (b : TypeId × List UInt8) (e : Σ _ : TypeId, τ) : Prop where
  type : b.1 = e.1
  tag : T.getInstanceTypeId e.2 = e.1
  length : b.2.length < 2 ^ 32 - 1
  bytes : ∃ rest, b.2 = T.serialize e.2 ++ rest

def Stores (T : TagInterface τ) (es : List (TypeId × List UInt8)) (m : TagMap τ) : Prop :=
  List.Forall₂ (Holds T) es m.entries

section Stored

variable {es bs fs : List (TypeId × List UInt8)} {l l₁ l₂ : List (Σ _ : TypeId, τ)} {m : TagMap τ}
  {tag v : τ} {tid : TypeId} {data : List UInt8}

theorem types_eq (h : List.Forall₂ (Holds T) es l) : types es = l.keys := by
  induction h with
  | nil => rfl
  | cons hb _ ih =>
    rw [types_cons, List.keys_cons, hb.type, ih]

theorem Stores.mem_iff (h : Stores T es m) : tid ∈ types es ↔ tid ∈ m := by
  rw [types_eq h]
  rfl

theorem sized_of (h : List.Forall₂ (Holds T) es l) : ∀ b ∈ es, b.2.length < 2 ^ 32 - 1 := by
  induction h with
  | nil => exact List.forall_mem_nil _
  | cons hb _ ih => exact List.forall_mem_cons.mpr ⟨hb.length, ih⟩

theorem Stores.sized (h : Stores T es m) : ∀ b ∈ es, b.2.length < 2 ^ 32 - 1 := sized_of h

theorem exists_split (h : List.Forall₂ (Holds T) (bs ++ (tid, data) :: fs) l) :
    ∃ l₁ v l₂, l = l₁ ++ ⟨tid, v⟩ :: l₂ ∧ List.Forall₂ (Holds T) bs l₁ ∧
      Holds T (tid, data) ⟨tid, v⟩ ∧ List.Forall₂ (Holds T) fs l₂ := by
  induction bs generalizing l with
  | nil =>
    cases h with
    | @cons _ e _ l hb hrest =>
      obtain ⟨tid', v⟩ := e
      obtain rfl : tid = tid' := hb.type
      exact ⟨[], v, l, rfl, .nil, hb, hrest⟩
  | cons b bs ih =>
    cases h with
    | @cons _ e _ l hb hrest =>
      obtain ⟨l₁, v, l₂, rfl, h₁, hv, h₂⟩ := ih hrest
      exact ⟨e :: l₁, v, l₂, rfl, .cons hb h₁, hv, h₂⟩

theorem kreplace_append (hno : tid ∉ l₁.keys) :
    List.kreplace tid tag (l₁ ++ ⟨tid, v⟩ :: l₂) = l₁ ++ ⟨tid, tag⟩ :: l₂ := by
  induction l₁ with
  | nil => simp [List.kreplace]
  | cons e l₁ ih =>
    rw [List.keys_cons, List.mem_cons, not_or] at hno
    have hrest := ih hno.2
    rw [List.kreplace] at hrest ⊢
    simp only [List.cons_append, List.lookmap_cons, if_neg hno.1, hrest]

theorem Stores.split (h : Stores T (bs ++ (tid, data) :: fs) m) (hno : tid ∉ types bs) :
    ∃ v, m.lookup tid = some v ∧ Holds T (tid, data) ⟨tid, v⟩ ∧ Stores T (bs ++ fs) (m.erase tid) ∧
      ∀ tag data', Holds T (tid, data') ⟨tid, tag⟩ →
        Stores T (bs ++ (tid, data') :: fs) (m.replace tid tag) := by
  obtain ⟨l₁, v, l₂, hl, h₁, hv, h₂⟩ := exists_split h
  rw [types_eq h₁] at hno
  refine ⟨v, ?_, hv, ?_, fun tag data' hb => ?_⟩
  · refine AList.mem_lookup_iff.mpr ?_
    rw [hl]
    exact List.mem_append_right _ (.head _)
  · change List.Forall₂ _ _ (List.kerase tid m.entries)
    have hhead : List.kerase tid (⟨tid, v⟩ :: l₂ : List (Σ _ : TypeId, τ)) = l₂ :=
      List.kerase_cons_eq rfl
    rw [hl, List.kerase_append_right hno, hhead]
    exact List.rel_append h₁ h₂
  · change List.Forall₂ _ _ (List.kreplace tid tag m.entries)
    rw [hl, kreplace_append hno]
    exact List.rel_append h₁ (.cons hb h₂)

theorem Stores.readable (h : Stores T es m) (hv : m.lookup (T.getInstanceTypeId tag) = some v) :
    Readable T tag es v := by
  rintro bs data fs rfl hno
  obtain ⟨v', hv', hholds, -⟩ := Stores.split h hno
  obtain rfl : v = v' := Option.mem_unique hv hv'
  obtain ⟨rest, hrest⟩ := hholds.bytes
  have htid : T.getInstanceTypeId v = T.getInstanceTypeId tag := hholds.tag
  change data = T.serialize v ++ rest at hrest
  rw [hrest]
  exact T.deserialize_serialize v tag rest htid.symm

theorem Stores.insert (h : Stores T es m) (hno : T.getInstanceTypeId tag ∉ m) {rest : List UInt8}
    (hlen : (T.serialize tag ++ rest).length < 2 ^ 32 - 1) :
    Stores T ((T.getInstanceTypeId tag, T.serialize tag ++ rest) :: es)
      (m.insert (T.getInstanceTypeId tag) tag) := by
  rw [Stores, AList.entries_insert_of_notMem hno]
  exact .cons ⟨rfl, rfl, hlen, rest, rfl⟩ h

end Stored

/-! ## The lists and the maps -/

namespace TagLists

variable {st : TagLists} {c : TagMaps τ} {p a : Nat} {m : TagMap τ} {t : TagStore}
  {es : List (TypeId × List UInt8)}

/-- Each list that is alive carries the entries of its map. -/
structure Represents (T : TagInterface τ) (st : TagLists) (c : TagMaps τ) : Prop where
  length : st.lists.length = c.length
  nodup : st.lists.Nodup
  inside : ∀ a ∈ st.lists, a < st.store.length
  alive : ∀ p a m, st.lists[p]? = some a → c.map p = some m →
    ∃ h es, st.store.get a = some (.list h) ∧ Spells st.store h es ∧ Stores T es m

/-- Every node's count is the number of list heads and next pointers that refer to it. -/
def CountsExact (st : TagLists) : Prop :=
  ∀ a d, st.store.get a = some (.node d) → d.count = refs st.store a

theorem represents_initial : Represents T initial [] :=
  ⟨rfl, List.nodup_nil, List.forall_mem_nil _, fun _ _ _ h => absurd h nofun⟩

theorem sound_initial : Sound initial.store :=
  ⟨fun _ _ h => absurd h nofun, fun _ _ h => absurd h nofun, fun _ _ h => absurd h nofun⟩

theorem map_eq_some (h : c.map p = some m) : p < c.length := by
  by_contra hge
  rw [TagMaps.map, List.getElem?_eq_none (Nat.le_of_not_lt hge)] at h
  cases h

theorem Represents.address (h : Represents T st c) (hm : c.map p = some m) :
    ∃ a hd es, st.address p = .ok a ∧ st.lists[p]? = some a ∧ st.store.get a = some (.list hd) ∧
      Spells st.store hd es ∧ Stores T es m := by
  have hlt : p < st.lists.length := h.length ▸ map_eq_some hm
  have hget := List.getElem?_eq_getElem hlt
  obtain ⟨hd, es, hlist, hes, hstore⟩ := h.alive p _ m hget hm
  exact ⟨_, hd, es, by rw [TagLists.address, hget], hget, hlist, hes, hstore⟩

theorem map_set {q : Nat} (hlt : p < c.length) (x : Option (TagMap τ)) :
    TagMaps.map (c.set p x) q = if p = q then x else c.map q := by
  rw [TagMaps.map, List.getElem?_set]
  split
  · rfl
  · rfl

section

variable (h : Represents T st c) (ha : st.lists[p]? = some a)

include h ha

theorem Represents.spared (hspares : Spares st.store t a) {q b : Nat} {m' : TagMap τ} (hq : p ≠ q)
    (hb : st.lists[q]? = some b) (hm' : c.map q = some m') :
    ∃ h es, t.get b = some (.list h) ∧ Spells t h es ∧ Stores T es m' := by
  obtain ⟨hd, es, hlist, hes, hstore⟩ := h.alive q b m' hb hm'
  have hne : b ≠ a := by
    rintro rfl
    obtain ⟨hp, hpa⟩ := List.getElem?_eq_some_iff.mp ha
    obtain ⟨hq', hqb⟩ := List.getElem?_eq_some_iff.mp hb
    exact hq ((h.nodup.getElem_inj_iff).mp (hpa.trans hqb.symm))
  obtain ⟨hd', hlist', hes'⟩ := hspares.others b hd es hne hlist hes
  exact ⟨hd', es, hlist', hes', hstore⟩

theorem Represents.edited (hp : p < c.length) (hedit : Edited st.store t a es)
    (hes : Stores T es m) :
    Represents T { st with store := t } (c.set p (some m)) := by
  refine ⟨by rw [List.length_set]; exact h.length, h.nodup,
    fun b hb => (h.inside b hb).trans_le hedit.spares.length, fun q b m' hb hm' => ?_⟩
  rw [map_set hp] at hm'
  split at hm'
  · rename_i hpq
    subst hpq
    cases hm'
    obtain rfl : a = b := Option.mem_unique ha hb
    obtain ⟨hd, hlist, hspell⟩ := hedit.carries
    exact ⟨hd, es, hlist, hspell, hes⟩
  · rename_i hpq
    exact h.spared ha hedit.spares hpq hb hm'

theorem Represents.destroyed (hp : p < c.length) (hspares : Spares st.store t a) :
    Represents T { st with store := t } (c.set p none) := by
  refine ⟨by rw [List.length_set]; exact h.length, h.nodup,
    fun b hb => (h.inside b hb).trans_le hspares.length, fun q b m' hb hm' => ?_⟩
  rw [map_set hp] at hm'
  split at hm'
  · cases hm'
  · rename_i hpq
    exact h.spared ha hspares hpq hb hm'

end

theorem Represents.created (h : Represents T st c) (hedit : Edited st.store t st.store.length es)
    (hes : Stores T es m) :
    Represents T { store := t, lists := st.lists ++ [st.store.length] } (c ++ [some m]) := by
  have hnew : st.store.length < t.length := by
    obtain ⟨hd, hlist, -⟩ := hedit.carries
    exact Store.lt_length hlist
  refine ⟨?_, ?_, fun b hb => ?_, fun q b m' hb hm' => ?_⟩
  · rw [List.length_append, List.length_append, h.length]
    rfl
  · refine List.nodup_append.mpr ⟨h.nodup, List.nodup_singleton _, fun b hb b' hb' => ?_⟩
    rw [List.mem_singleton] at hb'
    exact hb' ▸ Nat.ne_of_lt (h.inside b hb)
  · rcases List.mem_append.mp hb with hb | hb
    · exact (h.inside b hb).trans_le hedit.spares.length
    · rw [List.mem_singleton.mp hb]
      exact hnew
  · rw [TagMaps.map] at hm'
    by_cases hq : q < c.length
    · rw [List.getElem?_append_left (h.length ▸ hq)] at hb
      rw [List.getElem?_append_left hq] at hm'
      obtain ⟨hd, fs, hlist, hfs, hstore⟩ := h.alive q b m' hb hm'
      have hne : b ≠ st.store.length :=
        Nat.ne_of_lt (h.inside b (List.mem_of_getElem? hb))
      obtain ⟨hd', hlist', hfs'⟩ := hedit.spares.others b hd fs hne hlist hfs
      exact ⟨hd', fs, hlist', hfs', hstore⟩
    · have hq' := Nat.le_of_not_lt hq
      rw [List.getElem?_append_right (h.length ▸ hq'), h.length] at hb
      rw [List.getElem?_append_right hq'] at hm'
      cases hk : q - c.length with
      | zero =>
        rw [hk] at hb hm'
        obtain rfl : st.store.length = b := Option.some.inj hb
        obtain rfl : m = m' := Option.some.inj hm'
        obtain ⟨hd, hlist, hspell⟩ := hedit.carries
        exact ⟨hd, es, hlist, hspell, hes⟩
      | succ k =>
        rw [hk] at hb
        cases hb

/-! ## Steps and runs -/

variable {call : TagCall τ} {P : TagLists → TagCall τ → Prop} {calls : List (TagCall τ)}

/-- The call is a `Replace` that rewrites a node in place with more bytes than it has room for. -/
def Overflows (T : TagInterface τ) (st : TagLists) (call : TagCall τ) : Prop :=
  ∃ p tag a, call = .replace p tag ∧ st.address p = .ok a ∧ OverflowsInPlace T st.store a tag

variable {o : TagOutcome τ}

theorem step_refines (hs : Sound st.store) (h : Represents T st c) (hroom : Room st.store none)
    (hfits : ¬Overflows T st call) {c' : TagMaps τ} (hexec : c.exec T call = some (c', o)) :
    ∃ st', st.exec T call = .ok (st', o) ∧ Sound st'.store ∧ Represents T st' c' := by
  cases call with
  | create =>
    cases hexec
    have hedit := create_edited hs
    exact ⟨_, rfl, hedit.sound, h.created hedit .nil⟩
  | copy o =>
    obtain ⟨m, hm, heq⟩ := Option.map_eq_some_iff.mp hexec
    cases heq
    obtain ⟨a, hd, es, haddr, -, hlist, hes, hstore⟩ := h.address hm
    obtain ⟨t, hcopy, hedit⟩ := copy_of hs hlist hes hroom
    refine ⟨_, ?_, hedit.sound, h.created hedit hstore⟩
    rw [exec, haddr, ok_bind, hcopy]
    rfl
  | assign p o =>
    obtain ⟨m, hm, hexec⟩ := Option.bind_eq_some_iff.mp hexec
    obtain ⟨m', hm', heq⟩ := Option.bind_eq_some_iff.mp hexec
    cases heq
    obtain ⟨a, hd, es, haddr, ha, hlist, hes, -⟩ := h.address hm
    obtain ⟨b, hd', fs, haddr', -, hlist', hfs, hstore⟩ := h.address hm'
    obtain ⟨t, hassign, hedit⟩ := assign_of hs hlist hes hroom hlist' hfs
    refine ⟨_, ?_, hedit.sound, h.edited ha (map_eq_some hm) hedit hstore⟩
    rw [exec, haddr, ok_bind, haddr', ok_bind, hassign]
    rfl
  | destroy p =>
    obtain ⟨m, hm, heq⟩ := Option.map_eq_some_iff.mp hexec
    cases heq
    obtain ⟨a, hd, es, haddr, ha, hlist, hes, -⟩ := h.address hm
    obtain ⟨t, hdestroy, hsound, -, hspares⟩ := destroy_of hs hlist hes hroom
    refine ⟨_, ?_, hsound, h.destroyed ha (map_eq_some hm) hspares⟩
    rw [exec, haddr, ok_bind, hdestroy]
    rfl
  | removeAll p =>
    obtain ⟨m, hm, heq⟩ := Option.map_eq_some_iff.mp hexec
    cases heq
    obtain ⟨a, hd, es, haddr, ha, hlist, hes, -⟩ := h.address hm
    obtain ⟨t, hremove, hedit, -⟩ := removeAll_of hs hlist hes hroom
    refine ⟨_, ?_, hedit.sound, h.edited ha (map_eq_some hm) hedit .nil⟩
    rw [exec, haddr, ok_bind, hremove]
    rfl
  | add p tag =>
    obtain ⟨m, hm, hexec⟩ := Option.bind_eq_some_iff.mp hexec
    split at hexec
    · cases hexec
    · rename_i hno
      cases hexec
      obtain ⟨a, hd, es, haddr, ha, hlist, hes, hstore⟩ := h.address hm
      obtain ⟨t, rest, hadd, hlen, hedit⟩ :=
        add_absent hs hlist hes tag fun hmem => hno (hstore.mem_iff.mp hmem)
      refine ⟨_, ?_, hedit.sound, h.edited ha (map_eq_some hm) hedit (hstore.insert hno hlen)⟩
      rw [exec, haddr, ok_bind, hadd]
      rfl
  | replace p tag =>
    obtain ⟨m, hm, heq⟩ := Option.map_eq_some_iff.mp hexec
    obtain ⟨a, hd, es, haddr, ha, hlist, hes, hstore⟩ := h.address hm
    split at heq
    · rename_i hmem
      cases heq
      obtain ⟨t, bs, data, fs, rest, hreplace, rfl, hno, hlen, hedit⟩ :=
        replace_present hs hlist hes hroom hstore.sized (hstore.mem_iff.mpr hmem)
          fun hover => hfits ⟨p, tag, a, rfl, haddr, hover⟩
      obtain ⟨v, -, -, -, hput⟩ := Stores.split hstore hno
      refine ⟨_, ?_, hedit.sound, h.edited ha (map_eq_some hm) hedit
        (hput tag _ ⟨rfl, rfl, hlen, rest, rfl⟩)⟩
      rw [exec, haddr, ok_bind, hreplace]
      rfl
    · rename_i hno
      cases heq
      obtain ⟨t, rest, hreplace, hlen, hedit⟩ := replace_absent hs hlist hes
        hroom hstore.sized tag fun hmem => hno (hstore.mem_iff.mp hmem)
      refine ⟨_, ?_, hedit.sound, h.edited ha (map_eq_some hm) hedit (hstore.insert hno hlen)⟩
      rw [exec, haddr, ok_bind, hreplace]
      rfl
  | remove p tag =>
    obtain ⟨m, hm, heq⟩ := Option.map_eq_some_iff.mp hexec
    cases heq
    obtain ⟨a, hd, es, haddr, ha, hlist, hes, hstore⟩ := h.address hm
    cases hv : m.lookup (T.getInstanceTypeId tag) with
    | none =>
      have hno : T.getInstanceTypeId tag ∉ m := AList.lookup_eq_none.mp hv
      have hremove := remove_absent hs hlist hes hroom hstore.sized tag
        fun hmem => hno (hstore.mem_iff.mp hmem)
      have herase : Stores T es (m.erase (T.getInstanceTypeId tag)) := by
        change List.Forall₂ _ _ (List.kerase _ m.entries)
        rw [List.kerase_of_notMem_keys hno]
        exact hstore
      refine ⟨_, ?_, hs, h.edited ha (map_eq_some hm) (.refl hs hlist hes) herase⟩
      rw [exec, haddr, ok_bind, hremove]
      rfl
    | some v =>
      have hmem : T.getInstanceTypeId tag ∈ types es :=
        hstore.mem_iff.mpr (AList.lookup_isSome.mp (by rw [hv]; rfl))
      obtain ⟨t, bs, data, fs, hremove, rfl, hno, hedit⟩ :=
        remove_present hs hlist hes hroom hstore.sized hmem (hstore.readable hv)
      obtain ⟨-, -, -, herase, -⟩ := Stores.split hstore hno
      refine ⟨_, ?_, hedit.sound, h.edited ha (map_eq_some hm) hedit herase⟩
      rw [exec, haddr, ok_bind, hremove]
      rfl
  | peek p tag =>
    obtain ⟨m, hm, heq⟩ := Option.map_eq_some_iff.mp hexec
    cases heq
    obtain ⟨a, hd, es, haddr, ha, hlist, hes, hstore⟩ := h.address hm
    refine ⟨st, ?_, hs, h⟩
    rw [exec, haddr, ok_bind]
    cases hv : m.lookup (T.getInstanceTypeId tag) with
    | none =>
      have hno : T.getInstanceTypeId tag ∉ m := AList.lookup_eq_none.mp hv
      rw [peek_absent hlist hes fun hmem => hno (hstore.mem_iff.mp hmem)]
      rfl
    | some v =>
      have hmem : T.getInstanceTypeId tag ∈ types es :=
        hstore.mem_iff.mpr (AList.lookup_isSome.mp (by rw [hv]; rfl))
      rw [peek_present hlist hes hmem (hstore.readable hv)]
      rfl

def Along (T : TagInterface τ) (st : TagLists) (calls : List (TagCall τ))
    (P : TagLists → TagCall τ → Prop) : Prop :=
  ∀ pre call st' os, pre ++ [call] <+: calls → st.run T pre = .ok (st', os) → P st' call

theorem Along.head (h : Along T st (call :: calls) P) : P st call :=
  h [] call st [] (List.cons_prefix_cons.mpr ⟨rfl, List.nil_prefix⟩) rfl

theorem Along.tail {st₁ : TagLists} (h : Along T st (call :: calls) P)
    (hexec : st.exec T call = .ok (st₁, o)) : Along T st₁ calls P := by
  intro pre call' st' os hpre hrun
  refine h (call :: pre) call' st' (o :: os) (List.cons_prefix_cons.mpr ⟨rfl, hpre⟩) ?_
  rw [run, hexec, ok_bind]
  dsimp only
  rw [hrun]
  rfl

theorem Along.last (h : P st call) : Along T st [call] P := by
  intro pre call' st' os hpre hrun
  obtain ⟨rfl, rfl⟩ := before_singleton hpre
  cases hrun
  exact h

theorem Along.cons {st₁ : TagLists} (hhead : P st call) (hexec : st.exec T call = .ok (st₁, o))
    (htail : Along T st₁ calls P) : Along T st (call :: calls) P := by
  intro pre call' st' os hpre hrun
  obtain ⟨rfl, rfl⟩ | ⟨pre, rfl, hafter⟩ := before_cons hpre
  · cases hrun
    exact hhead
  · rw [run, hexec, ok_bind] at hrun
    obtain ⟨⟨st₂, os₂⟩, hrest, heq⟩ := bind_eq_ok.mp hrun
    obtain ⟨rfl, -⟩ := pair_of_ok heq
    exact htail pre call' st₂ os₂ hafter hrest

/-- Lists that share their nodes behave like maps of their own. -/
theorem run_refines (hs : Sound st.store) (h : Represents T st c)
    (hroom : Along T st calls fun st _ => Room st.store none)
    (hfits : Along T st calls fun st call => ¬Overflows T st call) {c' : TagMaps τ}
    {outs : List (TagOutcome τ)} (hlegal : TagMaps.run T c calls = some (c', outs)) :
    ∃ st', st.run T calls = .ok (st', outs) ∧ Sound st'.store ∧ Represents T st' c' := by
  induction calls generalizing st c c' outs with
  | nil =>
    cases hlegal
    exact ⟨st, rfl, hs, h⟩
  | cons call calls ih =>
    obtain ⟨⟨c₁, o⟩, hexec, hlegal⟩ := Option.bind_eq_some_iff.mp hlegal
    obtain ⟨⟨c₂, os⟩, hrest, heq⟩ := Option.bind_eq_some_iff.mp hlegal
    cases heq
    obtain ⟨st₁, hstep, hs₁, h₁⟩ := step_refines hs h hroom.head hfits.head hexec
    obtain ⟨st₂, hrun, hs₂, h₂⟩ := ih hs₁ h₁ (hroom.tail hstep) (hfits.tail hstep) hrest
    refine ⟨st₂, ?_, hs₂, h₂⟩
    rw [run, hstep, ok_bind]
    dsimp only
    rw [hrun]
    rfl

theorem exec_of_run {pre : List (TagCall τ)} {st' st'' : TagLists} {os outs : List (TagOutcome τ)}
    (hpre : pre ++ [call] <+: calls) (hrun : st.run T calls = .ok (st'', outs))
    (hst : st.run T pre = .ok (st', os)) : ∃ r, st'.exec T call = .ok r := by
  induction pre generalizing st calls st'' outs os with
  | nil =>
    obtain ⟨rest, rfl⟩ := hpre
    cases hst
    obtain ⟨r, hr, -⟩ := bind_eq_ok.mp hrun
    exact ⟨r, hr⟩
  | cons first pre ih =>
    obtain ⟨rest, rfl⟩ := hpre
    rw [List.cons_append, List.cons_append] at hrun
    obtain ⟨r, hr, hrun⟩ := bind_eq_ok.mp hrun
    obtain ⟨r', hr', hst⟩ := bind_eq_ok.mp hst
    cases hr.symm.trans hr'
    obtain ⟨⟨s₁, os₁⟩, hrest, -⟩ := bind_eq_ok.mp hrun
    obtain ⟨⟨s₂, os₂⟩, hprefix, heq⟩ := bind_eq_ok.mp hst
    cases heq
    exact ih ⟨rest, rfl⟩ hrest hprefix

theorem not_overflows_of_exec {r : TagLists × TagOutcome τ} (hexec : st.exec T call = .ok r) :
    ¬Overflows T st call := by
  rintro ⟨p, tag, a, rfl, haddr, hover⟩
  rw [exec, haddr, ok_bind] at hexec
  obtain ⟨r', hr', -⟩ := bind_eq_ok.mp hexec
  exact not_overflows_of_replace hr' hover

/-- The run returns, with the results that it has for the maps; in the end each list carries the
entries of its map, and the counts are exact. -/
def Conforms (T : TagInterface τ) (calls : List (TagCall τ)) (c : TagMaps τ)
    (outs : List (TagOutcome τ)) : Prop :=
  ∃ st, initial.run T calls = .ok (st, outs) ∧ Represents T st c ∧ CountsExact st

/-- Every run of calls in which no count reaches its maximum: the lists are maps of their own, and
the counts are exact, as long as no tag is written in place into a node that is too small for it. -/
theorem packet_tags_isolated_iff {calls : List (TagCall τ)} {c : TagMaps τ}
    {outs : List (TagOutcome τ)} (hlegal : TagMaps.run T [] calls = some (c, outs))
    (hroom : Along T initial calls fun st _ => Room st.store none) :
    Conforms T calls c outs ↔ Along T initial calls fun st call => ¬Overflows T st call := by
  constructor
  · rintro ⟨st, hrun, -⟩ pre call st' os hpre hst
    obtain ⟨r, hr⟩ := exec_of_run hpre hrun hst
    exact not_overflows_of_exec hr
  · intro hfits
    obtain ⟨st, hrun, hs, h⟩ :=
      run_refines sound_initial represents_initial hroom hfits hlegal
    exact ⟨st, hrun, h, fun a d hd => hs.node_refs hd⟩

/-! ## Two runs -/

theorem room_of (h : (st.store.all fun c => c.all fun x => decide (x.count + 1 < 2 ^ 32)) = true) :
    Room st.store none := by
  intro a d hd
  have hmem : some (.node d) ∈ st.store := by
    rw [Store.get, Option.join_eq_some_iff] at hd
    exact List.mem_of_getElem? hd
  have hlt : d.count + 1 < 2 ^ 32 := of_decide_eq_true (List.all_eq_true.mp h _ hmem)
  exact ⟨Nat.lt_of_succ_lt hlt, fun _ => hlt⟩

section Examples

open DeviceNameTag

def shortName : DeviceNameTag := ⟨[97], by decide⟩

def longName : DeviceNameTag := ⟨[98, 99], by decide⟩

def sharedReplace : List (TagCall DeviceNameTag) :=
  [.create, .add 0 shortName, .copy 0, .replace 1 longName]

def ownReplace : List (TagCall DeviceNameTag) :=
  [.create, .add 0 shortName, .replace 0 longName]

theorem packet_tags_isolated_shared :
    ∃ c outs, TagMaps.run tags [] sharedReplace = some (c, outs) ∧
      Conforms tags sharedReplace c outs := by
  have hroom : Along tags initial sharedReplace fun st _ => Room st.store none := by
    exact .cons (room_of rfl) rfl (.cons (room_of rfl) rfl (.cons (room_of rfl) rfl
      (.last (room_of rfl))))
  have hfits : Along tags initial sharedReplace fun st call => ¬Overflows tags st call := by
    refine .cons ?_ rfl (.cons ?_ rfl (.cons ?_ rfl (.last ?_)))
    · rintro ⟨p, tag, a, hcall, -⟩
      cases hcall
    · rintro ⟨p, tag, a, hcall, -⟩
      cases hcall
    · rintro ⟨p, tag, a, hcall, -⟩
      cases hcall
    · rintro ⟨p, tag, a, hcall, haddr, h, i, cur, d, hhead, hsearch, -⟩
      cases hcall
      cases haddr
      cases hhead
      cases hsearch
  exact ⟨_, _, rfl, (packet_tags_isolated_iff rfl hroom).mpr hfits⟩

theorem packet_tags_overflow :
    ∃ c outs, TagMaps.run tags [] ownReplace = some (c, outs) ∧
      (Along tags initial ownReplace fun st _ => Room st.store none) ∧
      initial.run tags ownReplace = .error .assertFailed ∧ ¬Conforms tags ownReplace c outs := by
  refine ⟨_, _, rfl, .cons (room_of rfl) rfl (.cons (room_of rfl) rfl (.last (room_of rfl))), rfl,
    ?_⟩
  rintro ⟨st, hrun, -⟩
  cases hrun

end Examples

end TagLists

end Ns3
