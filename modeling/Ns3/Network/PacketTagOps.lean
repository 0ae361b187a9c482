/-
  The operations of a tag list, on what the list carries.

  A list carries the types and the bytes of its nodes, from the head on.  Every operation
  returns, has an effect on its own list only, and keeps the counts; `Replace` does so
  unless it rewrites a node in place with more bytes than the node has room for.
-/
import Ns3.Network.PacketTagWrites

namespace Ns3.TagStore

open Ns3.Lib

variable {s t u : TagStore} {p i cur fuel : Nat} {v h : Option Nat} {tid : TypeId}
  {d : TagData} {es fs bs : List (TypeId × List UInt8)}

/-! ## Searching -/

def types (es : List (TypeId × List UInt8)) : List TypeId := es.map Prod.fst

theorem types_append : types (es ++ fs) = types es ++ types fs := List.map_append

theorem types_cons (b : TypeId × List UInt8) : types (b :: es) = b.1 :: types es := rfl

theorem mem_types {data : List UInt8} : tid ∈ types (bs ++ (tid, data) :: fs) := by
  rw [types_append, types_cons]
  exact List.mem_append_right _ (.head _)

theorem findTid_of (tid : TypeId) (h : Spells s v es) (hfuel : es.length ≤ fuel) :
    (tid ∉ types es ∧ s.findTid tid fuel v = .ok none) ∨
      ∃ a d bs fs, s.findTid tid fuel v = .ok (some a) ∧ s.get a = some (.node d) ∧ d.tid = tid ∧
        es = bs ++ (tid, d.data) :: fs ∧ tid ∉ types bs := by
  induction h generalizing fuel with
  | nil =>
    refine .inl ⟨List.not_mem_nil, ?_⟩
    cases fuel <;> rfl
  | @cons a x b es hx hb hrest ih =>
    cases fuel with
    | zero => cases hfuel
    | succ fuel =>
      obtain ⟨d, rfl⟩ := node_of_entry (x := x) (by rw [← body_eq, hb]; rfl)
      obtain rfl : (d.tid, d.data) = b := Option.some.inj hb
      rw [findTid, node_eq_ok.mpr hx, ok_bind]
      by_cases htid : d.tid = tid
      · refine .inr ⟨a, d, [], es, if_pos htid, hx, htid, ?_, List.not_mem_nil⟩
        rw [htid]
        rfl
      · rw [if_neg htid]
        rcases ih (Nat.le_of_succ_le_succ hfuel) with
          ⟨hno, hfind⟩ | ⟨a', d', bs, fs, hfind, hd', htid', rfl, hno⟩
        · refine .inl ⟨fun hmem => ?_, hfind⟩
          rcases List.mem_cons.mp hmem with heq | hmem
          · exact htid heq.symm
          · exact hno hmem
        · refine .inr ⟨a', d', (d.tid, d.data) :: bs, fs, hfind, hd', htid', rfl, fun hmem => ?_⟩
          rcases List.mem_cons.mp hmem with heq | hmem
          · exact htid heq.symm
          · exact hno hmem

theorem findTid_absent (h : Spells s v es) (hfuel : es.length ≤ fuel) (hno : tid ∉ types es) :
    s.findTid tid fuel v = .ok none := by
  rcases findTid_of tid h hfuel with ⟨-, hfind⟩ | ⟨a, d, bs, fs, -, -, -, rfl, -⟩
  · exact hfind
  · exact absurd mem_types hno

/-- What the search of `COWTraverse` has found out when it stops. -/
inductive SearchStop (s : TagStore) (p : Nat) (tid : TypeId)
    (es : List (TypeId × List UInt8)) : Stop → Prop where
  | ended : tid ∉ types es → SearchStop s p tid es .ended
  | found {i cur : Nat} {bs fs : List (TypeId × List UInt8)} {d : TagData} :
      es = bs ++ (tid, d.data) :: fs → tid ∉ types bs →
      Cursor s p i bs (some cur) ((tid, d.data) :: fs) → s.get cur = some (.node d) →
      d.tid = tid → d.count ≤ 1 → SearchStop s p tid es (.found i cur)
  | merge {i cur : Nat} {bs fs : List (TypeId × List UInt8)} {d : TagData} :
      es = bs ++ fs → tid ∉ types bs → Cursor s p i bs (some cur) fs →
      s.get cur = some (.node d) → 1 < d.count → SearchStop s p tid es (.merge i cur)

theorem search_of (tid : TypeId) (hs : Sound s) (hc : Cursor s p i bs v es) (hno : tid ∉ types bs)
    (hfuel : es.length ≤ fuel) :
    ∃ stop, s.search tid fuel i v = .ok stop ∧ SearchStop s p tid (bs ++ es) stop := by
  induction fuel generalizing i v bs es with
  | zero =>
    obtain rfl := List.eq_nil_of_length_eq_zero (Nat.le_zero.mp hfuel)
    cases v with
    | none => exact ⟨.ended, rfl, .ended (by rw [List.append_nil]; exact hno)⟩
    | some a =>
      obtain ⟨d, fs, -, heq, -⟩ := spells_node hc.rest
      cases heq
  | succ fuel ih =>
    cases v with
    | none =>
      cases hc.rest
      exact ⟨.ended, rfl, .ended (by rw [List.append_nil]; exact hno)⟩
    | some a =>
      obtain ⟨d, fs, hd, rfl, hrest⟩ := spells_node hc.rest
      rw [search, node_eq_ok.mpr hd, ok_bind]
      by_cases hcount : d.count > 1
      · rw [if_pos hcount]
        exact ⟨_, rfl, .merge rfl hno hc hd hcount⟩
      rw [if_neg hcount]
      by_cases htid : d.tid = tid
      · rw [if_pos htid]
        subst htid
        exact ⟨_, rfl, .found rfl hno hc hd rfl (by omega)⟩
      · rw [if_neg htid]
        obtain ⟨fs', heq, hc'⟩ := hc.forward hs hd (by omega)
        obtain rfl := (List.cons.inj heq).2
        have hno' : tid ∉ types (bs ++ [(d.tid, d.data)]) := by
          rw [types_append, List.mem_append, not_or]
          exact ⟨hno, fun hmem => htid (List.mem_singleton.mp hmem).symm⟩
        obtain ⟨stop, hsearch, hstop⟩ := ih hc' hno' (Nat.le_of_succ_le_succ hfuel)
        rw [List.append_assoc] at hstop
        exact ⟨stop, hsearch, hstop⟩

/-! ## Copying -/

section

variable (hs : Sound s) (hp : s.get p = some (.list h)) (hc : Cursor s p i bs (some cur) es)
  (hd : s.get cur = some (.node d)) (hshared : 1 < d.count) (hroom : Room s (some cur))

include hs hp hc hd hshared hroom

theorem copyNode_of (hlen : d.data.length < 2 ^ 32 - 1) {n : Nat} (hn : d.next = some n) :
    ∃ t fs dn, s.copyNode i cur = .ok (t, s.length) ∧ es = (d.tid, d.data) :: fs ∧
      Edited s t p (bs ++ es) ∧ Cursor t p s.length (bs ++ [(d.tid, d.data)]) (some n) fs ∧
      t.get n = some (.node dn) ∧ 1 < dn.count ∧ Room t (some n) := by
  obtain ⟨s₁, s₂, t, fs, hdec, hcur₁, hlen₁, hinc, hset, rfl, hedit, hc', hroom', hpoints⟩ :=
    relink (w := { next := d.next, count := 1, tid := d.tid, data := d.data }) hs hp hc hd hshared
      hroom rfl rfl
  rw [hn] at hc' hroom' hinc
  obtain ⟨dn, gs, hdn, -, -⟩ := spells_node hc'.rest
  -- the node is linked to from the copy and from the node that was copied
  have htwo : 1 < dn.count := by
    rw [hedit.sound.node_refs hdn]
    by_contra hle
    obtain ⟨x, hx, hlink⟩ := hc'.here
    have heq := sole_owner (Nat.le_of_not_lt hle) ⟨x, hx, hlink⟩ (hpoints n hn)
    exact Store.ne_length hd heq.symm
  refine ⟨t, fs, dn, ?_, rfl, hedit, hc', hdn, htwo, hroom'⟩
  have hcreate := createTagData_of (s := s₁)
    (w := { next := some n, count := 1, tid := d.tid, data := d.data }) hlen
  rw [copyNode, hdec, ok_bind, node_eq_ok.mpr hcur₁, ok_bind]
  dsimp only
  rw [hn, hcreate, ok_bind, hlen₁]
  change (incNext _ (some n) >>= _) = _
  rw [hinc, ok_bind, hset]
  rfl

theorem copyLoop_of (hsized : ∀ b ∈ es, b.2.length < 2 ^ 32 - 1) (hmem : tid ∈ types es)
    (hno : tid ∉ types bs) (hfuel : es.length ≤ fuel) :
    ∃ t j c d' bs' fs', copyLoop tid fuel s i cur = .ok (t, j, c) ∧ Edited s t p (bs ++ es) ∧
      bs ++ es = bs' ++ (tid, d'.data) :: fs' ∧ tid ∉ types bs' ∧
      Cursor t p j bs' (some c) ((tid, d'.data) :: fs') ∧ t.get c = some (.node d') ∧
      d'.tid = tid ∧ 1 < d'.count ∧ Room t (some c) := by
  induction fuel generalizing s i cur bs es d h with
  | zero =>
    rw [List.eq_nil_of_length_eq_zero (Nat.le_zero.mp hfuel)] at hmem
    cases hmem
  | succ fuel ih =>
    obtain ⟨d', fs, hd', rfl, hrest⟩ := spells_node hc.rest
    obtain rfl : d = d' := TagObject.node.inj (Option.mem_unique hd hd')
    rw [copyLoop, node_eq_ok.mpr hd, ok_bind]
    by_cases htid : d.tid = tid
    · rw [if_pos htid]
      subst htid
      obtain ⟨x, hx, hlink⟩ := hc.here
      obtain ⟨y, hy, hspell⟩ := hc.way.leads.spells hx (by rw [link_eq, hlink]; exact hc.rest)
      obtain rfl := Option.mem_unique hp hy
      exact ⟨s, i, cur, d, bs, fs, rfl, .refl hs hp hspell, rfl, hno, hc, hd, rfl, hshared, hroom⟩
    · rw [if_neg htid, nsAssert_of (show d.count > 1 from hshared), ok_bind]
      have hmem' : tid ∈ types fs := (List.mem_cons.mp hmem).resolve_left (Ne.symm htid)
      cases hn : d.next with
      | none =>
        rw [hn] at hrest
        cases hrest
        cases hmem'
      | some n =>
        obtain ⟨t, fs', dn, hcopy, heq, hedit, hc', hdn, htwo, hroom'⟩ :=
          copyNode_of hs hp hc hd hshared hroom (hsized _ (.head _)) hn
        obtain rfl := (List.cons.inj heq).2
        obtain ⟨h', hp', -⟩ := hedit.carries
        have hno' : tid ∉ types (bs ++ [(d.tid, d.data)]) := by
          rw [types_append, List.mem_append, not_or]
          exact ⟨hno, fun hm => htid (List.mem_singleton.mp hm).symm⟩
        obtain ⟨u, j, c, d', bs', fs'', hloop, hedit', hsplit, hrest'⟩ :=
          ih hedit.sound hp' hc' hdn htwo hroom' (fun b hb => hsized b (.tail _ hb))
            hmem' hno' (Nat.le_of_succ_le_succ hfuel)
        rw [List.append_assoc] at hedit' hsplit
        refine ⟨u, j, c, d', bs', fs'', ?_, hedit.trans hedit', hsplit, hrest'⟩
        rw [hcopy, ok_bind]
        exact hloop

end

/-! ## Whole lists -/

section

variable (hs : Sound s) (hp : s.get p = some (.list h)) (hes : Spells s h es)
  (hroom : Room s none)

include hs hp hes hroom

theorem removeAll_of :
    ∃ t, s.removeAll p = .ok t ∧ Edited s t p [] ∧ Room t none ∧ t.get p = some (.list none) := by
  obtain ⟨hdrop, hspares⟩ := detach hs hp hes hroom
  obtain ⟨t, h', hloop, ht, hsound, hroom', hspares'⟩ :=
    removeAllLoop_of none hp nofun hdrop (Nat.le_succ_of_le hes.length_le)
  have hpt : (t.put p (.list none)).get p = some (.list none) := Store.get_put_self ht
  refine ⟨t.put p (.list none), ?_, ⟨hsound, ⟨none, hpt, .nil⟩, hspares.trans hspares'⟩,
    hroom', hpt⟩
  rw [removeAll, head_eq_ok.mpr hp, ok_bind, hloop, ok_bind]
  exact setNext_of ht

theorem copy_of : ∃ t, s.copy p = .ok (t, s.length) ∧ Edited s t s.length es := by
  have hcreate := create_edited hs
  have hlist : Store.get (s.alloc (.list none)) s.length = some (.list none) := by
    rw [Store.get_alloc, if_pos rfl]
  obtain ⟨h', hp', hes'⟩ := hcreate.spares.others p h es (Store.ne_length hp) hp hes
  obtain rfl : h = h' := TagObject.list.inj
    (Option.some.inj ((Store.get_alloc_of_get hp).symm.trans hp'))
  have hroom' : Room (s.alloc (.list none)) none := by
    intro a d hd
    rw [Store.get_alloc] at hd
    split at hd
    · cases hd
    · exact hroom a d hd
  obtain ⟨t, hinc, hedit⟩ := share hcreate.sound hlist hes' hroom'
  rw [Store.put_alloc] at hinc
  refine ⟨t, ?_, hcreate.trans hedit⟩
  rw [copy, head_eq_ok.mpr hp, ok_bind, hinc]
  rfl

theorem assign_of {o : Nat} {h' : Option Nat} (ho : s.get o = some (.list h'))
    (hfs : Spells s h' fs) : ∃ t, s.assign p o = .ok t ∧ Edited s t p fs := by
  rw [assign, head_eq_ok.mpr hp, ok_bind, head_eq_ok.mpr ho, ok_bind]
  by_cases heq : h = h'
  · subst heq
    exact ⟨s, if_pos rfl, .refl hs hp hfs⟩
  · rw [if_neg heq]
    obtain ⟨s₁, hremove, hedit, hroom', hp₁⟩ := removeAll_of hs hp hes hroom
    have hop : o ≠ p := by
      rintro rfl
      exact heq (TagObject.list.inj (Option.mem_unique hp ho))
    obtain ⟨h₁, ho₁, hfs₁⟩ := hedit.spares.others o h' fs hop ho hfs
    obtain ⟨t, hinc, hedit'⟩ := share hedit.sound hp₁ hfs₁ hroom'
    refine ⟨t, ?_, hedit.trans hedit'⟩
    rw [hremove, ok_bind, head_eq_ok.mpr ho₁, ok_bind, setNext_of hp₁, ok_bind]
    exact hinc

theorem destroy_of :
    ∃ t, s.destroy p = .ok t ∧ Sound t ∧ t.get p = none ∧ Spares s t p := by
  obtain ⟨s₁, hremove, hedit, -, hp₁⟩ := removeAll_of hs hp hes hroom
  obtain ⟨hsound, hgone, hspares⟩ := free_list hedit.sound hp₁
  refine ⟨s₁.free p, ?_, hsound, hgone, hedit.spares.trans hspares⟩
  rw [destroy, hremove]
  rfl

end

/-! ## Copy on write -/

variable {τ : Type} {T : TagInterface τ} {tag : τ}

theorem Room.weaken (hroom : Room s none) (v : Option Nat) : Room s v := fun a d hd =>
  ⟨(hroom a d hd).1, fun _ => (hroom a d hd).2 nofun⟩

/-- The type of the call, where the writer is called: the node, and what is carried before and
behind it. -/
structure Located (s : TagStore) (p i cur : Nat) (tid : TypeId) (d : TagData)
    (bs fs : List (TypeId × List UInt8)) : Prop where
  cursor : Cursor s p i bs (some cur) ((tid, d.data) :: fs)
  node : s.get cur = some (.node d)
  tid_eq : d.tid = tid
  fresh : tid ∉ types bs

/-- The value that `tag` is given from the bytes of its type. -/
def Readable (T : TagInterface τ) (tag : τ) (es : List (TypeId × List UInt8)) (t : τ) : Prop :=
  ∀ bs data fs, es = bs ++ (T.getInstanceTypeId tag, data) :: fs →
    T.getInstanceTypeId tag ∉ types bs → T.deserialize tag data = .ok t

/-- `Replace` finds the node of the type before any that is shared, and the tag writes more bytes
than that node has room for. -/
def OverflowsInPlace (T : TagInterface τ) (s : TagStore) (p : Nat) (tag : τ) : Prop :=
  ∃ h i cur d, s.head p = .ok h ∧
    s.search (T.getInstanceTypeId tag) (s.length + 1) p h = .ok (.found i cur) ∧
    s.node cur = .ok d ∧ d.data.length < (T.serialize tag).length

theorem serializeTo_new (T : TagInterface τ) (tag : τ) :
    ∃ rest, serializeTo (List.replicate (T.getSerializedSize tag) 0) (T.serialize tag) =
        .ok (T.serialize tag ++ rest) ∧
      (T.serialize tag ++ rest).length < 2 ^ 32 - 1 := by
  have hle := T.serialize_le tag
  have hlt := T.size_lt tag
  refine ⟨_, serializeTo_of (by rw [List.length_replicate]; exact hle), ?_⟩
  rw [List.length_append, List.length_drop, List.length_replicate]
  omega

theorem not_overflows_of_replace {r : TagStore × Bool} (hrun : s.replace T p tag = .ok r) :
    ¬OverflowsInPlace T s p tag := by
  rintro ⟨h, i, cur, d, hp, hfound, hd, hlt⟩
  rw [replace, cowTraverse, hp, ok_bind, hfound, ok_bind] at hrun
  dsimp only at hrun
  rw [replaceWriter, if_pos rfl, hd, ok_bind] at hrun
  obtain ⟨r₁, hr₁, -⟩ := bind_eq_ok.mp hrun
  obtain ⟨r₂, hr₂, -⟩ := bind_eq_ok.mp hr₁
  obtain ⟨data, hdata, -⟩ := bind_eq_ok.mp hr₂
  have hle := length_le_of_serializeTo hdata
  omega

theorem peek_absent (hp : s.get p = some (.list h)) (hes : Spells s h es)
    (hno : T.getInstanceTypeId tag ∉ types es) : s.peek T p tag = .ok none := by
  rw [peek, head_eq_ok.mpr hp, ok_bind, findTid_absent hes (Nat.le_succ_of_le hes.length_le) hno]
  rfl

theorem peek_present (hp : s.get p = some (.list h)) (hes : Spells s h es)
    (hmem : T.getInstanceTypeId tag ∈ types es) {r : τ} (hread : Readable T tag es r) :
    s.peek T p tag = .ok (some r) := by
  rw [peek, head_eq_ok.mpr hp, ok_bind]
  rcases findTid_of (T.getInstanceTypeId tag) hes (Nat.le_succ_of_le hes.length_le) with
    ⟨hno, -⟩ | ⟨a, d, bs, fs, hfind, hd, -, hsplit, hno⟩
  · exact absurd hmem hno
  · rw [hfind, ok_bind]
    dsimp only
    rw [node_eq_ok.mpr hd, ok_bind, hread bs d.data fs hsplit hno]
    rfl

section

variable (hs : Sound s) (hp : s.get p = some (.list h)) (hes : Spells s h es)

include hs hp hes

theorem add_absent (tag : τ) (hno : T.getInstanceTypeId tag ∉ types es) :
    ∃ t rest, s.add T p tag = .ok t ∧ (T.serialize tag ++ rest).length < 2 ^ 32 - 1 ∧
      Edited s t p ((T.getInstanceTypeId tag, T.serialize tag ++ rest) :: es) := by
  obtain ⟨rest, hser, hlen⟩ := serializeTo_new T tag
  obtain ⟨t, hset, hedit⟩ :=
    prepend (w := ⟨h, 1, T.getInstanceTypeId tag, T.serialize tag ++ rest⟩) hs hp hes rfl rfl
  refine ⟨t, rest, ?_, hlen, hedit⟩
  have hcreate := createTagData_of (s := s)
    (w := ⟨h, 1, T.getInstanceTypeId tag, T.serialize tag ++ rest⟩) hlen
  rw [add, head_eq_ok.mpr hp, ok_bind, findTid_absent hes (Nat.le_succ_of_le hes.length_le) hno,
    ok_bind]
  change (serializeTo _ _ >>= _) = _
  rw [hser, ok_bind, hcreate, ok_bind]
  exact hset

variable (hroom : Room s none) (hsized : ∀ b ∈ es, b.2.length < 2 ^ 32 - 1)

include hroom hsized

theorem cowTraverse_of (tid : TypeId)
    (writer : TagStore → Bool → Nat → Nat → Except Fault (TagStore × τ)) :
    (tid ∉ types es ∧ s.cowTraverse p tid writer = .ok (s, none)) ∨
    (∃ i cur d bs fs, es = bs ++ (tid, d.data) :: fs ∧ Located s p i cur tid d bs fs ∧
      d.count ≤ 1 ∧ s.search tid (s.length + 1) p h = .ok (.found i cur) ∧
      s.cowTraverse p tid writer = writer s true cur i >>= fun r => pure (r.1, some r.2)) ∨
    ∃ t i cur d bs fs, es = bs ++ (tid, d.data) :: fs ∧ Edited s t p es ∧
      Located t p i cur tid d bs fs ∧ 1 < d.count ∧ Room t (some cur) ∧
      (∀ i cur, s.search tid (s.length + 1) p h ≠ .ok (.found i cur)) ∧
      s.cowTraverse p tid writer = writer t false cur i >>= fun r => pure (r.1, some r.2) := by
  have hfuel : es.length ≤ s.length + 1 := Nat.le_succ_of_le hes.length_le
  obtain ⟨stop, hsearch, hstop⟩ :=
    search_of tid hs (.start hs hp hes) List.not_mem_nil hfuel
  rw [cowTraverse, head_eq_ok.mpr hp, ok_bind, hsearch, ok_bind]
  rw [List.nil_append] at hstop
  cases hstop with
  | ended hno => exact .inl ⟨hno, rfl⟩
  | @found i cur bs fs d hsplit hno hc hd htid hone =>
    exact .inr (.inl ⟨i, cur, d, bs, fs, hsplit, ⟨hc, hd, htid, hno⟩, hone, rfl, rfl⟩)
  | @merge i cur bs fs d hsplit hno hc hd hshared =>
    have hlen : fs.length ≤ s.length + 1 := Nat.le_succ_of_le hc.rest.length_le
    rcases findTid_of tid hc.rest hlen with
      ⟨hnot, hfind⟩ | ⟨a, d', bs', fs', hfind, hd', htid, hsplit', -⟩
    · refine .inl ⟨?_, ?_⟩
      · rw [hsplit, types_append, List.mem_append, not_or]
        exact ⟨hno, hnot⟩
      · dsimp only
        rw [hfind]
        rfl
    · have hmem : tid ∈ types fs := hsplit' ▸ mem_types
      have hsized' : ∀ b ∈ fs, b.2.length < 2 ^ 32 - 1 := fun b hb =>
        hsized b (hsplit ▸ List.mem_append_right _ hb)
      obtain ⟨t, j, c, e, cs, gs, hloop, hedit, heq, hno', hc', he, hetid, htwo, hroom'⟩ :=
        copyLoop_of hs hp hc hd hshared (hroom.weaken _) hsized' hmem hno hlen
      rw [← hsplit] at hedit heq
      refine .inr (.inr ⟨t, j, c, e, cs, gs, heq, hedit, ⟨hc', he, hetid, hno'⟩, htwo, hroom',
        nofun, ?_⟩)
      dsimp only
      rw [hfind, ok_bind]
      dsimp only
      rw [node_eq_ok.mpr hd, ok_bind, nsAssert_of (show d.count > 1 from hshared), ok_bind, hloop,
        ok_bind]
      dsimp only
      rw [node_eq_ok.mpr he, ok_bind, nsAssert_of hetid, ok_bind,
        nsAssert_of (show e.count > 1 from htwo), ok_bind]

theorem cowTraverse_absent (hno : tid ∉ types es)
    (writer : TagStore → Bool → Nat → Nat → Except Fault (TagStore × τ)) :
    s.cowTraverse p tid writer = .ok (s, none) := by
  have hmem : ∀ d : TagData, ∀ bs fs, es ≠ bs ++ (tid, d.data) :: fs := by
    rintro d bs fs rfl
    exact hno mem_types
  rcases cowTraverse_of hs hp hes hroom hsized tid writer with ⟨-, hcow⟩ |
      ⟨i, cur, d, bs, fs, hsplit, -⟩ | ⟨t, i, cur, d, bs, fs, hsplit, -⟩
  · exact hcow
  · exact absurd hsplit (hmem d bs fs)
  · exact absurd hsplit (hmem d bs fs)

theorem remove_absent (tag : τ) (hno : T.getInstanceTypeId tag ∉ types es) :
    s.remove T p tag = .ok (s, none) :=
  cowTraverse_absent hs hp hes hroom hsized hno _

theorem remove_present (hmem : T.getInstanceTypeId tag ∈ types es) {r : τ}
    (hread : Readable T tag es r) :
    ∃ t bs data fs, s.remove T p tag = .ok (t, some r) ∧
      es = bs ++ (T.getInstanceTypeId tag, data) :: fs ∧ T.getInstanceTypeId tag ∉ types bs ∧
      Edited s t p (bs ++ fs) := by
  rcases cowTraverse_of hs hp hes hroom hsized (T.getInstanceTypeId tag)
      (removeWriter T tag) with ⟨hno, -⟩ | ⟨i, cur, d, bs, fs, hsplit, hloc, hone, -, hcow⟩ |
      ⟨t, i, cur, d, bs, fs, hsplit, hedit, hloc, htwo, hroom', -, hcow⟩
  · exact absurd hmem hno
  · obtain ⟨s₁, fs', hset, heq, hedit⟩ := takeOut hs hp hloc.cursor hloc.node hone
    obtain rfl := (List.cons.inj heq).2
    refine ⟨_, bs, d.data, fs, ?_, hsplit, hloc.fresh, hedit⟩
    rw [remove, hcow, removeWriter, node_eq_ok.mpr hloc.node, ok_bind,
      hread bs d.data fs hsplit hloc.fresh, ok_bind, hset]
    rfl
  · obtain ⟨h', hp', -⟩ := hedit.carries
    obtain ⟨s₁, s₂, u, fs', hset, hdec, hinc, heq, hedit'⟩ :=
      unlink hedit.sound hp' hloc.cursor hloc.node htwo hroom'
    obtain rfl := (List.cons.inj heq).2
    refine ⟨u, bs, d.data, fs, ?_, hsplit, hloc.fresh, hedit.trans hedit'⟩
    rw [remove, hcow, removeWriter, node_eq_ok.mpr hloc.node, ok_bind,
      hread bs d.data fs hsplit hloc.fresh, ok_bind, hset, ok_bind, if_neg Bool.false_ne_true, hdec,
      ok_bind, hinc]
    rfl

theorem replace_present (hmem : T.getInstanceTypeId tag ∈ types es)
    (hfits : ¬OverflowsInPlace T s p tag) :
    ∃ t bs data fs rest, s.replace T p tag = .ok (t, true) ∧
      es = bs ++ (T.getInstanceTypeId tag, data) :: fs ∧ T.getInstanceTypeId tag ∉ types bs ∧
      (T.serialize tag ++ rest).length < 2 ^ 32 - 1 ∧
      Edited s t p (bs ++ (T.getInstanceTypeId tag, T.serialize tag ++ rest) :: fs) := by
  rcases cowTraverse_of hs hp hes hroom hsized (T.getInstanceTypeId tag)
      (replaceWriter T tag) with ⟨hno, -⟩ | ⟨i, cur, d, bs, fs, hsplit, hloc, hone, hfound, hcow⟩ |
      ⟨t, i, cur, d, bs, fs, hsplit, hedit, hloc, htwo, hroom', -, hcow⟩
  · exact absurd hmem hno
  · have hle : (T.serialize tag).length ≤ d.data.length := by
      by_contra hlt
      exact hfits ⟨h, i, cur, d, head_eq_ok.mpr hp, hfound, node_eq_ok.mpr hloc.node, by omega⟩
    obtain ⟨fs', heq, hedit⟩ := rewrite hs hp hloc.cursor hloc.node hone
      (T.serialize tag ++ d.data.drop (T.serialize tag).length)
    obtain rfl := (List.cons.inj heq).2
    have htid : (d.tid, T.serialize tag ++ d.data.drop (T.serialize tag).length) =
        (T.getInstanceTypeId tag, T.serialize tag ++ d.data.drop (T.serialize tag).length) := by
      rw [hloc.tid_eq]
    refine ⟨_, bs, d.data, fs, _, ?_, hsplit, hloc.fresh, ?_, htid ▸ hedit⟩
    · rw [replace, hcow, replaceWriter, if_pos rfl, node_eq_ok.mpr hloc.node, ok_bind,
        serializeTo_of hle]
      rfl
    · have hlt := hsized (T.getInstanceTypeId tag, d.data)
        (hsplit ▸ List.mem_append_right _ (.head _))
      rw [List.length_append, List.length_drop]
      change d.data.length < 2 ^ 32 - 1 at hlt
      omega
  · obtain ⟨h', hp', -⟩ := hedit.carries
    obtain ⟨rest, hser, hlen⟩ := serializeTo_new T tag
    obtain ⟨s₁, s₂, u, fs', hdec, hcur₁, hlen₁, hinc, hset, heq, hedit', -⟩ :=
      relink (w := ⟨d.next, 1, T.getInstanceTypeId tag, T.serialize tag ++ rest⟩)
        hedit.sound hp' hloc.cursor hloc.node htwo hroom' rfl rfl
    obtain rfl := (List.cons.inj heq).2
    refine ⟨u, bs, d.data, fs, rest, ?_, hsplit, hloc.fresh, hlen, hedit.trans hedit'⟩
    have hcreate := createTagData_of (s := s₁)
      (w := ⟨d.next, 1, T.getInstanceTypeId tag, T.serialize tag ++ rest⟩) hlen
    rw [replace, hcow, replaceWriter, if_neg Bool.false_ne_true, hdec, ok_bind,
      node_eq_ok.mpr hcur₁, ok_bind, hser, ok_bind]
    dsimp only
    rw [hcreate, ok_bind]
    dsimp only
    rw [hinc, ok_bind, hlen₁, hset]
    rfl

theorem replace_absent (tag : τ) (hno : T.getInstanceTypeId tag ∉ types es) :
    ∃ t rest, s.replace T p tag = .ok (t, false) ∧
      (T.serialize tag ++ rest).length < 2 ^ 32 - 1 ∧
      Edited s t p ((T.getInstanceTypeId tag, T.serialize tag ++ rest) :: es) := by
  obtain ⟨t, rest, hadd, hlen, hedit⟩ := add_absent hs hp hes tag hno
  refine ⟨t, rest, ?_, hlen, hedit⟩
  rw [replace, cowTraverse_absent hs hp hes hroom hsized hno, ok_bind]
  change (s.add T p tag >>= _) = _
  rw [hadd]
  rfl

end

end Ns3.TagStore
