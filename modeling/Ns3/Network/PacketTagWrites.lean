/-
  What the writers of the tag lists do to the store.

  Each of them changes one pointer or the bytes of one node, and keeps the counts.  Where
  the change is made, the way from the list is linked to by nobody else, so that the lists
  of the other packets carry what they did.
-/
import Ns3.Network.PacketTagList

namespace Ns3.TagStore

open Ns3.Lib

variable {s t u : TagStore} {e : Nat → Int} {a i p q cur : Nat} {v h : Option Nat}
  {x : TagObject} {d w : TagData} {es fs bs : List (TypeId × List UInt8)}

@[simp] theorem link_eq (x : TagObject) : Linked.link x = x.next := rfl

@[simp] theorem body_eq (x : TagObject) : Linked.body x = x.entry := rfl

@[simp] theorem next_withNext (x : TagObject) (v : Option Nat) : (x.withNext v).next = v := by
  cases x <;> rfl

@[simp] theorem entry_withNext (x : TagObject) (v : Option Nat) :
    (x.withNext v).entry = x.entry := by
  cases x <;> rfl

@[simp] theorem count_withNext (x : TagObject) (v : Option Nat) :
    (x.withNext v).count = x.count := by
  cases x <;> rfl

/-! ## Memory -/

theorem node_eq_ok : s.node a = .ok d ↔ s.get a = some (.node d) := by
  unfold node
  split
  · rename_i d' hd'
    rw [hd', Except.ok.injEq, Option.some.injEq, TagObject.node.injEq]
  · rename_i hno
    constructor
    · exact nofun
    · intro hd
      exact absurd hd (hno d)

theorem head_eq_ok : s.head p = .ok h ↔ s.get p = some (.list h) := by
  unfold head
  split
  · rename_i h' hh'
    rw [hh', Except.ok.injEq, Option.some.injEq, TagObject.list.injEq]
  · rename_i hno
    constructor
    · exact nofun
    · intro hh
      exact absurd hh (hno h)

theorem setNext_of (hx : s.get i = some x) : s.setNext i v = .ok (s.put i (x.withNext v)) := by
  rw [setNext, hx]

theorem createTagData_of (hlen : w.data.length < 2 ^ 32 - 1) :
    s.createTagData w = .ok (s.alloc (.node w), s.length) := by
  rw [createTagData, nsAssert_of hlen]
  rfl

/-- The counts are right but for what is owed, and those of the nodes are not zero. -/
structure Books (s : TagStore) (e : Nat → Int) : Prop where
  balanced : Balanced TagObject.count s e
  held : ∀ a x, s.get a = some x → (x.entry.isSome = true ↔ 0 < x.count)

/-- A store in which only counts differ. -/
structure Recounted (s t : TagStore) : Prop where
  kept : ∀ a, Kept s t a
  gone : ∀ a, s.get a = none → t.get a = none
  length : t.length = s.length
  refs : ∀ a, refs t a = refs s a

theorem Recounted.refl (s : TagStore) : Recounted s s :=
  ⟨fun a => .refl s a, fun _ ha => ha, rfl, fun _ => rfl⟩

theorem recounted_put (hd : s.get a = some (.node d)) (c : Nat) :
    Recounted s (s.put a (.node { d with count := c })) where
  kept b := .put hd rfl rfl
  gone b hb := by
    rw [Store.get_put hd]
    split
    · rename_i hab
      rw [hab, hb] at hd
      cases hd
    · exact hb
  length := Store.length_put
  refs b := refs_put_of_link hd rfl

theorem Recounted.spells (h : Recounted s t) (hs : Spells s v es) : Spells t v es :=
  hs.kept fun _ c _ _ => h.kept c

section

variable (hb : Books s e)

include hb

theorem decCount_of (hd : s.get a = some (.node d)) (hlt : 1 < d.count) (hmax : d.count < 2 ^ 32) :
    ∃ t, s.decCount a = .ok t ∧ Books t (e - mark (some a)) ∧ Recounted s t ∧
      t.get a = some (.node { d with count := d.count - 1 }) ∧
      ∀ b, a ≠ b → t.get b = s.get b := by
  refine ⟨s.put a (.node { d with count := d.count - 1 }), ?_, ⟨?_, ?_⟩, recounted_put hd _,
    Store.get_put_self hd, fun b hab => Store.get_put_of_ne hab⟩
  · rw [decCount, node_eq_ok.mpr hd, ok_bind, wsub_eq hmax (by omega)]
    rfl
  · exact hb.balanced.lower hd rfl (Nat.sub_add_cancel (by omega))
  · intro b x hx
    rw [Store.get_put hd] at hx
    split at hx
    · cases hx
      change (some (d.tid, d.data)).isSome = true ↔ 0 < d.count - 1
      simp only [Option.isSome_some, true_iff]
      omega
    · exact hb.held b x hx

theorem incCount_of (hd : s.get a = some (.node d)) (hmax : d.count + 1 < 2 ^ 32) :
    ∃ t, s.incCount a = .ok t ∧ Books t (e + mark (some a)) ∧ Recounted s t ∧
      t.get a = some (.node { d with count := d.count + 1 }) ∧
      ∀ b, a ≠ b → t.get b = s.get b := by
  refine ⟨s.put a (.node { d with count := d.count + 1 }), ?_, ⟨?_, ?_⟩, recounted_put hd _,
    Store.get_put_self hd, fun b hab => Store.get_put_of_ne hab⟩
  · rw [incCount, node_eq_ok.mpr hd, ok_bind, wadd_eq hmax]
    rfl
  · exact hb.balanced.raise hd rfl rfl
  · intro b x hx
    rw [Store.get_put hd] at hx
    split at hx
    · cases hx
      change (some (d.tid, d.data)).isSome = true ↔ 0 < d.count + 1
      simp
    · exact hb.held b x hx

theorem incNext_of (hv : ∀ a, v = some a → ∃ d, s.get a = some (.node d) ∧ d.count + 1 < 2 ^ 32) :
    ∃ t, s.incNext v = .ok t ∧ Books t (e + mark v) ∧ Recounted s t ∧
      (∀ b, v ≠ some b → t.get b = s.get b) ∧
      ∀ b d, v = some b → t.get b = some (.node d) → d.count < 2 ^ 32 := by
  cases v with
  | none =>
    refine ⟨s, rfl, ?_, .refl s, fun _ _ => rfl, fun _ _ hb => absurd hb nofun⟩
    rw [mark_none, add_zero]
    exact hb
  | some a =>
    obtain ⟨d, hd, hmax⟩ := hv a rfl
    obtain ⟨t, ht, hbooks, hre, ha, hother⟩ := incCount_of hb hd hmax
    refine ⟨t, ht, hbooks, hre, fun b hab => hother b fun h => hab (congrArg some h), ?_⟩
    intro b d' hab hd'
    cases hab
    obtain rfl := TagObject.node.inj (Option.mem_unique ha hd')
    exact hmax

theorem Books.setNext (hx : s.get i = some x) :
    Books (s.put i (x.withNext v)) (e + mark x.next - mark v) := by
  refine ⟨?_, fun b y hy => ?_⟩
  · have hmove := hb.balanced.move hx (count_withNext x v)
    rwa [link_eq, link_eq, next_withNext] at hmove
  · rw [Store.get_put hx] at hy
    split at hy
    · cases hy
      rw [entry_withNext, count_withNext]
      exact hb.held i x hx
    · exact hb.held b y hy

theorem Books.alloc (hfresh : refs s s.length = 0) (hnone : e s.length = 0) (hcount : w.count = 1) :
    Books (s.alloc (.node w)) (e - mark w.next + mark (some s.length)) := by
  refine ⟨hb.balanced.alloc hfresh hnone ?_ fun b hne => mark_of_ne (Ne.symm hne),
    fun b y hy => ?_⟩
  · change ((w.count : Nat) : Int) = mark (some s.length) s.length
    rw [hcount, mark_self]
    rfl
  · rw [Store.get_alloc] at hy
    split at hy
    · cases hy
      change (some (w.tid, w.data)).isSome = true ↔ 0 < w.count
      rw [hcount]
      simp
    · exact hb.held b y hy

theorem Books.free (hx : s.get a = some x) : Books (s.free a) (e + mark x.next) := by
  refine ⟨hb.balanced.free hx, fun b y hy => ?_⟩
  rw [Store.get_free hx] at hy
  split at hy
  · cases hy
  · exact hb.held b y hy

end

abbrev Sound (s : TagStore) : Prop := Lib.Sound TagObject.count s

theorem Sound.books (hs : Sound s) : Books s 0 := ⟨hs.balanced, hs.held⟩

theorem Books.sound (hb : Books s 0) (hends : ∀ a x, s.get a = some x → ∃ bs, Spells s x.next bs) :
    Sound s := ⟨balanced_iff.mp hb.balanced, hb.held, hends⟩

theorem node_of_entry (hx : x.entry.isSome = true) : ∃ d, x = .node d := by
  cases x with
  | list h => exact absurd hx (by simp [TagObject.entry])
  | node d => exact ⟨d, rfl⟩

theorem spells_node (h : Spells s (some a) es) :
    ∃ d fs, s.get a = some (.node d) ∧ es = (d.tid, d.data) :: fs ∧ Spells s d.next fs := by
  obtain ⟨x, b, fs, hx, hb, rfl, hrest⟩ := spells_some h
  obtain ⟨d, rfl⟩ := node_of_entry (x := x) (by rw [← body_eq, hb]; rfl)
  obtain rfl : (d.tid, d.data) = b := Option.some.inj hb
  exact ⟨d, fs, hx, rfl, hrest⟩

theorem Sound.list_refs (hs : Sound s) (hp : s.get p = some (.list h)) : refs s p = 0 :=
  (hs.exact p _ hp).symm

theorem Sound.node_refs (hs : Sound s) (hd : s.get a = some (.node d)) : d.count = refs s a :=
  hs.exact a _ hd

theorem Sound.apart (hs : Sound s) (hp : s.get p = some (.list h)) :
    ∀ q, q ≠ p → refs s q = 0 → ¬Relation.ReflTransGen (Points s) q p :=
  (Private.start (β := TypeId × List UInt8) (hs.list_refs hp)).apart

theorem Kept.list (h : Kept s t q) (hq : s.get q = some (.list v)) :
    t.get q = some (.list v) := by
  obtain ⟨y, hy, hlink, hbody⟩ := h _ hq
  cases y with
  | list v' =>
    obtain rfl : v' = v := hlink
    exact hy
  | node d => cases hbody

/-! ## The place of a change -/

/-- In the list `p` the pointer of the object at `i`, that no other list is led to: `bs` is
carried on the way there, `es` from there on. -/
structure Cursor (s : TagStore) (p i : Nat) (bs : List (TypeId × List UInt8)) (v : Option Nat)
    (es : List (TypeId × List UInt8)) : Prop where
  way : Private s p i bs
  here : ∃ x, s.get i = some x ∧ x.next = v
  rest : Spells s v es

/-- The counts can be raised, up to the one of the node that was raised already. -/
def Room (s : TagStore) (v : Option Nat) : Prop :=
  ∀ a d, s.get a = some (.node d) → d.count < 2 ^ 32 ∧ (v ≠ some a → d.count + 1 < 2 ^ 32)

/-- What a change of the list `p` does not touch. -/
structure Spares (s t : TagStore) (p : Nat) : Prop where
  others : ∀ q h fs, q ≠ p → s.get q = some (.list h) → Spells s h fs →
    ∃ h', t.get q = some (.list h') ∧ Spells t h' fs
  /-- the lists destroyed before stay so -/
  gone : ∀ a, a < s.length → s.get a = none → t.get a = none
  length : s.length ≤ t.length

/-- What an operation on the list `p` leaves behind. -/
structure Edited (s t : TagStore) (p : Nat) (es : List (TypeId × List UInt8)) : Prop where
  sound : Sound t
  carries : ∃ h, t.get p = some (.list h) ∧ Spells t h es
  spares : Spares s t p

theorem Spares.trans (h : Spares s t p) (h' : Spares t u p) : Spares s u p := by
  refine ⟨fun q hq cs hne hlist hcs => ?_, fun a ha hnone => ?_, h.length.trans h'.length⟩
  · obtain ⟨h₁, hlist₁, hcs₁⟩ := h.others q hq cs hne hlist hcs
    exact h'.others q h₁ cs hne hlist₁ hcs₁
  · exact h'.gone a (ha.trans_le h.length) (h.gone a ha hnone)

theorem Edited.trans (h : Edited s t p es) (h' : Edited t u p fs) : Edited s u p fs :=
  ⟨h'.sound, h'.carries, h.spares.trans h'.spares⟩

theorem Edited.refl (hs : Sound s) (hp : s.get p = some (.list h)) (hes : Spells s h es) :
    Edited s s p es :=
  ⟨hs, ⟨h, hp, hes⟩, fun _ h' _ _ hq hfs => ⟨h', hq, hfs⟩, fun _ _ ha => ha, le_rfl⟩

theorem Cursor.start (hs : Sound s) (hp : s.get p = some (.list h)) (hes : Spells s h es) :
    Cursor s p p [] h es :=
  ⟨.start (hs.list_refs hp), ⟨_, hp, rfl⟩, hes⟩

/-- The object at `i` is not the node that it links to. -/
theorem Cursor.node (hc : Cursor s p i bs (some cur) es) (hd : s.get cur = some (.node d)) :
    ∃ x fs, s.get i = some x ∧ x.next = some cur ∧ Points s i cur ∧ i ≠ cur ∧
      es = (d.tid, d.data) :: fs ∧ Spells s d.next fs := by
  obtain ⟨x, hx, hxnext⟩ := hc.here
  obtain ⟨d', fs, hd', rfl, hrest⟩ := spells_node hc.rest
  obtain rfl : d = d' := TagObject.node.inj (Option.mem_unique hd hd')
  refine ⟨x, fs, hx, hxnext, ⟨x, hx, hxnext⟩, ?_, rfl, hrest⟩
  rintro rfl
  exact hc.rest.acyclic ⟨x, hx, hxnext⟩ .refl

theorem Cursor.forward (hs : Sound s) (hc : Cursor s p i bs (some a) es)
    (hd : s.get a = some (.node d)) (hone : d.count ≤ 1) :
    ∃ fs, es = (d.tid, d.data) :: fs ∧ Cursor s p a (bs ++ [(d.tid, d.data)]) d.next fs := by
  obtain ⟨x, fs, hx, hlink, -, -, rfl, hrest⟩ := hc.node hd
  refine ⟨fs, rfl, hc.way.forward hx hlink hd rfl ?_, ⟨_, hd, rfl⟩, hrest⟩
  rw [← hs.node_refs hd]
  exact hone

theorem others_kept (hs : Sound s) (hway : ∀ q, q ≠ p → refs s q = 0 →
      ∀ a, Relation.ReflTransGen (Points s) q a → Kept s t a) :
    ∀ q h fs, q ≠ p → s.get q = some (.list h) → Spells s h fs →
      ∃ h', t.get q = some (.list h') ∧ Spells t h' fs := by
  intro q h fs hqp hq hfs
  have hkept := hway q hqp (hs.list_refs hq)
  obtain ⟨z, hz, hspell⟩ := Spells.others hq hfs hkept
  have hlist := Kept.list (hkept q .refl) hq
  obtain rfl := Option.mem_unique hz hlist
  exact ⟨h, hlist, hspell⟩

/-- Only the object at `i` changes its link, and no other list is led there. -/
theorem Spares.of_kept (hs : Sound s) (hkept : ∀ a, a ≠ i → Kept s t a)
    (hapart : ∀ q, q ≠ p → refs s q = 0 → ¬Relation.ReflTransGen (Points s) q i)
    (hgone : ∀ a, a < s.length → s.get a = none → t.get a = none) (hlength : s.length ≤ t.length) :
    Spares s t p := by
  refine ⟨others_kept hs fun q hq hroot a hr => hkept a ?_, hgone, hlength⟩
  rintro rfl
  exact hapart q hq hroot hr

/-- The counts are right, and what the object at `i` and the new ones link to ends. -/
theorem Books.sound_patched (hb : Books t e) (hzero : e = 0) (hs : Sound s)
    (hkept : ∀ a, a ≠ i → Kept s t a) {x' : TagObject} (hi : t.get i = some x')
    (hends : Spells t x'.next fs)
    (hbody : ∀ z, s.get i = some z → x'.entry.isSome = z.entry.isSome)
    (hnew : ∀ a y, t.get a = some y → s.get a = none → ∃ cs, Spells t y.next cs) : Sound t := by
  rw [hzero] at hb
  refine hb.sound (hs.ends_patched (fun _ => False) (fun a ha _ y hy => ?_)
    ⟨x', hi, ⟨fs, hends⟩, hbody⟩ (fun _ _ _ _ h => h) (fun _ h => absurd h id) hnew)
  obtain ⟨y', hy', hlink, hentry⟩ := hkept a ha y hy
  exact ⟨y', hy', hlink, by rw [hentry]⟩

theorem Cursor.carries (hc : Cursor s p i bs v es) (hp : s.get p = some (.list h))
    (hkept : ∀ a, a ≠ i → Relation.ReflTransGen (Points s) a i → Kept s t a)
    (hi : ∃ x x', s.get i = some x ∧ t.get i = some x' ∧ x'.entry = x.entry ∧ Spells t x'.next fs) :
    ∃ h', t.get p = some (.list h') ∧ Spells t h' (bs ++ fs) := by
  obtain ⟨x, hx, hlink⟩ := hc.here
  obtain ⟨y, x', hy, hx', hentry, hfs⟩ := hi
  obtain rfl : x = y := Option.mem_unique hx hy
  have hrest : Spells s (Linked.link x) es := by
    rw [link_eq, hlink]
    exact hc.rest
  have hleads := hc.way.leads.kept hx hrest hkept ⟨x', hx', hentry⟩
  obtain ⟨z, hz, hspell⟩ := hleads.spells hx' hfs
  have hlist : ∃ h', z = .list h' := by
    by_cases hpi : p = i
    · subst hpi
      obtain rfl := Option.mem_unique hz hx'
      obtain rfl := Option.mem_unique hp hx
      cases z with
      | list h' => exact ⟨h', rfl⟩
      | node d => cases hentry
    · have hkeep := Kept.list (hkept p hpi hc.way.leads.reach) hp
      exact ⟨h, Option.mem_unique hz hkeep⟩
  obtain ⟨h', rfl⟩ := hlist
  exact ⟨h', hz, hspell⟩

/-! ## A shared node is replaced by one of the list's own -/

theorem relink (hs : Sound s) (hplist : s.get p = some (.list h))
    (hc : Cursor s p i bs (some cur) es)
    (hd : s.get cur = some (.node d)) (hshared : 1 < d.count) (hroom : Room s (some cur))
    (hnext : w.next = d.next) (hone : w.count = 1) :
    ∃ s₁ s₂ t fs, s.decCount cur = .ok s₁ ∧
      s₁.get cur = some (.node { d with count := d.count - 1 }) ∧ s₁.length = s.length ∧
      incNext (s₁.alloc (.node w)) d.next = .ok s₂ ∧
      s₂.setNext i (some s.length) = .ok t ∧
      es = (d.tid, d.data) :: fs ∧ Edited s t p (bs ++ (w.tid, w.data) :: fs) ∧
      Cursor t p s.length (bs ++ [(w.tid, w.data)]) d.next fs ∧ Room t d.next ∧
      ∀ n, d.next = some n → Points t cur n := by
  obtain ⟨x, fs, hx, hxnext, hp, hicur, rfl, hrest⟩ := hc.node hd
  have havoid : ∀ c, d.next = some c → c ≠ i ∧ c ≠ cur := fun c hnc =>
    hc.rest.avoids hp ⟨_, hd, hnc⟩ .refl
  have hfree : refs s s.length = 0 := hs.refs_eq_zero Store.get_length
  have hinside : d.next ≠ some s.length := by
    intro hn
    obtain ⟨y, -, -, hy, -⟩ := hs.target hd hn
    exact Store.ne_length hy rfl
  -- `cur->count--`
  obtain ⟨s₁, hdec, hb₁, hre₁, hcur₁, hoth₁⟩ := decCount_of hs.books hd hshared (hroom cur d hd).1
  -- the new node
  have hb₂ := hb₁.alloc (w := w) (by rw [hre₁.length, hre₁.refs, hfree])
    (by
      change (0 : Int) - mark (some cur) s₁.length = 0
      rw [hre₁.length, mark_of_ne (Store.ne_length hd)]
      rfl) hone
  -- `copy->next->count++`
  have hv : ∀ a, d.next = some a →
      ∃ dn, (s₁.alloc (.node w)).get a = some (.node dn) ∧ dn.count + 1 < 2 ^ 32 := by
    intro a ha
    rw [ha] at hrest
    obtain ⟨dn, -, hdn, -⟩ := spells_node hrest
    have hcura : cur ≠ a := Ne.symm (havoid a ha).2
    refine ⟨dn, Store.get_alloc_of_get ((hoth₁ a hcura).trans hdn), ?_⟩
    exact (hroom a dn hdn).2 fun h => hcura (Option.some.inj h)
  obtain ⟨s₂, hinc, hb₂, hre₂, hoth₂, hmax₂⟩ := incNext_of hb₂ hv
  -- `*prevNext = copy`
  have hx₂ : s₂.get i = some x := by
    rw [hoth₂ i fun h => (havoid i h).1 rfl]
    exact Store.get_alloc_of_get ((hoth₁ i (Ne.symm hicur)).trans hx)
  have hb₃ := hb₂.setNext (v := some s.length) hx₂
  have hit : (s₂.put i (x.withNext (some s.length))).get i = some (x.withNext (some s.length)) :=
    Store.get_put_self hx₂
  have hilen : i ≠ s.length := Store.ne_length hx
  have hnew : (s₂.put i (x.withNext (some s.length))).get s.length = some (.node w) := by
    rw [Store.get_put_of_ne hilen, hoth₂ _ hinside, Store.get_alloc, if_pos hre₁.length.symm]
  have hkept : ∀ a, a ≠ i → Kept s (s₂.put i (x.withNext (some s.length))) a := fun a ha =>
    (hre₁.kept a).trans (Kept.alloc.trans
      ((hre₂.kept a).trans (.of_get (Store.get_put_of_ne (Ne.symm ha)))))
  have hgone : ∀ a, a ≠ s.length → s.get a = none →
      (s₂.put i (x.withNext (some s.length))).get a = none := by
    intro a ha hnone
    have hia : i ≠ a := by
      rintro rfl
      exact absurd (hx.symm.trans hnone) nofun
    rw [Store.get_put_of_ne hia]
    refine hre₂.gone a ?_
    rw [Store.get_alloc, if_neg (by rw [hre₁.length]; exact ha)]
    exact hre₁.gone a hnone
  have hfs : Spells (s₂.put i (x.withNext (some s.length))) d.next fs :=
    hc.rest.behind hp hd fun c hci _ => hkept c hci
  have hfsw : Spells (s₂.put i (x.withNext (some s.length))) w.next fs := by
    rw [hnext]
    exact hfs
  have hspell : Spells (s₂.put i (x.withNext (some s.length))) (some s.length)
      ((w.tid, w.data) :: fs) := .cons hnew rfl hfsw
  have hlinked : Spells (s₂.put i (x.withNext (some s.length)))
      (x.withNext (some s.length)).next ((w.tid, w.data) :: fs) := by
    rw [next_withNext]
    exact hspell
  have hlength : s.length ≤ (s₂.put i (x.withNext (some s.length))).length := by
    rw [Store.length_put, hre₂.length, Store.length_alloc, hre₁.length]
    exact Nat.le_succ _
  refine ⟨s₁, s₂, _, fs, hdec, hcur₁, hre₁.length, hinc, setNext_of hx₂, rfl,
    ⟨hb₃.sound_patched ?_ hs hkept hit hlinked (fun z hz => ?_) fun a y hy hnone => ?_,
      hc.carries hplist (fun a ha _ => hkept a ha) ⟨x, _, hx, hit, entry_withNext x _, hlinked⟩,
      .of_kept hs hkept hc.way.apart (fun a ha => hgone a (Nat.ne_of_lt ha)) hlength⟩,
    ⟨?_, ⟨_, hnew, hnext⟩, hfs⟩, ?_, fun n hn => ?_⟩
  · rw [hnext, hre₁.length, hxnext]
    abel
  · obtain rfl := Option.mem_unique hx hz
    rw [entry_withNext]
  · by_cases ha : a = s.length
    · subst ha
      obtain rfl := Option.mem_unique hnew hy
      exact ⟨fs, hfsw⟩
    · rw [hgone a ha hnone] at hy
      cases hy
  · refine hc.way.copied (b := (w.tid, w.data)) hx (by rw [link_eq, hxnext]; exact hc.rest) hkept
      ⟨_, hit, next_withNext x _, entry_withNext x _⟩ hnew rfl hfree hgone fun q hq => ?_
    have hmove := refs_put (x := x.withNext (some s.length)) (a := q) hx₂
    rw [hq, hre₂.refs, refs_alloc, hre₁.refs] at hmove
    by_cases hqc : cur = q
    · subst hqc
      have hle : pointsTo (some x) cur ≤ 1 := pointsTo_le (some x)
      have hcount := hs.node_refs hd
      omega
    · rw [pointsTo_of_ne (x := x) (by rw [link_eq, hxnext]; exact fun h => hqc (Option.some.inj h))]
        at hmove
      omega
  · intro a dd hdd
    by_cases hai : i = a
    · subst hai
      rw [hit] at hdd
      cases x with
      | list h' => cases hdd
      | node dx =>
        obtain rfl := TagObject.node.inj (Option.some.inj hdd)
        have hlt := (hroom i dx hx).2 fun h => hicur (Option.some.inj h).symm
        exact ⟨Nat.lt_of_succ_lt hlt, fun _ => hlt⟩
    rw [Store.get_put_of_ne hai] at hdd
    by_cases hna : d.next = some a
    · exact ⟨hmax₂ a dd hna hdd, fun h => absurd hna h⟩
    rw [hoth₂ a hna, Store.get_alloc] at hdd
    split at hdd
    · obtain rfl := TagObject.node.inj (Option.some.inj hdd)
      rw [hone]
      exact ⟨by decide, fun _ => by decide⟩
    · by_cases hca : cur = a
      · subst hca
        obtain rfl := TagObject.node.inj (Option.mem_unique hcur₁ hdd)
        have hlt := (hroom cur d hd).1
        exact ⟨by change d.count - 1 < _; omega, fun _ => by change d.count - 1 + 1 < _; omega⟩
      · rw [hoth₁ a hca] at hdd
        have hlt := (hroom a dd hdd).2 fun h => hca (Option.some.inj h)
        exact ⟨Nat.lt_of_succ_lt hlt, fun _ => hlt⟩
  · obtain ⟨y, hy, hlink, -⟩ := hkept cur (Ne.symm hicur) _ hd
    exact ⟨y, hy, hlink.trans hn⟩

/-! ## A node is left out -/

section

variable (hs : Sound s) (hplist : s.get p = some (.list h)) (hc : Cursor s p i bs (some cur) es)
  (hd : s.get cur = some (.node d))

include hs hplist hc hd

theorem unlink (hshared : 1 < d.count) (hroom : Room s (some cur)) :
    ∃ s₁ s₂ t fs, s.setNext i d.next = .ok s₁ ∧ s₁.decCount cur = .ok s₂ ∧
      s₂.incNext d.next = .ok t ∧ es = (d.tid, d.data) :: fs ∧ Edited s t p (bs ++ fs) := by
  obtain ⟨x, fs, hx, hxnext, hp, hicur, rfl, hrest⟩ := hc.node hd
  -- `*prevNext = cur->next`
  have hb₁ := hs.books.setNext (v := d.next) hx
  have hd₁ : (s.put i (x.withNext d.next)).get cur = some (.node d) := by
    rw [Store.get_put_of_ne hicur, hd]
  -- `cur->count--`
  obtain ⟨s₂, hdec, hb₂, hre₂, -, hoth₂⟩ := decCount_of hb₁ hd₁ hshared (hroom cur d hd).1
  -- `cur->next->count++`
  have hv : ∀ a, d.next = some a → ∃ dn, s₂.get a = some (.node dn) ∧ dn.count + 1 < 2 ^ 32 := by
    intro a ha
    obtain ⟨hai, hacur⟩ := hc.rest.avoids hp ⟨_, hd, ha⟩ .refl
    rw [ha] at hrest
    obtain ⟨dn, -, hdn, -⟩ := spells_node hrest
    refine ⟨dn, ?_, (hroom a dn hdn).2 fun h => hacur (Option.some.inj h).symm⟩
    rw [hoth₂ a (Ne.symm hacur), Store.get_put_of_ne (Ne.symm hai), hdn]
  obtain ⟨t, hinc, hb₃, hre₃, -⟩ := incNext_of hb₂ hv
  have hkept : ∀ a, a ≠ i → Kept s t a := fun a ha =>
    (Kept.of_get (Store.get_put_of_ne (Ne.symm ha))).trans ((hre₂.kept a).trans (hre₃.kept a))
  have hit : ∃ x', t.get i = some x' ∧ x'.next = d.next ∧ x'.entry = x.entry := by
    obtain ⟨x', hx', hlink, hbody⟩ :=
      ((hre₂.kept i).trans (hre₃.kept i)) _ (Store.get_put_self hx)
    exact ⟨x', hx', hlink.trans (next_withNext x _), hbody.trans (entry_withNext x _)⟩
  obtain ⟨x', hx', hnext', hentry'⟩ := hit
  have hgone : ∀ a, s.get a = none → t.get a = none := by
    intro a ha
    refine hre₃.gone a (hre₂.gone a ?_)
    rw [Store.get_put_of_ne, ha]
    rintro rfl
    exact absurd (hx.symm.trans ha) nofun
  have hfs : Spells t d.next fs := hc.rest.behind hp hd fun c hci _ => hkept c hci
  have hfs' : Spells t x'.next fs := by
    rw [hnext']
    exact hfs
  have hlength : t.length = s.length := by
    rw [hre₃.length, hre₂.length, Store.length_put]
  refine ⟨_, s₂, t, fs, setNext_of hx, hdec, hinc, rfl,
    hb₃.sound_patched ?_ hs hkept hx' hfs' (fun z hz => ?_) (fun a y hy hnone => ?_),
    hc.carries hplist (fun a ha _ => hkept a ha) ⟨x, x', hx, hx', hentry', hfs'⟩,
    .of_kept hs hkept hc.way.apart (fun a _ => hgone a) hlength.ge⟩
  · rw [hxnext]
    abel
  · obtain rfl := Option.mem_unique hx hz
    rw [hentry']
  · exact absurd (hy.symm.trans (hgone a hnone)) nofun

theorem takeOut (hown : d.count ≤ 1) :
    ∃ s₁ fs, s.setNext i d.next = .ok s₁ ∧ es = (d.tid, d.data) :: fs ∧
      Edited s (s₁.free cur) p (bs ++ fs) := by
  obtain ⟨x, fs, hx, hxnext, hp, hicur, rfl, -⟩ := hc.node hd
  obtain ⟨_, -, hcur⟩ := hc.forward hs hd hown
  have hsole : ∀ j, Points s j cur → j = i := fun j hj =>
    sole_owner (by rw [← hs.node_refs hd]; exact hown) hj hp
  have hd₁ : (s.put i (x.withNext d.next)).get cur = some (.node d) := by
    rw [Store.get_put_of_ne hicur, hd]
  have hb := (hs.books.setNext (v := d.next) hx).free hd₁
  have hget : ∀ a, a ≠ i → a ≠ cur →
      ((s.put i (x.withNext d.next)).free cur).get a = s.get a := fun a hai hac => by
    rw [Store.get_free_of_ne (Ne.symm hac), Store.get_put_of_ne (Ne.symm hai)]
  have hit : ((s.put i (x.withNext d.next)).free cur).get i = some (x.withNext d.next) := by
    rw [Store.get_free_of_ne (Ne.symm hicur), Store.get_put_self hx]
  have hdead : ((s.put i (x.withNext d.next)).free cur).get cur = none := by
    rw [Store.get_free hd₁, if_pos rfl]
  have hkept : ∀ a, a ≠ i → a ≠ cur → Kept s ((s.put i (x.withNext d.next)).free cur) a :=
    fun a hai hac => .of_get (hget a hai hac)
  have hgone : ∀ a, s.get a = none → ((s.put i (x.withNext d.next)).free cur).get a = none := by
    intro a ha
    by_cases hac : a = cur
    · rw [hac, hdead]
    · rw [hget a _ hac, ha]
      rintro rfl
      exact absurd (hx.symm.trans ha) nofun
  have hfs : Spells ((s.put i (x.withNext d.next)).free cur) d.next fs :=
    hc.rest.behind hp hd hkept
  have hfs' : Spells ((s.put i (x.withNext d.next)).free cur) (x.withNext d.next).next fs := by
    rw [next_withNext]
    exact hfs
  refine ⟨_, fs, setNext_of hx, rfl, ?_, ?_, ?_, fun a _ => hgone a, ?_⟩
  · refine Books.sound (s := (s.put i (x.withNext d.next)).free cur)
      ⟨hb.balanced.congr fun a y hy => ?_, hb.held⟩ ?_
    · have hac : cur ≠ a := by
        rintro rfl
        exact absurd (hdead.symm.trans hy) nofun
      have hsum : 0 + mark x.next - mark d.next + mark d.next = mark (some cur) := by
        rw [hxnext]
        abel
      change (0 + mark x.next - mark d.next + mark d.next) a = 0
      rw [hsum, mark_of_ne hac]
    · refine hs.ends_patched (fun a => a = cur) (fun a hai hac y hy => ?_)
        ⟨_, hit, ⟨fs, hfs'⟩, fun z hz => ?_⟩ ?_ ?_ ?_
      · exact ⟨y, (hget a hai hac).trans hy, rfl, rfl⟩
      · obtain rfl := Option.mem_unique hx hz
        rw [body_eq, body_eq, entry_withNext]
      · rintro a hai c hac rfl
        exact hai (hsole a hac)
      · rintro a rfl
        exact hdead
      · intro a y hy hnone
        rw [hgone a hnone] at hy
        cases hy
  · refine hc.carries hplist (fun a hai hr => hkept a hai ?_)
      ⟨x, _, hx, hit, entry_withNext x _, hfs'⟩
    rintro rfl
    exact hc.rest.acyclic hp hr
  · refine others_kept hs fun q hq hroot a hr => hkept a ?_ ?_
    · rintro rfl
      exact hc.way.apart q hq hroot hr
    · rintro rfl
      exact hcur.way.apart q hq hroot hr
  · rw [Store.length_free, Store.length_put]

end

/-! ## A node is rewritten -/

theorem rewrite (hs : Sound s) (hplist : s.get p = some (.list h))
    (hc : Cursor s p i bs (some cur) es) (hd : s.get cur = some (.node d)) (hown : d.count ≤ 1)
    (data : List UInt8) :
    ∃ fs, es = (d.tid, d.data) :: fs ∧
      Edited s (s.put cur (.node { d with data })) p (bs ++ (d.tid, data) :: fs) := by
  obtain ⟨x, fs, hx, hxnext, hp, hicur, rfl, -⟩ := hc.node hd
  obtain ⟨_, -, hcur⟩ := hc.forward hs hd hown
  have hkept : ∀ a, a ≠ cur → Kept s (s.put cur (.node { d with data })) a :=
    fun a ha => .of_get (Store.get_put_of_ne (Ne.symm ha))
  have hcurt : (s.put cur (.node { d with data })).get cur =
      some (.node { d with data }) := Store.get_put_self hd
  have hfs : Spells (s.put cur (.node { d with data })) d.next fs :=
    hc.rest.behind hp hd fun a _ ha => hkept a ha
  have hspell : Spells (s.put cur (.node { d with data })) (some cur)
      ((d.tid, data) :: fs) := .cons hcurt rfl hfs
  have hgone : ∀ a, s.get a = none → (s.put cur (.node { d with data })).get a = none := by
    intro a ha
    rw [Store.get_put_of_ne, ha]
    rintro rfl
    exact absurd (hd.symm.trans ha) nofun
  have hbooks : Books (s.put cur (.node { d with data }))
      (0 + mark d.next - mark d.next) := by
    refine ⟨hs.balanced.move hd
      (rfl : TagObject.count (.node { d with data }) = TagObject.count (.node d)),
      fun a y hy => ?_⟩
    rw [Store.get_put hd] at hy
    split at hy
    · cases hy
      exact hs.held cur (.node d) hd
    · exact hs.held a y hy
  refine ⟨fs, rfl, hbooks.sound_patched (by abel) hs hkept hcurt hfs (fun z hz => ?_)
    (fun a y hy hnone => ?_), ?_,
    .of_kept hs hkept hcur.way.apart (fun a _ => hgone a) Store.length_put.ge⟩
  · obtain rfl := Option.mem_unique hd hz
    rfl
  · exact absurd (hy.symm.trans (hgone a hnone)) nofun
  · refine hc.carries hplist (fun a hai hr => hkept a ?_) ⟨x, x, hx, ?_, rfl, ?_⟩
    · rintro rfl
      exact hc.rest.acyclic hp hr
    · rw [Store.get_put_of_ne (Ne.symm hicur), hx]
    · rw [hxnext]
      exact hspell

/-! ## A new node, a new list -/

theorem prepend (hs : Sound s) (hplist : s.get p = some (.list h)) (hes : Spells s h es)
    (hnext : w.next = h) (hone : w.count = 1) :
    ∃ t, setNext (s.alloc (.node w)) p (some s.length) = .ok t ∧
      Edited s t p ((w.tid, w.data) :: es) := by
  have hb₁ := hs.books.alloc (hs.refs_eq_zero Store.get_length) rfl hone
  have hp₁ : Store.get (s.alloc (.node w)) p = some (.list h) := Store.get_alloc_of_get hplist
  have hb₂ := hb₁.setNext (v := some s.length) hp₁
  have hpt : ((s.alloc (.node w)).put p (.list (some s.length))).get p =
      some (.list (some s.length)) := Store.get_put_self hp₁
  have hplen : p ≠ s.length := Store.ne_length hplist
  have hkept : ∀ a, a ≠ p → Kept s ((s.alloc (.node w)).put p (.list (some s.length))) a :=
    fun a ha => Kept.alloc.trans (.of_get (Store.get_put_of_ne (Ne.symm ha)))
  have hnew : ((s.alloc (.node w)).put p (.list (some s.length))).get s.length =
      some (.node w) := by
    rw [Store.get_put_of_ne hplen, Store.get_alloc, if_pos rfl]
  have hrest : Spells ((s.alloc (.node w)).put p (.list (some s.length))) h es := by
    refine hes.kept fun a c ha hr => hkept c ?_
    rintro rfl
    rcases Relation.ReflTransGen.cases_tail hr with rfl | ⟨j, -, hj⟩
    · exact not_points (hs.list_refs hplist) ⟨_, hplist, ha⟩
    · exact not_points (hs.list_refs hplist) hj
  have hrestw : Spells ((s.alloc (.node w)).put p (.list (some s.length))) w.next es := by
    rw [hnext]
    exact hrest
  have hspell : Spells ((s.alloc (.node w)).put p (.list (some s.length))) (some s.length)
      ((w.tid, w.data) :: es) := .cons hnew rfl hrestw
  have hgone : ∀ a, a ≠ s.length → s.get a = none →
      ((s.alloc (.node w)).put p (.list (some s.length))).get a = none := by
    intro a ha hnone
    rw [Store.get_put_of_ne, Store.get_alloc, if_neg ha, hnone]
    rintro rfl
    exact absurd (hplist.symm.trans hnone) nofun
  have hlength : s.length ≤ ((s.alloc (.node w)).put p (.list (some s.length))).length := by
    rw [Store.length_put, Store.length_alloc]
    exact Nat.le_succ _
  refine ⟨_, setNext_of hp₁, hb₂.sound_patched ?_ hs hkept hpt hspell (fun z hz => ?_)
    (fun a y hy hnone => ?_), ⟨_, hpt, hspell⟩, .of_kept hs hkept (hs.apart hplist)
      (fun a ha => hgone a (Nat.ne_of_lt ha)) hlength⟩
  · change 0 - mark w.next + mark (some s.length) + mark h - mark (some s.length) = 0
    rw [hnext]
    abel
  · obtain rfl := Option.mem_unique hplist hz
    rfl
  · by_cases ha : a = s.length
    · subst ha
      obtain rfl := Option.mem_unique hnew hy
      exact ⟨es, hrestw⟩
    · exact absurd (hy.symm.trans (hgone a ha hnone)) nofun

theorem create_edited (hs : Sound s) : Edited s (s.alloc (.list none)) s.length [] := by
  have hkept : ∀ a, Kept s (s.alloc (.list none)) a := fun a => .alloc
  have hp : Store.get (s.alloc (.list none)) s.length = some (.list none) := by
    rw [Store.get_alloc, if_pos rfl]
  have hb := hs.books.balanced.alloc (w := .list none) (v := none)
    (hs.refs_eq_zero Store.get_length) rfl rfl fun _ _ => rfl
  refine ⟨Books.sound ⟨?_, fun b y hy => ?_⟩ fun b y hy => ?_, ⟨none, hp, .nil⟩,
    fun q h' gs _ hq hgs => ?_, fun a ha hnone => ?_, ?_⟩
  · have hzero : (0 : Nat → Int) - mark none + mark none = 0 := by abel
    change Balanced _ _ (0 - mark none + mark none) at hb
    rw [hzero] at hb
    exact hb
  · rw [Store.get_alloc] at hy
    split at hy
    · cases hy
      exact ⟨fun h => absurd h nofun, fun h => absurd h (Nat.lt_irrefl 0)⟩
    · exact hs.held b y hy
  · rw [Store.get_alloc] at hy
    split at hy
    · cases hy
      exact ⟨[], .nil⟩
    · obtain ⟨gs, hgs⟩ := hs.ends b y hy
      exact ⟨gs, hgs.kept fun _ c _ _ => hkept c⟩
  · exact ⟨h', Store.get_alloc_of_get hq, hgs.kept fun _ c _ _ => hkept c⟩
  · rw [Store.get_alloc, if_neg (Nat.ne_of_lt ha), hnone]
  · rw [Store.length_alloc]
    exact Nat.le_succ _

theorem share (hs : Sound s) (hplist : s.get p = some (.list none)) (hes : Spells s h es)
    (hroom : Room s none) : ∃ t, incNext (s.put p (.list h)) h = .ok t ∧ Edited s t p es := by
  have hb₁ := hs.books.setNext (v := h) hplist
  have hkept₁ : ∀ a, a ≠ p → Kept s (s.put p (.list h)) a :=
    fun a ha => .of_get (Store.get_put_of_ne (Ne.symm ha))
  have hv : ∀ a, h = some a →
      ∃ d, (s.put p (.list h)).get a = some (.node d) ∧ d.count + 1 < 2 ^ 32 := by
    rintro a rfl
    obtain ⟨d, -, hd, -⟩ := spells_node hes
    refine ⟨d, ?_, (hroom a d hd).2 nofun⟩
    rw [Store.get_put_of_ne, hd]
    rintro rfl
    exact absurd (hplist.symm.trans hd) nofun
  obtain ⟨t, hinc, hb₂, hre, -⟩ := incNext_of hb₁ hv
  have hkept : ∀ a, a ≠ p → Kept s t a := fun a ha => (hkept₁ a ha).trans (hre.kept a)
  have hpt : t.get p = some (.list h) :=
    Kept.list (hre.kept p) (Store.get_put_self hplist)
  have hspell : Spells t h es := by
    refine hes.kept fun a c ha hr => hkept c ?_
    rintro rfl
    rcases Relation.ReflTransGen.cases_tail hr with rfl | ⟨j, -, hj⟩
    · obtain ⟨d, -, hd, -⟩ := spells_node (ha ▸ hes)
      exact absurd (hplist.symm.trans hd) nofun
    · exact not_points (hs.list_refs hplist) hj
  have hgone : ∀ a, s.get a = none → t.get a = none := by
    intro a ha
    refine hre.gone a ?_
    rw [Store.get_put_of_ne, ha]
    rintro rfl
    exact absurd (hplist.symm.trans ha) nofun
  have hlength : t.length = s.length := by
    rw [hre.length, Store.length_put]
  refine ⟨t, hinc, hb₂.sound_patched ?_ hs hkept hpt hspell (fun z hz => ?_)
    (fun a y hy hnone => ?_), ⟨h, hpt, hspell⟩,
    .of_kept hs hkept (hs.apart hplist) (fun a _ => hgone a) hlength.ge⟩
  · change 0 + mark none - mark h + mark h = 0
    rw [mark_none]
    abel
  · obtain rfl := Option.mem_unique hplist hz
    rfl
  · exact absurd (hy.symm.trans (hgone a hnone)) nofun

/-! ## The nodes are given up -/

theorem freeNode_put_comm (h : v ≠ some a) : freeNode (s.put a x) v = (s.freeNode v).put a x := by
  cases v with
  | none => rfl
  | some b => exact Store.free_put_comm fun hab => h (congrArg some hab.symm)

theorem get_freeNode_of_ne (h : v ≠ some a) : (s.freeNode v).get a = s.get a := by
  cases v with
  | none => rfl
  | some b => exact Store.get_free_of_ne fun hab => h (congrArg some hab)

theorem Spares.refl (s : TagStore) (p : Nat) : Spares s s p :=
  ⟨fun _ h' _ _ hq hfs => ⟨h', hq, hfs⟩, fun _ _ ha => ha, le_rfl⟩

theorem decCount_eq (hd : s.get a = some (.node d)) (hpos : 0 < d.count)
    (hmax : d.count < 2 ^ 32) :
    s.decCount a = .ok (s.put a (.node { d with count := d.count - 1 })) := by
  rw [decCount, node_eq_ok.mpr hd, ok_bind, wsub_eq hmax hpos]
  rfl

theorem spells_free (hes : Spells s v es) (hv : v ≠ some cur) (hrefs : refs s cur = 0) :
    Spells (s.free cur) v es := by
  refine hes.kept fun a c ha hr => .of_get (Store.get_free_of_ne ?_)
  rintro rfl
  rcases Relation.ReflTransGen.cases_tail hr with rfl | ⟨j, -, hj⟩
  · exact hv ha
  · exact not_points hrefs hj

/-- The store while the loop of `RemoveAll` is at the pointer `v`, without the list's pointer and
the node passed last: that pointer is counted and no longer stored. -/
structure Dropping (s : TagStore) (v : Option Nat) (es : List (TypeId × List UInt8)) : Prop where
  books : Books s (mark v)
  ends : ∀ a x, s.get a = some x → ∃ bs, Spells s x.next bs
  rest : Spells s v es
  room : Room s none

theorem Dropping.free (hdrop : Dropping s (some cur) es) (hd : s.get cur = some (.node d))
    (hlast : d.count = 1) (p : Nat) :
    ∃ fs, es = (d.tid, d.data) :: fs ∧ Dropping (s.free cur) d.next fs ∧
      Spares s (s.free cur) p := by
  obtain ⟨d', fs, hd', rfl, hrest⟩ := spells_node hdrop.rest
  obtain rfl : d = d' := TagObject.node.inj (Option.mem_unique hd hd')
  have hrefs : refs s cur = 0 := by
    have hbal : ((d.count : Nat) : Int) = refs s cur + mark (some cur) cur :=
      hdrop.books.balanced cur _ hd
    rw [mark_self, hlast] at hbal
    omega
  have hget : ∀ b y, (s.free cur).get b = some y → s.get b = some y ∧ cur ≠ b := by
    intro b y hy
    rw [Store.get_free hd] at hy
    split at hy
    · cases hy
    · rename_i hne
      exact ⟨hy, hne⟩
  have hfree := hdrop.books.free hd
  refine ⟨fs, rfl, ⟨⟨hfree.balanced.congr fun b y hy => ?_, hfree.held⟩, fun b y hy => ?_, ?_,
    fun b e he => hdrop.room b e (hget b _ he).1⟩, fun q hq gs _ hlist hgs => ?_,
    fun b _ hnone => ?_, ?_⟩
  · change mark (some cur) b + mark d.next b = mark d.next b
    rw [mark_of_ne (hget b y hy).2, zero_add]
  · obtain ⟨gs, hgs⟩ := hdrop.ends b y (hget b y hy).1
    exact ⟨gs, spells_free hgs (fun h => not_points hrefs ⟨y, (hget b y hy).1, h⟩) hrefs⟩
  · exact spells_free hrest (fun h => not_points hrefs ⟨_, hd, h⟩) hrefs
  · refine ⟨hq, ?_, spells_free hgs (fun h => not_points hrefs ⟨_, hlist, h⟩) hrefs⟩
    rw [Store.get_free_of_ne, hlist]
    rintro rfl
    exact absurd (hd.symm.trans hlist) nofun
  · rw [Store.get_free hd]
    split
    · rfl
    · exact hnone
  · rw [Store.length_free]

theorem detach (hs : Sound s) (hp : s.get p = some (.list h)) (hes : Spells s h es)
    (hroom : Room s none) :
    Dropping (s.put p (.list none)) h es ∧ Spares s (s.put p (.list none)) p := by
  have hroot := hs.list_refs hp
  have hspell : ∀ v' gs, Spells s v' gs → v' ≠ some p → Spells (s.put p (.list none)) v' gs := by
    intro v' gs hgs hv
    refine hgs.kept fun a c ha hr => .of_get (Store.get_put_of_ne ?_)
    rintro rfl
    rcases Relation.ReflTransGen.cases_tail hr with rfl | ⟨j, -, hj⟩
    · exact hv ha
    · exact not_points hroot hj
  have hbooks := hs.books.setNext (v := none) hp
  refine ⟨⟨?_, fun a x hx => ?_, ?_, fun a d hd => ?_⟩, fun q h' gs hq hlist hgs => ?_,
    fun a _ hnone => ?_, ?_⟩
  · have hsum : 0 + mark h - mark none = mark h := by
      rw [mark_none]
      abel
    change Books _ (0 + mark h - mark none) at hbooks
    rw [hsum] at hbooks
    exact hbooks
  · rw [Store.get_put hp] at hx
    split at hx
    · cases hx
      exact ⟨[], .nil⟩
    · obtain ⟨gs, hgs⟩ := hs.ends a x hx
      exact ⟨gs, hspell _ gs hgs fun h => not_points hroot ⟨x, hx, h⟩⟩
  · exact hspell h es hes fun h' => not_points hroot ⟨_, hp, h'⟩
  · rw [Store.get_put hp] at hd
    split at hd
    · cases hd
    · exact hroom a d hd
  · rw [Store.get_put_of_ne (Ne.symm hq)]
    exact ⟨h', hlist, hspell h' gs hgs fun h => not_points hroot ⟨_, hlist, h⟩⟩
  · rw [Store.get_put_of_ne, hnone]
    rintro rfl
    exact absurd (hp.symm.trans hnone) nofun
  · rw [Store.length_put]

theorem removeAllLoop_of {fuel : Nat} (prev : Option Nat)
    (hp : s.get p = some (.list h)) (hprev : prev ≠ some p)
    (hdrop : Dropping (freeNode (s.put p (.list none)) prev) v es) (hfuel : es.length ≤ fuel) :
    ∃ t h', removeAllLoop fuel s prev v = .ok t ∧ t.get p = some (.list h') ∧
      Sound (t.put p (.list none)) ∧ Room (t.put p (.list none)) none ∧
      Spares (freeNode (s.put p (.list none)) prev) (t.put p (.list none)) p := by
  induction fuel generalizing s v es prev with
  | zero =>
    obtain rfl := List.eq_nil_of_length_eq_zero (Nat.le_zero.mp hfuel)
    cases v with
    | some a =>
      obtain ⟨d, fs, -, heq, -⟩ := spells_node hdrop.rest
      cases heq
    | none =>
      refine ⟨s.freeNode prev, h, rfl, ?_, ?_⟩
      · rw [get_freeNode_of_ne hprev, hp]
      · rw [← freeNode_put_comm hprev]
        exact ⟨hdrop.books.sound hdrop.ends, hdrop.room, .refl _ p⟩
  | succ fuel ih =>
    cases v with
    | none =>
      refine ⟨s.freeNode prev, h, rfl, ?_, ?_⟩
      · rw [get_freeNode_of_ne hprev, hp]
      · rw [← freeNode_put_comm hprev]
        exact ⟨hdrop.books.sound hdrop.ends, hdrop.room, .refl _ p⟩
    | some cur =>
      obtain ⟨d, fs, hd, -, -⟩ := spells_node hdrop.rest
      have hpcur : p ≠ cur := by
        rintro rfl
        rw [get_freeNode_of_ne hprev, Store.get_put_self hp] at hd
        cases hd
      have hprevcur : prev ≠ some cur := by
        rintro rfl
        exact absurd (Store.get_free_self.symm.trans hd) nofun
      have hds : s.get cur = some (.node d) := by
        rw [get_freeNode_of_ne hprevcur, Store.get_put_of_ne hpcur] at hd
        exact hd
      have hpos : 0 < d.count := (hdrop.books.held cur _ hd).mp rfl
      have hmax := (hdrop.room cur d hd).1
      -- the order in which the store is written does not matter
      have hcomm : (freeNode (s.put cur (.node { d with count := d.count - 1 })) prev).put p
            (.list none) =
          (freeNode (s.put p (.list none)) prev).put cur
            (.node { d with count := d.count - 1 }) := by
        rw [← freeNode_put_comm hprev, Store.put_comm (Ne.symm hpcur),
          freeNode_put_comm hprevcur]
      have hp' : (freeNode (s.put cur (.node { d with count := d.count - 1 })) prev).get p =
          some (.list h) := by
        rw [get_freeNode_of_ne hprev, Store.get_put_of_ne (Ne.symm hpcur), hp]
      rw [removeAllLoop, decCount_eq hds hpos hmax, ok_bind,
        node_eq_ok.mpr (Store.get_put_self hds), ok_bind]
      by_cases hshared : d.count - 1 > 0
      · rw [if_pos hshared]
        obtain ⟨t, hdec, hbooks, hre, -, hoth⟩ :=
          decCount_of hdrop.books hd (by omega) hmax
        cases (decCount_eq hd hpos hmax).symm.trans hdec
        have hzero : mark (some cur) - mark (some cur) = 0 := by abel
        rw [hzero] at hbooks
        refine ⟨_, h, rfl, hp', ?_⟩
        rw [hcomm]
        refine ⟨hbooks.sound fun b y hy => ?_, fun b e he => ?_, fun q hq gs _ hlist hgs => ?_,
          fun b _ => hre.gone b, Nat.le_of_eq hre.length.symm⟩
        · have hlink : ∃ z : TagObject,
              Store.get (freeNode (s.put p (.list none)) prev) b = some z ∧ z.next = y.next := by
            cases hz : Store.get (freeNode (s.put p (.list none)) prev) b with
            | none => rw [hre.gone b hz] at hy; cases hy
            | some z =>
              obtain ⟨y', hy', hnext, -⟩ := hre.kept b z hz
              obtain rfl := Option.mem_unique hy hy'
              exact ⟨z, rfl, hnext.symm⟩
          obtain ⟨z, hz, hnext⟩ := hlink
          obtain ⟨bs, hbs⟩ := hdrop.ends b z hz
          rw [← hnext]
          exact ⟨bs, hre.spells hbs⟩
        · by_cases hcb : cur = b
          · subst hcb
            rw [Store.get_put_self hd] at he
            obtain rfl := TagObject.node.inj (Option.some.inj he)
            exact ⟨by change d.count - 1 < _; omega, fun _ => by change d.count - 1 + 1 < _; omega⟩
          · rw [hoth b hcb] at he
            exact hdrop.room b e he
        · exact ⟨hq, Kept.list (hre.kept q) hlist, hre.spells hgs⟩
      · rw [if_neg hshared]
        obtain ⟨gs, rfl, hdrop', hspares⟩ := hdrop.free hd (by omega) p
        have hfree : freeNode
            ((freeNode (s.put cur (.node { d with count := d.count - 1 })) prev).put p
              (.list none)) (some cur) = (freeNode (s.put p (.list none)) prev).free cur := by
          rw [hcomm]
          exact Store.free_put
        rw [← hfree] at hdrop' hspares
        obtain ⟨t, h', hloop, ht, hsound, hroom, hrest⟩ :=
          ih (some cur) hp' (fun h => hpcur (Option.some.inj h).symm) hdrop'
            (Nat.le_of_succ_le_succ hfuel)
        exact ⟨t, h', hloop, ht, hsound, hroom, hspares.trans hrest⟩

theorem free_list (hs : Sound s) (hp : s.get p = some (.list none)) :
    Sound (s.free p) ∧ (s.free p).get p = none ∧ Spares s (s.free p) p := by
  have hroot := hs.list_refs hp
  have hget : ∀ b y, (s.free p).get b = some y → s.get b = some y := by
    intro b y hy
    rw [Store.get_free hp] at hy
    split at hy
    · cases hy
    · exact hy
  have hspell : ∀ b y, s.get b = some y → ∀ gs, Spells s y.next gs →
      Spells (s.free p) y.next gs := fun b y hy gs hgs =>
    spells_free hgs (fun h => not_points hroot ⟨y, hy, h⟩) hroot
  have hfree := hs.books.free hp
  refine ⟨Books.sound ⟨?_, hfree.held⟩ fun b y hy => ?_, Store.get_free_self,
    fun q h' gs hq hlist hgs => ?_, fun a _ hnone => ?_, ?_⟩
  · have hzero : (0 : Nat → Int) + mark none = 0 := by
      rw [mark_none, add_zero]
    have hbal := hfree.balanced
    change Balanced _ _ (0 + mark none) at hbal
    rw [hzero] at hbal
    exact hbal
  · obtain ⟨gs, hgs⟩ := hs.ends b y (hget b y hy)
    exact ⟨gs, hspell b y (hget b y hy) gs hgs⟩
  · rw [Store.get_free_of_ne (Ne.symm hq)]
    exact ⟨h', hlist, hspell q _ hlist gs hgs⟩
  · rw [Store.get_free hp]
    split
    · rfl
    · exact hnone
  · rw [Store.length_free]

end Ns3.TagStore
