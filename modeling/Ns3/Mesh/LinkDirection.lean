/-
  The ids that go in one direction of a peer link.

  In each direction there is an id of the sender that the receiver has heard last: the
  receiver's link has it or none, no frame in flight is older, and a link of the sender that is
  confirmed is not newer.
-/
import Ns3.Lib.Stamps
import Ns3.Mesh.LinkMoves

namespace Ns3

namespace Mesh

open Lib PeerManagementProtocol

variable {h h' : Nat} {mac : Mac48Address} {heard : Option IePeerManagement} {e e' : LinkEnd}
  {l : PeerLink} {f : Frame} {air fs : List Frame}

/-! ## One direction of the link -/

namespace LinkEnd

def latest (e : LinkEnd) : Nat :=
  match e.link with
  | some l => l.localLinkId
  | none => e.created

end LinkEnd

def Frame.id (f : Frame) : Nat := f.peerElement.getLocalLinkId

/-- The sender's end, when the receiver has heard the id `h` last. -/
structure Sending (mac : Mac48Address) (h : Nat) (e : LinkEnd) (air : List Frame) : Prop where
  flight : InFlight h e.latest (air.map Frame.id)
  frame : ∀ f ∈ air, f.id ≠ 0 ∧ f.addr2 = mac
  link : ∀ l, e.link = some l →
    l.localLinkId ≠ 0 ∧ l.localLinkId ≤ e.created ∧ l.macAddress = mac
  confirmed : ∀ l, e.link = some l → l.state.Confirmed → l.localLinkId ≤ h

/-- The receiver's end, which has heard the id `h` last, and the frames that it has sent. -/
structure Receiving (h : Nat) (e : LinkEnd) (air : List Frame) : Prop where
  adopted : ∀ l, e.link = some l → l.peerLinkId = 0 ∨ l.peerLinkId = h
  known : ∀ l, e.link = some l → l.state.KnowsPeer → l.peerLinkId ≠ 0
  answered : ∀ f ∈ air, ∀ a b, f.peerElement = .peerConfirm a b → b ≤ h

theorem sending_start (n : Nat) : Sending mac 0 ⟨none, n⟩ [] :=
  ⟨.start n, nofun, nofun, nofun⟩

theorem receiving_start (n : Nat) : Receiving 0 ⟨none, n⟩ [] :=
  ⟨nofun, nofun, nofun⟩

theorem Sending.lose (hs : Sending mac h e (f :: air)) : Sending mac h e air :=
  ⟨hs.flight.ignore, fun g hg => hs.frame g (.tail _ hg), hs.link, hs.confirmed⟩

theorem Sending.eraseIdx (hs : Sending mac h e air) (i : Nat) : Sending mac h e (air.eraseIdx i) :=
  ⟨hs.flight.lose ((List.eraseIdx_sublist air i).map Frame.id),
    fun g hg => hs.frame g (List.mem_of_mem_eraseIdx hg), hs.link, hs.confirmed⟩

theorem Sending.hear (hs : Sending mac h e (f :: air)) : Sending mac f.id e air := by
  refine ⟨hs.flight.hear, fun g hg => hs.frame g (.tail _ hg), hs.link, ?_⟩
  intro l hl hconf
  exact (hs.confirmed l hl hconf).trans (hs.flight.above f.id (.head _))

theorem Receiving.sublist {air' : List Frame} (hr : Receiving h e air)
    (hsub : ∀ f ∈ air', f ∈ air) : Receiving h e air' :=
  ⟨hr.adopted, hr.known, fun f hf => hr.answered f (hsub f hf)⟩

theorem Sending.step (hs : Sending mac h e air) (hcreated : e'.created < 65535)
    (hheard : ∀ a b, heard = some (.peerConfirm a b) → b ≤ h)
    (hstep : EndStep mac heard e fs e') : Sending mac h e' (air ++ fs) := by
  cases hstep with
  | @erase l n =>
    rw [List.append_nil]
    exact ⟨hs.flight.advance (hs.link l rfl).2.1, hs.frame, nofun, nofun⟩
  | @createOther link n =>
    rw [List.append_nil]
    refine ⟨?_, hs.frame, fun l hl => ?_, hs.confirmed⟩
    · cases link with
      | none => exact hs.flight.advance (Nat.le_succ n)
      | some l => exact hs.flight
    · obtain ⟨hid, hle, hmac⟩ := hs.link l hl
      exact ⟨hid, hle.trans (Nat.le_succ n), hmac⟩
  | @create l n hid hpeer hidle hmac =>
    have hnext : l.localLinkId = n + 1 :=
      hid.trans (Nat.mod_eq_of_lt (hcreated.trans (by decide)))
    rw [List.append_nil]
    refine ⟨hs.flight.advance ?_, hs.frame, ?_, ?_⟩
    · show n ≤ l.localLinkId
      omega
    · intro l' hl'
      cases hl'
      exact ⟨by omega, hnext.le, hmac⟩
    · intro l' hl' hconf
      cases hl'
      rw [hidle] at hconf
      rcases hconf with hconf | hconf
      · cases hconf
      · cases hconf
  | @react l r n hreacts =>
    obtain ⟨hid, hle, hmac⟩ := hs.link l rfl
    have hlatest : LinkEnd.latest ⟨some r.link, n⟩ = LinkEnd.latest ⟨some l, n⟩ :=
      hreacts.localLinkId
    refine ⟨?_, ?_, ?_, ?_⟩
    · rw [List.map_append, hlatest]
      refine hs.flight.send fun x hx => ?_
      obtain ⟨f, hf, rfl⟩ := List.mem_map.mp hx
      exact (hreacts.sent f hf).localLinkId.trans hreacts.localLinkId
    · intro f hf
      rcases List.mem_append.mp hf with hf | hf
      · exact hs.frame f hf
      · have hsent := hreacts.sent f hf
        rw [Frame.id, hsent.localLinkId, hreacts.localLinkId]
        exact ⟨hid, hsent.addr2.trans (hreacts.macAddress.trans hmac)⟩
    · intro l' hl'
      cases hl'
      rw [hreacts.localLinkId, hreacts.macAddress]
      exact ⟨hid, hle, hmac⟩
    · intro l' hl' hconf
      cases hl'
      rw [hreacts.localLinkId]
      rcases hreacts.confirmed hconf with hconf | ⟨a, ha⟩
      · exact hs.confirmed l rfl hconf
      · exact hheard a l.localLinkId ha

theorem Receiving.step (hr : Receiving h e air)
    (hheard : ∀ el, heard = some el → h ≤ el.getLocalLinkId ∧ el.getLocalLinkId ≠ 0)
    (hstep : EndStep mac heard e fs e') :
    ∃ h', (h' = h ∨ ∃ el, heard = some el ∧ h' = el.getLocalLinkId) ∧
      Receiving h' e' (air ++ fs) := by
  cases hstep with
  | erase =>
    rw [List.append_nil]
    exact ⟨h, .inl rfl, nofun, nofun, hr.answered⟩
  | createOther =>
    rw [List.append_nil]
    exact ⟨h, .inl rfl, hr.adopted, hr.known, hr.answered⟩
  | @create l n hid hpeer hidle hmac =>
    rw [List.append_nil]
    refine ⟨h, .inl rfl, ?_, ?_, hr.answered⟩
    · intro l' hl'
      cases hl'
      exact .inl hpeer
    · intro l' hl' hknows
      cases hl'
      rw [hidle] at hknows
      rcases hknows with hknows | hknows | hknows
      · cases hknows
      · cases hknows
      · cases hknows
  | @react l r n hreacts =>
    -- what was sent confirms the id that the link has now
    have hanswered {k : Nat} (hle : h ≤ k) (hid : r.link.peerLinkId = 0 ∨ r.link.peerLinkId = k) :
        ∀ f ∈ air ++ r.sent, ∀ a b, f.peerElement = .peerConfirm a b → b ≤ k := by
      intro f hf a b heq
      rcases List.mem_append.mp hf with hf | hf
      · exact (hr.answered f hf a b heq).trans hle
      · rw [(hreacts.sent f hf).peerLinkId a b heq]
        omega
    rcases hreacts.peerLinkId with hkept | ⟨el, hel, htaken⟩
    · have hid := hkept ▸ hr.adopted l rfl
      refine ⟨h, .inl rfl, ?_, ?_, hanswered (Nat.le_refl h) hid⟩
      · intro l' hl'
        cases hl'
        exact hid
      · intro l' hl' hknows
        cases hl'
        rcases hreacts.knowsPeer hknows with ⟨hknows, -⟩ | ⟨el, hel, htaken⟩
        · rw [hkept]
          exact hr.known l rfl hknows
        · rw [htaken]
          exact (hheard el hel).2
    · obtain ⟨hle, hne⟩ := hheard el hel
      refine ⟨_, .inr ⟨el, hel, rfl⟩, ?_, ?_, hanswered hle (.inr htaken)⟩
      · intro l' hl'
        cases hl'
        exact .inr htaken
      · intro l' hl' _
        cases hl'
        rw [htaken]
        exact hne

theorem EndStep.created_le (hstep : EndStep mac heard e fs e') : e.created ≤ e'.created := by
  cases hstep with
  | erase => exact le_rfl
  | createOther => exact Nat.le_succ _
  | create => exact Nat.le_succ _
  | react => exact le_rfl

variable {ls : List (List Frame)}

theorem created_le_of_run (hrun : Run (EndStep mac heard) e ls e') : e.created ≤ e'.created :=
  hrun.invariant (P := fun u => e.created ≤ u.created) le_rfl
    fun _ _ _ hle hstep => hle.trans hstep.created_le

theorem Sending.run (hs : Sending mac h e air)
    (hheard : ∀ a b, heard = some (.peerConfirm a b) → b ≤ h)
    (hrun : Run (EndStep mac heard) e ls e') (hcreated : e'.created < 65535) :
    Sending mac h e' (air ++ ls.flatten) := by
  refine hrun.invariant_trace (P := fun ks u => u.created < 65535 →
    Sending mac h u (air ++ ks.flatten)) ?_ ?_ hcreated
  · intro _
    rw [List.flatten_nil, List.append_nil]
    exact hs
  · intro ks u fs v hu hstep hv
    rw [List.flatten_append, List.flatten_singleton, ← List.append_assoc]
    exact (hu (hstep.created_le.trans_lt hv)).step hv hheard hstep

theorem Receiving.run (hr : Receiving h e air)
    (hheard : ∀ el, heard = some el → h ≤ el.getLocalLinkId ∧ el.getLocalLinkId ≠ 0)
    (hrun : Run (EndStep mac heard) e ls e') :
    ∃ h', (h' = h ∨ ∃ el, heard = some el ∧ h' = el.getLocalLinkId) ∧
      Receiving h' e' (air ++ ls.flatten) := by
  refine hrun.invariant_trace (P := fun ks u => ∃ h', (h' = h ∨ ∃ el, heard = some el ∧
    h' = el.getLocalLinkId) ∧ Receiving h' u (air ++ ks.flatten)) ?_ ?_
  · refine ⟨h, .inl rfl, ?_⟩
    rw [List.flatten_nil, List.append_nil]
    exact hr
  · rintro ks u fs v ⟨k, hk, hu⟩ hstep
    have hheard' : ∀ el, heard = some el → k ≤ el.getLocalLinkId ∧ el.getLocalLinkId ≠ 0 := by
      intro el hel
      rcases hk with rfl | ⟨el', hel', rfl⟩
      · exact hheard el hel
      · obtain rfl := Option.mem_unique hel hel'
        exact ⟨le_rfl, (hheard el hel).2⟩
    obtain ⟨k', hk', hv⟩ := hu.step hheard' hstep
    rw [List.flatten_append, List.flatten_singleton, ← List.append_assoc]
    refine ⟨k', ?_, hv⟩
    rcases hk' with rfl | htaken
    · exact hk
    · exact .inr htaken

end Mesh

end Ns3
