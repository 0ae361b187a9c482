/-
  The packet tags of all packets
  (src/network/model/packet-tag-list.h, packet-tag-list.cc).

  The lists of a packet and its copies are one store of objects: the `PacketTagList`s
  themselves and the `TagData` nodes.  A `TagData**` is the address of the object that holds
  the pointer.  The calls are followed by those on maps from tag types to tags, one for
  each list, which are what the lists are for.
-/
import Mathlib.Data.List.AList
import Ns3.Lib.RefCount
import Ns3.Lib.Wrap
import Ns3.Network.TagBuffer

namespace Ns3

open Ns3.Lib

/-- `PacketTagList::TagData`; its `size` is the length of `data`. -/
structure TagData where
  next : Option Nat
  count : Nat
  tid : TypeId
  data : List UInt8
  deriving DecidableEq, Repr

/-- What is in memory. -/
inductive TagObject where
  /-- a `PacketTagList`, with its `m_next` -/
  | list (next : Option Nat)
  | node (d : TagData)
  deriving DecidableEq, Repr

namespace TagObject

def next : TagObject → Option Nat
  | list h => h
  | node d => d.next

def withNext : TagObject → Option Nat → TagObject
  | list _, v => list v
  | node d, v => node { d with next := v }

def count : TagObject → Nat
  | list _ => 0
  | node d => d.count

def entry : TagObject → Option (TypeId × List UInt8)
  | list _ => none
  | node d => some (d.tid, d.data)

instance : Linked TagObject (TypeId × List UInt8) where
  link := next
  body := entry

end TagObject

abbrev TagStore : Type := Store TagObject

namespace TagStore

/-! ## Memory -/

def node (s : TagStore) (a : Nat) : Except Fault TagData :=
  match s.get a with
  | some (.node d) => .ok d
  | _ => .error .badIterator

def head (s : TagStore) (p : Nat) : Except Fault (Option Nat) :=
  match s.get p with
  | some (.list h) => .ok h
  | _ => .error .badIterator

/-- `*prevNext = v`. -/
def setNext (s : TagStore) (i : Nat) (v : Option Nat) : Except Fault TagStore :=
  match s.get i with
  | some x => .ok (s.put i (x.withNext v))
  | none => .error .badIterator

/-- `cur->count++`. -/
def incCount (s : TagStore) (a : Nat) : Except Fault TagStore := do
  let d ← s.node a
  pure (s.put a (.node { d with count := wadd 32 d.count 1 }))

/-- `cur->count--`. -/
def decCount (s : TagStore) (a : Nat) : Except Fault TagStore := do
  let d ← s.node a
  pure (s.put a (.node { d with count := wsub 32 d.count 1 }))

def incNext (s : TagStore) : Option Nat → Except Fault TagStore
  | none => .ok s
  | some a => s.incCount a

/-- `CreateTagData`, after which the fields of the new node are set. -/
def createTagData (s : TagStore) (d : TagData) : Except Fault (TagStore × Nat) := do
  nsAssert (decide (d.data.length < 2 ^ 32 - 1))
  pure (s.alloc (.node d), s.length)

def findTid (s : TagStore) (tid : TypeId) : Nat → Option Nat → Except Fault (Option Nat)
  | _, none => .ok none
  | 0, some _ => .error .noProgress
  | fuel + 1, some cur => do
      let d ← s.node cur
      if d.tid = tid then pure (some cur) else s.findTid tid fuel d.next

/-! ## Copy on write -/

/-- Where the search of `COWTraverse` ends. -/
inductive Stop where
  | ended
  /-- at a node of another type that is linked to more than once, or that may be of that type -/
  | merge (prevNext cur : Nat)
  /-- at a node of the type, all nodes up to there being linked to once -/
  | found (prevNext cur : Nat)
  deriving DecidableEq, Repr

/-- "Search from the head of the list until we find tid or a merge." -/
def search (s : TagStore) (tid : TypeId) : Nat → Nat → Option Nat → Except Fault Stop
  | _, _, none => .ok .ended
  | 0, _, some _ => .error .noProgress
  | fuel + 1, prevNext, some cur => do
      let d ← s.node cur
      if d.count > 1 then pure (.merge prevNext cur)
      else if d.tid = tid then pure (.found prevNext cur)
      else s.search tid fuel cur d.next

/-- A node is unmerged: a copy of it goes between `*prevNext` and the rest. -/
def copyNode (s : TagStore) (prevNext cur : Nat) : Except Fault (TagStore × Nat) := do
  let s ← s.decCount cur
  let d ← s.node cur
  let (s, copy) ← s.createTagData { next := d.next, count := 1, tid := d.tid, data := d.data }
  match d.next with
  | none => .error .nullDereference
  | some next => do
      let s ← s.incCount next
      let s ← s.setNext prevNext (some copy)
      pure (s, copy)

/-- "Walk the remainder of the list, copying, until we find tid." -/
def copyLoop (tid : TypeId) : Nat → TagStore → Nat → Nat → Except Fault (TagStore × Nat × Nat)
  | 0, _, _, _ => .error .noProgress
  | fuel + 1, s, prevNext, cur => do
      let d ← s.node cur
      if d.tid = tid then pure (s, prevNext, cur)
      else do
        nsAssert (decide (d.count > 1))
        let (s, copy) ← s.copyNode prevNext cur
        match d.next with
        | none => .error .nullDereference
        | some next => copyLoop tid fuel s copy next

variable {τ : Type}

/-- `COWTraverse`, with what the writer leaves in the tag when the type was found. -/
def cowTraverse (s : TagStore) (p : Nat) (tid : TypeId)
    (writer : TagStore → Bool → Nat → Nat → Except Fault (TagStore × τ)) :
    Except Fault (TagStore × Option τ) := do
  let h ← s.head p
  match ← s.search tid (s.length + 1) p h with
  | .ended => pure (s, none)
  | .found prevNext cur => do
      let (s, tag) ← writer s true cur prevNext
      pure (s, some tag)
  | .merge prevNext cur => do
      match ← s.findTid tid (s.length + 1) (some cur) with
      | none => pure (s, none)
      | some _ => do
          let d ← s.node cur
          nsAssert (decide (d.count > 1))
          let (s, prevNext, cur) ← copyLoop tid (s.length + 1) s prevNext cur
          let d ← s.node cur
          nsAssert (decide (d.tid = tid))
          nsAssert (decide (d.count > 1))
          let (s, tag) ← writer s false cur prevNext
          pure (s, some tag)

variable (T : TagInterface τ)

def removeWriter (tag : τ) (s : TagStore) (preMerge : Bool) (cur prevNext : Nat) :
    Except Fault (TagStore × τ) := do
  let d ← s.node cur
  let tag ← T.deserialize tag d.data
  let s ← s.setNext prevNext d.next
  if preMerge then pure (s.free cur, tag)
  else do
    let s ← s.decCount cur
    let s ← s.incNext d.next
    pure (s, tag)

def replaceWriter (tag : τ) (s : TagStore) (preMerge : Bool) (cur prevNext : Nat) :
    Except Fault (TagStore × τ) := do
  if preMerge then do
    -- the storage stays the one of the old value
    let d ← s.node cur
    let data ← serializeTo d.data (T.serialize tag)
    pure (s.put cur (.node { d with data }), tag)
  else do
    let s ← s.decCount cur
    let d ← s.node cur
    let data ← serializeTo (List.replicate (T.getSerializedSize tag) 0) (T.serialize tag)
    let (s, copy) ← s.createTagData
      { next := d.next, count := 1, tid := T.getInstanceTypeId tag, data }
    let s ← s.incNext d.next
    let s ← s.setNext prevNext (some copy)
    pure (s, tag)

/-! ## The operations of a list -/

def add (s : TagStore) (p : Nat) (tag : τ) : Except Fault TagStore := do
  let h ← s.head p
  let found ← s.findTid (T.getInstanceTypeId tag) (s.length + 1) h
  nsAssert found.isNone
  let data ← serializeTo (List.replicate (T.getSerializedSize tag) 0) (T.serialize tag)
  let (s, head) ← s.createTagData
    { next := h, count := 1, tid := T.getInstanceTypeId tag, data }
  s.setNext p (some head)

def remove (s : TagStore) (p : Nat) (tag : τ) : Except Fault (TagStore × Option τ) :=
  s.cowTraverse p (T.getInstanceTypeId tag) (removeWriter T tag)

def replace (s : TagStore) (p : Nat) (tag : τ) : Except Fault (TagStore × Bool) := do
  let (s, found) ← s.cowTraverse p (T.getInstanceTypeId tag) (replaceWriter T tag)
  match found with
  | some _ => pure (s, true)
  | none => do
      let s ← s.add T p tag
      pure (s, false)

def peek (s : TagStore) (p : Nat) (tag : τ) : Except Fault (Option τ) := do
  let h ← s.head p
  match ← s.findTid (T.getInstanceTypeId tag) (s.length + 1) h with
  | none => pure none
  | some cur => do
      let d ← s.node cur
      let tag ← T.deserialize tag d.data
      pure (some tag)

def freeNode (s : TagStore) : Option Nat → TagStore
  | none => s
  | some prev => s.free prev

/-- The loop of `RemoveAll`: a node is freed when the one behind it is looked at. -/
def removeAllLoop : Nat → TagStore → Option Nat → Option Nat → Except Fault TagStore
  | _, s, prev, none => .ok (s.freeNode prev)
  | 0, _, _, some _ => .error .noProgress
  | fuel + 1, s, prev, some cur => do
      let s ← s.decCount cur
      let d ← s.node cur
      if d.count > 0 then pure (s.freeNode prev)
      else removeAllLoop fuel (s.freeNode prev) (some cur) d.next

def removeAll (s : TagStore) (p : Nat) : Except Fault TagStore := do
  let h ← s.head p
  let s ← removeAllLoop (s.length + 1) s none h
  s.setNext p none

/-- The copy constructor, with the address of the new list. -/
def copy (s : TagStore) (o : Nat) : Except Fault (TagStore × Nat) := do
  let h ← s.head o
  let p := s.length
  let s ← incNext (s.alloc (.list h)) h
  pure (s, p)

/-- `operator=`. -/
def assign (s : TagStore) (p o : Nat) : Except Fault TagStore := do
  let h ← s.head p
  let h' ← s.head o
  if h = h' then pure s
  else do
    let s ← s.removeAll p
    let h ← s.head o
    let s ← s.setNext p h
    s.incNext h

def destroy (s : TagStore) (p : Nat) : Except Fault TagStore := do
  let s ← s.removeAll p
  pure (s.free p)

end TagStore

/-! ## Runs -/

/-- A call on one of the lists, which are numbered in the order they are made. -/
inductive TagCall (τ : Type) where
  | create
  | copy (o : Nat)
  | assign (p o : Nat)
  | destroy (p : Nat)
  | removeAll (p : Nat)
  | add (p : Nat) (tag : τ)
  | replace (p : Nat) (tag : τ)
  | remove (p : Nat) (tag : τ)
  | peek (p : Nat) (tag : τ)
  deriving DecidableEq, Repr

/-- What a call returns. -/
inductive TagOutcome (τ : Type) where
  | done
  | found (b : Bool)
  | tag (t : Option τ)
  deriving DecidableEq, Repr

/-- The memory, and the addresses of the lists made so far. -/
structure TagLists where
  store : TagStore
  lists : List Nat
  deriving DecidableEq, Repr

namespace TagLists

variable {τ : Type} (T : TagInterface τ)

def initial : TagLists := { store := [], lists := [] }

def address (st : TagLists) (p : Nat) : Except Fault Nat :=
  match st.lists[p]? with
  | some a => .ok a
  | none => .error .badIterator

def exec (st : TagLists) : TagCall τ → Except Fault (TagLists × TagOutcome τ)
  | .create => .ok
      ({ store := st.store.alloc (.list none), lists := st.lists ++ [st.store.length] }, .done)
  | .copy o => do
      let o ← st.address o
      let (s, p) ← st.store.copy o
      pure ({ store := s, lists := st.lists ++ [p] }, .done)
  | .assign p o => do
      let p ← st.address p
      let o ← st.address o
      let s ← st.store.assign p o
      pure ({ st with store := s }, .done)
  | .destroy p => do
      let p ← st.address p
      let s ← st.store.destroy p
      pure ({ st with store := s }, .done)
  | .removeAll p => do
      let p ← st.address p
      let s ← st.store.removeAll p
      pure ({ st with store := s }, .done)
  | .add p tag => do
      let p ← st.address p
      let s ← st.store.add T p tag
      pure ({ st with store := s }, .done)
  | .replace p tag => do
      let p ← st.address p
      let (s, found) ← st.store.replace T p tag
      pure ({ st with store := s }, .found found)
  | .remove p tag => do
      let p ← st.address p
      let (s, t) ← st.store.remove T p tag
      pure ({ st with store := s }, .tag t)
  | .peek p tag => do
      let p ← st.address p
      let t ← st.store.peek T p tag
      pure (st, .tag t)

def run : TagLists → List (TagCall τ) → Except Fault (TagLists × List (TagOutcome τ))
  | st, [] => .ok (st, [])
  | st, call :: calls => do
      let (st, o) ← st.exec T call
      let (st, os) ← st.run calls
      pure (st, o :: os)

end TagLists

/-! ## The maps -/

abbrev TagMap (τ : Type) : Type := AList fun _ : TypeId => τ

/-- A map for each list made so far, `none` after its destruction. -/
abbrev TagMaps (τ : Type) : Type := List (Option (TagMap τ))

namespace TagMaps

variable {τ : Type} (T : TagInterface τ)

def map (maps : TagMaps τ) (p : Nat) : Option (TagMap τ) := maps[p]?.join

/-- One call, on the map of the list alone.  It is none when the list is not alive, or has
a tag of the type that is to be added. -/
def exec (c : TagMaps τ) : TagCall τ → Option (TagMaps τ × TagOutcome τ)
  | .create => some (c ++ [some ∅], .done)
  | .copy o => (c.map o).map fun m => (c ++ [some m], .done)
  | .assign p o => do
      let _ ← c.map p
      let m ← c.map o
      pure (c.set p (some m), .done)
  | .destroy p => (c.map p).map fun _ => (c.set p none, .done)
  | .removeAll p => (c.map p).map fun _ => (c.set p (some ∅), .done)
  | .add p tag => do
      let m ← c.map p
      if T.getInstanceTypeId tag ∈ m then none
      else pure (c.set p (some (m.insert (T.getInstanceTypeId tag) tag)), .done)
  | .replace p tag => (c.map p).map fun m =>
    if T.getInstanceTypeId tag ∈ m then
      (c.set p (some (m.replace (T.getInstanceTypeId tag) tag)), .found true)
    else (c.set p (some (m.insert (T.getInstanceTypeId tag) tag)), .found false)
  | .remove p tag => (c.map p).map fun m =>
    (c.set p (some (m.erase (T.getInstanceTypeId tag))),
      .tag (m.lookup (T.getInstanceTypeId tag)))
  | .peek p tag => (c.map p).map fun m => (c, .tag (m.lookup (T.getInstanceTypeId tag)))

def run : TagMaps τ → List (TagCall τ) → Option (TagMaps τ × List (TagOutcome τ))
  | c, [] => some (c, [])
  | c, call :: calls => do
      let (c, o) ← c.exec T call
      let (c, os) ← run c calls
      pure (c, o :: os)

end TagMaps

end Ns3
