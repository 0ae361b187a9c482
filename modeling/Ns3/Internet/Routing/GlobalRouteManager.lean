/-
  The shortest paths from one router.

  `SPFCalculate` takes the nearest candidate into the tree and looks at the records of its
  advertisement, until no candidate is left.  What it enters into the routing tables is
  left out: the tree is given by the vertices in the order they are popped.
-/
import Ns3.Internet.Routing.CandidateQueue

namespace Ns3

/-- What the computation asks the nodes and the memory for. -/
structure RoutingEnv where
  nNodes : Nat
  outgoingInterfaceId : Ipv4Address → Ipv4Mask → Int
  /-- where the vertex with this identifier is kept -/
  address : Ipv4Address → Nat

inductive SPFStatus where
  | notExplored
  | candidate
  | inSpfTree
  deriving DecidableEq, Repr

/-- What changes while the tree is built. -/
structure SpfState where
  status : Ipv4Address → SPFStatus
  candidate : CandidateQueue

namespace SpfState

def setStatus (s : SpfState) (lsa : GlobalRoutingLSA) (status : SPFStatus) : SpfState :=
  { s with status := fun id => if id = lsa.linkStateId then status else s.status id }

end SpfState

/-- The loop of `GlobalRouteManagerImpl::SPFGetNextLink`. -/
def spfGetNextLinkFrom (id : Ipv4Address) :
    Bool → Bool → List GlobalRoutingLinkRecord → Option GlobalRoutingLinkRecord
  | _, _, [] => none
  | foundPrevLink, skip, l :: ls =>
    if l.linkId = id then
      if !foundPrevLink then
        spfGetNextLinkFrom id true skip ls
      else if !skip then
        some l
      else
        spfGetNextLinkFrom id foundPrevLink false ls
    else
      spfGetNextLinkFrom id foundPrevLink skip ls

/-- `GlobalRouteManagerImpl::SPFGetNextLink`: `prev_link` is a flag. -/
def spfGetNextLink (v w : SPFVertex) (prevLink : Bool) : Option GlobalRoutingLinkRecord :=
  spfGetNextLinkFrom w.vertexId (!prevLink) prevLink v.lsa.linkRecords

/-- The `while` loop of `SPFNexthopCalculation`, on the records of `w` that lead to the network `v`.
Every later call returns the same record. -/
def setExitOnNetwork (v w : SPFVertex) : Except Fault SPFVertex :=
  match spfGetNextLink w v false with
  | none => .ok w
  | some linkRemote => do
      let exit ← v.getRootExitDirection
      match spfGetNextLink w v true with
      | none => .ok (w.setRootExitDirection (linkRemote.linkData, exit.2))
      | some _ => .error .noProgress

/-- `GlobalRouteManagerImpl::SPFNexthopCalculation`; a vertex is the root when it has the
identifier of the root. -/
def spfNexthopCalculation (env : RoutingEnv) (root : Ipv4Address) (v w : SPFVertex)
    (l : Option GlobalRoutingLinkRecord) (distance : Nat) : Except Fault SPFVertex :=
  if v.vertexId = root then
    match w.vertexType with
    | .vertexRouter => do
        match l with
        | none => .error .assertFailed
        | some l =>
          match spfGetNextLink w v false with
          | none => .error .nullDereference
          | some linkRemote =>
            let outIf := env.outgoingInterfaceId l.linkData Ipv4Mask.ones
            let w := w.setRootExitDirection (linkRemote.linkData, outIf)
            .ok (w.reachedFrom v.vertexId distance)
    | .vertexNetwork =>
      let outIf := env.outgoingInterfaceId w.lsa.linkStateId w.lsa.networkLSANetworkMask
      let w := w.setRootExitDirection (0, outIf)
      .ok (w.reachedFrom v.vertexId distance)
  else
    match v.vertexType with
    | .vertexNetwork =>
      if v.parents.head? = some root then do
        nsAssert (w.vertexType = .vertexRouter)
        let w ← setExitOnNetwork v w
        return w.reachedFrom v.vertexId distance
      else do
        let exit ← v.getRootExitDirection
        let w := w.setRootExitDirection exit
        return w.reachedFrom v.vertexId distance
    | .vertexRouter =>
      .ok ((w.inheritAllRootExitDirections v).reachedFrom v.vertexId distance)

/-- What a vertex of the tree leads to: a link record, or an attached router. -/
inductive SpfEntry where
  | link (l : GlobalRoutingLinkRecord)
  | attached (addr : Ipv4Address)
  deriving DecidableEq, Repr

namespace SpfEntry

/-- The entries of an advertisement, in the order `SPFNext` goes through them. -/
def entries (lsa : GlobalRoutingLSA) : List SpfEntry :=
  match lsa.lsType with
  | .routerLSA => lsa.linkRecords.map .link
  | .networkLSA => lsa.attachedRouters.map .attached

def record : SpfEntry → Option GlobalRoutingLinkRecord
  | .link l => some l
  | .attached _ => none

def cost : SpfEntry → Nat
  | .link l => l.metric
  | .attached _ => 0

/-- The advertisement of the other end; `none` where `SPFNext` continues with the next entry. -/
def target (db : GlobalRouteManagerLSDB) : SpfEntry → Except Fault (Option GlobalRoutingLSA)
  | .link l =>
    match l.linkType with
    | .stubNetwork => .ok none
    | .pointToPoint | .transitNetwork =>
      match db.getLSA l.linkId with
      | none => .error .assertFailed
      | some w_lsa => .ok (some w_lsa)
    | .unknown | .virtualLink => .error .assertFailed
  | .attached addr => .ok (db.getLSAByLinkData addr)

end SpfEntry

namespace SpfState

variable (env : RoutingEnv) (root : Ipv4Address)

/-- `SPFNext` for a vertex that is not explored. -/
def explore (s : SpfState) (v : SPFVertex) (w_lsa : GlobalRoutingLSA) (e : SpfEntry)
    (distance : Nat) : Except Fault SpfState := do
  let w ← spfNexthopCalculation env root v (.new w_lsa) e.record distance
  let s := s.setStatus w_lsa .candidate
  return { s with candidate := s.candidate.push w }

/-- `SPFNext` for a vertex that is a candidate. -/
def improve (s : SpfState) (v : SPFVertex) (w_lsa : GlobalRoutingLSA) (e : SpfEntry)
    (distance : Nat) : Except Fault SpfState :=
  match s.candidate.find w_lsa.linkStateId with
  | none => .error .nullDereference
  | some cw =>
    if cw.distanceFromRoot < distance then
      .ok s
    else if cw.distanceFromRoot = distance then do
      let w ← spfNexthopCalculation env root v (.new w_lsa) e.record distance
      let cw := (cw.mergeRootExitDirections w).mergeParent env.address w
      return { s with candidate := s.candidate.update w_lsa.linkStateId cw }
    else do
      let cw ← spfNexthopCalculation env root v cw e.record distance
      return { s with candidate := (s.candidate.update w_lsa.linkStateId cw).reorder }

/-- One round of the loop of `SPFNext`. -/
def examine (db : GlobalRouteManagerLSDB) (s : SpfState) (v : SPFVertex) (e : SpfEntry) :
    Except Fault SpfState := do
  match ← e.target db with
  | none => return s
  | some w_lsa =>
    -- the sum is a `uint32_t`
    let distance := (v.distanceFromRoot + e.cost) % 2 ^ 32
    match s.status w_lsa.linkStateId with
    | .inSpfTree => return s
    | .notExplored => s.explore env root v w_lsa e distance
    | .candidate => s.improve env root v w_lsa e distance

def spfNext (db : GlobalRouteManagerLSDB) (s : SpfState) (v : SPFVertex) :
    Except Fault SpfState :=
  (SpfEntry.entries v.lsa).foldlM (fun s e => s.examine env root db v e) s

/-- The loop of `SPFCalculate`, with the vertices popped so far before those that follow.
Each round takes one more advertisement into the tree. -/
def spfLoop (db : GlobalRouteManagerLSDB) : Nat → SpfState → SPFVertex →
    Except Fault (List SPFVertex)
  | 0, _, _ => .error .noProgress
  | fuel + 1, s, v => do
      let s ← s.spfNext env root db v
      match s.candidate with
      | [] => return []
      | v :: candidate => do
          let s := { s with candidate }.setStatus v.lsa .inSpfTree
          let popped ← s.spfLoop db fuel v
          return v :: popped

end SpfState

def GlobalRoutingLinkRecord.isTransit (l : GlobalRoutingLinkRecord) : Bool :=
  l.linkType = .transitNetwork ∨ l.linkType = .pointToPoint

/-- `GlobalRouteManagerImpl::CheckForStubNode`, without the default route it installs. -/
def checkForStubNode (db : GlobalRouteManagerLSDB) (root : Ipv4Address) : Except Fault Bool :=
  match db.getLSA root with
  | none => .error .nullDereference
  | some rlsa =>
    match rlsa.linkRecords.filter fun l => l.isTransit with
    | [] => .ok true
    | [transitLink] =>
      if transitLink.linkType = .transitNetwork then
        .ok false
      else
        match db.getLSA transitLink.linkId with
        | none => .error .nullDereference
        | some w_lsa => .ok <| w_lsa.linkRecords.any fun lr =>
          lr.linkType = .pointToPoint ∧ lr.linkId = rlsa.linkStateId
    | _ :: _ :: _ => .ok false

/-- `GlobalRouteManagerImpl::SPFCalculate`: the vertices in the order they are popped. -/
def spfCalculate (env : RoutingEnv) (db : GlobalRouteManagerLSDB) (root : Ipv4Address) :
    Except Fault (List SPFVertex) :=
  match db.getLSA root with
  | none => .error .nullDereference
  | some lsa => do
      let s : SpfState := { status := fun _ => .notExplored, candidate := [] }
      let v := { SPFVertex.new lsa with distanceFromRoot := 0 }
      let s := s.setStatus lsa .inSpfTree
      if env.nNodes > 0 then
        if ← checkForStubNode db root then
          return []
      s.spfLoop env root db db.database.length v

end Ns3
