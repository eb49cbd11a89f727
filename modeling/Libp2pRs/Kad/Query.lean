import Libp2pRs.Kad.Protocol
import Libp2pRs.Lib.Runs
import Libp2pRs.Lib.SortedMap

/-!
# Iterative queries

An `IterativeQuery` keeps the peers it has heard of in a map ordered by their distance to the
target. Its loop waits for an update, merges it into the map, and starts jobs for the closest
peers that have not been contacted, up to `alpha` at a time.

The jobs run in tasks of their own. A `QueryRun` is the state of the loop together with the
jobs that are still out and the channel they report to, and `step` is one event of the whole:
a job puts its update into the channel, the loop takes one out, or the deadline passes. Any
order of completion of the jobs is a list of such events.
-/

namespace Libp2pRs.Kad

open Lib Libp2pRs.Core

inductive PeerState where
  | notContacted
  | waiting
  | unreachable
  | succeeded
  deriving DecidableEq, Repr

structure PeerWithState where
  peer : KadPeer
  state : PeerState
  deriving DecidableEq, Repr

def PeerWithState.new (peer : KadPeer) : PeerWithState := ⟨peer, .notContacted⟩

/-- What a job, or the start of the query, tells the loop. -/
inductive QueryUpdate where
  | queried (source : PeerId) (closer : List KadPeer) (provider : Option (List KadPeer))
      (record : Option Record)
  | unreachable (p : PeerId)
  deriving DecidableEq, Repr

structure RecordOfPeer where
  peer : Option PeerId
  record : Record
  deriving DecidableEq, Repr

structure QueryResult where
  closestPeers : Option (List KadPeer)
  foundPeer : Option KadPeer
  providers : Option (List KadPeer)
  records : Option (List RecordOfPeer)
  cachePeers : Option (List PeerId)
  deriving DecidableEq, Repr

/-- All peers of a query, sorted by their distance to the target. -/
structure ClosestPeers where
  target : Key RecordKey
  closestPeers : SortedMap Distance PeerWithState

namespace ClosestPeers

variable (sha256 : List UInt8 → KeyBytes) (cp : ClosestPeers)

def new (key : RecordKey) : ClosestPeers := ⟨Key.new sha256 key, SortedMap.empty⟩

def distance (p : PeerId) : Distance :=
  (Key.new sha256 (RecordKey.ofPeerId p)).bytes.distance cp.target

def addPeer (peer : KadPeer) : ClosestPeers :=
  { cp with
    closestPeers := cp.closestPeers.orInsert (cp.distance sha256 peer.nodeId) (.new peer) }

def addPeers (peers : List KadPeer) : ClosestPeers := peers.foldl (addPeer sha256) cp

/-- The entry of the target itself, at distance zero. -/
def hasTarget : Option KadPeer :=
  (cp.closestPeers.get (cp.target.bytes.distance cp.target)).map PeerWithState.peer

def peersFilter (num : Nat) (p : PeerWithState → Bool) : List PeerWithState :=
  (cp.closestPeers.values.filter p).take num

def peersInState (state : PeerState) (num : Nat) : List PeerWithState :=
  (cp.closestPeers.first (fun p => p.state = state) num).map Prod.snd

def setPeersInState (state : PeerState) (num : Nat) (new : PeerState) : ClosestPeers :=
  { cp with
    closestPeers :=
      cp.closestPeers.updateFirst (fun p => p.state = state) num ({ · with state := new }) }

def peersInStates (states : List PeerState) (num : Nat) : List PeerWithState :=
  (cp.closestPeers.values.filter (fun p => p.state ∈ states)).take num

def getPeerState (p : PeerId) : Option PeerState :=
  (cp.closestPeers.get (cp.distance sha256 p)).map PeerWithState.state

def setPeerState (p : PeerId) (state : PeerState) : ClosestPeers :=
  { cp with
    closestPeers := cp.closestPeers.modify (cp.distance sha256 p) ({ · with state := state }) }

def numOfState (state : PeerState) : Nat :=
  (cp.closestPeers.values.filter (fun p => p.state = state)).length

def numOfStates (states : List PeerState) : Nat :=
  (cp.closestPeers.values.filter (fun p => p.state ∈ states)).length

def isStarved : Bool := cp.numOfStates [.notContacted, .waiting] = 0

/-- The `beta` closest peers that may still answer have all answered. -/
def canTerminate (beta : Nat) : Bool :=
  ((cp.closestPeers.values.filter (fun p =>
      p.state = .notContacted ∨ p.state = .waiting ∨ p.state = .succeeded)).take beta).all
    (fun p => p.state = .succeeded)

end ClosestPeers

/-- What a query looks for. The last two are for fixed queries only. -/
inductive QueryType where
  | findPeer
  | getClosestPeers
  | getProviders (count : Nat) (found : Option (List KadPeer))
  | getRecord (quorum : Nat) (found : Option (List RecordOfPeer))
  | addProvider (provider : ProviderRecord) (addresses : List Multiaddr)
  | putRecord (record : Record)

inductive QueryEffect where
  | call (c : StoreCall)
  | post (e : ProtocolEvent)

structure IterativeQuery where
  queryType : QueryType
  key : RecordKey
  localId : PeerId
  config : QueryConfig
  seeds : List (Key PeerId)

namespace IterativeQuery

variable (sha256 : List UInt8 → KeyBytes) (q : IterativeQuery)

structure Handled where
  completed : Bool
  results : QueryResult
  closest : ClosestPeers
  effects : List QueryEffect

/-- The providers after a reply: the new ones are appended, and of the entries of one peer the
first is kept. -/
def mergeProviders (old : Option (List KadPeer)) (provider : List KadPeer) : List KadPeer :=
  match old with
  | some old =>
    ((old ++ provider).insertionSort (fun a b => a.nodeId ≤ b.nodeId)).destutter
      (fun a b => a.nodeId ≠ b.nodeId)
  | none => provider

/-- The part of `handle_update` that depends on the type of the query. `none` is a panic. -/
def handleReply (source : PeerId) (provider : Option (List KadPeer)) (record : Option Record)
    (results : QueryResult) (closest : ClosestPeers) (effects : List QueryEffect) :
    Option Handled :=
  match q.queryType with
  | .getClosestPeers => some ⟨false, results, closest, effects⟩
  | .findPeer =>
    match closest.hasTarget with
    | some peer => some ⟨true, { results with foundPeer := some peer }, closest, effects⟩
    | none => some ⟨false, results, closest, effects⟩
  | .getProviders count _ =>
    match provider with
    | none => some ⟨false, results, closest, effects⟩
    | some provider =>
      let effects := effects ++
        provider.map (fun peer => .call (.addAddrs peer.nodeId peer.multiaddrs providerAddrTtl))
      if provider.isEmpty then some ⟨false, results, closest, effects⟩
      else
        let providers := mergeProviders results.providers provider
        some ⟨count ≠ 0 && count ≤ providers.length,
          { results with providers := some providers }, closest, effects⟩
  | .getRecord quorum _ =>
    match record with
    | none => some ⟨false, results, closest, effects⟩
    | some record =>
      let records := results.records.getD [] ++ [⟨some source, record⟩]
      let results := { results with records := some records }
      if quorum < records.length then
        let peersHaveValue := records.filterMap RecordOfPeer.peer
        let peers := (closest.peersFilter q.config.kValue (fun p =>
          p.state ≠ .unreachable ∧ p.peer.nodeId ∉ peersHaveValue)).map (fun p => p.peer.nodeId)
        some ⟨true, { results with cachePeers := some peers }, closest, effects⟩
      else some ⟨false, results, closest, effects⟩
  | .addProvider _ _ => none
  | .putRecord _ => none

def handleUpdate (update : QueryUpdate) (results : QueryResult) (closest : ClosestPeers) :
    Option Handled :=
  match update with
  | .queried source closer provider record =>
    -- the local peer is not added
    let closer := closer.filter (fun p => p.nodeId ≠ q.localId)
    let stored : List QueryEffect :=
      closer.map (fun peer => .call (.addAddrs peer.nodeId peer.multiaddrs tempAddrTtl))
    let closest := (closest.addPeers sha256 closer).setPeerState sha256 source .succeeded
    q.handleReply source provider record results closest
      (stored ++ [.post (.kadPeerFound source true)])
  | .unreachable p =>
    some ⟨false, results, closest.setPeerState sha256 p .unreachable,
      [.post (.kadPeerStopped p)]⟩

inductive Ending where
  | completed
  | starved
  | terminated
  deriving DecidableEq, Repr

inductive PanicSite where
  | queryType
  | numJobs
  deriving DecidableEq, Repr

inductive Status where
  | waiting
  | ended (e : Ending)
  | panicked (site : PanicSite)
  | timedOut
  deriving DecidableEq, Repr

/-- The loop, its jobs and the channel between them. `requested` and `consumed` record which
jobs were started and which updates were handled. -/
structure QueryRun where
  closest : ClosestPeers
  results : QueryResult
  jobs : List PeerId
  channel : List QueryUpdate
  requested : List PeerId
  consumed : List QueryUpdate
  effects : List QueryEffect
  status : Status

def initialResults : QueryResult where
  closestPeers := none
  foundPeer := none
  providers := match q.queryType with
    | .getProviders _ found => found
    | _ => none
  records := match q.queryType with
    | .getRecord _ found => found
    | _ => none
  cachePeers := none

def seedUpdate (getAddrs : PeerId → Option (List Multiaddr)) : QueryUpdate :=
  .queried q.localId
    (q.seeds.map (fun k => ⟨k.preimage, (getAddrs k.preimage).getD [], .canConnect⟩)) none none

def start (getAddrs : PeerId → Option (List Multiaddr)) : Except KadError QueryRun :=
  if q.seeds.isEmpty then .error .noKnownPeers
  else
    .ok {
      closest := .new sha256 q.key
      results := q.initialResults
      jobs := []
      channel := [q.seedUpdate getAddrs]
      requested := []
      consumed := []
      effects := []
      status := .waiting }

def finish (e : Ending) (s : QueryRun) : QueryRun :=
  let peers := (s.closest.peersInStates [.notContacted, .waiting, .succeeded]
    q.config.kValue).map PeerWithState.peer
  { s with
    results := if peers.isEmpty then s.results else { s.results with closestPeers := some peers }
    status := .ended e }

/-- The end of one round: a job is started for each of the first `numJobs` peers that have not
been contacted. -/
def spawn (numJobs : Nat) (s : QueryRun) : QueryRun :=
  let peers := (s.closest.peersInState .notContacted numJobs).map (fun p => p.peer.nodeId)
  { s with
    closest := s.closest.setPeersInState .notContacted numJobs .waiting
    jobs := s.jobs ++ peers
    requested := s.requested ++ peers }

def absorb (update : QueryUpdate) (h : Handled) (s : QueryRun) : QueryRun :=
  { s with
    closest := h.closest
    results := h.results
    consumed := s.consumed ++ [update]
    effects := s.effects ++ h.effects }

def round (update : QueryUpdate) (s : QueryRun) : QueryRun :=
  match q.handleUpdate sha256 update s.results s.closest with
  | none => { s with status := .panicked .queryType }
  | some h =>
    let s := absorb update h s
    if h.completed then q.finish .completed s
    else if s.closest.isStarved then q.finish .starved s
    else if s.closest.canTerminate q.config.betaValue then q.finish .terminated s
    else
      match checkedSub q.config.alphaValue (s.closest.numOfState .waiting) with
      | none => { s with status := .panicked .numJobs }
      | some numJobs => spawn numJobs s

structure Reply where
  closer : List KadPeer
  provider : List KadPeer
  record : Option Record

/-- The update that a job sends. `reply` is `none` when the request fails. -/
def jobUpdate (p : PeerId) (reply : Option Reply) : Option QueryUpdate :=
  match reply with
  | none => some (.unreachable p)
  | some r =>
    match q.queryType with
    | .getClosestPeers => some (.queried p r.closer none none)
    | .findPeer => some (.queried p r.closer none none)
    | .getProviders _ _ => some (.queried p r.closer (some r.provider) none)
    | .getRecord _ _ => some (.queried p r.closer none r.record)
    | .addProvider _ _ => none
    | .putRecord _ => none

inductive Event where
  | report (p : PeerId) (reply : Option Reply)
  | next
  | deadline

def step (s : QueryRun) : Event → QueryRun
  | .report p reply =>
    if p ∈ s.jobs then
      { s with
        jobs := s.jobs.erase p
        channel := s.channel ++ (q.jobUpdate p reply).toList }
    else s
  | .next =>
    match s.status, s.channel with
    | .waiting, update :: rest => q.round sha256 update { s with channel := rest }
    | _, _ => s
  | .deadline => if s.status = .waiting then { s with status := .timedOut } else s

end IterativeQuery

end Libp2pRs.Kad
