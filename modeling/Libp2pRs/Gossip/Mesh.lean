import Libp2pRs.Gossip.State

/-!
# The mesh: joining and leaving a topic, GRAFT and PRUNE, subscriptions of peers

The handlers that change the mesh between two heartbeats.
-/

namespace Libp2pRs.Gossip.Gossipsub

open Lib Libp2pRs.Core Std

variable {P R F D : Type} [ScoreArith R] [PeerScoring P R]

/-- A peer that may be grafted: not explicit, with a score that is not negative, and without a
backoff. -/
def graftable (s : Gossipsub P R F D) (topic : TopicHash) (p : PeerId) : Bool :=
  decide (p ∉ s.explicitPeers) && !s.scoreBelowThreshold p zeroThreshold &&
    !s.backoffs.isBackoffWithSlack topic p

/-! ## JOIN and LEAVE -/

/-- The fanout peers that may be grafted, at most `mesh_n` of them. -/
def fanoutToJoin (s : Gossipsub P R F D) (topic : TopicHash) : Finset PeerId :=
  let peers := (sorted (s.fanout[topic]?.getD ∅)).filter (s.graftable topic)
  (peers.take s.config.meshN).toFinset

/-- Moves fanout peers of the topic to its mesh. Returns them. -/
def joinFanout (s : Gossipsub P R F D) (now : Instant) (topic : TopicHash) :
    Finset PeerId × Gossipsub P R F D :=
  if s.fanout.contains topic then
    let added := s.fanoutToJoin topic
    (added, (s.addToMesh now topic added).dropFanout topic)
  else (∅, s)

/-- Fills the mesh up to `mesh_n` with random peers of the topic. Returns all that were added. -/
def joinRandom (s : Gossipsub P R F D) (now : Instant) (topic : TopicHash)
    (added : Finset PeerId) : Finset PeerId × Gossipsub P R F D :=
  if added.card < s.config.meshN then
    let r := getRandomPeers s.topicPeers s.peerProtocols topic (s.config.meshN - added.card)
      (fun p => decide (p ∉ added) && s.graftable topic p) s.rng
    (added ∪ r.1, (s.addToMesh now topic r.1).setRng r.2)
  else (added, s)

/-- A GRAFT to a peer that was added to the mesh waits for the next heartbeat. -/
def poolGraft (now : Instant) (topic : TopicHash) (s : Gossipsub P R F D) (peer : PeerId) :
    Gossipsub P R F D :=
  ((s.modifyScore (PeerScoring.graft peer topic)).control now peer (.graft topic)).controlPoolAdd
    peer (.graft topic)

def join (s : Gossipsub P R F D) (now : Instant) (topic : TopicHash) : Gossipsub P R F D :=
  if s.mesh.contains topic then s
  else
    let r1 := s.joinFanout now topic
    let r2 := r1.2.joinRandom now topic r1.1
    let r3 := r2.2.anyOrder (sorted r2.1)
    r3.1.foldl (poolGraft now topic) r3.2

/-- Creates a PRUNE. A peer that speaks version 1.0 gets one without a backoff, and none is
recorded for it. -/
def makePrune (s : Gossipsub P R F D) (now : Instant) (topic : TopicHash) (peer : PeerId)
    (doPx : Bool) : ControlAction × Gossipsub P R F D :=
  let s := s.modifyScore (PeerScoring.prune peer topic)
  match s.peerProtocols[peer]? with
  | some .gossipsub =>
    let action := ControlAction.prune topic [] none
    (action, s.control now peer action)
  | _ =>
    let r :=
      if doPx then
        getRandomPeers s.topicPeers s.peerProtocols topic s.config.prunePeers
          (fun p => decide (p ≠ peer) && !s.scoreBelowThreshold p zeroThreshold) s.rng
      else (∅, s.rng)
    let s := (s.updateBackoff now topic peer s.config.pruneBackoff).setRng r.2
    let action := ControlAction.prune topic ((sorted r.1).map (fun p => ⟨some p⟩))
      (some s.config.pruneBackoff.asSecs)
    (action, s.control now peer action)

def makePrunes (now : Instant) (peer : PeerId) (doPx : Bool) :
    Gossipsub P R F D → List TopicHash → List ControlAction × Gossipsub P R F D
  | s, [] => ([], s)
  | s, topic :: topics =>
    let r := s.makePrune now topic peer doPx
    let rest := makePrunes now peer doPx r.2 topics
    (r.1 :: rest.1, rest.2)

def poolPrune (now : Instant) (topic : TopicHash) (s : Gossipsub P R F D) (peer : PeerId) :
    Gossipsub P R F D :=
  let r := s.makePrune now topic peer s.config.doPx
  r.2.controlPoolAdd peer r.1

def leave (s : Gossipsub P R F D) (now : Instant) (topic : TopicHash) : Gossipsub P R F D :=
  match s.mesh[topic]? with
  | none => s
  | some peers =>
    (sorted peers).foldl (poolPrune now topic) (s.dropMesh topic)

def announcement (action : SubscriptionAction) (topic : TopicHash) : Proto.Rpc :=
  Proto.intoProtobuf { subscriptions := [⟨action, topic⟩] }

/-- `Ok(true)` if the subscription worked, `Ok(false)` if it existed. -/
def subscribe [TopicSubscriptionFilter F] (s : Gossipsub P R F D) (now : Instant)
    (topic : TopicHash) : Except SubscriptionError Bool × Gossipsub P R F D :=
  let allowed := TopicSubscriptionFilter.canSubscribe s.subscriptionFilter topic
  let s := s.setFilter allowed.2
  if ¬ allowed.1 then (.error .notAllowed, s)
  else if s.mesh.contains topic then (.ok false, s)
  else
    let peers := s.anyOrder s.peerTopics.keys
    let sent := sendAll now (announcement .subscribe topic) peers.2 peers.1
    match sent.1 with
    | .error e => (.error (.publishError e), sent.2)
    | .ok () => (.ok true, sent.2.join now topic)

/-- `Ok(true)` if the topic was subscribed. -/
def unsubscribe (s : Gossipsub P R F D) (now : Instant) (topic : TopicHash) :
    Except PublishError Bool × Gossipsub P R F D :=
  if s.mesh.contains topic then
    let peers := s.anyOrder s.peerTopics.keys
    let sent := sendAll now (announcement .unsubscribe topic) peers.2 peers.1
    match sent.1 with
    | .error e => (.error e, sent.2)
    | .ok () => (.ok true, sent.2.leave now topic)
  else (.ok false, s)

/-! ## GRAFT and PRUNE of a peer -/

/-- The state while the topics of a GRAFT are gone through. -/
structure GraftAcc (P R F D : Type) where
  state : Gossipsub P R F D
  toPruneTopics : Finset TopicHash
  doPx : Bool

def penalizeGraft (s : Gossipsub P R F D) (now : Instant) (peer : PeerId)
    (backoffTime : Instant) : Gossipsub P R F D :=
  if s.peerScore.isNone then s
  else
    let s := s.modifyScore (PeerScoring.addPenalty peer 1)
    match backoffTime.checkedAdd s.config.graftFloodThreshold with
    | none => s.panic .backoff
    | some cutoff =>
      if now + s.config.pruneBackoff < cutoff then s.modifyScore (PeerScoring.addPenalty peer 1)
      else s

def graftTopic (now : Instant) (peer : PeerId) (belowZero : Bool) (acc : GraftAcc P R F D)
    (topic : TopicHash) : GraftAcc P R F D :=
  match acc.state.mesh[topic]? with
  | none => { acc with doPx := false }
  | some peers =>
    if peer ∈ peers then acc
    else
      match (acc.state.backoffs.getBackoffTime topic peer).filter (now < ·) with
      | some backoffTime =>
        { state := acc.state.penalizeGraft now peer backoffTime
          toPruneTopics := insert topic acc.toPruneTopics
          doPx := false }
      | none =>
        if belowZero then
          { acc with toPruneTopics := insert topic acc.toPruneTopics, doPx := false }
        else if acc.state.config.meshNHigh ≤ peers.card ∧ peer ∉ acc.state.outboundPeers then
          { acc with toPruneTopics := insert topic acc.toPruneTopics }
        else
          { acc with
            state := (acc.state.addToMesh now topic {peer}).modifyScore
              (PeerScoring.graft peer topic) }

/-- The topics of a GRAFT one by one, or a refusal of all of them to an explicit peer. -/
def graftTopics (s : Gossipsub P R F D) (now : Instant) (peer : PeerId)
    (topics : List TopicHash) : GraftAcc P R F D :=
  if peer ∈ s.explicitPeers then ⟨s, topics.toFinset, false⟩
  else
    topics.foldl (graftTopic now peer (s.scoreBelowThreshold peer zeroThreshold))
      ⟨s, ∅, s.config.doPx⟩

def handleGraft (s : Gossipsub P R F D) (now : Instant) (peer : PeerId)
    (topics : List TopicHash) : Gossipsub P R F D :=
  let acc := s.graftTopics now peer topics
  if acc.toPruneTopics = ∅ then acc.state
  else
    let order := acc.state.anyOrder (sorted acc.toPruneTopics)
    let prunes := makePrunes now peer acc.doPx order.2 order.1
    prunes.2.trySend now peer { controlMsgs := prunes.1 }

def removePeerFromMesh (s : Gossipsub P R F D) (now : Instant) (peer : PeerId)
    (topic : TopicHash) (backoff : Option Nat) (alwaysUpdateBackoff : Bool) :
    Gossipsub P R F D :=
  let inMesh := decide (peer ∈ s.meshPeers topic)
  let s :=
    if inMesh then (s.removeFromMesh topic peer).modifyScore (PeerScoring.prune peer topic)
    else s
  if inMesh || alwaysUpdateBackoff then
    s.updateBackoff now topic peer (backoff.elim s.config.pruneBackoff Duration.fromSecs)
  else s

/-- Dials peers that a PRUNE proposes, at most `prune_peers` of them. -/
def pxConnect (s : Gossipsub P R F D) (now : Instant) (px : List PeerInfo) :
    Gossipsub P R F D :=
  let n := s.config.prunePeers
  let peers := px.filterMap PeerInfo.peerId
  let r := if n < peers.length then s.anyOrder peers else (peers, s)
  (r.1.take n).foldl (fun s p =>
    emit { s with pxPeers := insert p s.pxPeers } now (.dial p)) r.2

def pruneTopic (now : Instant) (peer : PeerId) (belowThreshold : Bool) (s : Gossipsub P R F D)
    (prune : TopicHash × List PeerInfo × Option Nat) : Gossipsub P R F D :=
  let s := s.removePeerFromMesh now peer prune.1 prune.2.2 true
  if s.mesh.contains prune.1 ∧ prune.2.1 ≠ [] ∧ ¬ belowThreshold ∧ 0 < s.config.prunePeers then
    s.pxConnect now prune.2.1
  else s

def handlePrune (s : Gossipsub P R F D) (now : Instant) (peer : PeerId)
    (pruneData : List (TopicHash × List PeerInfo × Option Nat)) : Gossipsub P R F D :=
  pruneData.foldl
    (pruneTopic now peer (s.scoreBelowThreshold peer PeerScoreThresholds.acceptPxThreshold)) s

/-! ## Subscriptions of a peer -/

def addSubscription (s : Gossipsub P R F D) (peer : PeerId) (topic : TopicHash) :
    Gossipsub P R F D :=
  { s with
    topicPeers := s.topicPeers.alter topic (fun m => some (insert peer (m.getD ∅)))
    peerTopics := s.peerTopics.modify peer (insert topic) }

def removeSubscription (s : Gossipsub P R F D) (peer : PeerId) (topic : TopicHash) :
    Gossipsub P R F D :=
  { s with
    topicPeers := s.topicPeers.alter topic (fun m => some ((m.getD ∅).erase peer))
    peerTopics := s.peerTopics.modify peer (·.erase topic) }

/-- The state while the subscriptions of a peer are gone through. -/
structure SubscriptionAcc (P R F D : Type) where
  state : Gossipsub P R F D
  unsubscribed : List TopicHash
  grafts : List ControlAction

/-- A peer that subscribes to a topic whose mesh is low is grafted at once. -/
def graftSubscriber (now : Instant) (peer : PeerId) (topic : TopicHash)
    (acc : SubscriptionAcc P R F D) : SubscriptionAcc P R F D :=
  let s := acc.state
  if PeerKind.isGossip s.peerProtocols[peer]? && s.graftable topic peer then
    match s.mesh[topic]? with
    | none => acc
    | some peers =>
      if peers.card < s.config.meshNLow ∧ peer ∉ peers then
        { acc with
          state := ((s.addToMesh now topic {peer}).modifyScore
            (PeerScoring.graft peer topic)).control now peer (.graft topic)
          grafts := acc.grafts ++ [.graft topic] }
      else acc
  else acc

def handleSubscription (now : Instant) (peer : PeerId) (acc : SubscriptionAcc P R F D)
    (subscription : GossipsubSubscription) : SubscriptionAcc P R F D :=
  let topic := subscription.topicHash
  match subscription.action with
  | .subscribe =>
    graftSubscriber now peer topic { acc with state := acc.state.addSubscription peer topic }
  | .unsubscribe =>
    { acc with
      state := acc.state.removeSubscription peer topic
      unsubscribed := acc.unsubscribed ++ [topic] }

def handleReceivedSubscriptions [TopicSubscriptionFilter F] (s : Gossipsub P R F D)
    (now : Instant) (subscriptions : List GossipsubSubscription) (peer : PeerId) :
    Gossipsub P R F D :=
  match s.peerTopics[peer]? with
  | none => s
  | some subscribedTopics =>
    let filtered := TopicSubscriptionFilter.filterIncomingSubscriptions s.subscriptionFilter
      subscriptions subscribedTopics
    let s := s.setFilter filtered.2
    match filtered.1 with
    | .error _ => s
    | .ok filteredTopics =>
      let order := s.anyOrder filteredTopics
      let acc := order.1.foldl (handleSubscription now peer) ⟨order.2, [], []⟩
      -- the peer leaves the meshes only after all of its subscriptions are noted
      let s := acc.unsubscribed.foldl
        (fun s topic => s.removePeerFromMesh now peer topic none false) acc.state
      if acc.grafts.isEmpty then s else s.trySend now peer { controlMsgs := acc.grafts }

end Libp2pRs.Gossip.Gossipsub
