import Libp2pRs.Gossip.Mesh

/-!
# The heartbeat

Each heartbeat brings the mesh of every topic back into its bounds, keeps up the fanout, gossips
about recent messages and sends the control messages that have waited for it.
-/

namespace Libp2pRs.Gossip.Gossipsub

open Lib Libp2pRs.Core Std

variable {P R F D : Type} [ScoreArith R] [PeerScoring P R]

/-! ## Before the mesh -/

def tick (s : Gossipsub P R F D) : Gossipsub P R F D :=
  { s with heartbeatTicks := s.heartbeatTicks + 1 }

def cleanBackoffs (s : Gossipsub P R F D) (now : Instant) : Gossipsub P R F D :=
  match s.backoffs.heartbeat now with
  | .error fault => s.panic fault
  | .ok backoffs => { s with backoffs }

def clearCounts (s : Gossipsub P R F D) : Gossipsub P R F D :=
  { s with countSentIwant := ∅, countReceivedIhave := ∅ }

def applyIwantPenalties (s : Gossipsub P R F D) (now : Instant) : Gossipsub P R F D :=
  match s.peerScore with
  | none => s
  | some d =>
    let r := d.gossipPromises.getBrokenPromises now
    r.1.toList.foldl (fun s e => s.modifyScore (PeerScoring.addPenalty e.1 e.2))
      { s with peerScore := some { d with gossipPromises := r.2 } }

def checkExplicitPeers (s : Gossipsub P R F D) (now : Instant) : Gossipsub P R F D :=
  if s.config.checkExplicitPeersTicks = 0 then s.panic .arithmetic
  else if s.heartbeatTicks % s.config.checkExplicitPeersTicks = 0 then
    let order := s.anyOrder (sorted s.explicitPeers)
    order.1.foldl (fun s p => s.checkExplicitPeerConnection now p) order.2
  else s

/-! ## The mesh of a topic -/

/-- The state while the topics are gone through, with the GRAFTs and PRUNEs to send. -/
structure HeartbeatAcc (P R F D : Type) where
  state : Gossipsub P R F D
  toGraft : TreeMap PeerId (List TopicHash)
  toPrune : TreeMap PeerId (List TopicHash)
  noPx : Finset PeerId

namespace HeartbeatAcc

def push (m : TreeMap PeerId (List TopicHash)) (topic : TopicHash) (peer : PeerId) :
    TreeMap PeerId (List TopicHash) :=
  m.insert peer (m[peer]?.getD [] ++ [topic])

def fail (acc : HeartbeatAcc P R F D) : HeartbeatAcc P R F D :=
  { acc with state := acc.state.panic .arithmetic }

def prune (topic : TopicHash) (acc : HeartbeatAcc P R F D) (peer : PeerId) :
    HeartbeatAcc P R F D :=
  { acc with
    state := acc.state.removeFromMesh topic peer
    toPrune := push acc.toPrune topic peer }

/-- Grafts up to `n` random peers of the topic that are not in its mesh and pass the filter. -/
def graftRandom (now : Instant) (topic : TopicHash) (acc : HeartbeatAcc P R F D) (n : Nat)
    (f : PeerId → Bool) : HeartbeatAcc P R F D :=
  let s := acc.state
  let r := getRandomPeers s.topicPeers s.peerProtocols topic n
    (fun p => decide (p ∉ s.meshPeers topic) && decide (p ∉ s.explicitPeers) &&
      !s.backoffs.isBackoffWithSlack topic p && f p) s.rng
  { acc with
    state := (s.addToMesh now topic r.1).setRng r.2
    toGraft := (sorted r.1).foldl (fun m p => push m topic p) acc.toGraft }

def dropNegative (topic : TopicHash) (acc : HeartbeatAcc P R F D) : HeartbeatAcc P R F D :=
  let toRemove := (sorted (acc.state.meshPeers topic)).filter (fun p =>
    ScoreArith.lt (acc.state.score p) ScoreArith.zero)
  let acc := { acc with noPx := acc.noPx ∪ toRemove.toFinset }
  toRemove.foldl (prune topic) acc

def addLow (now : Instant) (topic : TopicHash) (acc : HeartbeatAcc P R F D) :
    HeartbeatAcc P R F D :=
  let s := acc.state
  let size := (s.meshPeers topic).card
  if size < s.config.meshNLow then
    if s.config.meshN < size then acc.fail
    else acc.graftRandom now topic (s.config.meshN - size)
      (fun p => ScoreArith.le ScoreArith.zero (s.score p))
  else acc

/-- Removes peers in the given order, until there are `excess` removed. The last
`mesh_outbound_min` outbound peers stay. -/
def removeExcess (topic : TopicHash) (excess : Nat) :
    HeartbeatAcc P R F D → List PeerId → Nat → Nat → HeartbeatAcc P R F D
  | acc, [], _, _ => acc
  | acc, peer :: peers, removed, outbound =>
    if removed = excess then acc
    else if peer ∈ acc.state.outboundPeers then
      if outbound ≤ acc.state.config.meshOutboundMin then
        removeExcess topic excess acc peers removed outbound
      else removeExcess topic excess (acc.prune topic peer) peers (removed + 1) (outbound - 1)
    else removeExcess topic excess (acc.prune topic peer) peers (removed + 1) outbound

def sortByScore (s : Gossipsub P R F D) (peers : List PeerId) : List PeerId :=
  peers.insertionSort (fun p q => ¬ ScoreArith.lt (s.score q) (s.score p))

/-- Too many peers. The `retain_scores` best ones come last in the order of removal. -/
def removeHigh (topic : TopicHash) (acc : HeartbeatAcc P R F D) : HeartbeatAcc P R F D :=
  let s := acc.state
  let peers := s.meshPeers topic
  if s.config.meshNHigh < peers.card then
    if peers.card < s.config.meshN ∨ peers.card < s.config.retainScores then acc.fail
    else
      let first := s.rng.shuffle (sorted peers)
      let byScore := sortByScore s first.1
      let worst := peers.card - s.config.retainScores
      let second := first.2.shuffle (byScore.take worst)
      let shuffled := second.1 ++ byScore.drop worst
      let outbound := shuffled.countP (· ∈ s.outboundPeers)
      removeExcess topic (peers.card - s.config.meshN)
        { acc with state := s.setRng second.2 } shuffled 0 outbound
  else acc

def addOutbound (now : Instant) (topic : TopicHash) (acc : HeartbeatAcc P R F D) :
    HeartbeatAcc P R F D :=
  let s := acc.state
  let peers := s.meshPeers topic
  let outbound := (peers.filter (· ∈ s.outboundPeers)).card
  if s.config.meshNLow ≤ peers.card ∧ outbound < s.config.meshOutboundMin then
    acc.graftRandom now topic (s.config.meshOutboundMin - outbound)
      (fun p => ScoreArith.le ScoreArith.zero (s.score p) && decide (p ∈ s.outboundPeers))
  else acc

def medianScore (s : Gossipsub P R F D) (peers : Finset PeerId) : R :=
  let scores := (sortByScore s (sorted peers)).map s.score
  let middle := scores.length / 2
  let at' := fun i => scores.getD i ScoreArith.zero
  if scores.length % 2 = 0 then ScoreArith.middle (at' (middle - 1)) (at' middle) else at' middle

/-- Grafts peers that are better than the median, when the median is low. -/
def opportunisticGraft (now : Instant) (topic : TopicHash) (acc : HeartbeatAcc P R F D) :
    HeartbeatAcc P R F D :=
  let s := acc.state
  let peers := s.meshPeers topic
  if s.config.opportunisticGraftTicks = 0 then acc.fail
  else if s.heartbeatTicks % s.config.opportunisticGraftTicks = 0 ∧ 1 < peers.card then
    match s.peerScore with
    | none => acc
    | some d =>
      let median := medianScore s peers
      if ScoreArith.lt median d.thresholds.opportunisticGraftThreshold then
        acc.graftRandom now topic s.config.opportunisticGraftPeers
          (fun p => ScoreArith.lt median (s.score p))
      else acc
  else acc

def maintainTopic (now : Instant) (acc : HeartbeatAcc P R F D) (topic : TopicHash) :
    HeartbeatAcc P R F D :=
  ((((acc.dropNegative topic).addLow now topic).removeHigh topic).addOutbound now
    topic).opportunisticGraft now topic

end HeartbeatAcc

def maintainMesh (s : Gossipsub P R F D) (now : Instant) : HeartbeatAcc P R F D :=
  let order := s.anyOrder s.mesh.keys
  order.1.foldl (HeartbeatAcc.maintainTopic now) ⟨order.2, ∅, ∅, ∅⟩

/-! ## The fanout -/

/-- Drops the topics to which nothing was published for a while. -/
def expireFanout (now : Instant) (s : Gossipsub P R F D) (entry : TopicHash × Instant) :
    Gossipsub P R F D :=
  match entry.2.checkedAdd s.config.fanoutTtl with
  | none => s.panic .clock
  | some until' =>
    if until' < now then s.dropFanout entry.1 else s

def publishThreshold (s : Gossipsub P R F D) : R :=
  match s.peerScore with
  | none => ScoreArith.zero
  | some d => d.thresholds.publishThreshold

/-- Drops the fanout peers that have left the topic or have a low score, and adds new ones. -/
def maintainFanoutTopic (s : Gossipsub P R F D) (topic : TopicHash) : Gossipsub P R F D :=
  let low := fun p => ScoreArith.lt (s.score p) s.publishThreshold
  let peers := (s.fanout[topic]?.getD ∅).filter (fun p =>
    decide (topic ∈ s.peerTopics[p]?.getD ∅) && !low p)
  if peers.card < s.config.meshN then
    let r := getRandomPeers s.topicPeers s.peerProtocols topic (s.config.meshN - peers.card)
      (fun p => decide (p ∉ peers) && decide (p ∉ s.explicitPeers) && low p) s.rng
    { s with rng := r.2, fanout := s.fanout.insert topic (peers ∪ r.1) }
  else { s with fanout := s.fanout.insert topic peers }

def maintainFanout (s : Gossipsub P R F D) (now : Instant) : Gossipsub P R F D :=
  let s := s.fanoutLastPub.toList.foldl (expireFanout now) s
  let order := s.anyOrder s.fanout.keys
  order.1.foldl maintainFanoutTopic order.2

/-! ## Gossip and control messages -/

/-- Queues an IHAVE with the messages, or with a random choice of `max_ihave_length` of them. -/
def poolIhave (topic : TopicHash) (messageIds : List MessageId) (s : Gossipsub P R F D)
    (peer : PeerId) : Gossipsub P R F D :=
  if s.config.maxIhaveLength < messageIds.length then
    let order := s.anyOrder messageIds
    order.2.controlPoolAdd peer (.iHave topic (order.1.take s.config.maxIhaveLength))
  else s.controlPoolAdd peer (.iHave topic messageIds)

/-- The topics one by one. A topic without messages ends the gossip. -/
def emitGossip : Gossipsub P R F D → List (TopicHash × Finset PeerId) → Gossipsub P R F D
  | s, [] => s
  | s, (topic, peers) :: topics =>
    match s.mcache.getGossipMessageIds topic with
    | none => s.panic .arithmetic
    | some [] => s
    | some ids =>
      let order := if s.config.maxIhaveLength < ids.length then (ids, s) else s.anyOrder ids
      let s := order.2
      let nMap := fun m : Nat => max s.config.gossipLazy (s.config.gossipFactor * m).floor.toNat
      let r := getRandomPeersDynamic s.topicPeers s.peerProtocols topic nMap
        (fun p => decide (p ∉ peers) && decide (p ∉ s.explicitPeers) &&
          !s.scoreBelowThreshold p PeerScoreThresholds.gossipThreshold) s.rng
      emitGossip ((sorted r.1).foldl (poolIhave topic order.1) (s.setRng r.2)) topics

/-- The topics of the mesh, then those of the fanout, each in some order. -/
def gossipTopics (s : Gossipsub P R F D) :
    List (TopicHash × Finset PeerId) × Gossipsub P R F D :=
  let meshOrder := s.anyOrder s.mesh.toList
  let fanoutOrder := meshOrder.2.anyOrder s.fanout.toList
  (meshOrder.1 ++ fanoutOrder.1, fanoutOrder.2)

def sendGraft (now : Instant) (peer : PeerId) (s : Gossipsub P R F D) (topic : TopicHash) :
    Gossipsub P R F D :=
  (s.modifyScore (PeerScoring.graft peer topic)).control now peer (.graft topic)

def sendGraftPruneTo (now : Instant) (toPrune : TreeMap PeerId (List TopicHash))
    (noPx : Finset PeerId) (s : Gossipsub P R F D) (entry : PeerId × List TopicHash) :
    Gossipsub P R F D :=
  let peer := entry.1
  let s := entry.2.foldl (sendGraft now peer) s
  let prunes := makePrunes now peer (s.config.doPx && decide (peer ∉ noPx)) s
    (toPrune[peer]?.getD [])
  prunes.2.trySend now peer { controlMsgs := entry.2.map .graft ++ prunes.1 }

def sendGraftPrune (s : Gossipsub P R F D) (now : Instant)
    (toGraft toPrune : TreeMap PeerId (List TopicHash)) (noPx : Finset PeerId) :
    Gossipsub P R F D :=
  let grafts := s.anyOrder toGraft.toList
  let s := grafts.1.foldl (sendGraftPruneTo now toPrune noPx) grafts.2
  -- the peers that are only pruned
  let rest := toPrune.keys.filter (fun p => !toGraft.contains p)
  let prunes := s.anyOrder (rest.map (fun p => (p, ([] : List TopicHash))))
  prunes.1.foldl (sendGraftPruneTo now toPrune noPx) prunes.2

def flushControlPool (s : Gossipsub P R F D) (now : Instant) : Gossipsub P R F D :=
  let order := anyOrder { s with controlPool := ∅ } s.controlPool.toList
  order.1.foldl (fun s e => s.trySend now e.1 { controlMsgs := e.2 }) order.2

def shiftCache (s : Gossipsub P R F D) : Gossipsub P R F D :=
  match s.mcache.shift with
  | none => s.panic .arithmetic
  | some mcache => s.setMcache mcache

def heartbeat (s : Gossipsub P R F D) (now : Instant) : Gossipsub P R F D :=
  let s := (s.tick.cleanBackoffs now).clearCounts
  let s := (s.applyIwantPenalties now).checkExplicitPeers now
  let acc := s.maintainMesh now
  let s := acc.state.maintainFanout now
  let topics := s.gossipTopics
  let s := emitGossip topics.2 topics.1
  let s := s.sendGraftPrune now acc.toGraft acc.toPrune acc.noPx
  (s.flushControlPool now).shiftCache

end Libp2pRs.Gossip.Gossipsub
