import Libp2pRs.Gossip.Backoff
import Libp2pRs.Gossip.Caches
import Libp2pRs.Gossip.Filter
import Libp2pRs.Gossip.Proto
import Libp2pRs.Gossip.Score

/-!
# The state of gossipsub

The fields are those of the source, with the set of an ordered map or a hash map as a `Finset`.
A channel is known by its number. Four fields stand for the world around the event loop: the
random numbers, the number of the next channel, the outputs so far, and why a handler has
panicked. A hash map is gone through in a random order.

The handlers change the state through the functions of this module.
-/

namespace Libp2pRs.Gossip

open Lib Libp2pRs.Core Std

/-- What a handler does besides changing the state. -/
inductive Output where
  /-- A task opens a stream to the peer and sends what comes through the channel. -/
  | openStream (peer : PeerId) (channel : Nat)
  | closeChannel (channel : Nat)
  | send (peer : PeerId) (channel : Nat) (rpc : Proto.Rpc)
  | dial (peer : PeerId)
  /-- A message is handed to the local subscription that holds the other end of the channel. -/
  | notify (channel : Nat) (message : GossipsubMessage)
  | subscribed (topic : TopicHash) (reply : Except SubscriptionError Nat)
  | published
  /-- A GRAFT or PRUNE is made for a peer of the kind, to be sent at once or with the next
  heartbeat. -/
  | control (peer : PeerId) (kind : Option PeerKind) (action : ControlAction)
  /-- The peer is added to the mesh of the topic. -/
  | link (topic : TopicHash) (peer : PeerId)
  deriving DecidableEq

structure Keypair where
  /-- The protobuf encoding of the public key. -/
  publicKey : List UInt8
  peerId : PeerId
  sign : List UInt8 → Option (List UInt8)

inductive MessageAuthenticity where
  | signed (keypair : Keypair)
  | author (peer : PeerId)
  | randomAuthor
  | anonymous

def MessageAuthenticity.isSigning : MessageAuthenticity → Bool
  | .signed _ => true
  | _ => false

def MessageAuthenticity.isAnonymous : MessageAuthenticity → Bool
  | .anonymous => true
  | _ => false

inductive PublishConfig where
  | signing (keypair : Keypair) (author : PeerId) (inlineKey : Option (List UInt8))
  | author (peer : PeerId)
  | randomAuthor
  | anonymous

def PublishConfig.getOwnId : PublishConfig → Option PeerId
  | .signing _ own _ => some own
  | .author peer => some peer
  | _ => none

/-- A key of at most 42 bytes is part of the peer id, and is not sent with the messages. -/
def PublishConfig.ofAuthenticity : MessageAuthenticity → PublishConfig
  | .signed keypair =>
    .signing keypair keypair.peerId
      (if keypair.publicKey.length ≤ 42 then none else some keypair.publicKey)
  | .author peer => .author peer
  | .randomAuthor => .randomAuthor
  | .anonymous => .anonymous

/-- A configuration must not reject the messages that it publishes. -/
def validateConfig (authenticity : MessageAuthenticity) : ValidationMode → Except String Unit
  | .anonymous =>
    if authenticity.isSigning then
      .error ("Cannot enable message signing with an Anonymous validation mode. Consider changing " ++
        "either the ValidationMode or MessageAuthenticity")
    else if ¬ authenticity.isAnonymous then
      .error ("Published messages contain an author but incoming messages with an author will be " ++
        "rejected. Consider adjusting the validation or privacy settings in the config")
    else .ok ()
  | .strict =>
    if ¬ authenticity.isSigning then
      .error ("Messages will be\n                published unsigned and incoming unsigned messages " ++
        "will be rejected. Consider adjusting\n                the validation or privacy settings " ++
        "in the config")
    else .ok ()
  | _ => .ok ()

structure Gossipsub (P R F D : Type) where
  config : GossipsubConfig
  /-- Control messages that wait for the next heartbeat. -/
  controlPool : TreeMap PeerId (List ControlAction)
  publishConfig : PublishConfig
  duplicateCache : DuplicateCache MessageId
  peerProtocols : TreeMap PeerId PeerKind
  topicPeers : TreeMap TopicHash (Finset PeerId)
  peerTopics : TreeMap PeerId (Finset TopicHash)
  /-- The channel of the local subscription. -/
  myTopics : TreeMap TopicHash Nat
  explicitPeers : Finset PeerId
  /-- The channel to the task that writes to the peer. -/
  connectedPeer : TreeMap PeerId Nat
  blacklistedPeers : Finset PeerId
  mesh : TreeMap TopicHash (Finset PeerId)
  fanout : TreeMap TopicHash (Finset PeerId)
  fanoutLastPub : TreeMap TopicHash Instant
  backoffs : BackoffStorage
  mcache : MessageCache
  heartbeatTicks : Nat
  pxPeers : Finset PeerId
  outboundPeers : Finset PeerId
  peerScore : Option (ScoreState P R)
  countReceivedIhave : TreeMap PeerId Nat
  countSentIwant : TreeMap PeerId Nat
  publishedMessageIds : DuplicateCache MessageId
  fastMessageIdCache : TimeCache FastMessageId MessageId
  subscriptionFilter : F
  dataTransform : D
  rng : Rng
  nextChannel : Nat
  trace : List (Instant × Output)
  fault : Option Fault

/-- The gossipsub peers of a topic that pass the filter, or a random choice of them when there are
more than `nMap` asks for. -/
def getRandomPeersDynamic (topicPeers : TreeMap TopicHash (Finset PeerId))
    (peerProtocols : TreeMap PeerId PeerKind) (topic : TopicHash) (nMap : Nat → Nat)
    (f : PeerId → Bool) (rng : Rng) : Finset PeerId × Rng :=
  let gossipPeers := (sorted (topicPeers[topic]?.getD ∅)).filter
    (fun p => f p && PeerKind.isGossip peerProtocols[p]?)
  let n := nMap gossipPeers.length
  if gossipPeers.length ≤ n then (gossipPeers.toFinset, rng)
  else
    let r := rng.shuffle gossipPeers
    ((r.1.take n).toFinset, r.2)

def getRandomPeers (topicPeers : TreeMap TopicHash (Finset PeerId))
    (peerProtocols : TreeMap PeerId PeerKind) (topic : TopicHash) (n : Nat)
    (f : PeerId → Bool) (rng : Rng) : Finset PeerId × Rng :=
  getRandomPeersDynamic topicPeers peerProtocols topic (fun _ => n) f rng

theorem mem_getRandomPeersDynamic
    (h : p ∈ (getRandomPeersDynamic topicPeers peerProtocols topic nMap f rng).1) :
    p ∈ topicPeers[topic]?.getD ∅ ∧ f p = true ∧ PeerKind.isGossip peerProtocols[p]? = true := by
  have hfilter : p ∈ (sorted (topicPeers[topic]?.getD ∅)).filter
      (fun p => f p && PeerKind.isGossip peerProtocols[p]?) := by
    unfold getRandomPeersDynamic at h
    dsimp only at h
    split at h
    · exact List.mem_toFinset.mp h
    · exact Rng.mem_shuffle.mp (List.mem_of_mem_take (List.mem_toFinset.mp h))
  simpa using hfilter

namespace Gossipsub

variable {P R F D : Type}

def meshPeers (s : Gossipsub P R F D) (topic : TopicHash) : Finset PeerId := s.mesh[topic]?.getD ∅

/-! ## Changes of the state -/

def panicked (s : Gossipsub P R F D) : Bool := s.fault.isSome

theorem fault_eq_none {s : Gossipsub P R F D} (h : s.panicked = false) : s.fault = none :=
  Option.isNone_iff_eq_none.mp (Option.isSome_eq_false_iff.mp h)

/-- Nothing comes out of a handler after it has panicked. -/
def emit (s : Gossipsub P R F D) (now : Instant) (o : Output) : Gossipsub P R F D :=
  if s.panicked then s else { s with trace := s.trace ++ [(now, o)] }

def emitAll (s : Gossipsub P R F D) (now : Instant) (os : List Output) : Gossipsub P R F D :=
  os.foldl (fun s o => s.emit now o) s

/-- A panic. Only the first one happens. -/
def panic (s : Gossipsub P R F D) (fault : Fault) : Gossipsub P R F D :=
  { s with fault := some (s.fault.getD fault) }

def setRng (s : Gossipsub P R F D) (rng : Rng) : Gossipsub P R F D := { s with rng }

def setFilter (s : Gossipsub P R F D) (subscriptionFilter : F) : Gossipsub P R F D :=
  { s with subscriptionFilter }

def setMcache (s : Gossipsub P R F D) (mcache : MessageCache) : Gossipsub P R F D :=
  { s with mcache }

/-- The elements in the order in which a hash map happens to have them. -/
def anyOrder {α : Type} (s : Gossipsub P R F D) (l : List α) : List α × Gossipsub P R F D :=
  ((s.rng.shuffle l).1, s.setRng (s.rng.shuffle l).2)

def modifyScore (s : Gossipsub P R F D) (f : P → P) : Gossipsub P R F D :=
  { s with peerScore := s.peerScore.map (fun d => { d with peerScore := f d.peerScore }) }

def modifyPromises (s : Gossipsub P R F D) (f : GossipPromises → GossipPromises) :
    Gossipsub P R F D :=
  { s with
    peerScore := s.peerScore.map (fun d => { d with gossipPromises := f d.gossipPromises }) }

def updateBackoff (s : Gossipsub P R F D) (now : Instant) (topic : TopicHash) (peer : PeerId)
    (time : Duration) : Gossipsub P R F D :=
  match s.backoffs.updateBackoff now topic peer time with
  | .error fault => s.panic fault
  | .ok backoffs => { s with backoffs }

/-- `peers.extend(..)` on the mesh of a topic, which is created if it does not exist. -/
def addToMesh (s : Gossipsub P R F D) (now : Instant) (topic : TopicHash)
    (peers : Finset PeerId) : Gossipsub P R F D :=
  emitAll { s with mesh := s.mesh.alter topic (fun m => some (m.getD ∅ ∪ peers)) }
    now ((sorted peers).map (Output.link topic))

def removeFromMesh (s : Gossipsub P R F D) (topic : TopicHash) (peer : PeerId) :
    Gossipsub P R F D :=
  { s with mesh := s.mesh.modify topic (·.erase peer) }

def dropMesh (s : Gossipsub P R F D) (topic : TopicHash) : Gossipsub P R F D :=
  { s with mesh := s.mesh.erase topic }

def dropFanout (s : Gossipsub P R F D) (topic : TopicHash) : Gossipsub P R F D :=
  { s with
    fanout := s.fanout.erase topic
    fanoutLastPub := s.fanoutLastPub.erase topic }

def controlPoolAdd (s : Gossipsub P R F D) (peer : PeerId) (control : ControlAction) :
    Gossipsub P R F D :=
  { s with controlPool := s.controlPool.insert peer (s.controlPool[peer]?.getD [] ++ [control]) }

def control (s : Gossipsub P R F D) (now : Instant) (peer : PeerId) (action : ControlAction) :
    Gossipsub P R F D :=
  s.emit now (.control peer s.peerProtocols[peer]? action)

/-- Hands the fragments of an RPC to the task of the peer. Without a connection they are lost. -/
def sendMessage (s : Gossipsub P R F D) (now : Instant) (peer : PeerId) (rpc : Proto.Rpc) :
    Except PublishError Unit × Gossipsub P R F D :=
  match Proto.fragmentMessage s.config.maxTransmitSize rpc with
  | .error e => (.error e, s)
  | .ok messages =>
    match s.connectedPeer[peer]? with
    | none => (.ok (), s)
    | some channel => (.ok (), s.emitAll now (messages.map (.send peer channel)))

def trySend (s : Gossipsub P R F D) (now : Instant) (peer : PeerId) (rpc : GossipsubRpc) :
    Gossipsub P R F D :=
  (s.sendMessage now peer (Proto.intoProtobuf rpc)).2

def sendAll (now : Instant) (rpc : Proto.Rpc) :
    Gossipsub P R F D → List PeerId → Except PublishError Unit × Gossipsub P R F D
  | s, [] => (.ok (), s)
  | s, peer :: peers =>
    let r := s.sendMessage now peer rpc
    match r.1 with
    | .error e => (.error e, r.2)
    | .ok () => sendAll now rpc r.2 peers

/-- `check_explicit_peer_connection`: dials a peer that is not connected. -/
def checkExplicitPeerConnection (s : Gossipsub P R F D) (now : Instant) (peer : PeerId) :
    Gossipsub P R F D :=
  if s.peerTopics.contains peer then s else s.emit now (.dial peer)

section Score

variable [ScoreArith R] [PeerScoring P R]

def score (s : Gossipsub P R F D) (peer : PeerId) : R :=
  match s.peerScore with
  | none => ScoreArith.zero
  | some d => PeerScoring.score d.peerScore peer

def scoreBelowThreshold (s : Gossipsub P R F D) (peer : PeerId)
    (threshold : PeerScoreThresholds R → R) : Bool :=
  match s.peerScore with
  | none => false
  | some d => ScoreArith.lt (PeerScoring.score d.peerScore peer) (threshold d.thresholds)

end Score

/-! ## The start -/

def initial (privacy : MessageAuthenticity) (config : GossipsubConfig) (subscriptionFilter : F)
    (dataTransform : D) (rng : Rng) (backoffs : BackoffStorage) : Gossipsub P R F D where
  config
  controlPool := ∅
  publishConfig := .ofAuthenticity privacy
  duplicateCache := .new config.duplicateCacheTime
  peerProtocols := ∅
  topicPeers := ∅
  peerTopics := ∅
  myTopics := ∅
  explicitPeers := ∅
  connectedPeer := ∅
  blacklistedPeers := ∅
  mesh := ∅
  fanout := ∅
  fanoutLastPub := ∅
  backoffs
  mcache := .new config.historyGossip config.historyLength
  heartbeatTicks := 0
  pxPeers := ∅
  outboundPeers := ∅
  peerScore := none
  countReceivedIhave := ∅
  countSentIwant := ∅
  publishedMessageIds := .new config.publishedMessageIdsCacheTime
  fastMessageIdCache := .new config.duplicateCacheTime
  subscriptionFilter
  dataTransform
  rng
  nextChannel := 0
  trace := []
  fault := none

/-- `new_with_subscription_filter_and_transform`. `none` is a panic. -/
def new (P R : Type) {F D : Type} (privacy : MessageAuthenticity) (config : GossipsubConfig)
    (subscriptionFilter : F) (dataTransform : D) (rng : Rng) :
    Option (Except String (Gossipsub P R F D)) :=
  match validateConfig privacy config.validationMode with
  | .error e => some (.error e)
  | .ok () =>
    (BackoffStorage.new config.pruneBackoff config.heartbeatInterval
      config.backoffSlack).toOption.map
      (fun backoffs => .ok (initial privacy config subscriptionFilter dataTransform rng backoffs))

theorem exists_initial {config : GossipsubConfig}
    {subscriptionFilter : F} {dataTransform : D} {rng : Rng}
    (h : new P R privacy config subscriptionFilter dataTransform rng = some (.ok s)) : ∃ backoffs,
      BackoffStorage.new config.pruneBackoff config.heartbeatInterval config.backoffSlack =
        .ok backoffs ∧
      s = initial privacy config subscriptionFilter dataTransform rng backoffs := by
  unfold new at h
  split at h
  · cases h
  · obtain ⟨backoffs, hb, heq⟩ := Option.map_eq_some_iff.mp h
    cases heq
    refine ⟨backoffs, ?_, rfl⟩
    cases hnew : BackoffStorage.new config.pruneBackoff config.heartbeatInterval
        config.backoffSlack with
    | error e =>
      rw [hnew] at hb
      cases hb
    | ok b =>
      rw [hnew] at hb
      cases hb
      rfl

end Gossipsub

end Libp2pRs.Gossip
