import Libp2pRs.Gossip.Heartbeat
import Libp2pRs.Gossip.Messages
import Libp2pRs.Lib.Runs

/-!
# The event loop of gossipsub

The loop handles one input at a time: an event of the protocol handler, a command, or the end of
a local subscription. The public functions that are called on the node itself are inputs as well.
A run is a list of inputs with the time of each; after a panic the loop is gone.
-/

namespace Libp2pRs.Gossip

open Lib Libp2pRs.Core Std

inductive HandlerEvent where
  | peerKind (peer : PeerId) (kind : PeerKind)
  | newPeer (peer : PeerId)
  | deadPeer (peer : PeerId)
  | message (propagationSource : PeerId) (rpc : GossipsubRpc)
      (invalidMessages : List (RawGossipsubMessage × ValidationError))
  | heartBeat

inductive ControlCommand where
  | publish (topic : TopicHash) (data : List UInt8)
  | subscribe (topic : TopicHash)
  | unsubscribed (topic : TopicHash)
  | heartbeat

inductive Call (P R : Type) where
  | addExplicitPeer (peer : PeerId)
  | removeExplicitPeer (peer : PeerId)
  | blacklistPeer (peer : PeerId)
  | removeBlacklistedPeer (peer : PeerId)
  | reportMessageValidationResult (id : MessageId) (propagationSource : PeerId)
      (acceptance : MessageAcceptance)
  | withPeerScore (peerScore : P) (thresholds : PeerScoreThresholds R)
  /-- `set_topic_params` and `set_application_score`. -/
  | setScore (f : P → P)

inductive Input (P R : Type) where
  | event (e : HandlerEvent)
  | command (c : ControlCommand)
  /-- A subscription to the topic is cancelled or dropped. A subscription is known by its
  channel. -/
  | cancel (topic : TopicHash) (sub : Nat)
  | call (c : Call P R)

/-- An input with the reading of the clock when it is handled. -/
structure Turn (P R : Type) where
  now : Instant
  input : Input P R

/-- The control messages of each kind. -/
def GossipsubRpc.ihaves (rpc : GossipsubRpc) : List (TopicHash × List MessageId) :=
  rpc.controlMsgs.filterMap (fun | .iHave topic ids => some (topic, ids) | _ => none)

@[inherit_doc GossipsubRpc.ihaves]
def GossipsubRpc.iwants (rpc : GossipsubRpc) : List (List MessageId) :=
  rpc.controlMsgs.filterMap (fun | .iWant ids => some ids | _ => none)

@[inherit_doc GossipsubRpc.ihaves]
def GossipsubRpc.grafts (rpc : GossipsubRpc) : List TopicHash :=
  rpc.controlMsgs.filterMap (fun | .graft topic => some topic | _ => none)

@[inherit_doc GossipsubRpc.ihaves]
def GossipsubRpc.prunes (rpc : GossipsubRpc) : List (TopicHash × List PeerInfo × Option Nat) :=
  rpc.controlMsgs.filterMap (fun
    | .prune topic peers backoff => some (topic, peers, backoff)
    | _ => none)

namespace Gossipsub

variable {P R F D : Type} [ScoreArith R] [PeerScoring P R]

/-! ## Peers -/

def openChannel (s : Gossipsub P R F D) (now : Instant) (peer : PeerId) : Gossipsub P R F D :=
  let channel := s.nextChannel
  let old := s.connectedPeer[peer]?.toList
  emitAll { s with
    connectedPeer := s.connectedPeer.insert peer channel
    nextChannel := channel + 1 } now (old.map Output.closeChannel ++ [.openStream peer channel])

def announceTo (s : Gossipsub P R F D) (now : Instant) (peer : PeerId) : Gossipsub P R F D :=
  let topics := s.anyOrder s.mesh.keys
  if topics.1.isEmpty then topics.2
  else topics.2.trySend now peer { subscriptions := topics.1.map (⟨.subscribe, ·⟩) }

/-- An empty set of topics, even for a peer that is known already. -/
def resetTopics (s : Gossipsub P R F D) (peer : PeerId) : Gossipsub P R F D :=
  { s with peerTopics := s.peerTopics.insert peer ∅ }

def handleNewPeer (s : Gossipsub P R F D) (now : Instant) (peer : PeerId) : Gossipsub P R F D :=
  if peer ∈ s.blacklistedPeers then s
  else
    (((s.openChannel now peer).announceTo now peer).resetTopics peer).modifyScore
      (PeerScoring.addPeer peer)

/-- Removes the peer from the mesh, the peers and the fanout of a topic. -/
def forgetIn (peer : PeerId) (s : Gossipsub P R F D) (topic : TopicHash) : Gossipsub P R F D :=
  { s with
    mesh := s.mesh.modify topic (·.erase peer)
    topicPeers := s.topicPeers.modify topic (·.erase peer)
    fanout := s.fanout.modify topic (·.erase peer) }

def dropPeer (s : Gossipsub P R F D) (peer : PeerId) : Gossipsub P R F D :=
  { s with
    pxPeers := s.pxPeers.erase peer
    outboundPeers := s.outboundPeers.erase peer
    explicitPeers := s.explicitPeers.erase peer
    connectedPeer := s.connectedPeer.erase peer
    peerTopics := s.peerTopics.erase peer
    peerProtocols := s.peerProtocols.erase peer }

/-- Only the topics that the peer has announced are looked at. -/
def handleRemoveDeadPeer (s : Gossipsub P R F D) (now : Instant) (peer : PeerId) :
    Gossipsub P R F D :=
  match s.peerTopics[peer]? with
  | none => s
  | some topics =>
    (((sorted topics).foldl (forgetIn peer) s).dropPeer peer).modifyScore
      (PeerScoring.removePeer now peer)

/-! ## RPCs -/

section Rpc

variable [TopicSubscriptionFilter F] [DataTransform D]

def handleSubscriptions (s : Gossipsub P R F D) (now : Instant) (rpc : GossipsubRpc)
    (propagationSource : PeerId) : Gossipsub P R F D :=
  if rpc.subscriptions.isEmpty then s
  else s.handleReceivedSubscriptions now rpc.subscriptions propagationSource

/-- The messages of an RPC, at most `max_messages_per_rpc` of them. -/
def handleMessages (s : Gossipsub P R F D) (now : Instant) (rpc : GossipsubRpc)
    (propagationSource : PeerId)
    (invalidMessages : List (RawGossipsubMessage × ValidationError)) : Gossipsub P R F D :=
  let s :=
    if s.peerScore.isSome then
      invalidMessages.foldl
        (fun s m => s.handleInvalidMessage now propagationSource m.1 m.2) s
    else s
  let permitted := rpc.messages.take (s.config.maxMessagesPerRpc.getD rpc.messages.length)
  permitted.foldl (fun s m => s.handleReceivedMessage now m propagationSource) s

/-- The requests and offers of messages. An IWANT is answered at once. -/
def handleGossip (s : Gossipsub P R F D) (now : Instant) (rpc : GossipsubRpc)
    (propagationSource : PeerId) : Gossipsub P R F D :=
  let s := rpc.iwants.foldl (fun s ids => s.handleIwant now propagationSource ids) s
  if rpc.ihaves.isEmpty then s else s.handleIhave now propagationSource rpc.ihaves

/-- What precedes the GRAFTs of an RPC that is not dropped. -/
def handleContents (s : Gossipsub P R F D) (now : Instant) (rpc : GossipsubRpc)
    (propagationSource : PeerId)
    (invalidMessages : List (RawGossipsubMessage × ValidationError)) : Gossipsub P R F D :=
  (s.handleMessages now rpc propagationSource invalidMessages).handleGossip now rpc
    propagationSource

def handleGraftPrune (s : Gossipsub P R F D) (now : Instant) (rpc : GossipsubRpc)
    (propagationSource : PeerId) : Gossipsub P R F D :=
  let s := if rpc.grafts.isEmpty then s else s.handleGraft now propagationSource rpc.grafts
  if rpc.prunes.isEmpty then s else s.handlePrune now propagationSource rpc.prunes

def handleMessageEvent (s : Gossipsub P R F D) (now : Instant) (rpc : GossipsubRpc)
    (propagationSource : PeerId)
    (invalidMessages : List (RawGossipsubMessage × ValidationError)) : Gossipsub P R F D :=
  let s := s.handleSubscriptions now rpc propagationSource
  if s.scoreBelowThreshold propagationSource PeerScoreThresholds.graylistThreshold then s
  else
    (s.handleContents now rpc propagationSource invalidMessages).handleGraftPrune now rpc
      propagationSource

/-! ## Inputs -/

def handleEvent (s : Gossipsub P R F D) (now : Instant) : HandlerEvent → Gossipsub P R F D
  | .peerKind peer kind => { s with peerProtocols := s.peerProtocols.insertIfNew peer kind }
  | .newPeer peer => s.handleNewPeer now peer
  | .deadPeer peer => s.handleRemoveDeadPeer now peer
  | .message source rpc invalidMessages => s.handleMessageEvent now rpc source invalidMessages
  | .heartBeat => s.heartbeat now

/-- The reply to a subscription. The sender that an earlier subscription has left is kept. -/
def replySubscribe (s : Gossipsub P R F D) (now : Instant) (topic : TopicHash) :
    Except SubscriptionError Bool → Gossipsub P R F D
  | .ok false => s.emit now (.subscribed topic (.error .subscriptionExist))
  | .ok true =>
    let channel := s.nextChannel
    emit { s with
      nextChannel := channel + 1
      myTopics := s.myTopics.insert topic (s.myTopics[topic]?.getD channel) }
      now (.subscribed topic (.ok channel))
  | .error e => s.emit now (.subscribed topic (.error e))

def closeTopic (s : Gossipsub P R F D) (now : Instant) (topic : TopicHash) :
    Gossipsub P R F D :=
  match s.myTopics[topic]? with
  | none => s
  | some channel => emit { s with myTopics := s.myTopics.erase topic } now (.closeChannel channel)

def handleCommand (s : Gossipsub P R F D) (now : Instant) : ControlCommand → Gossipsub P R F D
  | .publish topic data => (s.publish now topic data).2.emit now .published
  | .subscribe topic =>
    let r := s.subscribe now topic
    r.2.replySubscribe now topic r.1
  | .unsubscribed topic => (s.unsubscribe now topic).2.closeTopic now topic
  | .heartbeat => s.heartbeat now

def handleCall (s : Gossipsub P R F D) (now : Instant) : Call P R → Gossipsub P R F D
  | .addExplicitPeer peer =>
    checkExplicitPeerConnection { s with explicitPeers := insert peer s.explicitPeers } now peer
  | .removeExplicitPeer peer => { s with explicitPeers := s.explicitPeers.erase peer }
  | .blacklistPeer peer => { s with blacklistedPeers := insert peer s.blacklistedPeers }
  | .removeBlacklistedPeer peer => { s with blacklistedPeers := s.blacklistedPeers.erase peer }
  | .reportMessageValidationResult id source acceptance =>
    (s.reportMessageValidationResult now id source acceptance).2
  | .withPeerScore peerScore thresholds =>
    match thresholds.validate, s.peerScore with
    | .ok (), none => { s with peerScore := some { peerScore, thresholds } }
    | _, _ => s
  | .setScore f => s.modifyScore f

def handle (s : Gossipsub P R F D) (now : Instant) : Input P R → Gossipsub P R F D
  | .event e => s.handleEvent now e
  | .command c => s.handleCommand now c
  | .cancel topic _ => (s.unsubscribe now topic).2
  | .call c => s.handleCall now c

def step (s : Gossipsub P R F D) (turn : Turn P R) : Gossipsub P R F D :=
  if s.panicked then s else s.handle turn.now turn.input

end Rpc

end Gossipsub

end Libp2pRs.Gossip
