import Libp2pRs.Gossip.State

/-!
# Messages: publishing, receiving, forwarding, IHAVE and IWANT
-/

namespace Libp2pRs.Gossip.Gossipsub

open Lib Libp2pRs.Core Std

variable {P R F D : Type} [ScoreArith R] [PeerScoring P R]

/-! ## Publishing -/

def signingHeader : List UInt8 := asciiBytes "libp2p-pubsub:".toList

def buildRawMessage (s : Gossipsub P R F D) (topic : TopicHash) (data : List UInt8) :
    Option RawGossipsubMessage × Gossipsub P R F D :=
  let r := s.rng.next
  let sequenceNumber := r.1 % 2 ^ 64
  match s.publishConfig with
  | .signing keypair author inlineKey =>
    let message : Proto.Message :=
      ⟨some author.toBytes, some data, some (Proto.seqnoBytes sequenceNumber), topic.hash, none, none⟩
    ((keypair.sign (signingHeader ++ message.encode)).map (fun signature =>
      ⟨some author, data, some sequenceNumber, topic, some signature, inlineKey, true⟩),
      s.setRng r.2)
  | .author peer =>
    (some ⟨some peer, data, some sequenceNumber, topic, none, none, true⟩, s.setRng r.2)
  | .randomAuthor =>
    (some ⟨some (PeerId.random r.2.next.1), data, some sequenceNumber, topic, none, none, true⟩,
      s.setRng r.2.next.2)
  | .anonymous => (some ⟨none, data, none, topic, none, none, true⟩, s)

/-- Forwards a message to the mesh peers of its topic and to the explicit peers, but to neither
its source nor its author. Whether there was a peer to send to. -/
def forwardMsg (s : Gossipsub P R F D) (now : Instant) (id : MessageId)
    (message : RawGossipsubMessage) (propagationSource : Option PeerId) :
    Except PublishError Bool × Gossipsub P R F D :=
  let s :=
    match propagationSource with
    | none => s
    | some peer => s.modifyScore (PeerScoring.deliverMessage now peer id message.topic)
  let other := fun p : PeerId => decide (some p ≠ propagationSource ∧ some p ≠ message.source)
  let meshPeers := (s.meshPeers message.topic).filter (other ·)
  let explicitPeers := s.explicitPeers.filter (fun p =>
    other p && decide (message.topic ∈ s.peerTopics[p]?.getD ∅))
  let recipients := meshPeers ∪ explicitPeers
  if recipients = ∅ then (.ok false, s)
  else
    let order := s.anyOrder (sorted recipients)
    let sent := sendAll now (Proto.intoProtobuf { messages := [message] }) order.2 order.1
    (sent.1.map (fun _ => true), sent.2)

/-- The fanout of the topic, which is chosen at random when there is none. -/
def fanoutPeers (s : Gossipsub P R F D) (now : Instant) (topic : TopicHash) :
    Finset PeerId × Gossipsub P R F D :=
  let fanoutLastPub := s.fanoutLastPub.insert topic now
  match s.fanout[topic]? with
  | some peers => (peers, { s with fanoutLastPub })
  | none =>
    let r := getRandomPeers s.topicPeers s.peerProtocols topic s.config.meshN
      (fun p => decide (p ∉ s.explicitPeers) &&
        !s.scoreBelowThreshold p PeerScoreThresholds.publishThreshold) s.rng
    (r.1, { s with rng := r.2, fanout := s.fanout.insert topic r.1, fanoutLastPub })

/-- The peers to which a message of the topic is published, besides those in the mesh. -/
def publishRecipients (s : Gossipsub P R F D) (now : Instant) (topic : TopicHash) :
    Finset PeerId × Gossipsub P R F D :=
  match s.topicPeers[topic]? with
  | none => (∅, s)
  | some set =>
    let accepted := fun p => !s.scoreBelowThreshold p PeerScoreThresholds.publishThreshold
    if s.config.floodPublish then
      (set.filter (fun p => decide (p ∈ s.explicitPeers) || accepted p), s)
    else
      let explicitPeers := s.explicitPeers.filter (· ∈ set)
      let floodsubPeers := ((s.peerProtocols.toList.filter (fun e =>
        decide (e.2 = .floodsub) && accepted e.1)).map Prod.fst).toFinset
      if s.mesh.contains topic then (explicitPeers ∪ floodsubPeers, s)
      else
        let r := s.fanoutPeers now topic
        (explicitPeers ∪ floodsubPeers ∪ r.1, r.2)

def recordPublished (s : Gossipsub P R F D) (now : Instant) (id : MessageId)
    (message : RawGossipsubMessage) : Except Fault (Gossipsub P R F D) := do
  let duplicateCache ← Fault.clock.orElse (DuplicateCache.insert s.duplicateCache now id)
  let mcache ← Fault.arithmetic.orElse (s.mcache.put id message)
  let s := { s with duplicateCache := duplicateCache.2, mcache }
  match s.publishConfig with
  | .signing .. => return s
  | .author _ => return s
  | _ =>
    if s.config.allowSelfOrigin then return s
    else
      let publishedMessageIds ←
        Fault.clock.orElse (DuplicateCache.insert s.publishedMessageIds now id)
      return { s with publishedMessageIds := publishedMessageIds.2 }

/-- The part of `publish` that follows the checks of the message. -/
def publishMessage (s : Gossipsub P R F D) (now : Instant) (id : MessageId)
    (message : RawGossipsubMessage) : Except PublishError MessageId × Gossipsub P R F D :=
  let sent :=
    if s.config.floodPublish then (.ok false, s) else s.forwardMsg now id message none
  match sent.1 with
  | .error e => (.error e, sent.2)
  | .ok meshPeersSent =>
    let recipients := sent.2.publishRecipients now message.topic
    if recipients.1 = ∅ ∧ ¬ meshPeersSent then (.error .insufficientPeers, recipients.2)
    else
      match recipients.2.recordPublished now id message with
      | .error fault => (.error .insufficientPeers, recipients.2.panic fault)
      | .ok s =>
        let order := s.anyOrder (sorted recipients.1)
        let sent := sendAll now (Proto.intoProtobuf { messages := [message] }) order.2 order.1
        (sent.1.map (fun _ => id), sent.2)

def publish [DataTransform D] (s : Gossipsub P R F D) (now : Instant) (topic : TopicHash)
    (data : List UInt8) : Except PublishError MessageId × Gossipsub P R F D :=
  match DataTransform.outboundTransform s.dataTransform topic data with
  | none => (.error .transformFailed, s)
  | some transformedData =>
    let built := s.buildRawMessage topic transformedData
    let s := built.2
    match built.1 with
    | none => (.error .signingError, s)
    | some message =>
      -- the id is that of the data before the transformation
      let id := s.config.messageIdFn ⟨message.source, data, message.sequenceNumber, message.topic⟩
      if s.config.maxTransmitSize < (Proto.intoProtobuf { messages := [message] }).encodedLen then
        (.error .messageTooLarge, s)
      else if DuplicateCache.contains s.duplicateCache id then (.error .duplicate, s)
      else s.publishMessage now id message

/-! ## Receiving -/

/-- Tells the score and the promises that a message is rejected. -/
def rejectMessage (s : Gossipsub P R F D) (now : Instant) (propagationSource : PeerId)
    (id : MessageId) (topic : TopicHash) (reason : RejectReason) : Gossipsub P R F D :=
  (s.modifyScore (PeerScoring.rejectMessage now propagationSource id topic reason)).modifyPromises
    (·.rejectMessage id reason)

def selfPublished (s : Gossipsub P R F D) (id : MessageId) (message : RawGossipsubMessage)
    (propagationSource : PeerId) : Bool :=
  !s.config.allowSelfOrigin &&
    match s.publishConfig.getOwnId with
    | some ownId => decide (ownId ≠ propagationSource ∧ message.source = some ownId)
    | none => DuplicateCache.contains s.publishedMessageIds id

/-- The basic checks of a message. When no validation by the application is asked for, the
message counts as validated. -/
def messageIsValid (s : Gossipsub P R F D) (now : Instant) (id : MessageId)
    (message : RawGossipsubMessage) (propagationSource : PeerId) :
    Bool × RawGossipsubMessage × Gossipsub P R F D :=
  let reject := fun (m : RawGossipsubMessage) reason =>
    (false, m, s.rejectMessage now propagationSource id message.topic reason)
  if propagationSource ∈ s.blacklistedPeers then reject message .blackListedPeer
  else if ∃ source ∈ message.source, source ∈ s.blacklistedPeers then
    reject message .blackListedSource
  else
    let m := if s.config.validateMessages then message else { message with validated := true }
    if s.selfPublished id message propagationSource then reject m .selfOrigin
    else (true, m, s)

def handleInvalidMessage (s : Gossipsub P R F D) (now : Instant) (propagationSource : PeerId)
    (message : RawGossipsubMessage) (error : ValidationError) : Gossipsub P R F D :=
  match s.config.fastMessageIdFn.bind (fun f => s.fastMessageIdCache.get (f message)) with
  | some id => s.rejectMessage now propagationSource id message.topic (.validationError error)
  | none => s.modifyScore (PeerScoring.rejectInvalidMessage propagationSource message.topic)

def notifySubs (s : Gossipsub P R F D) (now : Instant) (message : GossipsubMessage) :
    Gossipsub P R F D :=
  match s.myTopics[message.topic]? with
  | none => s
  | some channel => s.emit now (.notify channel message)

/-- The cache of fast ids with the id of a message, if there is a fast one. -/
def recordFast (s : Gossipsub P R F D) (now : Instant) (fastId : Option FastMessageId)
    (id : MessageId) : Option (TimeCache FastMessageId MessageId) :=
  match fastId with
  | none => some s.fastMessageIdCache
  | some fastId => s.fastMessageIdCache.orInsertWith now fastId id

/-- Enters a valid message into the caches of seen messages. `false` if it was there. -/
def recordSeen (s : Gossipsub P R F D) (now : Instant) (fastId : Option FastMessageId)
    (id : MessageId) : Option (Bool × Gossipsub P R F D) := do
  let fastMessageIdCache ← s.recordFast now fastId id
  let r ← DuplicateCache.insert s.duplicateCache now id
  some (r.1, { s with fastMessageIdCache, duplicateCache := r.2 })

/-- What happens with a message that is seen for the first time. It is sent to all mesh peers of
its topic and, unless the application has to validate it, forwarded to them once more. -/
def acceptMessage (s : Gossipsub P R F D) (now : Instant) (id : MessageId)
    (raw : RawGossipsubMessage) (message : GossipsubMessage) (propagationSource : PeerId) :
    Gossipsub P R F D :=
  let s := s.notifySubs now message
  let s := (s.modifyScore
    (PeerScoring.validateMessage now propagationSource id message.topic)).modifyPromises
    (·.messageDelivered id)
  match s.mcache.put id raw with
  | none => s.panic .arithmetic
  | some mcache =>
    let s := s.setMcache mcache
    match s.mesh[message.topic]? with
    | none => s
    | some peers =>
      let s := (sorted peers).foldl (fun s p => s.trySend now p { messages := [raw] }) s
      if s.config.validateMessages then s
      else (s.forwardMsg now id raw (some propagationSource)).2

def handleReceivedMessage [DataTransform D] (s : Gossipsub P R F D) (now : Instant)
    (raw : RawGossipsubMessage) (propagationSource : PeerId) : Gossipsub P R F D :=
  let fastId := s.config.fastMessageIdFn.map (· raw)
  match fastId.bind s.fastMessageIdCache.get with
  | some id =>
    -- the check is made only for the penalties
    let r := s.messageIsValid now id raw propagationSource
    r.2.2.modifyScore (PeerScoring.duplicatedMessage now propagationSource id r.2.1.topic)
  | none =>
    match DataTransform.inboundTransform s.dataTransform raw with
    | none => s.handleInvalidMessage now propagationSource raw .transformFailed
    | some message =>
      let id := s.config.messageIdFn message
      let r := s.messageIsValid now id raw propagationSource
      if ¬ r.1 then r.2.2
      else
        match r.2.2.recordSeen now fastId id with
        | none => r.2.2.panic .clock
        | some seen =>
          if seen.1 then seen.2.acceptMessage now id r.2.1 message propagationSource
          else
            seen.2.modifyScore
              (PeerScoring.duplicatedMessage now propagationSource id message.topic)

/-- The verdict of the application on a message. Whether the message was still cached. -/
def reportMessageValidationResult (s : Gossipsub P R F D) (now : Instant) (id : MessageId)
    (propagationSource : PeerId) (acceptance : MessageAcceptance) :
    Except PublishError Bool × Gossipsub P R F D :=
  let drop := fun reason =>
    let r := s.mcache.remove id
    let s := s.setMcache r.2
    match r.1 with
    | none => (.ok false, s)
    | some message =>
      (.ok true, s.modifyScore
        (PeerScoring.rejectMessage now propagationSource id message.topic reason))
  match acceptance with
  | .accept =>
    let r := s.mcache.validate id
    let s := s.setMcache r.2
    match r.1 with
    | none => (.ok false, s)
    | some message =>
      let forwarded := s.forwardMsg now id message (some propagationSource)
      (forwarded.1.map (fun _ => true), forwarded.2)
  | .reject => drop .validationFailed
  | .ignore => drop .validationIgnored

/-! ## IHAVE and IWANT -/

/-- The unseen messages that the peer offers on topics of the mesh. -/
def wantedIds (s : Gossipsub P R F D) (ihaveMsgs : List (TopicHash × List MessageId)) :
    Finset MessageId :=
  ((ihaveMsgs.filter (fun m => s.mesh.contains m.1)).flatMap (fun m =>
    m.2.filter (fun id => !DuplicateCache.contains s.duplicateCache id))).toFinset

def addPromise (s : Gossipsub P R F D) (now : Instant) (peer : PeerId)
    (messageIds : List MessageId) : Gossipsub P R F D :=
  match s.peerScore with
  | none => s
  | some d =>
    match now.checkedAdd s.config.iwantFollowupTime with
    | none => s.panic .clock
    | some expires =>
      let r := d.gossipPromises.addPromise s.rng peer messageIds expires
      { s with peerScore := some { d with gossipPromises := r.1 }, rng := r.2 }

def askFor (s : Gossipsub P R F D) (now : Instant) (peer : PeerId) (ids : Finset MessageId) :
    Gossipsub P R F D :=
  let asked := s.countSentIwant[peer]?.getD 0
  let ask := min ids.card (s.config.maxIhaveLength - asked)
  let s := { s with countSentIwant := s.countSentIwant.insert peer (asked + ask) }
  let order := s.anyOrder (sorted ids)
  let messageIds := order.1.take ask
  (order.2.addPromise now peer messageIds).controlPoolAdd peer (.iWant messageIds)

def handleIhave (s : Gossipsub P R F D) (now : Instant) (peer : PeerId)
    (ihaveMsgs : List (TopicHash × List MessageId)) : Gossipsub P R F D :=
  if s.scoreBelowThreshold peer PeerScoreThresholds.gossipThreshold then s
  else
    let peerHave := s.countReceivedIhave[peer]?.getD 0 + 1
    let s := { s with countReceivedIhave := s.countReceivedIhave.insert peer peerHave }
    if s.config.maxIhaveMessages < peerHave then s
    else if ∃ asked ∈ s.countSentIwant[peer]?, s.config.maxIhaveLength ≤ asked then s
    else
      let ids := s.wantedIds ihaveMsgs
      if ids = ∅ then s else s.askFor now peer ids

/-- Looks up the requested messages, without those that the peer has asked for too often. -/
def collectRequested (peer : PeerId) :
    Gossipsub P R F D → List MessageId → TreeMap MessageId RawGossipsubMessage →
      Option (TreeMap MessageId RawGossipsubMessage × Gossipsub P R F D)
  | s, [], found => some (found, s)
  | s, id :: ids, found => do
    let r ← s.mcache.getWithIwantCounts id peer
    let s := s.setMcache r.2
    match r.1 with
    | some (message, count) =>
      if s.config.gossipRetransimission < count then collectRequested peer s ids found
      else collectRequested peer s ids (found.insert id message)
    | none => collectRequested peer s ids found

def handleIwant (s : Gossipsub P R F D) (now : Instant) (peer : PeerId)
    (iwantMsgs : List MessageId) : Gossipsub P R F D :=
  if s.scoreBelowThreshold peer PeerScoreThresholds.gossipThreshold then s
  else
    match collectRequested peer s iwantMsgs ∅ with
    | none => s.panic .counter
    | some cached =>
      if cached.1.isEmpty then cached.2
      else
        let order := cached.2.anyOrder cached.1.values
        order.2.trySend now peer { messages := order.1 }

end Libp2pRs.Gossip.Gossipsub
