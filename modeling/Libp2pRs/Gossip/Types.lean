import Libp2pRs.Core.PeerId
import Libp2pRs.Core.Time

/-!
# The types and the configuration of gossipsub

A topic and a message id are byte strings (the topic in UTF-8), with the lexicographic order of
their bytes.
-/

namespace Libp2pRs.Gossip

open Libp2pRs.Core

def asciiBytes (cs : List Char) : List UInt8 := cs.map (fun c => UInt8.ofNat c.toNat)

theorem map_toNat_injective : Function.Injective (List.map UInt8.toNat) :=
  List.map_injective_iff.mpr (fun _ _ h => UInt8.toNat_inj.mp h)

structure TopicHash where
  hash : List UInt8
  deriving DecidableEq, Repr

instance : LinearOrder TopicHash :=
  LinearOrder.lift' (fun t => t.hash.map UInt8.toNat) (fun ⟨_⟩ ⟨_⟩ h =>
    congrArg TopicHash.mk (map_toNat_injective h))

structure MessageId where
  id : List UInt8
  deriving DecidableEq, Repr

instance : LinearOrder MessageId :=
  LinearOrder.lift' (fun m => m.id.map UInt8.toNat) (fun ⟨_⟩ ⟨_⟩ h =>
    congrArg MessageId.mk (map_toNat_injective h))

/-- An id that filters duplicates before the data of a message is transformed. -/
structure FastMessageId where
  id : List UInt8
  deriving DecidableEq, Repr

instance : LinearOrder FastMessageId :=
  LinearOrder.lift' (fun m => m.id.map UInt8.toNat) (fun ⟨_⟩ ⟨_⟩ h =>
    congrArg FastMessageId.mk (map_toNat_injective h))

/-- What a peer speaks. `gossipsub` is version 1.0. -/
inductive PeerKind where
  | gossipsubV11
  | gossipsub
  | floodsub
  | notSupported
  deriving DecidableEq, Repr

def PeerKind.isGossip : Option PeerKind → Bool
  | some .gossipsubV11 => true
  | some .gossipsub => true
  | _ => false

inductive MessageAcceptance where
  | accept
  | reject
  | ignore
  deriving DecidableEq, Repr

structure RawGossipsubMessage where
  source : Option PeerId
  data : List UInt8
  sequenceNumber : Option Nat
  topic : TopicHash
  signature : Option (List UInt8)
  key : Option (List UInt8)
  validated : Bool
  deriving DecidableEq, Repr

structure GossipsubMessage where
  source : Option PeerId
  data : List UInt8
  sequenceNumber : Option Nat
  topic : TopicHash
  deriving DecidableEq, Repr

inductive SubscriptionAction where
  | subscribe
  | unsubscribe
  deriving DecidableEq, Repr

structure GossipsubSubscription where
  action : SubscriptionAction
  topicHash : TopicHash
  deriving DecidableEq, Repr

structure PeerInfo where
  peerId : Option PeerId
  deriving DecidableEq, Repr

inductive ControlAction where
  | iHave (topicHash : TopicHash) (messageIds : List MessageId)
  | iWant (messageIds : List MessageId)
  | graft (topicHash : TopicHash)
  | prune (topicHash : TopicHash) (peers : List PeerInfo) (backoff : Option Nat)
  deriving DecidableEq, Repr

structure GossipsubRpc where
  messages : List RawGossipsubMessage := []
  subscriptions : List GossipsubSubscription := []
  controlMsgs : List ControlAction := []
  deriving DecidableEq, Repr

inductive ValidationError where
  | invalidSignature
  | emptySequenceNumber
  | invalidSequenceNumber
  | invalidPeerId
  | signaturePresent
  | sequenceNumberPresent
  | messageSourcePresent
  | transformFailed
  deriving DecidableEq, Repr

inductive RejectReason where
  | validationError (e : ValidationError)
  | selfOrigin
  | blackListedPeer
  | blackListedSource
  | validationIgnored
  | validationFailed
  deriving DecidableEq, Repr

inductive PublishError where
  | duplicate
  | signingError
  | insufficientPeers
  | messageTooLarge
  | transformFailed
  deriving DecidableEq, Repr

inductive SubscriptionError where
  | publishError (e : PublishError)
  | notAllowed
  | subscriptionExist
  deriving DecidableEq, Repr

inductive Fault where
  /-- A division or a remainder by zero, a difference below zero, a slice or an index out of
  range, or a pop from an empty list. -/
  | arithmetic
  /-- The time or the slot of a backoff that cannot be represented. -/
  | backoff
  /-- Another point in time that cannot be represented. -/
  | clock
  /-- A counter that is full. -/
  | counter
  deriving DecidableEq, Repr

theorem Fault.bind_eq_ok {f : α → Except Fault β} :
    x >>= f = .ok b ↔ ∃ a, x = .ok a ∧ f a = .ok b := by
  cases x <;> simp [bind, Except.bind]

def Fault.orElse {α : Type} (fault : Fault) : Option α → Except Fault α
  | none => .error fault
  | some a => .ok a

theorem Fault.orElse_eq_ok {fault : Fault} : fault.orElse x = .ok a ↔ x = some a := by
  cases x <;> simp [orElse]

theorem Fault.orElse_eq_error {α : Type} {e fault : Fault} {x : Option α}
    (h : e.orElse x = .error fault) : fault = e ∧ x = none := by
  cases x with
  | none =>
    cases h
    exact ⟨rfl, rfl⟩
  | some a => cases h

theorem Fault.bind_eq_error {α β : Type} {x : Except Fault α} {f : α → Except Fault β}
    {fault : Fault} (h : x >>= f = .error fault) :
    x = .error fault ∨ ∃ a, x = .ok a ∧ f a = .error fault := by
  cases x with
  | error e =>
    cases h
    exact .inl rfl
  | ok a => exact .inr ⟨a, rfl, h⟩

inductive ValidationMode where
  | strict
  | permissive
  | anonymous
  | none
  deriving DecidableEq, Repr

/-! ## The configuration -/

/-- The default message id: the source in base 58 and the sequence number in base 10. -/
def defaultMessageId (m : GossipsubMessage) : MessageId :=
  let source := (m.source.getD (PeerId.ofByte 0)).toBase58
  ⟨asciiBytes (source ++ (Nat.toDigits 10 (m.sequenceNumber.getD 0)))⟩

/-- The parameters of gossipsub, with the values that `GossipsubConfigBuilder::new` gives
them. -/
structure GossipsubConfig where
  historyLength : Nat := 5
  historyGossip : Nat := 3
  meshN : Nat := 6
  meshNLow : Nat := 5
  meshNHigh : Nat := 12
  retainScores : Nat := 4
  gossipLazy : Nat := 6
  gossipFactor : ℚ := 1 / 4
  heartbeatInterval : Duration := Duration.fromSecs 1
  fanoutTtl : Duration := Duration.fromSecs 60
  checkExplicitPeersTicks : Nat := 300
  maxTransmitSize : Nat := 65535
  duplicateCacheTime : Duration := Duration.fromSecs 60
  validateMessages : Bool := false
  validationMode : ValidationMode := .strict
  messageIdFn : GossipsubMessage → MessageId := defaultMessageId
  fastMessageIdFn : Option (RawGossipsubMessage → FastMessageId) := none
  allowSelfOrigin : Bool := false
  doPx : Bool := false
  prunePeers : Nat := 0
  pruneBackoff : Duration := Duration.fromSecs 60
  backoffSlack : Nat := 1
  floodPublish : Bool := true
  graftFloodThreshold : Duration := Duration.fromSecs 10
  meshOutboundMin : Nat := 2
  opportunisticGraftTicks : Nat := 60
  opportunisticGraftPeers : Nat := 2
  gossipRetransimission : Nat := 3
  maxMessagesPerRpc : Option Nat := Option.none
  maxIhaveLength : Nat := 5000
  maxIhaveMessages : Nat := 10
  iwantFollowupTime : Duration := Duration.fromSecs 3
  publishedMessageIdsCacheTime : Duration := Duration.fromSecs 10

def GossipsubConfig.build (c : GossipsubConfig) : Except String GossipsubConfig :=
  if c.maxTransmitSize < 100 then
    .error "The maximum transmission size must be greater than 100 to permit basic control messages"
  else if c.historyLength < c.historyGossip then
    .error "The history_length must be greater than or equal to the history_gossip length"
  else if ¬ (c.meshOutboundMin < c.meshNLow ∧ c.meshNLow ≤ c.meshN ∧ c.meshN ≤ c.meshNHigh) then
    .error ("The following inequality doesn't hold " ++
      "mesh_outbound_min < mesh_n_low <= mesh_n <= mesh_n_high")
  else if c.meshN < c.meshOutboundMin * 2 then
    .error "The following inequality doesn't hold mesh_outbound_min <= self.config.mesh_n / 2"
  else .ok c

/-- What the constraints say. -/
structure GossipsubConfig.Built (c : GossipsubConfig) : Prop where
  transmit : 100 ≤ c.maxTransmitSize
  history : c.historyGossip ≤ c.historyLength
  mesh_outbound : c.meshOutboundMin < c.meshNLow
  mesh_low : c.meshNLow ≤ c.meshN
  mesh_high : c.meshN ≤ c.meshNHigh
  outbound_half : c.meshOutboundMin * 2 ≤ c.meshN

theorem GossipsubConfig.build_eq_ok {c c' : GossipsubConfig} (h : c.build = .ok c') : c.Built := by
  unfold build at h
  repeat' split at h
  all_goals try cases h
  constructor <;> omega

/-- The configurations for which the maintenance of the mesh does not panic. -/
structure GossipsubConfig.Steady (c : GossipsubConfig) : Prop where
  ticks : c.opportunisticGraftTicks ≠ 0
  retain : c.retainScores ≤ c.meshNHigh + 1

end Libp2pRs.Gossip
