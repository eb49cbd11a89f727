import Libp2pRs.Gossip.Types

/-!
# Subscription filters and data transforms

What an application may plug into gossipsub. A filter may change its state whenever it is asked;
the default methods ask it about the topics of a request one by one.
-/

namespace Libp2pRs.Gossip

/-- `subscriptions.retain(..)` with a predicate that has a state. -/
def retainSubscriptions {F : Type} (allow : F → GossipsubSubscription → Bool × F) :
    F → List GossipsubSubscription → List GossipsubSubscription × F
  | f, [] => ([], f)
  | f, s :: subscriptions =>
    let r := allow f s
    let rest := retainSubscriptions allow r.2 subscriptions
    (if r.1 then s :: rest.1 else rest.1, rest.2)

/-- At most one subscription for each topic: the opposite action takes back the one before. -/
def dedupSubscriptions (subscriptions : List GossipsubSubscription) :
    List GossipsubSubscription :=
  subscriptions.foldl (fun filtered s =>
    match filtered.find? (·.topicHash = s.topicHash) with
    | some e =>
      if e.action ≠ s.action then filtered.filter (·.topicHash ≠ s.topicHash) else filtered
    | none => filtered ++ [s]) []

class TopicSubscriptionFilter (F : Type) where
  canSubscribe : F → TopicHash → Bool × F
  allowIncomingSubscription : F → GossipsubSubscription → Bool × F :=
    fun f s => canSubscribe f s.topicHash
  filterIncomingSubscriptionSet : F → List GossipsubSubscription → Finset TopicHash →
      Except String (List GossipsubSubscription) × F :=
    fun f subscriptions _ =>
      let r := retainSubscriptions allowIncomingSubscription f subscriptions
      (.ok r.1, r.2)
  filterIncomingSubscriptions : F → List GossipsubSubscription → Finset TopicHash →
      Except String (List GossipsubSubscription) × F :=
    fun f subscriptions currentlySubscribedTopics =>
      filterIncomingSubscriptionSet f (dedupSubscriptions subscriptions) currentlySubscribedTopics

structure AllowAllSubscriptionFilter where

instance : TopicSubscriptionFilter AllowAllSubscriptionFilter where
  canSubscribe f _ := (true, f)

structure WhitelistSubscriptionFilter where
  topics : Finset TopicHash

instance : TopicSubscriptionFilter WhitelistSubscriptionFilter where
  canSubscribe f topic := (decide (topic ∈ f.topics), f)

/-- A filter with a bound on the topics of a peer and on the length of a request. -/
structure MaxCountSubscriptionFilter (T : Type) where
  filter : T
  maxSubscribedTopics : Nat
  maxSubscriptionsPerRequest : Nat

/-- The number of subscriptions of the action whose topic is, or is not, subscribed already. -/
def countSubscriptions (subscriptions : List GossipsubSubscription)
    (currentlySubscribedTopics : Finset TopicHash) (action : SubscriptionAction)
    (contained : Bool) : Nat :=
  subscriptions.countP (fun s =>
    s.action = action ∧ decide (s.topicHash ∈ currentlySubscribedTopics) = contained)

instance {T : Type} [TopicSubscriptionFilter T] :
    TopicSubscriptionFilter (MaxCountSubscriptionFilter T) where
  canSubscribe f topic :=
    let r := TopicSubscriptionFilter.canSubscribe f.filter topic
    (r.1, { f with filter := r.2 })
  filterIncomingSubscriptions f subscriptions current :=
    if f.maxSubscriptionsPerRequest < subscriptions.length then
      (.error "too many subscriptions per request", f)
    else
      let r := TopicSubscriptionFilter.filterIncomingSubscriptions f.filter subscriptions current
      let f := { f with filter := r.2 }
      match r.1 with
      | .error e => (.error e, f)
      | .ok result =>
        let unsubscribed := countSubscriptions result current .unsubscribe true
        let newSubscribed := countSubscriptions result current .subscribe false
        if f.maxSubscribedTopics + unsubscribed < newSubscribed + current.card then
          (.error "too many subscribed topics", f)
        else (.ok result, f)

structure CombinedSubscriptionFilters (T S : Type) where
  filter1 : T
  filter2 : S

instance {T S : Type} [TopicSubscriptionFilter T] [TopicSubscriptionFilter S] :
    TopicSubscriptionFilter (CombinedSubscriptionFilters T S) where
  canSubscribe f topic :=
    let r1 := TopicSubscriptionFilter.canSubscribe f.filter1 topic
    if r1.1 then
      let r2 := TopicSubscriptionFilter.canSubscribe f.filter2 topic
      (r2.1, ⟨r1.2, r2.2⟩)
    else (false, ⟨r1.2, f.filter2⟩)
  filterIncomingSubscriptionSet f subscriptions current :=
    let r1 :=
      TopicSubscriptionFilter.filterIncomingSubscriptionSet f.filter1 subscriptions current
    match r1.1 with
    | .error e => (.error e, ⟨r1.2, f.filter2⟩)
    | .ok intermediate =>
      let r2 :=
        TopicSubscriptionFilter.filterIncomingSubscriptionSet f.filter2 intermediate current
      (r2.1, ⟨r1.2, r2.2⟩)

structure CallbackSubscriptionFilter (σ : Type) where
  state : σ
  callback : σ → TopicHash → Bool × σ

instance {σ : Type} : TopicSubscriptionFilter (CallbackSubscriptionFilter σ) where
  canSubscribe f topic :=
    let r := f.callback f.state topic
    (r.1, { f with state := r.2 })

/-- A transformation of the data of messages. `none` is an error. -/
class DataTransform (D : Type) where
  inboundTransform : D → RawGossipsubMessage → Option GossipsubMessage
  outboundTransform : D → TopicHash → List UInt8 → Option (List UInt8)

structure IdentityTransform where

instance : DataTransform IdentityTransform where
  inboundTransform _ m := some ⟨m.source, m.data, m.sequenceNumber, m.topic⟩
  outboundTransform _ _ data := some data

end Libp2pRs.Gossip
