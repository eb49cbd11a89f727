import Libp2pRs.Kad.Kademlia
import Libp2pRs.Kad.Query

/-!
# The Kademlia main loop

`handle` is one turn of the main loop: an event or a command is handled to its end. A handler
changes the state of Kademlia and does things to the rest of the node: it calls the peer store,
posts events, answers requests, starts queries and other tasks. These are returned as a list of
`Action`s. What a handler reads from the peer store comes from the argument `ps`.
-/

namespace Libp2pRs.Kad

open Lib Libp2pRs.Core

inductive QueryCallback where
  | lookup (reply : ReplyId)
  | findPeer (reply : ReplyId)
  | findProviders (reply : ReplyId)
  | getRecord (reply : ReplyId)
  | publish (queryType : QueryType) (reply : ReplyId)
  | refresh (reply : Option ReplyId)

inductive ReplyValue where
  | done (r : Except KadError Unit)
  | peer (r : Except KadError KadPeer)
  | peers (r : Except KadError (List KadPeer))
  | record (r : Except KadError RecordOfPeer)
  | ids (r : List PeerId)

inductive Action where
  | call (c : StoreCall)
  | post (e : ProtocolEvent)
  | respond (reply : ReplyId) (r : Except KadError (Option KadResponseMsg))
  | reply (reply : ReplyId) (v : ReplyValue)
  | query (q : IterativeQuery) (callback : QueryCallback)
  | healthCheck (peers : List PeerId)
  | randomWalk (buckets : List BucketIndex) (reply : Option ReplyId)

def storeCalls (as : List Action) : List StoreCall :=
  as.filterMap (fun
    | .call c => some c
    | _ => none)

@[simp] theorem storeCalls_append (as bs : List Action) :
    storeCalls (as ++ bs) = storeCalls as ++ storeCalls bs := List.filterMap_append

@[simp] theorem storeCalls_map_call (cs : List StoreCall) :
    storeCalls (cs.map Action.call) = cs := by
  simp [storeCalls, List.filterMap_map]

namespace Kademlia

variable {S : Type} [RecordStore S] (sha256 : List UInt8 → KeyBytes) (ps : PeerStore)
  (now : Instant)

/-! ## Queries -/

def prepareIterativeQuery (queryType : QueryType) (key : RecordKey) (k : Kademlia S) :
    IterativeQuery where
  queryType := queryType
  key := key
  localId := k.kbuckets.localKey.preimage
  config := k.queryConfig
  seeds := (k.kbuckets.closestKeys (Key.new sha256 key)).take k.queryConfig.kValue

def getClosestPeers (key : RecordKey) (callback : QueryCallback) (k : Kademlia S) : List Action :=
  [.query (k.prepareIterativeQuery sha256 .getClosestPeers key) callback]

def findPeer (p : PeerId) (reply : ReplyId) (k : Kademlia S) : List Action :=
  match ps.getAddrs p with
  | some addrs => [.reply reply (.peer (.ok ⟨p, addrs, .notConnected⟩))]
  | none =>
    [.query (k.prepareIterativeQuery sha256 .findPeer (RecordKey.ofPeerId p)) (.findPeer reply)]

def connectionTy (p : PeerId) (k : Kademlia S) : KadConnectionType :=
  if p ∈ k.connectedPeers then .connected else .notConnected

def providerPeers (key : RecordKey) (source : Option PeerId) (k : Kademlia S) : List KadPeer :=
  ((RecordStore.providers k.store key).filterMap (fun p =>
    if source ≠ some p.provider then
      let addrs :=
        if p.provider = k.kbuckets.localKey.preimage then some k.localAddrs
        else ps.getAddrs p.provider
      some ⟨p.provider, addrs.getD [], k.connectionTy p.provider⟩
    else none)).take k.queryConfig.kValue

def findProviders (key : RecordKey) (count : Nat) (reply : ReplyId) (k : Kademlia S) :
    List Action :=
  let providers := k.providerPeers ps key none
  if count ≠ 0 ∧ count ≤ providers.length then [.reply reply (.peers (.ok providers))]
  else
    let found := if providers.isEmpty then none else some providers
    [.query (k.prepareIterativeQuery sha256 (.getProviders count found) key) (.findProviders reply)]

def getRecord (key : RecordKey) (reply : ReplyId) (k : Kademlia S) : List Action :=
  let quorum : Nat := k.queryConfig.kValue
  let records : List RecordOfPeer :=
    match RecordStore.get k.store key with
    | some record => [⟨none, record⟩]
    | none => []
  if quorum ≤ records.length then
    match records.head? with
    | some record => [.reply reply (.record (.ok record))]
    | none => [.reply reply (.record (.error .notFound))]
  else
    let found := if records.isEmpty then none else some records
    [.query (k.prepareIterativeQuery sha256 (.getRecord quorum found) key) (.getRecord reply)]

def putRecord (key : RecordKey) (value : List UInt8) (reply : ReplyId) (k : Kademlia S) :
    Kademlia S × List Action :=
  let record := Record.new now key value true (some k.kbuckets.localKey.preimage)
  match RecordStore.put k.store record with
  | (store, .error e) => ({ k with store := store }, [.reply reply (.done (.error e))])
  | (store, .ok ()) =>
    let k := { k with store := store }
    (k, k.getClosestPeers sha256 key (.publish (.putRecord record) reply))

def startProviding (key : RecordKey) (reply : ReplyId) (k : Kademlia S) :
    Kademlia S × List Action :=
  let provider := ProviderRecord.new now key k.kbuckets.localKey.preimage true
  match RecordStore.addProvider k.store provider with
  | (store, .error e) => ({ k with store := store }, [.reply reply (.done (.error e))])
  | (store, .ok ()) =>
    let k := { k with store := store }
    (k, k.getClosestPeers sha256 key (.publish (.addProvider provider k.localAddrs) reply))

def stopProviding (key : RecordKey) (k : Kademlia S) : Kademlia S :=
  { k with store := RecordStore.removeProvider k.store key k.kbuckets.localKey.preimage }

/-! ## Nodes added and removed by the user -/

def addNode (peer : PeerId) (addrs : List Multiaddr) (k : Kademlia S) :
    Kademlia S × List StoreCall :=
  let r := k.tryAddPeer sha256 now peer false true
  (r.1, .addAddrs peer addrs addressTtl :: r.2)

def removeNode (peer : PeerId) (k : Kademlia S) : Kademlia S × List StoreCall :=
  let r := (k.tryRemovePeer sha256 peer true).2
  (r.1, .clearAddrs peer :: r.2)

def addNodes (boot : List (PeerId × Multiaddr)) (k : Kademlia S) : Kademlia S × List StoreCall :=
  boot.foldl (fun acc b =>
    let r := acc.1.addNode sha256 now b.1 [b.2]
    (r.1, acc.2 ++ r.2)) (k, [])

def bootstrap (boot : List (PeerId × Multiaddr)) (reply : Option ReplyId) (k : Kademlia S) :
    Kademlia S × List Action :=
  let r := k.addNodes sha256 now boot
  (r.1, r.2.map .call ++ [.post (.refresh (.start reply))])

/-! ## Requests of other peers -/

/-- The peers closest to a target, in the context of a request by `source`. -/
def findClosest {T : Type} (target : Key T) (source : PeerId) (k : Kademlia S) : List KadPeer :=
  if target.bytes = k.kbuckets.localKey.bytes then
    [⟨k.kbuckets.localKey.preimage, [], .connected⟩]
  else
    (((k.kbuckets.closest target).filter (fun e => e.node.key.preimage ≠ source)).take
      k.queryConfig.kValue).map (fun e =>
        let id := e.node.key.preimage
        ⟨id, (ps.getAddrs id).getD [], k.connectionTy id⟩)

def handlePutRecord (record : Record) (k : Kademlia S) :
    Kademlia S × Except KadError KadResponseMsg :=
  if record.publisher = some k.kbuckets.localKey.preimage then
    (k, .ok (.putValue record.key record.value))
  else
    match RecordStore.put k.store record with
    | (store, .ok ()) => ({ k with store := store }, .ok (.putValue record.key record.value))
    | (store, .error e) => ({ k with store := store }, .error e)

def handleAddProvider (key : RecordKey) (provider : KadPeer) (k : Kademlia S) :
    Kademlia S × List Action :=
  if provider.nodeId ≠ k.kbuckets.localKey.preimage then
    let record := ProviderRecord.new now key provider.nodeId false
    ({ k with store := (RecordStore.addProvider k.store record).1 },
      [.call (.addAddrs provider.nodeId provider.multiaddrs providerAddrTtl)])
  else (k, [])

def handleKadRequest (request : KadRequestMsg) (source : PeerId) (reply : ReplyId)
    (k : Kademlia S) : Kademlia S × List Action :=
  match request with
  | .ping => (k, [.respond reply (.ok (some .pong))])
  | .findNode key =>
    (k, [.respond reply (.ok (some (.findNode
      (k.findClosest ps (Key.new sha256 key) source))))])
  | .addProvider key provider =>
    if provider.nodeId ≠ source then (k, [.respond reply (.error (.invalidSource source))])
    else
      let r := k.handleAddProvider now key provider
      (r.1, r.2 ++ [.respond reply (.ok none)])
  | .getProviders key =>
    (k, [.respond reply (.ok (some (.getProviders
      (k.findClosest ps (Key.new sha256 key) source) (k.providerPeers ps key (some source)))))])
  | .getValue key =>
    (k, [.respond reply (.ok (some (.getValue (RecordStore.get k.store key)
      (k.findClosest ps (Key.new sha256 key) source))))])
  | .putValue record =>
    let r := k.handlePutRecord record
    (r.1, [.respond reply (r.2.map some)])

/-! ## Timers and refreshes -/

def handleGcTimer (k : Kademlia S) : Kademlia S :=
  { k with store :=
      RecordStore.gcProviders (RecordStore.gcRecords k.store now k.recordTtl) now k.providerTtl }

/-- The peers whose health is checked, those that a new peer could replace. -/
def handleRefreshTimer (k : Kademlia S) : List Action :=
  let peers := ((k.kbuckets.closest k.kbuckets.localKey).filter
    (fun e => isReplaceable now k.checkKadPeerInterval e.node)).map (fun e => e.node.key.preimage)
  [.healthCheck peers]

/-- The buckets of the random walk: up to 16 after the first that is not empty. -/
def walkBuckets (t : RoutingTable) : List BucketIndex :=
  (((List.finRange numBuckets).dropWhile (fun i => (t.buckets i).nodes.isEmpty)).drop 1).take 16

def handleRefreshStage (stage : RefreshStage) (k : Kademlia S) : Kademlia S × List Action :=
  match stage with
  | .start reply =>
    let refused := reply.toList.map (fun r => Action.reply r (.done (.error .bootstrap)))
    if k.refreshing then (k, refused)
    else if k.kbuckets.numEntries = 0 then (k, refused)
    else
      let k := { k with refreshing := true, totalRefreshes := k.totalRefreshes + 1 }
      (k, k.getClosestPeers sha256 (RecordKey.ofPeerId k.kbuckets.localKey.preimage)
        (.refresh reply))
  | .selfQueryDone reply => (k, [.randomWalk (walkBuckets k.kbuckets) reply])
  | .completed => ({ k with refreshing := false }, [])

/-! ## The main loop -/

def handlePeerIdentified (p : PeerId) (k : Kademlia S) : Kademlia S × List StoreCall :=
  match ps.firstSupportedProtocol p [k.protocolName] with
  | some _ => k.tryAddPeer sha256 now p false false
  | none => (k, [])

def onEvents (e : ProtocolEvent) (k : Kademlia S) : Kademlia S × List Action :=
  match e with
  | .peerConnected p => ({ k with connectedPeers := insert p k.connectedPeers }, [])
  | .peerDisconnected p => ({ k with connectedPeers := k.connectedPeers.erase p }, [])
  | .peerIdentified p =>
    let r := k.handlePeerIdentified sha256 ps now p
    (r.1, r.2.map .call)
  | .addressChanged addrs => handleRefreshStage sha256 (.start none) { k with localAddrs := addrs }
  | .kadPeerFound p queried =>
    let r := k.tryAddPeer sha256 now p queried false
    (r.1, r.2.map .call)
  | .kadPeerStopped p =>
    let r := (k.tryRemovePeer sha256 p false).2
    (r.1, r.2.map .call)
  | .kadRequest request source reply => k.handleKadRequest sha256 ps now request source reply
  | .gcTimer => (k.handleGcTimer now, [])
  | .refreshTimer => (k, k.handleRefreshTimer now)
  | .refresh stage => k.handleRefreshStage sha256 stage

def onControlCommand (c : ControlCommand) (k : Kademlia S) : Kademlia S × List Action :=
  match c with
  | .bootstrap boot reply => k.bootstrap sha256 now boot reply
  | .addNode p addrs =>
    let r := k.addNode sha256 now p addrs
    (r.1, r.2.map .call)
  | .removeNode p =>
    let r := k.removeNode sha256 p
    (r.1, r.2.map .call)
  | .lookup key reply => (k, k.getClosestPeers sha256 key (.lookup reply))
  | .findPeer p reply => (k, k.findPeer sha256 ps p reply)
  | .findProviders key count reply => (k, k.findProviders sha256 ps key count reply)
  | .providing key reply => k.startProviding sha256 now key reply
  | .unprovide key => (k.stopProviding key, [])
  | .putValue key value reply => k.putRecord sha256 now key value reply
  | .getValue key reply => (k, k.getRecord sha256 key reply)
  | .notAddressPeer reply =>
    (k, [.reply reply (.ids ((k.kbuckets.entries.map (fun n => n.key.preimage)).filter
      (fun p => (ps.getAddrs p).isNone)))])
  | .closestByBucket key reply =>
    (k, [.reply reply (.ids ((k.kbuckets.closest (Key.new sha256 key)).map
      (fun e => e.node.key.preimage)))])

inductive Input where
  | event (e : ProtocolEvent)
  | command (c : ControlCommand)

def handle (i : Input) (k : Kademlia S) : Kademlia S × List Action :=
  match i with
  | .event e => k.onEvents sha256 ps now e
  | .command c => k.onControlCommand sha256 ps now c

/-! ## What most turns do -/

/-- A property of the store that every operation preserves. -/
structure StoreInvariant (S : Type) [RecordStore S] (P : S → Prop) : Prop where
  put : ∀ s r, P s → P (RecordStore.put s r).1
  gcRecords : ∀ s now ttl, P s → P (RecordStore.gcRecords s now ttl)
  addProvider : ∀ s r, P s → P (RecordStore.addProvider s r).1
  removeProvider : ∀ s key p, P s → P (RecordStore.removeProvider s key p)
  gcProviders : ∀ s now ttl, P s → P (RecordStore.gcProviders s now ttl)

def Input.isPlain : Input → Bool
  | .event (.peerIdentified _) | .event (.kadPeerFound _ _) | .event (.kadPeerStopped _) => false
  | .event (.addressChanged _) | .event (.refresh _) => false
  | .command (.bootstrap _ _) | .command (.addNode _ _) | .command (.removeNode _) => false
  | _ => true

/-- What is done at such an input; only commands are answered and start queries. -/
def Input.Allows : Input → Action → Prop
  | _, .call (.addAddrs _ _ _) | _, .respond _ _ | _, .healthCheck _ => True
  | .command _, .reply _ _ => True
  | .command _, .query _ callback => ∀ reply, callback ≠ .refresh reply
  | _, _ => False

/-- A turn that works on the store alone. -/
structure Plain (i : Input) (k : Kademlia S) (r : Kademlia S × List Action) : Prop where
  kbuckets : r.1.kbuckets = k.kbuckets
  refreshing : r.1.refreshing = k.refreshing
  store : ∀ {P : S → Prop}, StoreInvariant S P → P k.store → P r.1.store
  actions : ∀ a ∈ r.2, i.Allows a

theorem handleKadRequest_plain (request : KadRequestMsg) (source : PeerId) (reply : ReplyId)
    (k : Kademlia S) : Plain (.event (.kadRequest request source reply)) k
      (k.handleKadRequest sha256 ps now request source reply) := by
  cases request with
  | addProvider key provider =>
    simp only [handleKadRequest, handleAddProvider]
    split
    · exact ⟨rfl, rfl, fun _ h => h, by simp [Input.Allows]⟩
    split
    · exact ⟨rfl, rfl, fun hP h => hP.addProvider _ _ h, by simp [Input.Allows]⟩
    · exact ⟨rfl, rfl, fun _ h => h, by simp [Input.Allows]⟩
  | putValue record =>
    simp only [handleKadRequest, handlePutRecord]
    split
    · exact ⟨rfl, rfl, fun _ h => h, by simp [Input.Allows]⟩
    split
    all_goals
      next heq =>
      exact ⟨rfl, rfl, fun hP h => (heq ▸ hP.put _ record h :), by simp [Input.Allows]⟩
  | _ => exact ⟨rfl, rfl, fun _ h => h, by simp [handleKadRequest, Input.Allows]⟩

theorem handle_plain {i : Input} (hi : i.isPlain = true) (k : Kademlia S) :
    Plain i k (k.handle sha256 ps now i) := by
  cases i with
  | event e =>
    cases e with
    | kadRequest request source reply =>
      exact handleKadRequest_plain sha256 ps now request source reply k
    | gcTimer =>
      exact ⟨rfl, rfl, fun hP h => hP.gcProviders _ _ _ (hP.gcRecords _ _ _ h),
        by simp [handle, onEvents]⟩
    | refreshTimer =>
      exact ⟨rfl, rfl, fun _ h => h, by simp [handle, onEvents, handleRefreshTimer, Input.Allows]⟩
    | peerConnected p | peerDisconnected p =>
      exact ⟨rfl, rfl, fun _ h => h, by simp [handle, onEvents]⟩
    | _ => cases hi
  | command c =>
    cases c with
    | bootstrap _ _ | addNode _ _ | removeNode _ => cases hi
    | findPeer p reply =>
      simp only [handle, onControlCommand, findPeer]
      split <;> exact ⟨rfl, rfl, fun _ h => h, by simp [Input.Allows]⟩
    | findProviders key count reply =>
      simp only [handle, onControlCommand, findProviders]
      split <;> exact ⟨rfl, rfl, fun _ h => h, by simp [Input.Allows]⟩
    | getValue key reply =>
      simp only [handle, onControlCommand, getRecord]
      cases RecordStore.get k.store key <;> dsimp only <;> split <;>
        exact ⟨rfl, rfl, fun _ h => h, by simp [Input.Allows]⟩
    | providing key reply =>
      simp only [handle, onControlCommand, startProviding]
      split
      all_goals
        next heq =>
        exact ⟨rfl, rfl, fun hP h => (heq ▸ hP.addProvider _ _ h :),
          by simp [getClosestPeers, Input.Allows]⟩
    | putValue key value reply =>
      simp only [handle, onControlCommand, putRecord]
      split
      all_goals
        next heq =>
        exact ⟨rfl, rfl, fun hP h => (heq ▸ hP.put _ _ h :),
          by simp [getClosestPeers, Input.Allows]⟩
    | unprovide key =>
      exact ⟨rfl, rfl, fun hP h => hP.removeProvider _ _ _ h, by simp [handle, onControlCommand]⟩
    | _ =>
      exact ⟨rfl, rfl, fun _ h => h,
        by simp [handle, onControlCommand, getClosestPeers, Input.Allows]⟩

/-! ## What a turn does to the routing table -/

def routingEvents (i : Input) (k : Kademlia S) : List RoutingEvent :=
  match i with
  | .event (.peerIdentified p) =>
    match ps.firstSupportedProtocol p [k.protocolName] with
    | some _ => [.add now p false false]
    | none => []
  | .event (.kadPeerFound p queried) => [.add now p queried false]
  | .event (.kadPeerStopped p) => [.remove p false]
  | .command (.bootstrap boot _) => boot.map (fun b => .add now b.1 false true)
  | .command (.addNode p _) => [.add now p false true]
  | .command (.removeNode p) => [.remove p true]
  | _ => []

def pinCalls (cs : List StoreCall) : List StoreCall :=
  cs.filter (fun
    | .pin _ => true
    | .unpin _ => true
    | _ => false)

@[simp] theorem pinCalls_append (as bs : List StoreCall) :
    pinCalls (as ++ bs) = pinCalls as ++ pinCalls bs := List.filter_append _ _

theorem pinCalls_of_outcome {t t' : RoutingTable} {e : RoutingEvent} {calls : List StoreCall}
    (h : Outcome sha256 t t' e calls) : pinCalls calls = calls := by
  cases h <;> rfl

omit [RecordStore S] in
theorem addNodes_routing (boot : List (PeerId × Multiaddr)) {k : Kademlia S}
    (hwf : k.kbuckets.WF) :
    let es := boot.map (fun b => RoutingEvent.add now b.1 false true)
    (k.addNodes sha256 now boot).1 = (routingRun sha256 k es).1 ∧
      pinCalls (k.addNodes sha256 now boot).2 = (routingRun sha256 k es).2 := by
  -- the two folds agree from any common state, with the calls made so far in front
  suffices h : ∀ (cs ds : List StoreCall) {k : Kademlia S}, k.kbuckets.WF → pinCalls cs = ds →
      (boot.foldl (fun acc b => ((acc.1.addNode sha256 now b.1 [b.2]).1,
          acc.2 ++ (acc.1.addNode sha256 now b.1 [b.2]).2)) (k, cs)).1 =
        ((boot.map (fun b => RoutingEvent.add now b.1 false true)).foldl (fun acc e =>
          ((routingStep sha256 acc.1 e).1, acc.2 ++ (routingStep sha256 acc.1 e).2)) (k, ds)).1 ∧
      pinCalls (boot.foldl (fun acc b => ((acc.1.addNode sha256 now b.1 [b.2]).1,
          acc.2 ++ (acc.1.addNode sha256 now b.1 [b.2]).2)) (k, cs)).2 =
        ((boot.map (fun b => RoutingEvent.add now b.1 false true)).foldl (fun acc e =>
          ((routingStep sha256 acc.1 e).1, acc.2 ++ (routingStep sha256 acc.1 e).2)) (k, ds)).2 from
    h [] [] hwf rfl
  induction boot with
  | nil => exact fun cs ds k _ h => ⟨rfl, h⟩
  | cons b boot ih =>
    intro cs ds k hwf h
    obtain ⟨t, calls, heq, hwf', -, hout⟩ := tryAddPeer_spec sha256 now b.1 false true hwf
    simp only [List.foldl_cons, List.map_cons, addNode, routingStep, heq]
    refine ih _ _ hwf' ?_
    rw [pinCalls_append, h, pinCalls, List.filter_cons_of_neg (by simp)]
    exact congrArg _ (pinCalls_of_outcome sha256 hout)

def Quiet (k : Kademlia S) (r : Kademlia S × List Action) : Prop :=
  r.1.kbuckets = k.kbuckets ∧ pinCalls (storeCalls r.2) = []

omit [RecordStore S] in
theorem handleRefreshStage_quiet (stage : RefreshStage) (k : Kademlia S) :
    Quiet k (k.handleRefreshStage sha256 stage) := by
  cases stage with
  | start reply =>
    have hrefused : pinCalls (storeCalls
        (reply.toList.map (fun r => Action.reply r (.done (.error .bootstrap))))) = [] := by
      cases reply <;> rfl
    simp only [handleRefreshStage]
    split
    · exact ⟨rfl, hrefused⟩
    split
    · exact ⟨rfl, hrefused⟩
    · exact ⟨rfl, rfl⟩
  | selfQueryDone reply | completed => exact ⟨rfl, rfl⟩

theorem Plain.quiet {i : Input} {k : Kademlia S} {r : Kademlia S × List Action}
    (h : Plain i k r) : Quiet k r := by
  refine ⟨h.kbuckets, List.filter_eq_nil_iff.mpr fun c hc => ?_⟩
  obtain ⟨a, ha, hac⟩ := List.mem_filterMap.mp hc
  have hallowed := h.actions a ha
  cases a with
  | call c' =>
    cases hac
    cases c with
    | addAddrs p addrs ttl => simp
    | _ => cases i <;> exact hallowed.elim
  | _ => cases hac

/-- A turn changes the routing table exactly as its routing table events do, and pins and unpins
exactly the peers that they do. -/
theorem handle_routing (i : Input) {k : Kademlia S} (hwf : k.kbuckets.WF) :
    let r := routingRun sha256 k (k.routingEvents ps now i)
    (k.handle sha256 ps now i).1.kbuckets = r.1.kbuckets ∧
      pinCalls (storeCalls (k.handle sha256 ps now i).2) = r.2 := by
  have hone : ∀ e : RoutingEvent, routingRun sha256 k [e] = routingStep sha256 k e := fun e => rfl
  have hpins : ∀ e : RoutingEvent,
      pinCalls (routingStep sha256 k e).2 = (routingStep sha256 k e).2 := by
    intro e
    obtain ⟨t, calls, heq, -, -, hout⟩ := routingStep_spec sha256 e hwf
    rw [heq]
    exact pinCalls_of_outcome sha256 hout
  cases i with
  | event e =>
    cases e with
    | peerIdentified p =>
      simp only [handle, onEvents, handlePeerIdentified, routingEvents]
      cases ps.firstSupportedProtocol p [k.protocolName] with
      | none => exact ⟨rfl, rfl⟩
      | some proto =>
        rw [hone, storeCalls_map_call]
        exact ⟨rfl, hpins (.add now p false false)⟩
    | kadPeerFound p queried =>
      simp only [handle, onEvents, routingEvents]
      rw [hone, storeCalls_map_call]
      exact ⟨rfl, hpins (.add now p queried false)⟩
    | kadPeerStopped p =>
      simp only [handle, onEvents, routingEvents]
      rw [hone, storeCalls_map_call]
      exact ⟨rfl, hpins (.remove p false)⟩
    | addressChanged addrs =>
      exact handleRefreshStage_quiet sha256 (.start none) { k with localAddrs := addrs }
    | refresh stage => exact handleRefreshStage_quiet sha256 stage k
    | _ => exact (handle_plain sha256 ps now rfl k).quiet
  | command c =>
    cases c with
    | bootstrap boot reply =>
      simp only [handle, onControlCommand, bootstrap, routingEvents]
      rw [storeCalls_append, storeCalls_map_call]
      obtain ⟨hk, hcalls⟩ := addNodes_routing sha256 now boot hwf
      refine ⟨congrArg _ hk, ?_⟩
      rw [pinCalls_append, hcalls]
      exact List.append_nil _
    | addNode p addrs =>
      simp only [handle, onControlCommand, addNode, routingEvents]
      rw [hone, storeCalls_map_call]
      exact ⟨rfl, hpins (.add now p false true)⟩
    | removeNode p =>
      simp only [handle, onControlCommand, removeNode, routingEvents]
      rw [hone, storeCalls_map_call]
      exact ⟨rfl, hpins (.remove p true)⟩
    | _ => exact (handle_plain sha256 ps now rfl k).quiet

/-! ## Runs of the main loop -/

/-- A turn of the main loop: what is handled, when, and what the peer store holds. -/
structure Turn where
  now : Instant
  ps : PeerStore
  input : Input

def turn (k : Kademlia S) (t : Turn) : Kademlia S := (k.handle sha256 t.ps t.now t.input).1

/-- What holds of the routing table in every run: it is well formed, the local key is that of
the local peer, and every stored key is the key of its preimage. -/
structure Sound (id : PeerId) (t : RoutingTable) : Prop where
  wf : t.WF
  localKey : t.localKey = Key.ofPeerId sha256 id
  keys : ∀ m ∈ KBucketsTable.members t, m.1 = Key.ofPeerId sha256 m.1.preimage

theorem keys_of_outcome (h : Outcome sha256 t t' e calls)
    (hkeys : ∀ m ∈ KBucketsTable.members t, m.1 = Key.ofPeerId sha256 m.1.preimage) :
    ∀ m ∈ KBucketsTable.members t', m.1 = Key.ofPeerId sha256 m.1.preimage := by
  intro m hm
  cases h with
  | same h => exact hkeys m ((h m).mp hm)
  | added hnew h =>
    rcases (h m).mp hm with hm | rfl
    · exact hkeys m hm
    · rfl
  | replaced c hc hperm hnew h =>
    rcases (h m).mp hm with ⟨hm, -⟩ | rfl
    · exact hkeys m hm
    · rfl
  | removed h => exact hkeys m ((h m).mp hm).1

theorem handle_sound (i : Input) {id : PeerId} {k : Kademlia S} (h : Sound sha256 id k.kbuckets) :
    Sound sha256 id (k.handle sha256 ps now i).1.kbuckets := by
  obtain ⟨hwf, hrest⟩ := routingRun_invariant sha256
    (I := fun k _ => k.kbuckets.localKey = Key.ofPeerId sha256 id ∧
      ∀ m ∈ KBucketsTable.members k.kbuckets, m.1 = Key.ofPeerId sha256 m.1.preimage)
    (k.routingEvents ps now i)
    (fun k calls t new e _ h hout _ hlocal => ⟨hlocal.trans h.1, keys_of_outcome sha256 hout h.2⟩)
    h.wf ⟨h.localKey, h.keys⟩
  rw [(handle_routing sha256 ps now i h.wf).1]
  exact ⟨hwf, hrest.1, hrest.2⟩

omit [RecordStore S] in
theorem sound_withConfig (id : PeerId) (store : S) (config : KademliaConfig) :
    Sound sha256 id (withConfig sha256 id store config).kbuckets where
  wf := KBucketsTable.wf_new _
  localKey := rfl
  keys := by
    intro m hm
    obtain ⟨i, n, hn, -⟩ := KBucketsTable.mem_members.mp hm
    cases hn

theorem run_sound (id : PeerId) (store : S) (config : KademliaConfig) (ts : List Turn) :
    Sound sha256 id (run (turn sha256) (withConfig sha256 id store config) ts).kbuckets :=
  invariant_run (I := fun k : Kademlia S => Sound sha256 id k.kbuckets)
    (fun _ t h => handle_sound sha256 t.ps t.now t.input h)
    (sound_withConfig sha256 id store config) ts

/-! ## What the routing table events leave alone -/

def TableOnly (k k' : Kademlia S) : Prop := ∃ t, k' = { k with kbuckets := t }

omit [RecordStore S]

theorem tryAddPeer_tableOnly (peer : PeerId) (queried permanent : Bool) (k : Kademlia S) :
    TableOnly k (k.tryAddPeer sha256 now peer queried permanent).1 := by
  simp only [tryAddPeer]
  split
  · split
    · exact ⟨_, rfl⟩
    · exact ⟨k.kbuckets, rfl⟩
  · split
    · exact ⟨_, rfl⟩
    · split
      · exact ⟨_, rfl⟩
      · exact ⟨k.kbuckets, rfl⟩
  · exact ⟨k.kbuckets, rfl⟩

theorem tryRemovePeer_tableOnly (peer : PeerId) (forced : Bool) (k : Kademlia S) :
    TableOnly k (k.tryRemovePeer sha256 peer forced).2.1 := by
  simp only [tryRemovePeer]
  split
  · split <;> exact ⟨_, rfl⟩
  · exact ⟨k.kbuckets, rfl⟩
  · exact ⟨k.kbuckets, rfl⟩

theorem addNodes_tableOnly (boot : List (PeerId × Multiaddr)) (k : Kademlia S) :
    TableOnly k (k.addNodes sha256 now boot).1 := by
  suffices h : ∀ (cs : List StoreCall) (k' : Kademlia S), TableOnly k k' →
      TableOnly k (boot.foldl (fun acc b =>
        let r := acc.1.addNode sha256 now b.1 [b.2]
        (r.1, acc.2 ++ r.2)) (k', cs)).1 from h [] k ⟨k.kbuckets, rfl⟩
  induction boot with
  | nil => exact fun _ _ h => h
  | cons b boot ih =>
    rintro cs _ ⟨t, rfl⟩
    obtain ⟨t', ht'⟩ := tryAddPeer_tableOnly sha256 now b.1 false true { k with kbuckets := t }
    exact ih _ _ ⟨t', ht'⟩

end Kademlia

end Libp2pRs.Kad
