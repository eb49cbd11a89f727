import Libp2pRs.Kad.Behaviour
import Libp2pRs.Kad.ProviderStore

/-!
# The providers that a query collects

A `GetProviders` query starts from the local providers and adds those of every reply. Duplicates
are removed when a list of providers is there already; the first list is taken over as it is. So
the collected providers are distinct, and the query stops at the first update after which enough
of them are known, exactly as long as the list that is taken over has no repetition.
-/

namespace Libp2pRs.Kad

open Lib Libp2pRs.Core List

namespace Kademlia

variable {S : Type} [RecordStore S] (sha256 : List UInt8 → KeyBytes)

variable {P : S → Prop}

omit [RecordStore S] in
theorem TableOnly.store {k k' : Kademlia S} (h : TableOnly k k') : k'.store = k.store := by
  obtain ⟨t, rfl⟩ := h
  rfl

omit [RecordStore S] in
theorem store_handleRefreshStage (stage : RefreshStage) (k : Kademlia S) :
    (k.handleRefreshStage sha256 stage).1.store = k.store := by
  cases stage with
  | start reply =>
    simp only [handleRefreshStage]
    split
    · rfl
    · split <;> rfl
  | selfQueryDone reply | completed => rfl

theorem handle_store (hP : StoreInvariant S P) (ps : PeerStore) (now : Instant) (i : Input)
    {k : Kademlia S} (hk : P k.store) : P (k.handle sha256 ps now i).1.store := by
  have htable : ∀ {k' : Kademlia S}, TableOnly k k' → P k'.store := fun h => h.store ▸ hk
  cases i with
  | event e =>
    cases e with
    | peerIdentified p =>
      simp only [handle, onEvents, handlePeerIdentified]
      split
      · exact htable (tryAddPeer_tableOnly sha256 now p false false k)
      · exact hk
    | kadPeerFound p queried => exact htable (tryAddPeer_tableOnly sha256 now p queried false k)
    | kadPeerStopped p => exact htable (tryRemovePeer_tableOnly sha256 p false k)
    | addressChanged addrs =>
      have hsame := store_handleRefreshStage sha256 (.start none) { k with localAddrs := addrs }
      exact (hsame ▸ hk :)
    | refresh stage => exact (store_handleRefreshStage sha256 stage k ▸ hk :)
    | _ => exact (handle_plain sha256 ps now rfl k).store hP hk
  | command c =>
    cases c with
    | bootstrap boot reply => exact htable (addNodes_tableOnly sha256 now boot k)
    | addNode p addrs => exact htable (tryAddPeer_tableOnly sha256 now p false true k)
    | removeNode p => exact htable (tryRemovePeer_tableOnly sha256 p true k)
    | _ => exact (handle_plain sha256 ps now rfl k).store hP hk

theorem oneEach_invariant :
    StoreInvariant (MemoryStore sha256) MemoryStore.OneEach where
  put _ r h := h.put r
  gcRecords _ now ttl h := h.gcRecords now ttl
  addProvider _ r h := h.addProvider r
  removeProvider _ key p h := h.removeProvider key p
  gcProviders _ now ttl h := h.gcProviders now ttl

theorem run_oneEach (id : PeerId) (storeConfig : MemoryStoreConfig) (config : KademliaConfig)
    (turns : List Turn) :
    MemoryStore.OneEach (run (turn sha256)
      (withConfig sha256 id (MemoryStore.withConfig storeConfig : MemoryStore sha256) config)
      turns).store :=
  invariant_run (I := fun k : Kademlia (MemoryStore sha256) => MemoryStore.OneEach k.store)
    (fun _ t h => handle_store sha256 (oneEach_invariant sha256) t.ps t.now t.input h)
    (MemoryStore.oneEach_withConfig storeConfig) turns

theorem limited_invariant (config : MemoryStoreConfig) :
    StoreInvariant (MemoryStore sha256) (MemoryStore.Limited config) where
  put _ r h := h.put r
  gcRecords _ _ _ h := foldlRecOn _ _ h fun _ hs r _ => hs.remove r.key
  addProvider _ r h := h.addProvider r
  removeProvider _ key p h := h.removeProvider key p
  gcProviders _ _ _ h := foldlRecOn _ _ h fun _ hs r _ => hs.removeProvider r.key r.provider

/-- Whatever is asked of a node, its store keeps to its limits. -/
theorem run_limited (id : PeerId) (storeConfig : MemoryStoreConfig) (config : KademliaConfig)
    (turns : List Turn) :
    MemoryStore.Limited storeConfig (run (turn sha256)
      (withConfig sha256 id (MemoryStore.withConfig storeConfig : MemoryStore sha256) config)
      turns).store :=
  invariant_run
    (I := fun k : Kademlia (MemoryStore sha256) => MemoryStore.Limited storeConfig k.store)
    (fun _ t h => handle_store sha256 (limited_invariant sha256 storeConfig) t.ps t.now t.input h)
    ⟨rfl, Nat.zero_le _, by simp [withConfig, MemoryStore.withConfig],
      by simp [withConfig, MemoryStore.withConfig, RecordStore.providers],
      MemoryStore.oneEach_withConfig storeConfig⟩ turns

theorem nodup_providerPeers {k : Kademlia (MemoryStore sha256)} (hk : MemoryStore.OneEach k.store)
    (ps : PeerStore) (key : RecordKey) :
    ((k.providerPeers ps key none).map KadPeer.nodeId).Nodup := by
  have hids : ∀ records : List ProviderRecord, (records.filterMap (fun p =>
      if (none : Option PeerId) ≠ some p.provider then
        let addrs :=
          if p.provider = k.kbuckets.localKey.preimage then some k.localAddrs
          else ps.getAddrs p.provider
        some (⟨p.provider, addrs.getD [], k.connectionTy p.provider⟩ : KadPeer)
      else none)).map KadPeer.nodeId = records.map (·.provider) := by
    intro records
    simp
  rw [providerPeers, map_take, hids]
  exact (hk key).sublist (take_sublist _ _)

end Kademlia

def QueryUpdate.providers : QueryUpdate → List KadPeer
  | queried _ _ provider _ => provider.getD []
  | unreachable _ => []

namespace IterativeQuery

variable {sha256 : List UInt8 → KeyBytes} {q : IterativeQuery} {count : Nat}
  {found : List KadPeer}

/-- The ids of the providers that are known after some updates: the local and the reported ones. -/
def knownProviders (found : List KadPeer) (updates : List QueryUpdate) : List PeerId :=
  (found ++ updates.flatMap QueryUpdate.providers).map KadPeer.nodeId

def Enough (count : Nat) (found : List KadPeer) (updates : List QueryUpdate) : Prop :=
  count ≠ 0 ∧ count ≤ (knownProviders found updates).toFinset.card

instance (count : Nat) (found : List KadPeer) (updates : List QueryUpdate) :
    Decidable (Enough count found updates) :=
  inferInstanceAs (Decidable (_ ∧ _))

/-- The providers are collected as they should be: without repetition, all that are known, and
the loop is left as completed with the first update after which enough of them are known. -/
structure ProvidersCollected (count : Nat) (found : List KadPeer) (s : QueryRun) : Prop where
  nodup : ((s.results.providers.getD []).map KadPeer.nodeId).Nodup
  complete : ∀ p, p ∈ (s.results.providers.getD []).map KadPeer.nodeId ↔
    p ∈ knownProviders found s.consumed
  ended : s.status = .ended .completed ↔ Enough count found s.consumed
  first : ∀ updates, updates <+: s.consumed → updates ≠ s.consumed → ¬ Enough count found updates

/-- The list of providers that the loop takes over, when it has none, has no repetition. -/
def FirstListDistinct (s : QueryRun) : Event → Prop
  | .next => s.status = .waiting → s.results.providers = none →
      ∀ u ∈ s.channel.head?, (u.providers.map KadPeer.nodeId).Nodup
  | _ => True

instance (s : QueryRun) : (e : Event) → Decidable (FirstListDistinct s e)
  | .next => inferInstanceAs (Decidable (_ → _ → ∀ u ∈ s.channel.head?, _))
  | .report _ _ => .isTrue trivial
  | .deadline => .isTrue trivial

/-! ### Merging the providers of a reply -/

theorem knownProviders_concat (found : List KadPeer) (updates : List QueryUpdate)
    (u : QueryUpdate) : knownProviders found (updates ++ [u]) =
      knownProviders found updates ++ u.providers.map KadPeer.nodeId := by
  simp [knownProviders]

theorem ids_mergeProviders (old provider : List KadPeer) :
    (mergeProviders (some old) provider).map KadPeer.nodeId =
      (((old ++ provider).map KadPeer.nodeId).insertionSort (· ≤ ·)).dedup := by
  have hsorted : (((old ++ provider).map KadPeer.nodeId).insertionSort (· ≤ ·)).Pairwise
      (· ≤ ·) := pairwise_insertionSort _ _
  have hsort : ((old ++ provider).insertionSort (fun a b => a.nodeId ≤ b.nodeId)).map
      KadPeer.nodeId = ((old ++ provider).map KadPeer.nodeId).insertionSort (· ≤ ·) :=
    map_insertionSort _ _ KadPeer.nodeId _ (fun _ _ _ _ => Iff.rfl)
  calc (mergeProviders (some old) provider).map KadPeer.nodeId
      = (((old ++ provider).insertionSort (fun a b => a.nodeId ≤ b.nodeId)).map
          KadPeer.nodeId).destutter (· ≠ ·) := map_destutter (fun _ _ _ _ => Iff.rfl)
    _ = (((old ++ provider).map KadPeer.nodeId).insertionSort (· ≤ ·)).destutter (· ≠ ·) := by
          rw [hsort]
    _ = (((old ++ provider).map KadPeer.nodeId).insertionSort (· ≤ ·)).dedup :=
          hsorted.destutter_eq_dedup

theorem mem_ids_mergeProviders (old : Option (List KadPeer)) (provider : List KadPeer)
    (p : PeerId) : p ∈ (mergeProviders old provider).map KadPeer.nodeId ↔
      p ∈ (old.getD []).map KadPeer.nodeId ++ provider.map KadPeer.nodeId := by
  cases old with
  | none => rfl
  | some old =>
    rw [ids_mergeProviders, mem_dedup, mem_insertionSort, map_append]
    rfl

theorem nodup_mergeProviders_iff (old : Option (List KadPeer)) (provider : List KadPeer) :
    ((mergeProviders old provider).map KadPeer.nodeId).Nodup ↔
      (old = none → (provider.map KadPeer.nodeId).Nodup) := by
  cases old with
  | none => simp [mergeProviders]
  | some old =>
    rw [ids_mergeProviders]
    simp [nodup_dedup]

theorem card_known_of_nodup {ids known : List PeerId} (hnodup : ids.Nodup)
    (hmem : ∀ p, p ∈ ids ↔ p ∈ known) : known.toFinset.card = ids.length := by
  rw [← toFinset_card_of_nodup hnodup]
  congr 1
  ext p
  simp [hmem p]

/-! ### One update -/

/-- What a `GetProviders` query makes of an update: an update without providers leaves the result
as it is, and one with providers is merged and counted. -/
theorem handleUpdate_providers (sha256 : List UInt8 → KeyBytes) {found : Option (List KadPeer)}
    (hq : q.queryType = .getProviders count found) (u : QueryUpdate) (results : QueryResult)
    (closest : ClosestPeers) :
    ∃ h, q.handleUpdate sha256 u results closest = some h ∧
      (u.providers = [] ∧ h.completed = false ∧ h.results.providers = results.providers ∨
        u.providers ≠ [] ∧
        h.results.providers = some (mergeProviders results.providers u.providers) ∧
        (h.completed = true ↔ count ≠ 0 ∧
          count ≤ (mergeProviders results.providers u.providers).length)) := by
  cases u with
  | unreachable p => exact ⟨_, rfl, Or.inl ⟨rfl, rfl, rfl⟩⟩
  | queried source closer provider record =>
    simp only [handleUpdate, handleReply, hq]
    cases provider with
    | none => exact ⟨_, rfl, Or.inl ⟨rfl, rfl, rfl⟩⟩
    | some provider =>
      cases provider with
      | nil => exact ⟨_, rfl, Or.inl ⟨rfl, rfl, rfl⟩⟩
      | cons p provider =>
        refine ⟨_, rfl, Or.inr ⟨by simp [QueryUpdate.providers], rfl, ?_⟩⟩
        simp [QueryUpdate.providers]

theorem round_of_handled {u : QueryUpdate} {s : QueryRun} {h : Handled}
    (heq : q.handleUpdate sha256 u s.results s.closest = some h) (hs : s.status = .waiting) :
    (q.round sha256 u s).results.providers = h.results.providers ∧
      (q.round sha256 u s).consumed = s.consumed ++ [u] ∧
      ((q.round sha256 u s).status = .ended .completed ↔ h.completed = true) := by
  have hfinish : ∀ (e : Ending) (s : QueryRun),
      (q.finish e s).results.providers = s.results.providers := by
    intro e s
    simp only [finish]
    split <;> rfl
  rw [round, heq]
  dsimp only
  split
  · next hc => exact ⟨hfinish _ _, rfl, by simp [finish, hc]⟩
  · next hc =>
    split
    · exact ⟨hfinish _ _, rfl, by simp [finish, hc]⟩
    · split
      · exact ⟨hfinish _ _, rfl, by simp [finish, hc]⟩
      · split
        · exact ⟨rfl, rfl, by simp [hc]⟩
        · exact ⟨rfl, rfl, by simp [spawn, absorb, hs, hc]⟩

theorem ProvidersCollected.of_eq (h : ProvidersCollected count found s)
    (hproviders : s'.results.providers = s.results.providers) (hconsumed : s'.consumed = s.consumed)
    (hstatus : s'.status = .ended .completed ↔ s.status = .ended .completed) :
    ProvidersCollected count found s' := by
  refine ⟨?_, ?_, ?_, ?_⟩
  · rw [hproviders]
    exact h.nodup
  · rw [hproviders, hconsumed]
    exact h.complete
  · rw [hconsumed, hstatus]
    exact h.ended
  · rw [hconsumed]
    exact h.first

theorem ProvidersCollected.not_enough_before {s : QueryRun} (h : ProvidersCollected count found s)
    (hs : s.status = .waiting) (u : QueryUpdate) :
    ∀ updates, updates <+: s.consumed ++ [u] → updates ≠ s.consumed ++ [u] →
      ¬ Enough count found updates := by
  intro updates hpre hne
  have hpre' : updates <+: s.consumed := (List.prefix_concat_iff.mp hpre).resolve_left hne
  by_cases heq : updates = s.consumed
  · rw [heq, ← h.ended, hs]
    nofun
  · exact h.first updates hpre' heq

/-- A round keeps the providers in order exactly if it merges, or takes over a list without
repetition. -/
theorem ProvidersCollected.round_iff {found' : Option (List KadPeer)}
    (hq : q.queryType = .getProviders count found') {s : QueryRun}
    (h : ProvidersCollected count found s) (hs : s.status = .waiting) (u : QueryUpdate) :
    ProvidersCollected count found (q.round sha256 u s) ↔
      (s.results.providers = none → (u.providers.map KadPeer.nodeId).Nodup) := by
  obtain ⟨hd, heq, hcase⟩ := handleUpdate_providers sha256 hq u s.results s.closest
  obtain ⟨hproviders, hconsumed, hstatus⟩ := round_of_handled heq hs
  rcases hcase with ⟨hnone, hcompleted, hsame⟩ | ⟨hsome, hmerged, hcompleted⟩
  · -- nothing reported: nothing changes, and there are not more providers than before
    have hknown : knownProviders found (s.consumed ++ [u]) = knownProviders found s.consumed := by
      simp [knownProviders_concat, hnone]
    have hnot : ¬ Enough count found (s.consumed ++ [u]) := by
      rw [Enough, hknown, ← Enough, ← h.ended, hs]
      nofun
    refine iff_of_true ⟨?_, ?_, ?_, ?_⟩ (by simp [hnone])
    · rw [hproviders, hsame]
      exact h.nodup
    · rw [hproviders, hsame, hconsumed, hknown]
      exact h.complete
    · rw [hstatus, hcompleted, hconsumed]
      simp [hnot]
    · rw [hconsumed]
      exact h.not_enough_before hs u
  · rw [hmerged] at hproviders
    rw [← nodup_mergeProviders_iff s.results.providers u.providers]
    constructor
    · intro h'
      have hnodup := h'.nodup
      rwa [hproviders] at hnodup
    · intro hnodup
      have hmem : ∀ p, p ∈ (mergeProviders s.results.providers u.providers).map KadPeer.nodeId ↔
          p ∈ knownProviders found (s.consumed ++ [u]) := by
        intro p
        rw [mem_ids_mergeProviders, knownProviders_concat, mem_append, mem_append,
          h.complete p]
      have hcard := card_known_of_nodup hnodup hmem
      rw [length_map] at hcard
      refine ⟨?_, ?_, ?_, ?_⟩
      · rw [hproviders]
        exact hnodup
      · rw [hproviders, hconsumed]
        exact hmem
      · rw [hstatus, hcompleted, hconsumed, Enough, hcard]
      · rw [hconsumed]
        exact h.not_enough_before hs u

theorem ProvidersCollected.step_iff {found' : Option (List KadPeer)}
    (hq : q.queryType = .getProviders count found') (s : QueryRun) (e : Event)
    (h : ProvidersCollected count found s) :
    ProvidersCollected count found (q.step sha256 s e) ↔ FirstListDistinct s e := by
  cases e with
  | report p reply =>
    refine iff_of_true ?_ trivial
    simp only [step]
    split
    · exact h.of_eq rfl rfl Iff.rfl
    · exact h
  | deadline =>
    refine iff_of_true ?_ trivial
    simp only [step]
    split
    · next hs => exact h.of_eq rfl rfl (by simp [hs])
    · exact h
  | next =>
    simp only [step, FirstListDistinct]
    split
    · next u rest hs hchannel =>
      have hpop : ProvidersCollected count found { s with channel := rest } :=
        h.of_eq rfl rfl Iff.rfl
      rw [hpop.round_iff hq hs u, hs, hchannel]
      simp
    · next hno =>
      refine iff_of_true h ?_
      intro hs _ u hu
      cases hchannel : s.channel with
      | nil =>
        rw [hchannel] at hu
        cases hu
      | cons u' rest => exact absurd hchannel (hno u' rest hs)

/-! ### The queries of `find_providers` -/

theorem query_of_findProviders {S : Type} [RecordStore S] {k : Kademlia S} {ps : PeerStore}
    {key : RecordKey} {reply : ReplyId} {callback : QueryCallback}
    (hq : .query q callback ∈ k.findProviders sha256 ps key count reply) :
    ∃ found', q.queryType = .getProviders count found' ∧
      found'.getD [] = k.providerPeers ps key none ∧
      ¬ (count ≠ 0 ∧ count ≤ (k.providerPeers ps key none).length) := by
  simp only [Kademlia.findProviders] at hq
  split at hq
  · simp at hq
  · next hfew =>
    rw [mem_singleton] at hq
    obtain ⟨rfl, -⟩ := Action.query.inj hq
    refine ⟨_, rfl, ?_, hfew⟩
    split
    · next hempty => exact (isEmpty_iff.mp hempty).symm
    · rfl

theorem start_collected {found' : Option (List KadPeer)}
    (hq : q.queryType = .getProviders count found')
    (hdistinct : ((found'.getD []).map KadPeer.nodeId).Nodup)
    (hfew : ¬ (count ≠ 0 ∧ count ≤ (found'.getD []).length))
    {getAddrs : PeerId → Option (List Multiaddr)} {s : QueryRun}
    (hstart : q.start sha256 getAddrs = .ok s) :
    ProvidersCollected count (found'.getD []) s := by
  unfold start at hstart
  split at hstart
  · cases hstart
  · cases hstart
    have hproviders : q.initialResults.providers = found' := by
      simp [initialResults, hq]
    have hnot : ¬ Enough count (found'.getD []) [] := by
      have hcard : (knownProviders (found'.getD []) []).toFinset.card = (found'.getD []).length := by
        simpa [knownProviders] using toFinset_card_of_nodup hdistinct
      rw [Enough, hcard]
      exact hfew
    refine ⟨?_, ?_, ?_, ?_⟩
    · rw [hproviders]
      exact hdistinct
    · simp [hproviders, knownProviders]
    · simp [hnot]
    · intro updates hpre hne
      exact absurd (List.prefix_nil.mp hpre) hne

/-- The runs of a query of `find_providers`, made by a node whose store is in memory after any run
of its main loop. The providers are collected without repetition, completely, and up to the first
update after which enough are known, in every state of the run, exactly if the first list of
providers that the query takes over has no repetition. -/
theorem providers_collected_iff (id : PeerId) (storeConfig : MemoryStoreConfig)
    (config : KademliaConfig) (turns : List Kademlia.Turn) (ps : PeerStore) (key : RecordKey)
    (count : Nat) (reply : ReplyId) (callback : QueryCallback) (q : IterativeQuery)
    (getAddrs : PeerId → Option (List Multiaddr)) (s₀ : QueryRun) (events : List Event) :
    let k := run (Kademlia.turn sha256) (Kademlia.withConfig sha256 id
      (MemoryStore.withConfig storeConfig : MemoryStore sha256) config) turns
    .query q callback ∈ k.findProviders sha256 ps key count reply →
    q.start sha256 getAddrs = .ok s₀ →
    (Always (q.step sha256) (ProvidersCollected count (k.providerPeers ps key none)) s₀ events ↔
      EachStep (q.step sha256) FirstListDistinct s₀ events) := by
  intro k hquery hstart
  obtain ⟨found', hq, hfound, hfew⟩ := query_of_findProviders hquery
  have hdistinct := Kademlia.nodup_providerPeers sha256
    (Kademlia.run_oneEach sha256 id storeConfig config turns) ps key
  have hinit := start_collected hq (hfound ▸ hdistinct) (hfound ▸ hfew) hstart
  rw [hfound] at hinit
  exact always_iff_eachStep (fun s e h => h.step_iff hq s e) hinit

def sampleNode : Kademlia (MemoryStore sampleSha256) :=
  run (Kademlia.turn sampleSha256) (Kademlia.withConfig sampleSha256 (PeerId.ofByte 0)
    (MemoryStore.withConfig {}) {}) [⟨0, .empty, .command (.addNode (PeerId.ofByte 4) [])⟩]

def sampleProviderQuery : IterativeQuery where
  queryType := .getProviders 2 none
  key := []
  localId := PeerId.ofByte 0
  config := {}
  seeds := [Key.ofPeerId sampleSha256 (PeerId.ofByte 4)]

theorem sampleNode_closestKeys : sampleNode.kbuckets.closestKeys (Key.new sampleSha256 []) =
    [Key.ofPeerId sampleSha256 (PeerId.ofByte 4)] := by
  -- the walk of the iterator as a list that evaluates
  rw [KBucketsTable.closestKeys, KBucketsTable.closestIter_collect, KBucketsTable.walk,
    ClosestBucketsIter.collect_new]
  decide +kernel

theorem sampleProviderQuery_found : .query sampleProviderQuery (.findProviders 0) ∈
    sampleNode.findProviders sampleSha256 .empty [] 2 0 := by
  have hnone : sampleNode.providerPeers .empty [] none = [] := by decide +kernel
  have hseeds : sampleProviderQuery.seeds =
      (sampleNode.kbuckets.closestKeys (Key.new sampleSha256 [])).take
        sampleNode.queryConfig.kValue := by
    rw [sampleNode_closestKeys]
    rfl
  have hquery : sampleProviderQuery =
      sampleNode.prepareIterativeQuery sampleSha256 (.getProviders 2 none) [] := by
    rw [Kademlia.prepareIterativeQuery, ← hseeds]
    rfl
  rw [hquery, Kademlia.findProviders, hnone]
  exact mem_singleton.mpr rfl

def sampleProviderStart : QueryRun where
  closest := .new sampleSha256 []
  results := sampleProviderQuery.initialResults
  jobs := []
  channel := [sampleProviderQuery.seedUpdate (fun _ => none)]
  requested := []
  consumed := []
  effects := []
  status := .waiting

/-- The peer `4` is asked and answers with these providers. -/
def sampleProviderReply (providers : List UInt8) : List Event :=
  [.next, .report (PeerId.ofByte 4)
    (some ⟨[], providers.map (fun n => ⟨PeerId.ofByte n, [], .connected⟩), none⟩), .next]

/-- Two distinct providers complete the query. -/
theorem sampleProviderReply_collected :
    (run (sampleProviderQuery.step sampleSha256) sampleProviderStart
      (sampleProviderReply [7, 8])).status = .ended .completed ∧
    Always (sampleProviderQuery.step sampleSha256)
      (ProvidersCollected 2 (sampleNode.providerPeers .empty [] none)) sampleProviderStart
      (sampleProviderReply [7, 8]) := by
  refine ⟨by decide +kernel, ?_⟩
  exact (providers_collected_iff (PeerId.ofByte 0) {} {} _ .empty [] 2 0 (.findProviders 0)
    sampleProviderQuery (fun _ => none) sampleProviderStart (sampleProviderReply [7, 8])
    sampleProviderQuery_found rfl).mpr (by decide +kernel)

/-- One provider that is named twice completes the query for two. -/
theorem repeatedProvider_completes :
    let s := run (sampleProviderQuery.step sampleSha256) sampleProviderStart
      (sampleProviderReply [7, 7])
    (.query sampleProviderQuery (.findProviders 0) ∈
      sampleNode.findProviders sampleSha256 .empty [] 2 0) ∧
    sampleProviderQuery.start sampleSha256 (fun _ => none) = .ok sampleProviderStart ∧
    s.status = .ended .completed ∧
    (s.results.providers.getD []).map KadPeer.nodeId = [PeerId.ofByte 7, PeerId.ofByte 7] ∧
    ¬ Enough 2 (sampleNode.providerPeers .empty [] none) s.consumed ∧
    ¬ ProvidersCollected 2 (sampleNode.providerPeers .empty [] none) s := by
  refine ⟨sampleProviderQuery_found, rfl, by decide +kernel, by decide +kernel,
    by decide +kernel, ?_⟩
  intro h
  exact absurd h.nodup (by decide +kernel)

end IterativeQuery

end Libp2pRs.Kad
