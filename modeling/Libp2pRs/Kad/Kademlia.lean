import Libp2pRs.Kad.Closest
import Libp2pRs.Kad.Protocol

/-!
# The routing table of Kademlia

`tryAddPeer`, `tryRemovePeer` and `tryDeactivatePeer` are the only functions that change the
routing table. They also pin and unpin peers in the peer store of the swarm, which other tasks
use at the same time; so they return these calls, in order, next to the new state.

A stored peer is a `Member`: its key and whether it is permanent. `routingStep_spec` lists what
the functions can do to the set of members and which calls go with it, and everything that is
proved about runs of Kademlia rests on it.
-/

namespace Libp2pRs.Kad

open Lib Libp2pRs.Core KBucket

structure PeerInfo where
  aliveness : Option Instant
  addedAt : Instant
  permanent : Bool
  deriving DecidableEq, Repr

namespace PeerInfo

def new (now : Instant) (aliveness permanent : Bool) : PeerInfo :=
  ⟨if aliveness then some now else none, now, permanent⟩

def setAliveness (aliveness : Option Instant) (info : PeerInfo) : PeerInfo :=
  { info with aliveness := aliveness }

@[simp] theorem setAliveness_permanent (aliveness : Option Instant) (info : PeerInfo) :
    (setAliveness aliveness info).permanent = info.permanent := rfl

/-- The aliveness in the order of `Option<Instant>`, where `None` is the least. -/
def alivenessOrd (info : PeerInfo) : WithBot Instant := info.aliveness.elim ⊥ WithBot.some

end PeerInfo

abbrev RtNode := Node (Key PeerId) PeerInfo

abbrev RoutingTable := KBucketsTable (Key PeerId) PeerInfo

structure KademliaConfig where
  queryConfig : QueryConfig := {}
  protocolName : String := "/ipfs/kad/1.0.0"
  recordTtl : Duration := Duration.fromSecs (36 * 60 * 60)
  providerTtl : Duration := Duration.fromSecs (24 * 60 * 60)
  checkKadPeerInterval : Duration := Duration.fromSecs (10 * 60)

/-- The state of Kademlia after `start`, which has given it the swarm. -/
structure Kademlia (S : Type) where
  kbuckets : RoutingTable
  protocolName : String
  refreshing : Bool
  queryConfig : QueryConfig
  totalRefreshes : Nat
  connectedPeers : Finset PeerId
  recordTtl : Duration
  providerTtl : Duration
  checkKadPeerInterval : Duration
  localAddrs : List Multiaddr
  store : S

namespace Kademlia

variable {S : Type} (sha256 : List UInt8 → KeyBytes)

def withConfig (id : PeerId) (store : S) (config : KademliaConfig) : Kademlia S where
  kbuckets := KBucketsTable.new (Key.ofPeerId sha256 id)
  protocolName := config.protocolName
  refreshing := false
  queryConfig := config.queryConfig
  totalRefreshes := 0
  connectedPeers := ∅
  recordTtl := config.recordTtl
  providerTtl := config.providerTtl
  checkKadPeerInterval := config.checkKadPeerInterval
  localAddrs := []
  store := store

/-- Whether a node may give way to a new one: it is not permanent and has not been alive for
longer than `timeout`. -/
def isReplaceable (now : Instant) (timeout : Duration) (n : RtNode) : Bool :=
  !n.value.permanent && n.value.aliveness.elim true (fun a => timeout < Instant.durationSince now a)

/-- The node that a full bucket gives up: the first replaceable one with the oldest aliveness. -/
def candidate (now : Instant) (timeout : Duration) (b : KBucket (Key PeerId) PeerInfo) :
    Option RtNode :=
  (b.nodes.filter (isReplaceable now timeout)).argmin (fun n => n.value.alivenessOrd)

def tryAddPeer (now : Instant) (peer : PeerId) (queried permanent : Bool) (k : Kademlia S) :
    Kademlia S × List StoreCall :=
  let key := Key.ofPeerId sha256 peer
  match k.kbuckets.entry key with
  | .present e =>
    -- already in the table: only the aliveness is updated
    if queried then
      ({ k with kbuckets := e.update (PeerInfo.setAliveness (some now)) k.kbuckets }, [])
    else (k, [])
  | .absent e =>
    let info := PeerInfo.new now queried permanent
    match e.insert info k.kbuckets with
    | (true, t) => ({ k with kbuckets := t }, [.pin peer])
    | (false, _) =>
      let bucket := k.kbuckets.buckets e.bucket
      match candidate now k.checkKadPeerInterval bucket with
      | some c =>
        let freed := k.kbuckets.setBucket e.bucket (bucket.remove c.key).2
        ({ k with kbuckets := (e.insert info freed).2 }, [.unpin c.key.preimage, .pin peer])
      | none => (k, [])
  | .selfEntry => (k, [])

/-- Tries to remove a peer from the routing table. Unless it is forced, this only takes away its
aliveness. -/
def tryRemovePeer (peer : PeerId) (forced : Bool) (k : Kademlia S) :
    Option (EntryView (Key PeerId) PeerInfo) × Kademlia S × List StoreCall :=
  match k.kbuckets.entry (Key.ofPeerId sha256 peer) with
  | .present e =>
    if forced then
      let r := e.remove k.kbuckets
      (r.1, { k with kbuckets := r.2 }, [.unpin peer])
    else
      (none, { k with kbuckets := e.update (PeerInfo.setAliveness none) k.kbuckets }, [])
  | .absent _ => (none, k, [])
  | .selfEntry => (none, k, [])

def tryDeactivatePeer (peer : PeerId) (k : Kademlia S) : Kademlia S :=
  match k.kbuckets.entry (Key.ofPeerId sha256 peer) with
  | .present e => { k with kbuckets := e.update (PeerInfo.setAliveness none) k.kbuckets }
  | .absent _ => k
  | .selfEntry => k

/-! ## The members of the table -/

abbrev Member := Key PeerId × Bool

def member (n : RtNode) : Member := (n.key, n.value.permanent)

end Kademlia

variable {b : KBucket (Key PeerId) PeerInfo}

namespace KBucketsTable

open Kademlia

def members (t : RoutingTable) : List Member := t.entries.map member

variable {t : RoutingTable}

variable {m : Member}

theorem mem_members : m ∈ members t ↔ ∃ i, ∃ n ∈ (t.buckets i).nodes, member n = m := by
  simp only [members, List.mem_map, mem_entries]
  constructor
  · rintro ⟨n, ⟨i, hn⟩, hm⟩
    exact ⟨i, n, hn, hm⟩
  · rintro ⟨i, n, hn, hm⟩
    exact ⟨n, ⟨i, hn⟩, hm⟩

variable {i : BucketIndex}

theorem mem_members_setBucket : m ∈ members (t.setBucket i b) ↔
      (∃ n ∈ b.nodes, member n = m) ∨ ∃ j ≠ i, ∃ n ∈ (t.buckets j).nodes, member n = m := by
  rw [mem_members]
  constructor
  · rintro ⟨j, n, hn, hm⟩
    by_cases hj : j = i
    · subst hj
      rw [setBucket_self] at hn
      exact .inl ⟨n, hn, hm⟩
    · rw [setBucket_of_ne t b hj] at hn
      exact .inr ⟨j, hj, n, hn, hm⟩
  · rintro (⟨n, hn, hm⟩ | ⟨j, hj, n, hn, hm⟩)
    · exact ⟨i, n, by rwa [setBucket_self], hm⟩
    · exact ⟨j, n, by rwa [setBucket_of_ne t b hj], hm⟩

theorem mem_members_rewrite (keep : Member → Prop) (new : Member → Prop)
    (hkeep : ∀ j ≠ i, ∀ n ∈ (t.buckets j).nodes, keep (member n))
    (hb : (∃ n ∈ b.nodes, member n = m) ↔
      (∃ n ∈ (t.buckets i).nodes, member n = m ∧ keep m) ∨ new m) :
    m ∈ members (t.setBucket i b) ↔ (m ∈ members t ∧ keep m) ∨ new m := by
  rw [mem_members_setBucket, hb, mem_members]
  constructor
  · rintro ((⟨n, hn, hm, hk⟩ | h) | ⟨j, hj, n, hn, hm⟩)
    · exact .inl ⟨⟨i, n, hn, hm⟩, hk⟩
    · exact .inr h
    · exact .inl ⟨⟨j, n, hn, hm⟩, hm ▸ hkeep j hj n hn⟩
  · rintro (⟨⟨j, n, hn, hm⟩, hk⟩ | h)
    · by_cases hj : j = i
      · subst hj
        exact .inl (.inl ⟨n, hn, hm, hk⟩)
      · exact .inr ⟨j, hj, n, hn, hm⟩
    · exact .inl (.inr h)

theorem WF.members_update (h : t.WF) (e : EntryRef (Key PeerId)) (f : PeerInfo → PeerInfo)
    (hf : ∀ info, (f info).permanent = info.permanent) :
    m ∈ members (e.update f t) ↔ m ∈ members t := by
  have hmember : ∀ n : RtNode,
      member (if hasKey e.key n then { n with value := f n.value } else n) = member n := by
    intro n
    split <;> simp [member, hf]
  unfold EntryRef.update
  rw [mem_members_rewrite (fun _ => True) (fun _ => False)]
  · simp
  · simp
  · rw [update_nodes (h e.bucket).unique]
    simp only [List.mem_map, and_true, or_false]
    constructor
    · rintro ⟨_, ⟨n, hn, rfl⟩, hm⟩
      exact ⟨n, hn, (hmember n).symm.trans hm⟩
    · rintro ⟨n, hn, hm⟩
      exact ⟨_, ⟨n, hn, rfl⟩, (hmember n).trans hm⟩

theorem WF.members_remove (h : t.WF) {key : Key PeerId} (hkey : asRef key ∈ (t.buckets i).keys) :
    m ∈ members (t.setBucket i ((t.buckets i).remove key).2) ↔
      m ∈ members t ∧ m.1.bytes ≠ key.bytes := by
  rw [mem_members_rewrite (fun m => m.1.bytes ≠ key.bytes) (fun _ => False)]
  · simp
  · intro j hj n hn hbytes
    have hmem : asRef key ∈ (t.buckets j).keys := mem_keys.mpr ⟨n, hn, hbytes⟩
    exact hj (h.bucket_unique hmem hkey)
  · simp only [mem_remove (h i).unique, or_false]
    constructor
    · rintro ⟨n, ⟨hn, hne⟩, rfl⟩
      exact ⟨n, hn, rfl, hne⟩
    · rintro ⟨n, hn, rfl, hne⟩
      exact ⟨n, ⟨hn, hne⟩, rfl⟩

theorem members_insert {e : EntryRef (Key PeerId)}
    (hfree : (t.buckets e.bucket).nodes.length ≠ kValue) :
    m ∈ members (e.insert info t).2 ↔ m ∈ members t ∨ m = (e.key, info.permanent) := by
  unfold EntryRef.insert
  rw [insert_of_not_full hfree]
  rw [mem_members_rewrite (fun _ => True) (fun m => m = (e.key, info.permanent))]
  · simp
  · simp
  · simp only [List.mem_append, List.mem_singleton, and_true]
    constructor
    · rintro ⟨n, hn | rfl, rfl⟩
      · exact .inl ⟨n, hn, rfl⟩
      · exact .inr rfl
    · rintro (⟨n, hn, rfl⟩ | rfl)
      · exact ⟨n, .inl hn, rfl⟩
      · exact ⟨_, .inr rfl, rfl⟩

theorem WF.member_unique (h : t.WF) (hm : m ∈ members t) (hm' : m' ∈ members t)
    (hbytes : m.1.bytes = m'.1.bytes) : m = m' := by
  obtain ⟨i, n, hn, rfl⟩ := mem_members.mp hm
  obtain ⟨j, n', hn', rfl⟩ := mem_members.mp hm'
  have hkey : asRef n.key ∈ (t.buckets j).keys := mem_keys.mpr ⟨n', hn', hbytes.symm⟩
  obtain rfl := h.bucket_unique (mem_keys.mpr ⟨n, hn, rfl⟩) hkey
  rw [List.inj_on_of_nodup_map (h i).unique hn hn' hbytes]

theorem not_mem_members_of_vacant {e : EntryRef (Key PeerId)} (h : t.WF) (he : t.Vacant e) :
    ∀ m ∈ members t, m.1.bytes ≠ e.key.bytes := by
  intro m hm hbytes
  obtain ⟨i, n, hn, rfl⟩ := mem_members.mp hm
  have hkey : asRef e.key ∈ (t.buckets i).keys := mem_keys.mpr ⟨n, hn, hbytes⟩
  have hi : i = e.bucket :=
    Fin.ext (Option.some.inj (((h i).index _ hkey).symm.trans he.1))
  exact he.2 (hi ▸ hkey)

end KBucketsTable

namespace Kademlia

open KBucketsTable

variable {S : Type} (sha256 : List UInt8 → KeyBytes)

def InTable (t : RoutingTable) (p : PeerId) : Prop := ∃ m ∈ members t, m.1.preimage = p

instance (t : RoutingTable) (p : PeerId) : Decidable (InTable t p) :=
  inferInstanceAs (Decidable (∃ m ∈ members t, m.1.preimage = p))

/-- A change of the routing table, at a given time. -/
inductive RoutingEvent where
  | add (now : Instant) (peer : PeerId) (queried permanent : Bool)
  | remove (peer : PeerId) (forced : Bool)
  | deactivate (peer : PeerId)

def routingStep (k : Kademlia S) : RoutingEvent → Kademlia S × List StoreCall
  | .add now peer queried permanent => k.tryAddPeer sha256 now peer queried permanent
  | .remove peer forced => (k.tryRemovePeer sha256 peer forced).2
  | .deactivate peer => (k.tryDeactivatePeer sha256 peer, [])

/-- What an event can do to the members of the table, and the calls that go with it. -/
inductive Outcome (t t' : RoutingTable) : RoutingEvent → List StoreCall → Prop where
  | same {e : RoutingEvent} (h : ∀ m, m ∈ members t' ↔ m ∈ members t) : Outcome t t' e []
  | added {now : Instant} {peer : PeerId} {queried permanent : Bool}
      (hnew : ∀ m ∈ members t, m.1.bytes ≠ (Key.ofPeerId sha256 peer).bytes)
      (h : ∀ m, m ∈ members t' ↔ m ∈ members t ∨ m = (Key.ofPeerId sha256 peer, permanent)) :
      Outcome t t' (.add now peer queried permanent) [.pin peer]
  | replaced {now : Instant} {peer : PeerId} {queried permanent : Bool} (c : Member)
      (hc : c ∈ members t) (hperm : c.2 = false)
      (hnew : ∀ m ∈ members t, m.1.bytes ≠ (Key.ofPeerId sha256 peer).bytes)
      (h : ∀ m, m ∈ members t' ↔
        (m ∈ members t ∧ m.1.bytes ≠ c.1.bytes) ∨ m = (Key.ofPeerId sha256 peer, permanent)) :
      Outcome t t' (.add now peer queried permanent) [.unpin c.1.preimage, .pin peer]
  | removed {peer : PeerId}
      (h : ∀ m, m ∈ members t' ↔
        m ∈ members t ∧ m.1.bytes ≠ (Key.ofPeerId sha256 peer).bytes) :
      Outcome t t' (.remove peer true) [.unpin peer]

theorem mem_of_candidate {now : Instant} {timeout : Duration} {c : RtNode}
    (h : candidate now timeout b = some c) : c ∈ b.nodes ∧ isReplaceable now timeout c = true :=
  List.mem_filter.mp (List.argmin_mem h)

section TryAddPeer

variable {sha256} {now : Instant} {peer : PeerId} {queried permanent : Bool} {k : Kademlia S}
  {e : EntryRef (Key PeerId)}

theorem tryAddPeer_of_free (he : k.kbuckets.entry (Key.ofPeerId sha256 peer) = .absent e)
    (hfree : (k.kbuckets.buckets e.bucket).nodes.length ≠ kValue) :
    tryAddPeer sha256 now peer queried permanent k =
      ({ k with kbuckets := (e.insert (PeerInfo.new now queried permanent) k.kbuckets).2 },
        [.pin peer]) := by
  simp only [tryAddPeer, he, EntryRef.insert, insert_of_not_full hfree]

theorem tryAddPeer_of_full (he : k.kbuckets.entry (Key.ofPeerId sha256 peer) = .absent e)
    (hfull : (k.kbuckets.buckets e.bucket).nodes.length = kValue) :
    tryAddPeer sha256 now peer queried permanent k =
      match candidate now k.checkKadPeerInterval (k.kbuckets.buckets e.bucket) with
      | some c =>
        ({ k with kbuckets := (e.insert (PeerInfo.new now queried permanent)
            (k.kbuckets.setBucket e.bucket ((k.kbuckets.buckets e.bucket).remove c.key).2)).2 },
          [.unpin c.key.preimage, .pin peer])
      | none => (k, []) := by
  have hins : e.insert (PeerInfo.new now queried permanent) k.kbuckets =
      (false, k.kbuckets.setBucket e.bucket (k.kbuckets.buckets e.bucket)) := by
    simp only [EntryRef.insert, insert_of_full hfull]
  simp only [tryAddPeer, he, hins]

theorem vacant_of_freed {t : RoutingTable} (hwf : t.WF) (hvac : t.Vacant e)
    (hc : c ∈ (t.buckets e.bucket).nodes) :
    (t.setBucket e.bucket ((t.buckets e.bucket).remove c.key).2).Vacant e ∧
      ((t.setBucket e.bucket ((t.buckets e.bucket).remove c.key).2).buckets
        e.bucket).nodes.length ≠ kValue := by
  refine ⟨⟨hvac.1, ?_⟩, ?_⟩
  · rw [setBucket_self, remove_keys (hwf e.bucket).unique]
    exact fun hmem => hvac.2 (List.mem_of_mem_filter hmem)
  · have hlt := remove_length_lt (hwf e.bucket).unique (mem_keys.mpr ⟨c, hc, rfl⟩)
    have hcap := (hwf e.bucket).capacity
    rw [setBucket_self]
    omega

theorem tryAddPeer_spec (sha256 : List UInt8 → KeyBytes) (now : Instant) (peer : PeerId)
    (queried permanent : Bool) (hwf : k.kbuckets.WF) :
    ∃ t calls, tryAddPeer sha256 now peer queried permanent k = ({ k with kbuckets := t }, calls) ∧
      t.WF ∧ t.localKey = k.kbuckets.localKey ∧
      Outcome sha256 k.kbuckets t (.add now peer queried permanent) calls := by
  have hnone : ∃ t calls, (k, ([] : List StoreCall)) = ({ k with kbuckets := t }, calls) ∧
      t.WF ∧ t.localKey = k.kbuckets.localKey ∧
      Outcome sha256 k.kbuckets t (.add now peer queried permanent) calls :=
    ⟨k.kbuckets, [], rfl, hwf, rfl, .same (fun _ => Iff.rfl)⟩
  cases he : k.kbuckets.entry (Key.ofPeerId sha256 peer) with
  | selfEntry => simpa only [tryAddPeer, he] using hnone
  | present e =>
    cases queried with
    | true =>
      refine ⟨e.update (PeerInfo.setAliveness (some now)) k.kbuckets, [], ?_, hwf.update e _, rfl,
        .same (fun _ => hwf.members_update e _ (PeerInfo.setAliveness_permanent _))⟩
      simp only [tryAddPeer, he, if_true]
    | false => simpa only [tryAddPeer, he, Bool.false_eq_true, if_false] using hnone
  | absent e =>
    obtain ⟨hvac, hkey⟩ := vacant_of_absent he
    have hnew := not_mem_members_of_vacant hwf hvac
    rw [hkey] at hnew
    by_cases hfull : (k.kbuckets.buckets e.bucket).nodes.length = kValue
    · rw [tryAddPeer_of_full he hfull]
      cases hc : candidate now k.checkKadPeerInterval (k.kbuckets.buckets e.bucket) with
      | none => exact hnone
      | some c =>
        obtain ⟨hcb, hrep⟩ := mem_of_candidate hc
        obtain ⟨hvac', hfree⟩ := vacant_of_freed hwf hvac hcb
        have hperm : c.value.permanent = false := by
          simp only [isReplaceable, Bool.and_eq_true, Bool.not_eq_eq_eq_not, Bool.not_true] at hrep
          exact hrep.1
        refine ⟨_, _, rfl, (hwf.setBucket ((hwf e.bucket).remove c.key)).insert hvac' _, rfl,
          .replaced (member c) (mem_members.mpr ⟨_, c, hcb, rfl⟩) hperm hnew ?_⟩
        intro m
        rw [members_insert hfree, hwf.members_remove (mem_keys.mpr ⟨c, hcb, rfl⟩), hkey]
        rfl
    · rw [tryAddPeer_of_free he hfull]
      refine ⟨_, _, rfl, hwf.insert hvac _, rfl, .added hnew ?_⟩
      intro m
      rw [members_insert hfull, hkey]
      rfl

end TryAddPeer

variable {k : Kademlia S}

theorem tryRemovePeer_spec (peer : PeerId) (forced : Bool) (hwf : k.kbuckets.WF) :
    ∃ t calls, (tryRemovePeer sha256 peer forced k).2 = ({ k with kbuckets := t }, calls) ∧
      t.WF ∧ t.localKey = k.kbuckets.localKey ∧
      Outcome sha256 k.kbuckets t (.remove peer forced) calls := by
  unfold tryRemovePeer
  rcases k.kbuckets.entry_cases (Key.ofPeerId sha256 peer) with
    ⟨i, he, -, hmem⟩ | ⟨i, he, -⟩ | ⟨he, -⟩
  · rw [he]
    cases forced with
    | true => exact ⟨_, _, rfl, hwf.remove _, rfl, .removed (fun m => hwf.members_remove hmem)⟩
    | false =>
      exact ⟨_, _, rfl, hwf.update _ _, rfl,
        .same (fun m => hwf.members_update _ _ (PeerInfo.setAliveness_permanent _))⟩
  · rw [he]
    exact ⟨k.kbuckets, [], rfl, hwf, rfl, .same (fun _ => Iff.rfl)⟩
  · rw [he]
    exact ⟨k.kbuckets, [], rfl, hwf, rfl, .same (fun _ => Iff.rfl)⟩

theorem tryDeactivatePeer_spec (peer : PeerId) (hwf : k.kbuckets.WF) :
    ∃ t, tryDeactivatePeer sha256 peer k = { k with kbuckets := t } ∧ t.WF ∧
      t.localKey = k.kbuckets.localKey ∧ ∀ m, m ∈ members t ↔ m ∈ members k.kbuckets := by
  unfold tryDeactivatePeer
  split
  · exact ⟨_, rfl, hwf.update _ _, rfl,
      fun m => hwf.members_update _ _ (PeerInfo.setAliveness_permanent _)⟩
  · exact ⟨k.kbuckets, rfl, hwf, rfl, fun _ => Iff.rfl⟩
  · exact ⟨k.kbuckets, rfl, hwf, rfl, fun _ => Iff.rfl⟩

theorem routingStep_spec (e : RoutingEvent) (hwf : k.kbuckets.WF) :
    ∃ t calls, routingStep sha256 k e = ({ k with kbuckets := t }, calls) ∧
      t.WF ∧ t.localKey = k.kbuckets.localKey ∧ Outcome sha256 k.kbuckets t e calls := by
  cases e with
  | add now peer queried permanent => exact tryAddPeer_spec sha256 now peer queried permanent hwf
  | remove peer forced => exact tryRemovePeer_spec sha256 peer forced hwf
  | deactivate peer =>
    obtain ⟨t, h, hwf', hlocal, hmem⟩ := tryDeactivatePeer_spec sha256 peer hwf
    exact ⟨t, [], by rw [routingStep, h], hwf', hlocal, .same hmem⟩

/-! ## Sequences of routing table events -/

def routingRun (k : Kademlia S) (es : List RoutingEvent) : Kademlia S × List StoreCall :=
  run (fun acc e => ((routingStep sha256 acc.1 e).1, acc.2 ++ (routingStep sha256 acc.1 e).2))
    (k, []) es

theorem routingRun_invariant {I : Kademlia S → List StoreCall → Prop} (es : List RoutingEvent)
    (hstep : ∀ k calls t new, ∀ e ∈ es, I k calls → Outcome sha256 k.kbuckets t e new →
      k.kbuckets.WF → t.localKey = k.kbuckets.localKey → I { k with kbuckets := t }
    (calls ++ new)) (hwf : k.kbuckets.WF) (h : I k []) :
    let r := routingRun sha256 k es
    r.1.kbuckets.WF ∧ I r.1 r.2 := by
  refine invariant_run_of (I := fun acc : Kademlia S × List StoreCall =>
    acc.1.kbuckets.WF ∧ I acc.1 acc.2) (E := (· ∈ es)) ?_ ⟨hwf, h⟩ (fun _ he => he)
  rintro ⟨k, calls⟩ e he ⟨hwf, h⟩
  obtain ⟨t, new, heq, hwf', hlocal, hout⟩ := routingStep_spec sha256 e hwf
  simp only [heq]
  exact ⟨hwf', hstep k calls t new e he h hout hwf hlocal⟩

/-- In every table that routing table events build, each entry lies in the bucket of its
distance, no bucket exceeds its capacity, no two entries share a key, and the local key is not
stored. -/
theorem routing_table_sound (id : PeerId) (store : S) (config : KademliaConfig)
    (es : List RoutingEvent) :
    let t := (routingRun sha256 (withConfig sha256 id store config) es).1.kbuckets
    t.localKey = Key.ofPeerId sha256 id ∧
    (∀ i, ∀ n ∈ (t.buckets i).nodes, (t.localKey.bytes.distance n.key).ilog2 = some i.val) ∧
    (∀ i, (t.buckets i).nodes.length ≤ kValue) ∧
    (t.entries.map (fun n => n.key.bytes)).Nodup ∧
    (∀ n ∈ t.entries, n.key.bytes ≠ t.localKey.bytes) := by
  intro t
  obtain ⟨hwf, hlocal⟩ : t.WF ∧ t.localKey = Key.ofPeerId sha256 id :=
    routingRun_invariant sha256 (I := fun k _ => k.kbuckets.localKey = Key.ofPeerId sha256 id) es
      (fun k calls t new e _ h _ _ hlocal => hlocal.trans h) (wf_new _) rfl
  refine ⟨hlocal, ?_, fun i => (hwf i).capacity, hwf.entryKeys_nodup, ?_⟩
  · intro i n hn
    exact (hwf i).index _ (mem_keys.mpr ⟨n, hn, rfl⟩)
  · intro n hn hself
    obtain ⟨i, hi⟩ := mem_entries.mp hn
    exact hwf.localKey_not_mem i (mem_keys.mpr ⟨n, hi, hself⟩)

end Kademlia

end Libp2pRs.Kad
