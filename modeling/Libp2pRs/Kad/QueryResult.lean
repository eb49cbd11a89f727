import Libp2pRs.Kad.QueryInvariant

/-!
# What an iterative query returns

As long as no two of the peers involved collide under SHA-256, the map of the query holds
exactly the peers that were reported in the updates handled so far, and a peer is `Succeeded`
only if its answer has been handled. The result is a prefix of that map, so it is the list of
the closest reported peers that are not unreachable (`query_result`).
-/

namespace Libp2pRs.Kad

open Lib Libp2pRs.Core List SortedMap

def QueryUpdate.reported : QueryUpdate → List PeerId
  | queried _ closer _ _ => closer.map KadPeer.nodeId
  | unreachable _ => []

def QueryUpdate.answer : QueryUpdate → Option PeerId
  | queried source _ _ _ => some source
  | unreachable _ => none

variable {p : PeerId}

namespace ClosestPeers

variable {sha256 : List UInt8 → KeyBytes} {cp : ClosestPeers} {P : Set PeerId}

def Knows (cp : ClosestPeers) (p : PeerId) : Prop := cp.Has (fun _ => True) p

theorem distance_injOn (hP : Set.InjOn (fun p : PeerId => sha256 p.toBytes) P)
    (cp : ClosestPeers) : Set.InjOn (cp.distance sha256) P := by
  intro p hp r hr h
  apply hP hp hr
  simp only [distance, Key.new, RecordKey.ofPeerId] at h
  have hcomm : ∀ b : KeyBytes, b.distance cp.target = cp.target.bytes.distance b := fun b =>
    KeyBytes.distance_comm b cp.target.bytes
  rw [hcomm, hcomm] at h
  exact KeyBytes.distance_left_injective _ h

theorem knows_addPeer (h : cp.Filed sha256) (hP : Set.InjOn (cp.distance sha256) P)
    (hknown : ∀ p, cp.Knows p → p ∈ P) (hpeer : peer.nodeId ∈ P) :
    (cp.addPeer sha256 peer).Knows p ↔ cp.Knows p ∨ p = peer.nodeId := by
  constructor
  · rintro ⟨e, he, rfl, -⟩
    rcases mem_addPeer.mp he with he | ⟨rfl, -⟩
    · exact .inl ⟨e, he, rfl, trivial⟩
    · exact .inr rfl
  · rintro (⟨e, he, rfl, -⟩ | rfl)
    · exact ⟨e, mem_addPeer.mpr (.inl he), rfl, trivial⟩
    · by_cases hkey : cp.distance sha256 peer.nodeId ∈ cp.closestPeers.keys
      · -- the entry at this distance belongs to the same peer
        obtain ⟨e, he, hdist⟩ := mem_map.mp hkey
        have hid : e.2.peer.nodeId = peer.nodeId :=
          hP (hknown _ ⟨e, he, rfl, trivial⟩) hpeer ((h e he).symm.trans hdist)
        exact ⟨e, mem_addPeer.mpr (.inl he), hid, trivial⟩
      · exact ⟨_, mem_addPeer.mpr (.inr ⟨rfl, hkey⟩), rfl, trivial⟩

theorem knows_addPeers (h : cp.Filed sha256) (hP : Set.InjOn (fun p : PeerId => sha256 p.toBytes) P)
    (hknown : ∀ p, cp.Knows p → p ∈ P) (hpeers : ∀ k ∈ peers, k.nodeId ∈ P) :
    (cp.addPeers sha256 peers).Knows p ↔ cp.Knows p ∨ p ∈ peers.map KadPeer.nodeId := by
  unfold addPeers
  induction peers generalizing cp with
  | nil => simp
  | cons a peers ih =>
    have hadd := fun r => knows_addPeer h (distance_injOn hP cp) hknown
      (hpeers a mem_cons_self) (p := r)
    rw [foldl_cons, ih (h.addPeer a), hadd, map_cons, mem_cons, or_assoc]
    · intro r hr
      rcases (hadd r).mp hr with hr | rfl
      · exact hknown r hr
      · exact hpeers a mem_cons_self
    · exact fun k hk => hpeers k (mem_cons_of_mem a hk)

theorem knows_setPeerState : (cp.setPeerState sha256 r state).Knows p ↔ cp.Knows p := by
  constructor
  · rintro ⟨e, he, rfl, -⟩
    rcases mem_setPeerState.mp he with ⟨he, -⟩ | ⟨pw, hpw, -, heq⟩
    · exact ⟨e, he, rfl, trivial⟩
    · exact ⟨_, hpw, by rw [heq], trivial⟩
  · exact fun h => has_setPeerState h r trivial

theorem knows_setPeersInState :
    (cp.setPeersInState .notContacted n .waiting).Knows p ↔ cp.Knows p := by
  constructor
  · rintro ⟨e, he, rfl, -⟩
    rcases mem_setPeersInState.mp he with ⟨he, -⟩ | ⟨pw, hpw, heq⟩
    · exact ⟨e, he, rfl, trivial⟩
    · exact ⟨_, (mem_first hpw).1, by rw [heq], trivial⟩
  · rintro ⟨e, he, rfl, -⟩
    by_cases hfirst : e ∈ cp.closestPeers.first (fun p => p.state = .notContacted) n
    · exact ⟨(e.1, { e.2 with state := .waiting }),
        mem_setPeersInState.mpr (.inr ⟨e.2, hfirst, rfl⟩), rfl, trivial⟩
    · exact ⟨e, mem_setPeersInState.mpr (.inl ⟨he, hfirst⟩), rfl, trivial⟩

theorem Filed.getPeerState (h : cp.Filed sha256) (he : e ∈ cp.closestPeers.entries) :
    cp.getPeerState sha256 e.2.peer.nodeId = some e.2.state := by
  have hget : cp.closestPeers.get (cp.distance sha256 e.2.peer.nodeId) = some e.2 := by
    rw [← h e he]
    exact get_eq_some_iff.mpr he
  simp [ClosestPeers.getPeerState, hget]

/-- The entries that a query returns: all but the unreachable ones. -/
def wanted (cp : ClosestPeers) : List PeerWithState :=
  cp.closestPeers.values.filter
    (fun p => p.state ∈ [PeerState.notContacted, PeerState.waiting, PeerState.succeeded])

theorem mem_wanted : pw ∈ cp.wanted ↔ pw ∈ cp.closestPeers.values ∧ pw.state ≠ .unreachable := by
  rw [wanted, mem_filter]
  refine and_congr_right fun _ => ?_
  cases pw.state <;> simp

theorem Filed.wanted_sorted (h : cp.Filed sha256) :
    (cp.wanted.map (fun pw => pw.peer.nodeId)).Pairwise
      (fun p r => cp.distance sha256 p < cp.distance sha256 r) := by
  rw [wanted, values, filter_map, map_map, pairwise_map]
  refine (cp.closestPeers.sorted.filter _).imp_of_mem ?_
  intro e f he hf hlt
  simp only [Function.comp_apply]
  rw [← h e (mem_of_mem_filter he), ← h f (mem_of_mem_filter hf)]
  exact hlt

theorem Filed.mem_wanted_peers (h : cp.Filed sha256) :
    p ∈ cp.wanted.map (fun pw => pw.peer.nodeId) ↔
      cp.Knows p ∧ cp.getPeerState sha256 p ≠ some .unreachable := by
  simp only [mem_map, mem_wanted, SortedMap.mem_values]
  constructor
  · rintro ⟨pw, ⟨⟨d, hd⟩, hstate⟩, rfl⟩
    refine ⟨⟨_, hd, rfl, trivial⟩, ?_⟩
    rw [h.getPeerState hd]
    exact fun heq => hstate (Option.some.inj heq)
  · rintro ⟨⟨e, he, rfl, -⟩, hstate⟩
    rw [h.getPeerState he] at hstate
    exact ⟨e.2, ⟨⟨e.1, he⟩, fun heq => hstate (congrArg some heq)⟩, rfl⟩

theorem succeeded_of_canTerminate (h : cp.canTerminate beta = true) :
    ∀ pw ∈ cp.wanted.take beta, pw.state = .succeeded := by
  intro pw hpw
  have hsame : cp.wanted = cp.closestPeers.values.filter (fun p =>
      p.state = .notContacted ∨ p.state = .waiting ∨ p.state = .succeeded) := by
    simp [wanted]
  rw [hsame] at hpw
  simpa using all_eq_true.mp h pw hpw

theorem succeeded_of_isStarved (h : cp.isStarved = true) : ∀ pw ∈ cp.wanted, pw.state = .succeeded := by
  intro pw hpw
  have hnil : cp.closestPeers.values.filter
      (fun p => p.state ∈ [PeerState.notContacted, PeerState.waiting]) = [] :=
    length_eq_zero_iff.mp (of_decide_eq_true h)
  obtain ⟨hval, hstate⟩ := mem_wanted.mp hpw
  cases hpw : pw.state <;> simp_all

end ClosestPeers

namespace IterativeQuery

open ClosestPeers

variable {sha256 : List UInt8 → KeyBytes} {q : IterativeQuery} {P : Set PeerId}

def reported (s : QueryRun) : List PeerId := s.consumed.flatMap QueryUpdate.reported

def answered (s : QueryRun) : List PeerId := s.consumed.filterMap QueryUpdate.answer

def Event.peers : Event → List PeerId
  | report _ (some r) => r.closer.map KadPeer.nodeId
  | _ => []

def involved (q : IterativeQuery) (es : List Event) : List PeerId :=
  q.localId :: (q.seeds.map Key.preimage ++ es.flatMap Event.peers)

variable {u : QueryUpdate}

theorem jobUpdate_peers (h : q.jobUpdate p reply = some u) :
    u.source = p ∧ ∀ r ∈ u.reported, r ∈ (Event.report p reply).peers := by
  unfold jobUpdate at h
  cases reply with
  | none =>
    obtain rfl := Option.some.inj h
    exact ⟨rfl, by simp [QueryUpdate.reported]⟩
  | some r =>
    dsimp only at h
    split at h <;> first
      | (obtain rfl := Option.some.inj h; exact ⟨rfl, fun _ hr => hr⟩)
      | cases h

theorem handleReply_results
    (heq : q.handleReply source provider record results cp effects = some h) :
    h.results.closestPeers = results.closestPeers := by
  unfold handleReply at heq
  split at heq
  · exact Option.some.inj heq ▸ rfl
  · split at heq <;> exact Option.some.inj heq ▸ rfl
  · split at heq
    · exact Option.some.inj heq ▸ rfl
    · split at heq <;> exact Option.some.inj heq ▸ rfl
  · split at heq
    · exact Option.some.inj heq ▸ rfl
    · dsimp only at heq
      split at heq <;> exact Option.some.inj heq ▸ rfl
  · cases heq
  · cases heq

theorem handleUpdate_results (heq : q.handleUpdate sha256 u results cp = some h) :
    h.results.closestPeers = results.closestPeers := by
  cases u with
  | queried source closer provider record => exact handleReply_results heq
  | unreachable p => exact Option.some.inj heq ▸ rfl

/-! ## One update -/

section Merged

variable {cp : ClosestPeers} {u : QueryUpdate}

theorem knows_merged (h : cp.Filed sha256) (hP : Set.InjOn (fun p : PeerId => sha256 p.toBytes) P)
    (hknown : ∀ p, cp.Knows p → p ∈ P) (hu : ∀ p ∈ u.reported, p ∈ P) :
    (q.merged sha256 u cp).Knows p ↔ cp.Knows p ∨ (p ∈ u.reported ∧ p ≠ q.localId) := by
  cases u with
  | unreachable r =>
    simp only [merged, QueryUpdate.reported, not_mem_nil, false_and, or_false]
    exact knows_setPeerState
  | queried source closer provider record =>
    simp only [merged, QueryUpdate.reported] at hu ⊢
    rw [knows_setPeerState, knows_addPeers h hP hknown]
    · refine or_congr_right ?_
      simp only [mem_map, mem_filter, decide_eq_true_eq]
      constructor
      · rintro ⟨k, ⟨hk, hne⟩, rfl⟩
        exact ⟨⟨k, hk, rfl⟩, hne⟩
      · rintro ⟨⟨k, hk, rfl⟩, hne⟩
        exact ⟨k, ⟨hk, hne⟩, rfl⟩
    · intro k hk
      exact hu _ (mem_map_of_mem (mem_of_mem_filter hk))

theorem succeeded_merged (h : (q.merged sha256 u cp).Filed sha256)
    (hP : Set.InjOn (fun p : PeerId => sha256 p.toBytes) P)
    (hknown : ∀ p, (q.merged sha256 u cp).Knows p → p ∈ P) (hsource : u.source ∈ P)
    (he : e ∈ (q.merged sha256 u cp).closestPeers.entries)
    (hstate : e.2.state = .succeeded) : (∃ f ∈ cp.closestPeers.entries,
      f.2.state = .succeeded ∧ f.2.peer.nodeId = e.2.peer.nodeId) ∨
      u.answer = some e.2.peer.nodeId := by
  have hid := h e he
  have hmem := hknown _ ⟨e, he, rfl, trivial⟩
  cases u with
  | unreachable p =>
    rcases mem_setPeerState.mp he with ⟨he, -⟩ | ⟨pw, -, -, heq⟩
    · exact .inl ⟨e, he, hstate, rfl⟩
    · rw [heq] at hstate
      cases hstate
  | queried source closer provider record =>
    rcases mem_setPeerState.mp he with ⟨he', -⟩ | ⟨pw, -, hdist, -⟩
    · rcases mem_addPeers he' with he' | ⟨hnot, -⟩
      · exact .inl ⟨e, he', hstate, rfl⟩
      · rw [hstate] at hnot
        cases hnot
    · right
      rw [hid] at hdist
      exact congrArg some (distance_injOn hP _ hmem hsource hdist).symm

end Merged

/-! ## Runs -/

/-- How the result relates to the map when the loop has ended. -/
structure ResultOf (q : IterativeQuery) (e : Ending) (s : QueryRun) : Prop where
  peers : s.results.closestPeers.getD [] =
    (s.closest.wanted.take q.config.kValue).map PeerWithState.peer
  starved : e = .starved → s.closest.isStarved = true
  terminated : e = .terminated → s.closest.canTerminate q.config.betaValue = true

/-- What a run knows about the peers that it has heard of. -/
structure Track (q : IterativeQuery) (P : Set PeerId) (s : QueryRun) : Prop where
  jobs : ∀ p ∈ s.jobs, p ∈ P
  channel : ∀ u ∈ s.channel, u.source ∈ P ∧ ∀ p ∈ u.reported, p ∈ P
  known : ∀ p, s.closest.Knows p ↔ p ∈ reported s ∧ p ≠ q.localId
  inP : ∀ p ∈ reported s, p ∈ P
  succeeded : ∀ e ∈ s.closest.closestPeers.entries,
    e.2.state = .succeeded → e.2.peer.nodeId ∈ answered s
  pending : (∀ e, s.status ≠ .ended e) → s.results.closestPeers = none
  result : ∀ e, s.status = .ended e → ResultOf q e s

variable {s : QueryRun}

theorem Track.knows_inP (h : Track q P s) (hp : s.closest.Knows p) :
    p ∈ P := h.inP p ((h.known p).mp hp).1

theorem Track.absorb (h : Track q P s) (hf : s.closest.Filed sha256)
    (hP : Set.InjOn (fun p : PeerId => sha256 p.toBytes) P)
    (heq : q.handleUpdate sha256 u s.results s.closest = some hd)
    (hu : u.source ∈ P ∧ ∀ p ∈ u.reported, p ∈ P) (hs : s.status = .waiting) :
    Track q P (absorb u hd s) := by
  have hclosest : (IterativeQuery.absorb u hd s).closest = q.merged sha256 u s.closest :=
    handleUpdate_closest heq
  have hreported : reported (IterativeQuery.absorb u hd s) = reported s ++ u.reported := by
    simp [reported, IterativeQuery.absorb]
  have hanswered : answered (IterativeQuery.absorb u hd s) = answered s ++ u.answer.toList := by
    rw [answered, IterativeQuery.absorb, filterMap_append, answered]
    cases hu : u.answer <;> simp [hu]
  have hinP : ∀ p ∈ reported (IterativeQuery.absorb u hd s), p ∈ P := by
    rw [hreported]
    intro p hp
    rcases mem_append.mp hp with hp | hp
    · exact h.inP p hp
    · exact hu.2 p hp
  have hknown : ∀ p, (q.merged sha256 u s.closest).Knows p ↔
      p ∈ reported (IterativeQuery.absorb u hd s) ∧ p ≠ q.localId := by
    intro p
    rw [knows_merged hf hP (fun p hp => h.knows_inP hp) hu.2, h.known, hreported, mem_append]
    tauto
  refine ⟨h.jobs, h.channel, hclosest ▸ hknown, hinP, ?_, ?_, ?_⟩
  · rw [hclosest, hanswered]
    intro e he hstate
    rw [mem_append]
    rcases succeeded_merged (filed_merged u hf) hP (fun p hp => hinP p ((hknown p).mp hp).1)
      hu.1 he hstate with ⟨f, hf', hfstate, hid⟩ | hans
    · exact .inl (hid ▸ h.succeeded f hf' hfstate)
    · exact .inr (by simp [hans])
  · intro _
    exact (handleUpdate_results heq).trans (h.pending (by simp [hs]))
  · intro e he
    rw [show (IterativeQuery.absorb u hd s).status = s.status from rfl, hs] at he
    cases he

theorem Track.finish (h : Track q P s) (hs : s.status = .waiting)
    (hstarved : e = .starved → s.closest.isStarved = true)
    (hterm : e = .terminated → s.closest.canTerminate q.config.betaValue = true) :
    Track q P (q.finish e s) := by
  refine ⟨h.jobs, h.channel, h.known, h.inP, h.succeeded, fun hne => ?_, fun e' he' => ?_⟩
  · exact absurd rfl (hne e)
  · obtain rfl : e = e' := by simpa [IterativeQuery.finish] using he'
    refine ⟨?_, hstarved, hterm⟩
    have hnone := h.pending (by simp [hs])
    have hpeers : (s.closest.peersInStates [.notContacted, .waiting, .succeeded]
        q.config.kValue).map PeerWithState.peer =
          (s.closest.wanted.take q.config.kValue).map PeerWithState.peer := rfl
    simp only [IterativeQuery.finish, hpeers]
    by_cases hempty : ((s.closest.wanted.take q.config.kValue).map PeerWithState.peer).isEmpty
    · rw [if_pos hempty, hnone, isEmpty_iff.mp hempty]
      rfl
    · rw [if_neg hempty]
      rfl

theorem Track.spawn (h : Track q P s) (hs : s.status = .waiting) (n : Nat) :
    Track q P (spawn n s) := by
  refine ⟨?_, h.channel, fun p => knows_setPeersInState.trans (h.known p), h.inP, ?_, h.pending, ?_⟩
  · intro p hp
    rcases mem_append.mp hp with hp | hp
    · exact h.jobs p hp
    · obtain ⟨pw, hpw, rfl⟩ := mem_map.mp hp
      obtain ⟨d, hd⟩ := mem_peersInState.mp hpw
      exact h.knows_inP ⟨_, (mem_first hd).1, rfl, trivial⟩
  · intro e he hstate
    rcases mem_setPeersInState.mp he with ⟨he, -⟩ | ⟨pw, -, heq⟩
    · exact h.succeeded e he hstate
    · rw [heq] at hstate
      cases hstate
  · intro e he
    rw [show (IterativeQuery.spawn n s).status = s.status from rfl, hs] at he
    cases he

theorem Track.of_eq (h : Track q P s) (hclosest : s'.closest = s.closest)
    (hresults : s'.results = s.results) (hconsumed : s'.consumed = s.consumed)
    (hjobs : ∀ p ∈ s'.jobs, p ∈ P)
    (hchannel : ∀ u ∈ s'.channel, u.source ∈ P ∧ ∀ p ∈ u.reported, p ∈ P)
    (hstatus : s'.status = s.status ∨
      ((∀ e, s.status ≠ .ended e) ∧ ∀ e, s'.status ≠ .ended e)) : Track q P s' := by
  have hrep : reported s' = reported s := by rw [reported, hconsumed, reported]
  have hans : answered s' = answered s := by
    rw [answered, hconsumed, answered]
  refine ⟨hjobs, hchannel, ?_, ?_, ?_, ?_, ?_⟩
  · rw [hclosest, hrep]
    exact h.known
  · rw [hrep]
    exact h.inP
  · rw [hclosest, hans]
    exact h.succeeded
  · intro hne
    rw [hresults]
    rcases hstatus with hstatus | ⟨hne', -⟩
    · exact h.pending (hstatus ▸ hne)
    · exact h.pending hne'
  · intro e he
    rcases hstatus with hstatus | ⟨-, hne⟩
    · obtain ⟨hp, hst, ht⟩ := h.result e (hstatus ▸ he)
      exact ⟨by rw [hresults, hclosest]; exact hp, by rwa [hclosest], by rwa [hclosest]⟩
    · exact absurd he (hne e)

theorem Track.round (h : Track q P s) (hf : s.closest.Filed sha256)
    (hP : Set.InjOn (fun p : PeerId => sha256 p.toBytes) P)
    (hu : u.source ∈ P ∧ ∀ p ∈ u.reported, p ∈ P) (hs : s.status = .waiting) :
    Track q P (q.round sha256 u s) := by
  unfold IterativeQuery.round
  cases heq : q.handleUpdate sha256 u s.results s.closest with
  | none => exact h.of_eq rfl rfl rfl h.jobs h.channel (.inr (by simp [hs]))
  | some hd =>
    have habs := h.absorb hf hP heq hu hs
    dsimp only
    split
    · exact habs.finish hs (by simp) (by simp)
    split
    · rename_i hstarved
      exact habs.finish hs (fun _ => hstarved) (by simp)
    split
    · rename_i hterm
      exact habs.finish hs (by simp) (fun _ => hterm)
    split
    · exact habs.of_eq rfl rfl rfl habs.jobs habs.channel
        (.inr (by simp [IterativeQuery.absorb, hs]))
    · exact habs.spawn hs _

theorem Track.step (h : Track q P s) (hf : s.closest.Filed sha256)
    (hP : Set.InjOn (fun p : PeerId => sha256 p.toBytes) P) (he : ∀ p ∈ e.peers, p ∈ P) :
    Track q P (q.step sha256 s e) := by
  cases e with
  | deadline =>
    simp only [IterativeQuery.step]
    split
    · rename_i hs
      exact h.of_eq rfl rfl rfl h.jobs h.channel (.inr (by simp [hs]))
    · exact h
  | report p reply =>
    simp only [IterativeQuery.step]
    split
    · rename_i hp
      refine h.of_eq rfl rfl rfl ?_ ?_ (.inl rfl)
      · exact fun r hr => h.jobs r (mem_of_mem_erase hr)
      · intro u hu
        rcases mem_append.mp hu with hu | hu
        · exact h.channel u hu
        · obtain ⟨hsource, hrep⟩ := jobUpdate_peers (by simpa using hu)
          exact ⟨hsource ▸ h.jobs p hp, fun r hr => he r (hrep r hr)⟩
    · exact h
  | next =>
    simp only [IterativeQuery.step]
    split
    · rename_i u rest hs hchannel
      have hc : ∀ u' ∈ u :: rest, u'.source ∈ P ∧ ∀ p ∈ u'.reported, p ∈ P :=
        hchannel ▸ h.channel
      have hpop : Track q P { s with channel := rest } :=
        h.of_eq rfl rfl rfl h.jobs (fun u' hu' => hc u' (mem_cons_of_mem u hu')) (.inl rfl)
      exact hpop.round hf hP (hc u mem_cons_self) hs
    · exact h

theorem start_track (h : q.start sha256 getAddrs = .ok s) (hlocal : q.localId ∈ P)
    (hseeds : ∀ k ∈ q.seeds, k.preimage ∈ P) : Track q P s := by
  unfold start at h
  split at h
  · cases h
  · cases h
    refine ⟨by simp, ?_, ?_, by simp [reported], ?_, fun _ => rfl, by simp⟩
    · intro u hu
      obtain rfl := mem_singleton.mp hu
      refine ⟨hlocal, ?_⟩
      simpa [seedUpdate, QueryUpdate.reported] using hseeds
    · simp [Knows, Has, new, empty, reported]
    · simp [new, empty]

/-- The result of a query that ended. With the peers of the run free of collisions, the result
is the prefix of length `k` of the list of all reported peers, the local one and the unreachable
ones excepted, in the order of their distance. If the loop was terminated, the first `beta` of
them have answered; if it starved, all of them have. -/
theorem query_result (getAddrs : PeerId → Option (List Multiaddr)) {s₀ : QueryRun}
    (hstart : q.start sha256 getAddrs = .ok s₀) (es : List Event)
    (hP : Set.InjOn (fun p : PeerId => sha256 p.toBytes) {p | p ∈ q.involved es}) {e : Ending}
    (hended : (run (q.step sha256) s₀ es).status = .ended e) :
    let s := run (q.step sha256) s₀ es
    let returned := (s.results.closestPeers.getD []).map KadPeer.nodeId
    (∃ candidates : List PeerId,
      candidates.Pairwise (fun p r => s.closest.distance sha256 p < s.closest.distance sha256 r) ∧
      (∀ p, p ∈ candidates ↔ p ∈ reported s ∧ p ≠ q.localId ∧
        s.closest.getPeerState sha256 p ≠ some .unreachable) ∧
      returned = candidates.take q.config.kValue) ∧
    q.localId ∉ returned ∧
    (e = .terminated →
      ∀ p ∈ returned.take (min q.config.betaValue (min returned.length q.config.kValue)),
        p ∈ answered s) ∧
    (e = .starved → ∀ p ∈ returned, p ∈ answered s) := by
  intro s returned
  have hinv : Inv sha256 q s ∧ Track q {p | p ∈ q.involved es} s := by
    refine invariant_run_of (I := fun s => Inv sha256 q s ∧ Track q {p | p ∈ q.involved es} s)
      (E := fun e => ∀ p ∈ e.peers, p ∈ q.involved es) ?_ ?_ ?_
    · rintro s e he ⟨hi, ht⟩
      exact ⟨step_inv e hi, ht.step hi.base.filed hP he⟩
    · refine ⟨start_inv hstart, start_track hstart ?_ ?_⟩
      · simp [involved]
      · intro k hk
        exact mem_cons_of_mem _ (mem_append_left _ (mem_map_of_mem hk))
    · intro e he p hp
      exact mem_cons_of_mem _
        (mem_append_right _ (mem_flatMap.mpr ⟨e, he, hp⟩))
  obtain ⟨hi, ht⟩ := hinv
  have hres := ht.result e hended
  have hreturned : returned =
      (s.closest.wanted.map (fun pw => pw.peer.nodeId)).take q.config.kValue := by
    simp only [returned, hres.peers, map_take, map_map, Function.comp_def]
  have hanswered : ∀ pw ∈ s.closest.wanted, pw.state = .succeeded →
      pw.peer.nodeId ∈ answered s := by
    intro pw hpw hstate
    obtain ⟨d, hd⟩ := SortedMap.mem_values.mp (mem_wanted.mp hpw).1
    exact ht.succeeded _ hd hstate
  have hcand : ∀ p, p ∈ s.closest.wanted.map (fun pw => pw.peer.nodeId) ↔
      p ∈ reported s ∧ p ≠ q.localId ∧ s.closest.getPeerState sha256 p ≠ some .unreachable := by
    intro p
    rw [hi.base.filed.mem_wanted_peers, ht.known, and_assoc]
  refine ⟨⟨_, hi.base.filed.wanted_sorted, hcand, hreturned⟩, ?_, ?_, ?_⟩
  · intro hlocal
    rw [hreturned] at hlocal
    exact ((hcand _).mp (mem_of_mem_take hlocal)).2.1 rfl
  · intro hterm p hp
    rw [hreturned, take_take, ← map_take] at hp
    obtain ⟨pw, hpw, rfl⟩ := mem_map.mp hp
    have hbeta : pw ∈ s.closest.wanted.take q.config.betaValue :=
      (take_prefix_take_left (by omega)).subset hpw
    exact hanswered pw (mem_of_mem_take hpw)
      (succeeded_of_canTerminate (hres.terminated hterm) pw hbeta)
  · intro hstarved p hp
    rw [hreturned, ← map_take] at hp
    obtain ⟨pw, hpw, rfl⟩ := mem_map.mp hp
    have hpw' := mem_of_mem_take hpw
    exact hanswered pw hpw' (succeeded_of_isStarved (hres.starved hstarved) pw hpw')

/-- Peer `4` reports peer `6`, peer `5` fails, and peer `6` knows nobody. -/
def sampleEvents : List Event :=
  [.next, .report (PeerId.ofByte 4) (some ⟨[⟨PeerId.ofByte 6, [], .connected⟩], [], none⟩), .next,
    .report (PeerId.ofByte 5) none, .next, .report (PeerId.ofByte 6) (some ⟨[], [], none⟩), .next]

/-- The loop starves, and the peers that answered are returned. -/
theorem query_result_sample :
    ∃ s₀, sampleQuery.start sampleSha256 (fun _ => none) = .ok s₀ ∧
      let s := run (sampleQuery.step sampleSha256) s₀ sampleEvents
      let returned := (s.results.closestPeers.getD []).map KadPeer.nodeId
      s.status = .ended .starved ∧ returned.length = 2 ∧ ∀ p ∈ returned, p ∈ answered s := by
  have hP : ∀ p ∈ sampleQuery.involved sampleEvents, ∀ r ∈ sampleQuery.involved sampleEvents,
      sampleSha256 p.toBytes = sampleSha256 r.toBytes → p = r := by decide
  refine ⟨_, rfl, by decide, by decide, ?_⟩
  exact (query_result (fun _ => none) rfl sampleEvents
    (fun p hp r hr h => hP p hp r hr h) (e := .starved) (by decide)).2.2.2 rfl

end IterativeQuery

end Libp2pRs.Kad
