import Libp2pRs.Gossip.Membership

/-!
# Offering messages

A heartbeat goes through the topics of the mesh and of the fanout in some order and queues IHAVEs
for peers outside of them. A topic without messages should be passed over, but it ends the loop.
-/

namespace Libp2pRs.Gossip.Gossipsub

open Lib Libp2pRs.Core Std List

variable {P R F D : Type} {s : Gossipsub P R F D} {entry : TopicHash × Finset PeerId}
  {entries idle : List (TopicHash × Finset PeerId)} {before after : PeerId → List ControlAction}

def gossipIds (s : Gossipsub P R F D) (topic : TopicHash) : List MessageId :=
  (s.mcache.getGossipMessageIds topic).getD []

def hasGossip (s : Gossipsub P R F D) (entry : TopicHash × Finset PeerId) : Bool :=
  !(s.gossipIds entry.1).isEmpty

def queue (s : Gossipsub P R F D) (p : PeerId) : List ControlAction := s.controlPool[p]?.getD []

theorem exists_poolIhave (s : Gossipsub P R F D) (topic : TopicHash) (ids : List MessageId)
    (peer : PeerId) :
    ∃ rng chosen, chosen ⊆ ids ∧ chosen.length ≤ s.config.maxIhaveLength ∧
      poolIhave topic ids s peer = { s with
        rng
        controlPool := s.controlPool.insert peer (s.queue peer ++ [.iHave topic chosen]) } := by
  unfold poolIhave
  split
  case isTrue =>
    refine ⟨_, _, fun id hid => ?_, length_take_le _ _, rfl⟩
    exact Rng.mem_shuffle.mp (mem_of_mem_take hid)
  case isFalse hfew => exact ⟨s.rng, ids, fun _ h => h, Nat.le_of_not_lt hfew, rfl⟩

/-- The peers, and only they, have got an IHAVE with at most `max_ihave_length` of the messages. -/
def Offered (s : Gossipsub P R F D) (topic : TopicHash) (ids : List MessageId)
    (peers : Finset PeerId) (before after : PeerId → List ControlAction) : Prop :=
  ∀ p, (p ∉ peers → after p = before p) ∧ (p ∈ peers → ∃ chosen, chosen ⊆ ids ∧
    chosen.length ≤ s.config.maxIhaveLength ∧ after p = before p ++ [.iHave topic chosen])

theorem offered_poolIhaves {peers : List PeerId} (hnodup : peers.Nodup) (s : Gossipsub P R F D)
    (topic : TopicHash) (ids : List MessageId) :
    ∃ rng controlPool, peers.foldl (poolIhave topic ids) s = { s with rng, controlPool } ∧
      s.Offered topic ids peers.toFinset s.queue (queue { s with controlPool }) := by
  induction peers generalizing s with
  | nil => exact ⟨s.rng, s.controlPool, rfl, fun p => ⟨fun _ => rfl, nofun⟩⟩
  | cons peer peers ih =>
    obtain ⟨hnew, hnodup⟩ := nodup_cons.mp hnodup
    obtain ⟨rng₁, first, hsub, hlen, heq₁⟩ := s.exists_poolIhave topic ids peer
    obtain ⟨rng, pool, heq, hoffered⟩ := ih hnodup (poolIhave topic ids s peer)
    rw [heq₁] at heq hoffered
    refine ⟨rng, pool, (congrArg (peers.foldl (poolIhave topic ids)) heq₁).trans heq, fun p => ?_⟩
    obtain ⟨hother, hpeers⟩ := hoffered p
    unfold queue at hother hpeers
    rw [get_insert] at hother hpeers
    rw [toFinset_cons, Finset.mem_insert]
    by_cases hp : p = peer
    · subst hp
      rw [if_pos rfl] at hother
      exact ⟨fun h => absurd (.inl rfl) h,
        fun _ => ⟨first, hsub, hlen, hother (mem_toFinset.not.mpr hnew)⟩⟩
    · rw [if_neg (Ne.symm hp)] at hother hpeers
      rw [or_iff_right hp]
      exact ⟨hother, hpeers⟩

variable [ScoreArith R] [PeerScoring P R]

def gossipPeers (s : Gossipsub P R F D) (entry : TopicHash × Finset PeerId) : Finset PeerId :=
  (s.topicPeers[entry.1]?.getD ∅).filter fun p =>
    (decide (p ∉ entry.2) && decide (p ∉ s.explicitPeers) &&
      !s.scoreBelowThreshold p PeerScoreThresholds.gossipThreshold) &&
      PeerKind.isGossip s.peerProtocols[p]?

def gossipDemand (s : Gossipsub P R F D) (entry : TopicHash × Finset PeerId) : Nat :=
  if s.hasGossip entry then
    min (s.gossipPeers entry).card
      (max s.config.gossipLazy (s.config.gossipFactor * (s.gossipPeers entry).card).floor.toNat)
  else 0

/-- Each topic has got its IHAVEs, whatever there is in the others. -/
def Served (s : Gossipsub P R F D) : List (TopicHash × Finset PeerId) →
    (PeerId → List ControlAction) → (PeerId → List ControlAction) → Prop
  | [], before, after => after = before
  | entry :: entries, before, after =>
    ∃ peers ⊆ s.gossipPeers entry, peers.card = s.gossipDemand entry ∧
      ∃ between, s.Offered entry.1 (s.gossipIds entry.1) peers before between ∧
        s.Served entries between after

theorem served_with {rng : Rng} {controlPool : TreeMap PeerId (List ControlAction)} :
    Served { s with rng, controlPool } entries before after ↔ s.Served entries before after := by
  induction entries generalizing before with
  | nil => exact Iff.rfl
  | cons entry entries ih =>
    exact exists_congr fun peers => and_congr Iff.rfl (and_congr Iff.rfl
      (exists_congr fun between => and_congr Iff.rfl ih))

theorem Served.append_idle (h : s.Served entries before after)
    (hidle : ∀ e ∈ idle, s.gossipDemand e = 0) : s.Served (entries ++ idle) before after := by
  induction entries generalizing before with
  | nil =>
    cases h
    induction idle with
    | nil => rfl
    | cons e idle ih =>
      exact ⟨∅, Finset.empty_subset _, (hidle e mem_cons_self).symm, after,
        fun p => ⟨fun _ => rfl, nofun⟩, ih fun e he => hidle e (mem_cons_of_mem _ he)⟩
  | cons entry entries ih =>
    obtain ⟨peers, hsub, hcard, between, hoffered, hrest⟩ := h
    exact ⟨peers, hsub, hcard, between, hoffered, ih hrest⟩

theorem Served.total (h : s.Served entries before after) (all : Finset PeerId)
    (hall : ∀ e ∈ entries, s.gossipPeers e ⊆ all) :
    ∑ p ∈ all, (after p).length =
      ∑ p ∈ all, (before p).length + (entries.map s.gossipDemand).sum := by
  induction entries generalizing before with
  | nil =>
    cases h
    rfl
  | cons entry entries ih =>
    obtain ⟨peers, hsub, hcard, between, hoffered, hrest⟩ := h
    have hadd : ∀ p, (between p).length = (before p).length + if p ∈ peers then 1 else 0 := by
      intro p
      split
      case isTrue hp =>
        obtain ⟨chosen, -, -, heq⟩ := (hoffered p).2 hp
        rw [heq, length_append, length_singleton]
      case isFalse hp => rw [(hoffered p).1 hp, Nat.add_zero]
    have hpeers : all.filter (· ∈ peers) = peers :=
      Finset.filter_mem_eq_inter.trans
        (Finset.inter_eq_right.mpr (hsub.trans (hall entry mem_cons_self)))
    rw [ih hrest fun e he => hall e (mem_cons_of_mem _ he), Finset.sum_congr rfl fun p _ => hadd p,
      Finset.sum_add_distrib, ← Finset.card_filter, hpeers, hcard, map_cons, sum_cons,
      Nat.add_assoc]

theorem exists_emitGossip (entries : List (TopicHash × Finset PeerId))
    (h : s.hasGossip entry = true) :
    ∃ rng controlPool, emitGossip s (entry :: entries) =
        emitGossip { s with rng, controlPool } entries ∧
      ∃ peers ⊆ s.gossipPeers entry, peers.card = s.gossipDemand entry ∧
        s.Offered entry.1 (s.gossipIds entry.1) peers s.queue (queue { s with controlPool }) := by
  obtain ⟨topic, members⟩ := entry
  rw [gossipDemand, if_pos h, emitGossip]
  unfold hasGossip at h
  unfold gossipIds at h ⊢
  split
  case h_1 hids =>
    rw [hids] at h
    cases h
  case h_2 hids =>
    rw [hids] at h
    cases h
  case h_3 ids _ hids =>
    rw [hids, Option.getD_some]
    generalize horder : (if s.config.maxIhaveLength < ids.length then (ids, s) else s.anyOrder ids) =
      order
    obtain ⟨rng₁, hstate, hsame⟩ : ∃ rng, order.2 = { s with rng } ∧ order.1 ⊆ ids := by
      rw [← horder]
      split
      · exact ⟨s.rng, rfl, fun _ h => h⟩
      · exact ⟨_, rfl, fun _ h => Rng.mem_shuffle.mp h⟩
    dsimp only
    rw [hstate]
    generalize hr : getRandomPeersDynamic _ _ _ _ _ _ = r
    obtain ⟨rng, pool, heq, hoffered⟩ := offered_poolIhaves (nodup_sorted r.1)
      (setRng { s with rng := rng₁ } r.2) topic order.1
    refine ⟨rng, pool, congrArg (emitGossip · entries) heq, r.1, fun p hp => ?_, ?_, fun p => ?_⟩
    · rw [← hr] at hp
      obtain ⟨hlisted, hfilter, hkind⟩ := mem_getRandomPeersDynamic hp
      exact Finset.mem_filter.mpr ⟨hlisted, Bool.and_eq_true_iff.mpr ⟨hfilter, hkind⟩⟩
    · rw [← hr]
      exact card_getRandomPeersDynamic _ _ _ _ _ _
    · have hp := hoffered p
      rw [mem_toFinset, mem_sorted] at hp
      exact ⟨hp.1, fun h => (hp.2 h).imp fun _ hc => ⟨fun _ hid => hsame (hc.1 hid), hc.2⟩⟩

theorem served_emitGossip (s : Gossipsub P R F D) (entries : List (TopicHash × Finset PeerId)) :
    s.Served (entries.takeWhile s.hasGossip) s.queue (emitGossip s entries).queue := by
  induction entries generalizing s with
  | nil => rfl
  | cons entry entries ih =>
    cases h : s.hasGossip entry with
    | false =>
      rw [takeWhile_cons_of_neg (by simp [h])]
      unfold hasGossip gossipIds at h
      unfold emitGossip
      split
      case h_1 => rfl
      case h_2 => rfl
      case h_3 ids hne hids =>
        rw [hids] at h
        exact absurd (isEmpty_iff.mp (by simpa using h)) hne
    | true =>
      obtain ⟨rng, pool, heq, peers, hsub, hcard, hoffered⟩ := exists_emitGossip entries h
      rw [takeWhile_cons_of_pos h, heq]
      have hrest := ih { s with rng, controlPool := pool }
      rw [served_with] at hrest
      exact ⟨peers, hsub, hcard, _, hoffered, hrest⟩

/-- There is a message in the second of two topics, and a peer to offer it to. -/
def unservedNode : SampleNode :=
  { sampleNode with
    mesh := .ofList [((⟨[96]⟩ : TopicHash), ∅), (sampleTopic, ∅)]
    topicPeers := .ofList [(sampleTopic, {samplePeer})]
    peerProtocols := .ofList [(samplePeer, PeerKind.gossipsubV11)]
    mcache := { sampleNode.mcache with
      msgs := .ofList [((⟨[1]⟩ : MessageId),
        (⟨none, [], none, sampleTopic, none, none, true⟩ : RawGossipsubMessage))]
      history := [[⟨⟨[1]⟩, sampleTopic⟩], [], []] } }

end Libp2pRs.Gossip.Gossipsub
