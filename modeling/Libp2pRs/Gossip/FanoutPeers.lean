import Libp2pRs.Gossip.Membership

/-!
# The peers of the fanout

A heartbeat drops the fanout peers that have left the topic or have a score below the publish
threshold. When less than `mesh_n` are left it adds peers, but it chooses them among those whose
score is below the threshold. Without scoring it never adds anybody.
-/

namespace Libp2pRs.Gossip.Gossipsub

open Lib Libp2pRs.Core Std Finset

variable {P R F D : Type} {s : Gossipsub P R F D}

/-! ## What is left as it is -/

/-- What is asked of the fanout depends on this. -/
def fanoutPart (s : Gossipsub P R F D) :=
  (s.fanout, s.connectedPeer, s.peerTopics, s.topicPeers, s.peerProtocols, s.explicitPeers, s.config)

theorem fanoutPart_emit (now : Instant) (o : Output) :
    (s.emit now o).fanoutPart = s.fanoutPart := by
  obtain ⟨trace, h⟩ := exists_emit s now o
  rw [h]
  rfl

theorem fanoutPart_trySend (now : Instant) (peer : PeerId) (rpc : GossipsubRpc) :
    (s.trySend now peer rpc).fanoutPart = s.fanoutPart := by
  obtain ⟨trace, h⟩ := exists_sendMessage s now peer (Proto.intoProtobuf rpc)
  rw [trySend, h]
  rfl

variable [ScoreArith R] [PeerScoring P R]

theorem fanoutPart_makePrunes (now : Instant) (peer : PeerId) (doPx : Bool)
    (topics : List TopicHash) :
    (makePrunes now peer doPx s topics).2.fanoutPart = s.fanoutPart := by
  induction topics generalizing s with
  | nil => rfl
  | cons topic topics ih =>
    refine ih.trans ?_
    unfold makePrune
    dsimp only
    split
    · exact fanoutPart_emit now _
    · refine (fanoutPart_emit now _).trans ?_
      obtain ⟨backoffs, fault, h⟩ := exists_updateBackoff
        (s.modifyScore (PeerScoring.prune peer topic)) now topic peer
        (s.modifyScore (PeerScoring.prune peer topic)).config.pruneBackoff
      rw [h]
      rfl

theorem fanoutPart_concluded (acc : HeartbeatAcc P R F D) (now : Instant) :
    (concluded acc now).fanoutPart = (acc.state.maintainFanout now).fanoutPart := by
  have hpool : ∀ (topic : TopicHash) (ids : List MessageId) (s : Gossipsub P R F D) (peer : PeerId),
      (poolIhave topic ids s peer).fanoutPart = s.fanoutPart := by
    intro topic ids s peer
    unfold poolIhave
    split <;> rfl
  have hgossip : ∀ (topics : List (TopicHash × Finset PeerId)) (s : Gossipsub P R F D),
      (emitGossip s topics).fanoutPart = s.fanoutPart := by
    intro topics
    induction topics with
    | nil => exact fun _ => rfl
    | cons entry topics ih =>
      intro s
      unfold emitGossip
      split
      · rfl
      · rfl
      · rw [ih, foldl_unchanged (v := fanoutPart) (hpool _ _)]
        split <;> rfl
  have hsend : ∀ (s : Gossipsub P R F D) (entry : PeerId × List TopicHash),
      (sendGraftPruneTo now acc.toPrune acc.noPx s entry).fanoutPart = s.fanoutPart := by
    intro s entry
    unfold sendGraftPruneTo
    rw [fanoutPart_trySend, fanoutPart_makePrunes]
    exact foldl_unchanged (v := fanoutPart) (f := sendGraft now entry.1)
      (fun _ _ => fanoutPart_emit now _) entry.2 s
  have hshift : ∀ s : Gossipsub P R F D, s.shiftCache.fanoutPart = s.fanoutPart := by
    intro s
    unfold shiftCache
    split <;> rfl
  have hflush : ∀ s : Gossipsub P R F D, (s.flushControlPool now).fanoutPart = s.fanoutPart :=
    fun s => foldl_unchanged (v := fanoutPart) (fun _ _ => fanoutPart_trySend now _ _) _ _
  have hgraft : ∀ s : Gossipsub P R F D,
      (s.sendGraftPrune now acc.toGraft acc.toPrune acc.noPx).fanoutPart = s.fanoutPart := fun s =>
    (foldl_unchanged (v := fanoutPart) hsend _ _).trans
      (foldl_unchanged (v := fanoutPart) hsend _ _)
  unfold concluded
  generalize acc.state.maintainFanout now = s
  exact (hshift _).trans ((hflush _).trans ((hgraft _).trans (hgossip _ _)))

/-! ## The fanout of a topic -/

def low (s : Gossipsub P R F D) (p : PeerId) : Bool := ScoreArith.lt (s.score p) s.publishThreshold

/-- The gossipsub peers of the topic that are not explicit, with a score below the threshold or
not. -/
def candidates (s : Gossipsub P R F D) (low : PeerId → Bool) (topic : TopicHash) (below : Bool) :
    Finset PeerId :=
  (s.topicPeers[topic]?.getD ∅).filter fun p =>
    p ∉ s.explicitPeers ∧ low p = below ∧ PeerKind.isGossip s.peerProtocols[p]? = true

def keptFanout (s : Gossipsub P R F D) (topic : TopicHash) : Finset PeerId :=
  (s.fanout[topic]?.getD ∅).filter fun p => decide (topic ∈ s.peerTopics[p]?.getD ∅) && !s.low p

/-- The peers that are added have a low score. Nobody is added exactly if nobody is missing or no
candidate has a low score. -/
def Refill (s : Gossipsub P R F D) (topic : TopicHash) (added : Finset PeerId) : Prop :=
  (∀ p ∈ added, s.low p = true) ∧
    (added = ∅ ↔ s.config.meshN ≤ (s.keptFanout topic).card ∨ s.candidates s.low topic true = ∅)

theorem exists_refill (s : Gossipsub P R F D) (topic : TopicHash) :
    ∃ rng added, s.Refill topic added ∧ s.maintainFanoutTopic topic =
      { s with rng, fanout := s.fanout.insert topic (s.keptFanout topic ∪ added) } := by
  by_cases hfew : (s.keptFanout topic).card < s.config.meshN
  · refine ⟨_, _, ⟨fun p hp => ?_, ?_⟩, if_pos hfew⟩
    · have hfilter := (mem_getRandomPeersDynamic hp).2.1
      rw [Bool.and_eq_true] at hfilter
      exact hfilter.2
    · have hchoice : ((s.topicPeers[topic]?.getD ∅).filter fun p =>
          (decide (p ∉ s.keptFanout topic) && decide (p ∉ s.explicitPeers) && s.low p) &&
            PeerKind.isGossip s.peerProtocols[p]?) = s.candidates s.low topic true := by
        refine filter_congr fun p _ => ?_
        have hkept : s.low p = true → p ∉ s.keptFanout topic := fun hlow hmem => by
          simp [keptFanout, hlow] at hmem
        simp only [Bool.and_eq_true, decide_eq_true_eq]
        tauto
      rw [or_iff_right (Nat.not_le.mpr hfew), ← hchoice, ← card_eq_zero, getRandomPeers,
        card_getRandomPeersDynamic, Nat.min_eq_zero_iff, card_eq_zero]
      exact or_iff_left (Nat.sub_pos_of_lt hfew).ne'
  · refine ⟨s.rng, ∅, ⟨fun p hp => absurd hp (notMem_empty p), iff_of_true rfl (.inl (Nat.not_lt.mp hfew))⟩, ?_⟩
    rw [union_empty]
    exact if_neg hfew

theorem exists_refills {topics : List TopicHash} (hnodup : topics.Nodup) (s : Gossipsub P R F D) :
    ∃ rng fanout, topics.foldl maintainFanoutTopic s = { s with rng, fanout } ∧
      (∀ t ∉ topics, fanout[t]? = s.fanout[t]?) ∧
      ∀ t ∈ topics, ∃ added, s.Refill t added ∧ fanout[t]? = some (s.keptFanout t ∪ added) := by
  induction topics generalizing s with
  | nil => exact ⟨s.rng, s.fanout, rfl, fun _ _ => rfl, nofun⟩
  | cons topic topics ih =>
    obtain ⟨hnew, hnodup⟩ := List.nodup_cons.mp hnodup
    obtain ⟨rng₁, added₁, hadded₁, heq₁⟩ := s.exists_refill topic
    obtain ⟨rng, fanout, heq, hother, htopics⟩ := ih hnodup (s.maintainFanoutTopic topic)
    rw [heq₁] at heq hother htopics
    refine ⟨rng, fanout, (congrArg (topics.foldl maintainFanoutTopic) heq₁).trans heq,
      fun t ht => ?_, fun t ht => ?_⟩
    · obtain ⟨hne, ht⟩ := not_or.mp (List.mem_cons.not.mp ht)
      rw [hother t ht, get_insert, if_neg (Ne.symm hne)]
    · rcases List.mem_cons.mp ht with rfl | ht
      · exact ⟨added₁, hadded₁, (hother t hnew).trans ((get_insert _ _ _ _).trans (if_pos rfl))⟩
      · obtain ⟨added, hadded, hfanout⟩ := htopics t ht
        have hsame : (s.fanout.insert topic (s.keptFanout topic ∪ added₁))[t]? = s.fanout[t]? := by
          rw [get_insert, if_neg fun h : topic = t => hnew (h ▸ ht)]
        have hkept : keptFanout { s with
            rng := rng₁
            fanout := s.fanout.insert topic (s.keptFanout topic ∪ added₁) } t = s.keptFanout t := by
          unfold keptFanout
          rw [← hsame]
          rfl
        rw [hkept] at hfanout
        rw [Refill, hkept] at hadded
        exact ⟨added, hadded, hfanout⟩

/-! ## What is asked of the fanout -/

/-- Every fanout peer is connected, has subscribed to the topic and has a score that is not too
low, and there are `mesh_n` of them or as many as there are candidates. A heartbeat computes the
scores once; which of them are too low is given. -/
def FanoutSound (s : Gossipsub P R F D) (low : PeerId → Bool) : Prop :=
  ∀ (t : TopicHash) (peers : Finset PeerId), s.fanout[t]? = some peers →
    (∀ p ∈ peers, p ∈ s.connectedPeer ∧ t ∈ s.peerTopics[p]?.getD ∅ ∧ low p = false) ∧
      min s.config.meshN (s.candidates low t false).card ≤ peers.card

/-- Nothing is missing, or nobody is added and nobody should be. -/
def FanoutFull (s : Gossipsub P R F D) (topic : TopicHash) : Prop :=
  (∀ p ∈ s.keptFanout topic, p ∈ s.connectedPeer) ∧
    (s.config.meshN ≤ (s.keptFanout topic).card ∨ s.candidates s.low topic true = ∅ ∧
      (s.candidates s.low topic false).card ≤ (s.keptFanout topic).card)

theorem Refill.full_iff {topic : TopicHash} {added : Finset PeerId} (h : s.Refill topic added) :
    ((∀ p ∈ s.keptFanout topic ∪ added, p ∈ s.connectedPeer ∧
        topic ∈ s.peerTopics[p]?.getD ∅ ∧ s.low p = false) ∧
      min s.config.meshN (s.candidates s.low topic false).card ≤
        (s.keptFanout topic ∪ added).card) ↔ s.FanoutFull topic := by
  obtain ⟨hlow, hempty⟩ := h
  by_cases hadded : added = ∅
  · rw [hadded, union_empty]
    refine and_congr (forall₂_congr fun p hp => and_iff_left ?_) ?_
    · have hkeep := (mem_filter.mp hp).2
      simpa using hkeep
    · rw [min_le_iff]
      tauto
  · constructor
    · intro h
      obtain ⟨p, hp⟩ := nonempty_iff_ne_empty.mpr hadded
      have hhigh := (h.1 p (mem_union_right _ hp)).2.2
      rw [hlow p hp] at hhigh
      cases hhigh
    · rintro ⟨-, h⟩
      tauto

theorem fanoutSound_maintainFanout_iff (s : Gossipsub P R F D) (now : Instant) :
    (s.maintainFanout now).FanoutSound s.low ↔
      ∀ t ∈ (s.fanoutLastPub.toList.foldl (expireFanout now) s).fanout,
        (s.fanoutLastPub.toList.foldl (expireFanout now) s).FanoutFull t := by
  have hlow : (s.fanoutLastPub.toList.foldl (expireFanout now) s).low = s.low := by
    refine foldl_unchanged (v := low) (fun s₁ entry => ?_) _ s
    unfold expireFanout
    split
    · rfl
    · split <;> rfl
  unfold maintainFanout
  rw [← hlow]
  generalize s.fanoutLastPub.toList.foldl (expireFanout now) s = s
  have hkeys : ∀ t, t ∈ (s.anyOrder s.fanout.keys).1 ↔ t ∈ s.fanout := fun t =>
    Rng.mem_shuffle.trans TreeMap.mem_keys
  have hnodup : (s.anyOrder s.fanout.keys).1.Nodup := Rng.nodup_shuffle.mpr TreeMap.nodup_keys
  obtain ⟨rng, fanout, heq, hother, htopics⟩ := exists_refills hnodup (s.anyOrder s.fanout.keys).2
  rw [heq]
  constructor
  · intro h t ht
    obtain ⟨added, hadded, hfanout⟩ := htopics t ((hkeys t).mpr ht)
    exact hadded.full_iff.mp (h t _ hfanout)
  · intro h t peers hpeers
    by_cases ht : t ∈ s.fanout
    · obtain ⟨added, hadded, hfanout⟩ := htopics t ((hkeys t).mpr ht)
      cases hpeers.symm.trans hfanout
      exact hadded.full_iff.mpr (h t ht)
    · have hnone := hother t fun hmem => ht ((hkeys t).mp hmem)
      have hgone : s.fanout[t]? = none := TreeMap.getElem?_eq_none ht
      cases hpeers.symm.trans (hnone.trans hgone)

/-- After a heartbeat the fanout is as it should be exactly if, in each topic that has not expired,
nothing was missing, or nobody is added and nobody should be. -/
theorem heartbeat_fanout_iff (s : Gossipsub P R F D) (now : Instant) :
    let s₁ := ((s.prepared now).maintainMesh now).state
    let s₂ := s₁.fanoutLastPub.toList.foldl (expireFanout now) s₁
    (s.heartbeat now).FanoutSound s₁.low ↔ ∀ t ∈ s₂.fanout, s₂.FanoutFull t := by
  intro s₁ s₂
  have hpart := fanoutPart_concluded ((s.prepared now).maintainMesh now) now
  simp only [fanoutPart, Prod.mk.injEq] at hpart
  obtain ⟨hfanout, hconnected, htopics, hlisted, hkinds, hexplicit, hconfig⟩ := hpart
  rw [heartbeat_eq, ← fanoutSound_maintainFanout_iff s₁ now]
  unfold FanoutSound candidates
  rw [hfanout, hconnected, htopics, hlisted, hkinds, hexplicit, hconfig]

/-- Scoring is off. The fanout has no peers, and one peer could be in it. -/
def starvedNode : SampleNode :=
  { sampleNode with
    topicPeers := .ofList [(sampleTopic, {samplePeer})]
    peerTopics := .ofList [(samplePeer, {sampleTopic})]
    peerProtocols := .ofList [(samplePeer, PeerKind.gossipsubV11)]
    connectedPeer := .ofList [(samplePeer, 0)]
    fanout := .ofList [(sampleTopic, ∅)]
    fanoutLastPub := .ofList [(sampleTopic, 0)] }

theorem starvedNode_fanout :
    ¬ (starvedNode.heartbeat 1).FanoutSound ((starvedNode.prepared 1).maintainMesh 1).state.low := by
  intro h
  have hfanout : (starvedNode.heartbeat 1).fanout[sampleTopic]? = some ∅ := by decide +kernel
  have hmissing : ¬ min (starvedNode.heartbeat 1).config.meshN ((starvedNode.heartbeat 1).candidates
      ((starvedNode.prepared 1).maintainMesh 1).state.low sampleTopic false).card ≤ 0 := by
    decide +kernel
  exact hmissing (h sampleTopic ∅ hfanout).2

end Libp2pRs.Gossip.Gossipsub
