import Libp2pRs.Gossip.View

/-!
# The handlers refine the overlay

Every handler but the one of a new peer is a sequence of moves of the overlay, all at the time of
the event. A strict sequence links only peers that have announced the topic; for the two handlers
that may do otherwise, accepting a GRAFT and taking over the fanout of a topic, it takes a
hypothesis.
-/

namespace Libp2pRs.Gossip.Gossipsub

open Lib Libp2pRs.Core Std Overlay

variable {P R F D : Type} {strict : Prop} {now : Instant} {s : Gossipsub P R F D}

def Clear (s : Gossipsub P R F D) (now : Instant) (topic : TopicHash) (peer : PeerId) : Prop :=
  ∀ b, s.backoffs.getBackoffTime topic peer = some b → b ≤ now

variable {topic : TopicHash} {peer : PeerId}

theorem clear_of_isBackoffWithSlack (h : s.backoffs.isBackoffWithSlack topic peer = false) :
    s.Clear now topic peer := by
  rw [BackoffStorage.isBackoffWithSlack_iff, Option.isSome_eq_false_iff] at h
  intro b hb
  rw [hb] at h
  cases h

theorem Clear.congr {s' : Gossipsub P R F D}
    (hb : s'.backoffs.getBackoffTime topic peer = s.backoffs.getBackoffTime topic peer)
    (h : s.Clear now topic peer) : s'.Clear now topic peer := by
  unfold Clear
  rw [hb]
  exact h

section Backoffs

variable (s : Gossipsub P R F D)

@[simp] theorem backoffs_setRng (rng : Rng) : (s.setRng rng).backoffs = s.backoffs := rfl

@[simp] theorem backoffs_modifyScore (f : P → P) : (s.modifyScore f).backoffs = s.backoffs := rfl

@[simp] theorem backoffs_anyOrder (l : List α) :
    (s.anyOrder l).2.backoffs = s.backoffs := rfl

@[simp] theorem backoffs_controlPoolAdd (peer : PeerId) (action : ControlAction) :
    (s.controlPoolAdd peer action).backoffs = s.backoffs := rfl

@[simp] theorem backoffs_dropFanout (topic : TopicHash) :
    (s.dropFanout topic).backoffs = s.backoffs := rfl

@[simp] theorem backoffs_control (peer : PeerId) (action : ControlAction) :
    (s.control now peer action).backoffs = s.backoffs := by
  obtain ⟨trace, h⟩ := exists_emit s now (.control peer s.peerProtocols[peer]? action)
  unfold control
  rw [h]

@[simp] theorem backoffs_addToMesh (topic : TopicHash) (peers : Finset PeerId) :
    (s.addToMesh now topic peers).backoffs = s.backoffs := by
  obtain ⟨trace, h⟩ := exists_addToMesh s now topic peers
  rw [h]

@[simp] theorem backoffs_trySend (peer : PeerId) (rpc : GossipsubRpc) :
    (s.trySend now peer rpc).backoffs = s.backoffs := by
  obtain ⟨trace, h⟩ := exists_sendMessage s now peer (Proto.intoProtobuf rpc)
  unfold trySend
  rw [h]

theorem config_setRng (rng : Rng) : (s.setRng rng).config = s.config := rfl

theorem config_updateBackoff (topic : TopicHash) (peer : PeerId) (time : Duration) :
    (s.updateBackoff now topic peer time).config = s.config := by
  obtain ⟨backoffs, fault, h⟩ := exists_updateBackoff s now topic peer time
  rw [h]

end Backoffs

theorem moves_control_graft {leaving : Set (TopicHash × PeerId)} (h : s.Clear now topic peer) :
    Overlay.Moves strict now (s.view leaving)
      ((s.control now peer (.graft topic)).view leaving) := by
  refine moves_emit (fun e he _ => ?_)
  cases he
  exact h

theorem moves_control_prune {px : List PeerInfo} {backoff : Option Nat}
    (h : s.peerProtocols[peer]? ≠ some .gossipsub → s.panicked = false →
      ∃ b, s.backoffs.getBackoffTime topic peer = some b ∧ now + s.config.pruneBackoff ≤ b) :
    Refines strict now s (s.control now peer (.prune topic px backoff)) := by
  refine moves_emit (fun e he hp => ?_)
  cases he
  intro hbacked
  exact h (of_decide_eq_true hbacked) hp

/-- While the topics of a GRAFT are gone through, a mesh without the peer is still the one at the
start. -/
structure GraftInvariant (s : Gossipsub P R F D) (peer : PeerId) (s' : Gossipsub P R F D) :
    Prop where
  backoffs : s'.backoffs = s.backoffs
  config : s'.config = s.config
  outboundPeers : s'.outboundPeers = s.outboundPeers
  peerTopics : s'.peerTopics = s.peerTopics
  mesh : ∀ (t : TopicHash) (peers : Finset PeerId),
    s'.mesh[t]? = some peers → peer ∉ peers → s.mesh[t]? = some peers

theorem GraftInvariant.addToMesh (h : GraftInvariant s peer s') (topic : TopicHash) (f : P → P) :
    GraftInvariant s peer ((s'.addToMesh now topic {peer}).modifyScore f) := by
  obtain ⟨trace, heq⟩ := exists_addToMesh s' now topic {peer}
  rw [heq]
  refine ⟨h.backoffs, h.config, h.outboundPeers, h.peerTopics, fun t peers ht hpeer => ?_⟩
  refine h.mesh t peers ?_ hpeer
  have hget : (if topic = t then some (s'.mesh[t]?.getD ∅ ∪ {peer}) else s'.mesh[t]?) =
      some peers := (get_alter s'.mesh topic t _).symm.trans ht
  split at hget
  · cases hget
    exact absurd (Finset.mem_union_right _ (Finset.mem_singleton_self peer)) hpeer
  · exact hget

def withTopics (peer : PeerId) (topics : List TopicHash) : Set (TopicHash × PeerId) :=
  {x | x.1 ∈ topics ∧ x.2 = peer}

theorem withTopics_nil (peer : PeerId) : withTopics peer [] = ∅ := by
  simp [withTopics]

theorem withTopics_concat (peer : PeerId) (topics : List TopicHash) (topic : TopicHash) :
    withTopics peer (topics ++ [topic]) = insert (topic, peer) (withTopics peer topics) := by
  ext ⟨t, p⟩
  simp only [withTopics, List.mem_append, List.mem_singleton, Set.mem_ofPred_eq,
    Set.mem_insert_iff, Prod.mk.injEq]
  tauto

section Scored

variable [PeerScoring P R]

/-! ## PRUNEs -/

theorem graftable_clear [ScoreArith R] (h : s.graftable topic peer = true) :
    s.Clear now topic peer := by
  unfold graftable at h
  simp only [Bool.and_eq_true, Bool.not_eq_eq_eq_not, Bool.not_true] at h
  exact clear_of_isBackoffWithSlack h.2

theorem refines_poolGraft (h : s.Clear now topic peer) :
    Refines strict now s (poolGraft now topic s peer) := by
  refine Overlay.Moves.before (view_controlPoolAdd ∅ _ _ _) (Overlay.Moves.after ?_ (moves_control_graft ?_))
  · exact view_modifyScore ∅ s _
  · exact h

@[simp] theorem backoffs_poolGraft (topic : TopicHash) (peer : PeerId) :
    (poolGraft now topic s peer).backoffs = s.backoffs := by
  simp [poolGraft]

theorem exists_penalizeGraft (s : Gossipsub P R F D) (now : Instant) (peer : PeerId)
    (backoffTime : Instant) :
    ∃ peerScore fault, s.penalizeGraft now peer backoffTime = { s with peerScore, fault } := by
  unfold penalizeGraft
  split
  · exact ⟨s.peerScore, s.fault, rfl⟩
  · dsimp only
    split
    · exact ⟨_, _, rfl⟩
    · split
      · exact ⟨_, s.fault, rfl⟩
      · exact ⟨_, s.fault, rfl⟩

theorem moves_removePeerFromMesh (leaving : Set (TopicHash × PeerId)) (peer : PeerId)
    (topic : TopicHash) (backoff : Option Nat) (alwaysUpdateBackoff : Bool) :
    Overlay.Moves strict now (s.view leaving)
      ((s.removePeerFromMesh now peer topic backoff alwaysUpdateBackoff).view
        (leaving \ {(topic, peer)})) := by
  unfold removePeerFromMesh
  dsimp only
  have hunlink : Overlay.Move strict now (s.view leaving)
      ((if decide (peer ∈ s.meshPeers topic) then
        (s.removeFromMesh topic peer).modifyScore (PeerScoring.prune peer topic)
        else s).view (leaving \ {(topic, peer)})) := by
    split
    · rw [view_modifyScore, view_removeFromMesh]
      exact .unlink
    · rename_i hmesh
      rw [view_of_notMem_mesh (of_decide_eq_false (Bool.eq_false_iff.mpr hmesh))]
      exact .unlink
  generalize (if decide (peer ∈ s.meshPeers topic) then _ else s) = s' at hunlink ⊢
  refine Relation.ReflTransGen.head hunlink ?_
  split
  · exact moves_updateBackoff topic peer _
  · exact .refl

theorem refines_pruneTopic (peer : PeerId) (belowThreshold : Bool)
    (prune : TopicHash × List PeerInfo × Option Nat) :
    Refines strict now s (pruneTopic now peer belowThreshold s prune) := by
  have hremove : Refines strict now s (s.removePeerFromMesh now peer prune.1 prune.2.2 true) := by
    have h : Overlay.Moves strict now s.overlay
        ((s.removePeerFromMesh now peer prune.1 prune.2.2 true).view (∅ \ {(prune.1, peer)})) :=
      moves_removePeerFromMesh ∅ peer prune.1 prune.2.2 true
    rwa [Set.empty_sdiff] at h
  unfold pruneTopic
  dsimp only
  split
  · exact Moves.before (view_pxConnect _) hremove
  · exact hremove

theorem moves_leaveMeshes (leaving : Set (TopicHash × PeerId)) (peer : PeerId)
    (topics : List TopicHash) :
    Overlay.Moves strict now (s.view leaving)
      ((topics.foldl (fun s topic => s.removePeerFromMesh now peer topic none false) s).view
        (leaving \ withTopics peer topics)) := by
  induction topics generalizing s leaving with
  | nil =>
    rw [withTopics_nil, Set.sdiff_empty]
    exact .refl
  | cons topic topics ih =>
    have hcons : leaving \ withTopics peer (topic :: topics) =
        (leaving \ {(topic, peer)}) \ withTopics peer topics := by
      ext ⟨t, p⟩
      simp only [withTopics, List.mem_cons, Set.mem_sdiff, Set.mem_ofPred_eq,
        Set.mem_singleton_iff, Prod.mk.injEq]
      tauto
    rw [hcons]
    exact (moves_removePeerFromMesh leaving peer topic none false).trans (ih _)

variable [ScoreArith R]

theorem refines_makePrune (topic : TopicHash) (peer : PeerId) (doPx : Bool) :
    Refines strict now s (s.makePrune now topic peer doPx).2 := by
  unfold makePrune
  dsimp only
  refine Overlay.Moves.after (view_modifyScore ∅ s (PeerScoring.prune peer topic)) ?_
  generalize s.modifyScore (PeerScoring.prune peer topic) = s
  split
  · rename_i hkind
    exact moves_control_prune (fun hne => absurd hkind hne)
  · generalize (if doPx then _ else _ : Finset PeerId × Rng) = r
    have hraise : Refines strict now s (s.updateBackoff now topic peer s.config.pruneBackoff) :=
      moves_updateBackoff topic peer _
    refine (Moves.before (view_setRng ∅ _ r.2) hraise).trans (moves_control_prune ?_)
    intro _ hp
    obtain ⟨b, hb, hle⟩ := covered_updateBackoff hp
    refine ⟨b, hb, ?_⟩
    rw [config_setRng, config_updateBackoff]
    exact hle

variable {p : PeerId}

theorem getBackoffTime_makePrune (topic : TopicHash) (doPx : Bool) (t : TopicHash) (hp : p ≠ peer) :
    (s.makePrune now topic peer doPx).2.backoffs.getBackoffTime t p =
      s.backoffs.getBackoffTime t p := by
  unfold makePrune
  dsimp only
  split
  · rw [backoffs_control, backoffs_modifyScore]
  · rw [backoffs_control, backoffs_setRng]
    exact getBackoffTime_updateBackoff_of_ne _ t hp

theorem refines_makePrunes (peer : PeerId) (doPx : Bool) (topics : List TopicHash) :
    Refines strict now s (makePrunes now peer doPx s topics).2 := by
  induction topics generalizing s with
  | nil => exact .refl
  | cons topic topics ih => exact (refines_makePrune topic peer doPx).trans ih

theorem getBackoffTime_makePrunes (doPx : Bool) (topics : List TopicHash) (t : TopicHash)
    (hp : p ≠ peer) :
    (makePrunes now peer doPx s topics).2.backoffs.getBackoffTime t p =
      s.backoffs.getBackoffTime t p := by
  induction topics generalizing s with
  | nil => rfl
  | cons topic topics ih => exact ih.trans (getBackoffTime_makePrune topic doPx t hp)

theorem refines_leave (topic : TopicHash) : Refines strict now s (s.leave now topic) := by
  unfold leave
  split
  · exact .refl
  · have hdrop : Overlay.Move strict now s.overlay (s.dropMesh topic).overlay := by
      rw [view_dropMesh]
      exact .unlink
    refine Relation.ReflTransGen.head hdrop ?_
    refine (Moves.foldl (v := overlay) (I := fun _ => True) (fun s _ p _ => ?_)
      trivial).1
    exact ⟨refines_makePrune topic p _, trivial⟩

theorem refines_unsubscribe (topic : TopicHash) :
    Refines strict now s (s.unsubscribe now topic).2 := by
  unfold unsubscribe
  dsimp only
  split
  · have hsend : ∀ (s' : Gossipsub P R F D) (rpc : Proto.Rpc) (peers : List PeerId),
        Refines strict now s' (sendAll now rpc s' peers).2 :=
      fun s' rpc peers => Refines.of_view (view_sendAll rpc peers)
    split
    · exact hsend (s.anyOrder s.peerTopics.keys).2 _ _
    · exact (hsend (s.anyOrder s.peerTopics.keys).2 _ _).trans (refines_leave topic)
  · exact .refl

/-! ## JOIN -/

theorem mem_fanoutToJoin_clear (h : p ∈ s.fanoutToJoin topic) : s.Clear now topic p := by
  have hmem := List.mem_of_mem_take (List.mem_toFinset.mp h)
  exact graftable_clear (List.mem_filter.mp hmem).2

theorem refines_joinFanout
    (h : strict → ∀ p ∈ s.fanoutToJoin topic, topic ∈ s.peerTopics[p]?.getD ∅) :
    Refines strict now s (s.joinFanout now topic).2 := by
  unfold joinFanout
  split
  · refine Moves.before (view_dropFanout ∅ _ topic) (moves_addToMesh ?_ ?_)
    · exact fun p hp => Or.inr (fun hs => h hs p hp)
    · exact fun p hp => mem_fanoutToJoin_clear hp
  · exact .refl

@[simp] theorem backoffs_joinFanout (topic : TopicHash) :
    (s.joinFanout now topic).2.backoffs = s.backoffs := by
  unfold joinFanout
  split <;> simp

theorem joinFanout_clear (hp : p ∈ (s.joinFanout now topic).1) : s.Clear now topic p := by
  unfold joinFanout at hp
  split at hp
  · exact mem_fanoutToJoin_clear hp
  · exact absurd hp (Finset.notMem_empty p)

theorem refines_joinRandom (topic : TopicHash) (added : Finset PeerId) :
    Refines strict now s (s.joinRandom now topic added).2 := by
  unfold joinRandom
  split
  · refine Moves.before (view_setRng ∅ _ _) (moves_addToMesh ?_ ?_)
    · exact fun p hp => Or.inl (mem_getRandomPeersDynamic hp).1
    · intro p hp
      have hf := (mem_getRandomPeersDynamic hp).2.1
      rw [Bool.and_eq_true] at hf
      exact graftable_clear hf.2
  · exact .refl

@[simp] theorem backoffs_joinRandom (topic : TopicHash) (added : Finset PeerId) :
    (s.joinRandom now topic added).2.backoffs = s.backoffs := by
  unfold joinRandom
  split <;> simp

theorem joinRandom_clear {added : Finset PeerId} (h : ∀ p ∈ added, s.Clear now topic p)
    (hp : p ∈ (s.joinRandom now topic added).1) : s.Clear now topic p := by
  unfold joinRandom at hp
  split at hp
  · rcases Finset.mem_union.mp hp with hp | hp
    · exact h p hp
    · have hf := (mem_getRandomPeersDynamic hp).2.1
      rw [Bool.and_eq_true] at hf
      exact graftable_clear hf.2
  · exact h p hp

theorem refines_join (h : strict → ∀ p ∈ s.fanoutToJoin topic, topic ∈ s.peerTopics[p]?.getD ∅) :
    Refines strict now s (s.join now topic) := by
  unfold join
  split
  · exact .refl
  · refine (refines_joinFanout h).trans
      ((refines_joinRandom topic (s.joinFanout now topic).1).trans ?_)
    -- the GRAFTs change no backoff, so what was clear at the start is clear at each of them
    refine Overlay.Moves.after (view_anyOrder ∅ _ (sorted _)) (Overlay.Moves.foldl (v := overlay)
      (I := fun s' : Gossipsub P R F D => s'.backoffs = s.backoffs) (fun s' hs' p hp => ?_)
      (by simp)).1
    have hadded := mem_sorted.mp (Rng.mem_shuffle.mp hp)
    have hclear : s.Clear now topic p := by
      refine (joinRandom_clear (fun q hq => ?_) hadded).congr (by simp)
      exact (joinFanout_clear hq).congr (by simp)
    exact ⟨refines_poolGraft (hclear.congr (by rw [hs'])), (backoffs_poolGraft topic p).trans hs'⟩

theorem refines_subscribe [TopicSubscriptionFilter F]
    (h : strict → ∀ p ∈ s.fanoutToJoin topic, topic ∈ s.peerTopics[p]?.getD ∅) :
    Refines strict now s (s.subscribe now topic).2 := by
  unfold subscribe
  dsimp only
  split
  · exact Refines.of_view (view_setFilter ∅ s _)
  · split
    · exact Refines.of_view (view_setFilter ∅ s _)
    · generalize hs' : s.setFilter _ = s'
      have hview : s'.overlay = s.overlay := hs' ▸ view_setFilter ∅ s _
      have hsent : (sendAll now (announcement .subscribe topic) (s'.anyOrder s'.peerTopics.keys).2
          (s'.anyOrder s'.peerTopics.keys).1).2.overlay = s.overlay := by
        rw [overlay, view_sendAll, view_anyOrder]
        exact hview
      split
      · exact Refines.of_view hsent
      · refine Overlay.Moves.after hsent (refines_join (fun hs => ?_))
        obtain ⟨trace, hsend⟩ := exists_sendAll now (announcement .subscribe topic)
          (s'.anyOrder s'.peerTopics.keys).1 (s'.anyOrder s'.peerTopics.keys).2
        rw [hsend, ← hs']
        exact h hs

/-! ## GRAFT -/

def acceptsGraft (s : Gossipsub P R F D) (now : Instant) (peer : PeerId) (topic : TopicHash) :
    Bool :=
  match s.mesh[topic]? with
  | none => false
  | some peers =>
    decide (peer ∉ s.explicitPeers) && decide (peer ∉ peers) &&
      ((s.backoffs.getBackoffTime topic peer).filter (now < ·)).isNone &&
      !s.scoreBelowThreshold peer zeroThreshold &&
      (decide (peers.card < s.config.meshNHigh) || decide (peer ∈ s.outboundPeers))

theorem refines_graftTopic (hexplicit : peer ∉ s.explicitPeers)
    (h : strict → s.acceptsGraft now peer topic → topic ∈ s.peerTopics[peer]?.getD ∅)
    (hacc : GraftInvariant s peer acc.state) :
    let acc' := graftTopic now peer (s.scoreBelowThreshold peer zeroThreshold) acc topic
    Refines strict now acc.state acc'.state ∧ GraftInvariant s peer acc'.state := by
  unfold graftTopic
  split
  · exact ⟨.refl, hacc⟩
  · rename_i peers hmesh
    split
    · exact ⟨.refl, hacc⟩
    · rename_i hpeer
      split
      · -- within the backoff time
        rename_i backoffTime hbackoff
        obtain ⟨peerScore, fault, heq⟩ :=
          exists_penalizeGraft acc.state now peer backoffTime
        rw [heq]
        exact ⟨.refl, ⟨hacc.backoffs, hacc.config, hacc.outboundPeers, hacc.peerTopics, hacc.mesh⟩⟩
      · rename_i hbackoff
        split
        · exact ⟨.refl, hacc⟩
        · rename_i hscore
          split
          · exact ⟨.refl, hacc⟩
          · rename_i hsize
            refine ⟨Moves.before (view_modifyScore ∅ _ _) (moves_addToMesh ?_ ?_),
              hacc.addToMesh topic _⟩
            · intro p hp
              cases Finset.mem_singleton.mp hp
              refine Or.inr (fun hs => ?_)
              rw [hacc.peerTopics]
              refine h hs ?_
              rw [hacc.config, hacc.outboundPeers, not_and_or, Nat.not_le, not_not] at hsize
              rw [hacc.backoffs] at hbackoff
              unfold acceptsGraft
              rw [hacc.mesh topic peers hmesh hpeer]
              simp [hexplicit, hpeer, hbackoff, hscore, hsize]
            · intro p hp b hb
              cases Finset.mem_singleton.mp hp
              simpa using Option.filter_eq_none_iff.mp hbackoff b hb

theorem refines_graftTopics
    (h : strict → ∀ t ∈ topics, s.acceptsGraft now peer t → t ∈ s.peerTopics[peer]?.getD ∅) :
    Refines strict now s (s.graftTopics now peer topics).state := by
  unfold graftTopics
  split
  · exact .refl
  · rename_i hexplicit
    have hstart : GraftInvariant s peer s := ⟨rfl, rfl, rfl, rfl, fun _ _ hmesh _ => hmesh⟩
    exact (Moves.foldl (v := fun acc : GraftAcc P R F D => acc.state.overlay)
      (I := fun acc => GraftInvariant s peer acc.state)
      (fun acc hacc t ht => refines_graftTopic hexplicit (fun hs => h hs t ht) hacc)
      (s := ⟨s, ∅, s.config.doPx⟩) hstart).1

theorem refines_handleGraft
    (h : strict → ∀ t ∈ topics, s.acceptsGraft now peer t → t ∈ s.peerTopics[peer]?.getD ∅) :
    Refines strict now s (s.handleGraft now peer topics) := by
  unfold handleGraft
  dsimp only
  split
  · exact refines_graftTopics h
  · refine (refines_graftTopics h).trans (Moves.before (view_trySend peer _) ?_)
    exact Overlay.Moves.after (view_anyOrder ∅ _ (sorted _)) (refines_makePrunes peer _ _)

/-! ## PRUNE -/

theorem refines_handlePrune (peer : PeerId)
    (pruneData : List (TopicHash × List PeerInfo × Option Nat)) :
    Refines strict now s (s.handlePrune now peer pruneData) :=
  (Moves.foldl (v := overlay) (I := fun _ => True)
    (fun _ _ prune _ => ⟨refines_pruneTopic peer _ prune, trivial⟩) trivial).1

/-! ## Subscriptions of a peer -/

/-- The overlay while the subscriptions of the peer are gone through. -/
def SubscriptionAcc.overlay (peer : PeerId) (acc : SubscriptionAcc P R F D) :
    Overlay TopicHash PeerId Instant :=
  acc.state.view (withTopics peer acc.unsubscribed)

theorem moves_graftSubscriber {acc : SubscriptionAcc P R F D}
    (hlisted : peer ∈ acc.state.topicPeers[topic]?.getD ∅) :
    Overlay.Moves strict now (acc.overlay peer) ((graftSubscriber now peer topic acc).overlay peer) ∧
      (graftSubscriber now peer topic acc).state.peerTopics = acc.state.peerTopics := by
  unfold graftSubscriber
  dsimp only
  split
  · rename_i hgossip
    have hclear : acc.state.Clear now topic peer :=
      graftable_clear (Bool.and_eq_true_iff.mp hgossip).2
    split
    · exact ⟨.refl, rfl⟩
    · split
      · constructor
        · refine (moves_addToMesh ?_ ?_).trans
            (Overlay.Moves.after (view_modifyScore _ _ _) (moves_control_graft ?_))
          · exact fun p hp => Or.inl (Finset.mem_singleton.mp hp ▸ hlisted)
          · exact fun p hp => Finset.mem_singleton.mp hp ▸ hclear
          · exact hclear.congr (by simp)
        · obtain ⟨trace, hadd⟩ := exists_addToMesh acc.state now topic {peer}
          obtain ⟨trace', hcontrol⟩ := exists_emit
            ((acc.state.addToMesh now topic {peer}).modifyScore (PeerScoring.graft peer topic)) now
            (.control peer _ (.graft topic))
          unfold control
          rw [hcontrol, hadd]
          rfl
      · exact ⟨.refl, rfl⟩
  · exact ⟨.refl, rfl⟩

theorem moves_handleSubscription {acc : SubscriptionAcc P R F D}
    (subscription : GossipsubSubscription) (hknown : peer ∈ acc.state.peerTopics) :
    Overlay.Moves strict now (acc.overlay peer)
        ((handleSubscription now peer acc subscription).overlay peer) ∧
      peer ∈ (handleSubscription now peer acc subscription).state.peerTopics := by
  unfold handleSubscription
  dsimp only
  split
  · generalize hsub : acc.state.addSubscription peer subscription.topicHash = s'
    have hview : s'.view (withTopics peer acc.unsubscribed) =
        (acc.overlay peer).subscribe (subscription.topicHash, peer) := by
      rw [← hsub]
      exact view_addSubscription hknown
    have hlisted : peer ∈ s'.topicPeers[subscription.topicHash]?.getD ∅ := by
      have : (subscription.topicHash, peer) ∈ (s'.view (withTopics peer acc.unsubscribed)).listed := by
        rw [hview]
        exact Set.mem_insert _ _
      exact this
    have hgraft : Overlay.Moves strict now (SubscriptionAcc.overlay peer { acc with state := s' })
          ((graftSubscriber now peer subscription.topicHash { acc with state := s' }).overlay peer) ∧
        (graftSubscriber now peer subscription.topicHash
          { acc with state := s' }).state.peerTopics = s'.peerTopics :=
      moves_graftSubscriber hlisted
    obtain ⟨hmoves, htopics⟩ := hgraft
    constructor
    · refine Relation.ReflTransGen.head ?_ hmoves
      unfold SubscriptionAcc.overlay
      dsimp only
      rw [hview]
      exact .subscribe hknown
    · rw [htopics, ← hsub]
      exact TreeMap.mem_modify.mpr hknown
  · constructor
    · refine Relation.ReflTransGen.single ?_
      unfold SubscriptionAcc.overlay
      dsimp only
      rw [withTopics_concat, view_removeSubscription]
      exact .unsubscribe
    · exact TreeMap.mem_modify.mpr hknown

theorem moves_foldl_handleSubscription (subscriptions : List GossipsubSubscription)
    (hknown : peer ∈ s.peerTopics) :
    Overlay.Moves strict now s.overlay
      ((subscriptions.foldl (handleSubscription now peer) ⟨s, [], []⟩).overlay peer) := by
  have hstart : SubscriptionAcc.overlay peer ⟨s, [], []⟩ = s.overlay := by
    rw [SubscriptionAcc.overlay, withTopics_nil]
  rw [← hstart]
  exact (Moves.foldl (v := SubscriptionAcc.overlay peer)
    (I := fun acc : SubscriptionAcc P R F D => peer ∈ acc.state.peerTopics)
    (fun acc hacc sub _ => moves_handleSubscription sub hacc) hknown).1

theorem refines_handleReceivedSubscriptions [TopicSubscriptionFilter F]
    (subscriptions : List GossipsubSubscription) (peer : PeerId) :
    Refines strict now s (s.handleReceivedSubscriptions now subscriptions peer) := by
  unfold handleReceivedSubscriptions
  split
  · exact .refl
  · rename_i topics htopics
    have hknown : peer ∈ s.peerTopics := by
      rw [TreeMap.mem_iff_isSome_getElem?, htopics]
      rfl
    dsimp only
    split
    · exact Refines.of_view (view_setFilter ∅ s _)
    · rename_i filtered _
      generalize hs' : s.setFilter _ = s'
      have hloop : Overlay.Moves strict now s.overlay
          (((s'.anyOrder filtered).1.foldl (handleSubscription now peer)
            ⟨(s'.anyOrder filtered).2, [], []⟩).overlay peer) :=
        Overlay.Moves.after (hs' ▸ rfl) (moves_foldl_handleSubscription _ (hs' ▸ hknown))
      generalize hacc : (s'.anyOrder filtered).1.foldl (handleSubscription now peer)
        ⟨(s'.anyOrder filtered).2, [], []⟩ = acc at hloop ⊢
      have hleave : Overlay.Moves strict now (acc.overlay peer)
          ((acc.unsubscribed.foldl (fun s topic => s.removePeerFromMesh now peer topic none false)
            acc.state).view (withTopics peer acc.unsubscribed \ withTopics peer acc.unsubscribed)) :=
        moves_leaveMeshes _ peer acc.unsubscribed
      rw [Set.sdiff_self] at hleave
      split
      · exact hloop.trans hleave
      · exact Moves.before (view_trySend peer _) (hloop.trans hleave)

end Scored

end Libp2pRs.Gossip.Gossipsub
