import Libp2pRs.Gossip.StepConduct

/-!
# The event loop refines the overlay

* `overlay_handleNewPeer`: a new peer is a `connect` of the overlay, unless it is blacklisted.
* `refines_handle`: every other input makes moves. They are strict when the peers that the input
  brings into the mesh, by an accepted GRAFT or from the fanout, have announced the topic.
-/

namespace Libp2pRs.Gossip.Gossipsub

open Lib Libp2pRs.Core Std Overlay

variable {P R F D : Type} {strict : Prop} {now : Instant}
  {leaving : Set (TopicHash × PeerId)} {s : Gossipsub P R F D}

/-! ## Peers -/

theorem view_openChannel (peer : PeerId) : (s.openChannel now peer).view leaving =
      { s.view leaving with connected := insert peer (s.view leaving).connected } := by
  unfold openChannel
  rw [view_emitAll]
  · simp only [view]
    rw [setOf_mem_insert]
  · intro o ho
    rcases List.mem_append.mp ho with ho | ho
    · obtain ⟨channel, -, rfl⟩ := List.mem_map.mp ho
      rfl
    · cases List.mem_singleton.mp ho
      rfl

theorem view_announceTo (peer : PeerId) :
    (s.announceTo now peer).view leaving = s.view leaving := by
  unfold announceTo
  dsimp only
  split
  · rfl
  · rw [view_trySend, view_anyOrder]

theorem view_resetTopics (peer : PeerId) : (s.resetTopics peer).view leaving =
      { s.view leaving with
        announced := (s.view leaving).announced \ {x | x.2 = peer}
        known := insert peer (s.view leaving).known } := by
  simp only [view, resetTopics]
  rw [pairs_insert_empty, setOf_mem_insert]
  rfl

theorem overlay_handleNewPeer [PeerScoring P R] (peer : PeerId) :
    (s.handleNewPeer now peer).overlay =
      if peer ∈ s.blacklistedPeers then s.overlay else s.overlay.connect peer := by
  unfold handleNewPeer
  split
  · rfl
  · rw [overlay, view_modifyScore, view_resetTopics, view_announceTo, view_openChannel]
    rfl

theorem view_forgetIn (peer : PeerId) (topic : TopicHash) :
    (forgetIn peer s topic).view leaving = (s.view leaving).forget {(topic, peer)} := by
  simp only [view, forget, forgetIn]
  rw [pairs_modify_erase, pairs_modify_erase]

theorem view_foldl_forgetIn (peer : PeerId) (topics : List TopicHash) :
    (topics.foldl (forgetIn peer) s).view leaving =
      (s.view leaving).forget (withTopics peer topics) := by
  induction topics generalizing s with
  | nil =>
    rw [withTopics_nil]
    simp [forget]
  | cons topic topics ih =>
    have hcons : withTopics peer (topic :: topics) = {(topic, peer)} ∪ withTopics peer topics := by
      ext ⟨t, p⟩
      simp only [withTopics, List.mem_cons, Set.mem_union, Set.mem_ofPred_eq,
        Set.mem_singleton_iff, Prod.mk.injEq]
      tauto
    rw [List.foldl_cons, ih, view_forgetIn, forget_forget, hcons]

theorem view_dropPeer (peer : PeerId) : (s.dropPeer peer).view leaving = { s.view leaving with
        announced := (s.view leaving).announced \ {x | x.2 = peer}
        known := (s.view leaving).known \ {peer}
        connected := (s.view leaving).connected \ {peer} } := by
  simp only [view, dropPeer]
  rw [pairs_erase, setOf_mem_erase, setOf_mem_erase]
  rfl

theorem overlay_handleRemoveDeadPeer [PeerScoring P R] (h : s.peerTopics[peer]? = some topics) :
    (s.handleRemoveDeadPeer now peer).overlay = s.overlay.disconnect peer := by
  have htopics : withTopics peer (sorted topics) = {x | x ∈ s.overlay.announced ∧ x.2 = peer} := by
    ext ⟨t, p⟩
    simp only [withTopics, mem_sorted, Set.mem_ofPred_eq]
    refine and_congr_left ?_
    rintro rfl
    change t ∈ topics ↔ t ∈ s.peerTopics[p]?.getD ∅
    rw [h, Option.getD_some]
  unfold handleRemoveDeadPeer
  rw [h]
  rw [overlay, view_modifyScore, view_dropPeer, view_foldl_forgetIn, htopics]
  rfl

theorem refines_handleRemoveDeadPeer [PeerScoring P R] (peer : PeerId) :
    Refines strict now s (s.handleRemoveDeadPeer now peer) := by
  cases h : s.peerTopics[peer]? with
  | none =>
    unfold handleRemoveDeadPeer
    rw [h]
    exact .refl
  | some topics =>
    exact Moves.before (overlay_handleRemoveDeadPeer h) (Relation.ReflTransGen.single .disconnect)

/-! ## RPCs -/

section Scored

variable [ScoreArith R] [PeerScoring P R]

theorem refines_handleGraftPrune (h : strict → ∀ t ∈ rpc.grafts,
      s.acceptsGraft now source t → t ∈ s.peerTopics[source]?.getD ∅) :
    Refines strict now s (s.handleGraftPrune now rpc source) := by
  have hgrafts : Refines strict now s
      (if rpc.grafts.isEmpty then s else s.handleGraft now source rpc.grafts) := by
    split
    · exact .refl
    · exact refines_handleGraft h
  unfold handleGraftPrune
  generalize (if rpc.grafts.isEmpty then s else s.handleGraft now source rpc.grafts) = s'
    at hgrafts ⊢
  split
  · exact hgrafts
  · exact hgrafts.trans (refines_handlePrune source _)

theorem refines_handleSubscriptions [TopicSubscriptionFilter F] (rpc : GossipsubRpc)
    (source : PeerId) : Refines strict now s (s.handleSubscriptions now rpc source) := by
  unfold handleSubscriptions
  split
  · exact .refl
  · exact refines_handleReceivedSubscriptions _ _

theorem overlay_handleCall (call : Call P R) : (s.handleCall now call).overlay = s.overlay := by
  cases call with
  | addExplicitPeer peer =>
    unfold handleCall checkExplicitPeerConnection
    dsimp only
    split
    · rfl
    · exact view_emit rfl
  | reportMessageValidationResult id source acceptance =>
    exact (conducts_reportMessageValidationResult (fun _ => trivial)).still.1
  | withPeerScore peerScore thresholds =>
    rw [handleCall]
    split <;> rfl
  | _ => rfl

theorem refines_heartbeat : Refines strict now s (s.heartbeat now) := by
  have hclean : Refines strict now s (s.tick.cleanBackoffs now).clearCounts :=
    Overlay.Moves.after (by rfl) refines_cleanBackoffs
  have hprepared : Refines strict now s (s.prepared now) :=
    Moves.before conducts_penalties.still.1 hclean
  rw [heartbeat_eq]
  refine hprepared.trans ?_
  generalize s.prepared now = s₁
  have hupkept := s₁.upkept_maintainMesh now
  generalize s₁.maintainMesh now = acc at hupkept ⊢
  refine (hupkept.moves strict).trans ?_
  have hquiet : Conducts .messages now acc.state _ := conducts_gossip (fun _ _ => trivial)
  have hgossip := hquiet.still.1
  unfold concluded
  dsimp only
  generalize emitGossip (acc.state.maintainFanout now).gossipTopics.2
    (acc.state.maintainFanout now).gossipTopics.1 = s₂ at hgossip ⊢
  have hclear : ∀ p, ∀ t ∈ acc.toGraft[p]?.getD [], s₂.Clear now t p := by
    intro p t ht b hb
    have hbackoffs : acc.state.backoffs = s₁.backoffs := by rw [hupkept.frame]
    refine hupkept.clear p t ht b ?_
    rw [← hb, ← hbackoffs]
    exact congrFun (congrArg backoff hgossip).symm (t, p)
  have hsend : Refines strict now acc.state
      (s₂.sendGraftPrune now acc.toGraft acc.toPrune acc.noPx) :=
    Overlay.Moves.after hgossip (refines_sendGraftPrune hclear)
  exact Moves.before (conducts_flush (fun _ _ _ _ _ => trivial)).still.1 hsend

variable [DataTransform D]

theorem conducts_handleContents (rpc : GossipsubRpc) (source : PeerId)
    (invalidMessages : List (RawGossipsubMessage × ValidationError)) :
    Conducts .messages now s (s.handleContents now rpc source invalidMessages) := by
  have hmessages : Conducts .messages now s (s.handleMessages now rpc source invalidMessages) := by
    exact Conducts.silent (conducts_receipts (fun _ _ _ _ => ⟨trivial, fun _ _ => trivial⟩))
      (tracked_punish source invalidMessages)
  exact hmessages.trans (conducts_handleGossip rpc source)

/-! ## The loop -/

variable [TopicSubscriptionFilter F]

/-- The peers that the input brings into the mesh by a GRAFT or from the fanout have announced the
topic. A GRAFT is looked at in the state in which it is handled. -/
def linksAnnounced (s : Gossipsub P R F D) (now : Instant) : Input P R → Bool
  | .event (.message source rpc invalidMessages) =>
    let s₁ := s.handleSubscriptions now rpc source
    let s₂ := s₁.handleContents now rpc source invalidMessages
    s₁.scoreBelowThreshold source PeerScoreThresholds.graylistThreshold ||
      rpc.grafts.all (fun t =>
        !s₂.acceptsGraft now source t || decide (t ∈ s₂.peerTopics[source]?.getD ∅))
  | .command (.subscribe topic) =>
    decide (∀ p ∈ s.fanoutToJoin topic, topic ∈ s.peerTopics[p]?.getD ∅)
  | _ => true

theorem refines_handleMessageEvent
    (h : strict → s.linksAnnounced now (.event (.message source rpc invalidMessages))) :
    Refines strict now s (s.handleMessageEvent now rpc source invalidMessages) := by
  unfold handleMessageEvent
  dsimp only
  refine (refines_handleSubscriptions rpc source).trans ?_
  split
  · exact .refl
  · rename_i hscore
    refine Overlay.Moves.after (conducts_handleContents rpc source invalidMessages).still.1
      (refines_handleGraftPrune (fun hs t ht haccept => ?_))
    have hall := h hs
    unfold linksAnnounced at hall
    simp only [Bool.eq_false_iff.mpr hscore, Bool.false_or, List.all_eq_true] at hall
    simpa [haccept] using hall t ht

theorem refines_handleCommand (h : strict → s.linksAnnounced now (.command command)) :
    Refines strict now s (s.handleCommand now command) := by
  cases command with
  | publish topic data =>
    exact Refines.of_view ((view_emit rfl).trans (conducts_publish (fun _ _ _ => trivial)).still.1)
  | subscribe topic =>
    have hreply : ∀ (s' : Gossipsub P R F D) (r : Except SubscriptionError Bool),
        (s'.replySubscribe now topic r).overlay = s'.overlay := by
      intro s' r
      unfold replySubscribe
      split
      · exact view_emit rfl
      · exact view_emit rfl
      · exact view_emit rfl
    exact Moves.before (hreply _ _) (refines_subscribe (fun hs => of_decide_eq_true (h hs)))
  | unsubscribed topic =>
    have hclose : ∀ s' : Gossipsub P R F D, (s'.closeTopic now topic).overlay = s'.overlay := by
      intro s'
      unfold closeTopic
      split
      · rfl
      · exact view_emit rfl
    exact Moves.before (hclose _) (refines_unsubscribe topic)
  | heartbeat =>
    rw [handleCommand]
    exact refines_heartbeat

theorem refines_handle (hnew : ∀ p, input ≠ .event (.newPeer p))
    (h : strict → s.linksAnnounced now input) : Refines strict now s (s.handle now input) := by
  cases input with
  | event e =>
    cases e with
    | peerKind peer kind => exact Refines.of_view rfl
    | newPeer peer => exact absurd rfl (hnew peer)
    | deadPeer peer => exact refines_handleRemoveDeadPeer peer
    | message source rpc invalidMessages => exact refines_handleMessageEvent h
    | heartBeat =>
      rw [handle, handleEvent]
      exact refines_heartbeat
  | command c => exact refines_handleCommand h
  | cancel topic sub => exact refines_unsubscribe topic
  | call c => exact Refines.of_view (overlay_handleCall c)

end Scored

end Libp2pRs.Gossip.Gossipsub
