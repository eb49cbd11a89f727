import Libp2pRs.Gossip.Effects

/-!
# The conduct of the handlers

The handlers of the mesh and the heartbeat have effects only, and those that depend on the input
are granted by it.
-/

namespace Libp2pRs.Gossip

open Lib Libp2pRs.Core Std

namespace Gossipsub

variable {P R F D : Type} {g : Grant} {now : Instant} {s : Gossipsub P R F D}

/-! ## Joining and leaving -/

theorem conducts_control [hg : Fact g.tend] (peer : PeerId) (action : ControlAction) :
    Conducts g now s (s.control now peer action) :=
  conducts_emit hg.out

theorem sends_announcement (action : SubscriptionAction) (topic : TopicHash) :
    s.tracked.Sends g (announcement action topic) :=
  Tracked.sends_intoProtobuf (by simp) (by simp)

variable {topic : TopicHash}

theorem mem_mesh_of_getElem? (h : s.mesh[topic]? = some peers) : topic ∈ s.mesh := by
  rw [TreeMap.mem_iff_isSome_getElem?, h]
  rfl

theorem meshPeers_of_getElem? (h : s.mesh[topic]? = some peers) : s.meshPeers topic = peers := by
  rw [meshPeers, h]
  rfl

theorem conducts_pxConnect (px : List PeerInfo) : Conducts g now s (s.pxConnect now px) := by
  have hdial : ∀ r : List PeerId × Gossipsub P R F D, Conducts g now r.2
      ((r.1.take s.config.prunePeers).foldl (fun s p =>
        emit { s with pxPeers := insert p s.pxPeers } now (.dial p)) r.2) := by
    intro r
    refine Conducts.foldl (fun s' p _ => ?_) r.2
    exact Conducts.silent (conducts_emit trivial) (by rfl)
  refine (hdial _).silent ?_
  split <;> rfl

theorem emit_dropFanout (o : Output) (topic : TopicHash) :
    (s.dropFanout topic).emit now o = (s.emit now o).dropFanout topic := by
  have hpanicked : (s.dropFanout topic).panicked = s.panicked := rfl
  unfold emit
  rw [hpanicked]
  split <;> rfl

theorem emitAll_dropFanout (os : List Output) (topic : TopicHash) :
    (s.dropFanout topic).emitAll now os = (s.emitAll now os).dropFanout topic := by
  unfold emitAll
  induction os generalizing s with
  | nil => rfl
  | cons o os ih => rw [List.foldl_cons, List.foldl_cons, emit_dropFanout, ih]

theorem addToMesh_dropFanout (topic : TopicHash) (peers : Finset PeerId) :
    (s.dropFanout topic).addToMesh now topic peers =
      (s.addToMesh now topic peers).dropFanout topic := by
  unfold addToMesh
  rw [← emitAll_dropFanout]
  rfl

theorem conducts_dropFanout (topic : TopicHash) : Conducts g now s (s.dropFanout topic) :=
  Moves.single .unfan

theorem conducts_addSubscription [hg : Fact g.tend] (peer : PeerId) (topic : TopicHash) :
    Conducts g now s (s.addSubscription peer topic) :=
  Moves.single (.announce hg.out (fun _ => TreeMap.mem_modify))

theorem conducts_removeSubscription [hg : Fact g.tend] (peer : PeerId) (topic : TopicHash) :
    Conducts g now s (s.removeSubscription peer topic) :=
  Moves.single (.announce hg.out (fun _ => TreeMap.mem_modify))

section Mesh

variable [PeerScoring P R]

variable {peer : PeerId}

theorem conducts_penalizeGraft (h : s.backoffs.getBackoffTime topic peer = some backoffTime) :
    Conducts g now s (s.penalizeGraft now peer backoffTime) := by
  unfold penalizeGraft
  split
  · exact Moves.refl
  · dsimp only
    split
    · rename_i hadd
      refine Moves.single (.panic (.flood h ?_))
      unfold Instant.checkedAdd at hadd
      split at hadd
      · cases hadd
      · rename_i hmax
        exact Nat.lt_of_not_le hmax
    · split <;> exact Moves.refl

variable [Fact g.tend]

theorem conducts_poolGraft (topic : TopicHash) (peer : PeerId) :
    Conducts g now s (poolGraft now topic s peer) := by
  have hcontrol : Conducts g now s ((s.modifyScore (PeerScoring.graft peer topic)).control now peer
      (.graft topic)) := (conducts_control peer (.graft topic)).silent (by rfl)
  refine hcontrol.trans (conducts_controlPoolAdd ?_)
  simp [ControlAction.offers]

theorem conducts_graftTopic (peer : PeerId) (belowZero : Bool) (acc : GraftAcc P R F D)
    (topic : TopicHash) :
    Conducts g now acc.state (graftTopic now peer belowZero acc topic).state := by
  unfold graftTopic
  split
  · exact Moves.refl
  · rename_i peers hpeers
    split
    · exact Moves.refl
    · split
      · rename_i hbackoff
        exact conducts_penalizeGraft (Option.filter_eq_some_iff.mp hbackoff).1
      · split
        · exact Moves.refl
        · split
          · exact Moves.refl
          · rename_i hroom
            refine conducts_addToMesh (.inl (mem_mesh_of_getElem? hpeers)) (fun _ hout => ?_)
            rw [meshPeers_of_getElem? hpeers]
            rw [hout] at hroom
            have hcard := Finset.card_union_le peers {peer}
            rw [Finset.card_singleton] at hcard
            have hfew : peers.card < acc.state.config.meshNHigh := by
              by_contra hmany
              exact hroom ⟨Nat.le_of_not_lt hmany, Finset.notMem_empty peer⟩
            omega

theorem conducts_removePeerFromMesh {backoff : Option Nat} {always : Bool}
    (h : ∀ b, backoff = some b → g.backoff (Duration.fromSecs b)) :
    Conducts g now s (s.removePeerFromMesh now peer topic backoff always) := by
  have htime : ∀ s : Gossipsub P R F D,
      backoff.elim s.config.pruneBackoff Duration.fromSecs = s.config.pruneBackoff ∨
        g.backoff (backoff.elim s.config.pruneBackoff Duration.fromSecs) := by
    intro s
    cases backoff with
    | none => exact .inl rfl
    | some b => exact .inr (h b rfl)
  unfold removePeerFromMesh
  dsimp only
  by_cases hmem : peer ∈ s.meshPeers topic
  · rw [if_pos (decide_eq_true hmem), decide_eq_true hmem, Bool.true_or, if_pos rfl]
    exact (conducts_removeFromMesh topic peer).trans
      ((conducts_updateBackoff (htime _)).silent (by rfl))
  · rw [decide_eq_false hmem, Bool.false_or, if_neg Bool.false_ne_true]
    split
    · exact conducts_updateBackoff (htime s)
    · exact Moves.refl

variable [ScoreArith R]

theorem card_fanoutToJoin_le (topic : TopicHash) :
    (s.fanoutToJoin topic).card ≤ s.config.meshN :=
  (List.toFinset_card_le _).trans (List.length_take_le _ _)

theorem exists_joinFanout (s : Gossipsub P R F D) (now : Instant) (topic : TopicHash) :
    ∃ mesh fanout fanoutLastPub trace,
      (s.joinFanout now topic).2 = { s with mesh, fanout, fanoutLastPub, trace } := by
  unfold joinFanout
  split
  · obtain ⟨trace, h⟩ := exists_addToMesh s now topic (s.fanoutToJoin topic)
    dsimp only
    rw [h]
    exact ⟨_, _, _, trace, rfl⟩
  · exact ⟨s.mesh, s.fanout, s.fanoutLastPub, s.trace, rfl⟩

theorem meshPeers_joinFanout (now : Instant) (hmesh : s.meshPeers topic = ∅) :
    (s.joinFanout now topic).2.meshPeers topic = (s.joinFanout now topic).1 := by
  unfold joinFanout
  split
  · have hadd := meshPeers_addToMesh s now topic topic (s.fanoutToJoin topic)
    rw [if_pos rfl, hmesh, Finset.empty_union] at hadd
    exact hadd
  · exact hmesh

theorem notMem_fanout_joinFanout (now : Instant) (topic : TopicHash) :
    topic ∉ (s.joinFanout now topic).2.fanout := by
  unfold joinFanout
  split
  · exact fun h => (TreeMap.mem_erase.mp h).1 compare_self
  · rename_i hnot
    exact fun h => hnot (TreeMap.contains_iff_mem.mpr h)

theorem conducts_joinFanout (hjoin : g.join topic) (hmesh : s.meshPeers topic = ∅) :
    Conducts g now s (s.joinFanout now topic).2 := by
  unfold joinFanout
  split
  · dsimp only
    rw [← addToMesh_dropFanout]
    refine (conducts_dropFanout topic).trans
      (conducts_addToMesh (.inr ⟨hjoin, ?_⟩) (fun hbuilt _ => ?_))
    · exact fun h => (TreeMap.mem_erase.mp h).1 compare_self
    · change (s.meshPeers topic ∪ _).card ≤ s.config.meshNHigh
      rw [hmesh, Finset.empty_union]
      exact (card_fanoutToJoin_le topic).trans hbuilt.mesh_high
  · exact Moves.refl

theorem conducts_joinRandom (hjoin : g.join topic)
    (hfanout : topic ∉ s.fanout) (hmesh : s.meshPeers topic = added) :
    Conducts g now s (s.joinRandom now topic added).2 := by
  unfold joinRandom
  split
  · rename_i hfew
    refine Conducts.setRng (conducts_addToMesh (.inr ⟨hjoin, hfanout⟩) (fun hbuilt _ => ?_)) _
    rw [hmesh]
    refine (Finset.card_union_le _ _).trans ((Nat.add_le_add_left card_getRandomPeers_le _).trans ?_)
    rw [Nat.add_sub_cancel' hfew.le]
    exact hbuilt.mesh_high
  · exact Moves.refl

theorem conducts_join (hjoin : g.join topic) : Conducts g now s (s.join now topic) := by
  unfold join
  split
  · exact Moves.refl
  · rename_i hcontains
    have hmesh : s.meshPeers topic = ∅ := by
      rw [meshPeers, TreeMap.getElem?_eq_none (fun h => hcontains (TreeMap.contains_iff_mem.mpr h))]
      rfl
    have hfanout : Conducts g now s (s.joinFanout now topic).2 := conducts_joinFanout hjoin hmesh
    have hmesh' := meshPeers_joinFanout now hmesh
    have hgone := notMem_fanout_joinFanout (s := s) now topic
    dsimp only
    generalize s.joinFanout now topic = r1 at hfanout hmesh' hgone ⊢
    have hrandom : Conducts g now r1.2 (r1.2.joinRandom now topic r1.1).2 :=
      conducts_joinRandom hjoin hgone hmesh'
    generalize r1.2.joinRandom now topic r1.1 = r2 at hrandom ⊢
    have hpool : ∀ order : List PeerId × Gossipsub P R F D,
        Conducts g now order.2 (order.1.foldl (poolGraft now topic) order.2) :=
      fun order => Conducts.foldl (fun _ peer _ => conducts_poolGraft topic peer) order.2
    exact hfanout.trans (hrandom.trans ((hpool _).silent (by rfl)))

theorem conducts_makePrune (topic : TopicHash) (peer : PeerId) (doPx : Bool) :
    Conducts g now s (s.makePrune now topic peer doPx).2 := by
  unfold makePrune
  dsimp only
  split
  · exact (conducts_control peer _).silent (by rfl)
  · have hbackoff : Conducts g now s ((s.modifyScore (PeerScoring.prune peer topic)).updateBackoff
        now topic peer s.config.pruneBackoff) :=
      (conducts_updateBackoff (.inl rfl)).silent (by rfl)
    exact hbackoff.trans ((conducts_control peer _).silent (by rfl))

theorem offers_makePrune (topic : TopicHash) (peer : PeerId) (doPx : Bool) :
    (s.makePrune now topic peer doPx).1.offers = [] := by
  unfold makePrune
  dsimp only
  split <;> rfl

theorem conducts_makePrunes (peer : PeerId) (doPx : Bool) (topics : List TopicHash) :
    Conducts g now s (makePrunes now peer doPx s topics).2 := by
  induction topics generalizing s with
  | nil => exact Moves.refl
  | cons topic topics ih => exact (conducts_makePrune topic peer doPx).trans ih

theorem offers_makePrunes (peer : PeerId) (doPx : Bool) (topics : List TopicHash) :
    ∀ a ∈ (makePrunes now peer doPx s topics).1, a.offers = [] := by
  induction topics generalizing s with
  | nil =>
    intro a ha
    cases ha
  | cons topic topics ih =>
    intro a ha
    rcases List.mem_cons.mp ha with rfl | ha
    · exact offers_makePrune topic peer doPx
    · exact ih a ha

theorem conducts_poolPrune (topic : TopicHash) (peer : PeerId) :
    Conducts g now s (poolPrune now topic s peer) := by
  refine (conducts_makePrune topic peer s.config.doPx).trans (conducts_controlPoolAdd ?_)
  rw [offers_makePrune]
  simp

theorem conducts_leave (hleave : g.leave topic) : Conducts g now s (s.leave now topic) := by
  unfold leave
  split
  · exact Moves.refl
  · exact (conducts_dropMesh hleave).trans
      (Conducts.foldl (fun _ peer _ => conducts_poolPrune topic peer) _)

theorem conducts_subscribe [TopicSubscriptionFilter F] (hjoin : g.join topic) :
    Conducts g now s (s.subscribe now topic).2 := by
  unfold subscribe
  dsimp only
  split
  · exact Moves.refl
  · split
    · exact Moves.refl
    · generalize horder : anyOrder _ _ = order
      have htracked : order.2.tracked = s.tracked := by
        rw [← horder]
        rfl
      have hsend : Conducts g now s
          (sendAll now (announcement .subscribe topic) order.2 order.1).2 :=
        (conducts_sendAll (sends_announcement .subscribe topic)).silent htracked
      split
      · exact hsend
      · exact hsend.trans (conducts_join hjoin)

theorem conducts_unsubscribe (hleave : g.leave topic) :
    Conducts g now s (s.unsubscribe now topic).2 := by
  unfold unsubscribe
  dsimp only
  split
  · generalize horder : anyOrder _ _ = order
    have htracked : order.2.tracked = s.tracked := by
      rw [← horder]
      rfl
    have hsend : Conducts g now s
        (sendAll now (announcement .unsubscribe topic) order.2 order.1).2 :=
      (conducts_sendAll (sends_announcement .unsubscribe topic)).silent htracked
    split
    · exact hsend
    · exact hsend.trans (conducts_leave hleave)
  · exact Moves.refl

/-! ## GRAFT and PRUNE -/

theorem conducts_graftTopics (peer : PeerId) (topics : List TopicHash) :
    Conducts g now s (s.graftTopics now peer topics).state := by
  unfold graftTopics
  split
  · exact Moves.refl
  · exact Moves.foldl (v := fun acc : GraftAcc P R F D => acc.state.tracked)
      (fun acc topic _ => conducts_graftTopic peer _ acc topic) ⟨s, ∅, s.config.doPx⟩

theorem conducts_handleGraft (peer : PeerId) (topics : List TopicHash) :
    Conducts g now s (s.handleGraft now peer topics) := by
  have hgraft : Conducts g now s (s.graftTopics now peer topics).state :=
    conducts_graftTopics peer topics
  unfold handleGraft
  dsimp only
  generalize s.graftTopics now peer topics = acc at hgraft ⊢
  split
  · exact hgraft
  · have hprunes : ∀ order : List TopicHash × Gossipsub P R F D, Conducts g now order.2
        ((makePrunes now peer acc.doPx order.2 order.1).2.trySend now peer
          { controlMsgs := (makePrunes now peer acc.doPx order.2 order.1).1 }) := by
      intro order
      refine (conducts_makePrunes peer acc.doPx order.1).trans (conducts_trySend rfl ?_)
      intro a ha
      rw [offers_makePrunes peer acc.doPx order.1 a ha]
      simp
    exact hgraft.trans ((hprunes _).silent (by rfl))

theorem conducts_handlePrune
    (h : ∀ d ∈ pruneData, ∀ b, d.2.2 = some b → g.backoff (Duration.fromSecs b)) :
    Conducts g now s (s.handlePrune now peer pruneData) := by
  refine Conducts.foldl (fun s' d hd => ?_) s
  have hremove : Conducts g now s' (s'.removePeerFromMesh now peer d.1 d.2.2 true) :=
    conducts_removePeerFromMesh (h d hd)
  unfold pruneTopic
  dsimp only
  split
  · exact hremove.trans (conducts_pxConnect d.2.1)
  · exact hremove

/-! ## Subscriptions of a peer -/

theorem conducts_graftSubscriber (peer : PeerId) (topic : TopicHash)
    (acc : SubscriptionAcc P R F D) :
    Conducts g now acc.state (graftSubscriber now peer topic acc).state := by
  unfold graftSubscriber
  dsimp only
  split
  · split
    · exact Moves.refl
    · rename_i peers hpeers
      split
      · have hadd : Conducts g now acc.state (acc.state.addToMesh now topic {peer}) := by
          refine conducts_addToMesh (.inl (mem_mesh_of_getElem? hpeers)) (fun hbuilt _ => ?_)
          have hcard := Finset.card_union_le peers {peer}
          have hn := hbuilt.mesh_low
          have hhigh := hbuilt.mesh_high
          rw [Finset.card_singleton] at hcard
          rw [meshPeers_of_getElem? hpeers]
          omega
        exact hadd.trans ((conducts_control peer _).silent (by rfl))
      · exact Moves.refl
  · exact Moves.refl

theorem offers_graftSubscriber {acc : SubscriptionAcc P R F D} (h : ∀ a ∈ acc.grafts, a.offers = []) :
    ∀ a ∈ (graftSubscriber now peer topic acc).grafts, a.offers = [] := by
  unfold graftSubscriber
  dsimp only
  split
  · split
    · exact h
    · split
      · intro a ha
        rcases List.mem_append.mp ha with ha | ha
        · exact h a ha
        · rw [List.mem_singleton.mp ha]
          rfl
      · exact h
  · exact h

theorem conducts_handleSubscription {acc : SubscriptionAcc P R F D}
    (h : ∀ a ∈ acc.grafts, a.offers = []) (subscription : GossipsubSubscription) :
    Conducts g now acc.state (handleSubscription now peer acc subscription).state ∧
      ∀ a ∈ (handleSubscription now peer acc subscription).grafts, a.offers = [] := by
  unfold handleSubscription
  dsimp only
  split
  · refine ⟨?_, offers_graftSubscriber h⟩
    exact (conducts_addSubscription peer subscription.topicHash).trans
      (conducts_graftSubscriber peer subscription.topicHash
        { acc with state := acc.state.addSubscription peer subscription.topicHash })
  · exact ⟨conducts_removeSubscription peer subscription.topicHash, h⟩

theorem conducts_handleReceivedSubscriptions [TopicSubscriptionFilter F]
    (subscriptions : List GossipsubSubscription) (peer : PeerId) :
    Conducts g now s (s.handleReceivedSubscriptions now subscriptions peer) := by
  unfold handleReceivedSubscriptions
  split
  · exact Moves.refl
  · dsimp only
    split
    · exact Moves.refl
    · generalize horder : anyOrder _ _ = order
      have htracked : order.2.tracked = s.tracked := by
        rw [← horder]
        rfl
      have hfold := Moves.foldl_of (r := Tracked.Effect g now) (l := order.1)
        (f := handleSubscription now peer)
        (v := fun acc : SubscriptionAcc P R F D => acc.state.tracked)
        (I := fun acc => ∀ a ∈ acc.grafts, a.offers = [])
        (fun acc h subscription _ => conducts_handleSubscription h subscription)
        (s := ⟨order.2, [], []⟩) (by simp)
      generalize order.1.foldl (handleSubscription now peer) ⟨order.2, [], []⟩ = acc at hfold ⊢
      obtain ⟨hsubs, hoffers⟩ := hfold
      have hleave : Conducts g now acc.state (acc.unsubscribed.foldl
          (fun s topic => s.removePeerFromMesh now peer topic none false) acc.state) :=
        Conducts.foldl (fun _ _ _ => conducts_removePeerFromMesh (fun b hb => by cases hb)) _
      have hboth := (Moves.after htracked hsubs).trans hleave
      split
      · exact hboth
      · refine hboth.trans (conducts_trySend rfl (fun a ha => ?_))
        rw [hoffers a ha]
        simp

end Mesh

/-! ## The heartbeat -/

theorem conducts_checkExplicitPeers : Conducts g now s (s.checkExplicitPeers now) := by
  unfold checkExplicitPeers
  split
  · rename_i hticks
    exact Moves.single (.panic (.unsound (fun hsound => hsound.ticks hticks)))
  · split
    · refine Conducts.silent (Conducts.foldl (fun s' p _ => ?_) _) (by rfl)
      unfold checkExplicitPeerConnection
      split
      · exact Moves.refl
      · exact conducts_emit trivial
    · exact Moves.refl

theorem conducts_poolIhave (h : ∀ id ∈ ids, g.offer id) (peer : PeerId) :
    Conducts g now s (poolIhave topic ids s peer) := by
  unfold poolIhave
  split
  · refine Conducts.silent (conducts_controlPoolAdd (fun id hid => h id ?_)) (by rfl)
    exact Rng.mem_shuffle.mp (List.mem_of_mem_take hid)
  · exact conducts_controlPoolAdd h

theorem conducts_flushControlPool (h : s.tracked.PoolGranted g) :
    Conducts g now s (s.flushControlPool now) := by
  have hflush : Conducts g now s { s with controlPool := ∅ } := Moves.single .unpool
  unfold flushControlPool
  refine hflush.trans (Conducts.silent (Conducts.foldl (fun s' e he => ?_) _) (by rfl))
  refine conducts_trySend rfl (fun a ha => h e.1 a ?_)
  have hmem := TreeMap.mem_toList_iff_getElem?_eq_some.mp (Rng.mem_shuffle.mp he)
  change a ∈ s.controlPool[e.1]?.getD []
  rw [hmem]
  exact ha

theorem conducts_shiftCache : Conducts g now s s.shiftCache := by
  unfold shiftCache
  split
  · rename_i hshift
    refine Moves.single (.panic (.unsound (fun hsound => hsound.history ?_)))
    unfold MessageCache.shift at hshift
    split at hshift
    · rename_i hlast
      exact List.getLast?_eq_none_iff.mp hlast
    · cases hshift
  · rename_i mcache hshift
    exact Moves.single (.shift hshift)

theorem conducts_flush (h : s.tracked.PoolGranted g) :
    Conducts g now s (s.flushControlPool now).shiftCache :=
  (conducts_flushControlPool h).trans conducts_shiftCache

/-! The parts of the heartbeat before the gossip do not touch the cache of messages. -/

theorem mcache_checkExplicitPeers : (s.checkExplicitPeers now).mcache = s.mcache := by
  unfold checkExplicitPeers
  split
  · rfl
  · split
    · refine foldl_unchanged (v := mcache) (fun s' p => ?_) _ _
      unfold checkExplicitPeerConnection
      split
      · rfl
      · obtain ⟨trace, h⟩ := exists_emit s' now (.dial p)
        rw [h]
    · rfl

section Heartbeat

variable [PeerScoring P R]

theorem tracked_applyIwantPenalties : (s.applyIwantPenalties now).tracked = s.tracked := by
  unfold applyIwantPenalties
  split
  · rfl
  · rename_i d hd
    have hfold : ∀ (entries : List (PeerId × Nat)) (s' : Gossipsub P R F D),
        (entries.foldl (fun s e => s.modifyScore (PeerScoring.addPenalty e.1 e.2)) s').tracked =
          s'.tracked := by
      intro entries
      induction entries with
      | nil => exact fun _ => rfl
      | cons e entries ih => exact fun s' => ih _
    exact hfold _ _

theorem conducts_penalties :
    Conducts g now s ((s.applyIwantPenalties now).checkExplicitPeers now) :=
  conducts_checkExplicitPeers.silent tracked_applyIwantPenalties

theorem conducts_prepared (h : g.clean) : Conducts g now s (s.prepared now) := by
  have hclean : Conducts g now s (s.tick.cleanBackoffs now).clearCounts :=
    (conducts_cleanBackoffs h).silent (by rfl)
  exact hclean.trans conducts_penalties

theorem mcache_prepared : (s.prepared now).mcache = s.mcache := by
  have hclean : (s.tick.cleanBackoffs now).mcache = s.mcache := by
    unfold cleanBackoffs
    split <;> rfl
  unfold prepared
  rw [mcache_checkExplicitPeers]
  exact (congrArg Tracked.mcache tracked_applyIwantPenalties).trans hclean

theorem conducts_sendGraft [Fact g.tend] (peer : PeerId) (topic : TopicHash) :
    Conducts g now s (sendGraft now peer s topic) :=
  (conducts_control peer _).silent (by rfl)

variable [ScoreArith R]

theorem conducts_maintainMesh [hg : Fact g.tend] : Conducts g now s (s.maintainMesh now).state := by
  have hupkept := s.upkept_maintainMesh now
  have hsize := s.card_maintainMesh_le now
  generalize s.maintainMesh now = acc at hupkept hsize ⊢
  obtain ⟨links, htrace, hlinks⟩ := hupkept.links
  have htracked : acc.state.tracked = { s.tracked with
      mesh := acc.state.mesh, trace := s.trace ++ links, fault := acc.state.fault } := by
    rw [hupkept.frame, htrace]
    rfl
  unfold Conducts
  rw [htracked]
  exact Moves.single (.upkeep hg.out hupkept.keys
    (fun hbuilt hout hfault => hsize hbuilt.mesh_high hout hfault) hlinks hupkept.disturbs)

theorem exists_maintainFanoutTopic (s : Gossipsub P R F D) (topic : TopicHash) :
    ∃ peers rng, maintainFanoutTopic s topic =
      { s with rng, fanout := s.fanout.insert topic peers } := by
  unfold maintainFanoutTopic
  dsimp only
  split <;> exact ⟨_, _, rfl⟩

theorem conducts_maintainFanoutTopic (h : topic ∈ s.fanout) :
    Conducts g now s (maintainFanoutTopic s topic) ∧
      ∀ t, t ∈ (maintainFanoutTopic s topic).fanout ↔ t ∈ s.fanout := by
  obtain ⟨peers, rng, heq⟩ := exists_maintainFanoutTopic s topic
  have hkeys : ∀ t, t ∈ s.fanout.insert topic peers ↔ t ∈ s.fanout := by
    intro t
    rw [TreeMap.mem_insert, LawfulEqCmp.compare_eq_iff_eq]
    constructor
    · rintro (rfl | ht)
      · exact h
      · exact ht
    · exact .inr
  rw [heq]
  exact ⟨Moves.single (.refan hkeys), hkeys⟩

theorem conducts_maintainFanout : Conducts g now s (s.maintainFanout now) := by
  have hexpire : ∀ (entries : List (TopicHash × Instant)) (s' : Gossipsub P R F D),
      Conducts g now s' (entries.foldl (expireFanout now) s') := by
    intro entries
    refine Conducts.foldl (fun s' entry _ => ?_)
    unfold expireFanout
    split
    · exact Moves.single (.panic .clock)
    · split
      · exact conducts_dropFanout entry.1
      · exact Moves.refl
  have htopics : ∀ s' : Gossipsub P R F D, Conducts g now (s'.anyOrder s'.fanout.keys).2
      ((s'.anyOrder s'.fanout.keys).1.foldl maintainFanoutTopic (s'.anyOrder s'.fanout.keys).2) := by
    intro s'
    refine (Moves.foldl_of (v := tracked) (s := (s'.anyOrder s'.fanout.keys).2)
      (I := fun s₁ : Gossipsub P R F D => ∀ t, t ∈ s₁.fanout ↔ t ∈ s'.fanout)
      (fun s₁ hs₁ topic htopic => ?_) (fun _ => Iff.rfl)).1
    have hkey : topic ∈ s'.fanout := TreeMap.mem_keys.mp (Rng.mem_shuffle.mp htopic)
    obtain ⟨hconducts, hkeys⟩ : Conducts g now s₁ (maintainFanoutTopic s₁ topic) ∧
        ∀ t, t ∈ (maintainFanoutTopic s₁ topic).fanout ↔ t ∈ s₁.fanout :=
      conducts_maintainFanoutTopic ((hs₁ topic).mpr hkey)
    exact ⟨hconducts, fun t => (hkeys t).trans (hs₁ t)⟩
  unfold maintainFanout
  exact (hexpire _ _).trans ((htopics _).silent (by rfl))

def Gossips (c : MessageCache) (id : MessageId) : Prop :=
  ∃ topic ids, c.getGossipMessageIds topic = some ids ∧ id ∈ ids

theorem mcache_maintainFanout : (s.maintainFanout now).mcache = s.mcache := by
  unfold maintainFanout
  dsimp only
  rw [foldl_unchanged (v := mcache) (fun s' topic => by unfold maintainFanoutTopic; dsimp only; split <;> rfl)]
  refine foldl_unchanged (v := mcache) (fun s' entry => ?_) _ s
  unfold expireFanout
  split
  · rfl
  · split <;> rfl

theorem conducts_emitGossip (topics : List (TopicHash × Finset PeerId))
    (h : ∀ id, Gossips s.mcache id → g.offer id) : Conducts g now s (emitGossip s topics) := by
  induction topics generalizing s with
  | nil => exact Moves.refl
  | cons entry topics ih =>
    obtain ⟨topic, peers⟩ := entry
    unfold emitGossip
    split
    · rename_i hids
      refine Moves.single (.panic (.unsound (fun hsound => ?_)))
      unfold MessageCache.getGossipMessageIds at hids
      split at hids
      · rename_i hshort
        exact absurd hsound.gossip (Nat.not_le_of_lt hshort)
      · cases hids
    · exact Moves.refl
    · rename_i ids hne hids
      generalize horder : (if s.config.maxIhaveLength < ids.length then (ids, s)
        else s.anyOrder ids) = order
      have htracked : order.2.tracked = s.tracked := by
        rw [← horder]
        split <;> rfl
      have hoffer : ∀ id ∈ order.1, g.offer id := by
        intro id hid
        refine h id ⟨topic, ids, hids, ?_⟩
        rw [← horder] at hid
        split at hid
        · exact hid
        · exact Rng.mem_shuffle.mp hid
      have hmcache : order.2.mcache = s.mcache := congrArg Tracked.mcache htracked
      dsimp only
      generalize getRandomPeersDynamic _ _ _ _ _ _ = r
      have hpool : Conducts g now (order.2.setRng r.2)
          ((sorted r.1).foldl (poolIhave topic order.1) (order.2.setRng r.2)) :=
        Conducts.foldl (fun _ peer _ => conducts_poolIhave hoffer peer) _
      refine (hpool.silent htracked).trans (ih ?_)
      rw [foldl_unchanged (v := mcache) (fun _ _ => by unfold poolIhave; split <;> rfl)]
      change ∀ id, Gossips order.2.mcache id → g.offer id
      rw [hmcache]
      exact h

theorem conducts_sendGraftPruneTo [Fact g.tend] (toPrune : TreeMap PeerId (List TopicHash)) (noPx : Finset PeerId)
    (entry : PeerId × List TopicHash) :
    Conducts g now s (sendGraftPruneTo now toPrune noPx s entry) := by
  have hgrafts : Conducts g now s (entry.2.foldl (sendGraft now entry.1) s) :=
    Conducts.foldl (fun _ topic _ => conducts_sendGraft entry.1 topic) s
  unfold sendGraftPruneTo
  dsimp only
  generalize entry.2.foldl (sendGraft now entry.1) s = s' at hgrafts ⊢
  refine (hgrafts.trans (conducts_makePrunes _ _ _)).trans (conducts_trySend rfl ?_)
  intro a ha
  have hnone : a.offers = [] := by
    rcases List.mem_append.mp ha with ha | ha
    · obtain ⟨topic, -, rfl⟩ := List.mem_map.mp ha
      rfl
    · exact offers_makePrunes _ _ _ a ha
  rw [hnone]
  simp

theorem conducts_sendGraftPrune [Fact g.tend] (toGraft toPrune : TreeMap PeerId (List TopicHash))
    (noPx : Finset PeerId) :
    Conducts g now s (s.sendGraftPrune now toGraft toPrune noPx) := by
  have hfold : ∀ order : List (PeerId × List TopicHash) × Gossipsub P R F D,
      Conducts g now order.2 (order.1.foldl (sendGraftPruneTo now toPrune noPx) order.2) :=
    fun order => Conducts.foldl (fun _ entry _ => conducts_sendGraftPruneTo toPrune noPx entry) _
  have hgrafts : Conducts g now s ((s.anyOrder toGraft.toList).1.foldl
      (sendGraftPruneTo now toPrune noPx) (s.anyOrder toGraft.toList).2) :=
    (hfold (s.anyOrder toGraft.toList)).silent (by rfl)
  unfold sendGraftPrune
  dsimp only
  generalize (s.anyOrder toGraft.toList).1.foldl _ _ = s' at hgrafts ⊢
  exact hgrafts.trans ((hfold _).silent (by rfl))

theorem conducts_gossip (h : ∀ id, Gossips s.mcache id → g.offer id) :
    Conducts g now s (emitGossip (s.maintainFanout now).gossipTopics.2
      (s.maintainFanout now).gossipTopics.1) := by
  have hfanout : Conducts g now s (s.maintainFanout now) := conducts_maintainFanout
  have hcache : (s.maintainFanout now).mcache = s.mcache := mcache_maintainFanout
  generalize s.maintainFanout now = s₁ at hfanout hcache ⊢
  have htopics : s₁.gossipTopics.2.tracked = s₁.tracked := rfl
  generalize s₁.gossipTopics = topics at htopics ⊢
  refine hfanout.trans (Conducts.silent (conducts_emitGossip topics.1 (fun id hid => h id ?_))
    htopics)
  rw [← hcache, ← show topics.2.mcache = s₁.mcache from congrArg Tracked.mcache htopics]
  exact hid

theorem conducts_concluded [Fact g.tend] (acc : HeartbeatAcc P R F D)
    (hpool : acc.state.tracked.PoolGranted g)
    (hoffer : ∀ id, Gossips acc.state.mcache id → g.offer id) :
    Conducts g now acc.state (concluded acc now) := by
  have hgossip : Conducts g now acc.state _ := conducts_gossip hoffer
  have hbefore := hgossip.trans (conducts_sendGraftPrune acc.toGraft acc.toPrune acc.noPx)
  exact hbefore.trans
    (conducts_flush (hbefore.preserve (fun _ _ => Tracked.PoolGranted.effect) hpool))

theorem conducts_heartbeat [Fact g.tend] (hclean : g.clean) (hpool : s.tracked.PoolGranted g)
    (hoffer : ∀ id, Gossips s.mcache id → g.offer id) : Conducts g now s (s.heartbeat now) := by
  have hprepared : Conducts g now s (s.prepared now) := conducts_prepared hclean
  have hcache : (s.prepared now).mcache = s.mcache := mcache_prepared
  rw [heartbeat_eq]
  generalize s.prepared now = s₁ at hprepared hcache ⊢
  have hmesh : Conducts g now s₁ (s₁.maintainMesh now).state := conducts_maintainMesh
  have hframe := (s₁.upkept_maintainMesh now).frame
  generalize s₁.maintainMesh now = acc at hmesh hframe ⊢
  have hbefore := hprepared.trans hmesh
  refine hbefore.trans (conducts_concluded acc ?_ (fun id hid => hoffer id ?_))
  · exact hbefore.preserve (fun _ _ => Tracked.PoolGranted.effect) hpool
  · rw [hframe] at hid
    exact hcache ▸ hid

end Heartbeat

end Gossipsub

end Libp2pRs.Gossip
