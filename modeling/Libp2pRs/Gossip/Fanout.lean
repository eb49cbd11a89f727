import Libp2pRs.Gossip.Subscriptions

/-!
# Mesh and fanout

A topic of the mesh is one that the node has joined; a topic of the fanout is one that it only
publishes to. `Apart` says that no topic is both and that each topic of the fanout has the time of
its last publication. A topic moves from the fanout to the mesh when it is joined, and nothing but
an `unsubscribe` that works takes it out of the mesh.
-/

namespace Libp2pRs.Gossip

open Lib Libp2pRs.Core Std

namespace Tracked

variable {D : Type} {g : Grant} {now : Instant} {n n' : Tracked D}

structure Apart (n : Tracked D) : Prop where
  disjoint : ∀ t, t ∈ n.mesh → t ∉ n.fanout
  dated : ∀ t, t ∈ n.fanout ↔ t ∈ n.fanoutLastPub

theorem Apart.effect (h : Effect g now n n') (hn : n.Apart) : n'.Apart := by
  obtain ⟨hdisjoint, hdated⟩ := hn
  cases h with
  | @link t X _ hkey =>
    refine ⟨fun t' ht' => ?_, hdated⟩
    rcases (mem_alter_some _ _ _ _).mp ht' with rfl | ht'
    · -- a topic that is joined has left the fanout
      exact hkey.elim (hdisjoint t) And.right
    · exact hdisjoint t' ht'
  | shrink => exact ⟨fun t ht => hdisjoint t (TreeMap.mem_modify.mp ht), hdated⟩
  | leave => exact ⟨fun t ht => hdisjoint t (TreeMap.mem_erase.mp ht).2, hdated⟩
  | upkeep _ hkey => exact ⟨fun t ht => hdisjoint t ((hkey t).mp ht), hdated⟩
  | @fan t fanout hmesh hkey =>
    refine ⟨fun t' ht' hfan => ?_, fun t' => ?_⟩
    · rcases (hkey t').mp hfan with rfl | hfan
      · exact hmesh ht'
      · exact hdisjoint t' ht' hfan
    · rw [hkey, hdated, TreeMap.mem_insert, LawfulEqCmp.compare_eq_iff_eq]
  | unfan =>
    refine ⟨fun t ht hfan => hdisjoint t ht (TreeMap.mem_erase.mp hfan).2, fun t => ?_⟩
    rw [TreeMap.mem_erase, TreeMap.mem_erase, hdated]
  | refan hkey =>
    exact ⟨fun t ht hfan => hdisjoint t ht ((hkey t).mp hfan), fun t => (hkey t).trans (hdated t)⟩
  | _ => exact ⟨hdisjoint, hdated⟩

end Tracked

namespace Gossipsub

variable {P R F D : Type} {now : Instant} {s : Gossipsub P R F D} {topic : TopicHash}

theorem mesh_closeTopic (s : Gossipsub P R F D) (now : Instant) (topic : TopicHash) :
    (s.closeTopic now topic).mesh = s.mesh := by
  unfold closeTopic
  split
  · rfl
  · obtain ⟨trace, heq⟩ := exists_emit { s with myTopics := s.myTopics.erase topic } now
      (.closeChannel _)
    rw [heq]

theorem mesh_replySubscribe (s : Gossipsub P R F D) (now : Instant) (topic : TopicHash)
    (r : Except SubscriptionError Bool) : (s.replySubscribe now topic r).mesh = s.mesh := by
  have hemit : ∀ (s : Gossipsub P R F D) (o : Output), (s.emit now o).mesh = s.mesh := by
    intro s o
    obtain ⟨trace, heq⟩ := exists_emit s now o
    rw [heq]
  unfold replySubscribe
  split
  · exact hemit s _
  · exact hemit _ _
  · exact hemit s _

variable [ScoreArith R] [PeerScoring P R]

theorem mesh_unsubscribe (h : (s.unsubscribe now topic).1 ≠ .ok true) :
    (s.unsubscribe now topic).2.mesh = s.mesh := by
  unfold unsubscribe at h ⊢
  dsimp only at h ⊢
  split at h
  · rename_i hmesh
    rw [if_pos hmesh]
    obtain ⟨trace, heq⟩ := exists_sendAll now (announcement .unsubscribe topic)
      (s.anyOrder s.peerTopics.keys).1 (s.anyOrder s.peerTopics.keys).2
    generalize sendAll now (announcement .unsubscribe topic) (s.anyOrder s.peerTopics.keys).2
      (s.anyOrder s.peerTopics.keys).1 = sent at h heq ⊢
    obtain ⟨result, s₁⟩ := sent
    cases result with
    | error e =>
      rw [show s₁ = _ from heq]
      rfl
    | ok u => exact absurd rfl h
  · rename_i hmesh
    rw [if_neg hmesh]

variable [TopicSubscriptionFilter F] [DataTransform D]

def Subscribes (s : Gossipsub P R F D) (turn : Turn P R) (topic : TopicHash) : Prop :=
  turn.input = .command (.subscribe topic) ∧ s.panicked = false ∧
    (s.subscribe turn.now topic).1 = .ok true

def Unsubscribes (s : Gossipsub P R F D) (turn : Turn P R) (topic : TopicHash) : Prop :=
  (turn.input = .command (.unsubscribed topic) ∨ ∃ sub, turn.input = .cancel topic sub) ∧
    s.panicked = false ∧ (s.unsubscribe turn.now topic).1 = .ok true

/-- The topic has been subscribed, and it has not been unsubscribed since. -/
def Subscribed (s : Gossipsub P R F D) (topic : TopicHash) (turns : List (Turn P R)) : Prop :=
  ∃ pre turn post, turns = pre ++ turn :: post ∧ (run step s pre).Subscribes turn topic ∧
    EachStep step (fun s turn => ¬ s.Unsubscribes turn topic) ((run step s pre).step turn) post

theorem mem_mesh_of_subscribes (hn : 0 < s.config.meshN)
    (h : s.Subscribes turn topic) : topic ∈ (s.step turn).mesh := by
  obtain ⟨hinput, hpanic, hresult⟩ := h
  have hstep : s.step turn = (s.subscribe turn.now topic).2.replySubscribe turn.now topic
      (s.subscribe turn.now topic).1 := by
    unfold step
    rw [hpanic, hinput]
    rfl
  obtain ⟨-, hmesh, -⟩ := s.subscribe_eq_ok_true turn.now topic hn hresult
  rw [hstep, mesh_replySubscribe]
  exact hmesh

theorem mem_mesh_step (hpool : s.PoolPlain) (h : ¬ s.Unsubscribes turn topic)
    (hs : topic ∈ s.mesh) : topic ∈ (s.step turn).mesh := by
  by_cases hleave : (s.grantOf turn).leave topic
  · by_cases hpanic : s.panicked = true
    · have hstay : s.step turn = s := if_pos hpanic
      rw [hstay]
      exact hs
    · have hresult : (s.unsubscribe turn.now topic).1 ≠ .ok true :=
        fun hok => h ⟨hleave, Bool.eq_false_iff.mpr hpanic, hok⟩
      have hstep : s.step turn = s.handle turn.now turn.input := if_neg hpanic
      rw [hstep]
      rcases hleave with hinput | ⟨sub, hinput⟩
      · rw [hinput, handle, handleCommand, mesh_closeTopic, mesh_unsubscribe hresult]
        exact hs
      · rw [hinput, handle, mesh_unsubscribe hresult]
        exact hs
  · exact (s.effects_step turn hpool).preserve (I := fun n => topic ∈ n.mesh)
      (fun _ _ heffect => heffect.mem_mesh hleave) hs

theorem mem_mesh_of_subscribed (hn : 0 < s.config.meshN)
    (hpool : s.PoolPlain) (h : s.Subscribed topic turns) : topic ∈ (run step s turns).mesh := by
  obtain ⟨pre, turn, post, rfl, hsubscribes, hsince⟩ := h
  have hpool' : (run step s pre).PoolPlain :=
    invariant_run (I := PoolPlain) (fun _ turn h => poolPlain_step h turn) hpool pre
  have hjoined : topic ∈ ((run step s pre).step turn).mesh :=
    mem_mesh_of_subscribes (by rwa [config_run hpool pre]) hsubscribes
  rw [run_append, run_cons]
  exact (always_last (always_of_step (I := fun s : Gossipsub P R F D => s.PoolPlain ∧ topic ∈ s.mesh)
    (fun s turn h hturn => ⟨poolPlain_step h.1 turn, mem_mesh_step h.1 hturn h.2⟩)
    ⟨poolPlain_step hpool' turn, hjoined⟩ hsince)).2

/-- In every reachable state no topic is both in the mesh and in the fanout, and the fanout and the
times of the last publications have the same topics. If the configuration has been built, a topic
that has been subscribed is in the mesh until it is unsubscribed. -/
theorem mesh_fanout_apart {privacy : MessageAuthenticity} {config : GossipsubConfig} {filter : F}
    {transform : D} {rng : Rng} (hnew : new P R privacy config filter transform rng = some (.ok s))
    (turns : List (Turn P R)) :
    (∀ t, t ∈ (run step s turns).mesh → t ∉ (run step s turns).fanout) ∧
    (∀ t, t ∈ (run step s turns).fanout ↔ t ∈ (run step s turns).fanoutLastPub) ∧
    (config.build = .ok config → ∀ t, s.Subscribed t turns → t ∈ (run step s turns).mesh) := by
  obtain ⟨backoffs, -, rfl⟩ := exists_initial hnew
  have hpool : (initial (P := P) (R := R) privacy config filter transform rng backoffs).PoolPlain :=
    poolPlain_of_empty rfl
  have hapart : (run step (initial (P := P) (R := R) privacy config filter transform rng backoffs)
      turns).tracked.Apart := by
    refine run_of_effect (fun _ _ _ _ => Tracked.Apart.effect) ⟨fun t ht => ?_, fun t => ?_⟩ hpool
      turns
    · exact absurd ht TreeMap.not_mem_emptyc
    · exact iff_of_false TreeMap.not_mem_emptyc TreeMap.not_mem_emptyc
  refine ⟨hapart.disjoint, hapart.dated, fun hbuild t ht => ?_⟩
  have hbuilt := GossipsubConfig.build_eq_ok hbuild
  refine mem_mesh_of_subscribed ?_ hpool ht
  have houtbound := hbuilt.mesh_outbound
  have hlow := hbuilt.mesh_low
  change 0 < config.meshN
  omega

def subscribeAndBeat : List (Turn Empty ℚ) :=
  [⟨0, .command (.subscribe sampleTopic)⟩, ⟨1, .event .heartBeat⟩]

theorem subscribeAndBeat_apart :
    sampleNode.Subscribed sampleTopic subscribeAndBeat ∧
      sampleTopic ∈ (run step sampleNode subscribeAndBeat).mesh ∧
      sampleTopic ∉ (run step sampleNode subscribeAndBeat).fanout := by
  have hsubscribed : sampleNode.Subscribed sampleTopic subscribeAndBeat := by
    refine ⟨[], ⟨0, .command (.subscribe sampleTopic)⟩, [⟨1, .event .heartBeat⟩], rfl,
      ⟨rfl, rfl, by decide +kernel⟩, ?_, trivial⟩
    rintro ⟨hinput | ⟨sub, hinput⟩, -⟩
    · cases hinput
    · cases hinput
  obtain ⟨hdisjoint, -, hmesh⟩ := mesh_fanout_apart sampleNode_new subscribeAndBeat
  have hjoined := hmesh (by rfl) sampleTopic hsubscribed
  exact ⟨hsubscribed, hjoined, hdisjoint sampleTopic hjoined⟩

end Gossipsub

end Libp2pRs.Gossip
