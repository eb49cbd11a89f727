import Libp2pRs.Gossip.Relay

/-!
# Local subscriptions

A subscription has a channel of its own, but `my_topics` has one sender for a topic. A subscription
that is cancelled or dropped leaves the mesh through an event that names its topic, whichever
subscription to the topic there is by then; and it leaves its sender in `my_topics`, which the next
subscription then inherits. Only `Unsubscribed` removes the sender.

In a run in which neither happens (`Orderly`), a subscription that is in force is served: the node
stays in the mesh, and every message that is accepted on the topic goes to its receiver.
-/

namespace Libp2pRs.Gossip

open Lib Libp2pRs.Core Std

namespace Tracked

variable {D : Type} {g : Grant} {now : Instant} {n n' : Tracked D} {topic : TopicHash}
  {channel : Nat}

/-- The node is in the mesh of the topic, and the messages of the topic go to the channel. -/
structure Serves (topic : TopicHash) (channel : Nat) (n : Tracked D) : Prop where
  joined : topic ∈ n.mesh
  sender : n.myTopics[topic]? = some channel

theorem Serves.effect (hleave : ¬ g.leave topic) (hclose : ¬ g.close topic)
    (h : Effect g now n n') (hn : n.Serves topic channel) : n'.Serves topic channel := by
  obtain ⟨hjoined, hsender⟩ := hn
  refine ⟨h.mem_mesh hleave hjoined, ?_⟩
  cases h with
  | @subscribe t c h =>
    rw [get_insert]
    split
    · rename_i heq
      rw [heq, hsender]
      rfl
    · exact hsender
  | @close t h =>
    rw [get_erase, if_neg]
    · exact hsender
    · rintro rfl
      exact hclose h
  | _ => exact hsender

end Tracked

namespace Gossipsub

variable {P R F D : Type} {now : Instant} {s : Gossipsub P R F D} {topic : TopicHash}
  {channel : Nat}

/-! ## Subscribing -/

theorem getLast?_emit (h : (s.emit now o).panicked = false) :
    (s.emit now o).trace.getLast? = some (now, o) := by
  unfold emit at h ⊢
  split at h
  · rename_i hpanic
    rw [hpanic] at h
    cases h
  · rename_i hpanic
    rw [if_neg hpanic]
    exact List.getLast?_concat

theorem mem_mesh_addToMesh (now : Instant) (topic : TopicHash) (peers : Finset PeerId) :
    topic ∈ (s.addToMesh now topic peers).mesh := by
  obtain ⟨trace, heq⟩ := exists_addToMesh s now topic peers
  rw [heq]
  exact (mem_alter_some _ _ _ _).mpr (Or.inl rfl)

section Joining

variable [PeerScoring P R]

theorem exists_poolGraft (now : Instant) (topic : TopicHash) (s : Gossipsub P R F D)
    (peer : PeerId) :
    ∃ controlPool peerScore trace,
      poolGraft now topic s peer = { s with controlPool, peerScore, trace } := by
  unfold poolGraft control
  obtain ⟨trace, heq⟩ := exists_emit (s.modifyScore (PeerScoring.graft peer topic)) now
    (.control peer (s.modifyScore (PeerScoring.graft peer topic)).peerProtocols[peer]? (.graft topic))
  rw [heq]
  exact ⟨_, _, trace, rfl⟩

variable [ScoreArith R]

theorem myTopics_join : (s.join now topic).myTopics = s.myTopics := by
  have hfanout : (s.joinFanout now topic).2.myTopics = s.myTopics := by
    obtain ⟨mesh, fanout, fanoutLastPub, trace, heq⟩ := exists_joinFanout s now topic
    rw [heq]
  unfold join
  split
  · rfl
  · rw [foldl_unchanged (v := myTopics) (fun s peer => by
      obtain ⟨controlPool, peerScore, trace, heq⟩ := exists_poolGraft now topic s peer
      rw [heq])]
    generalize s.joinFanout now topic = r1 at hfanout ⊢
    have hrandom : (r1.2.joinRandom now topic r1.1).2.myTopics = r1.2.myTopics := by
      unfold joinRandom
      split
      · obtain ⟨trace, heq⟩ := exists_addToMesh r1.2 now topic _
        dsimp only
        rw [heq]
        rfl
      · rfl
    exact hrandom.trans hfanout

theorem mem_mesh_join (hn : 0 < s.config.meshN) : topic ∈ (s.join now topic).mesh := by
  unfold join
  split
  · rename_i hcontains
    exact TreeMap.contains_iff_mem.mp hcontains
  · rw [foldl_unchanged (v := mesh) (fun s peer => by
      obtain ⟨controlPool, peerScore, trace, heq⟩ := exists_poolGraft now topic s peer
      rw [heq])]
    change topic ∈ ((s.joinFanout now topic).2.joinRandom now topic (s.joinFanout now topic).1).2.mesh
    unfold joinRandom
    split
    · exact mem_mesh_addToMesh now topic _
    · rename_i hfull
      -- then there were fanout peers
      unfold joinFanout at hfull ⊢
      split at hfull
      · rename_i hfanout
        rw [if_pos hfanout]
        exact mem_mesh_addToMesh now topic _
      · exact absurd hn hfull

end Joining

theorem notify_handleReceivedMessage [PeerScoring P R] [DataTransform D]
    (haccepted : s.accepted now raw source = some message)
    (hsender : s.myTopics[message.topic]? = some channel) (hpanic : s.panicked = false) :
    s.trace ++ [(now, .notify channel message)] <+:
      (s.handleReceivedMessage now raw source).trace := by
  obtain ⟨s', hseen, heq⟩ := accepted_eq_some haccepted
  obtain ⟨fast, cache, trace, hframe⟩ := exists_notifySubs hseen message
  have htrace : (s'.notifySubs now message).trace = s.trace ++ [(now, .notify channel message)] := by
    obtain ⟨fast, -, hseen⟩ := Option.bind_eq_some_iff.mp hseen
    obtain ⟨⟨fresh, cache⟩, -, hseen⟩ := Option.bind_eq_some_iff.mp hseen
    cases hseen
    unfold notifySubs
    rw [hsender]
    exact congrArg Gossipsub.trace (if_neg (Bool.eq_false_iff.mp hpanic))
  rw [heq, acceptMessage_eq]
  generalize s'.notifySubs now message = s₁ at hframe htrace
  have hconfig : s₁.config = s.config := by rw [hframe]
  have hrelay : Conducts .all now s₁ (s₁.relay now (s.config.messageIdFn message)
      (s₁.config.ingest raw) message source) := conducts_relay trivial (fun _ _ => trivial)
  rw [hconfig] at hrelay
  rw [← htrace]
  exact Tracked.Effects.trace_prefix hrelay

section Commands

variable [ScoreArith R] [PeerScoring P R] [TopicSubscriptionFilter F]

theorem subscribe_eq_ok_true (s : Gossipsub P R F D) (now : Instant) (topic : TopicHash)
    (hn : 0 < s.config.meshN) (h : (s.subscribe now topic).1 = .ok true) :
    topic ∉ s.mesh ∧ topic ∈ (s.subscribe now topic).2.mesh ∧
      (s.subscribe now topic).2.myTopics = s.myTopics := by
  unfold subscribe at h ⊢
  dsimp only at h ⊢
  split at h
  · cases h
  · rename_i hallowed
    split at h
    · cases h
    · rename_i hmesh
      rw [if_neg hallowed, if_neg hmesh]
      generalize hs' : s.setFilter (TopicSubscriptionFilter.canSubscribe s.subscriptionFilter topic).2
        = s' at h hmesh ⊢
      obtain ⟨trace, heq⟩ := exists_sendAll now (announcement .subscribe topic)
        (s'.anyOrder s'.peerTopics.keys).1 (s'.anyOrder s'.peerTopics.keys).2
      generalize sendAll now (announcement .subscribe topic) (s'.anyOrder s'.peerTopics.keys).2
        (s'.anyOrder s'.peerTopics.keys).1 = sent at h heq ⊢
      obtain ⟨result, s₁⟩ := sent
      cases result with
      | error e => cases h
      | ok u =>
        have hmesh' : topic ∉ s.mesh := by
          intro hmem
          rw [← hs'] at hmesh
          exact hmesh (TreeMap.contains_iff_mem.mpr hmem)
        have hconfig : s₁.config = s.config := by
          rw [show s₁ = _ from heq, ← hs']
          rfl
        have hmyTopics : s₁.myTopics = s.myTopics := by
          rw [show s₁ = _ from heq, ← hs']
          rfl
        exact ⟨hmesh', mem_mesh_join (hconfig ▸ hn), myTopics_join.trans hmyTopics⟩

variable [DataTransform D]

/-- The step replies to `Subscribe` with a subscription that receives through the channel. -/
def Replies (s : Gossipsub P R F D) (turn : Turn P R) (topic : TopicHash) (channel : Nat) : Prop :=
  turn.input = .command (.subscribe topic) ∧ (s.step turn).panicked = false ∧
    (s.step turn).trace.getLast? = some (turn.now, .subscribed topic (.ok channel))

/-- The subscription has been made, and since then it has not been cancelled or dropped and the
topic has not been unsubscribed. -/
def Live (s : Gossipsub P R F D) (topic : TopicHash) (channel : Nat) (turns : List (Turn P R)) :
    Prop :=
  Since (fun pre turn => (run step s pre).Replies turn topic channel)
    (fun turn => turn.input ≠ .cancel topic channel ∧ turn.input ≠ .command (.unsubscribed topic))
    turns

/-- A topic that is joined has no sender from an earlier subscription, and what is cancelled while
the topic is joined is the subscription that has the sender. -/
def Orderly (s : Gossipsub P R F D) (turn : Turn P R) : Prop :=
  match turn.input with
  | .command (.subscribe topic) => topic ∈ s.mesh ∨ topic ∉ s.myTopics
  | .cancel topic channel => topic ∉ s.mesh ∨ s.myTopics[topic]? = some channel
  | _ => True

variable {turn : Turn P R}

theorem panicked_of_step (h : (s.step turn).panicked = false) : s.panicked = false := by
  cases hpanic : s.panicked with
  | false => rfl
  | true =>
    have hstay : s.step turn = s := if_pos hpanic
    rw [hstay, hpanic] at h
    cases h

theorem serves_of_replies (hn : 0 < s.config.meshN) (hturn : s.Orderly turn)
    (h : s.Replies turn topic channel) : (s.step turn).tracked.Serves topic channel := by
  obtain ⟨hinput, hpanic', hlast⟩ := h
  have hstep : s.step turn = (s.subscribe turn.now topic).2.replySubscribe turn.now topic
      (s.subscribe turn.now topic).1 := by
    unfold step
    rw [panicked_of_step hpanic', hinput]
    rfl
  have hsubscribe := s.subscribe_eq_ok_true turn.now topic hn
  unfold Orderly at hturn
  rw [hinput] at hturn
  rw [hstep] at hpanic' hlast ⊢
  generalize s.subscribe turn.now topic = r at hpanic' hlast hsubscribe ⊢
  obtain ⟨result, s'⟩ := r
  cases result with
  | error e =>
    unfold replySubscribe at hlast hpanic'
    rw [getLast?_emit hpanic'] at hlast
    cases hlast
  | ok fresh =>
    cases fresh with
    | false =>
      unfold replySubscribe at hlast hpanic'
      rw [getLast?_emit hpanic'] at hlast
      cases hlast
    | true =>
      obtain ⟨hnot, hjoined, hmyTopics⟩ := hsubscribe rfl
      unfold replySubscribe at hlast hpanic' ⊢
      rw [getLast?_emit hpanic'] at hlast
      cases hlast
      obtain ⟨trace, heq⟩ := exists_emit { s' with
        nextChannel := s'.nextChannel + 1
        myTopics := s'.myTopics.insert topic (s'.myTopics[topic]?.getD s'.nextChannel) }
        turn.now (.subscribed topic (.ok s'.nextChannel))
      rw [heq]
      refine ⟨hjoined, ?_⟩
      change (s'.myTopics.insert topic (s'.myTopics[topic]?.getD s'.nextChannel))[topic]? = _
      rw [get_insert, if_pos rfl, hmyTopics, TreeMap.getElem?_eq_none (hturn.resolve_left hnot)]
      rfl

/-! ## Served subscriptions -/

theorem serves_step (hpool : s.PoolPlain) (hturn : s.Orderly turn)
    (hcancel : turn.input ≠ .cancel topic channel)
    (hunsubscribe : turn.input ≠ .command (.unsubscribed topic))
    (hs : s.tracked.Serves topic channel) : (s.step turn).tracked.Serves topic channel := by
  have hleave : ¬ (s.grantOf turn).leave topic := by
    rintro (hinput | ⟨sub, hinput⟩)
    · exact hunsubscribe hinput
    · unfold Orderly at hturn
      rw [hinput] at hturn hcancel
      have hsub : s.myTopics[topic]? = some sub := hturn.resolve_left (not_not.mpr hs.joined)
      have hchannel : s.myTopics[topic]? = some channel := hs.sender
      rw [hchannel] at hsub
      cases hsub
      exact hcancel rfl
  exact (s.effects_step turn hpool).preserve
    (fun _ _ heffect h => h.effect hleave hunsubscribe heffect) hs

theorem serves_run (hn : 0 < s.config.meshN) (hpool : s.PoolPlain)
    (hsteps : EachStep step Orderly s turns) (hlive : s.Live topic channel turns) :
    (run step s turns).tracked.Serves topic channel := by
  induction turns using List.reverseRecOn with
  | nil => exact absurd hlive not_since_nil
  | append_singleton turns turn ih =>
    obtain ⟨hbefore, hturn⟩ := eachStep_append.mp hsteps
    rw [run_append]
    rcases since_concat.mp hlive with hreply | ⟨hlive, hcancel, hunsubscribe⟩
    · exact serves_of_replies (by rwa [config_run hpool turns]) hturn.1 hreply
    · have hpool' : (run step s turns).PoolPlain :=
        invariant_run (I := PoolPlain) (fun _ turn h => poolPlain_step h turn) hpool turns
      exact serves_step hpool' hturn.1 hcancel hunsubscribe (ih hbefore hlive)

theorem exists_message_of_mem_received (hr : r ∈ s.received turn) :
    ∃ source rpc invalid, turn.input = .event (.message source rpc invalid) := by
  unfold received at hr
  split at hr
  · rename_i source rpc invalid hinput
    exact ⟨source, rpc, invalid, hinput⟩
  · cases hr

theorem notify_of_serves (hs : s.tracked.Serves message.topic channel) (hr : r ∈ s.received turn)
    (haccepted : r.accepted turn.now = some message) (hpanic : (s.step turn).panicked = false) :
    (turn.now, .notify channel message) ∈ (s.step turn).trace.drop s.trace.length := by
  obtain ⟨source, rpc, invalid, hinput⟩ := exists_message_of_mem_received hr
  obtain ⟨hbefore, hafter⟩ := conducts_of_mem_received hr
  have hstep : s.step turn = s.handle turn.now turn.input :=
    if_neg (Bool.eq_false_iff.mp (panicked_of_step hpanic))
  rw [hstep] at hpanic ⊢
  have hstate : r.state.tracked.Serves message.topic channel := by
    refine hbefore.preserve (fun _ _ heffect h => h.effect ?_ ?_ heffect) hs
    · rintro (h | ⟨sub, h⟩) <;> rw [hinput] at h <;> cases h
    · intro h
      have h' : turn.input = .command (.unsubscribed message.topic) := h
      rw [hinput] at h'
      cases h'
  have hreceive : Conducts .all turn.now r.state
      (r.state.handleReceivedMessage turn.now r.raw r.source) :=
    conducts_handleReceivedMessage (fun _ _ => trivial) (fun _ _ _ _ => trivial)
  have hquiet : r.state.panicked = false := hreceive.sticky (hafter.sticky hpanic)
  obtain ⟨before, hbefore⟩ := hbefore.trace_prefix
  obtain ⟨between, hbetween⟩ := notify_handleReceivedMessage haccepted hstate.sender hquiet
  obtain ⟨after, hafter⟩ := hafter.trace_prefix
  rw [← hafter, ← hbetween, ← hbefore, List.append_assoc, List.append_assoc, List.append_assoc,
    List.drop_left]
  simp

/-- In every run in which subscriptions succeed each other in order: while a subscription is in
force, the node stays in the mesh of its topic, and every message that a step accepts on the topic
goes to its receiver. -/
theorem live_subscription_served {privacy : MessageAuthenticity} {config : GossipsubConfig}
    {filter : F} {transform : D} {rng : Rng} (hbuild : config.build = .ok config)
    (hnew : new P R privacy config filter transform rng = some (.ok s)) {turns : List (Turn P R)}
    (hsteps : EachStep step Orderly s turns) (hlive : s.Live topic channel turns) :
    topic ∈ (run step s turns).mesh ∧
    ∀ turn, ∀ r ∈ (run step s turns).received turn, ∀ message,
      r.accepted turn.now = some message → message.topic = topic →
      ((run step s turns).step turn).panicked = false →
        (turn.now, .notify channel message) ∈
          ((run step s turns).step turn).trace.drop (run step s turns).trace.length := by
  have hbuilt := GossipsubConfig.build_eq_ok hbuild
  have hn : 0 < config.meshN := by
    have houtbound := hbuilt.mesh_outbound
    have hlow := hbuilt.mesh_low
    omega
  obtain ⟨backoffs, -, rfl⟩ := exists_initial hnew
  have hserves := serves_run hn (poolPlain_of_empty rfl) hsteps hlive
  refine ⟨hserves.joined, fun turn r hr message haccepted htopic hpanic => ?_⟩
  subst htopic
  exact notify_of_serves hserves hr haccepted hpanic

end Commands

def resubscribe : List (Turn SteadyScore ℚ) :=
  [⟨0, .command (.subscribe sampleTopic)⟩,
   ⟨0, .cancel sampleTopic 0⟩,
   ⟨0, .command (.subscribe sampleTopic)⟩]

def orderlyResubscribe : List (Turn SteadyScore ℚ) :=
  [⟨0, .command (.subscribe sampleTopic)⟩,
   ⟨0, .cancel sampleTopic 0⟩,
   ⟨0, .command (.unsubscribed sampleTopic)⟩,
   ⟨0, .command (.subscribe sampleTopic)⟩]

theorem orderlyResubscribe_served :
    sampleTopic ∈ (run step scoredNode orderlyResubscribe).mesh ∧
    ((run step scoredNode orderlyResubscribe).received (sampleReceipt 1)).map (·.accepted 1) =
      [some ⟨none, [1], none, sampleTopic⟩] ∧
    ∀ r ∈ (run step scoredNode orderlyResubscribe).received (sampleReceipt 1), ∀ message,
      r.accepted 1 = some message → message.topic = sampleTopic →
        (1, .notify 1 message) ∈
          ((run step scoredNode orderlyResubscribe).step (sampleReceipt 1)).trace.drop
            (run step scoredNode orderlyResubscribe).trace.length := by
  have hlive : scoredNode.Live sampleTopic 1 orderlyResubscribe :=
    ⟨orderlyResubscribe.take 3, ⟨0, .command (.subscribe sampleTopic)⟩, [], rfl,
      ⟨rfl, by decide +kernel, by decide +kernel⟩, by simp⟩
  have hsteps : EachStep step Orderly scoredNode orderlyResubscribe :=
    ⟨Or.inr (by decide +kernel), Or.inr (by decide +kernel), trivial,
      Or.inr (by decide +kernel), trivial⟩
  have hserved := live_subscription_served (by rfl) scoredNode_new hsteps hlive
  exact ⟨hserved.1, by decide +kernel,
    fun r hr message h htopic => hserved.2 _ r hr message h htopic (by decide +kernel)⟩

/-- The sender of the cancelled subscription stays, so that the new one gets nothing; and when the
cancelled subscription is dropped, the new one leaves the mesh. -/
theorem resubscribe_not_served :
    (scoredNode.Live sampleTopic 1 resubscribe ∧
      ((run step scoredNode resubscribe).received (sampleReceipt 1)).map (·.accepted 1) =
        [some ⟨none, [1], none, sampleTopic⟩] ∧
      (1, .notify 1 ⟨none, [1], none, sampleTopic⟩) ∉
        ((run step scoredNode resubscribe).step (sampleReceipt 1)).trace) ∧
    scoredNode.Live sampleTopic 1 (resubscribe ++ [⟨0, .cancel sampleTopic 0⟩]) ∧
      sampleTopic ∉ (run step scoredNode (resubscribe ++ [⟨0, .cancel sampleTopic 0⟩])).mesh := by
  have hreplies : (run step scoredNode (resubscribe.take 2)).Replies
      ⟨0, .command (.subscribe sampleTopic)⟩ sampleTopic 1 :=
    ⟨rfl, by decide +kernel, by decide +kernel⟩
  refine ⟨⟨⟨resubscribe.take 2, _, [], rfl, hreplies, by simp⟩, by decide +kernel⟩,
    ⟨resubscribe.take 2, _, [⟨0, .cancel sampleTopic 0⟩], rfl, hreplies, ?_⟩, by decide +kernel⟩
  simp

end Gossipsub

end Libp2pRs.Gossip
