import Libp2pRs.Gossip.MessageConduct

/-!
# The conduct of the node

`grantOf` says what an input asks for. A step has effects only, and those that depend on the input
are granted by it; so what every effect preserves holds in every state of a run.
-/

namespace Libp2pRs.Gossip

open Lib Libp2pRs.Core Std

namespace Gossipsub

variable {P R F D : Type} {g : Grant} {now : Instant} {s : Gossipsub P R F D}

/-! ## Peers -/

theorem conducts_forgetIn [hg : Fact g.tend] (peer : PeerId) (topic : TopicHash) :
    Conducts g now s (forgetIn peer s topic) := by
  have hshrink : Conducts g now s (s.removeFromMesh topic peer) := conducts_removeFromMesh topic peer
  have hunlist : Conducts g now (s.removeFromMesh topic peer) { s.removeFromMesh topic peer with
      topicPeers := s.topicPeers.modify topic (·.erase peer) } :=
    Moves.single (.announce hg.out (fun _ => Iff.rfl))
  refine (hshrink.trans hunlist).trans (Moves.single (.refan (fun _ => ?_)))
  exact TreeMap.mem_modify

section Peers

variable [PeerScoring P R]

theorem conducts_handleNewPeer (hconnect : g.connect peer) :
    Conducts g now s (s.handleNewPeer now peer) := by
  have hopen : Conducts g now s (s.openChannel now peer) := by
    have hchannel : Conducts g now s { s with
        connectedPeer := s.connectedPeer.insert peer s.nextChannel
        nextChannel := s.nextChannel + 1 } := Moves.single (.connect hconnect)
    refine hchannel.trans (conducts_emitAll (fun o ho => ?_))
    rcases List.mem_append.mp ho with ho | ho
    · obtain ⟨channel, -, rfl⟩ := List.mem_map.mp ho
      trivial
    · rw [List.mem_singleton.mp ho]
      trivial
  unfold handleNewPeer
  split
  · exact Moves.refl
  · generalize s.openChannel now peer = s' at hopen ⊢
    have hannounce : Conducts g now s' (s'.announceTo now peer) := by
      unfold announceTo
      dsimp only
      split
      · exact Moves.refl
      · exact (conducts_trySend rfl (by simp)).silent (by rfl)
    generalize s'.announceTo now peer = s'' at hannounce ⊢
    have hreset : Conducts g now s'' (s''.resetTopics peer) := Moves.single (.greet hconnect)
    exact (hopen.trans hannounce).trans hreset

theorem conducts_handleRemoveDeadPeer [hg : Fact g.tend] (hdisconnect : g.disconnect peer) :
    Conducts g now s (s.handleRemoveDeadPeer now peer) := by
  unfold handleRemoveDeadPeer
  split
  · exact Moves.refl
  · rename_i topics htopics
    have hforget : Conducts g now s ((sorted topics).foldl (forgetIn peer) s) :=
      Conducts.foldl (fun _ topic _ => conducts_forgetIn peer topic) s
    exact (hforget.trans (Moves.single (.disconnect hdisconnect))).trans
      (Moves.single (.enroll hg.out))

end Peers

/-! ## RPCs -/

structure Receipt (P R F D : Type) where
  state : Gossipsub P R F D
  source : PeerId
  raw : RawGossipsubMessage

variable {r : Receipt P R F D} {source : PeerId}

section Messages

variable [PeerScoring P R]

def punish (s : Gossipsub P R F D) (now : Instant) (source : PeerId)
    (invalidMessages : List (RawGossipsubMessage × ValidationError)) : Gossipsub P R F D :=
  if s.peerScore.isSome then
    invalidMessages.foldl (fun s m => s.handleInvalidMessage now source m.1 m.2) s
  else s

theorem tracked_punish (source : PeerId)
    (invalidMessages : List (RawGossipsubMessage × ValidationError)) :
    (s.punish now source invalidMessages).tracked = s.tracked := by
  unfold punish
  split
  · exact foldl_unchanged (fun _ m => tracked_handleInvalidMessage source m.1 m.2) invalidMessages s
  · rfl

variable [DataTransform D]

def receipts (now : Instant) (source : PeerId) :
    Gossipsub P R F D → List RawGossipsubMessage → List (Receipt P R F D)
  | _, [] => []
  | s, raw :: l => ⟨s, source, raw⟩ :: receipts now source (s.handleReceivedMessage now raw source) l

def Receipt.accepted (r : Receipt P R F D) (now : Instant) : Option GossipsubMessage :=
  r.state.accepted now r.raw r.source

def Grants (g : Grant) (now : Instant) (rs : List (Receipt P R F D)) : Prop :=
  ∀ r ∈ rs, ∀ message, r.accepted now = some message →
    g.receive (r.state.config.messageIdFn message) (r.state.config.ingest r.raw) ∧
    (r.state.config.validateMessages = true → r.state.Reaches message.topic r.raw →
      g.dispatch r.raw)

theorem Grants.conducts (h : Grants g now rs) (hr : r ∈ rs) :
    Conducts g now r.state (r.state.handleReceivedMessage now r.raw r.source) :=
  conducts_handleReceivedMessage (fun message hmessage => (h r hr message hmessage).1)
    (fun message hmessage => (h r hr message hmessage).2)

theorem conducts_receipts (h : Grants g now (receipts now source s l)) :
    Conducts g now s (l.foldl (fun s m => s.handleReceivedMessage now m source) s) := by
  induction l generalizing s with
  | nil => exact Moves.refl
  | cons raw l ih =>
    exact (h.conducts List.mem_cons_self).trans (ih (fun r hr => h r (List.mem_cons_of_mem _ hr)))

theorem conducts_of_mem_receipts
    (h : Grants g now (receipts now source s l)) (hr : r ∈ receipts now source s l) :
    Conducts g now s r.state ∧ Conducts g now (r.state.handleReceivedMessage now r.raw r.source)
        (l.foldl (fun s m => s.handleReceivedMessage now m source) s) := by
  induction l generalizing s with
  | nil => cases hr
  | cons raw l ih =>
    have hrest : Grants g now (receipts now source (s.handleReceivedMessage now raw source) l) :=
      fun r hr => h r (List.mem_cons_of_mem _ hr)
    rcases List.mem_cons.mp hr with rfl | hr
    · exact ⟨Moves.refl, conducts_receipts hrest⟩
    · obtain ⟨hbefore, hafter⟩ := ih hrest hr
      exact ⟨(h.conducts List.mem_cons_self).trans hbefore, hafter⟩

end Messages

section Rpc

variable [ScoreArith R] [PeerScoring P R]

theorem conducts_handleGossip (rpc : GossipsubRpc) (source : PeerId) :
    Conducts g now s (s.handleGossip now rpc source) := by
  have hwants : Conducts g now s (rpc.iwants.foldl (fun s ids => s.handleIwant now source ids) s) :=
    Conducts.foldl (fun _ ids _ => conducts_handleIwant source ids) s
  unfold handleGossip
  split
  · exact hwants
  · exact hwants.trans (conducts_handleIhave source rpc.ihaves)

theorem conducts_handleGraftPrune [Fact g.tend]
    (h : ∀ d ∈ rpc.prunes, ∀ b, d.2.2 = some b → g.backoff (Duration.fromSecs b)) :
    Conducts g now s (s.handleGraftPrune now rpc source) := by
  have hgraft : Conducts g now s (if rpc.grafts.isEmpty then s
      else s.handleGraft now source rpc.grafts) := by
    split
    · exact Moves.refl
    · exact conducts_handleGraft source rpc.grafts
  unfold handleGraftPrune
  dsimp only
  split
  · exact hgraft
  · exact hgraft.trans (conducts_handlePrune h)

end Rpc

/-- The control messages that wait offer nothing. -/
def PoolPlain (s : Gossipsub P R F D) : Prop :=
  ∀ p : PeerId, ∀ a ∈ s.controlPool[p]?.getD [], a.offers = []

theorem PoolPlain.granted (h : s.PoolPlain) : s.tracked.PoolGranted g := by
  intro p a ha
  rw [h p a ha]
  simp

theorem poolPlain_of_empty (h : s.controlPool = ∅) : s.PoolPlain := by
  intro p a ha
  rw [h] at ha
  simp at ha

theorem controlPool_flushControlPool : (s.flushControlPool now).controlPool = ∅ := by
  refine foldl_unchanged (v := controlPool) (fun s e => ?_) _ _
  obtain ⟨trace, heq⟩ := exists_sendMessage s now e.1 (Proto.intoProtobuf { controlMsgs := e.2 })
  unfold trySend
  rw [heq]

theorem controlPool_shiftCache : s.shiftCache.controlPool = s.controlPool := by
  unfold shiftCache
  split <;> rfl

section Step

variable [ScoreArith R] [PeerScoring P R]

theorem controlPool_heartbeat : (s.heartbeat now).controlPool = ∅ := by
  rw [heartbeat_eq]
  unfold concluded
  rw [controlPool_shiftCache, controlPool_flushControlPool]

variable [TopicSubscriptionFilter F]

theorem conducts_handleSubscriptions [Fact g.tend] (rpc : GossipsubRpc) (source : PeerId) :
    Conducts g now s (s.handleSubscriptions now rpc source) := by
  unfold handleSubscriptions
  split
  · exact Moves.refl
  · exact conducts_handleReceivedSubscriptions rpc.subscriptions source

variable [DataTransform D]

/-! ## Steps -/

def received (s : Gossipsub P R F D) (turn : Turn P R) : List (Receipt P R F D) :=
  match turn.input with
  | .event (.message source rpc invalid) =>
    let s := s.handleSubscriptions turn.now rpc source
    if s.scoreBelowThreshold source PeerScoreThresholds.graylistThreshold then []
    else
      let s := s.punish turn.now source invalid
      receipts turn.now source s
        (rpc.messages.take (s.config.maxMessagesPerRpc.getD rpc.messages.length))
  | _ => []

/-- What an input asks for. A message that is accepted is passed on unseen when the application has
to validate it and it reaches a mesh peer of its topic. -/
def grantOf (s : Gossipsub P R F D) (turn : Turn P R) : Grant where
  tend := True
  backoff time := ∃ source rpc invalid, turn.input = .event (.message source rpc invalid) ∧
    ∃ d ∈ rpc.prunes, ∃ b, d.2.2 = some b ∧ time = Duration.fromSecs b
  clean := turn.input = .event .heartBeat ∨ turn.input = .command .heartbeat
  join topic := turn.input = .command (.subscribe topic)
  leave topic := turn.input = .command (.unsubscribed topic) ∨
    ∃ sub, turn.input = .cancel topic sub
  close topic := turn.input = .command (.unsubscribed topic)
  receive id raw := ∃ r ∈ s.received turn, ∃ message, r.accepted turn.now = some message ∧
    id = r.state.config.messageIdFn message ∧ raw = r.state.config.ingest r.raw
  dispatch raw := ∃ r ∈ s.received turn, ∃ message, r.accepted turn.now = some message ∧
    r.state.config.validateMessages = true ∧ r.state.Reaches message.topic r.raw ∧ raw = r.raw
  publish id raw := ∃ topic data, turn.input = .command (.publish topic data) ∧
    s.Builds topic data id raw
  accept id := ∃ source, turn.input = .call (.reportMessageValidationResult id source .accept)
  offer id := (turn.input = .event .heartBeat ∨ turn.input = .command .heartbeat) ∧
    Gossips s.mcache id
  connect peer := turn.input = .event (.newPeer peer)
  disconnect peer := turn.input = .event (.deadPeer peer)

instance (s : Gossipsub P R F D) (turn : Turn P R) : Fact (s.grantOf turn).tend := ⟨trivial⟩

theorem grants_received (s : Gossipsub P R F D) (turn : Turn P R) :
    Grants (s.grantOf turn) turn.now (s.received turn) := by
  intro r hr message hmessage
  exact ⟨⟨r, hr, message, hmessage, rfl, rfl⟩,
    fun hvalidate hreach => ⟨r, hr, message, hmessage, hvalidate, hreach, rfl⟩⟩

theorem received_message
    (hgray : ¬ (s.handleSubscriptions now rpc source).scoreBelowThreshold source
      PeerScoreThresholds.graylistThreshold = true) :
    s.received ⟨now, .event (.message source rpc invalid)⟩ = receipts now source
      ((s.handleSubscriptions now rpc source).punish now source invalid)
      (rpc.messages.take (((s.handleSubscriptions now rpc source).punish now source
        invalid).config.maxMessagesPerRpc.getD rpc.messages.length)) :=
  if_neg hgray

theorem conducts_afterMessages (s s' : Gossipsub P R F D) (now : Instant) (source : PeerId)
    (rpc : GossipsubRpc) (invalid : List (RawGossipsubMessage × ValidationError)) :
    Conducts (s.grantOf ⟨now, .event (.message source rpc invalid)⟩) now s'
      ((s'.handleGossip now rpc source).handleGraftPrune now rpc source) := by
  have hgossip : Conducts (s.grantOf ⟨now, .event (.message source rpc invalid)⟩) now s'
      (s'.handleGossip now rpc source) := conducts_handleGossip rpc source
  refine hgossip.trans (conducts_handleGraftPrune (fun d hd b hb => ?_))
  exact ⟨source, rpc, invalid, rfl, d, hd, b, hb, rfl⟩

theorem conducts_handleMessageEvent :
    Conducts (s.grantOf ⟨now, .event (.message source rpc invalid)⟩) now s
      (s.handleMessageEvent now rpc source invalid) := by
  have hgrants := s.grants_received ⟨now, .event (.message source rpc invalid)⟩
  have hafter := s.conducts_afterMessages
    ((s.handleSubscriptions now rpc source).handleMessages now rpc source invalid) now source rpc
    invalid
  have hsubs : Conducts (s.grantOf ⟨now, .event (.message source rpc invalid)⟩) now s
      (s.handleSubscriptions now rpc source) := conducts_handleSubscriptions rpc source
  unfold handleMessageEvent handleContents
  dsimp only
  split
  · exact hsubs
  · rename_i hgray
    rw [received_message hgray] at hgrants
    have hmessages : Conducts (s.grantOf ⟨now, .event (.message source rpc invalid)⟩) now
        (s.handleSubscriptions now rpc source)
        ((s.handleSubscriptions now rpc source).handleMessages now rpc source invalid) := by
      exact Conducts.silent (conducts_receipts hgrants) (tracked_punish source invalid)
    exact (hsubs.trans hmessages).trans hafter

theorem conducts_of_mem_received (hr : r ∈ s.received turn) :
    Conducts (s.grantOf turn) turn.now s r.state ∧ Conducts (s.grantOf turn) turn.now
        (r.state.handleReceivedMessage turn.now r.raw r.source) (s.handle turn.now turn.input) := by
  obtain ⟨now, input⟩ := turn
  cases input with
  | event e =>
    cases e with
    | message source rpc invalid =>
      have hgrants := s.grants_received ⟨now, .event (.message source rpc invalid)⟩
      have hafter := s.conducts_afterMessages
        ((s.handleSubscriptions now rpc source).handleMessages now rpc source invalid) now source
        rpc invalid
      have hsubs : Conducts (s.grantOf ⟨now, .event (.message source rpc invalid)⟩) now s
          (s.handleSubscriptions now rpc source) := conducts_handleSubscriptions rpc source
      by_cases hgray : (s.handleSubscriptions now rpc source).scoreBelowThreshold source
          PeerScoreThresholds.graylistThreshold = true
      · have hnone : s.received ⟨now, .event (.message source rpc invalid)⟩ = [] := if_pos hgray
        rw [hnone] at hr
        cases hr
      · rw [received_message hgray] at hr hgrants
        obtain ⟨hbefore, hrest⟩ := conducts_of_mem_receipts hgrants hr
        refine ⟨hsubs.trans (Conducts.silent hbefore (tracked_punish source invalid)), ?_⟩
        have heq : s.handle now (.event (.message source rpc invalid)) =
            (((s.handleSubscriptions now rpc source).handleMessages now rpc source
              invalid).handleGossip now rpc source).handleGraftPrune now rpc source := by
          exact if_neg hgray
        rw [heq]
        exact hrest.trans hafter
    | _ => cases hr
  | _ => cases hr

theorem conducts_grant_heartbeat (hpool : s.PoolPlain)
    (hturn : turn.input = .event .heartBeat ∨ turn.input = .command .heartbeat) :
    Conducts (s.grantOf turn) now s (s.heartbeat now) := by
  exact conducts_heartbeat hturn hpool.granted (fun id hid => ⟨hturn, hid⟩)

theorem conducts_handleCommand (hpool : s.PoolPlain) (c : ControlCommand) :
    Conducts (s.grantOf ⟨now, .command c⟩) now s (s.handleCommand now c) := by
  cases c with
  | publish topic data =>
    refine Moves.trans (conducts_publish (fun id raw h => ?_)) (conducts_emit trivial)
    exact ⟨topic, data, rfl, h⟩
  | subscribe topic =>
    have hjoin : (s.grantOf ⟨now, .command (.subscribe topic)⟩).join topic := rfl
    have hsubscribe : Conducts _ now s (s.subscribe now topic).2 := conducts_subscribe hjoin
    generalize s.grantOf ⟨now, .command (.subscribe topic)⟩ = g at hjoin hsubscribe ⊢
    unfold handleCommand
    dsimp only
    generalize s.subscribe now topic = r at hsubscribe ⊢
    refine hsubscribe.trans ?_
    unfold replySubscribe
    split
    · exact conducts_emit trivial
    · have hnote : Conducts g now r.2 { r.2 with
          nextChannel := r.2.nextChannel + 1
          myTopics := r.2.myTopics.insert topic (r.2.myTopics[topic]?.getD r.2.nextChannel) } :=
        Moves.single (.subscribe hjoin)
      exact hnote.trans (conducts_emit trivial)
    · exact conducts_emit trivial
  | unsubscribed topic =>
    have hclose : (s.grantOf ⟨now, .command (.unsubscribed topic)⟩).close topic := rfl
    have hleave : (s.grantOf ⟨now, .command (.unsubscribed topic)⟩).leave topic := Or.inl rfl
    have hunsubscribe : Conducts _ now s (s.unsubscribe now topic).2 := conducts_unsubscribe hleave
    generalize s.grantOf ⟨now, .command (.unsubscribed topic)⟩ = g at hclose hunsubscribe ⊢
    unfold handleCommand
    dsimp only
    refine hunsubscribe.trans ?_
    generalize (s.unsubscribe now topic).2 = s'
    unfold closeTopic
    split
    · exact Moves.refl
    · have herase : Conducts g now s' { s' with myTopics := s'.myTopics.erase topic } :=
        Moves.single (.close hclose)
      exact herase.trans (conducts_emit trivial)
  | heartbeat => exact conducts_grant_heartbeat hpool (Or.inr rfl)

theorem conducts_handleCall (c : Call P R) :
    Conducts (s.grantOf ⟨now, .call c⟩) now s (s.handleCall now c) := by
  cases c with
  | addExplicitPeer peer =>
    have henroll : Conducts (s.grantOf ⟨now, .call (.addExplicitPeer peer)⟩) now s
        { s with explicitPeers := insert peer s.explicitPeers } := Moves.single (.enroll trivial)
    refine henroll.trans ?_
    unfold handleCall checkExplicitPeerConnection
    dsimp only
    split
    · exact Moves.refl
    · exact conducts_emit trivial
  | removeExplicitPeer peer => exact Moves.single (.enroll trivial)
  | reportMessageValidationResult id source acceptance =>
    refine conducts_reportMessageValidationResult (fun haccept => ⟨source, ?_⟩)
    rw [haccept]
  | withPeerScore peerScore thresholds =>
    unfold handleCall
    dsimp only
    split <;> exact Moves.refl
  | _ => exact Moves.refl

theorem effects_step (s : Gossipsub P R F D) (turn : Turn P R) (hpool : s.PoolPlain) :
    Tracked.Effects (s.grantOf turn) turn.now s.tracked (s.step turn).tracked := by
  obtain ⟨now, input⟩ := turn
  unfold step
  split
  · exact Moves.refl
  · cases input with
    | event e =>
      cases e with
      | peerKind peer kind => exact Moves.single (.enroll trivial)
      | newPeer peer => exact conducts_handleNewPeer rfl
      | deadPeer peer => exact conducts_handleRemoveDeadPeer rfl
      | message source rpc invalid => exact conducts_handleMessageEvent
      | heartBeat => exact conducts_grant_heartbeat hpool (Or.inl rfl)
    | command c => exact conducts_handleCommand hpool c
    | cancel topic sub => exact conducts_unsubscribe (Or.inr ⟨sub, rfl⟩)
    | call c => exact conducts_handleCall c

theorem poolPlain_step (hpool : s.PoolPlain) (turn : Turn P R) : (s.step turn).PoolPlain := by
  by_cases hturn : turn.input = .event .heartBeat ∨ turn.input = .command .heartbeat
  · unfold step
    split
    · exact hpool
    · have hhandle : s.handle turn.now turn.input = s.heartbeat turn.now := by
        rcases hturn with hturn | hturn
        · rw [hturn, handle, handleEvent]
        · rw [hturn, handle, handleCommand]
      rw [hhandle]
      exact poolPlain_of_empty controlPool_heartbeat
  · have hgranted : (s.step turn).tracked.PoolGranted (s.grantOf turn) :=
      (s.effects_step turn hpool).preserve (fun _ _ => Tracked.PoolGranted.effect) hpool.granted
    intro p a ha
    refine List.eq_nil_iff_forall_not_mem.mpr (fun id hid => ?_)
    exact hturn (hgranted p a ha id hid).1

theorem run_of_effect {I : Tracked D → Prop} (hI : ∀ (s : Gossipsub P R F D) turn n n',
      Tracked.Effect (s.grantOf turn) turn.now n n' → I n → I n')
    (hs : I s.tracked) (hpool : s.PoolPlain) (turns : List (Turn P R)) :
    I (run step s turns).tracked := by
  refine (invariant_run (I := fun s : Gossipsub P R F D => s.PoolPlain ∧ I s.tracked)
    (fun s turn h => ⟨poolPlain_step h.1 turn, ?_⟩) ⟨hpool, hs⟩ turns).2
  exact (s.effects_step turn h.1).preserve (hI s turn) h.2

theorem config_run (hpool : s.PoolPlain) (turns : List (Turn P R)) :
    (run step s turns).config = s.config :=
  run_of_effect (I := fun n => n.config = s.config)
    (fun _ _ _ _ heffect h => heffect.config.trans h) rfl hpool turns

theorem config_of_mem_received (hr : r ∈ s.received turn) : r.state.config = s.config :=
  (conducts_of_mem_received hr).1.preserve (I := fun n => n.config = s.config)
    (fun _ _ heffect h => heffect.config.trans h) rfl

end Step

end Gossipsub

end Libp2pRs.Gossip
