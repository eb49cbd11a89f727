import Libp2pRs.Swarm.Connections
import Libp2pRs.Gossip.Membership

/-!
# Peers and connections

The Swarm reports every connection that is opened or closed to the protocol handlers, and the
handler of gossipsub queues a `NewPeer` or a `DeadPeer` for the loop. The handler is registered
under several protocol ids, so that each report comes several times. A stream task of gossipsub
that cannot open its stream or cannot write to it queues a `DeadPeer` as well.

Gossipsub has one entry for a peer, not one for a connection. `Host` is the Swarm, the queue and the
node together; `Follows` says that the queue leads the node to the peers with an open connection.
It holds as long as no peer has two connections and no stream fails while there is one.
-/

namespace Libp2pRs.Gossip

open Lib Libp2pRs.Core Libp2pRs.Swarm Std Connections Gossipsub

namespace Tracked

variable {D : Type} {g : Grant} {now : Instant} {n n' : Tracked D}

theorem Effect.mem_peers (hconnect : ∀ p, ¬ g.connect p) (hdisconnect : ∀ p, ¬ g.disconnect p)
    (h : Effect g now n n') (q : PeerId) :
    (q ∈ n'.connectedPeer ↔ q ∈ n.connectedPeer) ∧ (q ∈ n'.peerTopics ↔ q ∈ n.peerTopics) := by
  cases h with
  | connect h | greet h => exact absurd h (hconnect _)
  | announce _ hkey => exact ⟨Iff.rfl, hkey q⟩
  | disconnect h => exact absurd h (hdisconnect _)
  | _ => exact ⟨Iff.rfl, Iff.rfl⟩

end Tracked

/-! ## The peers of the node -/

namespace Gossipsub

variable {P R F D : Type} [ScoreArith R] [PeerScoring P R] [TopicSubscriptionFilter F]
  [DataTransform D] {s : Gossipsub P R F D} {now : Instant}

theorem mem_peers_newPeer (now : Instant) (hpanic : s.panicked = false)
    (hblack : p ∉ s.blacklistedPeers) (q : PeerId) :
    (q ∈ (s.step ⟨now, .event (.newPeer p)⟩).connectedPeer ↔ p = q ∨ q ∈ s.connectedPeer) ∧
      (q ∈ (s.step ⟨now, .event (.newPeer p)⟩).peerTopics ↔ p = q ∨ q ∈ s.peerTopics) := by
  have hconnecting : s.connecting ⟨now, .event (.newPeer p)⟩ = some p := by
    unfold connecting
    simp [hpanic, hblack]
  have hoverlay := overlay_step_of_connecting hconnecting
  have hconnected := congrArg Overlay.connected hoverlay
  have hknown := congrArg Overlay.known hoverlay
  rw [eq_comm (a := p)]
  exact ⟨Set.ext_iff.mp hconnected q, Set.ext_iff.mp hknown q⟩

theorem mem_peers_deadPeer (now : Instant) (hpanic : s.panicked = false)
    (hsame : p ∈ s.connectedPeer ↔ p ∈ s.peerTopics) (q : PeerId) :
    (q ∈ (s.step ⟨now, .event (.deadPeer p)⟩).connectedPeer ↔ q ∈ s.connectedPeer ∧ p ≠ q) ∧
      (q ∈ (s.step ⟨now, .event (.deadPeer p)⟩).peerTopics ↔ q ∈ s.peerTopics ∧ p ≠ q) := by
  have hstep : s.step ⟨now, .event (.deadPeer p)⟩ = s.handleRemoveDeadPeer now p :=
    if_neg (Bool.eq_false_iff.mp hpanic)
  rw [hstep]
  cases htopics : s.peerTopics[p]? with
  | none =>
    -- an unknown peer is not connected either
    have hunknown : p ∉ s.peerTopics := by
      rw [TreeMap.mem_iff_isSome_getElem?, htopics]
      exact Bool.false_ne_true
    have hsame' : s.handleRemoveDeadPeer now p = s := by
      unfold handleRemoveDeadPeer
      rw [htopics]
    rw [hsame']
    constructor
    · refine ⟨fun hq => ⟨hq, ?_⟩, And.left⟩
      rintro rfl
      exact hunknown (hsame.mp hq)
    · refine ⟨fun hq => ⟨hq, ?_⟩, And.left⟩
      rintro rfl
      exact hunknown hq
  | some topics =>
    have hoverlay : (s.handleRemoveDeadPeer now p).overlay = s.overlay.disconnect p :=
      overlay_handleRemoveDeadPeer htopics
    have hconnected := congrArg Overlay.connected hoverlay
    have hknown := congrArg Overlay.known hoverlay
    rw [ne_eq, eq_comm (a := p)]
    exact ⟨Set.ext_iff.mp hconnected q, Set.ext_iff.mp hknown q⟩

theorem mem_peers_step (turn : Turn P R) (hpool : s.PoolPlain)
    (hnew : ∀ p, turn.input ≠ .event (.newPeer p)) (hdead : ∀ p, turn.input ≠ .event (.deadPeer p))
    (q : PeerId) :
    (q ∈ (s.step turn).connectedPeer ↔ q ∈ s.connectedPeer) ∧
      (q ∈ (s.step turn).peerTopics ↔ q ∈ s.peerTopics) := by
  refine (s.effects_step turn hpool).preserve
    (I := fun n => (q ∈ n.connectedPeer ↔ q ∈ s.connectedPeer) ∧
      (q ∈ n.peerTopics ↔ q ∈ s.peerTopics)) (fun n n' heffect h => ?_) ⟨Iff.rfl, Iff.rfl⟩
  have hpeers := heffect.mem_peers hnew hdead q
  exact ⟨hpeers.1.trans h.1, hpeers.2.trans h.2⟩

end Gossipsub

/-! ## The Swarm, the queue and the node -/

namespace GossipsubHandler

def connected (connection : Connection) : HandlerEvent := .newPeer connection.remotePeer

def disconnected (connection : Connection) : HandlerEvent := .deadPeer connection.remotePeer

end GossipsubHandler

/-- The protocol ids of a configuration. The handler is registered under each of them. -/
def protocolIds (supportFloodsub : Bool) : List String :=
  ["/meshsub/1.1.0", "/meshsub/1.0.0"] ++ if supportFloodsub then ["/floodsub/1.0.0"] else []

inductive Report where
  | peerKind (peer : PeerId) (kind : PeerKind)
  | message (propagationSource : PeerId) (rpc : GossipsubRpc)
      (invalidMessages : List (RawGossipsubMessage × ValidationError))
  | heartBeat

def Report.event : Report → HandlerEvent
  | .peerKind peer kind => .peerKind peer kind
  | .message source rpc invalidMessages => .message source rpc invalidMessages
  | .heartBeat => .heartBeat

structure Host (P R F D : Type) where
  swarm : Connections
  supportFloodsub : Bool
  queue : List HandlerEvent
  node : Gossipsub P R F D

inductive HostEvent (P R : Type) where
  | opened (peer : PeerId)
  | closed (cid : Nat)
  /-- A stream task cannot open its stream or cannot write to it. -/
  | streamError (peer : PeerId)
  | report (r : Report)
  /-- The loop takes the next event. -/
  | next (now : Instant)
  | command (now : Instant) (c : ControlCommand)
  | cancel (now : Instant) (topic : TopicHash) (sub : Nat)
  | call (now : Instant) (c : Call P R)

namespace Host

variable {P R F D : Type}

def new (supportFloodsub : Bool) (node : Gossipsub P R F D) : Host P R F D :=
  ⟨.new, supportFloodsub, [], node⟩

def notify (h : Host P R F D) (event : HandlerEvent) : List HandlerEvent :=
  (protocolIds h.supportFloodsub).map (fun _ => event)

def post (h : Host P R F D) (events : List HandlerEvent) : Host P R F D :=
  { h with queue := h.queue ++ events }

section Step

variable [ScoreArith R] [PeerScoring P R] [TopicSubscriptionFilter F] [DataTransform D]

def turn (h : Host P R F D) (now : Instant) (input : Input P R) : Host P R F D :=
  { h with node := h.node.step ⟨now, input⟩ }

/-- A loop that has panicked takes nothing from the queue. -/
def next (h : Host P R F D) (now : Instant) : Host P R F D :=
  match h.queue with
  | [] => h
  | e :: queue =>
    if h.node.panicked then h else { h with queue }.turn now (.event e)

def step (h : Host P R F D) : HostEvent P R → Host P R F D
  | .opened peer =>
    let r := h.swarm.handleConnectionOpened peer
    post { h with swarm := r.2 } (h.notify (GossipsubHandler.connected r.1))
  | .closed cid =>
    let r := h.swarm.handleConnectionClosed cid
    post { h with swarm := r.2 }
      (r.1.elim [] (fun c => h.notify (GossipsubHandler.disconnected c)))
  | .streamError peer => h.post [.deadPeer peer]
  | .report r => h.post [r.event]
  | .next now => h.next now
  | .command now c => h.turn now (.command c)
  | .cancel now topic sub => h.turn now (.cancel topic sub)
  | .call now c => h.turn now (.call c)

end Step

def nextPeer (h : Host P R F D) : Option PeerId :=
  match h.queue with
  | .newPeer p :: _ => some p
  | _ => none

/-- No peer whose connection is reported is blacklisted. -/
def NoneBlacklisted (h : Host P R F D) : HostEvent P R → Prop
  | .next _ => ∀ p ∈ h.nextPeer, p ∉ h.node.blacklistedPeers
  | _ => True

/-- A connection is opened only to a peer that is not connected, and a stream fails only after the
connection. -/
def OneAtATime (h : Host P R F D) : HostEvent P R → Prop
  | .opened peer => h.swarm.isConnected peer = false
  | .streamError peer => h.swarm.isConnected peer = false
  | _ => True

instance (h : Host P R F D) : (e : HostEvent P R) → Decidable (h.NoneBlacklisted e ∧ h.OneAtATime e)
  | .next _ => inferInstanceAs (Decidable ((∀ p ∈ h.nextPeer, p ∉ h.node.blacklistedPeers) ∧ True))
  | .opened peer | .streamError peer =>
    inferInstanceAs (Decidable (True ∧ h.swarm.isConnected peer = false))
  | .closed _ | .report _ | .command _ _ | .cancel _ _ _ | .call _ _ => .isTrue ⟨trivial, trivial⟩

/-! ## What the queue leads to -/

/-- Whether the peer is there once the events have been handled, if it is there now. -/
def settles (p : PeerId) : List HandlerEvent → Prop → Prop
  | [], b => b
  | .newPeer q :: events, b => settles p events (q = p ∨ b)
  | .deadPeer q :: events, b => settles p events (b ∧ q ≠ p)
  | .peerKind _ _ :: events, b => settles p events b
  | .message _ _ _ :: events, b => settles p events b
  | .heartBeat :: events, b => settles p events b

theorem settles_append (p : PeerId) (events events' : List HandlerEvent) (b : Prop) :
    settles p (events ++ events') b = settles p events' (settles p events b) := by
  induction events generalizing b with
  | nil => rfl
  | cons e events ih => cases e <;> exact ih _

theorem settles_connected (h : Host P R F D) (c : Connection) (p : PeerId) (b : Prop) :
    settles p (h.notify (GossipsubHandler.connected c)) b ↔ c.remotePeer = p ∨ b := by
  unfold notify protocolIds
  cases h.supportFloodsub <;>
    simp only [Bool.false_eq_true, if_true, if_false, List.append_nil, List.cons_append,
      List.nil_append, List.map_cons, List.map_nil, GossipsubHandler.connected, settles] <;>
    tauto

theorem settles_disconnected (h : Host P R F D) (c : Connection) (p : PeerId) (b : Prop) :
    settles p (h.notify (GossipsubHandler.disconnected c)) b ↔ b ∧ c.remotePeer ≠ p := by
  unfold notify protocolIds
  cases h.supportFloodsub <;>
    simp only [Bool.false_eq_true, if_true, if_false, List.append_nil, List.cons_append,
      List.nil_append, List.map_cons, List.map_nil, GossipsubHandler.disconnected, settles] <;>
    tauto

/-- The node follows the Swarm: once its queue is empty, it knows exactly the peers with an open
connection. No peer has two connections. -/
structure Follows (h : Host P R F D) : Prop where
  indexed : h.swarm.Indexed
  single : ∀ (i j : Nat) (c d : Connection), h.swarm.connectionsById[i]? = some c →
    h.swarm.connectionsById[j]? = some d → c.remotePeer = d.remotePeer → i = j
  pool : h.node.PoolPlain
  same : ∀ p, p ∈ h.node.connectedPeer ↔ p ∈ h.node.peerTopics
  settled : ∀ p, settles p h.queue (p ∈ h.node.peerTopics) ↔ h.swarm.Open p

variable {h : Host P R F D}

theorem Follows.not_open (hf : h.Follows) (hnot : h.swarm.isConnected peer = false) :
    ¬ h.swarm.Open peer := by
  rw [← isConnected_iff hf.indexed, hnot]
  exact Bool.false_ne_true

theorem follows_new {privacy : MessageAuthenticity} {config : GossipsubConfig} {filter : F}
    {transform : D} {rng : Rng} {s : Gossipsub P R F D} (supportFloodsub : Bool)
    (hnew : Gossipsub.new P R privacy config filter transform rng = some (.ok s)) :
    (new supportFloodsub s).Follows := by
  obtain ⟨backoffs, -, rfl⟩ := exists_initial hnew
  refine ⟨indexed_new, ?_, poolPlain_of_empty rfl, fun p => Iff.rfl, fun p => ?_⟩
  · intro i j c d hc
    simp [new, Connections.new] at hc
  · refine iff_of_false TreeMap.not_mem_emptyc ?_
    rintro ⟨cid, c, hc, -⟩
    simp [new, Connections.new] at hc

section Step

variable [ScoreArith R] [PeerScoring P R] [TopicSubscriptionFilter F] [DataTransform D]

theorem Follows.opened (hf : h.Follows)
    (hnot : h.swarm.isConnected peer = false) : (h.step (.opened peer)).Follows := by
  have hclosed := hf.not_open hnot
  refine ⟨hf.indexed.handleConnectionOpened peer, ?_, hf.pool, hf.same, fun p => ?_⟩
  · intro i j c d hc hd heq
    change (h.swarm.handleConnectionOpened peer).2.connectionsById[i]? = some c at hc
    change (h.swarm.handleConnectionOpened peer).2.connectionsById[j]? = some d at hd
    rw [connectionsById_handleConnectionOpened] at hc hd
    -- the other connections go to other peers
    split at hc <;> split at hd
    · omega
    · cases hc
      exact absurd ⟨j, d, hd, heq.symm⟩ hclosed
    · cases hd
      exact absurd ⟨i, c, hc, heq⟩ hclosed
    · exact hf.single i j c d hc hd heq
  · change settles p (h.queue ++ _) _ ↔ (h.swarm.handleConnectionOpened peer).2.Open p
    rw [settles_append, open_handleConnectionOpened hf.indexed, ← hf.settled p]
    exact settles_connected h _ p _

theorem Follows.closed (hf : h.Follows) (cid : Nat) : (h.step (.closed cid)).Follows := by
  cases hc : h.swarm.connectionsById[cid]? with
  | none =>
    have hsame : h.step (.closed cid) = h := by
      have hclosed : h.swarm.handleConnectionClosed cid = (none, h.swarm) := by
        unfold handleConnectionClosed
        rw [hc]
      simp [step, post, hclosed]
    rw [hsame]
    exact hf
  | some c =>
    have hclosed : (h.swarm.handleConnectionClosed cid).1 = some c := by
      unfold handleConnectionClosed
      rw [hc]
    have hids : ∀ (i : Nat) (d : Connection), (h.swarm.handleConnectionClosed cid).2.connectionsById[i]? = some d →
        h.swarm.connectionsById[i]? = some d := by
      intro i d hd
      unfold handleConnectionClosed at hd
      rw [hc] at hd
      rw [get_erase] at hd
      exact (Option.ite_none_left_eq_some.mp hd).2
    refine ⟨hf.indexed.handleConnectionClosed cid, ?_, hf.pool, hf.same, fun p => ?_⟩
    · intro i j c' d hc' hd heq
      exact hf.single i j c' d (hids i c' hc') (hids j d hd) heq
    · change settles p (h.queue ++ (h.swarm.handleConnectionClosed cid).1.elim [] _)
        (p ∈ h.node.peerTopics) ↔ (h.swarm.handleConnectionClosed cid).2.Open p
      rw [hclosed, settles_append, open_handleConnectionClosed hc, Option.elim_some,
        settles_disconnected, hf.settled p]
      constructor
      · rintro ⟨⟨i, d, hd, hp⟩, hne⟩
        refine ⟨i, d, ?_, hd, hp⟩
        rintro rfl
        rw [hc] at hd
        cases hd
        exact hne hp
      · rintro ⟨i, d, hi, hd, rfl⟩
        exact ⟨⟨i, d, hd, rfl⟩, fun heq => hi (hf.single i cid d c hd hc heq.symm)⟩

theorem Follows.streamError (hf : h.Follows)
    (hnot : h.swarm.isConnected peer = false) : (h.step (.streamError peer)).Follows := by
  refine ⟨hf.indexed, hf.single, hf.pool, hf.same, fun p => ?_⟩
  change settles p (h.queue ++ [.deadPeer peer]) _ ↔ h.swarm.Open p
  rw [settles_append, ← hf.settled p]
  refine and_iff_left_of_imp (fun hp => ?_)
  rintro rfl
  exact hf.not_open hnot ((hf.settled peer).mp hp)

theorem Follows.report (hf : h.Follows) (r : Report) : (h.step (.report r)).Follows := by
  refine ⟨hf.indexed, hf.single, hf.pool, hf.same, fun p => ?_⟩
  change settles p (h.queue ++ [r.event]) _ ↔ h.swarm.Open p
  rw [settles_append, ← hf.settled p]
  cases r <;> rfl

theorem Follows.turn (hf : h.Follows)
    (hnew : ∀ p, input ≠ .event (.newPeer p)) (hdead : ∀ p, input ≠ .event (.deadPeer p)) :
    (h.turn now input).Follows := by
  have hpeers := mem_peers_step ⟨now, input⟩ hf.pool hnew hdead
  refine ⟨hf.indexed, hf.single, poolPlain_step hf.pool _, fun p => ?_, fun p => ?_⟩
  · exact (hpeers p).1.trans ((hf.same p).trans (hpeers p).2.symm)
  · exact (iff_of_eq (congrArg (settles p h.queue) (propext (hpeers p).2))).trans (hf.settled p)

theorem Follows.settles_step (hf : h.Follows) (now : Instant) (e : HandlerEvent)
    (hquiet : h.node.panicked = false)
    (hblack : ∀ q, e = .newPeer q → q ∉ h.node.blacklistedPeers) (queue : List HandlerEvent)
    (p : PeerId) :
    (p ∈ (h.node.step ⟨now, .event e⟩).connectedPeer ↔
        p ∈ (h.node.step ⟨now, .event e⟩).peerTopics) ∧
      (settles p queue (p ∈ (h.node.step ⟨now, .event e⟩).peerTopics) ↔
        settles p (e :: queue) (p ∈ h.node.peerTopics)) := by
  have hother : (∀ q, e ≠ .newPeer q) → (∀ q, e ≠ .deadPeer q) →
      (p ∈ (h.node.step ⟨now, .event e⟩).connectedPeer ↔
        p ∈ (h.node.step ⟨now, .event e⟩).peerTopics) ∧
      (settles p queue (p ∈ (h.node.step ⟨now, .event e⟩).peerTopics) ↔
        settles p queue (p ∈ h.node.peerTopics)) := by
    intro hnew hdead
    have hpeers := mem_peers_step ⟨now, .event e⟩ hf.pool
      (fun q heq => hnew q (Input.event.inj heq)) (fun q heq => hdead q (Input.event.inj heq)) p
    refine ⟨?_, iff_of_eq (congrArg (settles p queue) (propext hpeers.2))⟩
    rw [hpeers.1, hpeers.2, hf.same]
  cases e with
  | newPeer q =>
    have hpeers := mem_peers_newPeer now hquiet (hblack q rfl) p
    refine ⟨?_, iff_of_eq (congrArg (settles p queue) (propext hpeers.2))⟩
    rw [hpeers.1, hpeers.2, hf.same]
  | deadPeer q =>
    have hpeers := mem_peers_deadPeer now hquiet (hf.same q) p
    refine ⟨?_, iff_of_eq (congrArg (settles p queue) (propext hpeers.2))⟩
    rw [hpeers.1, hpeers.2, hf.same]
  | peerKind peer kind | message source rpc invalid | heartBeat => exact hother nofun nofun

theorem Follows.next (hf : h.Follows)
    (hblack : ∀ p ∈ h.nextPeer, p ∉ h.node.blacklistedPeers) : (h.next now).Follows := by
  unfold Host.next
  split
  · exact hf
  · rename_i e queue hqueue
    split
    · exact hf
    · rename_i hpanic
      have hquiet : h.node.panicked = false := Bool.eq_false_iff.mpr hpanic
      have hsettled := hf.settled
      rw [hqueue] at hsettled
      have hnode := hf.settles_step now e hquiet
        (fun q hq => hblack q (by rw [nextPeer, hqueue, hq]; rfl)) queue
      exact ⟨hf.indexed, hf.single, poolPlain_step hf.pool _,
        fun p => (hnode p).1, fun p => (hnode p).2.trans (hsettled p)⟩

theorem Follows.step (hf : h.Follows) {e : HostEvent P R} (hblack : h.NoneBlacklisted e)
    (hone : h.OneAtATime e) : (h.step e).Follows := by
  cases e with
  | opened peer => exact hf.opened hone
  | closed cid => exact hf.closed cid
  | streamError peer => exact hf.streamError hone
  | report r => exact hf.report r
  | next now => exact hf.next hblack
  | command now c | cancel now topic sub | call now c => exact hf.turn (by simp) (by simp)

/-- In every history in which no peer has two connections at a time, no stream to a connected peer
fails and no peer is blacklisted: once the node has handled all queued events, the peers that it
knows are those with an open connection. -/
theorem peers_follow_connections {privacy : MessageAuthenticity} {config : GossipsubConfig}
    {filter : F} {transform : D} {rng : Rng} {s : Gossipsub P R F D} {supportFloodsub : Bool}
    (hnew : Gossipsub.new P R privacy config filter transform rng = some (.ok s))
    {events : List (HostEvent P R)}
    (hevents : EachStep step (fun h e => h.NoneBlacklisted e ∧ h.OneAtATime e)
      (new supportFloodsub s) events)
    (hqueue : (run step (new supportFloodsub s) events).queue = []) (p : PeerId) :
    (p ∈ (run step (new supportFloodsub s) events).node.connectedPeer ↔
        (run step (new supportFloodsub s) events).swarm.Open p) ∧
      (p ∈ (run step (new supportFloodsub s) events).node.peerTopics ↔
        (run step (new supportFloodsub s) events).swarm.Open p) := by
  have hf : (run step (new supportFloodsub s) events).Follows :=
    always_last (always_of_step (fun _ _ hf he => Follows.step hf he.1 he.2)
      (follows_new supportFloodsub hnew) hevents)
  have hsettled := hf.settled p
  rw [hqueue] at hsettled
  exact ⟨(hf.same p).trans hsettled, hsettled⟩

end Step

open Gossipsub in
/-- A peer connects, its connection is closed and its stream fails, and it connects again. -/
def reconnect : List (HostEvent Empty ℚ) :=
  [.opened samplePeer, .next 0, .next 0, .closed 1, .streamError samplePeer, .opened samplePeer,
    .next 1, .next 1, .next 1, .next 1, .next 1]

open Gossipsub in
theorem reconnect_follows :
    (run step (new false sampleNode) reconnect).swarm.Open samplePeer ∧
      samplePeer ∈ (run step (new false sampleNode) reconnect).node.peerTopics := by
  have hevents : EachStep step (fun h e => h.NoneBlacklisted e ∧ h.OneAtATime e)
      (new false sampleNode) reconnect := by
    decide +kernel
  have hpeers := peers_follow_connections sampleNode_new hevents (by rfl) samplePeer
  have hopen : (run step (new false sampleNode) reconnect).swarm.Open samplePeer :=
    ⟨2, ⟨2, samplePeer⟩, by decide +kernel, rfl⟩
  exact ⟨hopen, hpeers.2.mpr hopen⟩

open Gossipsub in
/-- A peer connects and subscribes to the topic; then it opens a second connection. -/
def secondConnection : List (HostEvent Empty ℚ) :=
  [.opened samplePeer, .next 0, .next 0,
    .report (.message samplePeer { subscriptions := [⟨.subscribe, sampleTopic⟩] } []), .next 0,
    .opened samplePeer, .next 1, .next 1]

open Gossipsub in
/-- The second connection makes the node forget the subscription, and when one of the two is closed
the node forgets the peer. -/
theorem secondConnection_forgotten :
    sampleTopic ∈ (run step (new false sampleNode) (secondConnection.take 5)).node.peerTopics[
        samplePeer]?.getD ∅ ∧
      (run step (new false sampleNode) secondConnection).node.peerTopics[samplePeer]? = some ∅ ∧
      let h := run step (new false sampleNode) (secondConnection ++ [.closed 1, .next 2, .next 2])
      h.queue = [] ∧ h.swarm.Open samplePeer ∧ samplePeer ∉ h.node.connectedPeer ∧
        samplePeer ∉ h.node.peerTopics := by
  refine ⟨by decide +kernel, by decide +kernel, by rfl, ?_, by decide +kernel, by decide +kernel⟩
  exact ⟨2, ⟨2, samplePeer⟩, by decide +kernel, rfl⟩

end Host

end Libp2pRs.Gossip
