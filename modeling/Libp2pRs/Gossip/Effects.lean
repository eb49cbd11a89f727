import Libp2pRs.Gossip.Fragments
import Libp2pRs.Gossip.Upkeep

/-!
# What the handlers may do

`Tracked` is the part of the state that the invariants of this development speak of, besides the
overlay. An `Effect` is one change of it, with the condition under which a handler makes it. Some
effects are made only for certain inputs; the `Grant` of a step says what its input asks for.

Every invariant is a property that each effect preserves. What a step may do at all is said in
`Conduct`.
-/

namespace Libp2pRs.Gossip

open Lib Libp2pRs.Core Std

def ControlAction.offers : ControlAction → List MessageId
  | .iHave _ ids => ids
  | _ => []

def Proto.Rpc.offers (r : Proto.Rpc) : List MessageId :=
  r.ihaves.flatMap (fun i => i.messageIds.map MessageId.mk)

theorem Proto.ihave_foldl_add (actions : List ControlAction) (c : Proto.ControlMessage) :
    (actions.foldl Proto.ControlMessage.add c).ihave.flatMap
        (fun i => i.messageIds.map MessageId.mk) =
      c.ihave.flatMap (fun i => i.messageIds.map MessageId.mk) ++
        actions.flatMap ControlAction.offers := by
  induction actions generalizing c with
  | nil => simp
  | cons a actions ih =>
    rw [List.foldl_cons, ih]
    cases a <;> simp [Proto.ControlMessage.add, ControlAction.offers, Function.comp_def]

theorem Proto.offers_intoProtobuf (rpc : GossipsubRpc) :
    (Proto.intoProtobuf rpc).offers = rpc.controlMsgs.flatMap ControlAction.offers := by
  unfold Proto.Rpc.offers Proto.Rpc.ihaves Proto.intoProtobuf
  cases hcontrol : rpc.controlMsgs with
  | nil => rfl
  | cons a actions => exact Proto.ihave_foldl_add (a :: actions) {}

/-- A valid message as it is kept. Unless the application has to validate it, it counts as
validated. -/
def GossipsubConfig.ingest (c : GossipsubConfig) (raw : RawGossipsubMessage) : RawGossipsubMessage :=
  if c.validateMessages then raw else { raw with validated := true }

theorem ofRawMessage_ingest (c : GossipsubConfig) (raw : RawGossipsubMessage) :
    Proto.ofRawMessage (c.ingest raw) = Proto.ofRawMessage raw := by
  unfold GossipsubConfig.ingest
  split <;> rfl

structure Grant where
  /-- Whether the overlay may change. -/
  tend : Prop
  /-- The backoffs that a peer asks for, and whether backoffs that have passed are dropped. -/
  backoff : Duration → Prop
  clean : Prop
  /-- The topics that are joined, those that are left, and those whose local subscription ends. -/
  join : TopicHash → Prop
  leave : TopicHash → Prop
  close : TopicHash → Prop
  /-- The messages that are received, with their ids, and those that are passed on unseen. -/
  receive : MessageId → RawGossipsubMessage → Prop
  dispatch : RawGossipsubMessage → Prop
  /-- The messages that are published. -/
  publish : MessageId → RawGossipsubMessage → Prop
  /-- The messages that the application accepts. -/
  accept : MessageId → Prop
  /-- The messages that are gossiped about. -/
  offer : MessageId → Prop
  /-- The peers that are connected, and those that are gone. -/
  connect : PeerId → Prop
  disconnect : PeerId → Prop

def Grant.all : Grant where
  tend := True
  backoff _ := True
  clean := True
  join _ := True
  leave _ := True
  close _ := True
  receive _ _ := True
  dispatch _ := True
  publish _ _ := True
  accept _ := True
  offer _ := True
  connect _ := True
  disconnect _ := True

def Grant.messages : Grant where
  tend := False
  backoff _ := False
  clean := False
  join _ := False
  leave _ := False
  close _ := False
  receive _ _ := True
  dispatch _ := True
  publish _ _ := True
  accept _ := True
  offer _ := True
  connect _ := False
  disconnect _ := False

instance : Fact Grant.all.tend := ⟨trivial⟩

/-- The fields keep the names that they have in the state. -/
structure Tracked (D : Type) where
  config : GossipsubConfig
  dataTransform : D
  controlPool : TreeMap PeerId (List ControlAction)
  duplicateCache : DuplicateCache MessageId
  myTopics : TreeMap TopicHash Nat
  mesh : TreeMap TopicHash (Finset PeerId)
  fanout : TreeMap TopicHash (Finset PeerId)
  fanoutLastPub : TreeMap TopicHash Instant
  connectedPeer : TreeMap PeerId Nat
  peerTopics : TreeMap PeerId (Finset TopicHash)
  topicPeers : TreeMap TopicHash (Finset PeerId)
  peerProtocols : TreeMap PeerId PeerKind
  explicitPeers : Finset PeerId
  backoffs : BackoffStorage
  mcache : MessageCache
  outboundPeers : Finset PeerId
  trace : List (Instant × Output)
  fault : Option Fault

variable {rpc : Proto.Rpc}

namespace Tracked

variable {D : Type}

def meshPeers (n : Tracked D) (topic : TopicHash) : Finset PeerId := n.mesh[topic]?.getD ∅

def panic (n : Tracked D) (fault : Fault) : Tracked D :=
  { n with fault := some (n.fault.getD fault) }

/-- A message on the wire that is cached and validated, or that the input asks to send. -/
def Vouches (g : Grant) (n : Tracked D) (m : Proto.Message) : Prop :=
  (∃ (id : MessageId) (raw : RawGossipsubMessage), n.mcache.msgs[id]? = some raw ∧
      raw.validated = true ∧ m = Proto.ofRawMessage raw) ∨
    (∃ id raw, g.publish id raw ∧ m = Proto.ofRawMessage raw) ∨
    ∃ raw, g.dispatch raw ∧ m = Proto.ofRawMessage raw

def Sends (g : Grant) (n : Tracked D) (rpc : Proto.Rpc) : Prop :=
  (∀ m ∈ rpc.publish, n.Vouches g m) ∧ ∀ id ∈ rpc.offers, g.offer id

/-- A message is handed to a subscription only with its entry into the cache of seen messages. -/
def Permits (g : Grant) (n : Tracked D) : Output → Prop
  | .notify _ _ => False
  | .send _ _ rpc => n.Sends g rpc
  | .control _ _ _ => g.tend
  | .link _ _ => g.tend
  | _ => True

/-- The conditions under which a heartbeat and the message cache do not panic, besides the mesh. -/
structure Sound (n : Tracked D) : Prop where
  ticks : n.config.checkExplicitPeersTicks ≠ 0
  history : n.mcache.history ≠ []
  gossip : n.mcache.gossip ≤ n.mcache.history.length

/-- Why a handler panics with a fault. -/
inductive Cause (g : Grant) (now : Instant) (n : Tracked D) : Fault → Prop where
  | clock : Cause g now n .clock
  | counter : Cause g now n .counter
  | unsound (h : ¬ n.Sound) : Cause g now n .arithmetic
  | unsteady (h : ¬ (n.config.Built ∧ n.config.Steady)) : Cause g now n .arithmetic
  | flood {t : TopicHash} {p : PeerId} {u : Instant} (h : n.backoffs.getBackoffTime t p = some u)
    (hmax : Instant.max < u + n.config.graftFloodThreshold) : Cause g now n .backoff
  | delay {t : TopicHash} {p : PeerId} {time : Duration} {fault : Fault}
    (h : time = n.config.pruneBackoff ∨ g.backoff time)
    (herror : n.backoffs.updateBackoff now t p time = .error fault) : Cause g now n fault
  | clean {fault : Fault} (herror : n.backoffs.heartbeat now = .error fault) : Cause g now n fault

inductive Effect (g : Grant) (now : Instant) : Tracked D → Tracked D → Prop where
  | output {n : Tracked D} {o : Output} (hfault : n.fault = none) (h : n.Permits g o) :
    Effect g now n { n with trace := n.trace ++ [(now, o)] }
  | panic {n : Tracked D} {f : Fault} (h : n.Cause g now f) : Effect g now n (n.panic f)
  | pool {n : Tracked D} {p : PeerId} {a : ControlAction} (h : ∀ id ∈ a.offers, g.offer id) :
    Effect g now n { n with
      controlPool := n.controlPool.insert p (n.controlPool[p]?.getD [] ++ [a]) }
  | unpool {n : Tracked D} : Effect g now n { n with controlPool := ∅ }
  -- backoffs
  | delay {n : Tracked D} {t : TopicHash} {p : PeerId} {time : Duration} {backoffs : BackoffStorage}
    (hg : g.tend) (h : time = n.config.pruneBackoff ∨ g.backoff time)
    (hupdate : n.backoffs.updateBackoff now t p time = .ok backoffs) :
    Effect g now n { n with backoffs }
  | clean {n : Tracked D} {backoffs : BackoffStorage} (hg : g.clean)
    (hclean : n.backoffs.heartbeat now = .ok backoffs) : Effect g now n { n with backoffs }
  -- the mesh
  | link {n : Tracked D} {t : TopicHash} {X : Finset PeerId} (hg : g.tend)
    (hkey : t ∈ n.mesh ∨ g.join t ∧ t ∉ n.fanout)
    (hsize : n.config.Built → n.outboundPeers = ∅ →
      (n.meshPeers t ∪ X).card ≤ n.config.meshNHigh) :
    Effect g now n { n with mesh := n.mesh.alter t (fun m => some (m.getD ∅ ∪ X)) }
  | shrink {n : Tracked D} {t : TopicHash} {p : PeerId} (hg : g.tend) :
    Effect g now n { n with mesh := n.mesh.modify t (·.erase p) }
  | leave {n : Tracked D} {t : TopicHash} (h : g.leave t) :
    Effect g now n { n with mesh := n.mesh.erase t }
  | upkeep {n : Tracked D} {mesh : TreeMap TopicHash (Finset PeerId)}
    {links : List (Instant × Output)} {fault : Option Fault} (hg : g.tend)
    (hkey : ∀ t, t ∈ mesh ↔ t ∈ n.mesh)
    (hsize : n.config.Built → n.outboundPeers = ∅ → fault = none → ∀ t : TopicHash,
      (mesh[t]?.getD ∅).card ≤ n.config.meshNHigh + n.config.opportunisticGraftPeers)
    (hlinks : ∀ e ∈ links, ∃ t p, e = (now, .link t p))
    (hfault : Gossipsub.Disturbs n.config n.fault fault) :
    Effect g now n { n with mesh, trace := n.trace ++ links, fault }
  -- the fanout, of topics that are not in the mesh
  | fan {n : Tracked D} {t : TopicHash} {fanout : TreeMap TopicHash (Finset PeerId)}
    (h : t ∉ n.mesh) (hkey : ∀ t', t' ∈ fanout ↔ t = t' ∨ t' ∈ n.fanout) :
    Effect g now n { n with fanout, fanoutLastPub := n.fanoutLastPub.insert t now }
  | unfan {n : Tracked D} {t : TopicHash} :
    Effect g now n { n with fanout := n.fanout.erase t, fanoutLastPub := n.fanoutLastPub.erase t }
  | refan {n : Tracked D} {fanout : TreeMap TopicHash (Finset PeerId)}
    (hkey : ∀ t, t ∈ fanout ↔ t ∈ n.fanout) : Effect g now n { n with fanout }
  -- the peers
  | connect {n : Tracked D} {p : PeerId} {channel : Nat} (h : g.connect p) :
    Effect g now n { n with connectedPeer := n.connectedPeer.insert p channel }
  | greet {n : Tracked D} {p : PeerId} (h : g.connect p) :
    Effect g now n { n with peerTopics := n.peerTopics.insert p ∅ }
  | announce {n : Tracked D} {peerTopics : TreeMap PeerId (Finset TopicHash)}
    {topicPeers : TreeMap TopicHash (Finset PeerId)} (hg : g.tend)
    (hkey : ∀ p, p ∈ peerTopics ↔ p ∈ n.peerTopics) :
    Effect g now n { n with peerTopics, topicPeers }
  | enroll {n : Tracked D} {peerProtocols : TreeMap PeerId PeerKind} {explicitPeers : Finset PeerId}
    (hg : g.tend) : Effect g now n { n with peerProtocols, explicitPeers }
  | disconnect {n : Tracked D} {p : PeerId} (h : g.disconnect p) :
    Effect g now n { n with
      outboundPeers := n.outboundPeers.erase p
      connectedPeer := n.connectedPeer.erase p
      peerTopics := n.peerTopics.erase p }
  -- the messages
  | seen {n : Tracked D} {b : Bool} {c : DuplicateCache MessageId} {id : MessageId}
    (h : DuplicateCache.insert n.duplicateCache now id = some (b, c)) :
    Effect g now n { n with duplicateCache := c }
  | deliver {n : Tracked D} {c : DuplicateCache MessageId} {message : GossipsubMessage}
    {channel : Nat} (hfault : n.fault = none)
    (h : DuplicateCache.insert n.duplicateCache now (n.config.messageIdFn message) =
      some (true, c)) (hg : ∃ raw, g.receive (n.config.messageIdFn message) raw) :
    Effect g now n { n with
      duplicateCache := c
      trace := n.trace ++ [(now, .notify channel message)] }
  | put {n : Tracked D} {id : MessageId} {raw : RawGossipsubMessage} {mcache : MessageCache}
    (h : n.mcache.put id raw = some mcache) (hg : g.receive id raw ∨ g.publish id raw) :
    Effect g now n { n with mcache }
  | validate {n : Tracked D} {id : MessageId} (h : g.accept id) :
    Effect g now n { n with mcache := (n.mcache.validate id).2 }
  | remove {n : Tracked D} {id : MessageId} :
    Effect g now n { n with mcache := (n.mcache.remove id).2 }
  | count {n : Tracked D} {iwantCounts : TreeMap MessageId (TreeMap PeerId Nat)} :
    Effect g now n { n with mcache := { n.mcache with iwantCounts } }
  | shift {n : Tracked D} {mcache : MessageCache} (h : n.mcache.shift = some mcache) :
    Effect g now n { n with mcache }
  -- the local subscriptions
  | subscribe {n : Tracked D} {t : TopicHash} {channel : Nat} (h : g.join t) :
    Effect g now n { n with myTopics := n.myTopics.insert t (n.myTopics[t]?.getD channel) }
  | close {n : Tracked D} {t : TopicHash} (h : g.close t) :
    Effect g now n { n with myTopics := n.myTopics.erase t }

abbrev Effects (g : Grant) (now : Instant) : Tracked D → Tracked D → Prop := Moves (Effect g now)

variable {g : Grant} {n n' : Tracked D}

theorem Sends.congr (h : n.Sends g rpc) (hm : n'.mcache = n.mcache) : n'.Sends g rpc := by
  unfold Sends Vouches
  rw [hm]
  exact h

theorem Permits.congr (h : n.Permits g o) (hm : n'.mcache = n.mcache) : n'.Permits g o := by
  cases o with
  | send peer channel rpc => exact Sends.congr h hm
  | notify channel message | control peer kind action | link topic peer => exact h
  | _ => trivial

theorem Sends.fragment (h : n.Sends g rpc) {max : Nat} {messages : List Proto.Rpc}
    (hfragment : Proto.fragmentMessage max rpc = .ok messages) : ∀ m ∈ messages, n.Sends g m := by
  intro m hm
  constructor
  · intro x hx
    refine h.1 x ?_
    rw [← Proto.publish_fragmentMessage hfragment]
    exact List.mem_flatMap.mpr ⟨m, hm, hx⟩
  · intro id hid
    refine h.2 id ?_
    obtain ⟨i, hi, hid⟩ := List.mem_flatMap.mp hid
    refine List.mem_flatMap.mpr ⟨i, ?_, hid⟩
    rw [← Proto.ihaves_fragmentMessage hfragment]
    exact List.mem_flatMap.mpr ⟨m, hm, hi⟩

variable {now : Instant}

theorem Effect.config (h : Effect g now n n') : n'.config = n.config := by
  cases h <;> rfl

theorem Effect.sticky (h : Effect g now n n') (hfault : n'.fault = none) : n.fault = none := by
  cases h with
  | panic => cases hfault
  | upkeep _ _ _ _ hdisturbs => exact hdisturbs.sticky hfault
  | _ => exact hfault

theorem Effect.trace_prefix (h : Effect g now n n') : n.trace <+: n'.trace := by
  cases h with
  | output | deliver | upkeep => exact List.prefix_append _ _
  | _ => exact List.prefix_refl _

theorem Effects.trace_prefix (h : Effects g now n n') : n.trace <+: n'.trace :=
  h.preserve (I := fun m => n.trace <+: m.trace)
    (fun _ _ heffect hm => hm.trans heffect.trace_prefix) (List.prefix_refl _)

theorem Effects.sticky (h : Effects g now n n') (hfault : n'.fault = none) : n.fault = none := by
  by_contra hsome
  exact h.preserve (I := fun m => m.fault ≠ none)
    (fun _ _ heffect hm hnone => hm (heffect.sticky hnone)) hsome hfault

theorem Effect.mem_mesh (h : Effect g now n n') (hleave : ¬ g.leave t)
    (hn : t ∈ n.mesh) : t ∈ n'.mesh := by
  cases h with
  | link => exact (mem_alter_some _ _ _ _).mpr (Or.inr hn)
  | shrink => exact TreeMap.mem_modify.mpr hn
  | leave h =>
    refine TreeMap.mem_erase.mpr ⟨?_, hn⟩
    rw [ne_eq, LawfulEqCmp.compare_eq_iff_eq]
    rintro rfl
    exact hleave h
  | upkeep _ hkey => exact (hkey t).mpr hn
  | _ => exact hn

/-- The control messages that wait offer only what is gossiped about. -/
def PoolGranted (g : Grant) (n : Tracked D) : Prop :=
  ∀ p : PeerId, ∀ a ∈ n.controlPool[p]?.getD [], ∀ id ∈ a.offers, g.offer id

theorem PoolGranted.effect (h : Effect g now n n') (hpool : n.PoolGranted g) :
    n'.PoolGranted g := by
  cases h with
  | pool hoffer =>
    intro p a ha
    rw [get_insert] at ha
    split at ha
    · rename_i heq
      rcases List.mem_append.mp ha with ha | ha
      · exact hpool _ a ha
      · rw [List.mem_singleton.mp ha]
        exact hoffer
    · exact hpool p a ha
  | unpool =>
    intro p a ha
    simp at ha
  | _ => exact hpool

theorem sends_intoProtobuf {rpc : GossipsubRpc}
    (hmessages : ∀ raw ∈ rpc.messages, n.Vouches g (Proto.ofRawMessage raw))
    (hcontrol : ∀ a ∈ rpc.controlMsgs, ∀ id ∈ a.offers, g.offer id) :
    n.Sends g (Proto.intoProtobuf rpc) := by
  constructor
  · intro m hm
    obtain ⟨raw, hraw, rfl⟩ := List.mem_map.mp hm
    exact hmessages raw hraw
  · intro id hid
    rw [Proto.offers_intoProtobuf] at hid
    obtain ⟨a, ha, hid⟩ := List.mem_flatMap.mp hid
    exact hcontrol a ha id hid

/-! ## Messages -/

def still (n : Tracked D) : Overlay TopicHash PeerId Instant × Gossipsub.Roster :=
  (⟨pairs n.topicPeers, Set.preimage Prod.swap (pairs n.peerTopics), {p | p ∈ n.peerTopics},
    {p | p ∈ n.connectedPeer}, pairs n.mesh, ∅, fun x => n.backoffs.getBackoffTime x.1 x.2,
    n.config.pruneBackoff, n.trace.filterMap (fun e => e.2.meshEvent.map (fun m => (e.1, m)))⟩,
    ⟨n.config, n.mesh, n.topicPeers, n.peerProtocols, n.explicitPeers⟩)

theorem still_output (n : Tracked D) (now : Instant) (h : o.meshEvent = none) :
    still { n with trace := n.trace ++ [(now, o)] } = n.still := by
  simp [still, h]

theorem Effect.still (h : Effect .messages now n n') : n'.still = n.still := by
  cases h with
  | @output o _ hpermits =>
    refine still_output n now ?_
    cases o with
    | control peer kind action | link topic peer => exact hpermits.elim
    | _ => rfl
  | @deliver cache message channel =>
    exact still_output { n with duplicateCache := cache } now rfl
  | delay hg | clean hg | link hg | shrink hg | leave hg | upkeep hg | connect hg | greet hg
  | announce hg | enroll hg | disconnect hg => exact hg.elim
  | _ => rfl

end Tracked

namespace Gossipsub

variable {P R F D : Type}

def tracked (s : Gossipsub P R F D) : Tracked D where
  config := s.config
  dataTransform := s.dataTransform
  controlPool := s.controlPool
  duplicateCache := s.duplicateCache
  myTopics := s.myTopics
  mesh := s.mesh
  fanout := s.fanout
  fanoutLastPub := s.fanoutLastPub
  connectedPeer := s.connectedPeer
  peerTopics := s.peerTopics
  topicPeers := s.topicPeers
  peerProtocols := s.peerProtocols
  explicitPeers := s.explicitPeers
  backoffs := s.backoffs
  mcache := s.mcache
  outboundPeers := s.outboundPeers
  trace := s.trace
  fault := s.fault

abbrev Conducts (g : Grant) (now : Instant) (s s' : Gossipsub P R F D) : Prop :=
  Tracked.Effects g now s.tracked s'.tracked

variable {g : Grant} {now : Instant} {s s' : Gossipsub P R F D}

theorem Conducts.of_tracked (h : s'.tracked = s.tracked) : Conducts g now s s' := Moves.of_eq h

theorem Conducts.silent (h : Conducts g now s' s'')
    (heq : s'.tracked = s.tracked) : Conducts g now s s'' :=
  Moves.after heq h

theorem Conducts.setRng (h : Conducts g now s s') (rng : Rng) : Conducts g now s (s'.setRng rng) := h

theorem Conducts.trace_prefix (h : Conducts g now s s') : s.trace <+: s'.trace :=
  Tracked.Effects.trace_prefix h

theorem Conducts.sticky (h : Conducts g now s s') (hpanic : s'.panicked = false) :
    s.panicked = false := by
  have hfault : s.fault = none := Tracked.Effects.sticky h (fault_eq_none hpanic)
  rw [panicked, hfault]
  rfl

theorem Conducts.still (h : Conducts .messages now s s') :
    s'.overlay = s.overlay ∧ s'.roster = s.roster :=
  Prod.mk.inj (h.preserve (I := fun n => n.still = s.tracked.still)
    (fun _ _ heffect hn => heffect.still.trans hn) rfl)

theorem Conducts.foldl {l : List α}
    (hf : ∀ s, ∀ a ∈ l, Conducts g now s (f s a)) (s : Gossipsub P R F D) :
    Conducts g now s (l.foldl f s) :=
  Moves.foldl hf s

/-! ## Outputs -/

theorem conducts_emit (h : s.tracked.Permits g o) : Conducts g now s (s.emit now o) := by
  unfold emit
  split
  · exact Moves.refl
  · rename_i hpanicked
    exact Moves.single (.output (fault_eq_none (Bool.eq_false_iff.mpr hpanicked)) h)

theorem conducts_emitAll {os : List Output} (h : ∀ o ∈ os, s.tracked.Permits g o) :
    Conducts g now s (s.emitAll now os) := by
  refine (Moves.foldl_of (v := tracked)
    (I := fun s' : Gossipsub P R F D => s'.mcache = s.mcache)
    (fun s' hs' o ho => ⟨conducts_emit ((h o ho).congr hs'), ?_⟩) rfl).1
  obtain ⟨trace, hemit⟩ := exists_emit s' now o
  rw [hemit]
  exact hs'

/-! ## Sending -/

variable {peer : PeerId}

theorem conducts_sendMessage (h : peer ∈ s.connectedPeer →
      (Proto.fragmentMessage s.config.maxTransmitSize rpc).isOk = true → s.tracked.Sends g rpc) :
    Conducts g now s (s.sendMessage now peer rpc).2 := by
  unfold sendMessage
  split
  · exact Moves.refl
  · rename_i messages hfragment
    split
    · exact Moves.refl
    · rename_i channel hchannel
      have hconnected : peer ∈ s.connectedPeer := by
        rw [TreeMap.mem_iff_isSome_getElem?, hchannel]
        rfl
      refine conducts_emitAll (fun o ho => ?_)
      obtain ⟨m, hm, rfl⟩ := List.mem_map.mp ho
      exact (h hconnected (by rw [hfragment]; rfl)).fragment hfragment m hm

theorem conducts_trySend {rpc : GossipsubRpc} (hmessages : rpc.messages = [])
    (hcontrol : ∀ a ∈ rpc.controlMsgs, ∀ id ∈ a.offers, g.offer id) :
    Conducts g now s (s.trySend now peer rpc) := by
  refine conducts_sendMessage (fun _ _ => Tracked.sends_intoProtobuf ?_ hcontrol)
  rw [hmessages]
  simp

theorem conducts_dispatch {peers : List PeerId} (h : ∀ p ∈ peers, p ∈ s.connectedPeer →
      (Proto.fragmentMessage s.config.maxTransmitSize rpc).isOk = true → s.tracked.Sends g rpc) :
    Conducts g now s (peers.foldl (fun s p => (s.sendMessage now p rpc).2) s) := by
  refine (Moves.foldl_of (v := tracked)
    (I := fun s' : Gossipsub P R F D => ∃ trace, s' = { s with trace })
    (fun s' hs' p hp => ?_) ⟨s.trace, rfl⟩).1
  obtain ⟨trace, rfl⟩ := hs'
  obtain ⟨trace', heq⟩ := exists_sendMessage { s with trace } now p rpc
  exact ⟨conducts_sendMessage fun hconnected hfits => (h p hp hconnected hfits).congr rfl,
    trace', heq⟩

theorem conducts_sendAll {peers : List PeerId} (h : s.tracked.Sends g rpc) :
    Conducts g now s (sendAll now rpc s peers).2 := by
  rw [sendAll_snd]
  exact conducts_dispatch fun _ _ _ _ => h

theorem conducts_controlPoolAdd (h : ∀ id ∈ action.offers, g.offer id) :
    Conducts g now s (s.controlPoolAdd peer action) :=
  Moves.single (.pool h)

/-! ## Backoffs -/

theorem conducts_cleanBackoffs (hg : g.clean) : Conducts g now s (s.cleanBackoffs now) := by
  unfold cleanBackoffs
  split
  · rename_i herror
    exact Moves.single (.panic (.clean herror))
  · rename_i hclean
    exact Moves.single (.clean hg hclean)

section Tend

variable [hg : Fact g.tend]

theorem conducts_updateBackoff (h : time = s.config.pruneBackoff ∨ g.backoff time) :
    Conducts g now s (s.updateBackoff now topic peer time) := by
  unfold updateBackoff
  split
  · rename_i herror
    exact Moves.single (.panic (.delay h herror))
  · rename_i hupdate
    exact Moves.single (.delay hg.out h hupdate)

/-! ## The mesh -/

theorem conducts_addToMesh (hkey : topic ∈ s.mesh ∨ g.join topic ∧ topic ∉ s.fanout)
    (hsize : s.config.Built → s.outboundPeers = ∅ →
      (s.meshPeers topic ∪ peers).card ≤ s.config.meshNHigh) :
    Conducts g now s (s.addToMesh now topic peers) := by
  have hlink : Conducts g now s
      { s with mesh := s.mesh.alter topic (fun m => some (m.getD ∅ ∪ peers)) } :=
    Moves.single (.link hg.out hkey hsize)
  refine hlink.trans (conducts_emitAll (fun o ho => ?_))
  obtain ⟨p, -, rfl⟩ := List.mem_map.mp ho
  exact hg.out

theorem conducts_removeFromMesh (topic : TopicHash) (peer : PeerId) :
    Conducts g now s (s.removeFromMesh topic peer) :=
  Moves.single (.shrink hg.out)

end Tend

theorem conducts_dropMesh (h : g.leave topic) : Conducts g now s (s.dropMesh topic) :=
  Moves.single (.leave h)

end Gossipsub

end Libp2pRs.Gossip
