import Libp2pRs.Gossip.LoopRefinement

/-!
# Subscriptions and mesh along a run

A connection event arrives once for each connection. The first one of a peer starts an empty set
of topics, and so does every later one: the topics of a peer that is connected already are
forgotten in one of the two indexes.
-/

namespace Libp2pRs.Gossip.Gossipsub

open Lib Libp2pRs.Core Std

variable {P R F D : Type} {s : Gossipsub P R F D}

/-- `topic_peers` and `peer_topics` are inverse to each other. -/
def IndexesInverse (s : Gossipsub P R F D) : Prop :=
  ∀ (t : TopicHash) (p : PeerId), p ∈ s.topicPeers[t]?.getD ∅ ↔ t ∈ s.peerTopics[p]?.getD ∅

def MeshSound (s : Gossipsub P R F D) : Prop :=
  ∀ t, ∀ p ∈ s.meshPeers t,
    p ∈ s.connectedPeer ∧ p ∈ s.peerTopics ∧ t ∈ s.peerTopics[p]?.getD ∅

/-- The peer that the turn connects. A blacklisted peer is ignored. -/
def connecting (s : Gossipsub P R F D) (turn : Turn P R) : Option PeerId :=
  match turn.input with
  | .event (.newPeer p) => if s.panicked ∨ p ∈ s.blacklistedPeers then none else some p
  | _ => none

/-- No peer that has announced topics connects. -/
def freshConnection (s : Gossipsub P R F D) (turn : Turn P R) : Bool :=
  (s.connecting turn).all (fun p => decide (s.peerTopics[p]?.getD ∅ = ∅))

theorem indexesInverse_iff : s.IndexesInverse ↔ s.overlay.Inverse := by
  constructor
  · intro h
    exact Set.ext fun x => h x.1 x.2
  · intro h t p
    exact Set.ext_iff.mp h (t, p)

theorem meshSound_of_coherent (h : s.overlay.Coherent) : s.MeshSound := by
  intro t p hp
  have hannounced : (t, p) ∈ s.overlay.announced :=
    (h.mesh_subset hp).resolve_right (Set.notMem_empty _)
  have hknown : p ∈ s.overlay.known := h.known_of_announced (t, p) hannounced
  exact ⟨(h.connected_eq ▸ hknown : p ∈ s.overlay.connected), hknown, hannounced⟩

theorem announced_ne_of_empty (h : s.peerTopics[p]?.getD ∅ = ∅) :
    ∀ x ∈ s.overlay.announced, x.2 ≠ p := by
  rintro ⟨t, q⟩ hx rfl
  have hmem : t ∈ s.peerTopics[q]?.getD ∅ := hx
  rw [h] at hmem
  exact Finset.notMem_empty t hmem

theorem empty_of_announced_ne (h : ∀ x ∈ s.overlay.announced, x.2 ≠ p) :
    s.peerTopics[p]?.getD ∅ = ∅ :=
  Finset.eq_empty_of_forall_notMem (fun t ht => h (t, p) ht rfl)

theorem overlay_new {privacy : MessageAuthenticity} {config : GossipsubConfig} {filter : F}
    {transform : D} {rng : Rng}
    (h : new P R privacy config filter transform rng = some (.ok s)) :
    s.overlay = Overlay.empty config.pruneBackoff := by
  obtain ⟨backoffs, hb, rfl⟩ := exists_initial h
  have hnone : ∀ x : TopicHash × PeerId, backoffs.getBackoffTime x.1 x.2 = none := by
    intro x
    have hempty : backoffs.backoffs = ∅ := by
      obtain ⟨n, -, hb⟩ := Fault.bind_eq_ok.mp hb
      dsimp only at hb
      split at hb
      · cases hb
      · cases hb
        rfl
    simp [BackoffStorage.getBackoffTime, BackoffStorage.timeIn, hempty]
  simp only [overlay, view, initial, Overlay.empty, pairs_empty, Set.preimage_empty, hnone]
  simp

/-! ## One step -/

section Loop

variable [ScoreArith R] [PeerScoring P R] [TopicSubscriptionFilter F] [DataTransform D]

variable {turn : Turn P R}

theorem overlay_step_of_connecting (h : s.connecting turn = some p) :
    (s.step turn).overlay = s.overlay.connect p := by
  unfold connecting at h
  split at h
  · rename_i peer hinput
    split at h
    · cases h
    · rename_i hfree
      cases h
      rw [not_or] at hfree
      unfold step
      rw [if_neg hfree.1, hinput, handle, handleEvent, overlay_handleNewPeer, if_neg hfree.2]
  · cases h

theorem refines_step (h : s.connecting turn = none)
    (hlinks : strict → s.linksAnnounced turn.now turn.input) :
    Refines strict turn.now s (s.step turn) := by
  unfold step
  split
  · exact .refl
  · rename_i hpanicked
    by_cases hnew : ∃ p, turn.input = .event (.newPeer p)
    · obtain ⟨p, hp⟩ := hnew
      have hblack : p ∈ s.blacklistedPeers := by
        unfold connecting at h
        rw [hp] at h
        simpa [hpanicked] using h
      rw [hp, handle, handleEvent]
      refine Refines.of_view ?_
      rw [overlay_handleNewPeer, if_pos hblack]
    · exact refines_handle (fun p hp => hnew ⟨p, hp⟩) hlinks

theorem inverse_step_iff (hs : s.IndexesInverse) :
    (s.step turn).IndexesInverse ↔ s.freshConnection turn = true := by
  rw [indexesInverse_iff] at hs ⊢
  unfold freshConnection
  cases h : s.connecting turn with
  | none =>
    have hmoves : Refines False turn.now s (s.step turn) := refines_step h False.elim
    simpa using hmoves.preserve (fun a b hab ha => Overlay.Inverse.move hab ha) hs
  | some p =>
    rw [overlay_step_of_connecting h, Overlay.inverse_connect_iff hs, Option.all_some,
      decide_eq_true_eq]
    exact ⟨empty_of_announced_ne, announced_ne_of_empty⟩

/-- The peers that come into the mesh have announced the topic, and no peer that has announced
topics connects. -/
def safeTurn (s : Gossipsub P R F D) (turn : Turn P R) : Bool :=
  s.panicked || s.freshConnection turn && s.linksAnnounced turn.now turn.input

theorem coherent_step (hs : s.overlay.Coherent) (hsafe : s.safeTurn turn = true) :
    (s.step turn).overlay.Coherent := by
  unfold safeTurn at hsafe
  cases hp : s.panicked with
  | true =>
    unfold step
    rw [if_pos hp]
    exact hs
  | false =>
    rw [hp, Bool.false_or, Bool.and_eq_true] at hsafe
    obtain ⟨hfresh, hlinks⟩ := hsafe
    cases h : s.connecting turn with
    | none =>
      have hmoves : Refines True turn.now s (s.step turn) := refines_step h (fun _ => hlinks)
      exact hmoves.preserve (fun a b hab ha => Overlay.Coherent.move trivial hab ha) hs
    | some p =>
      unfold freshConnection at hfresh
      rw [h, Option.all_some, decide_eq_true_eq] at hfresh
      rw [overlay_step_of_connecting h]
      exact hs.connect (announced_ne_of_empty hfresh)

theorem notMem_peerTopics_step {p : PeerId} (hinput : turn.input = .event (.deadPeer p))
    (hp : s.panicked = false) : p ∉ (s.step turn).peerTopics := by
  have hstep : s.step turn = s.handleRemoveDeadPeer turn.now p := by
    unfold step
    rw [if_neg (Bool.eq_false_iff.mp hp), hinput, handle, handleEvent]
  rw [hstep]
  cases h : s.peerTopics[p]? with
  | none =>
    unfold handleRemoveDeadPeer
    rw [h]
    rw [TreeMap.mem_iff_isSome_getElem?, h]
    exact Bool.false_ne_true
  | some topics =>
    intro hmem
    have hknown : p ∈ (s.handleRemoveDeadPeer turn.now p).overlay.known := hmem
    rw [overlay_handleRemoveDeadPeer h] at hknown
    exact hknown.2 rfl

end Loop

/-! ## A node to run -/

abbrev SampleNode := Gossipsub Empty ℚ AllowAllSubscriptionFilter IdentityTransform

def sampleConfig : GossipsubConfig := { validationMode := .anonymous }

def sampleRng : Rng := ⟨fun _ => 0, 0⟩

def sampleNode : SampleNode :=
  initial .anonymous sampleConfig ⟨⟩ ⟨⟩ sampleRng
    { backoffs := ∅
      backoffsByHeartbeat := List.replicate 62 []
      heartbeatIndex := 0
      heartbeatInterval := Duration.fromSecs 1
      backoffSlack := 1 }

theorem sampleNode_new :
    new Empty ℚ .anonymous sampleConfig (⟨⟩ : AllowAllSubscriptionFilter)
      (⟨⟩ : IdentityTransform) sampleRng = some (.ok sampleNode) := rfl

def sampleTopic : TopicHash := ⟨[97]⟩

def samplePeer : PeerId := PeerId.ofByte 1

def sampleJoin : List (Turn Empty ℚ) :=
  [⟨0, .event (.newPeer samplePeer)⟩,
   ⟨0, .event (.message samplePeer { subscriptions := [⟨.subscribe, sampleTopic⟩] } [])⟩]

/-! ## Runs -/

section Runs

variable [ScoreArith R] [PeerScoring P R] [TopicSubscriptionFilter F] [DataTransform D]
  {privacy : MessageAuthenticity} {config : GossipsubConfig} {filter : F} {transform : D}
  {rng : Rng} {turns : List (Turn P R)}

/-- The indexes stay inverse exactly along the runs in which no peer with announced topics
connects again. -/
theorem always_indexesInverse_iff
    (hnew : new P R privacy config filter transform rng = some (.ok s)) :
    Always step IndexesInverse s turns ↔
      EachStep step (fun s turn => s.freshConnection turn = true) s turns := by
  refine always_iff_eachStep (fun _ _ hs => inverse_step_iff hs) ?_
  rw [indexesInverse_iff, overlay_new hnew]
  rfl

theorem sampleJoin_indexesInverse : Always step IndexesInverse sampleNode sampleJoin :=
  (always_indexesInverse_iff sampleNode_new).mpr (by decide +kernel)

/-- A second connection of the peer. -/
theorem sampleReconnect_not_indexesInverse :
    ¬ Always step IndexesInverse sampleNode
      (sampleJoin ++ [⟨1, .event (.newPeer samplePeer)⟩]) := by
  intro h
  have hlast := always_last h sampleTopic samplePeer
  revert hlast
  decide +kernel

/-- Along a run of safe turns the mesh consists of connected peers that have announced the topic,
and a peer that is gone is in no mesh. -/
theorem always_meshSound
    (hnew : new P R privacy config filter transform rng = some (.ok s))
    (hsafe : EachStep step (fun s turn => s.safeTurn turn = true) s turns) :
    Always step MeshSound s turns ∧
      EachStep step (fun s turn => ∀ p, turn.input = .event (.deadPeer p) →
        s.panicked = false → ∀ t, p ∉ (s.step turn).meshPeers t) s turns := by
  have hstart : s.overlay.Coherent := overlay_new hnew ▸ Overlay.coherent_empty _
  have hstep : ∀ (s : Gossipsub P R F D) (turn : Turn P R), s.overlay.Coherent →
      s.safeTurn turn = true → (s.step turn).overlay.Coherent :=
    fun _ _ => coherent_step
  constructor
  · exact always_mono (fun _ => meshSound_of_coherent) (always_of_step hstep hstart hsafe)
  · refine eachStep_of_step hstep ?_ hstart hsafe
    intro s turn hs hturn p hinput hp t hmesh
    have hsound := meshSound_of_coherent (coherent_step hs hturn)
    exact notMem_peerTopics_step hinput hp (hsound t p hmesh).2.1

/-- The peer is grafted when it subscribes, and leaves the mesh with its connection. -/
theorem sampleMember_meshSound :
    samplePeer ∈ (run step sampleNode (⟨0, .event (.peerKind samplePeer .gossipsubV11)⟩ ::
      ⟨0, .command (.subscribe sampleTopic)⟩ :: sampleJoin)).meshPeers sampleTopic ∧
    Always step MeshSound sampleNode
      (⟨0, .event (.peerKind samplePeer .gossipsubV11)⟩ ::
        ⟨0, .command (.subscribe sampleTopic)⟩ ::
        (sampleJoin ++ [⟨1, .event (.deadPeer samplePeer)⟩])) :=
  ⟨by decide +kernel, (always_meshSound sampleNode_new (by decide +kernel)).1⟩

def sampleGraft : List (Turn Empty ℚ) :=
  [⟨0, .event (.newPeer samplePeer)⟩,
   ⟨0, .command (.subscribe sampleTopic)⟩,
   ⟨1, .event (.message samplePeer { controlMsgs := [.graft sampleTopic] } [])⟩,
   ⟨2, .event (.deadPeer samplePeer)⟩]

/-- The peer is still in the mesh, without a connection and without topics. -/
theorem sampleGraft_not_meshSound :
    samplePeer ∈ (run step sampleNode sampleGraft).meshPeers sampleTopic ∧
      samplePeer ∉ (run step sampleNode sampleGraft).connectedPeer ∧
      ¬ Always step MeshSound sampleNode sampleGraft := by
  have hin : samplePeer ∈ (run step sampleNode sampleGraft).meshPeers sampleTopic := by
    decide +kernel
  have hout : samplePeer ∉ (run step sampleNode sampleGraft).connectedPeer := by
    decide +kernel
  refine ⟨hin, hout, fun h => ?_⟩
  have hlast : (run step sampleNode sampleGraft).MeshSound := always_last h
  exact hout (hlast sampleTopic samplePeer hin).1

end Runs

end Libp2pRs.Gossip.Gossipsub
