import Libp2pRs.Gossip.Announcements

/-!
# The degree of the meshes

No mesh ever has more than `mesh_n_high + opportunistic_graft_peers` members. A GRAFT of a peer and
a subscription are accepted only while the mesh is small enough, joining a topic adds `mesh_n` peers
at most, and the maintenance ends in the bound. The bound does not hold during the maintenance, which
is therefore one effect.

After a heartbeat a mesh has `mesh_n_low` members, or every peer that is eligible for it.
-/

namespace Libp2pRs.Gossip

open Lib Libp2pRs.Core Std

namespace Tracked

variable {D : Type}

/-- There are no outbound peers, and the meshes have at most the given number of members unless the
node has panicked. -/
structure Slim (c : GossipsubConfig) (n : Tracked D) : Prop where
  config : n.config = c
  outbound : n.outboundPeers = ∅
  size : n.fault = none → ∀ t, (n.meshPeers t).card ≤ c.meshNHigh + c.opportunisticGraftPeers

variable {g : Grant} {now : Instant} {c : GossipsubConfig} {n n' : Tracked D}

theorem Slim.effect (hbuilt : c.Built) (h : Effect g now n n') (hn : n.Slim c) : n'.Slim c := by
  have hconfig := hn.config
  have hout := hn.outbound
  cases h with
  | panic => exact ⟨hconfig, hout, nofun⟩
  | @link topic X _ hkey hfew =>
    refine ⟨hconfig, hout, fun hfault t => ?_⟩
    have hcard := hfew (hconfig ▸ hbuilt) hout
    rw [hconfig] at hcard
    rw [meshPeers, get_alter]
    split
    · rename_i heq
      subst heq
      exact hcard.trans (Nat.le_add_right _ _)
    · exact hn.size hfault t
  | @shrink topic p _ =>
    refine ⟨hconfig, hout, fun hfault t => ?_⟩
    have hcard := hn.size hfault t
    rw [meshPeers] at hcard ⊢
    rw [get_modify]
    split
    · cases hpeers : n.mesh[t]? with
      | none => exact Nat.zero_le _
      | some peers =>
        rw [hpeers] at hcard
        exact (Finset.card_erase_le).trans hcard
    · exact hcard
  | @leave topic hleave =>
    refine ⟨hconfig, hout, fun hfault t => ?_⟩
    rw [meshPeers, get_erase]
    split
    · exact Nat.zero_le _
    · exact hn.size hfault t
  | upkeep _ hkey hsize =>
    refine ⟨hconfig, hout, fun hfault t => ?_⟩
    have hcard := hsize (hconfig ▸ hbuilt) hout hfault t
    rw [hconfig] at hcard
    exact hcard
  | @disconnect p _ =>
    refine ⟨hconfig, ?_, hn.size⟩
    rw [hout]
    exact Finset.erase_empty p
  | _ => exact ⟨hconfig, hout, hn.size⟩

theorem backedOff_effect (hclean : ¬ g.clean)
    (h : Effect g now n n') (hn : n.backoffs.isBackoffWithSlack topic peer = true) :
    n'.backoffs.isBackoffWithSlack topic peer = true := by
  cases h with
  | delay _ _ hupdate =>
    rw [BackoffStorage.isBackoffWithSlack_iff] at hn ⊢
    rw [BackoffStorage.getBackoffTime_updateBackoff hupdate]
    split
    · rfl
    · exact hn
  | clean h => exact absurd h hclean
  | _ => exact hn

end Tracked

namespace Gossipsub

variable {P R F D : Type} [ScoreArith R] [PeerScoring P R]

theorem backedOff_concluded {acc : HeartbeatAcc P R F D}
    (h : acc.state.backoffs.isBackoffWithSlack topic peer = true) :
    (concluded acc now).backoffs.isBackoffWithSlack topic peer = true := by
  -- whatever it offers, it does not drop backoffs
  let g : Grant := { Grant.messages with tend := True }
  have : Fact g.tend := ⟨trivial⟩
  have hconduct : Conducts g now acc.state (concluded acc now) :=
    conducts_concluded acc (fun _ _ _ _ _ => trivial) (fun _ _ => trivial)
  exact hconduct.preserve (I := fun n => n.backoffs.isBackoffWithSlack topic peer = true)
    (fun _ _ heffect hn => Tracked.backedOff_effect id heffect hn) h

/-- A peer that belongs into the mesh of the topic: a gossipsub peer of the topic, not explicit, not
backed off, and with a score that is not negative. The scores are those of another state. -/
structure Belongs (scored s : Gossipsub P R F D) (topic : TopicHash) (p : PeerId) : Prop where
  listed : p ∈ s.topicPeers[topic]?.getD ∅
  gossip : PeerKind.isGossip s.peerProtocols[p]? = true
  notExplicit : p ∉ s.explicitPeers
  notBackedOff : s.backoffs.isBackoffWithSlack topic p = false
  notNegative : ScoreArith.le ScoreArith.zero (scored.score p) = true

/-- A state that has the same peers, and more backoffs. -/
structure Tightens (s s' : Gossipsub P R F D) : Prop where
  topicPeers : s'.topicPeers = s.topicPeers
  peerProtocols : s'.peerProtocols = s.peerProtocols
  explicitPeers : s'.explicitPeers = s.explicitPeers
  backoffs : ∀ t p, s.backoffs.isBackoffWithSlack t p = true →
    s'.backoffs.isBackoffWithSlack t p = true

theorem Belongs.eligible {s s' : Gossipsub P R F D}
    (h : Belongs s s' topic p) (htight : s.Tightens s') : HeartbeatAcc.Eligible s topic p := by
  obtain ⟨hlisted, hgossip, hexplicit, hbackoff, hscore⟩ := h
  rw [htight.topicPeers] at hlisted
  rw [htight.peerProtocols] at hgossip
  rw [htight.explicitPeers] at hexplicit
  refine ⟨hlisted, hgossip, hexplicit, ?_, hscore⟩
  by_contra htrue
  rw [htight.backoffs topic p (Bool.of_not_eq_false htrue)] at hbackoff
  cases hbackoff

theorem tightens_heartbeat (s : Gossipsub P R F D) (now : Instant) :
    (s.prepared now).Tightens (s.heartbeat now) := by
  have hframe := ((s.prepared now).upkept_maintainMesh now).frame
  rw [heartbeat_eq]
  generalize s.prepared now = s₁ at hframe ⊢
  generalize s₁.maintainMesh now = acc at hframe ⊢
  have hroster := (announces_concluded acc now).roster
  have hbackoff : ∀ t p, acc.state.backoffs.isBackoffWithSlack t p = true →
      (concluded acc now).backoffs.isBackoffWithSlack t p = true :=
    fun _ _ => backedOff_concluded
  generalize concluded acc now = s' at hroster hbackoff ⊢
  constructor
  · exact (congrArg Roster.topicPeers hroster).trans (by rw [hframe]; rfl)
  · exact (congrArg Roster.peerProtocols hroster).trans (by rw [hframe]; rfl)
  · exact (congrArg Roster.explicitPeers hroster).trans (by rw [hframe]; rfl)
  · intro t p h
    refine hbackoff t p ?_
    rw [hframe]
    exact h

theorem meshPeers_heartbeat (s : Gossipsub P R F D) (now : Instant) (topic : TopicHash) :
    (s.heartbeat now).meshPeers topic =
      ((s.prepared now).maintainMesh now).state.meshPeers topic := by
  exact meshPeers_of_roster (announces_concluded _ now).roster topic

theorem HeartbeatAcc.Eligible.congr {s : Gossipsub P R F D} {acc : HeartbeatAcc P R F D}
    {topic : TopicHash} {p : PeerId}
    (hframe : acc.state = { s with
      mesh := acc.state.mesh
      rng := acc.state.rng
      trace := acc.state.trace
      fault := acc.state.fault })
    (h : HeartbeatAcc.Eligible s topic p) : HeartbeatAcc.Eligible acc.state topic p := by
  rw [hframe]
  exact ⟨h.listed, h.gossip, h.notExplicit, h.notBackedOff, h.accepted⟩

theorem low_or_mem_maintainMesh (s : Gossipsub P R F D) (now : Instant) (topic : TopicHash)
    (hbuilt : s.config.Built) (hfault : (s.maintainMesh now).state.fault = none)
    (htopic : topic ∈ s.mesh) :
    s.config.meshNLow ≤ ((s.maintainMesh now).state.meshPeers topic).card ∨
      ∀ p, HeartbeatAcc.Eligible s topic p → p ∈ (s.maintainMesh now).state.meshPeers topic := by
  obtain ⟨acc, hframe, hmesh, hfault'⟩ := s.exists_turn_maintainMesh now htopic hbuilt.mesh_high
  have hconfig : acc.state.config = s.config := by rw [hframe]
  have hturn := HeartbeatAcc.low_or_mem_maintainTopic (hconfig ▸ hbuilt.mesh_low)
    (hconfig ▸ hbuilt.mesh_high) (hfault' hfault)
  rw [hmesh]
  rw [hconfig] at hturn
  generalize (HeartbeatAcc.maintainTopic now acc topic).state.meshPeers topic = mesh at hturn ⊢
  exact hturn.imp_right (fun hall p hp => hall p (hp.congr hframe))

theorem low_or_mem_heartbeat {s : Gossipsub P R F D}
    (hbuilt : s.config.Built) (hfault : (s.heartbeat now).fault = none)
    (htopic : topic ∈ (s.heartbeat now).mesh) :
    s.config.meshNLow ≤ ((s.heartbeat now).meshPeers topic).card ∨
      ∀ p, Belongs (s.prepared now) (s.heartbeat now) topic p →
        p ∈ (s.heartbeat now).meshPeers topic := by
  have hprepare : Announces s (s.prepared now) ∅ := announces_prepare
  have hconfig : (s.prepared now).config = s.config := congrArg Roster.config hprepare.roster
  have hmesh := s.meshPeers_heartbeat now topic
  have htight := s.tightens_heartbeat now
  rw [heartbeat_eq] at hfault htopic
  generalize s.heartbeat now = s' at hmesh htight ⊢
  generalize s.prepared now = s₁ at hconfig hmesh htight hfault htopic ⊢
  have hupkept := s₁.upkept_maintainMesh now
  have hlow := s₁.low_or_mem_maintainMesh now topic
  generalize s₁.maintainMesh now = acc at hmesh hfault htopic hupkept hlow
  have hconclude := announces_concluded acc now
  have hkeys : (concluded acc now).mesh = acc.state.mesh := congrArg Roster.mesh hconclude.roster
  rw [hkeys, hupkept.keys] at htopic
  have hresult := hlow (hconfig ▸ hbuilt) (hconclude.sticky hfault) htopic
  rw [hconfig, ← hmesh] at hresult
  generalize s'.meshPeers topic = mesh at hresult ⊢
  exact hresult.imp_right (fun hall p hp => hall p (hp.eligible htight))

/-- The degree of the meshes, in every state that a run reaches and after every heartbeat. -/
theorem degree_bounds [TopicSubscriptionFilter F] [DataTransform D]
    {privacy : MessageAuthenticity} {config : GossipsubConfig} {filter : F} {transform : D}
    {rng : Rng} {s : Gossipsub P R F D} (hbuild : config.build = .ok config)
    (hnew : new P R privacy config filter transform rng = some (.ok s)) (turns : List (Turn P R))
    (hpanic : (run step s turns).panicked = false) :
    (∀ topic, ((run step s turns).meshPeers topic).card ≤
      config.meshNHigh + config.opportunisticGraftPeers) ∧
    ∀ now, ((run step s turns).heartbeat now).panicked = false →
      ∀ topic ∈ ((run step s turns).heartbeat now).mesh,
        config.meshNLow ≤ (((run step s turns).heartbeat now).meshPeers topic).card ∨
          ∀ p, Belongs ((run step s turns).prepared now) ((run step s turns).heartbeat now) topic p →
            p ∈ ((run step s turns).heartbeat now).meshPeers topic := by
  have hbuilt := GossipsubConfig.build_eq_ok hbuild
  obtain ⟨backoffs, -, rfl⟩ := exists_initial hnew
  have hslim : Tracked.Slim config
      (run step (initial privacy config filter transform rng backoffs) turns).tracked := by
    refine run_of_effect (fun _ _ _ _ heffect => Tracked.Slim.effect hbuilt heffect) ?_
      (poolPlain_of_empty rfl) turns
    refine ⟨rfl, rfl, fun _ t => ?_⟩
    simp [Tracked.meshPeers, tracked, initial]
  generalize run step (initial privacy config filter transform rng backoffs) turns = s
    at hslim hpanic ⊢
  have hconfig : s.config = config := hslim.config
  refine ⟨hslim.size (fault_eq_none hpanic), fun now hpanic' topic htopic => ?_⟩
  have hlow := low_or_mem_heartbeat (hconfig ▸ hbuilt) (fault_eq_none hpanic') htopic
  rw [hconfig] at hlow
  exact hlow

/-- Three peers have subscribed to the topic, and the mesh has the two that it may have. -/
theorem scoredStart_degree :
    ((run step scoredNode scoredStart).meshPeers sampleTopic).card = 2 ∧
    (∀ topic, ((run step scoredNode scoredStart).meshPeers topic).card ≤ 2 + 1) ∧
    ∀ now, ((run step scoredNode scoredStart).heartbeat now).panicked = false →
      ∀ topic ∈ ((run step scoredNode scoredStart).heartbeat now).mesh,
        2 ≤ (((run step scoredNode scoredStart).heartbeat now).meshPeers topic).card ∨
          ∀ p, Belongs ((run step scoredNode scoredStart).prepared now)
              ((run step scoredNode scoredStart).heartbeat now) topic p →
            p ∈ ((run step scoredNode scoredStart).heartbeat now).meshPeers topic :=
  ⟨by decide +kernel, degree_bounds (by rfl) scoredNode_new scoredStart (by decide +kernel)⟩

end Gossipsub

end Libp2pRs.Gossip
