import Libp2pRs.Gossip.HeartbeatRefinement

/-!
# What a heartbeat does to the mesh of a topic

The five parts of `maintainTopic` each add some peers to the mesh of the topic or remove some, and
note the same peers for a GRAFT or a PRUNE. `Change` says which; nothing else that the heartbeat
reads is changed.
-/

namespace Libp2pRs.Gossip

open Lib Libp2pRs.Core Std Finset

theorem filter_sdiff_eq {α : Type} [DecidableEq α] (s t : Finset α) (p : α → Prop) [DecidablePred p] :
    (s \ t).filter p = s.filter p \ t.filter p := by
  ext x
  simp only [mem_filter, mem_sdiff]
  tauto

variable {p : PeerId}

section Random

variable {topic : TopicHash} {rng : Rng}

theorem card_getRandomPeersDynamic (topicPeers : TreeMap TopicHash (Finset PeerId))
    (peerProtocols : TreeMap PeerId PeerKind) (topic : TopicHash) (nMap : Nat → Nat)
    (f : PeerId → Bool) (rng : Rng) :
    (getRandomPeersDynamic topicPeers peerProtocols topic nMap f rng).1.card =
      min ((topicPeers[topic]?.getD ∅).filter fun p =>
          f p && PeerKind.isGossip peerProtocols[p]?).card
        (nMap ((topicPeers[topic]?.getD ∅).filter fun p =>
          f p && PeerKind.isGossip peerProtocols[p]?).card) := by
  have hnodup : ((sorted (topicPeers[topic]?.getD ∅)).filter fun p =>
      f p && PeerKind.isGossip peerProtocols[p]?).Nodup := (nodup_sorted _).filter _
  have hcard : ((topicPeers[topic]?.getD ∅).filter fun p =>
      f p && PeerKind.isGossip peerProtocols[p]?).card = ((sorted (topicPeers[topic]?.getD ∅)).filter
        fun p => f p && PeerKind.isGossip peerProtocols[p]?).length := by
    rw [← List.toFinset_card_of_nodup hnodup]
    congr 1
    ext p
    simp
  rw [hcard]
  unfold getRandomPeersDynamic
  dsimp only
  split
  case isTrue hfew => rw [List.toFinset_card_of_nodup hnodup, Nat.min_eq_left hfew]
  case isFalse hmany =>
    rw [List.toFinset_card_of_nodup ((Rng.nodup_shuffle.mpr hnodup).sublist (List.take_sublist _ _)),
      List.length_take, (Rng.shuffle_perm _ _).length_eq, Nat.min_comm]

theorem card_getRandomPeers_le :
    (getRandomPeers topicPeers peerProtocols topic n f rng).1.card ≤ n := by
  rw [getRandomPeers, card_getRandomPeersDynamic]
  exact Nat.min_le_right _ _

theorem mem_getRandomPeers_of_card_lt
    (h : (getRandomPeers topicPeers peerProtocols topic n f rng).1.card < n)
    (hp : p ∈ topicPeers[topic]?.getD ∅) (hf : f p = true)
    (hkind : PeerKind.isGossip peerProtocols[p]? = true) :
    p ∈ (getRandomPeers topicPeers peerProtocols topic n f rng).1 := by
  have hsub : (getRandomPeers topicPeers peerProtocols topic n f rng).1 ⊆
      (topicPeers[topic]?.getD ∅).filter fun p => f p && PeerKind.isGossip peerProtocols[p]? := by
    intro q hq
    obtain ⟨hlisted, hfilter, hgossip⟩ := mem_getRandomPeersDynamic hq
    simp [hlisted, hfilter, hgossip]
  have hcard := card_getRandomPeersDynamic topicPeers peerProtocols topic (fun _ => n) f rng
  rw [eq_of_subset_of_card_le hsub (by rw [getRandomPeers] at h ⊢; omega)]
  simp [hp, hf, hkind]

end Random

namespace Gossipsub

variable {P R F D : Type}

/-- A gossipsub peer of the topic that is neither in its mesh nor explicit nor backed off. -/
structure Spare (s : Gossipsub P R F D) (topic : TopicHash) (p : PeerId) : Prop where
  listed : p ∈ s.topicPeers[topic]?.getD ∅
  gossip : PeerKind.isGossip s.peerProtocols[p]? = true
  notMem : p ∉ s.meshPeers topic
  notExplicit : p ∉ s.explicitPeers
  notBackedOff : s.backoffs.isBackoffWithSlack topic p = false

theorem meshPeers_removeFromMesh (s : Gossipsub P R F D) (topic t : TopicHash) (peer : PeerId) :
    (s.removeFromMesh topic peer).meshPeers t =
      if t = topic then (s.meshPeers t).erase peer else s.meshPeers t := by
  unfold meshPeers removeFromMesh
  rw [get_modify]
  by_cases ht : t = topic
  · subst ht
    cases s.mesh[t]? <;> simp
  · rw [if_neg (Ne.symm ht), if_neg ht]

theorem meshPeers_addToMesh (s : Gossipsub P R F D) (now : Instant) (topic t : TopicHash)
    (peers : Finset PeerId) :
    (s.addToMesh now topic peers).meshPeers t =
      if t = topic then s.meshPeers t ∪ peers else s.meshPeers t := by
  obtain ⟨trace, h⟩ := exists_addToMesh s now topic peers
  rw [h]
  unfold meshPeers
  rw [get_alter]
  by_cases ht : t = topic
  · rw [if_pos ht.symm, if_pos ht, ht]
    rfl
  · rw [if_neg (Ne.symm ht), if_neg ht]

/-- Nothing, or one entry for each output: an output is lost after a panic. -/
theorem trace_emitAll (s : Gossipsub P R F D) (now : Instant) (os : List Output) :
    (s.emitAll now os).trace =
      s.trace ++ if s.panicked then [] else os.map (fun o => (now, o)) := by
  unfold emitAll
  induction os generalizing s with
  | nil => simp
  | cons o os ih =>
    rw [List.foldl_cons, ih]
    unfold emit
    by_cases hp : s.panicked = true
    · simp [hp]
    · have hp' : (panicked { s with trace := s.trace ++ [(now, o)] }) = s.panicked := rfl
      simp [hp, hp']

/-- The maintenance of the mesh panics for certain configurations only. -/
def Disturbs (c : GossipsubConfig) (fault fault' : Option Fault) : Prop :=
  fault' = fault ∨ ¬ (c.Built ∧ c.Steady) ∧ fault' = some (fault.getD .arithmetic)

variable {fault : Option Fault}

theorem Disturbs.trans {c : GossipsubConfig} {fault' fault'' : Option Fault}
    (h : Disturbs c fault fault') (h' : Disturbs c fault' fault'') : Disturbs c fault fault'' := by
  rcases h' with rfl | ⟨hc, rfl⟩
  · exact h
  · rcases h with rfl | ⟨-, rfl⟩
    · exact .inr ⟨hc, rfl⟩
    · exact .inr ⟨hc, rfl⟩

theorem Disturbs.sticky (h : Disturbs c fault fault') (hfault : fault' = none) : fault = none := by
  rcases h with rfl | ⟨-, rfl⟩
  · exact hfault
  · cases hfault

variable {topic : TopicHash}

namespace HeartbeatAcc

/-- The peers of `added` join the mesh of the topic and are noted for a GRAFT; those of `removed`
leave it and are noted for a PRUNE. -/
structure Change (now : Instant) (topic : TopicHash) (acc acc' : HeartbeatAcc P R F D)
    (added removed : Finset PeerId) : Prop where
  frame : acc'.state = { acc.state with
    mesh := acc'.state.mesh
    rng := acc'.state.rng
    trace := acc'.state.trace
    fault := acc'.state.fault }
  mesh : ∀ t, acc'.state.meshPeers t =
    if t = topic then acc.state.meshPeers t \ removed ∪ added else acc.state.meshPeers t
  grafts : ∀ t p, t ∈ acc'.toGraft[p]?.getD [] ↔
    t ∈ acc.toGraft[p]?.getD [] ∨ t = topic ∧ p ∈ added
  prunes : ∀ t p, t ∈ acc'.toPrune[p]?.getD [] ↔
    t ∈ acc.toPrune[p]?.getD [] ∨ t = topic ∧ p ∈ removed
  links : ∃ l, acc'.state.trace = acc.state.trace ++ l ∧ ∀ e ∈ l, ∃ p, e = (now, .link topic p)
  keys : topic ∈ acc.state.mesh → ∀ t, t ∈ acc'.state.mesh ↔ t ∈ acc.state.mesh
  disturbs : Disturbs acc.state.config acc.state.fault acc'.state.fault
  clear : ∀ p ∈ added, acc.state.Clear now topic p
  moves : ∀ strict, Refines strict now acc.state acc'.state

namespace Change

variable {now : Instant} {topic : TopicHash} {acc acc' : HeartbeatAcc P R F D}
  {added removed : Finset PeerId}

theorem config (h : Change now topic acc acc' added removed) :
    acc'.state.config = acc.state.config := by
  rw [h.frame]

theorem outboundPeers (h : Change now topic acc acc' added removed) :
    acc'.state.outboundPeers = acc.state.outboundPeers := by
  rw [h.frame]

theorem sticky (h : Change now topic acc acc' added removed) (hfault : acc'.state.fault = none) :
    acc.state.fault = none :=
  h.disturbs.sticky hfault

theorem still {rng : Rng} {noPx : Finset PeerId}
    (h : Disturbs acc.state.config acc.state.fault fault) :
    Change now topic acc ⟨{ acc.state with rng, fault }, acc.toGraft, acc.toPrune, noPx⟩ ∅ ∅ where
  frame := rfl
  mesh t := by
    rw [sdiff_empty, union_empty]
    exact (ite_self _).symm
  grafts t p := by simp
  prunes t p := by simp
  links := ⟨[], by simp⟩
  keys _ _ := Iff.rfl
  disturbs := h
  clear := nofun
  moves _ := .refl

theorem refl : Change now topic acc acc ∅ ∅ := still (.inl rfl)

theorem trans {acc'' : HeartbeatAcc P R F D} {added' removed' : Finset PeerId}
    (h : Change now topic acc acc' added removed)
    (h' : Change now topic acc' acc'' added' removed') (hdisjoint : Disjoint added removed') :
    Change now topic acc acc'' (added ∪ added') (removed ∪ removed') where
  frame := h'.frame.trans (by rw [h.frame])
  mesh t := by
    rw [h'.mesh, h.mesh]
    split
    · rw [union_sdiff_distrib, sdiff_sdiff, sdiff_eq_self_of_disjoint hdisjoint, union_assoc]
      rfl
    · rfl
  grafts t p := by
    rw [h'.grafts, h.grafts, mem_union]
    tauto
  prunes t p := by
    rw [h'.prunes, h.prunes, mem_union]
    tauto
  links := by
    obtain ⟨l, hl, hlinks⟩ := h.links
    obtain ⟨l', hl', hlinks'⟩ := h'.links
    refine ⟨l ++ l', by rw [hl', hl, List.append_assoc], fun e he => ?_⟩
    exact (List.mem_append.mp he).elim (hlinks e) (hlinks' e)
  keys hmem t := (h'.keys ((h.keys hmem topic).mpr hmem) t).trans (h.keys hmem t)
  disturbs := by
    have hdisturbs := h'.disturbs
    rw [h.config] at hdisturbs
    exact h.disturbs.trans hdisturbs
  clear p hp := by
    rcases mem_union.mp hp with hp | hp
    · exact h.clear p hp
    · exact (h'.clear p hp).congr (by rw [h.frame])
  moves strict := (h.moves strict).trans (h'.moves strict)

theorem remove {acc'' : HeartbeatAcc P R F D} {removed' : Finset PeerId}
    (h : Change now topic acc acc' ∅ removed) (h' : Change now topic acc' acc'' ∅ removed') :
    Change now topic acc acc'' ∅ (removed ∪ removed') := by
  have hboth := h.trans h' (disjoint_empty_left _)
  rwa [empty_union] at hboth

theorem fail (h : ¬ (acc.state.config.Built ∧ acc.state.config.Steady)) :
    Change now topic acc acc.fail ∅ ∅ :=
  still (.inr ⟨h, rfl⟩)

end Change

variable {now : Instant} {topic : TopicHash} {acc : HeartbeatAcc P R F D}

/-! ## Single changes -/

theorem change_prune (peer : PeerId) : Change now topic acc (acc.prune topic peer) ∅ {peer} where
  frame := rfl
  mesh t := by
    unfold prune
    rw [meshPeers_removeFromMesh, sdiff_singleton_eq_erase, union_empty]
  grafts t p := by simp [prune]
  prunes t p := by
    unfold prune
    rw [mem_push, mem_singleton]
  links := ⟨[], by simp [prune, removeFromMesh]⟩
  keys _ t := TreeMap.mem_modify
  disturbs := .inl rfl
  clear := nofun
  moves _ := refines_removeFromMesh topic peer

theorem change_foldl_prune (peers : List PeerId) :
    Change now topic acc (peers.foldl (prune topic) acc) ∅ peers.toFinset := by
  induction peers generalizing acc with
  | nil => exact Change.refl
  | cons peer peers ih =>
    rw [List.toFinset_cons, insert_eq]
    exact (change_prune peer).remove ih

/-- The peers that are grafted are spare and pass the filter. If there are fewer than asked for,
all that are spare and pass it are grafted. -/
theorem change_graftRandom (now : Instant) (topic : TopicHash) (acc : HeartbeatAcc P R F D)
    (n : Nat) (f : PeerId → Bool) :
    ∃ added, Change now topic acc (acc.graftRandom now topic n f) added ∅ ∧ added.card ≤ n ∧
      (∀ p ∈ added, acc.state.Spare topic p ∧ f p = true) ∧
      (added.card < n → ∀ p, acc.state.Spare topic p → f p = true → p ∈ added) := by
  unfold graftRandom
  dsimp only
  generalize hr : getRandomPeers _ _ _ _ _ _ = r
  have hspare : ∀ p ∈ r.1, acc.state.Spare topic p ∧ f p = true := by
    intro p hp
    obtain ⟨hlisted, hf, hkind⟩ := mem_getRandomPeersDynamic (hr ▸ hp)
    simp only [Bool.and_eq_true, decide_eq_true_eq, Bool.not_eq_eq_eq_not, Bool.not_true] at hf
    obtain ⟨⟨⟨hmesh, hexplicit⟩, hbackoff⟩, hf⟩ := hf
    exact ⟨⟨hlisted, hkind, hmesh, hexplicit, hbackoff⟩, hf⟩
  have hclear : ∀ p ∈ r.1, acc.state.Clear now topic p := fun p hp =>
    clear_of_isBackoffWithSlack (hspare p hp).1.notBackedOff
  refine ⟨r.1, ?_, ?_, hspare, ?_⟩
  · obtain ⟨trace, hadd⟩ := exists_addToMesh acc.state now topic r.1
    constructor
    case frame =>
      rw [hadd]
      rfl
    case mesh =>
      intro t
      rw [sdiff_empty]
      exact meshPeers_addToMesh acc.state now topic t r.1
    case grafts =>
      intro t p
      rw [mem_foldl_push, mem_sorted]
    case prunes =>
      intro t p
      simp
    case links =>
      refine ⟨_, trace_emitAll _ now _, ?_⟩
      intro e he
      split at he
      · cases he
      · obtain ⟨o, ho, rfl⟩ := List.mem_map.mp he
        obtain ⟨p, -, rfl⟩ := List.mem_map.mp ho
        exact ⟨p, rfl⟩
    case keys =>
      intro hmem t
      rw [hadd]
      refine (mem_alter_some acc.state.mesh topic t _).trans (or_iff_right_of_imp ?_)
      rintro rfl
      exact hmem
    case disturbs =>
      rw [hadd]
      exact .inl rfl
    case clear => exact hclear
    case moves =>
      exact fun strict => Overlay.Moves.before (view_setRng ∅ _ _)
        (moves_addToMesh (fun p hp => .inl (hspare p hp).1.listed) hclear)
  · exact hr ▸ card_getRandomPeers_le
  · intro hcard p hp hf
    rw [← hr] at hcard ⊢
    refine mem_getRandomPeers_of_card_lt hcard hp.listed ?_ hp.gossip
    simp [hp.notMem, hp.notExplicit, hp.notBackedOff, hf]

/-- The peers that leave are peers of the list, as many as asked for unless outbound peers have to
stay, and `mesh_outbound_min` outbound peers do stay. -/
theorem change_removeExcess (now : Instant) {peers : List PeerId} (hnodup : peers.Nodup)
    (acc : HeartbeatAcc P R F D) {excess removed : Nat} (outbound : Nat)
    (hremoved : removed ≤ excess) :
    ∃ E : Finset PeerId,
      Change now topic acc (removeExcess topic excess acc peers removed outbound) ∅ E ∧
      E ⊆ peers.toFinset ∧ removed + E.card ≤ excess ∧
      ((∃ p ∈ E, p ∈ acc.state.outboundPeers) →
        (E.filter (· ∈ acc.state.outboundPeers)).card + acc.state.config.meshOutboundMin ≤
          outbound) ∧
      ((∀ p ∈ peers, p ∉ acc.state.outboundPeers) →
        removed + E.card = min (removed + peers.length) excess) := by
  induction peers generalizing acc removed outbound with
  | nil =>
    refine ⟨∅, Change.refl, by simp, by simpa using hremoved, by simp, fun _ => ?_⟩
    simp [hremoved]
  | cons peer peers ih =>
    obtain ⟨hpeer, hnodup⟩ := List.nodup_cons.mp hnodup
    unfold removeExcess
    by_cases hfull : removed = excess
    · rw [if_pos hfull]
      refine ⟨∅, Change.refl, by simp, by simpa using hremoved, by simp, fun _ => ?_⟩
      simp [hfull]
    · have hsucc : removed + 1 ≤ excess := by omega
      -- a peer that leaves is not among those that leave after it
      have hcard : ∀ {E : Finset PeerId}, E ⊆ peers.toFinset → ({peer} ∪ E).card = E.card + 1 := by
        intro E hE
        rw [← insert_eq, card_insert_of_notMem]
        exact fun h => hpeer (List.mem_toFinset.mp (hE h))
      have hsub : ∀ {E : Finset PeerId}, E ⊆ peers.toFinset →
          {peer} ∪ E ⊆ (peer :: peers).toFinset := by
        intro E hE
        rw [List.toFinset_cons, insert_eq]
        exact union_subset_union_right hE
      rw [if_neg hfull]
      by_cases hout : peer ∈ acc.state.outboundPeers
      · rw [if_pos hout]
        by_cases hmin : outbound ≤ acc.state.config.meshOutboundMin
        · rw [if_pos hmin]
          obtain ⟨E, hE, hsubE, hle, hkeep, -⟩ := ih hnodup acc outbound hremoved
          refine ⟨E, hE, ?_, hle, hkeep, fun h => absurd hout (h peer List.mem_cons_self)⟩
          exact hsubE.trans (by simp)
        · rw [if_neg hmin]
          obtain ⟨E, hE, hsubE, hle, hkeep, -⟩ :=
            ih hnodup (acc.prune topic peer) (outbound - 1) hsucc
          refine ⟨{peer} ∪ E, (change_prune peer).remove hE, hsub hsubE, ?_, fun _ => ?_,
            fun h => absurd hout (h peer List.mem_cons_self)⟩
          · rw [hcard hsubE]
            omega
          · have hkeep' : (E.filter (· ∈ acc.state.outboundPeers)).card +
                acc.state.config.meshOutboundMin ≤ outbound - 1 := by
              by_cases hex : ∃ p ∈ E, p ∈ acc.state.outboundPeers
              · exact hkeep hex
              · have hnone : E.filter (· ∈ acc.state.outboundPeers) = ∅ :=
                  filter_eq_empty_iff.mpr (fun p hp h => hex ⟨p, hp, h⟩)
                rw [hnone, card_empty]
                omega
            have hstep := card_union_le {peer} (E.filter (· ∈ acc.state.outboundPeers))
            rw [card_singleton] at hstep
            rw [filter_union, filter_singleton, if_pos hout]
            omega
      · rw [if_neg hout]
        obtain ⟨E, hE, hsubE, hle, hkeep, hall⟩ :=
          ih hnodup (acc.prune topic peer) outbound hsucc
        refine ⟨{peer} ∪ E, (change_prune peer).remove hE, hsub hsubE, ?_, fun hex => ?_,
          fun h => ?_⟩
        · rw [hcard hsubE]
          omega
        · rw [filter_union, filter_singleton, if_neg hout, empty_union]
          refine hkeep ?_
          obtain ⟨p, hp, hpout⟩ := hex
          rcases mem_union.mp hp with hp | hp
          · rw [mem_singleton.mp hp] at hpout
            exact absurd hpout hout
          · exact ⟨p, hp, hpout⟩
        · have hrest := hall (fun p hp => h p (List.mem_cons_of_mem peer hp))
          rw [hcard hsubE, List.length_cons]
          omega

/-! ## The parts of the maintenance -/

section Scored

variable [ScoreArith R] [PeerScoring P R]

def Negative (s : Gossipsub P R F D) (p : PeerId) : Prop :=
  ScoreArith.lt (s.score p) ScoreArith.zero = true

instance (s : Gossipsub P R F D) (p : PeerId) : Decidable (Negative s p) :=
  inferInstanceAs (Decidable (_ = true))

def Accepted (s : Gossipsub P R F D) (p : PeerId) : Prop :=
  ScoreArith.le ScoreArith.zero (s.score p) = true

theorem not_accepted_of_negative [LawfulScoreArith R] {s : Gossipsub P R F D} (h : Negative s p) :
    ¬ Accepted s p := by
  intro haccepted
  have hle := LawfulScoreArith.le_eq_false h
  rw [haccepted] at hle
  cases hle

theorem change_dropNegative : Change now topic acc (acc.dropNegative topic) ∅
      ((acc.state.meshPeers topic).filter (Negative acc.state)) := by
  have hset : ((sorted (acc.state.meshPeers topic)).filter (fun p =>
      ScoreArith.lt (acc.state.score p) ScoreArith.zero)).toFinset =
      (acc.state.meshPeers topic).filter (Negative acc.state) := by
    ext p
    simp [Negative]
  unfold dropNegative
  dsimp only
  generalize (sorted (acc.state.meshPeers topic)).filter (fun p =>
    ScoreArith.lt (acc.state.score p) ScoreArith.zero) = toRemove at hset ⊢
  rw [← hset, ← empty_union toRemove.toFinset]
  exact (Change.still (.inl rfl)).remove (change_foldl_prune toRemove)

theorem change_addLow (now : Instant) (acc : HeartbeatAcc P R F D) (topic : TopicHash) :
    ∃ added, Change now topic acc (acc.addLow now topic) added ∅ ∧
      (∀ p ∈ added, acc.state.Spare topic p ∧ Accepted acc.state p) ∧
      (added.Nonempty → (acc.state.meshPeers topic).card + added.card ≤ acc.state.config.meshN) ∧
      (acc.state.config.meshNLow ≤ acc.state.config.meshN →
        (acc.addLow now topic).state.fault = none →
          acc.state.config.meshNLow ≤ (acc.state.meshPeers topic).card + added.card ∨
          ∀ p, acc.state.Spare topic p → Accepted acc.state p → p ∈ added) := by
  unfold addLow
  dsimp only
  by_cases hlow : (acc.state.meshPeers topic).card < acc.state.config.meshNLow
  · rw [if_pos hlow]
    by_cases hfail : acc.state.config.meshN < (acc.state.meshPeers topic).card
    · rw [if_pos hfail]
      have hconfig : ¬ (acc.state.config.Built ∧ acc.state.config.Steady) := by
        rintro ⟨hbuilt, -⟩
        have hlow := hbuilt.mesh_low
        omega
      refine ⟨∅, Change.fail hconfig, by simp, by simp, fun _ hfault => ?_⟩
      cases hfault
    · rw [if_neg hfail]
      obtain ⟨added, hchange, hcard, hspare, hall⟩ := change_graftRandom now topic acc
        (acc.state.config.meshN - (acc.state.meshPeers topic).card)
        (fun p => ScoreArith.le ScoreArith.zero (acc.state.score p))
      refine ⟨added, hchange, hspare, fun _ => by omega, fun hle _ => ?_⟩
      by_cases hless : added.card < acc.state.config.meshN - (acc.state.meshPeers topic).card
      · exact .inr (hall hless)
      · exact .inl (by omega)
  · rw [if_neg hlow]
    exact ⟨∅, Change.refl, by simp, by simp, fun _ _ => .inl (by simpa using hlow)⟩

/-- A mesh that is high loses peers, but not below `mesh_n`, and it loses outbound peers only
while more than `mesh_outbound_min` of them are left. -/
theorem change_removeHigh (now : Instant) (acc : HeartbeatAcc P R F D) (topic : TopicHash) :
    ∃ removed, Change now topic acc (acc.removeHigh topic) ∅ removed ∧
      removed ⊆ acc.state.meshPeers topic ∧
      (removed.Nonempty → acc.state.config.meshNHigh < (acc.state.meshPeers topic).card ∧
        acc.state.config.meshN ≤ (acc.state.meshPeers topic \ removed).card) ∧
      ((∃ p ∈ removed, p ∈ acc.state.outboundPeers) → acc.state.config.meshOutboundMin ≤
        ((acc.state.meshPeers topic \ removed).filter (· ∈ acc.state.outboundPeers)).card) ∧
      (acc.state.outboundPeers = ∅ → acc.state.config.meshN ≤ acc.state.config.meshNHigh →
        (acc.removeHigh topic).state.fault = none →
          (acc.state.meshPeers topic \ removed).card ≤ acc.state.config.meshNHigh) := by
  unfold removeHigh
  dsimp only
  by_cases hhigh : acc.state.config.meshNHigh < (acc.state.meshPeers topic).card
  · rw [if_pos hhigh]
    split
    · rename_i hsmall
      have hconfig : ¬ (acc.state.config.Built ∧ acc.state.config.Steady) := by
        rintro ⟨hbuilt, hsteady⟩
        have hn := hbuilt.mesh_high
        have hretain := hsteady.retain
        omega
      refine ⟨∅, Change.fail hconfig, by simp, by simp, by simp, fun _ _ hfault => ?_⟩
      cases hfault
    · rename_i hok
      generalize hfirst : acc.state.rng.shuffle (sorted (acc.state.meshPeers topic)) = first
      generalize hworst : (acc.state.meshPeers topic).card - acc.state.config.retainScores = worst
      generalize hsecond : first.2.shuffle ((sortByScore acc.state first.1).take worst) = second
      generalize hlist : second.1 ++ (sortByScore acc.state first.1).drop worst = list
      -- the order of removal is an order of the mesh
      have hperm : list.Perm (sorted (acc.state.meshPeers topic)) := by
        calc list.Perm ((sortByScore acc.state first.1).take worst ++
              (sortByScore acc.state first.1).drop worst) := by
                rw [← hlist, ← hsecond]
                exact (first.2.shuffle_perm _).append_right _
          _ = sortByScore acc.state first.1 := List.take_append_drop _ _
          List.Perm _ first.1 := List.perm_insertionSort _ _
          List.Perm _ (sorted (acc.state.meshPeers topic)) := by
                rw [← hfirst]
                exact acc.state.rng.shuffle_perm _
      have hnodup : list.Nodup := hperm.nodup_iff.mpr (nodup_sorted _)
      have hset : list.toFinset = acc.state.meshPeers topic := by
        ext p
        rw [List.mem_toFinset, hperm.mem_iff, mem_sorted]
      have hlength : list.length = (acc.state.meshPeers topic).card := by
        rw [← hset, List.toFinset_card_of_nodup hnodup]
      have hcount : list.countP (· ∈ acc.state.outboundPeers) =
          ((acc.state.meshPeers topic).filter (· ∈ acc.state.outboundPeers)).card := by
        rw [List.countP_eq_length_filter, ← List.toFinset_card_of_nodup (hnodup.filter _),
          List.toFinset_filter, hset]
        simp only [decide_eq_true_eq]
      obtain ⟨E, hE, hsub, hle, hkeep, hall⟩ := change_removeExcess now hnodup
        { acc with state := acc.state.setRng second.2 } (list.countP (· ∈ acc.state.outboundPeers))
        (Nat.zero_le ((acc.state.meshPeers topic).card - acc.state.config.meshN))
      rw [hset] at hsub
      have hrng : Change now topic acc { acc with state := acc.state.setRng second.2 } ∅ ∅ :=
        Change.still (.inl rfl)
      have hchange := hrng.remove hE
      rw [empty_union] at hchange
      have hsdiff := card_sdiff_of_subset hsub
      refine ⟨E, hchange, hsub, fun _ => ⟨hhigh, by omega⟩, fun hex => ?_, fun hout hn _ => ?_⟩
      · have hk := hkeep hex
        have hfilter : (acc.state.meshPeers topic \ E).filter (· ∈ acc.state.outboundPeers) =
            (acc.state.meshPeers topic).filter (· ∈ acc.state.outboundPeers) \
              E.filter (· ∈ acc.state.outboundPeers) := filter_sdiff_eq _ _ _
        rw [hfilter, card_sdiff_of_subset (filter_subset_filter _ hsub), ← hcount]
        exact Nat.le_sub_of_add_le' hk
      · have hfull := hall (fun p _ => by
          change p ∉ acc.state.outboundPeers
          rw [hout]
          exact notMem_empty p)
        omega
  · rw [if_neg hhigh]
    exact ⟨∅, Change.refl, by simp, by simp, by simp, fun _ _ _ => by simpa using hhigh⟩

theorem change_addOutbound (now : Instant) (acc : HeartbeatAcc P R F D) (topic : TopicHash) :
    ∃ added, Change now topic acc (acc.addOutbound now topic) added ∅ ∧
      (∀ p ∈ added, acc.state.Spare topic p ∧ Accepted acc.state p ∧ p ∈ acc.state.outboundPeers) ∧
      (added.Nonempty → ((acc.state.meshPeers topic).filter (· ∈ acc.state.outboundPeers)).card <
        acc.state.config.meshOutboundMin) := by
  unfold addOutbound
  dsimp only
  split
  · rename_i hfew
    obtain ⟨added, hchange, -, hspare, -⟩ := change_graftRandom now topic acc
      (acc.state.config.meshOutboundMin -
        ((acc.state.meshPeers topic).filter (· ∈ acc.state.outboundPeers)).card)
      (fun p => ScoreArith.le ScoreArith.zero (acc.state.score p) &&
        decide (p ∈ acc.state.outboundPeers))
    refine ⟨added, hchange, fun p hp => ?_, fun _ => hfew.2⟩
    obtain ⟨hp, hf⟩ := hspare p hp
    rw [Bool.and_eq_true, decide_eq_true_eq] at hf
    exact ⟨hp, hf.1, hf.2⟩
  · exact ⟨∅, Change.refl, by simp, by simp⟩

theorem change_opportunisticGraft (now : Instant) (acc : HeartbeatAcc P R F D)
    (topic : TopicHash) :
    ∃ added, Change now topic acc (acc.opportunisticGraft now topic) added ∅ ∧
      added.card ≤ acc.state.config.opportunisticGraftPeers ∧
      ∀ p ∈ added, acc.state.Spare topic p := by
  unfold opportunisticGraft
  dsimp only
  split
  · rename_i hticks
    exact ⟨∅, Change.fail (fun hconfig => hconfig.2.ticks hticks), by simp, by simp⟩
  · split
    · split
      · exact ⟨∅, Change.refl, by simp, by simp⟩
      · split
        · obtain ⟨added, hchange, hcard, hspare, -⟩ := change_graftRandom now topic acc
            acc.state.config.opportunisticGraftPeers
            (fun p => ScoreArith.lt (medianScore acc.state (acc.state.meshPeers topic))
              (acc.state.score p))
          exact ⟨added, hchange, hcard, fun p hp => (hspare p hp).1⟩
        · exact ⟨∅, Change.refl, by simp, by simp⟩
    · exact ⟨∅, Change.refl, by simp, by simp⟩

end Scored

/-! ## A whole topic -/

variable {topics : List TopicHash}

section Scored

variable [ScoreArith R] [PeerScoring P R]

/-- The maintenance of a topic up to opportunistic grafting. -/
def beforeOpportunistic (now : Instant) (acc : HeartbeatAcc P R F D) (topic : TopicHash) :
    HeartbeatAcc P R F D :=
  (((acc.dropNegative topic).addLow now topic).removeHigh topic).addOutbound now topic

/-- The peers of the mesh that opportunistic grafting brings back after they have been removed. -/
@[irreducible] def regrafted (now : Instant) (acc : HeartbeatAcc P R F D) (topic : TopicHash) : Finset PeerId :=
  ((maintainTopic now acc topic).state.meshPeers topic \
    (acc.beforeOpportunistic now topic).state.meshPeers topic) ∩ acc.state.meshPeers topic

def BringsNobodyBack (now : Instant) (acc : HeartbeatAcc P R F D) (topic : TopicHash) : Prop :=
  acc.regrafted now topic = ∅

instance (now : Instant) (acc : HeartbeatAcc P R F D) (topic : TopicHash) :
    Decidable (acc.BringsNobodyBack now topic) :=
  inferInstanceAs (Decidable (_ = _))

def kept (acc : HeartbeatAcc P R F D) (topic : TopicHash) : Finset PeerId :=
  acc.state.meshPeers topic \ (acc.state.meshPeers topic).filter (Negative acc.state)

/-- A gossipsub peer of the topic that may be in its mesh: not explicit, not backed off, and with a
score of zero or above. -/
structure Eligible (s : Gossipsub P R F D) (topic : TopicHash) (p : PeerId) : Prop where
  listed : p ∈ s.topicPeers[topic]?.getD ∅
  gossip : PeerKind.isGossip s.peerProtocols[p]? = true
  notExplicit : p ∉ s.explicitPeers
  notBackedOff : s.backoffs.isBackoffWithSlack topic p = false
  accepted : Accepted s p

/-- The peers that the parts of the maintenance add and remove: `filled` when the mesh is low,
`excess` when it is high, `outbound` for want of outbound peers, `chosen` opportunistically. -/
structure Parts (now : Instant) (acc : HeartbeatAcc P R F D) (topic : TopicHash)
    (filled excess outbound chosen : Finset PeerId) : Prop where
  before : Change now topic acc (acc.beforeOpportunistic now topic) (filled ∪ outbound)
    ((acc.state.meshPeers topic).filter (Negative acc.state) ∪ excess)
  after : Change now topic (acc.beforeOpportunistic now topic) (maintainTopic now acc topic) chosen ∅
  filled_spare : ∀ p ∈ filled, p ∉ acc.kept topic ∧ Accepted acc.state p
  filled_enough : acc.state.config.meshNLow ≤ acc.state.config.meshN →
    (maintainTopic now acc topic).state.fault = none →
      acc.state.config.meshNLow ≤ (acc.kept topic ∪ filled).card ∨
      ∀ p, Eligible acc.state topic p → p ∈ acc.kept topic ∪ filled
  excess_subset : excess ⊆ acc.kept topic
  excess_low : excess.Nonempty →
    filled = ∅ ∧ acc.state.config.meshN ≤ (acc.kept topic \ excess).card
  excess_outbound : (∃ p ∈ excess, p ∈ acc.state.outboundPeers) →
    acc.state.config.meshOutboundMin ≤
      ((acc.kept topic \ excess).filter (· ∈ acc.state.outboundPeers)).card
  excess_high : acc.state.outboundPeers = ∅ →
    (maintainTopic now acc topic).state.fault = none →
      ((acc.kept topic ∪ filled) \ excess).card ≤ acc.state.config.meshNHigh
  outbound_spare : ∀ p ∈ outbound, p ∉ (acc.kept topic ∪ filled) \ excess ∧
    Accepted acc.state p ∧ p ∈ acc.state.outboundPeers
  outbound_few : outbound.Nonempty →
    (((acc.kept topic ∪ filled) \ excess).filter (· ∈ acc.state.outboundPeers)).card <
      acc.state.config.meshOutboundMin
  chosen_spare : ∀ p ∈ chosen, p ∉ (acc.beforeOpportunistic now topic).state.meshPeers topic
  chosen_few : chosen.card ≤ acc.state.config.opportunisticGraftPeers

namespace Change

variable {acc' : HeartbeatAcc P R F D} {added removed : Finset PeerId}

theorem accepted_iff (h : Change now topic acc acc' added removed) :
    Accepted acc'.state p ↔ Accepted acc.state p := by
  unfold Accepted score
  rw [h.frame]

theorem spare_of_eligible (h : Change now topic acc acc' added removed)
    (hp : Eligible acc.state topic p) (hmesh : p ∉ acc'.state.meshPeers topic) :
    acc'.state.Spare topic p := by
  refine ⟨?_, ?_, hmesh, ?_, ?_⟩
  · rw [h.frame]
    exact hp.listed
  · rw [h.frame]
    exact hp.gossip
  · rw [h.frame]
    exact hp.notExplicit
  · rw [h.frame]
    exact hp.notBackedOff

end Change

theorem exists_parts (now : Instant) (acc : HeartbeatAcc P R F D) (topic : TopicHash)
    (hn : acc.state.config.meshN ≤ acc.state.config.meshNHigh) :
    ∃ filled excess outbound chosen, Parts now acc topic filled excess outbound chosen := by
  -- the five parts
  have hdrop : Change now topic acc (acc.dropNegative topic) ∅
      ((acc.state.meshPeers topic).filter (Negative acc.state)) := change_dropNegative
  obtain ⟨filled, hfill, hfilled, hfilledLow, henough⟩ :=
    change_addLow now (acc.dropNegative topic) topic
  obtain ⟨excess, hremove, hexcess, hexcessLow, hexcessOut, hexcessHigh⟩ :=
    change_removeHigh now ((acc.dropNegative topic).addLow now topic) topic
  obtain ⟨outbound, hout, houtbound, houtboundFew⟩ :=
    change_addOutbound now (((acc.dropNegative topic).addLow now topic).removeHigh topic) topic
  obtain ⟨chosen, hchoose, hchosenFew, hchosen⟩ :=
    change_opportunisticGraft now (acc.beforeOpportunistic now topic) topic
  have hafter : maintainTopic now acc topic =
      (acc.beforeOpportunistic now topic).opportunisticGraft now topic := rfl
  have hbefore : acc.beforeOpportunistic now topic =
      (((acc.dropNegative topic).addLow now topic).removeHigh topic).addOutbound now topic := rfl
  rw [← hafter] at hchoose
  rw [← hbefore] at hout
  clear hafter hbefore
  generalize (((acc.dropNegative topic).addLow now topic).removeHigh topic) = acc₃ at *
  generalize ((acc.dropNegative topic).addLow now topic) = acc₂ at *
  generalize (acc.dropNegative topic) = acc₁ at *
  -- the mesh after each of them
  have hmesh1 : acc₁.state.meshPeers topic = acc.kept topic := by
    rw [hdrop.mesh, if_pos rfl, union_empty, kept]
  have hmesh2 : acc₂.state.meshPeers topic = acc.kept topic ∪ filled := by
    rw [hfill.mesh, if_pos rfl, sdiff_empty, hmesh1]
  have hmesh3 : acc₃.state.meshPeers topic = (acc.kept topic ∪ filled) \ excess := by
    rw [hremove.mesh, if_pos rfl, union_empty, hmesh2]
  have hfilledNew : Disjoint (acc.kept topic) filled := by
    refine disjoint_right.mpr (fun p hp => ?_)
    rw [← hmesh1]
    exact (hfilled p hp).1.notMem
  -- a mesh that has been filled is not too large
  have hfilledExcess : excess.Nonempty → filled = ∅ := by
    intro hne
    by_contra hfilledNe
    have hle := hfilledLow (nonempty_iff_ne_empty.mpr hfilledNe)
    have hlt := (hexcessLow hne).1
    rw [hmesh2, card_union_of_disjoint hfilledNew, hfill.config, hdrop.config] at hlt
    rw [hmesh1, hdrop.config] at hle
    omega
  have hdisjoint : Disjoint filled excess := by
    by_cases hne : excess.Nonempty
    · rw [hfilledExcess hne]
      exact disjoint_empty_left _
    · rw [not_nonempty_iff_eq_empty.mp hne]
      exact disjoint_empty_right _
  have hbefore : Change now topic acc (acc.beforeOpportunistic now topic) (filled ∪ outbound)
      ((acc.state.meshPeers topic).filter (Negative acc.state) ∪ excess) := by
    have h := ((hdrop.trans hfill (by simp)).trans hremove (by simpa using hdisjoint)).trans hout
      (by simp)
    simpa using h
  refine ⟨filled, excess, outbound, chosen, hbefore, hchoose, ?_, ?_, ?_, ?_, ?_, ?_, ?_, ?_, ?_, ?_⟩
  · intro p hp
    rw [← hmesh1, ← hdrop.accepted_iff]
    exact ⟨(hfilled p hp).1.notMem, (hfilled p hp).2⟩
  · intro hle hfault
    have hfault2 := hremove.sticky (hout.sticky (hchoose.sticky hfault))
    rw [hdrop.config] at henough
    rw [card_union_of_disjoint hfilledNew, ← hmesh1]
    refine (henough hle hfault2).imp_right (fun hall p hp => ?_)
    by_cases hmem : p ∈ acc₁.state.meshPeers topic
    · exact mem_union_left _ hmem
    · exact mem_union_right _ (hall p (hdrop.spare_of_eligible hp hmem)
        (hdrop.accepted_iff.mpr hp.accepted))
  · intro p hp
    have hmem := hexcess hp
    rw [hmesh2] at hmem
    exact (mem_union.mp hmem).resolve_right (disjoint_right.mp hdisjoint hp)
  · intro hne
    have hempty := hfilledExcess hne
    have hlow := (hexcessLow hne).2
    rw [hmesh2, hempty, union_empty, hfill.config, hdrop.config] at hlow
    exact ⟨hempty, hlow⟩
  · intro hex
    have hempty := hfilledExcess (hex.imp (fun _ => And.left))
    rw [hmesh2, hempty, union_empty, hfill.config, hdrop.config, hfill.outboundPeers,
      hdrop.outboundPeers] at hexcessOut
    exact hexcessOut hex
  · intro hnone hfault
    have hfault3 := hout.sticky (hchoose.sticky hfault)
    rw [hmesh2, hfill.config, hdrop.config, hfill.outboundPeers, hdrop.outboundPeers]
      at hexcessHigh
    exact hexcessHigh hnone hn hfault3
  · intro p hp
    obtain ⟨hspare, haccepted, hpout⟩ := houtbound p hp
    rw [hremove.accepted_iff, hfill.accepted_iff, hdrop.accepted_iff] at haccepted
    rw [hremove.outboundPeers, hfill.outboundPeers, hdrop.outboundPeers] at hpout
    exact ⟨hmesh3 ▸ hspare.notMem, haccepted, hpout⟩
  · intro hne
    have hfew := houtboundFew hne
    rw [hmesh3, hremove.outboundPeers, hfill.outboundPeers, hdrop.outboundPeers, hremove.config,
      hfill.config, hdrop.config] at hfew
    exact hfew
  · exact fun p hp => (hchosen p hp).notMem
  · rw [hbefore.config] at hchosenFew
    exact hchosenFew

variable {filled excess outbound chosen : Finset PeerId}

theorem Parts.regrafted_eq (h : Parts now acc topic filled excess outbound chosen) :
    acc.regrafted now topic = chosen ∩ acc.state.meshPeers topic := by
  have hdiff : (maintainTopic now acc topic).state.meshPeers topic \
      (acc.beforeOpportunistic now topic).state.meshPeers topic = chosen := by
    rw [h.after.mesh, if_pos rfl, sdiff_empty]
    exact union_sdiff_cancel_left (disjoint_right.mpr h.chosen_spare)
  delta regrafted
  rw [hdiff]

/-- What joins the mesh of the topic was not in it before, but for the peers that are brought back
after their removal. -/
theorem exists_turnover [LawfulScoreArith R] (now : Instant) (acc : HeartbeatAcc P R F D)
    (topic : TopicHash) (hn : acc.state.config.meshN ≤ acc.state.config.meshNHigh) :
    ∃ added removed, Change now topic acc (maintainTopic now acc topic) added removed ∧
      (∀ p ∈ removed, p ∈ acc.state.meshPeers topic) ∧
      (∀ p, p ∈ acc.regrafted now topic ↔ p ∈ added ∧ p ∈ acc.state.meshPeers topic) ∧
      ∀ p ∈ acc.regrafted now topic, p ∈ removed := by
  obtain ⟨filled, excess, outbound, chosen, h⟩ := exists_parts now acc topic hn
  have hwhole := h.before.trans h.after (disjoint_empty_right _)
  rw [union_empty] at hwhole
  refine ⟨_, _, hwhole, fun p hp => ?_, fun p => ?_, fun p hp => ?_⟩
  · rcases mem_union.mp hp with hp | hp
    · exact (mem_filter.mp hp).1
    · exact (mem_sdiff.mp (h.excess_subset hp)).1
  · have hold : p ∈ filled ∪ outbound → p ∉ acc.state.meshPeers topic := by
      intro hp hmem
      have hkept : Accepted acc.state p → p ∈ acc.kept topic := by
        intro haccepted
        refine mem_sdiff.mpr ⟨hmem, fun hneg => ?_⟩
        exact not_accepted_of_negative (mem_filter.mp hneg).2 haccepted
      rcases mem_union.mp hp with hp | hp
      · obtain ⟨hnot, haccepted⟩ := h.filled_spare p hp
        exact hnot (hkept haccepted)
      · obtain ⟨hnot, haccepted, hpout⟩ := h.outbound_spare p hp
        -- an outbound peer that was removed as excess has left enough others behind
        by_cases hpexcess : p ∈ excess
        · have hfew := h.outbound_few ⟨p, hp⟩
          have hmany := h.excess_outbound ⟨p, hpexcess, hpout⟩
          rw [(h.excess_low ⟨p, hpexcess⟩).1, union_empty] at hfew
          omega
        · exact hnot (mem_sdiff.mpr ⟨mem_union_left _ (hkept haccepted), hpexcess⟩)
    rw [h.regrafted_eq, mem_inter, mem_union]
    tauto
  · rw [h.regrafted_eq] at hp
    obtain ⟨hchosen, hmem⟩ := mem_inter.mp hp
    have hnot := h.chosen_spare p hchosen
    rw [h.before.mesh, if_pos rfl, mem_union, mem_sdiff] at hnot
    by_contra hremoved
    exact hnot (.inl ⟨hmem, hremoved⟩)

theorem Parts.mesh_before (h : Parts now acc topic filled excess outbound chosen) :
    (acc.beforeOpportunistic now topic).state.meshPeers topic =
      (acc.kept topic ∪ filled) \ excess ∪ outbound := by
  have hfilled : filled \ excess = filled := by
    by_cases hne : excess.Nonempty
    · rw [(h.excess_low hne).1, empty_sdiff]
    · rw [not_nonempty_iff_eq_empty.mp hne, sdiff_empty]
  rw [h.before.mesh, if_pos rfl, union_sdiff_distrib, hfilled, kept, sdiff_sdiff, union_assoc]
  rfl

theorem card_maintainTopic_le (hn : acc.state.config.meshN ≤ acc.state.config.meshNHigh)
    (hout : acc.state.outboundPeers = ∅)
    (hfault : (maintainTopic now acc topic).state.fault = none) :
    ((maintainTopic now acc topic).state.meshPeers topic).card ≤
      acc.state.config.meshNHigh + acc.state.config.opportunisticGraftPeers := by
  obtain ⟨filled, excess, outbound, chosen, h⟩ := exists_parts now acc topic hn
  have houtbound : outbound = ∅ := by
    refine eq_empty_of_forall_notMem (fun p hp => ?_)
    have hpout := (h.outbound_spare p hp).2.2
    rw [hout] at hpout
    exact notMem_empty p hpout
  have hhigh := h.excess_high hout hfault
  have hmesh : (maintainTopic now acc topic).state.meshPeers topic =
      (acc.kept topic ∪ filled) \ excess ∪ chosen := by
    rw [h.after.mesh, if_pos rfl, h.mesh_before, houtbound, union_empty, sdiff_empty]
  calc ((maintainTopic now acc topic).state.meshPeers topic).card
      = ((acc.kept topic ∪ filled) \ excess ∪ chosen).card := by rw [hmesh]
    _ ≤ ((acc.kept topic ∪ filled) \ excess).card + chosen.card := card_union_le _ _
    _ ≤ acc.state.config.meshNHigh + acc.state.config.opportunisticGraftPeers :=
        Nat.add_le_add hhigh h.chosen_few

theorem low_or_mem_maintainTopic (hlow : acc.state.config.meshNLow ≤ acc.state.config.meshN)
    (hn : acc.state.config.meshN ≤ acc.state.config.meshNHigh)
    (hfault : (maintainTopic now acc topic).state.fault = none) :
    acc.state.config.meshNLow ≤ ((maintainTopic now acc topic).state.meshPeers topic).card ∨
      ∀ p, Eligible acc.state topic p → p ∈ (maintainTopic now acc topic).state.meshPeers topic := by
  obtain ⟨filled, excess, outbound, chosen, h⟩ := exists_parts now acc topic hn
  have hmesh : (acc.kept topic ∪ filled) \ excess ⊆
      (maintainTopic now acc topic).state.meshPeers topic := by
    rw [h.after.mesh, if_pos rfl, h.mesh_before, sdiff_empty, union_assoc]
    exact subset_union_left
  have henough := h.filled_enough hlow hfault
  generalize (maintainTopic now acc topic).state.meshPeers topic = mesh at hmesh ⊢
  by_cases hne : excess.Nonempty
  · obtain ⟨hempty, hmany⟩ := h.excess_low hne
    rw [hempty, union_empty] at hmesh
    exact .inl (hlow.trans (hmany.trans (card_le_card hmesh)))
  · rw [not_nonempty_iff_eq_empty.mp hne, sdiff_empty] at hmesh
    refine henough.imp ?_ ?_
    · exact fun hcard => hcard.trans (card_le_card hmesh)
    · exact fun hall p hp => hmesh (hall p hp)

theorem foldl_of_notMem (now : Instant) (h : topic ∉ topics) (acc : HeartbeatAcc P R F D)
    (hn : acc.state.config.meshN ≤ acc.state.config.meshNHigh) :
    (topics.foldl (maintainTopic now) acc).state.meshPeers topic = acc.state.meshPeers topic ∧
      ((topics.foldl (maintainTopic now) acc).state.fault = none → acc.state.fault = none) ∧
      ∀ p : PeerId, (topic ∈ (topics.foldl (maintainTopic now) acc).toGraft[p]?.getD [] ↔
          topic ∈ acc.toGraft[p]?.getD []) ∧
        (topic ∈ (topics.foldl (maintainTopic now) acc).toPrune[p]?.getD [] ↔
          topic ∈ acc.toPrune[p]?.getD []) := by
  induction topics generalizing acc with
  | nil => exact ⟨rfl, id, fun _ => ⟨Iff.rfl, Iff.rfl⟩⟩
  | cons t topics ih =>
    obtain ⟨htopic, hrest⟩ := not_or.mp (fun h' => h (List.mem_cons.mpr h'))
    obtain ⟨filled, excess, outbound, chosen, hparts⟩ := exists_parts now acc t hn
    have hchange := hparts.before.trans hparts.after (disjoint_empty_right _)
    rw [List.foldl_cons]
    generalize HeartbeatAcc.maintainTopic now acc t = acc' at hchange ⊢
    have hn' : acc'.state.config.meshN ≤ acc'.state.config.meshNHigh := by
      rw [hchange.config]
      exact hn
    obtain ⟨hmesh, hfault, hnotes⟩ := ih hrest acc' hn'
    refine ⟨?_, fun h => hchange.sticky (hfault h), fun p => ?_⟩
    · rw [hmesh, hchange.mesh, if_neg htopic]
    · rw [(hnotes p).1, (hnotes p).2, hchange.grafts, hchange.prunes]
      simp [htopic]

/-- A topic has its turn in a state that differs from the first only in what the maintenance
changes, and its mesh stays as it is then. -/
theorem exists_turn (now : Instant) (hnodup : topics.Nodup) (htopic : topic ∈ topics)
    (acc : HeartbeatAcc P R F D) (hn : acc.state.config.meshN ≤ acc.state.config.meshNHigh) :
    ∃ acc' : HeartbeatAcc P R F D, acc'.state = { acc.state with
        mesh := acc'.state.mesh
        rng := acc'.state.rng
        trace := acc'.state.trace
        fault := acc'.state.fault } ∧
      (topics.foldl (maintainTopic now) acc).state.meshPeers topic =
        (maintainTopic now acc' topic).state.meshPeers topic ∧
      ((topics.foldl (maintainTopic now) acc).state.fault = none →
        (maintainTopic now acc' topic).state.fault = none) := by
  induction topics generalizing acc with
  | nil => cases htopic
  | cons t topics ih =>
    obtain ⟨ht, hnodup⟩ := List.nodup_cons.mp hnodup
    obtain ⟨filled, excess, outbound, chosen, hparts⟩ := exists_parts now acc t hn
    have hchange := hparts.before.trans hparts.after (disjoint_empty_right _)
    have hn' : (maintainTopic now acc t).state.config.meshN ≤
        (maintainTopic now acc t).state.config.meshNHigh := by
      rw [hchange.config]
      exact hn
    rw [List.foldl_cons]
    rcases List.mem_cons.mp htopic with rfl | htopic
    · obtain ⟨hmesh, hfault, -⟩ := foldl_of_notMem now ht _ hn'
      exact ⟨acc, rfl, hmesh, hfault⟩
    · generalize HeartbeatAcc.maintainTopic now acc t = acc₁ at hchange hn' ⊢
      obtain ⟨acc', hframe, hrest⟩ := ih hnodup htopic acc₁ hn'
      exact ⟨acc', hframe.trans (by rw [hchange.frame]), hrest⟩

end Scored

/-! ## All topics -/

variable {s : Gossipsub P R F D}

/-- The maintenance has changed nothing but the meshes, and has put nothing but new members of
them on the record. -/
structure Upkept (now : Instant) (s : Gossipsub P R F D) (acc : HeartbeatAcc P R F D) : Prop where
  frame : acc.state = { s with
    mesh := acc.state.mesh
    rng := acc.state.rng
    trace := acc.state.trace
    fault := acc.state.fault }
  links : ∃ l, acc.state.trace = s.trace ++ l ∧ ∀ e ∈ l, ∃ t p, e = (now, .link t p)
  keys : ∀ t, t ∈ acc.state.mesh ↔ t ∈ s.mesh
  disturbs : Disturbs s.config s.fault acc.state.fault
  clear : ∀ p, ∀ t ∈ acc.toGraft[p]?.getD [], s.Clear now t p
  moves : ∀ strict, Refines strict now s acc.state

theorem Upkept.sticky (h : acc.Upkept now s) (hfault : acc.state.fault = none) : s.fault = none :=
  h.disturbs.sticky hfault

theorem Upkept.change {acc' : HeartbeatAcc P R F D} {added removed : Finset PeerId}
    (h : acc.Upkept now s) (htopic : topic ∈ s.mesh) (h' : Change now topic acc acc' added removed) :
    acc'.Upkept now s where
  frame := h'.frame.trans (by rw [h.frame])
  links := by
    obtain ⟨l, hl, hlinks⟩ := h.links
    obtain ⟨l', hl', hlinks'⟩ := h'.links
    refine ⟨l ++ l', by rw [hl', hl, List.append_assoc], fun e he => ?_⟩
    rcases List.mem_append.mp he with he | he
    · exact hlinks e he
    · exact ⟨topic, hlinks' e he⟩
  keys t := (h'.keys ((h.keys topic).mpr htopic) t).trans (h.keys t)
  disturbs := by
    have hconfig : acc.state.config = s.config := by rw [h.frame]
    have hdisturbs := h'.disturbs
    rw [hconfig] at hdisturbs
    exact h.disturbs.trans hdisturbs
  clear p t ht := by
    rcases (h'.grafts t p).mp ht with ht | ⟨rfl, hp⟩
    · exact h.clear p t ht
    · exact (h'.clear p hp).congr (by rw [h.frame])
  moves strict := (h.moves strict).trans (h'.moves strict)

section Scored

variable [ScoreArith R] [PeerScoring P R]

theorem Upkept.maintainTopic (h : acc.Upkept now s) (htopic : topic ∈ s.mesh) :
    (maintainTopic now acc topic).Upkept now s := by
  have hdrop := h.change htopic change_dropNegative
  obtain ⟨_, hfill, -⟩ := change_addLow now (acc.dropNegative topic) topic
  have hlow := hdrop.change htopic hfill
  obtain ⟨_, hremove, -⟩ := change_removeHigh now ((acc.dropNegative topic).addLow now topic) topic
  have hhigh := hlow.change htopic hremove
  obtain ⟨_, hadd, -⟩ :=
    change_addOutbound now (((acc.dropNegative topic).addLow now topic).removeHigh topic) topic
  have hout := hhigh.change htopic hadd
  obtain ⟨_, hchoose, -⟩ := change_opportunisticGraft now
    ((((acc.dropNegative topic).addLow now topic).removeHigh topic).addOutbound now topic) topic
  exact hout.change htopic hchoose

theorem Upkept.foldl (h : acc.Upkept now s) (htopics : ∀ t ∈ topics, t ∈ s.mesh) :
    (topics.foldl (HeartbeatAcc.maintainTopic now) acc).Upkept now s := by
  induction topics generalizing acc with
  | nil => exact h
  | cons topic topics ih =>
    rw [List.foldl_cons]
    exact ih (h.maintainTopic (htopics topic List.mem_cons_self))
      (fun t ht => htopics t (List.mem_cons_of_mem topic ht))

end Scored

end HeartbeatAcc

section Scored

variable [ScoreArith R] [PeerScoring P R]

def prepared (s : Gossipsub P R F D) (now : Instant) : Gossipsub P R F D :=
  checkExplicitPeers (applyIwantPenalties (clearCounts (s.tick.cleanBackoffs now)) now) now

def concluded (acc : HeartbeatAcc P R F D) (now : Instant) : Gossipsub P R F D :=
  let topics := gossipTopics (acc.state.maintainFanout now)
  shiftCache (flushControlPool (sendGraftPrune (emitGossip topics.2 topics.1) now acc.toGraft
    acc.toPrune acc.noPx) now)

theorem heartbeat_eq (s : Gossipsub P R F D) (now : Instant) :
    s.heartbeat now = concluded ((s.prepared now).maintainMesh now) now := rfl

theorem upkept_maintainMesh (s : Gossipsub P R F D) (now : Instant) :
    (s.maintainMesh now).Upkept now s := by
  have hstart : HeartbeatAcc.Upkept now s ⟨(s.anyOrder s.mesh.keys).2, ∅, ∅, ∅⟩ :=
    ⟨rfl, ⟨[], by simp [anyOrder, setRng]⟩, fun _ => Iff.rfl, .inl rfl, fun _ _ ht => by simp at ht,
      fun _ => .refl⟩
  exact hstart.foldl (fun t ht => TreeMap.mem_keys.mp (Rng.mem_shuffle.mp ht))

theorem exists_turn_maintainMesh (s : Gossipsub P R F D) (now : Instant) (htopic : topic ∈ s.mesh)
    (hn : s.config.meshN ≤ s.config.meshNHigh) :
    ∃ acc : HeartbeatAcc P R F D, acc.state = { s with
        mesh := acc.state.mesh
        rng := acc.state.rng
        trace := acc.state.trace
        fault := acc.state.fault } ∧
      (s.maintainMesh now).state.meshPeers topic =
        (HeartbeatAcc.maintainTopic now acc topic).state.meshPeers topic ∧
      ((s.maintainMesh now).state.fault = none →
        (HeartbeatAcc.maintainTopic now acc topic).state.fault = none) := by
  have hperm := s.rng.shuffle_perm s.mesh.keys
  have hnodup : (s.anyOrder s.mesh.keys).1.Nodup := hperm.nodup_iff.mpr TreeMap.nodup_keys
  have hmem : topic ∈ (s.anyOrder s.mesh.keys).1 :=
    hperm.mem_iff.mpr (TreeMap.mem_keys.mpr htopic)
  obtain ⟨acc, hframe, hrest⟩ := HeartbeatAcc.exists_turn now hnodup hmem
    ⟨(s.anyOrder s.mesh.keys).2, ∅, ∅, ∅⟩ hn
  exact ⟨acc, hframe, hrest⟩

theorem card_maintainMesh_le (s : Gossipsub P R F D) (now : Instant)
    (hn : s.config.meshN ≤ s.config.meshNHigh) (hout : s.outboundPeers = ∅)
    (hfault : (s.maintainMesh now).state.fault = none) (topic : TopicHash) :
    ((s.maintainMesh now).state.meshPeers topic).card ≤
      s.config.meshNHigh + s.config.opportunisticGraftPeers := by
  by_cases htopic : topic ∈ s.mesh
  · obtain ⟨acc, hframe, hmesh, hfault'⟩ := s.exists_turn_maintainMesh now htopic hn
    have hconfig : acc.state.config = s.config := by rw [hframe]
    have hout' : acc.state.outboundPeers = s.outboundPeers := by rw [hframe]
    have hn' : acc.state.config.meshN ≤ acc.state.config.meshNHigh := by
      rw [hconfig]
      exact hn
    have hcard := HeartbeatAcc.card_maintainTopic_le hn' (hout'.trans hout) (hfault' hfault)
    rw [hmesh]
    rwa [hconfig] at hcard
  · have hmem : topic ∉ (s.maintainMesh now).state.mesh :=
      fun h => htopic (((s.upkept_maintainMesh now).keys topic).mp h)
    rw [meshPeers, TreeMap.getElem?_eq_none hmem]
    exact Nat.zero_le _

end Scored

end Gossipsub

end Libp2pRs.Gossip
