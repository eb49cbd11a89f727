import Libp2pRs.Gossip.Loop
import Libp2pRs.Gossip.Overlay

/-!
# Gossipsub as an overlay

`view` reads the overlay off the state of gossipsub. Each of the functions through which the
handlers change the state either leaves the view as it is or is a move of it.
-/

namespace Libp2pRs.Gossip

open Lib Libp2pRs.Core Std

/-- The event of the overlay that an output stands for. A PRUNE for a peer that speaks version
1.0 is not backed. -/
def Output.meshEvent : Output → Option (MeshEvent TopicHash PeerId)
  | .control peer _ (.graft topic) => some (.graft (topic, peer))
  | .control peer kind (.prune topic _ _) => some (.prune (topic, peer) (kind ≠ some .gossipsub))
  | .link topic peer => some (.link (topic, peer))
  | _ => none

namespace Gossipsub

variable {P R F D : Type}

/-- The overlay, with the pairs that are about to leave the mesh. -/
def view (leaving : Set (TopicHash × PeerId)) (s : Gossipsub P R F D) :
    Overlay TopicHash PeerId Instant where
  listed := pairs s.topicPeers
  announced := Set.preimage Prod.swap (pairs s.peerTopics)
  known := {p | p ∈ s.peerTopics}
  connected := {p | p ∈ s.connectedPeer}
  mesh := pairs s.mesh
  leaving := leaving
  backoff := fun x => s.backoffs.getBackoffTime x.1 x.2
  window := s.config.pruneBackoff
  trace := s.trace.filterMap (fun e => e.2.meshEvent.map (fun m => (e.1, m)))

abbrev overlay (s : Gossipsub P R F D) : Overlay TopicHash PeerId Instant := s.view ∅

/-- What a heartbeat reads and leaves as it is, with the mesh. -/
structure Roster where
  config : GossipsubConfig
  mesh : TreeMap TopicHash (Finset PeerId)
  topicPeers : TreeMap TopicHash (Finset PeerId)
  peerProtocols : TreeMap PeerId PeerKind
  explicitPeers : Finset PeerId

def roster (s : Gossipsub P R F D) : Roster where
  config := s.config
  mesh := s.mesh
  topicPeers := s.topicPeers
  peerProtocols := s.peerProtocols
  explicitPeers := s.explicitPeers

/-- The handler makes moves at the given time. -/
abbrev Refines (strict : Prop) (now : Instant) (s s' : Gossipsub P R F D) : Prop :=
  Overlay.Moves strict now s.overlay s'.overlay

section Primitives

variable {strict : Prop} {now : Instant} {leaving : Set (TopicHash × PeerId)}
  {s s' : Gossipsub P R F D}

theorem Refines.of_view (h : s'.overlay = s.overlay) : Refines strict now s s' := by
  unfold Refines
  rw [h]
  exact .refl

theorem view_foldl {α : Type} {f : Gossipsub P R F D → α → Gossipsub P R F D} {l : List α}
    (hf : ∀ (s : Gossipsub P R F D), ∀ a ∈ l, (f s a).view leaving = s.view leaving) :
    (l.foldl f s).view leaving = s.view leaving := by
  induction l generalizing s with
  | nil => rfl
  | cons a l ih =>
    exact (ih (fun s b hb => hf s b (List.mem_cons_of_mem a hb))).trans
      (hf s a List.mem_cons_self)

section Silent

variable (leaving : Set (TopicHash × PeerId)) (s : Gossipsub P R F D)

@[simp] theorem view_setRng (rng : Rng) : (s.setRng rng).view leaving = s.view leaving := rfl

@[simp] theorem view_anyOrder (l : List α) :
    (s.anyOrder l).2.view leaving = s.view leaving := rfl

@[simp] theorem view_setFilter (f : F) : (s.setFilter f).view leaving = s.view leaving := rfl

@[simp] theorem view_modifyScore (f : P → P) :
    (s.modifyScore f).view leaving = s.view leaving := rfl

@[simp] theorem view_controlPoolAdd (peer : PeerId) (action : ControlAction) :
    (s.controlPoolAdd peer action).view leaving = s.view leaving := rfl

@[simp] theorem view_dropFanout (topic : TopicHash) :
    (s.dropFanout topic).view leaving = s.view leaving := rfl

end Silent

/-! ## Outputs -/

theorem exists_emit (s : Gossipsub P R F D) (now : Instant) (o : Output) :
    ∃ trace, s.emit now o = { s with trace } := by
  unfold emit
  split
  · exact ⟨s.trace, rfl⟩
  · exact ⟨_, rfl⟩

theorem exists_emitAll (s : Gossipsub P R F D) (now : Instant) (os : List Output) :
    ∃ trace, s.emitAll now os = { s with trace } := by
  induction os generalizing s with
  | nil => exact ⟨s.trace, rfl⟩
  | cons o os ih =>
    obtain ⟨trace, h⟩ := exists_emit s now o
    obtain ⟨trace', h'⟩ := ih (s.emit now o)
    refine ⟨trace', h'.trans ?_⟩
    rw [h]

theorem permits_of_backoffs (hb : s'.backoffs = s.backoffs) (hc : s'.config = s.config)
    (h : (s.view leaving).Permits now e) :
    (s'.view leaving).Permits now e := by
  cases e <;> simpa only [Overlay.Permits, view, hb, hc] using h

theorem moves_emit
    (h : ∀ e, o.meshEvent = some e → s.panicked = false → (s.view leaving).Permits now e) :
    Overlay.Moves strict now (s.view leaving) ((s.emit now o).view leaving) := by
  unfold emit
  split
  · exact .refl
  · rename_i hp
    cases ho : o.meshEvent with
    | none =>
      have hview : view leaving { s with trace := s.trace ++ [(now, o)] } = s.view leaving := by
        simp [view, ho]
      rw [hview]
      exact .refl
    | some e =>
      have hview : view leaving { s with trace := s.trace ++ [(now, o)] } =
          (s.view leaving).record now e := by
        simp [view, ho, Overlay.record]
      rw [hview]
      exact Relation.ReflTransGen.single (.record (h e ho (Bool.eq_false_iff.mpr hp)))

theorem moves_emitAll (h : ∀ o ∈ os, ∀ e, o.meshEvent = some e → (s.view leaving).Permits now e) :
    Overlay.Moves strict now (s.view leaving) ((s.emitAll now os).view leaving) := by
  induction os generalizing s with
  | nil => exact .refl
  | cons o os ih =>
    refine (moves_emit (fun e he _ => h o List.mem_cons_self e he)).trans (ih ?_)
    intro o' ho' e he
    obtain ⟨trace, heq⟩ := exists_emit s now o
    rw [heq]
    exact permits_of_backoffs rfl rfl (h o' (List.mem_cons_of_mem o ho') e he)

theorem view_emit {o : Output} (h : o.meshEvent = none) :
    (s.emit now o).view leaving = s.view leaving := by
  unfold emit
  split
  · rfl
  · simp [view, h]

theorem view_emitAll {os : List Output} (h : ∀ o ∈ os, o.meshEvent = none) :
    (s.emitAll now os).view leaving = s.view leaving :=
  view_foldl (fun _ o ho => view_emit (h o ho))

/-! ## Sending -/

@[simp] theorem view_sendMessage (peer : PeerId) (rpc : Proto.Rpc) :
    (s.sendMessage now peer rpc).2.view leaving = s.view leaving := by
  unfold sendMessage
  split
  · rfl
  · split
    · rfl
    · refine view_emitAll (fun o ho => ?_)
      obtain ⟨m, -, rfl⟩ := List.mem_map.mp ho
      rfl

@[simp] theorem view_trySend (peer : PeerId) (rpc : GossipsubRpc) :
    (s.trySend now peer rpc).view leaving = s.view leaving :=
  view_sendMessage peer _

theorem sendAll_snd (now : Instant) (rpc : Proto.Rpc) (peers : List PeerId)
    (s : Gossipsub P R F D) :
    (sendAll now rpc s peers).2 = peers.foldl (fun s p => (s.sendMessage now p rpc).2) s := by
  induction peers generalizing s with
  | nil => rfl
  | cons peer peers ih =>
    unfold sendAll
    dsimp only
    split
    case h_1 e he =>
      have hfails : ∀ p, (s.sendMessage now p rpc).2 = s := by
        intro p
        unfold sendMessage at he ⊢
        split at he
        · rfl
        · split at he <;> cases he
      rw [List.foldl_fixed' hfails]
      exact hfails peer
    case h_2 => exact ih _

@[simp] theorem view_sendAll (rpc : Proto.Rpc) (peers : List PeerId) :
    (sendAll now rpc s peers).2.view leaving = s.view leaving := by
  rw [sendAll_snd]
  exact view_foldl (fun _ p _ => view_sendMessage p rpc)

theorem view_pxConnect (px : List PeerInfo) :
    (s.pxConnect now px).view leaving = s.view leaving := by
  have hdial : ∀ (s' : Gossipsub P R F D) (peers : List PeerId),
      (peers.foldl (fun s p => emit { s with pxPeers := insert p s.pxPeers } now (.dial p))
        s').view leaving = s'.view leaving :=
    fun s' peers => view_foldl (fun _ _ _ => view_emit rfl)
  unfold pxConnect
  rw [hdial]
  split <;> rfl

theorem exists_sendMessage (s : Gossipsub P R F D) (now : Instant) (peer : PeerId)
    (rpc : Proto.Rpc) : ∃ trace, (s.sendMessage now peer rpc).2 = { s with trace } := by
  unfold sendMessage
  split
  · exact ⟨s.trace, rfl⟩
  · split
    · exact ⟨s.trace, rfl⟩
    · exact exists_emitAll s now _

theorem exists_dispatch (now : Instant) (rpc : Proto.Rpc) (peers : List PeerId)
    (s : Gossipsub P R F D) :
    ∃ trace, peers.foldl (fun s p => (s.sendMessage now p rpc).2) s = { s with trace } := by
  induction peers generalizing s with
  | nil => exact ⟨s.trace, rfl⟩
  | cons peer peers ih =>
    obtain ⟨trace, hsend⟩ := exists_sendMessage s now peer rpc
    obtain ⟨trace', h⟩ := ih (s.sendMessage now peer rpc).2
    refine ⟨trace', h.trans ?_⟩
    rw [hsend]

theorem exists_sendAll (now : Instant) (rpc : Proto.Rpc) (peers : List PeerId)
    (s : Gossipsub P R F D) : ∃ trace, (sendAll now rpc s peers).2 = { s with trace } := by
  rw [sendAll_snd]
  exact exists_dispatch now rpc peers s

/-! ## The mesh -/

theorem view_link (topic : TopicHash) (peers : Finset PeerId) :
    view leaving { s with mesh := s.mesh.alter topic (fun m => some (m.getD ∅ ∪ peers)) } =
      (s.view leaving).link {x | x.1 = topic ∧ x.2 ∈ peers} := by
  simp only [view, Overlay.link]
  rw [pairs_alter_union]

variable {topic : TopicHash}

theorem moves_addToMesh (hlisted : ∀ p ∈ peers, p ∈ s.topicPeers[topic]?.getD ∅ ∨
      (strict → topic ∈ s.peerTopics[p]?.getD ∅))
    (hclear : ∀ p ∈ peers, ∀ b, s.backoffs.getBackoffTime topic p = some b → b ≤ now) :
    Overlay.Moves strict now (s.view leaving) ((s.addToMesh now topic peers).view leaving) := by
  have hlink : Overlay.Move strict now (s.view leaving)
      ((s.view leaving).link {x | x.1 = topic ∧ x.2 ∈ peers}) := by
    refine .link ?_ ?_
    · rintro ⟨t, p⟩ ⟨rfl, hp⟩
      exact hlisted p hp
    · rintro ⟨t, p⟩ ⟨rfl, hp⟩
      exact hclear p hp
  rw [← view_link] at hlink
  refine Relation.ReflTransGen.head hlink (moves_emitAll (fun o ho e he => ?_))
  obtain ⟨p, hp, rfl⟩ := List.mem_map.mp ho
  cases he
  exact hclear p (mem_sorted.mp hp)

theorem exists_addToMesh (s : Gossipsub P R F D) (now : Instant) (topic : TopicHash)
    (peers : Finset PeerId) :
    ∃ trace, s.addToMesh now topic peers =
      { s with mesh := s.mesh.alter topic (fun m => some (m.getD ∅ ∪ peers)), trace } :=
  exists_emitAll _ now _

theorem view_dropMesh (topic : TopicHash) :
    (s.dropMesh topic).overlay = s.overlay.unlink {x | x.1 = topic} := by
  simp only [view, Overlay.unlink, dropMesh, Set.empty_sdiff]
  rw [pairs_erase]

theorem view_removeFromMesh (topic : TopicHash) (peer : PeerId) :
    (s.removeFromMesh topic peer).view (leaving \ {(topic, peer)}) =
      (s.view leaving).unlink {(topic, peer)} := by
  simp only [view, Overlay.unlink, removeFromMesh]
  rw [pairs_modify_erase]

variable {peer : PeerId}

theorem view_of_notMem_mesh (h : peer ∉ s.meshPeers topic) :
    s.view (leaving \ {(topic, peer)}) = (s.view leaving).unlink {(topic, peer)} := by
  have hmesh : pairs s.mesh \ {(topic, peer)} = pairs s.mesh := Set.sdiff_singleton_eq_self h
  simp only [view, Overlay.unlink]
  rw [hmesh]

/-! ## The subscriptions -/

theorem preimage_swap_insert (t : TopicHash) (p : PeerId) (X : Set (PeerId × TopicHash)) :
    Set.preimage Prod.swap (insert (p, t) X) = insert (t, p) (Set.preimage Prod.swap X) := by
  ext ⟨a, b⟩
  simp [and_comm]

theorem preimage_swap_sdiff (t : TopicHash) (p : PeerId) (X : Set (PeerId × TopicHash)) :
    Set.preimage Prod.swap (X \ {(p, t)}) = Set.preimage Prod.swap X \ {(t, p)} := by
  ext ⟨a, b⟩
  simp [and_comm]

theorem view_addSubscription (h : peer ∈ s.peerTopics) :
    (s.addSubscription peer topic).view leaving = (s.view leaving).subscribe (topic, peer) := by
  simp only [view, Overlay.subscribe, addSubscription]
  rw [pairs_alter_insert, pairs_modify_insert h, preimage_swap_insert, setOf_mem_modify]

theorem view_removeSubscription (topic : TopicHash) (peer : PeerId) :
    (s.removeSubscription peer topic).view (insert (topic, peer) leaving) =
      (s.view leaving).unsubscribe (topic, peer) := by
  simp only [view, Overlay.unsubscribe, removeSubscription]
  rw [pairs_alter_erase, pairs_modify_erase, preimage_swap_sdiff, setOf_mem_modify]

/-! ## The backoffs -/

theorem exists_updateBackoff (s : Gossipsub P R F D) (now : Instant) (topic : TopicHash)
    (peer : PeerId) (time : Duration) :
    ∃ backoffs fault, s.updateBackoff now topic peer time = { s with backoffs, fault } := by
  unfold updateBackoff
  split
  · exact ⟨s.backoffs, _, rfl⟩
  · exact ⟨_, s.fault, rfl⟩

theorem moves_updateBackoff (topic : TopicHash) (peer : PeerId) (time : Duration) :
    Overlay.Moves strict now (s.view leaving)
      ((s.updateBackoff now topic peer time).view leaving) := by
  unfold updateBackoff
  split
  · exact .refl
  · rename_i backoffs h
    refine Relation.ReflTransGen.single
      (.defer (f := fun x => backoffs.getBackoffTime x.1 x.2) (fun x b hb => Or.inl ?_))
    dsimp only
    rw [BackoffStorage.getBackoffTime_updateBackoff h]
    have hb' : s.backoffs.getBackoffTime x.1 x.2 = some b := hb
    split
    · refine ⟨_, rfl, ?_⟩
      rw [hb']
      exact le_max_left b _
    · exact ⟨b, hb', Nat.le_refl b⟩

theorem covered_updateBackoff (h : (s.updateBackoff now topic peer time).panicked = false) :
    ∃ b, (s.updateBackoff now topic peer time).backoffs.getBackoffTime topic peer = some b ∧
      now + time ≤ b := by
  unfold updateBackoff at h ⊢
  split
  · rename_i hnone
    rw [hnone] at h
    cases h
  · rename_i backoffs hsome
    refine ⟨_, (BackoffStorage.getBackoffTime_updateBackoff hsome topic peer).trans
      (if_pos ⟨rfl, rfl⟩), le_max_right _ _⟩

theorem getBackoffTime_updateBackoff_of_ne (time : Duration) (t : TopicHash) (hp : p ≠ peer) :
    (s.updateBackoff now topic peer time).backoffs.getBackoffTime t p =
      s.backoffs.getBackoffTime t p := by
  unfold updateBackoff
  split
  · rfl
  · rename_i backoffs h
    exact (BackoffStorage.getBackoffTime_updateBackoff h t p).trans
      (if_neg (fun heq => hp heq.2.symm))

end Primitives

end Gossipsub

end Libp2pRs.Gossip
