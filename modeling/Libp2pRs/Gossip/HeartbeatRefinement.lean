import Libp2pRs.Gossip.Refinement

/-!
# The heartbeat refines the overlay

The mesh is changed topic by topic, and the GRAFTs and PRUNEs for the changes are made only
afterwards, peer by peer. No backoff changes in between, and a peer gets its GRAFTs before its
PRUNEs; so a peer that was chosen while it was not backed off is not backed off when its GRAFT is
made.
-/

namespace Libp2pRs.Gossip.Gossipsub

open Lib Libp2pRs.Core Std

variable {P R F D : Type} {strict : Prop} {now : Instant}
  {leaving : Set (TopicHash × PeerId)} {s : Gossipsub P R F D}

theorem refines_cleanBackoffs : Refines strict now s (s.cleanBackoffs now) := by
  unfold cleanBackoffs
  split
  · exact .refl
  · rename_i backoffs h
    refine Relation.ReflTransGen.single
      (.defer (f := fun x => backoffs.getBackoffTime x.1 x.2) (fun x b hb => ?_))
    have hb' : s.backoffs.getBackoffTime x.1 x.2 = some b := hb
    rcases BackoffStorage.getBackoffTime_heartbeat h x.1 x.2 with hsame | ⟨-, hpassed⟩
    · exact Or.inl ⟨b, hsame.trans hb', Nat.le_refl b⟩
    · exact Or.inr (Nat.le_trans (Nat.le_add_right b _) (hpassed b hb'))

/-! ## The mesh -/

theorem nodup_anyOrder : ((s.anyOrder l).1.map Prod.fst).Nodup ↔ (l.map Prod.fst).Nodup :=
  ((s.rng.shuffle_perm l).map Prod.fst).nodup_iff

theorem refines_removeFromMesh (topic : TopicHash) (peer : PeerId) :
    Refines strict now s (s.removeFromMesh topic peer) := by
  have h : (s.removeFromMesh topic peer).view (∅ \ {(topic, peer)}) =
      s.overlay.unlink {(topic, peer)} := view_removeFromMesh topic peer
  rw [Set.empty_sdiff] at h
  exact Overlay.Moves.before h (Relation.ReflTransGen.single .unlink)

namespace HeartbeatAcc

theorem mem_push :
    t ∈ (push m topic peer)[p]?.getD [] ↔ t ∈ m[p]?.getD [] ∨ t = topic ∧ p = peer := by
  unfold push
  rw [get_insert]
  by_cases hp : peer = p
  · subst hp
    simp
  · simp [hp, Ne.symm hp]

theorem mem_foldl_push {peers : List PeerId} :
    t ∈ (peers.foldl (fun m p => push m topic p) m)[p]?.getD [] ↔
      t ∈ m[p]?.getD [] ∨ t = topic ∧ p ∈ peers := by
  induction peers generalizing m with
  | nil => simp
  | cons peer peers ih =>
    rw [List.foldl_cons, ih, mem_push, List.mem_cons]
    tauto

end HeartbeatAcc

section Scored

variable [PeerScoring P R]

theorem refines_foldl_sendGraft {peer : PeerId} {topics : List TopicHash}
    (h : ∀ t ∈ topics, s.Clear now t peer) :
    Refines strict now s (topics.foldl (sendGraft now peer) s) ∧
      (topics.foldl (sendGraft now peer) s).backoffs = s.backoffs := by
  refine Overlay.Moves.foldl (v := overlay)
    (I := fun s' : Gossipsub P R F D => s'.backoffs = s.backoffs) (fun s' hs' t ht => ?_) rfl
  unfold sendGraft
  refine ⟨Overlay.Moves.after (view_modifyScore ∅ s' _) (moves_control_graft ?_), ?_⟩
  · exact (h t ht).congr (by simp [hs'])
  · simpa using hs'

variable [ScoreArith R]

/-! ## The GRAFTs and PRUNEs -/

variable {toPrune : TreeMap PeerId (List TopicHash)} {noPx : Finset PeerId}

theorem refines_sendGraftPruneTo {entry : PeerId × List TopicHash}
    (h : ∀ t ∈ entry.2, s.Clear now t entry.1) :
    Refines strict now s (sendGraftPruneTo now toPrune noPx s entry) ∧
      ∀ p ≠ entry.1, ∀ t, (sendGraftPruneTo now toPrune noPx s entry).backoffs.getBackoffTime t p =
        s.backoffs.getBackoffTime t p := by
  obtain ⟨hgrafts, hbackoffs⟩ := refines_foldl_sendGraft h
  unfold sendGraftPruneTo
  refine ⟨hgrafts.trans (Overlay.Moves.before (view_trySend _ _) (refines_makePrunes _ _ _)), ?_⟩
  intro p hp t
  rw [backoffs_trySend, getBackoffTime_makePrunes _ _ _ hp, hbackoffs]

theorem refines_foldl_sendGraftPruneTo {entries : List (PeerId × List TopicHash)}
    (hnodup : (entries.map Prod.fst).Nodup) (h : ∀ e ∈ entries, ∀ t ∈ e.2, s.Clear now t e.1) :
    Refines strict now s (entries.foldl (sendGraftPruneTo now toPrune noPx) s) := by
  induction entries generalizing s with
  | nil => exact .refl
  | cons entry entries ih =>
    obtain ⟨hmoves, hother⟩ := refines_sendGraftPruneTo (h entry List.mem_cons_self)
    obtain ⟨hfirst, hrest⟩ := List.nodup_cons.mp hnodup
    refine hmoves.trans (ih hrest (fun e he t ht => ?_))
    have hne : e.1 ≠ entry.1 := fun heq => hfirst (heq ▸ List.mem_map_of_mem he)
    exact (h e (List.mem_cons_of_mem entry he) t ht).congr (hother e.1 hne t)

theorem refines_sendGraftPrune {toGraft : TreeMap PeerId (List TopicHash)}
    (h : ∀ p, ∀ t ∈ toGraft[p]?.getD [], s.Clear now t p) :
    Refines strict now s (s.sendGraftPrune now toGraft toPrune noPx) := by
  unfold sendGraftPrune
  refine Relation.ReflTransGen.trans ?_ (Overlay.Moves.after (view_anyOrder ∅ _ (List.map _ _))
    (refines_foldl_sendGraftPruneTo ?_ ?_))
  · refine Overlay.Moves.after (view_anyOrder ∅ s toGraft.toList)
      (refines_foldl_sendGraftPruneTo ?_ ?_)
    · rw [nodup_anyOrder, TreeMap.map_fst_toList_eq_keys]
      exact TreeMap.nodup_keys
    · rintro ⟨p, topics⟩ he t ht
      refine h p t ?_
      rw [TreeMap.mem_toList_iff_getElem?_eq_some.mp (Rng.mem_shuffle.mp he)]
      exact ht
  · rw [nodup_anyOrder, List.map_map]
    exact (List.map_id _).symm ▸ TreeMap.nodup_keys.filter _
  · intro e he t ht
    obtain ⟨p, -, rfl⟩ := List.mem_map.mp (Rng.mem_shuffle.mp he)
    cases ht

end Scored

end Libp2pRs.Gossip.Gossipsub
