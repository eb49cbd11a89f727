import Libp2pRs.Gossip.Membership

/-!
# PRUNE and the time after it

A PRUNE is made by `make_prune`, when the node leaves a topic, at a heartbeat and as an answer to a
GRAFT; a GRAFT is made when the node joins a topic, for a new subscription and at a heartbeat. The
time of either is the time at which it is made. For a peer that speaks version 1.0 `make_prune`
records no backoff, and nothing keeps the node from grafting the peer again at once.
-/

namespace Libp2pRs.Gossip

open Lib Libp2pRs.Core Std

def Output.isPrune (topic : TopicHash) (peer : PeerId) : Output → Bool
  | .control p _ (.prune t _ _) => decide (t = topic ∧ p = peer)
  | _ => false

/-- The output is a GRAFT for the topic to the peer, or adds the peer to the mesh. -/
def Output.isLink (topic : TopicHash) (peer : PeerId) : Output → Bool
  | .control p _ (.graft t) => decide (t = topic ∧ p = peer)
  | .link t p => decide (t = topic ∧ p = peer)
  | _ => false

/-- The output is made for a peer that speaks version 1.0 of the protocol. -/
def Output.isOldKind : Output → Bool
  | .control _ kind _ => decide (kind = some .gossipsub)
  | _ => false

namespace Gossipsub

variable {P R F D : Type} {s : Gossipsub P R F D}

theorem meshEvent_of_isPrune {o : Output} {t : TopicHash} {p : PeerId}
    (h : o.isPrune t p = true) (hkind : o.isOldKind = false) :
    o.meshEvent = some (.prune (t, p) true) := by
  unfold Output.isPrune at h
  split at h
  · obtain ⟨rfl, rfl⟩ := of_decide_eq_true h
    have hkind' := of_decide_eq_false hkind
    simp [Output.meshEvent, hkind']
  · cases h

theorem meshEvent_of_isLink {o : Output} (h : o.isLink t p = true) :
    o.meshEvent = some (.graft (t, p)) ∨ o.meshEvent = some (.link (t, p)) := by
  unfold Output.isLink at h
  split at h
  · obtain ⟨rfl, rfl⟩ := of_decide_eq_true h
    exact .inl rfl
  · obtain ⟨rfl, rfl⟩ := of_decide_eq_true h
    exact .inr rfl
  · cases h

/-- After a PRUNE that is recorded, a GRAFT or a link of the pair is at least the window later. -/
def KeepDistance (window : Duration) (earlier later : Instant × Output) : Prop :=
  ∀ t p, earlier.2.isPrune t p = true → earlier.2.isOldKind = false →
    later.2.isLink t p = true → earlier.1 + window ≤ later.1

theorem keepDistance_of_backedOff {now : Instant} (h : s.overlay.BackedOff now) :
    s.trace.Pairwise (KeepDistance s.config.pruneBackoff) := by
  refine (List.pairwise_filterMap.mp h.separated).imp ?_
  intro earlier later hsep t p hprune hkind hlink
  have hearlier := meshEvent_of_isPrune hprune hkind
  rcases meshEvent_of_isLink hlink with hlater | hlater
  · exact hsep _ (by rw [hearlier]; rfl) _ (by rw [hlater]; rfl) (t, p) rfl (.inl rfl)
  · exact hsep _ (by rw [hearlier]; rfl) _ (by rw [hlater]; rfl) (t, p) rfl (.inr rfl)

theorem mem_overlay_trace {e : Instant × Output} (he : e ∈ s.trace)
    (hprune : e.2.isPrune t p = true) (hkind : e.2.isOldKind = false) :
    (e.1, .prune (t, p) true) ∈ s.overlay.trace := by
  refine List.mem_filterMap.mpr ⟨e, he, ?_⟩
  rw [meshEvent_of_isPrune hprune hkind]
  rfl

section Loop

variable [ScoreArith R] [PeerScoring P R] [TopicSubscriptionFilter F] [DataTransform D]

theorem backedOff_step (hs : s.overlay.BackedOff now) (hle : now ≤ turn.now) :
    (s.step turn).overlay.BackedOff turn.now ∧
      Overlay.Since turn.now s.overlay (s.step turn).overlay := by
  cases h : s.connecting turn with
  | none =>
    have hmoves : Refines False turn.now s (s.step turn) := refines_step h False.elim
    exact (hs.later hle).moves hmoves
  | some p =>
    rw [overlay_step_of_connecting h]
    have hlater := hs.later hle
    exact ⟨⟨hlater.separated, hlater.covered⟩, ⟨rfl, List.Subset.refl _, fun _ hx => .inl hx⟩⟩

/-- The peers that a turn adds to the mesh are not within the window of a PRUNE from before. -/
def LinksAfter (window : Duration) (s : Gossipsub P R F D) (turn : Turn P R) : Prop :=
  ∀ t p, p ∉ s.meshPeers t → p ∈ (s.step turn).meshPeers t →
    ∀ e ∈ s.trace, e.2.isPrune t p = true → e.2.isOldKind = false → e.1 + window ≤ turn.now

theorem backedOff_run (hs : s.overlay.BackedOff now) (hwindow : s.config.pruneBackoff = window)
    (hclock : (now :: turns.map Turn.now).Pairwise (· ≤ ·)) :
    (run step s turns).trace.Pairwise (KeepDistance window) ∧
      EachStep step (LinksAfter window) s turns := by
  induction turns generalizing s now with
  | nil => exact ⟨hwindow ▸ keepDistance_of_backedOff hs, trivial⟩
  | cons turn turns ih =>
    obtain ⟨hnow, hclock'⟩ := List.pairwise_cons.mp hclock
    obtain ⟨hback, hsince⟩ := backedOff_step hs (hnow _ List.mem_cons_self)
    obtain ⟨htrace, hsteps⟩ := ih hback (hsince.window_eq.trans hwindow) hclock'
    refine ⟨htrace, ?_, hsteps⟩
    intro t p hout hin e he hprune hkind
    rw [← hwindow]
    exact (hsince.mesh (t, p) hin).resolve_left hout e.1 (mem_overlay_trace he hprune hkind)

end Loop

/-- The peer is in the mesh of a topic that the node leaves and joins again soon after. -/
def sampleRejoin (kind : PeerKind) : List (Turn Empty ℚ) :=
  ⟨0, .event (.peerKind samplePeer kind)⟩ :: ⟨0, .command (.subscribe sampleTopic)⟩ ::
    (sampleJoin ++
      [⟨1, .command (.unsubscribed sampleTopic)⟩, ⟨2, .command .heartbeat⟩,
       ⟨3, .command (.subscribe sampleTopic)⟩, ⟨4, .command .heartbeat⟩])

end Gossipsub

end Libp2pRs.Gossip
