import Libp2pRs.Lib.Moves

/-!
# The overlay: subscriptions, mesh and backoffs

What a node keeps about its place in the overlay network, apart from how it keeps it: which peers
are listed under a topic, which topics a peer has announced, who is in the mesh of a topic, and
until when a pair of a topic and a peer is backed off. A `Move` is the smallest change that a
handler may make, with the condition under which it may make it; `Moves` is any number of them at
one reading of the clock.
-/

namespace Libp2pRs.Gossip

variable {Topic Peer Time : Type*}

/-- What happens to a pair of a topic and a peer. A PRUNE is backed when a backoff is recorded
with it. -/
inductive MeshEvent (Topic Peer : Type*) where
  | graft (x : Topic × Peer)
  | link (x : Topic × Peer)
  | prune (x : Topic × Peer) (backed : Bool)

structure Overlay (Topic Peer Time : Type*) where
  /-- The subscriptions by topic. -/
  listed : Set (Topic × Peer)
  /-- The subscriptions by peer. -/
  announced : Set (Topic × Peer)
  /-- The peers with an entry in the index by peer. -/
  known : Set Peer
  connected : Set Peer
  mesh : Set (Topic × Peer)
  /-- The pairs whose subscription has just ended, until they leave the mesh. -/
  leaving : Set (Topic × Peer)
  backoff : Topic × Peer → Option Time
  /-- The length of a backoff. -/
  window : Time
  trace : List (Time × MeshEvent Topic Peer)

namespace Overlay

def empty (window : Time) : Overlay Topic Peer Time where
  listed := ∅
  announced := ∅
  known := ∅
  connected := ∅
  mesh := ∅
  leaving := ∅
  backoff := fun _ => none
  window
  trace := []

/-! ## Changes -/

def connect (o : Overlay Topic Peer Time) (p : Peer) : Overlay Topic Peer Time :=
  { o with
    announced := o.announced \ {x | x.2 = p}
    known := insert p o.known
    connected := insert p o.connected }

def forget (o : Overlay Topic Peer Time) (X : Set (Topic × Peer)) : Overlay Topic Peer Time :=
  { o with listed := o.listed \ X, mesh := o.mesh \ X }

/-- The peer is forgotten under the topics that it has announced. -/
def disconnect (o : Overlay Topic Peer Time) (p : Peer) : Overlay Topic Peer Time :=
  { o.forget {x | x ∈ o.announced ∧ x.2 = p} with
    announced := o.announced \ {x | x.2 = p}
    known := o.known \ {p}
    connected := o.connected \ {p} }

theorem forget_forget (o : Overlay Topic Peer Time) (X Y : Set (Topic × Peer)) :
    (o.forget X).forget Y = o.forget (X ∪ Y) := by
  simp only [forget, Set.sdiff_sdiff]

def subscribe (o : Overlay Topic Peer Time) (x : Topic × Peer) : Overlay Topic Peer Time :=
  { o with listed := insert x o.listed, announced := insert x o.announced }

def unsubscribe (o : Overlay Topic Peer Time) (x : Topic × Peer) : Overlay Topic Peer Time :=
  { o with
    listed := o.listed \ {x}
    announced := o.announced \ {x}
    leaving := insert x o.leaving }

def link (o : Overlay Topic Peer Time) (X : Set (Topic × Peer)) : Overlay Topic Peer Time :=
  { o with mesh := o.mesh ∪ X }

def unlink (o : Overlay Topic Peer Time) (X : Set (Topic × Peer)) : Overlay Topic Peer Time :=
  { o with mesh := o.mesh \ X, leaving := o.leaving \ X }

def record (o : Overlay Topic Peer Time) (now : Time) (e : MeshEvent Topic Peer) :
    Overlay Topic Peer Time :=
  { o with trace := o.trace ++ [(now, e)] }

/-! ## The subscriptions and the mesh -/

def Inverse (o : Overlay Topic Peer Time) : Prop := o.listed = o.announced

/-- A connection keeps the indexes inverse exactly when the peer has announced nothing. -/
theorem inverse_connect_iff {o : Overlay Topic Peer Time} (ho : o.Inverse) :
    (o.connect p).Inverse ↔ ∀ x ∈ o.announced, x.2 ≠ p := by
  constructor
  · intro h x hx hxp
    have hmem : x ∈ (o.connect p).announced := h ▸ (ho ▸ hx : x ∈ o.listed)
    exact hmem.2 hxp
  · intro h
    refine ho.trans (Set.ext fun x => ⟨fun hx => ⟨hx, h x hx⟩, fun hx => hx.1⟩)

/-- The mesh consists of connected peers that have announced the topic, but for the pairs that
are about to leave it. -/
structure Coherent (o : Overlay Topic Peer Time) : Prop where
  listed_subset : o.listed ⊆ o.announced
  mesh_subset : o.mesh ⊆ o.announced ∪ o.leaving
  connected_eq : o.connected = o.known
  known_of_announced : ∀ x ∈ o.announced, x.2 ∈ o.known

theorem coherent_empty (window : Time) : (empty window : Overlay Topic Peer Time).Coherent :=
  ⟨Set.Subset.rfl, Set.empty_subset _, rfl, fun _ hx => hx.elim⟩

theorem Coherent.connect {o : Overlay Topic Peer Time} (ho : o.Coherent)
    (hp : ∀ x ∈ o.announced, x.2 ≠ p) : (o.connect p).Coherent := by
  have hsame : (o.connect p).announced = o.announced :=
    Set.ext fun x => ⟨fun hx => hx.1, fun hx => ⟨hx, hp x hx⟩⟩
  refine ⟨?_, ?_, congrArg (insert p) ho.connected_eq, fun x hx => ?_⟩
  · rw [hsame]
    exact ho.listed_subset
  · rw [hsame]
    exact ho.mesh_subset
  · exact .inr (ho.known_of_announced x hx.1)

/-! ## Moves -/

section Moves

variable [Preorder Time] [Add Time]

/-- When an event may happen: a GRAFT and a link when no backoff is running, a backed PRUNE when
the backoff covers the window. -/
def Permits (o : Overlay Topic Peer Time) (now : Time) : MeshEvent Topic Peer → Prop
  | .graft x => ∀ b, o.backoff x = some b → b ≤ now
  | .link x => ∀ b, o.backoff x = some b → b ≤ now
  | .prune x backed => backed → ∃ b, o.backoff x = some b ∧ now + o.window ≤ b

/-- The new backoffs forget or lower an old one only when it has passed. -/
def Defers (o : Overlay Topic Peer Time) (now : Time) (f : Topic × Peer → Option Time) : Prop :=
  ∀ x b, o.backoff x = some b → (∃ b', f x = some b' ∧ b ≤ b') ∨ b ≤ now

/-- One change of a handler. A link is made when no backoff is running. When `strict` holds, a
peer that is linked without being listed has announced the topic. -/
inductive Move (strict : Prop) (now : Time) :
    Overlay Topic Peer Time → Overlay Topic Peer Time → Prop
  | subscribe {o : Overlay Topic Peer Time} {x : Topic × Peer} (h : x.2 ∈ o.known) :
    Move strict now o (o.subscribe x)
  | unsubscribe {o : Overlay Topic Peer Time} {x : Topic × Peer} :
    Move strict now o (o.unsubscribe x)
  | disconnect {o : Overlay Topic Peer Time} {p : Peer} : Move strict now o (o.disconnect p)
  | link {o : Overlay Topic Peer Time} {X : Set (Topic × Peer)}
    (h : ∀ x ∈ X, x ∈ o.listed ∨ (strict → x ∈ o.announced))
    (hclear : ∀ x ∈ X, o.Permits now (.link x)) : Move strict now o (o.link X)
  | unlink {o : Overlay Topic Peer Time} {X : Set (Topic × Peer)} :
    Move strict now o (o.unlink X)
  | defer {o : Overlay Topic Peer Time} {f : Topic × Peer → Option Time} (h : o.Defers now f) :
    Move strict now o { o with backoff := f }
  | record {o : Overlay Topic Peer Time} {e : MeshEvent Topic Peer} (h : o.Permits now e) :
    Move strict now o (o.record now e)

def Moves (strict : Prop) (now : Time) :
    Overlay Topic Peer Time → Overlay Topic Peer Time → Prop :=
  Relation.ReflTransGen (Move strict now)

variable {strict : Prop} {now : Time} {o o' : Overlay Topic Peer Time}

/-- The invariant rule for moves. -/
theorem Moves.preserve {I : Overlay Topic Peer Time → Prop}
    (hmove : ∀ a b, Move strict now a b → I a → I b) (h : Moves strict now o o') (ho : I o) :
    I o' :=
  Lib.Moves.preserve hmove h ho

theorem Moves.after (h : o = o₀) (hm : Moves strict now o o') : Moves strict now o₀ o' :=
  h ▸ hm

theorem Moves.before (h : o₁ = o') (hm : Moves strict now o o') : Moves strict now o o₁ :=
  h ▸ hm

theorem Moves.foldl {v : σ → Overlay Topic Peer Time} {I : σ → Prop} {l : List α}
    (hf : ∀ s, I s → ∀ a ∈ l, Moves strict now (v s) (v (f s a)) ∧ I (f s a))
    (hs : I s) : Moves strict now (v s) (v (l.foldl f s)) ∧ I (l.foldl f s) :=
  Lib.Moves.foldl_of hf hs

/-! ## What moves preserve -/

theorem Inverse.move (h : Move strict now o o') (ho : o.Inverse) : o'.Inverse := by
  unfold Inverse at ho ⊢
  cases h with
  | subscribe _ => exact congrArg (insert _) ho
  | unsubscribe => exact congrArg (· \ _) ho
  | disconnect =>
    ext x
    simp only [Overlay.disconnect, Overlay.forget, ho, Set.mem_sdiff, Set.mem_ofPred_eq]
    tauto
  | link _ _ | unlink | defer _ | record _ => exact ho

theorem Coherent.move (hstrict : strict) (h : Move strict now o o') (ho : o.Coherent) :
    o'.Coherent := by
  cases h with
  | @subscribe x hx =>
    refine ⟨Set.insert_subset_insert ho.listed_subset, fun y hy => ?_, ho.connected_eq, ?_⟩
    · exact (ho.mesh_subset hy).imp_left .inr
    · rintro y (rfl | hy)
      · exact hx
      · exact ho.known_of_announced y hy
  | @unsubscribe x =>
    refine ⟨Set.sdiff_subset_sdiff_left ho.listed_subset, fun y hy => ?_, ho.connected_eq,
      fun y hy => ho.known_of_announced y hy.1⟩
    by_cases hyx : y = x
    · exact .inr (.inl hyx)
    · exact (ho.mesh_subset hy).imp (fun h => ⟨h, hyx⟩) .inr
  | @disconnect p =>
    refine ⟨fun y hy => ?_, fun y hy => ?_, congrArg (· \ _) ho.connected_eq, fun y hy => ?_⟩
    · have hann := ho.listed_subset hy.1
      exact ⟨hann, fun hp => hy.2 ⟨hann, hp⟩⟩
    · exact (ho.mesh_subset hy.1).imp_left (fun hann => ⟨hann, fun hp => hy.2 ⟨hann, hp⟩⟩)
    · exact ⟨ho.known_of_announced y hy.1, hy.2⟩
  | @link X hX _ =>
    refine ⟨ho.listed_subset, ?_, ho.connected_eq, ho.known_of_announced⟩
    rintro y (hy | hy)
    · exact ho.mesh_subset hy
    · exact .inl ((hX y hy).elim (fun h => ho.listed_subset h) (fun h => h hstrict))
  | unlink =>
    refine ⟨ho.listed_subset, fun y hy => ?_, ho.connected_eq, ho.known_of_announced⟩
    exact (ho.mesh_subset hy.1).imp_right (fun h => ⟨h, hy.2⟩)
  | defer _ | record _ =>
    exact ⟨ho.listed_subset, ho.mesh_subset, ho.connected_eq, ho.known_of_announced⟩

/-! ## The backoffs -/

/-- After a backed PRUNE of a pair, a GRAFT or a link of the pair is at least the window later. -/
def Separated (window : Time) (earlier later : Time × MeshEvent Topic Peer) : Prop :=
  ∀ x, earlier.2 = .prune x true → later.2 = .graft x ∨ later.2 = .link x →
    earlier.1 + window ≤ later.1

/-- The events keep their distance, and the window of every backed PRUNE is over or covered by
the backoff of the pair. -/
structure BackedOff (now : Time) (o : Overlay Topic Peer Time) : Prop where
  separated : o.trace.Pairwise (Separated o.window)
  covered : ∀ s x, (s, .prune x true) ∈ o.trace →
    s + o.window ≤ now ∨ ∃ b, o.backoff x = some b ∧ s + o.window ≤ b

theorem backedOff_empty (window : Time) : (empty window : Overlay Topic Peer Time).BackedOff now :=
  ⟨List.Pairwise.nil, fun _ _ h => absurd h List.not_mem_nil⟩

theorem BackedOff.later (hle : now ≤ now') (ho : o.BackedOff now) : o.BackedOff now' :=
  ⟨ho.separated, fun s x h => (ho.covered s x h).imp_left (fun hs => hs.trans hle)⟩

theorem BackedOff.over (ho : o.BackedOff now)
    (hs : (s, .prune x true) ∈ o.trace) (hx : ∀ b, o.backoff x = some b → b ≤ now) :
    s + o.window ≤ now := by
  rcases ho.covered s x hs with h | ⟨b, hb, h⟩
  · exact h
  · exact h.trans (hx b hb)

theorem BackedOff.record (ho : o.BackedOff now)
    (he : o.Permits now e) : (o.record now e).BackedOff now := by
  constructor
  · refine List.pairwise_append.mpr ⟨ho.separated, List.pairwise_singleton _ _, ?_⟩
    rintro ⟨s, e'⟩ hs _ hlast x rfl hlater
    cases List.mem_singleton.mp hlast
    rcases hlater with rfl | rfl
    · exact ho.over hs he
    · exact ho.over hs he
  · intro s x hmem
    rcases List.mem_append.mp hmem with hs | hlast
    · exact ho.covered s x hs
    · cases List.mem_singleton.mp hlast
      exact .inr (he rfl)

theorem BackedOff.move (h : Move strict now o o') (ho : o.BackedOff now) : o'.BackedOff now := by
  cases h with
  | subscribe _ | unsubscribe | disconnect | link _ _ | unlink => exact ⟨ho.separated, ho.covered⟩
  | @defer f hf =>
    refine ⟨ho.separated, fun s x hs => ?_⟩
    rcases ho.covered s x hs with h | ⟨b, hb, h⟩
    · exact .inl h
    · rcases hf x b hb with ⟨b', hb', hle⟩ | hle
      · exact .inr ⟨b', hb', h.trans hle⟩
      · exact .inl (h.trans hle)
  | record he => exact ho.record he

/-- What has become of an earlier overlay: its events are still there, and a pair that has joined
the mesh since then was not within the window of one of its PRUNEs. -/
structure Since (now : Time) (o o' : Overlay Topic Peer Time) : Prop where
  window_eq : o'.window = o.window
  trace_subset : o.trace ⊆ o'.trace
  mesh : ∀ x ∈ o'.mesh, x ∈ o.mesh ∨ ∀ s, (s, .prune x true) ∈ o.trace → s + o.window ≤ now

theorem Since.move {o₀ : Overlay Topic Peer Time} (h : Move strict now o o')
    (ho : o.BackedOff now) (hs : Since now o₀ o) : Since now o₀ o' := by
  cases h with
  | subscribe _ | unsubscribe => exact ⟨hs.window_eq, hs.trace_subset, hs.mesh⟩
  | disconnect => exact ⟨hs.window_eq, hs.trace_subset, fun x hx => hs.mesh x hx.1⟩
  | @link X _ hclear =>
    refine ⟨hs.window_eq, hs.trace_subset, fun x hx => ?_⟩
    rcases hx with hx | hx
    · exact hs.mesh x hx
    · exact .inr (fun t ht => hs.window_eq ▸ ho.over (hs.trace_subset ht) (hclear x hx))
  | unlink => exact ⟨hs.window_eq, hs.trace_subset, fun x hx => hs.mesh x hx.1⟩
  | defer _ => exact ⟨hs.window_eq, hs.trace_subset, hs.mesh⟩
  | record _ =>
    exact ⟨hs.window_eq, List.Subset.trans hs.trace_subset (List.subset_append_left _ _), hs.mesh⟩

theorem BackedOff.moves (h : Moves strict now o o') (ho : o.BackedOff now) :
    o'.BackedOff now ∧ Since now o o' := by
  refine h.preserve (I := fun b => b.BackedOff now ∧ Since now o b) (fun a b hab ha => ?_)
    ⟨ho, rfl, List.Subset.refl _, fun x hx => .inl hx⟩
  exact ⟨ha.1.move hab, ha.2.move hab ha.1⟩

end Moves

end Overlay

end Libp2pRs.Gossip
