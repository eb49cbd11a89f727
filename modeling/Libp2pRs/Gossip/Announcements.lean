import Libp2pRs.Gossip.Membership

/-!
# The GRAFTs and PRUNEs of a heartbeat

A heartbeat changes the mesh first and announces the changes afterwards, from the lists of the
peers that it has noted. The two agree as long as opportunistic grafting does not bring back a peer
that the same heartbeat has removed: such a peer gets a GRAFT and a PRUNE for the topic.
-/

namespace Libp2pRs.Gossip

open Lib Libp2pRs.Core Std List

inductive Notice where
  | graft (topic : TopicHash) (peer : PeerId)
  | prune (topic : TopicHash) (peer : PeerId)
  deriving DecidableEq

def Output.notice : Output → Option Notice
  | .control peer _ (.graft topic) => some (.graft topic peer)
  | .control peer _ (.prune topic _ _) => some (.prune topic peer)
  | _ => none

namespace Gossipsub

variable {P R F D : Type}

theorem meshPeers_of_roster {s s' : Gossipsub P R F D} (h : s'.roster = s.roster) (t : TopicHash) :
    s'.meshPeers t = s.meshPeers t := by
  have hmesh : s'.mesh = s.mesh := congrArg Roster.mesh h
  rw [meshPeers, meshPeers, hmesh]

/-- A part of a handler that leaves the mesh and makes the given GRAFTs and PRUNEs, unless it
panics. -/
structure Announces (s s' : Gossipsub P R F D) (notices : Set Notice) : Prop where
  roster : s'.roster = s.roster
  sticky : s'.fault = none → s.fault = none
  trace : s'.fault = none → ∃ l, s'.trace = s.trace ++ l ∧
    ∀ a, (∃ e ∈ l, e.2.notice = some a) ↔ a ∈ notices

namespace Announces

variable {s s' s'' : Gossipsub P R F D} {notices notices' : Set Notice}

theorem quiet (hroster : s'.roster = s.roster) (hfault : s'.fault = none → s.fault = none)
    (htrace : s'.trace = s.trace) : Announces s s' ∅ :=
  ⟨hroster, hfault, fun _ => ⟨[], by simp [htrace]⟩⟩

theorem refl : Announces s s ∅ := quiet rfl id rfl

theorem trans (h : Announces s s' notices) (h' : Announces s' s'' notices') :
    Announces s s'' (notices ∪ notices') := by
  refine ⟨h'.roster.trans h.roster, fun hf => h.sticky (h'.sticky hf), fun hf => ?_⟩
  obtain ⟨l, hl, hnotices⟩ := h.trace (h'.sticky hf)
  obtain ⟨l', hl', hnotices'⟩ := h'.trace hf
  refine ⟨l ++ l', by rw [hl', hl, append_assoc], fun a => ?_⟩
  rw [Set.mem_union, ← hnotices, ← hnotices']
  simp only [mem_append, or_and_right, exists_or]

theorem after (h : Announces s s' ∅) (h' : Announces s' s'' notices) : Announces s s'' notices := by
  rw [← Set.empty_union notices]
  exact h.trans h'

theorem before (h : Announces s s' notices) (h' : Announces s' s'' ∅) : Announces s s'' notices := by
  rw [← Set.union_empty notices]
  exact h.trans h'

theorem foldl {α : Type} {f : Gossipsub P R F D → α → Gossipsub P R F D} {A : α → Set Notice}
    {l : List α} (hf : ∀ (s : Gossipsub P R F D), ∀ a ∈ l, Announces s (f s a) (A a)) :
    Announces s (l.foldl f s) {n | ∃ a ∈ l, n ∈ A a} := by
  induction l generalizing s with
  | nil =>
    have hempty : {n | ∃ a ∈ ([] : List α), n ∈ A a} = ∅ := by simp
    rw [hempty]
    exact refl
  | cons a l ih =>
    have hsplit : {n | ∃ b ∈ a :: l, n ∈ A b} = A a ∪ {n | ∃ b ∈ l, n ∈ A b} := by
      ext n
      simp
    rw [hsplit]
    exact (hf s a mem_cons_self).trans (ih (fun s b hb => hf s b (mem_cons_of_mem a hb)))

theorem foldl_quiet {α : Type} {f : Gossipsub P R F D → α → Gossipsub P R F D} {l : List α}
    (hf : ∀ (s : Gossipsub P R F D), ∀ a ∈ l, Announces s (f s a) ∅) :
    Announces s (l.foldl f s) ∅ := by
  have h := foldl (s := s) hf
  simpa using h

end Announces

section Parts

variable {now : Instant} {s : Gossipsub P R F D}

theorem announces_emit (o : Output) : Announces s (s.emit now o) {a | o.notice = some a} := by
  obtain ⟨trace, h⟩ := exists_emit s now o
  refine ⟨by rw [h]; rfl, by rw [h]; exact id, fun hf => ?_⟩
  have hfault : s.fault = none := by
    rw [h] at hf
    exact hf
  refine ⟨[(now, o)], ?_, fun a => by simp⟩
  simp [emit, panicked, hfault]

theorem announces_emit_of_none {o : Output} (h : o.notice = none) :
    Announces s (s.emit now o) ∅ := by
  simpa [h] using (announces_emit o : Announces s (s.emit now o) _)

theorem announces_emit_of_some (h : o.notice = some a) : Announces s (s.emit now o) {a} := by
  simpa [h, eq_comm] using (announces_emit o : Announces s (s.emit now o) _)

theorem Conducts.announces (h : Conducts .messages now s s') : Announces s s' ∅ := by
  refine ⟨h.still.2, Tracked.Effects.sticky h, fun _ => ?_⟩
  obtain ⟨l, hl⟩ := h.trace_prefix
  have hevents := congrArg Overlay.trace h.still.1
  simp only [view, ← hl, filterMap_append, append_right_eq_self,
    filterMap_eq_nil_iff, Option.map_eq_none_iff] at hevents
  refine ⟨l, hl.symm, fun a => ⟨?_, False.elim⟩⟩
  rintro ⟨⟨time, o⟩, he, ho⟩
  have hnone : o.meshEvent = none := hevents _ he
  cases o with
  | control peer kind action =>
    cases action with
    | graft | prune => cases hnone
    | _ => cases ho
  | _ => cases ho

theorem announces_trySend (peer : PeerId) (rpc : GossipsubRpc) :
    Announces s (s.trySend now peer rpc) ∅ := by
  unfold trySend sendMessage
  split
  · exact Announces.refl
  · split
    · exact Announces.refl
    · refine Announces.foldl_quiet (fun s' o ho => announces_emit_of_none ?_)
      obtain ⟨m, -, rfl⟩ := mem_map.mp ho
      rfl

theorem announces_setRng (rng : Rng) : Announces s (s.setRng rng) ∅ := Announces.quiet rfl id rfl

theorem announces_anyOrder {α : Type} (l : List α) : Announces s (s.anyOrder l).2 ∅ :=
  Announces.quiet rfl id rfl

theorem announces_updateBackoff (topic : TopicHash) (peer : PeerId) (time : Duration) :
    Announces s (s.updateBackoff now topic peer time) ∅ := by
  unfold updateBackoff
  split
  · exact .quiet rfl (fun h => by cases h) rfl
  · exact Announces.quiet rfl id rfl

theorem announces_modifyScore (f : P → P) : Announces s (s.modifyScore f) ∅ :=
  Announces.quiet rfl id rfl

section Scored

variable [PeerScoring P R]

theorem announces_prepare : Announces s (s.prepared now) ∅ := by
  have hclean : Announces s (s.tick.cleanBackoffs now).clearCounts ∅ := by
    unfold cleanBackoffs
    split
    · exact .quiet rfl (fun h => by cases h) rfl
    · exact .quiet rfl id rfl
  exact hclean.after conducts_penalties.announces

theorem announces_sendGraft (peer : PeerId) (topic : TopicHash) :
    Announces s (sendGraft now peer s topic) {.graft topic peer} := by
  exact (announces_modifyScore (PeerScoring.graft peer topic)).after (announces_emit_of_some rfl)

variable [ScoreArith R]

/-! ## The GRAFTs and PRUNEs that have been noted -/

theorem announces_makePrune (topic : TopicHash) (peer : PeerId) (doPx : Bool) :
    Announces s (s.makePrune now topic peer doPx).2 {.prune topic peer} := by
  have hcontrol : ∀ (s' : Gossipsub P R F D) (px : List PeerInfo) (backoff : Option Nat),
      Announces s' (s'.control now peer (.prune topic px backoff)) {.prune topic peer} :=
    fun _ _ _ => announces_emit_of_some rfl
  unfold makePrune
  dsimp only
  refine (announces_modifyScore (PeerScoring.prune peer topic)).after ?_
  generalize s.modifyScore (PeerScoring.prune peer topic) = s₁
  split
  · exact hcontrol _ _ _
  · have hupdate : Announces s₁ (s₁.updateBackoff now topic peer s₁.config.pruneBackoff) ∅ :=
      announces_updateBackoff _ _ _
    exact hupdate.after ((announces_setRng _).after (hcontrol _ _ _))

theorem announces_makePrunes (peer : PeerId) (doPx : Bool) (topics : List TopicHash) :
    Announces s (makePrunes now peer doPx s topics).2 {a | ∃ t ∈ topics, a = .prune t peer} := by
  induction topics generalizing s with
  | nil =>
    have hempty : {a | ∃ t ∈ ([] : List TopicHash), a = Notice.prune t peer} = ∅ := by simp
    rw [hempty]
    exact Announces.refl
  | cons topic topics ih =>
    have hsplit : {a | ∃ t ∈ topic :: topics, a = Notice.prune t peer} =
        {.prune topic peer} ∪ {a | ∃ t ∈ topics, a = Notice.prune t peer} := by
      ext a
      simp
    rw [hsplit]
    exact (announces_makePrune topic peer doPx).trans ih

def noticesTo (peer : PeerId) (grafts prunes : List TopicHash) : Set Notice :=
  {a | (∃ t ∈ grafts, a = .graft t peer) ∨ ∃ t ∈ prunes, a = .prune t peer}

theorem announces_sendGraftPruneTo (toPrune : TreeMap PeerId (List TopicHash))
    (noPx : Finset PeerId) (entry : PeerId × List TopicHash) :
    Announces s (sendGraftPruneTo now toPrune noPx s entry)
      (noticesTo entry.1 entry.2 (toPrune[entry.1]?.getD [])) := by
  have hgrafts : Announces s (entry.2.foldl (sendGraft now entry.1) s)
      {a | ∃ t ∈ entry.2, a ∈ ({.graft t entry.1} : Set Notice)} :=
    Announces.foldl (fun _ t _ => announces_sendGraft entry.1 t)
  exact (hgrafts.trans (announces_makePrunes _ _ _)).before (announces_trySend _ _)

theorem announces_sendGraftPrune (toGraft toPrune : TreeMap PeerId (List TopicHash))
    (noPx : Finset PeerId) :
    Announces s (s.sendGraftPrune now toGraft toPrune noPx)
      {a | ∃ p, a ∈ noticesTo p (toGraft[p]?.getD []) (toPrune[p]?.getD [])} := by
  unfold sendGraftPrune
  dsimp only
  have hsend : ∀ (s : Gossipsub P R F D) (l : List (PeerId × List TopicHash)),
      Announces s ((s.anyOrder l).1.foldl (sendGraftPruneTo now toPrune noPx) (s.anyOrder l).2)
        {a | ∃ e ∈ (s.anyOrder l).1, a ∈ noticesTo e.1 e.2 (toPrune[e.1]?.getD [])} :=
    fun s l => (announces_anyOrder l).after
      (Announces.foldl (fun _ e _ => announces_sendGraftPruneTo _ _ e))
  have h₁ := hsend s toGraft.toList
  generalize hfirst : s.anyOrder toGraft.toList = grafts at h₁ ⊢
  generalize grafts.1.foldl (sendGraftPruneTo now toPrune noPx) grafts.2 = s₁ at h₁ ⊢
  have h₂ := hsend s₁ ((toPrune.keys.filter (fun p => !toGraft.contains p)).map (fun p => (p, [])))
  generalize hsecond : s₁.anyOrder _ = prunes at h₂ ⊢
  have hset : {a | ∃ p, a ∈ noticesTo p (toGraft[p]?.getD []) (toPrune[p]?.getD [])} =
      {a | ∃ e ∈ grafts.1, a ∈ noticesTo e.1 e.2 (toPrune[e.1]?.getD [])} ∪
        {a | ∃ e ∈ prunes.1, a ∈ noticesTo e.1 e.2 (toPrune[e.1]?.getD [])} := by
    have hmem₁ : ∀ p topics, (p, topics) ∈ grafts.1 ↔ toGraft[p]? = some topics := by
      intro p topics
      rw [← hfirst]
      exact Rng.mem_shuffle.trans TreeMap.mem_toList_iff_getElem?_eq_some
    have hmem₂ : ∀ p topics, (p, topics) ∈ prunes.1 ↔ topics = [] ∧ p ∈ toPrune ∧ p ∉ toGraft := by
      intro p topics
      rw [← hsecond]
      refine Rng.mem_shuffle.trans ?_
      simp only [mem_map, mem_filter, TreeMap.mem_keys, Prod.mk.injEq,
        Bool.not_eq_true_eq_eq_false, Bool.eq_false_iff, ne_eq, TreeMap.contains_iff_mem]
      constructor
      · rintro ⟨q, ⟨hprune, hgraft⟩, rfl, rfl⟩
        exact ⟨rfl, hprune, hgraft⟩
      · rintro ⟨rfl, hprune, hgraft⟩
        exact ⟨p, ⟨hprune, hgraft⟩, rfl, rfl⟩
    ext a
    simp only [Set.mem_union, Set.mem_ofPred_eq, Prod.exists, hmem₁, hmem₂]
    constructor
    · rintro ⟨p, ha⟩
      cases hp : toGraft[p]? with
      | some topics =>
        rw [hp] at ha
        exact Or.inl ⟨p, topics, hp, ha⟩
      | none =>
        rw [hp] at ha
        have hpGraft : p ∉ toGraft := by
          rw [TreeMap.mem_iff_isSome_getElem?, hp]
          simp
        have hpPrune : p ∈ toPrune := by
          by_contra hnone
          simp [TreeMap.getElem?_eq_none hnone, noticesTo] at ha
        exact Or.inr ⟨p, [], ⟨rfl, hpPrune, hpGraft⟩, ha⟩
    · rintro (⟨p, topics, hp, ha⟩ | ⟨p, topics, ⟨rfl, -, hp⟩, ha⟩)
      · exact ⟨p, by rwa [hp]⟩
      · exact ⟨p, by rwa [TreeMap.getElem?_eq_none hp]⟩
  rw [hset]
  exact h₁.trans h₂

end Scored

end Parts

/-! ## The notes and the meshes -/

namespace HeartbeatAcc

variable [ScoreArith R] [PeerScoring P R] {now : Instant} {s : Gossipsub P R F D}
  {acc : HeartbeatAcc P R F D}

def Announced (s : Gossipsub P R F D) (acc : HeartbeatAcc P R F D) : Prop :=
  ∀ t p, (t ∈ acc.toGraft[p]?.getD [] ↔ p ∈ acc.state.meshPeers t ∧ p ∉ s.meshPeers t) ∧
    (t ∈ acc.toPrune[p]?.getD [] ↔ p ∈ s.meshPeers t ∧ p ∉ acc.state.meshPeers t)

variable [LawfulScoreArith R] {topic : TopicHash}

/-- The difference after a turnover of which no part undoes another: `M` says that a peer was in the
mesh, `A` that it is added and `E` that it is removed. -/
theorem notes_of_disjoint (hT : T) (hadded : A → ¬ M) (hremoved : E → M) :
    ((M ∧ ¬ M ∨ T ∧ A) ↔ (M ∧ ¬ E ∨ A) ∧ ¬ M) ∧ ((M ∧ ¬ M ∨ T ∧ E) ↔ M ∧ ¬ (M ∧ ¬ E ∨ A)) := by
  tauto

theorem Announced.maintainTopic (h : Announced s acc)
    (hn : acc.state.config.meshN ≤ acc.state.config.meshNHigh)
    (hfresh : acc.state.meshPeers topic = s.meshPeers topic)
    (hnone : acc.BringsNobodyBack now topic) : Announced s (maintainTopic now acc topic) := by
  obtain ⟨added, removed, hchange, hremoved, hadded, -⟩ := exists_turnover now acc topic hn
  rw [BringsNobodyBack] at hnone
  rw [hnone] at hadded
  generalize HeartbeatAcc.maintainTopic now acc topic = acc' at hchange ⊢
  intro t p
  rw [hchange.grafts, hchange.prunes, hchange.mesh, (h t p).1, (h t p).2]
  by_cases ht : t = topic
  · subst ht
    have hnew : p ∈ added → p ∉ acc.state.meshPeers t := fun hp hmem =>
      Finset.notMem_empty p ((hadded p).mpr ⟨hp, hmem⟩)
    rw [if_pos rfl, ← hfresh, Finset.mem_union, Finset.mem_sdiff]
    exact notes_of_disjoint rfl hnew (hremoved p)
  · rw [if_neg ht]
    simp [ht]

theorem notes_of_mem_regrafted (hn : acc.state.config.meshN ≤ acc.state.config.meshNHigh)
    (hp : p ∈ acc.regrafted now topic) :
    topic ∈ (maintainTopic now acc topic).toGraft[p]?.getD [] ∧
      topic ∈ (maintainTopic now acc topic).toPrune[p]?.getD [] := by
  obtain ⟨added, removed, hchange, -, hadded, hsub⟩ := exists_turnover now acc topic hn
  rw [hchange.grafts, hchange.prunes]
  exact ⟨Or.inr ⟨rfl, ((hadded p).mp hp).1⟩, Or.inr ⟨rfl, hsub p hp⟩⟩

/-- The notes of a whole heartbeat are the difference of the meshes exactly if no peer is brought
back. -/
theorem announced_foldl_iff (hnodup : topics.Nodup)
    (h : Announced s acc) (hn : acc.state.config.meshN ≤ acc.state.config.meshNHigh)
    (hfresh : ∀ t ∈ topics, acc.state.meshPeers t = s.meshPeers t) :
    Announced s (topics.foldl (HeartbeatAcc.maintainTopic now) acc) ↔
      EachStep (HeartbeatAcc.maintainTopic now) (BringsNobodyBack now) acc topics := by
  induction topics generalizing acc with
  | nil => exact ⟨fun _ => trivial, fun _ => h⟩
  | cons t topics ih =>
    obtain ⟨ht, hnodup⟩ := nodup_cons.mp hnodup
    obtain ⟨added, removed, hchange, -⟩ := exists_turnover now acc t hn
    have hn' : (HeartbeatAcc.maintainTopic now acc t).state.config.meshN ≤
        (HeartbeatAcc.maintainTopic now acc t).state.config.meshNHigh := by
      rw [hchange.config]
      exact hn
    rw [foldl_cons, EachStep]
    by_cases hnone : acc.BringsNobodyBack now t
    · have hnext := h.maintainTopic hn (hfresh t mem_cons_self) hnone
      rw [ih hnodup hnext hn']
      · exact (and_iff_right hnone).symm
      · intro t' ht'
        have hne : t' ≠ t := fun heq => ht (heq ▸ ht')
        rw [hchange.mesh, if_neg hne]
        exact hfresh t' (mem_cons_of_mem t ht')
    · refine iff_of_false (fun hannounced => ?_) (fun hstep => hnone hstep.1)
      -- the peer is noted for a GRAFT and for a PRUNE to the end
      obtain ⟨p, hp⟩ := Finset.nonempty_iff_ne_empty.mpr hnone
      obtain ⟨hgraft, hprune⟩ := notes_of_mem_regrafted hn hp
      obtain ⟨-, -, hnotes⟩ := foldl_of_notMem now ht _ hn'
      rw [← (hnotes p).1, (hannounced t p).1] at hgraft
      rw [← (hnotes p).2, (hannounced t p).2] at hprune
      exact hgraft.2 hprune.1

end HeartbeatAcc

/-! ## The heartbeat -/

section Heartbeat

variable [ScoreArith R] [PeerScoring P R]

theorem announces_concluded (acc : HeartbeatAcc P R F D) (now : Instant) :
    Announces acc.state (concluded acc now)
      {a | ∃ p, a ∈ noticesTo p (acc.toGraft[p]?.getD []) (acc.toPrune[p]?.getD [])} := by
  have hgossip : Conducts .messages now acc.state _ := conducts_gossip (fun _ _ => trivial)
  exact hgossip.announces.after ((announces_sendGraftPrune _ _ _).before
    (conducts_flush (fun _ _ _ _ _ => trivial)).announces)

def heartbeatNotices (s : Gossipsub P R F D) (now : Instant) : List Notice :=
  ((s.heartbeat now).trace.drop s.trace.length).filterMap (fun e => e.2.notice)

theorem mem_heartbeatNotices {s : Gossipsub P R F D} {now : Instant}
    (hfault : (s.heartbeat now).fault = none) (a : Notice) :
    a ∈ s.heartbeatNotices now ↔
      ∃ p, a ∈ noticesTo p (((s.prepared now).maintainMesh now).toGraft[p]?.getD [])
        (((s.prepared now).maintainMesh now).toPrune[p]?.getD []) := by
  have hprepare : Announces s (s.prepared now) ∅ := announces_prepare
  have hconclude := announces_concluded ((s.prepared now).maintainMesh now) now
  have hmesh := upkept_maintainMesh (s.prepared now) now
  unfold heartbeatNotices
  rw [heartbeat_eq] at hfault ⊢
  generalize (s.prepared now).maintainMesh now = acc at hconclude hmesh hfault ⊢
  have hfault' := hmesh.sticky (hconclude.sticky hfault)
  obtain ⟨l₁, hl₁, hnone₁⟩ := hprepare.trace hfault'
  obtain ⟨l₂, hl₂, hlinks⟩ := hmesh.links
  obtain ⟨l₃, hl₃, hnotices⟩ := hconclude.trace hfault
  rw [hl₃, hl₂, hl₁, append_assoc, append_assoc, drop_left, mem_filterMap]
  have hmem := hnotices a
  rw [Set.mem_ofPred_eq] at hmem
  rw [← hmem]
  constructor
  · rintro ⟨e, he, ha⟩
    rcases mem_append.mp he with he | he
    · exact absurd ((hnone₁ a).mp ⟨e, he, ha⟩) (Set.notMem_empty a)
    · rcases mem_append.mp he with he | he
      · obtain ⟨t, p, rfl⟩ := hlinks e he
        cases ha
      · exact ⟨e, he, ha⟩
  · rintro ⟨e, he, ha⟩
    exact ⟨e, mem_append_right _ (mem_append_right _ he), ha⟩

/-- In no topic does opportunistic grafting bring back a peer that the heartbeat has removed. -/
def bringsNobodyBack (s : Gossipsub P R F D) (now : Instant) : Prop :=
  EachStep (HeartbeatAcc.maintainTopic now) (HeartbeatAcc.BringsNobodyBack now)
    ⟨((s.prepared now).anyOrder (s.prepared now).mesh.keys).2, ∅, ∅, ∅⟩
    ((s.prepared now).anyOrder (s.prepared now).mesh.keys).1

instance (s : Gossipsub P R F D) (now : Instant) : Decidable (s.bringsNobodyBack now) :=
  EachStep.instDecidable _ _

theorem announced_maintainMesh_iff [LawfulScoreArith R] (s : Gossipsub P R F D) (now : Instant)
    (hn : s.config.meshN ≤ s.config.meshNHigh) :
    HeartbeatAcc.Announced (s.prepared now) ((s.prepared now).maintainMesh now) ↔
      s.bringsNobodyBack now := by
  have hprepare : Announces s (s.prepared now) ∅ := announces_prepare
  have hconfig : (s.prepared now).config = s.config := congrArg Roster.config hprepare.roster
  refine HeartbeatAcc.announced_foldl_iff ?_ ?_ ?_ ?_
  · exact Rng.nodup_shuffle.mpr TreeMap.nodup_keys
  · intro t p
    simp [anyOrder, setRng, meshPeers]
  · rw [← hconfig] at hn
    exact hn
  · exact fun _ _ => rfl

end Heartbeat

/-! ## A node on which scoring is active -/

abbrev ScoredNode := Gossipsub SteadyScore ℚ AllowAllSubscriptionFilter IdentityTransform

/-- Two peers per mesh, and opportunistic grafting with every heartbeat. -/
def scoredConfig : GossipsubConfig :=
  { validationMode := .anonymous
    meshOutboundMin := 1
    meshNLow := 2
    meshN := 2
    meshNHigh := 2
    retainScores := 0
    opportunisticGraftTicks := 1
    opportunisticGraftPeers := 1 }

def scoredNode : ScoredNode :=
  initial .anonymous scoredConfig ⟨⟩ ⟨⟩ ⟨fun _ => 2, 0⟩
    { backoffs := ∅
      backoffsByHeartbeat := List.replicate 62 []
      heartbeatIndex := 0
      heartbeatInterval := Duration.fromSecs 1
      backoffSlack := 1 }

theorem scoredNode_new :
    new SteadyScore ℚ .anonymous scoredConfig (⟨⟩ : AllowAllSubscriptionFilter)
      (⟨⟩ : IdentityTransform) ⟨fun _ => 2, 0⟩ = some (.ok scoredNode) := rfl

def goodPeer : PeerId := PeerId.ofByte 2

def steadyScore : SteadyScore := ⟨fun p => if p = goodPeer then 5 else 0⟩

def arrival (peer : PeerId) : List (Turn SteadyScore ℚ) :=
  [⟨0, .event (.peerKind peer .gossipsubV11)⟩,
   ⟨0, .event (.newPeer peer)⟩,
   ⟨0, .event (.message peer { subscriptions := [⟨.subscribe, sampleTopic⟩] } [])⟩]

def scoredStart : List (Turn SteadyScore ℚ) :=
  ⟨0, .call (.withPeerScore steadyScore ⟨0, 0, 0, 0, 1⟩)⟩ ::
    (arrival (PeerId.ofByte 1) ++ arrival goodPeer ++ arrival (PeerId.ofByte 3) ++
      [⟨0, .command (.subscribe sampleTopic)⟩])

example : (run step scoredNode scoredStart).meshPeers sampleTopic =
    {PeerId.ofByte 1, PeerId.ofByte 3} := by decide +kernel

end Gossipsub

end Libp2pRs.Gossip
