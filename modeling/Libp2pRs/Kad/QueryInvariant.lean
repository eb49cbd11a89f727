import Libp2pRs.Kad.Query

/-!
# What every run of an iterative query maintains

The jobs that are out and the updates in the channel are the peers in state `Waiting`, each
once. From this the loop never has more than `alpha` peers waiting, never waits with nothing
outstanding, and never asks a peer twice.

The argument is about one round. Handling an update takes its peer out of `Waiting`
(`mem_waitingPeers_handled`), starting jobs moves peers from `NotContacted` to `Waiting`
(`mem_waitingPeers_spawn`), and between the two the loop ends unless a peer is left to wait
for or to contact.
-/

namespace Libp2pRs.Kad

open Lib Libp2pRs.Core List SortedMap

variable {p : PeerId} {n : Nat} {states : PeerState → Prop}

namespace ClosestPeers

variable {sha256 : List UInt8 → KeyBytes} {cp : ClosestPeers}

def Filed (sha256 : List UInt8 → KeyBytes) (cp : ClosestPeers) : Prop :=
  ∀ e ∈ cp.closestPeers.entries, e.1 = cp.distance sha256 e.2.peer.nodeId

def Has (cp : ClosestPeers) (states : PeerState → Prop) (p : PeerId) : Prop :=
  ∃ e ∈ cp.closestPeers.entries, e.2.peer.nodeId = p ∧ states e.2.state

def waitingPeers (cp : ClosestPeers) : List PeerId :=
  (cp.closestPeers.values.filter (fun p => p.state = .waiting)).map (fun p => p.peer.nodeId)

theorem length_waitingPeers : cp.waitingPeers.length = cp.numOfState .waiting := by
  simp [waitingPeers, numOfState]

theorem mem_waitingPeers : p ∈ cp.waitingPeers ↔ cp.Has (· = .waiting) p := by
  simp only [waitingPeers, mem_map, mem_filter, values, decide_eq_true_eq, Has]
  constructor
  · rintro ⟨pw, ⟨⟨e, he, rfl⟩, hw⟩, hp⟩
    exact ⟨e, he, hp, hw⟩
  · rintro ⟨e, he, hp, hw⟩
    exact ⟨e.2, ⟨⟨e, he, rfl⟩, hw⟩, hp⟩

variable {e : Distance × PeerWithState}

theorem Filed.entry_unique (h : cp.Filed sha256)
    (he : e ∈ cp.closestPeers.entries) (hf : f ∈ cp.closestPeers.entries)
    (hpeer : e.2.peer.nodeId = f.2.peer.nodeId) : e = f := by
  have hkey : e.1 = f.1 := by rw [h e he, h f hf, hpeer]
  obtain ⟨d, v⟩ := e
  obtain ⟨d', w⟩ := f
  obtain rfl : d = d' := hkey
  rw [value_unique he hf]

theorem Filed.nodup_ids (h : cp.Filed sha256) {l : List (Distance × PeerWithState)}
    (hl : l.Sublist cp.closestPeers.entries) : (l.map (fun e => e.2.peer.nodeId)).Nodup := by
  rw [List.Nodup, pairwise_map]
  refine (cp.closestPeers.sorted.sublist hl).imp_of_mem ?_
  intro e f he hf hlt hpeer
  exact absurd (h.entry_unique (hl.subset he) (hl.subset hf) hpeer ▸ hlt) (lt_irrefl _)

theorem Filed.waitingPeers_nodup (h : cp.Filed sha256) : cp.waitingPeers.Nodup := by
  rw [waitingPeers, values, filter_map, map_map]
  exact h.nodup_ids filter_sublist

theorem Filed.length_eq (h : cp.Filed sha256) {l : List PeerId} (hl : l.Nodup)
    (hmem : ∀ p, p ∈ l ↔ p ∈ cp.waitingPeers) : l.length = cp.numOfState .waiting := by
  rw [← length_waitingPeers]
  exact ((perm_ext_iff_of_nodup hl h.waitingPeers_nodup).mpr hmem).length_eq

/-! ## Adding peers -/

theorem mem_addPeer : e ∈ (cp.addPeer sha256 peer).closestPeers.entries ↔
      e ∈ cp.closestPeers.entries ∨ (e = (cp.distance sha256 peer.nodeId, .new peer) ∧
          cp.distance sha256 peer.nodeId ∉ cp.closestPeers.keys) := mem_orInsert

theorem Filed.addPeer (h : cp.Filed sha256) (peer : KadPeer) :
    (cp.addPeer sha256 peer).Filed sha256 := by
  intro e he
  rcases mem_addPeer.mp he with he | ⟨rfl, -⟩
  · exact h e he
  · rfl

theorem Filed.addPeers (h : cp.Filed sha256) (peers : List KadPeer) :
    (cp.addPeers sha256 peers).Filed sha256 := by
  induction peers generalizing cp with
  | nil => exact h
  | cons a peers ih => exact ih (h.addPeer a)

variable {peers : List KadPeer}

theorem mem_addPeers : e ∈ (cp.addPeers sha256 peers).closestPeers.entries →
      e ∈ cp.closestPeers.entries ∨ (e.2.state = .notContacted ∧ e.2.peer ∈ peers) := by
  induction peers generalizing cp with
  | nil => exact Or.inl
  | cons a peers ih =>
    intro he
    rcases ih he with he | ⟨hstate, hpeer⟩
    · rcases mem_addPeer.mp he with he | ⟨rfl, -⟩
      · exact Or.inl he
      · exact Or.inr ⟨rfl, mem_cons_self⟩
    · exact Or.inr ⟨hstate, mem_cons_of_mem _ hpeer⟩

theorem mem_addPeers_of_mem (he : e ∈ cp.closestPeers.entries) :
    e ∈ (cp.addPeers sha256 peers).closestPeers.entries := by
  induction peers generalizing cp with
  | nil => exact he
  | cons a peers ih => exact ih (mem_addPeer.mpr (Or.inl he))

theorem mem_waitingPeers_addPeers :
    p ∈ (cp.addPeers sha256 peers).waitingPeers ↔ p ∈ cp.waitingPeers := by
  rw [mem_waitingPeers, mem_waitingPeers]
  constructor
  · rintro ⟨e, he, hp, hw⟩
    rcases mem_addPeers he with he | ⟨hstate, -⟩
    · exact ⟨e, he, hp, hw⟩
    · rw [hw] at hstate
      cases hstate
  · rintro ⟨e, he, hp, hw⟩
    exact ⟨e, mem_addPeers_of_mem he, hp, hw⟩

/-! ## Setting states -/

variable {state : PeerState}

theorem mem_setPeerState : e ∈ (cp.setPeerState sha256 p state).closestPeers.entries ↔
      (e ∈ cp.closestPeers.entries ∧ e.1 ≠ cp.distance sha256 p) ∨
      ∃ pw, (e.1, pw) ∈ cp.closestPeers.entries ∧ e.1 = cp.distance sha256 p ∧
        e.2 = { pw with state := state } :=
  mem_modify (k := e.1)

theorem exists_of_mem_setPeerState (he : e ∈ (cp.setPeerState sha256 p state).closestPeers.entries) :
    ∃ pw, (e.1, pw) ∈ cp.closestPeers.entries ∧ pw.peer = e.2.peer := by
  rcases mem_setPeerState.mp he with ⟨he, -⟩ | ⟨pw, hpw, -, heq⟩
  · exact ⟨e.2, he, rfl⟩
  · exact ⟨pw, hpw, by rw [heq]⟩

theorem Filed.setPeerState (h : cp.Filed sha256) (p : PeerId) (state : PeerState) :
    (cp.setPeerState sha256 p state).Filed sha256 := by
  intro e he
  obtain ⟨pw, hpw, hpeer⟩ := exists_of_mem_setPeerState he
  exact hpeer ▸ h _ hpw

theorem mem_waitingPeers_setPeerState (h : cp.Filed sha256) (hstate : state ≠ .waiting)
    (hp : cp.waitingPeers = [] ∨ p ∈ cp.waitingPeers) :
    r ∈ (cp.setPeerState sha256 p state).waitingPeers ↔ r ∈ cp.waitingPeers ∧ r ≠ p := by
  rw [mem_waitingPeers]
  constructor
  · rintro ⟨e, he, rfl, hw⟩
    rcases mem_setPeerState.mp he with ⟨hmem, hne⟩ | ⟨pw, -, -, heq⟩
    · refine ⟨mem_waitingPeers.mpr ⟨e, hmem, rfl, hw⟩, ?_⟩
      rintro rfl
      exact hne (h e hmem)
    · rw [heq] at hw
      exact absurd hw hstate
  · rintro ⟨hr, hne⟩
    obtain ⟨e, he, rfl, hw⟩ := mem_waitingPeers.mp hr
    obtain ⟨f, hf, hfp, -⟩ := mem_waitingPeers.mp (hp.resolve_left (ne_nil_of_mem hr))
    refine ⟨e, mem_setPeerState.mpr (Or.inl ⟨he, ?_⟩), rfl, hw⟩
    -- two peers at one distance would be one entry
    intro hdist
    have hkey : f.1 = e.1 := by rw [h f hf, hfp, hdist]
    have hval : e.2 = f.2 := value_unique (k := e.1) he (hkey ▸ hf)
    exact hne (by rw [hval, hfp])

theorem mem_setPeersInState :
    e ∈ (cp.setPeersInState .notContacted n .waiting).closestPeers.entries ↔
      (e ∈ cp.closestPeers.entries ∧
        e ∉ cp.closestPeers.first (fun p => p.state = .notContacted) n) ∨
      ∃ pw, (e.1, pw) ∈ cp.closestPeers.first (fun p => p.state = .notContacted) n ∧
        e.2 = { pw with state := .waiting } :=
  mem_updateFirst (k := e.1)

theorem exists_of_mem_setPeersInState
    (he : e ∈ (cp.setPeersInState .notContacted n .waiting).closestPeers.entries) :
    ∃ pw, (e.1, pw) ∈ cp.closestPeers.entries ∧ pw.peer = e.2.peer := by
  rcases mem_setPeersInState.mp he with ⟨he, -⟩ | ⟨pw, hpw, heq⟩
  · exact ⟨e.2, he, rfl⟩
  · exact ⟨pw, (mem_first hpw).1, by rw [heq]⟩

theorem mem_peersInState :
    pw ∈ cp.peersInState state n ↔ ∃ d, (d, pw) ∈ cp.closestPeers.first (·.state = state) n := by
  simp [peersInState]

theorem mem_waitingPeers_spawn {r : PeerId} :
    r ∈ (cp.setPeersInState .notContacted n .waiting).waitingPeers ↔ r ∈ cp.waitingPeers ∨
        r ∈ (cp.peersInState .notContacted n).map (fun p => p.peer.nodeId) := by
  rw [mem_waitingPeers, mem_waitingPeers, mem_map]
  constructor
  · rintro ⟨e, he, rfl, hw⟩
    rcases mem_setPeersInState.mp he with ⟨he, -⟩ | ⟨pw, hpw, heq⟩
    · exact Or.inl ⟨e, he, rfl, hw⟩
    · exact Or.inr ⟨pw, mem_peersInState.mpr ⟨_, hpw⟩, by rw [heq]⟩
  · rintro (⟨e, he, rfl, hw⟩ | ⟨pw, hpw, rfl⟩)
    · refine ⟨e, mem_setPeersInState.mpr (Or.inl ⟨he, ?_⟩), rfl, hw⟩
      intro hfirst
      have := (mem_first hfirst).2
      simp [hw] at this
    · obtain ⟨d, hd⟩ := mem_peersInState.mp hpw
      exact ⟨(d, { pw with state := .waiting }), mem_setPeersInState.mpr (Or.inr ⟨pw, hd, rfl⟩),
        rfl, rfl⟩

/-! ## Peers that have been contacted stay so -/

theorem has_addPeers (h : cp.Has states p) (peers : List KadPeer) :
    (cp.addPeers sha256 peers).Has states p := by
  obtain ⟨e, he, hp, hstate⟩ := h
  exact ⟨e, mem_addPeers_of_mem he, hp, hstate⟩

theorem has_setPeerState (h : cp.Has states p) (r : PeerId) (hstate : states state) :
    (cp.setPeerState sha256 r state).Has states p := by
  obtain ⟨e, he, hp, hs⟩ := h
  by_cases hdist : e.1 = cp.distance sha256 r
  · exact ⟨(e.1, { e.2 with state := state }),
      mem_setPeerState.mpr (Or.inr ⟨e.2, he, hdist, rfl⟩), hp, hstate⟩
  · exact ⟨e, mem_setPeerState.mpr (Or.inl ⟨he, hdist⟩), hp, hs⟩

theorem has_setPeersInState (h : cp.Has states p) (hstates : ¬states .notContacted) (n : Nat) :
    (cp.setPeersInState .notContacted n .waiting).Has states p := by
  obtain ⟨e, he, hp, hs⟩ := h
  refine ⟨e, mem_setPeersInState.mpr (Or.inl ⟨he, ?_⟩), hp, hs⟩
  intro hfirst
  have hnot := (mem_first hfirst).2
  exact hstates ((by simpa using hnot : e.2.state = .notContacted) ▸ hs)

end ClosestPeers

def QueryUpdate.source : QueryUpdate → PeerId
  | queried source _ _ _ => source
  | unreachable p => p

/-- The types that `IterativeQuery` is made for. -/
def QueryType.IsIterative : QueryType → Prop
  | addProvider _ _ => False
  | putRecord _ => False
  | _ => True

namespace IterativeQuery

open ClosestPeers

variable {sha256 : List UInt8 → KeyBytes} {q : IterativeQuery}

/-! ## One update -/

def merged (sha256 : List UInt8 → KeyBytes) (q : IterativeQuery) (u : QueryUpdate)
    (cp : ClosestPeers) : ClosestPeers :=
  match u with
  | .queried source closer _ _ =>
    (cp.addPeers sha256 (closer.filter (fun p => p.nodeId ≠ q.localId))).setPeerState sha256
      source .succeeded
  | .unreachable p => cp.setPeerState sha256 p .unreachable

variable {cp : ClosestPeers}

theorem handleReply_spec (heq : q.handleReply source provider record results cp effects = some h) :
    h.closest = cp ∧ q.queryType.IsIterative := by
  unfold handleReply at heq
  cases hqt : q.queryType with
  | getClosestPeers =>
    simp only [hqt, Option.some.injEq] at heq
    exact ⟨heq ▸ rfl, trivial⟩
  | findPeer =>
    simp only [hqt] at heq
    split at heq <;> exact ⟨Option.some.inj heq ▸ rfl, trivial⟩
  | getProviders count found =>
    simp only [hqt] at heq
    split at heq
    · exact ⟨Option.some.inj heq ▸ rfl, trivial⟩
    · split at heq <;> exact ⟨Option.some.inj heq ▸ rfl, trivial⟩
  | getRecord quorum found =>
    simp only [hqt] at heq
    split at heq
    · exact ⟨Option.some.inj heq ▸ rfl, trivial⟩
    · split at heq <;> exact ⟨Option.some.inj heq ▸ rfl, trivial⟩
  | addProvider provider addresses | putRecord record => simp [hqt] at heq

variable {u : QueryUpdate}

theorem handleUpdate_closest (heq : q.handleUpdate sha256 u results cp = some h) :
    h.closest = q.merged sha256 u cp := by
  cases u with
  | queried source closer provider record => exact (handleReply_spec heq).1
  | unreachable p =>
    simp only [handleUpdate, Option.some.injEq] at heq
    exact heq ▸ rfl

theorem iterative_of_queried
    (h : (q.handleUpdate sha256 (.queried source closer provider record) results cp).isSome) :
    q.queryType.IsIterative := by
  obtain ⟨handled, heq⟩ := Option.isSome_iff_exists.mp h
  exact (handleReply_spec heq).2

theorem jobUpdate_spec (hq : q.queryType.IsIterative) (p : PeerId) (reply : Option Reply) :
    ∃ u, q.jobUpdate p reply = some u ∧ u.source = p := by
  unfold jobUpdate
  cases reply with
  | none => exact ⟨_, rfl, rfl⟩
  | some r =>
    cases hqt : q.queryType with
    | addProvider provider addresses =>
      rw [hqt] at hq
      exact hq.elim
    | putRecord record =>
      rw [hqt] at hq
      exact hq.elim
    | getClosestPeers | findPeer | getProviders count found | getRecord quorum found =>
      exact ⟨_, rfl, rfl⟩

section Merged

variable {cp : ClosestPeers} (u : QueryUpdate)

theorem filed_merged (h : cp.Filed sha256) : (q.merged sha256 u cp).Filed sha256 := by
  cases u with
  | queried source closer provider record => exact (h.addPeers _).setPeerState _ _
  | unreachable p => exact h.setPeerState _ _

theorem notLocal_merged (h : ∀ e ∈ cp.closestPeers.entries, e.2.peer.nodeId ≠ q.localId) :
    ∀ e ∈ (q.merged sha256 u cp).closestPeers.entries, e.2.peer.nodeId ≠ q.localId := by
  intro e he
  cases u with
  | unreachable p =>
    obtain ⟨pw, hpw, hpeer⟩ := exists_of_mem_setPeerState he
    exact hpeer ▸ h _ hpw
  | queried source closer provider record =>
    obtain ⟨pw, hpw, hpeer⟩ := exists_of_mem_setPeerState he
    rw [← hpeer]
    rcases mem_addPeers hpw with hpw | ⟨-, hpeer⟩
    · exact h _ hpw
    · simpa using (mem_filter.mp hpeer).2

theorem has_merged (h : cp.Has (· ≠ .notContacted) p) :
    (q.merged sha256 u cp).Has (· ≠ .notContacted) p := by
  cases u with
  | queried source closer provider record =>
    exact has_setPeerState (has_addPeers h _) _ (by simp)
  | unreachable r => exact has_setPeerState h _ (by simp)

theorem mem_waitingPeers_merged (h : cp.Filed sha256)
    (hu : cp.waitingPeers = [] ∨ u.source ∈ cp.waitingPeers) :
    r ∈ (q.merged sha256 u cp).waitingPeers ↔ r ∈ cp.waitingPeers ∧ r ≠ u.source := by
  cases u with
  | unreachable p => exact mem_waitingPeers_setPeerState h (by simp) hu
  | queried source closer provider record =>
    simp only [merged]
    rw [mem_waitingPeers_setPeerState (h.addPeers _) (by simp), mem_waitingPeers_addPeers]
    · rfl
    · rcases hu with hu | hu
      · left
        rw [eq_nil_iff_forall_not_mem] at hu ⊢
        exact fun r hr => hu r (mem_waitingPeers_addPeers.mp hr)
      · exact Or.inr (mem_waitingPeers_addPeers.mpr hu)

end Merged

/-! ## The invariant of a run -/

/-- The peers whose update has not been handled: their job is out, or the update is in the
channel. -/
def outstanding (s : QueryRun) : List PeerId := s.jobs ++ s.channel.map QueryUpdate.source

/-- What holds in every state, also after the loop has ended. -/
structure Base (sha256 : List UInt8 → KeyBytes) (q : IterativeQuery) (s : QueryRun) : Prop where
  filed : s.closest.Filed sha256
  notLocal : ∀ e ∈ s.closest.closestPeers.entries, e.2.peer.nodeId ≠ q.localId
  requested_nodup : s.requested.Nodup
  requested_contacted : ∀ p ∈ s.requested, s.closest.Has (· ≠ .notContacted) p
  bound : s.closest.numOfState .waiting ≤ q.config.alphaValue
  noPanic : s.status ≠ .panicked .numJobs

structure Fresh (q : IterativeQuery) (s : QueryRun) : Prop where
  consumed : s.consumed = []
  jobs : s.jobs = []
  channel : ∃ getAddrs, s.channel = [q.seedUpdate getAddrs]
  waiting : s.closest.waitingPeers = []

/-- What holds while the loop waits for a job. -/
structure Live (q : IterativeQuery) (s : QueryRun) : Prop where
  iterative : q.queryType.IsIterative
  nodup : (outstanding s).Nodup
  mem : ∀ p, p ∈ outstanding s ↔ p ∈ s.closest.waitingPeers
  nonempty : 1 ≤ s.closest.numOfState .waiting

structure Inv (sha256 : List UInt8 → KeyBytes) (q : IterativeQuery) (s : QueryRun) : Prop where
  base : Base sha256 q s
  loop : s.status = .waiting → Fresh q s ∨ Live q s

variable {s : QueryRun}

theorem numOfState_merged_lt (h : cp.Filed sha256)
    (hu : cp.waitingPeers = [] ∨ u.source ∈ cp.waitingPeers)
    (hbound : cp.numOfState .waiting ≤ q.config.alphaValue) :
    (q.merged sha256 u cp).numOfState .waiting < q.config.alphaValue := by
  have hmem := fun r => mem_waitingPeers_merged (q := q) u h hu (r := r)
  rcases hu with hu | hu
  · have hnil : (q.merged sha256 u cp).waitingPeers = [] := by
      rw [eq_nil_iff_forall_not_mem]
      intro r hr
      have := ((hmem r).mp hr).1
      rw [hu] at this
      cases this
    rw [← length_waitingPeers, hnil]
    exact q.config.alphaValue.pos
  · have hnd := h.waitingPeers_nodup
    have hperm : (q.merged sha256 u cp).waitingPeers.Perm (cp.waitingPeers.erase u.source) := by
      rw [perm_ext_iff_of_nodup (filed_merged u h).waitingPeers_nodup (hnd.erase _)]
      intro r
      rw [hmem, hnd.mem_erase_iff]
      exact and_comm
    have hpos := length_pos_of_mem hu
    rw [← length_waitingPeers] at hbound ⊢
    rw [hperm.length_eq, length_erase_of_mem hu]
    omega

theorem disjoint_peersInState (h : cp.Filed sha256) (hstates : ¬states .notContacted)
    (hp : cp.Has states p) :
    p ∉ (cp.peersInState .notContacted n).map (fun pw => pw.peer.nodeId) := by
  intro hmem
  obtain ⟨pw, hpw, hid⟩ := mem_map.mp hmem
  obtain ⟨d, hd⟩ := mem_peersInState.mp hpw
  obtain ⟨hentry, hstate⟩ := mem_first hd
  obtain ⟨e, he, hep, hs⟩ := hp
  have heq := h.entry_unique he hentry (hep.trans hid.symm)
  rw [heq, show pw.state = .notContacted by simpa using hstate] at hs
  exact hstates hs

theorem peersInState_nodup (h : cp.Filed sha256) (n : Nat) :
    ((cp.peersInState .notContacted n).map (fun pw => pw.peer.nodeId)).Nodup := by
  rw [peersInState, map_map]
  exact h.nodup_ids ((take_sublist _ _).trans filter_sublist)

theorem exists_waiting_of_not_starved (hn : 1 ≤ n) (h : cp.isStarved = false) :
    ∃ p, p ∈ (cp.setPeersInState .notContacted n .waiting).waitingPeers := by
  have hlen : cp.numOfStates [.notContacted, .waiting] ≠ 0 := of_decide_eq_false h
  obtain ⟨pw, hpw⟩ := exists_mem_of_length_pos (Nat.pos_of_ne_zero hlen)
  obtain ⟨hval, hstate⟩ := mem_filter.mp hpw
  obtain ⟨d, hd⟩ := mem_values.mp hval
  simp only [mem_cons, not_mem_nil, or_false, decide_eq_true_eq] at hstate
  rcases hstate with hstate | hstate
  · -- somebody can be contacted, so somebody is
    have hne : cp.closestPeers.first (fun p => p.state = .notContacted) n ≠ [] := by
      rw [first, Ne, take_eq_nil_iff]
      rintro (h0 | hnil)
      · omega
      · have hmem : (d, pw) ∈ cp.closestPeers.entries.filter
            (fun e => decide (e.2.state = .notContacted)) := mem_filter.mpr ⟨hd, by simpa⟩
        rw [hnil] at hmem
        cases hmem
    obtain ⟨e, he⟩ := exists_mem_of_ne_nil _ hne
    exact ⟨e.2.peer.nodeId, mem_waitingPeers_spawn.mpr
      (Or.inr (mem_map.mpr ⟨e.2, mem_peersInState.mpr ⟨e.1, he⟩, rfl⟩))⟩
  · exact ⟨pw.peer.nodeId, mem_waitingPeers_spawn.mpr
      (Or.inl (mem_waitingPeers.mpr ⟨_, hd, rfl, hstate⟩))⟩

/-! ## Rounds and runs -/

theorem Base.of_eq (h : Base sha256 q s) (hclosest : s'.closest = s.closest)
    (hrequested : s'.requested = s.requested) (hstatus : s'.status ≠ .panicked .numJobs) :
    Base sha256 q s' where
  filed := hclosest ▸ h.filed
  notLocal := hclosest ▸ h.notLocal
  requested_nodup := hrequested ▸ h.requested_nodup
  requested_contacted := hclosest ▸ hrequested ▸ h.requested_contacted
  bound := hclosest ▸ h.bound
  noPanic := hstatus

theorem Base.merged (h : Base sha256 q s)
    (hu : s.closest.waitingPeers = [] ∨ u.source ∈ s.closest.waitingPeers)
    (hclosest : s'.closest = q.merged sha256 u s.closest) (hrequested : s'.requested = s.requested)
    (hstatus : s'.status ≠ .panicked .numJobs) : Base sha256 q s' where
  filed := hclosest ▸ filed_merged u h.filed
  notLocal := hclosest ▸ notLocal_merged u h.notLocal
  requested_nodup := hrequested ▸ h.requested_nodup
  requested_contacted := by
    rw [hclosest, hrequested]
    exact fun p hp => has_merged u (h.requested_contacted p hp)
  bound := by
    rw [hclosest]
    exact (numOfState_merged_lt h.filed hu h.bound).le
  noPanic := hstatus

theorem spawn_inv (hb : Base sha256 q s) (hq : q.queryType.IsIterative)
    (hnd : (outstanding s).Nodup) (hmem : ∀ p, p ∈ outstanding s ↔ p ∈ s.closest.waitingPeers)
    (hstarved : s.closest.isStarved = false) (hn : 1 ≤ n)
    (hroom : s.closest.numOfState .waiting + n ≤ q.config.alphaValue) :
    Inv sha256 q (spawn n s) := by
  set peers := (s.closest.peersInState .notContacted n).map (fun p => p.peer.nodeId) with hpeers
  have hperm : (outstanding (spawn n s)).Perm (outstanding s ++ peers) := by
    unfold outstanding spawn
    rw [append_assoc, append_assoc]
    exact (perm_append_comm).append_left _
  have hnd' : (outstanding s ++ peers).Nodup := by
    refine nodup_append.mpr ⟨hnd, peersInState_nodup hb.filed n, ?_⟩
    rintro p hp r hr rfl
    exact disjoint_peersInState hb.filed (by simp) (mem_waitingPeers.mp ((hmem p).mp hp)) hr
  have hmem' : ∀ p, p ∈ outstanding (spawn n s) ↔ p ∈ (spawn n s).closest.waitingPeers := by
    intro p
    rw [hperm.mem_iff, mem_append, hmem]
    exact mem_waitingPeers_spawn.symm
  -- the entries keep their distances and peers
  have hfiled : (spawn n s).closest.Filed sha256 := by
    intro e he
    obtain ⟨pw, hpw, hpeer⟩ := exists_of_mem_setPeersInState he
    exact hpeer ▸ hb.filed _ hpw
  have hlen : (spawn n s).closest.numOfState .waiting = (outstanding s).length + peers.length := by
    rw [← hfiled.length_eq (hperm.nodup_iff.mpr hnd') hmem', ← length_append, ← hperm.length_eq]
  have hpeersLen : peers.length ≤ n := by
    simpa [hpeers, peersInState] using
      length_first_le (m := s.closest.closestPeers) (fun p => p.state = .notContacted) n
  refine ⟨⟨hfiled, ?_, ?_, ?_, ?_, hb.noPanic⟩,
    fun _ => Or.inr ⟨hq, hperm.nodup_iff.mpr hnd', hmem', ?_⟩⟩
  · intro e he
    obtain ⟨pw, hpw, hpeer⟩ := exists_of_mem_setPeersInState he
    exact hpeer ▸ hb.notLocal _ hpw
  · refine nodup_append.mpr ⟨hb.requested_nodup, peersInState_nodup hb.filed n, ?_⟩
    rintro p hp r hr rfl
    exact disjoint_peersInState hb.filed (by simp) (hb.requested_contacted p hp) hr
  · intro p hp
    rcases mem_append.mp hp with hp | hp
    · exact has_setPeersInState (hb.requested_contacted p hp) (by simp) n
    · obtain ⟨e, he, hep, hw⟩ := mem_waitingPeers.mp (mem_waitingPeers_spawn.mpr (Or.inr hp))
      exact ⟨e, he, hep, by simp [hw]⟩
  · rw [hlen, hb.filed.length_eq hnd hmem]
    omega
  · obtain ⟨p, hp⟩ := exists_waiting_of_not_starved hn hstarved
    rw [← length_waitingPeers]
    exact length_pos_of_mem hp

/-- One round of the loop. The update comes from the one waiting peer that is not outstanding any
more, or it is the first. -/
theorem round_inv (hb : Base sha256 q s)
    (hq : (q.handleUpdate sha256 u s.results s.closest).isSome → q.queryType.IsIterative)
    (hu : s.closest.waitingPeers = [] ∨ u.source ∈ s.closest.waitingPeers)
    (hnd : (outstanding s).Nodup)
    (hmem : ∀ p, p ∈ outstanding s ↔ p ∈ s.closest.waitingPeers ∧ p ≠ u.source) :
    Inv sha256 q (q.round sha256 u s) := by
  unfold round
  cases hh : q.handleUpdate sha256 u s.results s.closest with
  | none => exact ⟨hb.of_eq rfl rfl (by simp), fun h => by simp at h⟩
  | some h =>
    have hclosest : (absorb u h s).closest = q.merged sha256 u s.closest := handleUpdate_closest hh
    have hbase : Base sha256 q (absorb u h s) := hb.merged hu hclosest rfl hb.noPanic
    have hfinish : ∀ e, Inv sha256 q (q.finish e (absorb u h s)) := fun e =>
      ⟨hbase.of_eq rfl rfl (by simp [finish]), fun h => by simp [finish] at h⟩
    have hlt : (absorb u h s).closest.numOfState .waiting < q.config.alphaValue := by
      rw [hclosest]
      exact numOfState_merged_lt hb.filed hu hb.bound
    dsimp only
    split
    · exact hfinish _
    split
    · exact hfinish _
    split
    · exact hfinish _
    rename_i _ hstarved _
    rw [checkedSub, if_pos hlt.le]
    refine spawn_inv hbase (hq (by simp [hh])) hnd ?_ (by simpa using hstarved) (by omega) (by omega)
    intro p
    rw [hclosest, mem_waitingPeers_merged u hb.filed hu]
    exact hmem p

theorem step_inv (e : Event) (h : Inv sha256 q s) : Inv sha256 q (q.step sha256 s e) := by
  cases e with
  | deadline =>
    simp only [step]
    split
    · exact ⟨h.base.of_eq rfl rfl (by simp), fun hs => by simp at hs⟩
    · exact h
  | report p reply =>
    simp only [step]
    split
    · rename_i hp
      refine ⟨h.base.of_eq rfl rfl h.base.noPanic, fun hs => ?_⟩
      rcases h.loop hs with hf | hl
      · rw [hf.jobs] at hp
        cases hp
      · -- the update only moves from the job to the channel
        obtain ⟨u, hju, hsource⟩ := jobUpdate_spec hl.iterative p reply
        have hperm : (s.jobs.erase p ++
            (s.channel ++ (q.jobUpdate p reply).toList).map QueryUpdate.source).Perm
              (outstanding s) := by
          rw [hju, Option.toList_some, map_append, map_singleton, hsource, ← append_assoc]
          refine (perm_append_comm).trans ?_
          exact ((perm_cons_erase hp).symm.append_right _)
        exact Or.inr ⟨hl.iterative, hperm.nodup_iff.mpr hl.nodup,
          fun r => (hperm.mem_iff).trans (hl.mem r), hl.nonempty⟩
    · exact h
  | next =>
    simp only [step]
    split
    · rename_i update rest hstatus hchannel
      rcases h.loop hstatus with hf | hl
      · obtain ⟨getAddrs, hc⟩ := hf.channel
        rw [hchannel] at hc
        obtain ⟨rfl, rfl⟩ := cons.inj hc
        refine round_inv (h.base.of_eq rfl rfl h.base.noPanic) ?_ (Or.inl hf.waiting) ?_ ?_
        · exact iterative_of_queried
        · simp [outstanding, hf.jobs]
        · simp [outstanding, hf.jobs, hf.waiting]
      · have hout : (outstanding s).Perm
            (update.source :: (s.jobs ++ rest.map QueryUpdate.source)) := by
          rw [outstanding, hchannel, map_cons]
          exact perm_middle
        have hnd := hout.nodup_iff.mp hl.nodup
        have hmem : ∀ p, p ∈ s.closest.waitingPeers ↔
            p = update.source ∨ p ∈ s.jobs ++ rest.map QueryUpdate.source := by
          intro p
          rw [← hl.mem, hout.mem_iff, mem_cons]
        refine round_inv (h.base.of_eq rfl rfl h.base.noPanic) (fun _ => hl.iterative)
          (Or.inr ((hmem _).mpr (Or.inl rfl))) (nodup_cons.mp hnd).2 ?_
        intro p
        dsimp only [outstanding]
        rw [hmem]
        constructor
        · intro hp
          exact ⟨Or.inr hp, fun heq => (nodup_cons.mp hnd).1 (heq ▸ hp)⟩
        · rintro ⟨rfl | hp, hne⟩
          · exact absurd rfl hne
          · exact hp
    · exact h

theorem start_inv {getAddrs : PeerId → Option (List Multiaddr)}
    (h : q.start sha256 getAddrs = .ok s) : Inv sha256 q s := by
  unfold start at h
  split at h
  · cases h
  · cases h
    refine ⟨⟨by simp [Filed, new, empty], by simp [new, empty], by simp,
      by simp, ?_, by simp⟩, fun _ => Or.inl ⟨rfl, rfl, ⟨getAddrs, rfl⟩, rfl⟩⟩
    simp [numOfState, new, empty, values]

/-- In every state of every run at most `alpha` peers are waiting, so the number of new jobs is
never negative; when the loop goes back to its channel, the updates that are still to come are as
many as the waiting peers, and there is one; and no peer is asked twice, the local peer never. -/
theorem query_loop_safe (getAddrs : PeerId → Option (List Multiaddr)) {s₀ : QueryRun}
    (hstart : q.start sha256 getAddrs = .ok s₀) (es : List Event) :
    let s := run (q.step sha256) s₀ es
    (s.closest.numOfState .waiting ≤ q.config.alphaValue ∧ s.status ≠ .panicked .numJobs) ∧
    (s.status = .waiting → s.consumed ≠ [] →
      s.jobs.length + s.channel.length = s.closest.numOfState .waiting ∧
        1 ≤ s.jobs.length + s.channel.length) ∧
    (s.requested.Nodup ∧ q.localId ∉ s.requested) := by
  intro s
  have hinv : Inv sha256 q s :=
    invariant_run (fun _ e h => step_inv e h) (start_inv hstart) es
  refine ⟨⟨hinv.base.bound, hinv.base.noPanic⟩, ?_, hinv.base.requested_nodup, ?_⟩
  · intro hstatus hconsumed
    rcases hinv.loop hstatus with hf | hl
    · exact absurd hf.consumed hconsumed
    · have hlen := hinv.base.filed.length_eq hl.nodup hl.mem
      simp only [outstanding, length_append, length_map] at hlen
      exact ⟨hlen, hlen ▸ hl.nonempty⟩
  · intro hlocal
    obtain ⟨e, he, hid, -⟩ := hinv.base.requested_contacted _ hlocal
    exact hinv.base.notLocal e he hid

/-- A query for the key of peer `9` by peer `0`, which knows the peers `4` and `5`. -/
def sampleQuery : IterativeQuery where
  queryType := .getClosestPeers
  key := RecordKey.ofPeerId (PeerId.ofByte 9)
  localId := PeerId.ofByte 0
  config := {}
  seeds := [Key.ofPeerId sampleSha256 (PeerId.ofByte 4), Key.ofPeerId sampleSha256 (PeerId.ofByte 5)]

/-- The seeds are asked; `4` fails while `5` has not answered. -/
theorem query_loop_safe_sample :
    ∃ s₀, sampleQuery.start sampleSha256 (fun _ => none) = .ok s₀ ∧
      let s := run (sampleQuery.step sampleSha256) s₀
        [.next, .report (PeerId.ofByte 4) none, .next]
      (s.status = .waiting ∧ s.consumed ≠ []) ∧
      s.jobs.length + s.channel.length = s.closest.numOfState .waiting ∧
        1 ≤ s.jobs.length + s.channel.length := by
  refine ⟨_, rfl, ?_, ?_⟩
  · decide
  · exact (query_loop_safe (fun _ => none) rfl _).2.1 (by decide) (by decide)

end IterativeQuery

end Libp2pRs.Kad
