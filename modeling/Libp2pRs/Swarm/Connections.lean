import Libp2pRs.Core.PeerId
import Libp2pRs.Lib.Maps

/-!
# The connections of the Swarm

The Swarm keeps its connections by id and, for each peer, the ids of the connections to it. A
connection that is opened or closed is reported to every protocol handler; the report is the
connection that the functions return.
-/

namespace Libp2pRs.Swarm

open Lib Libp2pRs.Core Std

structure Connection where
  id : Nat
  remotePeer : PeerId
  deriving DecidableEq, Repr

structure Connections where
  connectionsById : TreeMap Nat Connection
  connectionsByPeer : TreeMap PeerId (List Nat)
  nextConnectionId : Nat

namespace Connections

def new : Connections := ⟨∅, ∅, 0⟩

def addConnection (s : Connections) (connection : Connection) : Connections :=
  { s with
    connectionsById := s.connectionsById.insert connection.id connection
    connectionsByPeer := s.connectionsByPeer.alter connection.remotePeer
      (fun ids => some (ids.getD [] ++ [connection.id])) }

def handleConnectionOpened (s : Connections) (peer : PeerId) : Connection × Connections :=
  let connection : Connection := ⟨s.nextConnectionId + 1, peer⟩
  (connection, addConnection { s with nextConnectionId := s.nextConnectionId + 1 } connection)

/-- Takes the id out of the list of the peer. A peer without connections has no list. -/
def dropId (m : TreeMap PeerId (List Nat)) (peer : PeerId) (cid : Nat) :
    TreeMap PeerId (List Nat) :=
  match m[peer]? with
  | none => m
  | some ids =>
    let ids := ids.filter (· ≠ cid)
    if ids.isEmpty then m.erase peer else m.insert peer ids

def handleConnectionClosed (s : Connections) (cid : Nat) : Option Connection × Connections :=
  match s.connectionsById[cid]? with
  | none => (none, s)
  | some connection =>
    (some connection,
      { s with
        connectionsById := s.connectionsById.erase cid
        connectionsByPeer := dropId s.connectionsByPeer connection.remotePeer cid })

def isConnected (s : Connections) (peer : PeerId) : Bool :=
  decide (0 < (s.connectionsByPeer[peer]?.elim 0 List.length))

def Open (s : Connections) (peer : PeerId) : Prop :=
  ∃ (cid : Nat) (c : Connection), s.connectionsById[cid]? = some c ∧ c.remotePeer = peer

/-- The ids are those that have been assigned, and the index by peer lists exactly the connections
to it. -/
structure Indexed (s : Connections) : Prop where
  assigned : ∀ cid ∈ s.connectionsById, cid ≤ s.nextConnectionId
  index : ∀ (peer : PeerId) (cid : Nat), cid ∈ s.connectionsByPeer[peer]?.getD [] ↔
    ∃ c, s.connectionsById[cid]? = some c ∧ c.remotePeer = peer

variable {s : Connections}

theorem indexed_new : new.Indexed where
  assigned cid h := absurd h TreeMap.not_mem_emptyc
  index peer cid := by simp [new]

theorem isConnected_iff (h : s.Indexed) (peer : PeerId) : s.isConnected peer = true ↔ s.Open peer := by
  have hlength : s.isConnected peer = true ↔ 0 < (s.connectionsByPeer[peer]?.getD []).length := by
    unfold isConnected
    rw [decide_eq_true_eq]
    cases s.connectionsByPeer[peer]? with
    | none => rfl
    | some ids => rfl
  rw [hlength, List.length_pos_iff_exists_mem]
  exact exists_congr (h.index peer)

theorem connectionsById_handleConnectionOpened (s : Connections) (peer : PeerId) (cid : Nat) :
    (s.handleConnectionOpened peer).2.connectionsById[cid]? =
      if s.nextConnectionId + 1 = cid then some ⟨s.nextConnectionId + 1, peer⟩
      else s.connectionsById[cid]? :=
  get_insert _ _ _ _

theorem Indexed.getElem?_next (h : s.Indexed) : s.connectionsById[s.nextConnectionId + 1]? = none := by
  refine TreeMap.getElem?_eq_none (fun hmem => ?_)
  have := h.assigned _ hmem
  omega

theorem Indexed.handleConnectionOpened (h : s.Indexed) (peer : PeerId) :
    (s.handleConnectionOpened peer).2.Indexed := by
  constructor
  · intro cid hcid
    rw [TreeMap.mem_iff_isSome_getElem?, connectionsById_handleConnectionOpened] at hcid
    change cid ≤ s.nextConnectionId + 1
    split at hcid
    · omega
    · have := h.assigned cid (TreeMap.mem_iff_isSome_getElem?.mpr hcid)
      omega
  · intro q cid
    rw [connectionsById_handleConnectionOpened]
    have hget : (s.handleConnectionOpened peer).2.connectionsByPeer[q]?.getD [] =
        if peer = q then s.connectionsByPeer[q]?.getD [] ++ [s.nextConnectionId + 1]
        else s.connectionsByPeer[q]?.getD [] := by
      change (s.connectionsByPeer.alter peer _)[q]?.getD [] = _
      rw [get_alter]
      split <;> rfl
    have hindex := h.index q cid
    have hnext := h.getElem?_next
    rw [hget]
    by_cases hcid : s.nextConnectionId + 1 = cid
    · subst hcid
      rw [hnext] at hindex
      by_cases hq : peer = q
      · simp [hq]
      · simpa [hq] using hindex
    · by_cases hq : peer = q
      · simp only [hq, if_true, List.mem_append, hcid, if_false, hindex, List.mem_singleton]
        constructor
        · rintro (hc | rfl)
          · exact hc
          · exact absurd rfl hcid
        · exact Or.inl
      · simp only [hq, hcid, if_false, hindex]

theorem open_handleConnectionOpened (h : s.Indexed) (peer q : PeerId) :
    (s.handleConnectionOpened peer).2.Open q ↔ peer = q ∨ s.Open q := by
  unfold Open
  simp only [connectionsById_handleConnectionOpened]
  constructor
  · rintro ⟨cid, c, hc, rfl⟩
    split at hc
    · cases hc
      exact Or.inl rfl
    · exact Or.inr ⟨cid, c, hc, rfl⟩
  · rintro (rfl | ⟨cid, c, hc, rfl⟩)
    · exact ⟨s.nextConnectionId + 1, _, if_pos rfl, rfl⟩
    · refine ⟨cid, c, ?_, rfl⟩
      rw [if_neg]
      · exact hc
      · rintro rfl
        rw [h.getElem?_next] at hc
        cases hc

theorem mem_dropId (m : TreeMap PeerId (List Nat)) (peer q : PeerId) (cid i : Nat) :
    i ∈ (dropId m peer cid)[q]?.getD [] ↔ i ∈ m[q]?.getD [] ∧ (peer = q → i ≠ cid) := by
  unfold dropId
  cases hids : m[peer]? with
  | none =>
    by_cases hq : peer = q
    · subst hq
      simp [hids]
    · simp [hq]
  | some ids =>
    dsimp only
    by_cases hq : peer = q
    · subst hq
      split
      · rename_i hempty
        rw [get_erase, if_pos rfl, hids]
        simp only [List.isEmpty_iff, List.filter_eq_nil_iff] at hempty
        simpa using hempty i
      · rw [get_insert, if_pos rfl, hids]
        simp
    · split
      · rw [get_erase, if_neg hq]
        simp [hq]
      · rw [get_insert, if_neg hq]
        simp [hq]

theorem Indexed.handleConnectionClosed (h : s.Indexed) (cid : Nat) :
    (s.handleConnectionClosed cid).2.Indexed := by
  unfold Connections.handleConnectionClosed
  cases hc : s.connectionsById[cid]? with
  | none => exact h
  | some c =>
    refine ⟨fun i hi => h.assigned i (TreeMap.mem_erase.mp hi).2, fun q i => ?_⟩
    rw [mem_dropId, h.index, get_erase]
    by_cases hi : cid = i
    · subst hi
      rw [hc]
      simp
    · simp [hi, Ne.symm hi]

theorem open_handleConnectionClosed (hc : s.connectionsById[cid]? = some c) (q : PeerId) :
    (s.handleConnectionClosed cid).2.Open q ↔
      ∃ (i : Nat) (d : Connection), i ≠ cid ∧ s.connectionsById[i]? = some d ∧ d.remotePeer = q := by
  unfold Connections.handleConnectionClosed Open
  rw [hc]
  simp only [get_erase]
  refine exists_congr (fun i => exists_congr (fun d => ?_))
  by_cases hi : cid = i
  · simp [hi]
  · simp [hi, Ne.symm hi]

end Connections

end Libp2pRs.Swarm
