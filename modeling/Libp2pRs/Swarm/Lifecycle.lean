import Libp2pRs.Swarm.Transactions

/-!
# Connections that are opened and closed

What the events of a run do to the two indexes of connections.
-/

namespace Libp2pRs.Swarm

open Lib Libp2pRs.Core Std

/-! ## What a step does to the connections -/

variable {s : System}

namespace System

structure Aside (s s' : System) : Prop where
  connections : s'.swarm.connections = s.swarm.connections
  notices : s'.notices = s.notices
  muxer : s'.swarm.muxer = s.swarm.muxer

structure Frame (s s' : System) : Prop extends Aside s s' where
  bannedPeers : s'.swarm.bannedPeers = s.swarm.bannedPeers

namespace Frame

variable {s t : System}

theorem refl (s : System) : Frame s s := ⟨⟨rfl, rfl, rfl⟩, rfl⟩

theorem call (h : Frame s t) (f : DialCallback) (r : Except SwarmError Connection) :
    Frame s (t.call f r) := by
  cases f with
  | reply cmd => exact { h with }
  | openStream pids cmd => cases r <;> exact { h with }

theorem complete (h : Frame s t) (tid : Nat) (r : Except SwarmError Connection) :
    Frame s (t.complete tid r) := by
  unfold System.complete
  split
  · exact { h with }
  · apply call
    exact { h with }

theorem completeDial (h : Frame s t) (connection : Connection) (tid : Option Nat) :
    Frame s (t.completeDial connection tid) := by
  cases tid with
  | none => exact h
  | some tid => exact h.complete tid _

theorem dial (h : Frame s t) (peer : PeerId) (addrs : Option (List Multiaddr)) (f : DialCallback) :
    Frame s (t.dial peer addrs f) := { h with }

theorem dialAddr (h : Frame s t) (peer : PeerId) (addrs : List Multiaddr) (f : DialCallback) :
    Frame s (t.dialAddr peer addrs f) := by
  unfold System.dialAddr
  split
  · exact h.call _ _
  · exact h.dial _ _ _

theorem dialPeer (h : Frame s t) (peer : PeerId) (useRouting : Bool)
    (known : Option (List Multiaddr)) (f : DialCallback) :
    Frame s (t.dialPeer peer useRouting known f) := by
  unfold System.dialPeer
  split
  · exact h.call _ _
  · split
    · exact h.dial _ _ _
    · exact h.call _ _

theorem receive (s : System) : Frame s s.receive := ⟨⟨rfl, rfl, rfl⟩, rfl⟩

theorem onConnect (h : Frame s t) (cmd : Nat) (peer : PeerId) (addrs : List Multiaddr) :
    Frame s (t.onConnect cmd peer addrs) := by
  unfold System.onConnect
  split
  · exact { h with }
  · exact h.dialAddr _ _ _

theorem onNewConnection (h : Frame s t) (cmd : Nat) (peer : PeerId) (useRouting : Bool)
    (known : Option (List Multiaddr)) : Frame s (t.onNewConnection cmd peer useRouting known) := by
  unfold System.onNewConnection
  split
  · exact { h with }
  · exact h.dialPeer _ _ _ _

theorem onNewStream (h : Frame s t) (cmd : Nat) (peer : PeerId) (pids : List ProtocolId)
    (useRouting : Bool) (known : Option (List Multiaddr)) :
    Frame s (t.onNewStream cmd peer pids useRouting known) := by
  unfold System.onNewStream
  split
  · exact { h with }
  · exact h.dialPeer _ _ _ _

theorem onCloseConnection (h : Frame s t) (cmd : Nat) (peer : PeerId) :
    Frame s (t.onCloseConnection cmd peer) := by
  unfold System.onCloseConnection
  split
  · exact { h with }
  · exact { h with }

theorem handleStreamOpened (h : Frame s t) (cid sid : Nat) :
    Frame s (t.handleStreamOpened cid sid) := by
  unfold System.handleStreamOpened
  split
  · exact { h with }
  · exact h

theorem dialed (h : Frame s t) (d : Dial) (result : Except SwarmError StreamMuxer) :
    Frame s (t.dialed d result) := by
  cases result with
  | ok streamMuxer =>
    rw [System.dialed]
    split
    · exact { h with }
    · exact h
  | error e => exact { h with }

theorem opened (h : Frame s t) (o : Opening) (result : Except TransportError Nat) :
    Frame s (t.opened o result) := by
  cases result <;> exact { h with }

end Frame

/-- What a step does: a connection is opened, an open one is closed, or neither. -/
inductive Lifecycle (s s' : System) : Prop where
  | aside (h : Aside s s')
  | opened (peer : PeerId)
      (connections : s'.swarm.connections = (s.swarm.connections.handleConnectionOpened peer).2)
      (notices : s'.notices = s.notices ++
        s.swarm.muxer.values.map (.connected · (s.swarm.connections.nextConnectionId + 1)))
      (muxer : s'.swarm.muxer = s.swarm.muxer)
  | closed (cid : Nat) (c : Connection) (known : s.swarm.connections.connectionsById[cid]? = some c)
      (connections : s'.swarm.connections = (s.swarm.connections.handleConnectionClosed cid).2)
      (notices : s'.notices = s.notices ++ s.swarm.muxer.values.map (.disconnected · cid))
      (muxer : s'.swarm.muxer = s.swarm.muxer)

theorem lifecycle_handleConnectionClosed (s : System) (cid : Nat) :
    Lifecycle s (s.handleConnectionClosed cid) := by
  unfold handleConnectionClosed
  cases hc : s.swarm.connections.connectionsById[cid]? with
  | none =>
    have hclosed : s.swarm.connections.handleConnectionClosed cid = (none, s.swarm.connections) := by
      rw [Connections.handleConnectionClosed, hc]
    rw [hclosed]
    exact .aside (Frame.refl s).toAside
  | some c =>
    have hclosed : s.swarm.connections.handleConnectionClosed cid =
        (some c, (s.swarm.connections.handleConnectionClosed cid).2) := by
      rw [Connections.handleConnectionClosed, hc]
    rw [hclosed]
    exact .closed cid c hc rfl rfl rfl

theorem handleConnectionOpened_eq (tid : Option Nat) (h : Tracked tid.toList [] s)
    (streamMuxer : StreamMuxer) :
    let (connection, connections) := s.swarm.connections.handleConnectionOpened streamMuxer.remotePeer
    let t := (s.notify (.connected · connection.id)).completeDial connection tid
    s.handleConnectionOpened streamMuxer tid =
      { t with swarm := { t.swarm with connections := connections } } := by
  let connection : Connection := ⟨s.swarm.connections.nextConnectionId + 1, streamMuxer.remotePeer⟩
  have hdone := (h.notify (.connected · connection.id)).completeDial connection
  unfold handleConnectionOpened
  dsimp only
  split
  case isTrue hpanicked => exact absurd (hdone.running.symm.trans hpanicked) Bool.false_ne_true
  case isFalse => rfl

theorem lifecycle_handleConnectionOpened (h : Tracked tid.toList [] s)
    (streamMuxer : StreamMuxer) : Lifecycle s (s.handleConnectionOpened streamMuxer tid) := by
  let connection : Connection := ⟨s.swarm.connections.nextConnectionId + 1, streamMuxer.remotePeer⟩
  have hframe := (Frame.refl (s.notify (.connected · connection.id))).completeDial connection tid
  rw [handleConnectionOpened_eq tid h]
  exact .opened streamMuxer.remotePeer rfl hframe.notices hframe.muxer

theorem lifecycle_onEvent (h : Tracked event.tid.toList [] s) : Lifecycle s (s.onEvent event) := by
  cases event with
  | connectionEstablished streamMuxer direction tid =>
    exact lifecycle_handleConnectionOpened h streamMuxer
  | connectionClosed cid => exact lifecycle_handleConnectionClosed s cid
  | streamOpened cid sid => exact .aside ((Frame.refl s).handleStreamOpened cid sid).toAside
  | outgoingConnectionError peer error tid => exact .aside ((Frame.refl s).complete tid _).toAside

/-- The loop neither handles an event nor is told to ban a peer or not to. -/
def Action.Apart : Action → Prop
  | .handle | .banPeerId _ | .unbanPeerId _ => False
  | _ => True

theorem frame_stepRunning (s : System) (a : Action) (ha : a.Apart) : Frame s (s.stepRunning a) := by
  have hframe := Frame.refl s
  cases a with
  | connect peer addrs => exact (Frame.receive s).onConnect _ _ _
  | newConnection peer useRouting known => exact (Frame.receive s).onNewConnection _ _ _ _
  | newStream peer pids useRouting known => exact (Frame.receive s).onNewStream _ _ _ _ _
  | closeConnection peer => exact (Frame.receive s).onCloseConnection _ _
  | closeStream cid sid => exact { hframe with }
  | handle | banPeerId peer | unbanPeerId peer => exact absurd ha id
  | dialed tid result =>
    rw [stepRunning]
    split
    · exact hframe
    · exact hframe.dialed _ _
  | accepted streamMuxer | closed cid | inboundStream cid sid => exact { hframe with }
  | opened cmd result =>
    rw [stepRunning]
    split
    · exact hframe
    · exact hframe.opened _ _

theorem step_eq (h : Tracked [] [] s) (a : Action) : s.step a = s.stepRunning a := by
  rw [step, if_neg]
  rw [h.running]
  exact Bool.false_ne_true

theorem lifecycle_step (h : Tracked [] [] s) (a : Action) : Lifecycle s (s.step a) := by
  have hframe := frame_stepRunning s a
  rw [step_eq h]
  cases a with
  | handle =>
    rw [stepRunning]
    split
    · exact .aside (Frame.refl s).toAside
    · rename_i event events hevents
      obtain hnone | ⟨peer, hc, hn, hm⟩ | ⟨cid, c, hcid, hc, hn, hm⟩ :=
        lifecycle_onEvent (h.take hevents)
      · exact .aside ⟨hnone.connections, hnone.notices, hnone.muxer⟩
      · exact .opened peer hc hn hm
      · exact .closed cid c hcid hc hn hm
  | banPeerId peer | unbanPeerId peer => exact .aside ⟨rfl, rfl, rfl⟩
  | _ => exact .aside (hframe trivial).toAside

end System

/-! ## The two indexes -/

namespace Connections

/-- The two indexes agree: every connection is under its own id, and no list is empty or has an id
twice. -/
structure Agrees (s : Connections) : Prop extends Indexed s where
  own : ∀ (cid : Nat) (c : Connection), s.connectionsById[cid]? = some c → c.id = cid ∧ 1 ≤ cid
  lists : ∀ (peer : PeerId) (ids : List Nat), s.connectionsByPeer[peer]? = some ids →
    ids.Nodup ∧ ids ≠ []

variable {s : Connections}

theorem agrees_new : new.Agrees where
  toIndexed := indexed_new
  own cid c h := by
    cases h
  lists peer ids h := by
    cases h

theorem Agrees.handleConnectionOpened (h : s.Agrees) (peer : PeerId) :
    (s.handleConnectionOpened peer).2.Agrees where
  toIndexed := h.toIndexed.handleConnectionOpened peer
  own cid c hc := by
    rw [connectionsById_handleConnectionOpened] at hc
    split at hc
    case isTrue hcid =>
      cases hc
      exact ⟨hcid, by omega⟩
    case isFalse => exact h.own cid c hc
  lists q ids hids := by
    change (s.connectionsByPeer.alter peer _)[q]? = some ids at hids
    rw [get_alter] at hids
    split at hids
    case isTrue hq =>
      cases hids
      subst hq
      refine ⟨?_, List.append_ne_nil_of_right_ne_nil _ (List.cons_ne_nil _ _)⟩
      have hold : (s.connectionsByPeer[peer]?.getD []).Nodup := by
        cases hget : s.connectionsByPeer[peer]? with
        | none => exact List.nodup_nil
        | some old => exact (h.lists peer old hget).1
      have hnew : s.nextConnectionId + 1 ∉ s.connectionsByPeer[peer]?.getD [] := by
        rw [h.index]
        rintro ⟨c, hc, -⟩
        rw [h.getElem?_next] at hc
        cases hc
      apply hold.append (List.nodup_singleton _)
      intro a ha hb
      rw [List.mem_singleton] at hb
      rw [hb] at ha
      exact hnew ha
    case isFalse => exact h.lists q ids hids

theorem get_dropId (m : TreeMap PeerId (List Nat)) (peer q : PeerId) (cid : Nat) (ids : List Nat)
    (h : (dropId m peer cid)[q]? = some ids) :
    m[q]? = some ids ∨ ∃ old, m[q]? = some old ∧ ids = old.filter (· ≠ cid) ∧ ids ≠ [] := by
  unfold dropId at h
  cases hold : m[peer]? with
  | none =>
    rw [hold] at h
    exact .inl h
  | some old =>
    rw [hold] at h
    dsimp only at h
    split at h
    case isTrue =>
      rw [get_erase] at h
      split at h
      case isTrue => cases h
      case isFalse => exact .inl h
    case isFalse hne =>
      rw [get_insert] at h
      split at h
      case isTrue hq =>
        subst hq
        cases h
        exact .inr ⟨old, hold, rfl, fun hnil => hne (List.isEmpty_iff.mpr hnil)⟩
      case isFalse => exact .inl h

theorem Agrees.handleConnectionClosed (h : s.Agrees) (cid : Nat) :
    (s.handleConnectionClosed cid).2.Agrees := by
  have hindexed := h.toIndexed.handleConnectionClosed cid
  unfold Connections.handleConnectionClosed at hindexed ⊢
  cases hc : s.connectionsById[cid]? with
  | none => exact h
  | some c =>
    rw [hc] at hindexed
    refine ⟨hindexed, fun i d hd => ?_, fun q ids hids => ?_⟩
    · rw [get_erase] at hd
      split at hd
      case isTrue => cases hd
      case isFalse => exact h.own i d hd
    · obtain hids | ⟨old, hold, rfl, hne⟩ := get_dropId _ _ _ _ _ hids
      · exact h.lists q ids hids
      · exact ⟨(h.lists q old hold).1.filter _, hne⟩

end Connections

namespace System

theorem agrees_lifecycle (h : s.swarm.connections.Agrees) (hstep : Lifecycle s s') :
    s'.swarm.connections.Agrees := by
  cases hstep with
  | aside ha =>
    rw [ha.connections]
    exact h
  | opened peer hc =>
    rw [hc]
    exact h.handleConnectionOpened peer
  | closed cid c hcid hc =>
    rw [hc]
    exact h.handleConnectionClosed cid

theorem agrees_run (localPeerId : PeerId) (routing filterPrivate filterLoopback : Bool)
    (handlers : List ProtocolHandler) (actions : List Action) :
    let s := run step (start (.new localPeerId routing filterPrivate filterLoopback handlers)) actions
    Tracked [] [] s ∧ s.swarm.connections.Agrees := by
  apply invariant_run (I := fun s => Tracked [] [] s ∧ s.swarm.connections.Agrees)
  · exact fun s a ⟨ht, ha⟩ => ⟨tracked_step ht a, agrees_lifecycle ha (lifecycle_step ht a)⟩
  · exact ⟨tracked_start localPeerId routing filterPrivate filterLoopback handlers,
      Connections.agrees_new⟩

/-- In every state of a run, a connection is in the list of its remote peer, once, and in no other
list; and no list is empty or has the id of a connection that is not there. -/
theorem indexes_agree (localPeerId : PeerId) (routing filterPrivate filterLoopback : Bool)
    (handlers : List ProtocolHandler) (actions : List Action) :
    let s := (run step (start (.new localPeerId routing filterPrivate filterLoopback handlers))
      actions).swarm.connections
    (∀ (cid : Nat) (c : Connection), s.connectionsById[cid]? = some c →
      (s.connectionsByPeer[c.remotePeer]?.getD []).count cid = 1 ∧
        ∀ q, q ≠ c.remotePeer → cid ∉ s.connectionsByPeer[q]?.getD []) ∧
      ∀ (peer : PeerId) (ids : List Nat), s.connectionsByPeer[peer]? = some ids →
        ids ≠ [] ∧ ∀ cid ∈ ids, cid ∈ s.connectionsById := by
  intro s
  have h : s.Agrees :=
    (agrees_run localPeerId routing filterPrivate filterLoopback handlers actions).2
  constructor
  · intro cid c hc
    have hmem : cid ∈ s.connectionsByPeer[c.remotePeer]?.getD [] := (h.index _ _).mpr ⟨c, hc, rfl⟩
    constructor
    · obtain ⟨ids, hids⟩ : ∃ ids, s.connectionsByPeer[c.remotePeer]? = some ids := by
        cases hids : s.connectionsByPeer[c.remotePeer]? with
        | none =>
          rw [hids] at hmem
          exact absurd hmem List.not_mem_nil
        | some ids => exact ⟨ids, rfl⟩
      rw [hids] at hmem ⊢
      exact List.count_eq_one_of_mem (h.lists _ _ hids).1 hmem
    · intro q hq hin
      obtain ⟨d, hd, rfl⟩ := (h.index q cid).mp hin
      rw [hc] at hd
      cases hd
      exact hq rfl
  · intro peer ids hids
    refine ⟨(h.lists peer ids hids).2, fun cid hcid => ?_⟩
    obtain ⟨d, hd, -⟩ := (h.index peer cid).mp (by rw [hids]; exact hcid)
    rw [TreeMap.mem_iff_isSome_getElem?, hd]
    rfl

end System

end Libp2pRs.Swarm
