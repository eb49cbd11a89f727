import Libp2pRs.Swarm.Lifecycle

/-!
# Banned peers

The Swarm keeps a set of banned peers, and no function reads it. What a run does with a banned peer is
what it does with any other.
-/

namespace Libp2pRs.Swarm

open Lib Libp2pRs.Core Std

namespace System

def Banned (p : PeerId) (actions : List Action) : Prop :=
  Since (fun _ a => a = .banPeerId p) (fun a => a ≠ .unbanPeerId p) actions

def Adds (s : System) (a : Action) (p : PeerId) : Prop :=
  ∃ (cid : Nat) (c : Connection), (s.step a).swarm.connections.connectionsById[cid]? = some c ∧
    s.swarm.connections.connectionsById[cid]? = none ∧ c.remotePeer = p

def Dials (s : System) (a : Action) (p : PeerId) : Prop :=
  ∃ d ∈ (s.step a).started, d ∉ s.started ∧ d.peer = p

/-! ## The set of banned peers -/

theorem bannedPeers_onEvent (h : Tracked event.tid.toList [] s) :
    (s.onEvent event).swarm.bannedPeers = s.swarm.bannedPeers := by
  cases event with
  | connectionEstablished streamMuxer direction tid =>
    rw [onEvent, handleConnectionOpened_eq tid h]
    exact ((Frame.refl (s.notify _)).completeDial _ tid).bannedPeers
  | connectionClosed cid =>
    rw [onEvent, handleConnectionClosed]
    split
    · rfl
    · rfl
  | streamOpened cid sid => exact ((Frame.refl s).handleStreamOpened cid sid).bannedPeers
  | outgoingConnectionError peer error tid => exact ((Frame.refl s).complete tid _).bannedPeers

theorem mem_bannedPeers_step (h : Tracked [] [] s) (a : Action) (p : PeerId) :
    p ∈ (s.step a).swarm.bannedPeers ↔
      a = .banPeerId p ∨ p ∈ s.swarm.bannedPeers ∧ a ≠ .unbanPeerId p := by
  have hframe := frame_stepRunning s a
  rw [step_eq h]
  cases a with
  | handle =>
    have hsame : (s.stepRunning .handle).swarm.bannedPeers = s.swarm.bannedPeers := by
      rw [stepRunning]
      split
      · rfl
      · rename_i event events hevents
        exact bannedPeers_onEvent (h.take hevents)
    rw [hsame]
    simp
  | banPeerId peer =>
    change p ∈ insert peer s.swarm.bannedPeers ↔ _
    simp [eq_comm]
  | unbanPeerId peer =>
    change p ∈ s.swarm.bannedPeers.erase peer ↔ _
    simp [eq_comm, and_comm]
  | _ =>
    rw [(hframe trivial).bannedPeers]
    simp

theorem mem_bannedPeers_run (localPeerId : PeerId) (routing filterPrivate filterLoopback : Bool)
    (handlers : List ProtocolHandler) (actions : List Action) (p : PeerId) :
    p ∈ (run step (start (.new localPeerId routing filterPrivate filterLoopback handlers))
      actions).swarm.bannedPeers ↔ Banned p actions := by
  induction actions using List.reverseRecOn with
  | nil =>
    refine iff_of_false ?_ not_since_nil
    exact Finset.notMem_empty p
  | append_singleton actions a ih =>
    have htracked :=
      (agrees_run localPeerId routing filterPrivate filterLoopback handlers actions).1
    rw [run_append, run_cons, run_nil, mem_bannedPeers_step htracked, ih]
    rw [Banned, Banned, since_concat]

/-! ## Connections and dials -/

def established (s : System) : Action → Option PeerId
  | .handle =>
    match s.events with
    | .connectionEstablished streamMuxer _ _ :: _ => some streamMuxer.remotePeer
    | _ => none
  | _ => none

/-- The peer that a command makes the Swarm dial: it is neither connected nor the Swarm itself, and
there is something to dial it with. -/
def asked (s : System) : Action → Option PeerId
  | .connect peer _ =>
    if (s.swarm.getBestConn peer).isNone ∧ s.swarm.localPeerId ≠ peer then some peer else none
  | .newConnection peer useRouting known | .newStream peer _ useRouting known =>
    if (s.swarm.getBestConn peer).isNone ∧ s.swarm.localPeerId ≠ peer ∧
      (dialWith s.swarm useRouting known).isSome then some peer else none
  | _ => none

theorem not_adds_of_eq {s : System} (p : PeerId)
    (h : (s.step a).swarm.connections = s.swarm.connections) : ¬s.Adds a p := by
  rintro ⟨cid, c, hc, hnone, -⟩
  rw [h, hnone] at hc
  cases hc

theorem adds_iff {s : System} (ht : Tracked [] [] s) (hagrees : s.swarm.connections.Agrees)
    (a : Action) (p : PeerId) : s.Adds a p ↔ s.established a = some p := by
  have hframe := frame_stepRunning s a
  have hother : none ≠ some p := (Option.some_ne_none p).symm
  cases a with
  | handle =>
    cases hevents : s.events with
    | nil =>
      refine iff_of_false (not_adds_of_eq p ?_) ?_
      · rw [step_eq ht, stepRunning, hevents]
      · rw [established, hevents]
        exact hother
    | cons event events =>
      have htaken := ht.take hevents
      have hstep : s.step .handle = { s with events := events }.onEvent event := by
        rw [step_eq ht, stepRunning, hevents]
      rw [established, hevents]
      cases event with
      | connectionEstablished streamMuxer direction tid =>
        have hconnections : (s.step .handle).swarm.connections =
            (s.swarm.connections.handleConnectionOpened streamMuxer.remotePeer).2 := by
          rw [hstep, onEvent, handleConnectionOpened_eq tid htaken]
          rfl
        rw [Option.some_inj]
        constructor
        · rintro ⟨cid, c, hc, hnone, rfl⟩
          rw [hconnections, Connections.connectionsById_handleConnectionOpened] at hc
          split at hc
          · cases hc
            rfl
          · rw [hnone] at hc
            cases hc
        · rintro rfl
          let cid := s.swarm.connections.nextConnectionId + 1
          refine ⟨cid, ⟨cid, streamMuxer.remotePeer⟩, ?_, hagrees.getElem?_next, rfl⟩
          rw [hconnections, Connections.connectionsById_handleConnectionOpened, if_pos rfl]
      | connectionClosed cid =>
        refine iff_of_false ?_ hother
        rintro ⟨i, c, hc, hnone, -⟩
        rw [hstep, onEvent, handleConnectionClosed, Connections.handleConnectionClosed] at hc
        cases hcid : s.swarm.connections.connectionsById[cid]? with
        | none =>
          rw [hcid] at hc
          cases hnone.symm.trans hc
        | some d =>
          rw [hcid] at hc
          change (s.swarm.connections.connectionsById.erase cid)[i]? = some c at hc
          rw [get_erase, hnone, ite_self] at hc
          cases hc
      | streamOpened cid sid =>
        refine iff_of_false (not_adds_of_eq p ?_) hother
        rw [hstep]
        exact ((Frame.refl { s with events := events }).handleStreamOpened cid sid).connections
      | outgoingConnectionError peer error tid =>
        refine iff_of_false (not_adds_of_eq p ?_) hother
        rw [hstep]
        exact ((Frame.refl { s with events := events }).complete tid _).connections
  | banPeerId peer | unbanPeerId peer =>
    refine iff_of_false (not_adds_of_eq p ?_) hother
    rw [step_eq ht]
    rfl
  | _ =>
    refine iff_of_false (not_adds_of_eq p ?_) hother
    rw [step_eq ht]
    exact (hframe trivial).connections

theorem started_call (s : System) (f : DialCallback) (r : Except SwarmError Connection) :
    (s.call f r).started = s.started := by
  cases f with
  | reply cmd => rfl
  | openStream pids cmd => cases r <;> rfl

theorem started_complete (s : System) (tid : Nat) (r : Except SwarmError Connection) :
    (s.complete tid r).started = s.started := by
  unfold complete
  split
  · rfl
  · exact started_call _ _ _

theorem started_completeDial (s : System) (connection : Connection) (tid : Option Nat) :
    (s.completeDial connection tid).started = s.started := by
  cases tid with
  | none => rfl
  | some tid => exact started_complete s tid _

theorem started_onEvent (s : System) (event : SwarmEvent) :
    (s.onEvent event).started = s.started := by
  cases event with
  | connectionEstablished streamMuxer direction tid =>
    rw [onEvent, handleConnectionOpened]
    dsimp only
    split
    · exact started_completeDial (s.notify _) _ tid
    · exact started_completeDial (s.notify _) _ tid
  | connectionClosed cid =>
    rw [onEvent, handleConnectionClosed]
    split
    · rfl
    · rfl
  | streamOpened cid sid =>
    rw [onEvent, handleStreamOpened]
    split
    · rfl
    · rfl
  | outgoingConnectionError peer error tid => exact started_complete s tid _

theorem started_dialed (s : System) (d : Dial) (result : Except SwarmError StreamMuxer) :
    (s.dialed d result).started = s.started := by
  cases result with
  | ok streamMuxer =>
    rw [dialed]
    split
    · rfl
    · rfl
  | error e => rfl

/-- The dials that were started, when the step dials `peer`. -/
def StartedBy (s s' : System) (asked : Option PeerId) : Prop :=
  match asked with
  | none => s'.started = s.started
  | some peer => ∃ addrs, s'.started = s.started ++ [⟨s.swarm.nextTid + 1, peer, addrs⟩]

theorem startedBy_dialAddr (s : System) (peer : PeerId) (addrs : List Multiaddr) (f : DialCallback) :
    StartedBy s (s.dialAddr peer addrs f) (if s.swarm.localPeerId ≠ peer then some peer else none) := by
  rw [dialAddr]
  by_cases hself : s.swarm.localPeerId = peer
  · rw [if_pos hself, if_neg (not_not.mpr hself)]
    exact started_call s f _
  · rw [if_neg hself, if_pos hself]
    exact ⟨_, rfl⟩

theorem startedBy_dialPeer (s : System) (peer : PeerId) (useRouting : Bool)
    (known : Option (List Multiaddr)) (f : DialCallback) :
    StartedBy s (s.dialPeer peer useRouting known f)
      (if s.swarm.localPeerId ≠ peer ∧ (dialWith s.swarm useRouting known).isSome then some peer
        else none) := by
  rw [dialPeer]
  by_cases hself : s.swarm.localPeerId = peer
  · rw [if_pos hself, if_neg (fun h => h.1 hself)]
    exact started_call s f _
  · rw [if_neg hself]
    cases hwith : dialWith s.swarm useRouting known with
    | none =>
      rw [if_neg (fun h => Bool.false_ne_true h.2)]
      exact started_call s f _
    | some addrs =>
      rw [if_pos ⟨hself, rfl⟩]
      exact ⟨_, rfl⟩

theorem startedBy_stepRunning (s : System) (a : Action) :
    StartedBy s (s.stepRunning a) (s.asked a) := by
  cases a with
  | connect peer addrs =>
    rw [stepRunning, onConnect, asked]
    rw [show s.receive.swarm = s.swarm from rfl]
    cases s.swarm.getBestConn peer with
    | none =>
      simp only [Option.isNone_none, true_and]
      exact startedBy_dialAddr s.receive peer addrs _
    | some connection =>
      rw [if_neg (fun h => Bool.false_ne_true h.1)]
      rfl
  | newConnection peer useRouting known =>
    rw [stepRunning, onNewConnection, asked]
    rw [show s.receive.swarm = s.swarm from rfl]
    cases s.swarm.getBestConn peer with
    | none =>
      simp only [Option.isNone_none, true_and]
      exact startedBy_dialPeer s.receive peer useRouting known _
    | some connection =>
      rw [if_neg (fun h => Bool.false_ne_true h.1)]
      rfl
  | newStream peer pids useRouting known =>
    rw [stepRunning, onNewStream, asked]
    rw [show s.receive.swarm = s.swarm from rfl]
    cases s.swarm.getBestConn peer with
    | none =>
      simp only [Option.isNone_none, true_and]
      exact startedBy_dialPeer s.receive peer useRouting known _
    | some connection =>
      rw [if_neg (fun h => Bool.false_ne_true h.1)]
      rfl
  | closeConnection peer =>
    change (s.receive.onCloseConnection s.received peer).started = s.started
    rw [onCloseConnection]
    split
    · rfl
    · rfl
  | handle =>
    change (s.stepRunning .handle).started = s.started
    rw [stepRunning]
    split
    · rfl
    · exact started_onEvent _ _
  | dialed tid result =>
    change (s.stepRunning (.dialed tid result)).started = s.started
    rw [stepRunning]
    split
    · rfl
    · exact started_dialed s _ result
  | opened cmd result =>
    change (s.stepRunning (.opened cmd result)).started = s.started
    rw [stepRunning]
    split
    · rfl
    · cases result <;> rfl
  | closeStream cid sid | accepted streamMuxer | closed cid | inboundStream cid sid => rfl
  | banPeerId peer | unbanPeerId peer => rfl

theorem dials_iff (ht : Tracked [] [] s) (a : Action) (p : PeerId) :
    s.Dials a p ↔ s.asked a = some p := by
  have hstarted := startedBy_stepRunning s a
  rw [Dials, step_eq ht]
  cases hasked : s.asked a with
  | none =>
    rw [hasked] at hstarted
    refine iff_of_false ?_ nofun
    rintro ⟨d, hd, hnot, -⟩
    rw [show (s.stepRunning a).started = s.started from hstarted] at hd
    exact hnot hd
  | some peer =>
    rw [hasked] at hstarted
    obtain ⟨addrs, heq⟩ := hstarted
    rw [heq, Option.some_inj]
    constructor
    · rintro ⟨d, hd, hnot, rfl⟩
      rcases List.mem_append.mp hd with hd | hd
      · exact absurd hd hnot
      · rw [List.mem_singleton.mp hd]
    · rintro rfl
      refine ⟨_, List.mem_append_right _ List.mem_cons_self, fun hold => ?_, rfl⟩
      have htid : s.swarm.nextTid + 1 ∈ s.started.map Dial.tid :=
        List.mem_map_of_mem (f := Dial.tid) hold
      rw [ht.started, List.mem_range'_1] at htid
      omega

/-! ## Bans -/

/-- The step concerns no banned peer: no connection with one is established, and no command makes the
Swarm dial one. -/
def Admissible (s : System) (a : Action) : Prop :=
  ∀ p ∈ s.swarm.bannedPeers, s.established a ≠ some p ∧ s.asked a ≠ some p

theorem eachStep_iff_split :
    EachStep step G s es ↔ ∀ pre e post, es = pre ++ e :: post → G (run step s pre) e := by
  induction es generalizing s with
  | nil =>
    refine iff_of_true trivial fun pre e post h => ?_
    exact absurd h.symm (List.append_ne_nil_of_right_ne_nil _ (List.cons_ne_nil _ _))
  | cons e es ih =>
    rw [EachStep, ih]
    constructor
    · rintro ⟨he, hrest⟩ pre f post h
      cases pre with
      | nil =>
        cases h
        exact he
      | cons g pre =>
        obtain ⟨rfl, hes⟩ := List.cons.inj h
        exact hrest pre f post hes
    · intro h
      exact ⟨h [] e es rfl, fun pre f post hes => h (e :: pre) f post (by rw [hes]; rfl)⟩

/-- A run adds no connection to a banned peer and dials none exactly if no connection with a banned
peer is established in it and no command asks for one. -/
theorem bans_respected_iff (localPeerId : PeerId) (routing filterPrivate filterLoopback : Bool)
    (handlers : List ProtocolHandler) (actions : List Action) :
    let s₀ := start (.new localPeerId routing filterPrivate filterLoopback handlers)
    (∀ pre a post, actions = pre ++ a :: post → ∀ p, Banned p pre →
      ¬(run step s₀ pre).Adds a p ∧ ¬(run step s₀ pre).Dials a p) ↔
        EachStep step Admissible s₀ actions := by
  intro s₀
  rw [eachStep_iff_split]
  refine forall_congr' fun pre => forall_congr' fun a => forall_congr' fun post =>
    imp_congr_right fun _ => forall_congr' fun p => ?_
  obtain ⟨ht, hagrees⟩ := agrees_run localPeerId routing filterPrivate filterLoopback handlers pre
  rw [← mem_bannedPeers_run localPeerId routing filterPrivate filterLoopback handlers,
    adds_iff ht hagrees, dials_iff ht]

/-- A peer is banned. The event of a connection with it adds the connection, and a command dials it. -/
theorem banned_peer_connects :
    let s₀ := start (.new (.ofByte 0) false false true [])
    let s₁ := run step s₀ [.banPeerId (.ofByte 1), .accepted ⟨0, .ofByte 1⟩]
    Banned (.ofByte 1) [.banPeerId (.ofByte 1), .accepted ⟨0, .ofByte 1⟩] ∧
      s₁.Adds .handle (.ofByte 1) ∧ s₁.Dials (.connect (.ofByte 1) []) (.ofByte 1) := by
  intro s₀ s₁
  obtain ⟨ht, hagrees⟩ := agrees_run (.ofByte 0) false false true []
    [.banPeerId (.ofByte 1), .accepted ⟨0, .ofByte 1⟩]
  refine ⟨⟨[], _, _, rfl, rfl, ?_⟩, (adds_iff ht hagrees _ _).mpr rfl, (dials_iff ht _ _).mpr ?_⟩
  · simp
  · decide

end System

end Libp2pRs.Swarm
