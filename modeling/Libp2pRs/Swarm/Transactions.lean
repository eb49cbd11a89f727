import Libp2pRs.Swarm.Loop

/-!
# Every dial is answered once

A dial has a transaction, which keeps its callback. The transaction ends when the result of the dial is
handled. A command waits for a transaction, for a stream that is being opened, or for nothing.

A transaction id is in one of three places: the dial runs, its result waits in the queue, or the result
was handled. A command is in one of three places as well: a transaction has its reply to send, a task
that opens a stream has it, or it was sent. `Tracked` counts them.
-/

namespace Libp2pRs.Swarm

open Lib Libp2pRs.Core List

theorem perm_entries_erase {α : Type} {β : α → Type} [DecidableEq α] {m : AList β} {a : α} {b : β a}
    (h : m.lookup a = some b) : m.entries.Perm (⟨a, b⟩ :: (m.erase a).entries) := by
  have hmem : a ∈ m.keys := AList.lookup_isSome.mp (h ▸ rfl)
  obtain ⟨c, l₁, l₂, -, hentries, herase⟩ := exists_of_kerase hmem
  have hc : m.lookup a = some c := by
    apply AList.mem_lookup_iff.mpr
    rw [hentries]
    exact mem_append_right l₁ mem_cons_self
  rw [h] at hc
  cases hc
  have hrest : (m.erase a).entries = l₁ ++ l₂ := herase
  rw [hrest, hentries]
  exact perm_middle

def queued (events : List SwarmEvent) : List Nat := events.filterMap SwarmEvent.tid

def SwarmState.waiting (s : SwarmState) : List Nat := s.dialTransactions.entries.map fun x => x.2.cmd

namespace System

/-- All transactions and commands are accounted for, where the loop has the results of `tids` and the
replies of `cmds` in its hand. -/
structure Tracked (tids cmds : List Nat) (s : System) : Prop where
  ids : ∀ t, (s.dials.map Dial.tid).count t + (queued s.events).count t + tids.count t +
    s.handled.count t = (s.started.map Dial.tid).count t
  transactions : ∀ t, s.swarm.dialTransactions.keys.count t =
    (s.dials.map Dial.tid).count t + (queued s.events).count t + tids.count t
  started : s.started.map Dial.tid = List.range' 1 s.swarm.nextTid
  invoked : s.invoked = s.handled
  replies : ∀ k, (s.replies.map Prod.fst).count k + (s.openings.map Opening.cmd).count k +
    s.swarm.waiting.count k + cmds.count k = (List.range s.received).count k
  running : s.panicked = false

namespace Tracked

variable {s : System} {tids cmds : List Nat}

variable {cmd : Nat}

theorem send (h : Tracked tids [cmd] s) (reply : Reply) : Tracked tids [] (s.send cmd reply) := by
  refine { h with replies := fun k => ?_ }
  have hk := h.replies k
  simp only [System.send, map_append, count_append, map_cons, map_nil,
    count_nil]
  omega

theorem openStream (h : Tracked tids [cmd] s) (cid : Nat) (pids : List ProtocolId) :
    Tracked tids [] (s.openStream cid pids cmd) := by
  refine { h with replies := fun k => ?_ }
  have hk := h.replies k
  simp only [System.openStream, map_append, count_append, map_cons, map_nil,
    count_nil]
  omega

variable {f : DialCallback}

theorem call (h : Tracked tids [f.cmd] s) (r : Except SwarmError Connection) :
    Tracked tids [] (s.call f r) := by
  cases f with
  | reply cmd => exact h.send _
  | openStream pids cmd =>
    cases r with
    | ok connection => exact h.openStream _ _
    | error e => exact h.send _

theorem next_notMem (h : Tracked tids cmds s) : s.swarm.nextTid + 1 ∉ s.swarm.dialTransactions := by
  have hids := h.ids (s.swarm.nextTid + 1)
  have hkeys := h.transactions (s.swarm.nextTid + 1)
  have hnew : (s.started.map Dial.tid).count (s.swarm.nextTid + 1) = 0 := by
    rw [count_eq_zero, h.started, mem_range'_1]
    omega
  rw [AList.mem_keys, ← count_pos_iff]
  omega

theorem dial (h : Tracked tids [f.cmd] s) (peer : PeerId) (addrs : Option (List Multiaddr)) :
    Tracked tids [] (s.dial peer addrs f) := by
  have hnew := h.next_notMem
  constructor
  · intro t
    have ht := h.ids t
    simp only [System.dial, map_append, count_append, map_cons, map_nil]
    omega
  · intro t
    have ht := h.transactions t
    simp only [System.dial, map_append, count_append, map_cons, map_nil]
    rw [AList.keys_insert, count_cons, erase_of_not_mem (AList.mem_keys.not.mp hnew), ht]
    simp only [count_singleton]
    omega
  · simp only [System.dial, map_append, map_cons, map_nil, h.started]
    rw [range'_1_concat, Nat.add_comm 1]
  · exact h.invoked
  · intro k
    have hk := h.replies k
    have hwaiting : (s.dial peer addrs f).swarm.waiting = f.cmd :: s.swarm.waiting := by
      simp only [System.dial, SwarmState.waiting, AList.entries_insert_of_notMem hnew, map_cons]
    rw [hwaiting, count_cons]
    rw [count_singleton] at hk
    simp only [System.dial, count_nil]
    omega
  · exact h.running

theorem receive (h : Tracked [] [] s) : Tracked [] [s.received] s.receive := by
  refine { h with replies := fun k => ?_ }
  have hk := h.replies k
  simp only [System.receive, range_succ, count_append, count_nil] at hk ⊢
  omega

theorem dialAddr (h : Tracked tids [f.cmd] s) (peer : PeerId) (addrs : List Multiaddr) :
    Tracked tids [] (s.dialAddr peer addrs f) := by
  unfold System.dialAddr
  split
  · exact h.call _
  · exact h.dial peer _

theorem dialPeer (h : Tracked tids [f.cmd] s) (peer : PeerId) (useRouting : Bool)
    (known : Option (List Multiaddr)) : Tracked tids [] (s.dialPeer peer useRouting known f) := by
  unfold System.dialPeer
  split
  · exact h.call _
  · split
    · exact h.dial peer _
    · exact h.call _

theorem onConnect (h : Tracked tids [cmd] s) (peer : PeerId) (addrs : List Multiaddr) :
    Tracked tids [] (s.onConnect cmd peer addrs) := by
  unfold System.onConnect
  split
  · exact h.send _
  · exact dialAddr (f := .reply cmd) h peer addrs

theorem onNewConnection (h : Tracked tids [cmd] s) (peer : PeerId) (useRouting : Bool)
    (known : Option (List Multiaddr)) :
    Tracked tids [] (s.onNewConnection cmd peer useRouting known) := by
  unfold System.onNewConnection
  split
  · exact h.send _
  · exact dialPeer (f := .reply cmd) h peer useRouting known

theorem onCloseConnection (h : Tracked tids [cmd] s) (peer : PeerId) :
    Tracked tids [] (s.onCloseConnection cmd peer) := by
  unfold System.onCloseConnection
  split
  · exact h.send _
  · exact h.send _

theorem onNewStream (h : Tracked tids [cmd] s) (peer : PeerId) (pids : List ProtocolId)
    (useRouting : Bool) (known : Option (List Multiaddr)) :
    Tracked tids [] (s.onNewStream cmd peer pids useRouting known) := by
  unfold System.onNewStream
  split
  · exact h.openStream _ pids
  · exact dialPeer (f := .openStream pids cmd) h peer useRouting known

/-! ### Events -/

theorem notify (h : Tracked tids cmds s) (notice : Nat → Notice) :
    Tracked tids cmds (s.notify notice) := { h with }

theorem of_swarm (h : Tracked tids cmds s) {swarm : SwarmState}
    (htid : swarm.nextTid = s.swarm.nextTid)
    (htransactions : swarm.dialTransactions = s.swarm.dialTransactions) :
    Tracked tids cmds { s with swarm := swarm } := by
  have hwaiting : swarm.waiting = s.swarm.waiting := by
    rw [SwarmState.waiting, htransactions]
    rfl
  exact
    { h with
      transactions := htransactions ▸ h.transactions
      started := htid ▸ h.started
      replies := hwaiting ▸ h.replies }

theorem complete {tid : Nat} (h : Tracked [tid] [] s) (r : Except SwarmError Connection) :
    Tracked [] [] (s.complete tid r) := by
  have hmem : tid ∈ s.swarm.dialTransactions := by
    rw [AList.mem_keys, ← count_pos_iff, h.transactions, count_singleton_self]
    omega
  obtain ⟨f, hf⟩ := Option.isSome_iff_exists.mp (AList.lookup_isSome.mpr hmem)
  have hperm := perm_entries_erase hf
  have hkeys (t : Nat) : s.swarm.dialTransactions.keys.count t =
      [tid].count t + (s.swarm.dialTransactions.erase tid).keys.count t := by
    rw [← count_append]
    exact (hperm.map Sigma.fst).count_eq t
  rw [System.complete, hf]
  apply call
  constructor
  · intro t
    have ht := h.ids t
    simp only [count_append, count_nil]
    omega
  · intro t
    have ht := h.transactions t
    have hsplit := hkeys t
    simp only [count_nil]
    omega
  · exact h.started
  · simp only [h.invoked]
  · intro k
    have hk := h.replies k
    have hwaiting : s.swarm.waiting.count k =
        [f.cmd].count k + ((s.swarm.dialTransactions.erase tid).entries.map fun x => x.2.cmd).count k := by
      rw [← count_append]
      exact (hperm.map fun x => x.2.cmd).count_eq k
    simp only [SwarmState.waiting, count_nil] at hk hwaiting ⊢
    omega
  · exact h.running

theorem completeDial (h : Tracked tid.toList [] s) (connection : Connection) :
    Tracked [] [] (s.completeDial connection tid) := by
  cases tid with
  | none => exact h
  | some tid => exact h.complete _

theorem handleConnectionOpened (h : Tracked tid.toList [] s)
    (streamMuxer : StreamMuxer) : Tracked [] [] (s.handleConnectionOpened streamMuxer tid) := by
  unfold System.handleConnectionOpened
  have hdone := (h.notify (.connected · (s.swarm.connections.nextConnectionId + 1))).completeDial
    ⟨s.swarm.connections.nextConnectionId + 1, streamMuxer.remotePeer⟩
  dsimp only
  split
  · exact hdone
  · exact hdone.of_swarm rfl rfl

theorem handleConnectionClosed (h : Tracked tids cmds s) (cid : Nat) :
    Tracked tids cmds (s.handleConnectionClosed cid) := by
  unfold System.handleConnectionClosed
  split
  · exact h
  · apply notify
    exact h.of_swarm rfl rfl

theorem handleStreamOpened (h : Tracked tids cmds s) (cid sid : Nat) :
    Tracked tids cmds (s.handleStreamOpened cid sid) := by
  unfold System.handleStreamOpened
  split
  · exact h.of_swarm rfl rfl
  · exact h

theorem onEvent {event : SwarmEvent} (h : Tracked event.tid.toList [] s) :
    Tracked [] [] (s.onEvent event) := by
  cases event with
  | connectionEstablished streamMuxer direction tid => exact h.handleConnectionOpened streamMuxer
  | connectionClosed cid => exact h.handleConnectionClosed cid
  | streamOpened cid sid => exact h.handleStreamOpened cid sid
  | outgoingConnectionError peer error tid => exact h.complete _

theorem take {event : SwarmEvent} {events : List SwarmEvent} (h : Tracked [] [] s)
    (hevents : s.events = event :: events) :
    Tracked event.tid.toList [] { s with events := events } := by
  have hqueued (t : Nat) :
      (queued s.events).count t = event.tid.toList.count t + (queued events).count t := by
    rw [hevents, queued, filterMap_cons, ← count_append]
    cases event.tid <;> rfl
  constructor
  · intro t
    have ht := h.ids t
    have hsplit := hqueued t
    rw [count_nil] at ht
    dsimp only
    omega
  · intro t
    have ht := h.transactions t
    have hsplit := hqueued t
    rw [count_nil] at ht
    dsimp only
    omega
  · exact h.started
  · exact h.invoked
  · exact h.replies
  · exact h.running

theorem post {event : SwarmEvent} (h : Tracked event.tid.toList cmds s) :
    Tracked [] cmds (s.post event) := by
  have hqueued (t : Nat) :
      (queued (s.post event).events).count t = (queued s.events).count t + event.tid.toList.count t := by
    simp only [System.post, queued, filterMap_append, count_append, filterMap_cons,
      filterMap_nil]
    cases event.tid <;> rfl
  constructor
  · intro t
    have ht := h.ids t
    rw [hqueued, count_nil]
    simp only [System.post]
    omega
  · intro t
    have ht := h.transactions t
    rw [hqueued, count_nil]
    simp only [System.post]
    omega
  · exact h.started
  · exact h.invoked
  · exact h.replies
  · exact h.running

theorem dialed {d : Dial} (h : Tracked [] [] s) (hd : d ∈ s.dials)
    (result : Except SwarmError StreamMuxer) : Tracked [] [] (s.dialed d result) := by
  have hdials (t : Nat) : (s.dials.map Dial.tid).count t =
      [d.tid].count t + ((s.dials.erase d).map Dial.tid).count t := by
    rw [← count_append]
    exact ((perm_cons_erase hd).map Dial.tid).count_eq t
  have hhand : Tracked [d.tid] [] { s with dials := s.dials.erase d } := by
    constructor
    · intro t
      have ht := h.ids t
      have hsplit := hdials t
      rw [count_nil] at ht
      dsimp only
      omega
    · intro t
      have ht := h.transactions t
      have hsplit := hdials t
      rw [count_nil] at ht
      dsimp only
      omega
    · exact h.started
    · exact h.invoked
    · exact h.replies
    · exact h.running
  cases result with
  | ok streamMuxer =>
    rw [System.dialed]
    split
    · apply post
      exact hhand
    · exact h
  | error e =>
    apply post
    exact hhand

theorem opened {o : Opening} (h : Tracked [] [] s) (ho : o ∈ s.openings)
    (result : Except TransportError Nat) : Tracked [] [] (s.opened o result) := by
  have hhand : Tracked [] [o.cmd] { s with openings := s.openings.erase o } := by
    refine { h with replies := fun k => ?_ }
    have hk := h.replies k
    have hsplit : (s.openings.map Opening.cmd).count k =
        [o.cmd].count k + ((s.openings.erase o).map Opening.cmd).count k := by
      rw [← count_append]
      exact ((perm_cons_erase ho).map Opening.cmd).count_eq k
    rw [count_nil] at hk
    dsimp only
    omega
  cases result with
  | ok sid =>
    apply send
    apply post
    exact hhand
  | error e => exact hhand.send _

end Tracked

theorem tracked_step {s : System} (h : Tracked [] [] s) (a : Action) : Tracked [] [] (s.step a) := by
  rw [step, if_neg (by rw [h.running]; exact Bool.false_ne_true)]
  cases a with
  | connect peer addrs => exact h.receive.onConnect peer addrs
  | newConnection peer useRouting known => exact h.receive.onNewConnection peer useRouting known
  | newStream peer pids useRouting known =>
    exact h.receive.onNewStream peer pids useRouting known
  | closeConnection peer => exact h.receive.onCloseConnection peer
  | closeStream cid sid => exact h.of_swarm rfl rfl
  | handle =>
    rw [stepRunning]
    split
    · exact h
    · rename_i event events hevents
      exact (h.take hevents).onEvent
  | dialed tid result =>
    rw [stepRunning]
    split
    · exact h
    · rename_i d hd
      exact h.dialed (mem_of_find?_eq_some hd) result
  | accepted streamMuxer =>
    apply Tracked.post
    exact h
  | closed cid =>
    apply Tracked.post
    exact h
  | inboundStream cid sid =>
    apply Tracked.post
    exact h
  | opened cmd result =>
    rw [stepRunning]
    split
    · exact h
    · rename_i o ho
      exact h.opened (mem_of_find?_eq_some ho) result
  | banPeerId peer | unbanPeerId peer => exact h.of_swarm rfl rfl

theorem tracked_start (localPeerId : PeerId) (routing filterPrivate filterLoopback : Bool)
    (handlers : List ProtocolHandler) :
    Tracked [] [] (start (.new localPeerId routing filterPrivate filterLoopback handlers)) :=
  ⟨fun _ => rfl, fun _ => rfl, rfl, rfl, fun _ => rfl, rfl⟩

namespace Tracked

variable {s : System} (h : Tracked [] [] s)

include h

theorem count_started (t : Nat) : (s.started.map Dial.tid).count t ≤ 1 := by
  rw [h.started]
  exact nodup_iff_count_le_one.mp nodup_range' t

theorem mem_dialTransactions (t : Nat) :
    t ∈ s.swarm.dialTransactions ↔ t ∈ s.started.map Dial.tid ∧ t ∉ s.handled := by
  have hids := h.ids t
  have htransactions := h.transactions t
  have hstarted := h.count_started t
  rw [AList.mem_keys, ← count_pos_iff, ← count_pos_iff, ← count_eq_zero]
  rw [count_nil] at hids htransactions
  omega

theorem count_invoked (t : Nat) : s.invoked.count t = if t ∈ s.handled then 1 else 0 := by
  have hids := h.ids t
  have hstarted := h.count_started t
  rw [h.invoked]
  split
  case isTrue hmem =>
    rw [← count_pos_iff] at hmem
    omega
  case isFalse hmem => exact count_eq_zero.mpr hmem

theorem count_replies_le (k : Nat) : (s.replies.map Prod.fst).count k ≤ 1 := by
  have hreplies := h.replies k
  have hrange : (range s.received).count k ≤ 1 :=
    nodup_iff_count_le_one.mp nodup_range k
  omega

theorem settled (hdials : s.dials = []) (hevents : s.events = []) :
    (∀ t ∈ s.started.map Dial.tid, t ∈ s.handled) ∧
      ∀ k < s.received,
        (s.replies.map Prod.fst).count k + (s.openings.map Opening.cmd).count k = 1 := by
  have hnone (t : Nat) : s.swarm.dialTransactions.keys.count t = 0 := by
    rw [h.transactions, hdials, hevents]
    rfl
  constructor
  · intro t ht
    by_contra hmem
    have htransaction := (h.mem_dialTransactions t).mpr ⟨ht, hmem⟩
    rw [AList.mem_keys, ← count_pos_iff, hnone] at htransaction
    exact Nat.lt_irrefl 0 htransaction
  · intro k hk
    have hreplies := h.replies k
    have hwaiting : s.swarm.waiting = [] := by
      have hkeys : s.swarm.dialTransactions.keys = [] :=
        eq_nil_iff_forall_not_mem.mpr fun t => count_eq_zero.mp (hnone t)
      rw [SwarmState.waiting, map_eq_nil_iff]
      exact map_eq_nil_iff.mp hkeys
    have hrange : (range s.received).count k = 1 :=
      count_eq_one_of_mem nodup_range (mem_range.mpr hk)
    rw [hwaiting, count_nil] at hreplies
    omega

end Tracked

/-- In every run of the Swarm, no `expect` fails. The transactions are those of the dials whose result
was not handled yet; a callback is invoked once, when the result of its dial is handled; and no command
gets two replies. When all dials have ended and their results were handled, every callback was invoked
and every command has its reply, unless a stream is still being opened for it. -/
theorem dials_answered_once (localPeerId : PeerId) (routing filterPrivate filterLoopback : Bool)
    (handlers : List ProtocolHandler) (actions : List Action) :
    let s := run step (start (.new localPeerId routing filterPrivate filterLoopback handlers)) actions
    s.panicked = false ∧
      (∀ t, t ∈ s.swarm.dialTransactions ↔ t ∈ s.started.map Dial.tid ∧ t ∉ s.handled) ∧
      (∀ t, s.invoked.count t = if t ∈ s.handled then 1 else 0) ∧
      (∀ k, (s.replies.map Prod.fst).count k ≤ 1) ∧
      (s.dials = [] → s.events = [] →
        (∀ t ∈ s.started.map Dial.tid, s.invoked.count t = 1) ∧
          ∀ k < s.received,
            (s.replies.map Prod.fst).count k + (s.openings.map Opening.cmd).count k = 1) := by
  intro s
  have h : Tracked [] [] s := by
    apply invariant_run (I := Tracked [] [])
    · exact fun _ a hs => tracked_step hs a
    · exact tracked_start localPeerId routing filterPrivate filterLoopback handlers
  refine ⟨h.running, h.mem_dialTransactions, h.count_invoked, h.count_replies_le, ?_⟩
  intro hdials hevents
  obtain ⟨hhandled, hreplies⟩ := h.settled hdials hevents
  refine ⟨fun t ht => ?_, hreplies⟩
  rw [h.count_invoked, if_pos (hhandled t ht)]

/-- A command dials; the dial fails, and the command gets the error. -/
theorem failed_dial_answered :
    let s := run step (start (.new (.ofByte 0) false false true []))
      [.connect (.ofByte 1) [], .dialed 1 (.error .allDialsFailed), .handle]
    (s.replies.map Prod.fst).count 0 = 1 := by
  intro s
  have h := (dials_answered_once (.ofByte 0) false false true []
    [.connect (.ofByte 1) [], .dialed 1 (.error .allDialsFailed), .handle]).2.2.2.2
  exact (h rfl rfl).2 0 (by decide)

end System

end Libp2pRs.Swarm
