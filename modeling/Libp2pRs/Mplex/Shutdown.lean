import Libp2pRs.Mplex.Calls

/-!
# Closing a connection

A controller that closes the connection waits until it is told. The task first closes the channel of
stream commands and pauses the control commands; when the stream commands are done it goes on with the
control commands that have been queued behind the close, and when these are done it tells the closer.

While it goes on with the control commands the shutdown is in progress, and only a complete shutdown
makes the task refuse a stream. So a call that was queued behind the close may still get a stream.
-/

namespace Libp2pRs.Mplex

open Lib Libp2pRs.Core List Mplex.System Desk

/-- A connection since the close, with the commands of streams that have been handled and the calls for a
stream that have been queued behind the close. -/
structure Closing where
  system : System
  handled : List StreamCommand
  asked : List Nat

variable {w : Closing}

namespace Closing

def start (b : System) : Closing where
  system := b
  handled := []
  asked := (b.desk.controls.queue.filter ControlCommand.asksStream).map ControlCommand.number

/-- The calls for a stream that are queued. A call is not queued when the receiver is closed. -/
def asks (d : Desk) : System.Action → List Nat
  | .openStream | .acceptStream => if d.controls.closed then [] else [d.nextReply]
  | _ => []

def step (w : Closing) (a : System.Action) : Closing where
  system := w.system.step a
  handled := w.handled ++ if w.system.status = .running then w.system.desk.takes a else []
  asked := w.asked ++ asks w.system.desk a

/-- When the task takes a command of a controller, it is not a call for a stream. -/
def Quiet (w : Closing) : System.Action → Prop
  | .controlCommand _ =>
    w.system.status = .running → w.system.desk.paused = false →
      ∀ cmd ∈ w.system.desk.controls.queue.head?, cmd.asksStream = false
  | _ => True

/-- The shutdown is complete and the closer has been told, unless it does not wait any more. -/
def Done (r : Nat) (d : Desk) : Prop :=
  d.shutdown = .complete ∧ (r ∈ d.canceled ∨ (r, Reply.done) ∈ d.replies)

/-- The task alone brings the shutdown to its end and tells the closer. -/
def Finishes (s : System) (r : Nat) : Prop :=
  ∃ n m, ∃ t, run System.step s
      (List.replicate n (.streamCommand none) ++ List.replicate m (.controlCommand none)) = t ∧
    Done r t.desk

/-- What is to hold of a connection `w` that call `r` has closed in the state `b`. -/
structure InOrder (b : System) (r : Nat) (w : Closing) : Prop where
  announced : w.system.desk.announced = b.desk.announced
  refused : ∀ n ∈ w.asked, ∀ stream, (n, Reply.stream (.ok stream)) ∉ w.system.desk.replies
  answered : ∀ n ∈ w.asked,
    (∃ cmd ∈ w.system.desk.controls.queue, cmd.number = n) ∨ n ∈ w.system.desk.canceled ∨
      ∃ e, (n, Reply.stream (.error e)) ∈ w.system.desk.replies
  first : (r, Reply.done) ∈ w.system.desk.replies →
    w.handled = b.desk.streams.queue.map Prod.snd
  once : (w.system.desk.replies.map Prod.fst).count r ≤ 1
  told : w.system.desk.shutdown = .inProgress r ∨ Done r w.system.desk
  finishes : w.system.status = .running →
    (∀ cmd ∈ w.system.desk.controls.queue, cmd.asksStream = false) →
    (∀ entry ∈ w.system.desk.streams.queue, entry.2.frame.Fits) → Finishes w.system r

/-! ### What is kept -/

/-- What holds of the desk whether the task still runs or not. -/
structure Common (b : Desk) (r : Nat) (d : Desk) (handled : List StreamCommand) (calls : List Nat) :
    Prop where
  announced : d.announced = b.announced
  given : ∀ n stream, (n, Reply.stream (.ok stream)) ∈ d.replies →
    (n, Reply.stream (.ok stream)) ∈ b.replies ∨ b.waiting = some n
  waiting : ∀ n, d.waiting = some n → b.waiting = some n
  asked : ∀ n ∈ calls,
    (∃ cmd ∈ d.controls.queue, cmd.asksStream = true ∧ cmd.number = n) ∨ n ∈ d.canceled ∨
      ∃ e, (n, Reply.stream (.error e)) ∈ d.replies
  late : ∀ n ∈ calls, b.waiting ≠ some n ∧ n ∉ b.replies.map Prod.fst
  nextReply : b.nextReply ≤ d.nextReply
  shutdown : d.shutdown = .inProgress r ∨ handled = b.streams.queue.map Prod.snd ∧ Done r d

/-- What also holds while the task runs: first the commands of streams, then those of controllers. -/
structure Undone (b : Desk) (r : Nat) (d : Desk) (handled : List StreamCommand) : Prop where
  shutdown : d.shutdown = .inProgress r
  closed : d.streams.closed = true
  commands : handled ++ d.streams.queue.map Prod.snd = b.streams.queue.map Prod.snd
  unpaused : d.paused = false → d.streams.queue = [] ∧ d.controls.closed = true
  live : d.controls.terminated = false

structure Kept (b : System) (r : Nat) (w : Closing) : Prop where
  common : Common b.desk r w.system.desk w.handled w.asked
  running : w.system.status = .running → Undone b.desk r w.system.desk w.handled

variable {b d : Desk} {s : System} {r : Nat} {handled : List StreamCommand} {asked : List Nat}

theorem Common.tells (h : Common b r d handled asked) (ps : List (Nat × Reply))
    (hps : ∀ p ∈ ps, ∀ stream, p.2 = .stream (.ok stream) → b.waiting = some p.1) :
    Common b r (d.tellAll ps) handled asked := by
  obtain ⟨said, hsub, heq, -⟩ := d.tellAll_eq ps
  rw [heq]
  refine { h with given := fun n stream hmem => ?_, asked := fun n hn => ?_, shutdown := ?_ }
  · rcases mem_append.mp hmem with hold | hnew
    · exact h.given n stream hold
    · exact .inr (hps _ (hsub.subset hnew) stream rfl)
  · refine (h.asked n hn).imp_right (Or.imp_right fun ⟨e, he⟩ => ⟨e, mem_append_left _ he⟩)
  · refine h.shutdown.imp_right fun ⟨hhandled, hcomplete, htold⟩ => ⟨hhandled, hcomplete, ?_⟩
    exact htold.imp_right (mem_append_left _)

theorem Undone.tells (h : Undone b r d handled) (ps : List (Nat × Reply)) :
    Undone b r (d.tellAll ps) handled := by
  rw [Desk.tellAll_eq_filter]
  exact { h with }

/-! ### Turns of the task -/

theorem Common.cleared (h : Common b r d handled asked) :
    Common b r { d with waiting := none } handled asked := by
  refine { h with waiting := fun q hq => ?_ }
  cases hq

/-- A turn of the task in which it takes no call for a stream. After the last command of a controller the
closer is told. -/
theorem kept_turn (hturn : Desk.Turn a d x d')
    (h : Common b r d handled asked) (hundone : Undone b r d handled)
    (htags : ∀ entry ∈ d.streams.queue, entry.2.frame.announces = false)
    (hquiet : ∀ broken, a = .controlCommand broken → d.paused = false →
      ∀ cmd ∈ d.controls.queue.head?, cmd.asksStream = false) :
    Common b r d' (handled ++ d.takes a) asked ∧
      (x = .running → Undone b r d' (handled ++ d.takes a)) := by
  cases hturn with
  | quiet htakes =>
    rw [htakes, append_nil]
    exact ⟨h, fun _ => hundone⟩
  | give stream hwaiting =>
    have hcleared := h.cleared
    have hstill : Undone b r { d with waiting := none } handled := { hundone with }
    simp only [takes, append_nil]
    refine ⟨hcleared.tells [_] fun p hp _ _ => ?_, fun _ => hstill.tells [_]⟩
    rw [mem_singleton.mp hp]
    exact h.waiting _ hwaiting
  | @command _ _ broken issuer cmd queue said frames hqueue hsaid hframes =>
    have htakes : d.takes (.streamCommand broken) = [cmd] := by
      rw [takes, hqueue]
      rfl
    have hpopped : Common b r (d.popStream queue) (handled ++ [cmd]) asked :=
      { h with shutdown := .inl hundone.shutdown }
    have hleft : Undone b r (d.popStream queue) (handled ++ [cmd]) := by
      have hcommands := hundone.commands
      have hunpaused := hundone.unpaused
      rw [hqueue] at hcommands hunpaused
      refine { hundone with
        commands := (append_assoc _ _ _).trans hcommands
        unpaused := fun hpaused => ?_ }
      cases (hunpaused hpaused).1
    have htold : Common b r ((d.popStream queue).tellAll said) (handled ++ [cmd]) asked := by
      refine hpopped.tells _ fun p hp stream hstream => ?_
      have hreply := hsaid.subset hp
      cases cmd <;> simp_all [StreamCommand.replies]
    have hundone' := hleft.tells said
    have hsame := hframes (htags (issuer, cmd) (by rw [hqueue]; exact mem_cons_self))
    rw [htakes]
    exact ⟨{ htold with announced := hsame.trans h.announced }, fun _ => { hundone' with }⟩
  | streamsDone hqueue hshutdown =>
    rw [takes, hqueue, map_nil, take_nil, append_nil]
    exact ⟨{ h with }, fun _ => { hundone with unpaused := fun _ => ⟨hqueue, rfl⟩ }⟩
  | opened _ hpaused hqueue | accepted _ hpaused hqueue | waits hpaused hqueue =>
    have hasks := hquiet _ rfl hpaused _ (by rw [hqueue]; rfl)
    cases hasks
  | closes hpaused hqueue hshutdown =>
    rw [hundone.shutdown] at hshutdown
    cases hshutdown
  | @again _ _ _ q queue hpaused hqueue hshutdown =>
    have hpopped : Common b r (d.popControl queue) handled asked := by
      refine { h with asked := fun n hn => ?_ }
      refine (h.asked n hn).imp_left ?_
      rintro ⟨cmd, hcmd, hasks, hnumber⟩
      refine ⟨cmd, ?_, hasks, hnumber⟩
      rw [hqueue] at hcmd
      rcases mem_cons.mp hcmd with rfl | hcmd
      · cases hasks
      · exact hcmd
    have hleft : Undone b r (d.popControl queue) handled := { hundone with }
    simp only [takes, append_nil]
    refine ⟨hpopped.tells [_] fun p hp stream hstream => ?_, fun _ => hleft.tells [_]⟩
    rw [mem_singleton.mp hp] at hstream
    cases hstream
  | @controlsDone _ _ q hpaused hqueue hclosed hshutdown =>
    rw [hundone.shutdown] at hshutdown
    cases hshutdown
    have hcommands := hundone.commands
    rw [(hundone.unpaused hpaused).1, map_nil, append_nil] at hcommands
    simp only [takes, append_nil]
    unfold Desk.tell
    split
    case isTrue hcanceled =>
      exact ⟨{ h with shutdown := .inr ⟨hcommands, rfl, .inl hcanceled⟩ }, Status.noConfusion⟩
    case isFalse =>
      have htold : (r, Reply.done) ∈ d.replies ++ [(r, Reply.done)] :=
        mem_append_right _ (mem_singleton_self _)
      refine ⟨{ h with
        given := fun n stream hmem => h.given n stream (by simpa using hmem)
        asked := fun n hn => (h.asked n hn).imp_right
          (Or.imp_right (Exists.imp fun e => mem_append_left _))
        shutdown := .inr ⟨hcommands, rfl, .inr htold⟩ }, Status.noConfusion⟩

theorem Common.dismissWaiting (h : Common b r d handled asked) :
    Common b r d.dismissWaiting handled asked := by
  unfold Desk.dismissWaiting
  split
  case h_1 q hwaiting =>
    refine h.cleared.tells [_] fun p hp stream hstream => ?_
    rw [mem_singleton.mp hp] at hstream
    cases hstream
  case h_2 => exact h

theorem Common.drainControls (h : Common b r d handled asked) :
    Common b r d.drainControls handled asked := by
  unfold Desk.drainControls
  split
  case isTrue => exact h
  case isFalse =>
    have htells := h.tells (d.controls.queue.map ControlCommand.verdict) fun p hp stream hstream => by
      obtain ⟨cmd, -, rfl⟩ := mem_map.mp hp
      cases cmd <;> cases hstream
    obtain ⟨said, -, heq, htold⟩ := d.tellAll_eq (d.controls.queue.map ControlCommand.verdict)
    rw [heq] at htells ⊢
    refine { htells with asked := fun n hn => ?_ }
    rcases htells.asked n hn with ⟨cmd, hcmd, hasks, rfl⟩ | hdone
    · right
      have hverdict := htold _ (mem_map_of_mem hcmd)
      rw [cmd.verdict_fst] at hverdict
      refine hverdict.imp_right fun hmem => ⟨.closed, mem_append_right _ ?_⟩
      cases cmd with
      | openStream q | acceptStream q => exact hmem
      | closeConnection q => cases hasks
    · exact .inr hdone

theorem Common.finish (h : Common b r d handled asked) : Common b r d.finish handled asked := by
  have hcontrols := h.dismissWaiting.drainControls
  unfold Desk.finish Desk.drainStreams
  split
  · exact hcontrols
  · have htells := hcontrols.tells
      (d.dismissWaiting.drainControls.streams.queue.tail.flatMap (·.2.replies))
      fun p hp stream hstream => by
        obtain ⟨⟨issuer, cmd⟩, -, hentry⟩ := mem_flatMap.mp hp
        cases cmd <;> simp_all [StreamCommand.replies]
    exact { htells with }

variable {b : System}

theorem kept_ofTask (h : Kept b r w) (hkempt : w.system.Kempt) (ha : a.OfTask)
    (hquiet : w.Quiet a) : Kept b r (w.step a) := by
  have hasks : asks w.system.desk a = [] := by
    cases a <;> first | rfl | exact absurd ha id
  unfold step
  rw [hasks, append_nil]
  by_cases hrunning : w.system.status = .running
  · rw [if_pos hrunning]
    obtain ⟨hcommon, hundone⟩ := kept_turn (handled_turn hrunning (hkempt.2 hrunning) ha).1
      h.common (h.running hrunning) hkempt.1.tags fun broken heq => by
        subst heq
        exact hquiet hrunning
    rcases desk_step hrunning ha with hstep | ⟨hstopped, hdesk⟩
    · rw [hstep]
      exact ⟨hcommon, hundone⟩
    · refine ⟨?_, fun hstill => absurd hstill hstopped⟩
      rcases hdesk with hdesk | hdesk
      · exact hdesk ▸ hcommon.finish
      · exact hdesk ▸ hcommon.dismissWaiting
  · rw [if_neg hrunning, append_nil, step_of_not_running hrunning ha]
    exact h

/-! ### Around the task -/

theorem Kept.enqueue (h : Kept b r w) (hsender : ¬w.system.senderClosed hd = true)
    (cmd : StreamCommand) : Kept b r ⟨w.system.enqueue hd cmd, w.handled, w.asked⟩ := by
  have hcommon := h.common
  refine ⟨{ hcommon with }, fun hrunning => ?_⟩
  have hclosed : w.system.conn.streamReceiver.closed = true := (h.running hrunning).closed
  unfold senderClosed at hsender
  rw [hclosed, Bool.or_true] at hsender
  exact absurd rfl hsender

theorem kept_deed (h : Kept b r w) (hb : b.desk.Accountable)
    (hdeed : Deed w.system a t) : Kept b r ⟨t, w.handled, w.asked ++ asks w.system.desk a⟩ := by
  have hcommon := h.common
  have hlater := hcommon.nextReply.trans (Nat.le_succ _)
  cases hdeed with
  | nothing hnot =>
    have hnone : asks w.system.desk a = [] := by
      cases a <;> first | rfl | simp at hnot
    rw [hnone, append_nil]
    exact h
  | lost hclosed =>
    have hnone : asks w.system.desk a = [] := by
      cases a <;> first | rfl | exact if_pos hclosed
    rw [hnone, append_nil]
    refine ⟨{ hcommon with nextReply := hlater }, fun hrunning => ?_⟩
    have hundone := h.running hrunning
    exact { hundone with }
  | @called _ cmd hopen hnumber hcalls =>
    have hasked : ∀ n ∈ asks w.system.desk a,
        n = w.system.desk.nextReply ∧ cmd.asksStream = true := by
      intro n hn
      cases a <;> simp_all [asks]
    refine ⟨{ hcommon with
      asked := fun n hn => ?_, late := fun n hn => ?_, nextReply := hlater }, fun hrunning => ?_⟩
    · rcases mem_append.mp hn with hold | hnew
      · refine (hcommon.asked n hold).imp_left fun ⟨q, hq, hasks⟩ => ⟨q, ?_, hasks⟩
        exact mem_append_left _ hq
      · obtain ⟨rfl, hasks⟩ := hasked n hnew
        exact .inl ⟨_, mem_append_right _ (mem_singleton_self _), hasks, hnumber⟩
    · rcases mem_append.mp hn with hold | hnew
      · exact hcommon.late n hold
      · obtain ⟨rfl, -⟩ := hasked n hnew
        have hzero := hb.fresh w.system.desk.nextReply hcommon.nextReply
        unfold due at hzero
        refine ⟨fun hwaiting => ?_, count_eq_zero.mp (by omega)⟩
        rw [hwaiting, Option.toList_some, count_singleton_self] at hzero
        omega
    · have hundone := h.running hrunning
      exact { hundone with }
  | cancel =>
    simp only [asks, append_nil]
    refine ⟨{ hcommon with asked := fun n hn => ?_, shutdown := ?_ }, fun hrunning => ?_⟩
    · exact (hcommon.asked n hn).imp_right (Or.imp_left fun hmem => Finset.mem_insert_of_mem hmem)
    · refine hcommon.shutdown.imp_right fun ⟨hhandled, hcomplete, htold⟩ => ⟨hhandled, hcomplete, ?_⟩
      exact htold.imp_left fun hmem => Finset.mem_insert_of_mem hmem
    · have hundone := h.running hrunning
      exact { hundone with }
  | write hk hopen =>
    simp only [asks, append_nil]
    exact h.enqueue hopen _
  | close hk hopen =>
    simp only [asks, append_nil]
    obtain ⟨hqueued, hundone⟩ := h.enqueue hopen (.closeStream _)
    exact ⟨hqueued, hundone⟩
  | reset hk hopen =>
    simp only [asks, append_nil]
    obtain ⟨hqueued, hundone⟩ := h.enqueue hopen (.resetStream _ _)
    refine ⟨{ hqueued with nextReply := hlater }, fun hrunning => ?_⟩
    have hstill := hundone hrunning
    exact { hstill with }
  | disconnect | read | clone | drop =>
    simp only [asks, append_nil]
    exact ⟨h.common, h.running⟩

theorem kept_step (h : Kept b r w) (hb : b.desk.Accountable) (hkempt : w.system.Kempt)
    (hquiet : w.Quiet a) : Kept b r (w.step a) := by
  by_cases ha : a.OfTask
  · exact kept_ofTask h hkempt ha hquiet
  · have htakes : w.system.desk.takes a = [] := by
      cases a <;> first | rfl | exact absurd trivial ha
    unfold step
    rw [htakes, ite_self, append_nil]
    exact kept_deed h hb (deed_step w.system ha)

end Closing

/-! ### The end is reached -/

namespace Closing.Done

variable {r : Nat} {d : Desk}

theorem tells (h : Done r d) (ps : List (Nat × Reply)) : Done r (d.tellAll ps) := by
  rw [Desk.tellAll_eq_filter]
  exact ⟨h.1, h.2.imp_right (mem_append_left _)⟩

theorem dismissWaiting (h : Done r d) : Done r d.dismissWaiting := by
  unfold Desk.dismissWaiting
  split
  · exact tells (d := { d with waiting := none }) h [_]
  · exact h

theorem finish (h : Done r d) : Done r d.finish := by
  have hcontrols : Done r d.dismissWaiting.drainControls := by
    unfold Desk.drainControls
    split
    · exact h.dismissWaiting
    · exact h.dismissWaiting.tells _
  unfold Desk.finish Desk.drainStreams
  split
  · exact hcontrols
  · exact hcontrols.tells _

end Closing.Done

namespace System

variable {s t : System} {r : Nat}

theorem turn_of_running (hrunning : s.status = .running) (hf : f s = t)
    (ht : t.status = .running) : s.turn f = t := by
  unfold turn
  rw [hrunning, hf]
  dsimp only
  rw [ht]

theorem running_onStreamCommand (hrunning : s.status = .running)
    (hfits : cmd.frame.Fits) : (s.onStreamCommand (some cmd) none).status = .running := by
  have hsent : (s.sendFrame cmd.frame none).status = .running := by
    unfold sendFrame
    dsimp only
    rw [if_pos hfits]
    exact hrunning
  cases cmd with
  | sendFrame frame =>
    change (s.onSendFrame frame none).status = _
    unfold onSendFrame
    split
    · exact hrunning
    · split
      · exact hsent
      · exact hrunning
  | closeStream frame =>
    change (s.onCloseStream frame none).status = _
    unfold onCloseStream andThen
    replace hsent : (s.sendFrame frame none).status = .running := hsent
    rw [hsent]
    dsimp only
    split
    · exact hrunning
    · split
      · split
        · exact hsent
        · exact hsent
      · exact hrunning
  | resetStream frame r =>
    change (s.onResetStream frame r none).status = _
    unfold onResetStream andThen
    replace hsent : (s.sendFrame frame none).status = .running := hsent
    rw [hsent]
    dsimp only
    split
    · rw [status_reply]
      exact hsent
    · rw [status_reply]
      exact hrunning

theorem streams_finish (hrunning : s.status = .running) (hshutdown : s.desk.shutdown = .inProgress r)
    (hstreams : s.desk.streams.closed = true ∧ s.desk.streams.terminated = false)
    (hpaused : s.desk.paused = true)
    (hfits : ∀ entry ∈ s.desk.streams.queue, entry.2.frame.Fits) :
    ∃ n t, run step s (replicate n (.streamCommand none)) = t ∧ t.status = .running ∧
      t.desk.shutdown = .inProgress r ∧ t.desk.paused = false ∧
      t.desk.controls = { s.desk.controls with closed := true } := by
  induction hqueue : s.desk.streams.queue generalizing s with
  | nil =>
    have hdone : s.takeStreamCommand none =
        ((s.setStreams { s.conn.streamReceiver with terminated := true }).setPaused false).setControls
          { s.conn.controlReceiver with closed := true } := by
      unfold takeStreamCommand
      dsimp only
      change s.conn.streamReceiver.queue = [] at hqueue
      rw [hqueue, show s.conn.streamReceiver.closed = true from hstreams.1,
        show s.conn.streamReceiver.terminated = false from hstreams.2]
      exact if_pos hpaused
    exact ⟨1, _, turn_of_running (f := (·.takeStreamCommand none)) hrunning hdone hrunning, hrunning,
      hshutdown, rfl, rfl⟩
  | cons entry queue ih =>
    obtain ⟨issuer, cmd⟩ := entry
    rw [hqueue] at hfits
    have htake : s.takeStreamCommand none = (s.setStreams
        { s.conn.streamReceiver with queue := queue }).onStreamCommand (some cmd) none := by
      unfold takeStreamCommand
      dsimp only
      rw [show s.conn.streamReceiver.queue = _ from hqueue]
    have hstatus := running_onStreamCommand
      (s := s.setStreams { s.conn.streamReceiver with queue := queue }) hrunning
      (hfits _ mem_cons_self)
    have hturn := turn_of_running (f := (·.takeStreamCommand none)) hrunning htake hstatus
    obtain ⟨said, frames, -, -, hdesk, -⟩ := desk_onStreamCommand
      (s.setStreams { s.conn.streamReceiver with queue := queue }) cmd none
    obtain ⟨said', -, heq, -⟩ :=
      (s.setStreams { s.conn.streamReceiver with queue := queue }).desk.tellAll_eq said
    rw [heq] at hdesk
    generalize onStreamCommand _ (some cmd) none = t at hturn hstatus hdesk
    obtain ⟨n, u, hrun, hu, hend⟩ := ih hstatus (by rw [hdesk]; exact hshutdown)
      (by rw [hdesk]; exact hstreams) (by rw [hdesk]; exact hpaused)
      (by rw [hdesk]; exact fun entry hentry => hfits entry (mem_cons_of_mem _ hentry))
      (by rw [hdesk]; rfl)
    rw [hdesk] at hend
    refine ⟨n + 1, u, ?_, hu, hend⟩
    rw [replicate_succ, run_cons]
    change run step (s.turn (·.takeStreamCommand none)) _ = u
    rw [hturn]
    exact hrun

theorem controls_finish (hrunning : s.status = .running) (hshutdown : s.desk.shutdown = .inProgress r)
    (hpaused : s.desk.paused = false)
    (hcontrols : s.desk.controls.closed = true ∧ s.desk.controls.terminated = false)
    (hquiet : ∀ cmd ∈ s.desk.controls.queue, cmd.asksStream = false) :
    ∃ m t, run step s (replicate m (.controlCommand none)) = t ∧ Closing.Done r t.desk := by
  induction hqueue : s.desk.controls.queue generalizing s with
  | nil =>
    have hdone : Closing.Done r (s.takeControlCommand none).desk := by
      unfold takeControlCommand
      dsimp only
      rw [show s.conn.controlPaused = false from hpaused, if_neg Bool.false_ne_true,
        show s.conn.controlReceiver.queue = [] from hqueue,
        show s.conn.controlReceiver.closed = true from hcontrols.1,
        show s.conn.controlReceiver.terminated = false from hcontrols.2]
      change Closing.Done r (onControlsDone _).desk
      unfold onControlsDone
      rw [show (setControls s _).conn.shutdown = .inProgress r from hshutdown]
      change Closing.Done r (reply _ r .done).desk
      rw [desk_reply]
      unfold Desk.tell
      split
      case isTrue hcanceled => exact ⟨rfl, .inl hcanceled⟩
      case isFalse => exact ⟨rfl, .inr (mem_append_right _ (mem_singleton_self _))⟩
    refine ⟨1, _, rfl, ?_⟩
    change Closing.Done r (s.step (.controlCommand none)).desk
    rcases desk_step (a := .controlCommand none) hrunning trivial with hstep | ⟨-, hdesk | hdesk⟩
    · rw [hstep]
      exact hdone
    · exact hdesk ▸ hdone.finish
    · exact hdesk ▸ hdone.dismissWaiting
  | cons cmd queue ih =>
    rw [hqueue] at hquiet
    cases cmd with
    | openStream q | acceptStream q => cases hquiet _ mem_cons_self
    | closeConnection q =>
      have htake : s.takeControlCommand none =
          (s.setControls { s.conn.controlReceiver with queue := queue }).reply q .done := by
        unfold takeControlCommand
        dsimp only
        rw [show s.conn.controlPaused = false from hpaused, if_neg Bool.false_ne_true,
          show s.conn.controlReceiver.queue = _ from hqueue]
        apply if_neg
        change s.desk.shutdown ≠ _
        rw [hshutdown]
        exact Shutdown.noConfusion
      have hstatus := (status_reply
        (s.setControls { s.conn.controlReceiver with queue := queue }) q .done).trans hrunning
      have hturn := turn_of_running (f := (·.takeControlCommand none)) hrunning htake hstatus
      obtain ⟨said, -, hdesk, -⟩ :=
        (s.setControls { s.conn.controlReceiver with queue := queue }).desk.tellAll_eq [(q, .done)]
      replace hdesk := (desk_reply _ q .done).trans hdesk
      generalize reply _ q .done = t at hturn hstatus hdesk
      obtain ⟨m, u, hrun, hu⟩ := ih hstatus (by rw [hdesk]; exact hshutdown)
        (by rw [hdesk]; exact hpaused) (by rw [hdesk]; exact hcontrols)
        (by rw [hdesk]; exact fun cmd hcmd => hquiet cmd (mem_cons_of_mem _ hcmd))
        (by rw [hdesk]; rfl)
      refine ⟨m + 1, u, ?_, hu⟩
      rw [replicate_succ, run_cons]
      change run step (s.turn (·.takeControlCommand none)) _ = u
      rw [hturn]
      exact hrun

end System

namespace Closing

variable {b s : System} {r : Nat}

theorem Undone.finishes (h : Undone b.desk r w.system.desk w.handled)
    (hrunning : w.system.status = .running) (hkempt : w.system.Kempt)
    (hquiet : ∀ cmd ∈ w.system.desk.controls.queue, cmd.asksStream = false)
    (hfits : ∀ entry ∈ w.system.desk.streams.queue, entry.2.frame.Fits) : Finishes w.system r := by
  have horderly := hkempt.2 hrunning
  unfold System.Orderly at horderly
  rw [show w.system.conn.shutdown = .inProgress r from h.shutdown] at horderly
  cases hpaused : w.system.desk.paused with
  | false =>
    obtain ⟨m, t, hrun, ht⟩ := controls_finish hrunning h.shutdown hpaused
      ⟨(h.unpaused hpaused).2, h.live⟩ hquiet
    exact ⟨0, m, t, hrun, ht⟩
  | true =>
    obtain ⟨n, u, hstreams, hu, hshutdown, hunpaused, hcontrols⟩ := streams_finish hrunning
      h.shutdown ⟨h.closed, horderly.mpr hpaused⟩ hpaused hfits
    obtain ⟨m, t, hrun, ht⟩ := controls_finish hu hshutdown hunpaused
      (by rw [hcontrols]; exact ⟨rfl, h.live⟩) (by rw [hcontrols]; exact hquiet)
    refine ⟨n, m, t, ?_, ht⟩
    rw [run_append, hstreams]
    exact hrun

/-! ## The result -/

theorem Kept.inOrder (h : Kept b r w) (hkempt : w.system.Kempt) : InOrder b r w := by
  have honce := hkempt.1.once r
  unfold due at honce
  have hcommon := h.common
  constructor
  case announced => exact hcommon.announced
  case refused =>
    intro n hn stream hmem
    obtain ⟨hwaiting, hreplies⟩ := hcommon.late n hn
    rcases hcommon.given n stream hmem with hold | hwaited
    · exact hreplies (mem_map_of_mem hold)
    · exact hwaiting hwaited
  case answered =>
    intro n hn
    exact (hcommon.asked n hn).imp_left fun ⟨cmd, hcmd, _, hnumber⟩ => ⟨cmd, hcmd, hnumber⟩
  case first =>
    intro htold
    rcases hcommon.shutdown with hprogress | ⟨hhandled, -⟩
    · -- The closer is answered once, so it cannot have been told while it is still to be told.
      have hcount : 0 < (w.system.desk.replies.map Prod.fst).count r :=
        count_pos_iff.mpr (mem_map_of_mem htold)
      rw [hprogress, Shutdown.closer, Option.toList_some, count_singleton_self] at honce
      omega
    · exact hhandled
  case once => omega
  case told => exact hcommon.shutdown.imp_right And.right
  case finishes =>
    intro hrunning
    exact (h.running hrunning).finishes hrunning hkempt

theorem kept_start (hrunning : s.status = .running) (hkempt : s.Kempt)
    (hshutdown : s.desk.shutdown = .notStarted)
    (hqueue : s.desk.controls.queue = .closeConnection r :: queue) (broken : Option Nat) :
    Kept (s.step (.controlCommand broken)) r (start (s.step (.controlCommand broken))) := by
  have horderly := hkempt.2 hrunning
  unfold System.Orderly at horderly
  rw [show s.conn.shutdown = .notStarted from hshutdown] at horderly
  obtain ⟨-, hopen, hpaused⟩ := horderly
  have htake : s.takeControlCommand broken =
      (((s.setControls { s.conn.controlReceiver with queue := queue }).setShutdown
        (.inProgress r)).setStreams { s.conn.streamReceiver with closed := true }).setPaused true := by
    unfold takeControlCommand
    dsimp only
    rw [hpaused, if_neg Bool.false_ne_true, show s.conn.controlReceiver.queue = _ from hqueue]
    exact if_pos hshutdown
  have hstep : s.step (.controlCommand broken) = _ :=
    turn_of_running (f := (·.takeControlCommand broken)) hrunning htake hrunning
  have honce := (hkempt.step (.controlCommand broken)).1.once
  rw [hstep] at honce ⊢
  have hlive : s.desk.controls.terminated = false := by
    by_contra hterminated
    have hclosed := (hkempt.1.spent (Bool.eq_true_of_not_eq_false hterminated)).1
    exact Bool.false_ne_true (hopen.symm.trans hclosed)
  refine ⟨⟨rfl, fun n stream hmem => .inl hmem, fun n => id, fun n hn => ?_, fun n hn => ?_,
    Nat.le_refl _, .inl rfl⟩, fun _ => ⟨rfl, rfl, nil_append _, nofun, hlive⟩⟩
  · obtain ⟨cmd, hcmd, hnumber⟩ := mem_map.mp hn
    obtain ⟨hmem, hasks⟩ := mem_filter.mp hcmd
    exact .inl ⟨cmd, hmem, hasks, hnumber⟩
  · obtain ⟨cmd, hcmd, hnumber⟩ := mem_map.mp hn
    have hqueued : 0 < (queue.map ControlCommand.number).count n :=
      count_pos_iff.mpr (mem_map.mpr ⟨cmd, (mem_filter.mp hcmd).1, hnumber⟩)
    have hdue : (queue.map ControlCommand.number).count n + _ + s.desk.waiting.toList.count n + _ +
        (s.desk.replies.map Prod.fst).count n ≤ 1 := honce n
    refine ⟨fun hwaiting => ?_, count_eq_zero.mp ?_⟩
    · rw [show s.desk.waiting = some n from hwaiting, Option.toList_some,
        count_singleton_self] at hdue
      omega
    · change (s.desk.replies.map Prod.fst).count n = 0
      omega

/-- When the task takes a call for a stream from behind the close, the stream is announced and given. -/
theorem stream_after_close :
    ∃ b w, run System.step (System.start 0) [.closeConnection, .openStream, .controlCommand none] = b ∧
      run step (start b) [.streamCommand none, .controlCommand none] = w ∧
      b.desk.shutdown = .inProgress 0 ∧ w.asked = [1] ∧
      w.system.desk.announced =
        b.desk.announced ++ [.newStreamFrame ⟨0, true⟩ (System.digits 10000000)] ∧
      (1, Reply.stream (.ok ⟨⟨0, true⟩, 0⟩)) ∈ w.system.desk.replies := by
  refine ⟨_, _, rfl, rfl, rfl, rfl, ?_, ?_⟩
  · decide
  · exact mem_singleton_self _

/-- A connection is closed in order, if the task takes no call for a stream from behind the close. -/
theorem shutdown_in_order (id : UInt32) (before : List System.Action) {s : System}
    (hs : run System.step (System.start id) before = s) (hrunning : s.status = .running)
    (hshutdown : s.desk.shutdown = .notStarted) {r : Nat} {queue : List ControlCommand}
    (hqueue : s.desk.controls.queue = .closeConnection r :: queue) (broken : Option Nat)
    {after : List System.Action}
    (hquiet : EachStep step Quiet (start (s.step (.controlCommand broken))) after) :
    Always step (InOrder (s.step (.controlCommand broken)) r)
      (start (s.step (.controlCommand broken))) after := by
  have hkempt := accountable_run id before
  rw [hs] at hkempt
  have hb := hkempt.step (.controlCommand broken)
  have hkept := kept_start hrunning hkempt hshutdown hqueue broken
  refine always_mono (P := fun w =>
    Kept (s.step (.controlCommand broken)) r w ∧ w.system.Kempt) ?_ ?_
  · exact fun w ⟨hkept, hkempt⟩ => hkept.inOrder hkempt
  · refine always_of_step ?_ ⟨hkept, hb⟩ hquiet
    rintro w a ⟨hkept, hkempt⟩ hquiet
    exact ⟨kept_step hkept hb.1 hkempt hquiet, hkempt.step a⟩

/-- A stream is opened and written to, and the connection is closed. -/
theorem write_then_close_in_order :
    ∃ s, run System.step (System.start 0)
        [.openStream, .controlCommand none, .write 0 [1], .closeConnection, .closeConnection] = s ∧
      EachStep step Quiet (start (s.step (.controlCommand none)))
        [.streamCommand none, .streamCommand none, .controlCommand none, .controlCommand none] ∧
      Always step (InOrder (s.step (.controlCommand none)) 1) (start (s.step (.controlCommand none)))
        [.streamCommand none, .streamCommand none, .controlCommand none, .controlCommand none] := by
  have hquiet : EachStep step Quiet (start ((run System.step (System.start 0)
        [.openStream, .controlCommand none, .write 0 [1], .closeConnection, .closeConnection]).step
          (.controlCommand none)))
      [.streamCommand none, .streamCommand none, .controlCommand none, .controlCommand none] := by
    refine ⟨trivial, trivial, fun _ _ cmd hcmd => ?_, fun _ _ cmd hcmd => ?_, trivial⟩
    · cases hcmd
      rfl
    · cases hcmd
  exact ⟨_, rfl, hquiet, shutdown_in_order 0 _ rfl rfl rfl rfl none hquiet⟩

end Closing

end Libp2pRs.Mplex
