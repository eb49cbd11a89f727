import Libp2pRs.Mplex.Connection

/-!
# The desk of the connection task

Every call of a controller, and every reset of a stream, waits for one reply. The command of the call is
in a queue, or the call waits for a stream or for the end of the shutdown, or the reply has been sent.
The `Desk` is this part of the connection; the streams and their channels are not on it.
-/

namespace Libp2pRs.Mplex

open Lib Libp2pRs.Core

namespace ControlCommand

def number : ControlCommand → Nat
  | openStream reply | acceptStream reply | closeConnection reply => reply

def asksStream : ControlCommand → Bool
  | openStream _ | acceptStream _ => true
  | closeConnection _ => false

def verdict : ControlCommand → Nat × Reply
  | openStream reply | acceptStream reply => (reply, .stream (.error .closed))
  | closeConnection reply => (reply, .done)

theorem verdict_fst (cmd : ControlCommand) : cmd.verdict.1 = cmd.number := by
  cases cmd <;> rfl

end ControlCommand

/-- The reply that the command asks for. -/
def StreamCommand.replies : StreamCommand → List (Nat × Reply)
  | resetStream _ reply => [(reply, .done)]
  | _ => []

def Frame.announces (frame : Frame) : Bool := frame.header.tag = .newStream

/-- A receiver that has told that there will be no more commands has none. -/
def Receiver.Spent {α : Type} (r : Receiver α) : Prop :=
  r.terminated = true → r.closed = true ∧ r.queue = []

def Shutdown.closer : Shutdown → Option Nat
  | inProgress reply => some reply
  | _ => none

structure Desk where
  controls : Receiver ControlCommand
  streams : Receiver (Nat × StreamCommand)
  shutdown : Shutdown
  paused : Bool
  waiting : Option Nat
  canceled : Finset Nat
  nextReply : Nat
  replies : List (Nat × Reply)
  announced : List Frame

namespace Desk

def tell (d : Desk) (p : Nat × Reply) : Desk :=
  if p.1 ∈ d.canceled then d else { d with replies := d.replies ++ [p] }

def tellAll (d : Desk) (ps : List (Nat × Reply)) : Desk := ps.foldl tell d

theorem tellAll_eq_filter (d : Desk) (ps : List (Nat × Reply)) :
    d.tellAll ps = { d with replies := d.replies ++ ps.filter (·.1 ∉ d.canceled) } := by
  induction ps generalizing d with
  | nil => simp [tellAll]
  | cons p ps ih =>
    change (d.tell p).tellAll ps = _
    rw [ih]
    unfold tell
    split
    case isTrue hcanceled => simp [hcanceled]
    case isFalse hthere => simp [hthere]

theorem tellAll_eq (d : Desk) (ps : List (Nat × Reply)) :
    ∃ said, said.Sublist ps ∧ d.tellAll ps = { d with replies := d.replies ++ said } ∧
      ∀ p ∈ ps, p.1 ∈ d.canceled ∨ p ∈ said := by
  refine ⟨_, List.filter_sublist, d.tellAll_eq_filter ps, fun p hp => ?_⟩
  by_cases hcanceled : p.1 ∈ d.canceled
  · exact .inl hcanceled
  · exact .inr (List.mem_filter.mpr ⟨hp, by simpa using hcanceled⟩)

def popControl (d : Desk) (queue : List ControlCommand) : Desk :=
  { d with controls := { d.controls with queue := queue } }

def popStream (d : Desk) (queue : List (Nat × StreamCommand)) : Desk :=
  { d with streams := { d.streams with queue := queue } }

def dismissWaiting (d : Desk) : Desk :=
  match d.waiting with
  | some q => { d with waiting := none }.tell (q, .stream (.error .closed))
  | none => d

def drainControls (d : Desk) : Desk :=
  if d.controls.terminated then d
  else
    { d.tellAll (d.controls.queue.map ControlCommand.verdict) with
      paused := false
      controls := ⟨[], true, true⟩ }

def drainStreams (d : Desk) : Desk :=
  if d.streams.terminated then d
  else { d.tellAll (d.streams.queue.tail.flatMap (·.2.replies)) with streams := ⟨[], true, true⟩ }

def finish (d : Desk) : Desk := d.dismissWaiting.drainControls.drainStreams

def takes (d : Desk) : System.Action → List StreamCommand
  | .streamCommand _ => (d.streams.queue.map Prod.snd).take 1
  | _ => []

/-- What the task does to the desk in its turn, and how the turn ends. -/
inductive Turn : System.Action → Desk → Status → Desk → Prop where
  | quiet {a : System.Action} (htakes : d.takes a = []) : Turn a d x d
  | give {frame : Frame} {outcome : SendOutcome} {broken : Option Nat} {q : Nat} (stream : Stream)
      (hwaiting : d.waiting = some q) :
      Turn (.frame frame outcome broken) d x ({ d with waiting := none }.tell (q, .stream (.ok stream)))
  | command {broken : Option Nat} {issuer : Nat} {cmd : StreamCommand}
      {queue : List (Nat × StreamCommand)} {said : List (Nat × Reply)} {frames : List Frame}
      (hqueue : d.streams.queue = (issuer, cmd) :: queue) (hsaid : said.Sublist cmd.replies)
      (hframes : cmd.frame.announces = false → frames = d.announced) :
      Turn (.streamCommand broken) d x { (d.popStream queue).tellAll said with announced := frames }
  | streamsDone {broken : Option Nat} {r : Nat} (hqueue : d.streams.queue = [])
      (hshutdown : d.shutdown = .inProgress r) :
      Turn (.streamCommand broken) d x
        { d with
          streams := { d.streams with terminated := true }
          paused := false
          controls := { d.controls with closed := true } }
  | opened {broken : Option Nat} {r : Nat} {queue : List ControlCommand}
      (said : List (Nat × Reply)) {frames : List Frame} (hpaused : d.paused = false)
      (hqueue : d.controls.queue = .openStream r :: queue) (hsaid : (said.map Prod.fst).Sublist [r]) :
      Turn (.controlCommand broken) d x { (d.popControl queue).tellAll said with announced := frames }
  | accepted {broken : Option Nat} {r : Nat} {queue : List ControlCommand}
      (result : Except ConnectionError Stream) (hpaused : d.paused = false)
      (hqueue : d.controls.queue = .acceptStream r :: queue) :
      Turn (.controlCommand broken) d x ((d.popControl queue).tell (r, .stream result))
  | waits {broken : Option Nat} {r : Nat} {queue : List ControlCommand} (hpaused : d.paused = false)
      (hqueue : d.controls.queue = .acceptStream r :: queue) (hwaiting : d.waiting = none) :
      Turn (.controlCommand broken) d x { d.popControl queue with waiting := some r }
  | closes {broken : Option Nat} {r : Nat} {queue : List ControlCommand} (hpaused : d.paused = false)
      (hqueue : d.controls.queue = .closeConnection r :: queue) (hshutdown : d.shutdown = .notStarted) :
      Turn (.controlCommand broken) d x
        { d.popControl queue with
          shutdown := .inProgress r
          streams := { d.streams with closed := true }
          paused := true }
  | again {broken : Option Nat} {r : Nat} {queue : List ControlCommand} (hpaused : d.paused = false)
      (hqueue : d.controls.queue = .closeConnection r :: queue) (hshutdown : d.shutdown ≠ .notStarted) :
      Turn (.controlCommand broken) d x ((d.popControl queue).tell (r, .done))
  | controlsDone {broken : Option Nat} {r : Nat} (hpaused : d.paused = false)
      (hqueue : d.controls.queue = []) (hclosed : d.controls.closed = true)
      (hshutdown : d.shutdown = .inProgress r) :
      Turn (.controlCommand broken) d (.failed .closed)
        ({ d with
          controls := { d.controls with terminated := true }
          shutdown := .complete }.tell (r, .done))

end Desk

namespace System

variable {s t : System}

def desk (s : System) : Desk where
  controls := s.conn.controlReceiver
  streams := s.conn.streamReceiver
  shutdown := s.conn.shutdown
  paused := s.conn.controlPaused
  waiting := s.conn.waitingStreamSender
  canceled := s.canceled
  nextReply := s.nextReply
  replies := s.replies
  announced := s.sent.filter Frame.announces

/-- How the receivers of commands stand: the task runs, it is closing and still has commands of
streams, or these are done and the controllers are told. -/
def Orderly (c : Connection) : Prop :=
  match c.shutdown with
  | .notStarted =>
    (c.streamReceiver.closed = false ∧ c.streamReceiver.terminated = false) ∧
      c.controlReceiver.closed = false ∧ c.controlPaused = false
  | .inProgress _ => c.streamReceiver.terminated = false ↔ c.controlPaused = true
  | .complete => False

def Action.OfTask : Action → Prop
  | .frame _ _ _ | .readError _ | .streamCommand _ | .controlCommand _ => True
  | _ => False

def handled (s : System) : Action → System
  | .frame frame outcome broken => s.onFrame frame outcome broken
  | .readError e => s.fail (.decode e)
  | .streamCommand broken => s.takeStreamCommand broken
  | .controlCommand broken => s.takeControlCommand broken
  | _ => s

theorem step_eq_turn (ha : a.OfTask) (s : System) : s.step a = s.turn (·.handled a) := by
  cases a <;> first | rfl | exact absurd ha id

theorem turn_of_not_running (h : s.status ≠ .running) (f : System → System) : s.turn f = s := by
  unfold turn
  cases hstatus : s.status with
  | running => exact absurd hstatus h
  | failed e | ended e | panicked => rfl

theorem step_of_not_running (h : s.status ≠ .running) (ha : a.OfTask) : s.step a = s := by
  rw [step_eq_turn ha]
  exact turn_of_not_running h _

/-- What the callers and the handles do around the task. A command is queued only if its receiver takes
it. -/
inductive Deed (s : System) : Action → System → Prop where
  | nothing (hnot : a ≠ .openStream ∧ a ≠ .acceptStream) : Deed s a s
  | lost (hclosed : s.conn.controlReceiver.closed = true) :
      Deed s a { s with nextReply := s.nextReply + 1 }
  | called {cmd : ControlCommand} (hopen : ¬s.conn.controlReceiver.closed = true)
      (hnumber : cmd.number = s.nextReply) (hasks : a ≠ .closeConnection → cmd.asksStream = true) :
      Deed s a ({ s with nextReply := s.nextReply + 1 }.setControls
        { s.conn.controlReceiver with queue := s.conn.controlReceiver.queue ++ [cmd] })
  | cancel : Deed s (.cancel q) { s with canceled := insert q s.canceled }
  | write (hk : s.handles.lookup k = some h) (hopen : ¬s.senderClosed h = true) :
      Deed s (.write k buf) (s.enqueue h (.sendFrame (.messageFrame h.stream.id buf)))
  | close (hk : s.handles.lookup k = some h) (hopen : ¬s.senderClosed h = true) :
      Deed s (.close k)
        ((s.enqueue h (.closeStream (.closeFrame h.stream.id))).setHandle k { h with closed := true })
  | reset (hk : s.handles.lookup k = some h) (hopen : ¬s.senderClosed h = true) :
      Deed s (.reset k)
        ({ s with nextReply := s.nextReply + 1 }.enqueue h
          (.resetStream (.resetFrame h.stream.id) s.nextReply))
  | disconnect (hk : s.handles.lookup k = some h) :
      Deed s (.disconnect k) (s.setHandle k { h with closed := true })
  | read (hk : s.handles.lookup k = some h) : Deed s (.read k size) (s.pollRead k h size).2
  | clone (hk : s.handles.lookup k = some h) :
      Deed s (.clone k)
        { s with
          handles := s.handles.insert s.nextHandle { h with readBuffer := [] }
          nextHandle := s.nextHandle + 1 }
  | drop : Deed s (.drop k) { s with handles := s.handles.erase k }

theorem deed_step (s : System) (ha : ¬a.OfTask) : Deed s a (s.step a) := by
  have hcall : ∀ cmd : Nat → ControlCommand, (∀ n, (cmd n).number = n) →
      (a ≠ .closeConnection → ∀ n, (cmd n).asksStream = true) → Deed s a (s.call cmd) := by
    intro cmd hnumber hasks
    unfold call
    dsimp only
    split
    case isTrue hclosed => exact .lost hclosed
    case isFalse hopen => exact .called hopen (hnumber _) fun hne => hasks hne _
  have hwith : a ≠ .openStream ∧ a ≠ .acceptStream → ∀ (k : Nat) (f : Handle → System),
      (∀ h, s.handles.lookup k = some h → Deed s a (f h)) → Deed s a (s.withHandle k f) := by
    intro hnot k f hf
    unfold withHandle
    split
    case h_1 => exact .nothing hnot
    case h_2 h hk => exact hf h hk
  have hsends : a ≠ .openStream ∧ a ≠ .acceptStream → ∀ {h : Handle} {t : System},
      (¬s.senderClosed h = true → Deed s a t) → Deed s a (if s.senderClosed h then s else t) := by
    intro hnot h t ht
    split
    case isTrue => exact .nothing hnot
    case isFalse hopen => exact ht hopen
  cases a with
  | frame | readError | streamCommand | controlCommand => exact absurd trivial ha
  | openStream => exact hcall .openStream (fun _ => rfl) fun _ _ => rfl
  | acceptStream => exact hcall .acceptStream (fun _ => rfl) fun _ _ => rfl
  | closeConnection => exact hcall .closeConnection (fun _ => rfl) fun hne => absurd rfl hne
  | cancel q => exact .cancel
  | write k buf =>
    refine hwith ⟨nofun, nofun⟩ k _ fun h hk => ?_
    rw [pollWrite, apply_ite Prod.snd]
    exact hsends ⟨nofun, nofun⟩ fun hopen => .write hk hopen
  | close k =>
    exact hwith ⟨nofun, nofun⟩ k _ fun h hk => hsends ⟨nofun, nofun⟩ fun hopen => .close hk hopen
  | reset k =>
    exact hwith ⟨nofun, nofun⟩ k _ fun h hk => hsends ⟨nofun, nofun⟩ fun hopen => .reset hk hopen
  | disconnect k => exact hwith ⟨nofun, nofun⟩ k _ fun h hk => .disconnect hk
  | read k size => exact hwith ⟨nofun, nofun⟩ k _ fun h hk => .read hk
  | clone k => exact hwith ⟨nofun, nofun⟩ k _ fun h hk => .clone hk
  | drop k => exact .drop

def answers (s : System) : Action → Option Nat
  | .frame frame _ _ => if frame.header.tag = .newStream then s.conn.waitingStreamSender else none
  | .controlCommand broken =>
    if s.conn.controlPaused then none
    else
      match s.conn.controlReceiver.queue with
      | .openStream r :: _ =>
        if s.conn.nextStreamId.toNat + 1 < 2 ^ 32 ∧ broken = none then some r else none
      | .acceptStream r :: _ =>
        if s.conn.waitingStreamSender = none ∧ s.conn.pendingStreams = [] then none else some r
      | _ => none
  | _ => none

/-- The number of the stream that the task opens in this turn. -/
def opens (s : System) : Action → Option UInt32
  | .controlCommand _ =>
    if s.conn.controlPaused then none
    else
      match s.conn.controlReceiver.queue with
      | .openStream _ :: _ =>
        if s.conn.nextStreamId.toNat + 1 < 2 ^ 32 then some s.conn.nextStreamId else none
      | _ => none
  | _ => none

/-- The numbers of streams that are opened leave room for the constant. -/
def Roomy (s : System) (a : Action) : Prop := ∀ n, s.opens a = some n → n.toNat + 10000000 < 2 ^ 32

/-- Whom a turn answers: nobody but, at the end of the task, the call that waits; a call, which has to be
there; or it panics before it can answer. -/
inductive Outcome (s : System) (a : Action) (t : System) : Prop where
  | calm (hstatus : t.status = .running ∨ ∃ e, t.status = .failed e)
      (hwaiting : ∀ e, t.status = .failed e → t.desk.waiting = s.desk.waiting)
      (hanswers : ∀ r, s.answers a = some r → s.desk.waiting = some r ∧ ∃ e, t.status = .failed e)
      (hroom : s.Roomy a)
  | answered {r : Nat} (hstatus : t.status = if r ∈ s.canceled then .panicked else .running)
      (hanswers : s.answers a = some r) (hroom : s.Roomy a)
  | overflow (hstatus : t.status = .panicked) (hroom : ¬s.Roomy a)

/-! ## What the functions of the task do to the desk -/

/-- The desk is as it was, apart from the frame that is sent, and if the task does not go on there is an
error. -/
structure Idle (s : System) (announces : Bool) (t : System) : Prop where
  desk : ∃ frames, (announces = false → frames = s.desk.announced) ∧
    t.desk = { s.desk with announced := frames }
  status : t.status = s.status ∨ ∃ e, t.status = .failed e

theorem Idle.of_desk (h : t.desk = s.desk) (hstatus : t.status = s.status) : Idle s b t :=
  ⟨⟨_, fun _ => rfl, h⟩, .inl hstatus⟩

theorem idle_sendFrame (s : System) (frame : Frame) (broken : Option Nat) :
    Idle s frame.announces (s.sendFrame frame broken) := by
  unfold sendFrame
  cases broken with
  | some n => exact ⟨⟨_, fun _ => rfl, rfl⟩, .inr ⟨_, rfl⟩⟩
  | none =>
    dsimp only
    split
    · refine ⟨⟨_, fun hframe => ?_, rfl⟩, .inl rfl⟩
      simp [System.desk, List.filter_append, hframe]
    · exact ⟨⟨_, fun _ => rfl, rfl⟩, .inr ⟨_, rfl⟩⟩

theorem desk_reply (s : System) (r : Nat) (x : Reply) : (s.reply r x).desk = s.desk.tell (r, x) := by
  unfold reply Desk.tell
  change _ = if r ∈ s.canceled then _ else _
  split
  · rfl
  · rfl

theorem status_reply (s : System) (r : Nat) (x : Reply) : (s.reply r x).status = s.status := by
  unfold reply
  split
  · rfl
  · rfl

theorem desk_answer (s : System) (r : Nat) (result : Except ConnectionError Stream) :
    (s.answer r result).desk = s.desk.tell (r, .stream result) := by
  unfold answer Desk.tell
  change _ = if r ∈ s.canceled then _ else _
  split
  · rfl
  · cases result <;> rfl

theorem status_answer (s : System) (r : Nat) (result : Except ConnectionError Stream) :
    (s.answer r result).status = if r ∈ s.canceled then .panicked else s.status := by
  unfold answer
  split
  · rfl
  · cases result <;> rfl

theorem Idle.andThen (ht : Idle s b t) (hf : Idle s b (f t)) : Idle s b (t.andThen f) := by
  unfold System.andThen
  split
  · exact hf
  · exact ht

theorem idle_deliver (s : System) (id : StreamID) (receiver : Nat) (body : List UInt8)
    (outcome : SendOutcome) (broken : Option Nat) :
    Idle s false (s.deliver id receiver body outcome broken) := by
  unfold deliver
  cases outcome with
  | sent => exact .of_desk rfl rfl
  | late =>
    obtain ⟨hdesk, hstatus⟩ := idle_sendFrame (s.push receiver body) (.resetFrame id) broken
    exact Idle.andThen ⟨hdesk, hstatus⟩ ⟨hdesk, hstatus⟩
  | timedOut =>
    obtain ⟨hdesk, hstatus⟩ := idle_sendFrame s (.resetFrame id) broken
    exact Idle.andThen ⟨hdesk, hstatus⟩ ⟨hdesk, hstatus⟩

theorem idle_onMessage (s : System) (id : StreamID) (body : List UInt8) (outcome : SendOutcome)
    (broken : Option Nat) : Idle s false (s.onMessage id body outcome broken) := by
  unfold onMessage
  split
  · exact .of_desk rfl rfl
  · exact .of_desk rfl rfl
  · split
    · exact .of_desk rfl rfl
    · split
      · exact idle_deliver _ _ _ _ _ _
      · exact .of_desk rfl rfl

theorem idle_onClose (s : System) (id : StreamID) : Idle s false (s.onClose id) := by
  unfold onClose
  dsimp only
  split <;> exact .of_desk rfl rfl

theorem Idle.turn (hrunning : s.status = .running) (h : Idle s false t)
    (htakes : s.desk.takes a = []) (hanswers : s.answers a = none) (hopens : s.opens a = none) :
    Desk.Turn a s.desk t.status t.desk ∧ Outcome s a t := by
  obtain ⟨⟨frames, hframes, hdesk⟩, hstatus⟩ := h
  rw [hframes rfl] at hdesk
  constructor
  · rw [hdesk]
    exact .quiet htakes
  · refine .calm (hrunning ▸ hstatus) (fun _ _ => by rw [hdesk]) ?_ ?_
    · rw [hanswers]
      nofun
    · rw [Roomy, hopens]
      nofun

theorem turn_onFrame (hrunning : s.status = .running) (frame : Frame) (outcome : SendOutcome)
    (broken : Option Nat) :
    Desk.Turn (.frame frame outcome broken) s.desk (s.onFrame frame outcome broken).status
        (s.onFrame frame outcome broken).desk ∧
      Outcome s (.frame frame outcome broken) (s.onFrame frame outcome broken) := by
  unfold onFrame
  cases htag : frame.header.tag with
  | message => exact (idle_onMessage s _ _ _ _).turn hrunning rfl (by simp [answers, htag]) rfl
  | close => exact (idle_onClose s _).turn hrunning rfl (by simp [answers, htag]) rfl
  | reset =>
    have hidle : Idle s false (s.onReset frame.streamId) := .of_desk rfl rfl
    exact hidle.turn hrunning rfl (by simp [answers, htag]) rfl
  | newStream =>
    have hanswers : s.answers (.frame frame outcome broken) = s.desk.waiting := if_pos htag
    dsimp only
    unfold onNewStream
    split
    · refine ⟨.quiet rfl, .calm (.inr ⟨_, rfl⟩) (fun _ _ => rfl) (fun r hr => ?_) nofun⟩
      rw [hanswers] at hr
      exact ⟨hr, _, rfl⟩
    · unfold offer
      cases hwaiting : s.conn.waitingStreamSender with
      | none =>
        rw [show (s.createStream frame.streamId).conn.waitingStreamSender = none from hwaiting]
        refine ⟨.quiet rfl, .calm (.inl hrunning) (fun _ _ => rfl) (fun r hr => ?_) nofun⟩
        rw [hanswers, show s.desk.waiting = none from hwaiting] at hr
        cases hr
      | some q =>
        rw [show (s.createStream frame.streamId).conn.waitingStreamSender = some q from hwaiting]
        dsimp only
        rw [desk_answer]
        refine ⟨.give _ hwaiting, .answered (r := q) ?_ (hanswers.trans hwaiting) nofun⟩
        rw [status_answer]
        exact congrArg (fun x => if q ∈ s.canceled then Status.panicked else x) hrunning

theorem tell_announced (d : Desk) (p : Nat × Reply) (frames : List Frame) :
    { d with announced := frames }.tell p = { d.tell p with announced := frames } := by
  unfold Desk.tell
  split
  · rfl
  · rfl

theorem desk_onStreamCommand (s : System) (cmd : StreamCommand) (broken : Option Nat) :
    ∃ said frames, said.Sublist cmd.replies ∧ (cmd.frame.announces = false → frames = s.desk.announced) ∧
      (s.onStreamCommand (some cmd) broken).desk = { s.desk.tellAll said with announced := frames } ∧
      ((s.onStreamCommand (some cmd) broken).status = s.status ∨
        ∃ e, (s.onStreamCommand (some cmd) broken).status = .failed e) := by
  have hsent := idle_sendFrame s cmd.frame broken
  have hidle : ∀ {t : System}, Idle s cmd.frame.announces t → ∃ said frames, said.Sublist cmd.replies ∧
      (cmd.frame.announces = false → frames = s.desk.announced) ∧
      t.desk = { s.desk.tellAll said with announced := frames } ∧
      (t.status = s.status ∨ ∃ e, t.status = .failed e) := by
    rintro t ⟨⟨frames, hframes, hdesk⟩, hstatus⟩
    exact ⟨[], frames, List.nil_sublist _, hframes, hdesk, hstatus⟩
  cases cmd with
  | sendFrame frame =>
    apply hidle
    change Idle s _ (s.onSendFrame frame broken)
    unfold onSendFrame
    split
    · exact .of_desk rfl rfl
    · split
      · exact hsent
      · exact .of_desk rfl rfl
  | closeStream frame =>
    apply hidle
    change Idle s _ (s.onCloseStream frame broken)
    unfold onCloseStream
    split
    · exact .of_desk rfl rfl
    · split
      · apply hsent.andThen
        split
        · exact ⟨hsent.desk, hsent.status⟩
        · exact ⟨hsent.desk, hsent.status⟩
      · exact .of_desk rfl rfl
  | resetStream frame r =>
    obtain ⟨⟨frames, hframes, hdesk⟩, hstatus⟩ := hsent
    dsimp only [onStreamCommand]
    unfold onResetStream System.andThen
    split
    · split
      · refine ⟨[(r, .done)], frames, .refl _, hframes, ?_, ?_⟩
        · rw [desk_reply]
          exact (congrArg (Desk.tell · (r, .done)) hdesk).trans (tell_announced s.desk _ frames)
        · rw [status_reply]
          exact hstatus
      · exact ⟨[], frames, List.nil_sublist _, hframes, hdesk, hstatus⟩
    · refine ⟨[(r, .done)], (s.desk.tell (r, .done)).announced, .refl _, fun _ => ?_,
        desk_reply s r .done, .inl (status_reply s r .done)⟩
      unfold Desk.tell
      split <;> rfl

theorem tellAll_waiting (d : Desk) (ps : List (Nat × Reply)) : (d.tellAll ps).waiting = d.waiting := by
  obtain ⟨said, -, heq, -⟩ := d.tellAll_eq ps
  rw [heq]

theorem turn_takeStreamCommand (hrunning : s.status = .running) (horderly : Orderly s.conn)
    (broken : Option Nat) :
    Desk.Turn (.streamCommand broken) s.desk (s.takeStreamCommand broken).status
        (s.takeStreamCommand broken).desk ∧
      Outcome s (.streamCommand broken) (s.takeStreamCommand broken) := by
  unfold takeStreamCommand
  dsimp only
  split
  case h_1 issuer cmd queue hqueue =>
    obtain ⟨said, frames, hsaid, hframes, hdesk, hstatus⟩ := desk_onStreamCommand
      (s.setStreams { s.conn.streamReceiver with queue := queue }) cmd broken
    refine ⟨hdesk ▸ .command hqueue hsaid hframes, .calm (hrunning ▸ hstatus) (fun _ _ => ?_) nofun nofun⟩
    rw [hdesk]
    exact tellAll_waiting _ said
  case h_2 hqueue =>
    have hnone : s.desk.takes (.streamCommand broken) = [] := by
      rw [Desk.takes, desk, hqueue]
      rfl
    split
    case isTrue hclosed =>
      rw [Bool.and_eq_true, Bool.not_eq_true'] at hclosed
      obtain ⟨r, hshutdown, hpaused⟩ : ∃ r, s.desk.shutdown = .inProgress r ∧
          s.conn.controlPaused = true := by
        unfold Orderly at horderly
        cases hshutdown : s.conn.shutdown with
        | notStarted =>
          rw [hshutdown, hclosed.1] at horderly
          cases horderly.1.1
        | inProgress r =>
          rw [hshutdown] at horderly
          exact ⟨r, hshutdown, horderly.mp hclosed.2⟩
        | complete =>
          rw [hshutdown] at horderly
          cases horderly
      have hdone : onStreamsDone (s.setStreams { s.conn.streamReceiver with terminated := true }) = _ :=
        if_pos hpaused
      dsimp only [onStreamCommand]
      rw [hdone]
      exact ⟨.streamsDone hqueue hshutdown, .calm (.inl hrunning) (fun _ _ => rfl) nofun nofun⟩
    case isFalse =>
      have hidle : Idle s false s := .of_desk rfl rfl
      exact hidle.turn hrunning hnone rfl rfl

theorem fits_newStreamFrame (id : StreamID) (n : UInt32) :
    (Frame.newStreamFrame id (digits n)).Fits := by
  have hlt := n.toNat_lt
  have hlen : (digits n).length ≤ 10 := by
    rw [digits, List.length_map, Nat.toDigits]
    exact Nat.toDigitsCore_length 10 _ _ 10 (by omega) (by omega)
  rw [Frame.Fits, UInt32.le_iff_toNat_le, Frame.length, UInt32.toNat_ofNat']
  change (digits n).length % 2 ^ 32 ≤ 1048576
  omega

/-- A stream is announced and given to the call, unless the transport fails. Without a number for it the
task panics. -/
theorem desk_announce (hrunning : s.status = .running) (id : StreamID) (r : Nat) (broken : Option Nat) :
    ∃ (said : List (Nat × Reply)) (frames : List Frame) (t : System), (said.map Prod.fst).Sublist [r] ∧
      ((s.createStream id).announce id broken).andThen (·.answer r (.ok ⟨id, s.nextReceiver⟩)) = t ∧
      t.desk = { s.desk.tellAll said with announced := frames } ∧
      ((id.val = none ∧ t.status = .panicked) ∨
        id.val ≠ none ∧ if broken = none then t.status = if r ∈ s.canceled then .panicked else .running
          else ∃ e, t.status = .failed e) := by
  unfold announce
  cases hval : id.val with
  | none => exact ⟨[], _, _, List.nil_sublist _, rfl, rfl, .inl ⟨rfl, rfl⟩⟩
  | some n =>
    have hfits := fits_newStreamFrame id n
    unfold sendFrame andThen
    cases broken with
    | some k => exact ⟨[], _, _, List.nil_sublist _, rfl, rfl, .inr ⟨nofun, _, rfl⟩⟩
    | none =>
      dsimp only
      rw [if_pos hfits, if_pos hfits]
      dsimp only [createStream]
      rw [hrunning]
      refine ⟨[(r, .stream (.ok ⟨id, s.nextReceiver⟩))],
        (s.sent ++ [Frame.newStreamFrame id (digits n)]).filter Frame.announces, _, .refl _, rfl, ?_,
        .inr ⟨nofun, ?_⟩⟩
      · dsimp only
        rw [desk_answer]
        exact tell_announced s.desk _ _
      · rw [if_pos rfl, status_answer]

theorem turn_openStream (hrunning : s.status = .running) (horderly : Orderly s.conn)
    (broken : Option Nat) (hpaused : s.conn.controlPaused = false)
    (hqueue : s.conn.controlReceiver.queue = .openStream r :: queue) :
    ∃ t, onOpenStream (s.setControls { s.conn.controlReceiver with queue := queue }) r broken = t ∧
      Desk.Turn (.controlCommand broken) s.desk t.status t.desk ∧ Outcome s (.controlCommand broken) t := by
  have hcomplete : s.conn.shutdown ≠ .complete := by
    intro hcomplete
    rw [Orderly, hcomplete] at horderly
    exact horderly
  have hanswers : s.answers (.controlCommand broken) =
      if s.conn.nextStreamId.toNat + 1 < 2 ^ 32 ∧ broken = none then some r else none := by
    rw [answers, hpaused, if_neg Bool.false_ne_true, hqueue]
  have hopens : s.opens (.controlCommand broken) =
      if s.conn.nextStreamId.toNat + 1 < 2 ^ 32 then some s.conn.nextStreamId else none := by
    rw [opens, hpaused, if_neg Bool.false_ne_true, hqueue]
  have hgoes : ∀ c, ¬(s.setControls c).conn.shutdown = .complete := fun _ => hcomplete
  rw [onOpenStream, if_neg (hgoes _)]
  by_cases hnext : s.conn.nextStreamId.toNat + 1 < 2 ^ 32
  · obtain ⟨said, frames, t, hsaid, ht, hdesk, hstatus⟩ := desk_announce
      (s := { s.setControls { s.conn.controlReceiver with queue := queue } with
        conn := { (s.setControls { s.conn.controlReceiver with queue := queue }).conn with
          nextStreamId := s.conn.nextStreamId + 1 } })
      hrunning ⟨s.conn.nextStreamId, true⟩ r broken
    refine ⟨t, (if_pos hnext).trans ht, hdesk ▸ .opened _ hpaused hqueue hsaid, ?_⟩
    rw [if_pos hnext] at hopens
    have hroom : StreamID.val ⟨s.conn.nextStreamId, true⟩ ≠ none ↔ s.Roomy (.controlCommand broken) := by
      rw [StreamID.val, if_pos rfl, Roomy, hopens]
      split
      case isTrue hroom => exact iff_of_true nofun fun n hn => Option.some_inj.mp hn ▸ hroom
      case isFalse hroom => exact iff_of_false (fun h => h rfl) fun h => hroom (h _ rfl)
    rcases hstatus with ⟨hval, hstatus⟩ | ⟨hval, hstatus⟩
    · exact .overflow hstatus fun h => hroom.mpr h hval
    · split at hstatus
      case isTrue hbroken =>
        rw [if_pos ⟨hnext, hbroken⟩] at hanswers
        exact .answered hstatus hanswers (hroom.mp hval)
      case isFalse hbroken =>
        rw [if_neg fun h => hbroken h.2] at hanswers
        refine .calm (.inr hstatus) (fun _ _ => ?_) (by rw [hanswers]; nofun) (hroom.mp hval)
        rw [hdesk]
        exact tellAll_waiting _ said
  · rw [if_neg fun h => hnext h.1] at hanswers
    rw [if_neg hnext] at hopens
    refine ⟨_, if_neg hnext, ?_, .calm (.inr ⟨_, rfl⟩) (fun _ _ => rfl) (by rw [hanswers]; nofun)
      (by rw [Roomy, hopens]; nofun)⟩
    exact .opened [] hpaused hqueue (List.nil_sublist _)

theorem turn_takeControlCommand (hrunning : s.status = .running) (horderly : Orderly s.conn)
    (broken : Option Nat) :
    Desk.Turn (.controlCommand broken) s.desk (s.takeControlCommand broken).status
        (s.takeControlCommand broken).desk ∧
      Outcome s (.controlCommand broken) (s.takeControlCommand broken) := by
  have hidle : Idle s false s := .of_desk rfl rfl
  unfold takeControlCommand
  dsimp only
  cases hpaused : s.conn.controlPaused with
  | true => exact hidle.turn hrunning rfl (by simp [answers, hpaused]) (by simp [opens, hpaused])
  | false =>
    rw [if_neg Bool.false_ne_true]
    cases hqueue : s.conn.controlReceiver.queue with
    | cons cmd queue =>
      dsimp only
      cases cmd with
      | openStream r =>
        obtain ⟨t, ht, hturn⟩ := turn_openStream hrunning horderly broken hpaused hqueue
        dsimp only [onControlCommand]
        rw [ht]
        exact hturn
      | acceptStream r =>
        have hroom : s.Roomy (.controlCommand broken) := by simp [Roomy, opens, hpaused, hqueue]
        have hanswer : ∀ (u : System) (result : Except ConnectionError Stream),
            u.desk = s.desk.popControl queue → u.status = .running →
            s.answers (.controlCommand broken) = some r →
            Desk.Turn (.controlCommand broken) s.desk (u.answer r result).status (u.answer r result).desk ∧
              Outcome s (.controlCommand broken) (u.answer r result) := by
          intro u result hdesk hstatus hanswers
          have hcanceled : u.canceled = s.canceled := congrArg Desk.canceled hdesk
          refine ⟨?_, .answered (r := r) ?_ hanswers hroom⟩
          · rw [desk_answer, hdesk]
            exact .accepted _ hpaused hqueue
          · rw [status_answer, hcanceled, hstatus]
        dsimp only [onControlCommand]
        unfold onAcceptStream
        split
        case isTrue hwaiting =>
          refine hanswer _ _ (by rfl) (by exact hrunning) ?_
          have hwaits : s.conn.waitingStreamSender ≠ none := Option.isSome_iff_ne_none.mp hwaiting
          simp [answers, hpaused, hqueue, hwaits]
        case isFalse hwaiting =>
          have hnone : s.conn.waitingStreamSender = none := Option.not_isSome_iff_eq_none.mp hwaiting
          split
          case h_1 stream rest hpending =>
            refine hanswer _ _ (by rfl) (by exact hrunning) ?_
            have hsome : s.conn.pendingStreams = stream :: rest := hpending
            simp [answers, hpaused, hqueue, hsome]
          case h_2 hpending =>
            refine ⟨.waits hpaused hqueue hnone, .calm (.inl hrunning) (fun e he => ?_) ?_ hroom⟩
            · cases hrunning.symm.trans he
            · have hempty : s.conn.pendingStreams = [] := hpending
              simp [answers, hpaused, hqueue, hnone, hempty]
      | closeConnection r =>
        have hanswers : s.answers (.controlCommand broken) = none := by simp [answers, hpaused, hqueue]
        have hroom : s.Roomy (.controlCommand broken) := by simp [Roomy, opens, hpaused, hqueue]
        dsimp only [onControlCommand]
        unfold onCloseConnection
        split
        case isTrue hshutdown =>
          exact ⟨.closes hpaused hqueue hshutdown,
            .calm (.inl hrunning) (fun _ _ => rfl) (by rw [hanswers]; nofun) hroom⟩
        case isFalse hshutdown =>
          refine ⟨?_, .calm (.inl ?_) (fun _ _ => ?_) (by rw [hanswers]; nofun) hroom⟩
          · rw [desk_reply]
            exact .again hpaused hqueue hshutdown
          · rw [status_reply]
            exact hrunning
          · rw [desk_reply]
            exact tellAll_waiting _ [_]
    | nil =>
      have hanswers : s.answers (.controlCommand broken) = none := by simp [answers, hpaused, hqueue]
      have hopens : s.opens (.controlCommand broken) = none := by simp [opens, hpaused, hqueue]
      dsimp only
      split
      case isTrue hclosed =>
        rw [Bool.and_eq_true] at hclosed
        dsimp only [onControlCommand]
        unfold onControlsDone Orderly at *
        cases hshutdown : s.conn.shutdown with
        | inProgress r =>
          have hterminated : ∀ c, (s.setControls c).conn.shutdown = .inProgress r := fun _ => hshutdown
          simp only [hterminated]
          refine ⟨?_, .calm (.inr ⟨_, rfl⟩) (fun _ _ => ?_) (by rw [hanswers]; nofun)
            (by rw [Roomy, hopens]; nofun)⟩
          · change Desk.Turn _ _ (.failed .closed) (reply _ r .done).desk
            rw [desk_reply, ← hqueue]
            exact .controlsDone hpaused hqueue hclosed.1 hshutdown
          · change (reply _ r .done).desk.waiting = _
            rw [desk_reply]
            exact tellAll_waiting _ [_]
        | notStarted =>
          rw [hshutdown, hclosed.1] at horderly
          cases horderly.2.1
        | complete =>
          rw [hshutdown] at horderly
          cases horderly
      case isFalse => exact hidle.turn hrunning rfl hanswers hopens

theorem handled_turn (hrunning : s.status = .running) (horderly : Orderly s.conn)
    (ha : a.OfTask) : Desk.Turn a s.desk (s.handled a).status (s.handled a).desk ∧
      Outcome s a (s.handled a) := by
  cases a with
  | frame frame outcome broken => exact turn_onFrame hrunning frame outcome broken
  | readError e =>
    have hidle : Idle s false (s.fail (.decode e)) := ⟨⟨_, fun _ => rfl, rfl⟩, .inr ⟨_, rfl⟩⟩
    exact hidle.turn hrunning rfl rfl rfl
  | streamCommand broken => exact turn_takeStreamCommand hrunning horderly broken
  | controlCommand broken => exact turn_takeControlCommand hrunning horderly broken
  | _ => exact absurd ha id

/-! ## The end of the task -/

theorem desk_dismissControls (s : System) (commands : List ControlCommand) :
    (commands.foldl dismissControl s).desk = s.desk.tellAll (commands.map ControlCommand.verdict) := by
  induction commands generalizing s with
  | nil => rfl
  | cons cmd commands ih =>
    rw [List.foldl_cons, ih]
    cases cmd <;> exact congrArg (Desk.tellAll · _) (desk_reply s _ _)

theorem desk_dismissStreams (s : System) (commands : List (Nat × StreamCommand)) :
    (commands.foldl (fun s cmd => s.dismissStream cmd.2) s).desk =
      s.desk.tellAll (commands.flatMap (·.2.replies)) := by
  induction commands generalizing s with
  | nil => rfl
  | cons entry commands ih =>
    obtain ⟨issuer, cmd⟩ := entry
    rw [List.foldl_cons, ih]
    cases cmd with
    | sendFrame frame | closeStream frame => rfl
    | resetStream frame r => exact congrArg (Desk.tellAll · _) (desk_reply s r .done)

theorem desk_release (s : System) (e : ConnectionError) :
    (s.release e).desk = s.desk.drainControls.drainStreams := by
  have hcontrols : s.drainControls.desk = s.desk.drainControls := by
    have hdesk := desk_dismissControls s s.conn.controlReceiver.queue
    unfold drainControls Desk.drainControls
    change _ = if s.conn.controlReceiver.terminated then _ else _
    split
    · rfl
    · exact congrArg (fun d : Desk => { d with paused := false, controls := ⟨[], true, true⟩ }) hdesk
  have hstreams : ∀ t : System, t.drainStreams.desk = t.desk.drainStreams := by
    intro t
    have hdesk := desk_dismissStreams t t.conn.streamReceiver.queue.tail
    unfold drainStreams Desk.drainStreams
    change _ = if t.conn.streamReceiver.terminated then _ else _
    split
    · rfl
    · exact congrArg (fun d : Desk => { d with streams := ⟨[], true, true⟩ }) hdesk
  rw [← hcontrols]
  exact hstreams s.drainControls.dropAllStreams

theorem desk_dismissWaiting (s : System) : s.markClosed.dismissWaiting.desk = s.desk.dismissWaiting := by
  have hsame : s.markClosed.conn.waitingStreamSender = s.desk.waiting := rfl
  unfold dismissWaiting Desk.dismissWaiting
  rw [hsame]
  cases s.desk.waiting with
  | none => rfl
  | some q => exact desk_answer _ q _

end System

end Libp2pRs.Mplex
