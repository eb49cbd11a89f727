import Libp2pRs.Mplex.Desk

/-!
# What the task does to streams and handles

A turn of the task may begin with a stream that is created or a message that is put into a channel. What
follows is a sequence of edits: a handle comes with an answer, a stream waits or is taken, names and
states of streams are forgotten or changed, commands go. Nothing else is done to the streams.
-/

namespace Libp2pRs.Mplex.System

open Lib Libp2pRs.Core Relation

structure View where
  handles : AList fun _ : Nat => Handle
  nextHandle : Nat
  items : Nat → List (List UInt8)
  pending : List Stream
  queue : List (Nat × StreamCommand)
  current : StreamID → Option Nat
  streams : AList fun _ : StreamID => Nat
  stats : AList fun _ : StreamID => State
  nextStreamId : UInt32

def view (s : System) : View where
  handles := s.handles
  nextHandle := s.nextHandle
  items := s.items
  pending := s.conn.pendingStreams
  queue := s.conn.streamReceiver.queue
  current := s.current
  streams := s.conn.streams
  stats := s.conn.streamsStat
  nextStreamId := s.conn.nextStreamId

inductive Edit (s : System) : System → Prop where
  | same {t : System} (h : t.view = s.view) : Edit s t
  | dequeue (r : Receiver (Nat × StreamCommand)) (h : r.queue ⊆ s.conn.streamReceiver.queue) :
      Edit s (s.setStreams r)
  | handle {stream : Stream} (h : s.current stream.id = some stream.receiver) :
      Edit s (s.addHandle stream)
  | pend {stream : Stream} (h : s.current stream.id = some stream.receiver) :
      Edit s (s.setPending (s.conn.pendingStreams ++ [stream]))
  | accept {stream : Stream} {rest : List Stream} (h : s.conn.pendingStreams = stream :: rest) :
      Edit s ((s.setPending rest).addHandle stream)
  | dismiss {stream : Stream} {rest : List Stream} (h : s.conn.pendingStreams = stream :: rest) :
      Edit s (s.setPending rest)
  | removeStream (id : StreamID) : Edit s (s.removeStream id)
  | removeBoth (id : StreamID) : Edit s ((s.removeStream id).removeStat id)
  | forget {id : StreamID}
      (h : s.conn.streamsStat.lookup id = some .recvClosed ∨ id ∉ s.conn.streams) :
      Edit s (s.removeStat id)
  | setStat {id : StreamID} {stat : State} (hid : id ∈ s.conn.streamsStat)
      (h : id ∈ s.conn.streams → stat.canRead = true) : Edit s (s.setStat id stat)
  | clear : Edit s s.dropAllStreams

abbrev Edits : System → System → Prop := ReflTransGen Edit

theorem edits_same (h : t.view = s.view) : Edits s t := .single (.same h)

theorem Edits.after (h : Edits t u) (ht : t.view = s.view) : Edits s u := h.head (.same ht)

theorem view_sendFrame (s : System) (frame : Frame) (broken : Option Nat) :
    (s.sendFrame frame broken).view = s.view := by
  unfold sendFrame
  cases broken with
  | some n => rfl
  | none =>
    split
    · rfl
    · rfl

theorem view_reply (s : System) (r : Nat) (x : Reply) : (s.reply r x).view = s.view := by
  unfold reply
  split
  · rfl
  · rfl

theorem Edits.andThen (h : Edits s t) (hf : Edits s (f t)) : Edits s (t.andThen f) := by
  unfold System.andThen
  split
  · exact hf
  · exact h

theorem edits_answer (r : Nat)
    (h : ∀ stream, result = .ok stream → s.current stream.id = some stream.receiver) :
    Edits s (s.answer r result) := by
  unfold answer
  split
  · exact edits_same rfl
  · have hreplied : Edits s { s with replies := s.replies ++ [(r, .stream result)] } := edits_same rfl
    cases result with
    | error e => exact hreplied
    | ok stream => exact hreplied.tail (.handle (h stream rfl))

theorem edits_sent (s : System) (frame : Frame) (broken : Option Nat) :
    Edits s (s.sendFrame frame broken) := edits_same (view_sendFrame s frame broken)

/-! ## Messages -/

def taker (s : System) (id : StreamID) : Option Nat :=
  match s.conn.streamsStat.lookup id with
  | none | some .recvClosed => none
  | some _ => (s.conn.streams.lookup id).filter s.receiverAlive

/-- The body is in the channel, unless this took too long. -/
def accept (s : System) (id : StreamID) (body : List UInt8) (outcome : SendOutcome) : System :=
  match s.taker id with
  | none => s
  | some receiver => if outcome = .timedOut then s else s.push receiver body

theorem edits_onMessage (s : System) (id : StreamID) (body : List UInt8) (outcome : SendOutcome)
    (broken : Option Nat) : Edits (s.accept id body outcome) (s.onMessage id body outcome broken) := by
  have hdeliver : ∀ receiver, Edits (if outcome = .timedOut then s else s.push receiver body)
      (s.deliver id receiver body outcome broken) := by
    intro receiver
    unfold deliver
    cases outcome with
    | sent => exact .refl
    | late =>
      have hsent := edits_sent (s.push receiver body) (.resetFrame id) broken
      exact hsent.andThen (hsent.tail (.removeBoth id))
    | timedOut =>
      have hsent := edits_sent s (.resetFrame id) broken
      exact hsent.andThen (hsent.tail (.removeBoth id))
  unfold accept taker onMessage
  cases hstat : s.conn.streamsStat.lookup id with
  | none => exact .refl
  | some stat =>
    cases hstream : s.conn.streams.lookup id with
    | none => cases stat <;> exact .refl
    | some receiver =>
      cases stat with
      | recvClosed => exact .refl
      | opened | sendClosed =>
        by_cases halive : s.receiverAlive receiver = true
        · simp only [Option.filter_some, halive, if_true]
          exact hdeliver receiver
        · simp only [Option.filter_some, halive, if_false, Bool.false_eq_true]
          exact .single (.removeStream id)

theorem edits_onClose (s : System) (id : StreamID) : Edits s (s.onClose id) := by
  have hremoved : Edits s (s.removeStream id) := .single (.removeStream id)
  have hnot : id ∉ (s.removeStream id).conn.streams := fun hid => (AList.mem_erase.mp hid).1 rfl
  unfold onClose
  dsimp only
  split
  case h_1 => exact hremoved
  case h_2 => exact hremoved.tail (.forget (.inr hnot))
  case h_3 stat hstat =>
    refine hremoved.tail (.setStat (AList.lookup_isSome.mp ?_) fun hid => absurd hid hnot)
    rw [hstat]
    rfl

theorem edits_onStreamCommand (s : System) (cmd : Option StreamCommand) (broken : Option Nat) :
    Edits s (s.onStreamCommand cmd broken) := by
  unfold onStreamCommand
  match cmd with
  | none =>
    dsimp only
    unfold onStreamsDone
    split
    · exact edits_same rfl
    · exact edits_same rfl
  | some (.sendFrame frame) =>
    dsimp only
    unfold onSendFrame
    split
    · exact .refl
    · split
      · exact edits_sent s frame broken
      · exact .refl
  | some (.closeStream frame) =>
    have hsent := edits_sent s frame broken
    have hview := view_sendFrame s frame broken
    have hstats : (s.sendFrame frame broken).conn.streamsStat = s.conn.streamsStat :=
      congrArg View.stats hview
    dsimp only
    unfold onCloseStream
    split
    case h_1 => exact .refl
    case h_2 stat hstat =>
      split
      · apply hsent.andThen
        split
        case isTrue hclosed =>
          refine hsent.tail (.forget (.inl ?_))
          rw [hstats, hstat, hclosed]
        case isFalse =>
          refine hsent.tail (.setStat (AList.lookup_isSome.mp ?_) fun _ => rfl)
          rw [hstats, hstat]
          rfl
      · exact .refl
  | some (.resetStream frame r) =>
    have hsent := edits_sent s frame broken
    dsimp only
    unfold onResetStream
    split
    · exact hsent.andThen ((hsent.tail (.removeBoth frame.streamId)).tail (.same (view_reply _ r .done)))
    · exact edits_same (view_reply s r .done)

theorem edits_takeStreamCommand (s : System) (broken : Option Nat) :
    Edits s (s.takeStreamCommand broken) := by
  unfold takeStreamCommand
  dsimp only
  split
  case h_1 issuer cmd queue hqueue =>
    have hpopped : Edits s (s.setStreams { s.conn.streamReceiver with queue := queue }) := by
      refine .single (.dequeue _ ?_)
      rw [hqueue]
      exact List.subset_cons_self _ _
    exact hpopped.trans (edits_onStreamCommand _ _ _)
  case h_2 =>
    split
    · exact (edits_onStreamCommand _ _ _).after rfl
    · exact .refl

/-! ## Turns -/

/-- What a turn of the task may begin with. -/
inductive Begins (s : System) : Action → System → Prop where
  | nothing {a : Action}
      (h : ∀ frame outcome broken, a = .frame frame outcome broken → frame.header.tag ≠ .message) :
      Begins s a s
  | message {frame : Frame} {outcome : SendOutcome} {broken : Option Nat}
      (htag : frame.header.tag = .message) :
      Begins s (.frame frame outcome broken) (s.accept frame.streamId frame.body outcome)
  | arrived {frame : Frame} {outcome : SendOutcome} {broken : Option Nat}
      (htag : frame.header.tag = .newStream) (hnew : frame.streamId ∉ s.conn.streamsStat) :
      Begins s (.frame frame outcome broken) (s.createStream frame.streamId)
  | opened {broken : Option Nat}
      (hopens : s.opens (.controlCommand broken) = some s.conn.nextStreamId)
      (hroom : s.conn.nextStreamId.toNat + 1 < 2 ^ 32) :
      Begins s (.controlCommand broken)
        (createStream { s with conn := { s.conn with nextStreamId := s.conn.nextStreamId + 1 } }
          ⟨s.conn.nextStreamId, true⟩)

theorem current_createStream (s : System) (id : StreamID) :
    (s.createStream id).current id = some s.nextReceiver :=
  Function.update_self id _ _

theorem edits_onFrame (s : System) (frame : Frame) (outcome : SendOutcome) (broken : Option Nat) :
    ∃ u, Begins s (.frame frame outcome broken) u ∧ Edits u (s.onFrame frame outcome broken) := by
  have hnothing : frame.header.tag ≠ .message → Begins s (.frame frame outcome broken) s :=
    fun htag => .nothing fun _ _ _ heq => by cases heq; exact htag
  unfold onFrame
  split
  case h_1 htag =>
    unfold onNewStream
    split
    case isTrue => exact ⟨s, hnothing (by rw [htag]; nofun), edits_same rfl⟩
    case isFalse hnew =>
      have hcurrent := current_createStream s frame.streamId
      refine ⟨_, .arrived htag hnew, ?_⟩
      unfold offer
      split
      · refine (edits_answer _ ?_).after rfl
        rintro stream ⟨⟩
        exact hcurrent
      · exact .single (.pend hcurrent)
  case h_2 htag => exact ⟨_, .message htag, edits_onMessage s _ _ outcome broken⟩
  case h_3 htag => exact ⟨s, hnothing (by rw [htag]; nofun), edits_onClose s _⟩
  case h_4 htag => exact ⟨s, hnothing (by rw [htag]; nofun), .single (.removeBoth _)⟩

theorem edits_announce (s : System) (id : StreamID) (r : Nat) (broken : Option Nat) :
    Edits (s.createStream id)
      (((s.createStream id).announce id broken).andThen (·.answer r (.ok ⟨id, s.nextReceiver⟩))) := by
  have hview : ((s.createStream id).announce id broken).view = (s.createStream id).view := by
    unfold announce
    split
    · rfl
    · exact view_sendFrame _ _ _
  refine (edits_same hview).andThen ((edits_answer r ?_).after hview)
  rintro stream ⟨⟩
  have hcurrent : ((s.createStream id).announce id broken).current = (s.createStream id).current :=
    congrArg View.current hview
  rw [hcurrent]
  exact current_createStream s id

theorem edits_onOpenStream (s : System) (r : Nat) (broken : Option Nat) :
    Edits s (s.onOpenStream r broken) ∨ s.conn.nextStreamId.toNat + 1 < 2 ^ 32 ∧
      Edits (createStream { s with conn := { s.conn with nextStreamId := s.conn.nextStreamId + 1 } }
        ⟨s.conn.nextStreamId, true⟩) (s.onOpenStream r broken) := by
  unfold onOpenStream
  split
  · exact .inl (edits_same (view_reply s r _))
  · by_cases hnext : s.conn.nextStreamId.toNat + 1 < 2 ^ 32
    · rw [nextStreamId, if_pos hnext]
      exact .inr ⟨hnext, edits_announce _ _ r broken⟩
    · rw [nextStreamId, if_neg hnext]
      exact .inl (edits_same rfl)

theorem edits_onAcceptStream (s : System) (r : Nat) : Edits s (s.onAcceptStream r) := by
  unfold onAcceptStream
  split
  · exact edits_answer r fun _ h => nomatch h
  · split
    case h_1 stream rest hpending =>
      unfold answer
      split
      · exact .head (.dismiss hpending) (edits_same rfl)
      · exact .head (.accept hpending) (edits_same rfl)
    case h_2 => exact edits_same rfl

theorem edits_takeControlCommand (s : System) (broken : Option Nat) :
    ∃ u, Begins s (.controlCommand broken) u ∧ Edits u (s.takeControlCommand broken) := by
  have hnothing : Begins s (.controlCommand broken) s := .nothing nofun
  unfold takeControlCommand
  dsimp only
  split
  case isTrue => exact ⟨s, hnothing, .refl⟩
  case isFalse hpaused =>
    split
    case h_1 cmd queue hqueue =>
      cases cmd with
      | openStream r =>
        rcases edits_onOpenStream (s.setControls { s.conn.controlReceiver with queue := queue }) r broken
          with hedits | ⟨hnext, hedits⟩
        · exact ⟨s, hnothing, hedits.after rfl⟩
        · refine ⟨_, .opened ?_ hnext, hedits.after rfl⟩
          rw [opens, if_neg hpaused, hqueue]
          exact if_pos hnext
      | acceptStream r => exact ⟨s, hnothing, (edits_onAcceptStream _ r).after rfl⟩
      | closeConnection r =>
        change ∃ u, _ ∧ Edits u (onCloseConnection _ r)
        unfold onCloseConnection
        split
        · exact ⟨s, hnothing, edits_same rfl⟩
        · exact ⟨s, hnothing, (edits_same (view_reply _ r _)).after rfl⟩
    case h_2 =>
      split
      · change ∃ u, _ ∧ Edits u (onControlsDone _)
        unfold onControlsDone
        split
        · refine ⟨s, hnothing, .tail (Edits.after (edits_same (view_reply _ _ _)) ?_) (.same rfl)⟩
          rfl
        · exact ⟨s, hnothing, edits_same rfl⟩
      · exact ⟨s, hnothing, .refl⟩

theorem edits_finish (s : System) (e : ConnectionError) : Edits s (s.finish e) := by
  have hwaiting : Edits s s.markClosed.dismissWaiting := by
    unfold dismissWaiting
    split
    · refine (edits_answer _ ?_).after rfl
      nofun
    · exact edits_same rfl
  have hcontrols : ∀ t : System, t.drainControls.view = t.view := by
    intro t
    unfold drainControls
    split
    · rfl
    · have hfold : ∀ (cmds : List ControlCommand) (t : System),
          (cmds.foldl dismissControl t).view = t.view := by
        intro cmds
        induction cmds with
        | nil => exact fun _ => rfl
        | cons cmd cmds ih =>
          intro t
          rw [List.foldl_cons, ih]
          cases cmd <;> exact view_reply _ _ _
      exact hfold _ t
  have hstreams : ∀ t : System, Edits t t.drainStreams := by
    intro t
    have hfold : ∀ (cmds : List (Nat × StreamCommand)) (t : System),
        (cmds.foldl (fun s cmd => s.dismissStream cmd.2) t).view = t.view := by
      intro cmds
      induction cmds with
      | nil => exact fun _ => rfl
      | cons cmd cmds ih =>
        intro t
        rw [List.foldl_cons, ih]
        obtain ⟨issuer, cmd⟩ := cmd
        cases cmd with
        | resetStream frame r => exact view_reply _ _ _
        | sendFrame | closeStream => rfl
    unfold drainStreams
    split
    · exact .refl
    · exact (edits_same (hfold _ t)).tail (.dequeue _ (List.nil_subset _))
  unfold finish
  apply hwaiting.andThen
  have hdropped := (hwaiting.tail (.same (hcontrols _))).tail .clear
  exact (hdropped.trans (hstreams _)).tail (.same rfl)

theorem kept_by_edits {I : System → Prop} (hedit : ∀ {t u}, I t → Edit t u → I u)
    (hidle : s.status ≠ .running → I s) (ha : a.OfTask)
    (hbegins : s.status = .running → ∀ {u}, Begins s a u → I u) : I (s.step a) := by
  by_cases hrunning : s.status = .running
  · have hhandled : ∃ u, Begins s a u ∧ Edits u (s.handled a) := by
      cases a with
      | frame frame outcome broken => exact edits_onFrame s frame outcome broken
      | readError e => exact ⟨s, .nothing nofun, edits_same rfl⟩
      | streamCommand broken => exact ⟨s, .nothing nofun, edits_takeStreamCommand s broken⟩
      | controlCommand broken => exact edits_takeControlCommand s broken
      | _ => exact absurd ha id
    obtain ⟨u, hu, hedits⟩ := hhandled
    have hstep : Edits u (s.step a) := by
      rw [step_eq_turn ha, turn, hrunning]
      dsimp only
      split
      · exact hedits.trans (edits_finish _ _)
      · exact hedits
    generalize s.step a = t at hstep
    induction hstep with
    | refl => exact hbegins hrunning hu
    | tail _ hlast ih => exact hedit ih hlast
  · rw [step_of_not_running hrunning ha]
    exact hidle hrunning

theorem pollReadChunk_handle (hd : Handle) (items : List (List UInt8)) (alive : Bool) (size : Nat) :
    (pollReadChunk hd items alive size).2.1.stream = hd.stream ∧
      (pollReadChunk hd items alive size).2.1.closed = hd.closed := by
  unfold pollReadChunk
  split
  · exact ⟨rfl, rfl⟩
  · split
    · exact ⟨rfl, rfl⟩
    · split
      · exact ⟨rfl, rfl⟩
      · exact ⟨rfl, rfl⟩

end Libp2pRs.Mplex.System
