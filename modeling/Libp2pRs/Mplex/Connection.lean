import Libp2pRs.Lib.Pipe
import Libp2pRs.Lib.Runs
import Libp2pRs.Mplex.Frame

/-!
# The connection of mplex

The task of a connection handles one thing at a time: a frame from the remote, a command of a stream
or a command of a controller. Around it are the handles of the streams and the calls that wait for a
stream. A `System` is the connection with its channels, handles and calls, and an `Action` is one step
of the task or of its environment; a run is any sequence of actions.

Each stream that is created has a channel of its own, by which the task sends it the bodies of its
messages. Beside the state stand the frames and bytes that were sent, the replies, and for each name of
a stream the channel of the last stream with this name.

An action says what the environment decides: whether the transport takes what is written, and whether
the channel of a stream takes a body in time. A channel that is full is one into which nothing is put.
-/

namespace Libp2pRs.Mplex

open Lib Libp2pRs.Core

inductive ConnectionError where
  | io (kind : ErrorKind)
  | decode (e : FrameDecodeError)
  | noMoreStreamIds
  | closed
  | tooManyStreams
  deriving DecidableEq, Repr

inductive State where
  | opened
  | sendClosed
  | recvClosed
  deriving DecidableEq, Repr

namespace State

def canRead (s : State) : Bool := s ≠ recvClosed

def canWrite (s : State) : Bool := s ≠ sendClosed

end State

structure Stream where
  id : StreamID
  receiver : Nat
  deriving DecidableEq, Repr

/-- A handle of a stream. The read buffer is its own, and it may have closed its sender. -/
structure Handle where
  stream : Stream
  readBuffer : List UInt8
  closed : Bool
  deriving DecidableEq, Repr

/-- The sender of a reply is the number of the call that waits for it. -/
inductive ControlCommand where
  | openStream (reply : Nat)
  | acceptStream (reply : Nat)
  | closeConnection (reply : Nat)
  deriving DecidableEq, Repr

inductive StreamCommand where
  | sendFrame (frame : Frame)
  | closeStream (frame : Frame)
  | resetStream (frame : Frame) (reply : Nat)
  deriving DecidableEq, Repr

def StreamCommand.frame : StreamCommand → Frame
  | .sendFrame frame | .closeStream frame | .resetStream frame _ => frame

inductive Reply where
  | stream (result : Except ConnectionError Stream)
  | done

inductive Shutdown where
  | notStarted
  | inProgress (reply : Nat)
  | complete
  deriving DecidableEq, Repr

/-- The receiver of a channel of commands. It is terminated when it has told that it is closed and
empty. -/
structure Receiver (α : Type) where
  queue : List α
  closed : Bool
  terminated : Bool

def Receiver.new {α : Type} : Receiver α := ⟨[], false, false⟩

structure Connection where
  id : UInt32
  isClosed : Bool
  shutdown : Shutdown
  nextStreamId : UInt32
  streams : AList fun _ : StreamID => Nat
  streamsStat : AList fun _ : StreamID => State
  /-- The commands, each with the channel of the stream whose handle has sent it. -/
  streamReceiver : Receiver (Nat × StreamCommand)
  controlReceiver : Receiver ControlCommand
  controlPaused : Bool
  waitingStreamSender : Option Nat
  pendingStreams : List Stream

namespace Connection

def new (id : UInt32) : Connection where
  id := id
  isClosed := false
  shutdown := .notStarted
  nextStreamId := 0
  streams := ∅
  streamsStat := ∅
  streamReceiver := .new
  controlReceiver := .new
  controlPaused := false
  waitingStreamSender := none
  pendingStreams := []

end Connection

/-- What becomes of a body that is sent to a stream: it is in the channel in time, it is in the channel
and the channel stays full, or it is not in the channel. -/
inductive SendOutcome where
  | sent
  | late
  | timedOut
  deriving DecidableEq, Repr

inductive Status where
  | running
  | failed (e : ConnectionError)
  | ended (e : ConnectionError)
  | panicked
  deriving DecidableEq, Repr

structure System where
  conn : Connection
  /-- What is in each channel. -/
  items : Nat → List (List UInt8)
  nextReceiver : Nat
  handles : AList fun _ : Nat => Handle
  nextHandle : Nat
  nextReply : Nat
  /-- The calls that nobody waits for any more. -/
  canceled : Finset Nat
  replies : List (Nat × Reply)
  sent : List Frame
  written : List UInt8
  current : StreamID → Option Nat
  status : Status

namespace System

def start (id : UInt32) : System where
  conn := .new id
  items := fun _ => []
  nextReceiver := 0
  handles := ∅
  nextHandle := 0
  nextReply := 0
  canceled := ∅
  replies := []
  sent := []
  written := []
  current := fun _ => none
  status := .running

def fail (s : System) (e : ConnectionError) : System := { s with status := .failed e }

def panic (s : System) : System := { s with status := .panicked }

/-- What follows is done unless something has gone wrong. -/
def andThen (s : System) (f : System → System) : System :=
  match s.status with
  | .running => f s
  | _ => s

/-- `writer.send_frame`. The transport takes everything, or fails after some bytes. -/
def sendFrame (s : System) (frame : Frame) (broken : Option Nat) : System :=
  let bytes := if frame.Fits then frame.bytes else frame.headerBytes
  match broken with
  | some n => { s with written := s.written ++ bytes.take n }.fail .closed
  | none =>
    if frame.Fits then { s with written := s.written ++ bytes, sent := s.sent ++ [frame] }
    else { s with written := s.written ++ bytes }.fail .closed

def reply (s : System) (reply : Nat) (r : Reply) : System :=
  if reply ∈ s.canceled then s else { s with replies := s.replies ++ [(reply, r)] }

def addHandle (s : System) (stream : Stream) : System :=
  { s with
    handles := s.handles.insert s.nextHandle ⟨stream, [], false⟩
    nextHandle := s.nextHandle + 1 }

/-- `reply.send(result).expect("send err")`. The call that gets a stream has a handle of it. -/
def answer (s : System) (reply : Nat) (result : Except ConnectionError Stream) : System :=
  if reply ∈ s.canceled then s.panic
  else
    let s := { s with replies := s.replies ++ [(reply, .stream result)] }
    match result with
    | .ok stream => s.addHandle stream
    | .error _ => s

/-- Some handle of the stream is left, or the stream waits to be accepted. -/
def receiverAlive (s : System) (receiver : Nat) : Bool :=
  s.handles.entries.any (·.2.stream.receiver = receiver) ||
    s.conn.pendingStreams.any (·.receiver = receiver)

def senderAlive (s : System) (receiver : Nat) : Bool := s.conn.streams.entries.any (·.2 = receiver)

def createStream (s : System) (id : StreamID) : System :=
  { s with
    conn :=
      { s.conn with
        streams := s.conn.streams.insert id s.nextReceiver
        streamsStat := s.conn.streamsStat.insert id .opened }
    nextReceiver := s.nextReceiver + 1
    current := Function.update s.current id (some s.nextReceiver) }

def removeStream (s : System) (id : StreamID) : System :=
  { s with conn := { s.conn with streams := s.conn.streams.erase id } }

def removeStat (s : System) (id : StreamID) : System :=
  { s with conn := { s.conn with streamsStat := s.conn.streamsStat.erase id } }

def setStat (s : System) (id : StreamID) (stat : State) : System :=
  { s with conn := { s.conn with streamsStat := s.conn.streamsStat.insert id stat } }

def setStreams (s : System) (r : Receiver (Nat × StreamCommand)) : System :=
  { s with conn := { s.conn with streamReceiver := r } }

def setControls (s : System) (r : Receiver ControlCommand) : System :=
  { s with conn := { s.conn with controlReceiver := r } }

def setPaused (s : System) (paused : Bool) : System :=
  { s with conn := { s.conn with controlPaused := paused } }

def setShutdown (s : System) (shutdown : Shutdown) : System :=
  { s with conn := { s.conn with shutdown := shutdown } }

def clearWaiting (s : System) : System :=
  { s with conn := { s.conn with waitingStreamSender := none } }

def setPending (s : System) (streams : List Stream) : System :=
  { s with conn := { s.conn with pendingStreams := streams } }

def push (s : System) (receiver : Nat) (body : List UInt8) : System :=
  { s with items := Function.update s.items receiver (s.items receiver ++ [body]) }

/-! ## Frames -/

/-- A stream that has arrived is for the call that waits, or it waits itself. -/
def offer (s : System) (stream : Stream) : System :=
  match s.conn.waitingStreamSender with
  | some sender => s.clearWaiting.answer sender (.ok stream)
  | none => s.setPending (s.conn.pendingStreams ++ [stream])

def onNewStream (s : System) (id : StreamID) : System :=
  if id ∈ s.conn.streamsStat then s.fail (.io .invalidData)
  else (s.createStream id).offer ⟨id, s.nextReceiver⟩

/-- A body is sent to the channel of the stream. If that takes too long the stream is reset. -/
def deliver (s : System) (id : StreamID) (receiver : Nat) (body : List UInt8) (outcome : SendOutcome)
    (broken : Option Nat) : System :=
  match outcome with
  | .sent => s.push receiver body
  | .late =>
    ((s.push receiver body).sendFrame (.resetFrame id) broken).andThen
      fun s => (s.removeStream id).removeStat id
  | .timedOut =>
    (s.sendFrame (.resetFrame id) broken).andThen fun s => (s.removeStream id).removeStat id

def onMessage (s : System) (id : StreamID) (body : List UInt8) (outcome : SendOutcome)
    (broken : Option Nat) : System :=
  match s.conn.streamsStat.lookup id with
  | none | some .recvClosed => s
  | some _ =>
    match s.conn.streams.lookup id with
    | none => s
    | some receiver =>
      if s.receiverAlive receiver then s.deliver id receiver body outcome broken
      else s.removeStream id

def onClose (s : System) (id : StreamID) : System :=
  let s := s.removeStream id
  match s.conn.streamsStat.lookup id with
  | none => s
  | some .sendClosed => s.removeStat id
  | some _ => s.setStat id .recvClosed

def onReset (s : System) (id : StreamID) : System := (s.removeStat id).removeStream id

def onFrame (s : System) (frame : Frame) (outcome : SendOutcome) (broken : Option Nat) : System :=
  match frame.header.tag with
  | .newStream => s.onNewStream frame.streamId
  | .message => s.onMessage frame.streamId frame.body outcome broken
  | .close => s.onClose frame.streamId
  | .reset => s.onReset frame.streamId

/-! ## Commands of streams -/

def onSendFrame (s : System) (frame : Frame) (broken : Option Nat) : System :=
  match s.conn.streamsStat.lookup frame.streamId with
  | none => s
  | some stat => if stat.canWrite then s.sendFrame frame broken else s

def onCloseStream (s : System) (frame : Frame) (broken : Option Nat) : System :=
  match s.conn.streamsStat.lookup frame.streamId with
  | none => s
  | some stat =>
    if stat.canWrite then
      (s.sendFrame frame broken).andThen fun s =>
        if stat = .recvClosed then s.removeStat frame.streamId
        else s.setStat frame.streamId .sendClosed
    else s

def onResetStream (s : System) (frame : Frame) (reply : Nat) (broken : Option Nat) : System :=
  if frame.streamId ∈ s.conn.streamsStat then
    (s.sendFrame frame broken).andThen fun s =>
      ((s.removeStat frame.streamId).removeStream frame.streamId).reply reply .done
  else s.reply reply .done

/-- The receiver of stream commands is closed and empty. -/
def onStreamsDone (s : System) : System :=
  if s.conn.controlPaused then
    (s.setPaused false).setControls { s.conn.controlReceiver with closed := true }
  else s.panic

def onStreamCommand (s : System) (cmd : Option StreamCommand) (broken : Option Nat) : System :=
  match cmd with
  | some (.sendFrame frame) => s.onSendFrame frame broken
  | some (.closeStream frame) => s.onCloseStream frame broken
  | some (.resetStream frame reply) => s.onResetStream frame reply broken
  | none => s.onStreamsDone

/-! ## Commands of controllers -/

def nextStreamId (s : System) (use : System → StreamID → System) : System :=
  let id := s.conn.nextStreamId
  if id.toNat + 1 < 2 ^ 32 then
    use { s with conn := { s.conn with nextStreamId := id + 1 } } ⟨id, true⟩
  else s.fail .noMoreStreamIds

/-- `format!("\x7b\x7d", n)`, as bytes. -/
def digits (n : UInt32) : List UInt8 := (Nat.toDigits 10 n.toNat).map fun c => c.toNat.toUInt8

def announce (s : System) (id : StreamID) (broken : Option Nat) : System :=
  match id.val with
  | none => s.panic
  | some n => s.sendFrame (.newStreamFrame id (digits n)) broken

def onOpenStream (s : System) (reply : Nat) (broken : Option Nat) : System :=
  if s.conn.shutdown = .complete then s.reply reply (.stream (.error .closed))
  else
    s.nextStreamId fun s id =>
      ((s.createStream id).announce id broken).andThen (·.answer reply (.ok ⟨id, s.nextReceiver⟩))

def onAcceptStream (s : System) (reply : Nat) : System :=
  if s.conn.waitingStreamSender.isSome then s.answer reply (.error .closed)
  else
    match s.conn.pendingStreams with
    | stream :: rest => (s.setPending rest).answer reply (.ok stream)
    | [] => { s with conn := { s.conn with waitingStreamSender := some reply } }

def onCloseConnection (s : System) (reply : Nat) : System :=
  if s.conn.shutdown = .notStarted then
    ((s.setShutdown (.inProgress reply)).setStreams
      { s.conn.streamReceiver with closed := true }).setPaused true
  else s.reply reply .done

/-- The receiver of control commands is closed and empty. -/
def onControlsDone (s : System) : System :=
  match s.conn.shutdown with
  | .inProgress reply => ((s.setShutdown .complete).reply reply .done).fail .closed
  | _ => s.panic

def onControlCommand (s : System) (cmd : Option ControlCommand) (broken : Option Nat) : System :=
  match cmd with
  | some (.openStream reply) => s.onOpenStream reply broken
  | some (.acceptStream reply) => s.onAcceptStream reply
  | some (.closeConnection reply) => s.onCloseConnection reply
  | none => s.onControlsDone

/-! ## The end of the task -/

def dismissControl (s : System) : ControlCommand → System
  | .openStream reply | .acceptStream reply => s.reply reply (.stream (.error .closed))
  | .closeConnection reply => s.reply reply .done

def dismissStream (s : System) : StreamCommand → System
  | .resetStream _ reply => s.reply reply .done
  | _ => s

def drainControls (s : System) : System :=
  if s.conn.controlReceiver.terminated then s
  else
    let commands := s.conn.controlReceiver.queue
    ((commands.foldl dismissControl s).setPaused false).setControls ⟨[], true, true⟩

def dropAllStreams (s : System) : System :=
  { s with conn := { s.conn with streams := ∅, streamsStat := ∅ } }

/-- The first command is taken by the outer loop, which drops it. -/
def drainStreams (s : System) : System :=
  if s.conn.streamReceiver.terminated then s
  else
    let commands := s.conn.streamReceiver.queue
    (commands.tail.foldl (fun s cmd => s.dismissStream cmd.2) s).setStreams ⟨[], true, true⟩

def dismissWaiting (s : System) : System :=
  match s.conn.waitingStreamSender with
  | some sender => s.clearWaiting.answer sender (.error .closed)
  | none => s

def markClosed (s : System) : System :=
  { s with conn := { s.conn with isClosed := true }, status := .running }

def release (s : System) (e : ConnectionError) : System :=
  { s.drainControls.dropAllStreams.drainStreams with status := .ended e }

def finish (s : System) (e : ConnectionError) : System :=
  s.markClosed.dismissWaiting.andThen (·.release e)

/-! ## Handles -/

/-- `Display` of the connection: eight hexadecimal digits. -/
def displayId (id : UInt32) : String :=
  let digits := String.ofList (Nat.toDigits 16 id.toNat)
  "".pushn '0' (8 - digits.length) ++ digits

def closedErr (s : System) (h : Handle) : IoError :=
  .new .writeZero s!"{displayId s.conn.id}/{h.stream.id.id}: stream is closed / reset"

/-- The sender of the handle is closed, by itself or by the receiver. -/
def senderClosed (s : System) (h : Handle) : Bool := h.closed || s.conn.streamReceiver.closed

def enqueue (s : System) (h : Handle) (cmd : StreamCommand) : System :=
  let r := s.conn.streamReceiver
  s.setStreams { r with queue := r.queue ++ [(h.stream.receiver, cmd)] }

def pollWrite (s : System) (h : Handle) (buf : List UInt8) : Except IoError Nat × System :=
  if s.senderClosed h then (.error (s.closedErr h), s)
  else (.ok buf.length, s.enqueue h (.sendFrame (.messageFrame h.stream.id buf)))

def setHandle (s : System) (k : Nat) (h : Handle) : System :=
  { s with handles := s.handles.insert k h }

def pollClose (s : System) (k : Nat) (h : Handle) : System :=
  if s.senderClosed h then s
  else (s.enqueue h (.closeStream (.closeFrame h.stream.id))).setHandle k { h with closed := true }

def reset (s : System) (h : Handle) : System :=
  if s.senderClosed h then s
  else
    { s with nextReply := s.nextReply + 1 }.enqueue h
      (.resetStream (.resetFrame h.stream.id) s.nextReply)

/-- What is read, what stays in the read buffer, and what stays in the channel. -/
def pollReadChunk (h : Handle) (items : List (List UInt8)) (alive : Bool) (size : Nat) :
    Poll (Except IoError (List UInt8)) × Handle × List (List UInt8) :=
  if h.readBuffer ≠ [] then
    let len := min h.readBuffer.length size
    (.ready (.ok (h.readBuffer.take len)), { h with readBuffer := h.readBuffer.drop len }, items)
  else
    match items with
    | data :: items =>
      let len := min data.length size
      (.ready (.ok (data.take len)), { h with readBuffer := data.drop len }, items)
    | [] =>
      if alive then (.pending, h, []) else (.ready (.error (.ofKind .unexpectedEof)), h, [])

def pollRead (s : System) (k : Nat) (h : Handle) (size : Nat) :
    Poll (Except IoError (List UInt8)) × System :=
  let receiver := h.stream.receiver
  let (result, h, items) := pollReadChunk h (s.items receiver) (s.senderAlive receiver) size
  (result, { s.setHandle k h with items := Function.update s.items receiver items })

/-! ## Steps -/

/-- The task handles a frame, an error of the reader, a command of a stream or of a controller. A
controller opens a stream, accepts one or closes the connection; a call is canceled. A handle writes,
closes, resets, is told of the end of its reset, reads, is cloned or dropped. -/
inductive Action where
  | frame (frame : Frame) (outcome : SendOutcome) (broken : Option Nat)
  | readError (e : FrameDecodeError)
  | streamCommand (broken : Option Nat)
  | controlCommand (broken : Option Nat)
  | openStream
  | acceptStream
  | closeConnection
  | cancel (reply : Nat)
  | write (k : Nat) (buf : List UInt8)
  | close (k : Nat)
  | reset (k : Nat)
  | disconnect (k : Nat)
  | read (k : Nat) (size : Nat)
  | clone (k : Nat)
  | drop (k : Nat)
  deriving DecidableEq, Repr

/-- The task takes the next command of a stream, or learns that there will be none. -/
def takeStreamCommand (s : System) (broken : Option Nat) : System :=
  let r := s.conn.streamReceiver
  match r.queue with
  | (_, cmd) :: queue => (s.setStreams { r with queue := queue }).onStreamCommand (some cmd) broken
  | [] =>
    if r.closed && !r.terminated then
      (s.setStreams { r with terminated := true }).onStreamCommand none broken
    else s

def takeControlCommand (s : System) (broken : Option Nat) : System :=
  let r := s.conn.controlReceiver
  if s.conn.controlPaused then s
  else
    match r.queue with
    | cmd :: queue => (s.setControls { r with queue := queue }).onControlCommand (some cmd) broken
    | [] =>
      if r.closed && !r.terminated then
        (s.setControls { r with terminated := true }).onControlCommand none broken
      else s

/-- A turn of `handle_coming`, and the end of the task if there is an error. -/
def turn (s : System) (f : System → System) : System :=
  match s.status with
  | .running =>
    let s := f s
    match s.status with
    | .failed e => s.finish e
    | _ => s
  | _ => s

/-- A call of a controller. Its command is lost if the receiver is closed. -/
def call (s : System) (cmd : Nat → ControlCommand) : System :=
  let r := s.conn.controlReceiver
  let reply := s.nextReply
  let s := { s with nextReply := reply + 1 }
  if r.closed then s else s.setControls { r with queue := r.queue ++ [cmd reply] }

def withHandle (s : System) (k : Nat) (f : Handle → System) : System :=
  match s.handles.lookup k with
  | none => s
  | some h => f h

def step (s : System) : Action → System
  | .frame frame outcome broken => s.turn (·.onFrame frame outcome broken)
  | .readError e => s.turn (·.fail (.decode e))
  | .streamCommand broken => s.turn (·.takeStreamCommand broken)
  | .controlCommand broken => s.turn (·.takeControlCommand broken)
  | .openStream => s.call .openStream
  | .acceptStream => s.call .acceptStream
  | .closeConnection => s.call .closeConnection
  | .cancel reply => { s with canceled := insert reply s.canceled }
  | .write k buf => s.withHandle k fun h => (s.pollWrite h buf).2
  | .close k => s.withHandle k fun h => s.pollClose k h
  | .reset k => s.withHandle k fun h => s.reset h
  | .disconnect k => s.withHandle k fun h => s.setHandle k { h with closed := true }
  | .read k size => s.withHandle k fun h => (s.pollRead k h size).2
  | .clone k =>
    s.withHandle k fun h =>
      { s with
        handles := s.handles.insert s.nextHandle { h with readBuffer := [] }
        nextHandle := s.nextHandle + 1 }
  | .drop k => { s with handles := s.handles.erase k }

end System

end Libp2pRs.Mplex
