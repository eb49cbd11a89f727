import Libp2pRs.Mplex.Reading

/-!
# A stream and its other side

Two connections are at the ends of a transport. Handles of the near side write, its task sends one
command after the other, the far task receives frames from the bytes on the wire, and handles of the
far side read. We watch one stream of the near side and its reader on the far side; other streams may
write as well.

`poll_write` makes one frame of every buffer. The frame is found to be too long only when the task has
written its header, and then the connection ends.
-/

namespace Libp2pRs.Mplex

open Lib Libp2pRs.Core List Mplex.System

/-- The two sides, what is on the wire, what was written to the stream and what was read from it. -/
structure Pair where
  near : System
  far : System
  wire : List UInt8
  written : List UInt8
  got : List UInt8

/-- A handle of the near side writes, the near task handles a command, the far task receives a frame (in
parts of these sizes), a handle of the far side reads. -/
inductive Transfer where
  | write (j : Nat) (buf : List UInt8)
  | send
  | receive (sizes : Nat → Nat)
  | read (j size : Nat)

namespace Pair

def accepted (s : System) (id : StreamID) (j : Nat) (buf : List UInt8) : List UInt8 :=
  match s.handles.lookup j with
  | none => []
  | some h =>
    match (s.pollWrite h buf).1 with
    | .ok n => if h.stream.id = id then buf.take n else []
    | .error _ => []

/-- The far task goes on when the reader has a frame or an error; otherwise it waits for more bytes. -/
def receive (p : Pair) (sizes : Nat → Nat) : Pair :=
  let run := recvFrame.exec sizes p.wire
  match run.result with
  | .ret frame => { p with far := p.far.step (.frame frame .sent none), wire := run.rest }
  | .fail e => { p with far := p.far.step (.readError e), wire := run.rest }
  | _ => p

def step (id : StreamID) (c k : Nat) (p : Pair) : Transfer → Pair
  | .write j buf =>
    { p with
      near := p.near.step (.write j buf)
      written := p.written ++ accepted p.near id j buf }
  | .send =>
    let near := p.near.step (.streamCommand none)
    { p with near := near, wire := p.wire ++ near.written.drop p.near.written.length }
  | .receive sizes => p.receive sizes
  | .read j size =>
    { p with
      far := p.far.step (.read j size)
      got := p.got ++ (p.far.reads c k (.read j size)).getD [] }

/-- The stream of the near side is open and nothing waits to be sent; no other stream there is called
like it on the far side. -/
structure Near (s : System) (id : StreamID) : Prop where
  running : s.status = .running
  writable : ∃ stat, s.conn.streamsStat.lookup id = some stat ∧ stat.canWrite
  notClosed : s.conn.streamReceiver.closed = false
  distinct : ∀ j h, s.handles.lookup j = some h → h.stream.id.remote = id.remote → h.stream.id = id

/-- The stream of the far side is open, and the handle reads its channel. -/
structure Far (s : System) (id : StreamID) (c k : Nat) : Prop where
  running : s.status = .running
  readable : ∃ stat, s.conn.streamsStat.lookup id = some stat ∧ stat.canRead
  stream : s.conn.streams.lookup id = some c
  own : ∀ id', s.conn.streams.lookup id' = some c → id' = id
  reader : ∃ h, s.handles.lookup k = some h ∧ h.stream.receiver = c

/-- The two sides of a stream to which nothing has been written. -/
structure Linked (id : StreamID) (c k : Nat) (p : Pair) : Prop where
  near : Near p.near id
  far : Far p.far id.remote c k
  queue : p.near.conn.streamReceiver.queue = []
  wire : p.wire = []
  unread : p.far.unread c k = []
  written : p.written = []
  got : p.got = []

/-! ## Frames on their way -/

/-- A message that can be sent. On the far side it is not mistaken for one of the stream. -/
structure Sendable (id : StreamID) (frame : Frame) : Prop where
  tag : frame.header.tag = .message
  length : frame.body.length ≤ maxMessageSize.toNat
  distinct : frame.streamId.remote = id.remote → frame.streamId = id

theorem not_fits {frame : Frame} (h : maxMessageSize.toNat < frame.body.length)
    (hword : frame.body.length < 2 ^ 32) : ¬frame.Fits := by
  rw [Frame.Fits, UInt32.le_iff_toNat_le, Frame.length, UInt32.toNat_ofNat', Nat.mod_eq_of_lt hword]
  omega

def bodies (id : StreamID) (frames : List Frame) : List UInt8 :=
  frames.flatMap fun frame => if frame.streamId = id then frame.body else []

theorem bodies_append (id : StreamID) (fs gs : List Frame) :
    bodies id (fs ++ gs) = bodies id fs ++ bodies id gs := flatMap_append

def queued (s : System) : List Frame := s.conn.streamReceiver.queue.map fun entry => entry.2.frame

/-- The frames are on the wire; what was written has been read, or is still on its way. -/
structure Joined (id : StreamID) (c k : Nat) (p : Pair) (frames : List Frame) : Prop where
  near : Near p.near id
  far : Far p.far id.remote c k
  queue : ∀ entry ∈ p.near.conn.streamReceiver.queue, ∃ frame,
    entry.2 = .sendFrame frame ∧ Sendable id frame
  flying : ∀ frame ∈ frames, Sendable id frame
  wire : p.wire = frames.flatMap Frame.bytes
  conserved : p.got ++ p.far.unread c k ++ bodies id frames ++ bodies id (queued p.near) = p.written

variable {id : StreamID} {c k : Nat} {p : Pair} {frames : List Frame}

theorem joined_of_linked (h : Linked id c k p) : Joined id c k p [] where
  near := h.near
  far := h.far
  queue entry hentry := by
    rw [h.queue] at hentry
    cases hentry
  flying frame hframe := absurd hframe not_mem_nil
  wire := h.wire
  conserved := by
    rw [queued, h.queue, h.got, h.unread, h.written]
    rfl

/-! ## One step -/

def Short : Transfer → Prop
  | .write _ buf => buf.length ≤ maxMessageSize.toNat
  | _ => True

def SoleReader (c k : Nat) (p : Pair) : Transfer → Prop
  | .read j _ => ∀ h, p.far.handles.lookup j = some h → h.stream.receiver = c → j = k
  | _ => True

theorem joined_write (h : Joined id c k p frames) (j : Nat)
    (hbuf : buf.length ≤ maxMessageSize.toNat) :
    Joined id c k (p.step id c k (.write j buf)) frames := by
  have hstep : p.near.step (.write j buf) = p.near.withHandle j fun h => (p.near.pollWrite h buf).2 :=
    rfl
  rw [step, hstep, accepted, withHandle]
  cases hj : p.near.handles.lookup j with
  | none =>
    rw [append_nil]
    exact h
  | some hd =>
    dsimp only
    unfold pollWrite
    by_cases hclosed : p.near.senderClosed hd = true
    · rw [if_pos hclosed]
      rw [append_nil]
      exact h
    · rw [if_neg hclosed]
      dsimp only
      have hsendable : Sendable id (.messageFrame hd.stream.id buf) :=
        ⟨rfl, hbuf, h.near.distinct j hd hj⟩
      refine { h with near := { h.near with }, queue := ?_, conserved := ?_ }
      · intro entry hentry
        rcases mem_append.mp hentry with hold | hnew
        · exact h.queue entry hold
        · rw [mem_singleton.mp hnew]
          exact ⟨_, rfl, hsendable⟩
      · have hqueued : queued (p.near.enqueue hd (.sendFrame (.messageFrame hd.stream.id buf))) =
            queued p.near ++ [.messageFrame hd.stream.id buf] := map_append
        have hbodies : bodies id [.messageFrame hd.stream.id buf] =
            if hd.stream.id = id then buf else [] := append_nil _
        rw [hqueued, bodies_append, hbodies, ← append_assoc, h.conserved, take_length]

theorem joined_read (h : Joined id c k p frames) (j size : Nat)
    (hsole : p.SoleReader c k (.read j size)) :
    Joined id c k (p.step id c k (.read j size)) frames := by
  have hread := p.far.unread_read size hsole
  have hconn : (p.far.step (.read j size)).conn = p.far.conn := conn_read p.far j size
  have hstatus : (p.far.step (.read j size)).status = p.far.status := status_read p.far j size
  refine { h with far := ⟨?_, ?_, ?_, ?_, ?_⟩, conserved := ?_ }
  · exact hstatus.trans h.far.running
  · change ∃ stat, (p.far.step _).conn.streamsStat.lookup _ = some stat ∧ _
    rw [hconn]
    exact h.far.readable
  · change (p.far.step _).conn.streams.lookup _ = _
    rw [hconn]
    exact h.far.stream
  · change ∀ id', (p.far.step _).conn.streams.lookup id' = _ → _
    rw [hconn]
    exact h.far.own
  · obtain ⟨hd, hk, hc⟩ := h.far.reader
    exact reader_read hk hc j size
  · change p.got ++ _ ++ (p.far.step _).unread c k ++ _ ++ _ = p.written
    rw [append_assoc p.got, hread]
    exact h.conserved

theorem turn_of_running {s : System} {f : System → System} (hs : s.status = .running)
    (hf : (f s).status = .running) : s.turn f = f s := by
  unfold turn
  rw [hs]
  dsimp only
  rw [hf]

theorem send_nil {s : System} (hrunning : s.status = .running)
    (hqueue : s.conn.streamReceiver.queue = []) (hclosed : s.conn.streamReceiver.closed = false) :
    s.step (.streamCommand none) = s := by
  have htake : s.takeStreamCommand none = s := by
    unfold takeStreamCommand
    dsimp only
    rw [hqueue, hclosed]
    rfl
  change s.turn (·.takeStreamCommand none) = s
  rw [turn_of_running hrunning (by rw [htake]; exact hrunning)]
  exact htake

theorem send_cons {s : System} (hrunning : s.status = .running)
    (hqueue : s.conn.streamReceiver.queue = (issuer, .sendFrame frame) :: queue)
    (hfits : frame.Fits) : let t := s.setStreams { s.conn.streamReceiver with queue := queue }
    s.step (.streamCommand none) =
      if ∃ stat, s.conn.streamsStat.lookup frame.streamId = some stat ∧ stat.canWrite then
        { t with written := s.written ++ frame.bytes, sent := s.sent ++ [frame] }
      else t := by
  intro t
  have htake : s.takeStreamCommand none = t.onSendFrame frame none := by
    unfold takeStreamCommand
    dsimp only
    rw [hqueue]
    rfl
  have ht : t.status = .running := hrunning
  have hsend : t.onSendFrame frame none =
      if ∃ stat, s.conn.streamsStat.lookup frame.streamId = some stat ∧ stat.canWrite then
        { t with written := s.written ++ frame.bytes, sent := s.sent ++ [frame] }
      else t := by
    unfold System.onSendFrame System.sendFrame
    rw [show t.conn.streamsStat = s.conn.streamsStat from rfl]
    cases s.conn.streamsStat.lookup frame.streamId with
    | none => simp
    | some stat =>
      cases hwrite : stat.canWrite with
      | false => simp [hwrite]
      | true =>
        simp only [hwrite, hfits, if_true, Option.some.injEq, exists_eq_left']
        rfl
  have hstatus : (s.takeStreamCommand none).status = .running := by
    rw [htake, hsend]
    split
    · exact ht
    · exact ht
  change s.turn (·.takeStreamCommand none) = _
  rw [turn_of_running hrunning hstatus, htake, hsend]

theorem joined_send (h : Joined id c k p frames) :
    ∃ more, Joined id c k (p.step id c k .send) (frames ++ more) ∧
      (p.step id c k .send).near.conn.streamReceiver.queue = p.near.conn.streamReceiver.queue.tail ∧
      more.length + p.near.conn.streamReceiver.queue.tail.length ≤
        p.near.conn.streamReceiver.queue.length := by
  rw [step]
  cases hqueue : p.near.conn.streamReceiver.queue with
  | nil =>
    have hsend := send_nil h.near.running hqueue h.near.notClosed
    refine ⟨[], ?_, ?_, Nat.le_refl 0⟩
    · rw [hsend, drop_length, append_nil, append_nil]
      exact h
    · rw [hsend, hqueue]
      rfl
  | cons entry queue =>
    obtain ⟨frame, hentry, hsendable⟩ := h.queue entry (by rw [hqueue]; exact mem_cons_self)
    obtain ⟨issuer, cmd⟩ := entry
    subst hentry
    have hsend := send_cons h.near.running hqueue (Frame.fits_of_le hsendable.length)
    have hrest : ∀ entry ∈ queue, ∃ frame, entry.2 = .sendFrame frame ∧ Sendable id frame := by
      intro entry hmem
      apply h.queue
      rw [hqueue]
      exact mem_cons_of_mem _ hmem
    have hqueued : bodies id (queued p.near) =
        bodies id [frame] ++ bodies id (queue.map fun entry => entry.2.frame) := by
      rw [queued, hqueue, ← bodies_append]
      rfl
    rw [hsend]
    split
    case isTrue hwrite =>
      refine ⟨[frame], ?_, rfl, ?_⟩
      swap
      · rw [length_singleton, length_cons, tail_cons]
        omega
      refine ⟨{ h.near with }, h.far, hrest, ?_, ?_, ?_⟩
      · intro f hf
        rcases mem_append.mp hf with hold | hnew
        · exact h.flying f hold
        · rw [mem_singleton.mp hnew]
          exact hsendable
      · rw [drop_left, h.wire, flatMap_append, flatMap_singleton]
      · rw [bodies_append, ← h.conserved, hqueued]
        simp only [append_assoc]
        rfl
    case isFalse hwrite =>
      have hother : frame.streamId ≠ id := by
        rintro rfl
        exact hwrite h.near.writable
      have hnothing : bodies id [frame] = [] := by
        rw [bodies, flatMap_singleton, if_neg hother]
      refine ⟨[], ?_, rfl, ?_⟩
      swap
      · rw [length_nil, length_cons, tail_cons]
        omega
      rw [append_nil]
      refine ⟨{ h.near with }, h.far, hrest, h.flying, ?_, ?_⟩
      · change p.wire ++ p.near.written.drop p.near.written.length = _
        rw [drop_length, append_nil, h.wire]
      · rw [← h.conserved, hqueued, hnothing]
        rfl

theorem onMessage_sent (s : System) (id : StreamID) (body : List UInt8) :
    s.onMessage id body .sent none = s.accept id body .sent ∨
      s.taker id = none ∧ s.onMessage id body .sent none = s.removeStream id := by
  unfold accept taker onMessage
  cases hstat : s.conn.streamsStat.lookup id with
  | none => exact .inl rfl
  | some stat =>
    cases hstream : s.conn.streams.lookup id with
    | none => cases stat <;> exact .inl rfl
    | some receiver =>
      by_cases halive : s.receiverAlive receiver = true
      · simp only [Option.filter_some, halive, if_true]
        cases stat <;> exact .inl rfl
      · simp only [Option.filter_some, halive, if_false, Bool.false_eq_true]
        cases stat with
        | recvClosed => exact .inl rfl
        | opened | sendClosed => exact .inr ⟨rfl, rfl⟩

namespace Far

variable {s : System}

theorem receiverAlive (h : Far s id c k) : s.receiverAlive c = true := by
  obtain ⟨hd, hk, hc⟩ := h.reader
  rw [System.receiverAlive, Bool.or_eq_true, any_eq_true]
  left
  exact ⟨⟨k, hd⟩, AList.mem_lookup_iff.mp hk, decide_eq_true hc⟩

theorem taker (h : Far s id c k) : s.taker id = some c := by
  obtain ⟨stat, hstat, hread⟩ := h.readable
  rw [System.taker, hstat, h.stream, Option.filter_some, if_pos h.receiverAlive]
  cases stat with
  | recvClosed => cases hread
  | opened | sendClosed => rfl

theorem taker_iff (h : Far s id c k) (id' : StreamID) : s.taker id' = some c ↔ id' = id := by
  constructor
  · intro htaker
    apply h.own
    unfold System.taker at htaker
    split at htaker
    · cases htaker
    · cases htaker
    · exact (Option.filter_eq_some_iff.mp htaker).1
  · rintro rfl
    exact h.taker

theorem message (h : Far s id c k) (id' : StreamID) (body : List UInt8) :
    Far (s.step (.frame ⟨⟨id', .message⟩, body⟩ .sent none)) id c k ∧
      (s.step (.frame ⟨⟨id', .message⟩, body⟩ .sent none)).unread c k =
        (s.unread c k ++ if id' = id then body else []) ∧
      ((s.step (.frame ⟨⟨id', .message⟩, body⟩ .sent none)).items c).length ≤
        (s.items c).length + 1 := by
  have hunread := s.unread_accept id' body .sent c k
  simp only [h.taker_iff, ne_eq, reduceCtorEq, not_false_eq_true, and_true] at hunread
  have hstep : ∀ t, s.onMessage id' body .sent none = t → t.status = .running →
      s.step (.frame ⟨⟨id', .message⟩, body⟩ .sent none) = t := by
    rintro t rfl hstatus
    exact turn_of_running (f := (·.onFrame ⟨⟨id', .message⟩, body⟩ .sent none)) h.running hstatus
  rcases onMessage_sent s id' body with haccept | ⟨hnone, hremove⟩
  · have hconn : (s.accept id' body .sent).conn = s.conn ∧
        (s.accept id' body .sent).handles = s.handles ∧
          (s.accept id' body .sent).status = s.status := by
      unfold accept
      split
      · exact ⟨rfl, rfl, rfl⟩
      · exact ⟨rfl, rfl, rfl⟩
    obtain ⟨hconn, hhandles, hstatus⟩ := hconn
    rw [hstep _ haccept (hstatus.trans h.running)]
    refine ⟨⟨hstatus.trans h.running, ?_, ?_, ?_, ?_⟩, hunread, s.length_items_accept id' body .sent c⟩
    · rw [hconn]
      exact h.readable
    · rw [hconn]
      exact h.stream
    · rw [hconn]
      exact h.own
    · rw [hhandles]
      exact h.reader
  · have hne : id' ≠ id := by
      rintro rfl
      rw [h.taker] at hnone
      cases hnone
    rw [hstep _ hremove h.running, if_neg hne, append_nil]
    refine ⟨{ h with stream := ?_, own := ?_ }, rfl, Nat.le_succ _⟩
    · exact (AList.lookup_erase_ne (Ne.symm hne)).trans h.stream
    · intro id'' hlookup
      change (s.conn.streams.erase id').lookup id'' = some c at hlookup
      by_cases hid : id'' = id'
      · rw [hid, AList.lookup_erase] at hlookup
        cases hlookup
      · rw [AList.lookup_erase_ne hid] at hlookup
        exact h.own id'' hlookup

end Far

theorem joined_receive (h : Joined id c k p frames) (sizes : Nat → Nat) :
    Joined id c k (p.step id c k (.receive sizes)) frames.tail ∧
      (p.step id c k (.receive sizes)).near = p.near ∧
      (p.step id c k (.receive sizes)).written = p.written ∧
      (p.step id c k (.receive sizes)).got = p.got ∧
      ((p.step id c k (.receive sizes)).far.items c).length + frames.tail.length ≤
        (p.far.items c).length + frames.length := by
  rw [step]
  have hwire := h.wire
  unfold receive
  cases frames with
  | nil =>
    have hexec : (recvFrame.exec sizes []).result = .waiting := rfl
    change p.wire = [] at hwire
    rw [hwire]
    dsimp only
    rw [hexec]
    exact ⟨h, rfl, rfl, rfl, Nat.le_refl _⟩
  | cons frame frames =>
    have hsendable := h.flying frame mem_cons_self
    have hnew : frame.header.tag = .newStream → frame.streamId.initiator = true := by
      rw [hsendable.tag]
      nofun
    obtain ⟨sizes', hexec⟩ := yields_recvFrame hnew (Frame.fits_of_le hsendable.length)
      (frames.flatMap Frame.bytes) sizes
    rw [Frame.length_of_le hsendable.length, take_length, drop_length, nil_append,
      hsendable.tag] at hexec
    rw [hwire, flatMap_cons, hexec]
    dsimp only [tail_cons]
    obtain ⟨hfar, hunread, hitems⟩ := h.far.message frame.streamId.remote frame.body
    have hsame : frame.streamId.remote = id.remote ↔ frame.streamId = id := by
      refine ⟨hsendable.distinct, ?_⟩
      rintro rfl
      rfl
    refine ⟨?_, rfl, rfl, rfl, ?_⟩
    swap
    · rw [length_cons]
      omega
    refine ⟨h.near, hfar, h.queue, fun f hf => h.flying f (mem_cons_of_mem _ hf), rfl, ?_⟩
    have hbodies : bodies id (frame :: frames) =
        (if frame.streamId = id then frame.body else []) ++ bodies id frames := rfl
    change p.got ++ (p.far.step _).unread c k ++ _ ++ _ = p.written
    simp only [hsame] at hunread
    rw [hunread, ← h.conserved, hbodies]
    simp only [append_assoc]

theorem joined_step (h : Joined id c k p frames) (hsole : p.SoleReader c k a)
    (hshort : Short a) : ∃ frames', Joined id c k (p.step id c k a) frames' := by
  cases a with
  | write j buf => exact ⟨frames, joined_write h j hshort⟩
  | send =>
    obtain ⟨more, hsent, -⟩ := joined_send h
    exact ⟨_, hsent⟩
  | receive sizes => exact ⟨_, (joined_receive h sizes).1⟩
  | read j size => exact ⟨frames, joined_read h j size hsole⟩

/-! ## Everything is read -/

def round (k : Nat) (sizes : Nat → Nat) (size : Nat) : List Transfer :=
  [.send, .receive sizes, .read k size]

/-- What has to be done until everything is read: commands are sent, frames are received, bodies are
taken from the channel, bytes are read. -/
def weight (c : Nat) (p : Pair) (frames : List Frame) : Nat :=
  3 * p.near.conn.streamReceiver.queue.length + 2 * frames.length + (p.far.items c).length +
    (p.written.length - p.got.length)

theorem weight_send (h : Joined id c k p frames) :
    ∃ frames', Joined id c k (p.step id c k .send) frames' ∧
      weight c (p.step id c k .send) frames' ≤
        weight c p frames - p.near.conn.streamReceiver.queue.length ⊓ 1 ∧
      (p.near.conn.streamReceiver.queue = [] → frames' = frames ∧
        (p.step id c k .send).near.conn.streamReceiver.queue = []) := by
  obtain ⟨more, hsent, hqueue, hmore⟩ := joined_send h
  refine ⟨frames ++ more, hsent, ?_, ?_⟩
  · have hfar : (p.step id c k .send).far = p.far := rfl
    have hwritten : (p.step id c k .send).written = p.written := rfl
    have hgot : (p.step id c k .send).got = p.got := rfl
    rw [weight, weight, hfar, hwritten, hgot, hqueue, length_append]
    rw [length_tail] at hmore ⊢
    omega
  · intro hnil
    rw [hnil] at hmore
    have hnone : more = [] := eq_nil_of_length_eq_zero (Nat.le_zero.mp hmore)
    rw [hqueue, hnil, hnone, append_nil]
    exact ⟨rfl, rfl⟩

theorem weight_receive (h : Joined id c k p frames) (sizes : Nat → Nat) :
    weight c (p.step id c k (.receive sizes)) frames.tail ≤
      weight c p frames - frames.length ⊓ 1 := by
  obtain ⟨-, hnear, hwritten, hgot, hitems⟩ := joined_receive h sizes
  rw [weight, weight, hnear, hwritten, hgot]
  rw [length_tail] at hitems ⊢
  omega

theorem weight_read (h : Joined id c k p frames) (hsize : 0 < size) :
    weight c (p.step id c k (.read k size)) frames ≤ weight c p frames ∧
      (p.near.conn.streamReceiver.queue = [] → frames = [] →
        weight c (p.step id c k (.read k size)) frames ≤ weight c p frames - 1) := by
  have hread := joined_read h k size fun _ _ _ => rfl
  obtain ⟨hd, hk, hc⟩ := h.far.reader
  have hprogress := read_progress hk hc hsize
  have hold := congrArg length h.conserved
  have hnew := congrArg length hread.conserved
  have hnear : (p.step id c k (.read k size)).near = p.near := rfl
  have hfar : (p.step id c k (.read k size)).far = p.far.step (.read k size) := rfl
  have hwritten : (p.step id c k (.read k size)).written = p.written := rfl
  rw [hnear, hfar, hwritten] at hnew
  simp only [length_append] at hold hnew
  rw [weight, weight, hnear, hfar, hwritten]
  refine ⟨by omega, ?_⟩
  rintro hqueue rfl
  have hqueued : bodies id (queued p.near) = [] := by
    rw [queued, hqueue]
    rfl
  rw [hqueued] at hold hnew
  rw [hqueue]
  change _ + _ + 0 + 0 = _ at hold hnew
  simp only [length_nil]
  omega

theorem weight_round (h : Joined id c k p frames) (sizes : Nat → Nat) (hsize : 0 < size) :
    ∃ frames', Joined id c k (run (step id c k) p (round k sizes size)) frames' ∧
      (run (step id c k) p (round k sizes size)).written = p.written ∧
      weight c (run (step id c k) p (round k sizes size)) frames' ≤ weight c p frames - 1 := by
  obtain ⟨fs, hsent, hsend, hidle⟩ := weight_send h
  have hreceive := weight_receive hsent sizes
  obtain ⟨hreceived, hnear, hwritten, -, -⟩ := joined_receive hsent sizes
  have hdone := joined_read hreceived k size fun _ _ _ => rfl
  obtain ⟨hread, hlast⟩ := weight_read hreceived hsize
  refine ⟨fs.tail, hdone, hwritten, ?_⟩
  change weight c (((p.step id c k .send).step id c k (.receive sizes)).step id c k (.read k size))
    fs.tail ≤ _
  by_cases hqueue : p.near.conn.streamReceiver.queue = []
  · obtain ⟨rfl, hempty⟩ := hidle hqueue
    by_cases hfs : fs = []
    · subst hfs
      rw [hnear] at hlast
      have hdecrease := hlast hempty rfl
      omega
    · have hpos := length_pos_of_ne_nil hfs
      omega
  · have hpos := length_pos_of_ne_nil hqueue
    omega

theorem rounds_complete (h : Joined id c k p frames) (sizes : Nat → Nat)
    (hsize : 0 < size) (hn : weight c p frames ≤ n) :
    (run (step id c k) p (List.replicate n (round k sizes size)).flatten).got = p.written := by
  induction n generalizing p frames with
  | zero =>
    have hlength : p.written.length ≤ p.got.length := by
      rw [weight] at hn
      omega
    obtain ⟨rest, hrest⟩ : p.got <+: p.written :=
      ⟨_, by rw [← h.conserved, append_assoc, append_assoc]⟩
    have hnil : rest = [] := by
      have htotal := congrArg length hrest
      rw [length_append] at htotal
      exact eq_nil_of_length_eq_zero (by omega)
    rw [hnil, append_nil] at hrest
    exact hrest
  | succ n ih =>
    obtain ⟨frames', hnext, hwritten, hweight⟩ := weight_round h sizes hsize
    rw [replicate_succ, flatten_cons, run_append, ← hwritten]
    exact ih hnext (by omega)

/-- The connections are up, what was read is a part of what was written, in order, and if the tasks and
the reader go on then everything is read. -/
structure Transfers (id : StreamID) (c k : Nat) (p : Pair) : Prop where
  up : p.near.status = .running ∧ p.far.status = .running
  inOrder : p.got <+: p.written
  complete : ∀ sizes size, 0 < size → ∃ n, ∀ m, n ≤ m →
    (run (step id c k) p (List.replicate m (round k sizes size)).flatten).got = p.written

theorem transfers_of_joined (h : Joined id c k p frames) : Transfers id c k p where
  up := ⟨h.near.running, h.far.running⟩
  inOrder := ⟨_, by rw [← h.conserved, append_assoc, append_assoc]⟩
  complete sizes size hsize := ⟨weight c p frames, fun _ hm => rounds_complete h sizes hsize hm⟩

/-- If no buffer is longer than the maximal body, the connections stay up and what was written is
read. -/
theorem written_is_read (h : Linked id c k p) {actions : List Transfer}
    (hactions : EachStep (step id c k) (fun p a => p.SoleReader c k a ∧ Short a) p actions) :
    Always (step id c k) (Transfers id c k) p actions := by
  have hjoined : Always (step id c k) (fun p => ∃ frames, Joined id c k p frames) p actions := by
    apply always_of_step _ ⟨[], joined_of_linked h⟩ hactions
    rintro p a ⟨frames, hp⟩ ⟨hsole, hshort⟩
    exact joined_step hp hsole hshort
  apply always_mono _ hjoined
  rintro p ⟨frames, hp⟩
  exact transfers_of_joined hp

/-! ## A buffer that is too long -/

theorem too_long_ends {s : System} {issuer : Nat} {frame : Frame} {queue : List (Nat × StreamCommand)}
    (hrunning : s.status = .running)
    (hqueue : s.conn.streamReceiver.queue = (issuer, .sendFrame frame) :: queue)
    (hwrite : ∃ stat, s.conn.streamsStat.lookup frame.streamId = some stat ∧ stat.canWrite)
    (hwaiting : s.conn.waitingStreamSender = none) (hlong : ¬frame.Fits) :
    (s.step (.streamCommand none)).status = .ended .closed := by
  obtain ⟨stat, hstat, hcan⟩ := hwrite
  obtain ⟨t, htake, ht, hwait⟩ : ∃ t : System, s.takeStreamCommand none = t.onSendFrame frame none ∧
      t.conn.streamsStat.lookup frame.streamId = some stat ∧ t.conn.waitingStreamSender = none := by
    refine ⟨s.setStreams { s.conn.streamReceiver with queue := queue }, ?_, hstat, hwaiting⟩
    unfold takeStreamCommand
    dsimp only
    rw [hqueue]
    rfl
  have hsend : t.onSendFrame frame none =
      { t with written := t.written ++ frame.headerBytes }.fail .closed := by
    unfold System.onSendFrame System.sendFrame
    rw [ht]
    simp only [hcan, hlong, if_true, if_false]
  change (s.turn (·.takeStreamCommand none)).status = _
  unfold turn
  rw [hrunning]
  dsimp only
  rw [htake, hsend]
  dsimp only [fail]
  unfold finish dismissWaiting markClosed
  dsimp only
  rw [hwait]
  rfl

/-- The far side has opened a stream and the near side has accepted it. -/
def opened : Pair where
  near := run System.step (.start 0)
    [.frame (.newStreamFrame ⟨0, false⟩ []) .sent none, .acceptStream, .controlCommand none]
  far := run System.step (.start 1) [.openStream, .controlCommand none]
  wire := []
  written := []
  got := []

theorem linked_opened : Linked ⟨0, false⟩ 0 0 opened := by
  have hremote : (⟨0, false⟩ : StreamID).remote = ⟨0, true⟩ := StreamID.remote_of_lt (by decide)
  have hnear : opened.near.handles =
      (∅ : AList fun _ : Nat => Handle).insert 0 ⟨⟨⟨0, false⟩, 0⟩, [], false⟩ := rfl
  have hstreams : opened.far.conn.streams =
      (∅ : AList fun _ : StreamID => Nat).insert ⟨0, true⟩ 0 := rfl
  have hfar : opened.far.handles.lookup 0 = some ⟨⟨⟨0, true⟩, 0⟩, [], false⟩ := by decide +kernel
  refine ⟨⟨rfl, ⟨.opened, rfl, rfl⟩, rfl, ?_⟩, ⟨rfl, ⟨.opened, ?_, rfl⟩, ?_, ?_, _, hfar, rfl⟩, rfl, rfl,
    ?_, rfl, rfl⟩
  · intro j h hj _
    rw [hnear] at hj
    by_cases hzero : j = 0
    · rw [hzero, AList.lookup_insert] at hj
      rw [← Option.some_inj.mp hj]
    · rw [AList.lookup_insert_ne hzero, AList.lookup_empty] at hj
      cases hj
  · rw [hremote]
    rfl
  · rw [hremote]
    rfl
  · intro id' hid'
    rw [hremote]
    rw [hstreams] at hid'
    by_contra hne
    rw [AList.lookup_insert_ne hne, AList.lookup_empty] at hid'
    cases hid'
  · rw [unread_eq hfar rfl]
    rfl

theorem opened_write (buf : List UInt8) : opened.near.step (.write 0 buf) =
      opened.near.enqueue ⟨⟨⟨0, false⟩, 0⟩, [], false⟩ (.sendFrame (.messageFrame ⟨0, false⟩ buf)) := rfl

theorem opened_long {buf : List UInt8} (hlength : buf.length = 1048577) :
    (opened.step ⟨0, false⟩ 0 0 (.write 0 buf)).written.length = 1048577 ∧
      (run (step ⟨0, false⟩ 0 0) opened [.write 0 buf, .send]).near.status = .ended .closed := by
  constructor
  · have haccepted : accepted opened.near ⟨0, false⟩ 0 buf = buf.take buf.length := rfl
    change (opened.written ++ accepted opened.near ⟨0, false⟩ 0 buf).length = _
    rw [haccepted, take_length]
    exact hlength
  · change ((opened.near.step (.write 0 buf)).step (.streamCommand none)).status = _
    rw [opened_write]
    apply too_long_ends rfl rfl ⟨.opened, rfl, rfl⟩ rfl
    apply not_fits
    · change 1048576 < buf.length
      omega
    · change buf.length < 2 ^ 32
      omega

/-- The buffer is taken, and the connection ends when it is sent. -/
theorem long_buffer_ends_connection :
    Linked ⟨0, false⟩ 0 0 opened ∧
      (opened.step ⟨0, false⟩ 0 0 (.write 0 (List.replicate 1048577 0))).written.length = 1048577 ∧
      (run (step ⟨0, false⟩ 0 0) opened
        [.write 0 (List.replicate 1048577 0), .send]).near.status = .ended .closed :=
  ⟨linked_opened, opened_long length_replicate⟩

/-- Two buffers are written and everything can be read. -/
theorem two_buffers_transfer :
    Always (step ⟨0, false⟩ 0 0) (Transfers ⟨0, false⟩ 0 0) opened
      [.write 0 [1, 2, 3], .send, .write 0 [4], .receive (fun _ => 0), .read 0 2, .send] := by
  apply written_is_read linked_opened
  refine ⟨⟨trivial, ?_⟩, ⟨trivial, trivial⟩, ⟨trivial, ?_⟩, ⟨trivial, trivial⟩,
    ⟨fun _ _ _ => rfl, trivial⟩, ⟨trivial, trivial⟩, trivial⟩
  · exact Nat.le_of_ble_eq_true rfl
  · exact Nat.le_of_ble_eq_true rfl

end Pair

end Libp2pRs.Mplex
