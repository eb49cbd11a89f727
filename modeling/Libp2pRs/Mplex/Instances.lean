import Libp2pRs.Mplex.Effects
import Libp2pRs.Mplex.Panics

/-!
# Streams with the same name

A command of a stream has the name of the stream and nothing else. The remote may open a stream under
the name of one that has been reset or closed, and what is left of the old stream then acts on the new
one.
-/

namespace Libp2pRs.Mplex.System

open Lib Libp2pRs.Core

variable {s t : System}

/-- Nothing is left of an earlier stream with this name: no handle that can send, no stream that waits
to be accepted, and no command. -/
structure Vacant (s : System) (id : StreamID) : Prop where
  handles : ∀ k h, s.handles.lookup k = some h → h.stream.id = id → h.closed = true
  pending : ∀ stream ∈ s.conn.pendingStreams, stream.id ≠ id
  queue : ∀ entry ∈ s.conn.streamReceiver.queue, entry.2.frame.streamId ≠ id

def creates (s : System) : Action → Option StreamID
  | .frame frame _ _ =>
    if frame.header.tag = .newStream ∧ frame.streamId ∉ s.conn.streamsStat then some frame.streamId
    else none
  | .controlCommand broken => (s.opens (.controlCommand broken)).map (⟨·, true⟩)
  | _ => none

/-- A stream is created only if nothing is left of an earlier one with its name. -/
def Fresh (s : System) (a : Action) : Prop :=
  s.status = .running → ∀ id, s.creates a = some id → s.Vacant id

/-- The step sends something, or changes the stream with this name. -/
def Touches (s : System) (a : Action) (id : StreamID) : Prop :=
  (s.step a).written ≠ s.written ∨ (s.step a).sent ≠ s.sent ∨
    (s.step a).conn.streamsStat.lookup id ≠ s.conn.streamsStat.lookup id ∨
      (s.step a).conn.streams.lookup id ≠ s.conn.streams.lookup id

/-- A command that has an effect was sent by a handle of the last stream with its name. -/
def Keeps (s : System) (a : Action) : Prop :=
  ∀ broken issuer cmd queue, a = .streamCommand broken →
    s.conn.streamReceiver.queue = (issuer, cmd) :: queue → s.Touches a cmd.frame.streamId →
      s.current cmd.frame.streamId = some issuer

/-! ## What can still send -/

structure Own (s : System) : Prop where
  handles : ∀ k h, s.handles.lookup k = some h → h.closed = false →
    s.current h.stream.id = some h.stream.receiver
  pending : ∀ stream ∈ s.conn.pendingStreams, s.current stream.id = some stream.receiver
  queue : ∀ entry ∈ s.conn.streamReceiver.queue, s.current entry.2.frame.streamId = some entry.1

theorem Own.accept (h : Own s) (id : StreamID) (body : List UInt8) (outcome : SendOutcome) :
    Own (s.accept id body outcome) := by
  unfold System.accept
  split
  · exact h
  · split
    · exact h
    · exact { h with }

theorem Own.addHandle (h : Own s)
    (hcurrent : s.current stream.id = some stream.receiver) : Own (s.addHandle stream) where
  handles k hd hk hopen := by
    change (s.handles.insert s.nextHandle ⟨stream, [], false⟩).lookup k = some hd at hk
    by_cases hnext : k = s.nextHandle
    · subst hnext
      rw [AList.lookup_insert] at hk
      cases hk
      exact hcurrent
    · rw [AList.lookup_insert_ne hnext] at hk
      exact h.handles k hd hk hopen
  pending := h.pending
  queue := h.queue

theorem Own.createStream (h : Own s) {id : StreamID} (hvacant : s.Vacant id) :
    Own (s.createStream id) where
  handles k hd hk hopen := by
    have hne : hd.stream.id ≠ id := by
      intro heq
      have hclosed := hvacant.handles k hd hk heq
      rw [hopen] at hclosed
      cases hclosed
    change Function.update s.current id _ hd.stream.id = _
    rw [Function.update_of_ne hne]
    exact h.handles k hd hk hopen
  pending stream hstream := by
    change Function.update s.current id _ stream.id = _
    rw [Function.update_of_ne (hvacant.pending stream hstream)]
    exact h.pending stream hstream
  queue entry hentry := by
    change Function.update s.current id _ entry.2.frame.streamId = _
    rw [Function.update_of_ne (hvacant.queue entry hentry)]
    exact h.queue entry hentry

/-! ## Steps -/

theorem own_edit (h : Own s) (hedit : Edit s t) : Own t := by
  cases hedit with
  | same hview =>
    have hhandles : t.handles = s.handles := congrArg View.handles hview
    have hpending : t.conn.pendingStreams = s.conn.pendingStreams := congrArg View.pending hview
    have hqueue : t.conn.streamReceiver.queue = s.conn.streamReceiver.queue := congrArg View.queue hview
    have hcurrent : t.current = s.current := congrArg View.current hview
    constructor
    · rw [hhandles, hcurrent]
      exact h.handles
    · rw [hpending, hcurrent]
      exact h.pending
    · rw [hqueue, hcurrent]
      exact h.queue
  | dequeue r hr => exact { h with queue := fun entry hentry => h.queue entry (hr hentry) }
  | handle hcurrent => exact h.addHandle hcurrent
  | pend hcurrent =>
    exact { h with
      pending := List.forall_mem_append.mpr ⟨h.pending, List.forall_mem_singleton.mpr hcurrent⟩ }
  | accept hpending =>
    obtain ⟨hfirst, hrest⟩ := List.forall_mem_cons.mp (hpending ▸ h.pending)
    apply Own.addHandle
    · exact { h with pending := hrest }
    · exact hfirst
  | dismiss hpending =>
    exact { h with pending := (List.forall_mem_cons.mp (hpending ▸ h.pending)).2 }
  | removeStream | removeBoth | forget | setStat | clear => exact { h with }

theorem own_begins (h : Own s) {a : Action} (hvacant : ∀ id, s.creates a = some id → s.Vacant id)
    (hbegins : Begins s a t) : Own t := by
  cases hbegins with
  | nothing => exact h
  | message => exact h.accept _ _ _
  | arrived htag hnew => exact h.createStream (hvacant _ (if_pos ⟨htag, hnew⟩))
  | opened hopens =>
    have hv : s.Vacant ⟨s.conn.nextStreamId, true⟩ := by
      apply hvacant
      rw [creates, hopens]
      rfl
    apply Own.createStream
    · exact { h with }
    · exact ⟨hv.handles, hv.pending, hv.queue⟩

theorem Own.setHandle (h : Own s)
    (hcurrent : hd.closed = false → s.current hd.stream.id = some hd.stream.receiver) :
    Own (s.setHandle k hd) := by
  refine { h with handles := fun j hd' hj hopen => ?_ }
  change (s.handles.insert k hd).lookup j = some hd' at hj
  by_cases hk : j = k
  · subst hk
    rw [AList.lookup_insert] at hj
    cases hj
    exact hcurrent hopen
  · rw [AList.lookup_insert_ne hk] at hj
    exact h.handles j hd' hj hopen

theorem Own.enqueue (h : Own s) (hid : cmd.frame.streamId = hd.stream.id)
    (hcurrent : s.current hd.stream.id = some hd.stream.receiver) : Own (s.enqueue hd cmd) := by
  refine { h with queue := fun entry hentry => ?_ }
  rcases List.mem_append.mp hentry with hold | hnew
  · exact h.queue entry hold
  · rw [List.mem_singleton.mp hnew]
    rw [hid]
    exact hcurrent

theorem open_of_not_senderClosed (h : ¬s.senderClosed hd = true) : hd.closed = false := by
  rw [senderClosed, Bool.or_eq_true, not_or, Bool.not_eq_true] at h
  exact h.1

theorem own_deed (h : Own s) (hdeed : Deed s a t) : Own t := by
  cases hdeed with
  | nothing => exact h
  | lost | called | cancel => exact { h with }
  | write hk hopen => exact h.enqueue rfl (h.handles _ _ hk (open_of_not_senderClosed hopen))
  | close hk hopen =>
    apply Own.setHandle
    · exact h.enqueue rfl (h.handles _ _ hk (open_of_not_senderClosed hopen))
    · nofun
  | reset hk hopen =>
    apply Own.enqueue
    · exact { h with }
    · rfl
    · exact h.handles _ _ hk (open_of_not_senderClosed hopen)
  | disconnect => exact h.setHandle nofun
  | @read k hd size hk =>
    obtain ⟨hstream, hclosed⟩ := pollReadChunk_handle hd (s.items hd.stream.receiver)
      (s.senderAlive hd.stream.receiver) size
    have hread : Own (s.setHandle k (pollReadChunk hd (s.items hd.stream.receiver)
        (s.senderAlive hd.stream.receiver) size).2.1) := by
      apply h.setHandle
      rw [hstream, hclosed]
      exact h.handles k hd hk
    exact { hread with }
  | @clone k hd hk =>
    have hcloned : Own (s.setHandle s.nextHandle { hd with readBuffer := [] }) :=
      h.setHandle (h.handles k hd hk)
    exact { hcloned with }
  | @drop k =>
    refine { h with handles := fun j hd hj hopen => ?_ }
    change (s.handles.erase k).lookup j = some hd at hj
    by_cases hk : j = k
    · subst hk
      rw [AList.lookup_erase] at hj
      cases hj
    · rw [AList.lookup_erase_ne hk] at hj
      exact h.handles j hd hj hopen

theorem own_step (h : Own s) (hfresh : Fresh s a) : Own (s.step a) := by
  by_cases ha : a.OfTask
  · exact kept_by_edits own_edit (fun _ => h) ha fun hrunning _ => own_begins h (hfresh hrunning)
  · exact own_deed h (deed_step s ha)

theorem own_start (id : UInt32) : Own (start id) where
  handles k hd hk := by
    change (∅ : AList fun _ : Nat => Handle).lookup k = some hd at hk
    cases hk
  pending stream hstream := absurd hstream List.not_mem_nil
  queue entry hentry := absurd hentry List.not_mem_nil

theorem keeps_of_own (h : Own s) (a : Action) : Keeps s a := by
  rintro broken issuer cmd queue - hqueue -
  apply h.queue (issuer, cmd)
  rw [hqueue]
  exact List.mem_cons_self

/-- If streams are created only under names of which nothing is left, a command that has an effect was
sent by a handle of the stream it acts on. -/
theorem commands_keep_to_their_stream (id : UInt32) {actions : List Action}
    (h : EachStep step Fresh (start id) actions) : EachStep step Keeps (start id) actions := by
  apply eachStep_of_step (I := Own) _ _ (own_start id) h
  · exact fun s a hown hfresh => own_step hown hfresh
  · exact fun s a hown _ => keeps_of_own hown a

/-- A stream is opened by the remote, accepted, reset by the remote and opened once more. -/
def reopened : List Action :=
  [.frame (.newStreamFrame ⟨1, false⟩ []) .sent none, .acceptStream, .controlCommand none,
    .frame (.resetFrame ⟨1, false⟩) .sent none, .frame (.newStreamFrame ⟨1, false⟩ []) .sent none]

/-- What the handle of the first stream writes is sent on the second one, whose state a close changes. -/
theorem old_handle_writes_to_new_stream :
    let s := run step (start 0) (reopened ++ [.write 0 [7], .close 0])
    s.conn.streamReceiver.queue.map Prod.fst = [0, 0] ∧ s.current ⟨1, false⟩ = some 1 ∧
      (s.step (.streamCommand none)).sent = [.messageFrame ⟨1, false⟩ [7]] ∧
        ((s.step (.streamCommand none)).step (.streamCommand none)).conn.streamsStat.lookup
          ⟨1, false⟩ = some .sendClosed ∧ ¬Keeps s (.streamCommand none) := by
  intro s
  have hqueue : s.conn.streamReceiver.queue =
      [(0, .sendFrame (.messageFrame ⟨1, false⟩ [7])), (0, .closeStream (.closeFrame ⟨1, false⟩))] := by
    decide
  have hcurrent : s.current ⟨1, false⟩ = some 1 := by decide
  have hsent : (s.step (.streamCommand none)).sent = [.messageFrame ⟨1, false⟩ [7]] := by decide
  refine ⟨by decide, hcurrent, hsent, by decide, fun hkeeps => ?_⟩
  have hnone : s.sent = [] := by decide
  have howner := hkeeps none 0 _ _ rfl hqueue (.inr (.inl (by rw [hsent, hnone]; nofun)))
  exact absurd (hcurrent.symm.trans howner) (by decide)

/-- A stream that is reset by the remote and whose handle is dropped leaves nothing behind. -/
theorem dropped_handle_leaves_name :
    EachStep step Keeps (start 0)
      [.frame (.newStreamFrame ⟨1, false⟩ []) .sent none, .acceptStream, .controlCommand none,
        .frame (.resetFrame ⟨1, false⟩) .sent none, .drop 0,
        .frame (.newStreamFrame ⟨1, false⟩ []) .sent none] := by
  apply commands_keep_to_their_stream 0
  have hvacant : ∀ {s : System} {id : StreamID}, s.handles = ∅ → s.conn.pendingStreams = [] →
      s.conn.streamReceiver.queue = [] → s.Vacant id := by
    intro s id hhandles hpending hqueue
    refine ⟨fun k h hk => ?_, ?_, ?_⟩
    · rw [hhandles, AList.lookup_empty] at hk
      cases hk
    · rw [hpending]
      nofun
    · rw [hqueue]
      nofun
  refine ⟨fun _ _ _ => hvacant ?_ rfl rfl, nofun, nofun, nofun, nofun, fun _ _ _ => hvacant ?_ rfl rfl,
    trivial⟩
  · rfl
  · rfl

end Libp2pRs.Mplex.System
