import Libp2pRs.Lib.Runs
import Libp2pRs.Noise.Receiving

/-!
# Noise streams carry the bytes that are written

One `NoiseOutput` writes and another reads, connected by a reliable byte stream.
-/

namespace Libp2pRs.Noise

open Lib Lib.Pipe Libp2pRs.Core List

/-- The two sides and the stream between them. Beside the state stand the bytes for which
`poll_write` has returned `Ok`, the bytes that `poll_read` has returned, how many bytes had been
accepted when `poll_flush` last returned `Ok`, and whether an assertion has failed. -/
structure Channel where
  sender : NoiseOutput
  pipe : Pipe
  receiver : NoiseOutput
  accepted : List UInt8
  received : List UInt8
  flushed : Nat
  panicked : Bool

inductive Call where
  | write (buf : List UInt8) (answers : List (Answer IoError))
  | flush (answers : List (Answer IoError))
  | close (answers : List (Answer IoError))
  | read (size : Nat) (answers : List (Answer IoError))

/-- The stream does not fail by itself, and buffers to read into are not empty. -/
def Call.Proper : Call → Prop
  | .write _ answers | .flush answers | .close answers => ∀ e, .error e ∉ answers
  | .read size answers => 0 < size ∧ ∀ e, .error e ∉ answers

namespace Channel

/-- Two streams after the handshake, whose buffers may hold anything. -/
def start (sender receiver : TransportState) (rb wb rb' wb' : List UInt8) : Channel where
  sender := .new ⟨sender, .ready, .ready, rb, wb⟩
  pipe := .empty
  receiver := .new ⟨receiver, .ready, .ready, rb', wb'⟩
  accepted := []
  received := []
  flushed := 0
  panicked := false

def step (c : Channel) : Call → Channel
  | .write buf answers =>
    match c.sender.pollWrite ⟨c.pipe, answers⟩ buf with
    | none => { c with panicked := true }
    | some (.ready (.ok n), sender, io) =>
      { c with sender := sender, pipe := io.pipe, accepted := c.accepted ++ buf.take n }
    | some (_, sender, io) => { c with sender := sender, pipe := io.pipe }
  | .flush answers =>
    match c.sender.pollFlush ⟨c.pipe, answers⟩ with
    | none => { c with panicked := true }
    | some (.ready (.ok ()), sender, io) =>
      { c with sender := sender, pipe := io.pipe, flushed := c.accepted.length }
    | some (_, sender, io) => { c with sender := sender, pipe := io.pipe }
  | .close answers =>
    match c.sender.pollClose ⟨c.pipe, answers⟩ with
    | none => { c with panicked := true }
    | some (_, sender, io) => { c with sender := sender, pipe := io.pipe }
  | .read size answers =>
    match c.receiver.pollRead ⟨c.pipe, answers⟩ size with
    | (.ready (.ok data), receiver, io) =>
      { c with receiver := receiver, pipe := io.pipe, received := c.received ++ data }
    | (_, receiver, io) => { c with receiver := receiver, pipe := io.pipe }

end Channel

/-- The writer has started the messages `ps`, the reader has completed `k` of them, and the first
`m` of them were flushed. -/
structure Linked (snow : Snow) (ps : List (List UInt8)) (k m : Nat) (c : Channel) : Prop where
  sending : Sending snow ps c.sender c.pipe.sent c.accepted
  receiving : Receiving snow ps k c.receiver c.pipe c.received
  flushed_le : m ≤ ps.length
  flushed_sent : frames (frame snow) 0 (ps.take m) <+: c.pipe.sent
  flushed : c.flushed = (ps.take m).flatten.length
  running : c.panicked = false

variable {snow : Snow} {ps : List (List UInt8)} {k m : Nat} {c : Channel}

namespace Linked

theorem received_prefix (h : Linked snow ps k m c) : c.received <+: c.accepted := by
  have hcompleted : c.received <+: (ps.take k).flatten := ⟨_, h.receiving.received⟩
  have hstarted : (ps.take k).flatten <+: ps.flatten := by
    conv_rhs => rw [← take_append_drop k ps, flatten_append]
    exact List.prefix_append _ _
  have haccepted : ps.flatten <+: c.accepted := ⟨_, h.sending.accepted.symm⟩
  exact (hcompleted.trans hstarted).trans haccepted

theorem flushed_le_received (h : Linked snow ps k m c) (hnone : c.pipe.available = [])
    (hbuffer : c.receiver.recvBuffer = []) : c.flushed ≤ c.received.length := by
  obtain ⟨part, hpart, hstands⟩ := h.receiving.stands
  have hprefix := h.flushed_sent
  rw [← delivered_of_available hnone, hpart] at hprefix
  have hle : m ≤ k := le_of_frames_prefix h.flushed_le hprefix fun p hp => hstands.short hp
  have hreceived := h.receiving.received
  rw [hbuffer, drop_nil, append_nil] at hreceived
  have hsub : (ps.take m).flatten <+: (ps.take k).flatten := by
    conv_rhs => rw [← take_append_drop m (ps.take k), flatten_append, take_take,
      Nat.min_eq_left hle]
    exact List.prefix_append _ _
  rw [h.flushed, hreceived]
  exact hsub.length_le

theorem advances {s : NoiseOutput} {pipe : Pipe} {accepted : List UInt8}
    (h : Linked snow ps k m c) (hadv : Advances snow ps c.pipe s pipe accepted) :
    ∃ more, Linked snow (ps ++ more) k m { c with sender := s, pipe := pipe, accepted := accepted } := by
  obtain ⟨hgrows, more, hsending⟩ := hadv
  refine ⟨more, hsending, ⟨h.receiving.toIncoming.grows hgrows, ?_, h.receiving.offset_lt⟩, ?_, ?_,
    ?_, h.running⟩
  · rw [take_append_of_le_length h.receiving.le]
    exact h.receiving.received
  · have := h.flushed_le
    rw [length_append]
    omega
  · rw [take_append_of_le_length h.flushed_le]
    exact h.flushed_sent.trans hgrows.sent_prefix
  · rw [take_append_of_le_length h.flushed_le]
    exact h.flushed

theorem all_flushed (h : Linked snow ps k m c) (hoffset : c.sender.sendOffset = 0)
    (hready : c.sender.io.writeState = .ready) :
    Linked snow ps k ps.length { c with flushed := c.accepted.length } := by
  obtain ⟨rest, hrest, hpending⟩ := h.sending.pending
  rw [hready] at hpending
  cases hpending
  rw [append_nil] at hrest
  have haccepted := h.sending.accepted
  rw [hoffset, take_zero, append_nil] at haccepted
  refine ⟨h.sending, h.receiving, Nat.le_refl _, ?_, ?_, h.running⟩
  · rw [take_length]
    exact ⟨[], (append_nil _).trans hrest.symm⟩
  · rw [take_length]
    exact congrArg length haccepted

end Linked

/-- A call on the side that reads: it returns bytes, or it leaves nothing behind that has arrived. -/
theorem Linked.read {size : Nat} {answers : List (Answer IoError)}
    {r : Poll (Except IoError (List UInt8))} {receiver : NoiseOutput} {io : Wire IoError}
    (h : Linked snow ps k m c) (hsize : 0 < size) (hclean : ∀ e, .error e ∉ answers)
    (hread : c.receiver.pollRead ⟨c.pipe, answers⟩ size = (r, receiver, io)) :
    ∃ k', (∃ data, data ≠ [] ∧ r = .ready (.ok data) ∧ Linked snow ps k' m
          { c with receiver := receiver, pipe := io.pipe, received := c.received ++ data }) ∨
      Linked snow ps k' m { c with receiver := receiver, pipe := io.pipe } ∧
        receiver.recvBuffer = [] ∧
        ((r = .pending ∧ (Wire.Eager ⟨c.pipe, answers⟩ → io.pipe.available = [])) ∨
          (r = .ready (.ok []) ∨ ∃ e, r = .ready (.error e)) ∧
            io.pipe.closed ∧ io.pipe.available = []) := by
  have hshort : ∀ p ∈ ps, p.length ≤ maxFrameLen := fun p hp => (h.sending.payloads p hp).2
  obtain ⟨k', hsent, hcases⟩ :=
    h.receiving.pollRead hread hsize h.sending.sent_prefix hshort hclean
  have hsending := h.sending
  have hflushed := h.flushed_sent
  rw [← hsent] at hsending hflushed
  refine ⟨k', ?_⟩
  obtain ⟨data, hdata, hr, hreceiving⟩ | ⟨hreceiving, hrest⟩ := hcases
  · exact .inl ⟨data, hdata, hr,
      ⟨hsending, hreceiving, h.flushed_le, hflushed, h.flushed, h.running⟩⟩
  · exact .inr ⟨⟨hsending, hreceiving, h.flushed_le, hflushed, h.flushed, h.running⟩, hrest⟩

theorem linked_step {call : Call} (h : Linked snow ps k m c) (hcall : call.Proper) :
    ∃ ps k m, Linked snow ps k m (c.step call) := by
  cases call with
  | write buf answers =>
    have hclean : Wire.Clean ⟨c.pipe, answers⟩ := hcall
    obtain ⟨r, s', io', hwrite, hcases⟩ := h.sending.pollWrite buf hclean
    simp only [Channel.step, hwrite]
    obtain ⟨n, rfl, hadv⟩ | ⟨hne, hadv⟩ := hcases
    · obtain ⟨more, hlinked⟩ := h.advances hadv
      exact ⟨_, _, _, hlinked⟩
    · obtain ⟨more, hlinked⟩ := h.advances hadv
      match r with
      | .ready (.ok n) => exact absurd rfl (hne n)
      | .pending | .ready (.error e) => exact ⟨_, _, _, hlinked⟩
  | flush answers =>
    have hclean : Wire.Clean ⟨c.pipe, answers⟩ := hcall
    obtain ⟨r, s', io', hflush, -, hadv, hdone⟩ := h.sending.pollFlush hclean
    obtain ⟨more, hlinked⟩ := h.advances hadv
    simp only [Channel.step, hflush]
    match r with
    | .ready (.ok ()) =>
      obtain ⟨hoffset, hready⟩ := hdone rfl
      exact ⟨_, _, _, hlinked.all_flushed hoffset hready⟩
    | .pending | .ready (.error e) => exact ⟨_, _, _, hlinked⟩
  | close answers =>
    have hclean : Wire.Clean ⟨c.pipe, answers⟩ := hcall
    obtain ⟨r, s', io', hclose, hadv⟩ := h.sending.pollClose hclean
    obtain ⟨more, hlinked⟩ := h.advances hadv
    simp only [Channel.step, hclose]
    exact ⟨_, _, _, hlinked⟩
  | read size answers =>
    obtain ⟨hsize, hclean⟩ := hcall
    rcases hread : c.receiver.pollRead ⟨c.pipe, answers⟩ size with ⟨r, receiver, io⟩
    obtain ⟨k', ⟨data, -, rfl, hlinked⟩ | ⟨hlinked, -, hcases⟩⟩ := h.read hsize hclean hread
    · simp only [Channel.step, hread]
      exact ⟨_, _, _, hlinked⟩
    · simp only [Channel.step, hread]
      obtain ⟨rfl, -⟩ | ⟨rfl | ⟨e, rfl⟩, -⟩ := hcases
      · exact ⟨_, _, _, hlinked⟩
      · dsimp only
        rw [append_nil]
        exact ⟨_, _, _, hlinked⟩
      · exact ⟨_, _, _, hlinked⟩

theorem linked_start (snow other other' : Snow) (n n' : Nat) (rb wb rb' wb' : List UInt8) :
    Linked snow [] 0 0 (.start ⟨snow, 0, other, n⟩ ⟨other', n', snow, 0⟩ rb wb rb' wb') where
  sending :=
    { session := rfl
      nonce := rfl
      pending := ⟨[], rfl, .ready⟩
      accepted := rfl
      full := fun h => absurd h (Nat.lt_irrefl 0)
      offset_le := Nat.zero_le _
      payloads := fun _ hp => absurd hp not_mem_nil }
  receiving :=
    { session := rfl
      nonce := rfl
      le := Nat.le_refl 0
      stands := ⟨[], rfl, .ready⟩
      received := rfl
      offset_lt := fun h => absurd rfl h }
  flushed_le := Nat.le_refl 0
  flushed_sent := nil_prefix
  flushed := rfl
  running := rfl

/-- A read with a buffer that is not empty, on a stream that delivers what it has. -/
def Delivering (c : Channel) : Call → Prop
  | .read size answers => 0 < size ∧ Wire.Eager ⟨c.pipe, answers⟩
  | _ => False

/-- Each read on a stream that delivers returns a byte, until all that was flushed is read. -/
theorem linked_delivering {call : Call} (h : Linked snow ps k m c) (hcall : Delivering c call) :
    (∃ k, Linked snow ps k m (c.step call)) ∧ (c.step call).flushed = c.flushed ∧
      (c.received.length < (c.step call).received.length ∨
        c.flushed ≤ (c.step call).received.length) := by
  match call with
  | .read size answers =>
    obtain ⟨hsize, heager⟩ := hcall
    rcases hread : c.receiver.pollRead ⟨c.pipe, answers⟩ size with ⟨r, receiver, io⟩
    obtain ⟨k', ⟨data, hdata, rfl, hlinked⟩ | ⟨hlinked, hbuffer, hcases⟩⟩ :=
      h.read hsize heager.clean hread
    · have hpos := length_pos_of_ne_nil hdata
      simp only [Channel.step, hread]
      refine ⟨⟨k', hlinked⟩, trivial, .inl ?_⟩
      rw [length_append]
      omega
    · have hnone : io.pipe.available = [] := by
        obtain ⟨-, hnone⟩ | ⟨-, -, hnone⟩ := hcases
        · exact hnone heager
        · exact hnone
      have hall := hlinked.flushed_le_received hnone hbuffer
      simp only [Channel.step, hread]
      obtain ⟨rfl, -⟩ | ⟨rfl | ⟨e, rfl⟩, -⟩ := hcases
      · exact ⟨⟨k', hlinked⟩, rfl, .inr hall⟩
      · dsimp only
        rw [append_nil]
        exact ⟨⟨k', hlinked⟩, rfl, .inr hall⟩
      · exact ⟨⟨k', hlinked⟩, rfl, .inr hall⟩

theorem flushed_le_received_run {reads : List Call} (h : Linked snow ps k m c)
    (hreads : EachStep Channel.step Delivering c reads)
    (hlen : c.flushed ≤ c.received.length + reads.length) :
    (run Channel.step c reads).flushed ≤ (run Channel.step c reads).received.length := by
  induction reads generalizing c k with
  | nil => exact hlen
  | cons call reads ih =>
    obtain ⟨⟨k', hlinked⟩, hflushed, hcases⟩ := linked_delivering h hreads.1
    rw [length_cons] at hlen
    apply ih hlinked hreads.2
    omega

/-- Two streams over a reliable byte stream, after any calls on both of them. No assertion has
failed, and what was read is a prefix of what was accepted. A read returns no bytes only at the
end of the stream, when nothing that was flushed is missing. As long as the byte stream delivers,
what was flushed can be read. -/
theorem transport_stream (snow other other' : Snow) (n n' : Nat) (rb wb rb' wb' : List UInt8)
    (calls : List Call) (hcalls : ∀ call ∈ calls, call.Proper) :
    let c := run Channel.step
      (.start ⟨snow, 0, other, n⟩ ⟨other', n', snow, 0⟩ rb wb rb' wb') calls
    c.panicked = false ∧ c.received <+: c.accepted ∧
      (∀ size answers receiver io, 0 < size → (∀ e, .error e ∉ answers) →
        c.receiver.pollRead ⟨c.pipe, answers⟩ size = (.ready (.ok []), receiver, io) →
        io.pipe.closed ∧ io.pipe.available = [] ∧ c.flushed ≤ c.received.length) ∧
      (∀ reads, EachStep Channel.step Delivering c reads →
        c.flushed ≤ c.received.length + reads.length →
        (run Channel.step c reads).flushed ≤ (run Channel.step c reads).received.length) := by
  intro c
  have hlinked : ∃ ps k m, Linked snow ps k m c := by
    apply invariant_run_of (I := fun c => ∃ ps k m, Linked snow ps k m c) ?_ ?_ hcalls
    · intro c call hcall ⟨ps, k, m, h⟩
      exact linked_step h hcall
    · exact ⟨_, _, _, linked_start snow other other' n n' rb wb rb' wb'⟩
  obtain ⟨ps, k, m, h⟩ := hlinked
  refine ⟨h.running, h.received_prefix, ?_, fun reads => flushed_le_received_run h⟩
  intro size answers receiver io hsize hclean hread
  obtain ⟨k', ⟨data, hdata, hr, -⟩ | ⟨hlinked, hbuffer, hcases⟩⟩ := h.read hsize hclean hread
  · cases hr
    exact absurd rfl hdata
  · obtain ⟨hr, -⟩ | ⟨-, hclosed, hnone⟩ := hcases
    · cases hr
    · exact ⟨hclosed, hnone, hlinked.flushed_le_received hnone hbuffer⟩

/-- Messages in the clear, behind a tag that repeats the nonce. -/
def sampleSnow : Snow where
  encrypt nonce payload := List.replicate 16 (UInt8.ofNat nonce) ++ payload
  decrypt nonce message :=
    if message.take 16 = List.replicate 16 (UInt8.ofNat nonce) then some (message.drop 16) else none
  length_encrypt nonce payload := by
    rw [List.length_append, List.length_replicate, Nat.add_comm]
  decrypt_encrypt nonce payload := by
    rw [if_pos (List.take_left' List.length_replicate), List.drop_left' List.length_replicate]

/-- Two writes, a flush that stops in the middle of the frame and one that completes it. -/
def sampleCalls : List Call :=
  [.write [1, 2] [], .write [3] [.pending], .flush [.ready 1, .pending],
    .flush [.ready 9, .ready 30, .ready 0], .read 2 [.ready 1, .ready 5, .pending]]

theorem sampleCalls_transport :
    let c := run Channel.step
      (.start ⟨sampleSnow, 0, sampleSnow, 0⟩ ⟨sampleSnow, 0, sampleSnow, 0⟩ [] [] [] [])
      sampleCalls
    c.flushed = 3 ∧ c.panicked = false ∧ c.received <+: c.accepted := by
  intro c
  have hrun : c.flushed = 3 := by decide +kernel
  have hcalls : ∀ call ∈ sampleCalls, call.Proper := by
    intro call hcall
    simp only [sampleCalls, mem_cons, not_mem_nil, or_false] at hcall
    obtain rfl | rfl | rfl | rfl | rfl := hcall <;> simp [Call.Proper]
  have hstream := transport_stream sampleSnow sampleSnow sampleSnow 0 0 [] [] [] [] _ hcalls
  exact ⟨hrun, hstream.1, hstream.2.1⟩

end Libp2pRs.Noise
