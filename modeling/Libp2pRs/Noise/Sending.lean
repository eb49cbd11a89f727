import Libp2pRs.Lib.Framing
import Libp2pRs.Noise.Framed

/-!
# The side of a Noise stream that writes

The messages that were started are a list `ps` of payloads. The bytes in the stream and those that
the writer still holds are the frames of these messages, and what was accepted is in the messages
and in the send buffer.
-/

namespace Libp2pRs.Noise

open Lib Lib.Pipe Libp2pRs.Core List Wire

variable {snow : Snow} {ps : List (List UInt8)} {k : Nat} {io io' : Wire IoError}
  {f f' : NoiseFramed}

def frame (snow : Snow) (nonce : Nat) (payload : List UInt8) : List UInt8 :=
  beBytes 2 (payload.length + 16) ++ snow.encrypt nonce payload

theorem length_frame (nonce : Nat) (payload : List UInt8) :
    (frame snow nonce payload).length = payload.length + 18 := by
  rw [frame, length_append, length_beBytes, snow.length_encrypt]
  omega

/-! ## Writing a frame -/

/-- The bytes of the frame that a writer still has to write. Once the stream has taken no byte, it
writes no more. -/
inductive Pending : WriteState → List UInt8 → List UInt8 → Prop where
  | ready {wb : List UInt8} : Pending .ready wb []
  | writeLen {wb buf : List UInt8} {off : Nat} (hwb : wb ≠ []) (hbuf : buf.length = 2)
      (hoff : off < 2) : Pending (.writeLen wb.length buf off) wb (buf.drop off ++ wb)
  | writeData {wb : List UInt8} {off : Nat} (hoff : off < wb.length) :
      Pending (.writeData wb.length off) wb (wb.drop off)
  | eof {wb rest : List UInt8} : Pending .eof wb rest

theorem writeFrameLen_spec
    (h : writeFrameLen io buf off = (r, off', io')) (hclean : io.Clean) (hbuf : buf.length = 2)
    (hoff : off < 2) : Conserves io.pipe (buf.drop off) io'.pipe (buf.drop off') ∧ io'.Clean ∧
      ((r = .pending ∧ off' < 2) ∨ r = .ready (.ok false) ∨ (r = .ready (.ok true) ∧ off' = 2) ∨
        ∃ e, r = .ready (.error e) ∧ io.pipe.closed ∧ io'.pipe = io.pipe) := by
  fun_induction writeFrameLen io buf off with
  | case1 io off io₁ hwrite =>
    cases h
    exact ⟨.of_eq (pollWrite_pending hwrite), hclean.of_tail (pollWrite_answers hwrite),
      .inl ⟨rfl, hoff⟩⟩
  | case2 io off e io₁ hwrite =>
    cases h
    obtain ⟨hpipe, herror⟩ := pollWrite_error hwrite
    have hclosed := herror.resolve_left (hclean e)
    exact ⟨.of_eq hpipe, hclean.of_tail (pollWrite_answers hwrite),
      .inr (.inr (.inr ⟨e, rfl, hclosed, hpipe⟩))⟩
  | case3 io off io₁ hwrite =>
    cases h
    obtain ⟨-, hpush, -⟩ := pollWrite_ok hwrite
    exact ⟨hpush, hclean.of_tail (pollWrite_answers hwrite), .inr (.inl rfl)⟩
  | case4 io off n io₁ hwrite hn htwo =>
    cases h
    obtain ⟨-, hpush, -⟩ := pollWrite_ok hwrite
    rw [drop_drop] at hpush
    exact ⟨hpush, hclean.of_tail (pollWrite_answers hwrite), .inr (.inr (.inl ⟨rfl, htwo⟩))⟩
  | case5 io off n io₁ hwrite hn htwo ih =>
    obtain ⟨hle, hpush, hopen⟩ := pollWrite_ok hwrite
    rw [length_drop, hbuf] at hle
    rw [drop_drop] at hpush
    obtain ⟨hrest, hclean', hcases⟩ :=
      ih h (hclean.of_tail (pollWrite_answers hwrite)) (by omega)
    refine ⟨hpush.trans hrest, hclean', ?_⟩
    obtain hpending | hfalse | htrue | ⟨e, -, hclosed, -⟩ := hcases
    · exact .inl hpending
    · exact .inr (.inl hfalse)
    · exact .inr (.inr (.inl htrue))
    · -- a stream that has just taken a byte is open
      rw [hopen] at hclosed
      cases hclosed

variable {r : Poll (Except IoError Unit)} {rest : List UInt8}

theorem pollReady_spec (h : f.pollReady io = (r, f', io')) (hclean : io.Clean)
    (hp : Pending f.writeState f.writeBuffer rest) :
    ∃ ws rest', f' = { f with writeState := ws } ∧ Pending ws f.writeBuffer rest' ∧
      Conserves io.pipe rest io'.pipe rest' ∧ io'.Clean ∧ (r = .ready (.ok ()) → ws = .ready) := by
  fun_induction NoiseFramed.pollReady f io generalizing rest with
  | case1 f io hstate =>
    cases h
    exact ⟨_, rest, rfl, hp, .refl _ _, hclean, fun _ => hstate⟩
  | case2 f io len buf off hstate off' io₁ hlen ih =>
    rw [hstate] at hp
    cases hp with
    | writeLen hwb hbuf hoff =>
      obtain ⟨hc, hclean', hcases⟩ := writeFrameLen_spec hlen hclean hbuf hoff
      obtain ⟨hr, -⟩ | hr | ⟨-, hoff'⟩ | ⟨e, hr, -⟩ := hcases
      · cases hr
      · cases hr
      · have hnil : buf.drop off' = [] := drop_of_length_le (by omega)
        rw [hnil] at hc
        have hc := hc.append f.writeBuffer
        obtain ⟨ws, rest', hf, hp', hc', hclean'', hready⟩ :=
          ih h hclean' (.writeData (length_pos_of_ne_nil hwb))
        exact ⟨ws, rest', hf, hp', hc.trans hc', hclean'', hready⟩
      · cases hr
  | case3 f io len buf off hstate off' io₁ hlen =>
    cases h
    rw [hstate] at hp
    cases hp with
    | writeLen hwb hbuf hoff =>
      obtain ⟨hc, hclean', -⟩ := writeFrameLen_spec hlen hclean hbuf hoff
      exact ⟨_, _, rfl, .eof, hc.append _, hclean', nofun⟩
  | case4 f io len buf off hstate e off' io₁ hlen =>
    cases h
    rw [hstate] at hp
    cases hp with
    | writeLen hwb hbuf hoff =>
      obtain ⟨-, hclean', hcases⟩ := writeFrameLen_spec hlen hclean hbuf hoff
      obtain ⟨hr, -⟩ | hr | ⟨hr, -⟩ | ⟨e, -, -, hpipe⟩ := hcases
      · cases hr
      · cases hr
      · cases hr
      · exact ⟨_, _, rfl, hstate ▸ .writeLen hwb hbuf hoff, .of_eq hpipe, hclean', nofun⟩
  | case5 f io len buf off hstate off' io₁ hlen =>
    cases h
    rw [hstate] at hp
    cases hp with
    | writeLen hwb hbuf hoff =>
      obtain ⟨hc, hclean', hcases⟩ := writeFrameLen_spec hlen hclean hbuf hoff
      obtain ⟨-, hoff'⟩ | hr | ⟨hr, -⟩ | ⟨e, hr, -⟩ := hcases
      · exact ⟨_, _, rfl, .writeLen hwb hbuf hoff', hc.append _, hclean', nofun⟩
      · cases hr
      · cases hr
      · cases hr
  | case6 f io len off hstate io₁ hwrite =>
    cases h
    exact ⟨_, rest, rfl, hp, .of_eq (pollWrite_pending hwrite),
      hclean.of_tail (pollWrite_answers hwrite), nofun⟩
  | case7 f io len off hstate e io₁ hwrite =>
    cases h
    exact ⟨_, rest, rfl, hp, .of_eq (pollWrite_error hwrite).1,
      hclean.of_tail (pollWrite_answers hwrite), nofun⟩
  | case8 f io len off hstate io₁ hwrite =>
    cases h
    rw [hstate] at hp
    obtain ⟨hoff⟩ := hp
    obtain ⟨-, hpush, -⟩ := pollWrite_ok hwrite
    rw [take_length, drop_zero] at hpush
    exact ⟨_, _, rfl, .eof, hpush, hclean.of_tail (pollWrite_answers hwrite), nofun⟩
  | case9 f io len off hstate n io₁ hwrite hn ih =>
    rw [hstate] at hp
    obtain ⟨hoff⟩ := hp
    obtain ⟨hle, hpush, -⟩ := pollWrite_ok hwrite
    rw [take_length, length_drop] at hle
    rw [take_length, drop_drop] at hpush
    have hnext : Pending (if f.writeBuffer.length = off + n then .ready
        else .writeData f.writeBuffer.length (off + n)) f.writeBuffer
        (f.writeBuffer.drop (off + n)) := by
      split
      case isTrue heq =>
        rw [← heq, drop_length]
        exact .ready
      case isFalse hne => exact .writeData (by omega)
    obtain ⟨ws, rest', hf, hp', hc', hclean', hready⟩ :=
      ih h (hclean.of_tail (pollWrite_answers hwrite)) hnext
    exact ⟨ws, rest', hf, hp', hpush.trans hc', hclean', hready⟩
  | case10 f io hstate =>
    cases h
    exact ⟨_, rest, rfl, hp, .refl _ _, hclean, nofun⟩
  | case11 f io hstate =>
    rw [hstate] at hp
    cases hp

theorem pollFlush_spec (h : f.pollFlush io = (r, f', io')) (hclean : io.Clean)
    (hp : Pending f.writeState f.writeBuffer rest) :
    ∃ ws rest', f' = { f with writeState := ws } ∧ Pending ws f.writeBuffer rest' ∧
      Conserves io.pipe rest io'.pipe rest' ∧ io'.Clean ∧ (r = .ready (.ok ()) → ws = .ready) := by
  rcases hready : f.pollReady io with ⟨r₁, f₁, io₁⟩
  obtain ⟨ws, rest', rfl, hp', hc, hclean', hws⟩ := pollReady_spec hready hclean hp
  rw [NoiseFramed.pollFlush, hready] at h
  match r₁ with
  | .pending | .ready (.error e) =>
    cases h
    exact ⟨ws, rest', rfl, hp', hc, hclean', nofun⟩
  | .ready (.ok ()) =>
    have hpipe := io₁.pollFlush_pipe
    have hanswers := io₁.pollFlush_answers
    rcases hflush : io₁.pollFlush with ⟨r₂, io₂⟩
    rw [hflush] at hpipe hanswers
    simp only [hflush] at h
    cases h
    exact ⟨ws, rest', rfl, hp', hc.trans (.of_eq hpipe), hclean'.of_tail hanswers, fun _ => hws rfl⟩

theorem pollClose_spec (h : f.pollClose io = (r, f', io')) (hclean : io.Clean)
    (hp : Pending f.writeState f.writeBuffer rest) :
    ∃ ws rest', f' = { f with writeState := ws } ∧ Pending ws f.writeBuffer rest' ∧
      Conserves io.pipe rest io'.pipe rest' := by
  rcases hflush : f.pollFlush io with ⟨r₁, f₁, io₁⟩
  obtain ⟨ws, rest', rfl, hp', hc, -, hws⟩ := pollFlush_spec hflush hclean hp
  rw [NoiseFramed.pollClose, hflush] at h
  match r₁ with
  | .pending | .ready (.error e) =>
    cases h
    exact ⟨ws, rest', rfl, hp', hc⟩
  | .ready (.ok ()) =>
    rcases hclose : io₁.pollClose with ⟨r₂, io₂⟩
    simp only [hclose] at h
    cases h
    refine ⟨ws, rest', rfl, hp', hc.trans ?_⟩
    obtain ⟨-, hpipe⟩ | ⟨-, hpipe⟩ := pollClose_spec hclose
    · exact .of_eq hpipe
    · rw [hpipe]
      exact .close _ _

theorem startSend_spec (hlen : payload.length ≤ maxFrameLen) (hready : f.writeState = .ready) :
    f.startSend payload = some (.ok (), { f with
      session := { f.session with sendNonce := f.session.sendNonce + 1 }
      writeBuffer := f.session.sending.encrypt f.session.sendNonce payload
      writeState := .writeLen (payload.length + 16) (beBytes 2 (payload.length + 16)) 0 }) := by
  have hfits : ¬ (payload.length + 16 > maxNoiseMsgLen ∨
      payload.length + 16 > payload.length + extraEncryptSpace) := by
    simp only [maxFrameLen, maxNoiseMsgLen, extraEncryptSpace] at hlen ⊢
    omega
  have hisReady : f.writeState.isReady = true := by
    rw [hready]
    rfl
  rw [NoiseFramed.startSend, if_neg (not_not_intro hlen), if_neg (not_not_intro hisReady),
    TransportState.writeMessage, if_neg hfits]
  simp only [Snow.length_encrypt]

theorem pending_startSend (session : TransportState) (payload : List UInt8) :
    Pending (.writeLen (payload.length + 16) (beBytes 2 (payload.length + 16)) 0)
      (session.sending.encrypt session.sendNonce payload)
      (frame session.sending session.sendNonce payload) := by
  have hlen := session.sending.length_encrypt session.sendNonce payload
  have hp : Pending (.writeLen (session.sending.encrypt session.sendNonce payload).length
      (beBytes 2 (payload.length + 16)) 0) (session.sending.encrypt session.sendNonce payload)
      (frame session.sending session.sendNonce payload) := by
    refine @Pending.writeLen _ _ 0 (fun hnil => ?_) (length_beBytes 2 _) (by omega)
    rw [hnil, length_nil] at hlen
    omega
  rwa [hlen] at hp

/-! ## The side that writes -/

/-- The messages `ps` were started. What was accepted is in them and in the send buffer, and what
was written to the stream is the front of their frames. -/
structure Sending (snow : Snow) (ps : List (List UInt8)) (s : NoiseOutput)
    (sent accepted : List UInt8) : Prop where
  session : s.io.session.sending = snow
  nonce : s.io.session.sendNonce = ps.length
  pending : ∃ rest, sent ++ rest = frames (frame snow) 0 ps ∧
    Pending s.io.writeState s.io.writeBuffer rest
  accepted : accepted = ps.flatten ++ s.sendBuffer.take s.sendOffset
  full : 0 < s.sendOffset → s.sendBuffer.length = s.sendOffset
  offset_le : s.sendOffset ≤ maxFrameLen
  payloads : ∀ p ∈ ps, p ≠ [] ∧ p.length ≤ maxFrameLen

variable {s s' : NoiseOutput} {accepted : List UInt8}

theorem Sending.sent_prefix {sent : List UInt8} (h : Sending snow ps s sent accepted) :
    sent <+: frames (frame snow) 0 ps := by
  obtain ⟨rest, hrest, -⟩ := h.pending
  exact ⟨rest, hrest⟩

theorem Sending.conserves {pipe pipe' : Pipe} (h : Sending snow ps s pipe.sent accepted)
    (hrest : pipe.sent ++ rest = frames (frame snow) 0 ps) (hc : Conserves pipe rest pipe' rest')
    (hp : Pending ws s.io.writeBuffer rest') :
    Sending snow ps { s with io := { s.io with writeState := ws } } pipe'.sent accepted :=
  { h with pending := ⟨rest', hc.sent.trans hrest, hp⟩ }

theorem Sending.startSend {pipe : Pipe} (h : Sending snow ps s pipe.sent accepted)
    (hready : s.io.writeState = .ready) (hoffset : 0 < s.sendOffset) :
    ∃ f, s.io.startSend s.sendBuffer = some (.ok (), f) ∧
      Sending snow (ps ++ [s.sendBuffer]) { s with io := f, sendOffset := 0 } pipe.sent accepted := by
  have hfull := h.full hoffset
  have hlen : s.sendBuffer.length ≤ maxFrameLen := by
    have := h.offset_le
    omega
  refine ⟨_, startSend_spec hlen hready, h.session, ?_, ?_, ?_, nofun, Nat.zero_le _, ?_⟩
  · rw [h.nonce, length_append, length_singleton]
  · refine ⟨_, ?_, pending_startSend s.io.session s.sendBuffer⟩
    obtain ⟨rest, hrest, hp⟩ := h.pending
    rw [hready] at hp
    cases hp
    rw [append_nil] at hrest
    rw [hrest, h.session, h.nonce, frames_append, Nat.zero_add]
    show _ = _ ++ (_ ++ [])
    rw [append_nil]
  · rw [h.accepted, take_of_length_le (Nat.le_of_eq hfull), flatten_append,
      flatten_singleton, take_zero, append_nil]
  · intro p hp
    obtain hp | hp := mem_append.mp hp
    · exact h.payloads p hp
    · rw [mem_singleton.mp hp]
      exact ⟨ne_nil_of_length_pos (by omega), hlen⟩

theorem take_takeD {l : List UInt8} (hn : m ≤ n) (hl : m ≤ l.length) (b : UInt8) :
    (l.takeD n b).take m = l.take m := by
  induction m generalizing l n with
  | zero => rfl
  | succ m ih =>
    obtain ⟨n, rfl⟩ : ∃ n', n = n' + 1 := ⟨n - 1, by omega⟩
    cases l with
    | nil => exact absurd hl (Nat.not_succ_le_zero m)
    | cons a l =>
      rw [length_cons] at hl
      rw [takeD_succ, take_succ_cons, take_succ_cons, tail_cons, ih (by omega) (by omega)]
      rfl

theorem bufferBytes_sendBuffer (buf : List UInt8) (hfull : 0 < s.sendOffset →
    s.sendBuffer.length = s.sendOffset) (hle : s.sendOffset ≤ maxFrameLen) :
    (s.bufferBytes buf).2.sendBuffer =
      s.sendBuffer.take s.sendOffset ++ buf.take (s.bufferBytes buf).1 := by
  have hsize : s.sendOffset + min (maxFrameLen - s.sendOffset) buf.length =
      min maxFrameLen (s.sendOffset + buf.length) := by omega
  simp only [NoiseOutput.bufferBytes, hsize]
  have hdrop : (s.sendBuffer.takeD (min maxFrameLen (s.sendOffset + buf.length)) 0).drop
      (min maxFrameLen (s.sendOffset + buf.length)) = [] := by
    apply drop_of_length_le
    rw [takeD_length]
  have htake : (s.sendBuffer.takeD (min maxFrameLen (s.sendOffset + buf.length)) 0).take
      s.sendOffset = s.sendBuffer.take s.sendOffset := by
    apply take_takeD (by omega)
    by_cases hpos : 0 < s.sendOffset
    · exact Nat.le_of_eq (hfull hpos).symm
    · omega
  rw [hdrop, htake, append_nil]

theorem Sending.bufferBytes {sent : List UInt8} (buf : List UInt8)
    (h : Sending snow ps s sent accepted) :
    Sending snow ps (s.bufferBytes buf).2 sent (accepted ++ buf.take (s.bufferBytes buf).1) := by
  have hbuffer := bufferBytes_sendBuffer buf h.full h.offset_le
  have hoffset : (s.bufferBytes buf).2.sendOffset = s.sendOffset + (s.bufferBytes buf).1 := rfl
  have hn : (s.bufferBytes buf).1 = min (maxFrameLen - s.sendOffset) buf.length := rfl
  have hold : (s.sendBuffer.take s.sendOffset).length = s.sendOffset := by
    rw [length_take]
    by_cases hpos : 0 < s.sendOffset
    · have := h.full hpos
      omega
    · omega
  have hlen : (s.bufferBytes buf).2.sendBuffer.length = (s.bufferBytes buf).2.sendOffset := by
    rw [hbuffer, hoffset, length_append, hold, length_take]
    omega
  refine ⟨h.session, h.nonce, h.pending, ?_, fun _ => hlen, ?_, h.payloads⟩
  · rw [take_of_length_le (Nat.le_of_eq hlen), hbuffer, ← append_assoc, ← h.accepted]
  · have := h.offset_le
    omega

/-- A call on the side that writes may have started more messages and written bytes of them. -/
def Advances (snow : Snow) (ps : List (List UInt8)) (pipe : Pipe) (s' : NoiseOutput) (pipe' : Pipe)
    (accepted' : List UInt8) : Prop :=
  Grows pipe pipe' ∧ ∃ more, Sending snow (ps ++ more) s' pipe'.sent accepted'

theorem advances_of_sending {pipe pipe' : Pipe} (hgrows : Grows pipe pipe')
    (h : Sending snow ps s' pipe'.sent accepted) : Advances snow ps pipe s' pipe' accepted := by
  refine ⟨hgrows, [], ?_⟩
  rwa [append_nil]

variable {pipe : Pipe} {answers : List (Answer IoError)}

theorem Sending.pollWrite (buf : List UInt8) (h : Sending snow ps s pipe.sent accepted)
    (hclean : Wire.Clean ⟨pipe, answers⟩) :
    ∃ r s' io', s.pollWrite ⟨pipe, answers⟩ buf = some (r, s', io') ∧
      ((∃ n, r = .ready (.ok n) ∧ Advances snow ps pipe s' io'.pipe (accepted ++ buf.take n)) ∨
        (∀ n, r ≠ .ready (.ok n)) ∧ Advances snow ps pipe s' io'.pipe accepted) := by
  obtain ⟨rest, hrest, hp⟩ := h.pending
  rw [NoiseOutput.pollWrite]
  split
  case isFalse hlt =>
    exact ⟨_, _, _, rfl, .inl ⟨_, rfl, advances_of_sending (.refl pipe) (h.bufferBytes buf)⟩⟩
  case isTrue hfull =>
    rcases hready : s.io.pollReady ⟨pipe, answers⟩ with ⟨r₁, f₁, io₁⟩
    obtain ⟨ws, rest', rfl, hp', hc, -, hws⟩ := pollReady_spec hready hclean hp
    have hsending := h.conserves hrest hc hp'
    match r₁ with
    | .pending | .ready (.error e) =>
      exact ⟨_, _, _, rfl, .inr ⟨nofun, advances_of_sending hc.toGrows hsending⟩⟩
    | .ready (.ok ()) =>
      have hpos : 0 < s.sendOffset := by
        rw [hfull]
        decide
      obtain ⟨f, hstart, hstarted⟩ := hsending.startSend (hws rfl) hpos
      simp only [hstart]
      exact ⟨_, _, _, rfl, .inl ⟨_, rfl, hc.toGrows, _, hstarted.bufferBytes buf⟩⟩

theorem Sending.pollFlush (h : Sending snow ps s pipe.sent accepted)
    (hclean : Wire.Clean ⟨pipe, answers⟩) :
    ∃ r s' io', s.pollFlush ⟨pipe, answers⟩ = some (r, s', io') ∧ io'.Clean ∧
      Advances snow ps pipe s' io'.pipe accepted ∧
      (r = .ready (.ok ()) → s'.sendOffset = 0 ∧ s'.io.writeState = .ready) := by
  obtain ⟨rest, hrest, hp⟩ := h.pending
  rw [NoiseOutput.pollFlush]
  split
  case isFalse hzero =>
    rcases hflush : s.io.pollFlush ⟨pipe, answers⟩ with ⟨r₁, f₁, io₁⟩
    obtain ⟨ws, rest', rfl, hp', hc, hclean', hws⟩ := pollFlush_spec hflush hclean hp
    exact ⟨_, _, _, rfl, hclean', advances_of_sending hc.toGrows (h.conserves hrest hc hp'),
      fun hr => ⟨Nat.eq_zero_of_not_pos hzero, hws hr⟩⟩
  case isTrue hpos =>
    rcases hready : s.io.pollReady ⟨pipe, answers⟩ with ⟨r₁, f₁, io₁⟩
    obtain ⟨ws, rest', rfl, hp', hc, hclean', hws⟩ := pollReady_spec hready hclean hp
    have hsending := h.conserves hrest hc hp'
    match r₁ with
    | .pending | .ready (.error e) =>
      exact ⟨_, _, _, rfl, hclean', advances_of_sending hc.toGrows hsending, nofun⟩
    | .ready (.ok ()) =>
      obtain ⟨f, hstart, hstarted⟩ := hsending.startSend (hws rfl) hpos
      simp only [hstart]
      obtain ⟨rest₂, hrest₂, hp₂⟩ := hstarted.pending
      rcases hflush : f.pollFlush io₁ with ⟨r₂, f₂, io₂⟩
      obtain ⟨ws₂, rest₃, rfl, hp₃, hc₂, hclean₂, hws₂⟩ := pollFlush_spec hflush hclean' hp₂
      have hlast := hstarted.conserves hrest₂ hc₂ hp₃
      exact ⟨_, _, _, rfl, hclean₂, ⟨hc.toGrows.trans hc₂.toGrows, _, hlast⟩,
        fun hr => ⟨rfl, hws₂ hr⟩⟩

theorem Sending.pollClose (h : Sending snow ps s pipe.sent accepted)
    (hclean : Wire.Clean ⟨pipe, answers⟩) :
    ∃ r s' io', s.pollClose ⟨pipe, answers⟩ = some (r, s', io') ∧
      Advances snow ps pipe s' io'.pipe accepted := by
  obtain ⟨r, s₁, io₁, hflush, hclean', ⟨hgrows, more, hsending⟩, -⟩ := h.pollFlush hclean
  rw [NoiseOutput.pollClose, hflush]
  match r with
  | .pending | .ready (.error e) => exact ⟨_, _, _, rfl, hgrows, more, hsending⟩
  | .ready (.ok ()) =>
    obtain ⟨rest, hrest, hp⟩ := hsending.pending
    rcases hclose : s₁.io.pollClose io₁ with ⟨r₂, f₂, io₂⟩
    obtain ⟨ws, rest', rfl, hp', hc⟩ := pollClose_spec hclose hclean' hp
    simp only [hclose]
    exact ⟨_, _, _, rfl, hgrows.trans hc.toGrows, more, hsending.conserves hrest hc hp'⟩

end Libp2pRs.Noise
