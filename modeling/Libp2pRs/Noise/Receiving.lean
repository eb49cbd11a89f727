import Libp2pRs.Noise.Sending

/-!
# The side of a Noise stream that reads

The reader has completed the first `k` frames of the stream and stands somewhere in the next one.
The bytes of the completed messages were handed out or are in the receive buffer.
-/

namespace Libp2pRs.Noise

open Lib Lib.Pipe Libp2pRs.Core List Wire

variable {snow : Snow} {ps : List (List UInt8)} {k : Nat} {io io' : Wire IoError}
  {f f' : NoiseFramed} {s s' : NoiseOutput} {pipe : Pipe}

/-! ## Reading a frame -/

theorem readFrameLen_spec {buf buf' : List UInt8} {r : Poll (Except IoError (Option Nat))}
    (h : readFrameLen io buf = (r, buf', io')) (hclean : io.Clean) (hbuf : buf.length < 2) :
    ∃ more, buf' = buf ++ more ∧ io.pipe.Reads more io'.pipe ∧ io'.Clean ∧
      ((r = .pending ∧ buf'.length < 2 ∧ (io.Eager → io'.pipe.available = [])) ∨
        (r = .ready (.ok none) ∧ buf'.length < 2 ∧ io'.pipe.closed ∧ io'.pipe.available = []) ∨
        (r = .ready (.ok (some (beNat buf'))) ∧ buf'.length = 2 ∧ (io.Eager → io'.Eager))) := by
  fun_induction readFrameLen io buf with
  | case1 io buf io₁ hread =>
    have hpipe := pollRead_pending hread
    have hclean' := hclean.of_tail (pollRead_answers hread)
    cases h
    refine ⟨[], (append_nil _).symm, .of_eq hpipe, hclean', .inl ⟨rfl, hbuf, fun heager => ?_⟩⟩
    rw [hpipe]
    by_contra hsome
    exact (heager.pollRead hread hsome (by omega)).1 rfl
  | case2 io buf e io₁ hread => exact absurd (pollRead_error hread).2 (hclean e)
  | case3 io buf io₁ hread =>
    obtain ⟨-, hreads, hnil⟩ := pollRead_ok hread
    have hclean' := hclean.of_tail (pollRead_answers hread)
    cases h
    obtain hzero | ⟨havailable, hclosed⟩ := hnil rfl
    · omega
    · exact ⟨[], (append_nil _).symm, hreads, hclean',
        .inr (.inl ⟨rfl, hbuf, hclosed, havailable⟩)⟩
  | case4 io buf data io₁ hread hdata htwo =>
    obtain ⟨-, hreads, -⟩ := pollRead_ok hread
    have hclean' := hclean.of_tail (pollRead_answers hread)
    cases h
    exact ⟨data, rfl, hreads, hclean',
      .inr (.inr ⟨rfl, htwo, fun heager => heager.pollRead_ok hread hdata⟩)⟩
  | case5 io buf data io₁ hread hdata htwo ih =>
    obtain ⟨hle, hreads, -⟩ := pollRead_ok hread
    have hclean' := hclean.of_tail (pollRead_answers hread)
    have hshort : (buf ++ data).length < 2 := by
      rw [length_append] at htwo ⊢
      omega
    obtain ⟨more, rfl, hreads', hclean'', hcases⟩ := ih h hclean' hshort
    refine ⟨data ++ more, append_assoc _ _ _, hreads.trans hreads', hclean'', ?_⟩
    obtain ⟨hr, hlt, hnone⟩ | hnone | ⟨hr, htwo', heager⟩ := hcases
    · exact .inl ⟨hr, hlt, fun h => hnone (h.pollRead_ok hread hdata)⟩
    · exact .inr (.inl hnone)
    · exact .inr (.inr ⟨hr, htwo', fun h => heager (h.pollRead_ok hread hdata)⟩)

/-! ## The side that reads -/

/-- Where a reader stands behind the first `k` frames: the bytes of the next frame it has read. -/
inductive Stands (snow : Snow) (ps : List (List UInt8)) (k : Nat) (pipe : Pipe) :
    ReadState → List UInt8 → List UInt8 → Prop where
  | ready {rb : List UInt8} : Stands snow ps k pipe .ready rb []
  | readLen {rb buf : List UInt8} (hbuf : buf.length < 2) : Stands snow ps k pipe (.readLen buf) rb buf
  | readData {rb p : List UInt8} {off : Nat} (hp : ps[k]? = some p) (hrb : rb.length = p.length + 16)
      (hoff : off < p.length + 16) :
      Stands snow ps k pipe (.readData (p.length + 16) off) rb
        (beBytes 2 (p.length + 16) ++ rb.take off)
  | eof {rb part : List UInt8} {expected : Bool}
      (hshort : part.length < 2 ∨ ∃ p, ps[k]? = some p ∧ part.length < p.length + 18)
      (hclosed : pipe.closed) (hnone : pipe.available = []) :
      Stands snow ps k pipe (.eof expected) rb part

variable {rb : List UInt8}

theorem Stands.short {pipe : Pipe} {rs : ReadState} {part p : List UInt8}
    (h : Stands snow ps k pipe rs rb part) (hp : ps[k]? = some p) :
    part.length < (frame snow k p).length := by
  rw [length_frame]
  cases h with
  | ready =>
    rw [length_nil]
    omega
  | readLen hbuf => omega
  | readData hp' hrb hoff =>
    rw [hp] at hp'
    cases hp'
    rw [length_append, length_beBytes, length_take]
    omega
  | eof hshort =>
    obtain hshort | ⟨p', hp', hshort⟩ := hshort
    · omega
    · rw [hp] at hp'
      cases hp'
      exact hshort

theorem Stands.of_readData {pipe : Pipe} {len off : Nat} {part : List UInt8}
    (h : Stands snow ps k pipe (.readData len off) rb part) :
    ∃ p, ps[k]? = some p ∧ len = p.length + 16 ∧ rb.length = len ∧ off < len ∧
      part = beBytes 2 len ++ rb.take off := by
  cases h with
  | readData hp hrb hoff => exact ⟨_, hp, rfl, hrb, hoff, rfl⟩

/-- The reader has completed the first `k` frames. -/
structure Incoming (snow : Snow) (ps : List (List UInt8)) (k : Nat) (f : NoiseFramed) (pipe : Pipe) :
    Prop where
  session : f.session.receiving = snow
  nonce : f.session.recvNonce = k
  le : k ≤ ps.length
  stands : ∃ part, pipe.delivered = frames (frame snow) 0 (ps.take k) ++ part ∧
    Stands snow ps k pipe f.readState f.readBuffer part

theorem Incoming.grows {pipe pipe' : Pipe} {more : List (List UInt8)} (h : Incoming snow ps k f pipe)
    (hg : Grows pipe pipe') : Incoming snow (ps ++ more) k f pipe' := by
  obtain ⟨part, hpart, hstands⟩ := h.stands
  have hget : ∀ p, ps[k]? = some p → (ps ++ more)[k]? = some p := by
    intro p hp
    obtain ⟨hlt, -⟩ := List.getElem?_eq_some_iff.mp hp
    rw [getElem?_append_left hlt]
    exact hp
  refine ⟨h.session, h.nonce, ?_, part, ?_, ?_⟩
  · rw [length_append]
    have := h.le
    omega
  · rw [hg.delivered, take_append_of_le_length h.le]
    exact hpart
  · generalize f.readState = rs, f.readBuffer = rb at hstands
    cases hstands with
    | ready => exact .ready
    | readLen hbuf => exact .readLen hbuf
    | readData hp hrb hoff => exact .readData (hget _ hp) hrb hoff
    | eof hshort hclosed hnone =>
      obtain ⟨hsent, hclosed'⟩ := hg.frozen hclosed
      refine .eof ?_ hclosed' ?_
      · exact hshort.imp_right fun ⟨p, hp, hlt⟩ => ⟨p, hget p hp, hlt⟩
      · rw [available, hsent, hg.taken]
        exact hnone

theorem length_of_delivered {buf : List UInt8} (hsent : pipe.sent <+: frames (frame snow) 0 ps)
    (hk : k ≤ ps.length) (hdelivered : pipe.delivered = frames (frame snow) 0 (ps.take k) ++ buf)
    (hbuf : buf.length = 2) : ∃ p, ps[k]? = some p ∧ buf = beBytes 2 (p.length + 16) := by
  obtain ⟨p, hp, hprefix⟩ := exists_next_of_delivered hsent hk pipe.delivered_prefix hdelivered
    (ne_nil_of_length_pos (by omega))
  refine ⟨p, hp, ?_⟩
  rw [frame, append_assoc] at hprefix
  have hlen : buf.length = (beBytes 2 (p.length + 16)).length := by rw [hbuf, length_beBytes]
  have hpart := List.prefix_of_prefix_length_le hprefix (List.prefix_append _ _) (Nat.le_of_eq hlen)
  exact hpart.eq_of_length hlen

theorem message_of_delivered {p : List UInt8} (hsent : pipe.sent <+: frames (frame snow) 0 ps)
    (hp : ps[k]? = some p) (hdelivered : pipe.delivered =
      frames (frame snow) 0 (ps.take k) ++ (beBytes 2 (p.length + 16) ++ rb))
    (hrb : rb.length = p.length + 16) : rb = snow.encrypt k p := by
  have hlen : (beBytes 2 (p.length + 16) ++ rb).length = (frame snow k p).length := by
    rw [length_frame, length_append, length_beBytes, hrb]
    omega
  have hpos : 0 < (beBytes 2 (p.length + 16) ++ rb).length := by
    rw [hlen, length_frame]
    omega
  exact append_cancel_left
    (eq_frame_of_delivered hsent hp pipe.delivered_prefix hdelivered hlen hpos)

theorem readFrameLen_some {buf buf' : List UInt8} {n : Nat}
    (h : readFrameLen io buf = (.ready (.ok (some n)), buf', io')) (hclean : io.Clean)
    (hbuf : buf.length < 2) (hsent : io.pipe.sent <+: frames (frame snow) 0 ps)
    (hps : ∀ p ∈ ps, p.length ≤ maxFrameLen) (hk : k ≤ ps.length)
    (hdelivered : io.pipe.delivered = frames (frame snow) 0 (ps.take k) ++ buf) :
    ∃ p, ps[k]? = some p ∧ n = p.length + 16 ∧
      io'.pipe.delivered = frames (frame snow) 0 (ps.take k) ++ beBytes 2 (p.length + 16) ∧
      io'.pipe.sent = io.pipe.sent ∧ io'.Clean ∧ (io.Eager → io'.Eager) := by
  obtain ⟨more, rfl, hreads, hclean', hcases⟩ := readFrameLen_spec h hclean hbuf
  obtain ⟨hr, -⟩ | ⟨hr, -⟩ | ⟨hr, htwo, heager⟩ := hcases
  · cases hr
  · cases hr
  · cases hr
    have hdelivered' := hreads.delivered
    rw [hdelivered, append_assoc] at hdelivered'
    rw [← hreads.sent] at hsent
    obtain ⟨p, hp, hlen⟩ := length_of_delivered hsent hk hdelivered' htwo
    refine ⟨p, hp, ?_, ?_, hreads.sent, hclean', heager⟩
    · have hle := hps p (mem_of_getElem? hp)
      simp only [maxFrameLen, maxNoiseMsgLen, extraEncryptSpace] at hle
      rw [hlen]
      apply beNat_beBytes
      omega
    · rw [hdelivered', hlen]

theorem readData_some {data : List UInt8} {len off : Nat}
    (h : io.pollRead (len - off) = (.ready (.ok data), io')) (hrb : rb.length = len)
    (hoff : off < len) (hdelivered : io.pipe.delivered =
      frames (frame snow) 0 (ps.take k) ++ (beBytes 2 len ++ rb.take off)) :
    off + data.length ≤ len ∧
      (rb.take off ++ data ++ rb.drop (off + data.length)).length = len ∧
      io'.pipe.delivered = frames (frame snow) 0 (ps.take k) ++
        (beBytes 2 len ++
          (rb.take off ++ data ++ rb.drop (off + data.length)).take (off + data.length)) := by
  obtain ⟨hle, hreads, -⟩ := pollRead_ok h
  have hfront : (rb.take off ++ data).length = off + data.length := by
    rw [length_append, length_take_of_le (by omega)]
  refine ⟨by omega, ?_, ?_⟩
  · rw [length_append, hfront, length_drop]
    omega
  · rw [take_left' hfront, hreads.delivered, hdelivered]
    simp only [append_assoc]

theorem readData_done {session : TransportState} {data part : List UInt8} {len off : Nat}
    (h : io.pollRead (len - off) = (.ready (.ok data), io')) (hdone : len = off + data.length)
    (hsession : session.receiving = snow) (hnonce : session.recvNonce = k)
    (hsent : io.pipe.sent <+: frames (frame snow) 0 ps)
    (hdelivered : io.pipe.delivered = frames (frame snow) 0 (ps.take k) ++ part)
    (hstands : Stands snow ps k io.pipe (.readData len off) rb part) :
    ∃ p, ps[k]? = some p ∧
      session.readMessage (rb.take off ++ data ++ rb.drop (off + data.length)) =
        some (p, { session with recvNonce := k + 1 }) ∧
      io'.pipe.delivered = frames (frame snow) 0 (ps.take (k + 1)) := by
  obtain ⟨p, hp, hlen, hrb, hoff, rfl⟩ := hstands.of_readData
  obtain ⟨-, hreads, -⟩ := pollRead_ok h
  obtain ⟨-, hrb', hdelivered'⟩ := readData_some h hrb hoff hdelivered
  rw [← hdone] at hrb' hdelivered' ⊢
  generalize rb.take off ++ data ++ rb.drop len = message at hrb' hdelivered' ⊢
  rw [take_of_length_le (Nat.le_of_eq hrb'), hlen] at hdelivered'
  rw [← hreads.sent] at hsent
  have hmessage := message_of_delivered hsent hp hdelivered' (hrb'.trans hlen)
  refine ⟨p, hp, ?_, ?_⟩
  · rw [TransportState.readMessage, hsession, hnonce, hmessage, snow.decrypt_encrypt]
    rfl
  · rw [hdelivered', hmessage, frames_take_succ hp]
    rfl

/-- The outcome of reading on: nothing yet, the end of the stream, or the next payload. -/
def ReadsOn (snow : Snow) (ps : List (List UInt8)) (k : Nat) (io : Wire IoError)
    (r : Poll (Option (Except IoError (List UInt8)))) (f' : NoiseFramed) (io' : Wire IoError) : Prop :=
  io'.pipe.sent = io.pipe.sent ∧ io'.Clean ∧
    ((r = .pending ∧ Incoming snow ps k f' io'.pipe ∧ (io.Eager → io'.pipe.available = [])) ∨
      ((r = .ready none ∨ ∃ e, r = .ready (some (.error e))) ∧
        Incoming snow ps k f' io'.pipe ∧ io'.pipe.closed ∧ io'.pipe.available = []) ∨
      ∃ p, r = .ready (some (.ok p)) ∧ ps[k]? = some p ∧
        Incoming snow ps (k + 1) f' io'.pipe ∧ (io.Eager → io'.Eager))

theorem ReadsOn.of_step {io₁ : Wire IoError} {r : Poll (Option (Except IoError (List UInt8)))}
    (h : ReadsOn snow ps k io₁ r f' io') (hsent : io₁.pipe.sent = io.pipe.sent)
    (heager : io.Eager → io₁.Eager) : ReadsOn snow ps k io r f' io' := by
  obtain ⟨hsent', hclean, ⟨hr, hin, hnone⟩ | hend | ⟨p, hr, hp, hin, heager'⟩⟩ := h
  · exact ⟨hsent'.trans hsent, hclean, .inl ⟨hr, hin, fun h => hnone (heager h)⟩⟩
  · exact ⟨hsent'.trans hsent, hclean, .inr (.inl hend)⟩
  · exact ⟨hsent'.trans hsent, hclean,
      .inr (.inr ⟨p, hr, hp, hin, fun h => heager' (heager h)⟩)⟩

theorem pollNext_spec {r : Poll (Option (Except IoError (List UInt8)))}
    (h : f.pollNext io = (r, f', io')) (hin : Incoming snow ps k f io.pipe)
    (hsent : io.pipe.sent <+: frames (frame snow) 0 ps)
    (hps : ∀ p ∈ ps, p.length ≤ maxFrameLen) (hclean : io.Clean) :
    ReadsOn snow ps k io r f' io' := by
  obtain ⟨hsession, hnonce, hle, part, hpart, hstands⟩ := hin
  fun_induction NoiseFramed.pollNext f io generalizing part with
  | case1 f io hstate ih =>
    rw [hstate] at hstands
    cases hstands
    exact ih h hsent hclean hsession hnonce [] hpart (.readLen (by decide))
  | case2 f io buf hstate buf' io₁ hlen ih =>
    rw [hstate] at hstands
    cases hstands with
    | readLen hbuf =>
      obtain ⟨p, -, hn, -⟩ := readFrameLen_some hlen hclean hbuf hsent hps hle hpart
      omega
  | case3 f io buf hstate n buf' io₁ hlen hn ih =>
    rw [hstate] at hstands
    cases hstands with
    | readLen hbuf =>
      obtain ⟨p, hp, rfl, hdelivered, hsent', hclean', heager⟩ :=
        readFrameLen_some hlen hclean hbuf hsent hps hle hpart
      have hnext : Stands snow ps k io₁.pipe (.readData (p.length + 16) 0)
          (f.readBuffer.takeD (p.length + 16) 0) (beBytes 2 (p.length + 16) ++ []) :=
        .readData hp (takeD_length _ _ _) (by omega)
      refine ReadsOn.of_step ?_ hsent' heager
      exact ih h (hsent' ▸ hsent) hclean' hsession hnonce _ hdelivered hnext
  | case4 f io buf hstate buf' io₁ hlen =>
    rw [hstate] at hstands
    cases hstands with
    | readLen hbuf =>
      obtain ⟨more, rfl, hreads, hclean', hcases⟩ := readFrameLen_spec hlen hclean hbuf
      obtain ⟨hr, -⟩ | ⟨-, hshort, hclosed, hnone⟩ | ⟨hr, -⟩ := hcases
      · cases hr
      · cases h
        have hdelivered := hreads.delivered
        rw [hpart, append_assoc] at hdelivered
        exact ⟨hreads.sent, hclean', .inr (.inl ⟨.inl rfl, ⟨hsession, hnonce, hle, _, hdelivered,
          .eof (.inl hshort) hclosed hnone⟩, hclosed, hnone⟩)⟩
      · cases hr
  | case5 f io buf hstate e buf' io₁ hlen =>
    rw [hstate] at hstands
    cases hstands with
    | readLen hbuf =>
      obtain ⟨more, rfl, hreads, hclean', hcases⟩ := readFrameLen_spec hlen hclean hbuf
      obtain ⟨hr, -⟩ | ⟨hr, -⟩ | ⟨hr, -⟩ := hcases
      all_goals cases hr
  | case6 f io buf hstate buf' io₁ hlen =>
    rw [hstate] at hstands
    cases hstands with
    | readLen hbuf =>
      obtain ⟨more, rfl, hreads, hclean', hcases⟩ := readFrameLen_spec hlen hclean hbuf
      obtain ⟨-, hshort, hnone⟩ | ⟨hr, -⟩ | ⟨hr, -⟩ := hcases
      · cases h
        have hdelivered := hreads.delivered
        rw [hpart, append_assoc] at hdelivered
        exact ⟨hreads.sent, hclean', .inl ⟨rfl, ⟨hsession, hnonce, hle, _, hdelivered,
          .readLen hshort⟩, hnone⟩⟩
      · cases hr
      · cases hr
  | case7 f io len off hstate io₁ hread =>
    have hpipe := pollRead_pending hread
    have hclean' := hclean.of_tail (pollRead_answers hread)
    cases h
    have hoff : len - off ≠ 0 := by
      rw [hstate] at hstands
      cases hstands
      omega
    refine ⟨by rw [hpipe], hclean', .inl ⟨rfl, ?_, fun heager => ?_⟩⟩
    · rw [hpipe]
      exact ⟨hsession, hnonce, hle, part, hpart, hstands⟩
    · rw [hpipe]
      by_contra hsome
      exact (heager.pollRead hread hsome hoff).1 rfl
  | case8 f io len off hstate e io₁ hread => exact absurd (pollRead_error hread).2 (hclean e)
  | case9 f io len off hstate io₁ hread =>
    have hclean' := hclean.of_tail (pollRead_answers hread)
    obtain ⟨-, hreads, hnil⟩ := pollRead_ok hread
    have hdelivered := hreads.delivered
    rw [append_nil, hpart] at hdelivered
    cases h
    rw [hstate] at hstands
    cases hstands with
    | readData hp hrb hoff =>
      obtain hzero | ⟨hnone, hclosed⟩ := hnil rfl
      · omega
      · refine ⟨hreads.sent, hclean', .inr (.inl ⟨.inr ⟨_, rfl⟩, ⟨hsession, hnonce, hle, _,
          hdelivered, .eof (.inr ⟨_, hp, ?_⟩) hclosed hnone⟩, hclosed, hnone⟩)⟩
        rw [length_append, length_beBytes, length_take]
        omega
  | case10 f io off data io₁ hdata readBuffer payload session hmsg hstate hread =>
    have hclean' := hclean.of_tail (pollRead_answers hread)
    obtain ⟨-, hreads, -⟩ := pollRead_ok hread
    rw [hstate] at hstands
    obtain ⟨p, hp, hread', hdone⟩ :=
      readData_done hread rfl hsession hnonce hsent hpart hstands
    rw [hread'] at hmsg
    cases hmsg
    cases h
    refine ⟨hreads.sent, hclean', .inr (.inr ⟨_, rfl, hp, ?_,
      fun heager => heager.pollRead_ok hread hdata⟩)⟩
    obtain ⟨hlt, -⟩ := List.getElem?_eq_some_iff.mp hp
    refine ⟨hsession, rfl, hlt, [], ?_, .ready⟩
    rw [append_nil]
    exact hdone
  | case11 f io off data io₁ hdata readBuffer hmsg hstate hread =>
    rw [hstate] at hstands
    obtain ⟨p, -, hread', -⟩ := readData_done hread rfl hsession hnonce hsent hpart hstands
    rw [hread'] at hmsg
    cases hmsg
  | case12 f io len off hstate data io₁ hread hdata readBuffer hlen ih =>
    have hclean' := hclean.of_tail (pollRead_answers hread)
    obtain ⟨-, hreads, -⟩ := pollRead_ok hread
    rw [hstate] at hstands
    cases hstands with
    | readData hp hrb hoff =>
      obtain ⟨hle', hrb', hdelivered⟩ := readData_some hread hrb hoff hpart
      refine ReadsOn.of_step ?_ hreads.sent fun heager => heager.pollRead_ok hread hdata
      exact ih h (hreads.sent ▸ hsent) hclean' hsession hnonce _ hdelivered
        (.readData hp hrb' (by omega))
  | case13 f io hstate =>
    cases h
    have hend := hstands
    rw [hstate] at hend
    cases hend with
    | eof hshort hclosed hnone =>
      exact ⟨rfl, hclean, .inr (.inl ⟨.inl rfl, ⟨hsession, hnonce, hle, part, hpart, hstands⟩,
        hclosed, hnone⟩)⟩
  | case14 f io hstate =>
    cases h
    have hend := hstands
    rw [hstate] at hend
    cases hend with
    | eof hshort hclosed hnone =>
      exact ⟨rfl, hclean, .inr (.inl ⟨.inr ⟨_, rfl⟩,
        ⟨hsession, hnonce, hle, part, hpart, hstands⟩, hclosed, hnone⟩)⟩
  | case15 f io hstate =>
    rw [hstate] at hstands
    cases hstands

/-- The bytes of the completed messages that were not read yet are in the receive buffer. -/
structure Receiving (snow : Snow) (ps : List (List UInt8)) (k : Nat) (s : NoiseOutput) (pipe : Pipe)
    (received : List UInt8) : Prop extends Incoming snow ps k s.io pipe where
  received : received ++ s.recvBuffer.drop s.recvOffset = (ps.take k).flatten
  offset_lt : s.recvBuffer ≠ [] → s.recvOffset < s.recvBuffer.length

variable {received : List UInt8}

theorem Receiving.handOut {size : Nat} (h : Receiving snow ps k s pipe received)
    (hbuffer : 0 < s.recvBuffer.length) (hsize : 0 < size) :
    (s.recvBuffer.drop s.recvOffset).take (min (s.recvBuffer.length - s.recvOffset) size) ≠ [] ∧
      Receiving snow ps k
        { s with
          recvOffset := s.recvOffset + min (s.recvBuffer.length - s.recvOffset) size
          recvBuffer :=
            if s.recvBuffer.length = s.recvOffset + min (s.recvBuffer.length - s.recvOffset) size
            then [] else s.recvBuffer } pipe
        (received ++ (s.recvBuffer.drop s.recvOffset).take
          (min (s.recvBuffer.length - s.recvOffset) size)) := by
  have hoffset := h.offset_lt (ne_nil_of_length_pos hbuffer)
  generalize hn : min (s.recvBuffer.length - s.recvOffset) size = n
  constructor
  · apply ne_nil_of_length_pos
    rw [length_take, length_drop]
    omega
  · refine ⟨h.toIncoming, ?_, ?_⟩
    · rw [append_assoc, ← h.received]
      congr 1
      have hsplit : (s.recvBuffer.drop s.recvOffset).take n ++ s.recvBuffer.drop (s.recvOffset + n) =
          s.recvBuffer.drop s.recvOffset := by
        rw [← drop_drop, take_append_drop]
      split
      case isTrue hall =>
        rw [← hall, drop_length] at hsplit
        rw [drop_nil]
        exact hsplit
      case isFalse => exact hsplit
    · dsimp only
      split
      case isTrue => exact fun hne => absurd rfl hne
      case isFalse hne =>
        intro _
        omega

theorem Receiving.pollRead {size : Nat} {r : Poll (Except IoError (List UInt8))}
    (hr : Receiving snow ps k s io.pipe received) (h : s.pollRead io size = (r, s', io'))
    (hsize : 0 < size) (hsent : io.pipe.sent <+: frames (frame snow) 0 ps)
    (hps : ∀ p ∈ ps, p.length ≤ maxFrameLen) (hclean : io.Clean) :
    ∃ k', io'.pipe.sent = io.pipe.sent ∧
      ((∃ data, data ≠ [] ∧ r = .ready (.ok data) ∧
          Receiving snow ps k' s' io'.pipe (received ++ data)) ∨
        Receiving snow ps k' s' io'.pipe received ∧ s'.recvBuffer = [] ∧
          ((r = .pending ∧ (io.Eager → io'.pipe.available = [])) ∨
            (r = .ready (.ok []) ∨ ∃ e, r = .ready (.error e)) ∧
              io'.pipe.closed ∧ io'.pipe.available = [])) := by
  fun_induction NoiseOutput.pollRead s io size generalizing k with
  | case1 s io len off hlen =>
    cases h
    obtain ⟨hne, hr'⟩ := hr.handOut hlen hsize
    exact ⟨k, rfl, .inl ⟨_, hne, rfl, hr'⟩⟩
  | case2 s io len hlen f io₁ =>
    rename_i hnext
    cases h
    obtain ⟨hsent', -, hcases⟩ := pollNext_spec hnext hr.toIncoming hsent hps hclean
    obtain ⟨-, hin, hnone⟩ | ⟨hr' | ⟨e, hr'⟩, -⟩ | ⟨p, hr', -⟩ := hcases
    · exact ⟨k, hsent', .inr ⟨⟨hin, hr.received, hr.offset_lt⟩,
        eq_nil_of_length_eq_zero (Nat.eq_zero_of_not_pos hlen), .inl ⟨rfl, hnone⟩⟩⟩
    all_goals cases hr'
  | case3 s io len hlen f io₁ =>
    rename_i hnext
    cases h
    obtain ⟨hsent', -, hcases⟩ := pollNext_spec hnext hr.toIncoming hsent hps hclean
    obtain ⟨hr', -⟩ | ⟨-, hin, hend⟩ | ⟨p, hr', -⟩ := hcases
    · cases hr'
    · exact ⟨k, hsent', .inr ⟨⟨hin, hr.received, hr.offset_lt⟩,
        eq_nil_of_length_eq_zero (Nat.eq_zero_of_not_pos hlen), .inr ⟨.inl rfl, hend⟩⟩⟩
    · cases hr'
  | case4 s io len hlen e f io₁ =>
    rename_i hnext
    cases h
    obtain ⟨hsent', -, hcases⟩ := pollNext_spec hnext hr.toIncoming hsent hps hclean
    obtain ⟨hr', -⟩ | ⟨-, hin, hend⟩ | ⟨p, hr', -⟩ := hcases
    · cases hr'
    · exact ⟨k, hsent', .inr ⟨⟨hin, hr.received, hr.offset_lt⟩,
        eq_nil_of_length_eq_zero (Nat.eq_zero_of_not_pos hlen), .inr ⟨.inr ⟨e, rfl⟩, hend⟩⟩⟩
    · cases hr'
  | case5 s io len hlen payload f io₁ hnext =>
    rename_i ih
    obtain ⟨hsent', hclean', hcases⟩ := pollNext_spec hnext hr.toIncoming hsent hps hclean
    obtain ⟨hr', -⟩ | ⟨hr' | ⟨e, hr'⟩, -⟩ | ⟨p, hr', hp, hin, heager⟩ := hcases
    · cases hr'
    · cases hr'
    · cases hr'
    · cases hr'
      have hnil : s.recvBuffer = [] :=
        eq_nil_of_length_eq_zero (Nat.eq_zero_of_not_pos hlen)
      have hnext : Receiving snow ps (k + 1)
          { s with io := f, recvBuffer := payload, recvOffset := 0 } io₁.pipe received := by
        refine ⟨hin, ?_, length_pos_of_ne_nil⟩
        have hold := hr.received
        rw [hnil, drop_nil, append_nil] at hold
        rw [take_add_one, hp, flatten_append, ← hold]
        exact congrArg (received ++ ·) (append_nil _).symm
      obtain ⟨k', hsent'', hcases⟩ := ih hnext h (hsent' ▸ hsent) hclean'
      refine ⟨k', hsent''.trans hsent', ?_⟩
      obtain hdata | ⟨hr'', hnil', ⟨hpending, hnone⟩ | hend⟩ := hcases
      · exact .inl hdata
      · exact .inr ⟨hr'', hnil', .inl ⟨hpending, fun h => hnone (heager h)⟩⟩
      · exact .inr ⟨hr'', hnil', .inr hend⟩

end Libp2pRs.Noise
