import Libp2pRs.Core.ReadWrite
import Libp2pRs.Lib.Keystream
import Libp2pRs.Lib.Network
import Libp2pRs.Lib.Pipe
import Libp2pRs.Lib.Runs

/-!
# Private networks

The two sides of a connection exchange nonces and then encrypt what they write with the keystream
of the shared key and their own nonce. A `CryptWriter` keeps the encrypted bytes that the socket has
not taken yet. The cipher XSalsa20 is a parameter: a keystream for each key and nonce.
-/

namespace Libp2pRs.Core.Pnet

open Lib Lib.Pipe List

abbrev PreSharedKey := List.Vector UInt8 32

abbrev Nonce := List.Vector UInt8 24

/-! ## Writing -/

structure CryptWriter where
  buf : List UInt8
  cipher : StreamCipher

def brokenPipe : IoError := .ofKind .brokenPipe

/-- The loop of `poll_flush_buf`, with the number of bytes of the buffer that were written. -/
def flushLoop (buf : List UInt8) (written : Nat) (inner : Wire IoError) :
    Poll (Except IoError Unit) × Nat × Wire IoError :=
  if written < buf.length then
    match _h : inner.pollWrite brokenPipe (buf.drop written) with
    | (.ready (.ok n), inner') =>
      if n > 0 then flushLoop buf (written + n) inner'
      else (.ready (.error (.new .writeZero "Failed to write buffered data")), written, inner')
    | (.ready (.error e), inner') =>
      if e.kind ≠ .interrupted then (.ready (.error e), written, inner')
      else flushLoop buf written inner'
    | (.pending, inner') => (.pending, written, inner')
  else (.ready (.ok ()), written, inner)
termination_by inner.answers.length
decreasing_by all_goals exact Wire.pollWrite_answers_lt _h

def pollFlushBuf (inner : Wire IoError) (buf : List UInt8) :
    Poll (Except IoError Unit) × List UInt8 × Wire IoError :=
  let (ret, written, inner) := flushLoop buf 0 inner
  (ret, buf.drop written, inner)

namespace CryptWriter

/-- `poll_write`. Writing to a vector takes all bytes. An unfinished flush at the end does not
matter. -/
def pollWrite (this : CryptWriter) (inner : Wire IoError) (buf : List UInt8) :
    Poll (Except IoError Nat) × CryptWriter × Wire IoError :=
  match pollFlushBuf inner this.buf with
  | (.pending, left, inner) => (.pending, { this with buf := left }, inner)
  | (.ready (.error e), left, inner) => (.ready (.error e), { this with buf := left }, inner)
  | (.ready (.ok ()), left, inner) =>
    let count := buf.length
    let (encrypted, cipher) := this.cipher.apply ((left ++ buf).take count)
    match pollFlushBuf inner (encrypted ++ (left ++ buf).drop count) with
    | (.ready (.error e), left, inner) => (.ready (.error e), ⟨left, cipher⟩, inner)
    | (_, left, inner) => (.ready (.ok count), ⟨left, cipher⟩, inner)

def pollFlush (this : CryptWriter) (inner : Wire IoError) :
    Poll (Except IoError Unit) × CryptWriter × Wire IoError :=
  match pollFlushBuf inner this.buf with
  | (.ready (.ok ()), left, inner) =>
    let (ret, inner) := inner.pollFlush
    (ret, { this with buf := left }, inner)
  | (ret, left, inner) => (ret, { this with buf := left }, inner)

def pollClose (this : CryptWriter) (inner : Wire IoError) :
    Poll (Except IoError Unit) × CryptWriter × Wire IoError :=
  match pollFlushBuf inner this.buf with
  | (.ready (.ok ()), left, inner) =>
    let (ret, inner) := inner.pollClose
    (ret, { this with buf := left }, inner)
  | (ret, left, inner) => (ret, { this with buf := left }, inner)

end CryptWriter

structure PnetOutput where
  inner : CryptWriter
  readCipher : StreamCipher

namespace PnetOutput

def new (writeCipher readCipher : StreamCipher) : PnetOutput := ⟨⟨[], writeCipher⟩, readCipher⟩

/-- `poll_read` with a buffer of the given size. -/
def pollRead (this : PnetOutput) (socket : Wire IoError) (size : Nat) :
    Poll (Except IoError (List UInt8)) × PnetOutput × Wire IoError :=
  match socket.pollRead size with
  | (.ready (.ok data), socket) =>
    let (decrypted, cipher) := this.readCipher.apply data
    (.ready (.ok decrypted), { this with readCipher := cipher }, socket)
  | (result, socket) => (result, this, socket)

end PnetOutput

/-! ## Handshake -/

inductive PnetError where
  | handshakeError (e : IoError)
  | ioError (e : IoError)

section Handshake

variable (xsalsa20 : PreSharedKey → Nonce → Nat → UInt8)

def nonceOf (bytes : List UInt8) : Nonce :=
  ⟨bytes.takeD 24 0, List.takeD_length 24 bytes 0⟩

def handshake (key : PreSharedKey) (localNonce : Nonce) : Io PnetError PnetOutput := do
  (Io.writeAll (.ofKind .writeZero) localNonce.toList).mapError .handshakeError
  let remoteNonce ← (Io.readExact (.ofKind .unexpectedEof) 24).mapError .handshakeError
  return .new ⟨xsalsa20 key localNonce, 0⟩ ⟨xsalsa20 key (nonceOf remoteNonce), 0⟩

theorem nonceOf_toList (nonce : Nonce) : nonceOf nonce.toList = nonce := by
  apply Subtype.ext
  have hlen := nonce.toList_length
  show nonce.toList.takeD 24 0 = nonce.toList
  rw [takeD_eq_take 0 (Nat.le_of_eq hlen.symm), take_of_length_le (Nat.le_of_eq hlen)]

theorem handshake_settles (key : PreSharedKey) (n₁ n₂ : Nonce) :
    (Net.start (handshake xsalsa20 key n₁) (handshake xsalsa20 key n₂)).Settles
      ⟨.ret (.new ⟨xsalsa20 key n₁, 0⟩ ⟨xsalsa20 key n₂, 0⟩),
        .ret (.new ⟨xsalsa20 key n₂, 0⟩ ⟨xsalsa20 key n₁, 0⟩), [], [], false, false⟩ := by
  have heven : ∀ n, (handshake xsalsa20 key n).Even := fun n =>
    ((Io.Even.writeAll _ _).mapError _).bind fun _ =>
      ((Io.Even.readExact _ _).mapError _).bind fun _ => trivial
  have hwrite : ∀ n input, Io.Yields
      ((Io.writeAll (.ofKind .writeZero) n.toList).mapError PnetError.handshakeError) input
      (.ret ()) input (n : Nonce).toList :=
    fun n input => (Io.Yields.writeAll _ _ input).mapError _
  have hread : ∀ n : Nonce, Io.Yields
      ((Io.readExact (.ofKind .unexpectedEof) 24).mapError PnetError.handshakeError) n.toList
      (.ret n.toList) [] [] := by
    intro n
    have h := Io.Yields.readExact (IoError.ofKind .unexpectedEof) n.toList []
    rw [n.toList_length, append_nil] at h
    exact h.mapError _
  apply Net.settles_of_path (heven n₁) (heven n₂)
  · -- both write, then both read
    refine (Net.left_run (hwrite n₁ [])).trans ?_
    refine (Net.right_run (hwrite n₂ _)).trans ?_
    refine (Net.left_run (hread n₂)).trans ?_
    rw [append_nil]
    refine (Net.right_run (hread n₁)).trans ?_
    rw [nonceOf_toList, nonceOf_toList]
    exact .refl
  · rintro x ⟨side, hx⟩
    cases side <;> cases hx

end Handshake

/-! ## One direction of a connection -/

/-- One side writes and the other reads. Beside the state stand the bytes for which `poll_write` has
returned `Ok`, the bytes that `poll_read` has returned, and whether a `poll_write` has returned an
error. -/
structure Session where
  writer : PnetOutput
  pipe : Pipe
  reader : PnetOutput
  accepted : List UInt8
  received : List UInt8
  failed : Bool

inductive Call where
  | write (buf : List UInt8) (answers : List (Answer IoError))
  | flush (answers : List (Answer IoError))
  | close (answers : List (Answer IoError))
  | read (size : Nat) (answers : List (Answer IoError))

namespace Session

def start (writer reader : PnetOutput) : Session := ⟨writer, .empty, reader, [], [], false⟩

def step (s : Session) : Call → Session
  | .write buf answers =>
    let (result, writer, wire) := s.writer.inner.pollWrite ⟨s.pipe, answers⟩ buf
    let s := { s with writer := { s.writer with inner := writer }, pipe := wire.pipe }
    match result with
    | .pending => s
    | .ready (.ok n) => { s with accepted := s.accepted ++ buf.take n }
    | .ready (.error _) => { s with failed := true }
  | .flush answers =>
    let (_, writer, wire) := s.writer.inner.pollFlush ⟨s.pipe, answers⟩
    { s with writer := { s.writer with inner := writer }, pipe := wire.pipe }
  | .close answers =>
    let (_, writer, wire) := s.writer.inner.pollClose ⟨s.pipe, answers⟩
    { s with writer := { s.writer with inner := writer }, pipe := wire.pipe }
  | .read size answers =>
    let (result, reader, wire) := s.reader.pollRead ⟨s.pipe, answers⟩ size
    let s := { s with reader := reader, pipe := wire.pipe }
    match result with
    | .ready (.ok data) => { s with received := s.received ++ data }
    | _ => s

end Session

/-! ## What the calls keep -/

variable {buf : List UInt8}

theorem flushLoop_conserves {inner : Wire IoError} (hle : written ≤ buf.length) :
    Conserves inner.pipe (buf.drop written) (flushLoop buf written inner).2.2.pipe
        (buf.drop (flushLoop buf written inner).2.1) ∧
      ((flushLoop buf written inner).1 = .ready (.ok ()) →
        buf.length ≤ (flushLoop buf written inner).2.1) := by
  fun_induction flushLoop buf written inner with
  | case1 written inner hlt n inner' hwrite hn ih =>
    obtain ⟨hle', hpush, -⟩ := Wire.pollWrite_ok hwrite
    rw [length_drop] at hle'
    rw [drop_drop] at hpush
    obtain ⟨hrest, hall⟩ := ih (by omega)
    exact ⟨hpush.trans hrest, hall⟩
  | case2 written inner hlt n inner' hwrite hn =>
    obtain ⟨-, hpush, -⟩ := Wire.pollWrite_ok hwrite
    have hzero : n = 0 := by omega
    rw [drop_drop, hzero, Nat.add_zero] at hpush
    exact ⟨hpush, nofun⟩
  | case3 written inner hlt e inner' hwrite hkind =>
    exact ⟨.of_eq (Wire.pollWrite_error hwrite).1, nofun⟩
  | case4 written inner hlt e inner' hwrite hkind ih =>
    obtain ⟨hrest, hall⟩ := ih hle
    exact ⟨(Conserves.of_eq (Wire.pollWrite_error hwrite).1).trans hrest, hall⟩
  | case5 written inner hlt inner' hwrite =>
    exact ⟨.of_eq (Wire.pollWrite_pending hwrite), nofun⟩
  | case6 written inner hlt => exact ⟨.refl _ _, fun _ => Nat.le_of_not_lt hlt⟩

variable {ret : Poll (Except IoError Unit)}

theorem pollFlushBuf_conserves {inner inner' : Wire IoError} {left : List UInt8}
    (h : pollFlushBuf inner buf = (ret, left, inner')) :
    Conserves inner.pipe buf inner'.pipe left ∧ (ret = .ready (.ok ()) → left = []) := by
  obtain ⟨hloop, hall⟩ := @flushLoop_conserves buf 0 inner (Nat.zero_le buf.length)
  cases h
  exact ⟨hloop, fun hok => drop_of_length_le (hall hok)⟩

variable {this this' : CryptWriter} {wire wire' : Wire IoError}

theorem pollFlush_conserves (h : this.pollFlush wire = (ret, this', wire')) :
    Conserves wire.pipe this.buf wire'.pipe this'.buf ∧ this'.cipher = this.cipher ∧
      (ret = .ready (.ok ()) → this'.buf = []) := by
  rcases hbuf : pollFlushBuf wire this.buf with ⟨r, left, inner⟩
  obtain ⟨hconserves, hnil⟩ := pollFlushBuf_conserves hbuf
  rw [CryptWriter.pollFlush, hbuf] at h
  match r with
  | .pending | .ready (.error e) =>
    cases h
    exact ⟨hconserves, rfl, nofun⟩
  | .ready (.ok ()) =>
    have hpipe := inner.pollFlush_pipe
    rcases hinner : inner.pollFlush with ⟨r, inner'⟩
    rw [hinner] at hpipe
    simp only [hinner] at h
    cases h
    exact ⟨hconserves.trans (.of_eq hpipe), rfl, fun _ => hnil rfl⟩

theorem pollClose_conserves (h : this.pollClose wire = (ret, this', wire')) :
    Conserves wire.pipe this.buf wire'.pipe this'.buf ∧ this'.cipher = this.cipher := by
  rcases hbuf : pollFlushBuf wire this.buf with ⟨r, left, inner⟩
  obtain ⟨hconserves, -⟩ := pollFlushBuf_conserves hbuf
  rw [CryptWriter.pollClose, hbuf] at h
  match r with
  | .pending | .ready (.error e) =>
    cases h
    exact ⟨hconserves, rfl⟩
  | .ready (.ok ()) =>
    rcases hinner : inner.pollClose with ⟨r, inner'⟩
    simp only [hinner] at h
    cases h
    refine ⟨hconserves.trans ?_, rfl⟩
    obtain ⟨-, hpipe⟩ | ⟨-, hpipe⟩ := Wire.pollClose_spec hinner
    · exact .of_eq hpipe
    · rw [hpipe]
      exact .close _ _

theorem pollWrite_conserves {ret : Poll (Except IoError Nat)}
    (h : this.pollWrite wire buf = (ret, this', wire')) :
    (ret = .pending ∧ Conserves wire.pipe this.buf wire'.pipe this'.buf ∧
        this'.cipher = this.cipher) ∨
      (ret = .ready (.ok buf.length) ∧
        Conserves wire.pipe (this.buf ++ (this.cipher.apply buf).1) wire'.pipe this'.buf ∧
        this'.cipher = (this.cipher.apply buf).2) ∨
      ∃ e, ret = .ready (.error e) := by
  rcases hbuf : pollFlushBuf wire this.buf with ⟨r, left, inner⟩
  obtain ⟨hconserves, hnil⟩ := pollFlushBuf_conserves hbuf
  rw [CryptWriter.pollWrite, hbuf] at h
  match r with
  | .pending =>
    cases h
    exact .inl ⟨rfl, hconserves, rfl⟩
  | .ready (.error e) =>
    cases h
    exact .inr (.inr ⟨e, rfl⟩)
  | .ready (.ok ()) =>
    obtain rfl : left = [] := hnil rfl
    have hfirst : Conserves wire.pipe (this.buf ++ (this.cipher.apply buf).1) inner.pipe
        (this.cipher.apply buf).1 := by
      have h := hconserves.append (this.cipher.apply buf).1
      rwa [nil_append] at h
    simp only [nil_append, take_length, drop_length, append_nil] at h
    rcases hbuf' : pollFlushBuf inner (this.cipher.apply buf).1 with ⟨r, left, inner'⟩
    obtain ⟨hsecond, -⟩ := pollFlushBuf_conserves hbuf'
    rw [hbuf'] at h
    match r with
    | .ready (.error e) =>
      cases h
      exact .inr (.inr ⟨e, rfl⟩)
    | .pending | .ready (.ok ()) =>
      cases h
      exact .inr (.inl ⟨rfl, hfirst.trans hsecond, rfl⟩)

/-! ## Alignment -/

/-- The bytes in the socket and in the buffer are the encryption of all that was accepted, and the
reader has decrypted what it has taken of them. -/
structure Aligned (ks : Nat → UInt8) (s : Session) : Prop where
  sent : s.pipe.sent ++ s.writer.inner.buf = mask ks 0 s.accepted
  writeCipher : s.writer.inner.cipher = ⟨ks, s.accepted.length⟩
  received : s.received = mask ks 0 s.pipe.delivered
  readCipher : s.reader.readCipher = ⟨ks, s.pipe.taken⟩

variable {ks : Nat → UInt8} {s : Session}

theorem Aligned.received_eq (h : Aligned ks s) : s.received = s.accepted.take s.pipe.taken := by
  have hle := s.pipe.taken_le
  have hdelivered : s.pipe.delivered = (mask ks 0 s.accepted).take s.pipe.taken := by
    rw [← h.sent, take_append_of_le_length hle]
    rfl
  rw [h.received, hdelivered, ← mask_take, mask_mask]

theorem Aligned.conserves {writer : CryptWriter} {pipe : Pipe} (h : Aligned ks s)
    (hc : Conserves s.pipe s.writer.inner.buf pipe writer.buf)
    (hcipher : writer.cipher = s.writer.inner.cipher) :
    Aligned ks { s with writer := { s.writer with inner := writer }, pipe := pipe } := by
  refine ⟨hc.sent.trans h.sent, hcipher.trans h.writeCipher, ?_, ?_⟩
  · rw [hc.delivered]
    exact h.received
  · rw [hc.toGrows.taken]
    exact h.readCipher

theorem Aligned.write {writer : CryptWriter} {pipe : Pipe} (h : Aligned ks s)
    (hc : Conserves s.pipe (s.writer.inner.buf ++ (s.writer.inner.cipher.apply buf).1) pipe
      writer.buf) (hcipher : writer.cipher = (s.writer.inner.cipher.apply buf).2) :
    Aligned ks { s with
      writer := { s.writer with inner := writer }, pipe := pipe, accepted := s.accepted ++ buf } := by
  refine ⟨?_, ?_, ?_, ?_⟩
  · rw [hc.sent, ← append_assoc, h.sent, h.writeCipher, mask_append, Nat.zero_add]
    rfl
  · rw [hcipher, h.writeCipher, length_append]
    rfl
  · rw [hc.delivered]
    exact h.received
  · rw [hc.toGrows.taken]
    exact h.readCipher

theorem Aligned.read (h : Aligned ks s) (n : Nat) :
    Aligned ks { s with
      reader := { s.reader with readCipher := (s.reader.readCipher.apply (s.pipe.available.take n)).2 },
      pipe := s.pipe.pull n,
      received := s.received ++ (s.reader.readCipher.apply (s.pipe.available.take n)).1 } := by
  refine ⟨h.sent, h.writeCipher, ?_, ?_⟩
  · rw [s.pipe.pull_delivered, mask_append, Nat.zero_add, s.pipe.length_delivered, h.received,
      h.readCipher]
    rfl
  · have hlen := (s.pipe.pull n).length_delivered
    rw [s.pipe.pull_delivered, length_append, s.pipe.length_delivered] at hlen
    rw [h.readCipher, ← hlen]
    rfl

theorem aligned_step (call : Call) (h : s.failed = false → Aligned ks s) :
    (s.step call).failed = false → Aligned ks (s.step call) := by
  intro hfailed
  cases call with
  | write buf answers =>
    rcases hw : s.writer.inner.pollWrite ⟨s.pipe, answers⟩ buf with ⟨ret, writer, wire⟩
    simp only [Session.step, hw] at hfailed ⊢
    obtain ⟨rfl, hc, hcipher⟩ | ⟨rfl, hc, hcipher⟩ | ⟨e, rfl⟩ := pollWrite_conserves hw
    · exact (h hfailed).conserves hc hcipher
    · dsimp only
      rw [take_length]
      exact (h hfailed).write hc hcipher
    · cases hfailed
  | flush answers =>
    rcases hw : s.writer.inner.pollFlush ⟨s.pipe, answers⟩ with ⟨ret, writer, wire⟩
    simp only [Session.step, hw] at hfailed ⊢
    obtain ⟨hc, hcipher, -⟩ := pollFlush_conserves hw
    exact (h hfailed).conserves hc hcipher
  | close answers =>
    rcases hw : s.writer.inner.pollClose ⟨s.pipe, answers⟩ with ⟨ret, writer, wire⟩
    simp only [Session.step, hw] at hfailed ⊢
    obtain ⟨hc, hcipher⟩ := pollClose_conserves hw
    exact (h hfailed).conserves hc hcipher
  | read size answers =>
    rcases hr : Wire.pollRead ⟨s.pipe, answers⟩ size with ⟨ret, wire⟩
    have hspec := Wire.pollRead_spec hr
    simp only [Session.step, PnetOutput.pollRead, hr] at hfailed ⊢
    obtain ⟨rfl, hpipe⟩ | ⟨e, rfl, hpipe, -⟩ | ⟨rfl, hpipe, -⟩ | ⟨n, -, -, -, rfl, hpipe⟩ := hspec
    · rw [hpipe]
      exact h hfailed
    · rw [hpipe]
      exact h hfailed
    · show Aligned ks { s with pipe := wire.pipe, received := s.received ++ [] }
      rw [hpipe, append_nil]
      exact h hfailed
    · rw [hpipe]
      exact (h hfailed).read n

/-- For every sequence of calls in which no `poll_write` returns an error, the bytes that were read
are a prefix of the bytes that were accepted; and when `poll_flush` then succeeds, the socket has
the encryption of all that was accepted. -/
def Streams (ks : Nat → UInt8) (writer reader : PnetOutput) : Prop :=
  ∀ calls : List Call,
    (run Session.step (Session.start writer reader) calls).failed = false →
      (run Session.step (Session.start writer reader) calls).received <+:
          (run Session.step (Session.start writer reader) calls).accepted ∧
        ∀ answers wire' writer',
          CryptWriter.pollFlush (run Session.step (Session.start writer reader) calls).writer.inner
              ⟨(run Session.step (Session.start writer reader) calls).pipe, answers⟩ =
            (.ready (.ok ()), writer', wire') →
          wire'.pipe.sent =
            mask ks 0 (run Session.step (Session.start writer reader) calls).accepted

theorem aligned_start (ks ks' : Nat → UInt8) :
    Aligned ks (.start (.new ⟨ks, 0⟩ ⟨ks', 0⟩) (.new ⟨ks', 0⟩ ⟨ks, 0⟩)) :=
  ⟨rfl, rfl, rfl, rfl⟩

theorem streams (ks ks' : Nat → UInt8) :
    Streams ks (.new ⟨ks, 0⟩ ⟨ks', 0⟩) (.new ⟨ks', 0⟩ ⟨ks, 0⟩) := by
  intro calls
  generalize hs : run Session.step _ calls = s
  have halways : s.failed = false → Aligned ks s := by
    rw [← hs]
    exact invariant_run (I := fun s => s.failed = false → Aligned ks s)
      (fun _ call h => aligned_step call h) (fun _ => aligned_start ks ks') calls
  intro hfailed
  have haligned := halways hfailed
  constructor
  · rw [haligned.received_eq]
    exact take_prefix _ _
  · intro answers wire' writer' hflush
    obtain ⟨hc, -, hnil⟩ := pollFlush_conserves hflush
    have hsent := hc.sent
    rw [hnil rfl, append_nil] at hsent
    rw [hsent, haligned.sent]

/-- After the handshake with one key, what either side reads is a prefix of what the other has
written. -/
theorem plaintext_prefix (xsalsa20 : PreSharedKey → Nonce → Nat → UInt8) (key : PreSharedKey)
    (n₁ n₂ : Nonce) :
    (Net.start (handshake xsalsa20 key n₁) (handshake xsalsa20 key n₂)).Settles
        ⟨.ret (.new ⟨xsalsa20 key n₁, 0⟩ ⟨xsalsa20 key n₂, 0⟩),
          .ret (.new ⟨xsalsa20 key n₂, 0⟩ ⟨xsalsa20 key n₁, 0⟩), [], [], false, false⟩ ∧
      Streams (xsalsa20 key n₁) (.new ⟨xsalsa20 key n₁, 0⟩ ⟨xsalsa20 key n₂, 0⟩)
        (.new ⟨xsalsa20 key n₂, 0⟩ ⟨xsalsa20 key n₁, 0⟩) ∧
      Streams (xsalsa20 key n₂) (.new ⟨xsalsa20 key n₂, 0⟩ ⟨xsalsa20 key n₁, 0⟩)
        (.new ⟨xsalsa20 key n₁, 0⟩ ⟨xsalsa20 key n₂, 0⟩) :=
  ⟨handshake_settles xsalsa20 key n₁ n₂, streams _ _, streams _ _⟩

def sampleStream (_ : PreSharedKey) (nonce : Nonce) (i : Nat) : UInt8 :=
  UInt8.ofNat (7 * i) + nonce.toList.sum

/-- The socket takes one byte, is interrupted and is pending; the rest is written by the flush. -/
def sampleCalls : List Call :=
  [.write [1, 2, 3] [.ready 1, .error (.ofKind .interrupted), .pending],
    .flush [.ready 9, .ready 0],
    .read 2 [.ready 5]]

theorem sampleCalls_prefix :
    let key : PreSharedKey := List.Vector.replicate 32 0
    let c₁ : StreamCipher := ⟨sampleStream key (List.Vector.replicate 24 1), 0⟩
    let c₂ : StreamCipher := ⟨sampleStream key (List.Vector.replicate 24 2), 0⟩
    let s := run Session.step (Session.start (.new c₁ c₂) (.new c₂ c₁)) sampleCalls
    s.failed = false ∧ s.received = [1, 2] ∧ s.received <+: s.accepted := by
  intro key c₁ c₂ s
  have hrun : s.failed = false ∧ s.received = [1, 2] := by decide +kernel
  have hstreams := plaintext_prefix sampleStream key (List.Vector.replicate 24 1)
    (List.Vector.replicate 24 2)
  exact ⟨hrun.1, hrun.2, (hstreams.2.1 sampleCalls hrun.1).1⟩

end Libp2pRs.Core.Pnet
