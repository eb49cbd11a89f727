import Libp2pRs.Core.ReadWrite
import Libp2pRs.Lib.Pipe

/-!
# Noise transport streams

A `NoiseFramed` sends and receives Noise messages behind their length of two bytes. A `NoiseOutput`
above it collects the bytes that are written into frames and hands out those of the frames it
receives. Both are polled: each call goes on from where the last one had to stop, and their states
say where that is, down to a byte in the middle of a length.

The messages are encrypted by the crate `snow`, which is a parameter.
-/

namespace Libp2pRs.Noise

open Lib Libp2pRs.Core

def maxNoiseMsgLen : Nat := 65535

def extraEncryptSpace : Nat := 1024

def maxFrameLen : Nat := maxNoiseMsgLen - extraEncryptSpace

/-! ## Sessions -/

/-- What is assumed of the encryption of one direction: messages are encrypted and decrypted in
order, with a tag of 16 bytes. -/
structure Snow where
  encrypt : Nat → List UInt8 → List UInt8
  decrypt : Nat → List UInt8 → Option (List UInt8)
  length_encrypt : ∀ nonce payload, (encrypt nonce payload).length = payload.length + 16
  decrypt_encrypt : ∀ nonce payload, decrypt nonce (encrypt nonce payload) = some payload

structure TransportState where
  sending : Snow
  sendNonce : Nat
  receiving : Snow
  recvNonce : Nat

namespace TransportState

def writeMessage (s : TransportState) (payload : List UInt8) (size : Nat) :
    Option (List UInt8 × TransportState) :=
  if payload.length + 16 > maxNoiseMsgLen ∨ payload.length + 16 > size then none
  else some (s.sending.encrypt s.sendNonce payload, { s with sendNonce := s.sendNonce + 1 })

def readMessage (s : TransportState) (message : List UInt8) :
    Option (List UInt8 × TransportState) :=
  (s.receiving.decrypt s.recvNonce message).map fun payload =>
    (payload, { s with recvNonce := s.recvNonce + 1 })

end TransportState

/-! ## Frames -/

/-- The length is read into `buf`, which stands for its part that is filled. -/
inductive ReadState where
  | ready
  | readLen (buf : List UInt8)
  | readData (len off : Nat)
  | eof (expected : Bool)
  | decErr
  deriving DecidableEq, Repr

inductive WriteState where
  | ready
  | writeLen (len : Nat) (buf : List UInt8) (off : Nat)
  | writeData (len off : Nat)
  | eof
  | encErr
  deriving DecidableEq, Repr

def WriteState.isReady : WriteState → Bool
  | .ready => true
  | _ => false

structure NoiseFramed where
  session : TransportState
  readState : ReadState
  writeState : WriteState
  readBuffer : List UInt8
  writeBuffer : List UInt8

def unexpectedEof : IoError := .ofKind .unexpectedEof

def invalidData : IoError := .ofKind .invalidData

def writeZero : IoError := .ofKind .writeZero

def brokenPipe : IoError := .ofKind .brokenPipe

def readFrameLen (io : Wire IoError) (buf : List UInt8) :
    Poll (Except IoError (Option Nat)) × List UInt8 × Wire IoError :=
  match _h : io.pollRead (2 - buf.length) with
  | (.pending, io') => (.pending, buf, io')
  | (.ready (.error e), io') => (.ready (.error e), buf, io')
  | (.ready (.ok data), io') =>
    if data = [] then (.ready (.ok none), buf, io')
    else if (buf ++ data).length = 2 then
      (.ready (.ok (some (beNat (buf ++ data)))), buf ++ data, io')
    else readFrameLen io' (buf ++ data)
termination_by io.answers.length
decreasing_by exact Wire.pollRead_answers_lt _h

def writeFrameLen (io : Wire IoError) (buf : List UInt8) (off : Nat) :
    Poll (Except IoError Bool) × Nat × Wire IoError :=
  match _h : io.pollWrite brokenPipe (buf.drop off) with
  | (.pending, io') => (.pending, off, io')
  | (.ready (.error e), io') => (.ready (.error e), off, io')
  | (.ready (.ok n), io') =>
    if n = 0 then (.ready (.ok false), off, io')
    else if off + n = 2 then (.ready (.ok true), off + n, io')
    else writeFrameLen io' buf (off + n)
termination_by io.answers.length
decreasing_by exact Wire.pollWrite_answers_lt _h

variable {io io' : Wire IoError}

theorem readFrameLen_answers_lt {buf buf' : List UInt8} {x : Except IoError (Option Nat)}
    (h : readFrameLen io buf = (.ready x, buf', io')) : io'.answers.length < io.answers.length := by
  fun_induction readFrameLen io buf with
  | case1 => cases h
  | case2 io buf e io₁ hread | case3 io buf io₁ hread =>
    cases h
    exact Wire.pollRead_answers_lt hread
  | case4 io buf data io₁ hread =>
    cases h
    exact Wire.pollRead_answers_lt hread
  | case5 io buf data io₁ hread _ _ ih =>
    have hlt := Wire.pollRead_answers_lt hread
    have := ih h
    omega

theorem writeFrameLen_answers_lt (h : writeFrameLen io buf off = (.ready x, off', io')) :
    io'.answers.length < io.answers.length := by
  fun_induction writeFrameLen io buf off with
  | case1 => cases h
  | case2 io off e io₁ hwrite | case3 io off io₁ hwrite =>
    cases h
    exact Wire.pollWrite_answers_lt hwrite
  | case4 io off n io₁ hwrite =>
    cases h
    exact Wire.pollWrite_answers_lt hwrite
  | case5 io off n io₁ hwrite _ _ ih =>
    have hlt := Wire.pollWrite_answers_lt hwrite
    have := ih h
    omega

namespace NoiseFramed

def pollNext (this : NoiseFramed) (io : Wire IoError) :
    Poll (Option (Except IoError (List UInt8))) × NoiseFramed × Wire IoError :=
  match _hstate : this.readState with
  | .ready => pollNext { this with readState := .readLen [] } io
  | .readLen buf =>
    match _h : readFrameLen io buf with
    | (.ready (.ok (some n)), _, io') =>
      if n = 0 then pollNext { this with readState := .ready } io'
      else
        pollNext
          { this with readBuffer := this.readBuffer.takeD n 0, readState := .readData n 0 } io'
    | (.ready (.ok none), _, io') => (.ready none, { this with readState := .eof true }, io')
    | (.ready (.error e), _, io') => (.ready (some (.error e)), this, io')
    | (.pending, buf, io') => (.pending, { this with readState := .readLen buf }, io')
  | .readData len off =>
    match _h : io.pollRead (len - off) with
    | (.pending, io') => (.pending, this, io')
    | (.ready (.error e), io') => (.ready (some (.error e)), this, io')
    | (.ready (.ok data), io') =>
      if data = [] then
        (.ready (some (.error unexpectedEof)), { this with readState := .eof false }, io')
      else
        let readBuffer :=
          this.readBuffer.take off ++ data ++ this.readBuffer.drop (off + data.length)
        if len = off + data.length then
          match this.session.readMessage readBuffer with
          | some (payload, session) =>
            (.ready (some (.ok payload)),
              { this with session := session, readBuffer := readBuffer, readState := .ready }, io')
          | none =>
            (.ready (some (.error invalidData)),
              { this with readBuffer := readBuffer, readState := .decErr }, io')
        else
          pollNext
            { this with readBuffer := readBuffer, readState := .readData len (off + data.length) }
            io'
  | .eof true => (.ready none, this, io)
  | .eof false => (.ready (some (.error unexpectedEof)), this, io)
  | .decErr => (.ready (some (.error invalidData)), this, io)
termination_by 2 * io.answers.length + if this.readState = .ready then 1 else 0
decreasing_by
  · simp only [_hstate, if_true, if_false]
    omega
  · have := readFrameLen_answers_lt _h
    simp only [_hstate, reduceCtorEq, if_true, if_false]
    omega
  · have := readFrameLen_answers_lt _h
    simp only [_hstate, reduceCtorEq, if_false]
    omega
  · have := Wire.pollRead_answers_lt _h
    simp only [_hstate, reduceCtorEq, if_false]
    omega

def pollReady (this : NoiseFramed) (io : Wire IoError) :
    Poll (Except IoError Unit) × NoiseFramed × Wire IoError :=
  match this.writeState with
  | .ready => (.ready (.ok ()), this, io)
  | .writeLen len buf off =>
    match _h : writeFrameLen io buf off with
    | (.ready (.ok true), _, io') => pollReady { this with writeState := .writeData len 0 } io'
    | (.ready (.ok false), _, io') =>
      (.ready (.error writeZero), { this with writeState := .eof }, io')
    | (.ready (.error e), _, io') => (.ready (.error e), this, io')
    | (.pending, off, io') => (.pending, { this with writeState := .writeLen len buf off }, io')
  | .writeData len off =>
    match _h : io.pollWrite brokenPipe ((this.writeBuffer.take len).drop off) with
    | (.pending, io') => (.pending, this, io')
    | (.ready (.error e), io') => (.ready (.error e), this, io')
    | (.ready (.ok n), io') =>
      if n = 0 then (.ready (.error writeZero), { this with writeState := .eof }, io')
      else
        pollReady
          { this with
            writeState := if len = off + n then .ready else .writeData len (off + n) } io'
  | .eof => (.ready (.error writeZero), this, io)
  | .encErr => (.ready (.error invalidData), this, io)
termination_by io.answers.length
decreasing_by
  · exact writeFrameLen_answers_lt _h
  · exact Wire.pollWrite_answers_lt _h

def startSend (this : NoiseFramed) (frame : List UInt8) :
    Option (Except IoError Unit × NoiseFramed) :=
  if ¬ frame.length ≤ maxFrameLen then none
  else if ¬ this.writeState.isReady then none
  else
    match this.session.writeMessage frame (frame.length + extraEncryptSpace) with
    | some (message, session) =>
      some (.ok (),
        { this with
          session := session
          writeBuffer := message
          writeState := .writeLen message.length (beBytes 2 message.length) 0 })
    | none => some (.error invalidData, { this with writeState := .encErr })

def pollFlush (this : NoiseFramed) (io : Wire IoError) :
    Poll (Except IoError Unit) × NoiseFramed × Wire IoError :=
  match this.pollReady io with
  | (.ready (.ok ()), this, io) =>
    let (ret, io) := io.pollFlush
    (ret, this, io)
  | result => result

def pollClose (this : NoiseFramed) (io : Wire IoError) :
    Poll (Except IoError Unit) × NoiseFramed × Wire IoError :=
  match this.pollFlush io with
  | (.ready (.ok ()), this, io) =>
    let (ret, io) := io.pollClose
    (ret, this, io)
  | result => result

theorem pollNext_answers_lt {this this' : NoiseFramed} {frame : List UInt8}
    (h : this.pollNext io = (.ready (some (.ok frame)), this', io')) :
    io'.answers.length < io.answers.length := by
  fun_induction pollNext this io with
  | case1 this io hstate ih => exact ih h
  | case2 this io buf hstate buf' io₁ hlen ih =>
    have hlt := readFrameLen_answers_lt hlen
    have := ih h
    omega
  | case3 this io buf hstate n buf' io₁ hlen hn ih =>
    have hlt := readFrameLen_answers_lt hlen
    have := ih h
    omega
  | case10 this io off data io₁ hdata readBuffer payload session hmsg hstate hread =>
    cases h
    exact Wire.pollRead_answers_lt hread
  | case12 this io len off hstate data io₁ hread hdata readBuffer hlen ih =>
    have hlt := Wire.pollRead_answers_lt hread
    have := ih h
    omega
  | _ => cases h

end NoiseFramed

/-! ## Bytes -/

structure NoiseOutput where
  io : NoiseFramed
  recvBuffer : List UInt8
  recvOffset : Nat
  sendBuffer : List UInt8
  sendOffset : Nat

namespace NoiseOutput

def new (io : NoiseFramed) : NoiseOutput := ⟨io, [], 0, [], 0⟩

/-- `poll_read` with a buffer of the given size. -/
def pollRead (this : NoiseOutput) (io : Wire IoError) (size : Nat) :
    Poll (Except IoError (List UInt8)) × NoiseOutput × Wire IoError :=
  let len := this.recvBuffer.length
  let off := this.recvOffset
  if 0 < len then
    let n := min (len - off) size
    (.ready (.ok ((this.recvBuffer.drop off).take n)),
      { this with
        recvOffset := off + n
        recvBuffer := if len = off + n then [] else this.recvBuffer }, io)
  else
    match _h : this.io.pollNext io with
    | (.pending, f, io') => (.pending, { this with io := f }, io')
    | (.ready none, f, io') => (.ready (.ok []), { this with io := f }, io')
    | (.ready (some (.error e)), f, io') => (.ready (.error e), { this with io := f }, io')
    | (.ready (some (.ok frame)), f, io') =>
      pollRead { this with io := f, recvBuffer := frame, recvOffset := 0 } io' size
termination_by io.answers.length
decreasing_by exact NoiseFramed.pollNext_answers_lt _h

/-- The second part of `poll_write`: bytes are put into the send buffer. -/
def bufferBytes (this : NoiseOutput) (buf : List UInt8) : Nat × NoiseOutput :=
  let off := this.sendOffset
  let sendBuffer := this.sendBuffer.takeD (min maxFrameLen (off + buf.length)) 0
  let n := min (maxFrameLen - off) buf.length
  (n, { this with
    sendBuffer := sendBuffer.take off ++ buf.take n ++ sendBuffer.drop (off + n)
    sendOffset := off + n })

/-- `poll_write`. Without a result, an assertion has failed. -/
def pollWrite (this : NoiseOutput) (io : Wire IoError) (buf : List UInt8) :
    Option (Poll (Except IoError Nat) × NoiseOutput × Wire IoError) :=
  if this.sendOffset = maxFrameLen then
    match this.io.pollReady io with
    | (.pending, f, io) => some (.pending, { this with io := f }, io)
    | (.ready (.error e), f, io) => some (.ready (.error e), { this with io := f }, io)
    | (.ready (.ok ()), f, io) =>
      match f.startSend this.sendBuffer with
      | none => none
      | some (.error e, f) => some (.ready (.error e), { this with io := f }, io)
      | some (.ok (), f) =>
        let (n, this) := bufferBytes { this with io := f, sendOffset := 0 } buf
        some (.ready (.ok n), this, io)
  else
    let (n, this) := this.bufferBytes buf
    some (.ready (.ok n), this, io)

def pollFlush (this : NoiseOutput) (io : Wire IoError) :
    Option (Poll (Except IoError Unit) × NoiseOutput × Wire IoError) :=
  if this.sendOffset > 0 then
    match this.io.pollReady io with
    | (.pending, f, io) => some (.pending, { this with io := f }, io)
    | (.ready (.error e), f, io) => some (.ready (.error e), { this with io := f }, io)
    | (.ready (.ok ()), f, io) =>
      match f.startSend this.sendBuffer with
      | none => none
      | some (.error e, f) => some (.ready (.error e), { this with io := f }, io)
      | some (.ok (), f) =>
        let (ret, f, io) := f.pollFlush io
        some (ret, { this with io := f, sendOffset := 0 }, io)
  else
    let (ret, f, io) := this.io.pollFlush io
    some (ret, { this with io := f }, io)

def pollClose (this : NoiseOutput) (io : Wire IoError) :
    Option (Poll (Except IoError Unit) × NoiseOutput × Wire IoError) :=
  match this.pollFlush io with
  | some (.ready (.ok ()), this, io) =>
    let (ret, f, io) := this.io.pollClose io
    some (ret, { this with io := f }, io)
  | result => result

end NoiseOutput

end Libp2pRs.Noise
