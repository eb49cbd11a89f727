import Libp2pRs.Core.ReadWrite

/-!
# Frames of mplex

A frame has a header, which names a stream and says what the frame is for, and a body. A stream is
named by a number and by who has opened it, so that the two sides have different names for it: what
one side sends for the stream `id` the other side receives for `id.remote`. A number that does not
fit into the header loses its high bits.
-/

namespace Libp2pRs.Lib.Varint

theorem unfinished_of_decodeLoose (h : decodeLoose k bs = .ok (n, [])) :
    ∃ init last, bs = init ++ [last] ∧ Unfinished init ∧ last.toNat < 128 := by
  induction k generalizing n bs with
  | zero => cases bs <;> cases h
  | succ k ih =>
    match bs with
    | [] => cases h
    | b :: rest =>
      rw [decodeLoose] at h
      split at h
      case isTrue hb =>
        cases h
        exact ⟨[], b, rfl, fun _ hc => absurd hc List.not_mem_nil, hb⟩
      case isFalse hb =>
        split at h
        case h_1 => cases h
        case h_2 m r hm =>
          cases h
          obtain ⟨init, last, rfl, hinit, hlast⟩ := ih hm
          refine ⟨b :: init, last, rfl, ?_, hlast⟩
          intro c hc
          rcases List.mem_cons.mp hc with rfl | hc
          · exact Nat.not_lt.mp hb
          · exact hinit c hc

theorem decodeLoose_append (h : decodeLoose k bs = .ok (n, r))
    (more : List UInt8) : decodeLoose k (bs ++ more) = .ok (n, r ++ more) := by
  induction k generalizing n bs r with
  | zero => cases bs <;> cases h
  | succ k ih =>
    match bs with
    | [] => cases h
    | b :: rest =>
      rw [decodeLoose] at h
      rw [List.cons_append, decodeLoose]
      split at h
      case isTrue hb =>
        cases h
        rw [if_pos hb]
      case isFalse hb =>
        rw [if_neg hb]
        split at h
        case h_1 => cases h
        case h_2 m s hm =>
          cases h
          rw [ih hm]

theorem decodeLoose_overflow (h : Unfinished bs) (t : List UInt8) :
    decodeLoose bs.length (bs ++ t) = .error .overflow := by
  induction bs with
  | nil => cases t <;> rfl
  | cons b bs ih =>
    obtain ⟨hb, hbs⟩ := h.tail
    rw [List.length_cons, List.cons_append, decodeLoose, if_neg hb, ih hbs]

end Libp2pRs.Lib.Varint

namespace Libp2pRs.Mplex

open Lib Lib.Io Libp2pRs.Core List UInt32

/-! ## Headers -/

/-- The name of a stream. The initiator is the local side if it has opened the stream. -/
structure StreamID where
  id : UInt32
  initiator : Bool
  deriving DecidableEq, Repr

/-- The number that the Swarm knows the stream by, unless it overflows. -/
def StreamID.val (id : StreamID) : Option UInt32 :=
  if id.initiator then
    if id.id.toNat + 10000000 < 2 ^ 32 then some (id.id + 10000000) else none
  else some id.id

inductive Tag where
  | newStream
  | message
  | close
  | reset
  deriving DecidableEq, Repr

def Tag.toU32 : Tag → UInt32
  | .newStream => 0
  | .message => 2
  | .close => 4
  | .reset => 6

structure Header where
  streamId : StreamID
  tag : Tag
  deriving DecidableEq, Repr

inductive HeaderDecodeError where
  | tag (t : UInt8)
  deriving DecidableEq, Repr

namespace Header

def encode (hdr : Header) : UInt32 :=
  let tag := hdr.tag.toU32
  let id := hdr.streamId.id
  if tag = 0 ∨ hdr.streamId.initiator then (id <<< 3) + tag else (id <<< 3) + tag - 1

def decode (headerByte : UInt32) : Except HeaderDecodeError Header :=
  let tag := (headerByte &&& 7).toUInt8
  let remoteInitiator := tag &&& 1 = 0
  let streamId : StreamID := ⟨headerByte >>> 3, !remoteInitiator⟩
  match tag.toNat with
  | 0 => .ok ⟨streamId, .newStream⟩
  | 1 | 2 => .ok ⟨streamId, .message⟩
  | 3 | 4 => .ok ⟨streamId, .close⟩
  | 5 | 6 => .ok ⟨streamId, .reset⟩
  | _ => .error (.tag tag)

end Header

/-- The name of the stream on the other side. -/
def StreamID.remote (id : StreamID) : StreamID := ⟨(id.id <<< 3) >>> 3, !id.initiator⟩

theorem StreamID.remote_of_lt {id : StreamID} (h : id.id.toNat < 2 ^ 29) :
    id.remote = ⟨id.id, !id.initiator⟩ := by
  have hid : (id.id <<< 3) >>> 3 = id.id := by
    apply UInt32.toNat_inj.mp
    simp
    omega
  rw [remote, hid]

namespace Header

/-- What the header says besides the number of the stream. -/
def low (tag : Tag) (initiator : Bool) : UInt32 :=
  if tag.toU32 = 0 ∨ initiator then tag.toU32 else tag.toU32 - 1

theorem encode_eq (hdr : Header) :
    hdr.encode = (hdr.streamId.id <<< 3) + low hdr.tag hdr.streamId.initiator := by
  rw [encode, low]
  split
  · rfl
  · rw [sub_eq_add_neg, sub_eq_add_neg, add_assoc]

theorem low_and_high (id : UInt32) (hc : c.toNat < 8) :
    ((id <<< 3) + c) &&& 7 = c ∧ ((id <<< 3) + c) >>> 3 = (id <<< 3) >>> 3 := by
  have hand : ∀ n : Nat, n &&& 7 = n % 8 := fun n => Nat.and_two_pow_sub_one_eq_mod n 3
  constructor
  · apply UInt32.toNat_inj.mp
    simp only [UInt32.toNat_and, UInt32.toNat_add, UInt32.toNat_shiftLeft, UInt32.reduceToNat,
      Nat.shiftLeft_eq, hand, Nat.reduceMod, Nat.reducePow]
    omega
  · apply UInt32.toNat_inj.mp
    simp only [UInt32.toNat_shiftRight, UInt32.toNat_add, UInt32.toNat_shiftLeft,
      reduceToNat, Nat.shiftLeft_eq, Nat.shiftRight_eq_div_pow, Nat.reduceMod, Nat.reducePow]
    omega

theorem low_lt (tag : Tag) (initiator : Bool) : (low tag initiator).toNat < 8 := by
  cases tag <;> cases initiator <;> decide

/-- The other side has its own name for the stream. Only the side that opens a stream announces it. -/
theorem decode_encode {hdr : Header} (h : hdr.tag = .newStream → hdr.streamId.initiator = true) :
    decode hdr.encode = .ok ⟨hdr.streamId.remote, hdr.tag⟩ := by
  obtain ⟨⟨id, initiator⟩, tag⟩ := hdr
  obtain ⟨hand, hshift⟩ := low_and_high id (low_lt tag initiator)
  rw [encode_eq, decode]
  simp only [hand, hshift]
  cases initiator with
  | true => cases tag <;> rfl
  | false =>
    cases tag with
    | newStream => exact absurd (h rfl) Bool.false_ne_true
    | message | close | reset => rfl

end Header

/-! ## Frames -/

structure Frame where
  header : Header
  body : List UInt8
  deriving DecidableEq, Repr

namespace Frame

def streamId (frame : Frame) : StreamID := frame.header.streamId

def newStreamFrame (id : StreamID) (body : List UInt8) : Frame := ⟨⟨id, .newStream⟩, body⟩

def messageFrame (id : StreamID) (body : List UInt8) : Frame := ⟨⟨id, .message⟩, body⟩

def closeFrame (id : StreamID) : Frame := ⟨⟨id, .close⟩, []⟩

def resetFrame (id : StreamID) : Frame := ⟨⟨id, .reset⟩, []⟩

end Frame

inductive FrameDecodeError where
  | io (e : IoError)
  | header (e : HeaderDecodeError)
  | frameTooLarge (n : Nat)
  deriving DecidableEq, Repr

def maxMessageSize : UInt32 := 1048576

/-! ### Reading -/

section Reading

def readByte : Io IoError UInt8 :=
  .read 1 fun got =>
    match got with
    | [b] => .ret b
    | _ => .fail (.ofKind .unexpectedEof)

def decodeU32 : List UInt8 → Except Varint.Error (Nat × List UInt8) := Varint.decodeWord 5 32

/-- The loop of `read_uvarint`, with the bytes that have been read and the number of those that are
left in the buffer. A number that does not end there is read as zero. -/
def readUvarintLoop : Nat → List UInt8 → Io IoError UInt32
  | 0, _ => .ret 0
  | left + 1, buf => do
    let b ← readByte
    let buf := buf ++ [b]
    if b < 0x80 then
      match decodeU32 (buf ++ List.replicate left 0) with
      | .ok (len, _) => .ret (UInt32.ofNat len)
      | .error _ => .fail (.new .invalidData "invalid length prefix")
    else readUvarintLoop left buf

def readUvarint : Io IoError UInt32 := readUvarintLoop 5 []

def recvFrame : Io FrameDecodeError Frame := do
  let headerByte ← readUvarint.mapError .io
  let header ← Io.lift ((Header.decode headerByte).mapError .header)
  let len ← readUvarint.mapError .io
  if len > maxMessageSize then .fail (.frameTooLarge len.toNat)
  else if len = 0 then return ⟨header, []⟩
  else
    let body ← (readExact (.ofKind .unexpectedEof) len.toNat).mapError .io
    return ⟨header, body⟩

end Reading

/-! ### Writing -/

section Writing

def writeHeader (hdr : UInt32) : Io IoError Unit := writeAll2 (Varint.encode hdr.toNat)

def writeLength (length : UInt32) : Io IoError Unit :=
  if length > maxMessageSize then .fail (.new .invalidData "Maximum frame size exceeded.")
  else writeAll2 (Varint.encode length.toNat)

def writeBody (data : List UInt8) : Io IoError Unit := writeAll2 data

def sendFrame (frame : Frame) : Io IoError Unit := do
  writeHeader frame.header.encode
  writeLength (UInt32.ofNat frame.body.length)
  if frame.body ≠ [] then writeBody frame.body
  flush2

end Writing

namespace Frame

def length (frame : Frame) : UInt32 := UInt32.ofNat frame.body.length

def Fits (frame : Frame) : Prop := frame.length ≤ maxMessageSize

instance (frame : Frame) : Decidable frame.Fits := inferInstanceAs (Decidable (_ ≤ _))

def headerBytes (frame : Frame) : List UInt8 := Varint.encode frame.header.encode.toNat

def bytes (frame : Frame) : List UInt8 :=
  frame.headerBytes ++ (Varint.encode frame.length.toNat ++ frame.body)

end Frame

theorem yields_sendFrame (frame : Frame) (input : List UInt8) :
    if frame.Fits then Yields (sendFrame frame) input (.ret ()) input frame.bytes
    else Yields (sendFrame frame) input (.fail (.new .invalidData "Maximum frame size exceeded."))
      input frame.headerBytes := by
  split
  case isTrue h =>
    apply Yields.bind (.writeAll _ _ input)
    have hlength : writeLength (ofNat frame.body.length) =
        writeAll2 (Varint.encode frame.length.toNat) := if_neg (UInt32.not_lt.mpr h)
    rw [hlength]
    apply Yields.bind (.writeAll _ _ input)
    split
    case isTrue hbody => exact yields_writeBody frame.body input
    case isFalse hbody =>
      rw [not_not.mp hbody]
      exact .flush (.ret () input)
  case isFalse h =>
    have hfail : Yields (writeLength (ofNat frame.body.length)) input
        (.fail (.new .invalidData "Maximum frame size exceeded.")) input [] := by
      have hlength : writeLength frame.length =
          .fail (.new .invalidData "Maximum frame size exceeded.") := if_pos (UInt32.not_le.mp h)
      rw [← Frame.length, hlength]
      exact .fail _ input
    have hbytes : frame.headerBytes = frame.headerBytes ++ [] := (append_nil _).symm
    rw [hbytes]
    apply Yields.bind (.writeAll _ _ input)
    exact hfail.bind_fail

/-! ### Reading back -/

theorem yields_readByte (b : UInt8) (rest : List UInt8) :
    Yields readByte (b :: rest) (.ret b) rest [] :=
  .read_one (.ret b rest)

theorem yields_readUvarintLoop {n left : Nat} {buf t : List UInt8}
    (h : Varint.decodeLoose 5 (buf ++ t) = .ok (n, [])) (ht : t ≠ []) (hleft : t.length ≤ left)
    (rest : List UInt8) :
    Yields (readUvarintLoop left buf) (t ++ rest) (.ret (UInt32.ofNat (n % 2 ^ 32))) rest [] := by
  induction t generalizing left buf with
  | nil => exact absurd rfl ht
  | cons b t ih =>
    rw [length_cons] at hleft
    obtain ⟨left, rfl⟩ : ∃ k, left = k + 1 := ⟨left - 1, by omega⟩
    rw [append_cons] at h
    apply (yields_readByte b _).bind_read
    by_cases hlast : t = []
    · subst hlast
      rw [append_nil] at h
      obtain ⟨init, last, heq, -, hb⟩ := Varint.unfinished_of_decodeLoose h
      obtain ⟨rfl, rfl⟩ := append_singleton_inj.mp heq
      have hdecode : decodeU32 (buf ++ [b] ++ replicate left 0) =
          .ok (n % 2 ^ 32, replicate left 0) := by
        rw [decodeU32, Varint.decodeWord, Varint.decodeLoose_append h]
        rfl
      rw [if_pos (UInt8.lt_iff_toNat_lt.mpr hb), hdecode]
      exact .ret _ rest
    · obtain ⟨init, last, heq, hinit, -⟩ := Varint.unfinished_of_decodeLoose h
      have hb : 128 ≤ b.toNat := by
        apply hinit
        obtain ⟨t', last', rfl⟩ := eq_nil_or_concat t |>.resolve_left hlast
        rw [concat_eq_append, ← append_assoc] at heq
        obtain ⟨rfl, -⟩ := append_singleton_inj.mp heq
        simp
      have hge : ¬b < 0x80 := fun hlt => Nat.not_lt.mpr hb (UInt8.lt_iff_toNat_lt.mp hlt)
      rw [if_neg hge]
      exact ih h hlast (by omega)

theorem yields_readUvarint (n : UInt32) (rest : List UInt8) :
    Yields readUvarint (Varint.encode n.toNat ++ rest) (.ret n) rest [] := by
  have hn := n.toNat_lt
  have hloose := Varint.decodeLoose_encode (k := 4) (n := n.toNat) (by omega) []
  rw [append_nil] at hloose
  have hlen := Varint.length_encode_le (k := 4) (n := n.toNat) (by omega)
  have hread := @yields_readUvarintLoop _ 5 [] _ hloose
    (Varint.encode_ne_nil n.toNat) hlen rest
  rwa [Nat.mod_eq_of_lt hn, UInt32.ofNat_toNat] at hread

theorem yields_recvFrame {frame : Frame}
    (h : frame.header.tag = .newStream → frame.streamId.initiator = true) (hfits : frame.Fits)
    (rest : List UInt8) :
    Yields recvFrame (frame.bytes ++ rest)
      (.ret ⟨⟨frame.streamId.remote, frame.header.tag⟩, frame.body.take frame.length.toNat⟩)
      (frame.body.drop frame.length.toNat ++ rest) [] := by
  rw [Frame.bytes, append_assoc, append_assoc]
  apply ((yields_readUvarint _ _).mapError _).bind_read
  rw [Header.decode_encode h]
  apply (Yields.ret _ _).bind_read
  apply ((yields_readUvarint _ _).mapError _).bind_read
  rw [if_neg (UInt32.not_lt.mpr hfits)]
  split
  case isTrue hzero =>
    rw [hzero]
    exact .ret _ _
  case isFalse hzero =>
    have hle : frame.length.toNat ≤ frame.body.length := by
      exact Nat.mod_le _ _
    have hread := Yields.readExact (IoError.ofKind .unexpectedEof)
      (frame.body.take frame.length.toNat) (frame.body.drop frame.length.toNat ++ rest)
    rw [length_take_of_le hle, ← append_assoc, take_append_drop] at hread
    apply (hread.mapError _).bind_read
    exact .ret _ _

/-! ### Which bytes are a frame -/

/-- The bytes are a number of at most five bytes that fits into 32 bits. -/
def IsNumber (bs : List UInt8) (n : Nat) : Prop := Varint.decodeLoose 5 bs = .ok (n, []) ∧ n < 2 ^ 32

def IsFrame (bs : List UInt8) (frame : Frame) : Prop :=
  ∃ header n length, bs = header ++ (length ++ frame.body) ∧ IsNumber header n ∧
    Header.decode (UInt32.ofNat n) = .ok frame.header ∧ IsNumber length frame.body.length ∧
    frame.body.length ≤ maxMessageSize.toNat

/-- The number at the front ends within five bytes and fits into 32 bits, and so does the next one. -/
def Numbered (input : List UInt8) : Prop :=
  ∃ n rest, Varint.decodeLoose 5 input = .ok (n, rest) ∧ n < 2 ^ 32 ∧
    ∃ m rest', Varint.decodeLoose 5 rest = .ok (m, rest') ∧ m < 2 ^ 32

/-- What `read_uvarint` makes of the bytes that it takes. -/
def ReadAs (bs : List UInt8) (n : UInt32) : Prop :=
  (∃ m, Varint.decodeLoose 5 bs = .ok (m, []) ∧ n = UInt32.ofNat m) ∨
    Varint.Unfinished bs ∧ bs.length = 5

theorem takes_readUvarintLoop (hbuf : Varint.Unfinished buf) (hleft : buf.length + left = 5) :
    (readUvarintLoop left buf).Takes fun n taken => ReadAs (buf ++ taken) n := by
  induction left generalizing buf with
  | zero => exact .inr ⟨by rwa [append_nil], by rwa [append_nil]⟩
  | succ left ih =>
    have hbyte : readByte.Takes fun b taken => taken = [b] := by
      refine ⟨Nat.one_ne_zero, fun got hgot => ?_⟩
      match got with
      | [] => trivial
      | [b] => exact append_nil _
    refine hbyte.bind fun b taken htaken => ?_
    subst htaken
    dsimp only
    simp only [← append_assoc]
    split
    case isTrue hb =>
      obtain ⟨m, hm⟩ := Varint.decodeLoose_finished hbuf (k := 5) (by omega) (UInt8.lt_iff_toNat_lt.mp hb)
      rw [decodeU32, Varint.decodeWord, Varint.decodeLoose_append hm]
      refine .inl ⟨m, by rwa [append_nil], ?_⟩
      exact UInt32.toNat_inj.mp (by simp)
    case isFalse hb =>
      apply ih
      · exact hbuf.concat (Nat.not_lt.mp fun hlt => hb (UInt8.lt_iff_toNat_lt.mpr hlt))
      · rw [length_append, length_singleton]
        omega

theorem takes_recvFrame :
    recvFrame.Takes fun frame taken => ∃ header n length m, taken = header ++ (length ++ frame.body) ∧
      ReadAs header n ∧ Header.decode n = .ok frame.header ∧ ReadAs length m ∧
      m.toNat = frame.body.length ∧ m ≤ maxMessageSize := by
  have hnumber : readUvarint.Takes fun n taken => ReadAs taken n :=
    takes_readUvarintLoop (fun _ h => absurd h not_mem_nil) rfl
  refine (hnumber.mapError _).bind fun n header hn => ?_
  cases hheader : Header.decode n with
  | error e => trivial
  | ok hdr =>
    refine Takes.bind (Q := fun a taken => a = hdr ∧ taken = []) ⟨rfl, rfl⟩ fun a taken ha => ?_
    obtain ⟨rfl, rfl⟩ := ha
    refine (hnumber.mapError _).bind fun m length hm => ?_
    split
    case isTrue => trivial
    case isFalse hle =>
      split
      case isTrue hzero =>
        refine ⟨header, n, length, m, by simp, hn, hheader, hm, ?_, UInt32.not_lt.mp hle⟩
        rw [hzero]
        rfl
      case isFalse =>
        refine ((takes_readExact _ _).mapError _).bind fun body taken ⟨hbody, hlen⟩ => ?_
        subst hbody
        exact ⟨header, n, length, m, by simp, hn, hheader, hm, hlen.symm, UInt32.not_lt.mp hle⟩

theorem ReadAs.isNumber (h : ReadAs bs n) (hdecode : Varint.decodeLoose 5 (bs ++ t) = .ok (m, r))
    (hm : m < 2 ^ 32) : IsNumber bs n.toNat ∧ r = t := by
  rcases h with ⟨k, hk, rfl⟩ | ⟨hbs, hlen⟩
  · rw [Varint.decodeLoose_append hk] at hdecode
    cases hdecode
    rw [UInt32.toNat_ofNat_of_lt' hm]
    exact ⟨⟨hk, hm⟩, rfl⟩
  · have hoverflow := Varint.decodeLoose_overflow hbs t
    rw [hlen, hdecode] at hoverflow
    cases hoverflow

/-- The reader always returns. If it returns a frame, the bytes that it has taken are this frame exactly
if the two numbers end within five bytes and fit into 32 bits. -/
theorem recvFrame_sound_iff (ending : Ending FrameDecodeError) (sizes : Nat → Nat)
    (input : List UInt8) :
    let run := recvFrame.execUntil ending sizes input
    run.result.Returns ending ∧ ∀ frame, run.result = .ret frame →
      ((∃ taken, input = taken ++ run.rest ∧ IsFrame taken frame) ↔ Numbered input) := by
  intro run
  obtain ⟨hreturns, hret⟩ := takes_recvFrame.sound ending sizes input
  refine ⟨hreturns, fun frame hframe => ⟨?_, ?_⟩⟩
  · rintro ⟨taken, hinput, header, n, length, rfl, hn, -, hm, -⟩
    rw [append_assoc, append_assoc] at hinput
    rw [hinput]
    exact ⟨n, _, Varint.decodeLoose_append hn.1 _, hn.2, _, _, Varint.decodeLoose_append hm.1 _, hm.2⟩
  · rintro ⟨k, rest, hk, hklt, l, rest', hl, hllt⟩
    obtain ⟨taken, hinput, header, n, length, m, rfl, hn, hheader, hm, hbody, hle⟩ := hret frame hframe
    refine ⟨_, hinput, ?_⟩
    rw [hinput, append_assoc, append_assoc] at hk
    obtain ⟨hheader', rfl⟩ := hn.isNumber hk hklt
    obtain ⟨hlength, -⟩ := hm.isNumber hl hllt
    rw [hbody] at hlength
    refine ⟨header, n.toNat, length, rfl, hheader', ?_, hlength, ?_⟩
    · rw [UInt32.ofNat_toNat]
      exact hheader
    · rw [← hbody]
      exact UInt32.le_iff_toNat_le.mp hle

/-- Five bytes that do not end a number are read as the header of a new stream. -/
theorem unterminated_header_accepted :
    let run := recvFrame.execUntil .eof (fun _ => 0) [128, 128, 128, 128, 128, 0]
    run.result = .ret (.newStreamFrame ⟨0, false⟩ []) ∧ run.rest = [] ∧
      ¬IsFrame [128, 128, 128, 128, 128, 0] (.newStreamFrame ⟨0, false⟩ []) := by
  refine ⟨rfl, rfl, ?_⟩
  rintro ⟨header, n, length, heq, ⟨hn, -⟩, -⟩
  have hdecode := Varint.decodeLoose_append hn (length ++ [])
  rw [← show _ = header ++ (length ++ []) from heq] at hdecode
  cases hdecode

theorem close_frame_read :
    ∃ taken, [12, 0] = taken ++ (recvFrame.execUntil .eof (fun _ => 0) [12, 0]).rest ∧
      IsFrame taken (.closeFrame ⟨1, false⟩) := by
  apply ((recvFrame_sound_iff .eof (fun _ => 0) [12, 0]).2 _ rfl).mpr
  exact ⟨12, [0], rfl, by decide, 0, [], rfl, by decide⟩

/-! ## Lists of frames -/

namespace Frame

variable {frame : Frame}

theorem length_of_le (h : frame.body.length ≤ maxMessageSize.toNat) :
    frame.length.toNat = frame.body.length := by
  change frame.body.length ≤ 1048576 at h
  exact Nat.mod_eq_of_lt (by omega)

theorem fits_of_le (h : frame.body.length ≤ maxMessageSize.toNat) : frame.Fits := by
  rw [Frame.Fits, le_iff_toNat_le, length_of_le h]
  exact h

def mirror (frame : Frame) : Frame :=
  ⟨⟨⟨frame.streamId.id, !frame.streamId.initiator⟩, frame.header.tag⟩, frame.body⟩

theorem mirror_mirror (frame : Frame) : frame.mirror.mirror = frame := by
  obtain ⟨⟨⟨id, initiator⟩, tag⟩, body⟩ := frame
  rw [mirror, mirror]
  simp only [streamId, Bool.not_not]

/-- The number fits into the header, the stream is announced by the side that opens it, and the body is
not too long. -/
structure Regular (frame : Frame) : Prop where
  id : frame.streamId.id.toNat < 2 ^ 29
  announced : frame.header.tag = .newStream → frame.streamId.initiator = true
  body : frame.body.length ≤ maxMessageSize.toNat

theorem Regular.yields_sendFrame (h : frame.Regular) (input : List UInt8) :
    Yields (sendFrame frame) input (.ret ()) input frame.bytes := by
  have hsend := Mplex.yields_sendFrame frame input
  rwa [if_pos (fits_of_le h.body)] at hsend

theorem Regular.yields_recvFrame (h : frame.Regular) (rest : List UInt8) :
    Yields recvFrame (frame.bytes ++ rest) (.ret frame.mirror) rest [] := by
  have hrecv := Mplex.yields_recvFrame h.announced (fits_of_le h.body) rest
  rwa [length_of_le h.body, take_length, drop_length, nil_append,
    StreamID.remote_of_lt h.id] at hrecv

end Frame

/-- A list of frames is read back with the initiators exchanged, from exactly the bytes that were
written. Two streams that differ only in the initiator still differ. -/
theorem frames_round_trip (frames : List Frame) (h : ∀ frame ∈ frames, frame.Regular)
    (input rest : List UInt8) :
    Yields (frames.forM sendFrame) input (.ret ()) input (frames.flatMap Frame.bytes) ∧
      Yields (recvFrame.times frames.length) (frames.flatMap Frame.bytes ++ rest)
        (.ret (frames.map Frame.mirror)) rest [] ∧
      ∀ f ∈ frames, ∀ g ∈ frames, f.mirror.streamId = g.mirror.streamId ↔ f.streamId = g.streamId := by
  refine ⟨?_, ?_, ?_⟩
  · apply Yields.forM
    intro frame hframe
    exact (h frame hframe).yields_sendFrame input
  · have hread : ∀ g ∈ frames.map Frame.mirror, ∀ rest,
        Yields recvFrame (g.mirror.bytes ++ rest) (.ret g) rest [] := by
      intro g hg rest
      obtain ⟨frame, hframe, rfl⟩ := mem_map.mp hg
      rw [Frame.mirror_mirror]
      exact (h frame hframe).yields_recvFrame rest
    have htimes := Yields.times hread rest
    rw [length_map, flatMap_map] at htimes
    simpa only [Frame.mirror_mirror] using htimes
  · intro f _ g _
    obtain ⟨⟨⟨id, initiator⟩, tag⟩, body⟩ := f
    obtain ⟨⟨⟨id', initiator'⟩, tag'⟩, body'⟩ := g
    simp only [Frame.mirror, Frame.streamId, StreamID.mk.injEq, Bool.not_inj_iff]

/-- Two streams with the same number, one of each side. -/
theorem two_streams_round_trip :
    let frames : List Frame :=
      [.newStreamFrame ⟨5, true⟩ [49], .messageFrame ⟨5, true⟩ [1, 2], .messageFrame ⟨5, false⟩ [3],
        .closeFrame ⟨5, false⟩]
    Yields (recvFrame.times 4) (frames.flatMap Frame.bytes)
      (.ret [.newStreamFrame ⟨5, false⟩ [49], .messageFrame ⟨5, false⟩ [1, 2],
        .messageFrame ⟨5, true⟩ [3], .closeFrame ⟨5, true⟩]) [] [] := by
  intro frames
  have hid : ∀ frame ∈ frames, frame.streamId.id.toNat < 2 ^ 29 := by decide
  have hannounced : ∀ frame ∈ frames, frame.header.tag = .newStream →
      frame.streamId.initiator = true := by decide
  have hbody : ∀ frame ∈ frames, frame.body.length ≤ maxMessageSize.toNat := by decide
  have hregular : ∀ frame ∈ frames, frame.Regular := fun frame hframe =>
    ⟨hid frame hframe, hannounced frame hframe, hbody frame hframe⟩
  have hread := (frames_round_trip frames hregular [] []).2.1
  rwa [append_nil] at hread

end Libp2pRs.Mplex
