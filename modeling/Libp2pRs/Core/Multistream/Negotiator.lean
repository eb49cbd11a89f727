import Libp2pRs.Core.Multistream.Protocol
import Libp2pRs.Lib.Network

/-!
# Negotiation of a protocol

The dialer proposes its protocols one after the other until the listener confirms one of them.
Messages are sent behind their length, of at most two bytes.
-/

namespace Libp2pRs.Core.Multistream

open Lib Lib.Io List Varint

/-! ## Frames -/

def maxLenBytes : Nat := 2

def maxFrameSize : Nat := 2 ^ (maxLenBytes * 8 - maxLenBytes) - 1

def readExactly (n : Nat) : Io IoError (List UInt8) := readExact (.ofKind .unexpectedEof) n

def writeEverything (data : List UInt8) : Io IoError Unit := writeAll (.ofKind .writeZero) data

namespace LengthDelimited

def decodeU16 : List UInt8 → Except Varint.Error (Nat × List UInt8) := Varint.decodeWord 3 16

def lengthOf (b : List UInt8) : Except IoError Nat :=
  match decodeU16 b with
  | .ok (n, _) => .ok n
  | .error e => .error (.new .other (varintErrorText e))

def isLast (b : UInt8) : Bool := b.toNat < 128

/-- The loop of `read_unsigned_varint`, with the bytes that were read and the number of those that
may follow. -/
def readUnsignedVarintLoop : Nat → List UInt8 → Io IoError Nat
  | 0, _ => .fail (.new .other (varintErrorText .overflow))
  | left + 1, b => do
    let got ← readExactly 1
    if got.all isLast then lift (lengthOf (b ++ got)) else readUnsignedVarintLoop left (b ++ got)

def readUnsignedVarint : Io IoError Nat := readUnsignedVarintLoop 3 []

def recvMessage : Io IoError (List UInt8) := do
  let len ← readUnsignedVarint
  if len > maxFrameSize then .fail (.new .invalidData "Maximum frame length exceeded")
  else readExactly len

def sendMessage (buf : List UInt8) : Io IoError Unit :=
  if buf.length ≤ maxFrameSize then do
    writeEverything (Varint.encode buf.length ++ buf)
    .flush (.ret ())
  else .fail (.new .invalidData "Maximum frame size exceeded.")

end LengthDelimited

namespace MessageIO

def recvMessage : Io ProtocolError Message := do
  let msg ← LengthDelimited.recvMessage.mapError .ioError
  lift (Message.decode msg)

def sendMessage (msg : Message) : Io ProtocolError Unit :=
  (LengthDelimited.sendMessage msg.encode).mapError .ioError

end MessageIO

/-! ## The two sides -/

inductive NegotiationError where
  | protocolError (e : ProtocolError)
  | failed (cause : List String)
  deriving DecidableEq, Repr

/-- What is asked of the type of names: `AsRef<[u8]>` and `Debug`. -/
class ProtocolName (TProto : Type) where
  asRef : TProto → List UInt8
  debug : TProto → String

export ProtocolName (asRef debug)

instance : ProtocolName (List UInt8) where
  asRef := id
  debug := toString

structure Negotiator (TProto : Type) where
  protocols : List (TProto × Protocol)

def recv : Io NegotiationError Message := MessageIO.recvMessage.mapError .protocolError

def send (msg : Message) : Io NegotiationError Unit :=
  Io.mapError .protocolError <| MessageIO.sendMessage msg

def invalidMessage {α : Type} : Io NegotiationError α := .fail (.protocolError .invalidMessage)

namespace Negotiator

variable {TProto : Type}

def find (self : Negotiator TProto) (p : Protocol) : Option TProto :=
  self.protocols.findSome? fun (name, proto) => if p = proto then some name else none

/-- What `negotiate` does with a message. `next` is the loop for the messages that follow. -/
def onRequest (self : Negotiator TProto) (next : Io NegotiationError TProto) :
    Message → Io NegotiationError TProto
  | .listProtocols => do
    send (.protocols (self.protocols.map Prod.snd))
    next
  | .protocol p =>
    match self.find p with
    | some name => do
      send (.protocol p)
      return name
    | none => do
      send .notAvailable
      next
  | _ => invalidMessage

def negotiateLoop (self : Negotiator TProto) : Nat → Io NegotiationError TProto
  | 0 => .stop .spent
  | rounds + 1 => do
    let msg ← recv
    self.onRequest (self.negotiateLoop rounds) msg

def negotiate (self : Negotiator TProto) (rounds : Nat) : Io NegotiationError TProto := do
  let msg ← recv
  match msg with
  | .header version => do
    send (.header version)
    self.negotiateLoop rounds
  | _ => invalidMessage

variable [ProtocolName TProto]

def newWithProtocols (protocols : List TProto) : Negotiator TProto where
  protocols := protocols.filterMap fun n =>
    match Protocol.tryFrom (asRef n) with
    | .ok p => some (n, p)
    | .error _ => none

def addProtocol (self : Negotiator TProto) (proto : TProto) :
    Except ProtocolError (Negotiator TProto) := do
  let p ← Protocol.tryFrom (asRef proto)
  return ⟨self.protocols ++ [(proto, p)]⟩

/-- What `select_one` does with the answer to a proposal. `next` is the loop for the proposals that
follow. -/
def onReply (proto : TProto) (next : Io NegotiationError TProto) :
    Message → Io NegotiationError TProto
  | .protocol p => if p.name = asRef proto then return proto else invalidMessage
  | .notAvailable => next
  | _ => invalidMessage

def selectLoop : List (TProto × Protocol) → List String → Io NegotiationError TProto
  | [], cause => .close (.fail (.failed cause))
  | proto :: rest, cause => do
    send (.protocol proto.2)
    let msg ← recv
    onReply proto.1 (selectLoop rest (cause ++ [debug proto.1])) msg

def selectOne (self : Negotiator TProto) : Io NegotiationError TProto := do
  send (.header .v1)
  let msg ← recv
  if msg = .header .v1 then selectLoop self.protocols [] else invalidMessage

end Negotiator

/-! ## Frames are read back -/

namespace LengthDelimited

theorem lengthOf_encode (hn : n ≤ maxFrameSize) : lengthOf (encode n) = .ok n := by
  have hlt : n < 2 ^ 14 := Nat.lt_of_le_of_lt hn (by decide)
  have hdecode := decodeWord_encode (k := 2) (w := 16) (n := n) (by omega) (by omega) []
  rw [append_nil] at hdecode
  rw [lengthOf, decodeU16, hdecode]

theorem yields_readUnsignedVarintLoop (h : Yields (if isLast x then lift (lengthOf (b ++ [x])) else
      readUnsignedVarintLoop left (b ++ [x])) input r rest []) :
    Yields (readUnsignedVarintLoop (left + 1) b) (x :: input) r rest [] := by
  apply (Yields.readExact _ [x] input).bind_read
  rwa [all_cons, all_nil, Bool.and_true]

theorem yields_readUnsignedVarint (hn : n ≤ maxFrameSize) (rest : List UInt8) :
    Yields readUnsignedVarint (encode n ++ rest) (.ret n) rest [] := by
  have hlength := lengthOf_encode hn
  have hlt : n < 2 ^ 14 := Nat.lt_of_le_of_lt hn (by decide)
  rcases Nat.lt_or_ge n 128 with hone | htwo
  · rw [encode_of_lt hone] at hlength ⊢
    apply yields_readUnsignedVarintLoop
    rw [if_pos, nil_append, hlength]
    · exact .ret n rest
    · rw [isLast, toNat_ofNat_of_lt (by omega)]
      exact decide_eq_true hone
  · rw [encode_of_ge htwo, encode_of_lt (by omega)] at hlength ⊢
    apply yields_readUnsignedVarintLoop
    rw [if_neg]
    · apply yields_readUnsignedVarintLoop
      rw [if_pos, nil_append, singleton_append, hlength]
      · exact .ret n rest
      · rw [isLast, toNat_ofNat_of_lt (by omega)]
        exact decide_eq_true (by omega)
    · rw [isLast, toNat_ofNat_of_lt (by omega), decide_eq_true_eq]
      omega

theorem yields_recvMessage (h : buf.length ≤ maxFrameSize) (rest : List UInt8) :
    Yields recvMessage (encode buf.length ++ buf ++ rest) (.ret buf) rest [] := by
  rw [append_assoc]
  apply (yields_readUnsignedVarint h _).bind_read
  rw [if_neg (by omega)]
  exact .readExact _ buf rest

theorem yields_sendMessage (h : buf.length ≤ maxFrameSize) (input : List UInt8) :
    Yields (sendMessage buf) input (.ret ()) input (encode buf.length ++ buf) := by
  rw [sendMessage, if_pos h]
  have hwrite : Yields (writeEverything (encode buf.length ++ buf)) input (.ret ()) input
      (encode buf.length ++ buf) := .writeAll _ _ input
  have hsend := hwrite.bind (f := fun _ => .flush (.ret ())) (.flush (.ret () input))
  rwa [append_nil] at hsend

theorem even_recvMessage : recvMessage.Even := by
  have hloop : ∀ left b, (readUnsignedVarintLoop left b).Even := by
    intro left
    induction left with
    | zero => exact fun _ => trivial
    | succ left ih =>
      intro b
      apply (Even.readExact _ 1).bind
      intro got
      split
      · exact .lift _
      · exact ih _
  apply (hloop 3 []).bind
  intro len
  split
  · trivial
  · exact .readExact _ len

theorem even_sendMessage (buf : List UInt8) : (sendMessage buf).Even := by
  rw [sendMessage]
  split
  · exact (Even.writeAll _ _).bind fun _ => trivial
  · trivial

end LengthDelimited

def frame (msg : Message) : List UInt8 := Varint.encode msg.encode.length ++ msg.encode

/-- What both sides need of a message: it fits into a frame and is read back. -/
structure Sendable (msg : Message) : Prop where
  length_le : msg.encode.length ≤ maxFrameSize
  decode_eq : Message.decode msg.encode = .ok msg

theorem yields_send (h : Sendable msg) (input : List UInt8) :
    Yields (send msg) input (.ret ()) input (frame msg) :=
  ((LengthDelimited.yields_sendMessage h.length_le input).mapError _).mapError _

theorem yields_recv (h : Sendable msg) (rest : List UInt8) :
    Yields recv (frame msg ++ rest) (.ret msg) rest [] := by
  apply Yields.mapError
  apply ((LengthDelimited.yields_recvMessage h.length_le rest).mapError _).bind_read
  rw [h.decode_eq]
  exact .ret msg rest

theorem even_send (msg : Message) : (send msg).Even :=
  ((LengthDelimited.even_sendMessage _).mapError _).mapError _

theorem even_recv : recv.Even :=
  ((LengthDelimited.even_recvMessage.mapError _).bind fun _ => .lift _).mapError _

theorem sendable_header : Sendable (.header .v1) := ⟨by decide, rfl⟩

theorem sendable_notAvailable : Sendable .notAvailable := ⟨by decide, rfl⟩

structure ValidName (name : List UInt8) : Prop where
  head_eq : name.head? = some slash
  length_le : name.length ≤ 139
  ne_header : name ≠ multistream10

theorem sendable_protocol (h : ValidName p.name) : Sendable (.protocol p) := by
  have hlen := h.length_le
  constructor
  · rw [Message.length_protocol]
    exact Nat.le_trans (Nat.succ_le_succ hlen) (by decide)
  · exact Message.decode_protocol h.ne_header (by rw [maxProtocolLen]; omega)

theorem yields_recv_frame (h : Sendable msg) : Yields recv (frame msg) (.ret msg) [] [] := by
  have hrecv := yields_recv h []
  rwa [append_nil] at hrecv

section Exchange

open Relation Net

variable {α β : Type} {msg : Message} {k : Unit → Io NegotiationError α}
  {k' : Message → Io NegotiationError β}

theorem request (h : Sendable msg) :
    ReflTransGen UnitStep (start (send msg >>= k) (recv >>= k')) (start (k ()) (k' msg)) :=
  (left_run (yields_send h [])).trans (right_run (yields_recv_frame h))

theorem reply (h : Sendable msg) :
    ReflTransGen UnitStep (start (recv >>= k') (send msg >>= k)) (start (k' msg) (k ())) :=
  (right_run (yields_send h [])).trans (left_run (yields_recv_frame h))

end Exchange

namespace Negotiator

/-! ## The programs do not depend on the splitting of transfers -/

section Even

variable {TProto : Type}

theorem even_negotiateLoop (self : Negotiator TProto) (rounds : Nat) :
    (self.negotiateLoop rounds).Even := by
  induction rounds with
  | zero => trivial
  | succ rounds ih =>
    apply even_recv.bind
    intro msg
    cases msg with
    | header | protocols | notAvailable => trivial
    | listProtocols => exact (even_send _).bind fun _ => ih
    | protocol p =>
      rw [onRequest]
      split
      · exact (even_send _).bind fun _ => trivial
      · exact (even_send _).bind fun _ => ih

theorem even_negotiate (self : Negotiator TProto) (rounds : Nat) :
    (self.negotiate rounds).Even := by
  apply even_recv.bind
  intro msg
  cases msg with
  | header v => exact (even_send _).bind fun _ => self.even_negotiateLoop rounds
  | protocol | listProtocols | protocols | notAvailable => trivial

variable [ProtocolName TProto]

theorem even_selectLoop (protos : List (TProto × Protocol)) (cause : List String) :
    (selectLoop protos cause).Even := by
  induction protos generalizing cause with
  | nil => trivial
  | cons proto protos ih =>
    apply (even_send _).bind
    intro _
    apply even_recv.bind
    intro msg
    cases msg with
    | header | listProtocols | protocols => trivial
    | notAvailable => exact ih _
    | protocol p =>
      rw [onReply]
      split <;> trivial

theorem even_selectOne (self : Negotiator TProto) : self.selectOne.Even := by
  apply (even_send _).bind
  intro _
  apply even_recv.bind
  intro msg
  split
  · exact even_selectLoop _ _
  · trivial

end Even

/-! ## The rounds -/

section Rounds

open Relation Net

variable {δ ℓ α₁ α₂ : Type} [ProtocolName δ]
  {listener : Negotiator ℓ} {f : δ → Io NegotiationError α₁} {g : ℓ → Io NegotiationError α₂}
  {proto : δ × Protocol} {protos : List (δ × Protocol)} {cause : List String} {rounds : Nat}

theorem selectLoop_bind : selectLoop (proto :: protos) cause >>= f =
    send (.protocol proto.2) >>= fun _ => recv >>= fun msg =>
      onReply proto.1 (selectLoop protos (cause ++ [debug proto.1])) msg >>= f := by
  simp only [selectLoop, bind_bind]

omit [ProtocolName δ] in
theorem negotiateLoop_bind : listener.negotiateLoop (rounds + 1) >>= g =
    recv >>= fun msg => listener.onRequest (listener.negotiateLoop rounds) msg >>= g := by
  simp only [negotiateLoop, bind_bind]

theorem round_confirmed (hvalid : ValidName proto.2.name)
    (hname : proto.2.name = asRef proto.1) (hfind : listener.find proto.2 = some name) :
    ReflTransGen UnitStep (start (selectLoop (proto :: protos) cause >>= f)
        (listener.negotiateLoop (rounds + 1) >>= g)) (start (f proto.1) (g name)) := by
  have hsend := sendable_protocol hvalid
  have hanswer : listener.onRequest (listener.negotiateLoop rounds) (.protocol proto.2) >>= g =
      send (.protocol proto.2) >>= fun _ => g name := by
    rw [onRequest, hfind]
    exact bind_bind _ _ _
  rw [selectLoop_bind, negotiateLoop_bind]
  refine (request hsend).trans ?_
  rw [hanswer]
  refine (reply hsend).trans ?_
  rw [onReply, if_pos hname]
  exact .refl

theorem round_rejected (hvalid : ValidName proto.2.name) (hfind : listener.find proto.2 = none) :
    ReflTransGen UnitStep (start (selectLoop (proto :: protos) cause >>= f)
        (listener.negotiateLoop (rounds + 1) >>= g))
      (start (selectLoop protos (cause ++ [debug proto.1]) >>= f)
        (listener.negotiateLoop rounds >>= g)) := by
  have hanswer : listener.onRequest (listener.negotiateLoop rounds) (.protocol proto.2) >>= g =
      send .notAvailable >>= fun _ => listener.negotiateLoop rounds >>= g := by
    rw [onRequest, hfind]
    exact bind_bind _ _ _
  rw [selectLoop_bind, negotiateLoop_bind]
  refine (request (sendable_protocol hvalid)).trans ?_
  rw [hanswer]
  exact reply sendable_notAvailable

theorem rounds_over : ReflTransGen UnitStep
      (start (selectLoop [] cause >>= f) (listener.negotiateLoop (rounds + 1) >>= g))
      ⟨.fail (.failed cause), .fail (.protocolError (.ioError (.ofKind .unexpectedEof))), [], [],
        true, false⟩ := by
  have hclose : UnitStep
      (start (selectLoop [] cause >>= f) (listener.negotiateLoop (rounds + 1) >>= g))
      ⟨.fail (.failed cause), listener.negotiateLoop (rounds + 1) >>= g, [], [], true, false⟩ :=
    ⟨.left, rfl⟩
  refine .head hclose (.single ⟨.right, ?_⟩)
  rw [negotiateLoop_bind, recv, MessageIO.recvMessage, LengthDelimited.recvMessage,
    LengthDelimited.readUnsignedVarint, LengthDelimited.readUnsignedVarintLoop, readExactly,
    Io.readExact, if_neg Nat.one_ne_zero]
  rfl

theorem opening {dialer : Negotiator δ} :
    ReflTransGen UnitStep (start (dialer.selectOne >>= f) (listener.negotiate rounds >>= g))
      (start (selectLoop dialer.protocols [] >>= f) (listener.negotiateLoop rounds >>= g)) := by
  simp only [selectOne, negotiate, bind_bind]
  refine (request sendable_header).trans ?_
  rw [bind_bind]
  exact reply sendable_header

end Rounds

/-! ## Lists of names -/

section Names

variable {TProto : Type} [ProtocolName TProto] {d : TProto} {D : List TProto}

theorem protocols_cons (h : ValidName (asRef d)) : ∃ p : Protocol, p.name = asRef d ∧
      (newWithProtocols (d :: D)).protocols = (d, p) :: (newWithProtocols D).protocols := by
  have hlen : (asRef d).length ≤ maxProtocolLen := Nat.le_trans h.length_le (by decide)
  refine ⟨⟨asRef d, h.head_eq, hlen⟩, rfl, ?_⟩
  have htry : Protocol.tryFrom (asRef d) = .ok ⟨asRef d, h.head_eq, hlen⟩ :=
    dif_pos ⟨h.head_eq, hlen⟩
  rw [newWithProtocols, filterMap_cons, htry]
  rfl

omit [ProtocolName TProto] in
theorem find_cons : (mk ((name, proto) :: protos)).find p =
      if p.name = proto.name then some name else (mk protos).find p := by
  have heq : p = proto ↔ p.name = proto.name := by
    constructor
    · rintro rfl
      rfl
    · intro h
      cases p
      cases proto
      simpa using h
  rw [find, findSome?_cons]
  dsimp only
  by_cases h : p = proto
  · rw [if_pos h, if_pos (heq.mp h)]
  · rw [if_neg h, if_neg fun h' => h (heq.mpr h')]
    rfl

theorem find_newWithProtocols (h : ∀ d ∈ D, ValidName (asRef d)) (p : Protocol) :
    (newWithProtocols D).find p = D.find? fun d => p.name = asRef d := by
  induction D with
  | nil => rfl
  | cons d D ih =>
    obtain ⟨proto, hname, hcons⟩ := protocols_cons (D := D) (h d mem_cons_self)
    have hmk : newWithProtocols (d :: D) = mk ((d, proto) :: (newWithProtocols D).protocols) :=
      congrArg mk hcons
    rw [hmk, find_cons, hname, find?_cons]
    split
    case isTrue heq => rw [decide_eq_true heq]
    case isFalse hne =>
      rw [decide_eq_false hne]
      exact ih fun d hd => h d (mem_cons_of_mem _ hd)

end Names

/-! ## The negotiation -/

section Settles

open Relation Net

variable {δ ℓ : Type} [ProtocolName δ] [ProtocolName ℓ]

def thenWrite {TProto : Type} (app : List UInt8) (name : TProto) :
    Io NegotiationError TProto := do
  (writeEverything app).mapError fun e => .protocolError (.ioError e)
  return name

def dial (D : List δ) (app : List UInt8) : Io NegotiationError δ :=
  (newWithProtocols D).selectOne >>= thenWrite app

def serve (L : List ℓ) (rounds : Nat) (app : List UInt8) : Io NegotiationError ℓ :=
  (newWithProtocols L).negotiate rounds >>= thenWrite app

section Loops

variable {α₁ α₂ : Type} {L : List ℓ} {f : δ → Io NegotiationError α₁}
  {g : ℓ → Io NegotiationError α₂} {cause : List String} {rounds : Nat}

theorem loops_agree (hL : ∀ l ∈ L, ValidName (asRef l)) {pre post : List δ} {d : δ} {l : ℓ}
    (hpre : ∀ d' ∈ pre, ValidName (asRef d') ∧ asRef d' ∉ L.map asRef) (hd : ValidName (asRef d))
    (hl : L.find? (fun l => asRef d = asRef l) = some l) (hrounds : pre.length < rounds) :
    ReflTransGen UnitStep
      (start (selectLoop (newWithProtocols (pre ++ d :: post)).protocols cause >>= f)
        ((newWithProtocols L).negotiateLoop rounds >>= g))
      (start (f d) (g l)) := by
  induction pre generalizing cause rounds with
  | nil =>
    obtain ⟨rounds, rfl⟩ : ∃ k, rounds = k + 1 := ⟨rounds - 1, by
      omega⟩
    obtain ⟨p, hname, hcons⟩ := protocols_cons (D := post) hd
    rw [nil_append, hcons]
    apply round_confirmed (hname ▸ hd) hname
    rw [find_newWithProtocols hL, hname, hl]
  | cons d' pre ih =>
    rw [length_cons] at hrounds
    obtain ⟨rounds, rfl⟩ : ∃ k, rounds = k + 1 := ⟨rounds - 1, by omega⟩
    obtain ⟨hvalid, hnot⟩ := hpre d' mem_cons_self
    obtain ⟨p, hname, hcons⟩ := protocols_cons (D := pre ++ d :: post) hvalid
    rw [cons_append, hcons]
    have hfind : (newWithProtocols L).find p = none := by
      rw [find_newWithProtocols hL, hname, find?_eq_none]
      intro l hl heq
      exact hnot (mem_map.mpr ⟨l, hl, (of_decide_eq_true heq).symm⟩)
    refine (round_rejected (hname ▸ hvalid) hfind).trans ?_
    exact ih (fun d hd => hpre d (mem_cons_of_mem _ hd)) (by omega)

theorem loops_fail (hL : ∀ l ∈ L, ValidName (asRef l)) {D : List δ}
    (hD : ∀ d ∈ D, ValidName (asRef d) ∧ asRef d ∉ L.map asRef) (hrounds : D.length < rounds) :
    ReflTransGen UnitStep (start (selectLoop (newWithProtocols D).protocols cause >>= f)
        ((newWithProtocols L).negotiateLoop rounds >>= g))
      ⟨.fail (.failed (cause ++ D.map debug)),
        .fail (.protocolError (.ioError (.ofKind .unexpectedEof))), [], [], true, false⟩ := by
  induction D generalizing cause rounds with
  | nil =>
    obtain ⟨rounds, rfl⟩ : ∃ k, rounds = k + 1 := ⟨rounds - 1, by
      omega⟩
    rw [map_nil, append_nil]
    exact rounds_over
  | cons d D ih =>
    rw [length_cons] at hrounds
    obtain ⟨rounds, rfl⟩ : ∃ k, rounds = k + 1 := ⟨rounds - 1, by omega⟩
    obtain ⟨hvalid, hnot⟩ := hD d mem_cons_self
    obtain ⟨p, hname, hcons⟩ := protocols_cons (D := D) hvalid
    have hfind : (newWithProtocols L).find p = none := by
      rw [find_newWithProtocols hL, hname, find?_eq_none]
      intro l hl heq
      exact hnot (mem_map.mpr ⟨l, hl, (of_decide_eq_true heq).symm⟩)
    rw [hcons, map_cons, append_cons]
    refine (round_rejected (hname ▸ hvalid) hfind).trans ?_
    exact ih (fun d hd => hD d (mem_cons_of_mem _ hd)) (by omega)

end Loops

theorem even_thenWrite {TProto : Type} (app : List UInt8) (name : TProto) :
    (thenWrite app name).Even :=
  ((Even.writeAll _ app).mapError _).bind fun _ => trivial

omit [ProtocolName δ] [ProtocolName ℓ] in
theorem both_write (d : δ) (l : ℓ) (toListener toDialer : List UInt8) :
    ReflTransGen UnitStep (start (thenWrite toListener d) (thenWrite toDialer l))
      ⟨.ret d, .ret l, toDialer, toListener, false, false⟩ := by
  have hwrite : ∀ app input : List UInt8,
      Yields ((writeEverything app).mapError fun e => NegotiationError.protocolError (.ioError e))
        input (.ret ()) input app :=
    fun app input => (Yields.writeAll _ app input).mapError _
  exact (left_run (hwrite toListener [])).trans (right_run (hwrite toDialer _))

/-- Every run of `select_one` against `negotiate` ends. If the lists share a name, both sides
return the first proposal the listener knows, and the bytes that are written next are those the
other side reads next. If they share none, the dialer reports all its proposals and the listener
the end of the stream. -/
theorem negotiation_settles (D : List δ) (L : List ℓ) (hD : ∀ d ∈ D, ValidName (asRef d))
    (hL : ∀ l ∈ L, ValidName (asRef l)) (toListener toDialer : List UInt8) (rounds : Nat)
    (hrounds : D.length < rounds) :
    (∀ pre d post, D = pre ++ d :: post → asRef d ∈ L.map asRef →
      (∀ d' ∈ pre, asRef d' ∉ L.map asRef) →
      ∃ l ∈ L, asRef l = asRef d ∧
        (start (dial D toListener) (serve L rounds toDialer)).Settles
          ⟨.ret d, .ret l, toDialer, toListener, false, false⟩) ∧
      ((∀ d ∈ D, asRef d ∉ L.map asRef) →
        (start (dial D toListener) (serve L rounds toDialer)).Settles
          ⟨.fail (.failed (D.map debug)),
            .fail (.protocolError (.ioError (.ofKind .unexpectedEof))), [], [], true, false⟩) := by
  have hleft : (dial D toListener).Even :=
    (even_selectOne _).bind fun _ => even_thenWrite _ _
  have hright : (serve L rounds toDialer).Even :=
    (even_negotiate _ rounds).bind fun _ => even_thenWrite _ _
  constructor
  · rintro pre d post rfl hd hpre
    obtain ⟨l, hl⟩ : ∃ l, L.find? (fun l => asRef d = asRef l) = some l := by
      obtain ⟨l, hl, heq⟩ := mem_map.mp hd
      apply Option.isSome_iff_exists.mp
      rw [find?_isSome]
      exact ⟨l, hl, decide_eq_true heq.symm⟩
    have hname : asRef d = asRef l := by simpa using find?_some hl
    refine ⟨l, mem_of_find?_eq_some hl, hname.symm, ?_⟩
    rw [length_append] at hrounds
    apply settles_of_path hleft hright
    · refine opening.trans ((loops_agree hL ?_ ?_ hl (by omega)).trans ?_)
      · exact fun d' hd' => ⟨hD d' (mem_append_left _ hd'), hpre d' hd'⟩
      · exact hD d (mem_append_right _ mem_cons_self)
      · exact both_write d l toListener toDialer
    · rintro x ⟨side, hx⟩
      cases side <;> cases hx
  · intro hnone
    apply settles_of_path hleft hright
    · exact opening.trans (loops_fail hL (fun d hd => ⟨hD d hd, hnone d hd⟩) hrounds)
    · rintro x ⟨side, hx⟩
      cases side <;> cases hx

def sampleName (letter : UInt8) : List UInt8 := [slash, letter]

theorem validName_sampleName (letter : UInt8) : ValidName (asRef (sampleName letter)) := by
  have hlen : (asRef (sampleName letter)).length = 2 := rfl
  refine ⟨rfl, by omega, fun h => ?_⟩
  rw [h] at hlen
  exact absurd hlen (by decide)

/-- The second proposal is the first one that is known, and a proposal that is not known. -/
theorem sampleProposals_settle :
    (start (dial [sampleName 97, sampleName 98] [1])
      (serve [sampleName 99, sampleName 98] 3 [2])).Settles
        ⟨.ret (sampleName 98), .ret (sampleName 98), [2], [1], false, false⟩ ∧
      (start (dial [sampleName 97] [1]) (serve [sampleName 98] 2 [2])).Settles
        ⟨.fail (.failed [debug (sampleName 97)]),
          .fail (.protocolError (.ioError (.ofKind .unexpectedEof))), [], [], true, false⟩ := by
  constructor
  · obtain ⟨l, hl, hname, hsettles⟩ :=
      (negotiation_settles [sampleName 97, sampleName 98] [sampleName 99, sampleName 98]
        (by simp [validName_sampleName]) (by simp [validName_sampleName]) [1] [2] 3 (by decide)).1
        [sampleName 97] (sampleName 98) [] rfl (by decide) (by decide)
    obtain rfl : l = sampleName 98 := hname
    exact hsettles
  · exact (negotiation_settles [sampleName 97] [sampleName 98] (by simp [validName_sampleName])
      (by simp [validName_sampleName]) [1] [2] 2 (by decide)).2 (by decide)

end Settles

end Negotiator

end Libp2pRs.Core.Multistream
