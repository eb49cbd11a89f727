import Libp2pRs.Core.PeerId
import Libp2pRs.Noise.Stream

/-!
# The Noise handshake

Both sides send messages of the pattern `XX`, and in the payload of one of them the remote identifies
itself by a public key and a signature over its static key. The messages are made by the crate `snow`,
which is taken as an ideal handshake: a message is opened or it is not, and then its payload and the
static key of the remote are known.

A payload need not have a public key. Then `finish` knows the static key of the remote only, and the
upgrade gives a stream without an identity.
-/

variable {sizes : Nat → Nat} {input : List UInt8}

namespace Libp2pRs.Lib.Io

variable {ε α β : Type}

/-- Every value that the program may return satisfies `Q`. -/
def Ensures (Q : α → Prop) : Io ε α → Prop
  | ret a => Q a
  | fail _ | stop _ => True
  | read _ k => ∀ got, (k got).Ensures Q
  | write _ k => ∀ n, (k n).Ensures Q
  | flush k | close k => k.Ensures Q

variable {p : Io ε α}

variable {Q : α → Prop}

theorem Ensures.mono {P : α → Prop} (hp : p.Ensures P) (h : ∀ a, P a → Q a) : p.Ensures Q := by
  induction p with
  | ret a => exact h a hp
  | fail | stop => trivial
  | read n k ih => exact fun got => ih got (hp got)
  | write data k ih => exact fun n => ih n (hp n)
  | flush k ih | close k ih => exact ih hp

variable {f : α → Io ε β}

theorem Ensures.bind {P : α → Prop} {Q : β → Prop} (hp : p.Ensures P)
    (hf : ∀ a, P a → (f a).Ensures Q) : (p >>= f).Ensures Q := by
  induction p with
  | ret a => exact hf a hp
  | fail | stop => trivial
  | read n k ih => exact fun got => ih got (hp got)
  | write data k ih => exact fun n => ih n (hp n)
  | flush k ih | close k ih => exact ih hp

theorem ensures_true (p : Io ε α) : p.Ensures fun _ => True := by
  induction p with
  | ret | fail | stop => trivial
  | read n k ih => exact fun got => ih got
  | write data k ih => exact fun n => ih n
  | flush k ih | close k ih => exact ih

theorem Ensures.after {Q : β → Prop} (hf : ∀ a, (f a).Ensures Q) : (p >>= f).Ensures Q :=
  p.ensures_true.bind fun a _ => hf a

theorem ensures_lift {x : Except ε α} (h : ∀ a, x = .ok a → Q a) : (lift x).Ensures Q := by
  cases x with
  | error e => trivial
  | ok a => exact h a rfl

theorem Ensures.execUntil (hp : p.Ensures Q) {ending : Ending ε} {a : α}
    (h : (p.execUntil ending sizes input).result = .ret a) : Q a := by
  induction p generalizing sizes input with
  | ret b =>
    cases h
    exact hp
  | fail | stop | close => cases h
  | flush k ih => exact ih hp h
  | write data k ih => exact ih _ (hp _) h
  | read n k ih =>
    rw [Io.execUntil] at h
    split at h
    · exact ih _ (hp _) h
    · split at h
      · cases ending with
        | pending | broken => cases h
        | eof => exact ih _ (hp _) h
      · exact ih _ (hp _) h

theorem execUntil_bind_ret (h : ((p >>= f).execUntil ending sizes input).result = .ret b) :
    ∃ a sizes' mid, (p.execUntil ending sizes input).result = .ret a ∧
      ((f a).execUntil ending sizes' mid).result = .ret b := by
  rw [execUntil_bind] at h
  generalize p.execUntil ending sizes input = run at h ⊢
  obtain ⟨r, mid, sent, sizes'⟩ := run
  cases r with
  | ret a => exact ⟨a, sizes', mid, rfl, h⟩
  | fail | stop | waiting | closing => cases h

end Libp2pRs.Lib.Io

namespace Libp2pRs.Noise

open Lib Libp2pRs.Core

inductive NoiseError where
  | io (e : IoError)
  | noise
  | invalidKey
  | authenticationFailed
  | invalidPayload
  | signingError
  deriving DecidableEq, Repr

/-! ## What is outside of the repository -/

structure NoiseHandshakePayload where
  identityKey : List UInt8
  identitySig : List UInt8
  deriving DecidableEq, Repr

/-- Payloads as protobuf messages, and public keys. A key of Ed25519 gives a key of X25519. -/
structure Externals (K : Type) where
  decode : List UInt8 → Option NoiseHandshakePayload
  encode : NoiseHandshakePayload → List UInt8
  fromProtobufEncoding : List UInt8 → Option K
  intoProtobufEncoding : K → List UInt8
  intoPeerId : K → PeerId
  verify : K → List UInt8 → List UInt8 → Bool
  fromEd25519 : K → Option (List UInt8)

/-- The messages of an ideal handshake, by their numbers. Opening a message gives the static key of the
remote and the payload. -/
structure Ideal where
  encrypt : Nat → List UInt8 → List UInt8
  decrypt : Nat → List UInt8 → Option (List UInt8 × List UInt8)

/-- `snow::HandshakeState` for the pattern `XX`: the initiator writes the first and the third message, and
the static keys are in the second and the third. -/
structure HandshakeState where
  ideal : Ideal
  initiator : Bool
  turn : Nat
  remoteStatic : Option (List UInt8)
  transport : TransportState

namespace HandshakeState

def writes (s : HandshakeState) : Bool := decide (s.turn % 2 = 0) = s.initiator

def writeMessage (s : HandshakeState) (payload : List UInt8) (size : Nat) :
    Option (List UInt8 × HandshakeState) :=
  if s.turn < 3 ∧ s.writes then
    let message := s.ideal.encrypt s.turn payload
    if message.length > maxNoiseMsgLen ∨ message.length > size then none
    else some (message, { s with turn := s.turn + 1 })
  else none

def readMessage (s : HandshakeState) (message : List UInt8) : Option (List UInt8 × HandshakeState) :=
  if s.turn < 3 ∧ ¬s.writes then
    match s.ideal.decrypt s.turn message with
    | none => none
    | some (key, payload) =>
      some (payload,
        { s with
          turn := s.turn + 1
          remoteStatic := if s.turn = 0 then s.remoteStatic else some key })
  else none

def intoTransportMode (s : HandshakeState) : Option TransportState :=
  if s.turn = 3 then some s.transport else none

end HandshakeState

/-! ## Protocols -/

/-- `Protocol<C>`: static keys, and how they are bound to public keys. -/
structure Protocol (K : Type) where
  publicFromBytes : List UInt8 → Except NoiseError (List UInt8)
  verify : K → List UInt8 → Option (List UInt8) → Bool

namespace Protocol

variable {K : Type} (c : Externals K)

def publicFromBytes32 (bytes : List UInt8) : Except NoiseError (List UInt8) :=
  if bytes.length ≠ 32 then .error .invalidKey else .ok bytes

/-- The static key is the one that the public key gives. -/
def linked (idPk : K) (dhPk : List UInt8) : Bool :=
  match c.fromEd25519 idPk with
  | some key => key = dhPk
  | none => false

def x25519 : Protocol K where
  publicFromBytes := publicFromBytes32
  verify idPk dhPk sig := linked c idPk dhPk || sig.elim false fun s => c.verify idPk dhPk s

def staticKeyDomain : List UInt8 := "noise-libp2p-static-key:".toUTF8.toList

def x25519Spec : Protocol K where
  publicFromBytes := publicFromBytes32
  verify idPk dhPk sig := sig.elim false fun s => c.verify idPk (staticKeyDomain ++ dhPk) s

end Protocol

/-! ## Messages -/

structure HandshakeFramed where
  session : HandshakeState
  readBuffer : List UInt8
  writeBuffer : List UInt8

namespace HandshakeFramed

/-- `next`, which skips up to `rounds` frames without data. -/
def next : Nat → HandshakeFramed → Io NoiseError (List UInt8 × HandshakeFramed)
  | 0, _ => .stop .spent
  | rounds + 1, this => do
    let len ← Io.readExact (.io (.new .unexpectedEof "eof")) 2
    if beNat len = 0 then next rounds this
    else
      let data ← Io.readExact (.io unexpectedEof) (beNat len)
      match this.session.readMessage data with
      | some (payload, session) => return (payload, { this with session := session, readBuffer := data })
      | none => .fail (.io invalidData)

/-- `send`, whose assertion on the length may fail. -/
def send (this : HandshakeFramed) (frame : List UInt8) : Io NoiseError HandshakeFramed :=
  if ¬frame.length ≤ maxFrameLen then .stop .panicked
  else
    match this.session.writeMessage frame (frame.length + extraEncryptSpace) with
    | none => .fail (.io invalidData)
    | some (message, session) => do
      Io.writeAll (.io writeZero) (beBytes 2 message.length)
      Io.writeAll (.io writeZero) message
      Io.flush (.ret { this with session := session, writeBuffer := message })

end HandshakeFramed

/-! ## The handshake -/

structure KeypairIdentity (K : Type) where
  publicKey : K
  signature : Option (List UInt8)

structure LegacyConfig where
  sendLegacyHandshake : Bool
  recvLegacyHandshake : Bool

inductive RemoteIdentity (K : Type) where
  | unknown
  | staticDhKey (key : List UInt8)
  | identityKey (key : K)

inductive IdentityExchange (K : Type) where
  | mutual
  | send (remote : K)
  | receive
  | none (remote : K)

structure State (K : Type) where
  io : HandshakeFramed
  identity : KeypairIdentity K
  dhRemotePubkeySig : Option (List UInt8)
  idRemotePubkey : Option K
  sendIdentity : Bool
  legacy : LegacyConfig

namespace State

variable {K : Type} (c : Externals K)

def new (session : Except NoiseError HandshakeState) (identity : KeypairIdentity K)
    (identityX : IdentityExchange K) (legacy : LegacyConfig) : Except NoiseError (State K) :=
  let (idRemotePubkey, sendIdentity) :=
    match identityX with
    | .mutual => (none, true)
    | .send remote => (some remote, true)
    | .receive => (none, false)
    | .none remote => (some remote, false)
  session.map fun s => ⟨⟨s, [], []⟩, identity, none, idRemotePubkey, sendIdentity, legacy⟩

def intoTransport (p : Protocol K) (io : HandshakeFramed) :
    Except NoiseError (Option (List UInt8) × NoiseOutput) := do
  let dhRemotePubkey ←
    match io.session.remoteStatic with
    | none => pure none
    | some key => some <$> p.publicFromBytes key
  match io.session.intoTransportMode with
  | none => .error .noise
  | some session =>
    return (dhRemotePubkey, .new ⟨session, .ready, .ready, io.readBuffer, io.writeBuffer⟩)

def finish (p : Protocol K) (s : State K) : Except NoiseError (RemoteIdentity K × NoiseOutput) := do
  let (pubkey, io) ← intoTransport p s.io
  match s.idRemotePubkey, pubkey with
  | _, none => return (.unknown, io)
  | none, some dhPk => return (.staticDhKey dhPk, io)
  | some idPk, some dhPk =>
    if p.verify idPk dhPk s.dhRemotePubkeySig then return (.identityKey idPk, io)
    else .error .invalidKey

variable (rounds : Nat)

def recv (s : State K) : Io NoiseError (List UInt8 × State K) := do
  let (msg, io) ← s.io.next rounds
  return (msg, { s with io := io })

def recvEmpty (s : State K) : Io NoiseError (State K) := do
  let (msg, s) ← s.recv rounds
  if msg ≠ [] then .fail (.io (.new .invalidData "Unexpected handshake payload."))
  else return s

def sendEmpty (s : State K) : Io NoiseError (State K) := do
  let io ← s.io.send []
  return { s with io := io }

/-- A payload may have its length before it, if the other side is of an old version. -/
def decodePayload (legacy : LegacyConfig) (msg : List UInt8) : Option NoiseHandshakePayload :=
  match c.decode msg with
  | some pb => some pb
  | none =>
    if legacy.recvLegacyHandshake then
      if msg.length > 2 then
        if beNat (msg.take 2) + 2 = msg.length then c.decode (msg.drop 2) else none
      else none
    else none

def recvPayload (s : State K) : Io NoiseError (NoiseHandshakePayload × State K) := do
  let (msg, s) ← s.recv rounds
  match decodePayload c s.legacy msg with
  | none => .fail .invalidPayload
  | some pb => return (pb, s)

/-- The second part of `recv_identity`: the key, which has to be the expected one if there is one, and
the signature. -/
def storeIdentity [DecidableEq K] (pb : NoiseHandshakePayload) (s : State K) : Except NoiseError (State K) := do
  let s ←
    if pb.identityKey ≠ [] then
      match c.fromProtobufEncoding pb.identityKey with
      | none => .error .invalidKey
      | some pk =>
        match s.idRemotePubkey with
        | some k => if k ≠ pk then .error .invalidKey else .ok { s with idRemotePubkey := some pk }
        | none => .ok { s with idRemotePubkey := some pk }
    else .ok s
  if pb.identitySig ≠ [] then .ok { s with dhRemotePubkeySig := some pb.identitySig } else .ok s

def recvIdentity [DecidableEq K] (s : State K) : Io NoiseError (State K) := do
  let (pb, s) ← s.recvPayload c rounds
  Io.lift (s.storeIdentity c pb)

def identityMessage (s : State K) : List UInt8 :=
  let pb : NoiseHandshakePayload :=
    { identityKey := if s.sendIdentity then c.intoProtobufEncoding s.identity.publicKey else []
      identitySig := s.identity.signature.getD [] }
  if s.legacy.sendLegacyHandshake then
    beBytes 2 ((c.encode pb).length % 2 ^ 16) ++ c.encode pb
  else c.encode pb

def sendIdentityMessage (s : State K) : Io NoiseError (State K) := do
  let io ← s.io.send (s.identityMessage c)
  return { s with io := io }

end State

/-- What a handshake gives, and the static key of the remote that its session knows. -/
structure Handshake (K : Type) where
  identity : RemoteIdentity K
  output : NoiseOutput
  remoteStatic : Option (List UInt8)

def State.handshake {K : Type} (p : Protocol K) (s : State K) : Except NoiseError (Handshake K) :=
  (s.finish p).map fun (identity, output) => ⟨identity, output, s.io.session.remoteStatic⟩

/-! ## Upgrades -/

/-- `NoiseConfig<XX, C>` with the crates it uses; the builder of a session may fail. -/
structure NoiseConfig (K : Type) where
  externals : Externals K
  protocol : Protocol K
  identity : KeypairIdentity K
  legacy : LegacyConfig
  build : Except NoiseError (Ideal × TransportState)

/-- A stream. As in a `Handshake`, the static key is the one that the session knows. -/
structure NoiseStream (K : Type) where
  io : NoiseOutput
  remoteStatic : Option (List UInt8)
  pubKey : Option K

namespace NoiseStream

variable {K : Type}

def remotePubKey (s : NoiseStream K) : Option K := s.pubKey

def remotePeer (c : Externals K) (s : NoiseStream K) : Option PeerId := s.pubKey.map c.intoPeerId

end NoiseStream

namespace NoiseConfig

variable {K : Type} (cfg : NoiseConfig K) (rounds : Nat)

def session (initiator : Bool) : Except NoiseError HandshakeState :=
  cfg.build.map fun (ideal, transport) => ⟨ideal, initiator, 0, none, transport⟩

def state (initiator : Bool) : Except NoiseError (State K) :=
  State.new (cfg.session initiator) cfg.identity .mutual cfg.legacy

def rt15Initiator [DecidableEq K] : Io NoiseError (Handshake K) := do
  let s ← Io.lift (cfg.state true)
  let s ← s.sendEmpty
  let s ← s.recvIdentity cfg.externals rounds
  let s ← s.sendIdentityMessage cfg.externals
  Io.lift (s.handshake cfg.protocol)

def rt15Responder [DecidableEq K] : Io NoiseError (Handshake K) := do
  let s ← Io.lift (cfg.state false)
  let s ← s.recvEmpty rounds
  let s ← s.sendIdentityMessage cfg.externals
  let s ← s.recvIdentity cfg.externals rounds
  Io.lift (s.handshake cfg.protocol)

def handshake [DecidableEq K] (initiator : Bool) : Io NoiseError (Handshake K) :=
  if initiator then cfg.rt15Initiator rounds else cfg.rt15Responder rounds

def stream (h : Handshake K) : NoiseStream K where
  io := h.output
  remoteStatic := h.remoteStatic
  pubKey :=
    match h.identity with
    | .identityKey key => some key
    | _ => none

def upgradeInbound [DecidableEq K] : Io NoiseError (NoiseStream K) := do
  let h ← cfg.handshake rounds false
  return stream h

def upgradeOutbound [DecidableEq K] : Io NoiseError (NoiseStream K) := do
  let h ← cfg.handshake rounds true
  return stream h

def upgrade [DecidableEq K] (initiator : Bool) : Io NoiseError (NoiseStream K) :=
  if initiator then cfg.upgradeOutbound rounds else cfg.upgradeInbound rounds

/-- The key that the stream tells was verified against the static key of the remote. -/
def Authenticated (stream : NoiseStream K) : Prop :=
  ∃ key static dhPk sig, stream.remotePubKey = some key ∧
    stream.remotePeer cfg.externals = some (cfg.externals.intoPeerId key) ∧
    stream.remoteStatic = some static ∧ cfg.protocol.publicFromBytes static = .ok dhPk ∧
    cfg.protocol.verify key dhPk sig = true

/-! ## The payload of the remote -/

def greet (initiator : Bool) (s : State K) : Io NoiseError (State K) :=
  if initiator then s.sendEmpty
  else s.recvEmpty rounds >>= fun s => s.sendIdentityMessage cfg.externals

/-- The part of an upgrade in which the payload of the remote is received. -/
def identified (initiator : Bool) : Io NoiseError (NoiseHandshakePayload × State K) := do
  let s ← Io.lift (cfg.state initiator)
  let s ← cfg.greet rounds initiator s
  s.recvPayload cfg.externals rounds

def received (initiator : Bool) : Io NoiseError NoiseHandshakePayload := do
  let (pb, _) ← cfg.identified rounds initiator
  return pb

def respond (initiator : Bool) (s : State K) : Io NoiseError (State K) :=
  if initiator then s.sendIdentityMessage cfg.externals else .ret s

def conclude [DecidableEq K] (initiator : Bool) (pb : NoiseHandshakePayload) (s : State K) :
    Io NoiseError (NoiseStream K) := do
  let s ← Io.lift (s.storeIdentity cfg.externals pb)
  let s ← cfg.respond initiator s
  let h ← Io.lift (s.handshake cfg.protocol)
  return stream h

theorem upgrade_eq [DecidableEq K] (initiator : Bool) : cfg.upgrade rounds initiator =
      cfg.identified rounds initiator >>= fun got => cfg.conclude initiator got.1 got.2 := by
  cases initiator with
  | true =>
    simp only [upgrade, upgradeOutbound, handshake, rt15Initiator, identified, conclude, greet, respond,
      State.recvIdentity, Io.bind_bind, if_true]
  | false =>
    simp only [upgrade, upgradeInbound, handshake, rt15Responder, identified, conclude, greet, respond,
      State.recvIdentity, Io.bind_bind, if_false, Bool.false_eq_true, Io.ret_bind]

end NoiseConfig

/-! ## What is known at the end -/

/-- A session that can be used knows the static key of the remote. -/
def HandshakeState.Knows (s : HandshakeState) : Prop :=
  (s.initiator = true → 2 ≤ s.turn → s.remoteStatic ≠ none) ∧ (3 ≤ s.turn → s.remoteStatic ≠ none)

variable {message : List UInt8}

variable {payload : List UInt8}

theorem HandshakeState.Knows.writeMessage {s s' : HandshakeState} {size : Nat} (hs : s.Knows)
    (h : s.writeMessage payload size = some (message, s')) : s'.Knows := by
  unfold HandshakeState.writeMessage at h
  split at h
  case isFalse => cases h
  case isTrue hturn =>
    dsimp only at h
    split at h
    case isTrue => cases h
    case isFalse =>
      cases h
      obtain ⟨hlt, hwrites⟩ := hturn
      have heven : s.turn % 2 = 0 ↔ s.initiator = true := by
        simp only [writes, decide_eq_true_eq] at hwrites
        rw [← hwrites, decide_eq_true_eq]
      -- The side that writes has its turn at an even number exactly if it is the initiator.
      refine ⟨fun hinit hle => hs.1 hinit ?_, fun hle => hs.1 (heven.mp ?_) ?_⟩
      · have := heven.mpr hinit
        change 2 ≤ s.turn + 1 at hle
        omega
      · change 3 ≤ s.turn + 1 at hle
        omega
      · change 3 ≤ s.turn + 1 at hle
        omega

theorem HandshakeState.Knows.readMessage {s s' : HandshakeState}
    (h : s.readMessage message = some (payload, s')) : s'.Knows := by
  unfold HandshakeState.readMessage at h
  split at h
  case isFalse => cases h
  case isTrue =>
    split at h
    case h_1 => cases h
    case h_2 key payload _ =>
      cases h
      by_cases hzero : s.turn = 0
      · refine ⟨fun _ hle => ?_, fun hle => ?_⟩
        · change 2 ≤ s.turn + 1 at hle
          omega
        · change 3 ≤ s.turn + 1 at hle
          omega
      · refine ⟨fun _ _ => ?_, fun _ => ?_⟩
        · rw [if_neg hzero]
          nofun
        · rw [if_neg hzero]
          nofun

variable {this : HandshakeFramed}

namespace State

variable {K : Type} {c : Externals K} {p : Protocol K} {s s' : State K}

theorem ensures_next (rounds : Nat) (this : HandshakeFramed) :
    (this.next rounds).Ensures fun got => got.2.session.Knows := by
  induction rounds with
  | zero => trivial
  | succ rounds ih =>
    apply Io.Ensures.after
    intro len
    split
    · exact ih
    · apply Io.Ensures.after
      intro data
      split
      case h_1 payload session hread => exact HandshakeState.Knows.readMessage hread
      case h_2 => trivial

theorem ensures_send (h : this.session.Knows) (frame : List UInt8) :
    (this.send frame).Ensures fun io => io.session.Knows := by
  unfold HandshakeFramed.send
  split
  · trivial
  · split
    case h_1 => trivial
    case h_2 message session hwrite =>
      apply Io.Ensures.after
      intro _
      apply Io.Ensures.after
      intro _
      exact h.writeMessage hwrite

/-- The messages change the session only. -/
structure Sends (s s' : State K) : Prop where
  idRemotePubkey : s'.idRemotePubkey = s.idRemotePubkey
  knows : s'.io.session.Knows

theorem ensures_recv (s : State K) (rounds : Nat) :
    (s.recv rounds).Ensures fun got => Sends s got.2 := by
  apply (ensures_next rounds s.io).bind
  rintro ⟨msg, io⟩ hio
  exact ⟨rfl, hio⟩

theorem ensures_recvEmpty (s : State K) (rounds : Nat) :
    (s.recvEmpty rounds).Ensures fun s' => Sends s s' := by
  apply (ensures_recv s rounds).bind
  rintro ⟨msg, s'⟩ hs'
  dsimp only
  split
  · trivial
  · exact hs'

theorem ensures_recvPayload (s : State K) (rounds : Nat) :
    (s.recvPayload c rounds).Ensures fun got => Sends s got.2 := by
  apply (ensures_recv s rounds).bind
  rintro ⟨msg, s'⟩ hs'
  dsimp only
  split
  · trivial
  · exact hs'

theorem ensures_sendEmpty (h : s.io.session.Knows) : s.sendEmpty.Ensures fun s' => Sends s s' := by
  apply (ensures_send h []).bind
  intro io hio
  exact ⟨rfl, hio⟩

theorem ensures_sendIdentityMessage (h : s.io.session.Knows) :
    (s.sendIdentityMessage c).Ensures fun s' => Sends s s' := by
  apply (ensures_send h _).bind
  intro io hio
  exact ⟨rfl, hio⟩

theorem storeIdentity_spec [DecidableEq K] (hnone : s.idRemotePubkey = none)
    (h : s.storeIdentity c pb = .ok s') :
    s'.io = s.io ∧ (s'.idRemotePubkey ≠ none ↔ pb.identityKey ≠ []) := by
  unfold storeIdentity at h
  by_cases hkey : pb.identityKey = []
  · simp only [hkey, ne_eq, not_true_eq_false, if_false, bind, Except.bind] at h
    split at h
    all_goals
      cases h
      exact ⟨rfl, by simp [hnone, hkey]⟩
  · cases hpk : c.fromProtobufEncoding pb.identityKey with
    | none => simp [hkey, hpk, bind, Except.bind] at h
    | some pk =>
      simp only [hkey, hpk, hnone, ne_eq, not_false_eq_true, if_true, bind, Except.bind] at h
      split at h
      all_goals
        cases h
        exact ⟨rfl, by simp [hkey]⟩

theorem finish_spec {id : RemoteIdentity K} {io : NoiseOutput} (hs : s.io.session.Knows)
    (h : s.finish p = .ok (id, io)) :
    ∃ static dhPk, s.io.session.remoteStatic = some static ∧ p.publicFromBytes static = .ok dhPk ∧
      (s.idRemotePubkey = none ∧ id = .staticDhKey dhPk ∨
        ∃ key, s.idRemotePubkey = some key ∧ id = .identityKey key ∧
          p.verify key dhPk s.dhRemotePubkeySig = true) := by
  unfold finish intoTransport at h
  cases hmode : s.io.session.intoTransportMode with
  | none =>
    cases hstatic : s.io.session.remoteStatic with
    | none => simp [hmode, hstatic, bind, Except.bind, pure, Except.pure] at h
    | some static =>
      cases hpk : p.publicFromBytes static <;>
        simp [hmode, hstatic, hpk, bind, Except.bind, Functor.map, Except.map] at h
  | some session =>
    have hturn : s.io.session.turn = 3 := by
      unfold HandshakeState.intoTransportMode at hmode
      split at hmode
      case isTrue hturn => exact hturn
      case isFalse => cases hmode
    obtain ⟨static, hstatic⟩ := Option.ne_none_iff_exists'.mp (hs.2 (by omega))
    refine ⟨static, ?_⟩
    cases hpk : p.publicFromBytes static with
    | error e =>
      simp [hstatic, hpk, bind, Except.bind, Functor.map, Except.map] at h
    | ok dhPk =>
      refine ⟨dhPk, hstatic, rfl, ?_⟩
      simp only [hmode, hstatic, hpk, bind, Except.bind, Functor.map, Except.map, pure,
        Except.pure] at h
      cases hid : s.idRemotePubkey with
      | none =>
        rw [hid] at h
        cases h
        exact .inl ⟨rfl, rfl⟩
      | some key =>
        rw [hid] at h
        dsimp only at h
        split at h
        case isTrue hverify =>
          cases h
          exact .inr ⟨key, rfl, rfl, hverify⟩
        case isFalse => cases h

end State

namespace NoiseConfig

variable {K : Type} {cfg : NoiseConfig K}

theorem ensures_state (initiator : Bool) : (Io.lift (cfg.state initiator)).Ensures fun s =>
      s.idRemotePubkey = none ∧ s.io.session.Knows := by
  apply Io.ensures_lift
  intro s hs
  unfold state session State.new at hs
  cases hbuild : cfg.build with
  | error e =>
    rw [hbuild] at hs
    cases hs
  | ok built =>
    rw [hbuild] at hs
    cases hs
    exact ⟨rfl, nofun, nofun⟩

theorem ensures_identified (rounds : Nat) (initiator : Bool) :
    (cfg.identified rounds initiator).Ensures fun got =>
      got.2.idRemotePubkey = none ∧ got.2.io.session.Knows := by
  have hpayload : ∀ s : State K, s.idRemotePubkey = none →
      (s.recvPayload cfg.externals rounds).Ensures fun got =>
        got.2.idRemotePubkey = none ∧ got.2.io.session.Knows := by
    intro s hs
    apply (State.ensures_recvPayload s rounds).mono
    intro got hgot
    exact ⟨hgot.idRemotePubkey.trans hs, hgot.knows⟩
  apply (ensures_state initiator).bind
  rintro s ⟨hs, hknows⟩
  have hgreet : (cfg.greet rounds initiator s).Ensures fun s' => s'.idRemotePubkey = none := by
    unfold greet
    split
    · apply (State.ensures_sendEmpty hknows).mono
      intro s' hsent
      exact hsent.idRemotePubkey.trans hs
    · apply (State.ensures_recvEmpty s rounds).bind
      intro s' hempty
      apply (State.ensures_sendIdentityMessage hempty.knows).mono
      intro s'' hsent
      exact hsent.idRemotePubkey.trans (hempty.idRemotePubkey.trans hs)
  apply hgreet.bind
  exact hpayload

theorem ensures_handshake {s : State K} (hs : s.io.session.Knows) :
    (Io.lift (s.handshake cfg.protocol)).Ensures fun h =>
      cfg.Authenticated (stream h) ↔ s.idRemotePubkey ≠ none := by
  apply Io.ensures_lift
  intro h hh
  unfold State.handshake at hh
  cases hfinish : s.finish cfg.protocol with
  | error e =>
    rw [hfinish] at hh
    cases hh
  | ok result =>
    obtain ⟨id, io⟩ := result
    rw [hfinish] at hh
    cases hh
    obtain ⟨static, dhPk, hstatic, hpk, ⟨hnone, rfl⟩ | ⟨key, hkey, rfl, hverify⟩⟩ :=
      State.finish_spec hs hfinish
    · refine iff_of_false ?_ (not_not.mpr hnone)
      rintro ⟨key, _, _, _, hkey, -⟩
      cases hkey
    · refine iff_of_true ⟨key, static, dhPk, s.dhRemotePubkeySig, rfl, rfl, hstatic, hpk, hverify⟩ ?_
      rw [hkey]
      nofun

theorem ensures_conclude [DecidableEq K] {pb : NoiseHandshakePayload}
    (hnone : s.idRemotePubkey = none) (hs : s.io.session.Knows) :
    (cfg.conclude initiator pb s).Ensures fun stream =>
      cfg.Authenticated stream ↔ pb.identityKey ≠ [] := by
  have hstored : (Io.lift (s.storeIdentity cfg.externals pb)).Ensures fun s' =>
      s'.io.session.Knows ∧ (s'.idRemotePubkey ≠ none ↔ pb.identityKey ≠ []) := by
    apply Io.ensures_lift
    intro s' hs'
    obtain ⟨hio, hkey⟩ := State.storeIdentity_spec hnone hs'
    rw [hio]
    exact ⟨hs, hkey⟩
  apply hstored.bind
  rintro s₁ ⟨hknows, hkey⟩
  have hsent : (cfg.respond initiator s₁).Ensures fun s' => State.Sends s₁ s' := by
    unfold respond
    split
    · exact State.ensures_sendIdentityMessage hknows
    · exact ⟨rfl, hknows⟩
  apply hsent.bind
  intro s₂ hs₂
  apply (ensures_handshake hs₂.knows).bind
  intro h hh
  rw [hs₂.idRemotePubkey, hkey] at hh
  exact hh

theorem authenticated_iff_of_ret [DecidableEq K] {rounds : Nat} {initiator : Bool}
    {ending : Io.Ending NoiseError} {stream : NoiseStream K}
    (h : ((cfg.upgrade rounds initiator).execUntil ending sizes input).result = .ret stream) :
    ∃ pb, ((cfg.received rounds initiator).execUntil ending sizes input).result = .ret pb ∧
      (cfg.Authenticated stream ↔ pb.identityKey ≠ []) := by
  rw [upgrade_eq] at h
  obtain ⟨⟨pb, s⟩, sizes', mid, hidentified, hconclude⟩ := Io.execUntil_bind_ret h
  obtain ⟨hnone, hknows⟩ := (ensures_identified rounds initiator).execUntil hidentified
  refine ⟨pb, ?_, (ensures_conclude hnone hknows).execUntil hconclude⟩
  rw [received, Io.execUntil_bind]
  generalize (cfg.identified rounds initiator).execUntil ending sizes input = run at hidentified ⊢
  obtain ⟨r, rest, sent, sizes''⟩ := run
  cases hidentified
  rfl

/-- An upgrade either fails or gives an authenticated stream, if and only if the payload of the remote
has a key whenever a stream is given. -/
theorem upgrade_authenticated_iff [DecidableEq K] (cfg : NoiseConfig K) (rounds : Nat) (initiator : Bool)
    (ending : Io.Ending NoiseError) (sizes : Nat → Nat) (input : List UInt8) :
    (∀ stream, ((cfg.upgrade rounds initiator).execUntil ending sizes input).result = .ret stream →
      cfg.Authenticated stream) ↔
    ∀ stream pb, ((cfg.upgrade rounds initiator).execUntil ending sizes input).result = .ret stream →
      ((cfg.received rounds initiator).execUntil ending sizes input).result = .ret pb →
        pb.identityKey ≠ [] := by
  constructor
  · intro h stream pb hstream hpb
    obtain ⟨pb', hpb', hiff⟩ := authenticated_iff_of_ret hstream
    obtain rfl : pb = pb' := Io.Result.ret.inj (hpb.symm.trans hpb')
    exact hiff.mp (h stream hstream)
  · intro h stream hstream
    obtain ⟨pb, hpb, hiff⟩ := authenticated_iff_of_ret hstream
    exact hiff.mpr (h stream pb hstream hpb)

end NoiseConfig

/-! ## A payload without a key -/

open Io in
theorem yields_next (hne : message ≠ []) (hlen : message.length < 256 ^ 2)
    (hread : this.session.readMessage message = some (payload, session)) (rounds : Nat)
    (rest : List UInt8) :
    Yields (this.next (rounds + 1)) (beBytes 2 message.length ++ (message ++ rest))
      (.ret (payload, { this with session := session, readBuffer := message })) rest [] := by
  have hlength := Yields.readExact (NoiseError.io (.new .unexpectedEof "eof"))
    (beBytes 2 message.length) (message ++ rest)
  rw [length_beBytes] at hlength
  rw [HandshakeFramed.next]
  apply hlength.bind_read
  have hpos := List.length_pos_of_ne_nil hne
  rw [beNat_beBytes hlen, if_neg (by omega)]
  apply (Yields.readExact _ message rest).bind_read
  rw [hread]
  exact .ret _ _

open Io in
theorem yields_send {frame : List UInt8} (hlen : frame.length ≤ maxFrameLen)
    (hwrite : this.session.writeMessage frame (frame.length + extraEncryptSpace) =
      some (message, session)) (input : List UInt8) :
    Yields (this.send frame) input (.ret { this with session := session, writeBuffer := message })
      input (beBytes 2 message.length ++ (message ++ [])) := by
  rw [HandshakeFramed.send, if_neg (not_not.mpr hlen), hwrite]
  apply Yields.bind (.writeAll _ _ input)
  apply Yields.bind (.writeAll _ _ input)
  exact .flush (.ret _ input)

/-- Messages in the clear. -/
def sampleIdeal : Ideal where
  encrypt _ payload := 0 :: payload
  decrypt _ message := some (List.replicate 32 0, message.drop 1)

/-- No signature is ever accepted. The message without bytes is the payload without fields. -/
def sampleExternals : Externals Unit where
  decode msg := if msg = [] then some ⟨[], []⟩ else none
  encode _ := []
  fromProtobufEncoding _ := none
  intoProtobufEncoding _ := []
  intoPeerId _ := ⟨.identity, [], Nat.zero_le _⟩
  verify _ _ _ := false
  fromEd25519 _ := none

def sampleConfig : NoiseConfig Unit where
  externals := sampleExternals
  protocol := .x25519Spec sampleExternals
  identity := ⟨(), none⟩
  legacy := ⟨false, false⟩
  build := .ok (sampleIdeal, ⟨sampleSnow, 0, sampleSnow, 0⟩)

def sampleState (turn : Nat) (remoteStatic : Option (List UInt8)) (readBuffer writeBuffer : List UInt8) :
    State Unit where
  io := ⟨⟨sampleIdeal, false, turn, remoteStatic, ⟨sampleSnow, 0, sampleSnow, 0⟩⟩, readBuffer,
    writeBuffer⟩
  identity := ⟨(), none⟩
  dhRemotePubkeySig := none
  idRemotePubkey := none
  sendIdentity := true
  legacy := ⟨false, false⟩

theorem yields_recv_sample (hturn : turn < 3) (heven : turn % 2 = 0) (rest : List UInt8) :
    Io.Yields ((sampleState turn key rb wb).recv 1) ([0, 1, 0] ++ rest)
      (.ret ([], sampleState (turn + 1) (if turn = 0 then key else some (List.replicate 32 0)) [0] wb))
      rest [] := by
  have hread : (sampleState turn key rb wb).io.session.readMessage [0] =
      some ([], (sampleState (turn + 1) (if turn = 0 then key else some (List.replicate 32 0)) [0]
        wb).io.session) := by
    have hwrites : (sampleState turn key rb wb).io.session.writes = false := by
      simp [HandshakeState.writes, sampleState, heven]
    unfold HandshakeState.readMessage
    rw [hwrites, if_pos ⟨hturn, Bool.false_ne_true⟩]
    rfl
  apply (yields_next (List.cons_ne_nil 0 []) (by decide) hread 0 rest).bind_read
  exact .ret _ _

theorem yields_sample : Io.Yields (sampleConfig.upgrade 1 false) [0, 1, 0, 0, 1, 0]
      (.ret ⟨.new ⟨⟨sampleSnow, 0, sampleSnow, 0⟩, .ready, .ready, [0], [0]⟩,
        some (List.replicate 32 0), none⟩) [] [0, 1, 0] := by
  have hempty : Io.Yields ((sampleState 0 none [] []).recvEmpty 1) [0, 1, 0, 0, 1, 0]
      (.ret (sampleState 1 none [0] [])) [0, 1, 0] [] := by
    apply (yields_recv_sample (by decide) rfl [0, 1, 0]).bind_read
    exact .ret _ _
  have hsend : Io.Yields ((sampleState 1 none [0] []).sendIdentityMessage sampleExternals) [0, 1, 0]
      (.ret (sampleState 2 none [0] [0])) [0, 1, 0] [0, 1, 0] := by
    have hwrite : (sampleState 1 none [0] []).io.session.writeMessage []
        (([] : List UInt8).length + extraEncryptSpace) =
          some ([0], (sampleState 2 none [0] [0]).io.session) := rfl
    exact (yields_send (Nat.zero_le _) hwrite [0, 1, 0]).bind (.ret _ _)
  have hrecv : Io.Yields ((sampleState 2 none [0] [0]).recvIdentity sampleExternals 1) [0, 1, 0]
      (.ret (sampleState 3 (some (List.replicate 32 0)) [0] [0])) [] [] := by
    have hpayload : Io.Yields ((sampleState 2 none [0] [0]).recvPayload sampleExternals 1) [0, 1, 0]
        (.ret (⟨[], []⟩, sampleState 3 (some (List.replicate 32 0)) [0] [0])) [] [] := by
      apply (yields_recv_sample (by decide) rfl []).bind_read
      exact .ret _ _
    apply hpayload.bind_read
    exact .ret _ _
  have hmessages : Io.Yields (sampleConfig.handshake 1 false) [0, 1, 0, 0, 1, 0]
      (.ret ⟨.staticDhKey (List.replicate 32 0),
        .new ⟨⟨sampleSnow, 0, sampleSnow, 0⟩, .ready, .ready, [0], [0]⟩,
        some (List.replicate 32 0)⟩) [] [0, 1, 0] := by
    apply (Io.Yields.ret (sampleState 0 none [] []) _).bind_read
    apply hempty.bind_read
    apply hsend.bind
    apply hrecv.bind_read
    exact .ret _ _
  exact hmessages.bind (.ret _ _)

/-- The upgrade gives a stream that panics when it is asked for the key or the peer of the remote. -/
theorem empty_payload_accepted :
    ∃ stream, ((sampleConfig.upgrade 1 false).execUntil .pending (fun _ => 0)
        [0, 1, 0, 0, 1, 0]).result = .ret stream ∧
      stream.remotePubKey = none ∧ stream.remotePeer sampleExternals = none ∧
        ¬sampleConfig.Authenticated stream := by
  obtain ⟨sizes, hrun⟩ := yields_sample fun _ => 0
  rw [Io.execUntil_pending, hrun]
  refine ⟨_, rfl, rfl, rfl, ?_⟩
  rintro ⟨key, _, _, _, hkey, -⟩
  cases hkey

end Libp2pRs.Noise
