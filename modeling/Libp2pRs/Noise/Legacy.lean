import Libp2pRs.Noise.Handshake

/-!
# Payloads of old versions

A side with `send_legacy_handshake` puts the length of its payload before it. The receiver first reads
a message without a length; when this fails, the length has to fit. The high byte of a length below
2048 is below 8: as the key of a protobuf field it has the number 0, which no field has.
-/

namespace Libp2pRs.Noise

open Lib

variable {K : Type} {c : Externals K}

/-- What is assumed of the protobuf code. -/
structure Externals.Lawful (c : Externals K) : Prop where
  decode_encode : ∀ pb, c.decode (c.encode pb) = some pb
  decode_fieldZero : ∀ (b : UInt8) (rest : List UInt8), b.toNat < 8 → c.decode (b :: rest) = none

theorem HandshakeState.length_of_writeMessage {s s' : HandshakeState}
    (h : s.writeMessage payload size = some (message, s')) : message.length ≤ maxNoiseMsgLen := by
  unfold writeMessage at h
  grind

namespace State

variable {s : State K}

def payload (c : Externals K) (s : State K) : NoiseHandshakePayload where
  identityKey := if s.sendIdentity then c.intoProtobufEncoding s.identity.publicKey else []
  identitySig := s.identity.signature.getD []

def afterRead (s : State K) (message : List UInt8) (session : HandshakeState) : State K :=
  { s with io := { s.io with session := session, readBuffer := message } }

theorem identityMessage_current (h : s.legacy.sendLegacyHandshake = false) :
    s.identityMessage c = c.encode (s.payload c) := by
  rw [identityMessage, h]
  rfl

theorem identityMessage_legacy (h : s.legacy.sendLegacyHandshake = true)
    (hlen : (c.encode (s.payload c)).length < 2048) : s.identityMessage c =
      beBytes 2 (c.encode (s.payload c)).length ++ c.encode (s.payload c) := by
  have hmod : (c.encode (s.payload c)).length % 2 ^ 16 = (c.encode (s.payload c)).length :=
    Nat.mod_eq_of_lt (hlen.trans (by decide))
  rw [← hmod, identityMessage, h]
  rfl

theorem decode_legacy (hc : c.Lawful) (hn : n < 2048) (rest : List UInt8) :
    c.decode (beBytes 2 n ++ rest) = none := by
  have hbytes : beBytes 2 n = [UInt8.ofNat (n / 256), UInt8.ofNat n] := by
    simp [beBytes, List.range_succ]
  rw [hbytes]
  apply hc.decode_fieldZero
  rw [UInt8.toNat_ofNat']
  omega

theorem decodePayload_identityMessage (hc : c.Lawful) (hne : c.encode (s.payload c) ≠ [])
    (hlen : (c.encode (s.payload c)).length < 2048) (legacy : LegacyConfig)
    (hrecv : legacy.recvLegacyHandshake = true) :
    decodePayload c legacy (s.identityMessage c) = some (s.payload c) := by
  cases hform : s.legacy.sendLegacyHandshake with
  | false => rw [identityMessage_current hform, decodePayload, hc.decode_encode]
  | true =>
    have hpos := List.length_pos_of_ne_nil hne
    rw [identityMessage_legacy hform hlen, decodePayload, decode_legacy hc hlen]
    simp only [hrecv, if_true]
    rw [if_pos (by simp; omega), List.take_left' (length_beBytes 2 _),
      List.drop_left' (length_beBytes 2 _), beNat_beBytes (by omega), if_pos (by simp; omega),
      hc.decode_encode]

theorem length_identityMessage (hlen : (c.encode (s.payload c)).length < 2048) :
    (s.identityMessage c).length ≤ maxFrameLen := by
  have hframe : 2050 ≤ maxFrameLen := by decide
  cases hform : s.legacy.sendLegacyHandshake with
  | false =>
    rw [identityMessage_current hform]
    omega
  | true =>
    rw [identityMessage_legacy hform hlen, List.length_append, length_beBytes]
    omega

theorem yields_recvIdentity [DecidableEq K] {msg message : List UInt8} {pb : NoiseHandshakePayload}
    (hdecode : decodePayload c s.legacy msg = some pb) (hne : message ≠ [])
    (hlen : message.length < 256 ^ 2) (hread : s.io.session.readMessage message = some (msg, session))
    (hstored : storeIdentity c pb (s.afterRead message session) = .ok stored) (rounds : Nat)
    (rest : List UInt8) :
    Io.Yields (s.recvIdentity c (rounds + 1)) (beBytes 2 message.length ++ (message ++ rest))
      (.ret stored) rest [] := by
  have hmsg : Io.Yields (s.recv (rounds + 1)) (beBytes 2 message.length ++ (message ++ rest))
      (.ret (msg, s.afterRead message session)) rest [] :=
    (yields_next hne hlen hread rounds rest).bind_read (.ret _ _)
  have hpayload : Io.Yields (s.recvPayload c (rounds + 1))
      (beBytes 2 message.length ++ (message ++ rest)) (.ret (pb, s.afterRead message session))
      rest [] := by
    apply hmsg.bind_read
    dsimp only
    rw [show (s.afterRead message session).legacy = s.legacy from rfl, hdecode]
    exact .ret _ _
  apply hpayload.bind_read
  dsimp only
  rw [hstored]
  exact .ret _ _

/-- The receiver gets the payload of the sender in either form. The form with the length is not a
payload in the other form. -/
theorem legacy_and_current_agree [DecidableEq K] (hc : c.Lawful) (sender receiver : State K)
    (hne : c.encode (sender.payload c) ≠ []) (hlen : (c.encode (sender.payload c)).length < 2048)
    (hrecv : receiver.legacy.recvLegacyHandshake = true) :
    decodePayload c receiver.legacy (sender.identityMessage c) = some (sender.payload c) ∧
      (sender.legacy.sendLegacyHandshake = true →
        c.decode (sender.identityMessage c) = none ∧ ∀ pb, sender.identityMessage c ≠ c.encode pb) ∧
      ∀ message sent session, message ≠ [] →
        sender.io.session.writeMessage (sender.identityMessage c)
          ((sender.identityMessage c).length + extraEncryptSpace) = some (message, sent) →
        receiver.io.session.readMessage message = some (sender.identityMessage c, session) →
        ∃ sender' bytes,
          (∀ input, Io.Yields (sender.sendIdentityMessage c) input (.ret sender') input bytes) ∧
          ∀ stored, storeIdentity c (sender.payload c) (receiver.afterRead message session) =
              .ok stored →
            ∀ rounds rest, Io.Yields (receiver.recvIdentity c (rounds + 1)) (bytes ++ rest)
              (.ret stored) rest [] := by
  have hdecode := decodePayload_identityMessage hc hne hlen receiver.legacy hrecv
  refine ⟨hdecode, fun hform => ?_, fun message sent session hmessage hwrite hread => ?_⟩
  · have hnone : c.decode (sender.identityMessage c) = none := by
      rw [identityMessage_legacy hform hlen]
      exact decode_legacy hc hlen _
    refine ⟨hnone, fun pb heq => ?_⟩
    rw [heq, hc.decode_encode] at hnone
    cases hnone
  · have hlength : message.length < 256 ^ 2 := by
      have := HandshakeState.length_of_writeMessage hwrite
      exact Nat.lt_succ_of_le this
    refine ⟨_, _, fun input => (yields_send (length_identityMessage hlen) hwrite input).bind
      (.ret _ _), fun stored hstored rounds rest => ?_⟩
    rw [List.append_nil, List.append_nil, List.append_assoc]
    exact yields_recvIdentity hdecode hmessage hlength hread hstored rounds rest

end State

/-! ## A sample of the protobuf code -/

def sampleFields : List UInt8 → NoiseHandshakePayload
  | 1 :: b :: rest => { sampleFields rest with identityKey := b :: (sampleFields rest).identityKey }
  | 2 :: b :: rest => { sampleFields rest with identitySig := b :: (sampleFields rest).identitySig }
  | _ => ⟨[], []⟩

/-- Each byte has its own tag. -/
def sampleProtobuf : Externals Unit :=
  { sampleExternals with
    decode := fun msg => if msg.head? = some 10 then some (sampleFields msg.tail) else none
    encode := fun pb => 10 :: (pb.identityKey.flatMap (fun b => [1, b]) ++
      pb.identitySig.flatMap fun b => [2, b])
    fromProtobufEncoding := fun _ => some ()
    intoProtobufEncoding := fun _ => [5] }

theorem lawful_sampleProtobuf : sampleProtobuf.Lawful where
  decode_encode := by
    rintro ⟨key, sig⟩
    have hsig : sampleFields (sig.flatMap fun b => [2, b]) = ⟨[], sig⟩ := by
      induction sig with
      | nil => rfl
      | cons b sig ih => simp [sampleFields, ih]
    have hkey : sampleFields (key.flatMap (fun b => [1, b]) ++ sig.flatMap fun b => [2, b]) =
        ⟨key, sig⟩ := by
      induction key with
      | nil => exact hsig
      | cons b key ih => simp [sampleFields, ih]
    exact congrArg some hkey
  decode_fieldZero := by
    intro b rest hb
    refine if_neg fun h => ?_
    cases h
    exact absurd hb (by decide)

def legacySender : State Unit :=
  { sampleState 1 none [] [] with identity := ⟨(), some [7]⟩, legacy := ⟨true, false⟩ }

def legacyReceiver : State Unit :=
  { sampleState 1 none [] [] with io.session.initiator := true, legacy := ⟨false, true⟩ }

theorem legacySender_received :
    ∃ sender' bytes, (∀ input, Io.Yields (legacySender.sendIdentityMessage sampleProtobuf) input
        (.ret sender') input bytes) ∧
      ∀ rounds rest, ∃ stored, stored.idRemotePubkey = some () ∧
        stored.dhRemotePubkeySig = some [7] ∧
        Io.Yields (legacyReceiver.recvIdentity sampleProtobuf (rounds + 1)) (bytes ++ rest)
          (.ret stored) rest [] := by
  obtain ⟨-, -, hruns⟩ := State.legacy_and_current_agree lawful_sampleProtobuf legacySender
    legacyReceiver (by decide) (by decide) rfl
  obtain ⟨sender', bytes, hsend, hrecv⟩ := hruns
    (0 :: legacySender.identityMessage sampleProtobuf) _ _ (List.cons_ne_nil _ _) rfl rfl
  exact ⟨sender', bytes, hsend, fun rounds rest => ⟨_, rfl, rfl, hrecv _ rfl rounds rest⟩⟩

end Libp2pRs.Noise
