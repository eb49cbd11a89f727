import Libp2pRs.Core.Multihash
import Libp2pRs.Gossip.Loop

/-!
# The protocol handler: from the RPC on the wire to the event

`handle` turns a decoded RPC into an event of the main loop. The validation mode decides what is
checked of each message; a message that fails is passed on as invalid, with the reason. The keys
and their signatures are not part of the repository: `KeyScheme` lists the functions that the
handler uses.
-/

namespace Libp2pRs.Gossip

open Lib Libp2pRs.Core List Proto Option

/-- `PublicKey`, and SHA-256. -/
structure KeyScheme (K : Type) where
  fromProtobufEncoding : List UInt8 → Option K
  intoProtobufEncoding : K → List UInt8
  verify : K → List UInt8 → List UInt8 → Bool
  sha256 : List UInt8 → List UInt8
  length_sha256 : ∀ bytes, (sha256 bytes).length = 32

/-- `PeerId::from_public_key`: a short key is its own hash. -/
def KeyScheme.intoPeerId {K : Type} (c : KeyScheme K) (key : K) : PeerId :=
  if h : (c.intoProtobufEncoding key).length ≤ maxInlineKeyLength then
    ⟨.identity, c.intoProtobufEncoding key, h⟩
  else
    ⟨.sha2_256, c.sha256 (c.intoProtobufEncoding key), by
      rw [c.length_sha256]
      decide⟩

/-- The key pair belongs to a public key of the scheme, and its signatures are accepted. -/
def KeyScheme.Fits {K : Type} (c : KeyScheme K) (keypair : Keypair) : Prop :=
  ∃ key, c.intoProtobufEncoding key = keypair.publicKey ∧
    c.fromProtobufEncoding keypair.publicKey = some key ∧ keypair.peerId = c.intoPeerId key ∧
    ∀ message signature, keypair.sign message = some signature → c.verify key message signature = true

def Proto.Message.signedBytes (m : Proto.Message) : List UInt8 :=
  Gossipsub.signingHeader ++ { m with signature := none, key := none }.encode

namespace GossipsubHandler

variable {K : Type} (c : KeyScheme K)

/-- The key that comes with the message, otherwise the one that is inlined in the peer id. -/
def publicKey (m : Proto.Message) (source : PeerId) : Option K :=
  match m.key.bind c.fromProtobufEncoding with
  | some key => some key
  | none => c.fromProtobufEncoding (source.toBytes.drop 2)

def verifySignature (m : Proto.Message) : Bool :=
  match m.fromPeer with
  | none => false
  | some bytes =>
    match PeerId.fromBytes bytes with
    | none => false
    | some source =>
      match m.signature with
      | none => false
      | some signature =>
        match publicKey c m source with
        | none => false
        | some key =>
          if source ≠ c.intoPeerId key then false else c.verify key m.signedBytes signature

/-! ## The validation of a message -/

/-- What is verified of a message. -/
structure Checks where
  signature : Bool
  sequenceNo : Bool
  source : Bool

def requiredChecks (m : Proto.Message) : ValidationMode → Except ValidationError Checks
  | .strict => .ok ⟨true, true, true⟩
  | .permissive => .ok ⟨m.signature.isSome, m.seqno.isSome, m.fromPeer.isSome⟩
  | .anonymous =>
    if m.signature.isSome then .error .signaturePresent
    else if m.seqno.isSome then .error .sequenceNumberPresent
    else if m.fromPeer.isSome then .error .messageSourcePresent
    else .ok ⟨false, false, false⟩
  | .none => .ok ⟨false, false, false⟩

abbrev Invalid := RawGossipsubMessage × ValidationError

def invalid (m : Proto.Message) (sequenceNumber : Option Nat) (signature : Option (List UInt8))
    (error : ValidationError) : Invalid :=
  (⟨none, m.data.getD [], sequenceNumber, ⟨m.topic⟩, signature, m.key, false⟩, error)

def checkSignature (verify : Bool) (m : Proto.Message) : Except Invalid Unit :=
  if verify && !verifySignature c m then .error (invalid m none none .invalidSignature) else .ok ()

/-- A sequence number has eight bytes, the most significant first. An empty one counts as
absent. -/
def readSequenceNumber (verify : Bool) (m : Proto.Message) : Except Invalid (Option Nat) :=
  if verify then
    match m.seqno with
    | none => .error (invalid m none m.signature .emptySequenceNumber)
    | some seqNo =>
      if seqNo.isEmpty then .ok none
      else if seqNo.length ≠ 8 then .error (invalid m none m.signature .invalidSequenceNumber)
      else .ok (some (beNat seqNo))
  else .ok none

def readSource (verify : Bool) (m : Proto.Message) (sequenceNumber : Option Nat) :
    Except Invalid (Option PeerId) :=
  if verify then
    match m.fromPeer with
    | none => .ok none
    | some bytes =>
      if bytes.isEmpty then .ok none
      else
        match PeerId.fromBytes bytes with
        | some peer => .ok (some peer)
        | none => .error (invalid m sequenceNumber m.signature .invalidPeerId)
  else .ok none

def validate (mode : ValidationMode) (m : Proto.Message) : Except Invalid RawGossipsubMessage := do
  let checks ← (requiredChecks m mode).mapError (invalid m none none)
  checkSignature c checks.signature m
  let sequenceNumber ← readSequenceNumber checks.sequenceNo m
  let source ← readSource checks.source m sequenceNumber
  return ⟨source, m.data.getD [], sequenceNumber, ⟨m.topic⟩, m.signature, m.key, false⟩

/-! ## The whole RPC -/

def readSubscription (s : Proto.SubOpts) : GossipsubSubscription :=
  ⟨if s.subscribe = some true then .subscribe else .unsubscribe, ⟨s.topicId.getD []⟩⟩

/-- Peers without a valid id are left out. -/
def readPeers (peers : List Proto.PeerInfo) : List PeerInfo :=
  peers.filterMap (fun info => (info.peerId.bind PeerId.fromBytes).map (fun peer => ⟨some peer⟩))

def readControl (control : Proto.ControlMessage) : List ControlAction :=
  control.ihave.map (fun i => .iHave ⟨i.topicId.getD []⟩ (i.messageIds.map MessageId.mk)) ++
    control.iwant.map (fun i => .iWant (i.messageIds.map MessageId.mk)) ++
    control.graft.map (fun g => .graft ⟨g.topicId.getD []⟩) ++
    control.prune.map (fun p => .prune ⟨p.topicId.getD []⟩ (readPeers p.peers) p.backoff)

def handle (mode : ValidationMode) (source : PeerId) (rpc : Proto.Rpc) : HandlerEvent :=
  let verdicts := rpc.publish.map (validate c mode)
  .message source
    { messages := verdicts.filterMap Except.toOption
      subscriptions := rpc.subscriptions.map readSubscription
      controlMsgs := rpc.control.elim [] readControl }
    (verdicts.filterMap (fun | .ok _ => none | .error e => some e))

/-! ## What is accepted -/

variable {c}

variable {m : Proto.Message}

theorem verifySignature_iff :
    verifySignature c m = true ↔ ∃ source signature key, m.fromPeer = some source.toBytes ∧
      m.signature = some signature ∧ publicKey c m source = some key ∧
      source = c.intoPeerId key ∧ c.verify key m.signedBytes signature = true := by
  unfold verifySignature
  constructor
  · intro h
    split at h
    case h_1 => cases h
    case h_2 bytes hfrom =>
      split at h
      case h_1 => cases h
      case h_2 source hsource =>
        split at h
        case h_1 => cases h
        case h_2 signature hsignature =>
          split at h
          case h_1 => cases h
          case h_2 key hkey =>
            split at h
            case isTrue => cases h
            case isFalse hne =>
              rw [PeerId.fromBytes_eq_some_iff.mp hsource] at hfrom
              exact ⟨source, signature, key, hfrom, hsignature, hkey, not_not.mp hne, h⟩
  · rintro ⟨source, signature, key, hfrom, hsignature, hkey, hid, hverify⟩
    simp only [hfrom, PeerId.fromBytes_eq_some_iff.mpr rfl, hsignature, hkey]
    rw [if_neg (not_not.mpr hid), hverify]

theorem readSequenceNumber_eq_ok_iff :
    readSequenceNumber true m = .ok sequenceNumber ↔ (m.seqno = some [] ∧ sequenceNumber = none) ∨
        ∃ n < 2 ^ 64, m.seqno = some (seqnoBytes n) ∧ sequenceNumber = some n := by
  unfold readSequenceNumber
  rw [if_pos rfl]
  constructor
  · intro h
    split at h
    case h_1 => cases h
    case h_2 seqNo hseqno =>
      split at h
      case isTrue hempty =>
        cases h
        rw [isEmpty_iff.mp hempty] at hseqno
        exact .inl ⟨hseqno, rfl⟩
      case isFalse =>
        split at h
        case isTrue => cases h
        case isFalse hlen =>
          cases h
          have hlen : seqNo.length = 8 := not_not.mp hlen
          refine .inr ⟨beNat seqNo, ?_, ?_, rfl⟩
          · have hlt := beNat_lt seqNo
            rw [hlen] at hlt
            exact Nat.lt_of_lt_of_le hlt (by decide)
          · have hbytes := beBytes_beNat seqNo
            rw [hlen] at hbytes
            rw [hseqno]
            exact congrArg some hbytes.symm
  · rintro (⟨hseqno, rfl⟩ | ⟨n, hn, hseqno, rfl⟩)
    · simp only [hseqno, isEmpty_nil, if_true]
    · have hlen : (seqnoBytes n).length = 8 := length_beBytes 8 n
      have hne : (seqnoBytes n).isEmpty = false := by
        rw [isEmpty_eq_false_iff, ← length_pos_iff, hlen]
        decide
      have hread : beNat (seqnoBytes n) = n :=
        beNat_beBytes (Nat.lt_of_lt_of_le hn (by decide))
      simp only [hseqno, hne, hlen, hread, ne_eq, not_true_eq_false, if_false, Bool.false_eq_true]

theorem readSource_of_toBytes (h : m.fromPeer = some peer.toBytes)
    (sequenceNumber : Option Nat) : readSource true m sequenceNumber = .ok (some peer) := by
  have hne : peer.toBytes.isEmpty = false := rfl
  simp only [readSource, h, hne, PeerId.fromBytes_eq_some_iff.mpr rfl, Bool.false_eq_true, if_false,
    if_true]

variable {mode : ValidationMode} {raw : RawGossipsubMessage}

theorem validate_eq_ok_iff : validate c mode m = .ok raw ↔ ∃ checks sequenceNumber source,
      requiredChecks m mode = .ok checks ∧
      (checks.signature = true → verifySignature c m = true) ∧
      readSequenceNumber checks.sequenceNo m = .ok sequenceNumber ∧
      readSource checks.source m sequenceNumber = .ok source ∧
      raw = ⟨source, m.data.getD [], sequenceNumber, ⟨m.topic⟩, m.signature, m.key, false⟩ := by
  have hmap : ∀ checks, (requiredChecks m mode).mapError (invalid m none none) = .ok checks ↔
      requiredChecks m mode = .ok checks := by
    intro checks
    cases requiredChecks m mode <;> simp [Except.mapError]
  have hsignature : ∀ verify, (∃ u, checkSignature c verify m = .ok u) ↔
      (verify = true → verifySignature c m = true) := by
    intro verify
    cases verify <;> cases h : verifySignature c m <;> simp [checkSignature, h]
  simp only [validate, bind_eq_ok_iff, hmap]
  constructor
  · rintro ⟨checks, hchecks, u, hu, sequenceNumber, hnumber, source, hsource, h⟩
    cases h
    exact ⟨checks, sequenceNumber, source, hchecks, (hsignature _).mp ⟨u, hu⟩, hnumber, hsource, rfl⟩
  · rintro ⟨checks, sequenceNumber, source, hchecks, hverify, hnumber, hsource, rfl⟩
    obtain ⟨u, hu⟩ := (hsignature _).mpr hverify
    exact ⟨checks, hchecks, u, hu, sequenceNumber, hnumber, source, hsource, rfl⟩

theorem validate_strict_iff :
    validate c .strict m = .ok raw ↔ verifySignature c m = true ∧ ∃ sequenceNumber source,
      readSequenceNumber true m = .ok sequenceNumber ∧ m.fromPeer = some source.toBytes ∧
      raw = ⟨some source, m.data.getD [], sequenceNumber, ⟨m.topic⟩, m.signature, m.key, false⟩ := by
  rw [validate_eq_ok_iff]
  constructor
  · rintro ⟨checks, sequenceNumber, read, hchecks, hverify, hnumber, hread, rfl⟩
    cases hchecks
    have hverify := hverify rfl
    obtain ⟨source, -, -, hfrom, -⟩ := verifySignature_iff.mp hverify
    rw [readSource_of_toBytes hfrom] at hread
    cases hread
    exact ⟨hverify, sequenceNumber, source, hnumber, hfrom, rfl⟩
  · rintro ⟨hverify, sequenceNumber, source, hnumber, hfrom, rfl⟩
    exact ⟨⟨true, true, true⟩, sequenceNumber, some source, rfl, fun _ => hverify, hnumber,
      readSource_of_toBytes hfrom sequenceNumber, rfl⟩

theorem handle_single_iff {peer : PeerId} {sent received : RawGossipsubMessage} :
    handle c mode peer (intoProtobuf { messages := [sent] }) =
        .message peer { messages := [received] } [] ↔
      validate c mode (ofRawMessage sent) = .ok received := by
  unfold handle intoProtobuf
  cases h : validate c mode (ofRawMessage sent) with
  | error e | ok raw => simp [h, Except.toOption]

/-! ## Forwarding -/

theorem ofRawMessage_of_accepted (hfrom : m.fromPeer = some source.toBytes) : ofRawMessage
        ⟨some source, m.data.getD [], sequenceNumber, ⟨m.topic⟩, m.signature, m.key, false⟩ =
      { m with data := some (m.data.getD []), seqno := sequenceNumber.map seqnoBytes } := by
  rw [ofRawMessage, map_some, ← hfrom]

def plainScheme : KeyScheme (List UInt8) where
  fromProtobufEncoding := some
  intoProtobufEncoding := id
  verify := fun _ message signature => decide (signature = message)
  sha256 := fun _ => List.replicate 32 0
  length_sha256 := fun _ => List.length_replicate

def signed (m : Proto.Message) : Proto.Message := { m with signature := some m.signedBytes }

def bareMessage : Proto.Message :=
  signed ⟨some (PeerId.ofByte 1).toBytes, none, some (Proto.seqnoBytes 7), [1], none, none⟩

def unnumberedMessage : Proto.Message :=
  signed ⟨some (PeerId.ofByte 1).toBytes, some [5], some [], [1], none, none⟩

def fullMessage : Proto.Message :=
  signed ⟨some (PeerId.ofByte 1).toBytes, some [5], some (Proto.seqnoBytes 7), [1], none, none⟩

/-- The message of `PeerId.ofByte 1` with the topic `[1]`, as the handler passes it on. -/
def received (m : Proto.Message) (sequenceNumber : Option Nat) : RawGossipsubMessage :=
  ⟨some (PeerId.ofByte 1), m.data.getD [], sequenceNumber, ⟨[1]⟩, some m.signedBytes, none, false⟩

/-- The signature verifies under a key of the author, and what is passed on names the author and
the sequence number. -/
structure Authentic (c : KeyScheme K) (m : Proto.Message) (raw : RawGossipsubMessage) : Prop where
  signed : ∃ source signature key, m.fromPeer = some source.toBytes ∧
    m.signature = some signature ∧ publicKey c m source = some key ∧
    source = c.intoPeerId key ∧ c.verify key m.signedBytes signature = true ∧
    raw.source = some source
  number : ∃ n, m.seqno = some (Proto.seqnoBytes n) ∧ raw.sequenceNumber = some n
  contents : raw.data = m.data.getD [] ∧ raw.topic = ⟨m.topic⟩

/-- The contents that are reported are those of the message. -/
def Reports (m : Proto.Message) (e : Invalid) : Prop :=
  e.1.data = m.data.getD [] ∧ e.1.topic = ⟨m.topic⟩ ∧ e.1.key = m.key

/-- Each message is accepted or reported once, in the order of the messages, and those that are
accepted are authentic. -/
inductive Sifted (c : KeyScheme K) :
    List Proto.Message → List RawGossipsubMessage → List Invalid → Prop where
  | nil : Sifted c [] [] []
  | accept {m : Proto.Message} {ms : List Proto.Message} {raw : RawGossipsubMessage}
    {raws : List RawGossipsubMessage} {errors : List Invalid} (h : Authentic c m raw)
    (hrest : Sifted c ms raws errors) : Sifted c (m :: ms) (raw :: raws) errors
  | report {m : Proto.Message} {ms : List Proto.Message} {e : Invalid}
    {raws : List RawGossipsubMessage} {errors : List Invalid}
    (h : Reports m e) (hrest : Sifted c ms raws errors) : Sifted c (m :: ms) raws (e :: errors)

theorem Sifted.number {ms : List Proto.Message} {raws : List RawGossipsubMessage}
    {errors : List Invalid} (h : Sifted c ms raws errors) :
    ∀ raw ∈ raws, raw.sequenceNumber ≠ none := by
  induction h with
  | nil => simp
  | accept hauthentic _ ih =>
    obtain ⟨n, -, hn⟩ := hauthentic.number
    refine forall_mem_cons.mpr ⟨?_, ih⟩
    rw [hn]
    exact some_ne_none n
  | report _ _ ih => exact ih

theorem bind_reports {α β : Type} {x : Except Invalid α} {f : α → Except Invalid β}
    (hx : ∀ e, x = .error e → Reports m e) (hf : ∀ a e, f a = .error e → Reports m e) :
    ∀ e, (x >>= f) = .error e → Reports m e := by
  cases x with
  | error error =>
    rintro e ⟨⟩
    exact hx error rfl
  | ok a => exact hf a

theorem validate_reports : ∀ e, validate c mode m = .error e → Reports m e := by
  refine bind_reports (fun e h => ?_) (fun checks => bind_reports (fun e h => ?_) (fun _ =>
    bind_reports (fun e h => ?_) (fun number => bind_reports (fun e h => ?_) (fun _ _ => nofun))))
  · cases hchecks : requiredChecks m mode with
    | error error =>
      rw [hchecks] at h
      cases h
      exact ⟨rfl, rfl, rfl⟩
    | ok checks =>
      rw [hchecks] at h
      cases h
  · grind [checkSignature, invalid, Reports]
  · grind [readSequenceNumber, invalid, Reports]
  · grind [readSource, invalid, Reports]

theorem authentic_of_validate (h : validate c .strict m = .ok raw) (hseqno : m.seqno ≠ some []) :
    Authentic c m raw := by
  obtain ⟨hverify, sequenceNumber, source, hnumber, hfrom, rfl⟩ := validate_strict_iff.mp h
  obtain ⟨author, signature, key, hauthor, hsignature, hkey, hid, hcheck⟩ :=
    verifySignature_iff.mp hverify
  obtain ⟨hempty, -⟩ | ⟨n, -, hn, rfl⟩ := readSequenceNumber_eq_ok_iff.mp hnumber
  · exact absurd hempty hseqno
  · refine ⟨⟨author, signature, key, hauthor, hsignature, hkey, hid, hcheck, ?_⟩, ⟨n, hn, rfl⟩,
      rfl, rfl⟩
    have hread := PeerId.fromBytes_eq_some_iff.mpr (some.inj (hfrom.symm.trans hauthor))
    rwa [PeerId.fromBytes_eq_some_iff.mpr rfl] at hread

theorem sifted_of_numbered (h : ∀ m ∈ ms, verifySignature c m = true → m.seqno ≠ some []) :
    Sifted c ms ((ms.map (validate c .strict)).filterMap Except.toOption)
      ((ms.map (validate c .strict)).filterMap (fun | .ok _ => none | .error e => some e)) := by
  induction ms with
  | nil => exact .nil
  | cons m ms ih =>
    obtain ⟨hm, hms⟩ := forall_mem_cons.mp h
    cases hv : validate c .strict m with
    | ok raw =>
      simp only [map_cons, hv, filterMap_cons, Except.toOption]
      exact .accept (authentic_of_validate hv (hm (validate_strict_iff.mp hv).1)) (ih hms)
    | error e =>
      simp only [map_cons, hv, filterMap_cons, Except.toOption]
      exact .report (validate_reports e hv) (ih hms)

/-- A strict node passes on a message without a sequence number if the field is there and is
empty; it does so for no other message. -/
theorem strict_sifts_iff (c : KeyScheme K) (peer : PeerId) (rpc : Proto.Rpc) :
    (∃ received errors, handle c .strict peer rpc = .message peer received errors ∧
        Sifted c rpc.publish received.messages errors) ↔
      ∀ m ∈ rpc.publish, verifySignature c m = true → m.seqno ≠ some [] := by
  constructor
  · rintro ⟨received, errors, hhandle, hsifted⟩ m hm hverify hempty
    cases hhandle
    obtain ⟨source, -, -, hfrom, -⟩ := verifySignature_iff.mp hverify
    have hvalid := validate_strict_iff.mpr ⟨hverify, none, source,
      readSequenceNumber_eq_ok_iff.mpr (.inl ⟨hempty, rfl⟩), hfrom, rfl⟩
    exact hsifted.number _
      (mem_filterMap.mpr ⟨_, mem_map.mpr ⟨m, hm, hvalid⟩, rfl⟩) (by rfl)
  · exact fun h => ⟨_, _, rfl, sifted_of_numbered h⟩

theorem unnumberedMessage_not_sifted :
    ¬ ∃ received errors, handle plainScheme .strict (PeerId.ofByte 2)
        { publish := [unnumberedMessage] } = .message (PeerId.ofByte 2) received errors ∧
      Sifted plainScheme [unnumberedMessage] received.messages errors := by
  rintro ⟨received, errors, hhandle, hsifted⟩
  have hvalid : validate plainScheme .strict unnumberedMessage =
      .ok (GossipsubHandler.received unnumberedMessage none) := by decide +kernel
  cases hhandle
  refine hsifted.number (GossipsubHandler.received unnumberedMessage none) ?_ rfl
  exact mem_singleton_self _

/-! ## Publishing -/

theorem publicKey_of_fits {keypair : Keypair} {key : K} (m : Proto.Message)
    (hinto : c.intoProtobufEncoding key = keypair.publicKey)
    (hfrom : c.fromProtobufEncoding keypair.publicKey = some key)
    (hkey : m.key = if keypair.publicKey.length ≤ 42 then none else some keypair.publicKey) :
    publicKey c m (c.intoPeerId key) = some key := by
  unfold publicKey
  split at hkey
  case isTrue hlen =>
    have hinline : (c.intoProtobufEncoding key).length ≤ maxInlineKeyLength := by
      rw [hinto]
      exact hlen
    have hid : (c.intoPeerId key).toBytes.drop 2 = keypair.publicKey := by
      rw [← hinto, KeyScheme.intoPeerId, dif_pos hinline]
      rfl
    rw [hkey, hid, hfrom]
    rfl
  case isFalse =>
    rw [hkey, bind_some, hfrom]

variable {P R F D : Type}

theorem verifySignature_of_signing {keypair : Keypair} (hfits : c.Fits keypair)
    {s : Gossipsub P R F D} (hs : s.publishConfig = .ofAuthenticity (.signed keypair))
    {topic : TopicHash} {data : List UInt8} (hraw : (s.buildRawMessage topic data).1 = some raw) :
    verifySignature c (ofRawMessage raw) = true := by
  obtain ⟨key, hinto, hfrom, hid, hverify⟩ := hfits
  simp only [Gossipsub.buildRawMessage, hs, PublishConfig.ofAuthenticity, map_eq_some_iff]
    at hraw
  obtain ⟨signature, hsign, rfl⟩ := hraw
  exact verifySignature_iff.mpr ⟨keypair.peerId, signature, key, rfl, rfl,
    hid ▸ publicKey_of_fits _ hinto hfrom rfl, hid, hverify _ _ hsign⟩

/-- What a node puts into the messages that it publishes. -/
structure Published (privacy : MessageAuthenticity) (raw : RawGossipsubMessage) : Prop where
  number_lt : ∀ n, raw.sequenceNumber = some n → n < 2 ^ 64
  signing : raw.signature.isSome = true → privacy.isSigning = true
  numbered : privacy.isSigning = true → raw.sequenceNumber.isSome = true
  anonymous : privacy.isAnonymous = true →
    raw.signature = none ∧ raw.sequenceNumber = none ∧ raw.source = none

theorem published_of_buildRawMessage {privacy : MessageAuthenticity} {s : Gossipsub P R F D}
    (hs : s.publishConfig = .ofAuthenticity privacy) {topic : TopicHash} {data : List UInt8}
    (hraw : (s.buildRawMessage topic data).1 = some raw) : Published privacy raw := by
  have hlt : ∀ n, n % 2 ^ 64 < 2 ^ 64 := fun n => Nat.mod_lt n (by decide)
  cases privacy with
  | signed keypair =>
    simp only [Gossipsub.buildRawMessage, hs, PublishConfig.ofAuthenticity, map_eq_some_iff]
      at hraw
    obtain ⟨signature, -, rfl⟩ := hraw
    exact ⟨fun n hn => some.inj hn ▸ hlt _, fun _ => rfl, fun _ => rfl, nofun⟩
  | author peer =>
    simp only [Gossipsub.buildRawMessage, hs, PublishConfig.ofAuthenticity, some.injEq]
      at hraw
    subst hraw
    exact ⟨fun n hn => some.inj hn ▸ hlt _, nofun, fun _ => rfl, nofun⟩
  | randomAuthor =>
    simp only [Gossipsub.buildRawMessage, hs, PublishConfig.ofAuthenticity, some.injEq]
      at hraw
    subst hraw
    exact ⟨fun n hn => some.inj hn ▸ hlt _, nofun, fun _ => rfl, nofun⟩
  | anonymous =>
    simp only [Gossipsub.buildRawMessage, hs, PublishConfig.ofAuthenticity, some.injEq]
      at hraw
    subst hraw
    exact ⟨nofun, nofun, nofun, fun _ => ⟨rfl, rfl, rfl⟩⟩

theorem readSequenceNumber_ofRawMessage (hlt : ∀ n, raw.sequenceNumber = some n → n < 2 ^ 64)
    {verify : Bool} (hsome : verify = true → raw.sequenceNumber.isSome = true) :
    readSequenceNumber verify (ofRawMessage raw) =
      .ok (if verify then raw.sequenceNumber else none) := by
  cases verify with
  | false => rfl
  | true =>
    obtain ⟨n, hn⟩ := isSome_iff_exists.mp (hsome rfl)
    rw [if_pos rfl, hn]
    refine readSequenceNumber_eq_ok_iff.mpr (.inr ⟨n, hlt n hn, ?_, rfl⟩)
    rw [ofRawMessage, hn, map_some]

theorem readSource_ofRawMessage (raw : RawGossipsubMessage) (verify : Bool)
    (sequenceNumber : Option Nat) :
    readSource verify (ofRawMessage raw) sequenceNumber =
      .ok (if verify then raw.source else none) := by
  cases verify with
  | false => rfl
  | true =>
    rw [if_pos rfl]
    cases hsource : raw.source with
    | none => rw [readSource, if_pos rfl, ofRawMessage, hsource, map_none]
    | some peer =>
      refine readSource_of_toBytes ?_ sequenceNumber
      rw [ofRawMessage, hsource, map_some]

theorem requiredChecks_of_published {privacy : MessageAuthenticity}
    (hconfig : validateConfig privacy mode = .ok ()) (hraw : Published privacy raw) :
    ∃ checks, requiredChecks (ofRawMessage raw) mode = .ok checks ∧
      (checks.signature = true → privacy.isSigning = true) ∧
      (checks.sequenceNo = true → raw.sequenceNumber.isSome = true) ∧
      (mode = .strict → checks = ⟨true, true, true⟩) := by
  cases mode with
  | strict =>
    have hsigning : privacy.isSigning = true := by
      by_contra hnot
      rw [validateConfig, if_pos hnot] at hconfig
      cases hconfig
    exact ⟨⟨true, true, true⟩, rfl, fun _ => hsigning, fun _ => hraw.numbered hsigning, fun _ => rfl⟩
  | permissive =>
    refine ⟨⟨_, _, _⟩, rfl, hraw.signing, fun h => ?_, nofun⟩
    rw [← h, ofRawMessage, isSome_map]
  | anonymous =>
    have hanonymous : privacy.isAnonymous = true := by
      cases privacy <;> first | rfl | cases hconfig
    obtain ⟨hsignature, hnumber, hsource⟩ := hraw.anonymous hanonymous
    refine ⟨⟨false, false, false⟩, ?_, nofun, nofun, nofun⟩
    simp [requiredChecks, ofRawMessage, hsignature, hnumber, hsource]
  | none => exact ⟨⟨false, false, false⟩, rfl, nofun, nofun,
      nofun⟩

/-- A message that a node publishes passes the validation of a node with the same validation
mode. In strict mode it is received as it was sent. -/
theorem published_accepted {privacy : MessageAuthenticity} {mode : ValidationMode}
    (hconfig : validateConfig privacy mode = .ok ())
    (hkeys : ∀ keypair, privacy = .signed keypair → c.Fits keypair)
    {s : Gossipsub P R F D} (hs : s.publishConfig = .ofAuthenticity privacy) {topic : TopicHash}
    {data : List UInt8} {raw : RawGossipsubMessage}
    (hraw : (s.buildRawMessage topic data).1 = some raw) (peer : PeerId) :
    ∃ received, handle c mode peer (Proto.intoProtobuf { messages := [raw] }) =
        .message peer { messages := [received] } [] ∧
      (mode = .strict → received = { raw with validated := false }) := by
  have hpublished := published_of_buildRawMessage hs hraw
  obtain ⟨checks, hchecks, hsigning, hnumbered, hstrict⟩ :=
    requiredChecks_of_published hconfig hpublished
  have hverify : checks.signature = true → verifySignature c (ofRawMessage raw) = true := by
    intro hsignature
    have hprivacy := hsigning hsignature
    cases privacy with
    | signed keypair => exact verifySignature_of_signing (hkeys keypair rfl) hs hraw
    | author _ | randomAuthor | anonymous => cases hprivacy
  refine ⟨_, handle_single_iff.mpr (validate_eq_ok_iff.mpr ⟨checks, _, _, hchecks, hverify,
    readSequenceNumber_ofRawMessage hpublished.number_lt hnumbered,
    readSource_ofRawMessage raw checks.source _, rfl⟩), ?_⟩
  intro hmode
  rw [hstrict hmode]
  rfl

def plainKeypair : Keypair := ⟨[1], PeerId.ofByte 1, some⟩

theorem plainScheme_fits : plainScheme.Fits plainKeypair := by
  refine ⟨[1], rfl, rfl, rfl, fun message signature h => ?_⟩
  cases h
  exact decide_eq_true rfl

def signingNode : Gossipsub Empty ℚ Unit Unit :=
  .initial (.signed plainKeypair) {} () () ⟨fun _ => 7, 0⟩ ⟨∅, [], 0, 0, 0⟩

theorem signingNode_published :
    ∃ received', handle plainScheme .strict (PeerId.ofByte 2)
          (Proto.intoProtobuf
            { messages := [{ received fullMessage (some 7) with validated := true }] }) =
        .message (PeerId.ofByte 2) { messages := [received'] } [] ∧
      (ValidationMode.strict = .strict → received' = received fullMessage (some 7)) := by
  have hconfig : validateConfig (.signed plainKeypair) .strict = .ok () := rfl
  have hraw : (signingNode.buildRawMessage ⟨[1]⟩ [5]).1 =
      some { received fullMessage (some 7) with validated := true } := by decide +kernel
  have hkeys : ∀ keypair, MessageAuthenticity.signed plainKeypair = .signed keypair →
      plainScheme.Fits keypair := by
    rintro keypair ⟨⟩
    exact plainScheme_fits
  exact published_accepted hconfig hkeys rfl hraw _

end GossipsubHandler

end Libp2pRs.Gossip
