import Libp2pRs.Addr.Multiaddr
import Libp2pRs.Kad.Protocol

/-!
# Messages of the DHT in their protobuf form

Requests and responses are converted to one protobuf message type and back. Both directions use the
same six values of its `type` field, a reader knows from the stream which of the two it expects.
Peers that cannot be read are dropped from the lists, and an empty publisher is no publisher.

A record is sent without its time: the receiver sets it.
-/

namespace Libp2pRs.Kad

open Lib Libp2pRs.Core List

/-! ## Protobuf types -/

namespace Proto

inductive MessageType where
  | putValue
  | getValue
  | addProvider
  | getProviders
  | findNode
  | ping
  deriving DecidableEq, Repr

def MessageType.toI32 : MessageType → Int
  | putValue => 0
  | getValue => 1
  | addProvider => 2
  | getProviders => 3
  | findNode => 4
  | ping => 5

def MessageType.fromI32 : Int → Option MessageType
  | 0 => some putValue
  | 1 => some getValue
  | 2 => some addProvider
  | 3 => some getProviders
  | 4 => some findNode
  | 5 => some ping
  | _ => none

inductive ConnectionType where
  | notConnected
  | connected
  | canConnect
  | cannotConnect
  deriving DecidableEq, Repr

def ConnectionType.toI32 : ConnectionType → Int
  | notConnected => 0
  | connected => 1
  | canConnect => 2
  | cannotConnect => 3

def ConnectionType.fromI32 : Int → Option ConnectionType
  | 0 => some notConnected
  | 1 => some connected
  | 2 => some canConnect
  | 3 => some cannotConnect
  | _ => none

structure Record where
  key : List UInt8 := []
  value : List UInt8 := []
  timeReceived : String := ""
  publisher : List UInt8 := []

structure Peer where
  id : List UInt8 := []
  addrs : List (List UInt8) := []
  connection : Int := 0

structure Message where
  type : Int := 0
  clusterLevelRaw : Int := 0
  key : List UInt8 := []
  record : Option Record := none
  closerPeers : List Peer := []
  providerPeers : List Peer := []

@[simp] theorem MessageType.fromI32_toI32 (t : MessageType) : fromI32 t.toI32 = some t := by
  cases t <;> rfl

theorem MessageType.eq_toI32 (h : fromI32 n = some t) : n = t.toI32 := by
  unfold fromI32 at h
  split at h <;> cases h <;> rfl

@[simp] theorem ConnectionType.fromI32_toI32 (t : ConnectionType) : fromI32 t.toI32 = some t := by
  cases t <;> rfl

end Proto

inductive InvalidData where
  | text (s : String)
  | addr (e : Addr.Error)

def okOr {α : Type} (x : Option α) (e : InvalidData) : Except InvalidData α :=
  match x with
  | some a => .ok a
  | none => .error e

@[simp] theorem okOr_some (a : α) (e : InvalidData) : okOr (some a) e = .ok a := rfl

theorem okOr_eq_ok (h : okOr x e = .ok a) : x = some a := by
  cases x with
  | none => cases h
  | some b =>
    cases h
    rfl

/-! ## Conversions -/

def KadConnectionType.ofProto : Proto.ConnectionType → KadConnectionType
  | .notConnected => .notConnected
  | .connected => .connected
  | .canConnect => .canConnect
  | .cannotConnect => .cannotConnect

def KadConnectionType.toProto : KadConnectionType → Proto.ConnectionType
  | .notConnected => .notConnected
  | .connected => .connected
  | .canConnect => .canConnect
  | .cannotConnect => .cannotConnect

namespace KadPeer

/-- The addresses of a peer, up to the first that cannot be read. -/
def readAddrs : List (List UInt8) → Except InvalidData (List Multiaddr)
  | [] => .ok []
  | addr :: rest =>
    match Multiaddr.tryFrom addr with
    | .error e => .error (.addr e)
    | .ok asMa => do return asMa :: (← readAddrs rest)

def tryFromProto (peer : Proto.Peer) : Except InvalidData KadPeer := do
  let nodeId ← okOr (PeerId.fromBytes peer.id) (.text "invalid peer id")
  let addrs ← readAddrs peer.addrs
  let connectionTy ←
    okOr (Proto.ConnectionType.fromI32 peer.connection) (.text "unknown connection type")
  return ⟨nodeId, addrs, .ofProto connectionTy⟩

def toProto (p : KadPeer) : Proto.Peer where
  id := p.nodeId.toBytes
  addrs := p.multiaddrs.map Multiaddr.bytes
  connection := p.connectionTy.toProto.toI32

end KadPeer

def recordToProto (record : Record) : Proto.Record where
  key := record.key
  value := record.value
  publisher := (record.publisher.map PeerId.toBytes).getD []

def recordFromProto (now : Instant) (record : Proto.Record) : Except InvalidData Record := do
  let publisher ←
    if record.publisher ≠ [] then
      some <$> okOr (PeerId.fromBytes record.publisher) (.text "Invalid publisher peer ID.")
    else pure none
  return Record.new now record.key record.value false publisher

def readRecord (now : Instant) : Option Proto.Record → Except InvalidData (Option Record)
  | some r => some <$> recordFromProto now r
  | none => pure none

def reqMsgToProto : KadRequestMsg → Proto.Message
  | .ping => { type := Proto.MessageType.ping.toI32 }
  | .findNode key =>
    { type := Proto.MessageType.findNode.toI32, key := key, clusterLevelRaw := 10 }
  | .getProviders key =>
    { type := Proto.MessageType.getProviders.toI32, key := key, clusterLevelRaw := 10 }
  | .addProvider key provider =>
    { type := Proto.MessageType.addProvider.toI32, clusterLevelRaw := 10, key := key
      providerPeers := [provider.toProto] }
  | .getValue key =>
    { type := Proto.MessageType.getValue.toI32, clusterLevelRaw := 10, key := key }
  | .putValue record =>
    { type := Proto.MessageType.putValue.toI32, record := some (recordToProto record) }

def respMsgToProto : KadResponseMsg → Proto.Message
  | .pong => { type := Proto.MessageType.ping.toI32 }
  | .findNode closerPeers =>
    { type := Proto.MessageType.findNode.toI32, clusterLevelRaw := 9
      closerPeers := closerPeers.map KadPeer.toProto }
  | .getProviders closerPeers providerPeers =>
    { type := Proto.MessageType.getProviders.toI32, clusterLevelRaw := 9
      closerPeers := closerPeers.map KadPeer.toProto
      providerPeers := providerPeers.map KadPeer.toProto }
  | .getValue record closerPeers =>
    { type := Proto.MessageType.getValue.toI32, clusterLevelRaw := 9
      closerPeers := closerPeers.map KadPeer.toProto
      record := record.map recordToProto }
  | .putValue key value =>
    { type := Proto.MessageType.putValue.toI32, key := key
      record := some { key := key, value := value } }

def readType (message : Proto.Message) : Except InvalidData Proto.MessageType :=
  okOr (Proto.MessageType.fromI32 message.type)
    (.text ("unknown message type: " ++ toString message.type))

def validPeers (peers : List Proto.Peer) : List KadPeer :=
  peers.filterMap fun peer => (KadPeer.tryFromProto peer).toOption

def protoToReqMsg (now : Instant) (message : Proto.Message) : Except InvalidData KadRequestMsg := do
  match ← readType message with
  | .ping => return .ping
  | .putValue => return .putValue (← recordFromProto now (message.record.getD {}))
  | .getValue => return .getValue message.key
  | .findNode => return .findNode message.key
  | .getProviders => return .getProviders message.key
  | .addProvider =>
    let provider ←
      okOr (message.providerPeers.findSome? fun peer => (KadPeer.tryFromProto peer).toOption)
        (.text "AddProvider message with no valid peer.")
    return .addProvider message.key provider

def protoToRespMsg (now : Instant) (message : Proto.Message) :
    Except InvalidData KadResponseMsg := do
  match ← readType message with
  | .ping => return .pong
  | .getValue =>
    let record ← readRecord now message.record
    return .getValue record (validPeers message.closerPeers)
  | .findNode => return .findNode (validPeers message.closerPeers)
  | .getProviders =>
    return .getProviders (validPeers message.closerPeers) (validPeers message.providerPeers)
  | .putValue =>
    let received ← okOr message.record (.text "received PutValue message with no record")
    return .putValue message.key received.value
  | .addProvider => throw (.text "received an unexpected AddProvider message")

/-! ## What is compared -/

def Record.untimed (r : Record) : Record := { r with timeReceived := none }

def Record.received (now : Instant) (r : Record) : Record :=
  Record.new now r.key r.value false r.publisher

namespace KadRequestMsg

def untimed : KadRequestMsg → KadRequestMsg
  | putValue record => putValue record.untimed
  | m => m

def kind : KadRequestMsg → Proto.MessageType
  | ping => .ping
  | findNode _ => .findNode
  | getProviders _ => .getProviders
  | addProvider _ _ => .addProvider
  | getValue _ => .getValue
  | putValue _ => .putValue

def peers : KadRequestMsg → List KadPeer
  | addProvider _ provider => [provider]
  | _ => []

end KadRequestMsg

namespace KadResponseMsg

def untimed : KadResponseMsg → KadResponseMsg
  | getValue record closerPeers => getValue (record.map Record.untimed) closerPeers
  | m => m

def kind : KadResponseMsg → Proto.MessageType
  | pong => .ping
  | findNode _ => .findNode
  | getProviders _ _ => .getProviders
  | getValue _ _ => .getValue
  | putValue _ _ => .putValue

def peers : KadResponseMsg → List KadPeer
  | pong => []
  | findNode closerPeers => closerPeers
  | getProviders closerPeers providerPeers => closerPeers ++ providerPeers
  | getValue _ closerPeers => closerPeers
  | putValue _ _ => []

end KadResponseMsg

/-- The addresses of a peer can be read again. -/
def KadPeer.Readable (p : KadPeer) : Prop :=
  ∀ a ∈ p.multiaddrs, Multiaddr.tryFrom a.bytes = .ok a

/-! ## Reading what was written -/

theorem readAddrs_bytes (h : ∀ a ∈ addrs, Multiaddr.tryFrom a.bytes = .ok a) :
    KadPeer.readAddrs (addrs.map Multiaddr.bytes) = .ok addrs := by
  induction addrs with
  | nil => rfl
  | cons a addrs ih =>
    rw [map_cons, KadPeer.readAddrs, h a mem_cons_self, ih fun b hb => h b (mem_cons_of_mem a hb)]
    rfl

theorem KadConnectionType.ofProto_toProto (t : KadConnectionType) : ofProto t.toProto = t := by
  cases t <;> rfl

theorem KadPeer.tryFromProto_toProto (h : p.Readable) : tryFromProto p.toProto = .ok p := by
  have hid : PeerId.fromBytes p.toProto.id = some p.nodeId := PeerId.fromBytes_eq_some_iff.mpr rfl
  have haddrs : readAddrs p.toProto.addrs = .ok p.multiaddrs := readAddrs_bytes h
  have hconnection : Proto.ConnectionType.fromI32 p.toProto.connection =
      some p.connectionTy.toProto := Proto.ConnectionType.fromI32_toI32 _
  rw [tryFromProto, hid, haddrs, hconnection, okOr_some, okOr_some]
  change Except.ok (KadPeer.mk _ _ (KadConnectionType.ofProto p.connectionTy.toProto)) = _
  rw [KadConnectionType.ofProto_toProto]

theorem validPeers_toProto (h : ∀ p ∈ peers, p.Readable) :
    validPeers (peers.map KadPeer.toProto) = peers := by
  rw [validPeers, filterMap_map]
  calc peers.filterMap _ = peers.filterMap some := by
        apply filterMap_congr
        intro p hp
        rw [Function.comp_apply, KadPeer.tryFromProto_toProto (h p hp)]
        rfl
    _ = peers := filterMap_some

theorem recordFromProto_toProto (now : Instant) (r : Record) :
    recordFromProto now (recordToProto r) = .ok (r.received now) := by
  obtain ⟨key, value, timeReceived, publisher⟩ := r
  cases publisher with
  | none => rfl
  | some id =>
    have hne : (recordToProto ⟨key, value, timeReceived, some id⟩).publisher ≠ [] := nofun
    have hid : PeerId.fromBytes (recordToProto ⟨key, value, timeReceived, some id⟩).publisher =
        some id := PeerId.fromBytes_eq_some_iff.mpr rfl
    rw [recordFromProto, if_pos hne, hid]
    rfl

theorem readRecord_toProto (now : Instant) (r : Option Record) :
    readRecord now (r.map recordToProto) = .ok (r.map (Record.received now)) := by
  cases r with
  | none => rfl
  | some r =>
    rw [Option.map_some, readRecord, recordFromProto_toProto]
    rfl

variable {message : Proto.Message}

theorem readType_of (h : message.type = t.toI32) : readType message = .ok t := by
  rw [readType, h, Proto.MessageType.fromI32_toI32]
  rfl

theorem type_reqMsgToProto (m : KadRequestMsg) : (reqMsgToProto m).type = m.kind.toI32 := by
  cases m <;> rfl

theorem type_respMsgToProto (m : KadResponseMsg) : (respMsgToProto m).type = m.kind.toI32 := by
  cases m <;> rfl

theorem protoToReqMsg_reqMsgToProto (now : Instant) (h : ∀ p ∈ m.peers, p.Readable) :
    ∃ m', protoToReqMsg now (reqMsgToProto m) = .ok m' ∧ m'.untimed = m.untimed := by
  rw [protoToReqMsg, readType_of (type_reqMsgToProto m)]
  cases m with
  | putValue record =>
    have hread : recordFromProto now ((reqMsgToProto (.putValue record)).record.getD {}) =
        .ok (record.received now) := recordFromProto_toProto now record
    refine ⟨.putValue (record.received now), ?_, rfl⟩
    simp only [KadRequestMsg.kind, hread]
    rfl
  | addProvider key provider =>
    have hread := KadPeer.tryFromProto_toProto (h provider mem_cons_self)
    have hfind : (reqMsgToProto (.addProvider key provider)).providerPeers.findSome?
        (fun peer => (KadPeer.tryFromProto peer).toOption) = some provider := by
      rw [reqMsgToProto, findSome?_cons, hread]
      rfl
    refine ⟨.addProvider key provider, ?_, rfl⟩
    simp only [KadRequestMsg.kind, hfind]
    rfl
  | _ => exact ⟨_, rfl, rfl⟩

theorem protoToRespMsg_respMsgToProto (now : Instant) (h : ∀ p ∈ m.peers, p.Readable) :
    ∃ m', protoToRespMsg now (respMsgToProto m) = .ok m' ∧ m'.untimed = m.untimed := by
  rw [protoToRespMsg, readType_of (type_respMsgToProto m)]
  cases m with
  | pong | putValue key value => exact ⟨_, rfl, rfl⟩
  | findNode closerPeers =>
    have hpeers : validPeers (respMsgToProto (.findNode closerPeers)).closerPeers = closerPeers :=
      validPeers_toProto h
    refine ⟨.findNode closerPeers, ?_, rfl⟩
    simp only [KadResponseMsg.kind, hpeers]
    rfl
  | getProviders closerPeers providerPeers =>
    have hcloser : validPeers (respMsgToProto (.getProviders closerPeers providerPeers)).closerPeers =
        closerPeers := validPeers_toProto fun p hp => h p (mem_append_left _ hp)
    have hproviders :
        validPeers (respMsgToProto (.getProviders closerPeers providerPeers)).providerPeers =
          providerPeers := validPeers_toProto fun p hp => h p (mem_append_right _ hp)
    refine ⟨.getProviders closerPeers providerPeers, ?_, rfl⟩
    simp only [KadResponseMsg.kind, hcloser, hproviders]
    rfl
  | getValue record closerPeers =>
    have hpeers : validPeers (respMsgToProto (.getValue record closerPeers)).closerPeers =
        closerPeers := validPeers_toProto h
    have hread : readRecord now (respMsgToProto (.getValue record closerPeers)).record =
        .ok (record.map (Record.received now)) := readRecord_toProto now record
    refine ⟨.getValue (record.map (Record.received now)) closerPeers, ?_, ?_⟩
    · simp only [KadResponseMsg.kind, hpeers, hread]
      rfl
    · rw [KadResponseMsg.untimed, KadResponseMsg.untimed, Option.map_map]
      rfl

/-! ## Kinds of messages -/

theorem readType_eq_ok (h : readType message = .ok t) :
    Proto.MessageType.fromI32 message.type = some t :=
  okOr_eq_ok h

theorem kind_of_protoToReqMsg (h : protoToReqMsg now message = .ok m) :
    Proto.MessageType.fromI32 message.type = some m.kind := by
  obtain ⟨t, ht, h⟩ := bind_eq_ok_iff.mp h
  rw [readType_eq_ok ht]
  cases t with
  | putValue | addProvider =>
    obtain ⟨x, -, hx⟩ := bind_eq_ok_iff.mp h
    cases hx
    rfl
  | _ =>
    cases h
    rfl

theorem kind_of_protoToRespMsg (h : protoToRespMsg now message = .ok m) :
    Proto.MessageType.fromI32 message.type = some m.kind := by
  obtain ⟨t, ht, h⟩ := bind_eq_ok_iff.mp h
  rw [readType_eq_ok ht]
  cases t with
  | addProvider => cases h
  | putValue | getValue =>
    obtain ⟨x, -, hx⟩ := bind_eq_ok_iff.mp h
    cases hx
    rfl
  | _ =>
    cases h
    rfl

/-- Every request and every response is received as it was sent, but for the time of its record. A
message is never taken for one of another kind. -/
theorem wire_round_trip (now : Instant) :
    (∀ m : KadRequestMsg, (∀ p ∈ m.peers, p.Readable) →
      ∃ m', protoToReqMsg now (reqMsgToProto m) = .ok m' ∧ m'.untimed = m.untimed) ∧
    (∀ m : KadResponseMsg, (∀ p ∈ m.peers, p.Readable) →
      ∃ m', protoToRespMsg now (respMsgToProto m) = .ok m' ∧ m'.untimed = m.untimed) ∧
    (∀ m m' : KadRequestMsg, protoToReqMsg now (reqMsgToProto m) = .ok m' → m'.kind = m.kind) ∧
    (∀ m m' : KadResponseMsg, protoToRespMsg now (respMsgToProto m) = .ok m' → m'.kind = m.kind) ∧
    (∀ (message : Proto.Message) (m : KadRequestMsg), protoToReqMsg now message = .ok m →
      message.type = m.kind.toI32) ∧
    ∀ (message : Proto.Message) (m : KadResponseMsg), protoToRespMsg now message = .ok m →
      message.type = m.kind.toI32 := by
  refine ⟨fun m h => protoToReqMsg_reqMsgToProto now h,
    fun m h => protoToRespMsg_respMsgToProto now h, fun m m' h => ?_, fun m m' h => ?_,
    fun message m h => ?_, fun message m h => ?_⟩
  · have hkind := kind_of_protoToReqMsg h
    rw [type_reqMsgToProto, Proto.MessageType.fromI32_toI32] at hkind
    exact (Option.some_inj.mp hkind).symm
  · have hkind := kind_of_protoToRespMsg h
    rw [type_respMsgToProto, Proto.MessageType.fromI32_toI32] at hkind
    exact (Option.some_inj.mp hkind).symm
  · exact Proto.MessageType.eq_toI32 (kind_of_protoToReqMsg h)
  · exact Proto.MessageType.eq_toI32 (kind_of_protoToRespMsg h)

def sampleKadPeer : KadPeer := ⟨⟨.identity, [1], by decide⟩, [⟨[0xdd, 0x03]⟩], .connected⟩

theorem sampleKadPeer_readable : sampleKadPeer.Readable := by
  intro a ha
  rw [mem_singleton.mp ha]
  exact Multiaddr.tryFrom_eq_ok_iff.mpr ⟨rfl, _, Multiaddr.parsed_sampleImplicit⟩

/-- Announcing it as a provider. -/
theorem sampleKadPeer_round_trip :
    (∀ p ∈ (KadRequestMsg.addProvider [7] sampleKadPeer).peers, p.Readable) ∧
      ∃ m', protoToReqMsg 0 (reqMsgToProto (.addProvider [7] sampleKadPeer)) = .ok m' ∧
        m'.untimed = .addProvider [7] sampleKadPeer := by
  have hpeers : ∀ p ∈ (KadRequestMsg.addProvider [7] sampleKadPeer).peers, p.Readable := by
    intro p hp
    rw [mem_singleton.mp hp]
    exact sampleKadPeer_readable
  exact ⟨hpeers, (wire_round_trip 0).1 _ hpeers⟩

end Libp2pRs.Kad
