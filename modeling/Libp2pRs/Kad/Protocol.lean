import Libp2pRs.Core.PeerStore
import Libp2pRs.Kad.Key

/-!
# Records, messages and the record store of the DHT

The data that the Kademlia behaviour and the queries exchange. `Kademlia` is generic over its
record store; `RecordStore` lists the operations it uses. A request that expects an answer
carries a `ReplyId`, which names its oneshot channel.
-/

namespace Libp2pRs.Kad

open Libp2pRs.Core

abbrev RecordKey := List UInt8

def RecordKey.ofPeerId (p : PeerId) : RecordKey := p.toBytes

/-- A record stored in the DHT. `timeReceived` is `none` for a record created locally. -/
structure Record where
  key : RecordKey
  value : List UInt8
  timeReceived : Option Instant
  publisher : Option PeerId
  deriving DecidableEq, Repr

def Record.new (now : Instant) (key : RecordKey) (value : List UInt8) (isLocal : Bool)
    (publisher : Option PeerId) : Record :=
  ⟨key, value, if isLocal then none else some now, publisher⟩

/-- A record whose value is the id of a peer that can provide the value. -/
structure ProviderRecord where
  key : RecordKey
  provider : PeerId
  timeReceived : Option Instant
  deriving DecidableEq, Repr

def ProviderRecord.new (now : Instant) (key : RecordKey) (provider : PeerId) (isLocal : Bool) :
    ProviderRecord :=
  ⟨key, provider, if isLocal then none else some now⟩

inductive KadConnectionType where
  | notConnected
  | connected
  | canConnect
  | cannotConnect
  deriving DecidableEq, Repr

structure KadPeer where
  nodeId : PeerId
  multiaddrs : List Multiaddr
  connectionTy : KadConnectionType
  deriving DecidableEq, Repr

inductive KadError where
  | maxRecords
  | valueTooLarge
  | noKnownPeers
  | notFound
  | bootstrap
  | timeout
  | invalidSource (p : PeerId)
  deriving DecidableEq, Repr

/-- `K_VALUE` as the `NonZeroUsize` it is. -/
def kNonZero : ℕ+ := 20

def alphaValue : ℕ+ := 3

def betaValue : ℕ+ := 3

/-- The configuration for queries. `k`, `alpha` and `beta` are `NonZeroUsize`. -/
structure QueryConfig where
  timeout : Duration := Duration.fromSecs 180
  kValue : ℕ+ := kNonZero
  alphaValue : ℕ+ := Kad.alphaValue
  betaValue : ℕ+ := Kad.betaValue

class RecordStore (S : Type) where
  get : S → RecordKey → Option Record
  put : S → Record → S × Except KadError Unit
  remove : S → RecordKey → S
  gcRecords : S → Instant → Duration → S
  providers : S → RecordKey → List ProviderRecord
  addProvider : S → ProviderRecord → S × Except KadError Unit
  removeProvider : S → RecordKey → PeerId → S
  gcProviders : S → Instant → Duration → S

/-- The oneshot channel a request is answered on. -/
abbrev ReplyId := Nat

inductive KadRequestMsg where
  | ping
  | findNode (key : RecordKey)
  | getProviders (key : RecordKey)
  | addProvider (key : RecordKey) (provider : KadPeer)
  | getValue (key : RecordKey)
  | putValue (record : Record)

inductive KadResponseMsg where
  | pong
  | findNode (closerPeers : List KadPeer)
  | getProviders (closerPeers providerPeers : List KadPeer)
  | getValue (record : Option Record) (closerPeers : List KadPeer)
  | putValue (key : RecordKey) (value : List UInt8)
  deriving DecidableEq, Repr

inductive RefreshStage where
  | start (reply : Option ReplyId)
  | selfQueryDone (reply : Option ReplyId)
  | completed

inductive ProtocolEvent where
  | refresh (stage : RefreshStage)
  | peerConnected (p : PeerId)
  | peerDisconnected (p : PeerId)
  | peerIdentified (p : PeerId)
  | addressChanged (addrs : List Multiaddr)
  | kadPeerFound (p : PeerId) (queried : Bool)
  | kadPeerStopped (p : PeerId)
  | gcTimer
  | refreshTimer
  | kadRequest (request : KadRequestMsg) (source : PeerId) (reply : ReplyId)

inductive ControlCommand where
  | bootstrap (boot : List (PeerId × Multiaddr)) (reply : Option ReplyId)
  | lookup (key : RecordKey) (reply : ReplyId)
  | findPeer (p : PeerId) (reply : ReplyId)
  | findProviders (key : RecordKey) (count : Nat) (reply : ReplyId)
  | providing (key : RecordKey) (reply : ReplyId)
  | unprovide (key : RecordKey)
  | putValue (key : RecordKey) (value : List UInt8) (reply : ReplyId)
  | getValue (key : RecordKey) (reply : ReplyId)
  | addNode (p : PeerId) (addrs : List Multiaddr)
  | removeNode (p : PeerId)
  | notAddressPeer (reply : ReplyId)
  | closestByBucket (key : RecordKey) (reply : ReplyId)

/-- A call of Kademlia or of a query that changes the peer store of the swarm. -/
inductive StoreCall where
  | pin (p : PeerId)
  | unpin (p : PeerId)
  | addAddrs (p : PeerId) (addrs : List Multiaddr) (ttl : Duration)
  | clearAddrs (p : PeerId)
  deriving DecidableEq, Repr

def StoreCall.apply (s : PeerStore) (now : Instant) : StoreCall → PeerStore
  | pin p => s.pin p
  | unpin p => s.unpin p
  | addAddrs p addrs ttl => s.addAddrs now p addrs ttl
  | clearAddrs p => s.clearAddrs p

end Libp2pRs.Kad
