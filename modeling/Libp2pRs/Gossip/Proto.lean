import Libp2pRs.Gossip.Types

/-!
# The RPC on the wire

The protobuf messages, the length of their encoding, and the split of an RPC that is too large
for one transmission. A field is one byte of key followed by its value; a string, a byte string
or an embedded message is preceded by its length.
-/

namespace Libp2pRs.Gossip.Proto

open Libp2pRs.Core

def varintLen (n : Nat) : Nat := Nat.log2 n / 7 + 1

def fieldLen (len : Nat) : Nat := 1 + varintLen len + len

def bytesLen (b : Option (List UInt8)) : Nat := b.elim 0 (fun b => fieldLen b.length)

structure SubOpts where
  subscribe : Option Bool
  topicId : Option (List UInt8)
  deriving DecidableEq, Repr

def SubOpts.encodedLen (s : SubOpts) : Nat := s.subscribe.elim 0 (fun _ => 2) + bytesLen s.topicId

structure Message where
  fromPeer : Option (List UInt8)
  data : Option (List UInt8)
  seqno : Option (List UInt8)
  topic : List UInt8
  signature : Option (List UInt8)
  key : Option (List UInt8)
  deriving DecidableEq, Repr

def Message.encodedLen (m : Message) : Nat :=
  bytesLen m.fromPeer + bytesLen m.data + bytesLen m.seqno + fieldLen m.topic.length +
    bytesLen m.signature + bytesLen m.key

/-- A number in base 128, the least significant digit first. All digits but the last have the
high bit set. -/
def varintAux : Nat → Nat → List UInt8
  | 0, n => [UInt8.ofNat n]
  | fuel + 1, n =>
    if n < 128 then [UInt8.ofNat n] else UInt8.ofNat (n % 128 + 128) :: varintAux fuel (n / 128)

def varint (n : Nat) : List UInt8 := varintAux n n

def fieldBytes (number : Nat) (bytes : List UInt8) : List UInt8 :=
  UInt8.ofNat (number * 8 + 2) :: varint bytes.length ++ bytes

def optionalBytes (number : Nat) (bytes : Option (List UInt8)) : List UInt8 :=
  bytes.elim [] (fieldBytes number)

def Message.encode (m : Message) : List UInt8 :=
  optionalBytes 1 m.fromPeer ++ optionalBytes 2 m.data ++ optionalBytes 3 m.seqno ++
    fieldBytes 4 m.topic ++ optionalBytes 5 m.signature ++ optionalBytes 6 m.key

structure ControlIHave where
  topicId : Option (List UInt8)
  messageIds : List (List UInt8)
  deriving DecidableEq, Repr

def ControlIHave.encodedLen (c : ControlIHave) : Nat :=
  bytesLen c.topicId + (c.messageIds.map (fun m => fieldLen m.length)).sum

structure ControlIWant where
  messageIds : List (List UInt8)
  deriving DecidableEq, Repr

def ControlIWant.encodedLen (c : ControlIWant) : Nat :=
  (c.messageIds.map (fun m => fieldLen m.length)).sum

structure ControlGraft where
  topicId : Option (List UInt8)
  deriving DecidableEq, Repr

def ControlGraft.encodedLen (c : ControlGraft) : Nat := bytesLen c.topicId

structure PeerInfo where
  peerId : Option (List UInt8)
  signedPeerRecord : Option (List UInt8)
  deriving DecidableEq, Repr

def PeerInfo.encodedLen (p : PeerInfo) : Nat := bytesLen p.peerId + bytesLen p.signedPeerRecord

structure ControlPrune where
  topicId : Option (List UInt8)
  peers : List PeerInfo
  backoff : Option Nat
  deriving DecidableEq, Repr

def ControlPrune.encodedLen (c : ControlPrune) : Nat :=
  bytesLen c.topicId + (c.peers.map (fun p => fieldLen p.encodedLen)).sum +
    c.backoff.elim 0 (fun b => 1 + varintLen b)

structure ControlMessage where
  ihave : List ControlIHave := []
  iwant : List ControlIWant := []
  graft : List ControlGraft := []
  prune : List ControlPrune := []
  deriving DecidableEq, Repr

def ControlMessage.encodedLen (c : ControlMessage) : Nat :=
  (c.ihave.map (fun i => fieldLen i.encodedLen)).sum +
    (c.iwant.map (fun i => fieldLen i.encodedLen)).sum +
    (c.graft.map (fun g => fieldLen g.encodedLen)).sum +
    (c.prune.map (fun p => fieldLen p.encodedLen)).sum

structure Rpc where
  subscriptions : List SubOpts := []
  publish : List Message := []
  control : Option ControlMessage := none
  deriving DecidableEq, Repr

def Rpc.encodedLen (r : Rpc) : Nat :=
  (r.subscriptions.map (fun s => fieldLen s.encodedLen)).sum +
    (r.publish.map (fun m => fieldLen m.encodedLen)).sum +
    r.control.elim 0 (fun c => fieldLen c.encodedLen)

/-! ## From the RPC of gossipsub -/

def seqnoBytes (n : Nat) : List UInt8 :=
  (List.range 8).reverse.map (fun i => UInt8.ofNat (n / 256 ^ i))

def ofRawMessage (m : RawGossipsubMessage) : Message where
  fromPeer := m.source.map PeerId.toBytes
  data := some m.data
  seqno := m.sequenceNumber.map seqnoBytes
  topic := m.topic.hash
  signature := m.signature
  key := m.key

def ofSubscription (s : GossipsubSubscription) : SubOpts :=
  ⟨some (s.action = .subscribe), some s.topicHash.hash⟩

def ControlMessage.add (c : ControlMessage) : ControlAction → ControlMessage
  | .iHave t ids => { c with ihave := c.ihave ++ [⟨some t.hash, ids.map MessageId.id⟩] }
  | .iWant ids => { c with iwant := c.iwant ++ [⟨ids.map MessageId.id⟩] }
  | .graft t => { c with graft := c.graft ++ [⟨some t.hash⟩] }
  | .prune t peers backoff =>
    { c with prune := c.prune ++
        [⟨some t.hash, peers.map (fun p => ⟨p.peerId.map PeerId.toBytes, none⟩), backoff⟩] }

def intoProtobuf (rpc : GossipsubRpc) : Rpc where
  subscriptions := rpc.subscriptions.map ofSubscription
  publish := rpc.messages.map ofRawMessage
  control :=
    if rpc.controlMsgs.isEmpty then none else some (rpc.controlMsgs.foldl ControlMessage.add {})

/-! ## Fragments -/

/-- The fragments that are complete, and the one that is being filled. -/
structure Fragments where
  full : List Rpc
  cur : Rpc

/-- Starts a new fragment when an object of the given size, with an allowance of 5 percent, does
not fit into the current one. -/
def Fragments.createOrAdd (maxTransmitSize size : Nat) (f : Fragments) : Fragments :=
  if maxTransmitSize < f.cur.encodedLen + size * 105 / 100 ∧ f.cur ≠ {} then
    ⟨f.full ++ [f.cur], {}⟩
  else f

def Fragments.modify (g : Rpc → Rpc) (f : Fragments) : Fragments := { f with cur := g f.cur }

/-- Adds the objects one by one. One that does not fit into any fragment is an error. -/
def Fragments.addItems {α : Type} (maxTransmitSize : Nat) (size : α → Nat) (add : α → Rpc → Rpc)
    (f : Fragments) (items : List α) : Except PublishError Fragments :=
  items.foldlM (fun f item =>
    if maxTransmitSize < size item + 2 then .error .messageTooLarge
    else .ok ((f.createOrAdd maxTransmitSize (size item)).modify (add item))) f

/-- Adds the parts of a control message one by one. -/
def Fragments.addControl {α : Type} (maxTransmitSize : Nat) (size : α → Nat)
    (add : α → ControlMessage → ControlMessage) (f : Fragments) (items : List α) : Fragments :=
  items.foldl (fun f item => (f.createOrAdd maxTransmitSize (size item)).modify
    (fun r => { r with control := some (add item (r.control.getD {})) })) f

def fragmentMessage (maxTransmitSize : Nat) (rpc : Rpc) : Except PublishError (List Rpc) := do
  if rpc.encodedLen < maxTransmitSize then return [rpc]
  let f : Fragments := ⟨[], {}⟩
  let f ← f.addItems maxTransmitSize Message.encodedLen
    (fun m r => { r with publish := r.publish ++ [m] }) rpc.publish
  let f ← f.addItems maxTransmitSize SubOpts.encodedLen
    (fun s r => { r with subscriptions := r.subscriptions ++ [s] }) rpc.subscriptions
  let f :=
    match rpc.control with
    | none => f
    | some control =>
      if maxTransmitSize < control.encodedLen + 2 then
        let f := f.addControl maxTransmitSize ControlIHave.encodedLen
          (fun i c => { c with ihave := c.ihave ++ [i] }) control.ihave
        let f := f.addControl maxTransmitSize ControlIWant.encodedLen
          (fun i c => { c with iwant := c.iwant ++ [i] }) control.iwant
        let f := f.addControl maxTransmitSize ControlGraft.encodedLen
          (fun g c => { c with graft := c.graft ++ [g] }) control.graft
        f.addControl maxTransmitSize ControlPrune.encodedLen
          (fun p c => { c with prune := c.prune ++ [p] }) control.prune
      else
        (f.createOrAdd maxTransmitSize control.encodedLen).modify
          (fun r => { r with control := some control })
  return f.full ++ [f.cur]

end Libp2pRs.Gossip.Proto
