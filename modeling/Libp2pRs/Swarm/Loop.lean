import Libp2pRs.Swarm.Connections
import Libp2pRs.Swarm.Dialer

/-!
# The loop of the Swarm

The Swarm handles one command or event at a time. Around it run tasks: dials, the listeners, one task
for each connection and one for each stream that is being opened. They report by events, which wait
in a queue. A `System` is the Swarm with these tasks and the queue, and an `Action` is one step of the
loop or of a task; a run is any sequence of actions.

Beside the state stand the replies that were sent, the dials that were started, the transactions whose
result was handled and whose callback was invoked, and what the protocol handlers were told.

The peer store is shared with other tasks: what it knows of a peer comes with the command that asks
for it.
-/

namespace Libp2pRs.Swarm

open Lib Libp2pRs.Core Std

inductive Direction where
  | outbound
  | inbound
  deriving DecidableEq, Repr

structure ProtocolId where
  name : List UInt8
  data : UInt64
  deriving DecidableEq, Repr

/-- A protocol handler and its name. Its clones have the same name. -/
structure ProtocolHandler where
  name : Nat
  protocolInfo : List ProtocolId

abbrev Muxer := AList fun _ : ProtocolId => Nat

namespace Muxer

def addProtocolHandler (m : Muxer) (p : ProtocolHandler) : Muxer :=
  p.protocolInfo.foldl (fun m pid => m.insert pid p.name) m

def values (m : Muxer) : List Nat := m.entries.map Sigma.snd

end Muxer

/-- What is to be done with the connection that was dialed, or the error. The reply goes to the command
with the number `cmd`. -/
inductive DialCallback where
  | reply (cmd : Nat)
  | openStream (pids : List ProtocolId) (cmd : Nat)
  deriving DecidableEq, Repr

def DialCallback.cmd : DialCallback → Nat
  | .reply cmd => cmd
  | .openStream _ cmd => cmd

structure SwarmState where
  localPeerId : PeerId
  routing : Bool
  filterPrivate : Bool
  filterLoopback : Bool
  muxer : Muxer
  connections : Connections
  /-- The substreams of each connection. -/
  substreams : TreeMap Nat (List Nat)
  nextTid : Nat
  dialTransactions : AList fun _ : Nat => DialCallback
  bannedPeers : Finset PeerId

namespace SwarmState

def new (localPeerId : PeerId) (routing filterPrivate filterLoopback : Bool)
    (handlers : List ProtocolHandler) : SwarmState where
  localPeerId := localPeerId
  routing := routing
  filterPrivate := filterPrivate
  filterLoopback := filterLoopback
  muxer := handlers.foldl Muxer.addProtocolHandler ∅
  connections := .new
  substreams := ∅
  nextTid := 0
  dialTransactions := ∅
  bannedPeers := ∅

def numStreams (s : SwarmState) (cid : Nat) : Nat := (s.substreams[cid]?.getD []).length

/-- The connection to the peer with the most streams, and of several such the last. -/
def getBestConn (s : SwarmState) (peer : PeerId) : Option Connection :=
  let ids := s.connections.connectionsByPeer[peer]?.getD []
  let (_, best) := ids.foldl (fun (len, best) id =>
    match s.connections.connectionsById[id]? with
    | none => (len, best)
    | some connection =>
      let num := s.numStreams connection.id
      if num ≥ len then (num, some id) else (len, best)) (0, none)
  best.bind (s.connections.connectionsById[·]?)

end SwarmState

/-! ## The Swarm and its tasks -/

inductive SwarmEvent where
  | connectionEstablished (streamMuxer : StreamMuxer) (direction : Direction) (tid : Option Nat)
  | connectionClosed (cid : Nat)
  | streamOpened (cid sid : Nat)
  | outgoingConnectionError (peer : PeerId) (error : SwarmError) (tid : Nat)

def SwarmEvent.tid : SwarmEvent → Option Nat
  | .connectionEstablished _ _ tid => tid
  | .outgoingConnectionError _ _ tid => some tid
  | _ => none

structure Dial where
  tid : Nat
  peer : PeerId
  addrs : Option (List Multiaddr)
  deriving DecidableEq, Repr

/-- A task that opens a stream for a command. -/
structure Opening where
  cmd : Nat
  cid : Nat
  pids : List ProtocolId
  deriving DecidableEq, Repr

inductive Reply where
  | done (result : Except SwarmError Unit)
  | stream (result : Except SwarmError Nat)

inductive Notice where
  | connected (handler cid : Nat)
  | disconnected (handler cid : Nat)
  deriving DecidableEq, Repr

structure System where
  swarm : SwarmState
  events : List SwarmEvent
  dials : List Dial
  openings : List Opening
  /-- The number of commands that have been handled; a reply goes to the number of its command. -/
  received : Nat
  replies : List (Nat × Reply)
  started : List Dial
  handled : List Nat
  invoked : List Nat
  notices : List Notice
  panicked : Bool

namespace System

def start (swarm : SwarmState) : System := ⟨swarm, [], [], [], 0, [], [], [], [], [], false⟩

def send (s : System) (cmd : Nat) (reply : Reply) : System :=
  { s with replies := s.replies ++ [(cmd, reply)] }

def openStream (s : System) (cid : Nat) (pids : List ProtocolId) (cmd : Nat) : System :=
  { s with openings := s.openings ++ [⟨cmd, cid, pids⟩] }

def call (s : System) (f : DialCallback) (r : Except SwarmError Connection) : System :=
  match f, r with
  | .reply cmd, r => s.send cmd (.done (r.map fun _ => ()))
  | .openStream pids cmd, .ok connection => s.openStream connection.id pids cmd
  | .openStream _ cmd, .error e => s.send cmd (.stream (.error e))

/-- Allocates a transaction and starts the dialer. Without addresses it asks the routing interface. -/
def dial (s : System) (peer : PeerId) (addrs : Option (List Multiaddr)) (f : DialCallback) : System :=
  let tid := s.swarm.nextTid + 1
  { s with
    swarm :=
      { s.swarm with nextTid := tid, dialTransactions := s.swarm.dialTransactions.insert tid f }
    dials := s.dials ++ [⟨tid, peer, addrs⟩]
    started := s.started ++ [⟨tid, peer, addrs⟩] }

def dialAddr (s : System) (peer : PeerId) (addrs : List Multiaddr) (f : DialCallback) : System :=
  if s.swarm.localPeerId = peer then s.call f (.error .dialToSelf) else s.dial peer (some addrs) f

/-- What `dial_peer` dials with, when `known` is what the peer store knows of the peer. -/
def dialWith (s : SwarmState) (useRouting : Bool) : Option (List Multiaddr) → Option (Option (List Multiaddr))
  | some (addr :: addrs) =>
    let list := addr :: addrs
    let list := if s.filterPrivate then list.filter fun addr => !isPrivateAddr addr else list
    let list := if s.filterLoopback then list.filter fun addr => !isLoopbackAddr addr else list
    some (some list)
  | _ => if useRouting && s.routing then some none else none

def dialPeer (s : System) (peer : PeerId) (useRouting : Bool) (known : Option (List Multiaddr))
    (f : DialCallback) : System :=
  if s.swarm.localPeerId = peer then s.call f (.error .dialToSelf)
  else
    match dialWith s.swarm useRouting known with
    | some addrs => s.dial peer addrs f
    | none => s.call f (.error (.noAddresses peer))

/-! ### Commands -/

def onConnect (s : System) (cmd : Nat) (peer : PeerId) (addrs : List Multiaddr) : System :=
  match s.swarm.getBestConn peer with
  | some _ => s.send cmd (.done (.ok ()))
  | none => s.dialAddr peer addrs (.reply cmd)

def onNewConnection (s : System) (cmd : Nat) (peer : PeerId) (useRouting : Bool)
    (known : Option (List Multiaddr)) : System :=
  match s.swarm.getBestConn peer with
  | some _ => s.send cmd (.done (.ok ()))
  | none => s.dialPeer peer useRouting known (.reply cmd)

def onCloseConnection (s : System) (cmd : Nat) (peer : PeerId) : System :=
  match s.swarm.connections.connectionsByPeer[peer]? with
  | some _ => s.send cmd (.done (.ok ()))
  | none => s.send cmd (.done (.error (.noConnection peer)))

def onNewStream (s : System) (cmd : Nat) (peer : PeerId) (pids : List ProtocolId) (useRouting : Bool)
    (known : Option (List Multiaddr)) : System :=
  match s.swarm.getBestConn peer with
  | some connection => s.openStream connection.id pids cmd
  | none => s.dialPeer peer useRouting known (.openStream pids cmd)

/-! ### Events -/

/-- Removes the transaction and invokes its callback. Without the transaction `expect` panics. -/
def complete (s : System) (tid : Nat) (r : Except SwarmError Connection) : System :=
  match s.swarm.dialTransactions.lookup tid with
  | none => { s with panicked := true }
  | some f =>
    { s with
      swarm := { s.swarm with dialTransactions := s.swarm.dialTransactions.erase tid }
      handled := s.handled ++ [tid]
      invoked := s.invoked ++ [tid] }.call f r

def notify (s : System) (notice : Nat → Notice) : System :=
  { s with notices := s.notices ++ s.swarm.muxer.values.map notice }

/-- Only a connection that was dialed has a transaction. -/
def completeDial (s : System) (connection : Connection) : Option Nat → System
  | none => s
  | some tid => s.complete tid (.ok connection)

def handleConnectionOpened (s : System) (streamMuxer : StreamMuxer) (tid : Option Nat) : System :=
  let (connection, connections) := s.swarm.connections.handleConnectionOpened streamMuxer.remotePeer
  let s := (s.notify (.connected · connection.id)).completeDial connection tid
  if s.panicked then s else { s with swarm := { s.swarm with connections := connections } }

def handleOutgoingConnectionError (s : System) (error : SwarmError) (tid : Nat) : System :=
  s.complete tid (.error error)

def handleStreamOpened (s : System) (cid sid : Nat) : System :=
  if cid ∈ s.swarm.connections.connectionsById then
    { s with
      swarm :=
        { s.swarm with
          substreams := s.swarm.substreams.alter cid fun subs => some (subs.getD [] ++ [sid]) } }
  else s

def handleStreamClosed (s : System) (cid sid : Nat) : System :=
  { s with
    swarm :=
      { s.swarm with
        substreams := s.swarm.substreams.modify cid fun subs => subs.filter (· ≠ sid) } }

def handleConnectionClosed (s : System) (cid : Nat) : System :=
  match s.swarm.connections.handleConnectionClosed cid with
  | (none, _) => s
  | (some _, connections) =>
    { s with
      swarm :=
        { s.swarm with
          connections := connections, substreams := s.swarm.substreams.erase cid } }.notify
      (.disconnected · cid)

def onEvent (s : System) : SwarmEvent → System
  | .connectionEstablished streamMuxer _ tid => s.handleConnectionOpened streamMuxer tid
  | .connectionClosed cid => s.handleConnectionClosed cid
  | .streamOpened cid sid => s.handleStreamOpened cid sid
  | .outgoingConnectionError _ error tid => s.handleOutgoingConnectionError error tid

def post (s : System) (event : SwarmEvent) : System := { s with events := s.events ++ [event] }

/-! ### Steps -/

/-- The loop handles a command or the next event; a dial ends; a listener accepts a connection; the task
of a connection reports its end, or a stream that the remote has opened; a stream is opened for a
command; a peer is banned or not any more. -/
inductive Action where
  | connect (peer : PeerId) (addrs : List Multiaddr)
  | newConnection (peer : PeerId) (useRouting : Bool) (known : Option (List Multiaddr))
  | newStream (peer : PeerId) (pids : List ProtocolId) (useRouting : Bool)
      (known : Option (List Multiaddr))
  | closeConnection (peer : PeerId)
  | closeStream (cid sid : Nat)
  | handle
  | dialed (tid : Nat) (result : Except SwarmError StreamMuxer)
  | accepted (streamMuxer : StreamMuxer)
  | closed (cid : Nat)
  | inboundStream (cid sid : Nat)
  | opened (cmd : Nat) (result : Except TransportError Nat)
  | banPeerId (peer : PeerId)
  | unbanPeerId (peer : PeerId)

/-- The dial task reports. What it connects to is the peer that it dials. -/
def dialed (s : System) (d : Dial) : Except SwarmError StreamMuxer → System
  | .ok streamMuxer =>
    if streamMuxer.remotePeer = d.peer then
      { s with dials := s.dials.erase d }.post
        (.connectionEstablished streamMuxer .outbound (some d.tid))
    else s
  | .error e => { s with dials := s.dials.erase d }.post (.outgoingConnectionError d.peer e d.tid)

/-- The stream is there, or not, and the command gets its reply. -/
def opened (s : System) (o : Opening) : Except TransportError Nat → System
  | .ok sid =>
    ({ s with openings := s.openings.erase o }.post (.streamOpened o.cid sid)).send o.cmd
      (.stream (.ok sid))
  | .error e =>
    { s with openings := s.openings.erase o }.send o.cmd (.stream (.error (.transport e)))

def receive (s : System) : System := { s with received := s.received + 1 }

def stepRunning (s : System) : Action → System
  | .connect peer addrs => s.receive.onConnect s.received peer addrs
  | .newConnection peer useRouting known => s.receive.onNewConnection s.received peer useRouting known
  | .newStream peer pids useRouting known =>
    s.receive.onNewStream s.received peer pids useRouting known
  | .closeConnection peer => s.receive.onCloseConnection s.received peer
  | .closeStream cid sid => s.handleStreamClosed cid sid
  | .handle =>
    match s.events with
    | [] => s
    | event :: events => { s with events := events }.onEvent event
  | .dialed tid result =>
    match s.dials.find? (·.tid = tid) with
    | none => s
    | some d => s.dialed d result
  | .accepted streamMuxer => s.post (.connectionEstablished streamMuxer .inbound none)
  | .closed cid => s.post (.connectionClosed cid)
  | .inboundStream cid sid => s.post (.streamOpened cid sid)
  | .opened cmd result =>
    match s.openings.find? (·.cmd = cmd) with
    | none => s
    | some o => s.opened o result
  | .banPeerId peer =>
    { s with swarm := { s.swarm with bannedPeers := insert peer s.swarm.bannedPeers } }
  | .unbanPeerId peer =>
    { s with swarm := { s.swarm with bannedPeers := s.swarm.bannedPeers.erase peer } }

def step (s : System) (a : Action) : System := if s.panicked then s else s.stepRunning a

end System

end Libp2pRs.Swarm
