import Libp2pRs.Gossip.Types
import Libp2pRs.Lib.Maps

/-!
# The caches of gossipsub

`TimeCache` keeps a value for a fixed time; `DuplicateCache` is the set of the keys of such a
cache. `MessageCache` keeps the messages of the last heartbeats. `none` is a panic.
-/

namespace Libp2pRs.Gossip

open Lib Libp2pRs.Core Std

/-! ## The time cache -/

structure ExpiringElement (α : Type) where
  element : α
  expires : Instant
  deriving Repr

structure TimeCache (K V : Type) [Ord K] where
  /-- A value with its latest expiration. -/
  map : TreeMap K (ExpiringElement V)
  /-- The keys in the order of the expirations that they were given. -/
  list : List (ExpiringElement K)
  ttl : Duration

/-- An entry of the cache, with the expiration that an insertion would give it. -/
inductive TimeCache.Entry (V : Type) where
  | occupied (expiration : Instant) (value : V)
  | vacant (expiration : Instant)

namespace TimeCache

variable {K V : Type} [Ord K]

def new (ttl : Duration) : TimeCache K V := ⟨∅, [], ttl⟩

/-- Takes the keys off the front of the list up to the first that has not expired. -/
def removeExpiredKeysAux (now : Instant) :
    TreeMap K (ExpiringElement V) → List (ExpiringElement K) →
      TreeMap K (ExpiringElement V) × List (ExpiringElement K)
  | map, [] => (map, [])
  | map, e :: list =>
    if now < e.expires then (map, e :: list)
    else
      -- the key may have been given a later expiration since
      match map[e.element]? with
      | some v =>
        if v.expires ≤ now then removeExpiredKeysAux now (map.erase e.element) list
        else removeExpiredKeysAux now map list
      | none => removeExpiredKeysAux now map list

def removeExpiredKeys (c : TimeCache K V) (now : Instant) : TimeCache K V :=
  let r := removeExpiredKeysAux now c.map c.list
  { c with map := r.1, list := r.2 }

def entry (c : TimeCache K V) (now : Instant) (key : K) :
    Option (Entry V × TimeCache K V) := do
  let c := c.removeExpiredKeys now
  let expiration ← now.checkedAdd c.ttl
  match c.map[key]? with
  | some v => some (.occupied expiration v.element, c)
  | none => some (.vacant expiration, c)

/-- `VacantEntry::insert`, and `OccupiedEntry::insert_and_update_expiration`: the value and its
expiration are set, and the key is appended to the list. -/
def insert (c : TimeCache K V) (key : K) (expiration : Instant) (value : V) : TimeCache K V :=
  { c with
    map := c.map.insert key ⟨value, expiration⟩
    list := c.list ++ [⟨key, expiration⟩] }

def insertWithoutUpdatingExpiration (c : TimeCache K V) (key : K) (value : V) : TimeCache K V :=
  { c with map := c.map.modify key (fun v => { v with element := value }) }

def orInsertWith (c : TimeCache K V) (now : Instant) (key : K) (value : V) :
    Option (TimeCache K V) := do
  match ← c.entry now key with
  | (.occupied _ _, c) => some c
  | (.vacant expiration, c) => some (c.insert key expiration value)

def clear (c : TimeCache K V) : TimeCache K V := { c with map := ∅, list := [] }

def containsKey (c : TimeCache K V) (key : K) : Bool := c.map.contains key

def get (c : TimeCache K V) (key : K) : Option V := c.map[key]?.map ExpiringElement.element

end TimeCache

abbrev DuplicateCache (K : Type) [Ord K] := TimeCache K Unit

namespace DuplicateCache

variable {K : Type} [Ord K]

def insert (c : DuplicateCache K) (now : Instant) (key : K) : Option (Bool × DuplicateCache K) := do
  match ← c.entry now key with
  | (.occupied _ _, c) => some (false, c)
  | (.vacant expiration, c) => some (true, TimeCache.insert c key expiration ())

def contains (c : DuplicateCache K) (key : K) : Bool := c.containsKey key

end DuplicateCache

/-! ## The message cache -/

structure CacheEntry where
  mid : MessageId
  topic : TopicHash
  deriving DecidableEq, Repr

structure MessageCache where
  msgs : TreeMap MessageId RawGossipsubMessage
  /-- How often a peer has asked for a message. -/
  iwantCounts : TreeMap MessageId (TreeMap PeerId Nat)
  history : List (List CacheEntry)
  /-- The number of slots of the history that are gossiped about. -/
  gossip : Nat

namespace MessageCache

def new (gossip historyCapacity : Nat) : MessageCache where
  msgs := ∅
  iwantCounts := ∅
  history := List.replicate historyCapacity []
  gossip := gossip

/-- A message that is not cached yet gets an entry in the newest slot. -/
def put (c : MessageCache) (id : MessageId) (msg : RawGossipsubMessage) : Option MessageCache :=
  let msgs := c.msgs.insert id msg
  if c.msgs.contains id then some { c with msgs }
  else
    match c.history with
    | [] => none
    | slot :: slots => some { c with msgs, history := (slot ++ [⟨id, msg.topic⟩]) :: slots }

/-- The message and how often the peer has now asked for it, if the message is validated. -/
def getWithIwantCounts (c : MessageCache) (id : MessageId) (peer : PeerId) :
    Option (Option (RawGossipsubMessage × Nat) × MessageCache) :=
  match c.msgs[id]? with
  | none => some (none, c)
  | some msg =>
    if msg.validated then
      let counts := c.iwantCounts[id]?.getD ∅
      let count := counts[peer]?.getD 0 + 1
      if 2 ^ 32 ≤ count then none
      else some (some (msg, count),
        { c with iwantCounts := c.iwantCounts.insert id (counts.insert peer count) })
    else some (none, c)

def validate (c : MessageCache) (id : MessageId) : Option RawGossipsubMessage × MessageCache :=
  match c.msgs[id]? with
  | none => (none, c)
  | some msg =>
    let msg := { msg with validated := true }
    (some msg, { c with msgs := c.msgs.insert id msg })

/-- The validated messages of the topic in the slots that are gossiped about. -/
def getGossipMessageIds (c : MessageCache) (topic : TopicHash) : Option (List MessageId) :=
  if c.history.length < c.gossip then none
  else
    let entries := (c.history.take c.gossip).flatten
    let found := entries.filter (fun e =>
      e.topic = topic ∧ c.msgs[e.mid]?.map RawGossipsubMessage.validated = some true)
    some (found.map CacheEntry.mid)

/-- Drops the oldest slot with its messages, and starts a new one. -/
def shift (c : MessageCache) : Option MessageCache :=
  match c.history.getLast? with
  | none => none
  | some slot =>
    some { c with
      msgs := slot.foldl (fun m e => m.erase e.mid) c.msgs
      iwantCounts := slot.foldl (fun m e => m.erase e.mid) c.iwantCounts
      history := [] :: c.history.dropLast }

/-- The history keeps the id of a message that is removed. -/
def remove (c : MessageCache) (id : MessageId) : Option RawGossipsubMessage × MessageCache :=
  (c.msgs[id]?, { c with iwantCounts := c.iwantCounts.erase id, msgs := c.msgs.erase id })

end MessageCache

end Libp2pRs.Gossip
