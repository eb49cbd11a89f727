import Libp2pRs.Kad.Bucket
import Libp2pRs.Kad.Protocol

/-!
# The record store in memory

The store that `Kademlia` is used with. A provider record is placed by the distance of its
provider to the key, so the type of the stores depends on the digest.
-/

namespace Libp2pRs.Kad

open Lib Libp2pRs.Core

structure MemoryStoreConfig where
  maxRecords : Nat := 1024
  maxValueBytes : Nat := 65 * 1024
  maxProvidersPerKey : Nat := kValue

structure MemoryStore (sha256 : List UInt8 → KeyBytes) where
  config : MemoryStoreConfig
  records : Std.TreeMap RecordKey Record
  providers : Std.TreeMap RecordKey (List ProviderRecord)

namespace MemoryStore

variable {sha256 : List UInt8 → KeyBytes}

def withConfig (config : MemoryStoreConfig) : MemoryStore sha256 := ⟨config, ∅, ∅⟩

def new : MemoryStore sha256 := withConfig {}

def get (s : MemoryStore sha256) (k : RecordKey) : Option Record := s.records[k]?

def put (s : MemoryStore sha256) (r : Record) : MemoryStore sha256 × Except KadError Unit :=
  if s.config.maxValueBytes ≤ r.value.length then (s, .error .valueTooLarge)
  else
    match s.records[r.key]? with
    | some _ => ({ s with records := s.records.insert r.key r }, .ok ())
    | none =>
      if s.config.maxRecords ≤ s.records.size then (s, .error .maxRecords)
      else ({ s with records := s.records.insert r.key r }, .ok ())

def remove (s : MemoryStore sha256) (k : RecordKey) : MemoryStore sha256 :=
  { s with records := s.records.erase k }

/-- Whether a record that was received at `timestamp` is out of date. Records that were created
locally never are. -/
def isOutdated (now : Instant) (ttl : Duration) (timestamp : Option Instant) : Bool :=
  timestamp.elim false (fun t => t + ttl ≤ now)

def gcRecords (s : MemoryStore sha256) (now : Instant) (ttl : Duration) : MemoryStore sha256 :=
  (s.records.values.filter (fun r => isOutdated now ttl r.timeReceived)).foldl
    (fun s r => s.remove r.key) s

/-- The place of a new provider: before the first provider that is farther from the key. -/
def insertProvider (sha256 : List UInt8 → KeyBytes) (record : ProviderRecord) (ps : List ProviderRecord) : List ProviderRecord :=
  let key := Key.new sha256 record.key
  let provider := Key.ofPeerId sha256 record.provider
  let farther (p : ProviderRecord) : Bool :=
    provider.bytes.distance key < (Key.ofPeerId sha256 p.provider).bytes.distance key
  match ps.findIdx? farther with
  | some i => ps.insertIdx i record
  | none => ps ++ [record]

def addProvider (s : MemoryStore sha256) (record : ProviderRecord) :
    MemoryStore sha256 × Except KadError Unit :=
  let ps := s.providers[record.key]?.getD []
  let ps' :=
    match ps.findIdx? (fun p => p.provider = record.provider) with
    | some i => ps.set i record
    | none => (insertProvider sha256 record ps).take s.config.maxProvidersPerKey
  ({ s with providers := s.providers.insert record.key ps' }, .ok ())

def removeProvider (s : MemoryStore sha256) (key : RecordKey) (provider : PeerId) :
    MemoryStore sha256 :=
  match s.providers[key]? with
  | none => s
  | some ps =>
    let ps' := ps.eraseP (fun p => p.provider = provider)
    if ps'.isEmpty then { s with providers := s.providers.erase key }
    else { s with providers := s.providers.insert key ps' }

def gcProviders (s : MemoryStore sha256) (now : Instant) (ttl : Duration) : MemoryStore sha256 :=
  (s.providers.values.flatten.filter (fun r => isOutdated now ttl r.timeReceived)).foldl
    (fun s r => s.removeProvider r.key r.provider) s

instance : RecordStore (MemoryStore sha256) where
  get := get
  put := put
  remove := remove
  gcRecords := gcRecords
  providers s key := s.providers[key]?.getD []
  addProvider := addProvider
  removeProvider := removeProvider
  gcProviders := gcProviders

end MemoryStore

end Libp2pRs.Kad
