import Libp2pRs.Lib.Maps
import Libp2pRs.Core.PeerId
import Libp2pRs.Core.Time

/-!
# The peer store

One map from peers to records behind one lock, so every method is one atomic step. A record
that is not pinned loses its expired addresses in `removeExpiredAddrs` and disappears with the
last of them. A method that only modifies a record does nothing for a peer without one; that
includes `pin`.
-/

namespace Libp2pRs.Core

open Lib Std

/-- The binary form of a multiaddr. -/
structure Multiaddr where
  bytes : List UInt8
  deriving DecidableEq, Repr

/-- A public key in its protobuf encoding. -/
structure PublicKey where
  bytes : List UInt8
  deriving DecidableEq, Repr

def addressTtl : Duration := Duration.fromSecs (60 * 60)

def tempAddrTtl : Duration := Duration.fromSecs (2 * 60)

def providerAddrTtl : Duration := Duration.fromSecs (10 * 60)

structure AddrBookRecord where
  addr : Multiaddr
  ttl : Duration
  expiry : Instant
  deriving DecidableEq, Repr

namespace AddrBookRecord

def new (now : Instant) (addr : Multiaddr) (ttl : Duration) : AddrBookRecord := ⟨addr, ttl, now⟩

def setTtl (now : Instant) (ttl : Duration) (r : AddrBookRecord) : AddrBookRecord :=
  { r with ttl := ttl, expiry := now }

/-- `record.expiry.elapsed() < record.ttl`. -/
def isLive (now : Instant) (r : AddrBookRecord) : Bool := Instant.durationSince now r.expiry < r.ttl

end AddrBookRecord

/-- What the store knows about a peer. `protos` is a set. -/
structure PeerRecord where
  pinned : Bool
  addrs : List AddrBookRecord
  key : Option PublicKey
  protos : List String
  deriving DecidableEq, Repr

namespace PeerRecord

def new (addrs : List AddrBookRecord) (key : Option PublicKey) (protos : List String) :
    PeerRecord := ⟨false, addrs, key, protos⟩

/-- One address of `add_addrs` on an existing record. -/
def addAddr (now : Instant) (ttl : Duration) (pr : PeerRecord) (addr : Multiaddr) :
    PeerRecord :=
  match pr.addrs.findIdx? (fun item => item.addr = addr) with
  | some i => { pr with addrs := pr.addrs.modify i (AddrBookRecord.setTtl now ttl) }
  | none => { pr with addrs := pr.addrs ++ [AddrBookRecord.new now addr ttl] }

/-- The record after one garbage collection, `none` if it is removed. -/
def collect (now : Instant) (pr : PeerRecord) : Option PeerRecord :=
  if pr.pinned then some pr
  else
    let addrs := pr.addrs.filter (AddrBookRecord.isLive now)
    if addrs.isEmpty then none else some { pr with addrs := addrs }

def extendProtos (protos : List String) (pr : PeerRecord) : PeerRecord :=
  { pr with protos := pr.protos ∪ protos }

@[simp] theorem addAddr_pinned (now : Instant) (ttl : Duration) (pr : PeerRecord)
    (addr : Multiaddr) : (pr.addAddr now ttl addr).pinned = pr.pinned := by
  unfold addAddr
  split <;> rfl

@[simp] theorem foldl_addAddr_pinned (now : Instant) (ttl : Duration) (addrs : List Multiaddr)
    (pr : PeerRecord) : (addrs.foldl (addAddr now ttl) pr).pinned = pr.pinned := by
  induction addrs generalizing pr with
  | nil => rfl
  | cons a addrs ih => rw [List.foldl_cons, ih, addAddr_pinned]

end PeerRecord

structure PeerStore where
  inner : TreeMap PeerId PeerRecord

namespace PeerStore

def empty : PeerStore := ⟨∅⟩

def get (s : PeerStore) (p : PeerId) : Option PeerRecord := s.inner[p]?

def modify (s : PeerStore) (p : PeerId) (f : PeerRecord → PeerRecord) : PeerStore :=
  ⟨s.inner.modify p f⟩

def getPeers (s : PeerStore) : List PeerId := s.inner.keys

def pin (s : PeerStore) (p : PeerId) : PeerStore := s.modify p ({ · with pinned := true })

def unpin (s : PeerStore) (p : PeerId) : PeerStore := s.modify p ({ · with pinned := false })

def pinned (s : PeerStore) (p : PeerId) : Bool := (s.get p).elim false PeerRecord.pinned

def addKey (s : PeerStore) (p : PeerId) (key : PublicKey) : PeerStore :=
  s.modify p ({ · with key := some key })

def getKey (s : PeerStore) (p : PeerId) : Option PublicKey := (s.get p).bind PeerRecord.key

def addAddrs (s : PeerStore) (now : Instant) (p : PeerId) (addrs : List Multiaddr)
    (ttl : Duration) : PeerStore :=
  match s.get p with
  | some pr => ⟨s.inner.insert p (addrs.foldl (PeerRecord.addAddr now ttl) pr)⟩
  | none =>
    ⟨s.inner.insert p (PeerRecord.new (addrs.map (AddrBookRecord.new now · ttl)) none [])⟩

def clearAddrs (s : PeerStore) (p : PeerId) : PeerStore := s.modify p ({ · with addrs := [] })

def getAddrs (s : PeerStore) (p : PeerId) : Option (List Multiaddr) :=
  (s.get p).map (fun pr => pr.addrs.map AddrBookRecord.addr)

def updateAddr (s : PeerStore) (now : Instant) (p : PeerId) (ttl : Duration) : PeerStore :=
  s.modify p (fun pr => { pr with addrs := pr.addrs.map (AddrBookRecord.setTtl now ttl) })

def removeExpiredAddrs (s : PeerStore) (now : Instant) : PeerStore :=
  ⟨s.inner.filterMap (fun _ pr => PeerRecord.collect now pr)⟩

def addProtocols (s : PeerStore) (p : PeerId) (protos : List String) : PeerStore :=
  match s.get p with
  | some pr => ⟨s.inner.insert p (PeerRecord.extendProtos protos pr)⟩
  | none => ⟨s.inner.insert p (PeerRecord.new [] none ([] ∪ protos))⟩

def clearProtocols (s : PeerStore) (p : PeerId) : PeerStore := s.modify p ({ · with protos := [] })

def getProtocols (s : PeerStore) (p : PeerId) : Option (List String) :=
  (s.get p).map PeerRecord.protos

def firstSupportedProtocol (s : PeerStore) (p : PeerId) (protos : List String) : Option String :=
  (s.get p).bind (fun pr => protos.find? (fun proto => proto ∈ pr.protos))

def supportProtocols (s : PeerStore) (p : PeerId) (protos : List String) : Option (List String) :=
  (s.get p).map (fun pr => protos.filter (fun proto => proto ∈ pr.protos))

/-! ## What a call does to a record -/

variable (s : PeerStore) (p q : PeerId)

theorem get_modify (f : PeerRecord → PeerRecord) :
    (s.modify p f).get q = if p = q then (s.get q).map f else s.get q :=
  Lib.get_modify s.inner p q f

theorem get_addAddrs (now : Instant) (addrs : List Multiaddr) (ttl : Duration) :
    (s.addAddrs now p addrs ttl).get q = if p = q then
        some ((s.get p).elim (PeerRecord.new (addrs.map (AddrBookRecord.new now · ttl)) none [])
          (addrs.foldl (PeerRecord.addAddr now ttl)))
      else s.get q := by
  unfold addAddrs
  split <;> rename_i h <;> rw [h] <;> exact Lib.get_insert s.inner p q _

theorem get_addProtocols (protos : List String) : (s.addProtocols p protos).get q = if p = q then
        some ((s.get p).elim (PeerRecord.new [] none ([] ∪ protos)) (PeerRecord.extendProtos protos))
      else s.get q := by
  unfold addProtocols
  split <;> rename_i h <;> rw [h] <;> exact Lib.get_insert s.inner p q _

theorem get_removeExpiredAddrs (now : Instant) :
    (s.removeExpiredAddrs now).get q = (s.get q).bind (PeerRecord.collect now) :=
  TreeMap.getElem?_filterMap'

/-! ## What a call does to the pins -/

theorem pinned_modify (f : PeerRecord → PeerRecord) (hf : ∀ pr, (f pr).pinned = pr.pinned) :
    (s.modify p f).pinned q = s.pinned q := by
  unfold pinned
  rw [get_modify]
  split
  · cases s.get q with
    | none => rfl
    | some pr => exact hf pr
  · rfl

theorem pinned_pin : (s.pin p).pinned q = if p = q then (s.get q).isSome else s.pinned q := by
  unfold pinned pin
  rw [get_modify]
  split
  · cases s.get q <;> rfl
  · rfl

theorem pinned_unpin : (s.unpin p).pinned q = if p = q then false else s.pinned q := by
  unfold pinned unpin
  rw [get_modify]
  split
  · cases s.get q <;> rfl
  · rfl

theorem pinned_addAddrs (now : Instant) (addrs : List Multiaddr) (ttl : Duration) :
    (s.addAddrs now p addrs ttl).pinned q = s.pinned q := by
  unfold pinned
  rw [get_addAddrs]
  split
  · rename_i h
    subst h
    cases s.get p with
    | none => rfl
    | some pr => simp
  · rfl

theorem pinned_addProtocols (protos : List String) :
    (s.addProtocols p protos).pinned q = s.pinned q := by
  unfold pinned
  rw [get_addProtocols]
  split
  · rename_i h
    subst h
    cases s.get p <;> rfl
  · rfl

theorem pinned_removeExpiredAddrs (now : Instant) :
    (s.removeExpiredAddrs now).pinned q = s.pinned q := by
  unfold pinned
  rw [get_removeExpiredAddrs]
  cases s.get q with
  | none => rfl
  | some pr =>
    simp only [Option.bind_some, PeerRecord.collect, Option.elim_some]
    by_cases hp : pr.pinned = true
    · simp [hp]
    · simp only [hp, Bool.false_eq_true, if_false]
      split <;> simp

theorem get_removeExpiredAddrs_of_pinned {s : PeerStore} {q : PeerId} (h : s.pinned q = true)
    (now : Instant) : (s.removeExpiredAddrs now).get q = s.get q := by
  rw [get_removeExpiredAddrs]
  unfold pinned at h
  cases hq : s.get q with
  | none => rfl
  | some pr =>
    rw [hq] at h
    simp only [Option.elim_some] at h
    simp [PeerRecord.collect, h]

theorem isSome_of_pinned {s : PeerStore} {q : PeerId} (h : s.pinned q = true) :
    (s.get q).isSome := by
  unfold pinned at h
  cases hq : s.get q with
  | none => simp [hq] at h
  | some pr => rfl

/-! ## The calls of the tasks that never pin -/

/-- A call that changes the store, other than `pin` and `unpin`. -/
inductive Op where
  | addKey (p : PeerId) (key : PublicKey)
  | addAddrs (p : PeerId) (addrs : List Multiaddr) (ttl : Duration)
  | clearAddrs (p : PeerId)
  | updateAddr (p : PeerId) (ttl : Duration)
  | removeExpiredAddrs
  | addProtocols (p : PeerId) (protos : List String)
  | clearProtocols (p : PeerId)

def Op.apply (s : PeerStore) (now : Instant) : Op → PeerStore
  | addKey p key => s.addKey p key
  | addAddrs p addrs ttl => s.addAddrs now p addrs ttl
  | clearAddrs p => s.clearAddrs p
  | updateAddr p ttl => s.updateAddr now p ttl
  | removeExpiredAddrs => s.removeExpiredAddrs now
  | addProtocols p protos => s.addProtocols p protos
  | clearProtocols p => s.clearProtocols p

theorem Op.pinned_apply (now : Instant) (op : Op) : (op.apply s now).pinned q = s.pinned q := by
  cases op with
  | addKey p key => exact pinned_modify s p q _ (fun _ => rfl)
  | addAddrs p addrs ttl => exact pinned_addAddrs s p q now addrs ttl
  | clearAddrs p | updateAddr p ttl => exact pinned_modify s p q _ (fun _ => rfl)
  | removeExpiredAddrs => exact pinned_removeExpiredAddrs s q now
  | addProtocols p protos => exact pinned_addProtocols s p q protos
  | clearProtocols p => exact pinned_modify s p q _ (fun _ => rfl)

end PeerStore

end Libp2pRs.Core
