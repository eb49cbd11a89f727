import Libp2pRs.Core.PeerStore
import Libp2pRs.Lib.Runs
import Libp2pRs.Lib.Tables

/-!
# The address book of the peer store

What the store is for is an `AddressBook`: for every known peer a map from its addresses to the time at
which they were last set and their time to live. Beside every run of calls the book is kept, and the
store is compared with it.

`add_addrs` looks for each address only if the peer has a record. For an unknown peer it makes one entry
for each element of the list, so a list with a repetition makes an entry twice. A later call changes only
the first of the two, and the other one keeps the old time to live.
-/

namespace Libp2pRs.Core

open Lib

/-! ## What the store is for -/

/-- When an address was last set, and for how long. -/
structure Setting where
  time : Instant
  ttl : Duration
  deriving DecidableEq, Repr

def Setting.isLive (now : Instant) (s : Setting) : Bool := now - s.time < s.ttl

structure Book where
  pinned : Bool
  entries : Multiaddr → Option Setting

namespace Book

def new : Book := ⟨false, fun _ => none⟩

def set (now : Instant) (addrs : List Multiaddr) (ttl : Duration) (b : Book) : Book :=
  { b with entries := fun a => if a ∈ addrs then some ⟨now, ttl⟩ else b.entries a }

def update (now : Instant) (ttl : Duration) (b : Book) : Book :=
  { b with entries := fun a => (b.entries a).map fun _ => ⟨now, ttl⟩ }

def clear (b : Book) : Book := { b with entries := fun _ => none }

def live (now : Instant) (b : Book) : Multiaddr → Option Setting :=
  fun a => (b.entries a).filter (Setting.isLive now)

open Classical in
/-- A book that is not pinned loses what is not live, and goes with its last address. -/
noncomputable def collect (now : Instant) (b : Book) : Option Book :=
  if b.pinned then some b
  else if ∃ a s, b.live now a = some s then some { b with entries := b.live now }
  else none

theorem collect_iff {b : Book} (h : b.pinned = false) (now : Instant) (a : Multiaddr) :
    (∃ b' s, b.collect now = some b' ∧ b'.entries a = some s) ↔
      ∃ s, b.entries a = some s ∧ now - s.time < s.ttl := by
  have hlive : ∀ s, b.live now a = some s ↔ b.entries a = some s ∧ now - s.time < s.ttl := by
    simp [live, Setting.isLive, Option.filter_eq_some_iff]
  unfold collect
  simp only [h, Bool.false_eq_true, if_false, ← hlive]
  split
  case isTrue => simp
  case isFalse hnone => grind

end Book

abbrev AddressBook := PeerId → Option Book

/-! ## Calls -/

namespace PeerStore

def addAddr (s : PeerStore) (now : Instant) (p : PeerId) (addr : Multiaddr) (ttl : Duration) :
    PeerStore := s.addAddrs now p [addr] ttl

inductive Call where
  | op (op : Op)
  | addAddr (p : PeerId) (addr : Multiaddr) (ttl : Duration)
  | pin (p : PeerId)
  | unpin (p : PeerId)

def Call.apply (s : PeerStore) (now : Instant) : Call → PeerStore
  | .op o => o.apply s now
  | .addAddr p addr ttl => s.addAddr now p addr ttl
  | .pin p => s.pin p
  | .unpin p => s.unpin p

end PeerStore

open PeerStore

namespace AddressBook

variable (m : AddressBook)

def modify (p : PeerId) (f : Book → Book) : AddressBook := Function.update m p ((m p).map f)

def ensure (p : PeerId) (f : Book → Book) : AddressBook :=
  Function.update m p (some (f ((m p).getD .new)))

noncomputable def apply (now : Instant) : Call → AddressBook
  | .addAddr p addr ttl => m.ensure p (Book.set now [addr] ttl)
  | .op (.addAddrs p addrs ttl) => m.ensure p (Book.set now addrs ttl)
  | .op (.clearAddrs p) => m.modify p Book.clear
  | .op (.updateAddr p ttl) => m.modify p (Book.update now ttl)
  | .op .removeExpiredAddrs => fun p => (m p).bind (Book.collect now)
  | .op (.addProtocols p _) => m.ensure p id
  | .op (.addKey _ _) | .op (.clearProtocols _) => m
  | .pin p => m.modify p ({ · with pinned := true })
  | .unpin p => m.modify p ({ · with pinned := false })

end AddressBook

/-- The store, the book that it is to be, and the clock. -/
structure Ledger where
  store : PeerStore
  book : AddressBook
  clock : Instant

namespace Ledger

def start (clock : Instant) : Ledger := ⟨.empty, fun _ => none, clock⟩

noncomputable def step (w : Ledger) (e : Duration × Call) : Ledger where
  store := e.2.apply w.store (w.clock + e.1)
  book := w.book.apply (w.clock + e.1) e.2
  clock := w.clock + e.1

def Listed (s : PeerStore) (p : PeerId) (a : Multiaddr) : Prop := ∃ addrs, s.getAddrs p = some addrs ∧ a ∈ addrs

/-- What is seen of the store is what the book says. -/
structure Faithful (w : Ledger) : Prop where
  known : ∀ p, (w.store.getAddrs p).isSome = (w.book p).isSome
  once : ∀ p addrs, w.store.getAddrs p = some addrs → addrs.Nodup
  listed : ∀ p a, Listed w.store p a ↔ ∃ b s, w.book p = some b ∧ b.entries a = some s
  survives : ∀ p, w.store.pinned p = false → ∀ (elapsed : Duration) a,
    Listed (w.store.removeExpiredAddrs (w.clock + elapsed)) p a ↔
      ∃ b s, w.book p = some b ∧ b.entries a = some s ∧ w.clock + elapsed - s.time < s.ttl

/-- A list of addresses for an unknown peer has no repetition. -/
def Distinct (w : Ledger) : Duration × Call → Prop
  | (_, .op (.addAddrs p addrs _)) => w.store.get p = none → addrs.Nodup
  | _ => True

/-! ## The store represents the book -/

def setting (r : AddrBookRecord) : Setting := ⟨r.expiry, r.ttl⟩

structure Represents (pr : PeerRecord) (b : Book) : Prop where
  pinned : pr.pinned = b.pinned
  entries : Tabulates AddrBookRecord.addr setting pr.addrs b.entries

/-- Every record of the store represents the book of its peer. -/
def Refines (s : PeerStore) (m : AddressBook) : Prop := ∀ p, Option.Rel Represents (s.get p) (m p)

variable {pr : PeerRecord} {b : Book} {s : PeerStore} {m : AddressBook} {w : Ledger}

namespace Represents

theorem new (protos : List String) : Represents (.new [] none protos) .new := ⟨rfl, .nil⟩

theorem of_new (now : Instant) {addrs : List Multiaddr} (haddrs : addrs.Nodup) (ttl : Duration) :
    Represents (.new (addrs.map (AddrBookRecord.new now · ttl)) none []) (Book.new.set now addrs ttl) :=
  ⟨rfl, .of_keys (v := Setting.mk now ttl) haddrs (fun _ => rfl) fun _ => rfl⟩

theorem addAddr (h : Represents pr b) (now : Instant) (ttl : Duration) (a : Multiaddr) :
    Represents (pr.addAddr now ttl a) (b.set now [a] ttl) := by
  have hupdate : (b.set now [a] ttl).entries = Function.update b.entries a (some ⟨now, ttl⟩) := by
    funext c
    simp [Book.set, Function.update_apply]
  refine ⟨(PeerRecord.addAddr_pinned now ttl pr a).trans h.pinned, ?_⟩
  rw [hupdate]
  unfold PeerRecord.addAddr
  split
  case h_1 i hfind =>
    exact h.entries.modify_row (f := .setTtl now ttl) hfind (fun _ => rfl) fun _ => rfl
  case h_2 hfind =>
    have hnew : a ∉ pr.addrs.map AddrBookRecord.addr := by
      simpa [List.findIdx?_eq_none_iff] using hfind
    exact h.entries.append_row hnew

theorem addAddrs (h : Represents pr b) (now : Instant) (ttl : Duration) (addrs : List Multiaddr) :
    Represents (addrs.foldl (PeerRecord.addAddr now ttl) pr) (b.set now addrs ttl) := by
  induction addrs generalizing pr b with
  | nil => exact ⟨h.pinned, h.entries⟩
  | cons a addrs ih =>
    have hboth : (b.set now [a] ttl).set now addrs ttl = b.set now (a :: addrs) ttl := by
      unfold Book.set
      grind
    rw [← hboth]
    exact ih (h.addAddr now ttl a)

theorem collect (h : Represents pr b) (now : Instant) :
    Option.Rel Represents (pr.collect now) (b.collect now) := by
  have hlive : Tabulates AddrBookRecord.addr setting (pr.addrs.filter (AddrBookRecord.isLive now))
      (b.live now) := h.entries.filter_rows fun _ => rfl
  have hempty : (pr.addrs.filter (AddrBookRecord.isLive now)).isEmpty = true ↔
      ¬∃ a s, b.live now a = some s := by
    rw [List.isEmpty_iff, ← List.map_eq_nil_iff (f := AddrBookRecord.addr),
      List.eq_nil_iff_forall_not_mem, not_exists]
    simp only [hlive.mem_keys_iff]
  unfold PeerRecord.collect Book.collect
  rw [h.pinned]
  by_cases hpinned : b.pinned = true
  · rw [if_pos hpinned, if_pos hpinned]
    exact .some h
  · rw [if_neg hpinned, if_neg hpinned]
    by_cases hany : ∃ a s, b.live now a = some s
    · rw [if_pos hany, if_neg fun hnil => hempty.mp hnil hany]
      exact .some ⟨rfl, hlive⟩
    · rw [if_neg hany, if_pos (hempty.mpr hany)]
      exact .none

end Represents

namespace Refines

variable {f : PeerRecord → PeerRecord}

theorem modify (h : Refines s m) (p : PeerId) {g : Book → Book}
    (hfg : ∀ pr b, Represents pr b → Represents (f pr) (g b)) :
    Refines (s.modify p f) (m.modify p g) := by
  intro q
  have hq := h q
  rw [get_modify, AddressBook.modify, Function.update_apply]
  by_cases hpq : q = p
  · subst hpq
    rw [if_pos rfl, if_pos rfl]
    generalize s.get q = x at hq ⊢
    generalize m q = y at hq ⊢
    cases hq with
    | none => exact .none
    | some hrep => exact .some (hfg _ _ hrep)
  · rw [if_neg (Ne.symm hpq), if_neg hpq]
    exact hq

theorem unseen (h : Refines s m) (p : PeerId) (hf : ∀ pr b, Represents pr b → Represents (f pr) b) :
    Refines (s.modify p f) m := by
  have hsame : m.modify p id = m := by
    rw [AddressBook.modify, Option.map_id_fun, id, Function.update_eq_self]
  have hmodify := h.modify p (g := id) hf
  rwa [hsame] at hmodify

theorem ensure (h : Refines s m) (p : PeerId) {s' : PeerStore} {pr : PeerRecord} {g : Book → Book}
    (hget : ∀ q, s'.get q = if p = q then some ((s.get p).elim pr f) else s.get q)
    (hnew : s.get p = none → Represents pr (g .new))
    (hfg : ∀ pr b, Represents pr b → Represents (f pr) (g b)) : Refines s' (m.ensure p g) := by
  intro q
  rw [hget, AddressBook.ensure, Function.update_apply]
  by_cases hpq : q = p
  · subst hpq
    rw [if_pos rfl, if_pos rfl]
    have hq := h q
    generalize hs : s.get q = x at hq ⊢
    generalize m q = y at hq ⊢
    cases hq with
    | none => exact .some (hnew hs)
    | some hrep => exact .some (hfg _ _ hrep)
  · rw [if_neg (Ne.symm hpq), if_neg hpq]
    exact h q

theorem apply (h : Refines w.store w.book) (e : Duration × Call) (hdistinct : w.Distinct e) :
    Refines (w.step e).store (w.step e).book := by
  obtain ⟨elapsed, call⟩ := e
  unfold step
  cases call with
  | addAddr p a ttl =>
    refine h.ensure p (f := (PeerRecord.addAddr _ ttl · a)) (get_addAddrs w.store p · _ [a] ttl)
      (fun _ => ?_) fun pr b hrep => ?_
    · exact .of_new _ (List.nodup_singleton a) ttl
    · exact hrep.addAddr _ ttl a
  | pin p =>
    exact h.modify p (f := ({ · with pinned := true })) fun pr b hrep => ⟨rfl, hrep.entries⟩
  | unpin p =>
    exact h.modify p (f := ({ · with pinned := false })) fun pr b hrep => ⟨rfl, hrep.entries⟩
  | op op =>
    cases op with
    | addKey p key =>
      exact h.unseen p (f := ({ · with key := some key })) fun pr b hrep =>
        ⟨hrep.pinned, hrep.entries⟩
    | clearProtocols p =>
      exact h.unseen p (f := ({ · with protos := [] })) fun pr b hrep =>
        ⟨hrep.pinned, hrep.entries⟩
    | clearAddrs p =>
      exact h.modify p (f := ({ · with addrs := [] })) (g := Book.clear) fun pr b hrep =>
        ⟨hrep.pinned, .nil⟩
    | updateAddr p ttl =>
      refine h.modify p (g := Book.update _ ttl) (f := fun pr => { pr with
        addrs := pr.addrs.map (AddrBookRecord.setTtl _ ttl) }) fun pr b hrep => ⟨hrep.pinned, ?_⟩
      exact hrep.entries.map_rows (f := .setTtl _ ttl) (fun _ => rfl) fun _ => rfl
    | addAddrs p addrs ttl =>
      refine h.ensure p (get_addAddrs w.store p · _ addrs ttl) (fun hnone => ?_) fun pr b hrep => ?_
      · exact .of_new _ (hdistinct hnone) ttl
      · exact hrep.addAddrs _ ttl addrs
    | addProtocols p protos =>
      refine h.ensure p (get_addProtocols w.store p · protos) (fun _ => .new _) fun pr b hrep => ?_
      exact ⟨hrep.pinned, hrep.entries⟩
    | removeExpiredAddrs =>
      intro q
      have hq := h q
      change Option.Rel _ ((w.store.removeExpiredAddrs _).get q) ((w.book q).bind _)
      rw [get_removeExpiredAddrs]
      generalize w.store.get q = x at hq ⊢
      generalize w.book q = y at hq ⊢
      cases hq with
      | none => exact .none
      | some hrep => exact hrep.collect _

theorem listed_iff (h : Refines s m) (p : PeerId) (a : Multiaddr) :
    Listed s p a ↔ ∃ b t, m p = some b ∧ b.entries a = some t := by
  have hp := h p
  unfold Listed getAddrs
  generalize s.get p = x at hp ⊢
  generalize m p = y at hp ⊢
  cases hp with
  | none => simp
  | some hrep => simpa using hrep.entries.mem_keys_iff a

end Refines

theorem Refines.faithful (h : Refines w.store w.book) : Faithful w where
  known p := by
    have hp := h p
    unfold getAddrs
    generalize w.store.get p = x at hp ⊢
    generalize w.book p = y at hp ⊢
    cases hp <;> rfl
  once p addrs haddrs := by
    have hp := h p
    unfold getAddrs at haddrs
    generalize w.store.get p = x at hp haddrs
    generalize w.book p = y at hp
    cases hp with
    | none => cases haddrs
    | some hrep =>
      cases haddrs
      exact hrep.entries.nodup
  listed := h.listed_iff
  survives p hpinned elapsed a := by
    have hnext := h.apply (elapsed, .op .removeExpiredAddrs) trivial
    have hp := h p
    unfold pinned at hpinned
    refine (hnext.listed_iff p a).trans ?_
    change (∃ b s, (w.book p).bind (Book.collect _) = some b ∧ _) ↔ _
    generalize w.store.get p = x at hp hpinned
    generalize w.book p = y at hp ⊢
    cases hp with
    | none => simp
    | @some pr b hrep =>
      have hunpinned : b.pinned = false := hrep.pinned.symm.trans hpinned
      simpa using Book.collect_iff hunpinned _ a

/-- A list for an unknown peer in which an address stands twice. The second entry of the address does
not learn of its new time to live, and outlives it. -/
theorem repeated_addr_twice :
    let p := PeerId.ofByte 1
    let a : Multiaddr := ⟨[]⟩
    (run step (start 0) [(0, .op (.addAddrs p [a, a] 10))]).store.getAddrs p = some [a, a] ∧
      (run step (start 0) [(0, .op (.addAddrs p [a, a] 10)), (0, .addAddr p a 1),
        (5, .op .removeExpiredAddrs)]).store.getAddrs p = some [a] := by
  intro p a
  have hnew : (PeerStore.empty.addAddrs 0 p [a, a] 10).get p =
      some (.new [.new 0 a 10, .new 0 a 10] none []) := by
    rfl
  constructor
  · change ((PeerStore.empty.addAddrs 0 p [a, a] 10).get p).map _ = _
    rfl
  · change ((((PeerStore.empty.addAddrs 0 p [a, a] 10).addAddrs 0 p [a] 1).removeExpiredAddrs 5).get
      p).map _ = _
    rw [get_removeExpiredAddrs, get_addAddrs, if_pos rfl, hnew]
    rfl

/-- The store is faithful to the book throughout a run exactly if no list with a repetition is added for
an unknown peer. -/
theorem faithful_iff (clock : Instant) (calls : List (Duration × Call)) :
    Always step Faithful (start clock) calls ↔ EachStep step Distinct (start clock) calls := by
  apply always_iff_eachStep_inv (I := fun w => Refines w.store w.book)
  · exact fun w e h hdistinct => h.apply e hdistinct
  · exact fun w h => h.faithful
  · intro w e h hfaithful
    obtain ⟨elapsed, call⟩ := e
    match call with
    | .op (.addAddrs p addrs ttl) =>
      intro hnone
      apply hfaithful.once p addrs
      change ((w.store.addAddrs _ p addrs ttl).get p).map _ = _
      rw [get_addAddrs, if_pos rfl, hnone]
      exact congrArg some ((List.map_map ..).trans (List.map_id addrs))
    | .addAddr .. | .pin _ | .unpin _ | .op (.addKey ..) | .op (.clearAddrs _)
    | .op (.updateAddr ..) | .op .removeExpiredAddrs | .op (.addProtocols ..)
    | .op (.clearProtocols _) => trivial
  · intro p
    exact .none

end Ledger

end Libp2pRs.Core
