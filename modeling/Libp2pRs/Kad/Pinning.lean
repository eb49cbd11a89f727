import Libp2pRs.Kad.Permanence

/-!
# The routing table and the pins of the peer store

Kademlia and the rest of the swarm share the peer store. Kademlia pins the peers that enter the
routing table and unpins those that leave it, one call at a time, and the calls of other tasks
come in between. `System` is Kademlia with the calls that its current turn still has to make, and
the peer store.

A pin of a peer without a record does nothing. When no pin is lost in this way, the pins agree
with the routing table: `pinnedAfter` looks at the pins as the pending calls will leave them.
-/

namespace Libp2pRs.Kad

open Lib Libp2pRs.Core KBucketsTable Kademlia

/-! ## The effect of the pending calls on the pins -/

def StoreCall.Names (p : PeerId) (c : StoreCall) : Prop := c = .pin p ∨ c = .unpin p

/-- Whether a peer is pinned after a call that finds its record. -/
def StoreCall.pinnedNext (b : PeerId → Bool) (c : StoreCall) : PeerId → Bool :=
  match c with
  | .pin p => Function.update b p true
  | .unpin p => Function.update b p false
  | _ => b

/-- Whether a peer is pinned after the calls, when each of them finds its record. -/
def pinnedAfter (calls : List StoreCall) (b : PeerId → Bool) : PeerId → Bool :=
  calls.foldl StoreCall.pinnedNext b

theorem pinnedAfter_append (as bs : List StoreCall) (b : PeerId → Bool) :
    pinnedAfter (as ++ bs) b = pinnedAfter bs (pinnedAfter as b) := List.foldl_append

theorem pinnedAfter_pinCalls (calls : List StoreCall) (b : PeerId → Bool) :
    pinnedAfter (pinCalls calls) b = pinnedAfter calls b := by
  induction calls generalizing b with
  | nil => rfl
  | cons c calls ih => cases c <;> exact ih _

theorem pinnedAfter_of_not_named {p : PeerId} {calls : List StoreCall}
    (h : ∀ c ∈ calls, ¬ c.Names p) (b : PeerId → Bool) : pinnedAfter calls b p = b p := by
  refine invariant_run_of (I := fun b' : PeerId → Bool => b' p = b p) (E := fun c => ¬ c.Names p)
    ?_ rfl h
  intro b' c hc hb
  cases c with
  | pin q =>
    have hne : p ≠ q := fun hpq => hc (Or.inl (by rw [hpq]))
    exact (Function.update_of_ne hne _ _).trans hb
  | unpin q =>
    have hne : p ≠ q := fun hpq => hc (Or.inr (by rw [hpq]))
    exact (Function.update_of_ne hne _ _).trans hb
  | addAddrs q addrs ttl | clearAddrs q => exact hb

/-- The call is not a pin of a peer without a record. -/
def StoreCall.FindsRecord (s : PeerStore) (c : StoreCall) : Prop :=
  ∀ p, c = .pin p → (s.get p).isSome

theorem StoreCall.pinned_apply {s : PeerStore} {c : StoreCall} (h : c.FindsRecord s)
    (now : Instant) : (c.apply s now).pinned = c.pinnedNext s.pinned := by
  funext q
  cases c with
  | pin p =>
    rw [apply, PeerStore.pinned_pin, pinnedNext, Function.update_apply]
    by_cases hpq : p = q
    · subst hpq
      rw [if_pos rfl, if_pos rfl, h p rfl]
    · rw [if_neg hpq, if_neg (Ne.symm hpq)]
  | unpin p =>
    rw [apply, PeerStore.pinned_unpin, pinnedNext, Function.update_apply]
    simp only [eq_comm]
  | addAddrs p addrs ttl => exact PeerStore.pinned_addAddrs s p q now addrs ttl
  | clearAddrs p => exact PeerStore.pinned_modify s p q _ (fun _ => rfl)

/-! ## The routing table events -/

def Agree (b : PeerId → Bool) (t : RoutingTable) : Prop := ∀ p, b p = true ↔ InTable t p

/-- No other stored peer has the digest of `q`. -/
def Distinguished (sha256 : List UInt8 → KeyBytes) (t : RoutingTable) (q : PeerId) : Prop :=
  ∀ m ∈ members t, m.1.bytes = (Key.ofPeerId sha256 q).bytes → m.1.preimage = q

section Outcome

variable {sha256 : List UInt8 → KeyBytes} {t t' : RoutingTable} {b : PeerId → Bool}

theorem agree_insert (keep : Member → Prop) {peer : PeerId} {permanent : Bool}
    (hb : ∀ p, b p = true ↔ ∃ m ∈ members t, keep m ∧ m.1.preimage = p)
    (h : ∀ m, m ∈ members t' ↔
      (m ∈ members t ∧ keep m) ∨ m = (Key.ofPeerId sha256 peer, permanent)) :
    Agree (Function.update b peer true) t' := by
  intro p
  rw [Function.update_apply]
  constructor
  · intro hp
    by_cases hpeer : p = peer
    · exact ⟨_, (h _).mpr (Or.inr rfl), hpeer.symm⟩
    · rw [if_neg hpeer] at hp
      obtain ⟨m, hm, hkeep, hpre⟩ := (hb p).mp hp
      exact ⟨m, (h m).mpr (Or.inl ⟨hm, hkeep⟩), hpre⟩
  · rintro ⟨m, hm, hpre⟩
    rcases (h m).mp hm with ⟨hm, hkeep⟩ | rfl
    · rw [(hb p).mpr ⟨m, hm, hkeep, hpre⟩, ite_self]
    · have hpeer : p = peer := hpre.symm
      rw [if_pos hpeer]

theorem agree_remove (hb : Agree b t) {q : PeerId} (bytes : KeyBytes)
    (hq : ∀ m ∈ members t, m.1.bytes = bytes ↔ m.1.preimage = q) (p : PeerId) :
    Function.update b q false p = true ↔
      ∃ m ∈ members t, m.1.bytes ≠ bytes ∧ m.1.preimage = p := by
  rw [Function.update_apply]
  constructor
  · intro hp
    by_cases hpq : p = q
    · rw [if_pos hpq] at hp
      cases hp
    · rw [if_neg hpq] at hp
      obtain ⟨m, hm, rfl⟩ := (hb p).mp hp
      exact ⟨m, hm, fun hbytes => hpq ((hq m hm).mp hbytes), rfl⟩
  · rintro ⟨m, hm, hbytes, rfl⟩
    rw [if_neg (fun hpre => hbytes ((hq m hm).mpr hpre))]
    exact (hb _).mpr ⟨m, hm, rfl⟩

theorem agree_of_outcome {e : RoutingEvent} {calls : List StoreCall}
    (h : Outcome sha256 t t' e calls) (hwf : t.WF)
    (hkeys : ∀ m ∈ members t, m.1 = Key.ofPeerId sha256 m.1.preimage)
    (he : ∀ q, e = .remove q true → Distinguished sha256 t q) (hb : Agree b t) :
    Agree (pinnedAfter calls b) t' := by
  cases h with
  | same h =>
    intro p
    rw [show pinnedAfter [] b = b from rfl, hb p]
    simp only [InTable, h]
  | @added now peer queried permanent hnew h =>
    have hall : ∀ p, b p = true ↔ ∃ m ∈ members t, True ∧ m.1.preimage = p := by
      intro p
      rw [hb p]
      simp only [InTable, true_and]
    exact agree_insert (fun _ => True) hall (by simpa using h)
  | @replaced now peer queried permanent c hc hperm hnew h =>
    refine agree_insert _ (agree_remove hb c.1.bytes (fun m hm => ?_)) h
    constructor
    · intro hbytes
      rw [hwf.member_unique hm hc hbytes]
    · intro hpre
      rw [hkeys m hm, hkeys c hc, hpre]
  | @removed peer h =>
    intro p
    have hremove := agree_remove hb (q := peer) (Key.ofPeerId sha256 peer).bytes
      (fun m hm => ⟨he peer rfl m hm, fun hpre => by rw [hkeys m hm, hpre]⟩) p
    refine hremove.trans ?_
    simp only [InTable, h, and_assoc]

end Outcome

/-! ## Kademlia, its pending calls and the peer store -/

structure System (S : Type) where
  kad : Kademlia S
  peerStore : PeerStore
  /-- The calls that the current turn still has to make. -/
  calls : List StoreCall

inductive SysEvent where
  /-- Kademlia handles its next input. -/
  | turn (now : Instant) (input : Input)
  /-- Kademlia makes its next call. -/
  | call (now : Instant)
  /-- Another task calls the peer store. -/
  | other (now : Instant) (op : PeerStore.Op)

namespace System

variable {S : Type} [RecordStore S] (sha256 : List UInt8 → KeyBytes)

def init (id : PeerId) (store : S) (config : KademliaConfig) (ps : PeerStore) : System S :=
  ⟨withConfig sha256 id store config, ps, []⟩

def step (s : System S) : SysEvent → System S
  | .turn now input =>
    match s.calls with
    | [] =>
      let r := s.kad.handle sha256 s.peerStore now input
      { s with kad := r.1, calls := storeCalls r.2 }
    | _ :: _ => s
  | .call now =>
    match s.calls with
    | [] => s
    | c :: calls => { s with peerStore := c.apply s.peerStore now, calls := calls }
  | .other now op => { s with peerStore := op.apply s.peerStore now }

/-- The condition on a step: a pin finds a record, and a peer that is removed by name shares its
digest with no other peer of the table. -/
def Fair (s : System S) : SysEvent → Prop
  | .turn _ input => ∀ q, input = .command (.removeNode q) → Distinguished sha256 s.kad.kbuckets q
  | .call _ => ∀ c ∈ s.calls.head?, c.FindsRecord s.peerStore
  | .other _ _ => True

/-- The pins agree with the table once the pending calls are made. -/
structure Coherent (id : PeerId) (s : System S) : Prop where
  sound : Sound sha256 id s.kad.kbuckets
  agree : Agree (pinnedAfter s.calls s.peerStore.pinned) s.kad.kbuckets

variable {sha256} {id : PeerId} {s : System S}

theorem Coherent.turn (h : Coherent sha256 id s) (hcalls : s.calls = []) {now : Instant}
    {input : Input}
    (hfair : ∀ q, input = .command (.removeNode q) → Distinguished sha256 s.kad.kbuckets q) :
    Agree (pinnedAfter (storeCalls (s.kad.handle sha256 s.peerStore now input).2)
      s.peerStore.pinned) (s.kad.handle sha256 s.peerStore now input).1.kbuckets := by
  obtain ⟨hk, hpins⟩ := handle_routing sha256 s.peerStore now input h.sound.wf
  have hagree : Agree s.peerStore.pinned s.kad.kbuckets := by
    have := h.agree
    rwa [hcalls] at this
  rw [← pinnedAfter_pinCalls, hpins, hk]
  generalize hes : s.kad.routingEvents s.peerStore now input = es
  -- a turn that removes by name has no other routing table event, so the table is still the
  -- one that the condition speaks about
  by_cases hrem : ∃ q, input = .command (.removeNode q)
  · obtain ⟨q, rfl⟩ := hrem
    subst hes
    obtain ⟨t, calls, heq, -, -, hout⟩ :=
      routingStep_spec sha256 (.remove q true) h.sound.wf (k := s.kad)
    have hrun : routingRun sha256 s.kad [.remove q true] =
        ({ s.kad with kbuckets := t }, calls) := heq
    change Agree (pinnedAfter (routingRun sha256 s.kad [.remove q true]).2 _)
      (routingRun sha256 s.kad [.remove q true]).1.kbuckets
    rw [hrun]
    refine agree_of_outcome hout h.sound.wf h.sound.keys ?_ hagree
    intro r hr
    cases hr
    exact hfair q rfl
  · have hadd : ∀ e ∈ es, ∀ q, e ≠ .remove q true := by
      rintro e he q rfl
      exact hrem ⟨q, removeNode_of_mem (hes ▸ he)⟩
    refine (routingRun_invariant sha256 (I := fun k calls =>
      (∀ m ∈ members k.kbuckets, m.1 = Key.ofPeerId sha256 m.1.preimage) ∧
        Agree (pinnedAfter calls s.peerStore.pinned) k.kbuckets) es ?_ h.sound.wf
      ⟨h.sound.keys, hagree⟩).2.2
    rintro k calls t new e he ⟨hkeys, hb⟩ hout hwf -
    refine ⟨keys_of_outcome sha256 hout hkeys, ?_⟩
    rw [pinnedAfter_append]
    exact agree_of_outcome hout hwf hkeys (fun q hq => absurd hq (hadd e he q)) hb

theorem Coherent.step (h : Coherent sha256 id s) {e : SysEvent} (hfair : s.Fair sha256 e) :
    Coherent sha256 id (s.step sha256 e) := by
  cases e with
  | turn now input =>
    unfold System.step
    cases hcalls : s.calls with
    | nil => exact ⟨handle_sound sha256 s.peerStore now input h.sound, h.turn hcalls hfair⟩
    | cons c calls => exact h
  | call now =>
    unfold System.step
    cases hcalls : s.calls with
    | nil => exact h
    | cons c calls =>
      refine ⟨h.sound, ?_⟩
      have hagree := h.agree
      rw [hcalls] at hagree
      rw [StoreCall.pinned_apply (hfair c (by rw [hcalls]; rfl)) now]
      exact hagree
  | other now op =>
    refine ⟨h.sound, ?_⟩
    have hpins : (op.apply s.peerStore now).pinned = s.peerStore.pinned :=
      funext fun q => PeerStore.Op.pinned_apply s.peerStore q now op
    simp only [System.step, hpins]
    exact h.agree

omit [RecordStore S] in
theorem coherent_init (sha256 : List UInt8 → KeyBytes) (id : PeerId) (store : S)
    (config : KademliaConfig) {ps : PeerStore} (hps : ∀ p, ps.pinned p = false) :
    Coherent sha256 id (init sha256 id store config ps) := by
  have hsound := sound_withConfig sha256 id store config
  refine ⟨hsound, fun p => ?_⟩
  constructor
  · intro hp
    exact absurd ((hps p).symm.trans hp) Bool.false_ne_true
  · rintro ⟨m, hm, -⟩
    obtain ⟨i, n, hn, -⟩ := mem_members.mp hm
    cases hn

/-- For a peer that no pending call pins or unpins, the peer store agrees with the table: a peer
of the table is pinned and the garbage collection keeps its record; no other peer is pinned. -/
def PinsMatch (s : System S) : Prop :=
  ∀ p, (∀ c ∈ s.calls, ¬ c.Names p) →
    (InTable s.kad.kbuckets p → s.peerStore.pinned p = true ∧ (s.peerStore.get p).isSome ∧
      ∀ now, (s.peerStore.removeExpiredAddrs now).get p = s.peerStore.get p) ∧
    (¬ InTable s.kad.kbuckets p → s.peerStore.pinned p = false)

omit [RecordStore S] in
theorem Coherent.pinsMatch (h : Coherent sha256 id s) : s.PinsMatch := by
  intro p hp
  have hagree := h.agree p
  rw [pinnedAfter_of_not_named hp] at hagree
  refine ⟨fun hin => ?_, fun hin => ?_⟩
  · have hpin := hagree.mpr hin
    exact ⟨hpin, PeerStore.isSome_of_pinned hpin,
      fun now => PeerStore.get_removeExpiredAddrs_of_pinned hpin now⟩
  · exact Bool.eq_false_iff.mpr (fun hpin => hin (hagree.mp hpin))

/-- In every run, with any interleaving of the turns and calls of Kademlia and the calls of other
tasks, in which each pin finds a record, the pins match the routing table throughout. -/
theorem pins_match_table (sha256 : List UInt8 → KeyBytes) (id : PeerId) (store : S)
    (config : KademliaConfig) (ps : PeerStore) (hps : ∀ p, ps.pinned p = false)
    (events : List SysEvent)
    (hfair : EachStep (step sha256) (Fair sha256) (init sha256 id store config ps) events) :
    Always (step sha256) PinsMatch (init sha256 id store config ps) events := by
  have hcoherent := always_of_step (I := Coherent sha256 id) (fun _ _ h hG => h.step hG)
    (coherent_init sha256 id store config hps) hfair
  exact always_mono (fun _ h => h.pinsMatch) hcoherent

def sampleInit : System (MemoryStore sampleSha256) :=
  init sampleSha256 (PeerId.ofByte 0) .new {} .empty

/-- A peer whose record has expired answers a query. It enters the table, and its pin finds no
record. The record that is created for it later is collected while the peer is in the table. -/
theorem pin_without_record_lost :
    let p := PeerId.ofByte 4
    let late : Instant := tempAddrTtl
    let s := run (step sampleSha256) sampleInit
      [.other 0 (.addAddrs p [⟨[4]⟩] tempAddrTtl), .other late .removeExpiredAddrs,
        .turn late (.event (.kadPeerFound p true)), .call late,
        .other late (.addAddrs p [⟨[4]⟩] tempAddrTtl)]
    (s.calls = [] ∧ InTable s.kad.kbuckets p ∧ s.peerStore.pinned p = false) ∧
    (s.step sampleSha256 (.other (late + tempAddrTtl) .removeExpiredAddrs)).peerStore.get p
      = none := by
  decide +kernel

/-- A run that adds a node: its addresses are stored before it is pinned. -/
theorem pins_match_table_sample :
    let p := PeerId.ofByte 4
    let events : List SysEvent :=
      [.turn 0 (.command (.addNode p [⟨[4]⟩])), .call 0, .call 0, .other addressTtl .removeExpiredAddrs]
    InTable (run (step sampleSha256) sampleInit events).kad.kbuckets p ∧
      Always (step sampleSha256) PinsMatch sampleInit events := by
  intro p events
  refine ⟨by decide +kernel, ?_⟩
  refine pins_match_table sampleSha256 (PeerId.ofByte 0) MemoryStore.new {} .empty
    (fun _ => rfl) events ?_
  refine ⟨?_, ?_, ?_, trivial, trivial⟩
  · intro q hq
    cases hq
  · intro c hc q hq
    have hhead : (run (step sampleSha256) sampleInit (events.take 1)).calls.head? =
        some (.addAddrs p [⟨[4]⟩] addressTtl) := by decide +kernel
    cases (Option.some.inj (hhead.symm.trans hc)).trans hq
  · intro c hc q hq
    have hhead : (run (step sampleSha256) sampleInit (events.take 2)).calls.head? =
        some (.pin p) := by decide +kernel
    cases (Option.some.inj (hhead.symm.trans hc)).trans hq
    have hsome : ((run (step sampleSha256) sampleInit (events.take 2)).peerStore.get p).isSome := by
      decide +kernel
    exact hsome

end System

end Libp2pRs.Kad
