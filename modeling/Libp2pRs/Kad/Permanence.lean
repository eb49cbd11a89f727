import Libp2pRs.Kad.Behaviour
import Libp2pRs.Kad.MemoryStore

/-!
# Nodes added by the user

A node that the user adds is entered as a permanent node, and a permanent node leaves the table
only when it is removed by name. The flag is written when an entry is created and never later:
a peer that was already in the table as an ordinary entry stays an ordinary entry, and gives way
to a new peer like any other.
-/

namespace Libp2pRs.Kad

open Lib Libp2pRs.Core KBucketsTable

namespace Kademlia

variable {S : Type} [RecordStore S] (sha256 : List UInt8 → KeyBytes)

/-- The peer is not in the routing table as an ordinary entry. -/
def NotOrdinary (t : RoutingTable) (p : PeerId) : Prop :=
  ∀ m ∈ members t, m.1.preimage = p → m.2 = true

instance (t : RoutingTable) (p : PeerId) : Decidable (NotOrdinary t p) :=
  inferInstanceAs (Decidable (∀ m ∈ members t, m.1.preimage = p → m.2 = true))

/-- The user adds the peer: `AddNode`, or `Bootstrap` with the peer on its list. -/
def Adds (p : PeerId) : Input → Prop
  | .command (.addNode q _) => q = p
  | .command (.bootstrap boot _) => p ∈ boot.map Prod.fst
  | _ => False

/-! ## One routing table event -/

section Outcome

variable {sha256} {t t' : RoutingTable} {e : RoutingEvent} {calls : List StoreCall} {p : PeerId}

theorem notOrdinary_of_outcome (h : Outcome sha256 t t' e calls)
    (he : ∃ now q queried, e = .add now q queried true) (hp : NotOrdinary t p) :
    NotOrdinary t' p := by
  obtain ⟨now, q, queried, rfl⟩ := he
  intro m hm hpre
  cases h with
  | same h => exact hp m ((h m).mp hm) hpre
  | added hnew h =>
    rcases (h m).mp hm with hm | rfl
    · exact hp m hm hpre
    · rfl
  | replaced c hc hperm hnew h =>
    rcases (h m).mp hm with ⟨hm, -⟩ | rfl
    · exact hp m hm hpre
    · rfl

theorem permanent_of_outcome (h : Outcome sha256 t t' e calls) (hwf : t.WF)
    (hm : m ∈ members t) (hperm : m.2 = true)
    (he : ∀ q, e = .remove q true → m.1.bytes ≠ (Key.ofPeerId sha256 q).bytes) :
    m ∈ members t' := by
  cases h with
  | same h => exact (h m).mpr hm
  | added hnew h => exact (h m).mpr (Or.inl hm)
  | replaced c hc hcperm hnew h =>
    refine (h m).mpr (Or.inl ⟨hm, fun hbytes => ?_⟩)
    -- the evicted entry would be this one, which is permanent
    rw [hwf.member_unique hm hc hbytes, hcperm] at hperm
    cases hperm
  | removed h => exact (h m).mpr ⟨hm, he _ rfl⟩

end Outcome

/-! ## One turn of the main loop -/

section Turn

variable {sha256} {id p : PeerId} {k : Kademlia S} {t : Turn}

theorem notOrdinary_turn (hs : Sound sha256 id k.kbuckets) (ht : Adds p t.input)
    (hp : NotOrdinary k.kbuckets p) : NotOrdinary (turn sha256 k t).kbuckets p := by
  have hadds : ∀ e ∈ k.routingEvents t.ps t.now t.input,
      ∃ now q queried, e = RoutingEvent.add now q queried true := by
    intro e he
    obtain ⟨now, ps, input⟩ := t
    match input, ht with
    | .command (.addNode q addrs), _ => exact ⟨_, _, _, List.mem_singleton.mp he⟩
    | .command (.bootstrap boot reply), _ =>
      obtain ⟨b, -, rfl⟩ := List.mem_map.mp he
      exact ⟨_, _, _, rfl⟩
  have hrun := routingRun_invariant sha256 (I := fun k _ => NotOrdinary k.kbuckets p) _
    (fun k calls t new e he h hout _ _ => notOrdinary_of_outcome hout (hadds e he) h) hs.wf hp
  rw [turn, (handle_routing sha256 t.ps t.now t.input hs.wf).1]
  exact hrun.2

omit [RecordStore S] in
theorem removeNode_of_mem
    (h : .remove q true ∈ k.routingEvents ps now i) : i = .command (.removeNode q) := by
  unfold routingEvents at h
  split at h
  · split at h <;> simp at h
  · simp at h
  · simp at h
  · simp at h
  · simp at h
  · simp only [List.mem_singleton, RoutingEvent.remove.injEq, and_true] at h
    rw [h]
  · simp at h

theorem permanent_turn (hs : Sound sha256 id k.kbuckets)
    (hm : m ∈ members k.kbuckets) (hperm : m.2 = true)
    (ht : ∀ q, t.input = .command (.removeNode q) → m.1.bytes ≠ (Key.ofPeerId sha256 q).bytes) :
    m ∈ members (turn sha256 k t).kbuckets := by
  have hrun := routingRun_invariant sha256 (I := fun k _ => m ∈ members k.kbuckets)
    (k.routingEvents t.ps t.now t.input)
    (fun k calls t' new e he h hout hwf _ => permanent_of_outcome hout hwf h hperm
      (fun q hq => ht q (removeNode_of_mem (hq ▸ he)))) hs.wf hm
  rw [turn, (handle_routing sha256 t.ps t.now t.input hs.wf).1]
  exact hrun.2

end Turn

/-! ## Runs -/

/-- A peer that the user adds while it is not an ordinary entry, and that is then in the table,
stays there through every sequence of turns in which the user does not remove it. SHA-256 is
taken to tell the peer from the peers that are removed. -/
theorem added_node_stays (id p : PeerId) (store : S) (config : KademliaConfig)
    (before : List Turn) (t : Turn) (after : List Turn)
    (hadds : Adds p t.input)
    (hordinary :
      NotOrdinary (run (turn sha256) (withConfig sha256 id store config) before).kbuckets p)
    (hin : InTable
      (run (turn sha256) (withConfig sha256 id store config) (before ++ [t])).kbuckets p)
    (hremove : ∀ u ∈ after, u.input ≠ .command (.removeNode p))
    (hsha : ∀ u ∈ after, ∀ q, u.input = .command (.removeNode q) →
      sha256 q.toBytes = sha256 p.toBytes → q = p) :
    Always (turn sha256) (fun k => InTable k.kbuckets p)
      (run (turn sha256) (withConfig sha256 id store config) (before ++ [t])) after := by
  have hs := run_sound sha256 id store config before
  have hs' := run_sound sha256 id store config (before ++ [t])
  obtain ⟨m, hm, hpre⟩ := hin
  have hperm : m.2 = true := by
    rw [run_append] at hm
    exact notOrdinary_turn hs hadds hordinary m hm hpre
  have hkey : m.1.bytes = sha256 p.toBytes := by
    rw [hs'.keys m hm, hpre]
    rfl
  rw [always_iff_run]
  intro pre hprefix
  have hrun : Sound sha256 id (run (turn sha256)
        (run (turn sha256) (withConfig sha256 id store config) (before ++ [t])) pre).kbuckets ∧
      m ∈ members (run (turn sha256)
        (run (turn sha256) (withConfig sha256 id store config) (before ++ [t])) pre).kbuckets := by
    refine invariant_run_of (E := (· ∈ after))
      (I := fun k : Kademlia S => Sound sha256 id k.kbuckets ∧ m ∈ members k.kbuckets)
      ?_ ⟨hs', hm⟩ (fun u hu => hprefix.subset hu)
    rintro k u hu ⟨hk, hmk⟩
    refine ⟨handle_sound sha256 u.ps u.now u.input hk, permanent_turn hk hmk hperm ?_⟩
    intro q hq hbytes
    have hqp := hsha u hu q hq (hbytes.symm.trans hkey)
    exact hremove u hu (hqp ▸ hq)
  exact ⟨m, hrun.2, hpre⟩

/-- The bytes of sample peers that share a bucket with `4`, seen from `0`. -/
def sampleNeighbours : List UInt8 :=
  [5, 6, 8, 13, 17, 19, 21, 27, 29, 33, 34, 37, 38, 39, 40, 41, 43, 44, 45, 46]

def foundTurn (n : UInt8) : Turn :=
  ⟨0, .empty, .event (.kadPeerFound (PeerId.ofByte n) false)⟩

def addTurn (n : UInt8) : Turn := ⟨0, .empty, .command (.addNode (PeerId.ofByte n) [])⟩

def sampleRun (ts : List Turn) : Kademlia (MemoryStore sampleSha256) :=
  run (turn sampleSha256) (withConfig sampleSha256 (PeerId.ofByte 0) .new {}) ts

/-- A peer that was found before the user added it is in the table, and the twentieth peer found
after that takes its place. -/
theorem found_then_added_evicted :
    InTable (sampleRun [foundTurn 4, addTurn 4]).kbuckets (PeerId.ofByte 4) ∧
    ¬ InTable (sampleRun (foundTurn 4 :: addTurn 4 :: sampleNeighbours.map foundTurn)).kbuckets
        (PeerId.ofByte 4) := by
  decide +kernel

theorem added_node_stays_sample :
    InTable (sampleRun [addTurn 4]).kbuckets (PeerId.ofByte 4) ∧
    Always (turn sampleSha256) (fun k => InTable k.kbuckets (PeerId.ofByte 4))
      (sampleRun [addTurn 4]) (sampleNeighbours.map foundTurn) := by
  have hin : InTable (sampleRun [addTurn 4]).kbuckets (PeerId.ofByte 4) := by decide +kernel
  have hfound : ∀ u ∈ sampleNeighbours.map foundTurn, ∀ q,
      u.input ≠ .command (.removeNode q) := by
    intro u hu q h
    obtain ⟨n, -, rfl⟩ := List.mem_map.mp hu
    cases h
  have hstays := added_node_stays sampleSha256 (PeerId.ofByte 0) (PeerId.ofByte 4)
    (.new : MemoryStore sampleSha256) {} [] (addTurn 4) (sampleNeighbours.map foundTurn) rfl
    (by decide +kernel) (by decide +kernel) (fun u hu => hfound u hu _)
    (fun u hu q hq => absurd hq (hfound u hu q))
  exact ⟨hin, hstays⟩

end Kademlia

end Libp2pRs.Kad
