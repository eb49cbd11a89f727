import Libp2pRs.Kad.Key
import Libp2pRs.Lib.Lists

/-!
# A single k-bucket

`KBucket` keeps up to `K_VALUE` nodes in insertion order. As in the source, nothing here checks
that keys are unique: `insert` only looks at the length, and `remove` and `update` act on the
first node with the key. Uniqueness is the business of the `Entry` API of the table.
-/

namespace Libp2pRs.Kad

open Lib

def kValue : Nat := 20

/-- A node of a bucket: a peer's key with its associated value. -/
structure Node (K V : Type) where
  key : K
  value : V
  deriving DecidableEq, Repr

structure KBucket (K V : Type) where
  nodes : List (Node K V)
  deriving DecidableEq, Repr

namespace KBucket

variable {K V : Type}

def new : KBucket K V := ⟨[]⟩

def isFull (b : KBucket K V) : Bool := b.nodes.length = kValue

def numEntries (b : KBucket K V) : Nat := b.nodes.length

def insert (b : KBucket K V) (node : Node K V) : Bool × KBucket K V :=
  if b.isFull then (false, b) else (true, ⟨b.nodes ++ [node]⟩)

variable {b : KBucket K V}

theorem insert_of_full (h : b.nodes.length = kValue) (node : Node K V) :
    b.insert node = (false, b) := by
  simp [insert, isFull, h]

theorem insert_of_not_full (h : b.nodes.length ≠ kValue) (node : Node K V) :
    b.insert node = (true, ⟨b.nodes ++ [node]⟩) := by
  simp [insert, isFull, h]

variable [AsKeyBytes K]

def hasKey (key : K) (n : Node K V) : Bool := asRef n.key = asRef key

def position (b : KBucket K V) (key : K) : Option Nat := b.nodes.findIdx? (hasKey key)

def remove (b : KBucket K V) (key : K) : Option (Node K V × Nat) × KBucket K V :=
  match b.position key with
  | some pos => (b.nodes[pos]?.map (fun node => (node, pos)), ⟨b.nodes.eraseIdx pos⟩)
  | none => (none, b)

def update (b : KBucket K V) (key : K) (f : V → V) : KBucket K V :=
  match b.position key with
  | some pos => ⟨b.nodes.modify pos (fun n => { n with value := f n.value })⟩
  | none => b

def keys (b : KBucket K V) : List KeyBytes := b.nodes.map (fun n => asRef n.key)

theorem mem_keys : k ∈ b.keys ↔ ∃ n ∈ b.nodes, asRef n.key = k := List.mem_map

theorem position_isSome_iff : (b.position key).isSome ↔ asRef key ∈ b.keys := by
  simp [position, hasKey, mem_keys, List.findIdx?_isSome]

theorem atMostOne_hasKey (hnd : b.keys.Nodup) (key : K) :
    AtMostOne (hasKey key) b.nodes := atMostOne_of_nodup_map _ (asRef key) hnd

theorem remove_nodes (hnd : b.keys.Nodup) (key : K) :
    (b.remove key).2.nodes = b.nodes.filter (fun n => !hasKey key n) := by
  rw [← eraseP_eq_filter (atMostOne_hasKey hnd key), List.eraseP_eq_eraseIdx]
  unfold remove position
  cases b.nodes.findIdx? (hasKey key) <;> rfl

theorem update_nodes (hnd : b.keys.Nodup) (key : K) (f : V → V) :
    (b.update key f).nodes =
      b.nodes.map (fun n => if hasKey key n then { n with value := f n.value } else n) := by
  rw [← modify_findIdx_eq_map (fun n : Node K V => { n with value := f n.value })
    (atMostOne_hasKey hnd key)]
  unfold update position
  cases b.nodes.findIdx? (hasKey key) <;> rfl

theorem mem_remove (hnd : b.keys.Nodup) :
    n ∈ (b.remove key).2.nodes ↔ n ∈ b.nodes ∧ asRef n.key ≠ asRef key := by
  simp [remove_nodes hnd, hasKey]

theorem remove_keys (hnd : b.keys.Nodup) (key : K) :
    (b.remove key).2.keys = b.keys.filter (fun k => k ≠ asRef key) := by
  simp only [keys, remove_nodes hnd, List.filter_map, hasKey]
  congr 1
  apply List.filter_congr
  intro n _
  simp

theorem update_keys (hnd : b.keys.Nodup) (key : K) (f : V → V) :
    (b.update key f).keys = b.keys := by
  simp only [keys, update_nodes hnd, List.map_map]
  apply List.map_congr_left
  intro n _
  simp only [Function.comp_apply]
  split <;> rfl

theorem remove_length_lt (hnd : b.keys.Nodup) (h : asRef key ∈ b.keys) :
    (b.remove key).2.nodes.length < b.nodes.length := by
  obtain ⟨n, hn, hk⟩ := mem_keys.mp h
  rw [remove_nodes hnd]
  apply List.length_filter_lt_length_iff_exists.mpr
  exact ⟨n, hn, by simp [hasKey, hk]⟩

end KBucket

end Libp2pRs.Kad
