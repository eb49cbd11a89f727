import Libp2pRs.Kad.Bucket
import Libp2pRs.Lib.Runs

/-!
# The routing table and its `Entry` API

`KBucketsTable` is an array of 256 buckets. The bucket of a key is the position of the highest
set bit of its distance to the local key, and the local key has no bucket. A mutable borrow of
the table is state passing: an `EntryRef` names a bucket and a key, and the operations of
`PresentEntry` and `AbsentEntry` take the table and return the new one.

`WF` is what the `Entry` API maintains: every bucket holds only keys of its own distance range,
at most `K_VALUE` of them, and no key twice. The entries of the whole table then have distinct
keys (`WF.entryKeys_nodup`), and the local key is not among them (`WF.localKey_not_mem`).
-/

namespace Libp2pRs.Kad

open Lib List KBucket

abbrev numBuckets : Nat := 256

instance neZero_numBuckets : NeZero numBuckets := ⟨by decide⟩

/-- An index into a `KBucketsTable`, in the interval `[0, NUM_BUCKETS)`. -/
abbrev BucketIndex := Fin numBuckets

/-- The bucket index of a distance from the local key. Distance zero has none. -/
def BucketIndex.new (d : Distance) : Option BucketIndex :=
  d.ilog2.pmap (fun i h => ⟨i, h⟩) (fun _ h => Distance.ilog2_lt h)

variable {i : BucketIndex}

theorem BucketIndex.new_eq_some_iff : BucketIndex.new d = some i ↔ d.ilog2 = some i.val := by
  unfold BucketIndex.new
  rw [Option.pmap_eq_some_iff]
  constructor
  · rintro ⟨j, h, hj, rfl⟩
    exact hj
  · intro h
    exact ⟨i.val, i.isLt, h, rfl⟩

theorem BucketIndex.new_eq_none_iff : BucketIndex.new d = none ↔ d.val = 0 := by
  rw [BucketIndex.new, Option.pmap_eq_none_iff, Distance.ilog2_eq_none_iff]

structure KBucketsTable (K V : Type) where
  localKey : K
  buckets : BucketIndex → KBucket K V

structure EntryRef (K : Type) where
  bucket : BucketIndex
  key : K

inductive Entry (K : Type) where
  | present (e : EntryRef K)
  | absent (e : EntryRef K)
  | selfEntry

structure EntryView (K V : Type) where
  node : Node K V
  deriving DecidableEq, Repr

instance {K V : Type} [AsKeyBytes K] : AsKeyBytes (EntryView K V) := ⟨fun e => asRef e.node.key⟩

namespace KBucketsTable

variable {K V : Type}

def new (localKey : K) : KBucketsTable K V := ⟨localKey, fun _ => KBucket.new⟩

def setBucket (t : KBucketsTable K V) (i : BucketIndex) (b : KBucket K V) : KBucketsTable K V :=
  { t with buckets := Function.update t.buckets i b }

@[simp] theorem setBucket_self (t : KBucketsTable K V) (i : BucketIndex) (b : KBucket K V) :
    (t.setBucket i b).buckets i = b := by simp [setBucket]

theorem setBucket_of_ne (t : KBucketsTable K V) (b : KBucket K V) (h : j ≠ i) :
    (t.setBucket i b).buckets j = t.buckets j := by simp [setBucket, h]

def entries (t : KBucketsTable K V) : List (Node K V) :=
  (List.finRange numBuckets).flatMap (fun i => (t.buckets i).nodes)

theorem mem_entries {t : KBucketsTable K V} : n ∈ t.entries ↔ ∃ i, n ∈ (t.buckets i).nodes := by
  simp [entries]

def numEntries (t : KBucketsTable K V) : Nat :=
  ((List.finRange numBuckets).map (fun i => (t.buckets i).numEntries)).foldl (· + ·) 0

variable [AsKeyBytes K]

def bucketIndex (t : KBucketsTable K V) (key : K) : Option BucketIndex :=
  BucketIndex.new ((asRef t.localKey).distance key)

def entry (t : KBucketsTable K V) (key : K) : Entry K :=
  match t.bucketIndex key with
  | some i =>
    if ((t.buckets i).position key).isSome then .present ⟨i, key⟩ else .absent ⟨i, key⟩
  | none => .selfEntry

end KBucketsTable

namespace EntryRef

variable {K V : Type}

def insert (e : EntryRef K) (value : V) (t : KBucketsTable K V) : Bool × KBucketsTable K V :=
  let r := (t.buckets e.bucket).insert ⟨e.key, value⟩
  (r.1, t.setBucket e.bucket r.2)

variable [AsKeyBytes K]

def remove (e : EntryRef K) (t : KBucketsTable K V) :
    Option (EntryView K V) × KBucketsTable K V :=
  let r := (t.buckets e.bucket).remove e.key
  (r.1.map (fun p => ⟨p.1⟩), t.setBucket e.bucket r.2)

def update (e : EntryRef K) (f : V → V) (t : KBucketsTable K V) : KBucketsTable K V :=
  t.setBucket e.bucket ((t.buckets e.bucket).update e.key f)

end EntryRef

/-! ## The invariant of one bucket -/

section BucketOk

variable {K V : Type} [AsKeyBytes K]

/-- What the table guarantees of bucket `i` when the local key is `l`. -/
structure BucketOk (l : KeyBytes) (i : BucketIndex) (b : KBucket K V) : Prop where
  index : ∀ k ∈ b.keys, (l.distance k).ilog2 = some i.val
  capacity : b.nodes.length ≤ kValue
  unique : b.keys.Nodup

variable {l : KeyBytes} {i : BucketIndex} {b : KBucket K V}

theorem bucketOk_new : BucketOk l i (KBucket.new : KBucket K V) where
  index := nofun
  capacity := Nat.zero_le _
  unique := .nil

theorem BucketOk.insert (h : BucketOk l i b) (value : V)
    (hindex : (l.distance key).ilog2 = some i.val) (habs : asRef key ∉ b.keys) :
    BucketOk l i (b.insert ⟨key, value⟩).2 := by
  by_cases hfull : b.nodes.length = kValue
  · rwa [insert_of_full hfull]
  · rw [insert_of_not_full hfull]
    have hkeys : (⟨b.nodes ++ [⟨key, value⟩]⟩ : KBucket K V).keys = b.keys ++ [asRef key] := by
      simp [KBucket.keys]
    refine ⟨?_, ?_, ?_⟩
    · intro k hk
      rw [hkeys, mem_append, mem_singleton] at hk
      rcases hk with hk | rfl
      · exact h.index k hk
      · exact hindex
    · have hle := h.capacity
      simp only [length_append, length_singleton]
      omega
    · rw [hkeys]
      exact nodup_append.mpr ⟨h.unique, nodup_singleton _, by
        intro a ha k hk hEq
        rw [mem_singleton.mp hk] at hEq
        exact habs (hEq ▸ ha)⟩

theorem BucketOk.remove (h : BucketOk l i b) (key : K) : BucketOk l i (b.remove key).2 where
  index := by
    intro k hk
    rw [remove_keys h.unique] at hk
    exact h.index k (mem_of_mem_filter hk)
  capacity := by
    rw [remove_nodes h.unique]
    exact (length_filter_le _ _).trans h.capacity
  unique := by
    rw [remove_keys h.unique]
    exact h.unique.filter _

theorem BucketOk.update (h : BucketOk l i b) (key : K) (f : V → V) :
    BucketOk l i (b.update key f) where
  index := by
    rw [update_keys h.unique]
    exact h.index
  capacity := by
    rw [update_nodes h.unique, length_map]
    exact h.capacity
  unique := by
    rw [update_keys h.unique]
    exact h.unique

end BucketOk

/-! ## The invariant of the table -/

namespace KBucketsTable

variable {K V : Type} [AsKeyBytes K] {t : KBucketsTable K V}

def WF (t : KBucketsTable K V) : Prop := ∀ i, BucketOk (asRef t.localKey) i (t.buckets i)

theorem wf_new (localKey : K) : (new localKey : KBucketsTable K V).WF := fun _ => bucketOk_new

theorem WF.setBucket (h : t.WF) (hb : BucketOk (asRef t.localKey) i b) : (t.setBucket i b).WF := by
  intro j
  by_cases hj : j = i
  · subst hj
    rw [setBucket_self]
    exact hb
  · rw [setBucket_of_ne t b hj]
    exact h j

theorem entry_cases (t : KBucketsTable K V) (key : K) :
    (∃ i, t.entry key = .present ⟨i, key⟩ ∧ ((asRef t.localKey).distance key).ilog2 = some i.val ∧
      asRef key ∈ (t.buckets i).keys) ∨
    (∃ i, t.entry key = .absent ⟨i, key⟩ ∧ ((asRef t.localKey).distance key).ilog2 = some i.val ∧
      asRef key ∉ (t.buckets i).keys) ∨
    (t.entry key = .selfEntry ∧ asRef key = asRef t.localKey) := by
  unfold entry bucketIndex
  cases hi : BucketIndex.new ((asRef t.localKey).distance key) with
  | none =>
    have hzero := BucketIndex.new_eq_none_iff.mp hi
    exact .inr (.inr ⟨rfl, (KeyBytes.distance_eq_zero_iff.mp hzero).symm⟩)
  | some i =>
    have hindex := BucketIndex.new_eq_some_iff.mp hi
    dsimp only
    by_cases hpos : ((t.buckets i).position key).isSome
    · rw [if_pos hpos]
      exact .inl ⟨i, rfl, hindex, position_isSome_iff.mp hpos⟩
    · rw [if_neg hpos]
      exact .inr (.inl ⟨i, rfl, hindex, fun h => hpos (position_isSome_iff.mpr h)⟩)

/-- An entry names the bucket of its key, and the key is not stored there. -/
def Vacant (t : KBucketsTable K V) (e : EntryRef K) : Prop :=
  ((asRef t.localKey).distance e.key).ilog2 = some e.bucket.val ∧
    asRef e.key ∉ (t.buckets e.bucket).keys

theorem vacant_of_absent (he : t.entry key = .absent e) : t.Vacant e ∧ e.key = key := by
  rcases t.entry_cases key with ⟨i, hi, -⟩ | ⟨i, hi, hindex, habs⟩ | ⟨hs, -⟩
  · rw [hi] at he
    cases he
  · rw [hi] at he
    cases he
    exact ⟨⟨hindex, habs⟩, rfl⟩
  · rw [hs] at he
    cases he

theorem WF.insert (h : t.WF) (he : t.Vacant e) (value : V) : (e.insert value t).2.WF :=
  h.setBucket ((h e.bucket).insert value he.1 he.2)

theorem WF.remove (h : t.WF) (e : EntryRef K) : (e.remove t).2.WF :=
  h.setBucket ((h e.bucket).remove e.key)

theorem WF.update (h : t.WF) (e : EntryRef K) (f : V → V) : (e.update f t).WF :=
  h.setBucket ((h e.bucket).update e.key f)

theorem WF.bucket_unique (h : t.WF) (hi : k ∈ (t.buckets i).keys)
    (hj : k ∈ (t.buckets j).keys) : i = j := by
  have := ((h i).index k hi).symm.trans ((h j).index k hj)
  exact Fin.ext (Option.some.inj this)

def entryKeys (t : KBucketsTable K V) : List KeyBytes := t.entries.map (fun n => asRef n.key)

theorem WF.entryKeys_nodup (h : t.WF) : t.entryKeys.Nodup := by
  have hmap : t.entryKeys = (finRange numBuckets).flatMap (fun i => (t.buckets i).keys) := by
    simp [entryKeys, entries, KBucket.keys, map_flatMap]
  rw [hmap, nodup_flatMap]
  refine ⟨fun i _ => (h i).unique, ?_⟩
  refine (nodup_finRange numBuckets).imp ?_
  intro i j hne k hi hj
  exact hne (h.bucket_unique hi hj)

theorem WF.localKey_not_mem (h : t.WF) (i : BucketIndex) :
    asRef t.localKey ∉ (t.buckets i).keys := by
  intro hmem
  have hindex := (h i).index _ hmem
  rw [Distance.ilog2_eq_none_iff.mpr (KeyBytes.distance_self _)] at hindex
  cases hindex

end KBucketsTable

/-! ## Tables reached through the `Entry` API -/

/-- One use of the `Entry` API: `entry(key)`, then an operation on the entry found. -/
inductive TableOp (K V : Type) where
  | insert (key : K) (value : V)
  | remove (key : K)
  | update (key : K) (f : V → V)

namespace TableOp

variable {K V : Type} [AsKeyBytes K]

def apply (t : KBucketsTable K V) : TableOp K V → KBucketsTable K V
  | insert key value =>
    match t.entry key with
    | .absent e => (e.insert value t).2
    | _ => t
  | remove key =>
    match t.entry key with
    | .present e => (e.remove t).2
    | _ => t
  | update key f =>
    match t.entry key with
    | .present e => e.update f t
    | _ => t

@[simp] theorem apply_localKey (t : KBucketsTable K V) (op : TableOp K V) :
    (op.apply t).localKey = t.localKey := by
  cases op <;> simp only [apply] <;> split <;> rfl

theorem apply_wf (op : TableOp K V) (h : t.WF) : (op.apply t).WF := by
  cases op with
  | insert key value =>
    simp only [apply]
    split
    · rename_i e he
      exact h.insert (KBucketsTable.vacant_of_absent he).1 value
    · exact h
  | remove key =>
    simp only [apply]
    split
    · exact h.remove _
    · exact h
  | update key f =>
    simp only [apply]
    split
    · exact h.update _ f
    · exact h

/-- The table that a sequence of uses of the `Entry` API builds from an empty one. -/
def build (localKey : K) (ops : List (TableOp K V)) : KBucketsTable K V :=
  run apply (KBucketsTable.new localKey) ops

theorem build_wf (localKey : K) (ops : List (TableOp K V)) : (build localKey ops).WF :=
  invariant_run (fun _ op h => op.apply_wf h) (KBucketsTable.wf_new localKey) ops

theorem build_localKey (localKey : K) (ops : List (TableOp K V)) :
    (build localKey ops).localKey = localKey := by
  refine invariant_run (I := fun t : KBucketsTable K V => t.localKey = localKey) ?_ rfl ops
  intro t op h
  exact (apply_localKey t op).trans h

end TableOp

end Libp2pRs.Kad
