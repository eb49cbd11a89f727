import Libp2pRs.Kad.Table

/-!
# Walking the table by distance to a target

`closest` never sorts the table as a whole. `ClosestBucketsIter` walks the buckets: it starts at
the bucket of the target, zooms in over the one bits of the distance `d` between the local key
and the target, passes bucket `0`, and zooms out over the zero bits. `ClosestIter` sorts each
bucket as it comes to it.
-/

namespace Libp2pRs.Kad

open Lib List

inductive ClosestBucketsIterState where
  | start (i : BucketIndex)
  | zoomIn (i : BucketIndex)
  | zoomOut (i : BucketIndex)
  | done

structure ClosestBucketsIter where
  distance : Distance
  state : ClosestBucketsIterState

variable {i j : BucketIndex}

namespace ClosestBucketsIter

def new (distance : Distance) : ClosestBucketsIter :=
  match BucketIndex.new distance with
  | some i => ⟨distance, .start i⟩
  | none => ⟨distance, .start 0⟩

/-- The next one bit below `i`: `(0..i).rev().find_map(..)`. -/
def nextIn (d : Distance) (i : BucketIndex) : Option BucketIndex :=
  ((List.finRange numBuckets).take i).reverse.find? (fun j => d.bit j)

/-- The next zero bit above `i`: `(i + 1..NUM_BUCKETS).find_map(..)`. -/
def nextOut (d : Distance) (i : BucketIndex) : Option BucketIndex :=
  ((List.finRange numBuckets).drop (i + 1)).find? (fun j => !d.bit j)

def next (it : ClosestBucketsIter) : Option BucketIndex × ClosestBucketsIter :=
  match it.state with
  | .start i => (some i, { it with state := .zoomIn i })
  | .zoomIn i =>
    match nextIn it.distance i with
    | some j => (some j, { it with state := .zoomIn j })
    | none => (some 0, { it with state := .zoomOut 0 })
  | .zoomOut i =>
    match nextOut it.distance i with
    | some j => (some j, { it with state := .zoomOut j })
    | none => (none, { it with state := .done })
  | .done => (none, it)

/-- A bound on the number of indices still to come. -/
def rank (it : ClosestBucketsIter) : Nat :=
  match it.state with
  | .start _ => 2 * numBuckets + 1
  | .zoomIn i => numBuckets + 1 + i
  | .zoomOut i => numBuckets - i
  | .done => 0

def onesBelow (d : Distance) (i : BucketIndex) : List BucketIndex :=
  ((List.finRange numBuckets).take i).reverse.filter (fun j => d.bit j)

def zerosAbove (d : Distance) (i : BucketIndex) : List BucketIndex :=
  ((List.finRange numBuckets).drop (i + 1)).filter (fun j => !d.bit j)

variable {d : Distance}

theorem nextIn_eq_some (h : nextIn d i = some j) : j < i ∧ onesBelow d i = j :: onesBelow d j := by
  obtain ⟨hj, as, bs, hsplit, has⟩ := find?_eq_some_iff_append.mp h
  have htake : (finRange numBuckets).take i = bs.reverse ++ j :: as.reverse := by
    simpa using congrArg reverse hsplit
  have hall : finRange numBuckets =
      bs.reverse ++ j :: (as.reverse ++ (finRange numBuckets).drop i) := by
    conv_lhs => rw [← take_append_drop i (finRange numBuckets), htake]
    simp
  obtain ⟨hbs, -⟩ := finRange_split hall
  refine ⟨?_, ?_⟩
  · have hmem : j ∈ (finRange numBuckets).take i := by simp [htake]
    obtain ⟨k, hk, hget⟩ := mem_take_iff_getElem.mp hmem
    have hkj : k = j.val := by simpa using congrArg Fin.val hget
    exact Fin.lt_def.mpr (by omega)
  · unfold onesBelow
    rw [hsplit, filter_append, filter_eq_nil_iff.mpr (by simpa using has),
      filter_cons, if_pos hj, ← hbs]
    simp

theorem nextIn_eq_none (h : nextIn d i = none) : onesBelow d i = [] := by
  unfold onesBelow
  rw [filter_eq_nil_iff]
  intro j hj
  simpa using find?_eq_none.mp h j hj

theorem nextOut_eq_some (h : nextOut d i = some j) :
    i < j ∧ zerosAbove d i = j :: zerosAbove d j := by
  obtain ⟨hj, as, bs, hsplit, has⟩ := find?_eq_some_iff_append.mp h
  have hall : finRange numBuckets =
      ((finRange numBuckets).take (i + 1) ++ as) ++ j :: bs := by
    conv_lhs => rw [← take_append_drop (i + 1) (finRange numBuckets), hsplit]
    simp
  obtain ⟨hpre, hbs⟩ := finRange_split hall
  refine ⟨?_, ?_⟩
  · have hlen := congrArg length hpre
    simp only [length_append, length_take, length_finRange] at hlen
    exact Fin.lt_def.mpr (by omega)
  · unfold zerosAbove
    rw [hsplit, filter_append, filter_eq_nil_iff.mpr (by simpa using has),
      filter_cons, if_pos hj, ← hbs]
    simp

theorem nextOut_eq_none (h : nextOut d i = none) : zerosAbove d i = [] := by
  unfold zerosAbove
  rw [filter_eq_nil_iff]
  intro j hj
  simpa using find?_eq_none.mp h j hj

variable {it' : ClosestBucketsIter}

theorem rank_next {it : ClosestBucketsIter} (h : it.next = (some i, it')) : it'.rank < it.rank := by
  obtain ⟨d, state⟩ := it
  cases state with
  | start j =>
    simp only [next, Prod.mk.injEq] at h
    obtain ⟨-, rfl⟩ := h
    simp only [rank]
    omega
  | zoomIn j =>
    simp only [next] at h
    split at h
    · rename_i k hk
      obtain ⟨-, rfl⟩ := h
      have := Fin.lt_def.mp (nextIn_eq_some hk).1
      simp only [rank]
      omega
    · obtain ⟨-, rfl⟩ := h
      simp only [rank]
      omega
  | zoomOut j =>
    simp only [next] at h
    split at h
    · rename_i k hk
      simp only [Prod.mk.injEq] at h
      obtain ⟨-, rfl⟩ := h
      have := Fin.lt_def.mp (nextOut_eq_some hk).1
      simp only [rank]
      omega
    · simp at h
  | done => simp [next] at h

def collect (it : ClosestBucketsIter) : List BucketIndex :=
  match _h : it.next with
  | (some i, it') => i :: it'.collect
  | (none, _) => []
termination_by it.rank
decreasing_by exact rank_next _h

theorem collect_some {it : ClosestBucketsIter} (h : it.next = (some i, it')) :
    it.collect = i :: it'.collect := by
  rw [collect]
  split
  · rename_i j jt hj
    rw [h] at hj
    cases hj
    rfl
  · rename_i jt hj
    rw [h] at hj
    cases hj

theorem collect_none {it : ClosestBucketsIter} (h : it.next = (none, it')) : it.collect = [] := by
  rw [collect]
  split
  · rename_i j jt hj
    rw [h] at hj
    cases hj
  · rfl

theorem collect_zoomOut (d : Distance) (i : BucketIndex) :
    collect ⟨d, .zoomOut i⟩ = zerosAbove d i := by
  induction hn : numBuckets - i.val using Nat.strong_induction_on generalizing i with
  | _ n ih =>
    cases hk : nextOut d i with
    | none =>
      rw [nextOut_eq_none hk]
      exact collect_none (by simp only [next, hk]; rfl)
    | some j =>
      obtain ⟨hij, hz⟩ := nextOut_eq_some hk
      rw [collect_some (by simp only [next, hk]; rfl), hz,
        ih (numBuckets - j.val) (by have := Fin.lt_def.mp hij; omega) j rfl]

theorem collect_zoomIn (d : Distance) (i : BucketIndex) :
    collect ⟨d, .zoomIn i⟩ = onesBelow d i ++ 0 :: zerosAbove d 0 := by
  induction hn : i.val using Nat.strong_induction_on generalizing i with
  | _ n ih =>
    cases hk : nextIn d i with
    | none =>
      rw [nextIn_eq_none hk, collect_some (by simp only [next, hk]; rfl), collect_zoomOut]
      rfl
    | some j =>
      obtain ⟨hji, ho⟩ := nextIn_eq_some hk
      rw [collect_some (by simp only [next, hk]; rfl), ho,
        ih j.val (by have := Fin.lt_def.mp hji; omega) j rfl]
      rfl

def first (d : Distance) : BucketIndex := (BucketIndex.new d).getD 0

/-- The walk in closed form: the first bucket, the one bits below it, bucket `0`, and the zero
bits above it. -/
theorem collect_new (d : Distance) :
    (new d).collect = first d :: (onesBelow d (first d) ++ 0 :: zerosAbove d 0) := by
  have hnew : new d = ⟨d, .start (first d)⟩ := by
    unfold new first
    cases BucketIndex.new d <;> rfl
  rw [hnew, collect_some rfl, collect_zoomIn]

/-! ## The order of the walk -/

theorem first_of_zero (h : d.val = 0) : first d = 0 := by
  simp [first, BucketIndex.new_eq_none_iff.mpr h]

theorem topBit_first (h : d.val ≠ 0) : TopBit d.val.toNat (first d) := by
  cases hi : BucketIndex.new d with
  | none => exact absurd (BucketIndex.new_eq_none_iff.mp hi) h
  | some i =>
    simp only [first, hi, Option.getD_some]
    exact Distance.ilog2_eq_some_iff.mp (BucketIndex.new_eq_some_iff.mp hi)

theorem bit_zero (h : d.val = 0) (i : Nat) : d.bit i = false := by
  simp [Distance.bit, h]

theorem bit_first_or (d : Distance) :
    d.bit (first d) = true ∨ (first d = 0 ∧ ∀ i, d.bit i = false) := by
  by_cases h : d.val = 0
  · exact .inr ⟨first_of_zero h, bit_zero h⟩
  · exact .inl (topBit_first h).testBit_self

theorem le_first_of_bit (h : d.bit i = true) : i ≤ first d := by
  by_contra hlt
  by_cases hz : d.val = 0
  · simp [bit_zero hz] at h
  · have := (topBit_first hz).testBit_above (Fin.lt_def.mp (not_le.mp hlt))
    rw [← Distance.bit_eq_testBit, h] at this
    cases this

theorem mem_onesBelow : j ∈ onesBelow d i ↔ j < i ∧ d.bit j = true := by
  simp [onesBelow, mem_take_finRange]

theorem mem_zerosAbove : j ∈ zerosAbove d i ↔ i < j ∧ d.bit j = false := by
  simp only [zerosAbove, mem_filter, mem_drop_finRange, Bool.not_eq_eq_eq_not, Bool.not_true]
  rfl

theorem onesBelow_pairwise (d : Distance) (i : BucketIndex) :
    (onesBelow d i).Pairwise (fun j k => k < j) :=
  (pairwise_reverse.mpr ((pairwise_lt_finRange _).take)).filter _

theorem zerosAbove_pairwise (d : Distance) (i : BucketIndex) :
    (zerosAbove d i).Pairwise (fun j k => j < k) :=
  ((pairwise_lt_finRange _).drop).filter _

theorem mem_collect_new (d : Distance) (i : BucketIndex) : i ∈ (new d).collect := by
  rw [collect_new, mem_cons, mem_append, mem_cons]
  by_cases hbit : d.bit i = true
  · rcases eq_or_lt_of_le (le_first_of_bit hbit) with h | h
    · exact .inl h
    · exact .inr (.inl (mem_onesBelow.mpr ⟨h, hbit⟩))
  · by_cases hz : i = 0
    · exact .inr (.inr (.inl hz))
    · have hpos : 0 < i := Fin.pos_iff_ne_zero.mpr hz
      exact .inr (.inr (.inr (mem_zerosAbove.mpr ⟨hpos, by simpa using hbit⟩)))

/-- Bucket `i` may be visited before bucket `j`: the higher of the two is a one bit if it comes
first and a zero bit if it comes last. Bucket `0` may be visited twice in a row. -/
def Before (d : Distance) (i j : BucketIndex) : Prop :=
  (j < i ∧ d.bit i = true) ∨ (i < j ∧ d.bit j = false) ∨ (i = 0 ∧ j = 0)

theorem before_zero (h : i = 0 ∨ d.bit i = true) : Before d i 0 := by
  by_cases hz : i = 0
  · exact .inr (.inr ⟨hz, rfl⟩)
  · exact .inl ⟨Fin.pos_iff_ne_zero.mpr hz, h.resolve_left hz⟩

theorem before_of_one_zero (hi : d.bit i = true) (hj : d.bit j = false) : Before d i j := by
  rcases lt_trichotomy i j with h | h | h
  · exact .inr (.inl ⟨h, hj⟩)
  · rw [h, hj] at hi
    cases hi
  · exact .inl ⟨h, hi⟩

theorem before_of_walk (d : Distance) : (new d).collect.Pairwise (Before d) := by
  rw [collect_new, pairwise_cons, pairwise_append, pairwise_cons]
  refine ⟨?_, ?_, ⟨?_, ?_⟩, ?_⟩
  · -- the first bucket against all later ones
    intro j hj
    rcases bit_first_or d with hone | ⟨hfirst, hzero⟩
    · rw [mem_append, mem_cons, mem_onesBelow, mem_zerosAbove] at hj
      rcases hj with ⟨hlt, -⟩ | rfl | ⟨-, hj⟩
      · exact .inl ⟨hlt, hone⟩
      · exact before_zero (.inr hone)
      · exact before_of_one_zero hone hj
    · rw [hfirst]
      by_cases hjz : j = 0
      · exact .inr (.inr ⟨rfl, hjz⟩)
      · exact .inr (.inl ⟨Fin.pos_iff_ne_zero.mpr hjz, hzero j⟩)
  · refine (onesBelow_pairwise d _).imp_of_mem ?_
    intro i j hi _ hlt
    exact .inl ⟨hlt, (mem_onesBelow.mp hi).2⟩
  · intro j hj
    exact .inr (.inl (mem_zerosAbove.mp hj))
  · refine (zerosAbove_pairwise d _).imp_of_mem ?_
    intro i j _ hj hlt
    exact .inr (.inl ⟨hlt, (mem_zerosAbove.mp hj).2⟩)
  · intro i hi j hj
    have hone := (mem_onesBelow.mp hi).2
    rcases mem_cons.mp hj with rfl | hj
    · exact before_zero (.inr hone)
    · exact before_of_one_zero hone (mem_zerosAbove.mp hj).2

theorem onesBelow_nodup (d : Distance) (i : BucketIndex) : (onesBelow d i).Nodup :=
  (onesBelow_pairwise d i).imp ne_of_gt

theorem zerosAbove_nodup (d : Distance) (i : BucketIndex) : (zerosAbove d i).Nodup :=
  (zerosAbove_pairwise d i).imp ne_of_lt

/-- At distance zero and at odd distances bucket `0` is visited twice; every other bucket is
visited once. -/
theorem count_collect_new (d : Distance) (i : BucketIndex) :
    (new d).collect.count i = if i = 0 ∧ (d.val = 0 ∨ d.bit 0 = true) then 2 else 1 := by
  have hones : (onesBelow d (first d)).count i =
      if i < first d ∧ d.bit i = true then 1 else 0 := by
    rw [(onesBelow_nodup d _).count]
    simp only [mem_onesBelow]
  have hzeros : (zerosAbove d 0).count i = if 0 < i ∧ d.bit i = false then 1 else 0 := by
    rw [(zerosAbove_nodup d _).count]
    simp only [mem_zerosAbove]
  rw [collect_new, count_cons, count_append, count_cons, hones, hzeros]
  by_cases hz : d.val = 0
  · -- the walk is `0, 0, 1, 2, ..`
    rw [first_of_zero hz]
    by_cases hi : i = 0
    · simp [hi, hz, bit_zero hz]
    · simp [hi, Ne.symm hi, bit_zero hz, Fin.pos_iff_ne_zero]
  · have hfirst : d.bit (first d) = true := (topBit_first hz).testBit_self
    by_cases hbit : d.bit i = true
    · -- a one bit is the first bucket or lies below it
      have hle := le_first_of_bit hbit
      by_cases hi : i = 0
      · subst hi
        have hodd : d.bit 0 = true := hbit
        by_cases hf : first d = 0
        · simp [hf, hodd]
        · simp [hf, hodd, Fin.pos_iff_ne_zero]
      · rcases eq_or_lt_of_le hle with hf | hf
        · simp [← hf, hi, Ne.symm hi, hbit]
        · simp [hi, Ne.symm hi, hbit, hf, ne_of_gt hf]
    · have hne : first d ≠ i := by
        rintro rfl
        exact hbit hfirst
      by_cases hi : i = 0
      · subst hi
        have heven : d.bit 0 = false := by simpa using hbit
        simpa [heven, hne] using hz
      · simp [hi, Ne.symm hi, hbit, hne, Fin.pos_iff_ne_zero]

/-- The nonempty buckets are visited once each exactly when the distance is neither zero nor odd,
or bucket `0` is not one of them. -/
theorem filter_collect_new_nodup_iff (d : Distance) (p : BucketIndex → Bool) :
    ((new d).collect.filter p).Nodup ↔ (d.val ≠ 0 ∧ d.bit 0 = false) ∨ p 0 = false := by
  rw [nodup_iff_count_le_one]
  constructor
  · intro h
    by_contra hcon
    have hp : p 0 = true := by
      by_contra hp
      exact hcon (.inr (by simpa using hp))
    have hcount := h 0
    rw [count_filter hp, count_collect_new, if_pos] at hcount
    · omega
    · refine ⟨rfl, ?_⟩
      by_contra hd
      simp only [not_or, Bool.not_eq_true] at hd
      exact hcon (.inl hd)
  · intro h i
    by_cases hp : p i = true
    · rw [count_filter hp, count_collect_new, if_neg]
      rintro ⟨rfl, hd⟩
      rcases h with ⟨hz, hbit⟩ | h
      · rcases hd with hd | hd
        · exact hz hd
        · rw [hbit] at hd
          cases hd
      · rw [hp] at h
        cases h
    · rw [count_eq_zero_of_not_mem]
      · omega
      · intro hmem
        exact hp (mem_filter.mp hmem).2

theorem collect_new_nodup_iff (d : Distance) :
    (new d).collect.Nodup ↔ d.val ≠ 0 ∧ d.bit 0 = false := by
  simpa using filter_collect_new_nodup_iff d (fun _ => true)

def highOnes (d : Distance) : List BucketIndex :=
  ((List.finRange numBuckets).filter (fun i : BucketIndex => i ≠ 0 ∧ d.bit i = true)).reverse

/-- At an odd distance the walk goes through the one bits, visits bucket `0` twice in a row, and
goes on through the zero bits. -/
theorem collect_new_of_odd (h : d.bit 0 = true) :
    (new d).collect = highOnes d ++ 0 :: 0 :: zerosAbove d 0 := by
  have hz : d.val ≠ 0 := by
    intro hz
    rw [bit_zero hz] at h
    cases h
  have hfirst : d.bit (first d) = true := (topBit_first hz).testBit_self
  have hones : first d :: onesBelow d (first d) = highOnes d ++ [0] := by
    -- both lists are strictly decreasing and hold the one bits
    have hleft : (first d :: onesBelow d (first d)).Pairwise (fun i j => j < i) :=
      pairwise_cons.mpr ⟨fun j hj => (mem_onesBelow.mp hj).1, onesBelow_pairwise d _⟩
    have hright : (highOnes d ++ [0]).Pairwise (fun i j => j < i) := by
      refine pairwise_append.mpr ⟨?_, pairwise_singleton _ _, ?_⟩
      · exact pairwise_reverse.mpr ((pairwise_lt_finRange _).filter _)
      · intro i hi j hj
        obtain rfl := mem_singleton.mp hj
        have hbits := (mem_filter.mp (mem_reverse.mp hi)).2
        exact Fin.pos_iff_ne_zero.mpr (of_decide_eq_true hbits).1
    have hmem : ∀ i, i ∈ first d :: onesBelow d (first d) ↔ i ∈ highOnes d ++ [0] := by
      intro i
      rw [mem_cons, mem_onesBelow, mem_append, mem_singleton, highOnes,
        mem_reverse, mem_filter]
      simp only [mem_finRange, true_and, decide_eq_true_eq]
      constructor
      · rintro (rfl | ⟨-, hi⟩)
        · by_cases h0 : first d = 0
          · exact .inr h0
          · exact .inl ⟨h0, hfirst⟩
        · by_cases h0 : i = 0
          · exact .inr h0
          · exact .inl ⟨h0, hi⟩
      · intro hi
        have hbit : d.bit i = true := by
          rcases hi with ⟨-, hi⟩ | rfl
          · exact hi
          · exact h
        rcases eq_or_lt_of_le (le_first_of_bit hbit) with hi | hi
        · exact .inl hi
        · exact .inr ⟨hi, hbit⟩
    refine List.Perm.eq_of_pairwise (fun i j _ _ hij hji => absurd hij (not_lt.mpr hji.le))
      hleft hright ?_
    exact (perm_ext_iff_of_nodup (hleft.imp ne_of_gt) (hright.imp ne_of_gt)).mpr hmem
  rw [collect_new, ← cons_append, hones, append_assoc]
  rfl

end ClosestBucketsIter

/-! ## The entries in the order of the walk -/

/-- `v.sort_by(..)` by the distance to the target. The sort is stable. -/
def sortByDistance {Out : Type} [AsKeyBytes Out] (target : KeyBytes) (v : List Out) : List Out :=
  v.insertionSort (fun a b => target.distance a ≤ target.distance b)

section SortByDistance

variable {Out : Type} [AsKeyBytes Out] {target : KeyBytes} {v : List Out}

@[simp] theorem mem_sortByDistance : o ∈ sortByDistance target v ↔ o ∈ v :=
  (perm_insertionSort _ v).mem_iff

@[simp] theorem sortByDistance_nodup : (sortByDistance target v).Nodup ↔ v.Nodup :=
  (perm_insertionSort _ v).nodup_iff

@[simp] theorem length_sortByDistance : (sortByDistance target v).length = v.length :=
  (perm_insertionSort _ v).length_eq

theorem sortByDistance_pairwise (target : KeyBytes) (v : List Out) :
    (sortByDistance target v).Pairwise (fun a b => target.distance a ≤ target.distance b) := by
  exact pairwise_insertionSort _ v

end SortByDistance

/-- An iterator over a projection `fmap` of the entries closest to a target. -/
structure ClosestIter (K V Out : Type) where
  target : KeyBytes
  table : KBucketsTable K V
  bucketsIter : ClosestBucketsIter
  iter : Option (List Out)
  fmap : KBucket K V → List Out

namespace ClosestIter

variable {K V Out : Type} [AsKeyBytes Out]

def pending (it : ClosestIter K V Out) : Nat := it.iter.elim 0 (fun l => l.length + 1)

def next (it : ClosestIter K V Out) : Option Out × ClosestIter K V Out :=
  match _hit : it.iter with
  | some (k :: rest) => (some k, { it with iter := some rest })
  | some [] => next { it with iter := none }
  | none =>
    match _hb : it.bucketsIter.next with
    | (some i, b) =>
      next { it with
        bucketsIter := b
        iter := some (sortByDistance it.target (it.fmap (it.table.buckets i))) }
    | (none, b) => (none, { it with bucketsIter := b })
termination_by (it.bucketsIter.rank, it.pending)
decreasing_by
  · exact Prod.Lex.right _ (by simp [pending, _hit])
  · exact Prod.Lex.left _ _ (ClosestBucketsIter.rank_next _hb)

def ofBucket (it : ClosestIter K V Out) (i : BucketIndex) : List Out :=
  sortByDistance it.target (it.fmap (it.table.buckets i))

/-- What is still to come: the rest of the current bucket, then the buckets of the walk. -/
def remaining (it : ClosestIter K V Out) : List Out :=
  it.iter.getD [] ++ it.bucketsIter.collect.flatMap it.ofBucket

variable {it : ClosestIter K V Out}

theorem remaining_none {b : ClosestBucketsIter} (hit : it.iter = none)
    (hb : it.bucketsIter.next = (some i, b)) :
    it.remaining = it.ofBucket i ++ b.collect.flatMap it.ofBucket := by
  simp [remaining, hit, ClosestBucketsIter.collect_some hb]

theorem next_some (h : it.next = (some k, it')) : it.remaining = k :: it'.remaining := by
  fun_induction next it with
  | case1 it k' rest hit =>
    obtain ⟨rfl, rfl⟩ := h
    simp [remaining, hit]
    rfl
  | case2 it hit ih =>
    rw [← ih h]
    simp [remaining, hit]
    rfl
  | case3 it hit i b hb ih =>
    rw [← ih h, remaining_none hit hb]
    rfl
  | case4 it hit b hb => cases h

theorem next_none {it' : ClosestIter K V Out} (h : it.next = (none, it')) : it.remaining = [] := by
  fun_induction next it with
  | case1 it k' rest hit => cases h
  | case2 it hit ih =>
    rw [← ih h]
    simp [remaining, hit]
    rfl
  | case3 it hit i b hb ih =>
    rw [← ih h, remaining_none hit hb]
    rfl
  | case4 it hit b hb => simp [remaining, hit, ClosestBucketsIter.collect_none hb]

def collect (it : ClosestIter K V Out) : List Out :=
  match _h : it.next with
  | (some k, it') => k :: it'.collect
  | (none, _) => []
termination_by it.remaining.length
decreasing_by simp [next_some _h]

theorem collect_eq (it : ClosestIter K V Out) : it.collect = it.remaining := by
  fun_induction collect it with
  | case1 it k it' h ih => rw [next_some h, ih]
  | case2 it it' h => rw [next_none h]

end ClosestIter

namespace KBucketsTable

variable {K V T : Type} [AsKeyBytes K] [AsKeyBytes T]

def closestIter {Out : Type} (t : KBucketsTable K V) (target : T)
    (fmap : KBucket K V → List Out) : ClosestIter K V Out where
  target := asRef target
  table := t
  bucketsIter := ClosestBucketsIter.new ((asRef t.localKey).distance target)
  iter := none
  fmap := fmap

def closestKeys (t : KBucketsTable K V) (target : T) : List K :=
  (t.closestIter target (fun b => b.nodes.map Node.key)).collect

def closest (t : KBucketsTable K V) (target : T) : List (EntryView K V) :=
  (t.closestIter target (fun b => b.nodes.map EntryView.mk)).collect

def walk (t : KBucketsTable K V) (target : T) : List BucketIndex :=
  (ClosestBucketsIter.new ((asRef t.localKey).distance target)).collect

section Sequence

variable {Out : Type} [AsKeyBytes Out] {t : KBucketsTable K V} {target : T}
  {g : Node K V → Out}

theorem closestIter_collect :
    (t.closestIter target (fun b => b.nodes.map g)).collect =
      (t.walk target).flatMap
        (fun i => sortByDistance (asRef target) ((t.buckets i).nodes.map g)) := by
  rw [ClosestIter.collect_eq]
  rfl

theorem mem_closestIter :
    o ∈ (t.closestIter target (fun b => b.nodes.map g)).collect ↔ ∃ n ∈ t.entries, g n = o := by
  simp only [closestIter_collect, mem_flatMap, mem_sortByDistance, mem_map, mem_entries]
  constructor
  · rintro ⟨i, -, n, hn, rfl⟩
    exact ⟨n, ⟨i, hn⟩, rfl⟩
  · rintro ⟨n, ⟨i, hn⟩, rfl⟩
    exact ⟨i, ClosestBucketsIter.mem_collect_new _ i, n, hn, rfl⟩

/-- Of two buckets in the order of the walk, the keys of the earlier one are at most as far from
the target as the keys of the later one. -/
theorem WF.distance_le_of_before (h : t.WF)
    (hij : ClosestBucketsIter.Before ((asRef t.localKey).distance target) i j)
    (ha : a ∈ (t.buckets i).keys) (hb : b ∈ (t.buckets j).keys) :
    (asRef target).distance a ≤ (asRef target).distance b := by
  have htopA := Distance.ilog2_eq_some_iff.mp ((h i).index a ha)
  have htopB := Distance.ilog2_eq_some_iff.mp ((h j).index b hb)
  rw [Distance.le_iff, KeyBytes.distance_xor (asRef t.localKey) (asRef target) a,
    KeyBytes.distance_xor (asRef t.localKey) (asRef target) b, BitVec.toNat_xor, BitVec.toNat_xor]
  rcases hij with ⟨hlt, hone⟩ | ⟨hlt, hzero⟩ | ⟨rfl, rfl⟩
  · exact (xor_lt_xor_of_top_gt htopA htopB hlt hone).le
  · exact (xor_lt_xor_of_top_lt htopA htopB hlt hzero).le
  · -- both keys are at distance one from the local key
    have hA : ((asRef t.localKey).distance a).val.toNat = 1 := by
      have := htopA
      simp only [TopBit, Fin.val_zero, pow_zero, zero_add, pow_one] at this
      omega
    have hB : ((asRef t.localKey).distance b).val.toNat = 1 := by
      have := htopB
      simp only [TopBit, Fin.val_zero, pow_zero, zero_add, pow_one] at this
      omega
    rw [hA, hB]

theorem WF.closestIter_sorted (h : t.WF) (hg : ∀ n, asRef (g n) = asRef n.key) :
    (t.closestIter target (fun b => b.nodes.map g)).collect.Pairwise
      (fun a b => (asRef target).distance a ≤ (asRef target).distance b) := by
  have hkey : ∀ {i : BucketIndex} {o : Out},
      o ∈ sortByDistance (asRef target) ((t.buckets i).nodes.map g) →
        asRef o ∈ (t.buckets i).keys := by
    intro i o ho
    obtain ⟨n, hn, rfl⟩ := mem_map.mp (mem_sortByDistance.mp ho)
    exact KBucket.mem_keys.mpr ⟨n, hn, (hg n).symm⟩
  rw [closestIter_collect, pairwise_flatMap]
  refine ⟨fun i _ => sortByDistance_pairwise _ _, ?_⟩
  refine (ClosestBucketsIter.before_of_walk _).imp ?_
  intro i j hij a ha b hb
  exact h.distance_le_of_before hij (hkey ha) (hkey hb)

theorem WF.closestIter_nodup_iff (h : t.WF) (hg : ∀ n, asRef (g n) = asRef n.key) :
    (t.closestIter target (fun b => b.nodes.map g)).collect.Nodup ↔
      (((asRef t.localKey).distance target).val ≠ 0 ∧
        ((asRef t.localKey).distance target).bit 0 = false) ∨ (t.buckets 0).nodes = [] := by
  have hsub : ∀ i, ((t.buckets i).nodes.map g).map asRef = (t.buckets i).keys := by
    intro i
    simp [KBucket.keys, Function.comp_def, hg]
  rw [closestIter_collect, nodup_flatMap_iff_filter]
  · rw [walk, ClosestBucketsIter.filter_collect_new_nodup_iff]
    simp [← List.length_eq_zero_iff, List.isEmpty_iff]
  · intro i
    rw [sortByDistance_nodup]
    exact List.Nodup.of_map asRef ((hsub i).symm ▸ (h i).unique)
  · intro i j hne o hi hj
    have hi' := mem_map_of_mem (f := asRef) (mem_sortByDistance.mp hi)
    have hj' := mem_map_of_mem (f := asRef) (mem_sortByDistance.mp hj)
    rw [hsub] at hi' hj'
    exact hne (h.bucket_unique hi' hj')

end Sequence

/-- Over every table built through the `Entry` API, both sequences are ordered by the distance
to the target and contain every entry. -/
theorem closest_sorted_complete (localKey : K) (ops : List (TableOp K V)) (target : T) :
    let t := TableOp.build localKey ops
    ((t.closestKeys target).Pairwise
        (fun a b => (asRef target).distance a ≤ (asRef target).distance b) ∧
      ∀ n ∈ t.entries, n.key ∈ t.closestKeys target) ∧
    ((t.closest target).Pairwise
        (fun a b => (asRef target).distance a ≤ (asRef target).distance b) ∧
      ∀ n ∈ t.entries, EntryView.mk n ∈ t.closest target) := by
  intro t
  have hwf : t.WF := TableOp.build_wf localKey ops
  refine ⟨⟨hwf.closestIter_sorted (fun _ => rfl), fun n hn => ?_⟩,
    ⟨hwf.closestIter_sorted (fun _ => rfl), fun n hn => ?_⟩⟩
  · exact mem_closestIter.mpr ⟨n, hn, rfl⟩
  · exact mem_closestIter.mpr ⟨n, hn, rfl⟩

end KBucketsTable

end Libp2pRs.Kad
