import Libp2pRs.Kad.Behaviour

/-!
# When the closest peers are listed twice

The walk over the buckets hands over from its first half to its second at bucket `0`, and at
distance zero and at odd distances it has been there before. A table whose bucket `0` is not
empty then yields the entry of that bucket twice in a row. In the answer to a request the second
copy is cut off only if there are enough closer entries.
-/

namespace Libp2pRs.Kad

open Lib Libp2pRs.Core KBucketsTable List ClosestBucketsIter

namespace Kademlia

variable {S : Type} {T : Type} {sha256 : List UInt8 → KeyBytes} {id : PeerId}

/-- The peers that bucket `i` contributes to the answer to `source`. -/
def answerOf (t : RoutingTable) (target : Key T) (source : PeerId) (i : BucketIndex) :
    List PeerId :=
  ((sortByDistance target.bytes ((t.buckets i).nodes.map EntryView.mk)).filter
    (fun e => e.node.key.preimage ≠ source)).map (fun e => e.node.key.preimage)

/-- The number of entries other than `source` in the buckets that are visited before bucket `0`:
those of the one bits of the distance. -/
def closerCount (t : RoutingTable) (target : Key T) (source : PeerId) : Nat :=
  (((List.finRange numBuckets).filter
      (fun i : BucketIndex => i ≠ 0 ∧ (t.localKey.bytes.distance target).bit i = true)).flatMap
    (fun i => (t.buckets i).nodes.filter (fun n => n.key.preimage ≠ source))).length

theorem closest_preimages (t : RoutingTable) (target : Key T) (source : PeerId) :
    ((t.closest target).filter (fun e => e.node.key.preimage ≠ source)).map
        (fun e => e.node.key.preimage) =
      (t.walk target).flatMap (answerOf t target source) := by
  rw [closest, closestIter_collect, filter_flatMap, map_flatMap]
  rfl

theorem mem_answerOf : p ∈ answerOf t target source i ↔
      ∃ n ∈ (t.buckets i).nodes, n.key.preimage ≠ source ∧ n.key.preimage = p := by
  simp only [answerOf, mem_map, mem_filter, mem_sortByDistance, decide_eq_true_eq]
  constructor
  · rintro ⟨e, ⟨⟨n, hn, rfl⟩, hne⟩, hp⟩
    exact ⟨n, hn, hne, hp⟩
  · rintro ⟨n, hn, hne, hp⟩
    exact ⟨⟨n⟩, ⟨⟨n, hn, rfl⟩, hne⟩, hp⟩

theorem length_answerOf (t : RoutingTable) (target : Key T) (source : PeerId) (i : BucketIndex) :
    (answerOf t target source i).length =
      ((t.buckets i).nodes.filter (fun n => n.key.preimage ≠ source)).length := by
  have hperm : (sortByDistance target.bytes ((t.buckets i).nodes.map EntryView.mk)).Perm
      ((t.buckets i).nodes.map EntryView.mk) := perm_insertionSort _ _
  rw [answerOf, length_map, (hperm.filter _).length_eq, filter_map, length_map]
  rfl

section Sound

variable {t : RoutingTable} {target : Key T} {source : PeerId} (h : Sound sha256 id t)
include h

theorem Sound.node_key (hn : n ∈ (t.buckets i).nodes) :
    n.key = Key.ofPeerId sha256 n.key.preimage :=
  h.keys (member n) (mem_members.mpr ⟨i, n, hn, rfl⟩)

theorem Sound.answerOf_nodup (i : BucketIndex) : (answerOf t target source i).Nodup := by
  have hpre : ((t.buckets i).nodes.map (fun n => n.key.preimage)).Nodup := by
    apply List.Nodup.of_map (fun p => (Key.ofPeerId sha256 p).bytes)
    have hkeys : ((t.buckets i).nodes.map (fun n => n.key.preimage)).map
        (fun p => (Key.ofPeerId sha256 p).bytes) = (t.buckets i).keys := by
      rw [map_map]
      refine map_congr_left fun n hn => ?_
      simp only [Function.comp_apply, asRef_key]
      rw [← h.node_key hn]
    rw [hkeys]
    exact (h.wf i).unique
  have hperm : ((sortByDistance target.bytes ((t.buckets i).nodes.map EntryView.mk)).map
      (fun e => e.node.key.preimage)).Perm
        ((t.buckets i).nodes.map (fun n => n.key.preimage)) := by
    have := (perm_insertionSort (fun a b : EntryView (Key PeerId) PeerInfo =>
      target.bytes.distance a ≤ target.bytes.distance b)
      ((t.buckets i).nodes.map EntryView.mk)).map (fun e => e.node.key.preimage)
    rwa [map_map] at this
  exact (hperm.nodup_iff.mpr hpre).sublist (filter_sublist.map _)

theorem Sound.answerOf_disjoint (hij : i ≠ j) :
    List.Disjoint (answerOf t target source i) (answerOf t target source j) := by
  intro p hi hj
  obtain ⟨n, hn, -, rfl⟩ := mem_answerOf.mp hi
  obtain ⟨n', hn', -, hp⟩ := mem_answerOf.mp hj
  have hkey : n'.key = n.key := by rw [h.node_key hn', h.node_key hn, hp]
  exact hij (h.wf.bucket_unique (KBucket.mem_keys.mpr ⟨n, hn, rfl⟩)
    (KBucket.mem_keys.mpr ⟨n', hn', by rw [hkey]⟩))

theorem Sound.flatMap_answerOf_nodup {l : List BucketIndex} (hl : l.Nodup) :
    (l.flatMap (answerOf t target source)).Nodup :=
  (nodup_flatMap_iff_filter h.answerOf_nodup (fun _ _ => h.answerOf_disjoint)).mpr (hl.filter _)

theorem Sound.bucket_zero (p : PeerId) (hp : p ∈ answerOf t target source 0) :
    answerOf t target source 0 = [p] := by
  have hone : ∀ n ∈ (t.buckets 0).nodes, (t.localKey.bytes.distance n.key.bytes).val.toNat = 1 := by
    intro n hn
    have hindex := (h.wf 0).index n.key.bytes (KBucket.mem_keys.mpr ⟨n, hn, rfl⟩)
    have htop := Distance.ilog2_eq_some_iff.mp hindex
    simp only [TopBit, Fin.val_zero, pow_zero, zero_add, pow_one] at htop
    have hval : (t.localKey.bytes.distance n.key.bytes).val =
        ((asRef t.localKey).distance n.key.bytes).val := rfl
    rw [hval]
    omega
  have hsame : ∀ r ∈ answerOf t target source 0, r = p := by
    intro r hr
    obtain ⟨n, hn, -, rfl⟩ := mem_answerOf.mp hr
    obtain ⟨n', hn', -, rfl⟩ := mem_answerOf.mp hp
    have hdist : t.localKey.bytes.distance n.key.bytes = t.localKey.bytes.distance n'.key.bytes := by
      have := (hone n hn).trans (hone n' hn').symm
      exact congrArg Distance.mk (BitVec.eq_of_toNat_eq this)
    have hbytes := KeyBytes.distance_left_injective _ hdist
    by_contra hne
    have hnd := (h.wf 0).unique
    have hnodes := inj_on_of_nodup_map hnd hn hn' hbytes
    exact hne (by rw [hnodes])
  have hnd : (answerOf t target source 0).Nodup := h.answerOf_nodup 0
  exact perm_singleton.mp ((perm_ext_iff_of_nodup hnd (nodup_singleton p)).mpr
    (fun r => ⟨fun hr => mem_singleton.mpr (hsame r hr),
      fun hr => (mem_singleton.mp hr) ▸ hp⟩))

omit h in
theorem length_highOnes (d : Distance) (hd : d = t.localKey.bytes.distance target) :
    ((highOnes d).flatMap (answerOf t target source)).length =
      closerCount t target source := by
  subst hd
  unfold highOnes closerCount
  rw [length_flatMap, length_flatMap, map_reverse, sum_reverse]
  simp only [length_answerOf]

/-- The first `k` of the peers in the order of the walk are distinct exactly when bucket `0` is
not visited twice, or has nothing to offer, or its second turn comes too late. -/
theorem Sound.take_nodup_iff (k : Nat) (hself : target.bytes ≠ t.localKey.bytes) :
    (((t.walk target).flatMap (answerOf t target source)).take k).Nodup ↔
      (t.localKey.bytes.distance target).bit 0 = false ∨
      (∀ n ∈ (t.buckets 0).nodes, n.key.preimage = source) ∨
      k < closerCount t target source + 2 := by
  set d := t.localKey.bytes.distance target with hd
  have hz : d.val ≠ 0 := fun hzero => hself (KeyBytes.distance_eq_zero_iff.mp hzero).symm
  have hwalk : t.walk target = (ClosestBucketsIter.new d).collect := rfl
  have hempty : answerOf t target source 0 = [] ↔
      ∀ n ∈ (t.buckets 0).nodes, n.key.preimage = source := by
    rw [eq_nil_iff_forall_not_mem]
    constructor
    · intro hnil n hn
      by_contra hne
      exact hnil _ (mem_answerOf.mpr ⟨n, hn, hne, rfl⟩)
    · intro hall p hp
      obtain ⟨n, hn, hne, -⟩ := mem_answerOf.mp hp
      exact hne (hall n hn)
  rw [hwalk]
  by_cases heven : d.bit 0 = false
  · have hnd := (collect_new_nodup_iff d).mpr ⟨hz, heven⟩
    exact iff_of_true ((h.flatMap_answerOf_nodup hnd).sublist (take_sublist _ _))
      (Or.inl heven)
  · have hodd : d.bit 0 = true := by simpa using heven
    have hcollect := collect_new_of_odd hodd
    -- without the second visit the walk has no repetition
    have honce : (highOnes d ++ 0 :: zerosAbove d 0).Nodup := by
      rw [nodup_iff_count_le_one]
      intro i
      have hcount := count_collect_new d i
      rw [hcollect] at hcount
      simp only [count_append, count_cons] at hcount ⊢
      by_cases hi : i = 0
      · subst hi
        simp only [beq_self_eq_true, if_true] at hcount ⊢
        split at hcount <;> omega
      · have hi' : ((0 : BucketIndex) == i) = false := by simpa using Ne.symm hi
        simp only [hi', Bool.false_eq_true, if_false] at hcount ⊢
        rw [if_neg (by simp [hi])] at hcount
        omega
    have hnd : ((highOnes d ++ 0 :: zerosAbove d 0).flatMap
        (answerOf t target source)).Nodup := h.flatMap_answerOf_nodup honce
    rw [hcollect]
    simp only [flatMap_append, flatMap_cons] at hnd ⊢
    rcases eq_nil_or_concat (answerOf t target source 0) with hnil | ⟨l, p, hlast⟩
    · rw [hnil] at hnd ⊢
      exact iff_of_true (hnd.sublist (by simpa using take_sublist _ _))
        (Or.inr (Or.inl (hempty.mp hnil)))
    · have hp : p ∈ answerOf t target source 0 := by simp [hlast]
      have hsingle := h.bucket_zero p hp
      rw [hsingle] at hnd ⊢
      simp only [singleton_append] at hnd ⊢
      rw [nodup_take_twice_iff hnd, length_highOnes d hd]
      have hne : answerOf t target source 0 ≠ [] := ne_nil_of_mem hp
      rw [← hempty]
      simp [hne, hodd]

end Sound

section Main

variable {K V : Type} [AsKeyBytes K] [AsKeyBytes T] [RecordStore S]

/-- When nothing is visited or listed twice. The walk: exactly at the non-zero even distances.
The two sequences of a table: at those distances, or when bucket `0` is empty. The answer to a
request, in every state of the main loop: when the target is the local key, or the distance is
even, or bucket `0` holds nothing but the source, or its second copy is beyond the `kValue`
entries that are listed. -/
theorem closest_distinct_iff (sha256 : List UInt8 → KeyBytes) :
    (∀ d : Distance, (ClosestBucketsIter.new d).collect.Nodup ↔ d.val ≠ 0 ∧ d.bit 0 = false) ∧
    (∀ (localKey : K) (ops : List (TableOp K V)) (target : T),
      let t := TableOp.build localKey ops
      let d := (asRef localKey).distance target
      ((t.closest target).Nodup ↔
        (d.val ≠ 0 ∧ d.bit 0 = false) ∨ (t.buckets 0).nodes = []) ∧
      ((t.closestKeys target).Nodup ↔
        (d.val ≠ 0 ∧ d.bit 0 = false) ∨ (t.buckets 0).nodes = [])) ∧
    (∀ (id : PeerId) (store : S) (config : KademliaConfig) (turns : List Turn) (ps : PeerStore)
        (target : Key T) (source : PeerId),
      let k := run (turn sha256) (withConfig sha256 id store config) turns
      ((k.findClosest ps target source).map KadPeer.nodeId).Nodup ↔
        target.bytes = k.kbuckets.localKey.bytes ∨
        (k.kbuckets.localKey.bytes.distance target).bit 0 = false ∨
        (∀ n ∈ (k.kbuckets.buckets 0).nodes, n.key.preimage = source) ∨
        k.queryConfig.kValue < closerCount k.kbuckets target source + 2) := by
  refine ⟨collect_new_nodup_iff, ?_, ?_⟩
  · intro localKey ops target t d
    have hwf : t.WF := TableOp.build_wf localKey ops
    have hlocal : t.localKey = localKey := TableOp.build_localKey localKey ops
    have hd : d = (asRef t.localKey).distance target := by rw [hlocal]
    rw [hd]
    exact ⟨hwf.closestIter_nodup_iff (fun _ => rfl), hwf.closestIter_nodup_iff (fun _ => rfl)⟩
  · intro id store config turns ps target source k
    have hsound : Sound sha256 id k.kbuckets := run_sound sha256 id store config turns
    by_cases hself : target.bytes = k.kbuckets.localKey.bytes
    · simp [findClosest, hself]
    · have hids : (k.findClosest ps target source).map KadPeer.nodeId =
          ((k.kbuckets.walk target).flatMap (answerOf k.kbuckets target source)).take
            k.queryConfig.kValue := by
        rw [findClosest, if_neg hself, map_map, ← closest_preimages, map_take]
        rfl
      rw [hids, hsound.take_nodup_iff _ hself, or_iff_right hself]

end Main

/-- At distance zero and at distance one the walk visits bucket `0` twice, and a table that holds
the key at distance one yields it twice. -/
theorem closest_repeats_bucket_zero :
    ¬ (ClosestBucketsIter.new ⟨0⟩).collect.Nodup ∧
    ¬ (ClosestBucketsIter.new ⟨1⟩).collect.Nodup ∧
    (TableOp.build (⟨0⟩ : KeyBytes) [.insert (⟨1⟩ : KeyBytes) ()]).closestKeys
      (⟨1⟩ : KeyBytes) = [⟨1⟩, ⟨1⟩] := by
  refine ⟨?_, ?_, ?_⟩
  · rw [collect_new_nodup_iff]
    decide
  · rw [collect_new_nodup_iff]
    decide
  · rw [closestKeys, closestIter_collect, walk, collect_new]
    decide +kernel

end Kademlia

end Libp2pRs.Kad
