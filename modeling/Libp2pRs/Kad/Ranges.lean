import Libp2pRs.Kad.Table
import Libp2pRs.Lib.Codec
import Libp2pRs.Lib.Random

/-!
# The distances of a bucket

A bucket is described three times in the source. `BucketIndex::new` counts the leading zeros of a
distance, `BucketIndex::range` computes the first and the last distance as powers of two, and
`BucketIndex::rand_distance` fills the low bytes of a distance at random and draws a byte above them
from a range of its own. The arithmetic of `U256` panics on overflow, which is `none` here.
-/

namespace Libp2pRs.Kad

open Lib

namespace U256

def pow (b e : U256) : Option U256 :=
  if b.toNat ^ e.toNat < 2 ^ 256 then some (.ofNat 256 (b.toNat ^ e.toNat)) else none

def sub (a b : U256) : Option U256 := if b ≤ a then some (a - b) else none

/-- `From<[u8; 32]>`: the most significant byte comes first. -/
def ofBytes (bytes : Vector UInt8 32) : U256 := .ofNat 256 (beNat bytes.toList)

theorem pow_two {n : Nat} (h : n < 256) : pow 2 (.ofNat 256 n) = some (.ofNat 256 (2 ^ n)) := by
  have hexp : (BitVec.ofNat 256 n).toNat = n := by
    rw [BitVec.toNat_ofNat, Nat.mod_eq_of_lt (h.trans (by norm_num))]
  have hlt : 2 ^ n < 2 ^ 256 := Nat.pow_lt_pow_right (by decide) h
  rw [pow, hexp]
  exact if_pos hlt

theorem toNat_two_pow {n : Nat} (h : n < 256) : (BitVec.ofNat 256 (2 ^ n)).toNat = 2 ^ n := by
  rw [BitVec.toNat_ofNat, Nat.mod_eq_of_lt (Nat.pow_lt_pow_right (by decide) h)]

theorem sub_one {a : U256} (h : 0 < a.toNat) :
    ∃ b, sub a 1 = some b ∧ b.toNat = a.toNat - 1 := by
  have hle : (1 : U256) ≤ a := h
  exact ⟨a - 1, if_pos hle, BitVec.toNat_sub_of_le hle⟩

theorem toNat_ofBytes (bytes : Vector UInt8 32) : (ofBytes bytes).toNat = beNat bytes.toList := by
  have hlt := beNat_lt bytes.toList
  rw [Vector.length_toList] at hlt
  rw [ofBytes, BitVec.toNat_ofNat, Nat.mod_eq_of_lt (by simpa using hlt)]

end U256

namespace BucketIndex

/-! ## Ranges -/

def range (i : BucketIndex) : Option (Distance × Distance) := do
  let min ← U256.pow 2 (.ofNat 256 i.val)
  if i.val = 255 then return (⟨min⟩, ⟨BitVec.allOnes 256⟩)
  else
    let max ← U256.sub (← U256.pow 2 (.ofNat 256 (i.val + 1))) 1
    return (⟨min⟩, ⟨max⟩)

theorem range_eq (i : BucketIndex) : ∃ min max, i.range = some (min, max) ∧
    min.val.toNat = 2 ^ i.val ∧ max.val.toNat + 1 = 2 ^ (i.val + 1) := by
  have hmin := U256.toNat_two_pow i.isLt
  unfold range
  rw [U256.pow_two i.isLt]
  by_cases hi : i.val = 255
  · refine ⟨⟨.ofNat 256 (2 ^ i.val)⟩, ⟨BitVec.allOnes 256⟩, if_pos hi, hmin, ?_⟩
    rw [BitVec.toNat_allOnes, hi]
    norm_num
  · have hlt : i.val + 1 < 256 := by
      have : i.val < 256 := i.isLt
      omega
    have hpow := U256.toNat_two_pow hlt
    obtain ⟨max, hmax, hval⟩ := U256.sub_one (hpow ▸ Nat.two_pow_pos _)
    refine ⟨⟨.ofNat 256 (2 ^ i.val)⟩, ⟨max⟩, ?_, hmin, ?_⟩
    · rw [Option.bind_eq_bind, Option.bind_some, if_neg hi, U256.pow_two hlt, Option.bind_some,
        hmax]
      rfl
    · rw [hpow] at hval
      have hpos := Nat.two_pow_pos (i.val + 1)
      show max.toNat + 1 = _
      omega

variable {i : BucketIndex} {min max : Distance}

theorem mem_range_iff (h : i.range = some (min, max)) (d : Distance) :
    min ≤ d ∧ d ≤ max ↔ TopBit d.val.toNat i.val := by
  obtain ⟨min', max', h', hmin, hmax⟩ := i.range_eq
  rw [h] at h'
  cases h'
  rw [Distance.le_iff, Distance.le_iff, hmin, TopBit, ← hmax, Nat.lt_succ_iff]

theorem new_eq_some_iff_range (h : i.range = some (min, max)) (d : Distance) :
    BucketIndex.new d = some i ↔ min ≤ d ∧ d ≤ max := by
  rw [new_eq_some_iff, Distance.ilog2_eq_some_iff, mem_range_iff h]

/-! ## Random distances -/

def fillByte (s : Vector UInt8 32 × Rng) (i : Nat) : Vector UInt8 32 × Rng :=
  (s.1.set (31 - i) s.2.byte.1, s.2.byte.2)

/-- A distance of the bucket: the bytes below the top one are arbitrary, the top one has its highest
bit at the place that is left of the index. -/
def randDistance (i : BucketIndex) (rng : Rng) : Option (Distance × Rng) := do
  let quot := i.val / 8
  let filled := (List.range quot).foldl fillByte (Vector.replicate 32 0, rng)
  let rem := i.val % 8
  let top ← filled.2.range (2 ^ rem) (2 ^ (rem + 1))
  return (⟨U256.ofBytes (filled.1.set (31 - quot) (UInt8.ofNat top.1))⟩, top.2)

theorem toList_set {bytes : Vector UInt8 32} {low : List UInt8} {n : Nat} (hn : n < 32)
    (h : bytes.toList = List.replicate (32 - n) 0 ++ low) (b : UInt8) :
    (bytes.set (31 - n) b).toList = List.replicate (32 - (n + 1)) 0 ++ b :: low := by
  have hsub : 32 - n = 32 - (n + 1) + 1 := by omega
  have hindex : 31 - n = (List.replicate (32 - (n + 1)) (0 : UInt8)).length := by
    rw [List.length_replicate]
    omega
  rw [Vector.toList_set, h, hsub, List.replicate_succ', List.append_assoc, hindex,
    List.set_append_right _ _ le_rfl, Nat.sub_self]
  rfl

theorem foldl_fillByte (rng : Rng) {n : Nat} (hn : n ≤ 32) :
    ∃ low, low.length = n ∧ ((List.range n).foldl fillByte (Vector.replicate 32 0, rng)).1.toList =
      List.replicate (32 - n) 0 ++ low := by
  induction n with
  | zero => exact ⟨[], rfl, by simp⟩
  | succ n ih =>
    obtain ⟨low, hlow, hbytes⟩ := ih (by omega)
    rw [List.range_succ, List.foldl_append, List.foldl_cons, List.foldl_nil]
    generalize (List.range n).foldl fillByte _ = s at hbytes ⊢
    exact ⟨s.2.byte.1 :: low, by rw [List.length_cons, hlow], toList_set hn hbytes _⟩

/-- The bytes of a random distance are a number with its top bit at the index. -/
theorem randDistance_topBit (i : BucketIndex) (rng : Rng) :
    ∃ d rng', i.randDistance rng = some (d, rng') ∧ TopBit d.val.toNat i.val := by
  have hquot : i.val / 8 < 32 := by
    have : i.val < 256 := i.isLt
    omega
  obtain ⟨low, hlow, hbytes⟩ := foldl_fillByte rng hquot.le
  unfold randDistance
  dsimp only
  generalize (List.range (i.val / 8)).foldl fillByte _ = s at hbytes ⊢
  have hrem : 2 ^ (i.val % 8 + 1) ≤ 256 :=
    Nat.pow_le_pow_right (n := 2) (by decide) (show i.val % 8 + 1 ≤ 8 by omega)
  have hsplit : ∀ k, 2 ^ (i.val + k) = 2 ^ (i.val % 8 + k) * 256 ^ (i.val / 8) := by
    intro k
    rw [show (256 : Nat) = 2 ^ 8 by rfl, ← pow_mul, ← pow_add]
    congr 1
    omega
  obtain ⟨top, rng', htop, hle, hlt⟩ := s.2.range_of_lt
    (Nat.pow_lt_pow_right Nat.one_lt_two (Nat.lt_add_one (i.val % 8)))
  rw [htop]
  refine ⟨_, rng', rfl, ?_⟩
  have hlow' := beNat_lt low
  rw [U256.toNat_ofBytes, toList_set hquot hbytes, beNat_append, beNat_replicate_zero,
    ← List.singleton_append, beNat_append, hlow]
  rw [hlow] at hlow'
  have hbyte : beNat [UInt8.ofNat top] = top := by
    rw [beNat, List.foldl_cons, List.foldl_nil, UInt8.toNat_ofNat', Nat.mod_eq_of_lt (by omega)]
    omega
  rw [hbyte, Nat.zero_mul, Nat.zero_add, TopBit, hsplit, ← Nat.add_zero i.val, hsplit]
  constructor
  · exact (Nat.mul_le_mul_right _ hle).trans (Nat.le_add_right _ _)
  · calc top * 256 ^ (i.val / 8) + beNat low
        < (top + 1) * 256 ^ (i.val / 8) := by rw [Nat.succ_mul]; omega
      _ ≤ 2 ^ (i.val % 8 + 1) * 256 ^ (i.val / 8) := Nat.mul_le_mul_right _ hlt

end BucketIndex

def Entry.bucket {K : Type} : Entry K → Option BucketIndex
  | .present e | .absent e => some e.bucket
  | .selfEntry => none

theorem KBucketsTable.bucket_entry {K V : Type} [AsKeyBytes K] (t : KBucketsTable K V) (key : K) :
    (t.entry key).bucket = t.bucketIndex key := by
  unfold entry
  split
  · rename_i i hi
    split <;> exact hi.symm
  · rename_i hi
    exact hi.symm

/-- The three descriptions of a bucket are the same: the index of a distance is `i` if and only if the
distance is in the range of bucket `i`, which is computed without overflow; and whatever is drawn, a
random distance of bucket `i` is in its range and leads from the local key to a key of bucket `i`. -/
theorem BucketIndex.buckets_agree (i : BucketIndex) :
    ∃ min max, i.range = some (min, max) ∧
      (∀ d, BucketIndex.new d = some i ↔ min ≤ d ∧ d ≤ max) ∧
      ∀ rng : Rng, ∃ d rng', i.randDistance rng = some (d, rng') ∧ min ≤ d ∧ d ≤ max ∧
        ∀ (V : Type) (t : KBucketsTable KeyBytes V),
          (t.entry (t.localKey.forDistance d)).bucket = some i := by
  obtain ⟨min, max, hrange, -⟩ := i.range_eq
  refine ⟨min, max, hrange, new_eq_some_iff_range hrange, fun rng => ?_⟩
  obtain ⟨d, rng', hd, htop⟩ := i.randDistance_topBit rng
  have hmem := (mem_range_iff hrange d).mpr htop
  refine ⟨d, rng', hd, hmem.1, hmem.2, fun V t => ?_⟩
  rw [KBucketsTable.bucket_entry]
  unfold KBucketsTable.bucketIndex
  rw [asRef_keyBytes, KeyBytes.distance_forDistance]
  exact (new_eq_some_iff_range hrange d).mpr hmem

end Libp2pRs.Kad
