import Libp2pRs.Lib.XorMetric
import Libp2pRs.Core.PeerId

/-!
# Keys and distances of the DHT keyspace

A key is a SHA-256 digest together with its preimage. The distance of two keys is the xor of
the digests, read as a 256 bit number. SHA-256 is not part of the repository, so the functions
that hash take it as the parameter `sha256`.
-/

namespace Libp2pRs.Kad

open Lib Libp2pRs.Core

abbrev U256 := BitVec 256

/-- The 32 bytes of a key, read as a big-endian number. -/
structure KeyBytes where
  toU256 : U256
  deriving DecidableEq, Repr

structure Distance where
  val : U256
  deriving DecidableEq, Repr

class AsKeyBytes (K : Type) where
  asRef : K → KeyBytes

export AsKeyBytes (asRef)

structure Key (T : Type) where
  preimage : T
  bytes : KeyBytes
  deriving DecidableEq, Repr

instance : AsKeyBytes KeyBytes := ⟨id⟩
instance {T : Type} : AsKeyBytes (Key T) := ⟨Key.bytes⟩

@[simp] theorem asRef_keyBytes (b : KeyBytes) : asRef b = b := rfl
@[simp] theorem asRef_key (k : Key T) : asRef k = k.bytes := rfl

def Key.ofPeerId (sha256 : List UInt8 → KeyBytes) (p : PeerId) : Key PeerId :=
  ⟨p, sha256 p.toBytes⟩

def Key.new (sha256 : List UInt8 → KeyBytes) (preimage : List UInt8) : Key (List UInt8) :=
  ⟨preimage, sha256 preimage⟩

/-- The SHA-256 digests of the byte strings `[0, 1, n]` with `n ≤ 51`, which are the ids
`PeerId.ofByte n`. -/
def sampleDigests : List U256 := [
    0xfaee935763044f124d7526755a5058a33f9402a595994d59eddd4be8546ff201,
    0xfbb59ed10e9cd4ff45a12c5bb92cbd80df984ba1fe60f26a30febf218e2f0f5e,
    0xae4b3280e56e2faf83f414a6e3dabe9d5fbe18976544c05fed121accb85b53fc,
    0xb744d600fbe3853702978ec726c166d26274fe7b09b2c600ddf2d7d895667b24,
    0x3f078d3b7e22c8944e5561909a236ae48b48a7ea42f28dd861c22b6f64d7e97b,
    0x3d34ed49a201cee28c868b9fe151aefe5ea9647fb5f26009375ef1ec0c0e128c,
    0x69167f7228d6aaaf4bd72dc810c2a7a105ee3a63a0610844c55bf24410216236,
    0xcbf21413513743688ab04352762e4321ef9a79a8521961ef574ae117e60240fd,
    0x5331fed036518120c7f345726537745c5929b8ea1fa37b99b2bb58f702671541,
    0xe1b2f3a12899afbb2722c8132bf1179a30d468e02686444d0ee1b893ef20090d,
    0xf3a958cc1b9248073cfc790ee66d3bb4ab2781096978ebcb1ae95cdfb6264908,
    0xbca917d32b52f0d854ac1a4575be15e556c78b2e04a2a2ea5f0b4fd1d97a9cd9,
    0x8c3069e898c86349d41d2ed08ef84dcd9c8c29bf4a5682d6fd63da56fbac0c8f,
    0x7a75bae3e46bda9d3859da8fd00cd9028b6adaa054fcb910f6b00a61e5b316c7,
    0x9c74b8637fb59b6a76cd7b01acf24963cbbb07ee6e44a202771693b4018837c8,
    0xbf64da88621c8e393126a8ac42b1d204022ae4c6f74f2f5f60bf8ee2256f0b85,
    0xeb58904b617945cdf4f33042169c462cd36cf1772a2229f06171fd899e920b7f,
    0x141b17a1777271c1bf1b017e68153781be5bb0e7d8b403450e0570739e9a1e13,
    0x949ac89488c3d8e990f453c7218d029efd77cc7bfd381cd1fe7679e2ecc8b802,
    0x651d57520d6fcd3af87d37fc375809ba173213b0b1330affc876ff3bd1d168e8,
    0xc07b83bf61f31f24db9a82319c72ad5d346fa63d2c51178af68ad15a9c5e636c,
    0x17b64a2ac59f5a6fad02ad9a976d744941ff5db9fce72c55d4a6d739bb671466,
    0x8f9c5ae935d09cd03eca7e9ff10e340241482b8f27415e23a09fe650675abb92,
    0xbebe7d524b93100a74498f5e396e23a95299218ad5175e898005fd326f3e2805,
    0xd8fecd6a03c3aa3c49975e50684ab945f271d3184235c9c95b6adc134c8a27be,
    0xbfb7944eba32ae02b2c5cf53d60e57a4a3fe42f388bcdcc8be9a5e5183598930,
    0xa7e2800c4fc71799f8c3ca4c849ee59f6f3f264402ee40514a259da2b4cf2c2f,
    0x3b9f38c45745c7d1751bb11e6bc2b06c0b0659cb61b79a917fe357efa5e44059,
    0x810d263e19f1c84c60a4f1e28b0c03b80dea316239e2adff7892fc34aefcf63d,
    0x21a3509317eaef0adcfa0e3492014fa4a8f31b99b6f42ecf1b3e79a84f90cdb9,
    0xa215c59cd4703e74bec9cea71792f1398d8b3a05e6c8e1ee8db65fd37f83d296,
    0xa0aaf4465f4c921a200c54eec4b487a4ad3df66118f96b84927067697ed7caac,
    0xa1bb2a842d54edb8942f95bedaf53923d2d788d698232cfb256571e9e8b10a86,
    0x688ba3f045a39899999e69b14134aa4530be8662ecaa9b656fa78d1816927d65,
    0x05b3abbe1b70c70ad2fab77dc3eb83b9b368dc88d2e45fac67329e34623e7c4d,
    0x95e87419425d43f01e1530e356d191c7d725bd99f047726d0dfe21a90b0f4efb,
    0xf74951cedf1fbdfa71857b015649b725f5086ad57aadd9a31b49528c907a576c,
    0x3028b7b197e3a29eb0a9985fd1628394ad279b0c48adb26f4ab9dc6e567de8f8,
    0x3472cb8e3eb33953caec97ad24275e3c6d2e338f3c4dd5e997ee5d542dc1a3d1,
    0x0361e26f9ab89a4bf47289b470b94c82db7bf21e008a8eaaff850edc9bce9062,
    0x41fdd502b49888ff342264b16c89ab3ea7342619440cbded23e6225aa1261b2c,
    0x2009624e21d7912703df2b04c8f32f112324ef85b8c4ee794f924aa2ad4cd666,
    0xe5d8594f7b3e3d1e734d22cc9b995c1b4a8a7386b74beb77d8f64f3b1ad518ee,
    0x1864b69a61a16f7f0bb64383194fbada1f29e8e04c67a6cbc4f8c3b0d8c1c808,
    0x23257e7758a9afd8d3a834e612d81a9cf674a9fd5e131a4308cfc8b1858597ee,
    0x35df19e2a5b338ce9b10e757f4c79fa161c707cf229b563c04e68ce7498da265,
    0x38854b040620ef2e10df1b9ea532a9b93681007c32f34b0ed6b730353c7faac3,
    0x53231c9733b486dcb26f03e119904468cf13058dd8970c7a47e66e7e9aae673d,
    0x5e2d26e1c33911cb072566cf820f79cac875cd5535c6fb5b7539ae029e59c0df,
    0xe92704641587bfbe51100e68006151563ff81e72faa454327b19e723da6cdfbd,
    0x019ac5b511f752364678bc2ad2099cfa02154d8def9f7a4ddddf90305c907723,
    0x69b6a6a69993caffa39768d43935e9e8ace1c83befaec51bdb4564feae049ce2]

def sampleSha256 : List UInt8 → KeyBytes
  | [0, 1, n] => ⟨sampleDigests.getD n.toNat 0⟩
  | _ => ⟨0⟩

namespace KeyBytes

def distance {U : Type} [AsKeyBytes U] (a : KeyBytes) (other : U) : Distance :=
  ⟨a.toU256 ^^^ (asRef other).toU256⟩

def forDistance (a : KeyBytes) (d : Distance) : KeyBytes := ⟨a.toU256 ^^^ d.val⟩

theorem distance_forDistance (a : KeyBytes) (d : Distance) : a.distance (a.forDistance d) = d := by
  simp only [distance, forDistance, asRef_keyBytes, ← BitVec.xor_assoc, BitVec.xor_self,
    BitVec.zero_xor]

theorem distance_comm (a b : KeyBytes) : a.distance b = b.distance a := by
  simp only [distance, asRef_keyBytes, BitVec.xor_comm]

theorem distance_self (a : KeyBytes) : (a.distance a).val = 0 := by
  simp [distance]

theorem distance_eq_zero_iff {a b : KeyBytes} : (a.distance b).val = 0 ↔ a = b := by
  simp only [distance, asRef_keyBytes]
  constructor
  · intro h
    cases a
    cases b
    simpa using BitVec.xor_eq_zero_iff.mp h
  · rintro rfl
    simp

theorem distance_xor (l t x : KeyBytes) :
    (t.distance x).val = (l.distance x).val ^^^ (l.distance t).val := by
  simp only [distance, asRef_keyBytes]
  ext i
  simp only [BitVec.getElem_xor]
  cases t.toU256[i] <;> cases l.toU256[i] <;> cases x.toU256[i] <;> rfl

theorem distance_left_injective (a : KeyBytes) :
    Function.Injective (fun b : KeyBytes => a.distance b) := by
  intro b c h
  have hval : a.toU256 ^^^ b.toU256 = a.toU256 ^^^ c.toU256 := congrArg Distance.val h
  cases b
  cases c
  simpa using hval

end KeyBytes

def checkedSub (a b : Nat) : Option Nat := if b ≤ a then some (a - b) else none

namespace Distance

instance : LinearOrder Distance :=
  LinearOrder.lift' (fun d => d.val.toNat) (fun a b h => by
    cases a
    cases b
    simpa [BitVec.toNat_inj] using h)

theorem le_iff {a b : Distance} : a ≤ b ↔ a.val.toNat ≤ b.val.toNat := Iff.rfl

def bit (d : Distance) (i : Nat) : Bool := d.val.getLsbD i

theorem bit_eq_testBit (d : Distance) (i : Nat) : d.bit i = d.val.toNat.testBit i := rfl

/-- The integer part of the base 2 logarithm, `None` at zero. -/
def ilog2 (d : Distance) : Option Nat := checkedSub (256 - d.val.clz.toNat) 1

theorem clz_toNat_lt {d : Distance} (h : d.val ≠ 0) : d.val.clz.toNat < 256 := by
  have hclz := BitVec.clz_lt_iff_ne_zero.mpr h
  simpa [BitVec.lt_def] using hclz

theorem ilog2_eq_none_iff {d : Distance} : d.ilog2 = none ↔ d.val = 0 := by
  simp only [ilog2, checkedSub, ite_eq_right_iff, reduceCtorEq, imp_false, not_le]
  constructor
  · intro h
    by_contra hne
    have := clz_toNat_lt hne
    omega
  · intro h
    rw [BitVec.clz_eq_iff_eq_zero.mpr h]
    simp

theorem ilog2_eq_some_iff {d : Distance} : d.ilog2 = some i ↔ TopBit d.val.toNat i := by
  by_cases hz : d.val = 0
  · rw [ilog2_eq_none_iff.mpr hz, hz]
    simp [TopBit]
  · have hlow := BitVec.two_pow_sub_clz_le_toNat_of_ne_zero (by decide) hz
    have hhigh := BitVec.toNat_lt_two_pow_sub_clz (x := d.val)
    have hclz := clz_toNat_lt hz
    have htop : TopBit d.val.toNat (256 - d.val.clz.toNat - 1) := by
      refine ⟨?_, ?_⟩
      · rwa [Nat.sub_right_comm]
      · rwa [show 256 - d.val.clz.toNat - 1 + 1 = 256 - d.val.clz.toNat by omega]
    have hlog : d.ilog2 = some (256 - d.val.clz.toNat - 1) := by
      simp only [ilog2, checkedSub]
      rw [if_pos (by omega)]
    rw [hlog, Option.some.injEq]
    constructor
    · rintro rfl
      exact htop
    · exact htop.unique

theorem ilog2_lt {d : Distance} (h : d.ilog2 = some i) : i < 256 := by
  simp only [ilog2, checkedSub] at h
  split at h
  · obtain rfl := Option.some.inj h
    omega
  · cases h

end Distance

end Libp2pRs.Kad
