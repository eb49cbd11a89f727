import Mathlib

/-!
# Peer identifiers

A `PeerId` is a multihash whose hash function is SHA2-256 or the identity. The bounds on the
digest are those of `PeerId::from_multihash` (an inlined key has at most
`MAX_INLINE_KEY_LENGTH` bytes) and of the 64 byte digest buffer of a `Multihash`.

The order is the derived one of the multihash: the code, then the size, then the digest.
-/

namespace Libp2pRs.Core

def maxInlineKeyLength : Nat := 42

inductive Code where
  | identity
  | sha2_256
  deriving DecidableEq, Repr

def Code.toNat : Code → Nat
  | .identity => 0x00
  | .sha2_256 => 0x12

theorem Code.toNat_injective : Function.Injective Code.toNat := by
  intro a b h
  cases a <;> cases b <;> first | rfl | simp [Code.toNat] at h

def Code.maxDigest : Code → Nat
  | .identity => maxInlineKeyLength
  | .sha2_256 => 64

structure PeerId where
  code : Code
  digest : List UInt8
  digest_le : digest.length ≤ code.maxDigest
  deriving DecidableEq, Repr

namespace PeerId

/-- `to_bytes`: the multihash code, the size and the digest. Both prefixes are below 128, so
each varint is one byte. -/
def toBytes (p : PeerId) : List UInt8 :=
  UInt8.ofNat p.code.toNat :: UInt8.ofNat p.digest.length :: p.digest

def base58Alphabet : List Char :=
  "123456789ABCDEFGHJKLMNPQRSTUVWXYZabcdefghijkmnopqrstuvwxyz".toList

/-- `to_base58`: a `1` for each leading zero byte, then the digits of the big-endian number. -/
def toBase58 (p : PeerId) : List Char :=
  let number := p.toBytes.foldl (fun n b => n * 256 + b.toNat) 0
  (p.toBytes.takeWhile (· = 0)).map (fun _ => '1') ++
    (Nat.digits 58 number).reverse.map (fun d => base58Alphabet.getD d '1')

/-- The sort key behind the derived `Ord` of the multihash. -/
def sortKey (p : PeerId) : ℕ ×ₗ (ℕ ×ₗ List ℕ) :=
  toLex (p.code.toNat, toLex (p.digest.length, p.digest.map UInt8.toNat))

theorem sortKey_injective : Function.Injective sortKey := by
  rintro ⟨c, d, hd⟩ ⟨c', d', hd'⟩ h
  simp only [sortKey, EmbeddingLike.apply_eq_iff_eq, Prod.mk.injEq] at h
  obtain ⟨hc, -, hdigest⟩ := h
  have hcc : c = c' := Code.toNat_injective hc
  have hdd : d = d' := List.map_injective_iff.mpr (fun _ _ => UInt8.toNat_inj.mp) hdigest
  subst hcc hdd
  rfl

instance : LinearOrder PeerId := LinearOrder.lift' sortKey sortKey_injective

def random (n : Nat) : PeerId :=
  ⟨.identity, (List.range 32).map (fun i => UInt8.ofNat (n / 256 ^ i)),
    by simp [Code.maxDigest, maxInlineKeyLength]⟩

/-- The peer whose identity multihash has the one byte digest `b`. -/
def ofByte (b : UInt8) : PeerId := ⟨.identity, [b], by simp [Code.maxDigest, maxInlineKeyLength]⟩

end PeerId

end Libp2pRs.Core
