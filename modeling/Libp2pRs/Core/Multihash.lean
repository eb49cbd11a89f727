import Libp2pRs.Lib.Codec
import Libp2pRs.Core.PeerId

/-!
# Multihashes, and peer ids in binary form

A `Multihash` is the code of a hash function and a digest of at most 64 bytes. Its binary form
is the code, the size of the digest and the digest.
-/

namespace Libp2pRs.Core

open Lib Lib.Parser

structure Multihash where
  code : UInt64
  digest : List UInt8
  digest_le : digest.length ≤ 64
  deriving DecidableEq, Repr

namespace Multihash

def toBytes (m : Multihash) : List UInt8 :=
  Varint.encode m.code.toNat ++ Varint.encode m.digest.length ++ m.digest

def read : Parser Unit Multihash := do
  let code ← varint (fun _ => ()) 10 (2 ^ 64)
  let size ← varint (fun _ => ()) 10 (2 ^ 64)
  let digest ← take () size
  if h : digest.length ≤ 64 then return ⟨UInt64.ofNat code, digest, h⟩
  else throw ()

def fromBytes (bytes : List UInt8) : Option Multihash :=
  match read.run bytes with
  | .ok (m, []) => some m
  | _ => none

private theorem limit_le : 2 ^ 64 ≤ 128 ^ (9 + 1) := by decide

theorem exactOn_read : ExactOn (fun _ => True) read toBytes := by
  intro bs r m
  simp only [read, run_bind_eq_ok, exactOn_varint _ limit_le, exactOn_take () _, id, true_and]
  constructor
  · rintro ⟨code, -, ⟨hcode, rfl⟩, size, -, ⟨-, rfl⟩, digest, s, ⟨rfl, rfl⟩, h⟩
    split at h
    case isTrue hle =>
      obtain ⟨rfl, rfl⟩ := run_pure_eq_ok.mp h
      have hround : (UInt64.ofNat code).toNat = code := UInt64.toNat_ofNat_of_lt' hcode
      simp only [toBytes, hround, List.append_assoc]
    case isFalse => exact absurd h run_throw_ne_ok
  · rintro rfl
    refine ⟨m.code.toNat, _, ⟨m.code.toNat_lt, by rw [toBytes, List.append_assoc, List.append_assoc]⟩,
      m.digest.length, _, ⟨?_, rfl⟩, m.digest, r, ⟨rfl, rfl⟩, ?_⟩
    · have := m.digest_le
      omega
    · rw [dif_pos m.digest_le]
      exact run_pure_eq_ok.mpr ⟨by rw [UInt64.ofNat_toNat], rfl⟩

theorem fromBytes_eq_some_iff : fromBytes bytes = some m ↔ bytes = m.toBytes := by
  unfold fromBytes
  constructor
  · intro h
    split at h
    case h_1 m' hread =>
      cases h
      simpa using (exactOn_read.mp hread).2
    case h_2 => cases h
  · rintro rfl
    have hread : read.run m.toBytes = .ok (m, []) := by
      simpa using exactOn_read.read (a := m) trivial []
    rw [hread]

end Multihash

namespace PeerId

def multihash (p : PeerId) : Multihash :=
  ⟨UInt64.ofNat p.code.toNat, p.digest, by
    have := p.digest_le
    cases h : p.code <;> simp only [h, Code.maxDigest, maxInlineKeyLength] at this <;> omega⟩

def fromMultihash (m : Multihash) : Option PeerId :=
  if m.code = 0x12 then some ⟨.sha2_256, m.digest, m.digest_le⟩
  else if h : m.code = 0x00 ∧ m.digest.length ≤ maxInlineKeyLength then
    some ⟨.identity, m.digest, h.2⟩
  else none

def fromBytes (bytes : List UInt8) : Option PeerId := do fromMultihash (← Multihash.fromBytes bytes)

theorem fromMultihash_eq_some_iff : fromMultihash m = some p ↔ m = p.multihash := by
  constructor
  · intro h
    obtain ⟨code, digest, hle⟩ := m
    unfold fromMultihash at h
    dsimp only at h
    split at h
    case isTrue hsha =>
      cases h
      subst hsha
      rfl
    case isFalse =>
      split at h
      case isTrue hid =>
        cases h
        obtain ⟨rfl, hle'⟩ := hid
        rfl
      case isFalse => cases h
  · rintro rfl
    obtain ⟨code, digest, hle⟩ := p
    cases code with
    | identity => exact dif_pos ⟨rfl, hle⟩
    | sha2_256 => rfl

theorem toBytes_multihash (p : PeerId) : p.multihash.toBytes = p.toBytes := by
  have hcode : Varint.encode (UInt64.ofNat p.code.toNat).toNat = [UInt8.ofNat p.code.toNat] := by
    cases p.code <;> rfl
  have hsize : Varint.encode p.digest.length = [UInt8.ofNat p.digest.length] :=
    Varint.encode_of_lt (Nat.lt_of_le_of_lt p.multihash.digest_le (by decide))
  simp only [Multihash.toBytes, multihash, hcode, hsize, toBytes, List.cons_append,
    List.nil_append]

theorem fromBytes_eq_some_iff : fromBytes bytes = some p ↔ bytes = p.toBytes := by
  simp only [fromBytes, Option.bind_eq_bind, Option.bind_eq_some_iff,
    Multihash.fromBytes_eq_some_iff, fromMultihash_eq_some_iff]
  constructor
  · rintro ⟨m, rfl, rfl⟩
    exact p.toBytes_multihash
  · rintro rfl
    exact ⟨p.multihash, p.toBytes_multihash.symm, rfl⟩

end PeerId

end Libp2pRs.Core
