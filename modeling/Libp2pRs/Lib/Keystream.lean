import Mathlib.Data.List.Basic

/-!
# Stream ciphers

A stream cipher combines the bytes of a text with the bytes of a keystream at the same positions.
The state of the cipher is the position it has reached.

* `mask_append`: a text may be given in pieces.
* `mask_mask`: the same keystream from the same position on restores the text.
-/

namespace Libp2pRs.Lib

def mask (ks : Nat → UInt8) : Nat → List UInt8 → List UInt8
  | _, [] => []
  | pos, b :: bs => (b ^^^ ks pos) :: mask ks (pos + 1) bs

/-- A keystream and the position reached in it. -/
structure StreamCipher where
  ks : Nat → UInt8
  pos : Nat

namespace StreamCipher

def apply (c : StreamCipher) (data : List UInt8) : List UInt8 × StreamCipher :=
  (mask c.ks c.pos data, { c with pos := c.pos + data.length })

end StreamCipher

variable {ks : Nat → UInt8}

@[simp] theorem mask_nil (pos : Nat) : mask ks pos [] = [] := rfl

theorem mask_append (pos : Nat) (data more : List UInt8) :
    mask ks pos (data ++ more) = mask ks pos data ++ mask ks (pos + data.length) more := by
  induction data generalizing pos with
  | nil => rfl
  | cons b bs ih =>
    rw [List.cons_append, mask, ih, mask, List.cons_append, List.length_cons]
    congr 3
    omega

theorem mask_mask (pos : Nat) (data : List UInt8) : mask ks pos (mask ks pos data) = data := by
  induction data generalizing pos with
  | nil => rfl
  | cons b bs ih => rw [mask, mask, ih, UInt8.xor_assoc, UInt8.xor_self, UInt8.xor_zero]

theorem mask_take (pos n : Nat) (data : List UInt8) :
    mask ks pos (data.take n) = (mask ks pos data).take n := by
  induction data generalizing pos n with
  | nil => rw [List.take_nil, mask_nil, List.take_nil]
  | cons b bs ih =>
    cases n with
    | zero => rfl
    | succ n => rw [List.take_succ_cons, mask, ih, mask, List.take_succ_cons]

end Libp2pRs.Lib
