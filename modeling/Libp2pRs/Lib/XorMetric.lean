import Mathlib

/-!
# The order of xor distances

`TopBit n i` says that `i` is the position of the highest set bit of `n`. The order of
`m ^^^ d` and `n ^^^ d` is decided at the higher of the two top bits of `m` and `n`: above it
both agree with `d`, and at it only one of them flips the bit of `d`.
-/

namespace Libp2pRs.Lib

/-- The highest set bit of `n` is at position `i`. -/
def TopBit (n i : Nat) : Prop := 2 ^ i ≤ n ∧ n < 2 ^ (i + 1)

theorem TopBit.testBit_self (h : TopBit n i) : n.testBit i = true := by
  rw [Nat.testBit_eq_decide_div_mod_eq, decide_eq_true_eq]
  have hdiv : n / 2 ^ i = 1 := by
    apply Nat.div_eq_of_lt_le
    · simpa using h.1
    · have := h.2
      omega
  rw [hdiv]

theorem TopBit.testBit_above (h : TopBit n i) (hij : i < j) : n.testBit j = false :=
  Nat.testBit_lt_two_pow (h.2.trans_le (Nat.pow_le_pow_right (by omega) hij))

theorem TopBit.unique (hi : TopBit n i) (hj : TopBit n j) : i = j := by
  rcases Nat.lt_trichotomy i j with h | h | h
  · simpa [hj.testBit_self] using hi.testBit_above h
  · exact h
  · simpa [hi.testBit_self] using hj.testBit_above h

theorem xor_lt_xor_of_top_gt (hm : TopBit m i) (hn : TopBit n j)
    (hji : j < i) (hd : d.testBit i = true) : m ^^^ d < n ^^^ d := by
  apply Nat.lt_of_testBit i
  · simp [Nat.testBit_xor, hm.testBit_self, hd]
  · simp [Nat.testBit_xor, hn.testBit_above hji, hd]
  · intro k hk
    simp [Nat.testBit_xor, hm.testBit_above hk, hn.testBit_above (hji.trans hk)]

theorem xor_lt_xor_of_top_lt (hm : TopBit m i) (hn : TopBit n j)
    (hij : i < j) (hd : d.testBit j = false) : m ^^^ d < n ^^^ d := by
  apply Nat.lt_of_testBit j
  · simp [Nat.testBit_xor, hm.testBit_above hij, hd]
  · simp [Nat.testBit_xor, hn.testBit_self, hd]
  · intro k hk
    simp [Nat.testBit_xor, hm.testBit_above (hij.trans hk), hn.testBit_above hk]

end Libp2pRs.Lib
