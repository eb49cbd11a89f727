import Mathlib

/-!
# Random orders and numbers

A random number generator is a stream of numbers of which some have been used. A shuffle takes
the next number and reads from it the order of the list, so that every order of the list is the
outcome of some number. In the same way every byte, and every number of a range, is the outcome of
some number.

`sorted` lists a finite set in its order.
-/

namespace Libp2pRs.Lib

variable {α : Type*}

/-- Takes out the element at `code % length`, then goes on with the rest and `code / length`. -/
def permuteAux : Nat → Nat → List α → List α
  | 0, _, l => l
  | fuel + 1, code, l =>
    match l[code % l.length]? with
    | none => l
    | some a => a :: permuteAux fuel (code / l.length) (l.eraseIdx (code % l.length))

/-- The order of a list that a number stands for. -/
def permute (code : Nat) (l : List α) : List α := permuteAux l.length code l

theorem permuteAux_perm (fuel code : Nat) (l : List α) : (permuteAux fuel code l).Perm l := by
  induction fuel generalizing code l with
  | zero => exact List.Perm.refl l
  | succ fuel ih =>
    unfold permuteAux
    split
    · exact List.Perm.refl l
    · rename_i a ha
      obtain ⟨hlt, rfl⟩ := List.getElem?_eq_some_iff.mp ha
      exact ((ih _ _).cons _).trans (List.getElem_cons_eraseIdx_perm hlt)

structure Rng where
  draw : Nat → Nat
  used : Nat := 0

namespace Rng

def next (r : Rng) : Nat × Rng := (r.draw r.used, { r with used := r.used + 1 })

def shuffle (r : Rng) (l : List α) : List α × Rng := (permute r.next.1 l, r.next.2)

theorem shuffle_perm (r : Rng) (l : List α) : (r.shuffle l).1.Perm l := permuteAux_perm _ _ _

@[simp] theorem mem_shuffle {r : Rng} : a ∈ (r.shuffle l).1 ↔ a ∈ l :=
  (r.shuffle_perm l).mem_iff

theorem nodup_shuffle {r : Rng} : (r.shuffle l).1.Nodup ↔ l.Nodup :=
  (r.shuffle_perm l).nodup_iff

def byte (r : Rng) : UInt8 × Rng := (UInt8.ofNat r.next.1, r.next.2)

/-- A number that is at least `lower` and less than `upper`. There has to be one. -/
def range (r : Rng) (lower upper : Nat) : Option (Nat × Rng) :=
  if lower < upper then some (lower + r.next.1 % (upper - lower), r.next.2) else none

theorem range_of_lt (r : Rng) {lower upper : Nat} (h : lower < upper) :
    ∃ n r', r.range lower upper = some (n, r') ∧ lower ≤ n ∧ n < upper := by
  have hmod := Nat.mod_lt r.next.1 (Nat.sub_pos_of_lt h)
  exact ⟨_, _, if_pos h, by omega, by omega⟩

end Rng

section Sorted

variable [LinearOrder α]

theorem insertionSort_eq_of_perm {l l' : List α} (h : l.Perm l') :
    l.insertionSort (· ≤ ·) = l'.insertionSort (· ≤ ·) := by
  refine List.Perm.eq_of_pairwise (fun a b _ _ hab hba => le_antisymm hab hba)
    (List.pairwise_insertionSort _ l) (List.pairwise_insertionSort _ l') ?_
  exact ((List.perm_insertionSort _ l).trans h).trans (List.perm_insertionSort _ l').symm

def sorted (s : Finset α) : List α :=
  Quot.liftOn s.val (fun l => l.insertionSort (· ≤ ·)) (fun _ _ h => insertionSort_eq_of_perm h)

theorem coe_sorted (s : Finset α) : (sorted s : Multiset α) = s.val := by
  obtain ⟨⟨l⟩, hl⟩ := s
  exact Multiset.coe_eq_coe.mpr (List.perm_insertionSort _ l)

@[simp] theorem mem_sorted {a : α} : a ∈ sorted s ↔ a ∈ s := by
  rw [← Multiset.mem_coe, coe_sorted, Finset.mem_val]

theorem nodup_sorted (s : Finset α) : (sorted s).Nodup := by
  rw [← Multiset.coe_nodup, coe_sorted]
  exact s.nodup

end Sorted

end Libp2pRs.Lib
