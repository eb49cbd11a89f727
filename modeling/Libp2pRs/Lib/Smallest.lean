import Mathlib

/-!
# The smallest elements of a finite set

`smallest k s` lists the `k` smallest elements of `s` in increasing order, all of them if `s`
has fewer. Inserting an element into that list at its place and cutting the list at `k` again
gives the smallest elements of the larger set, so a list that is kept this way never needs the
elements that it dropped.

* `mem_smallest`: an element is listed when fewer than `k` elements of the set are below it.
-/

namespace Libp2pRs.Lib

open List

variable {ι : Type*} [LinearOrder ι]

/-- The `k` smallest elements of `s`, in increasing order. -/
def smallest (k : Nat) (s : Finset ι) : List ι := s.sort.take k

@[simp] theorem smallest_empty (k : Nat) : smallest k (∅ : Finset ι) = [] := by
  simp [smallest]

@[simp] theorem length_smallest (k : Nat) (s : Finset ι) :
    (smallest k s).length = min k s.card := by
  simp [smallest]

theorem pairwise_smallest (k : Nat) (s : Finset ι) : (smallest k s).Pairwise (· < ·) :=
  (s.sortedLT_sort.pairwise).sublist (take_sublist _ _)

theorem mem_take_iff_of_increasing {l : List ι} (hl : l.Pairwise (· < ·)) (k : Nat) (a : ι) :
    a ∈ l.take k ↔ a ∈ l ∧ (l.filter (· < a)).length < k := by
  induction l generalizing k with
  | nil => simp
  | cons b l ih =>
    obtain ⟨hb, hl⟩ := pairwise_cons.mp hl
    cases k with
    | zero => simp
    | succ k =>
      rw [take_succ_cons, mem_cons, mem_cons, ih hl k]
      by_cases hab : a = b
      · have hnone : l.filter (· < a) = [] :=
          filter_eq_nil_iff.mpr (fun c hc => by simpa [hab] using (hb c hc).le)
        simp [hab ▸ hnone, hab]
      · by_cases ha : a ∈ l
        · simp [hab, ha, hb a ha]
        · simp [hab, ha]

theorem mem_smallest {a : ι} : a ∈ smallest k s ↔ a ∈ s ∧ (s.filter (· < a)).card < k := by
  have hcard : (s.filter (· < a)).card = (s.sort.filter (· < a)).length := by
    rw [← toFinset_card_of_nodup ((s.sort_nodup _).filter _), toFinset_filter,
      Finset.sort_toFinset]
    simp
  rw [hcard, smallest, mem_take_iff_of_increasing s.sortedLT_sort.pairwise, Finset.mem_sort]

theorem take_orderedInsert_take (k : Nat) (a : ι) (l : List ι) :
    ((l.take k).orderedInsert (· ≤ ·) a).take k = (l.orderedInsert (· ≤ ·) a).take k := by
  induction l generalizing k with
  | nil => simp
  | cons b l ih =>
    cases k with
    | zero => simp
    | succ k =>
      rw [take_succ_cons]
      by_cases hab : a ≤ b
      · rw [orderedInsert_cons_of_le _ _ hab, orderedInsert_cons_of_le _ _ hab]
        cases k with
        | zero => simp
        | succ k => simp [take_take]
      · rw [orderedInsert_of_not_le _ _ hab, orderedInsert_of_not_le _ _ hab]
        simpa using ih k

theorem orderedInsert_sort {s : Finset ι} (ha : a ∉ s) :
    s.sort.orderedInsert (· ≤ ·) a = (insert a s).sort := by
  have hperm : (s.sort.orderedInsert (· ≤ ·) a).Perm (a :: s.sort) :=
    perm_orderedInsert _ _ _
  have hnodup : (s.sort.orderedInsert (· ≤ ·) a).Nodup :=
    hperm.nodup_iff.mpr (nodup_cons.mpr ⟨by simpa using ha, s.sort_nodup _⟩)
  have hsort : (s.sort.orderedInsert (· ≤ ·) a).Pairwise (· ≤ ·) :=
    (s.pairwise_sort (· ≤ ·)).orderedInsert a _
  rw [← (toFinset_sort (· ≤ ·) hnodup).mpr hsort, toFinset_eq_of_perm _ _ hperm]
  simp

theorem orderedInsert_of_forall_lt {a : ι} (h : ∀ b ∈ l, b < a) :
    l.orderedInsert (· ≤ ·) a = l ++ [a] := by
  induction l with
  | nil => rfl
  | cons b l ih =>
    rw [orderedInsert_of_not_le _ _ (h b mem_cons_self).not_ge,
      ih (fun c hc => h c (mem_cons_of_mem b hc)), cons_append]

/-- One insertion. An element of the set that is not listed was cut off before; it goes behind
all of the `k` that are listed and is cut off again. -/
theorem take_orderedInsert_smallest {k : Nat} {s t : Finset ι}
    (ha : a ∉ smallest k s) (ht : ∀ b, b ∈ t ↔ b = a ∨ b ∈ s) :
    ((smallest k s).orderedInsert (· ≤ ·) a).take k = smallest k t := by
  obtain rfl : t = insert a s := by
    ext b
    rw [ht b, Finset.mem_insert]
  by_cases hs : a ∈ s
  · have hbelow : ∀ b ∈ s.sort.take k, b < a := by
      have hdrop : a ∈ s.sort.drop k := by
        have hmem : a ∈ s.sort.take k ++ s.sort.drop k := by
          rw [take_append_drop]
          exact (Finset.mem_sort _).mpr hs
        exact (mem_append.mp hmem).resolve_left ha
      have hpair : (s.sort.take k ++ s.sort.drop k).Pairwise (· < ·) := by
        rw [take_append_drop]
        exact s.sortedLT_sort.pairwise
      exact fun b hb => (pairwise_append.mp hpair).2.2 b hb a hdrop
    have hfull : k ≤ (s.sort.take k).length := by
      by_contra hshort
      apply ha
      rw [smallest, take_of_length_le (by rw [length_take] at hshort; omega)]
      exact (Finset.mem_sort _).mpr hs
    rw [Finset.insert_eq_of_mem hs, smallest, orderedInsert_of_forall_lt hbelow,
      take_append_of_le_length hfull, take_take, min_self]
  · rw [smallest, take_orderedInsert_take, orderedInsert_sort hs, smallest]

end Libp2pRs.Lib
