import Mathlib

/-!
# Searching lists

A vector searched by key acts on the first match. When keys are unique that match is the only
one, and removing or rewriting it is a `filter` or a `map` over the whole list.
`nodup_flatMap_iff_filter` says when a concatenation of blocks repeats an element.
-/

namespace Libp2pRs.Lib

open List

variable {α β : Type*}

def AtMostOne (p : α → Bool) (l : List α) : Prop := l.Pairwise (fun a b => p a = true → p b = false)

theorem atMostOne_of_nodup_map (f : α → β) [DecidableEq β] (b : β)
    (h : (l.map f).Nodup) : AtMostOne (fun a => decide (f a = b)) l := by
  rw [List.Nodup, pairwise_map] at h
  refine h.imp ?_
  intro x y hne hx
  simp only [decide_eq_true_eq, decide_eq_false_iff_not] at hx ⊢
  exact fun hy => hne (hx.trans hy.symm)

theorem eraseP_eq_filter (h : AtMostOne p l) : l.eraseP p = l.filter (fun a => !p a) := by
  induction l with
  | nil => rfl
  | cons a l ih =>
    obtain ⟨ha, hl⟩ := pairwise_cons.mp h
    by_cases hp : p a = true
    · rw [eraseP_cons_of_pos hp, filter_cons_of_neg (by simp [hp]),
        filter_eq_self.mpr (fun b hb => by simp [ha b hb hp])]
    · rw [eraseP_cons_of_neg hp, filter_cons_of_pos (by simp [hp]), ih hl]

theorem modify_findIdx_eq_map (f : α → α) (h : AtMostOne p l) : (match l.findIdx? p with
      | some i => l.modify i f | none => l) = l.map (fun a => if p a then f a else a) := by
  induction l with
  | nil => rfl
  | cons a l ih =>
    obtain ⟨ha, hl⟩ := pairwise_cons.mp h
    rw [findIdx?_cons]
    by_cases hp : p a = true
    · have hrest : l.map (fun a => if p a then f a else a) = l :=
        map_congr_left (g := id) (fun b hb => by simp [ha b hb hp]) |>.trans (map_id l)
      simp [hp, hrest]
    · simp only [hp, map_cons, if_neg, Bool.false_eq_true, not_false_eq_true]
      rw [← ih hl]
      cases l.findIdx? p with
      | none => rfl
      | some i => rfl

/-- An element of `List.finRange n` splits the list at its own value. -/
theorem finRange_split {pre post : List (Fin n)} (h : finRange n = pre ++ j :: post) :
    pre = (finRange n).take j ∧ post = (finRange n).drop (j + 1) := by
  have hlen : pre.length = j.val := by
    have hget : (finRange n)[pre.length]? = some j := by simp [h]
    obtain ⟨hlt, hj⟩ := List.getElem?_eq_some_iff.mp hget
    simpa using congrArg Fin.val hj
  rw [h, ← hlen]
  simp

theorem mem_take_finRange : j ∈ (finRange n).take k ↔ j.val < k := by
  rw [mem_take_iff_getElem]
  constructor
  · rintro ⟨m, hm, hget⟩
    have : m = j.val := by simpa using congrArg Fin.val hget
    omega
  · intro h
    exact ⟨j.val, by simp; omega, by simp⟩

theorem mem_drop_finRange : j ∈ (finRange n).drop k ↔ k ≤ j.val := by
  rw [mem_drop_iff_getElem]
  constructor
  · rintro ⟨m, hm, hget⟩
    have : k + m = j.val := by simpa using congrArg Fin.val hget
    omega
  · intro h
    exact ⟨j.val - k, by simp; omega, Fin.ext (by simp; omega)⟩

/-- Blocks without repetition, pairwise disjoint for different indices: their concatenation
repeats an element exactly when a nonempty block is listed twice. -/
theorem nodup_flatMap_iff_filter {l : List α} {f : α → List β} (hf : ∀ i, (f i).Nodup)
    (hdisj : ∀ i j, i ≠ j → List.Disjoint (f i) (f j)) :
    (l.flatMap f).Nodup ↔ (l.filter (fun i => !(f i).isEmpty)).Nodup := by
  rw [nodup_flatMap, and_iff_right (fun i _ => hf i), List.Nodup, pairwise_filter]
  constructor <;> refine fun h => h.imp ?_
  · intro i j hij hi _ rfl
    obtain ⟨b, hb⟩ := exists_mem_of_ne_nil (f i) (by simpa using hi)
    exact hij hb hb
  · intro i j hij
    by_cases heq : i = j
    · subst heq
      by_cases hempty : f i = []
      · simp [Function.onFun, hempty]
      · exact absurd rfl (hij (by simpa using hempty) (by simpa using hempty))
    · exact hdisj i j heq

/-- A list in which one element stands twice in a row has no repetition in its first `k` elements
exactly when the second copy is not among them. -/
theorem nodup_take_twice_iff (h : (a ++ b :: c).Nodup) (k : Nat) :
    ((a ++ b :: b :: c).take k).Nodup ↔ k < a.length + 2 := by
  constructor
  · intro hnd
    by_contra hk
    have hpre : a ++ [b, b] <+: (a ++ b :: b :: c).take k := by
      refine List.prefix_take_iff.mpr ⟨⟨c, by simp⟩, ?_⟩
      simp only [length_append, length_cons, length_nil]
      omega
    have := hnd.sublist hpre.sublist
    simp [nodup_append] at this
  · intro hk
    have hpre : (a ++ b :: b :: c).take k <+: a ++ [b] := by
      have : (a ++ b :: b :: c).take k = (a ++ [b]).take k := by
        rw [take_append, take_append]
        congr 1
        obtain hj | hj : k - a.length = 0 ∨ k - a.length = 1 := by omega
        · simp [hj]
        · simp [hj]
      rw [this]
      exact take_prefix _ _
    refine List.Nodup.sublist hpre.sublist (h.sublist ?_)
    exact List.Sublist.append_left (singleton_sublist.mpr mem_cons_self) a

end Libp2pRs.Lib
