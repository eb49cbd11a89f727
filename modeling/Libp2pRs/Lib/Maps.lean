import Mathlib

/-!
# Ordered maps with lawful keys

The lookup lemmas of `Std.TreeMap` speak of `cmp k a = .eq`. For a lawful comparison that is
`k = a`, and this is the form the models use. A map to finite sets stands for a relation, `pairs`;
the updates of such a map are stated as changes of the relation.
-/

namespace Libp2pRs.Lib

instance lawfulEqOrd {α : Type*} [LinearOrder α] : Std.LawfulEqOrd α := ⟨compare_eq_iff_eq.mp⟩

open Std

variable {α β : Type*} {cmp : α → α → Ordering} [TransCmp cmp]

theorem setOf_mem_modify (m : TreeMap α β cmp) (k : α) (f : β → β) :
    {a | a ∈ m.modify k f} = {a | a ∈ m} :=
  Set.ext fun _ => TreeMap.mem_modify

theorem values_eq_map_toList {α β : Type*} {cmp : α → α → Ordering} (m : TreeMap α β cmp) :
    m.values = m.toList.map Prod.snd := by
  unfold TreeMap.values TreeMap.toList DTreeMap.values DTreeMap.Const.toList
  rw [DTreeMap.Internal.Impl.values_eq_map_snd,
    DTreeMap.Internal.Impl.Const.toList_eq_toListModel_map, List.map_map]
  rfl

def pairs {δ : Type*} (m : TreeMap α (Finset δ) cmp) : Set (α × δ) := {x | x.2 ∈ m[x.1]?.getD ∅}

theorem pairs_empty : pairs (∅ : TreeMap α (Finset δ) cmp) = ∅ := by
  ext x
  simp [pairs]

theorem mem_values [LawfulEqCmp cmp] {m : TreeMap α β cmp} :
    b ∈ m.values ↔ ∃ a : α, m[a]? = some b := by
  simp [values_eq_map_toList, TreeMap.mem_toList_iff_getElem?_eq_some]

variable [LawfulEqCmp cmp]

theorem setOf_mem_insert (m : TreeMap α β cmp) (k : α) (v : β) :
    {a | a ∈ m.insert k v} = insert k {a | a ∈ m} := by
  ext a
  simp only [Set.mem_ofPred_eq, Set.mem_insert_iff, TreeMap.mem_insert,
    LawfulEqCmp.compare_eq_iff_eq]
  rw [eq_comm]

theorem setOf_mem_erase (m : TreeMap α β cmp) (k : α) :
    {a | a ∈ m.erase k} = {a | a ∈ m} \ {k} := by
  ext a
  simp only [Set.mem_ofPred_eq, Set.mem_sdiff, Set.mem_singleton_iff, TreeMap.mem_erase, ne_eq,
    LawfulEqCmp.compare_eq_iff_eq]
  rw [and_comm, eq_comm]

variable [DecidableEq α]

theorem get_insert (m : TreeMap α β cmp) (k a : α) (v : β) :
    (m.insert k v)[a]? = if k = a then some v else m[a]? := by
  simp only [TreeMap.getElem?_insert, LawfulEqCmp.compare_eq_iff_eq]

theorem get_erase (m : TreeMap α β cmp) (k a : α) :
    (m.erase k)[a]? = if k = a then none else m[a]? := by
  simp only [TreeMap.getElem?_erase, LawfulEqCmp.compare_eq_iff_eq]

theorem get_modify (m : TreeMap α β cmp) (k a : α) (f : β → β) :
    (m.modify k f)[a]? = if k = a then m[a]?.map f else m[a]? := by
  simp only [TreeMap.getElem?_modify, LawfulEqCmp.compare_eq_iff_eq]
  split
  · rename_i h
    rw [h]
  · rfl

theorem get_alter (m : TreeMap α β cmp) (k a : α) (f : Option β → Option β) :
    (m.alter k f)[a]? = if k = a then f m[a]? else m[a]? := by
  simp only [TreeMap.getElem?_alter, LawfulEqCmp.compare_eq_iff_eq]
  split
  · rename_i h
    rw [h]
  · rfl

theorem mem_alter_some (m : TreeMap α β cmp) (k a : α) (f : Option β → β) :
    a ∈ m.alter k (fun o => some (f o)) ↔ k = a ∨ a ∈ m := by
  rw [TreeMap.mem_iff_isSome_getElem?, TreeMap.mem_iff_isSome_getElem?, get_alter]
  by_cases h : k = a
  · simp [h]
  · simp [h]

/-! ## Maps to finite sets -/

section Pairs

variable {δ : Type*}

theorem pairs_insert_empty (m : TreeMap α (Finset δ) cmp) (k : α) :
    pairs (m.insert k ∅) = pairs m \ {x | x.1 = k} := by
  ext ⟨a, b⟩
  simp only [pairs, get_insert, Set.mem_ofPred_eq, Set.mem_sdiff]
  by_cases h : k = a
  · simp [h]
  · simp [h, Ne.symm h]

theorem pairs_erase (m : TreeMap α (Finset δ) cmp) (k : α) :
    pairs (m.erase k) = pairs m \ {x | x.1 = k} := by
  ext ⟨a, b⟩
  simp only [pairs, get_erase, Set.mem_ofPred_eq, Set.mem_sdiff]
  by_cases h : k = a
  · simp [h]
  · simp [h, Ne.symm h]

theorem mem_pairs_alter (m : TreeMap α (Finset δ) cmp) (k : α) (f : Finset δ → Finset δ)
    (x : α × δ) :
    x ∈ pairs (m.alter k (fun o => some (f (o.getD ∅)))) ↔
      x.2 ∈ if x.1 = k then f (m[k]?.getD ∅) else m[x.1]?.getD ∅ := by
  simp only [pairs, get_alter, Set.mem_ofPred_eq]
  by_cases h : k = x.1
  · simp [h]
  · simp [h, Ne.symm h]

variable [DecidableEq δ]

theorem pairs_modify_erase (m : TreeMap α (Finset δ) cmp) (k : α) (d : δ) :
    pairs (m.modify k (·.erase d)) = pairs m \ {(k, d)} := by
  ext ⟨a, b⟩
  simp only [pairs, get_modify, Set.mem_ofPred_eq, Set.mem_sdiff, Set.mem_singleton_iff,
    Prod.mk.injEq]
  by_cases h : k = a
  · subst h
    cases m[k]? <;> simp [and_comm]
  · simp [h, Ne.symm h]

theorem pairs_modify_insert {m : TreeMap α (Finset δ) cmp} (hk : k ∈ m) (d : δ) :
    pairs (m.modify k (insert d)) = insert (k, d) (pairs m) := by
  ext ⟨a, b⟩
  simp only [pairs, get_modify, Set.mem_ofPred_eq, Set.mem_insert_iff, Prod.mk.injEq]
  by_cases h : k = a
  · subst h
    simp [TreeMap.getElem?_eq_some_getElem hk]
  · simp [h, Ne.symm h]

theorem pairs_alter_union (m : TreeMap α (Finset δ) cmp) (k : α) (t : Finset δ) :
    pairs (m.alter k (fun o => some (o.getD ∅ ∪ t))) =
      pairs m ∪ {x | x.1 = k ∧ x.2 ∈ t} := by
  ext ⟨a, b⟩
  rw [mem_pairs_alter m k (· ∪ t)]
  by_cases h : a = k
  · simp [h, pairs]
  · simp [h, pairs]

theorem pairs_alter_insert (m : TreeMap α (Finset δ) cmp) (k : α) (d : δ) :
    pairs (m.alter k (fun o => some (insert d (o.getD ∅)))) = insert (k, d) (pairs m) := by
  ext ⟨a, b⟩
  rw [mem_pairs_alter m k (insert d)]
  by_cases h : a = k
  · simp [h, pairs]
  · simp [h, pairs]

theorem pairs_alter_erase (m : TreeMap α (Finset δ) cmp) (k : α) (d : δ) :
    pairs (m.alter k (fun o => some ((o.getD ∅).erase d))) = pairs m \ {(k, d)} := by
  ext ⟨a, b⟩
  rw [mem_pairs_alter m k (·.erase d)]
  by_cases h : a = k
  · simp [h, pairs, and_comm]
  · simp [h, pairs]

end Pairs

end Libp2pRs.Lib
