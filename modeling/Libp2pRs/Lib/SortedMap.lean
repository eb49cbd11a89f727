import Mathlib

/-!
# Maps in key order

A `BTreeMap` is its list of entries, strictly sorted by key. The code that walks such a map in
key order, and changes the first few values it meets, is then a walk over a list.

Every operation is described by the entries of its result: `mem_orInsert`, `mem_modify`,
`mem_updateFirst`.
-/

namespace Libp2pRs.Lib

open List

/-- A map as a list of entries with strictly increasing keys. -/
structure SortedMap (K V : Type*) [LinearOrder K] where
  entries : List (K × V)
  sorted : entries.Pairwise (fun a b => a.1 < b.1)

namespace SortedMap

variable {K V : Type*} [LinearOrder K]

def empty : SortedMap K V := ⟨[], .nil⟩

def keys (m : SortedMap K V) : List K := m.entries.map Prod.fst

def values (m : SortedMap K V) : List V := m.entries.map Prod.snd

def get (m : SortedMap K V) (k : K) : Option V :=
  (m.entries.find? (fun e => e.1 = k)).map Prod.snd

def insertEntry (k : K) (v : V) : List (K × V) → List (K × V)
  | [] => [(k, v)]
  | e :: l =>
    if k < e.1 then (k, v) :: e :: l
    else if k = e.1 then e :: l
    else e :: insertEntry k v l

theorem mem_insertEntry {k : K} {v : V} {l : List (K × V)} {e : K × V}
    (hl : l.Pairwise (fun a b => a.1 < b.1)) :
    e ∈ insertEntry k v l ↔ e ∈ l ∨ (e = (k, v) ∧ k ∉ l.map Prod.fst) := by
  induction l with
  | nil => simp [insertEntry]
  | cons a l ih =>
    obtain ⟨ha, hl'⟩ := pairwise_cons.mp hl
    unfold insertEntry
    by_cases hlt : k < a.1
    · have hk : k ∉ (a :: l).map Prod.fst := by
        rw [map_cons, mem_cons]
        rintro (h | h)
        · exact absurd h (ne_of_lt hlt)
        · obtain ⟨b, hb, rfl⟩ := mem_map.mp h
          exact absurd (hlt.trans (ha b hb)) (lt_irrefl _)
      rw [if_pos hlt, mem_cons]
      simp only [hk, not_false_eq_true, and_true]
      exact or_comm
    · rw [if_neg hlt]
      by_cases heq : k = a.1
      · simp [heq]
      · rw [if_neg heq, mem_cons, ih hl', mem_cons, map_cons, mem_cons]
        simp only [heq, false_or, or_assoc]

theorem insertEntry_sorted {k : K} {v : V} {l : List (K × V)}
    (hl : l.Pairwise (fun a b => a.1 < b.1)) :
    (insertEntry k v l).Pairwise (fun a b => a.1 < b.1) := by
  induction l with
  | nil => simp [insertEntry]
  | cons a l ih =>
    obtain ⟨ha, hl'⟩ := pairwise_cons.mp hl
    unfold insertEntry
    split
    · rename_i hlt
      refine pairwise_cons.mpr ⟨?_, hl⟩
      intro b hb
      rcases mem_cons.mp hb with rfl | hb
      · exact hlt
      · exact hlt.trans (ha b hb)
    · split
      · exact hl
      · rename_i hlt hne
        refine pairwise_cons.mpr ⟨?_, ih hl'⟩
        intro b hb
        rcases (mem_insertEntry hl').mp hb with hb | ⟨rfl, -⟩
        · exact ha b hb
        · exact lt_of_le_of_ne (not_lt.mp hlt) (Ne.symm hne)

def orInsert (m : SortedMap K V) (k : K) (v : V) : SortedMap K V :=
  ⟨insertEntry k v m.entries, insertEntry_sorted m.sorted⟩

def mapEntries (m : SortedMap K V) (f : K → V → V) : SortedMap K V :=
  ⟨m.entries.map (fun e => (e.1, f e.1 e.2)), by
    rw [List.pairwise_map]
    exact m.sorted⟩

def modify (m : SortedMap K V) (k : K) (f : V → V) : SortedMap K V :=
  m.mapEntries (fun k' v => if k' = k then f v else v)

def first (m : SortedMap K V) (p : V → Bool) (n : Nat) : List (K × V) :=
  (m.entries.filter (fun e => p e.2)).take n

/-- `values_mut().filter(p).take(n).for_each(..)`. -/
def updateFirst (m : SortedMap K V) (p : V → Bool) (n : Nat) (f : V → V) : SortedMap K V :=
  m.mapEntries (fun k v => if k ∈ (m.first p n).map Prod.fst then f v else v)

/-! ## Entries -/

variable {m : SortedMap K V} {k : K} {v : V}

theorem value_unique (hv : (k, v) ∈ m.entries) (hw : (k, w) ∈ m.entries) : v = w := by
  have hinj : ∀ a ∈ m.entries, ∀ b ∈ m.entries, a.1 = b.1 → a = b := by
    have hnd : (m.entries.map Prod.fst).Nodup := by
      rw [List.Nodup, pairwise_map]
      exact m.sorted.imp ne_of_lt
    exact fun a ha b hb h => inj_on_of_nodup_map hnd ha hb h
  exact congrArg Prod.snd (hinj _ hv _ hw rfl)

theorem get_eq_some_iff : m.get k = some v ↔ (k, v) ∈ m.entries := by
  unfold get
  rw [Option.map_eq_some_iff]
  constructor
  · rintro ⟨e, he, rfl⟩
    have hk : e.1 = k := by simpa using find?_some he
    have hmem := mem_of_find?_eq_some he
    rwa [← hk]
  · intro hmem
    cases he : m.entries.find? (fun e => e.1 = k) with
    | none =>
      have hne := find?_eq_none.mp he _ hmem
      simp at hne
    | some e =>
      have hk : e.1 = k := by simpa using find?_some he
      have he' := mem_of_find?_eq_some he
      refine ⟨e, rfl, ?_⟩
      rw [← hk] at hmem
      exact value_unique he' hmem

theorem mem_values : w ∈ m.values ↔ ∃ k, (k, w) ∈ m.entries := by
  simp [values]

theorem mem_orInsert {e : K × V} :
    e ∈ (m.orInsert k v).entries ↔ e ∈ m.entries ∨ (e = (k, v) ∧ k ∉ m.keys) :=
  mem_insertEntry m.sorted

theorem mem_mapEntries :
    (k, w) ∈ (m.mapEntries f).entries ↔ ∃ v, (k, v) ∈ m.entries ∧ w = f k v := by
  simp only [mapEntries, mem_map, Prod.mk.injEq]
  constructor
  · rintro ⟨⟨a, b⟩, he, rfl, rfl⟩
    exact ⟨b, he, rfl⟩
  · rintro ⟨v, hv, rfl⟩
    exact ⟨(k, v), hv, rfl, rfl⟩

theorem mem_modify : (k, w) ∈ (m.modify k' f).entries ↔
      ((k, w) ∈ m.entries ∧ k ≠ k') ∨ ∃ v, (k, v) ∈ m.entries ∧ k = k' ∧ w = f v := by
  rw [modify, mem_mapEntries]
  constructor
  · rintro ⟨v, hv, rfl⟩
    split
    · rename_i h
      exact Or.inr ⟨v, hv, h, rfl⟩
    · rename_i h
      exact Or.inl ⟨hv, h⟩
  · rintro (⟨hw, hne⟩ | ⟨v, hv, h, rfl⟩)
    · exact ⟨w, hw, by rw [if_neg hne]⟩
    · exact ⟨v, hv, by rw [if_pos h]⟩

theorem mem_first (h : e ∈ m.first p n) : e ∈ m.entries ∧ p e.2 = true := by
  simpa using mem_of_mem_take h

theorem length_first_le (p : V → Bool) (n : Nat) : (m.first p n).length ≤ n :=
  length_take_le _ _

theorem mem_updateFirst : (k, w) ∈ (m.updateFirst p n f).entries ↔
      ((k, w) ∈ m.entries ∧ (k, w) ∉ m.first p n) ∨ ∃ v, (k, v) ∈ m.first p n ∧ w = f v := by
  have hiff : ∀ v, (k, v) ∈ m.entries →
      (k ∈ (m.first p n).map Prod.fst ↔ (k, v) ∈ m.first p n) := by
    intro v hv
    rw [mem_map]
    constructor
    · rintro ⟨⟨k', v'⟩, he, rfl⟩
      rwa [value_unique hv (mem_first he).1]
    · intro he
      exact ⟨_, he, rfl⟩
  rw [updateFirst, mem_mapEntries]
  constructor
  · rintro ⟨v, hv, hw⟩
    by_cases hfirst : (k, v) ∈ m.first p n
    · rw [if_pos ((hiff v hv).mpr hfirst)] at hw
      exact Or.inr ⟨v, hfirst, hw⟩
    · rw [if_neg (fun h => hfirst ((hiff v hv).mp h))] at hw
      exact Or.inl (hw ▸ ⟨hv, hfirst⟩)
  · rintro (⟨hw, hfirst⟩ | ⟨v, hfirst, hw⟩)
    · exact ⟨w, hw, by rw [if_neg (fun h => hfirst ((hiff w hw).mp h))]⟩
    · have hv := (mem_first hfirst).1
      exact ⟨v, hv, by rw [if_pos ((hiff v hv).mpr hfirst), hw]⟩

end SortedMap

end Libp2pRs.Lib
