import Mathlib

/-!
# Tables

A table is a list of rows, each with a key and a value. It tabulates a map when no two rows have the
same key. Adding a row, changing the row of a key, changing all rows and dropping rows by their value are
then the same on the table and on the map.
-/

namespace Libp2pRs.Lib

open List

variable {α β γ : Type*} {key : β → α} {val : β → γ} {rows : List β} {m : α → Option γ}

/-- The rows are the entries of the map, each once. -/
structure Tabulates (key : β → α) (val : β → γ) (rows : List β) (m : α → Option γ) : Prop where
  nodup : (rows.map key).Nodup
  lookup : ∀ a v, m a = some v ↔ ∃ row ∈ rows, key row = a ∧ val row = v

namespace Tabulates

theorem nil : Tabulates key val [] fun _ => none := ⟨nodup_nil, by simp⟩

theorem mem_keys_iff (h : Tabulates key val rows m) (a : α) :
    a ∈ rows.map key ↔ ∃ v, m a = some v := by
  simp only [h.lookup, mem_map]
  grind

theorem map_rows (h : Tabulates key val rows m) {f : β → β} (hkey : ∀ row, key (f row) = key row)
    {g : γ → γ} (hval : ∀ row, val (f row) = g (val row)) :
    Tabulates key val (rows.map f) fun a => (m a).map g where
  nodup := by
    have hsame : key ∘ f = key := funext hkey
    rw [map_map, hsame]
    exact h.nodup
  lookup a v := by
    simp only [Option.map_eq_some_iff, h.lookup, mem_map]
    grind

theorem filter_rows (h : Tabulates key val rows m) {p : β → Bool} {q : γ → Bool}
    (hp : ∀ row, p row = q (val row)) :
    Tabulates key val (rows.filter p) fun a => (m a).filter q where
  nodup := (filter_sublist.map key).nodup h.nodup
  lookup a v := by
    simp only [Option.filter_eq_some_iff, h.lookup, mem_filter, hp]
    grind

variable [DecidableEq α]

theorem of_keys {keys : List α} (hkeys : keys.Nodup) {mk : α → β}
    (hkey : ∀ a, key (mk a) = a) (hval : ∀ a, val (mk a) = v) :
    Tabulates key val (keys.map mk) fun a => if a ∈ keys then some v else none where
  nodup := by
    have hsame : key ∘ mk = id := funext hkey
    rwa [map_map, hsame, map_id]
  lookup a w := by
    simp only [mem_map]
    grind

theorem append_row (h : Tabulates key val rows m) (hnew : key row ∉ rows.map key) :
    Tabulates key val (rows ++ [row]) (Function.update m (key row) (some (val row))) where
  nodup := by
    rw [map_append, map_singleton, nodup_append_comm, singleton_append,
      nodup_cons]
    exact ⟨hnew, h.nodup⟩
  lookup a v := by
    have hlookup := h.lookup a v
    by_cases ha : a = key row
    · subst ha
      grind
    · grind

theorem modify_row (h : Tabulates key val rows m) {a : α} {i : Nat}
    (hfind : rows.findIdx? (fun row => key row = a) = some i) {f : β → β}
    (hkey : ∀ row, key (f row) = key row) {v : γ} (hval : ∀ row, val (f row) = v) :
    Tabulates key val (rows.modify i f) (Function.update m a (some v)) := by
  have hmap : rows.modify i f = rows.map fun row => if key row = a then f row else row := by
    have hnodup := h.nodup
    clear h
    induction rows generalizing i with
    | nil => cases hfind
    | cons row rows ih =>
      obtain ⟨hother, hnodup⟩ := nodup_cons.mp hnodup
      rw [findIdx?_cons] at hfind
      by_cases hrow : key row = a
      · have hrest : rows.map (fun row => if key row = a then f row else row) = rows := by
          refine (map_congr_left fun other hmem => ?_).trans (map_id rows)
          grind
        grind
      · rw [if_neg (by simpa using hrow)] at hfind
        obtain ⟨j, hj, rfl⟩ := Option.map_eq_some_iff.mp hfind
        rw [modify_succ_cons, ih hj hnodup, map_cons, if_neg hrow]
  rw [hmap]
  constructor
  · have hsame : (key ∘ fun row => if key row = a then f row else row) = key := by grind
    rw [map_map, hsame]
    exact h.nodup
  · intro b w
    have hlookup := h.lookup b w
    have hmem : ∃ row ∈ rows, key row = a := by
      obtain ⟨hi, hrow, -⟩ := findIdx?_eq_some_iff_getElem.mp hfind
      exact ⟨rows[i], getElem_mem hi, of_decide_eq_true hrow⟩
    by_cases hb : b = a
    · subst hb
      grind
    · grind

end Tabulates

end Libp2pRs.Lib
