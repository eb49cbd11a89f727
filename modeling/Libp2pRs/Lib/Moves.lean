import Mathlib

/-!
# Many small moves

A handler of a large state is described by the moves that it may make on a part of the state. `v`
reads that part off; `Moves r` is any number of moves in a row. What every move preserves, a
handler preserves.
-/

namespace Libp2pRs.Lib

variable {σ α β : Type*} {r : β → β → Prop} {a b c : β}

theorem foldl_unchanged {v : σ → β} (hf : ∀ s a, v (f s a) = v s) (l : List α)
    (s : σ) : v (l.foldl f s) = v s := by
  induction l generalizing s with
  | nil => rfl
  | cons a l ih => rw [List.foldl_cons, ih, hf]

def Moves (r : β → β → Prop) : β → β → Prop := Relation.ReflTransGen r

namespace Moves

theorem refl : Moves r a a := Relation.ReflTransGen.refl

theorem single (h : r a b) : Moves r a b := Relation.ReflTransGen.single h

theorem trans (h : Moves r a b) (h' : Moves r b c) : Moves r a c := Relation.ReflTransGen.trans h h'

theorem of_eq (h : b = a) : Moves r a b := h ▸ refl

theorem after (h : b = a) (hm : Moves r b c) : Moves r a c := h ▸ hm

theorem preserve {I : β → Prop} (hmove : ∀ a b, r a b → I a → I b) (h : Moves r a b) (ha : I a) :
    I b := by
  induction h with
  | refl => exact ha
  | tail _ hstep ih => exact hmove _ _ hstep ih

theorem foldl_of {v : σ → β} {l : List α} {I : σ → Prop}
    (hf : ∀ s, I s → ∀ a ∈ l, Moves r (v s) (v (f s a)) ∧ I (f s a)) (hs : I s) :
    Moves r (v s) (v (l.foldl f s)) ∧ I (l.foldl f s) := by
  induction l generalizing s with
  | nil => exact ⟨refl, hs⟩
  | cons a l ih =>
    obtain ⟨hmoves, hnext⟩ := hf s hs a List.mem_cons_self
    obtain ⟨hrest, hlast⟩ := ih (fun s hs b hb => hf s hs b (List.mem_cons_of_mem a hb)) hnext
    exact ⟨hmoves.trans hrest, hlast⟩

theorem foldl {v : σ → β} {f : σ → α → σ} {l : List α}
    (hf : ∀ s, ∀ a ∈ l, Moves r (v s) (v (f s a))) (s : σ) : Moves r (v s) (v (l.foldl f s)) :=
  (foldl_of (I := fun _ => True) (fun s _ a ha => ⟨hf s a ha, trivial⟩) trivial).1

end Moves

end Libp2pRs.Lib
