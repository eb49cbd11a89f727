import Libp2pRs.Lib.Runs

/-!
# Progress in infinite runs

A schedule is an infinite sequence of events, and `states` are the states it goes through. `P`
leads to `Q` when every state with `P` is followed by one with `Q`. The basic rule
`leadsTo_of_helpful` asks for a helpful event that always comes again: as long as it has not come,
`P` stays, and when it comes, `Q` holds. `leadsTo_of_variant` strings such steps together along a
variant.
-/

namespace Libp2pRs.Lib

variable {σ ε : Type*}

def states (step : σ → ε → σ) (s : σ) (events : Nat → ε) : Nat → σ
  | 0 => s
  | n + 1 => step (states step s events n) (events n)

theorem states_eq_run (step : σ → ε → σ) (s : σ) (events : Nat → ε) (n : Nat) :
    states step s events n = run step s ((List.range n).map events) := by
  induction n with
  | zero => rfl
  | succ n ih => rw [List.range_succ, List.map_append, run_append, ← ih]; rfl

theorem states_mono {P : σ → Prop} (hstep : ∀ s e, P s → P (step s e)) (hnm : n ≤ m)
    (h : P (states step s events n)) : P (states step s events m) := by
  induction m, hnm using Nat.le_induction with
  | base => exact h
  | succ m _ ih => exact hstep _ _ ih

/-- Every state with `P` is, or is followed by, a state with `Q`. -/
def LeadsTo (s : Nat → σ) (P Q : σ → Prop) : Prop := ∀ n, P (s n) → ∃ m ≥ n, Q (s m)

namespace LeadsTo

variable {s : Nat → σ} {P Q R : σ → Prop}

theorem trans (hPQ : LeadsTo s P Q) (hQR : LeadsTo s Q R) : LeadsTo s P R := by
  intro n hP
  obtain ⟨m, hnm, hQ⟩ := hPQ n hP
  obtain ⟨l, hml, hR⟩ := hQR m hQ
  exact ⟨l, hnm.trans hml, hR⟩

theorem of_imp (h : ∀ s, P s → Q s) : LeadsTo s P Q :=
  fun n hP => ⟨n, Nat.le_refl n, h _ hP⟩

theorem or (hP : LeadsTo s P R) (hQ : LeadsTo s Q R) : LeadsTo s (fun s => P s ∨ Q s) R :=
  fun n h => h.elim (hP n) (hQ n)

theorem exists_imp {P : ι → σ → Prop} (h : ∀ i, LeadsTo s (P i) Q) :
    LeadsTo s (fun s => ∃ i, P i s) Q := by
  rintro n ⟨i, hi⟩
  exact h i n hi

/-- Along a variant: from each value either the next smaller one or the goal is reached. -/
theorem of_variant {P : Nat → σ → Prop} (hzero : LeadsTo s (P 0) Q)
    (hsucc : ∀ k, LeadsTo s (P (k + 1)) (fun s => P k s ∨ Q s)) (k : Nat) : LeadsTo s (P k) Q := by
  induction k with
  | zero => exact hzero
  | succ k ih => exact (hsucc k).trans (or ih (of_imp (fun _ h => h)))

end LeadsTo

/-- The basic rule of progress. `P` stays until `Q` holds, a helpful event makes `Q` hold, and
helpful events do not stop coming while `P` holds. -/
theorem leadsTo_of_helpful {P Q : σ → Prop}
    {H : ε → Prop} (hstay : ∀ s e, P s → P (step s e) ∨ Q (step s e))
    (hhelp : ∀ s e, P s → H e → Q (step s e))
    (hfair : ∀ n, P (states step s events n) → ∃ m ≥ n, H (events m)) :
    LeadsTo (states step s events) P Q := by
  intro n hP
  obtain ⟨m, hnm, hm⟩ := hfair n hP
  -- until the helpful event at `m`, `P` holds unless `Q` has been reached
  have huntil : P (states step s events m) ∨ ∃ l ≥ n, Q (states step s events l) := by
    clear hm
    induction m, hnm using Nat.le_induction with
    | base => exact Or.inl hP
    | succ m hnm ih =>
      rcases ih with hPm | hQ
      · rcases hstay _ (events m) hPm with h | h
        · exact Or.inl h
        · exact Or.inr ⟨m + 1, by omega, h⟩
      · exact Or.inr hQ
  rcases huntil with hPm | hQ
  · exact ⟨m + 1, by omega, hhelp _ _ hPm hm⟩
  · exact hQ

end Libp2pRs.Lib
