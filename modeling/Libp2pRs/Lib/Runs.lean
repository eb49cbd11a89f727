import Mathlib

/-!
# Runs of an event-driven state machine

A component that handles one event at a time is a step function `step : σ → ε → σ`. A run
is the list of its events. `Always` speaks about every state of one run, `EachStep` about
every event together with the state in which it is handled, and `Since` about the past.
-/

namespace Libp2pRs.Lib

open List

variable {σ ε : Type*}

/-- The state after the events of the list, in order. -/
def run (step : σ → ε → σ) (s : σ) (events : List ε) : σ := events.foldl step s

@[simp] theorem run_nil (step : σ → ε → σ) (s : σ) : run step s [] = s := rfl

@[simp] theorem run_cons (step : σ → ε → σ) (s : σ) (e : ε) (es : List ε) :
    run step s (e :: es) = run step (step s e) es := rfl

theorem run_append (step : σ → ε → σ) (s : σ) (es fs : List ε) :
    run step s (es ++ fs) = run step (run step s es) fs := foldl_append

/-- `P` holds in the start state and after every event of the run. -/
def Always (step : σ → ε → σ) (P : σ → Prop) : σ → List ε → Prop
  | s, [] => P s
  | s, e :: es => P s ∧ Always step P (step s e) es

/-- Every event of the run meets `G` in the state in which it is handled. -/
def EachStep (step : σ → ε → σ) (G : σ → ε → Prop) : σ → List ε → Prop
  | _, [] => True
  | s, e :: es => G s e ∧ EachStep step G (step s e) es

/-- Some event meets `G`, with the events before it, and every event since then meets `H`. -/
def Since (G : List ε → ε → Prop) (H : ε → Prop) (es : List ε) : Prop :=
  ∃ pre e post, es = pre ++ e :: post ∧ G pre e ∧ ∀ f ∈ post, H f

instance EachStep.instDecidable {step : σ → ε → σ} {G : σ → ε → Prop} [∀ s e, Decidable (G s e)] :
    (s : σ) → (es : List ε) → Decidable (EachStep step G s es)
  | _, [] => .isTrue trivial
  | s, e :: es =>
    @instDecidableAnd _ _ _ (EachStep.instDecidable (step s e) es)

variable {step : σ → ε → σ} {P : σ → Prop} {s : σ} {es : List ε}

theorem always_head (h : Always step P s es) : P s := by
  cases es with
  | nil => exact h
  | cons e es => exact h.1

theorem always_last (h : Always step P s es) : P (run step s es) := by
  induction es generalizing s with
  | nil => exact h
  | cons e es ih => exact ih h.2

theorem always_mono (h : ∀ s, P s → Q s) (hP : Always step P s es) : Always step Q s es := by
  induction es generalizing s with
  | nil => exact h s hP
  | cons e es ih => exact ⟨h s hP.1, ih hP.2⟩

/-- `Always` is the statement about the state after every prefix of the run. -/
theorem always_iff_run : Always step P s es ↔ ∀ pre, pre <+: es → P (run step s pre) := by
  induction es generalizing s with
  | nil =>
    simp only [Always, List.prefix_nil]
    constructor
    · rintro h pre rfl
      exact h
    · intro h
      exact h [] rfl
  | cons e es ih =>
    simp only [Always, ih]
    constructor
    · rintro ⟨hs, hrest⟩ pre hpre
      cases pre with
      | nil => exact hs
      | cons a as =>
        obtain ⟨rfl, has⟩ := cons_prefix_cons.mp hpre
        exact hrest as has
    · intro h
      refine ⟨h [] nil_prefix, fun pre hpre => ?_⟩
      exact h (e :: pre) (cons_prefix_cons.mpr ⟨rfl, hpre⟩)

variable {G : σ → ε → Prop}

theorem eachStep_append : EachStep step G s (es ++ fs) ↔
      EachStep step G s es ∧ EachStep step G (run step s es) fs := by
  induction es generalizing s with
  | nil => simp [EachStep]
  | cons e es ih => simp [EachStep, ih, and_assoc]

theorem not_since_nil {G : List ε → ε → Prop} : ¬ Since G H [] := by
  rintro ⟨pre, e, post, heq, -⟩
  simp at heq

theorem since_concat {G : List ε → ε → Prop} :
    Since G H (es ++ [e]) ↔ G es e ∨ Since G H es ∧ H e := by
  constructor
  · rintro ⟨pre, f, post, heq, hG, hH⟩
    rcases eq_nil_or_concat post with rfl | ⟨post', last, rfl⟩
    · obtain ⟨rfl, rfl⟩ := append_singleton_inj.mp heq
      exact Or.inl hG
    · rw [concat_eq_append] at heq hH
      rw [← cons_append, ← append_assoc] at heq
      obtain ⟨rfl, rfl⟩ := append_singleton_inj.mp heq
      refine Or.inr ⟨⟨pre, f, post', rfl, hG, fun g hg => hH g ?_⟩, hH e ?_⟩
      · exact mem_append_left [e] hg
      · exact mem_append_right post' mem_cons_self
  · rintro (hG | ⟨⟨pre, f, post, rfl, hG, hH⟩, he⟩)
    · exact ⟨es, e, [], rfl, hG, by simp⟩
    · refine ⟨pre, f, post ++ [e], by simp, hG, fun g hg => ?_⟩
      rcases mem_append.mp hg with hg | hg
      · exact hH g hg
      · rw [mem_singleton.mp hg]
        exact he

variable {I : σ → Prop}

/-- The invariant rule: a property of the start state that every step meeting `G` preserves
holds in every state of a run whose steps all meet `G`. -/
theorem always_of_step (hstep : ∀ s e, I s → G s e → I (step s e)) (hs : I s)
    (hG : EachStep step G s es) : Always step I s es := by
  induction es generalizing s with
  | nil => exact hs
  | cons e es ih => exact ⟨hs, ih (hstep s e hs hG.1) hG.2⟩

theorem eachStep_of_step (hstep : ∀ s e, I s → G s e → I (step s e))
    (hH : ∀ s e, I s → G s e → H s e) (hs : I s) (hG : EachStep step G s es) :
    EachStep step H s es := by
  induction es generalizing s with
  | nil => trivial
  | cons e es ih => exact ⟨hH s e hs hG.1, ih (hstep s e hs hG.1) hG.2⟩

/-- The invariant rule for steps that preserve `I` without a condition. -/
theorem invariant_run (hstep : ∀ s e, I s → I (step s e)) (hs : I s) (es : List ε) :
    I (run step s es) := by
  induction es generalizing s with
  | nil => exact hs
  | cons e es ih => exact ih (hstep s e hs)

/-- The invariant rule for runs whose events all satisfy `E`. -/
theorem invariant_run_of {E : ε → Prop} (hstep : ∀ s e, E e → I s → I (step s e)) (hs : I s)
    (hes : ∀ e ∈ es, E e) : I (run step s es) := by
  induction es generalizing s with
  | nil => exact hs
  | cons e es ih =>
    exact ih (hstep s e (hes e mem_cons_self) hs) (fun f hf => hes f (mem_cons_of_mem e hf))

/-- The exact form of the invariant rule. When a step that leaves a good state reaches a good
state exactly if it meets `G`, the good runs are the runs whose steps all meet `G`. -/
theorem always_iff_eachStep (hstep : ∀ s e, I s → (I (step s e) ↔ G s e)) (hs : I s) :
    Always step I s es ↔ EachStep step G s es := by
  induction es generalizing s with
  | nil => simp [Always, EachStep, hs]
  | cons e es ih =>
    simp only [Always, EachStep, hs, true_and]
    constructor
    · intro h
      have hnext := always_head h
      exact ⟨(hstep s e hs).mp hnext, (ih hnext).mp h⟩
    · rintro ⟨hG, hrest⟩
      exact (ih ((hstep s e hs).mpr hG)).mpr hrest

/-- The exact form of the invariant rule, for runs within a domain. -/
theorem always_iff_eachStep_of {J : σ → Prop} (hJ : ∀ s e, J s → J (step s e))
    (hstep : ∀ s e, J s → D s e → I s → (I (step s e) ↔ G s e)) (hs : J s) (hI : I s)
    (hD : EachStep step D s es) : Always step I s es ↔ EachStep step G s es := by
  induction es generalizing s with
  | nil => simp [Always, EachStep, hI]
  | cons e es ih =>
    simp only [Always, EachStep, hI, true_and]
    constructor
    · intro h
      have hnext := always_head h
      exact ⟨(hstep s e hs hD.1 hI).mp hnext, (ih (hJ s e hs) hnext hD.2).mp h⟩
    · rintro ⟨hG, hrest⟩
      exact (ih (hJ s e hs) ((hstep s e hs hD.1 hI).mpr hG) hD.2).mpr hrest

/-- The exact form of the invariant rule, for what follows from an invariant. -/
theorem always_iff_eachStep_inv (hstep : ∀ s e, I s → G s e → I (step s e)) (hP : ∀ s, I s → P s)
    (hG : ∀ s e, I s → P (step s e) → G s e) (hs : I s) :
    Always step P s es ↔ EachStep step G s es := by
  constructor
  · intro h
    induction es generalizing s with
    | nil => trivial
    | cons e es ih =>
      have hmet := hG s e hs (always_head h.2)
      exact ⟨hmet, ih (hstep s e hs hmet) h.2⟩
  · intro h
    exact always_mono hP (always_of_step hstep hs h)

end Libp2pRs.Lib
