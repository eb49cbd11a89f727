import Libp2pRs.Lib.Runs

/-!
# Maps whose entries age

An entry of an `AgedMap` has an age. Every shift makes all entries one older and drops those that
reach `capacity`; an entry that is overwritten keeps its age. `present_iff` reads the age off the
history: it is the number of shifts since the entry was put.
-/

namespace Libp2pRs.Lib

open List

/-- The value of a key, with its age. -/
abbrev AgedMap (K V : Type*) := K → Option (V × Nat)

namespace AgedMap

inductive Op (K V : Type*) where
  | put (k : K) (v : V)
  | modify (k : K) (f : V → V)
  | remove (k : K)
  | shift
  | read

variable {K V : Type*}

def Op.isShift : Op K V → Bool
  | .shift => true
  | _ => false

variable [DecidableEq K]

def step (capacity : Nat) (m : AgedMap K V) : Op K V → AgedMap K V
  | .put k v => Function.update m k (some (v, ((m k).map Prod.snd).getD 0))
  | .modify k f => Function.update m k ((m k).map (fun e => (f e.1, e.2)))
  | .remove k => Function.update m k none
  | .shift => fun k =>
    (m k).bind (fun e => if e.2 + 1 < capacity then some (e.1, e.2 + 1) else none)
  | .read => m

def after (capacity : Nat) (ops : List (Op K V)) : AgedMap K V :=
  run (step capacity) (fun _ => none) ops

theorem after_concat (capacity : Nat) (ops : List (Op K V)) (op : Op K V) :
    after capacity (ops ++ [op]) = step capacity (after capacity ops) op :=
  run_append _ _ ops [op]

/-- The key was put while it was absent, with `n` shifts since and no removal. -/
def PutAgo (capacity : Nat) (k : K) (n : Nat) (ops : List (Op K V)) : Prop :=
  ∃ pre v post, ops = pre ++ .put k v :: post ∧ after capacity pre k = none ∧
    post.countP Op.isShift = n ∧ .remove k ∉ post

theorem putAgo_concat {capacity : Nat} {k : K} {n : Nat} {ops : List (Op K V)} {op : Op K V} :
    PutAgo capacity k n (ops ++ [op]) ↔
      (∃ v, op = .put k v) ∧ after capacity ops k = none ∧ n = 0 ∨
      ∃ m, PutAgo capacity k m ops ∧ op ≠ .remove k ∧ n = m + if op.isShift then 1 else 0 := by
  constructor
  · rintro ⟨pre, v, post, heq, habsent, hn, hrem⟩
    -- the put is the last operation, or it stands before it
    rcases eq_nil_or_concat post with rfl | ⟨post', last, rfl⟩
    · obtain ⟨rfl, rfl⟩ := append_singleton_inj.mp heq
      exact .inl ⟨⟨v, rfl⟩, habsent, by simpa using hn.symm⟩
    · rw [concat_eq_append] at heq hn hrem
      rw [← cons_append, ← append_assoc] at heq
      obtain ⟨rfl, rfl⟩ := append_singleton_inj.mp heq
      have hrem' : .remove k ∉ post' := fun h => hrem (mem_append_left [op] h)
      refine .inr ⟨_, ⟨pre, v, post', rfl, habsent, rfl, hrem'⟩, ?_, ?_⟩
      · rintro rfl
        exact hrem (mem_append_right post' mem_cons_self)
      · rw [← hn, countP_append, countP_singleton]
  · rintro (⟨⟨v, rfl⟩, habsent, rfl⟩ | ⟨m, ⟨pre, v, post, rfl, habsent, rfl, hrem⟩, hop, rfl⟩)
    · exact ⟨ops, v, [], rfl, habsent, rfl, not_mem_nil⟩
    · refine ⟨pre, v, post ++ [op], by simp, habsent, ?_, ?_⟩
      · rw [countP_append, countP_singleton]
      · intro h
        rcases mem_append.mp h with h | h
        · exact hrem h
        · exact hop (mem_singleton.mp h).symm

theorem putAgo_concat_other {capacity : Nat} {k : K} {n : Nat} {ops : List (Op K V)} {op : Op K V}
    (hput : ∀ v, op ≠ .put k v) (hrem : op ≠ .remove k) (hshift : op.isShift = false) :
    PutAgo capacity k n (ops ++ [op]) ↔ PutAgo capacity k n ops := by
  rw [putAgo_concat]
  constructor
  · rintro (⟨⟨v, hv⟩, -⟩ | ⟨m, hm, -, rfl⟩)
    · exact absurd hv (hput v)
    · simpa [hshift] using hm
  · intro h
    exact .inr ⟨n, h, hrem, by simp [hshift]⟩

/-- A key is present with age `n` exactly when it was put, while absent, `n` shifts ago, has not
been removed since and `n` is below the capacity. -/
theorem present_iff {capacity : Nat} (hcap : 0 < capacity) (ops : List (Op K V)) (k : K)
    (n : Nat) :
    (∃ v, after capacity ops k = some (v, n)) ↔ PutAgo capacity k n ops ∧ n < capacity := by
  induction ops using reverseRecOn generalizing n with
  | nil =>
    constructor
    · rintro ⟨v, hv⟩
      simp [after] at hv
    · rintro ⟨⟨pre, v, post, heq, -⟩, -⟩
      simp at heq
  | append_singleton ops op ih =>
    rw [after_concat]
    cases op with
    | put k' v' =>
      by_cases hk : k' = k
      · subst hk
        rw [putAgo_concat]
        cases hold : after capacity ops k' with
        | none =>
          have hnot : ∀ m, PutAgo capacity k' m ops → capacity ≤ m := by
            intro m hm
            by_contra hlt
            obtain ⟨v, hv⟩ := (ih m).mpr ⟨hm, by omega⟩
            simp [hold] at hv
          constructor
          · rintro ⟨v, hv⟩
            have hn : n = 0 := by simpa [step, hold, eq_comm] using (congrArg (·.map Prod.snd) hv)
            exact ⟨.inl ⟨⟨v', rfl⟩, rfl, hn⟩, by omega⟩
          · rintro ⟨⟨-, -, rfl⟩ | ⟨m, hm, -, hn⟩, hlt⟩
            · exact ⟨v', by simp [step, hold]⟩
            · have := hnot m hm
              omega
        | some e =>
          have hage : (∃ v, step capacity (after capacity ops) (.put k' v') k' = some (v, n)) ↔
              ∃ v, after capacity ops k' = some (v, n) := by
            obtain ⟨w, a⟩ := e
            simp [step, hold]
          rw [hage, ih]
          simp [Op.isShift]
      · rw [putAgo_concat_other (by simp [hk]) (by simp) rfl, ← ih]
        simp [step, Function.update_of_ne (Ne.symm hk)]
    | modify k' f =>
      rw [putAgo_concat_other (by simp) (by simp) rfl, ← ih]
      by_cases hk : k' = k
      · subst hk
        simp [step]
      · simp [step, Function.update_of_ne (Ne.symm hk)]
    | remove k' =>
      by_cases hk : k' = k
      · subst hk
        rw [putAgo_concat]
        simp [step]
      · rw [putAgo_concat_other (by simp) (by simp [hk]) rfl, ← ih]
        simp [step, Function.update_of_ne (Ne.symm hk)]
    | shift =>
      rw [putAgo_concat]
      constructor
      · rintro ⟨v, hv⟩
        obtain ⟨e, he, hif⟩ := Option.bind_eq_some_iff.mp hv
        obtain ⟨hlt, heq⟩ := Option.ite_none_right_eq_some.mp hif
        obtain ⟨rfl, rfl⟩ : e.1 = v ∧ e.2 + 1 = n := by simpa using heq
        have hago := ((ih e.2).mp ⟨e.1, he⟩).1
        exact ⟨.inr ⟨e.2, hago, by simp, by simp [Op.isShift]⟩, hlt⟩
      · rintro ⟨⟨⟨v, hv⟩, -⟩ | ⟨m, hm, -, rfl⟩, hlt⟩
        · cases hv
        · simp only [Op.isShift, if_true] at hlt ⊢
          obtain ⟨v, hv⟩ := (ih m).mpr ⟨hm, by omega⟩
          exact ⟨v, by simp [step, hv, hlt]⟩
    | read =>
      rw [putAgo_concat_other (by simp) (by simp) rfl, ← ih]
      rfl

end AgedMap

end Libp2pRs.Lib
