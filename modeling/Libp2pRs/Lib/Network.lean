import Libp2pRs.Lib.Io

/-!
# Two programs connected by a byte stream

Two `Io` programs run at the two ends of a reliable ordered byte stream. Their steps interleave in
any way, and each transfer moves any number of bytes that are there. A program that ends with an
error drops its end of the stream, as one that closes it does.

The programs are deterministic and each direction has one writer and one reader, so the steps of
the two sides commute. For programs that do not look at how their transfers are split, one run to
the end then decides all of them.

* `Net.left_run`, `Net.right_run`: the run of one side while the other rests.
-/

namespace Libp2pRs.Lib

open List

/-! ## Paths of a relation -/

inductive Path {σ : Type} (R : σ → σ → Prop) : Nat → σ → σ → Prop where
  | nil (x : σ) : Path R 0 x x
  | cons {n : Nat} {x y z : σ} (head : R x y) (tail : Path R n y z) : Path R (n + 1) x z

namespace Path

variable {σ : Type} {R : σ → σ → Prop} {x y z : σ} {m n : Nat}

theorem trans (h : Path R m x y) (h' : Path R n y z) : Path R (m + n) x z := by
  induction h with
  | nil => rwa [Nat.zero_add]
  | cons head _ ih =>
    rw [Nat.succ_add]
    exact .cons head (ih h')

theorem map (f : σ → τ) (hf : ∀ {x y}, R x y → S (f x) (f y))
    (h : Path R n x y) : Path S n (f x) (f y) := by
  induction h with
  | nil x => exact .nil (f x)
  | cons head _ ih => exact .cons (hf head) ih

theorem of_reflTransGen (h : Relation.ReflTransGen R x y) : ∃ n, Path R n x y := by
  induction h using Relation.ReflTransGen.head_induction_on with
  | refl => exact ⟨0, .nil y⟩
  | head head _ ih =>
    obtain ⟨n, tail⟩ := ih
    exact ⟨n + 1, .cons head tail⟩

/-- Two steps from one state are the same or can be completed to one state. -/
def Diamond (R : σ → σ → Prop) : Prop :=
  ∀ ⦃x y z⦄, R x y → R x z → y = z ∨ ∃ w, R y w ∧ R z w

theorem tail_of_diamond (hR : Diamond R) (hz : ∀ w, ¬ R z w) (h : Path R (n + 1) x z)
    (hy : R x y) : Path R n y z := by
  induction n generalizing x y with
  | zero =>
    cases h with
    | cons head tail =>
      cases tail
      rcases hR head hy with rfl | ⟨w, hw, -⟩
      · exact .nil _
      · exact absurd hw (hz w)
  | succ n ih =>
    cases h with
    | cons head tail =>
      rcases hR head hy with rfl | ⟨w, hw, hw'⟩
      · exact tail
      · exact .cons hw' (ih tail hw)

/-- All runs from one state are parts of runs of the same length to the same end. -/
theorem rest_of_diamond (hR : Diamond R) (hz : ∀ w, ¬ R z w) (h : Path R n x z)
    (hy : Path R m x y) : ∃ k, n = m + k ∧ Path R k y z := by
  induction hy generalizing n with
  | nil => exact ⟨n, by omega, h⟩
  | cons head _ ih =>
    cases h with
    | nil => exact absurd head (hz _)
    | cons head' tail' =>
      obtain ⟨k, hk, hpath⟩ := ih (tail_of_diamond hR hz (.cons head' tail') head)
      exact ⟨k, by omega, hpath⟩

end Path

/-! ## Steps of one program -/

/-- What a step of a program does. -/
structure Move (ε α : Type) where
  next : Io ε α
  taken : Nat
  sent : List UInt8
  closes : Bool

namespace Io

variable {ε α β : Type}

def failed : Io ε α → Bool
  | fail _ => true
  | _ => false

/-- The step of a program with this input, after which `eof` says that no more will come. A
transfer moves `m + 1` bytes, or all there are. -/
def move (m : Nat) (eof : Bool) (inbox : List UInt8) : Io ε α → Option (Move ε α)
  | ret _ | fail _ | stop _ => none
  | read n k =>
    if n = 0 then some ⟨k [], 0, [], false⟩
    else if inbox = [] then if eof then some ⟨k [], 0, [], false⟩ else none
    else
      let got := inbox.take (min (m + 1) n)
      some ⟨k got, got.length, [], false⟩
  | write data k =>
    let c := min (m + 1) data.length
    some ⟨k c, 0, data.take c, false⟩
  | flush k => some ⟨k, 0, [], false⟩
  | close k => some ⟨k, 0, [], true⟩

/-- The program goes on in the same way, however its transfers are split. -/
def Even : Io ε α → Prop
  | ret _ | fail _ | stop _ => True
  | read n k =>
    0 < n ∧ (∀ got, (k got).Even) ∧
      (1 < n → ∀ b, ∃ k', k [b] = read (n - 1) k' ∧ ∀ got, got ≠ [] → k' got = k (b :: got))
  | write data k =>
    data ≠ [] ∧ (∀ c, (k c).Even) ∧
      (1 < data.length → ∃ k', k 1 = write data.tail k' ∧ ∀ c, 0 < c → k' c = k (c + 1))
  | flush k => k.Even
  | close k => k.Even

namespace Even

theorem bind {p : Io ε α} {f : α → Io ε β} (hp : p.Even) (hf : ∀ a, (f a).Even) :
    (p >>= f).Even := by
  induction p with
  | ret a => exact hf a
  | fail | stop => trivial
  | flush k ih | close k ih => exact ih hp
  | read n k ih =>
    obtain ⟨hn, hk, hsplit⟩ := hp
    refine ⟨hn, fun got => ih got (hk got), fun hlt b => ?_⟩
    obtain ⟨k', hkb, hk'⟩ := hsplit hlt b
    exact ⟨fun got => k' got >>= f, congrArg (· >>= f) hkb,
      fun got hgot => congrArg (· >>= f) (hk' got hgot)⟩
  | write data k ih =>
    obtain ⟨hdata, hk, hsplit⟩ := hp
    refine ⟨hdata, fun c => ih c (hk c), fun hlt => ?_⟩
    obtain ⟨k', hk1, hk'⟩ := hsplit hlt
    exact ⟨fun c => k' c >>= f, congrArg (· >>= f) hk1, fun c hc => congrArg (· >>= f) (hk' c hc)⟩

theorem mapError {p : Io ε α} (g : ε → ε') (hp : p.Even) : (p.mapError g).Even := by
  induction p with
  | ret | fail | stop => trivial
  | flush k ih | close k ih => exact ih hp
  | read n k ih =>
    obtain ⟨hn, hk, hsplit⟩ := hp
    refine ⟨hn, fun got => ih got (hk got), fun hlt b => ?_⟩
    obtain ⟨k', hkb, hk'⟩ := hsplit hlt b
    exact ⟨fun got => (k' got).mapError g, congrArg (Io.mapError g) hkb,
      fun got hgot => congrArg (Io.mapError g) (hk' got hgot)⟩
  | write data k ih =>
    obtain ⟨hdata, hk, hsplit⟩ := hp
    refine ⟨hdata, fun c => ih c (hk c), fun hlt => ?_⟩
    obtain ⟨k', hk1, hk'⟩ := hsplit hlt
    exact ⟨fun c => (k' c).mapError g, congrArg (Io.mapError g) hk1,
      fun c hc => congrArg (Io.mapError g) (hk' c hc)⟩

theorem lift (r : Except ε α) : (lift r).Even := by
  cases r <;> trivial

theorem readExact (eof : ε) (n : Nat) : (readExact eof n).Even := by
  induction n using Nat.strongRecOn with
  | ind n ih =>
    rw [Io.readExact]
    split
    case isTrue => trivial
    case isFalse hn =>
      refine ⟨Nat.pos_of_ne_zero hn, fun got => ?_, fun hlt b => ?_⟩
      · dsimp only
        split
        case isTrue => trivial
        case isFalse hgot =>
          have := length_pos_of_ne_nil hgot
          exact (ih _ (by omega)).bind fun _ => trivial
      · -- after one byte the loop asks for the others
        have hrest : n - [b].length ≠ 0 := by
          rw [length_singleton]
          omega
        dsimp only
        rw [if_neg (cons_ne_nil b []), Io.readExact, if_neg hrest, read_bind]
        refine ⟨_, rfl, fun got hgot => ?_⟩
        have hlen : n - [b].length - got.length = n - (b :: got).length := by
          rw [length_singleton, length_cons]
          omega
        rw [if_neg hgot, if_neg (cons_ne_nil b got), bind_bind, hlen]
        rfl

theorem writeAll (zero : ε) (data : List UInt8) : (writeAll zero data).Even := by
  induction hn : data.length using Nat.strongRecOn generalizing data with
  | ind n ih =>
    rw [Io.writeAll]
    split
    case isTrue => trivial
    case isFalse hdata =>
      have hpos := length_pos_of_ne_nil hdata
      refine ⟨hdata, fun c => ?_, fun hlt => ?_⟩
      · dsimp only
        split
        case isTrue => trivial
        case isFalse hc => exact ih (n - c) (by omega) _ (by rw [length_drop, hn])
      · have htail : data.tail ≠ [] := by
          apply ne_nil_of_length_pos
          rw [length_tail]
          omega
        dsimp only
        rw [if_neg Nat.one_ne_zero, drop_one, Io.writeAll, if_neg htail]
        refine ⟨_, rfl, fun c hc => ?_⟩
        rw [if_neg (by omega), if_neg (by omega), ← drop_one, drop_drop, Nat.add_comm 1]

end Even

end Io

/-! ## Two programs -/

/-- The programs at the two ends, the bytes on their way to each of them, and the ends that were
closed. -/
structure Net (ε α ε' β : Type) where
  left : Io ε α
  right : Io ε' β
  toLeft : List UInt8
  toRight : List UInt8
  leftClosed : Bool
  rightClosed : Bool

inductive Side where
  | left
  | right
  deriving DecidableEq, Repr

namespace Net

variable {ε α ε' β : Type}

def start (left : Io ε α) (right : Io ε' β) : Net ε α ε' β := ⟨left, right, [], [], false, false⟩

def swap (n : Net ε α ε' β) : Net ε' β ε α :=
  ⟨n.right, n.left, n.toRight, n.toLeft, n.rightClosed, n.leftClosed⟩

/-- What is written after the end was closed is lost. -/
def afterLeft (n : Net ε α ε' β) (mv : Move ε α) : Net ε α ε' β where
  left := mv.next
  right := n.right
  toLeft := n.toLeft.drop mv.taken
  toRight := n.toRight ++ if n.leftClosed then [] else mv.sent
  leftClosed := n.leftClosed || mv.closes
  rightClosed := n.rightClosed

def stepLeft (m : Nat) (n : Net ε α ε' β) : Option (Net ε α ε' β) :=
  (n.left.move m (n.rightClosed || n.right.failed) n.toLeft).map n.afterLeft

def step : Side → Nat → Net ε α ε' β → Option (Net ε α ε' β)
  | .left, m, n => n.stepLeft m
  | .right, m, n => (n.swap.stepLeft m).map swap

def Step (n n' : Net ε α ε' β) : Prop := ∃ side m, n.step side m = some n'

/-- A step of one side that moves at most one byte. -/
def UnitStep (n n' : Net ε α ε' β) : Prop := ∃ side, n.step side 0 = some n'

/-- Every run from `n` is finite, and one that cannot go on has reached `final`. -/
def Settles (n final : Net ε α ε' β) : Prop :=
  (∀ n', ¬ Step final n') ∧
    ∃ bound, ∀ k n', Path Step k n n' → k ≤ bound ∧ (n' = final ∨ ∃ n'', Step n' n'')

@[simp] theorem swap_swap (n : Net ε α ε' β) : n.swap.swap = n := rfl

end Net

/-! ## Steps of the two sides commute -/

namespace Io

variable {ε α : Type} {m : Nat} {eof eof' : Bool} {inbox more : List UInt8} {p : Io ε α}
  {mv : Move ε α}

theorem move_read (hn : n ≠ 0) (hinbox : inbox ≠ []) : (read n k).move m eof inbox =
      some ⟨k (inbox.take (min (m + 1) n)), (inbox.take (min (m + 1) n)).length, [], false⟩ := by
  rw [move, if_neg hn, if_neg hinbox]

theorem not_failed_of_move (h : p.move m eof inbox = some mv) : p.failed = false := by
  cases p <;> first | rfl | cases h

theorem move_append (h : p.move 0 eof inbox = some mv) (heof : eof = true → eof' = true)
    (hmore : inbox = [] → eof = true → more = []) : p.move 0 eof' (inbox ++ more) = some mv := by
  cases p with
  | ret | fail | stop => cases h
  | write | flush | close => exact h
  | read n k =>
    rw [move] at h ⊢
    split
    case isTrue hn => rwa [if_pos hn] at h
    case isFalse hn =>
      rw [if_neg hn] at h
      split at h
      case isTrue hnil =>
        split at h
        case isTrue he =>
          rw [hnil, hmore hnil he, append_nil, if_pos rfl, if_pos (heof he)]
          exact h
        case isFalse => cases h
      case isFalse hne =>
        have hpos := length_pos_of_ne_nil hne
        rw [if_neg fun hnil => hne (append_eq_nil_iff.mp hnil).1]
        rwa [take_append_of_le_length (by omega)]

theorem taken_le_of_move (h : p.move m eof inbox = some mv) : mv.taken ≤ inbox.length := by
  cases p with
  | ret | fail | stop => cases h
  | write | flush | close =>
    cases h
    exact Nat.zero_le _
  | read n k =>
    rw [move] at h
    split at h
    case isTrue =>
      cases h
      exact Nat.zero_le _
    case isFalse =>
      split at h
      case isTrue =>
        split at h
        case isTrue =>
          cases h
          exact Nat.zero_le _
        case isFalse => cases h
      case isFalse hne =>
        cases h
        exact length_take_le' _ _

theorem move_isSome (m' : Nat) (h : (p.move m eof inbox).isSome) :
    (p.move m' eof inbox).isSome := by
  cases p with
  | ret | fail | stop => cases h
  | write | flush | close => rfl
  | read n k =>
    rw [move] at h ⊢
    split <;> rename_i hn
    · rfl
    · rw [if_neg hn] at h
      split <;> rename_i hnil
      · rwa [if_pos hnil] at h
      · rfl

theorem Even.of_move (hp : p.Even) (h : p.move m eof inbox = some mv) : mv.next.Even := by
  cases p with
  | ret | fail | stop => cases h
  | flush k | close k =>
    cases h
    exact hp
  | write data k =>
    cases h
    exact hp.2.1 _
  | read n k =>
    rw [move, if_neg hp.1.ne'] at h
    split at h
    case isTrue =>
      split at h
      case isTrue =>
        cases h
        exact hp.2.1 _
      case isFalse => cases h
    case isFalse =>
      cases h
      exact hp.2.1 _

end Io

namespace Net

variable {ε α ε' β : Type} {n x y final : Net ε α ε' β} {m : Nat}

theorem stepLeft_eq_some : n.stepLeft m = some x ↔
    ∃ mv, n.left.move m (n.rightClosed || n.right.failed) n.toLeft = some mv ∧ n.afterLeft mv = x :=
  Option.map_eq_some_iff

theorem step_right_eq_some : n.step .right m = some x ↔ n.swap.stepLeft m = some x.swap := by
  rw [step, Option.map_eq_some_iff]
  constructor
  · rintro ⟨y, hy, rfl⟩
    exact hy
  · intro h
    exact ⟨x.swap, h, rfl⟩

theorem stepLeft_afterRight (h : n.left.move 0 (n.rightClosed || n.right.failed) n.toLeft = some mv)
    (h' : n.right.move 0 (n.leftClosed || n.left.failed) n.toRight = some mv') :
    (n.swap.afterLeft mv').swap.stepLeft 0 = some ((n.swap.afterLeft mv').swap.afterLeft mv) := by
  have hright := Io.not_failed_of_move h'
  apply stepLeft_eq_some.mpr
  refine ⟨mv, ?_, rfl⟩
  apply Io.move_append h
  · intro heof
    rw [hright, Bool.or_false] at heof
    show (n.rightClosed || mv'.closes || mv'.next.failed) = true
    rw [heof, Bool.true_or, Bool.true_or]
  · intro _ heof
    rw [hright, Bool.or_false] at heof
    exact if_pos heof

theorem afterLeft_comm (h : mv.taken ≤ n.toLeft.length) (h' : mv'.taken ≤ n.toRight.length) :
    ((n.afterLeft mv).swap.afterLeft mv').swap = (n.swap.afterLeft mv').swap.afterLeft mv := by
  simp only [afterLeft, swap, mk.injEq, true_and, and_true]
  exact ⟨(drop_append_of_le_length h).symm, drop_append_of_le_length h'⟩

theorem diamond : Path.Diamond (@UnitStep ε α ε' β) := by
  have hleftright : ∀ {n x y : Net ε α ε' β}, n.step .left 0 = some x → n.step .right 0 = some y →
      ∃ w, x.step .right 0 = some w ∧ y.step .left 0 = some w := by
    intro n x y hx hy
    obtain ⟨mv, hmv, rfl⟩ := stepLeft_eq_some.mp hx
    obtain ⟨mv', hmv', hy'⟩ := stepLeft_eq_some.mp (step_right_eq_some.mp hy)
    obtain rfl : y = (n.swap.afterLeft mv').swap := by rw [hy', swap_swap]
    refine ⟨(n.swap.afterLeft mv').swap.afterLeft mv, ?_, stepLeft_afterRight hmv hmv'⟩
    rw [← afterLeft_comm (Io.taken_le_of_move hmv) (Io.taken_le_of_move hmv')]
    exact step_right_eq_some.mpr (stepLeft_afterRight (n := n.swap) hmv' hmv)
  intro n x y ⟨side, hx⟩ ⟨side', hy⟩
  cases side <;> cases side'
  · exact .inl (Option.some.inj (hx.symm.trans hy))
  · obtain ⟨w, hw, hw'⟩ := hleftright hx hy
    exact .inr ⟨w, ⟨.right, hw⟩, ⟨.left, hw'⟩⟩
  · obtain ⟨w, hw, hw'⟩ := hleftright hy hx
    exact .inr ⟨w, ⟨.left, hw'⟩, ⟨.right, hw⟩⟩
  · exact .inl (Option.some.inj (hx.symm.trans hy))

/-! ## Transfers of several bytes -/

end Net

/-- A larger transfer moves one byte, or one byte and then the others. -/
theorem Io.Even.move_succ {ε α : Type} {m : Nat} {eof : Bool} {inbox : List UInt8} {p : Io ε α}
    {mv : Move ε α} (hp : p.Even) (h : p.move (m + 1) eof inbox = some mv) :
    p.move 0 eof inbox = some mv ∨ ∃ mv₁ mv₂, p.move 0 eof inbox = some mv₁ ∧
        mv₁.next.move m eof (inbox.drop mv₁.taken) = some mv₂ ∧ mv₁.closes = false ∧
        mv = ⟨mv₂.next, mv₁.taken + mv₂.taken, mv₁.sent ++ mv₂.sent, mv₂.closes⟩ := by
  cases p with
  | ret | fail | stop => cases h
  | flush | close => exact .inl h
  | read n k =>
    obtain ⟨hn, hk, hsplit⟩ := hp
    cases inbox with
    | nil => exact .inl h
    | cons b inbox =>
      rw [move_read hn.ne' (cons_ne_nil b inbox)] at h ⊢
      cases h
      by_cases hsingle : n = 1 ∨ inbox = []
      · left
        have htake : ∀ m, (b :: inbox).take (min (m + 1) n) = [b] := by
          intro m
          rcases hsingle with rfl | rfl
          · rw [Nat.min_eq_right (by omega), take_succ_cons, take_zero]
          · exact take_of_length_le (by rw [length_singleton]; omega)
        rw [htake, htake]
      · right
        obtain ⟨hone, hinbox⟩ := not_or.mp hsingle
        obtain ⟨k', hkb, hk'⟩ := hsplit (by omega) b
        have hfirst : (b :: inbox).take (min (0 + 1) n) = [b] := by
          rw [Nat.min_eq_left (by omega), take_succ_cons, take_zero]
        have hall : (b :: inbox).take (min (m + 1 + 1) n) =
            b :: inbox.take (min (m + 1) (n - 1)) := by
          rw [show min (m + 1 + 1) n = min (m + 1) (n - 1) + 1 by omega, take_succ_cons]
        have hgot : inbox.take (min (m + 1) (n - 1)) ≠ [] := by
          apply ne_nil_of_length_pos
          have := length_pos_of_ne_nil hinbox
          rw [length_take]
          omega
        have hrest : (k [b]).move m eof inbox =
            some ⟨k (b :: inbox.take (min (m + 1) (n - 1))), (inbox.take (min (m + 1) (n - 1))).length,
              [], false⟩ := by
          rw [hkb, move_read (by omega) hinbox, hk' _ hgot]
        refine ⟨⟨k [b], 1, [], false⟩, _, by rw [hfirst]; rfl, hrest, rfl, ?_⟩
        simp only [hall, length_cons, append_nil, Nat.add_comm 1]
  | write data k =>
    obtain ⟨hdata, hk, hsplit⟩ := hp
    cases h
    cases data with
    | nil => exact absurd rfl hdata
    | cons b data =>
      by_cases hsingle : data = []
      · left
        subst hsingle
        rw [move, length_singleton, Nat.min_eq_right (by omega), Nat.min_eq_right (by omega)]
      · right
        have hpos := length_pos_of_ne_nil hsingle
        obtain ⟨k', hk1, hk'⟩ := hsplit (by rw [length_cons]; omega)
        have hfirst : min (0 + 1) (b :: data).length = 1 := by
          rw [length_cons]
          omega
        have hall : min (m + 1 + 1) (b :: data).length = min (m + 1) data.length + 1 := by
          rw [length_cons]
          omega
        have hrest : (k 1).move m eof inbox =
            some ⟨k (min (m + 1) data.length + 1), 0, data.take (min (m + 1) data.length), false⟩ := by
          rw [hk1, tail_cons, move, hk' _ (by omega)]
        refine ⟨⟨k 1, 0, [b], false⟩, _, by rw [move, hfirst]; rfl, hrest, rfl, ?_⟩
        rw [hall]
        rfl

namespace Net

variable {ε α ε' β : Type} {n x y final : Net ε α ε' β} {m : Nat}

theorem exists_path_of_stepLeft (hn : n.left.Even) (h : n.stepLeft m = some x) :
    ∃ k, Path UnitStep (k + 1) n x := by
  induction m generalizing n with
  | zero => exact ⟨0, .cons ⟨.left, h⟩ (.nil x)⟩
  | succ m ih =>
    obtain ⟨mv, hmv, rfl⟩ := stepLeft_eq_some.mp h
    rcases hn.move_succ hmv with hone | ⟨mv₁, mv₂, h₁, h₂, hopen, rfl⟩
    · exact ⟨0, .cons ⟨.left, stepLeft_eq_some.mpr ⟨mv, hone, rfl⟩⟩ (.nil _)⟩
    · have hrest : (n.afterLeft mv₁).stepLeft m = some ((n.afterLeft mv₁).afterLeft mv₂) :=
        stepLeft_eq_some.mpr ⟨mv₂, h₂, rfl⟩
      have hjoin : (n.afterLeft mv₁).afterLeft mv₂ =
          n.afterLeft ⟨mv₂.next, mv₁.taken + mv₂.taken, mv₁.sent ++ mv₂.sent, mv₂.closes⟩ := by
        simp only [afterLeft, hopen, Bool.or_false, drop_drop, mk.injEq, true_and, and_true]
        cases n.leftClosed <;> simp only [Bool.false_eq_true, if_false, if_true, append_assoc,
          append_nil]
      rw [hjoin] at hrest
      obtain ⟨k, hk⟩ := ih (hn.of_move h₁) hrest
      exact ⟨k + 1, .cons ⟨.left, stepLeft_eq_some.mpr ⟨mv₁, h₁, rfl⟩⟩ hk⟩

theorem UnitStep.swap (h : UnitStep n x) : UnitStep n.swap x.swap := by
  obtain ⟨side, h⟩ := h
  cases side with
  | left => exact ⟨.right, step_right_eq_some.mpr h⟩
  | right => exact ⟨.left, step_right_eq_some.mp h⟩

theorem exists_path_of_step (hleft : n.left.Even) (hright : n.right.Even)
    (h : n.step side m = some x) : ∃ k, Path UnitStep (k + 1) n x := by
  cases side with
  | left => exact exists_path_of_stepLeft hleft h
  | right =>
    obtain ⟨k, hk⟩ := exists_path_of_stepLeft (n := n.swap) hright (step_right_eq_some.mp h)
    exact ⟨k, hk.map swap fun h => h.swap⟩

theorem even_of_step (hleft : n.left.Even) (hright : n.right.Even)
    (h : n.step side m = some x) : x.left.Even ∧ x.right.Even := by
  cases side with
  | left =>
    obtain ⟨mv, hmv, rfl⟩ := stepLeft_eq_some.mp h
    exact ⟨hleft.of_move hmv, hright⟩
  | right =>
    obtain ⟨mv, hmv, hx⟩ := stepLeft_eq_some.mp (step_right_eq_some.mp h)
    obtain rfl : x = (n.swap.afterLeft mv).swap := by rw [hx, swap_swap]
    exact ⟨hleft, hright.of_move hmv⟩

theorem exists_path_of_path (hleft : n.left.Even) (hright : n.right.Even)
    (h : Path Step k n x) : ∃ k', k ≤ k' ∧ Path UnitStep k' n x := by
  induction h with
  | nil x => exact ⟨0, Nat.le_refl 0, .nil x⟩
  | cons head _ ih =>
    obtain ⟨side, m, head⟩ := head
    obtain ⟨hleft', hright'⟩ := even_of_step hleft hright head
    obtain ⟨j, hj⟩ := exists_path_of_step hleft hright head
    obtain ⟨k', hle, hk'⟩ := ih hleft' hright'
    exact ⟨j + 1 + k', by omega, hj.trans hk'⟩

theorem exists_unitStep (h : Step n x) : ∃ y, UnitStep n y := by
  obtain ⟨side, m, h⟩ := h
  cases side with
  | left =>
    obtain ⟨mv, hmv, -⟩ := stepLeft_eq_some.mp h
    obtain ⟨mv', hmv'⟩ := Option.isSome_iff_exists.mp
      (Io.move_isSome 0 (Option.isSome_of_eq_some hmv))
    exact ⟨_, .left, stepLeft_eq_some.mpr ⟨mv', hmv', rfl⟩⟩
  | right =>
    obtain ⟨mv, hmv, -⟩ := stepLeft_eq_some.mp (step_right_eq_some.mp h)
    obtain ⟨mv', hmv'⟩ := Option.isSome_iff_exists.mp
      (Io.move_isSome 0 (Option.isSome_of_eq_some hmv))
    exact ⟨(n.swap.afterLeft mv').swap, .right,
      step_right_eq_some.mpr (stepLeft_eq_some.mpr ⟨mv', hmv', rfl⟩)⟩

theorem settles_of_path (hleft : n.left.Even) (hright : n.right.Even)
    (hpath : Relation.ReflTransGen UnitStep n final) (hfinal : ∀ x, ¬ UnitStep final x) :
    n.Settles final := by
  obtain ⟨bound, hbound⟩ := Path.of_reflTransGen hpath
  refine ⟨fun x hx => ?_, bound, fun k x hk => ?_⟩
  · obtain ⟨y, hy⟩ := exists_unitStep hx
    exact hfinal y hy
  · obtain ⟨k', hle, hk'⟩ := exists_path_of_path hleft hright hk
    obtain ⟨j, hj, hrest⟩ := Path.rest_of_diamond diamond hfinal hbound hk'
    refine ⟨by omega, ?_⟩
    cases hrest with
    | nil => exact .inl rfl
    | cons head _ =>
      obtain ⟨side, head⟩ := head
      exact .inr ⟨_, side, 0, head⟩

/-! ## Runs of one side -/

theorem unitStep_left {left next : Io ε α} {right : Io ε' β} {toLeft toRight sent : List UInt8}
    {rightClosed : Bool}
    (h : left.move 0 (rightClosed || right.failed) toLeft = some ⟨next, taken, sent, false⟩) :
    UnitStep (mk left right toLeft toRight false rightClosed)
      ⟨next, right, toLeft.drop taken, toRight ++ sent, false, rightClosed⟩ :=
  ⟨.left, stepLeft_eq_some.mpr ⟨_, h, rfl⟩⟩

theorem left_run {γ : Type} {p : Io ε γ} {f : γ → Io ε α} {a : γ} {right : Io ε' β}
    {input rest sent toRight : List UInt8} {rightClosed : Bool}
    (h : p.Yields input (.ret a) rest sent) :
    Relation.ReflTransGen UnitStep (mk (p >>= f) right input toRight false rightClosed)
      ⟨f a, right, rest, toRight ++ sent, false, rightClosed⟩ := by
  obtain ⟨sizes', hrun⟩ := h fun _ => 0
  clear h
  induction p generalizing input toRight sent with
  | ret b =>
    cases hrun
    rw [append_nil, Io.ret_bind]
  | fail | stop | close => cases hrun
  | flush k ih =>
    apply Relation.ReflTransGen.head (unitStep_left rfl)
    rw [append_nil]
    exact ih hrun
  | read c k ih =>
    rw [Io.exec] at hrun
    split at hrun
    case isTrue hc =>
      subst hc
      apply Relation.ReflTransGen.head (unitStep_left rfl)
      rw [append_nil]
      exact ih [] hrun
    case isFalse hc =>
      split at hrun
      case isTrue => cases hrun
      case isFalse hinput =>
        have hpos := length_pos_of_ne_nil hinput
        apply Relation.ReflTransGen.head (unitStep_left (Io.move_read hc hinput))
        rw [append_nil, length_take_of_le (by omega)]
        exact ih _ hrun
  | write data k ih =>
    rw [Io.exec] at hrun
    rcases hk : (k (min (0 + 1) data.length)).exec (fun _ => 0) input with ⟨r, mid, sent', sizes₂⟩
    rw [hk] at hrun
    cases hrun
    apply Relation.ReflTransGen.head (unitStep_left rfl)
    rw [← append_assoc]
    exact ih _ hk

theorem right_run {p : Io ε' γ} {f : γ → Io ε' β} {a : γ} {left : Io ε α}
    {input rest sent toLeft : List UInt8} {leftClosed : Bool}
    (h : p.Yields input (.ret a) rest sent) :
    Relation.ReflTransGen UnitStep (mk left (p >>= f) toLeft input leftClosed false)
      ⟨left, f a, toLeft ++ sent, rest, leftClosed, false⟩ := by
  have hswap : Relation.ReflTransGen UnitStep (mk (p >>= f) left input toLeft false leftClosed)
      ⟨f a, left, rest, toLeft ++ sent, false, leftClosed⟩ := left_run h
  exact hswap.lift swap fun _ _ h => h.swap

end Net

end Libp2pRs.Lib
