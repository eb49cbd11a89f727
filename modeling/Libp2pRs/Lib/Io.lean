import Mathlib

/-!
# Sequential programs over a byte stream

An `Io` program reads, writes, flushes and closes one byte stream and ends with a value or an
error. A read asks for at most some number of bytes and gets a part of them, a write offers some
bytes and a part of them is accepted: how large the parts are is up to the environment. At the end
of the stream a read gets no bytes.
-/

namespace Libp2pRs.Lib

open List

/-- Why a program ends without a result. -/
inductive Stop where
  | panicked
  | spent
  deriving DecidableEq, Repr

inductive Io (ε α : Type) where
  | ret (a : α)
  | fail (e : ε)
  | stop (why : Stop)
  | read (n : Nat) (k : List UInt8 → Io ε α)
  | write (data : List UInt8) (k : Nat → Io ε α)
  | flush (k : Io ε α)
  | close (k : Io ε α)

namespace Io

variable {ε ε' α β γ : Type}

protected def bind : Io ε α → (α → Io ε β) → Io ε β
  | ret a, f => f a
  | fail e, _ => fail e
  | stop why, _ => stop why
  | read n k, f => read n (fun got => (k got).bind f)
  | write data k, f => write data (fun n => (k n).bind f)
  | flush k, f => flush (k.bind f)
  | close k, f => close (k.bind f)

instance : Monad (Io ε) where
  pure := ret
  bind := Io.bind

def mapError (g : ε → ε') : Io ε α → Io ε' α
  | ret a => ret a
  | fail e => fail (g e)
  | stop why => stop why
  | read n k => read n (fun got => (k got).mapError g)
  | write data k => write data (fun n => (k n).mapError g)
  | flush k => flush (k.mapError g)
  | close k => close (k.mapError g)

def lift : Except ε α → Io ε α
  | .ok a => ret a
  | .error e => fail e

section Equations

variable (f : α → Io ε β)

@[simp] theorem ret_bind (a : α) : ret a >>= f = f a := rfl
@[simp] theorem read_bind (n : Nat) (k : List UInt8 → Io ε α) :
    read n k >>= f = read n (fun got => k got >>= f) := rfl
@[simp] theorem write_bind (data : List UInt8) (k : Nat → Io ε α) :
    write data k >>= f = write data (fun n => k n >>= f) := rfl
@[simp] theorem flush_bind (k : Io ε α) : flush k >>= f = flush (k >>= f) := rfl
@[simp] theorem close_bind (k : Io ε α) : close k >>= f = close (k >>= f) := rfl

end Equations

theorem bind_bind (p : Io ε α) (f : α → Io ε β) (g : β → Io ε γ) :
    p >>= f >>= g = p >>= fun a => f a >>= g := by
  induction p with
  | ret | fail | stop => rfl
  | read n k ih => simp only [read_bind, ih]
  | write data k ih => simp only [write_bind, ih]
  | flush k ih => simp only [flush_bind, ih]
  | close k ih => simp only [close_bind, ih]

/-- Repeats a program and collects the results. -/
def times (p : Io ε α) : Nat → Io ε (List α)
  | 0 => ret []
  | n + 1 => do
    let a ← p
    let rest ← p.times n
    return a :: rest

/-! ## The loops over partial transfers -/

def readExact (eof : ε) (n : Nat) : Io ε (List UInt8) :=
  if n = 0 then ret []
  else read n fun got =>
    if got = [] then fail eof else readExact eof (n - got.length) >>= fun rest => ret (got ++ rest)
termination_by n
decreasing_by
  rename_i hgot
  have := List.length_pos_of_ne_nil hgot
  omega

def writeAll (zero : ε) (data : List UInt8) : Io ε Unit :=
  if data = [] then ret ()
  else write data fun n => if n = 0 then fail zero else writeAll zero (data.drop n)
termination_by data.length
decreasing_by
  rename_i hdata hn
  have := List.length_pos_of_ne_nil hdata
  rw [List.length_drop]
  omega

/-! ## Runs on an open stream -/

inductive Result (ε α : Type) where
  | ret (a : α)
  | fail (e : ε)
  | stop (why : Stop)
  /-- The program waits for input. -/
  | waiting
  /-- The program closes the stream. -/
  | closing
  deriving DecidableEq, Repr

/-- The result, the input that is left, what was written, and the sizes for what follows. -/
structure Run (ε α : Type) where
  result : Result ε α
  rest : List UInt8
  sent : List UInt8
  sizes : Nat → Nat

/-- Runs a program on a stream with this input. The next transfer moves one byte more than
`sizes 0`, or all there is. -/
def exec : Io ε α → (Nat → Nat) → List UInt8 → Run ε α
  | ret a, sizes, input => ⟨.ret a, input, [], sizes⟩
  | fail e, sizes, input => ⟨.fail e, input, [], sizes⟩
  | stop why, sizes, input => ⟨.stop why, input, [], sizes⟩
  | read n k, sizes, input =>
    if n = 0 then (k []).exec sizes input
    else if input = [] then ⟨.waiting, [], [], sizes⟩
    else
      let c := min (sizes 0 + 1) n
      (k (input.take c)).exec (fun i => sizes (i + 1)) (input.drop c)
  | write data k, sizes, input =>
    let c := min (sizes 0 + 1) data.length
    let run := (k c).exec (fun i => sizes (i + 1)) input
    { run with sent := data.take c ++ run.sent }
  | flush k, sizes, input => k.exec sizes input
  | close _, sizes, input => ⟨.closing, input, [], sizes⟩

/-- What follows the last byte of a stream. -/
inductive Ending (ε : Type) where
  | pending
  | eof
  | broken (e : ε)
  deriving DecidableEq, Repr

/-- A read at the end of the stream, where the program goes on without bytes. -/
def Ending.read (ending : Ending ε) (sizes : Nat → Nat) (goOn : Run ε α) : Run ε α :=
  match ending with
  | .pending => ⟨.waiting, [], [], sizes⟩
  | .eof => goOn
  | .broken e => ⟨.fail e, [], [], sizes⟩

/-- Runs a program on a stream with this input and this end. -/
def execUntil (ending : Ending ε) : Io ε α → (Nat → Nat) → List UInt8 → Run ε α
  | ret a, sizes, input => ⟨.ret a, input, [], sizes⟩
  | fail e, sizes, input => ⟨.fail e, input, [], sizes⟩
  | stop why, sizes, input => ⟨.stop why, input, [], sizes⟩
  | read n k, sizes, input =>
    if n = 0 then (k []).execUntil ending sizes input
    else if input = [] then ending.read sizes ((k []).execUntil ending sizes [])
    else
      let c := min (sizes 0 + 1) n
      (k (input.take c)).execUntil ending (fun i => sizes (i + 1)) (input.drop c)
  | write data k, sizes, input =>
    let c := min (sizes 0 + 1) data.length
    let run := (k c).execUntil ending (fun i => sizes (i + 1)) input
    { run with sent := data.take c ++ run.sent }
  | flush k, sizes, input => k.execUntil ending sizes input
  | close _, sizes, input => ⟨.closing, input, [], sizes⟩

theorem execUntil_pending (p : Io ε α) (sizes : Nat → Nat) (input : List UInt8) :
    p.execUntil .pending sizes input = p.exec sizes input := by
  induction p generalizing sizes input with
  | ret | fail | stop | close => rfl
  | flush k ih => exact ih sizes input
  | read n k ih =>
    rw [execUntil, exec]
    split
    · exact ih [] sizes input
    · split
      · rfl
      · exact ih _ _ _
  | write data k ih =>
    rw [execUntil, exec, ih]

/-- No buffer that the program reads into has more than `n` bytes. -/
def Within (n : Nat) : Io ε α → Prop
  | ret _ | fail _ | stop _ => True
  | read m k => m ≤ n ∧ ∀ got, (k got).Within n
  | write _ k => ∀ m, (k m).Within n
  | flush k | close k => k.Within n

theorem Within.mono {m n : Nat} {p : Io ε α} (hp : p.Within m) (hle : m ≤ n) : p.Within n := by
  induction p with
  | ret | fail | stop => trivial
  | read l k ih => exact ⟨hp.1.trans hle, fun got => ih got (hp.2 got)⟩
  | write data k ih => exact fun l => ih l (hp l)
  | flush k ih | close k ih => exact ih hp

theorem Within.bind {n : Nat} {p : Io ε α} {f : α → Io ε β} (hp : p.Within n)
    (hf : ∀ a, (f a).Within n) : (p >>= f).Within n := by
  induction p with
  | ret a => exact hf a
  | fail | stop => trivial
  | read m k ih => exact ⟨hp.1, fun got => ih got (hp.2 got)⟩
  | write data k ih => exact fun m => ih m (hp m)
  | flush k ih | close k ih => exact ih hp

theorem within_readExact (eof : ε) (n : Nat) : (readExact eof n).Within n := by
  induction n using Nat.strongRecOn with
  | ind n ih =>
    rw [readExact]
    split
    case isTrue => trivial
    case isFalse hn =>
      refine ⟨Nat.le_refl n, fun got => ?_⟩
      dsimp only
      split
      case isTrue => trivial
      case isFalse hgot =>
        have hpos := length_pos_of_ne_nil hgot
        apply Within.bind
        · exact (ih (n - got.length) (by omega)).mono (by omega)
        · exact fun rest => trivial

/-- The program has returned, or it waits for bytes that may still come. -/
def Result.Returns (ending : Ending ε) : Result ε α → Prop
  | .ret _ | .fail _ => True
  | .waiting => ending = .pending
  | .stop _ | .closing => False

/-- Whatever the sizes of the transfers are, the program takes the front of the input, leaves
`rest`, writes `sent` and ends with the result. -/
def Yields (p : Io ε α) (input : List UInt8) (r : Result ε α) (rest sent : List UInt8) : Prop :=
  ∀ sizes, ∃ sizes', p.exec sizes input = ⟨r, rest, sent, sizes'⟩

namespace Yields

variable {p : Io ε α} {f : α → Io ε β} {a : α} {e : ε} {input mid rest : List UInt8}
  {sent sent₁ sent₂ : List UInt8}

theorem ret (a : α) (input : List UInt8) : Yields (ret a : Io ε α) input (.ret a) input [] :=
  fun sizes => ⟨sizes, rfl⟩

theorem fail (e : ε) (input : List UInt8) : Yields (fail e : Io ε α) input (.fail e) input [] :=
  fun sizes => ⟨sizes, rfl⟩

theorem flush (h : Yields p input r rest sent) : Yields p.flush input r rest sent := h

end Yields

theorem execUntil_bind (ending : Ending ε) (p : Io ε α) (f : α → Io ε β) (sizes : Nat → Nat)
    (input : List UInt8) :
    (p >>= f).execUntil ending sizes input = match p.execUntil ending sizes input with
      | ⟨.ret a, mid, sent, sizes'⟩ =>
        let run := (f a).execUntil ending sizes' mid
        { run with sent := sent ++ run.sent }
      | ⟨.fail e, mid, sent, sizes'⟩ => ⟨.fail e, mid, sent, sizes'⟩
      | ⟨.stop why, mid, sent, sizes'⟩ => ⟨.stop why, mid, sent, sizes'⟩
      | ⟨.waiting, mid, sent, sizes'⟩ => ⟨.waiting, mid, sent, sizes'⟩
      | ⟨.closing, mid, sent, sizes'⟩ => ⟨.closing, mid, sent, sizes'⟩ := by
  induction p generalizing sizes input with
  | ret | fail | stop | close => rfl
  | flush k ih => exact ih sizes input
  | read n k ih =>
    rw [read_bind, execUntil, execUntil]
    split
    · exact ih [] sizes input
    · split
      · cases ending with
        | pending | broken => rfl
        | eof => exact ih [] sizes []
      · exact ih _ _ _
  | write data k ih =>
    rw [write_bind, execUntil, execUntil]
    rw [ih]
    rcases (k _).execUntil ending _ input with ⟨r, mid, sent, sizes'⟩
    cases r <;> simp only [append_assoc]

theorem exec_bind (p : Io ε α) (f : α → Io ε β) (sizes : Nat → Nat) (input : List UInt8) :
    (p >>= f).exec sizes input = match p.exec sizes input with
      | ⟨.ret a, mid, sent, sizes'⟩ =>
        let run := (f a).exec sizes' mid
        { run with sent := sent ++ run.sent }
      | ⟨.fail e, mid, sent, sizes'⟩ => ⟨.fail e, mid, sent, sizes'⟩
      | ⟨.stop why, mid, sent, sizes'⟩ => ⟨.stop why, mid, sent, sizes'⟩
      | ⟨.waiting, mid, sent, sizes'⟩ => ⟨.waiting, mid, sent, sizes'⟩
      | ⟨.closing, mid, sent, sizes'⟩ => ⟨.closing, mid, sent, sizes'⟩ := by
  rw [← execUntil_pending, execUntil_bind, execUntil_pending]
  simp only [execUntil_pending]

theorem execUntil_read_one (ending : Ending ε) (k : List UInt8 → Io ε α) (sizes : Nat → Nat)
    (b : UInt8) (input : List UInt8) :
    (read 1 k).execUntil ending sizes (b :: input) =
      (k [b]).execUntil ending (fun i => sizes (i + 1)) input := by
  rw [execUntil, if_neg Nat.one_ne_zero, if_neg (cons_ne_nil b input)]
  have hone : min (sizes 0 + 1) 1 = 1 := by omega
  simp only [hone, take_succ_cons, take_zero, drop_succ_cons, drop_zero]

theorem returns_bind {ending : Ending ε} {p : Io ε α} {f : α → Io ε β} {sizes : Nat → Nat}
    {input : List UInt8} (hp : (p.execUntil ending sizes input).result.Returns ending)
    (hf : ∀ a sizes' mid, ((f a).execUntil ending sizes' mid).result.Returns ending) :
    ((p >>= f).execUntil ending sizes input).result.Returns ending := by
  rw [execUntil_bind]
  generalize p.execUntil ending sizes input = run at hp
  obtain ⟨r, mid, sent, sizes'⟩ := run
  match r with
  | .ret a => exact hf a sizes' mid
  | .fail e => trivial
  | .waiting => exact hp

/-! ## What a program takes -/

section Takes

/-- Whatever the program reads, it returns, and if it returns a value, `Q` holds of the value and of the
bytes that it has taken. -/
def Takes : Io ε α → (α → List UInt8 → Prop) → Prop
  | ret a, Q => Q a []
  | fail _, _ => True
  | stop _, _ | close _, _ => False
  | read n k, Q => n ≠ 0 ∧ ∀ got, got.length ≤ n → (k got).Takes fun a taken => Q a (got ++ taken)
  | write _ k, Q => ∀ n, (k n).Takes Q
  | flush k, Q => k.Takes Q

variable {p : Io ε α} {Q : α → List UInt8 → Prop}

theorem Takes.bind {f : α → Io ε β} {R : β → List UInt8 → Prop} (hp : p.Takes Q)
    (hf : ∀ a taken, Q a taken → (f a).Takes fun b more => R b (taken ++ more)) :
    (p >>= f).Takes R := by
  induction p generalizing Q R with
  | ret a => exact hf a [] hp
  | fail => trivial
  | stop | close => exact hp.elim
  | read n k ih =>
    refine ⟨hp.1, fun got hgot => ih got (hp.2 got hgot) fun a taken hQ => ?_⟩
    simpa only [append_assoc] using hf a _ hQ
  | write data k ih => exact fun n => ih n (hp n) hf
  | flush k ih => exact ih hp hf

theorem Takes.mapError (hp : p.Takes Q) (g : ε → ε') : (p.mapError g).Takes Q := by
  induction p generalizing Q with
  | ret | fail => exact hp
  | stop | close => exact hp.elim
  | read n k ih => exact ⟨hp.1, fun got hgot => ih got (hp.2 got hgot)⟩
  | write data k ih => exact fun n => ih n (hp n)
  | flush k ih => exact ih hp

theorem takes_readExact (eof : ε) (n : Nat) :
    (readExact eof n).Takes fun data taken => data = taken ∧ taken.length = n := by
  induction n using Nat.strongRecOn with
  | ind n ih =>
    rw [readExact]
    split
    case isTrue hn => exact ⟨rfl, hn.symm⟩
    case isFalse hn =>
      refine ⟨hn, fun got hgot => ?_⟩
      dsimp only
      split
      case isTrue => trivial
      case isFalse hne =>
        have hpos := length_pos_of_ne_nil hne
        refine (ih (n - got.length) (by omega)).bind fun data taken ⟨hdata, hlen⟩ => ?_
        refine ⟨by rw [hdata, append_nil], ?_⟩
        rw [append_nil, length_append]
        omega

theorem Takes.sound (hp : p.Takes Q) (ending : Ending ε) (sizes : Nat → Nat) (input : List UInt8) :
    let run := p.execUntil ending sizes input
    run.result.Returns ending ∧
      ∀ a, run.result = .ret a → ∃ taken, input = taken ++ run.rest ∧ Q a taken := by
  induction p generalizing Q sizes input with
  | ret a => exact ⟨trivial, fun b hb => ⟨[], rfl, Result.ret.inj hb ▸ hp⟩⟩
  | fail => exact ⟨trivial, nofun⟩
  | stop | close => exact hp.elim
  | read n k ih =>
    rw [execUntil, if_neg hp.1]
    split
    case isTrue hinput =>
      subst hinput
      cases ending with
      | pending => exact ⟨rfl, nofun⟩
      | eof => exact ih [] (hp.2 [] (Nat.zero_le n)) sizes []
      | broken e => exact ⟨trivial, nofun⟩
    case isFalse =>
      generalize hc : min (sizes 0 + 1) n = c
      have hlen : (input.take c).length ≤ n := by
        rw [length_take]
        omega
      obtain ⟨hreturns, hret⟩ := ih _ (hp.2 _ hlen) (fun i => sizes (i + 1)) (input.drop c)
      refine ⟨hreturns, fun a ha => ?_⟩
      obtain ⟨taken, htaken, hQ⟩ := hret a ha
      refine ⟨_, ?_, hQ⟩
      rw [append_assoc, ← htaken, take_append_drop]
  | write data k ih => exact ih _ (hp _) _ input
  | flush k ih => exact ih hp sizes input

end Takes

theorem returns_readExact (ending : Ending ε) (eof : ε) (n : Nat) (sizes : Nat → Nat)
    (input : List UInt8) :
    ((readExact eof n).execUntil ending sizes input).result.Returns ending :=
  ((takes_readExact eof n).sound ending sizes input).1

namespace Yields

variable {p : Io ε α} {f : α → Io ε β} {a : α} {e : ε} {input mid rest : List UInt8}
  {sent sent₁ sent₂ : List UInt8}

theorem bind {r : Result ε β} (hp : Yields p input (.ret a) mid sent₁)
    (hf : Yields (f a) mid r rest sent₂) : Yields (p >>= f) input r rest (sent₁ ++ sent₂) := by
  intro sizes
  obtain ⟨sizes₁, h₁⟩ := hp sizes
  obtain ⟨sizes₂, h₂⟩ := hf sizes₁
  refine ⟨sizes₂, ?_⟩
  rw [exec_bind, h₁]
  simp only [h₂]

theorem bind_read (hp : Yields p input (.ret a) mid [])
    (hf : Yields (f a) mid r rest sent) : Yields (p >>= f) input r rest sent :=
  hp.bind hf

theorem bind_fail (hp : Yields p input (.fail e) rest sent) :
    Yields (p >>= f) input (.fail e) rest sent := by
  intro sizes
  obtain ⟨sizes', h⟩ := hp sizes
  refine ⟨sizes', ?_⟩
  rw [exec_bind, h]

theorem read_one (h : Yields (k [b]) input r rest sent) :
    Yields (read 1 k) (b :: input) r rest sent := by
  intro sizes
  obtain ⟨sizes', h'⟩ := h fun i => sizes (i + 1)
  refine ⟨sizes', ?_⟩
  rw [exec, if_neg Nat.one_ne_zero, if_neg (cons_ne_nil b input)]
  have hone : min (sizes 0 + 1) 1 = 1 := by omega
  simp only [hone, take_succ_cons, take_zero, drop_succ_cons, drop_zero, h']

theorem readExact (eof : ε) (data rest : List UInt8) :
    Yields (readExact eof data.length) (data ++ rest) (.ret data) rest [] := by
  induction hn : data.length using Nat.strongRecOn generalizing data with
  | ind n ih =>
    intro sizes
    rw [Io.readExact]
    split
    case isTrue h =>
      obtain rfl : data = [] := eq_nil_of_length_eq_zero (by omega)
      exact ⟨sizes, rfl⟩
    case isFalse h =>
      have hinput : data ++ rest ≠ [] := by
        intro hnil
        rw [append_eq_nil_iff] at hnil
        rw [hnil.1, length_nil] at hn
        omega
      -- the first part is a proper part of the data
      generalize hc : min (sizes 0 + 1) n = c
      have hle : c ≤ data.length := by omega
      have hlen : (data.take c).length = c := length_take_of_le hle
      have htake : (data ++ rest).take c = data.take c := take_append_of_le_length hle
      have hdrop : (data ++ rest).drop c = data.drop c ++ rest := drop_append_of_le_length hle
      have hne : data.take c ≠ [] := by
        intro hnil
        rw [hnil, length_nil] at hlen
        omega
      obtain ⟨sizes', hrest⟩ := ih (n - c) (by omega) (data.drop c)
        (by rw [length_drop, hn]) (fun i => sizes (i + 1))
      refine ⟨sizes', ?_⟩
      rw [exec, if_neg h, if_neg hinput, hc]
      simp only [htake, hdrop, if_neg hne, hlen, exec_bind, hrest, exec, append_nil,
        take_append_drop]

theorem writeAll (zero : ε) (data input : List UInt8) :
    Yields (writeAll zero data) input (.ret ()) input data := by
  induction hn : data.length using Nat.strongRecOn generalizing data with
  | ind n ih =>
    intro sizes
    rw [Io.writeAll]
    split
    case isTrue h =>
      subst h
      exact ⟨sizes, rfl⟩
    case isFalse h =>
      have hpos := length_pos_of_ne_nil h
      generalize hc : min (sizes 0 + 1) data.length = c
      obtain ⟨sizes', hrest⟩ := ih (n - c) (by omega) (data.drop c)
        (by rw [length_drop, hn]) (fun i => sizes (i + 1))
      refine ⟨sizes', ?_⟩
      have hzero : c ≠ 0 := by omega
      rw [exec, hc]
      simp only [if_neg hzero, hrest, take_append_drop]

theorem times {write : α → List UInt8}
    (h : ∀ a ∈ as, ∀ rest, Yields p (write a ++ rest) (.ret a) rest []) (rest : List UInt8) :
    Yields (p.times as.length) (as.flatMap write ++ rest) (.ret as) rest [] := by
  induction as with
  | nil => exact .ret [] rest
  | cons a as ih =>
    rw [flatMap_cons, append_assoc, length_cons, Io.times]
    apply bind_read (h a mem_cons_self _)
    apply bind_read (ih fun b hb => h b (mem_cons_of_mem a hb))
    exact .ret (a :: as) rest

theorem forM {write : β → Io ε PUnit} {bs : List β}
    (h : ∀ b ∈ bs, Yields (write b) input (.ret ⟨⟩) input (encode b)) :
    Yields (bs.forM write) input (.ret ⟨⟩) input (bs.flatMap encode) := by
  induction bs with
  | nil => exact .ret PUnit.unit input
  | cons b bs ih =>
    apply (h b mem_cons_self).bind
    exact ih fun b' hb' => h b' (mem_cons_of_mem b hb')

theorem mapError (g : ε → ε') (h : Yields p input (.ret a) rest sent) :
    Yields (p.mapError g) input (.ret a) rest sent := by
  intro sizes
  obtain ⟨sizes', hrun⟩ := h sizes
  refine ⟨sizes', ?_⟩
  clear h
  induction p generalizing sizes input sent with
  | ret b => cases hrun; rfl
  | fail e | stop why | close k => cases hrun
  | flush k ih => exact ih sizes hrun
  | read n k ih =>
    rw [Io.mapError, exec]
    rw [exec] at hrun
    split
    case isTrue hn =>
      rw [if_pos hn] at hrun
      exact ih [] sizes hrun
    case isFalse hn =>
      rw [if_neg hn] at hrun
      split
      case isTrue hin =>
        rw [if_pos hin] at hrun
        cases hrun
      case isFalse hin =>
        rw [if_neg hin] at hrun
        exact ih _ _ hrun
  | write data k ih =>
    rw [exec] at hrun
    rw [Io.mapError, exec]
    generalize hc : min (sizes 0 + 1) data.length = c at hrun ⊢
    rcases hk : (k c).exec (fun i => sizes (i + 1)) input with ⟨r, mid, sent', sizes₂⟩
    rw [hk] at hrun
    cases hrun
    simp only [ih c _ hk]

end Yields

end Io

end Libp2pRs.Lib
