import Mathlib.Data.List.DropRight
import Mathlib.Data.String.Basic

/-!
# Texts and numbers written in them

Texts are lists of characters, and offsets into them count the bytes of their UTF-8 form. A cut
inside of a character has no result. The functions are those of the Rust standard library.

* `splitBytes_two`: the cut two bytes from the front, which has no result where it `Straddles`.
* `lines_append`: the first line of a text.
* `u8FromStrRadix_pair`: the numbers that two characters are read as.
-/

namespace Libp2pRs.Lib.Text

open List String

/-! ## Offsets -/

def splitBytes : Nat → List Char → Option (List Char × List Char)
  | 0, cs => some ([], cs)
  | _ + 1, [] => none
  | n + 1, c :: cs =>
    if c.utf8Size ≤ n + 1 then
      (splitBytes (n + 1 - c.utf8Size) cs).map fun (front, back) => (c :: front, back)
    else none

def slice (start stop : Nat) (s : List Char) : Option (List Char) := do
  let (_, back) ← splitBytes start s
  let (part, _) ← splitBytes (stop - start) back
  pure part

theorem splitBytes_add {s front back : List Char} (h : splitBytes m s = some (front, back))
    (n : Nat) :
    splitBytes (m + n) s = (splitBytes n back).map fun (mid, rest) => (front ++ mid, rest) := by
  fun_induction splitBytes m s generalizing front with
  | case1 cs =>
    cases h
    simp
  | case2 => cases h
  | case3 m c cs hle ih =>
    obtain ⟨⟨front', back'⟩, hsplit, hpair⟩ := Option.map_eq_some_iff.mp h
    cases hpair
    rw [show m + 1 + n = m + n + 1 by omega, splitBytes, if_pos (by omega),
      show m + n + 1 - c.utf8Size = m + 1 - c.utf8Size + n by omega, ih hsplit, Option.map_map]
    rfl
  | case4 => cases h

theorem slice_add {s front back : List Char} (h : splitBytes m s = some (front, back))
    (start stop : Nat) : slice (m + start) (m + stop) s = slice start stop back := by
  rw [slice, slice, splitBytes_add h, Nat.add_sub_add_left]
  cases splitBytes start back <;> rfl

/-- Texts whose first two bytes are not whole characters. -/
def Straddles : List Char → Prop
  | [] => False
  | [c] => 2 < c.utf8Size
  | c :: d :: _ => 2 < c.utf8Size ∨ c.utf8Size = 1 ∧ 1 < d.utf8Size

theorem splitBytes_two (h : 2 ≤ utf8Len s) :
    Straddles s ∧ splitBytes 2 s = none ∨
      (∃ c rest, s = c :: rest ∧ c.utf8Size = 2 ∧ ¬ Straddles s ∧ splitBytes 2 s = some ([c], rest)) ∨
      ∃ a b rest, s = a :: b :: rest ∧ a.utf8Size = 1 ∧ b.utf8Size = 1 ∧ ¬ Straddles s ∧
        splitBytes 2 s = some ([a, b], rest) := by
  cases s with
  | nil => simp at h
  | cons c rest =>
    have hpos := c.utf8Size_pos
    obtain hone | htwo | hmore : c.utf8Size = 1 ∨ c.utf8Size = 2 ∨ 2 < c.utf8Size := by omega
    · cases rest with
      | nil => simp [hone] at h
      | cons d rest =>
        have hpos' := d.utf8Size_pos
        by_cases hd : d.utf8Size = 1
        · refine .inr (.inr ⟨c, d, rest, rfl, hone, hd, ?_, ?_⟩)
          · simp [Straddles, hone, hd]
          · simp [splitBytes, hone, hd]
        · have hd' : 1 < d.utf8Size := by omega
          refine .inl ⟨.inr ⟨hone, hd'⟩, ?_⟩
          rw [splitBytes, hone, if_pos (by omega), splitBytes, if_neg (by omega), Option.map_none]
    · refine .inr (.inl ⟨c, rest, rfl, htwo, ?_, ?_⟩)
      · cases rest <;> simp [Straddles, htwo]
      · simp [splitBytes, htwo]
    · refine .inl ⟨?_, ?_⟩
      · cases rest
        · exact hmore
        · exact .inl hmore
      · rw [splitBytes, if_neg (by omega)]

/-! ## Lines -/

/-- The parts of a text that end after each occurrence of a character. -/
def splitInclusive (sep : Char) : List Char → List (List Char)
  | [] => []
  | c :: cs =>
    if c = sep then [c] :: splitInclusive sep cs
    else match splitInclusive sep cs with
      | [] => [[c]]
      | part :: parts => (c :: part) :: parts

theorem splitInclusive_append {part : List Char} (h : sep ∉ part) (rest : List Char) :
    splitInclusive sep (part ++ sep :: rest) = (part ++ [sep]) :: splitInclusive sep rest := by
  induction part with
  | nil => rw [nil_append, splitInclusive, if_pos rfl, nil_append]
  | cons c part ih =>
    obtain ⟨hne, hpart⟩ := not_or.mp (mt mem_cons.mpr h)
    rw [cons_append, splitInclusive, if_neg (Ne.symm hne), ih hpart]
    rfl

def stripSuffix (c : Char) (s : List Char) : Option (List Char) :=
  if s.getLast? = some c then some s.dropLast else none

def stripLine (line : List Char) : List Char :=
  match stripSuffix '\n' line with
  | none => line
  | some line => (stripSuffix '\r' line).getD line

def lines (s : List Char) : List (List Char) :=
  (splitInclusive '\n' s).map stripLine

theorem lines_append {line : List Char} (hline : '\n' ∉ line) (hend : '\r' ∉ line)
    (rest : List Char) : lines (line ++ '\n' :: rest) = line :: lines rest := by
  have hlast : line.getLast? ≠ some '\r' := fun h => hend (mem_of_getLast? h)
  rw [lines, splitInclusive_append hline, map_cons, ← lines, stripLine, stripSuffix,
    if_pos getLast?_concat, dropLast_concat]
  dsimp only
  rw [stripSuffix, if_neg hlast]
  rfl

def isWhitespace (c : Char) : Bool :=
  let n := c.toNat
  n == 0x20 || (0x9 ≤ n && n ≤ 0xd) || n == 0x85 || n == 0xa0 || n == 0x1680 ||
    (0x2000 ≤ n && n ≤ 0x200a) || n == 0x2028 || n == 0x2029 || n == 0x202f || n == 0x205f ||
    n == 0x3000

def trimEnd (s : List Char) : List Char := s.rdropWhile isWhitespace

theorem trimEnd_of_forall {s : List Char} (h : ∀ c ∈ s, isWhitespace c = false) :
    trimEnd s = s := by
  refine rdropWhile_eq_self_iff.mpr fun hne => ?_
  rw [h _ (getLast_mem hne)]
  exact Bool.false_ne_true

/-! ## Numbers -/

def toDigit (radix : Nat) (c : Char) : Option Nat :=
  let n := c.toNat
  let digit := if 48 ≤ n ∧ n ≤ 57 then some (n - 48)
    else if 97 ≤ n ∧ n ≤ 122 then some (n - 97 + 10)
    else if 65 ≤ n ∧ n ≤ 90 then some (n - 65 + 10)
    else none
  digit.filter (· < radix)

theorem toDigit_lt (h : toDigit radix c = some x) : x < radix := by
  have := (Option.filter_eq_some_iff.mp h).2
  simpa using this

theorem utf8Size_of_toDigit (h : toDigit radix c = some x) : c.utf8Size = 1 := by
  have hdigit := (Option.filter_eq_some_iff.mp h).1
  have hle : c.toNat ≤ 127 := by
    split_ifs at hdigit <;> omega
  exact Char.utf8Size_eq_one_iff.mpr (UInt32.le_iff_toNat_le.mpr hle)

/-- The kinds of a `ParseIntError` of an unsigned number. -/
inductive IntErrorKind
  | empty
  | invalidDigit
  | posOverflow
  deriving DecidableEq, Repr

def pushDigit (radix result : Nat) (c : Char) : Except IntErrorKind Nat :=
  match toDigit radix c with
  | none => .error .invalidDigit
  | some x => if result * radix + x < 256 then .ok (result * radix + x) else .error .posOverflow

/-- `u8::from_str_radix`. A sign in front of a digit is taken when it is `+`. -/
def u8FromStrRadix (src : List Char) (radix : Nat) : Except IntErrorKind UInt8 :=
  match src with
  | [] => .error .empty
  | ['+'] => .error .invalidDigit
  | ['-'] => .error .invalidDigit
  | '+' :: digits => UInt8.ofNat <$> digits.foldlM (pushDigit radix) 0
  | digits => UInt8.ofNat <$> digits.foldlM (pushDigit radix) 0

/-- What the first of two characters adds to the number: a sign counts as a zero. -/
def signOrDigit (c : Char) : Option Nat :=
  if c = '+' then some 0 else toDigit 16 c

theorem utf8Size_of_signOrDigit (h : signOrDigit c = some x) : c.utf8Size = 1 := by
  unfold signOrDigit at h
  split_ifs at h with hc
  · rw [hc]
    decide
  · exact utf8Size_of_toDigit h

theorem pushDigit_eq_ok_iff (hacc : acc < 16) :
    pushDigit 16 acc c = .ok n ↔ ∃ x, toDigit 16 c = some x ∧ n = acc * 16 + x := by
  unfold pushDigit
  cases hx : toDigit 16 c with
  | none => simp
  | some x =>
    have hlt : acc * 16 + x < 256 := by
      have := toDigit_lt hx
      omega
    simp [hlt, eq_comm]

theorem u8FromStrRadix_pair {a b : Char} {v : UInt8} :
    u8FromStrRadix [a, b] 16 = .ok v ↔
      ∃ x y, signOrDigit a = some x ∧ toDigit 16 b = some y ∧ v = UInt8.ofNat (16 * x + y) := by
  have hmap : ∀ result : Except IntErrorKind Nat,
      UInt8.ofNat <$> result = .ok v ↔ ∃ n, result = .ok n ∧ v = UInt8.ofNat n := by
    intro result
    cases result <;> simp [eq_comm]
  have hstep : ∀ acc < 16, (UInt8.ofNat <$> [b].foldlM (pushDigit 16) acc) = .ok v ↔
      ∃ y, toDigit 16 b = some y ∧ v = UInt8.ofNat (16 * acc + y) := by
    intro acc hacc
    have hlast : [b].foldlM (pushDigit 16) acc = pushDigit 16 acc b := by
      simp
    rw [hlast, hmap]
    simp only [pushDigit_eq_ok_iff hacc]
    grind
  by_cases ha : a = '+'
  · subst ha
    exact (hstep 0 (by decide)).trans (by simp [signOrDigit])
  · have hread : u8FromStrRadix [a, b] 16 = UInt8.ofNat <$> [a, b].foldlM (pushDigit 16) 0 := by
      unfold u8FromStrRadix
      split <;> simp_all
    rw [hread, foldlM_cons]
    cases hx : toDigit 16 a with
    | none =>
      have hpush : pushDigit 16 0 a = .error .invalidDigit := by simp only [pushDigit, hx]
      rw [hpush]
      exact ⟨nofun, by simp [signOrDigit, ha, hx]⟩
    | some x =>
      have hpush : pushDigit 16 0 a = .ok x :=
        (pushDigit_eq_ok_iff (by decide)).mpr ⟨x, hx, by omega⟩
      rw [hpush]
      exact (hstep x (toDigit_lt hx)).trans (by simp [signOrDigit, ha, hx])

theorem u8FromStrRadix_single {c : Char} (h : c.utf8Size = 2) :
    u8FromStrRadix [c] 16 = .error .invalidDigit := by
  have hdigit : toDigit 16 c = none := by
    cases hx : toDigit 16 c with
    | none => rfl
    | some x =>
      rw [utf8Size_of_toDigit hx] at h
      cases h
  unfold u8FromStrRadix
  split
  case h_5 => simp_all [pushDigit]
  all_goals simp_all

end Libp2pRs.Lib.Text
