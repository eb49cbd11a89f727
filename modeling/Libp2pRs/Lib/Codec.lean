import Mathlib

/-!
# Byte codecs

A parser takes a value from the front of a byte string. It is exact for a writer when it accepts
what the writer produces, whatever follows, and nothing else.

* `Parser.exactOn_take`: a fixed number of bytes.
* `Parser.exactOn_varint`: numbers in base 128, of which the longer forms are rejected.
* `Parser.exactOn_prefixed`: bytes behind their length.
* `beNat_beBytes`, `beBytes_beNat`: numbers of a fixed width, the most significant byte first.
-/

namespace Libp2pRs.Lib

open List

theorem bind_eq_ok_iff {ε α β : Type} {x : Except ε α} {f : α → Except ε β} {b : β} :
    x >>= f = .ok b ↔ ∃ a, x = .ok a ∧ f a = .ok b := by
  cases x <;> simp [bind, Except.bind]

/-! ## Numbers of a fixed width -/

/-- The `k` bytes of a number, the most significant first. -/
def beBytes (k n : Nat) : List UInt8 := (List.range k).reverse.map (fun i => UInt8.ofNat (n / 256 ^ i))

/-- The number that bytes denote, the most significant first. -/
def beNat (bytes : List UInt8) : Nat := bytes.foldl (fun n b => n * 256 + b.toNat) 0

@[simp] theorem length_beBytes (k n : Nat) : (beBytes k n).length = k := by
  simp [beBytes]

theorem beBytes_succ (k n : Nat) : beBytes (k + 1) n = beBytes k (n / 256) ++ [UInt8.ofNat n] := by
  simp only [beBytes, range_succ_eq_map, reverse_cons, map_append, map_cons,
    map_nil, pow_zero, Nat.div_one, ← map_reverse, map_map]
  congr 1
  refine map_congr_left fun i _ => ?_
  simp only [Function.comp_apply, Nat.succ_eq_add_one, pow_succ']
  rw [Nat.div_div_eq_div_mul]

theorem beNat_concat (bytes : List UInt8) (b : UInt8) :
    beNat (bytes ++ [b]) = beNat bytes * 256 + b.toNat := by
  simp [beNat]

theorem beNat_append (a b : List UInt8) : beNat (a ++ b) = beNat a * 256 ^ b.length + beNat b := by
  induction b using reverseRecOn with
  | nil => simp [beNat]
  | append_singleton b c ih =>
    rw [← append_assoc, beNat_concat, beNat_concat, ih, length_append, length_singleton, pow_succ,
      Nat.add_mul, Nat.mul_assoc, Nat.add_assoc]

theorem beNat_replicate_zero (n : Nat) : beNat (replicate n 0) = 0 := by
  induction n with
  | zero => rfl
  | succ n ih =>
    rw [replicate_succ', beNat_concat, ih]
    rfl

variable {k n : Nat}

theorem beNat_beBytes (h : n < 256 ^ k) : beNat (beBytes k n) = n := by
  induction k generalizing n with
  | zero =>
    have hn : n = 0 := by simpa using h
    subst hn
    rfl
  | succ k ih =>
    have hdiv : n / 256 < 256 ^ k := by
      rw [Nat.div_lt_iff_lt_mul (by decide), ← pow_succ]
      exact h
    rw [beBytes_succ, beNat_concat, ih hdiv, UInt8.toNat_ofNat']
    omega

theorem beBytes_beNat (bytes : List UInt8) : beBytes bytes.length (beNat bytes) = bytes := by
  induction bytes using reverseRecOn with
  | nil => rfl
  | append_singleton bytes b ih =>
    have hb : b.toNat < 256 := b.toNat_lt
    have hdiv : (beNat bytes * 256 + b.toNat) / 256 = beNat bytes := by omega
    have hlast : UInt8.ofNat (beNat bytes * 256 + b.toNat) = b := by
      apply UInt8.toNat_inj.mp
      rw [UInt8.toNat_ofNat']
      omega
    rw [length_append, length_singleton, beBytes_succ, beNat_concat, hdiv, ih, hlast]

theorem beNat_lt (bytes : List UInt8) : beNat bytes < 256 ^ bytes.length := by
  induction bytes using reverseRecOn with
  | nil => decide
  | append_singleton bytes b ih =>
    have hb : b.toNat < 256 := b.toNat_lt
    rw [beNat_concat, length_append, length_singleton, pow_succ]
    omega

/-! ## Numbers of a variable length -/

variable {bs r : List UInt8}

namespace Varint

inductive Error where
  | insufficient
  | overflow
  | notMinimal
  deriving DecidableEq, Repr

/-- The digits in base 128, the least significant first. All but the last have the high bit
set. -/
def encodeAux : Nat → Nat → List UInt8
  | 0, n => [UInt8.ofNat n]
  | fuel + 1, n =>
    if n < 128 then [UInt8.ofNat n] else UInt8.ofNat (n % 128 + 128) :: encodeAux fuel (n / 128)

def encode (n : Nat) : List UInt8 := encodeAux n n

theorem toNat_ofNat_of_lt (h : n < 256) : (UInt8.ofNat n).toNat = n := by
  rw [UInt8.toNat_ofNat', Nat.mod_eq_of_lt h]

/-- Reads a number of at most `k` bytes. A last digit that is zero belongs to a longer form of a
number. -/
def decode : Nat → List UInt8 → Except Error (Nat × List UInt8)
  | 0, _ => .error .overflow
  | _ + 1, [] => .error .insufficient
  | k + 1, b :: rest =>
    if b.toNat < 128 then .ok (b.toNat, rest)
    else
      match decode k rest with
      | .error e => .error e
      | .ok (n, r) => if n = 0 then .error .notMinimal else .ok (b.toNat - 128 + 128 * n, r)

theorem encodeAux_eq (h : n ≤ fuel) (h' : n ≤ fuel') : encodeAux fuel n = encodeAux fuel' n := by
  induction fuel generalizing fuel' n with
  | zero =>
    have hn : n = 0 := by omega
    subst hn
    cases fuel' <;> rfl
  | succ fuel ih =>
    cases fuel' with
    | zero =>
      have hn : n = 0 := by omega
      subst hn
      rfl
    | succ fuel' =>
      unfold encodeAux
      split
      · rfl
      · congr 1
        exact ih (by omega) (by omega)

theorem encode_of_lt (h : n < 128) : encode n = [UInt8.ofNat n] := by
  unfold encode
  cases n with
  | zero => rfl
  | succ n => rw [encodeAux, if_pos h]

theorem encode_of_ge (h : 128 ≤ n) :
    encode n = UInt8.ofNat (n % 128 + 128) :: encode (n / 128) := by
  unfold encode
  cases n with
  | zero => omega
  | succ n =>
    rw [encodeAux, if_neg (by omega)]
    congr 1
    exact encodeAux_eq (by omega) (by omega)

theorem encode_ne_nil (n : Nat) : encode n ≠ [] := by
  rcases Nat.lt_or_ge n 128 with h | h
  · rw [encode_of_lt h]
    exact cons_ne_nil _ _
  · rw [encode_of_ge h]
    exact cons_ne_nil _ _

theorem length_encode_le (h : n < 128 ^ (k + 1)) : (encode n).length ≤ k + 1 := by
  induction k generalizing n with
  | zero =>
    have hn : n < 128 := by simpa using h
    rw [encode_of_lt hn]
    rfl
  | succ k ih =>
    rcases Nat.lt_or_ge n 128 with hn | hn
    · rw [encode_of_lt hn, length_singleton]
      omega
    · have hdiv : n / 128 < 128 ^ (k + 1) := by
        rw [Nat.div_lt_iff_lt_mul (by decide), ← pow_succ]
        exact h
      rw [encode_of_ge hn, length_cons]
      have := ih hdiv
      omega

theorem decode_encode (h : n < 128 ^ (k + 1)) (r : List UInt8) :
    decode (k + 1) (encode n ++ r) = .ok (n, r) := by
  induction k generalizing n with
  | zero =>
    have hn : n < 128 := by simpa using h
    rw [encode_of_lt hn, cons_append, nil_append, decode, toNat_ofNat_of_lt (by omega), if_pos hn]
  | succ k ih =>
    rcases Nat.lt_or_ge n 128 with hn | hn
    · rw [encode_of_lt hn, cons_append, nil_append, decode, toNat_ofNat_of_lt (by omega), if_pos hn]
    · have hdiv : n / 128 < 128 ^ (k + 1) := by
        rw [Nat.div_lt_iff_lt_mul (by decide), ← pow_succ]
        exact h
      rw [encode_of_ge hn, cons_append, decode, toNat_ofNat_of_lt (by omega),
        if_neg (by omega), ih hdiv]
      dsimp only
      rw [if_neg (by omega)]
      congr 2
      omega

theorem of_decode (h : decode k bs = .ok (n, r)) : n < 128 ^ k ∧ bs = encode n ++ r := by
  induction k generalizing n bs r with
  | zero => cases bs <;> cases h
  | succ k ih =>
    cases bs with
    | nil => cases h
    | cons b rest =>
      rw [decode] at h
      split at h
      case isTrue hb =>
        cases h
        have hpow : 0 < 128 ^ k := Nat.pow_pos (by decide)
        refine ⟨?_, ?_⟩
        · omega
        · rw [encode_of_lt hb, UInt8.ofNat_toNat]
          rfl
      case isFalse hb =>
        split at h
        case h_1 => cases h
        case h_2 m s hm =>
          obtain ⟨hlt, hrest⟩ := ih hm
          split at h
          case isTrue => cases h
          case isFalse hzero =>
            cases h
            have hdiv : (b.toNat - 128 + 128 * m) / 128 = m := by
              have := b.toNat_lt
              omega
            have hmod : UInt8.ofNat ((b.toNat - 128 + 128 * m) % 128 + 128) = b := by
              apply UInt8.toNat_inj.mp
              rw [toNat_ofNat_of_lt (by omega)]
              omega
            refine ⟨?_, ?_⟩
            · omega
            · rw [encode_of_ge (by omega), hdiv, hmod, hrest]
              rfl

/-- Reads a number of at most `k` bytes that may have more digits than it needs. -/
def decodeLoose : Nat → List UInt8 → Except Error (Nat × List UInt8)
  | 0, _ => .error .overflow
  | _ + 1, [] => .error .insufficient
  | k + 1, b :: rest =>
    if b.toNat < 128 then .ok (b.toNat, rest)
    else
      match decodeLoose k rest with
      | .error e => .error e
      | .ok (n, r) => .ok (b.toNat - 128 + 128 * n, r)

/-- Reads a word of `w` bits. Higher bits are lost. -/
def decodeWord (k w : Nat) (bs : List UInt8) : Except Error (Nat × List UInt8) :=
  match decodeLoose k bs with
  | .error e => .error e
  | .ok (n, r) => .ok (n % 2 ^ w, r)

theorem decodeLoose_of_decode (h : decode k bs = .ok (n, r)) : decodeLoose k bs = .ok (n, r) := by
  induction k generalizing n bs r with
  | zero => cases bs <;> cases h
  | succ k ih =>
    cases bs with
    | nil => cases h
    | cons b rest =>
      rw [decode] at h
      rw [decodeLoose]
      split at h
      case isTrue hb => rwa [if_pos hb]
      case isFalse hb =>
        rw [if_neg hb]
        split at h
        case h_1 => cases h
        case h_2 m s hm =>
          rw [ih hm]
          split at h
          case isTrue => cases h
          case isFalse => exact h

theorem decodeLoose_encode (h : n < 128 ^ (k + 1)) (r : List UInt8) :
    decodeLoose (k + 1) (encode n ++ r) = .ok (n, r) :=
  decodeLoose_of_decode (decode_encode h r)

theorem decodeWord_encode (h : n < 128 ^ (k + 1)) (hw : n < 2 ^ w) (r : List UInt8) :
    decodeWord (k + 1) w (encode n ++ r) = .ok (n, r) := by
  rw [decodeWord, decodeLoose_encode h]
  exact congrArg (fun n => Except.ok (n, r)) (Nat.mod_eq_of_lt hw)

theorem length_le_of_decodeLoose (h : decodeLoose k bs = .ok (n, r)) :
    r.length < bs.length ∧ bs.length ≤ k + r.length := by
  induction k generalizing n bs r with
  | zero => cases bs <;> cases h
  | succ k ih =>
    cases bs with
    | nil => cases h
    | cons b rest =>
      rw [decodeLoose] at h
      rw [length_cons]
      split at h
      case isTrue =>
        cases h
        omega
      case isFalse =>
        split at h
        case h_1 => cases h
        case h_2 m s hm =>
          cases h
          have := ih hm
          omega

theorem decodeLoose_of_append (h : decodeLoose k (bs ++ t) = .ok (n, []))
    (ht : t ≠ []) : decodeLoose k bs = .error .insufficient := by
  induction k generalizing n bs with
  | zero => cases h
  | succ k ih =>
    cases bs with
    | nil => rfl
    | cons b rest =>
      rw [cons_append, decodeLoose] at h
      rw [decodeLoose]
      split at h
      case isTrue =>
        have hrest : rest ++ t = [] := congrArg Prod.snd (Except.ok.inj h)
        exact absurd (append_eq_nil_iff.mp hrest).2 ht
      case isFalse hb =>
        rw [if_neg hb]
        split at h
        case h_1 => cases h
        case h_2 m s hm =>
          cases h
          rw [ih hm]

/-! ### Other decoders -/

def Unfinished (bs : List UInt8) : Prop := ∀ b ∈ bs, 128 ≤ b.toNat

/-- What is known of a decoder for numbers of at most `k` bytes. It may accept or reject a number
with more digits than it needs, and a number that has `k` bytes may not fit. -/
structure Decodes (k : Nat) (decode : List UInt8 → Except Error (Nat × List UInt8)) : Prop where
  insufficient : ∀ bs, Unfinished bs → bs.length < k → decode bs = .error .insufficient
  overflow : ∀ bs, Unfinished bs → k ≤ bs.length → decode bs = .error .overflow
  minimal : ∀ bs b, Unfinished bs → bs.length < k → b.toNat < 128 → b ≠ 0 ∨ bs = [] →
    (∃ n, decode (bs ++ [b]) = .ok (n, [])) ∨ decode (bs ++ [b]) = .error .overflow
  notMinimal : ∀ bs, Unfinished bs → bs.length < k → bs ≠ [] →
    (∃ n, decode (bs ++ [0]) = .ok (n, [])) ∨
      ∀ rest, decode (bs ++ 0 :: rest) = .error .notMinimal

variable {b : UInt8}

theorem Unfinished.tail (h : Unfinished (b :: bs)) : ¬ b.toNat < 128 ∧ Unfinished bs :=
  ⟨Nat.not_lt.mpr (h b mem_cons_self), fun c hc => h c (mem_cons_of_mem b hc)⟩

theorem Unfinished.concat (h : Unfinished bs) (hb : 128 ≤ b.toNat) : Unfinished (bs ++ [b]) := by
  intro c hc
  rcases mem_append.mp hc with hc | hc
  · exact h c hc
  · rwa [mem_singleton.mp hc]

theorem decode_unfinished (h : Unfinished bs) :
    decode k bs = .error (if bs.length < k then .insufficient else .overflow) := by
  induction k generalizing bs with
  | zero => rfl
  | succ k ih =>
    match bs with
    | [] => rfl
    | b :: rest =>
      obtain ⟨hb, hrest⟩ := h.tail
      rw [decode, if_neg hb, ih hrest]
      simp only [length_cons, Nat.add_lt_add_iff_right]

theorem decode_finished (h : Unfinished bs) (hlen : bs.length < k) (hb : b.toNat < 128)
    (hne : b ≠ 0 ∨ bs = []) : ∃ n, (b ≠ 0 → n ≠ 0) ∧ decode k (bs ++ [b]) = .ok (n, []) := by
  induction bs generalizing k with
  | nil =>
    obtain ⟨k, rfl⟩ : ∃ j, k = j + 1 := ⟨k - 1, by omega⟩
    refine ⟨b.toNat, fun hzero hnat => hzero (UInt8.toNat_inj.mp hnat), ?_⟩
    rw [nil_append, decode, if_pos hb]
  | cons c bs ih =>
    rw [length_cons] at hlen
    obtain ⟨k, rfl⟩ : ∃ j, k = j + 1 := ⟨k - 1, by omega⟩
    obtain ⟨hc, hbs⟩ := h.tail
    have hzero : b ≠ 0 := hne.resolve_right (cons_ne_nil c bs)
    obtain ⟨n, hn, hdecode⟩ := ih (k := k) hbs (by omega) (.inl hzero)
    have hpos := hn hzero
    refine ⟨c.toNat - 128 + 128 * n, fun _ => by omega, ?_⟩
    rw [cons_append, decode, if_neg hc, hdecode]
    exact if_neg hpos

theorem decode_notMinimal (h : Unfinished bs) (hlen : bs.length < k) (hne : bs ≠ [])
    (rest : List UInt8) : decode k (bs ++ 0 :: rest) = .error .notMinimal := by
  induction bs generalizing k with
  | nil => exact absurd rfl hne
  | cons b bs ih =>
    rw [length_cons] at hlen
    obtain ⟨k, rfl⟩ : ∃ j, k = j + 1 + 1 := ⟨k - 2, by omega⟩
    obtain ⟨hb, hbs⟩ := h.tail
    rw [cons_append, decode, if_neg hb]
    by_cases hlast : bs = []
    · subst hlast
      rfl
    · rw [ih hbs (by omega) hlast]

theorem decodes_decode (k : Nat) : Decodes k (decode k) where
  insufficient bs h hlen := by rw [decode_unfinished h, if_pos hlen]
  overflow bs h hlen := by rw [decode_unfinished h, if_neg (Nat.not_lt.mpr hlen)]
  minimal bs b h hlen hb hne := by
    obtain ⟨n, -, hn⟩ := decode_finished h hlen hb hne
    exact .inl ⟨n, hn⟩
  notMinimal bs h hlen hne := .inr (decode_notMinimal h hlen hne)

theorem decodeLoose_unfinished (h : Unfinished bs) :
    decodeLoose k bs = .error (if bs.length < k then .insufficient else .overflow) := by
  induction k generalizing bs with
  | zero => rfl
  | succ k ih =>
    match bs with
    | [] => rfl
    | b :: rest =>
      obtain ⟨hb, hrest⟩ := h.tail
      rw [decodeLoose, if_neg hb, ih hrest]
      simp only [length_cons, Nat.add_lt_add_iff_right]

theorem decodeLoose_finished (h : Unfinished bs) (hlen : bs.length < k) (hb : b.toNat < 128) :
    ∃ n, decodeLoose k (bs ++ [b]) = .ok (n, []) := by
  induction bs generalizing k with
  | nil =>
    obtain ⟨k, rfl⟩ : ∃ j, k = j + 1 := ⟨k - 1, by omega⟩
    exact ⟨b.toNat, by rw [nil_append, decodeLoose, if_pos hb]⟩
  | cons c bs ih =>
    rw [length_cons] at hlen
    obtain ⟨k, rfl⟩ : ∃ j, k = j + 1 := ⟨k - 1, by omega⟩
    obtain ⟨hc, hbs⟩ := h.tail
    obtain ⟨n, hdecode⟩ := ih (k := k) hbs (by omega)
    exact ⟨c.toNat - 128 + 128 * n, by rw [cons_append, decodeLoose, if_neg hc, hdecode]⟩

theorem decodeWord_finished (w : Nat) (h : Unfinished bs) (hlen : bs.length < k)
    (hb : b.toNat < 128) : ∃ n, decodeWord k w (bs ++ [b]) = .ok (n, []) := by
  obtain ⟨n, hn⟩ := decodeLoose_finished h hlen hb
  exact ⟨n % 2 ^ w, by rw [decodeWord, hn]⟩

theorem decodes_decodeWord (k w : Nat) : Decodes k (decodeWord k w) where
  insufficient bs h hlen := by rw [decodeWord, decodeLoose_unfinished h, if_pos hlen]
  overflow bs h hlen := by
    rw [decodeWord, decodeLoose_unfinished h, if_neg (Nat.not_lt.mpr hlen)]
  minimal bs b h hlen hb _ := .inl (decodeWord_finished w h hlen hb)
  notMinimal bs h hlen _ := .inl (decodeWord_finished w h hlen (by decide))

end Varint

/-! ## Parsers -/

abbrev Parser (ε α : Type) := StateT (List UInt8) (Except ε) α

namespace Parser

variable {ε α β σ : Type}

theorem run_bind_eq_ok {p : StateT σ (Except ε) α} {f : α → StateT σ (Except ε) β} {bs r : σ}
    {b : β} :
    (p >>= f).run bs = .ok (b, r) ↔ ∃ a s, p.run bs = .ok (a, s) ∧ (f a).run s = .ok (b, r) := by
  rw [StateT.run_bind, bind_eq_ok_iff]
  exact Prod.exists

theorem run_map_eq_ok {p : StateT σ (Except ε) α} {f : α → β} {bs r : σ} {b : β} :
    (f <$> p).run bs = .ok (b, r) ↔ ∃ a, p.run bs = .ok (a, r) ∧ f a = b := by
  rw [StateT.run_map]
  cases h : p.run bs with
  | error e => simp [Functor.map, Except.map]
  | ok x =>
    obtain ⟨a, s⟩ := x
    simp [Functor.map, Except.map]
    tauto

theorem run_pure_eq_ok {bs r : σ} :
    (pure a : StateT σ (Except ε) α).run bs = .ok (b, r) ↔ a = b ∧ bs = r := by
  exact ⟨fun h => by cases h; exact ⟨rfl, rfl⟩, fun ⟨ha, hr⟩ => by rw [ha, hr]; rfl⟩

theorem run_throw_ne_ok {bs : σ} : (throw e : StateT σ (Except ε) α).run bs ≠ .ok x := by
  intro h
  cases h

/-- The parser accepts the encodings of the values with `P`, followed by anything, and nothing
else. -/
def ExactOn (P : α → Prop) (p : Parser ε α) (write : α → List UInt8) : Prop :=
  ∀ {bs r : List UInt8} {a : α}, p.run bs = .ok (a, r) ↔ P a ∧ bs = write a ++ r

section

variable {P : α → Prop} {p : Parser ε α} {write : α → List UInt8}

theorem ExactOn.read (h : ExactOn P p write) (ha : P a) (r : List UInt8) :
    p.run (write a ++ r) = .ok (a, r) :=
  h.mpr ⟨ha, rfl⟩

end

def take (less : ε) (n : Nat) : Parser ε (List UInt8) := fun bs =>
  if bs.length < n then .error less else .ok (bs.splitAt n)

theorem exactOn_take (less : ε) (n : Nat) :
    ExactOn (fun data => data.length = n) (take less n) id := by
  intro bs r data
  simp only [StateT.run, take, id]
  split
  case isTrue h =>
    constructor
    · intro he
      cases he
    · rintro ⟨hlen, rfl⟩
      rw [length_append] at h
      omega
  case isFalse h =>
    rw [splitAt_eq, Except.ok.injEq, Prod.mk.injEq]
    constructor
    · rintro ⟨rfl, rfl⟩
      exact ⟨length_take_of_le (by omega), (take_append_drop n bs).symm⟩
    · rintro ⟨rfl, rfl⟩
      exact ⟨take_left, drop_left⟩

def takeVector (less : ε) (n : Nat) : Parser ε (List.Vector UInt8 n) := fun bs =>
  if h : bs.length < n then .error less
  else .ok (⟨bs.take n, List.length_take_of_le (by omega)⟩, bs.drop n)

theorem takeVector_eq_ok : (takeVector less n).run bs = .ok (v, r) ↔ bs = v.toList ++ r := by
  obtain ⟨data, hdata⟩ := v
  simp only [StateT.run, takeVector, List.Vector.toList]
  split
  case isTrue h =>
    constructor
    · intro he
      cases he
    · rintro rfl
      rw [length_append] at h
      omega
  case isFalse h =>
    constructor
    · intro he
      obtain ⟨hv, rfl⟩ := Prod.mk.inj (Except.ok.inj he)
      have htake : bs.take n = data := congrArg Subtype.val hv
      rw [← htake, take_append_drop]
    · rintro rfl
      exact congrArg Except.ok (Prod.ext (Subtype.ext (take_left' hdata)) (drop_left' hdata))

def be (less : ε) (k : Nat) : Parser ε Nat := beNat <$> take less k

theorem exactOn_be (less : ε) (k : Nat) : ExactOn (fun n => n < 256 ^ k) (be less k) (beBytes k) := by
  intro bs r n
  simp only [be, run_map_eq_ok, exactOn_take less k, id]
  constructor
  · rintro ⟨data, ⟨rfl, rfl⟩, rfl⟩
    exact ⟨beNat_lt data, by rw [beBytes_beNat]⟩
  · rintro ⟨hn, rfl⟩
    exact ⟨beBytes k n, ⟨length_beBytes k n, rfl⟩, beNat_beBytes hn⟩

/-- A number below `limit` of a variable length of at most `k` bytes. -/
def varint (wrap : Varint.Error → ε) (k limit : Nat) : Parser ε Nat := fun bs =>
  match Varint.decode k bs with
  | .error e => .error (wrap e)
  | .ok (n, r) => if n < limit then .ok (n, r) else .error (wrap .overflow)

theorem exactOn_varint (wrap : Varint.Error → ε) {limit : Nat} (h : limit ≤ 128 ^ (k + 1)) :
    ExactOn (fun n => n < limit) (varint wrap (k + 1) limit) Varint.encode := by
  intro bs r n
  simp only [StateT.run, varint]
  constructor
  · intro he
    split at he
    case h_1 => cases he
    case h_2 m s hm =>
      split at he
      case isTrue hlt =>
        cases he
        exact ⟨hlt, (Varint.of_decode hm).2⟩
      case isFalse => cases he
  · rintro ⟨hlt, rfl⟩
    rw [Varint.decode_encode (by omega)]
    exact if_pos hlt

def prefixed (wrap : Varint.Error → ε) (less : ε) (k limit : Nat) : Parser ε (List UInt8) := do
  let n ← varint wrap k limit
  take less n

theorem exactOn_prefixed (wrap : Varint.Error → ε) (less : ε) {limit : Nat}
    (h : limit ≤ 128 ^ (k + 1)) :
    ExactOn (fun data => data.length < limit) (prefixed wrap less (k + 1) limit)
      (fun data => Varint.encode data.length ++ data) := by
  intro bs r data
  simp only [prefixed, run_bind_eq_ok, exactOn_varint wrap h, exactOn_take less _, id]
  constructor
  · rintro ⟨n, s, ⟨hn, rfl⟩, rfl, rfl⟩
    exact ⟨hn, by rw [append_assoc]⟩
  · rintro ⟨hlen, rfl⟩
    exact ⟨data.length, data ++ r, ⟨hlen, by rw [append_assoc]⟩, rfl, rfl⟩

end Parser

end Libp2pRs.Lib
