import Libp2pRs.Core.Pnet
import Libp2pRs.Lib.Text

/-!
# Key files

A key file has a line for the type of the key, a line for its encoding and a line with its bytes in
hexadecimal. The parser compares the length of the third line in bytes and then slices it at fixed
byte offsets, so the line may be cut inside of a character, which panics: `none` here. Each slice
goes to a parser for numbers that takes a sign.
-/

namespace Libp2pRs.Core.Pnet

open Lib.Text List
open String (utf8Len utf8Len_cons)

abbrev keySize : Nat := 32

inductive KeyParseError
  | invalidKeyFile
  | invalidKeyType
  | invalidKeyEncoding
  | invalidKeyLength
  | invalidKeyChar (e : IntErrorKind)
  deriving DecidableEq, Repr

def hexByte (s : List Char) (i : Nat) : ExceptT KeyParseError Option UInt8 := do
  let digits ← (slice (i * 2) (i * 2 + 2) s : Option (List Char))
  ExceptT.mk (some ((u8FromStrRadix digits 16).mapError .invalidKeyChar))

def hexBytes (n : Nat) (s : List Char) : ExceptT KeyParseError Option (List.Vector UInt8 n) :=
  List.Vector.mOfFn fun i => hexByte s i

def parseHexKey (s : List Char) : ExceptT KeyParseError Option (List.Vector UInt8 keySize) :=
  if utf8Len s = keySize * 2 then hexBytes keySize s else throw .invalidKeyLength

def hexDigit (n : Nat) : Char :=
  if n < 10 then Char.ofNat (48 + n) else Char.ofNat (87 + n)

def toHex (bytes : List UInt8) : List Char :=
  bytes.flatMap fun b => [hexDigit (b.toNat / 16), hexDigit (b.toNat % 16)]

def keyType : List Char := "/key/swarm/psk/1.0.0/".toList

def base16 : List Char := "/base16/".toList

namespace PreSharedKey

def fromStr (s : List Char) : ExceptT KeyParseError Option PreSharedKey :=
  match (lines s).take 3 with
  | [keytype, encoding, key] =>
    if keytype ≠ keyType then throw .invalidKeyType
    else if encoding ≠ base16 then throw .invalidKeyEncoding
    else parseHexKey (trimEnd key)
  | _ => throw .invalidKeyFile

def keyFile (key : List Char) : List Char :=
  keyType ++ ['\n'] ++ base16 ++ ['\n'] ++ key ++ ['\n']

def display (k : PreSharedKey) : List Char := keyFile (toHex k.toList)

end PreSharedKey

/-! ## The loop over the slices -/

/-- Pairs of characters and the bytes they are read as, with what the first character of a pair
counts for. -/
inductive Pairs (high : Char → Option Nat) : List Char → List UInt8 → Prop
  | nil : Pairs high [] []
  | cons (ha : high a = some x) (hb : toDigit 16 b = some y) (h : Pairs high cs bytes) :
    Pairs high (a :: b :: cs) (UInt8.ofNat (16 * x + y) :: bytes)

/-- Hexadecimal digits, two for each byte. -/
abbrev Spells := Pairs (toDigit 16)

/-- The same, but there may be a sign in the place of a first digit. -/
abbrev Reads := Pairs signOrDigit

/-- A character of the text lies across the end of a pair, after pairs that are read. -/
def Straddled (s : List Char) : Prop :=
  ∃ front bytes back, s = front ++ back ∧ Reads front bytes ∧ Straddles back

theorem Reads.utf8Len (h : Reads s bytes) : utf8Len s = 2 * bytes.length := by
  induction h with
  | nil => rfl
  | cons ha hb _ ih =>
    rw [utf8Len_cons, utf8Len_cons, ih, utf8Size_of_signOrDigit ha, utf8Size_of_toDigit hb,
      length_cons]
    omega

theorem Spells.reads (h : Spells s bytes) : Reads s bytes ∧ '+' ∉ s := by
  have hplus : toDigit 16 '+' = none := by decide
  have hne : ∀ {c x}, toDigit 16 c = some x → c ≠ '+' := by
    rintro c x hc rfl
    rw [hplus] at hc
    cases hc
  induction h with
  | nil => exact ⟨.nil, not_mem_nil⟩
  | cons ha hb _ ih =>
    refine ⟨.cons ?_ hb ih.1, ?_⟩
    · rw [signOrDigit, if_neg (hne ha), ha]
    · simp [(hne ha).symm, (hne hb).symm, ih.2]

theorem Reads.spells (h : Reads s bytes) (hplus : '+' ∉ s) : Spells s bytes := by
  induction h with
  | nil => exact .nil
  | cons ha hb _ ih =>
    simp only [mem_cons, not_or] at hplus
    rw [signOrDigit, if_neg (Ne.symm hplus.1)] at ha
    exact .cons ha hb (ih hplus.2.2)

theorem Reads.not_straddles (h : Reads s bytes) : ¬ Straddles s := by
  cases h with
  | nil => exact id
  | cons ha hb _ =>
    rw [Straddles, utf8Size_of_signOrDigit ha, utf8Size_of_toDigit hb]
    decide

theorem Reads.eq_nil_of_utf8Size (h : Reads front bytes) (heq : c :: rest = front ++ back)
    (hc : c.utf8Size = 2) : front = [] := by
  cases h with
  | nil => rfl
  | cons ha _ _ =>
    cases heq
    rw [utf8Size_of_signOrDigit ha] at hc
    cases hc

theorem reads_cons_iff : Reads (a :: b :: cs) (v :: bytes) ↔
    u8FromStrRadix [a, b] 16 = .ok v ∧ Reads cs bytes := by
  rw [u8FromStrRadix_pair]
  constructor
  · rintro (_ | ⟨ha, hb, h⟩)
    exact ⟨⟨_, _, ha, hb, rfl⟩, h⟩
  · rintro ⟨⟨x, y, ha, hb, rfl⟩, h⟩
    exact .cons ha hb h

theorem straddled_cons_iff : Straddled (a :: b :: cs) ↔
    Straddles (a :: b :: cs) ∨ (∃ v, u8FromStrRadix [a, b] 16 = .ok v) ∧ Straddled cs := by
  constructor
  · rintro ⟨front, bytes, back, heq, hread, hback⟩
    cases hread with
    | nil => exact .inl (heq ▸ hback)
    | cons ha hb hread =>
      cases heq
      exact .inr ⟨⟨_, u8FromStrRadix_pair.mpr ⟨_, _, ha, hb, rfl⟩⟩, _, _, back, rfl, hread, hback⟩
  · rintro (h | ⟨⟨v, hv⟩, front, bytes, back, rfl, hread, hback⟩)
    · exact ⟨[], [], _, rfl, .nil, h⟩
    · exact ⟨a :: b :: front, v :: bytes, back, rfl, reads_cons_iff.mpr ⟨hv, hread⟩, hback⟩

theorem hexByte_succ {s front back : List Char} (h : splitBytes 2 s = some (front, back))
    (i : Nat) : hexByte s (i + 1) = hexByte back i := by
  unfold hexByte
  rw [show (i + 1) * 2 = 2 + i * 2 by omega, show 2 + i * 2 + 2 = 2 + (i * 2 + 2) by omega,
    slice_add h]

theorem hexBytes_succ {s front back : List Char} (h : splitBytes 2 s = some (front, back)) :
    (hexBytes (n + 1) s).run = match u8FromStrRadix front 16 with
      | .error e => some (.error (.invalidKeyChar e))
      | .ok b => (hexBytes n back).run.map (Except.map (b ::ᵥ ·)) := by
  have hhead : slice (0 * 2) (0 * 2 + 2) s = some front := by simp [slice, splitBytes, h]
  have hstep : hexBytes (n + 1) s = (do
      let b ← hexByte s 0
      let bytes ← hexBytes n back
      pure (b ::ᵥ bytes)) := by
    simp only [hexBytes, List.Vector.mOfFn, Fin.val_zero, Fin.val_succ, hexByte_succ h]
  have hbyte : hexByte s 0 =
      ExceptT.mk (some ((u8FromStrRadix front 16).mapError .invalidKeyChar)) := by
    rw [hexByte, hhead]
    rfl
  rw [hstep, hbyte]
  cases u8FromStrRadix front 16 with
  | error e => rfl
  | ok b =>
    show (hexBytes n back >>= fun bytes => pure (b ::ᵥ bytes)).run = _
    rw [bind_pure_comp, ExceptT.run_map]
    rfl

theorem hexBytes_succ_none (h : splitBytes 2 s = none) : (hexBytes (n + 1) s).run = none := by
  have hhead : slice (0 * 2) (0 * 2 + 2) s = none := by simp [slice, splitBytes, h]
  have hbyte : hexByte s 0 = (none : Option _) := by
    rw [hexByte, hhead]
    rfl
  show (hexByte s 0 >>= _ : ExceptT KeyParseError Option _).run = none
  rw [hbyte]
  rfl

theorem hexBytes_spec (hlen : utf8Len s = 2 * n) : ((hexBytes n s).run = none ↔ Straddled s) ∧
    ∀ v, (hexBytes n s).run = some (.ok v) ↔ Reads s v.toList := by
  induction n generalizing s with
  | zero =>
    obtain rfl := String.utf8Len_eq_zero.mp hlen
    refine ⟨⟨nofun, ?_⟩, fun v => ?_⟩
    · rintro ⟨front, bytes, back, heq, -, hback⟩
      rw [(append_eq_nil_iff.mp heq.symm).2] at hback
      exact hback.elim
    · rw [v.eq_nil]
      exact ⟨fun _ => .nil, fun _ => rfl⟩
  | succ n ih =>
    -- The first two bytes: a cut character, one character, or two.
    obtain ⟨hs, hsplit⟩ | ⟨c, rest, rfl, hc, hs, hsplit⟩ | ⟨a, b, rest, rfl, ha, hb, hs, hsplit⟩ :=
      splitBytes_two (s := s) (by omega)
    · rw [hexBytes_succ_none hsplit]
      exact ⟨⟨fun _ => ⟨[], [], s, rfl, .nil, hs⟩, fun _ => rfl⟩,
        fun v => ⟨nofun, fun h => absurd hs h.not_straddles⟩⟩
    · rw [hexBytes_succ hsplit, u8FromStrRadix_single hc]
      refine ⟨⟨nofun, ?_⟩, fun v => ⟨nofun, fun h => ?_⟩⟩
      · rintro ⟨front, bytes, back, heq, hfront, hback⟩
        obtain rfl := hfront.eq_nil_of_utf8Size heq hc
        exact absurd (heq ▸ hback) hs
      · cases h.eq_nil_of_utf8Size (append_nil _).symm hc
    · have hlen' : utf8Len rest = 2 * n := by
        rw [utf8Len_cons, utf8Len_cons, ha, hb] at hlen
        omega
      obtain ⟨hnone, hok⟩ := ih hlen'
      rw [hexBytes_succ hsplit, straddled_cons_iff]
      cases hv : u8FromStrRadix [a, b] 16 with
      | error e =>
        refine ⟨by simp [hs], fun v => ⟨nofun, fun h => ?_⟩⟩
        rw [← v.cons_head_tail, List.Vector.toList_cons, reads_cons_iff, hv] at h
        cases h.1
      | ok byte =>
        refine ⟨by simp [hs, ← hnone], fun v => ?_⟩
        rw [← v.cons_head_tail, List.Vector.toList_cons, reads_cons_iff, hv, ← hok v.tail]
        obtain _ | (e | w) := (hexBytes n rest).run
        · simp
        · simp [Except.map]
        · simp only [Option.map_some, Except.map, Option.some.injEq, Except.ok.injEq,
            List.Vector.eq_cons_iff, List.Vector.head_cons, List.Vector.tail_cons]

/-! ## Key files -/

namespace PreSharedKey

/-- The first two lines are as expected, and this is the third one without trailing whitespace. -/
def Headed (s key : List Char) : Prop :=
  ∃ third rest, lines s = keyType :: base16 :: third :: rest ∧ key = trimEnd third

/-- The parser returns, and it accepts exactly the digits that spell the key. -/
def Meets (s : List Char) : Prop :=
  (fromStr s).run ≠ none ∧
    ∀ k : PreSharedKey, (fromStr s).run = some (.ok k) ↔ ∃ key, Headed s key ∧ Spells key k.toList

def Signed (key : List Char) : Prop :=
  '+' ∈ key ∧ ∃ bytes, Reads key bytes

theorem fromStr_of_headed (h : Headed s key) : fromStr s = parseHexKey key := by
  obtain ⟨third, rest, hlines, rfl⟩ := h
  rw [fromStr, hlines]
  rfl

theorem fromStr_of_not_headed (h : ∀ key, ¬ Headed s key) :
    ∃ e, (fromStr s).run = some (.error e) := by
  unfold fromStr
  split
  case h_2 => exact ⟨_, rfl⟩
  case h_1 keytype encoding key htake =>
    by_cases htype : keytype = keyType
    · by_cases hencoding : encoding = base16
      · subst htype hencoding
        refine absurd ⟨key, (lines s).drop 3, ?_, rfl⟩ (h (trimEnd key))
        exact (take_append_drop 3 _).symm.trans (by rw [htake]; rfl)
      · exact ⟨_, by rw [if_neg (not_not.mpr htype), if_pos hencoding]; rfl⟩
    · exact ⟨_, by rw [if_pos htype]; rfl⟩

theorem Headed.unique (h : Headed s key) (h' : Headed s key') : key = key' := by
  obtain ⟨third, rest, hlines, rfl⟩ := h
  obtain ⟨third', rest', hlines', rfl⟩ := h'
  rw [hlines] at hlines'
  cases hlines'
  rfl

theorem reads_iff_spells (hlen : utf8Len key = keySize * 2) :
    (∀ k : PreSharedKey, Reads key k.toList ↔ Spells key k.toList) ↔ ¬ Signed key := by
  constructor
  · rintro h ⟨hplus, bytes, hread⟩
    have hbytes : bytes.length = keySize := by
      have hread := hread.utf8Len
      rw [hlen] at hread
      omega
    exact ((h ⟨bytes, hbytes⟩).mp hread).reads.2 hplus
  · intro h k
    refine ⟨fun hread => hread.spells fun hplus => h ⟨hplus, _, hread⟩, fun hspell => hspell.reads.1⟩

theorem meets_iff (s : List Char) :
    Meets s ↔ ∀ key, Headed s key → utf8Len key = keySize * 2 → ¬ Straddled key ∧ ¬ Signed key := by
  by_cases hhead : ∃ key, Headed s key
  case neg =>
    have hnot : ∀ key, ¬ Headed s key := not_exists.mp hhead
    obtain ⟨e, he⟩ := fromStr_of_not_headed hnot
    simp [Meets, he, hnot]
  obtain ⟨key, hkey⟩ := hhead
  have hall : ∀ P : List Char → Prop, (∃ key', Headed s key' ∧ P key') ↔ P key := fun P =>
    ⟨fun ⟨_, h, hP⟩ => hkey.unique h ▸ hP, fun hP => ⟨key, hkey, hP⟩⟩
  have hforall : ∀ P : List Char → Prop, (∀ key', Headed s key' → P key') ↔ P key := fun P =>
    ⟨fun h => h key hkey, fun hP key' h => hkey.unique h ▸ hP⟩
  rw [hforall, Meets]
  simp only [hall, fromStr_of_headed hkey]
  by_cases hlen : utf8Len key = keySize * 2
  · obtain ⟨hnone, hok⟩ := hexBytes_spec (n := keySize) (hlen.trans (Nat.mul_comm _ _))
    rw [parseHexKey, if_pos hlen, ← reads_iff_spells hlen, ← hnone]
    simp only [hok, hlen, true_imp_iff, ne_eq]
  · have hspells : ∀ k : PreSharedKey, ¬ Spells key k.toList := by
      intro k h
      refine hlen ?_
      rw [h.reads.1.utf8Len, k.toList_length, Nat.mul_comm]
    rw [parseHexKey, if_neg hlen]
    simp only [hlen, hspells, iff_false, false_imp_iff, iff_true]
    exact ⟨nofun, fun k => nofun⟩

theorem headed_keyFile {third : List Char} (h : '\n' ∉ third ∧ '\r' ∉ third) :
    Headed (keyFile third) (trimEnd third) := by
  refine ⟨third, [], ?_, rfl⟩
  simp only [keyFile, append_assoc, cons_append, nil_append]
  rw [lines_append (by decide) (by decide), lines_append (by decide) (by decide),
    lines_append h.1 h.2]
  rfl

theorem spells_toHex (bytes : List UInt8) : Spells (toHex bytes) bytes := by
  have hdigit : ∀ n < 16, toDigit 16 (hexDigit n) = some n := by decide
  induction bytes with
  | nil => exact .nil
  | cons b bytes ih =>
    have hb := b.toNat_lt
    have hcons := Pairs.cons (hdigit (b.toNat / 16) (by omega)) (hdigit (b.toNat % 16) (by omega)) ih
    rwa [Nat.div_add_mod, UInt8.ofNat_toNat] at hcons

theorem isWhitespace_of_mem_toHex (h : c ∈ toHex bytes) : isWhitespace c = false := by
  have hdigit : ∀ n < 16, isWhitespace (hexDigit n) = false := by decide
  obtain ⟨b, -, hc⟩ := mem_flatMap.mp h
  have hb := b.toNat_lt
  obtain rfl | hc := mem_cons.mp hc
  · exact hdigit _ (by omega)
  · rw [mem_singleton.mp hc]
    exact hdigit _ (by omega)

theorem fromStr_display (k : PreSharedKey) : (fromStr k.display).run = some (.ok k) := by
  have hnot : ∀ c, isWhitespace c = true → c ∉ toHex k.toList := by
    intro c hc hmem
    rw [isWhitespace_of_mem_toHex hmem] at hc
    cases hc
  have hhead : Headed k.display (toHex k.toList) := by
    have := headed_keyFile ⟨hnot '\n' (by decide), hnot '\r' (by decide)⟩
    rwa [trimEnd_of_forall fun c => isWhitespace_of_mem_toHex] at this
  have hreads := (spells_toHex k.toList).reads.1
  have hlen : utf8Len (toHex k.toList) = 2 * keySize := by rw [hreads.utf8Len, k.toList_length]
  rw [fromStr_of_headed hhead, parseHexKey, if_pos (hlen.trans (Nat.mul_comm _ _))]
  exact ((hexBytes_spec hlen).2 k).mpr hreads

/-- The parser does as the format says exactly for the files whose third line, if it has 64 bytes,
has no character across the end of a pair and no sign. It reads back what is printed. -/
theorem fromStr_meets_iff (s : List Char) (k : PreSharedKey) :
    (Meets s ↔
      ∀ key, Headed s key → utf8Len key = keySize * 2 → ¬ Straddled key ∧ ¬ Signed key) ∧
      (fromStr k.display).run = some (.ok k) :=
  ⟨meets_iff s, fromStr_display k⟩

/-- A character lies across the end of the first pair; each pair has a sign. -/
theorem fromStr_cut_and_signed :
    (fromStr (keyFile ('a' :: 'é' :: replicate 61 'a'))).run = none ∧
      (fromStr (keyFile (replicate 32 ['+', 'f']).flatten)).run =
        some (.ok (List.Vector.replicate 32 15)) ∧
      ¬ Meets (keyFile ('a' :: 'é' :: replicate 61 'a')) ∧
      ¬ Meets (keyFile (replicate 32 ['+', 'f']).flatten) := by
  have hcut : (fromStr (keyFile ('a' :: 'é' :: replicate 61 'a'))).run = none := by
    decide +kernel
  have hsigned : (fromStr (keyFile (replicate 32 ['+', 'f']).flatten)).run =
      some (.ok (List.Vector.replicate 32 15)) := by
    decide +kernel
  refine ⟨hcut, hsigned, fun h => h.1 hcut, fun h => ?_⟩
  obtain ⟨key, hkey, hspells⟩ := (h.2 _).mp hsigned
  have hhead : Headed (keyFile (replicate 32 ['+', 'f']).flatten) _ := headed_keyFile (by decide +kernel)
  rw [hkey.unique hhead] at hspells
  exact hspells.reads.2 (by decide +kernel)

end PreSharedKey

end Libp2pRs.Core.Pnet
