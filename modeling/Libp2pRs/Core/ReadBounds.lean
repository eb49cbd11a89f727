import Libp2pRs.Core.ReadWrite

/-!
# The lengths of untrusted messages

`read_varint` puts the bytes of a length one by one into a buffer of ten bytes and asks a decoder
after each of them. The decoder belongs to another crate, and here it is any function that
`Varint.Decodes` describes. The loop ends when the decoder gives a number or an overflow and goes on
after every other error, so that a length in a form that the decoder rejects for good takes it past
the end of the buffer.
-/

namespace Libp2pRs.Core

open Lib Lib.Io List

abbrev UsizeDecoder := List UInt8 → Except Varint.Error (Nat × List UInt8)

variable {decode : UsizeDecoder}

def readVarintLoopWith (decode : UsizeDecoder) : Nat → List UInt8 → Io IoError Nat
  | 0, _ => .stop .panicked
  | left + 1, buffer => .read 1 fun got =>
    match got with
    | [] => if buffer = [] then return 0 else .fail (.ofKind .unexpectedEof)
    | b :: _ =>
      match decode (buffer ++ [b]) with
      | .ok (len, _) => return len
      | .error .overflow => .fail (.new .invalidData "overflow in variable-length integer")
      | .error _ => readVarintLoopWith decode left (buffer ++ [b])

def readVarintWith (decode : UsizeDecoder) : Io IoError Nat := readVarintLoopWith decode 10 []

def readOneWith (decode : UsizeDecoder) (maxSize : UInt64) : Io IoError (List UInt8) := do
  let len ← readVarintWith decode
  readBody len maxSize

theorem readVarintLoopWith_decodeUsize (left : Nat) (buffer : List UInt8) :
    readVarintLoopWith decodeUsize left buffer = readVarintLoop left buffer := by
  induction left generalizing buffer with
  | zero => rfl
  | succ left ih =>
    simp only [readVarintLoopWith, ih]
    rfl

/-- The readers over the decoder of the crate's version that the source names. -/
theorem readOneWith_decodeUsize (maxSize : UInt64) :
    readOneWith decodeUsize maxSize = readOne maxSize := by
  rfl

/-! ## The loop -/

/-- The decoder has rejected the bytes, and will whatever follows them. -/
def Rejects (decode : UsizeDecoder) (bytes : List UInt8) : Prop :=
  ∀ more, decode (bytes ++ more) = .error .notMinimal

/-- The stream starts with a length that the decoder rejects, and has bytes for the whole buffer. -/
def Overruns (decode : UsizeDecoder) (input : List UInt8) : Prop :=
  10 ≤ input.length ∧ ∃ bytes rest, input = bytes ++ 0 :: rest ∧ Varint.Unfinished bytes ∧
    bytes ≠ [] ∧ bytes.length < 10 ∧ decode (bytes ++ [0]) = .error .notMinimal

theorem Rejects.concat (h : Rejects decode buffer) (b : UInt8) :
    Rejects decode (buffer ++ [b]) := by
  intro more
  rw [append_assoc]
  exact h _

section Rejected

variable {ending : Ending IoError} {left : Nat} {buffer input : List UInt8}

/-- After a rejected length the loop goes on to the end of its buffer. -/
theorem exec_readVarintLoop_rejected (hrejects : Rejects decode buffer)
    (hlen : left ≤ input.length) (sizes : Nat → Nat) :
    ((readVarintLoopWith decode left buffer).execUntil ending sizes input).result =
      .stop .panicked := by
  induction left generalizing buffer input sizes with
  | zero => rfl
  | succ left ih =>
    match input with
    | b :: input =>
      rw [length_cons] at hlen
      rw [readVarintLoopWith, execUntil_read_one]
      simp only [hrejects [b]]
      exact ih (hrejects.concat b) (by omega) _

theorem returns_readVarintLoop_nil (decode : UsizeDecoder) (ending : Ending IoError) (left : Nat)
    (buffer : List UInt8) (sizes : Nat → Nat) :
    let run := (readVarintLoopWith decode (left + 1) buffer).execUntil ending sizes []
    run.result.Returns ending ∧ run.rest = [] := by
  rw [readVarintLoopWith, execUntil, if_neg Nat.one_ne_zero, if_pos rfl]
  cases ending with
  | pending => exact ⟨rfl, rfl⟩
  | broken e => exact ⟨trivial, rfl⟩
  | eof =>
    dsimp only [Ending.read]
    split
    · exact ⟨trivial, rfl⟩
    · exact ⟨trivial, rfl⟩

theorem returns_readVarintLoop_rejected (hrejects : Rejects decode buffer)
    (hlen : input.length < left) (sizes : Nat → Nat) :
    let run := (readVarintLoopWith decode left buffer).execUntil ending sizes input
    run.result.Returns ending ∧ ∃ c ≤ left, run.rest = input.drop c := by
  induction left generalizing buffer input sizes with
  | zero => exact absurd hlen (Nat.not_lt_zero _)
  | succ left ih =>
    match input with
    | [] =>
      obtain ⟨hreturns, hrest⟩ := returns_readVarintLoop_nil decode ending left buffer sizes
      exact ⟨hreturns, 0, Nat.zero_le _, hrest⟩
    | b :: input =>
      obtain ⟨hreturns, c, hc, hrest⟩ :=
        ih (hrejects.concat b) (Nat.lt_of_succ_lt_succ hlen) fun i => sizes (i + 1)
      rw [readVarintLoopWith, execUntil_read_one]
      simp only [hrejects [b]]
      exact ⟨hreturns, c + 1, by omega, hrest⟩

end Rejected

theorem exec_readVarintLoop_unfinished (h : Varint.Decodes 10 decode) (ending : Ending IoError)
    (left : Nat) (buffer : List UInt8)
    (hbytes : Varint.Unfinished (buffer ++ bytes)) (hlen : (buffer ++ bytes).length < 10)
    (input : List UInt8) (sizes : Nat → Nat) :
    ∃ sizes', (readVarintLoopWith decode (left + bytes.length) buffer).execUntil ending sizes
        (bytes ++ input) =
      (readVarintLoopWith decode left (buffer ++ bytes)).execUntil ending sizes' input := by
  induction bytes generalizing buffer sizes with
  | nil => exact ⟨sizes, by rw [append_nil]; rfl⟩
  | cons b bytes ih =>
    rw [append_cons] at hbytes hlen
    have hfirst : Varint.Unfinished (buffer ++ [b]) :=
      fun c hc => hbytes c (mem_append_left bytes hc)
    have hshort : (buffer ++ [b]).length < 10 := by
      rw [length_append] at hlen
      omega
    obtain ⟨sizes', hrest⟩ := ih (buffer ++ [b]) hbytes hlen fun i => sizes (i + 1)
    refine ⟨sizes', ?_⟩
    rw [append_cons, ← hrest, length_cons, ← Nat.add_assoc, readVarintLoopWith,
      cons_append, execUntil_read_one]
    simp only [h.insufficient _ hfirst hshort]

theorem returns_readVarintLoop (h : Varint.Decodes 10 decode) (ending : Ending IoError)
    (hbuffer : Varint.Unfinished buffer)
    (hleft : buffer.length + (left + 1) = 10) (hinput : ¬ Overruns decode (buffer ++ input))
    (sizes : Nat → Nat) :
    let run := (readVarintLoopWith decode (left + 1) buffer).execUntil ending sizes input
    run.result.Returns ending ∧ ∃ c ≤ left + 1, run.rest = input.drop c := by
  induction input generalizing buffer left sizes with
  | nil =>
    obtain ⟨hreturns, hrest⟩ := returns_readVarintLoop_nil decode ending left buffer sizes
    exact ⟨hreturns, 0, Nat.zero_le _, hrest⟩
  | cons b input ih =>
    have hlen : (buffer ++ [b]).length = buffer.length + 1 := by
      rw [length_append, length_singleton]
    rw [readVarintLoopWith, execUntil_read_one]
    by_cases hb : 128 ≤ b.toNat
    · have hunfinished := hbuffer.concat hb
      match left with
      | 0 =>
        simp only [h.overflow _ hunfinished (by omega)]
        exact ⟨trivial, 1, Nat.le_refl 1, rfl⟩
      | left + 1 =>
        rw [append_cons] at hinput
        have hleft' : (buffer ++ [b]).length + (left + 1) = 10 := by omega
        obtain ⟨hreturns, c, hc, hrest⟩ := ih hunfinished hleft' hinput fun i => sizes (i + 1)
        simp only [h.insufficient _ hunfinished (by omega)]
        exact ⟨hreturns, c + 1, by omega, hrest⟩
    · by_cases hminimal : b ≠ 0 ∨ buffer = []
      · obtain ⟨n, hn⟩ | hn := h.minimal buffer b hbuffer (by omega) (by omega) hminimal
        · simp only [hn]
          exact ⟨trivial, 1, by omega, rfl⟩
        · simp only [hn]
          exact ⟨trivial, 1, by omega, rfl⟩
      · rw [not_or, not_not] at hminimal
        obtain ⟨rfl, hne⟩ := hminimal
        obtain ⟨n, hn⟩ | hn := h.notMinimal buffer hbuffer (by omega) hne
        · simp only [hn]
          exact ⟨trivial, 1, by omega, rfl⟩
        · -- the length is rejected, and the stream is too short to fill the buffer
          have hrejects : Rejects decode (buffer ++ [0]) := by
            intro more
            rw [append_assoc]
            exact hn more
          have hshort : input.length < left := by
            by_contra hlong
            apply hinput
            refine ⟨?_, buffer, input, rfl, hbuffer, hne, by omega, hn []⟩
            rw [length_append, length_cons]
            omega
          obtain ⟨hreturns, c, hc, hrest⟩ :=
            returns_readVarintLoop_rejected hrejects hshort fun i => sizes (i + 1)
          simp only [hn []]
          exact ⟨hreturns, c + 1, by omega, hrest⟩

/-! ## The bounds -/

/-- However the transfers are split, the readers return and take at most ten bytes for the length,
and they read into buffers of no more than the maximum. -/
structure Bounded (decode : UsizeDecoder) (input : List UInt8) (ending : Ending IoError) : Prop where
  readVarint : ∀ sizes,
    let run := (readVarintWith decode).execUntil ending sizes input
    run.result.Returns ending ∧ ∃ c ≤ 10, run.rest = input.drop c
  readOne : ∀ maxSize sizes,
    ((readOneWith decode maxSize).execUntil ending sizes input).result.Returns ending
  buffer : (readVarintWith decode).Within 10 ∧
    ∀ len maxSize, (readBody len maxSize).Within maxSize.toNat

theorem within_readVarintLoop (decode : UsizeDecoder) (left : Nat) (buffer : List UInt8) :
    (readVarintLoopWith decode left buffer).Within 10 := by
  induction left generalizing buffer with
  | zero => trivial
  | succ left ih =>
    refine ⟨by omega, fun got => ?_⟩
    dsimp only
    split
    · split
      · trivial
      · trivial
    · split
      · trivial
      · trivial
      · exact ih _

theorem within_readBody (len : Nat) (maxSize : UInt64) :
    (readBody len maxSize).Within maxSize.toNat := by
  rw [readBody]
  split
  case isTrue => trivial
  case isFalse hle => exact (within_readExact _ len).mono (Nat.le_of_not_lt hle)

theorem returns_readBody (ending : Ending IoError) (len : Nat) (maxSize : UInt64)
    (sizes : Nat → Nat) (input : List UInt8) :
    ((readBody len maxSize).execUntil ending sizes input).result.Returns ending := by
  rw [readBody]
  split
  case isTrue => trivial
  case isFalse => exact returns_readExact ending _ len sizes input

theorem not_overruns_of_bounded
    (h : Varint.Decodes 10 decode) (hbounded : Bounded decode input ending) :
    ¬ Overruns decode input := by
  rintro ⟨hlen, bytes, rest, rfl, hbytes, hne, hshort, hrejected⟩
  have hrejects : Rejects decode (bytes ++ [0]) := by
    obtain ⟨n, hn⟩ | hn := h.notMinimal bytes hbytes hshort hne
    · rw [hrejected] at hn
      cases hn
    · intro more
      rw [append_assoc]
      exact hn more
  obtain ⟨left, hleft⟩ : ∃ left, left + 1 + bytes.length = 10 := ⟨9 - bytes.length, by omega⟩
  -- the loop reads the length up to its last byte and then the rest of the ten bytes
  have hbegin := exec_readVarintLoop_unfinished h ending (left + 1) [] hbytes hshort (0 :: rest)
  rw [hleft] at hbegin
  obtain ⟨sizes', hrun⟩ := hbegin fun _ => 0
  have hreturns := (hbounded.readVarint fun _ => 0).1
  rw [readVarintWith, hrun, nil_append, readVarintLoopWith, execUntil_read_one] at hreturns
  simp only [hrejected] at hreturns
  rw [length_append, length_cons] at hlen
  rw [exec_readVarintLoop_rejected hrejects (by omega)] at hreturns
  exact hreturns

theorem bounded_of_not_overruns (h : Varint.Decodes 10 decode) (hinput : ¬ Overruns decode input) :
    Bounded decode input ending := by
  have hstart : Varint.Unfinished [] := fun b hb => absurd hb not_mem_nil
  have hvarint := returns_readVarintLoop h ending hstart (show 0 + (9 + 1) = 10 from rfl) hinput
  refine ⟨hvarint, ?_, within_readVarintLoop decode 10 [], within_readBody⟩
  intro maxSize sizes
  exact returns_bind (hvarint sizes).1 fun len => returns_readBody ending len maxSize

/-- A decoder that accepts every form of a length, as the one of the version that the source names,
keeps the readers within their bounds. -/
theorem bounded_decodeUsize (input : List UInt8) (ending : Ending IoError) :
    Bounded decodeUsize input ending := by
  apply bounded_of_not_overruns (Varint.decodes_decodeWord 10 64)
  rintro ⟨-, bytes, rest, -, hbytes, -, hshort, hrejected⟩
  obtain ⟨n, hn⟩ := Varint.decodeWord_finished 64 hbytes hshort (b := 0) (by decide)
  rw [hn] at hrejected
  cases hrejected

def overlongZero : List UInt8 := [128, 0, 0, 0, 0, 0, 0, 0, 0, 0]

end Libp2pRs.Core
