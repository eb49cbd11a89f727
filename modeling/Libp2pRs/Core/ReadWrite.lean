import Libp2pRs.Lib.Codec
import Libp2pRs.Lib.Io

/-!
# Length-prefixed messages

The traits `ReadEx` and `WriteEx` send and receive messages behind their length, which is a number
of variable length (`write_one`, `read_one`) or of four bytes (`write_one_fixed`,
`read_one_fixed`).
-/

namespace Libp2pRs.Core

open Lib Lib.Io

inductive ErrorKind where
  | unexpectedEof
  | writeZero
  | invalidData
  | permissionDenied
  | interrupted
  | brokenPipe
  | other
  deriving DecidableEq, Repr

structure IoError where
  kind : ErrorKind
  message : Option String
  deriving DecidableEq, Repr

namespace IoError

def ofKind (kind : ErrorKind) : IoError := ⟨kind, none⟩

def new (kind : ErrorKind) (message : String) : IoError := ⟨kind, some message⟩

end IoError

section ReadEx

def readExact2 (n : Nat) : Io IoError (List UInt8) := readExact (.ofKind .unexpectedEof) n

def readFixedU32 : Io IoError Nat := do
  let len ← readExact2 4
  return beNat len

/-- `unsigned_varint::decode::usize`. -/
def decodeUsize : List UInt8 → Except Varint.Error (Nat × List UInt8) := Varint.decodeWord 10 64

/-- The loop of `read_varint`, with the bytes in the buffer and the number of those that still fit. -/
def readVarintLoop : Nat → List UInt8 → Io IoError Nat
  | 0, _ => .stop .panicked
  | left + 1, buffer => .read 1 fun got =>
    match got with
    | [] => if buffer = [] then return 0 else .fail (.ofKind .unexpectedEof)
    | b :: _ =>
      match decodeUsize (buffer ++ [b]) with
      | .ok (len, _) => return len
      | .error .overflow => .fail (.new .invalidData "overflow in variable-length integer")
      | .error _ => readVarintLoop left (buffer ++ [b])

def readVarint : Io IoError Nat := readVarintLoop 10 []

def tooLong (len : Nat) (maxSize : UInt64) : IoError :=
  .new .invalidData s!"Received data size over maximum frame length: {len}>{maxSize}"

/-- What `read_one` and `read_one_fixed` do with the length. -/
def readBody (len : Nat) (maxSize : UInt64) : Io IoError (List UInt8) :=
  if len > maxSize.toNat then .fail (tooLong len maxSize) else readExact2 len

def readOneFixed (maxSize : UInt64) : Io IoError (List UInt8) := do
  let len ← readFixedU32
  readBody len maxSize

def readOne (maxSize : UInt64) : Io IoError (List UInt8) := do
  let len ← readVarint
  readBody len maxSize

end ReadEx

section WriteEx

def writeAll2 (buf : List UInt8) : Io IoError Unit := writeAll (.ofKind .writeZero) buf

def flush2 : Io IoError Unit := .flush (.ret ())

def writeVarint (len : Nat) : Io IoError Unit := writeAll2 (Varint.encode len)

def writeFixedU32 (len : Nat) : Io IoError Unit := writeAll2 (beBytes 4 (len % 2 ^ 32))

def writeOneFixed (buf : List UInt8) : Io IoError Unit := do
  writeFixedU32 buf.length
  writeAll2 buf
  flush2

def writeOne (buf : List UInt8) : Io IoError Unit := do
  writeVarint buf.length
  writeAll2 buf
  flush2

end WriteEx

/-! ## Reading -/

theorem yields_readExact2 (data rest : List UInt8) :
    Yields (readExact2 data.length) (data ++ rest) (.ret data) rest [] :=
  .readExact _ data rest

variable {n : Nat}

theorem yields_readFixedU32 (hn : n < 2 ^ 32) (rest : List UInt8) :
    Yields readFixedU32 (beBytes 4 n ++ rest) (.ret n) rest [] := by
  have hread := yields_readExact2 (beBytes 4 n) rest
  apply hread.bind_read
  rw [beNat_beBytes (by omega)]
  exact .ret n rest

theorem yields_readVarintLoop
    (h : Varint.decodeLoose 10 (buffer ++ t) = .ok (n, [])) (ht : t ≠ []) (hleft : t.length ≤ left)
    (rest : List UInt8) :
    Yields (readVarintLoop left buffer) (t ++ rest) (.ret (n % 2 ^ 64)) rest [] := by
  induction t generalizing left buffer with
  | nil => exact absurd rfl ht
  | cons b t ih =>
    rw [List.length_cons] at hleft
    obtain ⟨left, rfl⟩ : ∃ k, left = k + 1 := ⟨left - 1, by omega⟩
    rw [List.append_cons] at h
    apply Yields.read_one
    dsimp only
    by_cases hlast : t = []
    · subst hlast
      rw [List.append_nil] at h
      rw [decodeUsize, Varint.decodeWord, h]
      exact .ret (n % 2 ^ 64) rest
    · rw [decodeUsize, Varint.decodeWord, Varint.decodeLoose_of_append h hlast]
      exact ih h hlast (by omega)

theorem yields_readVarint (h : Varint.decodeLoose 10 len = .ok (n, []))
    (rest : List UInt8) : Yields readVarint (len ++ rest) (.ret (n % 2 ^ 64)) rest [] := by
  have hlen := Varint.length_le_of_decodeLoose h
  rw [List.length_nil] at hlen
  have hne := List.ne_nil_of_length_pos hlen.1
  rw [← List.nil_append len] at h
  exact yields_readVarintLoop h hne (by omega) rest

theorem yields_readVarint_encode (hn : n < 2 ^ 64) (rest : List UInt8) :
    Yields readVarint (Varint.encode n ++ rest) (.ret n) rest [] := by
  have hloose := Varint.decodeLoose_encode (k := 9) (n := n) (by omega) []
  rw [List.append_nil] at hloose
  have hread := yields_readVarint hloose rest
  rwa [Nat.mod_eq_of_lt hn] at hread

variable {data : List UInt8} {maxSize : UInt64}

theorem yields_readBody (h : data.length ≤ maxSize.toNat) (rest : List UInt8) :
    Yields (readBody data.length maxSize) (data ++ rest) (.ret data) rest [] := by
  rw [readBody, if_neg (by omega)]
  exact yields_readExact2 data rest

theorem yields_readOne (h : data.length ≤ maxSize.toNat) (rest : List UInt8) :
    Yields (readOne maxSize) ((Varint.encode data.length ++ data) ++ rest) (.ret data) rest [] := by
  have hlt := maxSize.toNat_lt
  rw [List.append_assoc]
  apply (yields_readVarint_encode (by omega) _).bind_read
  exact yields_readBody h rest

theorem yields_readOneFixed (h : data.length ≤ maxSize.toNat) (hlen : data.length < 2 ^ 32)
    (rest : List UInt8) :
    Yields (readOneFixed maxSize) ((beBytes 4 data.length ++ data) ++ rest) (.ret data) rest [] := by
  apply (yields_readFixedU32 hlen _).bind_read
  exact yields_readBody h rest

theorem yields_readBody_tooLong (h : maxSize.toNat < len) (body : List UInt8) :
    Yields (readBody len maxSize) body (.fail (tooLong len maxSize)) body [] := by
  rw [readBody, if_pos h]
  exact .fail _ body

theorem yields_readOne_tooLong {len : List UInt8} (hlen : Varint.decodeLoose 10 len = .ok (n, []))
    (h : maxSize.toNat < n % 2 ^ 64) (body : List UInt8) :
    Yields (readOne maxSize) (len ++ body) (.fail (tooLong (n % 2 ^ 64) maxSize)) body [] :=
  (yields_readVarint hlen body).bind_read (yields_readBody_tooLong h body)

theorem yields_readOneFixed_tooLong (hn : n < 2 ^ 32) (h : maxSize.toNat < n) (body : List UInt8) :
    Yields (readOneFixed maxSize) (beBytes 4 n ++ body) (.fail (tooLong n maxSize)) body [] :=
  (yields_readFixedU32 hn body).bind_read (yields_readBody_tooLong h body)

/-! ## Writing -/

theorem yields_writeBody (data input : List UInt8) :
    Yields (writeAll2 data >>= fun _ => flush2) input (.ret ()) input data := by
  have hrest := Yields.bind (.writeAll (.ofKind .writeZero) data input)
    (f := fun _ => flush2) (.flush (.ret () input))
  rwa [List.append_nil] at hrest

theorem yields_writeOne (data input : List UInt8) :
    Yields (writeOne data) input (.ret ()) input (Varint.encode data.length ++ data) := by
  apply Yields.bind (.writeAll _ _ input)
  exact yields_writeBody data input

theorem yields_writeOneFixed (h : data.length < 2 ^ 32) (input : List UInt8) :
    Yields (writeOneFixed data) input (.ret ()) input (beBytes 4 data.length ++ data) := by
  have hlen : beBytes 4 (data.length % 2 ^ 32) = beBytes 4 data.length := by
    rw [Nat.mod_eq_of_lt h]
  rw [writeOneFixed, writeFixedU32, hlen]
  apply Yields.bind (.writeAll _ _ input)
  exact yields_writeBody data input

/-! ## Reading back -/

/-- However the transfers are split, the messages are written, and reading as many messages gives
them in order and leaves what follows. -/
def ReadsBack (write : List UInt8 → Io IoError Unit) (read : Io IoError (List UInt8))
    (msgs : List (List UInt8)) : Prop :=
  ∀ sizes sizes' after,
    let written := (msgs.forM write).exec sizes []
    let run := (read.times msgs.length).exec sizes' (written.sent ++ after)
    written.result = .ret () ∧ run.result = .ret msgs ∧ run.rest = after

/-- However the transfers are split, reading fails after the length. -/
def RejectsUnread (read : Io IoError (List UInt8)) (len : List UInt8) (e : IoError) : Prop :=
  ∀ sizes body,
    let run := read.exec sizes (len ++ body)
    run.result = .fail e ∧ run.rest = body

theorem readsBack_of_yields {write : List UInt8 → Io IoError Unit}
    {read : Io IoError (List UInt8)} {encode : List UInt8 → List UInt8}
    (hwrite : ∀ m ∈ msgs, Yields (write m) [] (.ret ()) [] (encode m))
    (hread : ∀ m ∈ msgs, ∀ rest, Yields read (encode m ++ rest) (.ret m) rest []) :
    ReadsBack write read msgs := by
  intro sizes sizes' after
  obtain ⟨_, hwritten⟩ := Yields.forM hwrite sizes
  obtain ⟨_, hrun⟩ := Yields.times hread after sizes'
  dsimp only
  rw [hwritten, hrun]
  exact ⟨rfl, rfl, rfl⟩

theorem rejectsUnread_of_yields {read : Io IoError (List UInt8)} {len : List UInt8} {e : IoError}
    (h : ∀ body, Yields read (len ++ body) (.fail e) body []) : RejectsUnread read len e := by
  intro sizes body
  obtain ⟨_, hrun⟩ := h body sizes
  rw [hrun]
  exact ⟨rfl, rfl⟩

/-- Messages that are not longer than the maximum are read back, and a longer one is rejected
before its body is read. -/
theorem messages_round_trip (maxSize : UInt64) (msgs : List (List UInt8))
    (h : ∀ m ∈ msgs, m.length ≤ maxSize.toNat) :
    ReadsBack writeOne (readOne maxSize) msgs ∧
      ((∀ m ∈ msgs, m.length < 2 ^ 32) → ReadsBack writeOneFixed (readOneFixed maxSize) msgs) ∧
      (∀ n len, Varint.decodeLoose 10 len = .ok (n, []) → maxSize.toNat < n % 2 ^ 64 →
        RejectsUnread (readOne maxSize) len (tooLong (n % 2 ^ 64) maxSize)) ∧
      ∀ n, n < 2 ^ 32 → maxSize.toNat < n →
        RejectsUnread (readOneFixed maxSize) (beBytes 4 n) (tooLong n maxSize) := by
  refine ⟨?_, fun hlen => ?_, fun n len hn hlong => ?_, fun n hn hlong => ?_⟩
  · exact readsBack_of_yields (fun m _ => yields_writeOne m []) fun m hm => yields_readOne (h m hm)
  · exact readsBack_of_yields (fun m hm => yields_writeOneFixed (hlen m hm) [])
      fun m hm => yields_readOneFixed (h m hm) (hlen m hm)
  · exact rejectsUnread_of_yields (yields_readOne_tooLong hn hlong)
  · exact rejectsUnread_of_yields (yields_readOneFixed_tooLong hn hlong)

/-- Two messages, the second of them empty. -/
theorem two_messages_round_trip :
    ReadsBack writeOne (readOne 2) [[1, 2], []] ∧
      ReadsBack writeOneFixed (readOneFixed 2) [[1, 2], []] ∧
      RejectsUnread (readOne 2) [3] (tooLong 3 2) := by
  have hlen : ∀ m ∈ ([[1, 2], []] : List (List UInt8)), m.length ≤ (2 : UInt64).toNat := by decide
  obtain ⟨hone, hfixed, hreject, -⟩ := messages_round_trip 2 [[1, 2], []] hlen
  exact ⟨hone, hfixed (by decide), hreject 3 [3] rfl (by decide)⟩

end Libp2pRs.Core
