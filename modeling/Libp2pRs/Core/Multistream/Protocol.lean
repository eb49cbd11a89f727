import Libp2pRs.Core.ReadWrite

/-!
# Messages of multistream-select

The five kinds of messages have no tag: they are told apart by their first and last byte and by
their length. A name of the largest length that is allowed, 140 bytes, is one byte too long for
this: as a message it ends with a newline.
-/

namespace Libp2pRs.Core.Multistream

open Lib List Varint

def maxProtocols : Nat := 1000

def maxProtocolLen : Nat := 140

def slash : UInt8 := 47

def newline : UInt8 := 10

def multistream10 : List UInt8 :=
  [47, 109, 117, 108, 116, 105, 115, 116, 114, 101, 97, 109, 47, 49, 46, 48, 46, 48]

def msgMultistream10 : List UInt8 := multistream10 ++ [newline]

def msgProtocolNa : List UInt8 := [110, 97, newline]

def msgLs : List UInt8 := [108, 115, newline]

inductive ProtocolError where
  | ioError (e : IoError)
  | invalidMessage
  | invalidProtocol
  | tooManyProtocols
  deriving DecidableEq, Repr

def varintErrorText : Varint.Error → String
  | .insufficient => "not enough input bytes"
  | .overflow => "input bytes exceed maximum"
  | .notMinimal => "encoding is not minimal"

def ProtocolError.ofVarint (e : Varint.Error) : ProtocolError :=
  .ioError (.new .invalidData (varintErrorText e))

inductive Version where
  | v1
  deriving DecidableEq, Repr

structure Protocol where
  name : List UInt8
  head_eq : name.head? = some slash
  length_le : name.length ≤ maxProtocolLen
  deriving DecidableEq, Repr

def Protocol.tryFrom (value : List UInt8) : Except ProtocolError Protocol :=
  if h : value.head? = some slash ∧ value.length ≤ maxProtocolLen then .ok ⟨value, h.1, h.2⟩
  else .error .invalidProtocol

inductive Message where
  | header (v : Version)
  | protocol (p : Protocol)
  | listProtocols
  | protocols (ps : List Protocol)
  | notAvailable
  deriving DecidableEq, Repr

def Protocol.entry (p : Protocol) : List UInt8 :=
  Varint.encode (p.name.length + 1) ++ (p.name ++ [newline])

namespace Message

def encode : Message → List UInt8
  | header .v1 => msgMultistream10
  | protocol p => p.name ++ [newline]
  | listProtocols => msgLs
  | protocols ps => Varint.encode ps.length ++ ps.flatMap Protocol.entry
  | notAvailable => msgProtocolNa

def varint (bytes : List UInt8) : Except ProtocolError (Nat × List UInt8) :=
  match decodeUsize bytes with
  | .ok r => .ok r
  | .error e => .error (.ofVarint e)

/-- The bytes of an entry in front of a newline, and what follows. -/
def decodeEntry (len : Nat) (rem : List UInt8) : Except ProtocolError (Protocol × List UInt8) :=
  if len = 0 ∨ rem.length < len ∨ rem[len - 1]? ≠ some newline then .error .invalidMessage
  else
    match Protocol.tryFrom (rem.take (len - 1)) with
    | .ok p => .ok (p, rem.drop len)
    | .error e => .error e

def decodeProtocols : Nat → List UInt8 → Except ProtocolError (List Protocol)
  | 0, _ => .ok []
  | n + 1, remaining => do
    let (len, rem) ← varint remaining
    let (p, remaining) ← decodeEntry len rem
    let ps ← decodeProtocols n remaining
    return p :: ps

def decode (msg : List UInt8) : Except ProtocolError Message :=
  if msg = msgMultistream10 then .ok (header .v1)
  else if msg.head? = some slash ∧ msg.getLast? = some newline ∧ msg.length ≤ maxProtocolLen then do
    let p ← Protocol.tryFrom msg.dropLast
    return protocol p
  else if msg = msgProtocolNa then .ok notAvailable
  else if msg = msgLs then .ok listProtocols
  else do
    let (numProtocols, remaining) ← varint msg
    if numProtocols > maxProtocols then throw .tooManyProtocols
    let ps ← decodeProtocols numProtocols remaining
    return protocols ps

end Message

/-! ## Names -/

namespace Protocol

theorem tryFrom_name (p : Protocol) : tryFrom p.name = .ok p :=
  dif_pos ⟨p.head_eq, p.length_le⟩

theorem name_of_tryFrom (h : tryFrom value = .ok p) : p.name = value := by
  unfold tryFrom at h
  split at h
  case isTrue => cases h; rfl
  case isFalse => cases h

theorem length_pos (p : Protocol) : 0 < p.name.length := by
  have := p.head_eq
  cases hname : p.name with
  | nil => rw [hname] at this; cases this
  | cons => exact Nat.succ_pos _

theorem three_le_length_entry (p : Protocol) : 3 ≤ p.entry.length := by
  have hlen := length_pos_of_ne_nil (encode_ne_nil (p.name.length + 1))
  have hname := p.length_pos
  rw [entry, length_append, length_append, length_singleton]
  omega

theorem length_flatMap_entry (ps : List Protocol) : 3 * ps.length ≤ (ps.flatMap entry).length := by
  induction ps with
  | nil => exact Nat.zero_le _
  | cons p ps ih =>
    have hp := p.three_le_length_entry
    rw [flatMap_cons, length_append, length_cons]
    omega

end Protocol

namespace Message

/-! ## Lists of names -/

theorem varint_encode (hn : n < 2 ^ 64) (r : List UInt8) :
    varint (Varint.encode n ++ r) = .ok (n, r) := by
  rw [varint, decodeUsize, decodeWord_encode (by omega) hn]

theorem decodeEntry_name (p : Protocol) (r : List UInt8) :
    decodeEntry (p.name.length + 1) (p.name ++ [newline] ++ r) = .ok (p, r) := by
  have hlast : (p.name ++ [newline] ++ r)[p.name.length + 1 - 1]? = some newline := by
    rw [Nat.add_sub_cancel, append_assoc, getElem?_append_right (Nat.le_refl _), Nat.sub_self]
    rfl
  have htake : (p.name ++ [newline] ++ r).take (p.name.length + 1 - 1) = p.name := by
    rw [Nat.add_sub_cancel, append_assoc]
    exact take_left
  have hdrop : (p.name ++ [newline] ++ r).drop (p.name.length + 1) = r := by
    apply drop_left'
    rw [length_append, length_singleton]
  have hlen : ¬ (p.name ++ [newline] ++ r).length < p.name.length + 1 := by
    rw [length_append, length_append, length_singleton]
    omega
  rw [decodeEntry, if_neg, htake, p.tryFrom_name, hdrop]
  intro h
  rcases h with h | h | h
  · exact absurd h (Nat.succ_ne_zero _)
  · exact hlen h
  · exact h hlast

theorem decodeProtocols_entries (ps : List Protocol) (r : List UInt8) :
    decodeProtocols ps.length (ps.flatMap Protocol.entry ++ r) = .ok ps := by
  induction ps with
  | nil => rfl
  | cons p ps ih =>
    have hlen : p.name.length + 1 < 2 ^ 64 := by
      have := p.length_le
      simp only [maxProtocolLen] at this
      omega
    rw [length_cons, flatMap_cons, decodeProtocols, Protocol.entry]
    rw [append_assoc, append_assoc, varint_encode hlen]
    simp only [bind, Except.bind, pure, Except.pure]
    rw [decodeEntry_name]
    dsimp only
    rw [ih]

theorem length_of_varint (h : varint bs = .ok (n, r)) : r.length < bs.length := by
  rw [varint, decodeUsize, decodeWord] at h
  cases hloose : decodeLoose 10 bs with
  | error e =>
    rw [hloose] at h
    cases h
  | ok x =>
    rw [hloose] at h
    cases h
    exact (length_le_of_decodeLoose hloose).1

theorem length_of_decodeEntry
    (h : decodeEntry len rem = .ok (p, r)) : r.length + 2 ≤ rem.length := by
  rw [decodeEntry] at h
  split at h
  case isTrue => cases h
  case isFalse hentry =>
    cases hname : Protocol.tryFrom (rem.take (len - 1)) with
    | error e =>
      rw [hname] at h
      cases h
    | ok q =>
      rw [hname] at h
      cases h
      have hpos := p.length_pos
      rw [Protocol.name_of_tryFrom hname, length_take] at hpos
      rw [length_drop]
      omega

theorem length_of_decodeProtocols (h : decodeProtocols n bs = .ok ps) : 3 * n ≤ bs.length := by
  induction n generalizing bs ps with
  | zero => omega
  | succ n ih =>
    obtain ⟨⟨len, rem⟩, hlen, h⟩ := bind_eq_ok_iff.mp h
    obtain ⟨⟨p, remaining⟩, hentry, h⟩ := bind_eq_ok_iff.mp h
    obtain ⟨ps', hrest, -⟩ := bind_eq_ok_iff.mp h
    have h₁ := length_of_varint hlen
    have h₂ := length_of_decodeEntry hentry
    have h₃ := ih hrest
    omega

/-! ## Telling messages apart -/

theorem length_of_head_protocols (hb : b.toNat < 128) (h : (encode (protocols ps)).head? = some b) :
    3 * b.toNat + 1 ≤ (encode (protocols ps)).length := by
  have hentries := Protocol.length_flatMap_entry ps
  rw [encode] at h ⊢
  rcases Nat.lt_or_ge ps.length 128 with hlt | hge
  · rw [encode_of_lt hlt, cons_append, head?_cons, Option.some.injEq] at h
    have hlen : ps.length = b.toNat := by
      rw [← h, toNat_ofNat_of_lt (by omega)]
    rw [encode_of_lt hlt, length_append, length_singleton]
    omega
  · rw [encode_of_ge hge, cons_append, head?_cons, Option.some.injEq] at h
    have hlast : b.toNat = ps.length % 128 + 128 := by
      rw [← h, toNat_ofNat_of_lt (by omega)]
    omega

theorem decode_protocols (ps : List Protocol) (h : ps.length ≤ maxProtocols) :
    decode (encode (protocols ps)) = .ok (protocols ps) := by
  have hslash : (encode (protocols ps)).head? = some slash →
      142 ≤ (encode (protocols ps)).length := length_of_head_protocols (by decide)
  have hshort : ∀ {b : UInt8} {msg : List UInt8}, b.toNat < 128 → msg.head? = some b →
      msg.length < 3 * b.toNat + 1 → encode (protocols ps) ≠ msg := by
    rintro b _ hb hhead hlen rfl
    have := length_of_head_protocols hb hhead
    omega
  rw [decode, if_neg (hshort (b := slash) (by decide) rfl (by decide)), if_neg,
    if_neg (hshort (b := 110) (by decide) rfl (by decide)),
    if_neg (hshort (b := 108) (by decide) rfl (by decide)), encode]
  · have hentries := decodeProtocols_entries ps []
    rw [append_nil] at hentries
    simp only [maxProtocols] at h
    rw [varint_encode (by omega)]
    simp only [bind, Except.bind, pure, Except.pure]
    rw [if_neg (by simp only [maxProtocols]; omega), hentries]
  · rintro ⟨hhead, -, hlen⟩
    have := hslash hhead
    simp only [maxProtocolLen] at hlen
    omega

theorem head_protocol (p : Protocol) : (encode (protocol p)).head? = some slash := by
  rw [encode, head?_append, p.head_eq]
  rfl

theorem length_protocol (p : Protocol) : (encode (protocol p)).length = p.name.length + 1 := by
  rw [encode, length_append, length_singleton]

theorem protocol_ne_header (h : p.name ≠ multistream10) :
    encode (protocol p) ≠ msgMultistream10 := by
  intro heq
  exact h (append_cancel_right heq)

theorem decode_protocol (hname : p.name ≠ multistream10) (hlen : p.name.length < maxProtocolLen) :
    decode (encode (protocol p)) = .ok (protocol p) := by
  have hlast : (encode (protocol p)).getLast? = some newline := by
    rw [encode, getLast?_append]
    rfl
  have hle : (encode (protocol p)).length ≤ maxProtocolLen := by
    rw [length_protocol]
    exact hlen
  have hdrop : (encode (protocol p)).dropLast = p.name := by
    rw [encode, dropLast_concat]
  rw [decode, if_neg (protocol_ne_header hname), if_pos ⟨head_protocol p, hlast, hle⟩, hdrop,
    p.tryFrom_name]
  rfl

/-- A name of the largest length is taken for the beginning of a list of 47 entries, for which
it is too short. -/
theorem decode_protocol_ne_ok (hname : p.name ≠ multistream10)
    (hlen : p.name.length = maxProtocolLen) (m : Message) :
    decode (encode (protocol p)) ≠ .ok m := by
  have hlong : (encode (protocol p)).length = 141 := by
    rw [length_protocol, hlen]
    rfl
  have hne : ∀ {msg : List UInt8}, msg.head? ≠ some slash → encode (protocol p) ≠ msg := by
    rintro _ hhead rfl
    exact hhead (head_protocol p)
  rw [decode, if_neg (protocol_ne_header hname), if_neg, if_neg (hne (by decide)),
    if_neg (hne (by decide))]
  · intro h
    obtain ⟨⟨n, remaining⟩, hvarint, h⟩ := bind_eq_ok_iff.mp h
    dsimp only at h
    split at h
    case isTrue => cases h
    case isFalse =>
      obtain ⟨ps, hps, -⟩ := bind_eq_ok_iff.mp h
      -- the first byte is 47, and 140 bytes are left
      obtain ⟨rest, hrest⟩ : ∃ rest, encode (protocol p) = slash :: rest :=
        head?_eq_some_iff.mp (head_protocol p)
      rw [hrest] at hvarint hlong
      obtain ⟨rfl, rfl⟩ : 47 = n ∧ rest = remaining := by
        cases hvarint
        exact ⟨rfl, rfl⟩
      have hentries := length_of_decodeProtocols hps
      rw [length_cons] at hlong
      omega
  · rintro ⟨-, -, hle⟩
    rw [hlong] at hle
    exact absurd hle (by decide)

theorem decode_eq_ok_of_encode (hname : ∀ p, m = protocol p → p.name ≠ multistream10)
    (hlist : ∀ ps, m = protocols ps → ps.length ≤ maxProtocols)
    (h : decode (encode m) = .ok m') : m' = m := by
  cases m with
  | header v | listProtocols | notAvailable =>
    cases h
    rfl
  | protocols ps =>
    rw [decode_protocols ps (hlist ps rfl)] at h
    cases h
    rfl
  | protocol p =>
    rcases Nat.lt_or_eq_of_le p.length_le with hlt | heq
    · rw [decode_protocol (hname p rfl) hlt] at h
      cases h
      rfl
    · exact absurd h (decode_protocol_ne_ok (hname p rfl) heq m')

/-- Messages are read back, except for names of 140 bytes, and none is taken for another one. -/
theorem decode_encode_iff (m : Message) (hname : ∀ p, m = protocol p → p.name ≠ multistream10)
    (hlist : ∀ ps, m = protocols ps → ps.length ≤ maxProtocols) :
    (decode (encode m) = .ok m ↔ ∀ p, m = protocol p → p.name.length ≤ 139) ∧
      ∀ m', decode (encode m) = .ok m' → m' = m := by
  refine ⟨?_, fun m' => decode_eq_ok_of_encode hname hlist⟩
  cases m with
  | header v | listProtocols | notAvailable => exact ⟨fun _ _ => nofun, fun _ => rfl⟩
  | protocols ps => exact ⟨fun _ _ => nofun, fun _ => decode_protocols ps (hlist ps rfl)⟩
  | protocol p =>
    constructor
    · intro h q hq
      cases hq
      by_contra hlt
      have hle := p.length_le
      simp only [maxProtocolLen] at hle
      exact decode_protocol_ne_ok (hname p rfl) (by simp only [maxProtocolLen]; omega) _ h
    · intro h
      have hle := h p rfl
      exact decode_protocol (hname p rfl) (by simp only [maxProtocolLen]; omega)

def longestName : Protocol :=
  ⟨slash :: List.replicate 139 97, rfl, by rw [List.length_cons, List.length_replicate, maxProtocolLen]⟩

theorem longestName_not_read :
    decode (encode (protocol longestName)) = .error .invalidMessage := by
  decide +kernel

/-- A list with the longest name in it is read back. -/
theorem longestName_in_list_read :
    decode (encode (protocols [longestName])) = .ok (protocols [longestName]) :=
  (decode_encode_iff (protocols [longestName]) (fun _ => nofun)
    (fun ps hps => by cases hps; decide)).1.mpr fun _ => nofun

end Message

end Libp2pRs.Core.Multistream
