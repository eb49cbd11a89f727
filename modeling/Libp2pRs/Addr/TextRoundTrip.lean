import Libp2pRs.Addr.Text

/-!
# Reading back the text of an address

The text of a component is a slash and its name, and where it has a value another slash and the
text of the value. None of these pieces holds a slash, so splitting the text of an address gives
the pieces of its components one after the other.
-/

variable {s : Str}

namespace Libp2pRs.Addr

open Lib Lib.Parser Libp2pRs.Core List

/-! ## Assumptions -/

/-- Values are shown without a slash and read back. -/
def ShownBy {α : Type} (parse : Str → Option α) (text : α → String) : Prop :=
  ∀ a, '/' ∉ (text a).toList ∧ ∀ s : Str, s.val = text a → parse s = some a

/-- What is assumed of the functions for text of other code. -/
structure TextCodec.Lawful (codec : TextCodec) : Prop where
  ipv4 : ShownBy codec.parseIpv4 codec.showIpv4
  ipv6 : ShownBy codec.parseIpv6 codec.showIpv6
  u16 : ShownBy codec.parseU16 codec.showU16
  u64 : ShownBy codec.parseU64 codec.showU64
  base58 : ShownBy codec.base58Decode codec.base58Encode
  /-- Bytes of the set are not shown as they are. -/
  percent_slash : ∀ (set : UInt8 → Bool) bytes, set 0x2f = true →
    '/' ∉ (codec.percentEncode set bytes).toList
  percent : ∀ (set : UInt8 → Bool) bytes (s : Str), set 0x25 = true →
    s.val = codec.percentEncode set bytes → codec.percentDecode s.bytes = bytes
  /-- Numbers are shown without a colon. -/
  u16_colon : ∀ n, ':' ∉ (codec.showU16 n).toList
  /-- Groups of five bytes are shown as eight letters or digits. -/
  base32_length : ∀ data : List UInt8, 5 ∣ data.length →
    (codec.base32Encode data).utf8ByteSize = data.length / 5 * 8
  base32_decodeLen : ∀ n, 5 ∣ n → codec.base32DecodeLen (n / 5 * 8) = some n
  base32 : ∀ {n : Nat} (data : List.Vector UInt8 n) (s : Str), 5 ∣ n →
    s.val = codec.base32Encode data.toList → codec.base32Decode n s.bytes = some data
  base32_colon : ∀ data, ':' ∉ (codec.base32Encode data).toList
  /-- Letters of the other case are no separators, and the case can be restored. -/
  lower_slash : ∀ data, '/' ∉ (codec.toLowercase (codec.base32Encode data)).toList
  upper_lower : ∀ data n (s : Str),
    s.val = codec.toLowercase (codec.base32Encode data) ++ ":" ++ codec.showU16 n →
    (codec.toUppercase s).val = codec.base32Encode data ++ ":" ++ codec.showU16 n

/-! ## Splitting and joining -/

theorem not_mem_of_mem_splitOn [BEq α] [LawfulBEq α] {l part : List α}
    (h : part ∈ l.splitOn c) : c ∉ part := by
  induction l generalizing part with
  | nil =>
    rw [mem_singleton.mp h]
    exact not_mem_nil
  | cons x l ih =>
    rw [splitOn, splitOnP_cons_eq_if_modifyHead] at h
    split at h
    case isTrue =>
      obtain rfl | h := mem_cons.mp h
      · exact not_mem_nil
      · exact ih h
    case isFalse hne =>
      cases hparts : l.splitOnP (fun y => y == c) with
      | nil =>
        rw [hparts] at h
        cases h
      | cons first rest =>
        rw [hparts] at h
        have hmem : ∀ q ∈ first :: rest, c ∉ q := fun q hq => ih (by
          rw [splitOn, hparts]
          exact hq)
        obtain rfl | h := mem_cons.mp h
        · intro hc
          obtain rfl | hc := mem_cons.mp hc
          · exact hne (beq_self_eq_true c)
          · exact hmem first mem_cons_self hc
        · exact hmem part (mem_cons_of_mem first h)

theorem intercalate_cons (c : α) (l : List α) (ls : List (List α)) :
    [c].intercalate (l :: ls) = l ++ ls.flatMap (c :: ·) := by
  induction ls generalizing l with
  | nil =>
    rw [flatMap_nil, append_nil]
    exact intercalate_singleton
  | cons l' ls ih =>
    rw [intercalate_cons_cons, ih, flatMap_cons, append_assoc]
    rfl

namespace Str

theorem map_val_split (c : Char) (s : Str) :
    (s.split c).map Str.val = (s.val.toList.splitOn c).map String.ofList := by
  rw [split, map_map]
  exact attach_map_val (f := String.ofList)

theorem not_mem_of_mem_split {c : Char} {part : Str} (h : part ∈ s.split c) :
    c ∉ part.val.toList := by
  have hval : part.val ∈ (s.split c).map Str.val := mem_map_of_mem h
  rw [map_val_split] at hval
  obtain ⟨l, hl, heq⟩ := mem_map.mp hval
  rw [← heq, String.toList_ofList]
  exact not_mem_of_mem_splitOn hl

theorem map_val_split_of_join
    (h : s.val.toList = first.toList ++ pieces.flatMap fun p => c :: p.toList)
    (hc : ∀ p ∈ first :: pieces, c ∉ p.toList) : (s.split c).map Str.val = first :: pieces := by
  have hjoin : s.val.toList = [c].intercalate ((first :: pieces).map String.toList) := by
    rw [h, map_cons, intercalate_cons, flatMap_map]
  rw [map_val_split, hjoin, splitOn_intercalate c _ (by simp), map_map]
  · have hid : String.ofList ∘ String.toList = id := by
      funext p
      exact String.ofList_toList
    rw [hid, map_id]
  · intro l hl
    obtain ⟨p, hp, rfl⟩ := mem_map.mp hl
    exact hc p hp

end Str

/-! ## Components that come from text -/

/-- What the value of a component that comes from text satisfies. -/
def Textual : Protocol → Prop
  | .dns s | .dns4 s | .dns6 s | .dnsaddr s | .unix s => '/' ∉ s.val.toList
  | .onion _ port | .onion3 _ port => port ≠ 0
  | _ => True

section Gives

variable {α β : Type} {codec : TextCodec}

/-- From parts without a slash a computation gives a value with `P` and leaves such parts. -/
def Gives (m : Parts α) (P : α → Prop) : Prop :=
  ∀ parts rest a, m.run parts = .ok (a, rest) → (∀ s ∈ parts, '/' ∉ s.val.toList) →
    P a ∧ ∀ s ∈ rest, '/' ∉ s.val.toList

variable {P : α → Prop}

theorem gives_pure {a : α} (h : P a) : Gives (pure a) P := by
  intro parts rest b hb hparts
  obtain ⟨rfl, rfl⟩ := run_pure_eq_ok.mp hb
  exact ⟨h, hparts⟩

theorem gives_nextPart : Gives nextPart fun s => '/' ∉ s.val.toList := by
  intro parts rest s h hparts
  rw [nextPart_eq_ok.mp h] at hparts
  exact ⟨hparts s mem_cons_self, fun t ht => hparts t (mem_cons_of_mem s ht)⟩

theorem gives_argument (parse : Str → Option α) : Gives (argument parse) fun _ => True := by
  intro parts rest a h hparts
  obtain ⟨s, rfl, -⟩ := argument_eq_ok.mp h
  exact ⟨trivial, fun t ht => hparts t (mem_cons_of_mem s ht)⟩

theorem gives_lift {x : Except Error α} (h : ∀ a, x = .ok a → P a) :
    Gives (liftM x : Parts α) P := by
  intro parts rest a ha hparts
  cases x with
  | error e => cases ha
  | ok b =>
    cases ha
    exact ⟨h a rfl, hparts⟩

theorem Gives.map {m : Parts α} {Q : β → Prop} {f : α → β} (h : Gives m P) (hf : ∀ a, P a → Q (f a)) :
    Gives (f <$> m) Q := by
  intro parts rest b hb hparts
  obtain ⟨a, ha, rfl⟩ := run_map_eq_ok.mp hb
  obtain ⟨hP, hrest⟩ := h _ _ a ha hparts
  exact ⟨hf a hP, hrest⟩

theorem Gives.bind {m : Parts α} {f : α → Parts β} {Q : β → Prop} (h : Gives m P)
    (hf : ∀ a, P a → Gives (f a) Q) : Gives (m >>= f) Q := by
  intro parts rest b hb hparts
  obtain ⟨a, s, ha, hs⟩ := run_bind_eq_ok.mp hb
  obtain ⟨hP, hrest⟩ := h _ _ a ha hparts
  exact hf a hP _ _ b hs hrest

theorem guard_eq_ok {ε : Type} {c : Prop} [Decidable c] {e : ε} {k : Except ε α} {a : α} :
    (if c then do throw e; k else k) = .ok a ↔ ¬c ∧ k = .ok a := by
  split
  case isTrue hc => exact ⟨nofun, fun h => absurd hc h.1⟩
  case isFalse hc => exact ⟨fun h => ⟨hc, h⟩, fun h => h.2⟩

theorem readOnionImpl_eq_ok {len encodedLen : Nat} {a : List.Vector UInt8 len} {port : UInt16} :
    readOnionImpl codec len encodedLen s = .ok (a, port) ↔
      ∃ b32 p, s.split ':' = [b32, p] ∧ b32.bytes.length = encodedLen ∧
        codec.parseU16 p = some port ∧ port ≠ 0 ∧
        codec.base32DecodeLen b32.bytes.length = some len ∧
        codec.base32Decode len b32.bytes = some a := by
  unfold readOnionImpl
  constructor
  · intro h
    split at h
    case h_1 => cases h
    case h_2 b32 parts hsplit =>
      obtain ⟨hlen, h⟩ := guard_eq_ok.mp h
      cases parts with
      | nil => cases h
      | cons p rest =>
        dsimp only at h
        split at h
        case h_1 => cases h
        case h_2 port' hport =>
          obtain ⟨h0, h⟩ := guard_eq_ok.mp h
          obtain ⟨hrest, h⟩ := guard_eq_ok.mp h
          obtain ⟨hdecode, h⟩ := guard_eq_ok.mp h
          split at h
          case h_1 => cases h
          case h_2 buf hbuf =>
            cases h
            rw [not_not.mp hrest] at hsplit
            exact ⟨b32, p, hsplit, not_not.mp hlen, hport, h0, not_not.mp hdecode, hbuf⟩
  · rintro ⟨b32, p, hsplit, rfl, hport, h0, hdecode, hbuf⟩
    simp only [hsplit, hport, hdecode, hbuf, ne_eq, not_true_eq_false, if_false, h0]
    rfl

theorem gives_fromName (name : Str) : Gives (fromName codec name) Textual := by
  unfold fromName
  split
  case h_6 | h_7 | h_8 | h_9 | h_13 => exact gives_nextPart.map fun _ hs => hs
  case h_17 | h_18 =>
    apply gives_nextPart.bind
    intro s _
    apply Gives.bind (P := fun x => x.2 ≠ 0)
    · apply gives_lift
      intro x hx
      obtain ⟨b32, p, -, -, -, h0, -⟩ := readOnionImpl_eq_ok.mp hx
      exact h0
    · exact fun x hx => gives_pure hx
  case h_29 => exact fun _ _ _ h => absurd h run_throw_ne_ok
  case h_11 | h_12 | h_15 | h_16 | h_19 | h_20 | h_21 | h_24 | h_25 | h_26 | h_27 =>
    exact gives_pure trivial
  all_goals exact (gives_argument _).map fun _ _ => trivial

theorem gives_fromStrParts : Gives (fromStrParts codec) Textual :=
  gives_nextPart.bind fun name _ => gives_fromName name

end Gives

/-! ## Pieces of text -/

section Pieces

variable (codec : TextCodec)

def pieces : Protocol → List String
  | .dccp port => ["dccp", codec.showU16 port]
  | .dns s => ["dns", s.val]
  | .dns4 s => ["dns4", s.val]
  | .dns6 s => ["dns6", s.val]
  | .dnsaddr s => ["dnsaddr", s.val]
  | .http => ["http"]
  | .https => ["https"]
  | .ip4 addr => ["ip4", codec.showIpv4 addr]
  | .ip6 addr => ["ip6", codec.showIpv6 addr]
  | .p2pWebRtcDirect => ["p2p-webrtc-direct"]
  | .p2pWebRtcStar => ["p2p-webrtc-star"]
  | .p2pWebSocketStar => ["p2p-websocket-star"]
  | .memory port => ["memory", codec.showU64 port]
  | .onion addr port =>
    ["onion", codec.toLowercase (codec.base32Encode addr.toList) ++ ":" ++ codec.showU16 port]
  | .onion3 hash port =>
    ["onion3", codec.toLowercase (codec.base32Encode hash.toList) ++ ":" ++ codec.showU16 port]
  | .p2p c => ["p2p", codec.base58Encode c.toBytes]
  | .p2pCircuit => ["p2p-circuit"]
  | .quic => ["quic"]
  | .sctp port => ["sctp", codec.showU16 port]
  | .tcp port => ["tcp", codec.showU16 port]
  | .udp port => ["udp", codec.showU16 port]
  | .udt => ["udt"]
  | .unix s => ["unix", s.val]
  | .utp => ["utp"]
  | .ws s =>
    if s = .root then ["ws"]
    else ["x-parity-ws", codec.percentEncode pathSegmentEncodeSet s.bytes]
  | .wss s =>
    if s = .root then ["wss"]
    else ["x-parity-wss", codec.percentEncode pathSegmentEncodeSet s.bytes]

theorem toList_display (p : Protocol) :
    (display codec p).toList = (pieces codec p).flatMap fun piece => '/' :: piece.toList := by
  cases p with
  | ws s | wss s =>
    simp only [display, pieces]
    split <;> simp [String.toList_append]
  | _ => simp [display, pieces, String.toList_append]

variable {codec} (h : codec.Lawful)

include h in
theorem not_mem_onion (data : List UInt8) (port : UInt16) :
    '/' ∉ (codec.toLowercase (codec.base32Encode data) ++ ":" ++ codec.showU16 port).toList := by
  rw [String.toList_append, String.toList_append]
  have hport := (h.u16 port).1
  have hdata := h.lower_slash data
  simp [hport, hdata]

include h in
theorem not_mem_pieces (hp : Textual p) : ∀ piece ∈ pieces codec p, '/' ∉ piece.toList := by
  have hset : pathSegmentEncodeSet 0x2f = true := rfl
  cases p with
  | dccp port | sctp port | tcp port | udp port => simp [pieces, (h.u16 port).1]
  | memory port => simp [pieces, (h.u64 port).1]
  | ip4 addr => simp [pieces, (h.ipv4 addr).1]
  | ip6 addr => simp [pieces, (h.ipv6 addr).1]
  | p2p c => simp [pieces, (h.base58 c.toBytes).1]
  | dns s | dns4 s | dns6 s | dnsaddr s | unix s => simpa [pieces, Textual] using hp
  | onion data port | onion3 data port =>
    have hvalue := not_mem_onion h data.toList port
    simpa [pieces] using hvalue
  | ws s | wss s =>
    have hpath := h.percent_slash pathSegmentEncodeSet s.bytes hset
    rw [pieces]
    split
    · simp
    · simp [hpath]
  | _ => simp [pieces]

/-! ## Reading the pieces -/

variable {parts rest : List Str} {p : Protocol} {name value : String}

theorem eq_pair_of_map_val (hparts : parts.map Str.val = [name, value]) :
    ∃ s t : Str, parts = [s, t] ∧ s.val = name ∧ t.val = value := by
  obtain ⟨s, left, rfl, hs, hleft⟩ := map_eq_cons_iff.mp hparts
  obtain ⟨t, last, rfl, ht, hlast⟩ := map_eq_cons_iff.mp hleft
  rw [map_eq_nil_iff.mp hlast]
  exact ⟨s, t, rfl, hs, ht⟩

theorem read_name (hparts : parts.map Str.val = [name])
    (hrun : ∀ hsize, (fromName codec ⟨name, hsize⟩).run rest = .ok (p, rest)) :
    (fromStrParts codec).run (parts ++ rest) = .ok (p, rest) := by
  obtain ⟨⟨s, hsize⟩, left, rfl, rfl, hleft⟩ := map_eq_cons_iff.mp hparts
  rw [map_eq_nil_iff.mp hleft]
  exact hrun hsize

theorem read_value (hparts : parts.map Str.val = [name, value])
    (hrun : ∀ hsize (t : Str), t.val = value →
      (fromName codec ⟨name, hsize⟩).run (t :: rest) = .ok (p, rest)) :
    (fromStrParts codec).run (parts ++ rest) = .ok (p, rest) := by
  obtain ⟨⟨s, hsize⟩, t, rfl, rfl, ht⟩ := eq_pair_of_map_val hparts
  exact hrun hsize t ht

theorem run_argument {α : Type} {parse : Str → Option α} {a : α} (f : α → Protocol) {t : Str}
    (ha : parse t = some a) : (f <$> argument parse).run (t :: rest) = .ok (f a, rest) :=
  run_map_eq_ok.mpr ⟨a, argument_eq_ok.mpr ⟨t, rfl, ha⟩, rfl⟩

theorem run_nextPart (f : Str → Protocol) {t : Str} (ht : t.val = s.val) :
    (f <$> nextPart).run (t :: rest) = .ok (f s, rest) := by
  obtain ⟨_, _⟩ := s
  obtain ⟨_, _⟩ := t
  cases ht
  rfl

include h in
theorem readOnionImpl_of_text {n : Nat} (hn : 5 ∣ n) (data : List.Vector UInt8 n) {port : UInt16}
    (h0 : port ≠ 0) {t : Str}
    (ht : t.val = codec.toLowercase (codec.base32Encode data.toList) ++ ":" ++ codec.showU16 port) :
    readOnionImpl codec n (n / 5 * 8) (codec.toUppercase t) = .ok (data, port) := by
  have hupper := h.upper_lower data.toList port t ht
  have hsplit : ((codec.toUppercase t).split ':').map Str.val =
      [codec.base32Encode data.toList, codec.showU16 port] := by
    apply Str.map_val_split_of_join
    · rw [hupper]
      simp [String.toList_append]
    · have hb := h.base32_colon data.toList
      have hu := h.u16_colon port
      simp [hb, hu]
  obtain ⟨b32, q, hpair, hb, hq⟩ := eq_pair_of_map_val hsplit
  have hlen : b32.bytes.length = n / 5 * 8 := by
    have hdata := h.base32_length data.toList
    rw [data.toList_length, ← hb] at hdata
    exact hdata hn
  refine readOnionImpl_eq_ok.mpr ⟨b32, q, hpair, hlen, (h.u16 port).2 q hq, h0, ?_, ?_⟩
  · rw [hlen]
    exact h.base32_decodeLen n hn
  · exact h.base32 data b32 hn hb

theorem run_onion {α : Type} {x : Except Error (α × UInt16)} {a : α} {port : UInt16}
    (hx : x = .ok (a, port)) (f : α → UInt16 → Protocol) :
    (do let (a, port) ← liftM x; return f a port : Parts Protocol).run rest =
      .ok (f a port, rest) := by
  rw [hx]
  rfl

include h in
theorem percent_path {t : Str} (ht : t.val = codec.percentEncode pathSegmentEncodeSet s.bytes) :
    Str.fromUtf8 (codec.percentDecode t.bytes) = some s := by
  rw [h.percent pathSegmentEncodeSet s.bytes t rfl ht]
  exact Str.fromUtf8_eq_some_iff.mpr rfl

include h in
theorem fromStrParts_pieces (hp : Textual p) (hparts : parts.map Str.val = pieces codec p) :
    (fromStrParts codec).run (parts ++ rest) = .ok (p, rest) := by
  cases p with
  | dccp port => exact read_value hparts fun _ t ht => run_argument .dccp ((h.u16 port).2 t ht)
  | sctp port => exact read_value hparts fun _ t ht => run_argument .sctp ((h.u16 port).2 t ht)
  | tcp port => exact read_value hparts fun _ t ht => run_argument .tcp ((h.u16 port).2 t ht)
  | udp port => exact read_value hparts fun _ t ht => run_argument .udp ((h.u16 port).2 t ht)
  | memory port => exact read_value hparts fun _ t ht => run_argument .memory ((h.u64 port).2 t ht)
  | ip4 addr => exact read_value hparts fun _ t ht => run_argument .ip4 ((h.ipv4 addr).2 t ht)
  | ip6 addr => exact read_value hparts fun _ t ht => run_argument .ip6 ((h.ipv6 addr).2 t ht)
  | p2p c =>
    apply read_value hparts
    intro _ t ht
    apply run_argument .p2p
    rw [(h.base58 c.toBytes).2 t ht]
    exact Multihash.fromBytes_eq_some_iff.mpr rfl
  | dns s => exact read_value hparts fun _ t ht => run_nextPart .dns ht
  | dns4 s => exact read_value hparts fun _ t ht => run_nextPart .dns4 ht
  | dns6 s => exact read_value hparts fun _ t ht => run_nextPart .dns6 ht
  | dnsaddr s => exact read_value hparts fun _ t ht => run_nextPart .dnsaddr ht
  | unix s => exact read_value hparts fun _ t ht => run_nextPart .unix ht
  | onion data port =>
    apply read_value hparts
    intro _ t ht
    exact run_onion (readOnionImpl_of_text h (by decide) data hp ht) .onion
  | onion3 data port =>
    apply read_value hparts
    intro _ t ht
    exact run_onion (readOnionImpl_of_text h (by decide) data hp ht) .onion3
  | ws s =>
    rw [pieces] at hparts
    split at hparts
    case isTrue hroot =>
      rw [hroot]
      exact read_name hparts fun _ => rfl
    case isFalse => exact read_value hparts fun _ t ht => run_argument .ws (percent_path h ht)
  | wss s =>
    rw [pieces] at hparts
    split at hparts
    case isTrue hroot =>
      rw [hroot]
      exact read_name hparts fun _ => rfl
    case isFalse => exact read_value hparts fun _ t ht => run_argument .wss (percent_path h ht)
  | _ => exact read_name hparts fun _ => rfl

end Pieces

end Libp2pRs.Addr

namespace Libp2pRs.Core.Multiaddr

open Lib Lib.Parser Addr

variable {codec : TextCodec} {parts : List Str} {writer bytes : List UInt8} {ps : List Protocol}

theorem fromStrLoop_step (h : (fromStrParts codec).run parts = .ok (p, rest)) :
    fromStrLoop codec parts writer = fromStrLoop codec rest (writer ++ p.writeBytes) := by
  have hlt := fromStrParts_length_lt h
  have hne : parts ≠ [] := by
    rintro rfl
    exact absurd hlt (Nat.not_lt_zero _)
  rw [fromStrLoop, if_neg hne]
  split
  case h_1 e he => rw [h] at he; cases he
  case h_2 q left hq =>
    rw [h] at hq
    cases hq
    rfl

theorem textual_fromStrLoop (h : fromStrLoop codec parts writer = .ok bytes)
    (hparts : ∀ s ∈ parts, '/' ∉ s.val.toList) :
    ∃ ps : List Protocol, (∀ p ∈ ps, Textual p) ∧
      bytes = writer ++ ps.flatMap Protocol.writeBytes := by
  fun_induction fromStrLoop codec parts writer with
  | case1 writer =>
    cases h
    exact ⟨[], List.forall_mem_nil _, (List.append_nil _).symm⟩
  | case2 => cases h
  | case3 parts writer hne p rest hrest ih =>
    obtain ⟨hp, hleft⟩ := gives_fromStrParts parts rest p hrest hparts
    obtain ⟨ps, hps, rfl⟩ := ih h hleft
    refine ⟨p :: ps, List.forall_mem_cons.mpr ⟨hp, hps⟩, ?_⟩
    rw [List.flatMap_cons, List.append_assoc]

theorem fromStrLoop_pieces (h : codec.Lawful) (hps : ∀ p ∈ ps, Textual p)
    (hparts : parts.map Str.val = ps.flatMap (pieces codec)) :
    fromStrLoop codec parts writer = .ok (writer ++ ps.flatMap Protocol.writeBytes) := by
  induction ps generalizing parts writer with
  | nil =>
    rw [List.map_eq_nil_iff.mp hparts, fromStrLoop, if_pos rfl, List.flatMap_nil, List.append_nil]
  | cons p ps ih =>
    obtain ⟨hp, hps⟩ := List.forall_mem_cons.mp hps
    obtain ⟨front, left, rfl, hfront, hleft⟩ := List.map_eq_append_iff.mp hparts
    rw [fromStrLoop_step (fromStrParts_pieces h hp hfront), ih hps hleft, List.flatMap_cons,
      List.append_assoc]

theorem toList_foldl_display (text : String) :
    (ps.foldl (fun text p => text ++ display codec p) text).toList =
      text.toList ++ (ps.flatMap (pieces codec)).flatMap fun piece => '/' :: piece.toList := by
  induction ps generalizing text with
  | nil => exact (List.append_nil _).symm
  | cons p ps ih =>
    rw [List.foldl_cons, ih, String.toList_append, toList_display, List.flatMap_cons,
      List.flatMap_append, List.append_assoc]

theorem textual_of_fromStr {m : Multiaddr} (h : fromStr codec s = .ok m) :
    ∃ ps : List Protocol, (∀ p ∈ ps, Textual p) ∧ m.bytes = ps.flatMap Protocol.writeBytes := by
  rw [fromStr] at h
  split at h
  case h_1 => cases h
  case h_2 first parts hparts =>
    obtain ⟨-, h⟩ := guard_eq_ok.mp h
    obtain ⟨bytes, hloop, hm⟩ := bind_eq_ok_iff.mp h
    cases hm
    apply textual_fromStrLoop hloop
    intro t ht
    have hmem : t ∈ s.split '/' := by
      rw [hparts]
      exact List.mem_cons_of_mem first ht
    exact Str.not_mem_of_mem_split hmem

theorem fromStr_of_pieces (h : codec.Lawful) (hps : ∀ p ∈ ps, Textual p)
    (ht : t.val = ps.foldl (fun text p => text ++ display codec p) "") :
    fromStr codec t = .ok ⟨ps.flatMap Protocol.writeBytes⟩ := by
  have hsplit : (t.split '/').map Str.val = "" :: ps.flatMap (pieces codec) := by
    apply Str.map_val_split_of_join
    · rw [ht, toList_foldl_display]
    · intro piece hpiece
      obtain rfl | hpiece := List.mem_cons.mp hpiece
      · exact List.not_mem_nil
      · obtain ⟨p, hp, hmem⟩ := List.mem_flatMap.mp hpiece
        exact not_mem_pieces h (hps p hp) piece hmem
  obtain ⟨first, parts, hparts, hfirst, hrest⟩ := List.map_eq_cons_iff.mp hsplit
  have hloop : fromStrLoop codec parts [] = .ok ([] ++ ps.flatMap Protocol.writeBytes) :=
    fromStrLoop_pieces h hps hrest
  rw [fromStr, hparts]
  dsimp only
  rw [if_neg (not_not_intro hfirst), hloop]
  rfl

/-- The text of an address that comes from text is read back as the same address. -/
theorem fromStr_toString (h : codec.Lawful) {s : Str} {m : Multiaddr}
    (hs : fromStr codec s = .ok m) :
    ∃ text, m.toString codec = some text ∧
      ∀ t : Str, t.val = text → fromStr codec t = .ok m := by
  obtain ⟨ps, hps, hm⟩ := textual_of_fromStr hs
  have hparsed : Parsed m.bytes (ps.map fun p => (p, p.writeBytes)) := by
    rw [hm]
    exact Parsed.flatMap_writeBytes ps
  have hfst : (ps.map fun p => (p, p.writeBytes)).map Prod.fst = ps := by
    rw [List.map_map]
    exact List.map_id ps
  refine ⟨_, toString_of_parsed codec hparsed, fun t ht => ?_⟩
  rw [hfst] at ht
  obtain ⟨bytes⟩ := m
  cases hm
  exact fromStr_of_pieces h hps ht

end Libp2pRs.Core.Multiaddr

namespace Libp2pRs.Addr

open Lib Lib.Parser Libp2pRs.Core

/-! ## A sample of the functions for text -/

section Sample

variable {s : Str} {c : Char} {data : List UInt8} {α : Type}

theorem toNat_ofNat_of_lt (h : n < 0xd800) : (Char.ofNat n).toNat = n := by
  rw [Char.toNat_ofNat, if_pos (.inl h)]

def showBytes (data : List UInt8) : String :=
  String.ofList (data.map fun b => Char.ofNat (0x100 + b.toNat))

def parseBytes (s : Str) : List UInt8 := s.val.toList.map fun c => UInt8.ofNat c.toNat

theorem toNat_letter (b : UInt8) : (Char.ofNat (0x100 + b.toNat)).toNat = 0x100 + b.toNat := by
  have := b.toNat_lt
  apply toNat_ofNat_of_lt
  omega

theorem parseBytes_of_show (h : s.val = showBytes data) : parseBytes s = data := by
  rw [parseBytes, h, showBytes, String.toList_ofList, List.map_map]
  conv_rhs => rw [← List.map_id data]
  apply List.map_congr_left
  intro b _
  have := b.toNat_lt
  apply UInt8.toNat_inj.mp
  rw [Function.comp_apply, toNat_letter, UInt8.toNat_ofNat', id]
  omega

theorem not_mem_showBytes (hc : c.toNat < 0x100) : c ∉ (showBytes data).toList := by
  rw [showBytes, String.toList_ofList]
  intro h
  obtain ⟨b, -, rfl⟩ := List.mem_map.mp h
  rw [toNat_letter] at hc
  omega

def parseWith (m : Parser Error α) (s : Str) : Option α :=
  (m.run (parseBytes s)).toOption.map Prod.fst

theorem shownBy_parseWith {m : Parser Error α} {enc : α → List UInt8}
    (hm : ∀ a, m.run (enc a) = .ok (a, [])) : ShownBy (parseWith m) fun a => showBytes (enc a) := by
  intro a
  refine ⟨not_mem_showBytes (by decide), fun s hs => ?_⟩
  rw [parseWith, parseBytes_of_show hs, hm]
  rfl

def digits : Nat → Nat → List Char
  | 0, _ => []
  | k + 1, n => Char.ofNat (0x41 + n % 32) :: digits k (n / 32)

def ofDigits (cs : List Char) : Nat := cs.foldr (fun c n => (c.toNat - 0x41) + 32 * n) 0

theorem toNat_digit (n : Nat) : (Char.ofNat (0x41 + n % 32)).toNat = 0x41 + n % 32 := by
  apply toNat_ofNat_of_lt
  omega

theorem ofDigits_digits {k n : Nat} (h : n < 32 ^ k) : ofDigits (digits k n) = n := by
  induction k generalizing n with
  | zero =>
    have hn : n = 0 := by omega
    rw [hn]
    rfl
  | succ k ih =>
    rw [pow_succ] at h
    have hdiv : n / 32 < 32 ^ k := by omega
    rw [digits, ofDigits, List.foldr_cons, ← ofDigits, ih hdiv, toNat_digit]
    omega

theorem mem_digits {k n : Nat} (h : c ∈ digits k n) : 0x41 ≤ c.toNat ∧ c.toNat < 0x80 := by
  induction k generalizing n with
  | zero => cases h
  | succ k ih =>
    obtain rfl | h := List.mem_cons.mp h
    · rw [toNat_digit]
      omega
    · exact ih h

theorem utf8Len_digits (k n : Nat) : String.utf8Len (digits k n) = k := by
  induction k generalizing n with
  | zero => rfl
  | succ k ih =>
    have hsize : (Char.ofNat (0x41 + n % 32)).utf8Size = 1 := by
      have hle : (Char.ofNat (0x41 + n % 32)).toNat ≤ 0x7f := by
        rw [toNat_digit]
        omega
      rw [Char.utf8Size, if_pos]
      exact UInt32.le_iff_toNat_le.mpr hle
    rw [digits, String.utf8Len_cons, ih, hsize]

def sampleCodec : TextCodec :=
  { parseIpv4 := parseWith (takeVector .dataLessThanLen 4)
    showIpv4 := fun a => showBytes a.toList
    parseIpv6 := parseWith ipv6
    showIpv6 := fun a => showBytes (a.toList.flatMap fun n => beBytes 2 n.toNat)
    parseIp := fun _ => none
    parseU16 := parseWith u16
    showU16 := fun n => showBytes (beBytes 2 n.toNat)
    parseU64 := parseWith u64
    showU64 := fun n => showBytes (beBytes 8 n.toNat)
    base58Decode := fun s => some (parseBytes s)
    base58Encode := showBytes
    base32DecodeLen := fun n => some (n / 8 * 5)
    base32Decode := fun n data => (Str.fromUtf8 data).map fun s =>
      ⟨beBytes n (ofDigits s.val.toList), length_beBytes n _⟩
    base32Encode := fun data => String.ofList (digits (data.length / 5 * 8) (beNat data))
    percentDecode := fun data => ((Str.fromUtf8 data).map parseBytes).getD []
    percentEncode := fun _ data => showBytes data
    toUppercase := id
    toLowercase := id
    parseUrl := fun _ => none }

theorem toList_sample_base32 (data : List UInt8) :
    (sampleCodec.base32Encode data).toList = digits (data.length / 5 * 8) (beNat data) :=
  String.toList_ofList

theorem lawful_sampleCodec : sampleCodec.Lawful where
  ipv4 := shownBy_parseWith fun a => takeVector_eq_ok.mpr (List.append_nil _).symm
  ipv6 := shownBy_parseWith fun a => ipv6_eq_ok.mpr (List.append_nil _).symm
  u16 := shownBy_parseWith fun n => u16_eq_ok.mpr (List.append_nil _).symm
  u64 := shownBy_parseWith fun n => u64_eq_ok.mpr (List.append_nil _).symm
  base58 := fun data =>
    ⟨not_mem_showBytes (by decide), fun s hs => congrArg some (parseBytes_of_show hs)⟩
  percent_slash := fun _ _ _ => not_mem_showBytes (by decide)
  percent := by
    intro _ data s _ hs
    have hutf : Str.fromUtf8 s.bytes = some s := Str.fromUtf8_eq_some_iff.mpr rfl
    simp only [sampleCodec, hutf, Option.map_some, Option.getD_some]
    exact parseBytes_of_show hs
  u16_colon := fun _ => not_mem_showBytes (by decide)
  base32_length := by
    intro data _
    rw [sampleCodec, String.utf8ByteSize_ofList, utf8Len_digits]
  base32_decodeLen := by
    intro n hn
    have : n / 5 * 8 / 8 * 5 = n := by omega
    exact congrArg some this
  base32 := by
    intro n data s hn hs
    obtain ⟨l, rfl⟩ := data
    rw [List.Vector.toList_mk] at hs
    have hutf : Str.fromUtf8 s.bytes = some s := Str.fromUtf8_eq_some_iff.mpr rfl
    have hlt : beNat l < 32 ^ (l.length / 5 * 8) := by
      have hlt := beNat_lt l
      rw [← Nat.mul_div_cancel' hn, pow_mul] at hlt
      rwa [mul_comm (l.length / 5) 8, pow_mul]
    have hdigits : ofDigits s.val.toList = beNat l := by
      rw [hs, toList_sample_base32, ofDigits_digits hlt]
    have hvalue : beBytes l.length (ofDigits s.val.toList) = l := by
      rw [hdigits, beBytes_beNat]
    show (Str.fromUtf8 s.bytes).map _ = some _
    rw [hutf]
    exact congrArg some (Subtype.ext hvalue)
  base32_colon := by
    intro data h
    rw [toList_sample_base32] at h
    exact absurd (mem_digits h).1 (by decide)
  lower_slash := by
    intro data h
    have h : '/' ∈ (sampleCodec.base32Encode data).toList := h
    rw [toList_sample_base32] at h
    exact absurd (mem_digits h).1 (by decide)
  upper_lower := fun _ _ _ hs => hs

end Sample

/-- An onion address with a port, and a path that has to be encoded. -/
def sampleComponents : List Protocol :=
  [.onion ⟨List.replicate 10 7, rfl⟩ 80, .ws ⟨"/a", by decide⟩]

def sampleText : Str :=
  ⟨sampleComponents.foldl (fun text p => text ++ display sampleCodec p) "", by decide +kernel⟩

theorem textual_sampleComponents : ∀ p ∈ sampleComponents, Textual p := by
  intro p hp
  simp only [sampleComponents, List.mem_cons, List.not_mem_nil, or_false] at hp
  obtain rfl | rfl := hp
  · show (80 : UInt16) ≠ 0
    decide
  · trivial

theorem sampleText_read_back :
    sampleCodec.Lawful ∧
      ∃ m text, Multiaddr.fromStr sampleCodec sampleText = .ok m ∧
        m.toString sampleCodec = some text ∧
          ∀ t : Str, t.val = text → Multiaddr.fromStr sampleCodec t = .ok m := by
  have hread := Multiaddr.fromStr_of_pieces lawful_sampleCodec textual_sampleComponents
    (t := sampleText) rfl
  obtain ⟨text, htext, hback⟩ := Multiaddr.fromStr_toString lawful_sampleCodec hread
  exact ⟨lawful_sampleCodec, _, text, hread, htext, hback⟩

end Libp2pRs.Addr
