import Libp2pRs.Addr.Multiaddr

/-!
# Multiaddresses as text

The text of an address is split at each `/`. A component takes its name from the parts and, where it
has a value, one part more. The functions for text of the standard library and of other crates
(numbers, IP addresses, base 32 and 58, percent encoding, letter case) are a parameter.
-/

namespace Libp2pRs.Addr

open Lib Lib.Parser Libp2pRs.Core List

structure Url where
  scheme : Str
  username : Str
  password : Option Str
  hostStr : Option Str
  port : Option UInt16
  path : Str
  query : Option Str
  fragment : Option Str

/-- What other code does with text. -/
structure TextCodec where
  parseIpv4 : Str → Option Ipv4Addr
  showIpv4 : Ipv4Addr → String
  parseIpv6 : Str → Option Ipv6Addr
  showIpv6 : Ipv6Addr → String
  parseIp : Str → Option (Ipv4Addr ⊕ Ipv6Addr)
  parseU16 : Str → Option UInt16
  showU16 : UInt16 → String
  parseU64 : Str → Option UInt64
  showU64 : UInt64 → String
  base58Decode : Str → Option (List UInt8)
  base58Encode : List UInt8 → String
  base32DecodeLen : Nat → Option Nat
  base32Decode : (n : Nat) → List UInt8 → Option (List.Vector UInt8 n)
  base32Encode : List UInt8 → String
  percentDecode : List UInt8 → List UInt8
  percentEncode : (UInt8 → Bool) → List UInt8 → String
  toUppercase : Str → Str
  toLowercase : String → String
  parseUrl : Str → Option Url

instance : Inhabited TextCodec where
  default :=
    { parseIpv4 := fun _ => none
      showIpv4 := fun _ => ""
      parseIpv6 := fun _ => none
      showIpv6 := fun _ => ""
      parseIp := fun _ => none
      parseU16 := fun _ => none
      showU16 := fun _ => ""
      parseU64 := fun _ => none
      showU64 := fun _ => ""
      base58Decode := fun _ => none
      base58Encode := fun _ => ""
      base32DecodeLen := fun _ => none
      base32Decode := fun _ _ => none
      base32Encode := fun _ => ""
      percentDecode := id
      percentEncode := fun _ _ => ""
      toUppercase := id
      toLowercase := id
      parseUrl := fun _ => none }

/-! ## Splitting -/

variable {α : Type}

theorem sublist_of_mem_splitOn [BEq α] {l part : List α} (h : part ∈ l.splitOn c) :
    part.Sublist l := by
  induction l generalizing part with
  | nil =>
    rw [mem_singleton.mp h]
    exact nil_sublist []
  | cons x l ih =>
    rw [splitOn, splitOnP_cons_eq_if_modifyHead] at h
    split at h
    case isTrue =>
      obtain rfl | h := mem_cons.mp h
      · exact nil_sublist _
      · exact (ih h).cons x
    case isFalse =>
      cases hparts : l.splitOnP (fun y => y == c) with
      | nil =>
        rw [hparts] at h
        cases h
      | cons first rest =>
        rw [hparts] at h
        have hmem : ∀ q ∈ first :: rest, q.Sublist l := fun q hq => ih (by
          rw [splitOn, hparts]
          exact hq)
        obtain rfl | h := mem_cons.mp h
        · exact (hmem first mem_cons_self).cons_cons x
        · exact (hmem part (mem_cons_of_mem first h)).cons x

namespace Str

theorem size_of_mem_splitOn {s : Str} {c : Char}
    (h : part ∈ s.val.toList.splitOn c) : (String.ofList part).utf8ByteSize < 2 ^ 64 := by
  have hle := String.utf8Len_le_of_sublist (sublist_of_mem_splitOn h)
  have hsize : String.utf8Len s.val.toList = s.val.utf8ByteSize := by
    rw [← String.utf8ByteSize_ofList, String.ofList_toList]
  rw [String.utf8ByteSize_ofList]
  have := s.size_lt
  omega

def split (c : Char) (s : Str) : List Str :=
  (s.val.toList.splitOn c).attach.map fun part => ⟨String.ofList part.1, size_of_mem_splitOn part.2⟩

end Str

/-! ## Components -/

/-- Computations that take parts of a text from the front. -/
abbrev Parts := StateT (List Str) (Except Error)

def nextPart : Parts Str
  | [] => .error .invalidProtocolString
  | s :: rest => .ok (s, rest)

def argument {α : Type} (parse : Str → Option α) : Parts α := do
  match parse (← nextPart) with
  | some a => return a
  | none => throw .parsingError

section

variable (codec : TextCodec)

/-- `read_onion_impl`: the address in base 32, and the port behind a colon. -/
def readOnionImpl (len encodedLen : Nat) (s : Str) : Except Error (List.Vector UInt8 len × UInt16) := do
  match s.split ':' with
  | [] => throw .invalidMultiaddr
  | b32 :: parts =>
    if b32.bytes.length ≠ encodedLen then throw .invalidMultiaddr
    match parts with
    | [] => throw .invalidMultiaddr
    | p :: parts =>
      match codec.parseU16 p with
      | none => throw .parsingError
      | some port =>
        if port = 0 then throw .invalidMultiaddr
        if parts ≠ [] then throw .invalidMultiaddr
        if codec.base32DecodeLen b32.bytes.length ≠ some len then throw .invalidMultiaddr
        match codec.base32Decode len b32.bytes with
        | none => throw .invalidMultiaddr
        | some buf => return (buf, port)

def readOnion (s : Str) : Except Error (List.Vector UInt8 10 × UInt16) := readOnionImpl codec 10 16 s

def readOnion3 (s : Str) : Except Error (List.Vector UInt8 35 × UInt16) := readOnionImpl codec 35 56 s

def fromName (name : Str) : Parts Protocol :=
  match name.val with
  | "ip4" => .ip4 <$> argument codec.parseIpv4
  | "tcp" => .tcp <$> argument codec.parseU16
  | "udp" => .udp <$> argument codec.parseU16
  | "dccp" => .dccp <$> argument codec.parseU16
  | "ip6" => .ip6 <$> argument codec.parseIpv6
  | "dns" => .dns <$> nextPart
  | "dns4" => .dns4 <$> nextPart
  | "dns6" => .dns6 <$> nextPart
  | "dnsaddr" => .dnsaddr <$> nextPart
  | "sctp" => .sctp <$> argument codec.parseU16
  | "udt" => pure .udt
  | "utp" => pure .utp
  | "unix" => .unix <$> nextPart
  | "p2p" => .p2p <$> argument fun s => codec.base58Decode s >>= Multihash.fromBytes
  | "http" => pure .http
  | "https" => pure .https
  | "onion" => do
    let (a, p) ← readOnion codec (codec.toUppercase (← nextPart))
    return .onion a p
  | "onion3" => do
    let (a, p) ← readOnion3 codec (codec.toUppercase (← nextPart))
    return .onion3 a p
  | "quic" => pure .quic
  | "ws" => pure (.ws .root)
  | "wss" => pure (.wss .root)
  | "x-parity-ws" => .ws <$> argument fun s => Str.fromUtf8 (codec.percentDecode s.bytes)
  | "x-parity-wss" => .wss <$> argument fun s => Str.fromUtf8 (codec.percentDecode s.bytes)
  | "p2p-websocket-star" => pure .p2pWebSocketStar
  | "p2p-webrtc-star" => pure .p2pWebRtcStar
  | "p2p-webrtc-direct" => pure .p2pWebRtcDirect
  | "p2p-circuit" => pure .p2pCircuit
  | "memory" => .memory <$> argument codec.parseU64
  | _ => throw (.unknownProtocolString name)

def fromStrParts : Parts Protocol := do fromName codec (← nextPart)

/-- `PATH_SEGMENT_ENCODE_SET`: control characters and some more. -/
def pathSegmentEncodeSet (b : UInt8) : Bool :=
  b < 0x20 || b == 0x7f ||
    b ∈ ([0x25, 0x2f, 0x60, 0x3f, 0x7b, 0x7d, 0x20, 0x22, 0x23, 0x3c, 0x3e] : List UInt8)

def display : Protocol → String
  | .dccp port => "/dccp/" ++ codec.showU16 port
  | .dns s => "/dns/" ++ s.val
  | .dns4 s => "/dns4/" ++ s.val
  | .dns6 s => "/dns6/" ++ s.val
  | .dnsaddr s => "/dnsaddr/" ++ s.val
  | .http => "/http"
  | .https => "/https"
  | .ip4 addr => "/ip4/" ++ codec.showIpv4 addr
  | .ip6 addr => "/ip6/" ++ codec.showIpv6 addr
  | .p2pWebRtcDirect => "/p2p-webrtc-direct"
  | .p2pWebRtcStar => "/p2p-webrtc-star"
  | .p2pWebSocketStar => "/p2p-websocket-star"
  | .memory port => "/memory/" ++ codec.showU64 port
  | .onion addr port =>
    "/onion/" ++ codec.toLowercase (codec.base32Encode addr.toList) ++ ":" ++ codec.showU16 port
  | .onion3 hash port =>
    "/onion3/" ++ codec.toLowercase (codec.base32Encode hash.toList) ++ ":" ++ codec.showU16 port
  | .p2p c => "/p2p/" ++ codec.base58Encode c.toBytes
  | .p2pCircuit => "/p2p-circuit"
  | .quic => "/quic"
  | .sctp port => "/sctp/" ++ codec.showU16 port
  | .tcp port => "/tcp/" ++ codec.showU16 port
  | .udp port => "/udp/" ++ codec.showU16 port
  | .udt => "/udt"
  | .unix s => "/unix/" ++ s.val
  | .utp => "/utp"
  | .ws s =>
    if s = .root then "/ws"
    else "/x-parity-ws/" ++ codec.percentEncode pathSegmentEncodeSet s.bytes
  | .wss s =>
    if s = .root then "/wss"
    else "/x-parity-wss/" ++ codec.percentEncode pathSegmentEncodeSet s.bytes

end

/-! ## The parts that are left -/

section Left

variable {codec : TextCodec} {parts rest : List Str} {s : Str}

theorem nextPart_eq_ok : nextPart.run parts = .ok (s, rest) ↔ parts = s :: rest := by
  cases parts with
  | nil => exact ⟨nofun, nofun⟩
  | cons t parts =>
    constructor
    · intro h
      cases h
      rfl
    · rintro h
      cases h
      rfl

theorem argument_eq_ok :
    (argument parse).run parts = .ok (a, rest) ↔ ∃ s, parts = s :: rest ∧ parse s = some a := by
  simp only [argument, run_bind_eq_ok, nextPart_eq_ok]
  constructor
  · rintro ⟨s, _, rfl, h⟩
    split at h
    case h_1 b hb =>
      obtain ⟨rfl, rfl⟩ := run_pure_eq_ok.mp h
      exact ⟨s, rfl, hb⟩
    case h_2 => exact absurd h run_throw_ne_ok
  · rintro ⟨s, rfl, hs⟩
    refine ⟨s, rest, rfl, ?_⟩
    rw [hs]
    rfl

/-- A computation does not put parts back. -/
def Shrinks {α : Type} (m : Parts α) : Prop :=
  ∀ (parts rest : List Str) (a : α), m.run parts = .ok (a, rest) → rest.length ≤ parts.length

theorem shrinks_pure (a : α) : Shrinks (pure a) := by
  intro parts rest b h
  obtain ⟨rfl, rfl⟩ := run_pure_eq_ok.mp h
  exact Nat.le_refl _

theorem shrinks_nextPart : Shrinks nextPart := by
  intro parts rest s h
  rw [nextPart_eq_ok.mp h, length_cons]
  omega

theorem shrinks_argument (parse : Str → Option α) : Shrinks (argument parse) := by
  intro parts rest a h
  obtain ⟨s, rfl, -⟩ := argument_eq_ok.mp h
  rw [length_cons]
  omega

theorem shrinks_lift (x : Except Error α) : Shrinks (liftM x : Parts α) := by
  intro parts rest a h
  cases x with
  | error e => cases h
  | ok b =>
    cases h
    exact Nat.le_refl _

theorem Shrinks.map {β : Type} {m : Parts α} (h : Shrinks m) (f : α → β) : Shrinks (f <$> m) := by
  intro parts rest b hb
  obtain ⟨a, ha, -⟩ := run_map_eq_ok.mp hb
  exact h _ _ a ha

theorem Shrinks.bind (h : Shrinks m) (hf : ∀ a, Shrinks (f a)) : Shrinks (m >>= f) := by
  intro parts rest b hb
  obtain ⟨a, s, ha, hs⟩ := run_bind_eq_ok.mp hb
  exact Nat.le_trans (hf a _ _ b hs) (h _ _ a ha)

theorem shrinks_fromName (codec : TextCodec) (name : Str) : Shrinks (fromName codec name) := by
  unfold fromName
  split
  case h_6 | h_7 | h_8 | h_9 | h_13 => exact shrinks_nextPart.map _
  case h_17 | h_18 =>
    exact shrinks_nextPart.bind fun s => (shrinks_lift _).bind fun _ => shrinks_pure _
  case h_29 => exact fun _ _ _ h => absurd h run_throw_ne_ok
  case h_11 | h_12 | h_15 | h_16 | h_19 | h_20 | h_21 | h_24 | h_25 | h_26 | h_27 =>
    exact shrinks_pure _
  all_goals exact (shrinks_argument _).map _

theorem fromStrParts_length_lt (h : (fromStrParts codec).run parts = .ok (p, rest)) :
    rest.length < parts.length := by
  obtain ⟨name, left, hname, hleft⟩ := run_bind_eq_ok.mp h
  have hle := shrinks_fromName codec name _ _ p hleft
  rw [nextPart_eq_ok.mp hname, length_cons]
  omega

end Left

end Libp2pRs.Addr

namespace Libp2pRs.Core.Multiaddr

open Lib Lib.Parser Addr

variable (codec : TextCodec)

def fromStrLoop (parts : List Str) (writer : List UInt8) : Except Error (List UInt8) :=
  if parts = [] then .ok writer
  else
    match _h : (fromStrParts codec).run parts with
    | .error e => .error e
    | .ok (p, rest) => fromStrLoop rest (writer ++ p.writeBytes)
termination_by parts.length
decreasing_by exact fromStrParts_length_lt _h

/-- `FromStr`. The text starts with a slash. -/
def fromStr (input : Str) : Except Error Multiaddr := do
  match input.split '/' with
  | [] => throw .invalidMultiaddr
  | first :: parts =>
    if first.val ≠ "" then throw .invalidMultiaddr
    return ⟨← fromStrLoop codec parts []⟩

/-- `Display`: one component after the other. -/
def toString (a : Multiaddr) : Option String := do
  let components ← a.iter.collect
  return components.foldl (fun text p => text ++ display codec p) ""

def valueForProtocol (a : Multiaddr) (code : Nat) : Option (Option String) := do
  let components ← a.iter.collect
  return (components.find? fun comp => comp.getKey.toOption == some code).map (display codec)

section

variable {codec}

theorem parsed_fromStrLoop {writer bytes : List UInt8}
    (h : fromStrLoop codec parts writer = .ok bytes) (hw : ∃ items, Parsed writer items) :
    ∃ items, Parsed bytes items := by
  fun_induction fromStrLoop codec parts writer with
  | case1 =>
    cases h
    exact hw
  | case2 => cases h
  | case3 parts writer hne p rest hrest ih =>
    obtain ⟨items, hitems⟩ := hw
    exact ih h ⟨_, hitems.append (Parsed.writeBytes p)⟩

theorem parsed_of_fromStr (h : fromStr codec input = .ok a) : ∃ items, Parsed a.bytes items := by
  rw [fromStr] at h
  split at h
  case h_1 => cases h
  case h_2 first parts hparts =>
    split at h
    case isTrue => cases h
    case isFalse =>
      obtain ⟨bytes, hloop, ha⟩ := bind_eq_ok_iff.mp h
      cases ha
      exact parsed_fromStrLoop hloop ⟨[], Parsed.nil⟩

end

theorem toString_of_parsed {a : Multiaddr} (h : Parsed a.bytes items) :
    a.toString codec = some ((items.map Prod.fst).foldl (fun text p => text ++ display codec p) "") := by
  rw [toString, iter, collect_of_parsed h]
  rfl

theorem valueForProtocol_of_parsed {a : Multiaddr} (h : Parsed a.bytes items) (code : Nat) :
    a.valueForProtocol codec code = some (((items.map Prod.fst).find? fun comp =>
      comp.getKey.toOption == some code).map (display codec)) := by
  rw [valueForProtocol, iter, collect_of_parsed h]
  rfl

end Libp2pRs.Core.Multiaddr
