import Libp2pRs.Core.Multihash
import Mathlib.Data.Vector.Basic

/-!
# The components of a multiaddress

A `Protocol` is one component of a multiaddress. In binary form it is a code, a varint, and a body
whose shape depends on the code. `Ws` and `Wss` have two codes each: one without a path, which
stands for the path `/`, and one with a path. The writer uses the second only for other paths,
while the reader takes any path there.
-/

namespace Libp2pRs.Addr

open Lib Lib.Parser Libp2pRs.Core List

/-- A string of Rust: its length is a `usize`. -/
structure Str where
  val : String
  size_lt : val.utf8ByteSize < 2 ^ 64
  deriving DecidableEq

variable {data : List UInt8}

namespace Str

def bytes (s : Str) : List UInt8 := s.val.toByteArray.data.toList

def fromUtf8 (data : List UInt8) : Option Str :=
  if h : (ByteArray.mk data.toArray).IsValidUTF8 ∧ data.length < 2 ^ 64 then
    some ⟨.ofByteArray ⟨data.toArray⟩ h.1, h.2⟩
  else none

theorem length_bytes_lt (s : Str) : s.bytes.length < 2 ^ 64 := s.size_lt

theorem fromUtf8_eq_some_iff : fromUtf8 data = some s ↔ data = s.bytes := by
  constructor
  · intro h
    rw [fromUtf8] at h
    split at h
    · cases h
      rfl
    · cases h
  · rintro rfl
    have hvalid : (ByteArray.mk s.bytes.toArray).IsValidUTF8 ∧ s.bytes.length < 2 ^ 64 :=
      ⟨s.val.isValidUTF8, s.length_bytes_lt⟩
    rw [fromUtf8, dif_pos hvalid]
    rfl

/-- The path of a WebSocket component that has none. -/
def root : Str := ⟨"/", by decide⟩

end Str

/-- The errors of the crate. What a foreign parser reported is not kept. -/
inductive Error where
  | dataLessThanLen
  | invalidMultiaddr
  | invalidProtocolString
  | invalidUvar (e : Varint.Error)
  | parsingError
  | unknownProtocolId (id : Nat)
  | unknownProtocolString (s : Str)
  deriving DecidableEq

abbrev Ipv4Addr := List.Vector UInt8 4

abbrev Ipv6Addr := List.Vector UInt16 8

inductive Protocol where
  | dccp (port : UInt16)
  | dns (s : Str)
  | dns4 (s : Str)
  | dns6 (s : Str)
  | dnsaddr (s : Str)
  | http
  | https
  | ip4 (addr : Ipv4Addr)
  | ip6 (addr : Ipv6Addr)
  | p2pWebRtcDirect
  | p2pWebRtcStar
  | p2pWebSocketStar
  | memory (port : UInt64)
  | onion (addr : List.Vector UInt8 10) (port : UInt16)
  | onion3 (hash : List.Vector UInt8 35) (port : UInt16)
  | p2p (multihash : Multihash)
  | p2pCircuit
  | quic
  | sctp (port : UInt16)
  | tcp (port : UInt16)
  | udp (port : UInt16)
  | udt
  | unix (s : Str)
  | utp
  | ws (s : Str)
  | wss (s : Str)
  deriving DecidableEq

@[match_pattern] abbrev DCCP : Nat := 33
@[match_pattern] abbrev DNS : Nat := 53
@[match_pattern] abbrev DNS4 : Nat := 54
@[match_pattern] abbrev DNS6 : Nat := 55
@[match_pattern] abbrev DNSADDR : Nat := 56
@[match_pattern] abbrev HTTP : Nat := 480
@[match_pattern] abbrev HTTPS : Nat := 443
@[match_pattern] abbrev IP4 : Nat := 4
@[match_pattern] abbrev IP6 : Nat := 41
@[match_pattern] abbrev P2P_WEBRTC_DIRECT : Nat := 276
@[match_pattern] abbrev P2P_WEBRTC_STAR : Nat := 275
@[match_pattern] abbrev P2P_WEBSOCKET_STAR : Nat := 479
@[match_pattern] abbrev MEMORY : Nat := 777
@[match_pattern] abbrev ONION : Nat := 444
@[match_pattern] abbrev ONION3 : Nat := 445
@[match_pattern] abbrev P2P : Nat := 421
@[match_pattern] abbrev P2P_CIRCUIT : Nat := 290
@[match_pattern] abbrev QUIC : Nat := 460
@[match_pattern] abbrev SCTP : Nat := 132
@[match_pattern] abbrev TCP : Nat := 6
@[match_pattern] abbrev UDP : Nat := 273
@[match_pattern] abbrev UDT : Nat := 301
@[match_pattern] abbrev UNIX : Nat := 400
@[match_pattern] abbrev UTP : Nat := 302
@[match_pattern] abbrev WS : Nat := 477
@[match_pattern] abbrev WS_WITH_PATH : Nat := 4770
@[match_pattern] abbrev WSS : Nat := 478
@[match_pattern] abbrev WSS_WITH_PATH : Nat := 4780

/-! ## The bodies -/

section Bodies

variable {bs r : List UInt8}

def u16 : Parser Error UInt16 := UInt16.ofNat <$> be .dataLessThanLen 2

theorem u16_eq_ok {n : UInt16} : u16.run bs = .ok (n, r) ↔ bs = beBytes 2 n.toNat ++ r := by
  simp only [u16, run_map_eq_ok, exactOn_be Error.dataLessThanLen 2]
  constructor
  · rintro ⟨m, ⟨hm, rfl⟩, rfl⟩
    rw [UInt16.toNat_ofNat_of_lt' hm]
  · rintro rfl
    exact ⟨n.toNat, ⟨n.toNat_lt, rfl⟩, UInt16.ofNat_toNat⟩

def u64 : Parser Error UInt64 := UInt64.ofNat <$> be .dataLessThanLen 8

theorem u64_eq_ok {n : UInt64} : u64.run bs = .ok (n, r) ↔ bs = beBytes 8 n.toNat ++ r := by
  simp only [u64, run_map_eq_ok, exactOn_be Error.dataLessThanLen 8]
  constructor
  · rintro ⟨m, ⟨hm, rfl⟩, rfl⟩
    rw [UInt64.toNat_ofNat_of_lt' hm]
  · rintro rfl
    exact ⟨n.toNat, ⟨n.toNat_lt, rfl⟩, UInt64.ofNat_toNat⟩

def segments : List UInt8 → List UInt16
  | a :: b :: rest => UInt16.ofNat (beNat [a, b]) :: segments rest
  | _ => []

theorem segments_flatMap (l : List UInt16) :
    segments (l.flatMap (fun n => beBytes 2 n.toNat)) = l := by
  induction l with
  | nil => rfl
  | cons n l ih =>
    obtain ⟨a, b, hab⟩ := length_eq_two.mp (length_beBytes 2 n.toNat)
    have hn : UInt16.ofNat (beNat [a, b]) = n := by
      rw [← hab, beNat_beBytes n.toNat_lt, UInt16.ofNat_toNat]
    rw [flatMap_cons, hab, cons_append, cons_append, nil_append, segments, hn,
      ih]

theorem flatMap_segments (h : data.length = 2 * n) :
    (segments data).flatMap (fun n => beBytes 2 n.toNat) = data ∧ (segments data).length = n := by
  induction n generalizing data with
  | zero =>
    rw [length_eq_zero_iff.mp h]
    exact ⟨rfl, rfl⟩
  | succ n ih =>
    obtain ⟨a, data, rfl⟩ := exists_cons_of_length_eq_add_one h
    obtain ⟨b, data, rfl⟩ := exists_cons_of_length_eq_add_one (Nat.succ.inj h)
    have hrest : data.length = 2 * n := by
      simp only [length_cons] at h
      omega
    obtain ⟨hdata, hlen⟩ := ih hrest
    have hlt : beNat [a, b] < 256 ^ 2 := beNat_lt [a, b]
    have hab : beBytes 2 (UInt16.ofNat (beNat [a, b])).toNat = [a, b] := by
      rw [UInt16.toNat_ofNat_of_lt' hlt]
      exact beBytes_beNat [a, b]
    refine ⟨?_, by rw [segments, length_cons, hlen]⟩
    rw [segments, flatMap_cons, hab, hdata]
    rfl

def segmentsOf (data : List.Vector UInt8 (2 * 8)) : Ipv6Addr :=
  ⟨segments data.toList, (flatMap_segments data.toList_length).2⟩

def ipv6 : Parser Error Ipv6Addr := segmentsOf <$> takeVector .dataLessThanLen (2 * 8)

theorem ipv6_eq_ok {a : Ipv6Addr} :
    ipv6.run bs = .ok (a, r) ↔ bs = a.toList.flatMap (fun n => beBytes 2 n.toNat) ++ r := by
  simp only [ipv6, run_map_eq_ok, takeVector_eq_ok]
  constructor
  · rintro ⟨data, rfl, rfl⟩
    rw [segmentsOf, List.Vector.toList_mk, (flatMap_segments data.toList_length).1]
  · rintro rfl
    have hlen : (a.toList.flatMap (fun n => beBytes 2 n.toNat)).length = 2 * 8 := by
      rw [length_flatMap, map_congr_left (fun n _ => length_beBytes 2 n.toNat),
        map_const', sum_replicate, a.toList_length]
      rfl
    exact ⟨⟨_, hlen⟩, rfl, Subtype.ext (segments_flatMap a.toList)⟩

/-- The hash and the port of an onion address, which are split off together. -/
def splitHash (n : Nat) (data : List.Vector UInt8 (n + 2)) : List.Vector UInt8 n × UInt16 :=
  (⟨data.toList.take n, by rw [List.length_take, data.toList_length]; omega⟩,
    UInt16.ofNat (beNat (data.toList.drop n)))

def hashPort (n : Nat) : Parser Error (List.Vector UInt8 n × UInt16) :=
  splitHash n <$> takeVector .dataLessThanLen (n + 2)

theorem hashPort_eq_ok {n : Nat} {hash : List.Vector UInt8 n} {port : UInt16} :
    (hashPort n).run bs = .ok ((hash, port), r) ↔
      bs = hash.toList ++ beBytes 2 port.toNat ++ r := by
  simp only [hashPort, run_map_eq_ok, takeVector_eq_ok]
  constructor
  · rintro ⟨data, rfl, hdata⟩
    cases hdata
    have hport : (data.toList.drop n).length = 2 := by
      rw [length_drop, data.toList_length]
      omega
    have hlt := beNat_lt (data.toList.drop n)
    have hbytes := beBytes_beNat (data.toList.drop n)
    rw [hport] at hlt hbytes
    rw [UInt16.toNat_ofNat_of_lt' hlt, hbytes, List.Vector.toList_mk, take_append_drop]
  · rintro rfl
    have hlen : (hash.toList ++ beBytes 2 port.toNat).length = n + 2 := by
      rw [length_append, hash.toList_length, length_beBytes]
    have htail : (hash.toList ++ beBytes 2 port.toNat).drop n = beBytes 2 port.toNat :=
      drop_left' hash.toList_length
    refine ⟨⟨_, hlen⟩, rfl, Prod.ext (Subtype.ext (take_left' hash.toList_length)) ?_⟩
    calc UInt16.ofNat (beNat ((hash.toList ++ beBytes 2 port.toNat).drop n))
        = UInt16.ofNat port.toNat := by rw [htail, beNat_beBytes port.toNat_lt]
      _ = port := UInt16.ofNat_toNat

private theorem usize_le : 2 ^ 64 ≤ 128 ^ (9 + 1) := by decide

def sized : Parser Error (List UInt8) := prefixed .invalidUvar .dataLessThanLen 10 (2 ^ 64)

def writeSized (data : List UInt8) : List UInt8 := Varint.encode data.length ++ data

theorem sized_eq_ok :
    sized.run bs = .ok (data, r) ↔ data.length < 2 ^ 64 ∧ bs = writeSized data ++ r :=
  exactOn_prefixed Error.invalidUvar Error.dataLessThanLen usize_le

def str : Parser Error Str := do
  match Str.fromUtf8 (← sized) with
  | some s => return s
  | none => throw .parsingError

theorem str_eq_ok {s : Str} : str.run bs = .ok (s, r) ↔ bs = writeSized s.bytes ++ r := by
  simp only [str, run_bind_eq_ok, sized_eq_ok]
  constructor
  · rintro ⟨data, _, ⟨-, rfl⟩, h⟩
    split at h
    case h_1 s' hs' =>
      obtain ⟨rfl, rfl⟩ := run_pure_eq_ok.mp h
      rw [Str.fromUtf8_eq_some_iff.mp hs']
    case h_2 => exact absurd h run_throw_ne_ok
  · rintro rfl
    refine ⟨s.bytes, r, ⟨s.length_bytes_lt, rfl⟩, ?_⟩
    rw [Str.fromUtf8_eq_some_iff.mpr rfl]
    rfl

def multihash : Parser Error Multihash := do
  match Multihash.fromBytes (← sized) with
  | some m => return m
  | none => throw .parsingError

theorem length_toBytes_lt (m : Multihash) : m.toBytes.length < 2 ^ 64 := by
  have hcode := Varint.length_encode_le (k := 9) (Nat.lt_of_lt_of_le m.code.toNat_lt usize_le)
  have hsize := Varint.length_encode_le (k := 0) (n := m.digest.length)
    (Nat.lt_of_le_of_lt m.digest_le (by decide))
  have := m.digest_le
  rw [Multihash.toBytes, length_append, length_append]
  omega

theorem multihash_eq_ok {m : Multihash} :
    multihash.run bs = .ok (m, r) ↔ bs = writeSized m.toBytes ++ r := by
  simp only [multihash, run_bind_eq_ok, sized_eq_ok]
  constructor
  · rintro ⟨data, _, ⟨-, rfl⟩, h⟩
    split at h
    case h_1 m' hm' =>
      obtain ⟨rfl, rfl⟩ := run_pure_eq_ok.mp h
      rw [Multihash.fromBytes_eq_some_iff.mp hm']
    case h_2 => exact absurd h run_throw_ne_ok
  · rintro rfl
    refine ⟨m.toBytes, r, ⟨length_toBytes_lt m, rfl⟩, ?_⟩
    rw [Multihash.fromBytes_eq_some_iff.mpr rfl]
    rfl

end Bodies

namespace Protocol

def readId : Parser Error Nat := varint .invalidUvar 5 (2 ^ 32)

def readBody (id : Nat) : Parser Error Protocol :=
  match id with
  | DCCP => dccp <$> u16
  | DNS => dns <$> str
  | DNS4 => dns4 <$> str
  | DNS6 => dns6 <$> str
  | DNSADDR => dnsaddr <$> str
  | HTTP => pure http
  | HTTPS => pure https
  | IP4 => ip4 <$> takeVector .dataLessThanLen 4
  | IP6 => ip6 <$> ipv6
  | P2P_WEBRTC_DIRECT => pure p2pWebRtcDirect
  | P2P_WEBRTC_STAR => pure p2pWebRtcStar
  | P2P_WEBSOCKET_STAR => pure p2pWebSocketStar
  | MEMORY => memory <$> u64
  | ONION => (fun x => onion x.1 x.2) <$> hashPort 10
  | ONION3 => (fun x => onion3 x.1 x.2) <$> hashPort 35
  | P2P => p2p <$> multihash
  | P2P_CIRCUIT => pure p2pCircuit
  | QUIC => pure quic
  | SCTP => sctp <$> u16
  | TCP => tcp <$> u16
  | UDP => udp <$> u16
  | UDT => pure udt
  | UNIX => unix <$> str
  | UTP => pure utp
  | WS => pure (ws .root)
  | WS_WITH_PATH => ws <$> str
  | WSS => pure (wss .root)
  | WSS_WITH_PATH => wss <$> str
  | id => throw (.unknownProtocolId id)

def fromBytes : Parser Error Protocol := do readBody (← readId)

def writeBytes : Protocol → List UInt8
  | ip4 addr => Varint.encode IP4 ++ addr.toList
  | ip6 addr => Varint.encode IP6 ++ addr.toList.flatMap (fun n => beBytes 2 n.toNat)
  | tcp port => Varint.encode TCP ++ beBytes 2 port.toNat
  | udp port => Varint.encode UDP ++ beBytes 2 port.toNat
  | dccp port => Varint.encode DCCP ++ beBytes 2 port.toNat
  | sctp port => Varint.encode SCTP ++ beBytes 2 port.toNat
  | dns s => Varint.encode DNS ++ writeSized s.bytes
  | dns4 s => Varint.encode DNS4 ++ writeSized s.bytes
  | dns6 s => Varint.encode DNS6 ++ writeSized s.bytes
  | dnsaddr s => Varint.encode DNSADDR ++ writeSized s.bytes
  | unix s => Varint.encode UNIX ++ writeSized s.bytes
  | p2p m => Varint.encode P2P ++ writeSized m.toBytes
  | onion addr port => Varint.encode ONION ++ (addr.toList ++ beBytes 2 port.toNat)
  | onion3 hash port => Varint.encode ONION3 ++ (hash.toList ++ beBytes 2 port.toNat)
  | quic => Varint.encode QUIC
  | utp => Varint.encode UTP
  | udt => Varint.encode UDT
  | http => Varint.encode HTTP
  | https => Varint.encode HTTPS
  | ws s =>
    if s = .root then Varint.encode WS else Varint.encode WS_WITH_PATH ++ writeSized s.bytes
  | wss s =>
    if s = .root then Varint.encode WSS else Varint.encode WSS_WITH_PATH ++ writeSized s.bytes
  | p2pWebSocketStar => Varint.encode P2P_WEBSOCKET_STAR
  | p2pWebRtcStar => Varint.encode P2P_WEBRTC_STAR
  | p2pWebRtcDirect => Varint.encode P2P_WEBRTC_DIRECT
  | p2pCircuit => Varint.encode P2P_CIRCUIT
  | memory port => Varint.encode MEMORY ++ beBytes 8 port.toNat

/-- `Protocol::get_key`. There is no key for `P2p`. -/
def getKey : Protocol → Except Error Nat
  | ip4 _ => .ok IP4
  | ip6 _ => .ok IP6
  | memory _ => .ok MEMORY
  | onion _ _ => .ok ONION
  | onion3 _ _ => .ok ONION3
  | tcp _ => .ok TCP
  | udp _ => .ok UDP
  | sctp _ => .ok SCTP
  | udt => .ok UDT
  | utp => .ok UTP
  | unix _ => .ok UNIX
  | quic => .ok QUIC
  | dccp _ => .ok DCCP
  | dns _ => .ok DNS
  | dns4 _ => .ok DNS4
  | dns6 _ => .ok DNS6
  | dnsaddr _ => .ok DNSADDR
  | ws _ => .ok WS
  | wss _ => .ok WSS
  | http => .ok HTTP
  | https => .ok HTTPS
  | p2pCircuit => .ok P2P_CIRCUIT
  | p2pWebRtcDirect => .ok P2P_WEBRTC_DIRECT
  | p2pWebRtcStar => .ok P2P_WEBRTC_STAR
  | p2pWebSocketStar => .ok P2P_WEBSOCKET_STAR
  | _ => .error .invalidProtocolString

/-- A component that spells out the path `/`, under the code `id`. -/
def explicitRoot (id : Nat) : List UInt8 := Varint.encode id ++ writeSized Str.root.bytes

def Encodes (p : Protocol) (enc : List UInt8) : Prop :=
  enc = p.writeBytes ∨ p = ws .root ∧ enc = explicitRoot WS_WITH_PATH ∨
    p = wss .root ∧ enc = explicitRoot WSS_WITH_PATH

theorem readId_eq_ok {bs r : List UInt8} {id : Nat} :
    readId.run bs = .ok (id, r) ↔ id < 2 ^ 32 ∧ bs = Varint.encode id ++ r :=
  exactOn_varint (k := 4) Error.invalidUvar (by decide)

variable {enc : List UInt8}

section Reading

variable {α : Type} {id : Nat} {parser : Parser Error α} {write : α → List UInt8}
  {f : α → Protocol} {p : Protocol} {bs r : List UInt8}

/-- Whatever the parser takes behind the code `id` is a component of one of the known forms. -/
def Accepts (id : Nat) (parser : Parser Error Protocol) : Prop :=
  ∀ {bs r : List UInt8} {p : Protocol}, parser.run bs = .ok (p, r) →
    ∃ enc, p.Encodes enc ∧ Varint.encode id ++ bs = enc ++ r

theorem accepts_map
    (hparser : ∀ {bs r : List UInt8} {a : α}, parser.run bs = .ok (a, r) ↔ bs = write a ++ r)
    (hf : ∀ a, (f a).Encodes (Varint.encode id ++ write a)) : Accepts id (f <$> parser) := by
  intro bs r p h
  obtain ⟨a, ha, rfl⟩ := run_map_eq_ok.mp h
  exact ⟨_, hf a, by rw [hparser.mp ha, append_assoc]⟩

theorem accepts_pure (h : p.Encodes (Varint.encode id)) : Accepts id (pure p) := by
  intro bs r q hq
  obtain ⟨rfl, rfl⟩ := run_pure_eq_ok.mp hq
  exact ⟨_, h, rfl⟩

theorem encodes_ws (s : Str) : (ws s).Encodes (Varint.encode WS_WITH_PATH ++ writeSized s.bytes) := by
  by_cases hs : s = .root
  · subst hs
    exact .inr (.inl ⟨rfl, rfl⟩)
  · exact .inl (if_neg hs).symm

theorem encodes_wss (s : Str) :
    (wss s).Encodes (Varint.encode WSS_WITH_PATH ++ writeSized s.bytes) := by
  by_cases hs : s = .root
  · subst hs
    exact .inr (.inr ⟨rfl, rfl⟩)
  · exact .inl (if_neg hs).symm

theorem accepts_readBody (id : Nat) : Accepts id (readBody id) := by
  unfold readBody
  split
  case h_1 | h_19 | h_20 | h_21 => exact accepts_map u16_eq_ok fun _ => .inl rfl
  case h_2 | h_3 | h_4 | h_5 | h_23 => exact accepts_map str_eq_ok fun _ => .inl rfl
  case h_8 => exact accepts_map takeVector_eq_ok fun _ => .inl rfl
  case h_9 => exact accepts_map ipv6_eq_ok fun _ => .inl rfl
  case h_13 => exact accepts_map u64_eq_ok fun _ => .inl rfl
  case h_14 | h_15 => exact accepts_map hashPort_eq_ok fun _ => .inl rfl
  case h_16 => exact accepts_map multihash_eq_ok fun _ => .inl rfl
  case h_26 => exact accepts_map str_eq_ok encodes_ws
  case h_28 => exact accepts_map str_eq_ok encodes_wss
  case h_29 => exact fun h => absurd h run_throw_ne_ok
  all_goals exact accepts_pure (.inl rfl)

theorem fromBytes_encode (hid : id < 2 ^ 32) (h : (readBody id).run bs = .ok (p, r)) :
    fromBytes.run (Varint.encode id ++ bs) = .ok (p, r) :=
  run_bind_eq_ok.mpr ⟨id, bs, readId_eq_ok.mpr ⟨hid, rfl⟩, h⟩

theorem fromBytes_map (hid : id < 2 ^ 32) (hbody : readBody id = f <$> parser)
    (hparser : ∀ {bs r : List UInt8} {a : α}, parser.run bs = .ok (a, r) ↔ bs = write a ++ r)
    (a : α) (r : List UInt8) :
    fromBytes.run (Varint.encode id ++ write a ++ r) = .ok (f a, r) := by
  rw [append_assoc]
  apply fromBytes_encode hid
  rw [hbody]
  exact run_map_eq_ok.mpr ⟨a, hparser.mpr rfl, rfl⟩

theorem fromBytes_pure (hid : id < 2 ^ 32) (hbody : readBody id = pure p) (r : List UInt8) :
    fromBytes.run (Varint.encode id ++ r) = .ok (p, r) := by
  apply fromBytes_encode hid
  rw [hbody]
  rfl

theorem fromBytes_writeBytes (p : Protocol) (r : List UInt8) :
    fromBytes.run (p.writeBytes ++ r) = .ok (p, r) := by
  cases p with
  | ip4 addr => exact fromBytes_map (by decide) rfl takeVector_eq_ok addr r
  | ip6 addr => exact fromBytes_map (by decide) rfl ipv6_eq_ok addr r
  | tcp port | udp port | dccp port | sctp port =>
    exact fromBytes_map (by decide) rfl u16_eq_ok port r
  | dns s | dns4 s | dns6 s | dnsaddr s | unix s =>
    exact fromBytes_map (by decide) rfl str_eq_ok s r
  | p2p m => exact fromBytes_map (by decide) rfl multihash_eq_ok m r
  | onion addr port =>
    exact fromBytes_map (by decide : ONION < 2 ^ 32) rfl hashPort_eq_ok (addr, port) r
  | onion3 hash port =>
    exact fromBytes_map (by decide : ONION3 < 2 ^ 32) rfl hashPort_eq_ok (hash, port) r
  | memory port => exact fromBytes_map (by decide) rfl u64_eq_ok port r
  | ws s | wss s =>
    -- the path `/` has a code of its own
    rw [writeBytes]
    split
    case isTrue hs =>
      subst hs
      exact fromBytes_pure (by decide) rfl r
    case isFalse => exact fromBytes_map (by decide) rfl str_eq_ok s r
  | _ => exact fromBytes_pure (by decide) rfl r

theorem fromBytes_of_encodes (h : p.Encodes enc) (r : List UInt8) :
    fromBytes.run (enc ++ r) = .ok (p, r) := by
  obtain rfl | ⟨rfl, rfl⟩ | ⟨rfl, rfl⟩ := h
  · exact fromBytes_writeBytes p r
  · exact fromBytes_map (by decide) rfl str_eq_ok .root r
  · exact fromBytes_map (by decide) rfl str_eq_ok .root r

/-- The reader takes the components of the known forms and nothing else. -/
theorem fromBytes_eq_ok_iff :
    fromBytes.run bs = .ok (p, r) ↔ ∃ enc, p.Encodes enc ∧ bs = enc ++ r := by
  constructor
  · intro h
    obtain ⟨id, rest, hid, hbody⟩ := run_bind_eq_ok.mp h
    rw [(readId_eq_ok.mp hid).2]
    exact accepts_readBody id hbody
  · rintro ⟨enc, henc, rfl⟩
    exact fromBytes_of_encodes henc r

end Reading

theorem writeBytes_ne_nil (p : Protocol) : p.writeBytes ≠ [] := by
  cases p with
  | ws s | wss s =>
    rw [writeBytes]
    split <;> simp [Varint.encode_ne_nil]
  | _ => simp [writeBytes, Varint.encode_ne_nil]

theorem Encodes.ne_nil {p : Protocol} (h : p.Encodes enc) : enc ≠ [] := by
  obtain rfl | ⟨-, rfl⟩ | ⟨-, rfl⟩ := h
  · exact p.writeBytes_ne_nil
  · decide
  · decide

theorem Encodes.eq_writeBytes_iff {p : Protocol} (h : p.Encodes enc) :
    p.writeBytes = enc ↔ enc ≠ explicitRoot WS_WITH_PATH ∧ enc ≠ explicitRoot WSS_WITH_PATH := by
  constructor
  · rintro rfl
    -- the writer's form reads back as `p`, and the writer omits the path `/`
    refine ⟨fun hroot => ?_, fun hroot => ?_⟩
    · have hread := fromBytes_writeBytes p []
      rw [hroot, fromBytes_of_encodes (.inr (.inl ⟨rfl, rfl⟩)) []] at hread
      cases hread
      exact absurd hroot (by decide)
    · have hread := fromBytes_writeBytes p []
      rw [hroot, fromBytes_of_encodes (.inr (.inr ⟨rfl, rfl⟩)) []] at hread
      cases hread
      exact absurd hroot (by decide)
  · rintro ⟨hws, hwss⟩
    obtain rfl | ⟨-, rfl⟩ | ⟨-, rfl⟩ := h
    · rfl
    · exact absurd rfl hws
    · exact absurd rfl hwss

end Protocol

end Libp2pRs.Addr
