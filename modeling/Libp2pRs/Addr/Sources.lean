import Libp2pRs.Addr.Text

/-!
# Where multiaddresses come from

The bytes of an address are private to its module, so an address is the result of public functions:
it is read from bytes, text, a URL or a serde format, built from components, or obtained from
another address. Its bytes are checked only in `try_from`. The readers rely on it afterwards.
-/

namespace Libp2pRs.Core.Multiaddr

open Lib Lib.Parser Addr

section Sources

variable (codec : TextCodec)

/-- The method of the visitor that a serde format calls. The elements of a sequence that cannot be
read end the call before an address is made. -/
inductive Visit where
  | str (v : Str)
  | bytes (v : List UInt8)
  | seq (buf : List UInt8)

def deserialize (isHumanReadable : Bool) : Visit → Except Error Multiaddr
  | .str v => fromStr codec v
  | .bytes v => tryFrom v
  | .seq buf =>
    if isHumanReadable then
      match Str.fromUtf8 buf with
      | none => throw .parsingError
      | some s => fromStr codec s
    else tryFrom buf

inductive FromUrlErr where
  | badUrl
  | unsupportedScheme
  | informationLoss
  deriving DecidableEq

/-- The last component, whether the path is lost, and the default port, by the scheme. `none` is
`unreachable!`. -/
def httpWsParts (url : Url) : Option (Protocol × Bool × UInt16) :=
  match url.scheme.val with
  | "ws" => some (.ws url.path, false, 80)
  | "wss" => some (.wss url.path, false, 443)
  | "http" => some (.http, true, 80)
  | "https" => some (.https, true, 443)
  | _ => none

def protocolOfIp : Ipv4Addr ⊕ Ipv6Addr → Protocol
  | .inl addr => .ip4 addr
  | .inr addr => .ip6 addr

def fromUrlInnerHttpWs (url : Url) (lossy : Bool) : Option (Except FromUrlErr Multiaddr) := do
  let (protocol, lostPath, defaultPort) ← httpWsParts url
  let port := Protocol.tcp (url.port.getD defaultPort)
  match url.hostStr with
  | none => return .error .badUrl
  | some hostname =>
    let ip :=
      match codec.parseIp hostname with
      | some ip => protocolOfIp ip
      | none => .dns hostname
    if !lossy && (url.username.val ≠ "" || url.password.isSome ||
        (lostPath && url.path ≠ .root && url.path.val ≠ "") || url.query.isSome ||
        url.fragment.isSome) then
      return .error .informationLoss
    return .ok (fromIter [ip, port, protocol])

/-- The component of a path, by the scheme. `none` is `unreachable!`. -/
def pathPart (url : Url) : Option Protocol :=
  match url.scheme.val with
  | "unix" => some (.unix url.path)
  | _ => none

def fromUrlInnerPath (url : Url) (lossy : Bool) : Option (Except FromUrlErr Multiaddr) := do
  let protocol ← pathPart url
  if !lossy && (url.username.val ≠ "" || url.password.isSome || url.query.isSome ||
      url.fragment.isSome) then
    return .error .informationLoss
  return .ok (ofProtocol protocol)

/-- `from_url_inner`: `from_url` without the flag, `from_url_lossy` with it. -/
def fromUrlInner (url : Str) (lossy : Bool) : Option (Except FromUrlErr Multiaddr) :=
  match codec.parseUrl url with
  | none => some (.error .badUrl)
  | some url =>
    match url.scheme.val with
    | "ws" | "wss" | "http" | "https" => fromUrlInnerHttpWs codec url lossy
    | "unix" => fromUrlInnerPath url lossy
    | _ => some (.error .unsupportedScheme)

/-- What the public functions can make. The conversions from IP addresses and strings and the macro
`multiaddr!` are `ofProtocol`, `fromStr` and `fromIter`. -/
inductive Obtainable : Multiaddr → Prop where
  | empty : Obtainable empty
  | tryFrom {v : List UInt8} {a : Multiaddr} (h : tryFrom v = .ok a) : Obtainable a
  | fromStr {input : Str} {a : Multiaddr} (h : fromStr codec input = .ok a) : Obtainable a
  | deserialize {isHumanReadable : Bool} {visit : Visit} {a : Multiaddr}
      (h : deserialize codec isHumanReadable visit = .ok a) : Obtainable a
  | fromUrl {url : Str} {lossy : Bool} {a : Multiaddr}
      (h : fromUrlInner codec url lossy = some (.ok a)) : Obtainable a
  | ofProtocol (p : Protocol) : Obtainable (ofProtocol p)
  | fromIter (ps : List Protocol) : Obtainable (fromIter ps)
  | push {a : Multiaddr} (ha : Obtainable a) (p : Protocol) : Obtainable (a.push p)
  | with_ {a : Multiaddr} (ha : Obtainable a) (p : Protocol) : Obtainable (a.with_ p)
  | pop {a b : Multiaddr} {p : Option Protocol} (ha : Obtainable a) (h : a.pop = some (p, b)) :
      Obtainable b
  | replace {a b : Multiaddr} {index : Nat} {f : Protocol → Option Protocol} (ha : Obtainable a)
      (h : a.replace index f = some (some b)) : Obtainable b

end Sources

section

variable {codec : TextCodec} {a b : Multiaddr}

theorem parsed_of_tryFrom (h : tryFrom v = .ok a) : ∃ items, Parsed a.bytes items := by
  obtain ⟨rfl, hitems⟩ := tryFrom_eq_ok_iff.mp h
  exact hitems

theorem parsed_of_deserialize
    (h : deserialize codec isHumanReadable visit = .ok a) : ∃ items, Parsed a.bytes items := by
  cases visit with
  | str v => exact parsed_of_fromStr h
  | bytes v => exact parsed_of_tryFrom h
  | seq buf =>
    rw [deserialize] at h
    split at h
    case isTrue =>
      split at h
      case h_1 => cases h
      case h_2 => exact parsed_of_fromStr h
    case isFalse => exact parsed_of_tryFrom h

theorem parsed_of_fromUrlInnerHttpWs
    (h : fromUrlInnerHttpWs codec url lossy = some (.ok a)) : ∃ items, Parsed a.bytes items := by
  obtain ⟨⟨protocol, lostPath, defaultPort⟩, -, h⟩ := Option.bind_eq_some_iff.mp h
  dsimp only at h
  split at h
  case h_1 => cases h
  case h_2 hostname _ =>
    split at h
    case isTrue => cases h
    case isFalse =>
      cases h
      exact ⟨_, parsed_fromIter _⟩

theorem parsed_of_fromUrlInnerPath
    (h : fromUrlInnerPath url lossy = some (.ok a)) : ∃ items, Parsed a.bytes items := by
  obtain ⟨protocol, -, h⟩ := Option.bind_eq_some_iff.mp h
  split at h
  case isTrue => cases h
  case isFalse =>
    cases h
    exact ⟨_, Parsed.writeBytes protocol⟩

theorem parsed_of_fromUrlInner
    (h : fromUrlInner codec url lossy = some (.ok a)) : ∃ items, Parsed a.bytes items := by
  rw [fromUrlInner] at h
  split at h
  case h_1 => cases h
  case h_2 =>
    split at h
    case h_5 => exact parsed_of_fromUrlInnerPath h
    case h_6 => cases h
    all_goals exact parsed_of_fromUrlInnerHttpWs h

theorem parsed_of_pop (ha : ∃ items, Parsed a.bytes items)
    (h : a.pop = some (p, b)) : ∃ items, Parsed b.bytes items := by
  obtain ⟨items, hitems⟩ := ha
  induction items using List.reverseRecOn with
  | nil =>
    have hnil : a.bytes = [] := hitems.bytes_eq
    rw [pop, if_pos hnil] at h
    cases h
    exact ⟨[], hitems⟩
  | append_singleton items x _ =>
    rw [pop_of_parsed hitems] at h
    cases h
    exact ⟨items, rfl, fun y hy => hitems.encodes y (List.mem_append_left [x] hy)⟩

theorem parsed_of_replace
    (ha : ∃ items, Parsed a.bytes items) (h : a.replace index f = some (some b)) :
    ∃ items, Parsed b.bytes items := by
  obtain ⟨items, hitems⟩ := ha
  rw [replace_of_parsed index f hitems, Option.some_inj] at h
  obtain ⟨p, -, h⟩ := Option.bind_eq_some_iff.mp h
  obtain ⟨q, -, h⟩ := Option.bind_eq_some_iff.mp h
  cases h
  exact ⟨_, parsed_fromIter _⟩

theorem Obtainable.parsed (h : Obtainable codec a) : ∃ items, Parsed a.bytes items := by
  induction h with
  | empty => exact ⟨[], Parsed.nil⟩
  | tryFrom h => exact parsed_of_tryFrom h
  | fromStr h => exact parsed_of_fromStr h
  | deserialize h => exact parsed_of_deserialize h
  | fromUrl h => exact parsed_of_fromUrlInner h
  | ofProtocol p => exact ⟨_, Parsed.writeBytes p⟩
  | fromIter ps => exact ⟨_, parsed_fromIter ps⟩
  | push _ p ih | with_ _ p ih =>
    obtain ⟨items, hitems⟩ := ih
    exact ⟨_, parsed_push hitems p⟩
  | pop _ h ih => exact parsed_of_pop ih h
  | replace _ h ih => exact parsed_of_replace ih h

theorem exists_pop (ha : ∃ items, Parsed a.bytes items) : ∃ r, a.pop = some r := by
  obtain ⟨items, hitems⟩ := ha
  induction items using List.reverseRecOn with
  | nil =>
    have hnil : a.bytes = [] := hitems.bytes_eq
    exact ⟨(none, a), if_pos hnil⟩
  | append_singleton items x _ => exact ⟨_, pop_of_parsed hitems⟩

/-- An address that public functions have made is a sequence of components, and every reader comes
to its end without a panic. -/
theorem readers_never_panic (codec : TextCodec) {a : Multiaddr} (h : Obtainable codec a) :
    (∃ items, Parsed a.bytes items ∧ a.iter.collect = some (items.map Prod.fst)) ∧
      (∃ r, a.pop = some r) ∧
      (∀ (index : Nat) (f : Protocol → Option Protocol), ∃ r, a.replace index f = some r) ∧
      (∃ text, a.toString codec = some text) ∧
      (∃ b, a.isLoopbackAddr = some b) ∧ (∃ b, a.isPrivateAddr = some b) ∧
      (∃ b, a.isIpv6Addr = some b) ∧ (∃ b, a.shouldConsumeFd = some b) ∧
      ∀ code : Nat, ∃ value, a.valueForProtocol codec code = some value := by
  obtain ⟨items, hitems⟩ := h.parsed
  have hcollect : a.iter.collect = some (items.map Prod.fst) := collect_of_parsed hitems
  refine ⟨⟨items, hitems, hcollect⟩, exists_pop ⟨items, hitems⟩,
    fun index f => ⟨_, replace_of_parsed index f hitems⟩, ⟨_, toString_of_parsed codec hitems⟩,
    ?_, ?_, ?_, ?_, fun code => ⟨_, valueForProtocol_of_parsed codec hitems code⟩⟩
  · exact ⟨_, by rw [isLoopbackAddr, hcollect]; rfl⟩
  · exact ⟨_, by rw [isPrivateAddr, hcollect]; rfl⟩
  · exact ⟨_, by rw [isIpv6Addr, hcollect]; rfl⟩
  · exact ⟨_, by rw [shouldConsumeFd, hcollect]; rfl⟩

/-- `/ws`, read from bytes, with a port behind it. -/
theorem readers_sample :
    Obtainable default (sampleImplicit.push (.tcp 1)) ∧
      ∃ r, (sampleImplicit.push (.tcp 1)).pop = some r := by
  have hsample : Obtainable default (sampleImplicit.push (.tcp 1)) :=
    .push (.tryFrom (tryFrom_eq_ok_iff.mpr ⟨rfl, _, parsed_sampleImplicit⟩)) (.tcp 1)
  exact ⟨hsample, (readers_never_panic default hsample).2.1⟩

end

end Libp2pRs.Core.Multiaddr
