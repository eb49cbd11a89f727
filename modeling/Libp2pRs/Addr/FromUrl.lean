import Libp2pRs.Addr.Sources

/-!
# What is kept of a URL

`from_url` refuses a URL of which something would be lost. Two things escape it: the host and the port
of a `unix` URL are not looked at, and the text of an IPv6 host has brackets, with which it is no IP
address, so that it becomes a domain name.
-/

namespace Libp2pRs.Core.Multiaddr

open Lib Addr

/-- `url::Host`. -/
inductive Host where
  | domain (text : Str)
  | ipv4 (addr : Ipv4Addr)
  | ipv6 (addr : Ipv6Addr)

def Host.IsLiteral : Host → Prop
  | domain _ => False
  | ipv4 _ | ipv6 _ => True

/-- What the accessors of the `url` crate tell of the host. A domain name in a URL to the Internet is
not the text of an IP address, and neither is an IPv6 address in brackets. -/
structure Accessors (codec : TextCodec) (host : Url → Option Host) : Prop where
  noHost : ∀ url, host url = none → url.hostStr = none
  domain : ∀ url text, host url = some (.domain text) →
    url.hostStr = some text ∧ (url.scheme.val ≠ "unix" → codec.parseIp text = none)
  ipv4 : ∀ url addr, host url = some (.ipv4 addr) → ∃ text : Str,
    text.val = codec.showIpv4 addr ∧ url.hostStr = some text ∧ codec.parseIp text = some (.inl addr)
  ipv6 : ∀ url addr, host url = some (.ipv6 addr) → ∃ text : Str,
    text.val = "[" ++ codec.showIpv6 addr ++ "]" ∧ url.hostStr = some text ∧ codec.parseIp text = none

/-- `port_or_known_default`. -/
def effectivePort (url : Url) : Option UInt16 := url.port.or ((httpWsParts url).map (·.2.2))

/-- An empty path counts as the root. -/
def pathOf (url : Url) : String := if url.path.val = "" then "/" else url.path.val

structure Agree (url₁ url₂ : Url) : Prop where
  scheme : url₁.scheme.val = url₂.scheme.val
  host : url₁.hostStr = url₂.hostStr
  port : effectivePort url₁ = effectivePort url₂
  username : url₁.username.val = url₂.username.val
  password : url₁.password = url₂.password
  query : url₁.query = url₂.query
  fragment : url₁.fragment = url₂.fragment
  path : pathOf url₁ = pathOf url₂

def StartsWithIp (a : Multiaddr) : Prop :=
  ∃ p ps, a.iter.collect = some (p :: ps) ∧ ((∃ addr, p = .ip4 addr) ∨ ∃ addr, p = .ip6 addr)

variable {codec : TextCodec} {host : Url → Option Host} {u u₁ u₂ : Str} {url url₁ url₂ : Url}
  {a : Multiaddr}

def hostPart (codec : TextCodec) (hostname : Str) : Protocol :=
  match codec.parseIp hostname with
  | some ip => protocolOfIp ip
  | none => .dns hostname

/-- A URL that is accepted, and the components of its address. -/
structure Accepted (codec : TextCodec) (url : Url) (ps : List Protocol) : Prop where
  username : url.username.val = ""
  password : url.password = none
  query : url.query = none
  fragment : url.fragment = none
  parts : url.scheme.val = "unix" ∧ ps = [.unix url.path] ∨
    ∃ hostname protocol lostPath port, url.hostStr = some hostname ∧
      httpWsParts url = some (protocol, lostPath, port) ∧ (lostPath = true → pathOf url = "/") ∧
      ps = [hostPart codec hostname, .tcp (url.port.getD port), protocol]

theorem accepted_httpWs (hx : httpWsParts url = some x)
    (h : fromUrlInnerHttpWs codec url false = some (.ok a)) :
    ∃ ps, a.iter.collect = some ps ∧ Accepted codec url ps := by
  obtain ⟨protocol, lostPath, port⟩ := x
  rw [fromUrlInnerHttpWs, hx] at h
  dsimp only [Option.bind_eq_bind, Option.bind_some] at h
  split at h
  case h_1 => cases h
  case h_2 hostname hhost =>
    split at h
    case isTrue => cases h
    case isFalse hkept =>
      cases h
      simp only [Bool.not_false, Bool.true_and, Bool.or_eq_true, decide_eq_true_eq, not_or,
        not_not, Option.not_isSome_iff_eq_none, Bool.and_eq_true, not_and] at hkept
      obtain ⟨⟨⟨⟨huser, hpassword⟩, hpath⟩, hquery⟩, hfragment⟩ := hkept
      refine ⟨_, collect_of_parsed (parsed_fromIter _), huser, hpassword, hquery, hfragment,
        .inr ⟨hostname, protocol, lostPath, port, hhost, hx, fun hlost => ?_, rfl⟩⟩
      grind [pathOf, Str.root]

theorem accepted_of_fromUrl (hu : codec.parseUrl u = some url)
    (h : fromUrlInner codec u false = some (.ok a)) :
    ∃ ps, a.iter.collect = some ps ∧ Accepted codec url ps := by
  rw [fromUrlInner, hu] at h
  dsimp only at h
  split at h
  case h_5 hs =>
    simp only [fromUrlInnerPath, pathPart, hs, Option.bind_eq_bind, Option.bind_some] at h
    split at h
    case isTrue => cases h
    case isFalse hkept =>
      cases h
      simp only [Bool.not_false, Bool.true_and, Bool.or_eq_true, decide_eq_true_eq, not_or,
        not_not, Option.not_isSome_iff_eq_none] at hkept
      obtain ⟨⟨⟨huser, hpassword⟩, hquery⟩, hfragment⟩ := hkept
      exact ⟨_, collect_of_parsed (Parsed.writeBytes (.unix url.path)), huser, hpassword, hquery,
        hfragment, .inl ⟨hs, rfl⟩⟩
  case h_6 => cases h
  case h_1 hs | h_2 hs | h_3 hs | h_4 hs =>
    have hx : (httpWsParts url).isSome := by simp [httpWsParts, hs]
    obtain ⟨x, hx⟩ := Option.isSome_iff_exists.mp hx
    exact accepted_httpWs hx h

theorem hostPart_cases (haccess : Accessors codec host)
    (hhost : url.hostStr = some hostname) (hscheme : url.scheme.val ≠ "unix") :
    hostPart codec hostname = .dns hostname ∧ (∀ addr, host url ≠ some (.ipv4 addr)) ∨
      ∃ addr, host url = some (.ipv4 addr) ∧ hostname.val = codec.showIpv4 addr ∧
        hostPart codec hostname = .ip4 addr := by
  unfold hostPart
  match hurl : host url with
  | none => grind [haccess.noHost url hurl]
  | some (.domain text) =>
    obtain ⟨htext, hparse⟩ := haccess.domain url text hurl
    grind
  | some (.ipv4 addr) =>
    obtain ⟨text, hshow, htext, hparse⟩ := haccess.ipv4 url addr hurl
    cases hhost.symm.trans htext
    rw [hparse]
    exact .inr ⟨addr, rfl, hshow, rfl⟩
  | some (.ipv6 addr) =>
    obtain ⟨text, -, htext, hparse⟩ := haccess.ipv6 url addr hurl
    grind

theorem httpWsParts_cases (h : httpWsParts url = some (protocol, lostPath, port)) :
    (url.scheme.val = "ws" ∧ protocol = .ws url.path ∧ port = 80) ∨
      (url.scheme.val = "wss" ∧ protocol = .wss url.path ∧ port = 443) ∨
      (url.scheme.val = "http" ∧ protocol = .http ∧ port = 80 ∧ lostPath = true) ∨
      url.scheme.val = "https" ∧ protocol = .https ∧ port = 443 ∧ lostPath = true := by
  unfold httpWsParts at h
  split at h <;> simp_all

theorem agree_iff (haccess : Accessors codec host)
    (h₁ : Accepted codec url₁ ps) (h₂ : Accepted codec url₂ ps) : Agree url₁ url₂ ↔
      (url₁.scheme.val = "unix" → url₁.hostStr = url₂.hostStr ∧ url₁.port = url₂.port) := by
  have hunix : ∀ url : Url, url.scheme.val = "unix" → effectivePort url = url.port := by
    intro url hs
    simp [effectivePort, httpWsParts, hs]
  constructor
  · intro hagree hs
    have hport := hagree.port
    rw [hunix _ hs, hunix _ (hagree.scheme ▸ hs)] at hport
    exact ⟨hagree.host, hport⟩
  · intro hkept
    have hrest : url₁.scheme.val = url₂.scheme.val ∧ url₁.hostStr = url₂.hostStr ∧
        effectivePort url₁ = effectivePort url₂ ∧ pathOf url₁ = pathOf url₂ := by
      rcases h₁.parts with ⟨hs₁, hps⟩ | ⟨hostname₁, protocol₁, lost₁, port₁, hhost₁, hparts₁, hpath₁, hps⟩
      · rcases h₂.parts with ⟨hs₂, hps₂⟩ | ⟨_, _, _, _, -, -, -, hps₂⟩
        · obtain ⟨hhost, hport⟩ := hkept hs₁
          rw [hps] at hps₂
          simp only [List.cons.injEq, Protocol.unix.injEq, and_true] at hps₂
          simp [hs₁, hs₂, hhost, hport, hunix, pathOf, hps₂]
        · simp [hps] at hps₂
      · rcases h₂.parts with ⟨-, hps₂⟩ | ⟨hostname₂, protocol₂, lost₂, port₂, hhost₂, hparts₂, hpath₂, hps₂⟩
        · simp [hps] at hps₂
        · rw [hps] at hps₂
          simp only [List.cons.injEq, Protocol.tcp.injEq, and_true] at hps₂
          obtain ⟨hip, hport, hprotocol⟩ := hps₂
          have hcases₁ := httpWsParts_cases hparts₁
          have hcases₂ := httpWsParts_cases hparts₂
          have hname : hostname₁ = hostname₂ := by
            have hne : ∀ {protocol lost port} {url : Url},
                httpWsParts url = some (protocol, lost, port) → url.scheme.val ≠ "unix" := by
              intro protocol lost port url hparts hs
              simp [httpWsParts, hs] at hparts
            rcases hostPart_cases haccess hhost₁ (hne hparts₁) with ⟨hpart₁, -⟩ | ⟨x₁, -, ht₁, hpart₁⟩
            · rcases hostPart_cases haccess hhost₂ (hne hparts₂) with ⟨hpart₂, -⟩ | ⟨x₂, -, -, hpart₂⟩
              · simpa [hpart₁, hpart₂] using hip
              · simp [hpart₁, hpart₂] at hip
            · rcases hostPart_cases haccess hhost₂ (hne hparts₂) with ⟨hpart₂, -⟩ | ⟨x₂, -, ht₂, hpart₂⟩
              · simp [hpart₁, hpart₂] at hip
              · grind [cases Str]
          refine ⟨?_, by rw [hhost₁, hhost₂, hname], ?_, ?_⟩
          · grind
          · simp only [effectivePort, hparts₁, hparts₂]
            cases h : url₁.port <;> cases h' : url₂.port <;> simp_all
          · rcases hcases₁ with h | h | h | h <;> rcases hcases₂ with h' | h' | h' | h' <;>
              simp_all [pathOf]
    obtain ⟨hscheme, hhost, hport, hpath⟩ := hrest
    exact ⟨hscheme, hhost, hport, h₁.username.trans h₂.username.symm,
      h₁.password.trans h₂.password.symm, h₁.query.trans h₂.query.symm,
      h₁.fragment.trans h₂.fragment.symm, hpath⟩

theorem startsWithIp_iff (haccess : Accessors codec host)
    (hps : a.iter.collect = some ps) (h : Accepted codec url ps) :
    StartsWithIp a ↔ url.scheme.val ≠ "unix" ∧ ∃ addr, host url = some (.ipv4 addr) := by
  have hhead : StartsWithIp a ↔
      ∃ p rest, ps = p :: rest ∧ ((∃ addr, p = .ip4 addr) ∨ ∃ addr, p = .ip6 addr) := by
    unfold StartsWithIp
    rw [hps]
    simp only [Option.some_inj]
  rw [hhead]
  rcases h.parts with ⟨hs, rfl⟩ | ⟨hostname, protocol, lostPath, port, hhost, hparts, -, rfl⟩
  · simp [hs]
  · have hne : url.scheme.val ≠ "unix" := by
      intro hs
      simp [httpWsParts, hs] at hparts
    rcases hostPart_cases haccess hhost hne with ⟨hpart, hno⟩ | ⟨addr, haddr, -, hpart⟩
    · simp [hpart, hno]
    · simp [hpart, haddr, hne]

section Sample

def sampleUrl (scheme hostname : Str) : Url where
  scheme := scheme
  username := ⟨"", by decide⟩
  password := none
  hostStr := some hostname
  port := none
  path := .root
  query := none
  fragment := none

def urlCodec : TextCodec :=
  { (default : TextCodec) with
    showIpv6 := fun _ => "::1"
    parseUrl := fun s =>
      match s.val with
      | "unix://a/" => some (sampleUrl ⟨"unix", by decide⟩ ⟨"a", by decide⟩)
      | "unix://b/" => some (sampleUrl ⟨"unix", by decide⟩ ⟨"b", by decide⟩)
      | "http://[::1]/" => some (sampleUrl ⟨"http", by decide⟩ ⟨"[::1]", by decide⟩)
      | _ => none }

def loopback : Ipv6Addr := ⟨[0, 0, 0, 0, 0, 0, 0, 1], rfl⟩

def sampleHost (url : Url) : Option Host :=
  url.hostStr.map fun text => if text.val = "[::1]" then .ipv6 loopback else .domain text

theorem accessors_urlCodec : Accessors urlCodec sampleHost where
  noHost url h := Option.map_eq_none_iff.mp h
  domain url text h := by
    obtain ⟨t, ht, heq⟩ := Option.map_eq_some_iff.mp h
    split at heq <;> cases heq
    exact ⟨ht, fun _ => rfl⟩
  ipv4 url addr h := by
    obtain ⟨t, -, heq⟩ := Option.map_eq_some_iff.mp h
    split at heq <;> cases heq
  ipv6 url addr h := by
    obtain ⟨t, ht, heq⟩ := Option.map_eq_some_iff.mp h
    split at heq
    case isTrue hval => exact ⟨t, hval, ht, rfl⟩
    case isFalse => cases heq

/-- The host of a `unix` URL is lost, and an IPv6 address becomes a domain name. -/
theorem fromUrl_loses :
    Accessors urlCodec sampleHost ∧
      (∃ u₁ u₂ url₁ url₂ a, urlCodec.parseUrl u₁ = some url₁ ∧ urlCodec.parseUrl u₂ = some url₂ ∧
        fromUrlInner urlCodec u₁ false = some (.ok a) ∧
        fromUrlInner urlCodec u₂ false = some (.ok a) ∧ ¬Agree url₁ url₂) ∧
      ∃ u url a, urlCodec.parseUrl u = some url ∧ sampleHost url = some (.ipv6 loopback) ∧
        fromUrlInner urlCodec u false = some (.ok a) ∧ ¬StartsWithIp a := by
  refine ⟨accessors_urlCodec, ⟨⟨"unix://a/", by decide⟩, ⟨"unix://b/", by decide⟩, _, _, _, rfl, rfl,
    rfl, rfl, fun h => ?_⟩, ⟨"http://[::1]/", by decide⟩, _, _, rfl, rfl, rfl, ?_⟩
  · exact absurd h.host (by decide)
  · have hu : urlCodec.parseUrl ⟨"http://[::1]/", by decide⟩ =
        some (sampleUrl ⟨"http", by decide⟩ ⟨"[::1]", by decide⟩) := rfl
    obtain ⟨ps, hps, haccepted⟩ := accepted_of_fromUrl hu rfl
    rw [startsWithIp_iff accessors_urlCodec hps haccepted]
    rintro ⟨-, addr, haddr⟩
    cases haddr

/-- Nothing is lost of URLs that are accepted, apart from the host and the port of a `unix` URL, and an
IP address as host is one in the multiaddress exactly if it is an IPv4 address and not in a `unix`
URL. -/
theorem fromUrl_keeps_iff (haccess : Accessors codec host) (hu₁ : codec.parseUrl u₁ = some url₁)
    (hu₂ : codec.parseUrl u₂ = some url₂) (h₁ : fromUrlInner codec u₁ false = some (.ok a))
    (h₂ : fromUrlInner codec u₂ false = some (.ok a)) :
    (Agree url₁ url₂ ∧ ((∃ x ∈ host url₁, x.IsLiteral) → StartsWithIp a)) ↔
      (url₁.scheme.val = "unix" → url₁.hostStr = url₂.hostStr ∧ url₁.port = url₂.port) ∧
        ((∃ x ∈ host url₁, x.IsLiteral) →
          url₁.scheme.val ≠ "unix" ∧ ∃ addr, host url₁ = some (.ipv4 addr)) := by
  obtain ⟨ps, hps, haccepted₁⟩ := accepted_of_fromUrl hu₁ h₁
  obtain ⟨ps', hps', haccepted₂⟩ := accepted_of_fromUrl hu₂ h₂
  cases hps.symm.trans hps'
  rw [agree_iff haccess haccepted₁ haccepted₂, startsWithIp_iff haccess hps haccepted₁]

/-- Of one `unix` URL nothing is lost. -/
theorem fromUrl_keeps_unix :
    ∃ url a, urlCodec.parseUrl ⟨"unix://a/", by decide⟩ = some url ∧
      fromUrlInner urlCodec ⟨"unix://a/", by decide⟩ false = some (.ok a) ∧ Agree url url := by
  have hread : fromUrlInner urlCodec ⟨"unix://a/", by decide⟩ false = some (.ok _) := rfl
  refine ⟨_, _, rfl, rfl,
    ((fromUrl_keeps_iff accessors_urlCodec rfl rfl hread hread).mpr ⟨fun _ => ⟨rfl, rfl⟩, ?_⟩).1⟩
  rintro ⟨x, hx, hliteral⟩
  cases hx
  cases hliteral

end Sample

end Libp2pRs.Core.Multiaddr
