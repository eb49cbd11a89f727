import Libp2pRs.Addr.TextRoundTrip

/-!
# Addresses in mDNS responses

A node puts the text of each of its addresses into a TXT record, as a character string. The string
is written between quotes, with the quotes and backslashes in it escaped, only if there is a space
in it. The reader takes the quotes off whenever the first byte is one, and never removes a backslash.
-/

namespace Libp2pRs.Mdns

open Addr Libp2pRs.Core List

/-! ## Character strings -/

inductive MdnsResponseError
  | txtRecordTooLong
  | nonAsciiMultiaddr
  | responseTooLong
  deriving DecidableEq, Repr

def space : UInt8 := 0x20

def quote : UInt8 := 0x22

def backslash : UInt8 := 0x5c

def escape (chr : UInt8) : List UInt8 :=
  if chr = backslash then [backslash, backslash]
  else if chr = quote then [backslash, quote]
  else [chr]

def appendCharacterString (out asciiStr : List UInt8) : Except MdnsResponseError (List UInt8) :=
  if ¬ ∀ b ∈ asciiStr, b < 128 then .error .nonAsciiMultiaddr
  else if space ∉ asciiStr then .ok (out ++ asciiStr)
  else .ok (out ++ quote :: asciiStr.flatMap escape ++ [quote])

def decodeCharacterString (data : List UInt8) : Except Unit (List UInt8) :=
  if data.head? = some quote then
    if data.length = 1 ∨ data.getLast? ≠ some quote then .error ()
    else .ok (data.extract 1 (data.length - 1))
  else .ok data

/-- What is written for the string is read as the string. -/
def RoundTrips (s : List UInt8) : Prop :=
  ∃ out, appendCharacterString [] s = .ok out ∧ decodeCharacterString out = .ok s

theorem length_escape (s : List UInt8) :
    (s.flatMap escape).length = s.length + s.count backslash + s.count quote := by
  have hne : backslash ≠ quote := by decide
  induction s with
  | nil => rfl
  | cons b s ih =>
    rw [flatMap_cons, length_append, ih, length_cons, count_cons, count_cons]
    unfold escape
    split_ifs <;> simp_all <;> omega

theorem escape_eq_self_iff {s : List UInt8} :
    s.flatMap escape = s ↔ quote ∉ s ∧ backslash ∉ s := by
  constructor
  · intro h
    have hlen := length_escape s
    rw [h] at hlen
    exact ⟨count_eq_zero.mp (by omega), count_eq_zero.mp (by omega)⟩
  · rintro ⟨hquote, hback⟩
    have hsingle : ∀ b ∈ s, escape b = [b] := by
      intro b hb
      rw [escape, if_neg (ne_of_mem_of_not_mem hb hback), if_neg (ne_of_mem_of_not_mem hb hquote)]
    rw [flatMap_congr hsingle, flatMap_singleton']

theorem decode_quoted (s : List UInt8) :
    decodeCharacterString (quote :: s ++ [quote]) = .ok s := by
  have hhead : (quote :: s ++ [quote]).head? = some quote := rfl
  have hlast : (quote :: s ++ [quote]).getLast? = some quote := getLast?_concat
  have hlen : (quote :: s ++ [quote]).length = s.length + 2 := by simp
  rw [decodeCharacterString, if_pos hhead, if_neg (by rw [hlast, hlen]; simp), hlen]
  simp

theorem decode_eq_self_iff {s : List UInt8} :
    decodeCharacterString s = .ok s ↔ s.head? ≠ some quote := by
  unfold decodeCharacterString
  split_ifs with hhead hlast
  · simp [hhead]
  · have hne : s ≠ [] := by
      rintro rfl
      cases hhead
    have hpos := length_pos_iff.mpr hne
    refine iff_of_false (fun h => ?_) (not_not_intro hhead)
    have hlen := congrArg length (Except.ok.inj h)
    rw [extract_eq_take_drop, length_take, length_drop] at hlen
    omega
  · simp [hhead]

/-- A string survives exactly if it is ASCII and either has a space and nothing that is escaped, or
has no space and does not begin with a quote. -/
theorem character_string_iff (s : List UInt8) :
    RoundTrips s ↔ (∀ b ∈ s, b < 128) ∧
      if space ∈ s then quote ∉ s ∧ backslash ∉ s else s.head? ≠ some quote := by
  unfold RoundTrips appendCharacterString
  by_cases hascii : ∀ b ∈ s, b < 128
  case neg => simp [hascii]
  rw [if_neg (not_not_intro hascii), and_iff_right hascii]
  by_cases hspace : space ∈ s
  · simp only [hspace, not_true_eq_false, if_false, if_true, nil_append, Except.ok.injEq,
      exists_eq_left', decode_quoted, escape_eq_self_iff]
  · simp only [hspace, not_false_eq_true, if_false, if_true, nil_append, Except.ok.injEq,
      exists_eq_left', decode_eq_self_iff]

/-- The address `/dns4/a "b` of a peer. -/
theorem quoted_dns_escaped :
    ∃ out, appendCharacterString [] "dnsaddr=/dns4/a \"b/p2p/15R".toUTF8.data.toList = .ok out ∧
      decodeCharacterString out = .ok "dnsaddr=/dns4/a \\\"b/p2p/15R".toUTF8.data.toList ∧
      ¬ RoundTrips "dnsaddr=/dns4/a \"b/p2p/15R".toUTF8.data.toList := by
  refine ⟨"\"dnsaddr=/dns4/a \\\"b/p2p/15R\"".toUTF8.data.toList, by decide +kernel,
    by decide +kernel, ?_⟩
  rintro ⟨out, hout, hdecode⟩
  have hwritten : out = "\"dnsaddr=/dns4/a \\\"b/p2p/15R\"".toUTF8.data.toList :=
    Except.ok.inj (hout.symm.trans (by decide +kernel))
  rw [hwritten] at hdecode
  revert hdecode
  decide +kernel

/-! ## Addresses -/

def dnsaddr : List UInt8 := "dnsaddr=".toByteArray.data.toList

/-- What `build_query_response` writes for an address. -/
def txtToSend (codec : TextCodec) (addr : Multiaddr) (peerId : PeerId) : Option String := do
  let text ← addr.toString codec
  return "dnsaddr=" ++ (text ++ ("/p2p/" ++ codec.base58Encode peerId.toBytes))

/-- What `MdnsPeer::new` makes of a TXT record. A panic of `pop` is `none`. -/
def readAddr (codec : TextCodec) (myPeerId : PeerId) (txt : List UInt8) :
    Option (Option Multiaddr) :=
  match decodeCharacterString txt with
  | .error _ => some none
  | .ok addr =>
    if ¬ dnsaddr <+: addr then some none
    else match Str.fromUtf8 (addr.drop 8) with
      | none => some none
      | some text => match Multiaddr.fromStr codec text with
        | .error _ => some none
        | .ok addr => do
          match ← addr.pop with
          | (some (.p2p hash), addr) =>
            return if PeerId.fromMultihash hash = some myPeerId then some addr else none
          | _ => return none

theorem readAddr_of_fromStr {rest : Str} {addr : Multiaddr} {peerId : PeerId}
    (hdecode : decodeCharacterString out = .ok (dnsaddr ++ rest.bytes))
    (hread : Multiaddr.fromStr codec rest = .ok a)
    (hpop : a.pop = some (some (.p2p peerId.multihash), addr)) :
    readAddr codec peerId out = some (some addr) := by
  have hdrop : (dnsaddr ++ rest.bytes).drop 8 = rest.bytes := drop_left' (by decide +kernel)
  have hpeer : PeerId.fromMultihash peerId.multihash = some peerId :=
    PeerId.fromMultihash_eq_some_iff.mpr rfl
  simp only [readAddr, hdecode, prefix_append, not_true_eq_false, if_false, hdrop,
    Str.fromUtf8_eq_some_iff.mpr rfl, hread, hpop, Option.bind_eq_bind, Option.bind_some, hpeer,
    if_true]
  rfl

/-- An address that comes from text is read back if its text survives. -/
theorem readAddr_announced (h : codec.Lawful) {s t : Str} {addr : Multiaddr} {peerId : PeerId}
    (haddr : Multiaddr.fromStr codec s = .ok addr)
    (ht : txtToSend codec addr peerId = some t.val) (htrip : RoundTrips t.bytes) :
    ∃ out, appendCharacterString [] t.bytes = .ok out ∧
      readAddr codec peerId out = some (some addr) := by
  obtain ⟨out, hout, hdecode⟩ := htrip
  obtain ⟨ps, hps, hbytes⟩ := Multiaddr.textual_of_fromStr haddr
  have hparsed : Parsed addr.bytes (ps.map fun p => (p, p.writeBytes)) := by
    rw [hbytes]
    exact Parsed.flatMap_writeBytes ps
  have hfst : (ps.map fun p => (p, p.writeBytes)).map Prod.fst = ps := by
    rw [map_map]
    exact map_id ps
  -- Behind `dnsaddr=` stands the text of the components and of the peer.
  let all := ps ++ [.p2p peerId.multihash]
  have htext : t.val = "dnsaddr=" ++ all.foldl (fun text p => text ++ display codec p) "" := by
    rw [txtToSend, Multiaddr.toString_of_parsed codec hparsed, hfst] at ht
    rw [← Option.some.inj ht, foldl_append, foldl_cons, foldl_nil, display,
      PeerId.toBytes_multihash]
  have hsize : (all.foldl (fun text p => text ++ display codec p) "").utf8ByteSize < 2 ^ 64 := by
    have := t.size_lt
    rw [htext, String.utf8ByteSize_append] at this
    omega
  have hsplit : t.bytes = dnsaddr ++ Str.bytes ⟨_, hsize⟩ := by
    rw [Str.bytes, htext, String.toByteArray_append, ByteArray.data_append, Array.toList_append]
    rfl
  have hall : ∀ p ∈ all, Textual p := by
    intro p hp
    obtain hp | hp := mem_append.mp hp
    · exact hps p hp
    · rw [mem_singleton.mp hp]
      trivial
  have hwritten : all.flatMap Protocol.writeBytes =
      addr.bytes ++ (Protocol.p2p peerId.multihash).writeBytes := by
    rw [flatMap_append, ← hbytes, flatMap_singleton]
  have hpop := Multiaddr.pop_of_parsed (a := ⟨all.flatMap Protocol.writeBytes⟩)
    (hwritten ▸ hparsed.append (Parsed.writeBytes (.p2p peerId.multihash)))
  rw [← hparsed.bytes_eq] at hpop
  exact ⟨out, hout, readAddr_of_fromStr (hsplit ▸ hdecode)
    (Multiaddr.fromStr_of_pieces h hall rfl) hpop⟩

/-- The sample with two letters of ASCII for each byte of a peer. -/
def asciiCodec : TextCodec :=
  { sampleCodec with
    base58Decode := fun s => some (Lib.beBytes (s.val.utf8ByteSize / 2) (ofDigits s.val.toList))
    base58Encode := fun data => String.ofList (digits (2 * data.length) (Lib.beNat data)) }

theorem lawful_asciiCodec : asciiCodec.Lawful :=
  { lawful_sampleCodec with
    base58 := by
      refine fun data => ⟨fun h => ?_, fun s hs => ?_⟩
      · rw [asciiCodec, String.toList_ofList] at h
        exact absurd (mem_digits h).1 (by decide)
      · have hlt : Lib.beNat data < 32 ^ (2 * data.length) := by
          rw [pow_mul]
          exact (Lib.beNat_lt data).trans_le (Nat.pow_le_pow_left (by decide) _)
        show some (Lib.beBytes (s.val.utf8ByteSize / 2) (ofDigits s.val.toList)) = some data
        rw [hs, asciiCodec, String.toList_ofList, ofDigits_digits hlt, String.utf8ByteSize_ofList,
          utf8Len_digits, Nat.mul_div_cancel_left _ Nat.two_pos, Lib.beBytes_beNat] }

theorem http_announced : ∃ out,
    appendCharacterString [] "dnsaddr=/http/p2p/BIAAAA".toUTF8.data.toList = .ok out ∧
      readAddr asciiCodec (.ofByte 1) out = some (some (.ofProtocol .http)) := by
  have hps : ∀ p ∈ [Protocol.http], Textual p := by simp [Textual]
  refine readAddr_announced lawful_asciiCodec (s := ⟨"/http", by decide⟩)
    (t := ⟨"dnsaddr=/http/p2p/BIAAAA", by decide⟩)
    (Multiaddr.fromStr_of_pieces lawful_asciiCodec hps rfl) ?_
    ((character_string_iff _).mpr (by decide +kernel))
  rw [txtToSend, Multiaddr.toString_of_parsed asciiCodec (a := .ofProtocol .http)
    (Parsed.writeBytes .http)]
  decide +kernel

end Libp2pRs.Mdns
