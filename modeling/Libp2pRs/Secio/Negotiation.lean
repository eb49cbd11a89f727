import Libp2pRs.Core.ReadWrite

/-!
# Negotiation of SECIO

Each side sends a proposition with its public key, a nonce and three lists of algorithms. Both compute
two hashes from the keys and nonces; the order of the hashes decides whose lists are preferred, and which
half of the stretched key is for which direction.

The two sides see the hashes in opposite order and exchange the roles of the lists, so that they search
the same list for the first name that is in the other one.
-/

namespace Libp2pRs.Secio

open Lib Libp2pRs.Core

/-! ## Algorithms -/

inductive Digest where
  | sha256
  | sha512
  deriving DecidableEq, Repr

def Digest.numBytes : Digest → Nat
  | .sha256 => 256 / 8
  | .sha512 => 512 / 8

inductive KeyAgreement where
  | ecdhP256
  | ecdhP384
  deriving DecidableEq, Repr

inductive CipherType where
  | aes128Ctr
  | aes128Gcm
  | aes256Gcm
  | chaCha20Poly1305
  deriving DecidableEq, Repr

namespace CipherType

def keySize : CipherType → Nat
  | aes128Ctr | aes128Gcm => 16
  | aes256Gcm | chaCha20Poly1305 => 32

def ivSize : CipherType → Nat
  | aes128Ctr => 16
  | aes128Gcm | aes256Gcm | chaCha20Poly1305 => 12

def tagSize : CipherType → Nat
  | aes128Ctr => 0
  | aes128Gcm | aes256Gcm | chaCha20Poly1305 => 16

end CipherType

inductive SecioError where
  | io (e : IoError)
  | ringCryptoError
  | ephemeralKeyGenerationFailed
  | secretGenerationFailed
  | noSupportIntersection
  | nonceVerificationFailed
  | frameTooShort
  | hmacNotMatching
  | connectSelf
  | handshakeParsingFailure
  | signatureVerificationFailed
  | invalidMessage
  | invalidProposition (msg : String)
  deriving DecidableEq, Repr

/-! ## Selection -/

def defaultAgreementsProposition : String := "P-256,P-384"

def defaultCiphersProposition : String :=
  "AES-128,AES-128-CTR,AES-128-GCM,AES-256-GCM,CHACHA20_POLY1305"

def defaultDigestsProposition : String := "SHA256,SHA512"

def KeyAgreement.ofName (name : String) : Option KeyAgreement :=
  if name = "P-256" then some .ecdhP256
  else if name = "P-384" then some .ecdhP384
  else none

def Digest.ofName (name : String) : Option Digest :=
  if name = "SHA256" then some .sha256
  else if name = "SHA512" then some .sha512
  else none

def CipherType.ofName (name : String) : Option CipherType :=
  if name = "AES-128" ∨ name = "AES-128-CTR" then some .aes128Ctr
  else if name = "AES-128-GCM" then some .aes128Gcm
  else if name = "AES-256-GCM" then some .aes256Gcm
  else if name = "CHACHA20_POLY1305" then some .chaCha20Poly1305
  else none

def split (s : String) : List String := (s.toList.splitOn ',').map String.ofList

section Select

variable {α : Type} (ofName : String → Option α)

/-- The first name in one list that is in the other one and is known. -/
def search (a b : String) : Except SecioError α :=
  match (split a).findSome? fun x => if x ∈ split b then ofName x else none with
  | some chosen => .ok chosen
  | none => .error .noSupportIntersection

def select (r : Ordering) (ours theirs : String) : Except SecioError α :=
  match r with
  | .lt | .eq => search ofName theirs ours
  | .gt => search ofName ours theirs

/-- A name that stands for the algorithm is in both lists. -/
def Listed (ours theirs : String) (chosen : α) : Prop :=
  ∃ name, name ∈ split ours ∧ name ∈ split theirs ∧ ofName name = some chosen

variable {ofName} {r : Ordering} {ours theirs : String} {chosen : α}

theorem select_swap (hr : r ≠ .eq) : select ofName r.swap theirs ours = select ofName r ours theirs := by
  cases r with
  | lt | gt => rfl
  | eq => exact absurd rfl hr

theorem listed_of_search (h : search ofName a b = .ok chosen) : Listed ofName a b chosen := by
  unfold search at h
  split at h
  case h_1 chosen' hsome =>
    cases h
    obtain ⟨name, hname, hchosen⟩ := List.exists_of_findSome?_eq_some hsome
    split at hchosen
    case isTrue hb => exact ⟨name, hname, hb, hchosen⟩
    case isFalse => cases hchosen
  case h_2 => cases h

theorem listed_of_select (h : select ofName r ours theirs = .ok chosen) :
    Listed ofName ours theirs chosen := by
  have hswap : Listed ofName theirs ours chosen → Listed ofName ours theirs chosen := by
    rintro ⟨name, htheirs, hours, hname⟩
    exact ⟨name, hours, htheirs, hname⟩
  cases r with
  | lt | eq => exact hswap (listed_of_search h)
  | gt => exact listed_of_search h

end Select

def selectAgreement : Ordering → String → String → Except SecioError KeyAgreement :=
  select KeyAgreement.ofName

def selectDigest : Ordering → String → String → Except SecioError Digest := select Digest.ofName

def selectCipher : Ordering → String → String → Except SecioError CipherType :=
  select CipherType.ofName

/-! ## What is outside of the repository -/

structure Propose where
  rand : List UInt8
  pubkey : List UInt8
  exchanges : String
  ciphers : String
  hashes : String
  deriving DecidableEq, Repr

/-- Propositions as protobuf messages, public keys, SHA-256 and HMAC. -/
structure Primitives (K : Type) where
  encode : Propose → List UInt8
  decode : List UInt8 → Option Propose
  intoProtobufEncoding : K → List UInt8
  fromProtobufEncoding : List UInt8 → Option K
  sha256 : List UInt8 → List UInt8
  sign : Digest → List UInt8 → List UInt8 → List UInt8
  length_sign : ∀ digest key data, (sign digest key data).length = digest.numBytes

/-! ## Contexts -/

structure Config (K : Type) where
  publicKey : K
  agreementsProposal : Option String
  ciphersProposal : Option String
  digestsProposal : Option String

namespace Config

variable {K : Type} (config : Config K)

def agreements : String := config.agreementsProposal.getD defaultAgreementsProposition

def ciphers : String := config.ciphersProposal.getD defaultCiphersProposition

def digests : String := config.digestsProposal.getD defaultDigestsProposition

end Config

structure Local where
  nonce : List UInt8
  publicKey : List UInt8
  propositionBytes : List UInt8

structure Remote (K : Type) where
  propositionBytes : List UInt8
  publicKey : K
  nonce : List UInt8
  hashesOrdering : Ordering
  chosenExchange : KeyAgreement
  chosenCipher : CipherType
  chosenHash : Digest

section Contexts

variable {K : Type} (c : Primitives K)

def proposition (config : Config K) (nonce : List UInt8) : Propose where
  rand := nonce
  pubkey := c.intoProtobufEncoding config.publicKey
  exchanges := config.agreements
  ciphers := config.ciphers
  hashes := config.digests

def withLocal (config : Config K) (nonce : List UInt8) : Local where
  nonce := nonce
  publicKey := c.intoProtobufEncoding config.publicKey
  propositionBytes := c.encode (proposition c config nonce)

def hashesOrdering (state : Local) (publicKey nonce : List UInt8) : Ordering :=
  compare (c.sha256 (publicKey ++ state.nonce)) (c.sha256 (state.publicKey ++ nonce))

def withRemote (config : Config K) (state : Local) (remoteBytes : List UInt8) :
    Except SecioError (Remote K) :=
  match c.decode remoteBytes with
  | none => .error .handshakeParsingFailure
  | some propose =>
    if propose.pubkey = state.publicKey then .error .connectSelf
    else do
      let ordering := hashesOrdering c state propose.pubkey propose.rand
      let chosenExchange ← selectAgreement ordering config.agreements propose.exchanges
      let chosenCipher ← selectCipher ordering config.ciphers propose.ciphers
      let chosenHash ← selectDigest ordering config.digests propose.hashes
      match c.fromProtobufEncoding propose.pubkey with
      | none => .error .handshakeParsingFailure
      | some publicKey =>
        return ⟨remoteBytes, publicKey, propose.rand, ordering, chosenExchange, chosenCipher,
          chosenHash⟩

/-! ## Keys -/

/-- `key expansion`. -/
def seed : List UInt8 := "key expansion".toUTF8.toList

def stretchLoop (digest : Digest) (key a : List UInt8) (left : Nat) : List UInt8 :=
  if left = 0 then []
  else
    let b := c.sign digest key (a ++ seed)
    let todo := min b.length left
    b.take todo ++ stretchLoop digest key (c.sign digest key a) (left - todo)
termination_by left
decreasing_by
  have hlength := c.length_sign digest key (a ++ seed)
  have hpos : 0 < digest.numBytes := by cases digest <;> decide
  omega

def stretchKey (digest : Digest) (key : List UInt8) (length : Nat) : List UInt8 :=
  stretchLoop c digest key (c.sign digest key seed) length

/-- The part of the stretched key for what is sent and the part for what is received. -/
def infos (remote : Remote K) (keyMaterial : List UInt8) :
    Except SecioError (List UInt8 × List UInt8) :=
  let size := 2 * (remote.chosenCipher.ivSize + remote.chosenCipher.keySize + 20)
  let longerKey := stretchKey c remote.chosenHash keyMaterial size
  let firstHalf := longerKey.take (longerKey.length / 2)
  let secondHalf := longerKey.drop (longerKey.length / 2)
  match remote.hashesOrdering with
  | .eq =>
    .error (.invalidProposition "equal digest of public key and nonce for local and remote")
  | .lt => .ok (secondHalf, firstHalf)
  | .gt => .ok (firstHalf, secondHalf)

/-! ## Two sides -/

/-- The order of the hashes for the first of two sides. -/
def orderingOf (a : Config K) (na : List UInt8) (b : Config K) (nb : List UInt8) : Ordering :=
  hashesOrdering c (withLocal c a na) (c.intoProtobufEncoding b.publicKey) nb

theorem orderingOf_swap (a : Config K) (na : List UInt8) (b : Config K) (nb : List UInt8) :
    orderingOf c b nb a na = (orderingOf c a na b nb).swap := Std.OrientedOrd.eq_swap

variable {c} {a b : Config K} {na nb : List UInt8}

theorem withRemote_proposition (na nb : List UInt8) (hne : a.publicKey ≠ b.publicKey)
    (hdecode : c.decode (c.encode (proposition c b nb)) = some (proposition c b nb))
    (hkey : ∀ config ∈ [a, b],
      c.fromProtobufEncoding (c.intoProtobufEncoding config.publicKey) = some config.publicKey) :
    withRemote c a (withLocal c a na) (withLocal c b nb).propositionBytes = (do
      let chosenExchange ← selectAgreement (orderingOf c a na b nb) a.agreements b.agreements
      let chosenCipher ← selectCipher (orderingOf c a na b nb) a.ciphers b.ciphers
      let chosenHash ← selectDigest (orderingOf c a na b nb) a.digests b.digests
      return ⟨(withLocal c b nb).propositionBytes, b.publicKey, nb, orderingOf c a na b nb,
        chosenExchange, chosenCipher, chosenHash⟩) := by
  have hkeys : (proposition c b nb).pubkey ≠ (withLocal c a na).publicKey := by
    intro heq
    change c.intoProtobufEncoding b.publicKey = c.intoProtobufEncoding a.publicKey at heq
    have hb := hkey b (by simp)
    rw [heq, hkey a (by simp)] at hb
    exact hne (Option.some_inj.mp hb)
  have hremote : c.fromProtobufEncoding (proposition c b nb).pubkey = some b.publicKey :=
    hkey b (by simp)
  have hbytes : c.decode (withLocal c b nb).propositionBytes = some (proposition c b nb) := hdecode
  rw [withRemote, hbytes]
  dsimp only
  rw [if_neg hkeys, hremote]
  rfl

structure Agreed (c : Primitives K) (a b : Config K) (ra rb : Remote K) : Prop where
  exchange : rb.chosenExchange = ra.chosenExchange
  cipher : rb.chosenCipher = ra.chosenCipher
  hash : rb.chosenHash = ra.chosenHash
  exchangeListed : Listed KeyAgreement.ofName a.agreements b.agreements ra.chosenExchange
  cipherListed : Listed CipherType.ofName a.ciphers b.ciphers ra.chosenCipher
  hashListed : Listed Digest.ofName a.digests b.digests ra.chosenHash
  ordering : rb.hashesOrdering = ra.hashesOrdering.swap
  halves : ∀ keyMaterial, ∃ first second,
    infos c ra keyMaterial = .ok (first, second) ∧ infos c rb keyMaterial = .ok (second, first)

theorem infos_swap (hcipher : rb.chosenCipher = ra.chosenCipher)
    (hhash : rb.chosenHash = ra.chosenHash) (hordering : rb.hashesOrdering = ra.hashesOrdering.swap)
    (hne : ra.hashesOrdering ≠ .eq) (keyMaterial : List UInt8) : ∃ first second,
      infos c ra keyMaterial = .ok (first, second) ∧ infos c rb keyMaterial = .ok (second, first) := by
  unfold infos
  rw [hcipher, hhash, hordering]
  cases hra : ra.hashesOrdering with
  | eq => exact absurd hra hne
  | lt | gt => exact ⟨_, _, rfl, rfl⟩

theorem agreed_of_selects {r : Ordering} {exchange : KeyAgreement} {cipher : CipherType} {hash : Digest}
    {ka kb : K} {pa pb : List UInt8} (hr : r ≠ .eq)
    (hexchange : select KeyAgreement.ofName r a.agreements b.agreements = .ok exchange)
    (hcipher : select CipherType.ofName r a.ciphers b.ciphers = .ok cipher)
    (hhash : select Digest.ofName r a.digests b.digests = .ok hash) :
    Agreed c a b ⟨pb, kb, nb, r, exchange, cipher, hash⟩ ⟨pa, ka, na, r.swap, exchange, cipher, hash⟩ where
  exchange := rfl
  cipher := rfl
  hash := rfl
  exchangeListed := listed_of_select hexchange
  cipherListed := listed_of_select hcipher
  hashListed := listed_of_select hhash
  ordering := rfl
  halves := infos_swap rfl rfl rfl hr

theorem agreement_of_errors {x y : Except SecioError (Remote K)} {P : Remote K → Remote K → Prop}
    (hx : x = .error e) (hy : y = .error e) :
    ((∃ ra, x = .ok ra) ↔ ∃ rb, y = .ok rb) ∧ ∀ ra rb, x = .ok ra → y = .ok rb → P ra rb := by
  rw [hx, hy]
  refine ⟨Iff.rfl, ?_⟩
  intro ra rb hra
  cases hra

/-- Two sides with different keys process each other's proposition. If their hashes differ, both succeed
or both fail, and if they succeed they agree. -/
theorem negotiation_agrees (c : Primitives K) (a b : Config K) (na nb : List UInt8)
    (hne : a.publicKey ≠ b.publicKey)
    (hdecode : ∀ p ∈ [proposition c a na, proposition c b nb], c.decode (c.encode p) = some p)
    (hkey : ∀ config ∈ [a, b],
      c.fromProtobufEncoding (c.intoProtobufEncoding config.publicKey) = some config.publicKey)
    (hhashes : c.sha256 (c.intoProtobufEncoding b.publicKey ++ na) ≠
      c.sha256 (c.intoProtobufEncoding a.publicKey ++ nb)) :
    let la := withLocal c a na
    let lb := withLocal c b nb
    ((∃ ra, withRemote c a la lb.propositionBytes = .ok ra) ↔
        ∃ rb, withRemote c b lb la.propositionBytes = .ok rb) ∧
      ∀ ra rb, withRemote c a la lb.propositionBytes = .ok ra →
        withRemote c b lb la.propositionBytes = .ok rb → Agreed c a b ra rb := by
  intro la lb
  have hordering : orderingOf c a na b nb ≠ .eq := by
    intro heq
    exact hhashes (Std.LawfulEqOrd.eq_of_compare heq)
  have ha := withRemote_proposition na nb hne (hdecode _ (by simp)) hkey
  have hb := withRemote_proposition nb na hne.symm (hdecode _ (by simp))
    (fun config hconfig => hkey config (by simpa [or_comm] using hconfig))
  rw [orderingOf_swap, selectAgreement, selectCipher, selectDigest, select_swap hordering,
    select_swap hordering, select_swap hordering] at hb
  rw [selectAgreement, selectCipher, selectDigest] at ha
  rw [ha, hb]
  -- Both sides now make the same three selections.
  cases hexchange : select KeyAgreement.ofName (orderingOf c a na b nb) a.agreements b.agreements with
  | error e => exact agreement_of_errors rfl rfl
  | ok exchange =>
    cases hcipher : select CipherType.ofName (orderingOf c a na b nb) a.ciphers b.ciphers with
    | error e => exact agreement_of_errors rfl rfl
    | ok cipher =>
      cases hhash : select Digest.ofName (orderingOf c a na b nb) a.digests b.digests with
      | error e => exact agreement_of_errors rfl rfl
      | ok hash =>
        refine ⟨iff_of_true ⟨_, rfl⟩ ⟨_, rfl⟩, ?_⟩
        intro ra rb hra hrb
        cases hra
        cases hrb
        exact agreed_of_selects hordering hexchange hcipher hhash

end Contexts

def sampleConfigs : Config UInt8 × Config UInt8 :=
  (⟨1, some "P-384,P-256", some "AES-128,AES-128-GCM", none⟩,
    ⟨2, none, some "CHACHA20_POLY1305,AES-128-GCM", some "SHA512"⟩)

/-- A scheme for these two sides, in which a key is a byte and the propositions are numbered. -/
def samplePrimitives : Primitives UInt8 where
  encode x := if x.pubkey = [1] then [0] else [1]
  decode bytes :=
    if bytes = [0] then some ⟨[7], [1], "P-384,P-256", "AES-128,AES-128-GCM", "SHA256,SHA512"⟩
    else some ⟨[9], [2], "P-256,P-384", "CHACHA20_POLY1305,AES-128-GCM", "SHA512"⟩
  intoProtobufEncoding key := [key]
  fromProtobufEncoding bytes := bytes.head?
  sha256 bytes := bytes
  sign digest _ _ := List.replicate digest.numBytes 0
  length_sign _ _ _ := List.length_replicate

theorem sampleConfigs_agree :
    let (a, b) := sampleConfigs
    let la := withLocal samplePrimitives a [7]
    let lb := withLocal samplePrimitives b [9]
    ∃ ra rb, withRemote samplePrimitives a la lb.propositionBytes = .ok ra ∧
      withRemote samplePrimitives b lb la.propositionBytes = .ok rb ∧
      ra.chosenCipher = .aes128Gcm ∧ Agreed samplePrimitives a b ra rb := by
  have hagree := negotiation_agrees samplePrimitives sampleConfigs.1 sampleConfigs.2 [7] [9]
    (by decide) (by decide) (by decide) (by decide)
  exact ⟨_, _, rfl, rfl, rfl, hagree.2 _ _ rfl rfl⟩

end Libp2pRs.Secio
