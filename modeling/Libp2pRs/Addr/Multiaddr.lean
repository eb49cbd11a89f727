import Libp2pRs.Addr.Protocol
import Libp2pRs.Core.PeerStore

/-!
# Multiaddresses as sequences of components

A multiaddress keeps only its bytes. Whoever reads it parses them again from the front: the
iterator, `pop`, which looks for the last component that way, and `replace`. An `expect` stands
behind each of these readers. In the model it is the outer `none` of the result.

Every component takes at least one byte, so all these loops are recursions on the number of bytes
that are left.
-/

variable {x : Protocol × List UInt8} {r : List UInt8} {p : Protocol}

namespace Libp2pRs.Addr

open Lib Lib.Parser Libp2pRs.Core List

/-- Bytes that consist of the given components, each with its own bytes. -/
structure Parsed (bs : List UInt8) (items : List (Protocol × List UInt8)) : Prop where
  bytes_eq : bs = (items.map Prod.snd).flatten
  encodes : ∀ x ∈ items, x.1.Encodes x.2

namespace Parsed

variable {bs r : List UInt8} {p : Protocol} {items : List (Protocol × List UInt8)}

theorem nil : Parsed [] [] := ⟨rfl, nofun⟩

theorem cons {enc : List UInt8} (h : p.Encodes enc) (hr : Parsed r items) :
    Parsed (enc ++ r) ((p, enc) :: items) := by
  refine ⟨by rw [hr.bytes_eq]; rfl, ?_⟩
  intro x hx
  obtain rfl | hx := mem_cons.mp hx
  · exact h
  · exact hr.encodes x hx

theorem append (h : Parsed bs items)
    (hr : Parsed r items') : Parsed (bs ++ r) (items ++ items') := by
  refine ⟨by rw [h.bytes_eq, hr.bytes_eq, map_append, flatten_append], ?_⟩
  intro x hx
  obtain hx | hx := mem_append.mp hx
  · exact h.encodes x hx
  · exact hr.encodes x hx

theorem writeBytes (p : Protocol) : Parsed p.writeBytes [(p, p.writeBytes)] := by
  have h := cons (p := p) (.inl rfl) nil
  rwa [append_nil] at h

theorem flatMap_writeBytes (ps : List Protocol) :
    Parsed (ps.flatMap Protocol.writeBytes) (ps.map fun p => (p, p.writeBytes)) := by
  induction ps with
  | nil => exact nil
  | cons p ps ih => exact cons (.inl rfl) ih

theorem tail (h : Parsed bs (x :: items)) : Parsed (items.map Prod.snd).flatten items :=
  ⟨rfl, fun y hy => h.encodes y (mem_cons_of_mem x hy)⟩

theorem bytes_cons (h : Parsed bs (x :: items)) :
    bs = x.2 ++ (items.map Prod.snd).flatten := h.bytes_eq

theorem bytes_ne_nil (h : Parsed bs (x :: items)) : bs ≠ [] := by
  rw [h.bytes_cons]
  exact append_ne_nil_of_left_ne_nil (h.encodes x mem_cons_self).ne_nil _

theorem bytes_concat (h : Parsed bs (items ++ [x])) : bs = (items.map Prod.snd).flatten ++ x.2 := by
  rw [h.bytes_eq, map_append, flatten_append, map_singleton, flatten_singleton]

theorem concat_ne_nil (h : Parsed bs (items ++ [x])) : bs ≠ [] := by
  rw [h.bytes_concat]
  exact append_ne_nil_of_right_ne_nil _ (h.encodes x (by simp)).ne_nil

theorem fromBytes_cons (h : Parsed bs (x :: items)) :
    Protocol.fromBytes.run bs = .ok (x.1, (items.map Prod.snd).flatten) := by
  rw [h.bytes_cons]
  exact Protocol.fromBytes_of_encodes (h.encodes x mem_cons_self) _

theorem unique (h : Parsed bs items) (h' : Parsed bs items') : items = items' := by
  induction items generalizing bs items' with
  | nil =>
    cases items' with
    | nil => rfl
    | cons x' items' => exact absurd h.bytes_eq h'.bytes_ne_nil
  | cons x items ih =>
    cases items' with
    | nil => exact absurd h'.bytes_eq h.bytes_ne_nil
    | cons x' items' =>
      have hread := h.fromBytes_cons
      rw [h'.fromBytes_cons] at hread
      obtain ⟨hfst, htail⟩ := Prod.mk.inj (Except.ok.inj hread)
      have hitems : items = items' := ih h.tail (by rw [← htail]; exact h'.tail)
      have hsnd : x.2 = x'.2 := by
        have hbytes := h.bytes_cons
        rw [h'.bytes_cons, htail] at hbytes
        exact (append_cancel_right hbytes).symm
      rw [Prod.ext hfst.symm hsnd, hitems]

end Parsed

variable {bs : List UInt8}

theorem fromBytes_length_lt (h : Protocol.fromBytes.run bs = .ok (p, r)) :
    r.length < bs.length := by
  obtain ⟨enc, henc, rfl⟩ := Protocol.fromBytes_eq_ok_iff.mp h
  have := length_pos_of_ne_nil henc.ne_nil
  rw [length_append]
  omega

def componentBytes (slice : List UInt8) : List (List UInt8) :=
  match _h : Protocol.fromBytes.run slice with
  | .error _ => []
  | .ok (_, s) => slice.take (slice.length - s.length) :: componentBytes s
termination_by slice.length
decreasing_by exact fromBytes_length_lt _h

theorem componentBytes_step (h : Protocol.fromBytes.run bs = .ok (p, r)) :
    componentBytes bs = bs.take (bs.length - r.length) :: componentBytes r := by
  rw [componentBytes]
  split
  case h_1 he =>
    rw [h] at he
    cases he
  case h_2 hs =>
    rw [h] at hs
    cases hs
    rfl

theorem Parsed.componentBytes_eq (h : Parsed bs items) :
    componentBytes bs = items.map Prod.snd := by
  induction items generalizing bs with
  | nil =>
    rw [h.bytes_eq, componentBytes]
    rfl
  | cons x items ih =>
    have hlen : bs.length - (items.map Prod.snd).flatten.length = x.2.length := by
      rw [h.bytes_cons, length_append]
      omega
    rw [componentBytes_step h.fromBytes_cons, ih h.tail, hlen, h.bytes_cons, take_left]
    rfl

end Libp2pRs.Addr

namespace Libp2pRs.Core.Multiaddr

open Lib Lib.Parser Addr

def empty : Multiaddr := ⟨[]⟩

def push (a : Multiaddr) (p : Protocol) : Multiaddr := ⟨a.bytes ++ p.writeBytes⟩

def with_ (a : Multiaddr) (p : Protocol) : Multiaddr := ⟨a.bytes ++ p.writeBytes⟩

def ofProtocol (p : Protocol) : Multiaddr := ⟨p.writeBytes⟩

def fromIter (ps : List Protocol) : Multiaddr :=
  ⟨ps.foldl (fun writer cmp => writer ++ cmp.writeBytes) []⟩

def check (slice : List UInt8) : Except Error Unit :=
  if slice = [] then .ok ()
  else
    match _h : Protocol.fromBytes.run slice with
    | .error e => .error e
    | .ok (_, s) => check s
termination_by slice.length
decreasing_by exact fromBytes_length_lt _h

def tryFrom (v : List UInt8) : Except Error Multiaddr := do
  check v
  return ⟨v⟩

/-! ## The iterator -/

structure Iter where
  rest : List UInt8

variable {it it' : Iter}

namespace Iter

/-- The outer `none` is the panic of `expect`. -/
def next (it : Iter) : Option (Option (Protocol × Iter)) :=
  if it.rest = [] then some none
  else
    match Protocol.fromBytes.run it.rest with
    | .ok (p, nextData) => some (some (p, ⟨nextData⟩))
    | .error _ => none

theorem next_eq_some (h : it.next = some (some (p, it'))) :
    Protocol.fromBytes.run it.rest = .ok (p, it'.rest) := by
  rw [next] at h
  split at h
  case isTrue => cases h
  case isFalse =>
    split at h
    case h_1 q s hs =>
      cases h
      exact hs
    case h_2 => cases h

theorem length_lt (h : it.next = some (some (p, it'))) :
    it'.rest.length < it.rest.length := fromBytes_length_lt (next_eq_some h)

/-- All items, as a `for` loop sees them. `none` is a panic. -/
def collect (it : Iter) : Option (List Protocol) :=
  match _h : it.next with
  | none => none
  | some none => some []
  | some (some (p, it')) => do return p :: (← it'.collect)
termination_by it.rest.length
decreasing_by exact length_lt _h

end Iter

def iter (a : Multiaddr) : Iter := ⟨a.bytes⟩

/-! ## Readers -/

/-- The loop of `pop`: the last component, and the bytes from its start on. -/
def lastComponent (slice : List UInt8) : Option (Protocol × List UInt8) :=
  match _h : Protocol.fromBytes.run slice with
  | .error _ => none
  | .ok (p, s) => if s = [] then some (p, slice) else lastComponent s
termination_by slice.length
decreasing_by exact fromBytes_length_lt _h

/-- `pop`, with the address that it leaves. The outer `none` is a panic. -/
def pop (a : Multiaddr) : Option (Option Protocol × Multiaddr) :=
  if a.bytes = [] then some (none, a)
  else do
    let (protocol, slice) ← lastComponent a.bytes
    let remainingLen := a.bytes.length - slice.length
    return (some protocol, ⟨a.bytes.take remainingLen⟩)

/-- The loop of `replace`. The function is there until it is taken, and taking it twice is a panic
as well. -/
def replaceLoop (index : Nat) (i : Nat) (fn : Option (Protocol → Option Protocol))
    (replaced : Bool) (address : Multiaddr) (it : Iter) : Option (Option Multiaddr) :=
  match _h : it.next with
  | none => none
  | some none => some (if replaced then some address else none)
  | some (some (p, it')) =>
    if i = index then
      match fn with
      | none => none
      | some f =>
        match f p with
        | some q => replaceLoop index (i + 1) none true (address.with_ q) it'
        | none => some none
    else replaceLoop index (i + 1) fn replaced (address.with_ p) it'
termination_by it.rest.length
decreasing_by all_goals exact Iter.length_lt _h

def replace (a : Multiaddr) (index : Nat) (f : Protocol → Option Protocol) :
    Option (Option Multiaddr) :=
  replaceLoop index 0 (some f) false empty a.iter

def ipv4IsLoopback (addr : Ipv4Addr) : Bool := addr.get 0 == 127

def ipv4IsPrivate (addr : Ipv4Addr) : Bool :=
  addr.get 0 == 10 || (addr.get 0 == 172 && 16 ≤ addr.get 1 && addr.get 1 ≤ 31) ||
    (addr.get 0 == 192 && addr.get 1 == 168)

def ipv4IsLinkLocal (addr : Ipv4Addr) : Bool := addr.get 0 == 169 && addr.get 1 == 254

def ipv6IsLoopback (addr : Ipv6Addr) : Bool := addr.toList == [0, 0, 0, 0, 0, 0, 0, 1]

/-- The last address decides. -/
def isLoopbackAddr (a : Multiaddr) : Option Bool := do
  let components ← a.iter.collect
  return components.foldl (fun isLoopback comp =>
    match comp with
    | .ip4 addr => ipv4IsLoopback addr
    | .ip6 addr => ipv6IsLoopback addr
    | _ => isLoopback) false

def isPrivateAddr (a : Multiaddr) : Option Bool := do
  let components ← a.iter.collect
  return components.foldl (fun isPrivate comp =>
    match comp with
    | .ip4 addr => ipv4IsPrivate addr || ipv4IsLoopback addr || ipv4IsLinkLocal addr
    | .ip6 addr => ipv6IsLoopback addr
    | _ => isPrivate) false

def isIpv6Addr (a : Multiaddr) : Option Bool := do
  let components ← a.iter.collect
  return components.foldl (fun isIpv6 comp =>
    match comp with
    | .ip6 _ => true
    | _ => isIpv6) false

def shouldConsumeFd (a : Multiaddr) : Option Bool := do
  let components ← a.iter.collect
  return components.foldl (fun find p =>
    match p.getKey with
    | .ok key => if key = UNIX ∨ key = TCP then true else find
    | .error _ => find) false

/-! ## The readers on parsed bytes -/

section Parsed

variable {a : Multiaddr} {bs : List UInt8} {items : List (Protocol × List UInt8)}

theorem fromIter_bytes (ps : List Protocol) : (fromIter ps).bytes = ps.flatMap Protocol.writeBytes := by
  have h : ∀ writer : List UInt8, ps.foldl (fun writer cmp => writer ++ cmp.writeBytes) writer =
      writer ++ ps.flatMap Protocol.writeBytes := by
    induction ps with
    | nil => exact fun writer => (List.append_nil writer).symm
    | cons p ps ih =>
      intro writer
      rw [List.foldl_cons, ih, List.flatMap_cons, List.append_assoc]
  exact h []

theorem parsed_fromIter (ps : List Protocol) :
    Parsed (fromIter ps).bytes (ps.map fun p => (p, p.writeBytes)) := by
  rw [fromIter_bytes]
  exact Parsed.flatMap_writeBytes ps

theorem parsed_push (h : Parsed a.bytes items) (p : Protocol) :
    Parsed (a.push p).bytes (items ++ [(p, p.writeBytes)]) := h.append (Parsed.writeBytes p)

theorem check_step (hne : bs ≠ []) (h : Protocol.fromBytes.run bs = .ok (p, r)) :
    check bs = check r := by
  rw [check, if_neg hne]
  split
  case h_1 he =>
    rw [h] at he
    cases he
  case h_2 hs =>
    rw [h] at hs
    cases hs
    rfl

theorem check_eq_ok_iff : check bs = .ok () ↔ ∃ items, Parsed bs items := by
  constructor
  · intro h
    fun_induction check bs with
    | case1 => exact ⟨[], Parsed.nil⟩
    | case2 => cases h
    | case3 slice hne p s hs ih =>
      obtain ⟨items, hitems⟩ := ih h
      obtain ⟨enc, henc, rfl⟩ := Protocol.fromBytes_eq_ok_iff.mp hs
      exact ⟨_, hitems.cons henc⟩
  · rintro ⟨items, h⟩
    induction items generalizing bs with
    | nil =>
      have hbs : bs = [] := h.bytes_eq
      rw [check, if_pos hbs]
    | cons x items ih =>
      rw [check_step h.bytes_ne_nil h.fromBytes_cons]
      exact ih h.tail

theorem tryFrom_eq_ok_iff : tryFrom bs = .ok a ↔ a.bytes = bs ∧ ∃ items, Parsed bs items := by
  simp only [tryFrom, bind_eq_ok_iff, ← check_eq_ok_iff]
  constructor
  · rintro ⟨_, hcheck, ha⟩
    cases ha
    exact ⟨rfl, hcheck⟩
  · rintro ⟨rfl, hcheck⟩
    exact ⟨(), hcheck, rfl⟩

theorem next_of_parsed (h : Parsed bs (x :: items)) :
    Iter.next ⟨bs⟩ = some (some (x.1, ⟨(items.map Prod.snd).flatten⟩)) := by
  rw [Iter.next, if_neg h.bytes_ne_nil]
  simp only [h.fromBytes_cons]

theorem collect_step (h : it.next = some (some (p, it'))) :
    it.collect = do return p :: (← it'.collect) := by
  rw [Iter.collect]
  split
  case h_1 hnext | h_2 hnext =>
    rw [h] at hnext
    cases hnext
  case h_3 hnext =>
    rw [h] at hnext
    cases hnext
    rfl

theorem collect_of_parsed (h : Parsed bs items) :
    Iter.collect ⟨bs⟩ = some (items.map Prod.fst) := by
  induction items generalizing bs with
  | nil =>
    rw [h.bytes_eq, Iter.collect]
    rfl
  | cons x items ih =>
    rw [collect_step (next_of_parsed h), ih h.tail]
    rfl

theorem lastComponent_step (h : Protocol.fromBytes.run bs = .ok (p, r)) :
    lastComponent bs = if r = [] then some (p, bs) else lastComponent r := by
  rw [lastComponent]
  split
  case h_1 he =>
    rw [h] at he
    cases he
  case h_2 hs =>
    rw [h] at hs
    cases hs
    rfl

theorem lastComponent_of_parsed (h : Parsed bs (items ++ [x])) :
    lastComponent bs = some (x.1, x.2) := by
  induction items generalizing bs with
  | nil =>
    have hread : Protocol.fromBytes.run bs = .ok (x.1, []) := Parsed.fromBytes_cons h
    have hbs : bs = x.2 := h.bytes_concat
    rw [lastComponent_step hread, if_pos rfl, hbs]
  | cons y items ih =>
    have hread : Protocol.fromBytes.run bs = .ok (y.1, ((items ++ [x]).map Prod.snd).flatten) :=
      Parsed.fromBytes_cons h
    have htail : Parsed ((items ++ [x]).map Prod.snd).flatten (items ++ [x]) := Parsed.tail h
    rw [lastComponent_step hread, if_neg htail.concat_ne_nil]
    exact ih htail

theorem pop_of_parsed (h : Parsed a.bytes (items ++ [x])) :
    a.pop = some (some x.1, ⟨(items.map Prod.snd).flatten⟩) := by
  have hlen : a.bytes.length - x.2.length = (items.map Prod.snd).flatten.length := by
    rw [h.bytes_concat, List.length_append]
    omega
  have htake : a.bytes.take (a.bytes.length - x.2.length) = (items.map Prod.snd).flatten := by
    rw [hlen, h.bytes_concat, List.take_left]
  rw [pop, if_neg h.concat_ne_nil, lastComponent_of_parsed h, ← htake]
  rfl

theorem replaceLoop_step {index i : Nat} {fn : Option (Protocol → Option Protocol)}
    {replaced : Bool} {address : Multiaddr} (h : it.next = some (some (p, it'))) :
    replaceLoop index i fn replaced address it =
      if i = index then
        match fn with
        | none => none
        | some f =>
          match f p with
          | some q => replaceLoop index (i + 1) none true (address.with_ q) it'
          | none => some none
      else replaceLoop index (i + 1) fn replaced (address.with_ p) it' := by
  rw [replaceLoop]
  split
  case h_1 hnext | h_2 hnext =>
    rw [h] at hnext
    cases hnext
  case h_3 hnext =>
    rw [h] at hnext
    cases hnext
    rfl

theorem replaceLoop_after {index i : Nat} (hi : index < i)
    (fn : Option (Protocol → Option Protocol)) (replaced : Bool) (address : Multiaddr)
    (h : Parsed bs items) :
    replaceLoop index i fn replaced address ⟨bs⟩ =
      some (if replaced then
        some ⟨address.bytes ++ (items.map Prod.fst).flatMap Protocol.writeBytes⟩ else none) := by
  induction items generalizing i address bs with
  | nil =>
    have hbs : bs = [] := h.bytes_eq
    rw [hbs, replaceLoop, List.map_nil, List.flatMap_nil, List.append_nil]
    rfl
  | cons x items ih =>
    rw [replaceLoop_step (next_of_parsed h), if_neg (by omega), ih (by omega) _ h.tail,
      List.map_cons, List.flatMap_cons, ← List.append_assoc]
    rfl

theorem replaceLoop_before (n i : Nat) (f : Protocol → Option Protocol) (address : Multiaddr)
    (h : Parsed bs items) :
    replaceLoop (i + n) i (some f) false address ⟨bs⟩ = some (do
      let p ← (items.map Prod.fst)[n]?
      let q ← f p
      return ⟨address.bytes ++ ((items.map Prod.fst).set n q).flatMap Protocol.writeBytes⟩) := by
  induction items generalizing n i address bs with
  | nil =>
    have hbs : bs = [] := h.bytes_eq
    rw [hbs, replaceLoop]
    rfl
  | cons x items ih =>
    rw [replaceLoop_step (next_of_parsed h)]
    cases n with
    | zero =>
      cases hf : f x.1 with
      | none => simp [hf]
      | some q =>
        have hafter := replaceLoop_after (by omega : i + 0 < i + 1) none true (address.with_ q)
          h.tail
        simp only [hf]
        rw [hafter]
        simp [hf, with_]
    | succ n =>
      have hbefore := ih n (i + 1) (address.with_ x.1) h.tail
      rw [if_neg (by omega), show i + (n + 1) = i + 1 + n by omega, hbefore]
      simp [with_]

theorem replace_of_parsed (index : Nat) (f : Protocol → Option Protocol)
    (h : Parsed a.bytes items) :
    a.replace index f = some (do
      let p ← (items.map Prod.fst)[index]?
      let q ← f p
      return fromIter ((items.map Prod.fst).set index q)) := by
  have hloop := replaceLoop_before index 0 f empty h
  rw [Nat.zero_add] at hloop
  rw [replace, iter, hloop]
  simp [empty, fromIter, ← fromIter_bytes]

end Parsed

/-! ## Round trips -/

/-- Components come out of an address as they were put in. -/
theorem component_round_trips :
    (∀ (p : Protocol) (r : List UInt8), Protocol.fromBytes.run (p.writeBytes ++ r) = .ok (p, r)) ∧
      (∀ ps : List Protocol, (fromIter ps).iter.collect = some ps ∧
        tryFrom (fromIter ps).bytes = .ok (fromIter ps)) ∧
      ∀ (a : Multiaddr) (p : Protocol), tryFrom a.bytes = .ok a →
        (a.push p).pop = some (some p, a) := by
  refine ⟨Protocol.fromBytes_writeBytes, fun ps => ⟨?_, ?_⟩, fun a p ha => ?_⟩
  · have hitems : (ps.map fun p => (p, p.writeBytes)).map Prod.fst = ps := by
      rw [List.map_map]
      exact List.map_id ps
    rw [iter, collect_of_parsed (parsed_fromIter ps), hitems]
  · exact tryFrom_eq_ok_iff.mpr ⟨rfl, _, parsed_fromIter ps⟩
  · obtain ⟨-, items, hitems⟩ := tryFrom_eq_ok_iff.mp ha
    rw [pop_of_parsed (parsed_push hitems p), ← hitems.bytes_eq]

/-- Popping `/tcp/1` from `/quic/tcp/1`. -/
theorem push_pop_sample :
    tryFrom (ofProtocol .quic).bytes = .ok (ofProtocol .quic) ∧
      ((ofProtocol .quic).push (.tcp 1)).pop = some (some (.tcp 1), ofProtocol .quic) := by
  have hquic : tryFrom (ofProtocol .quic).bytes = .ok (ofProtocol .quic) :=
    tryFrom_eq_ok_iff.mpr ⟨rfl, _, Parsed.writeBytes .quic⟩
  exact ⟨hquic, component_round_trips.2.2 (ofProtocol .quic) (.tcp 1) hquic⟩

def reencode (a : Multiaddr) : Option Multiaddr := fromIter <$> a.iter.collect

def ImplicitRoot (v : List UInt8) : Prop :=
  ∀ c ∈ componentBytes v,
    c ≠ Protocol.explicitRoot WS_WITH_PATH ∧ c ≠ Protocol.explicitRoot WSS_WITH_PATH

section Reencode

variable {a b : Multiaddr} {v w : List UInt8} {items : List (Protocol × List UInt8)}

theorem reencode_of_parsed (h : Parsed a.bytes items) :
    a.reencode = some (fromIter (items.map Prod.fst)) := by
  rw [reencode, iter, collect_of_parsed h]
  rfl

theorem implicitRoot_iff (h : Parsed v items) :
    ImplicitRoot v ↔ ∀ x ∈ items, x.1.writeBytes = x.2 := by
  rw [ImplicitRoot, h.componentBytes_eq]
  constructor
  · intro himplicit x hx
    exact (h.encodes x hx).eq_writeBytes_iff.mpr (himplicit x.2 (List.mem_map_of_mem hx))
  · intro hwritten c hc
    obtain ⟨x, hx, rfl⟩ := List.mem_map.mp hc
    exact (h.encodes x hx).eq_writeBytes_iff.mp (hwritten x hx)

theorem fromIter_eq_iff (h : Parsed a.bytes items) :
    fromIter (items.map Prod.fst) = a ↔ ∀ x ∈ items, x.1.writeBytes = x.2 := by
  have hwritten := parsed_fromIter (items.map Prod.fst)
  rw [List.map_map] at hwritten
  constructor
  · intro heq x hx
    rw [heq] at hwritten
    -- there is only one way to read the bytes
    have hitems := (hwritten.unique h).trans (List.map_id items).symm
    exact congrArg Prod.snd (List.map_inj_left.mp hitems x hx)
  · intro hall
    have hbytes : (fromIter (items.map Prod.fst)).bytes = a.bytes := by
      rw [fromIter_bytes, h.bytes_eq, List.flatMap_def, List.map_map]
      exact congrArg List.flatten (List.map_congr_left hall)
    exact congrArg Multiaddr.mk hbytes

end Reencode

/-- An accepted address is in the form of the writer exactly when no component spells out the path
`/`. Such addresses are equal when their components are. -/
theorem reencode_iff_implicitRoot (v : List UInt8) (a : Multiaddr) (ha : tryFrom v = .ok a) :
    (a.reencode = some ⟨v⟩ ↔ ImplicitRoot v) ∧
    (∀ (w : List UInt8) (b : Multiaddr), tryFrom w = .ok b → ImplicitRoot v → ImplicitRoot w →
      (a = b ↔ a.iter.collect = b.iter.collect)) ∧
    (¬ ImplicitRoot v →
      ∃ b, b ≠ a ∧ tryFrom b.bytes = .ok b ∧ b.iter.collect = a.iter.collect) := by
  refine ⟨?_, fun w b hb hv hw => ⟨fun hab => by rw [hab], fun hab => ?_⟩, fun hv => ?_⟩
  · obtain ⟨rfl, items, hitems⟩ := tryFrom_eq_ok_iff.mp ha
    rw [reencode_of_parsed hitems, Option.some_inj, implicitRoot_iff hitems]
    exact fromIter_eq_iff hitems
  · obtain ⟨rfl, items, hitems⟩ := tryFrom_eq_ok_iff.mp ha
    obtain ⟨rfl, items', hitems'⟩ := tryFrom_eq_ok_iff.mp hb
    rw [iter, iter, collect_of_parsed hitems, collect_of_parsed hitems', Option.some_inj] at hab
    calc a = fromIter (items.map Prod.fst) :=
          ((fromIter_eq_iff hitems).mpr ((implicitRoot_iff hitems).mp hv)).symm
      _ = fromIter (items'.map Prod.fst) := by rw [hab]
      _ = b := (fromIter_eq_iff hitems').mpr ((implicitRoot_iff hitems').mp hw)
  · obtain ⟨rfl, items, hitems⟩ := tryFrom_eq_ok_iff.mp ha
    have hwritten := parsed_fromIter (items.map Prod.fst)
    refine ⟨fromIter (items.map Prod.fst), ?_, tryFrom_eq_ok_iff.mpr ⟨rfl, _, hwritten⟩, ?_⟩
    · rwa [Ne, fromIter_eq_iff hitems, ← implicitRoot_iff hitems]
    · rw [iter, iter, collect_of_parsed hwritten, collect_of_parsed hitems, List.map_map]
      exact congrArg some (List.map_id _)

/-- A WebSocket component under the code with a path, and the path `/`. -/
def sampleExplicit : Multiaddr := ⟨[0xa2, 0x25, 0x01, 0x2f]⟩

def sampleImplicit : Multiaddr := ⟨[0xdd, 0x03]⟩

theorem parsed_sampleExplicit :
    Parsed sampleExplicit.bytes [(.ws .root, sampleExplicit.bytes)] :=
  ⟨rfl, fun x hx => by
    rw [List.mem_singleton.mp hx]
    exact .inr (.inl ⟨rfl, by decide⟩)⟩

theorem parsed_sampleImplicit :
    Parsed sampleImplicit.bytes [(.ws .root, sampleImplicit.bytes)] :=
  ⟨rfl, fun x hx => by
    rw [List.mem_singleton.mp hx]
    exact .inl (by decide)⟩

/-- Both are accepted, and both are the component `Ws("/")`. -/
theorem sampleExplicit_reencodes_as_implicit :
    tryFrom sampleExplicit.bytes = .ok sampleExplicit ∧
      tryFrom sampleImplicit.bytes = .ok sampleImplicit ∧
      sampleExplicit.reencode = some sampleImplicit ∧ sampleExplicit ≠ sampleImplicit ∧
      sampleExplicit.iter.collect = sampleImplicit.iter.collect := by
  refine ⟨tryFrom_eq_ok_iff.mpr ⟨rfl, _, parsed_sampleExplicit⟩,
    tryFrom_eq_ok_iff.mpr ⟨rfl, _, parsed_sampleImplicit⟩, ?_, by decide, ?_⟩
  · rw [reencode_of_parsed parsed_sampleExplicit]
    decide
  · rw [iter, iter, collect_of_parsed parsed_sampleExplicit,
      collect_of_parsed parsed_sampleImplicit]
    rfl

theorem sampleImplicit_canonical :
    ImplicitRoot sampleImplicit.bytes ∧ sampleImplicit.reencode = some sampleImplicit := by
  have himplicit : ImplicitRoot sampleImplicit.bytes := by
    rw [implicitRoot_iff parsed_sampleImplicit]
    intro x hx
    rw [List.mem_singleton.mp hx]
    decide
  exact ⟨himplicit, (reencode_iff_implicitRoot sampleImplicit.bytes sampleImplicit
    (tryFrom_eq_ok_iff.mpr ⟨rfl, _, parsed_sampleImplicit⟩)).1.mpr himplicit⟩

end Libp2pRs.Core.Multiaddr
