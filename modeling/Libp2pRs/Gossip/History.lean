import Libp2pRs.Gossip.Caches
import Libp2pRs.Lib.AgedMap

/-!
# The message cache as a map with ages

`MessageCache` keeps the messages in a map and the ids, slot by slot, in a sliding history. What
it is for is a map from an id to a message and its age, `AgedMap`. `remove` leaves the entry of the
history behind: an id that is put again while its old entry is still there stands in two slots.
Without such a put, and without a put that gives a cached id another topic, the cache is that map.
-/

namespace Libp2pRs.Gossip

open Lib Libp2pRs.Core Std List AgedMap

namespace MessageCache

inductive Op where
  | put (id : MessageId) (msg : RawGossipsubMessage)
  | validate (id : MessageId)
  | remove (id : MessageId)
  | shift
  | getWithIwantCounts (id : MessageId) (peer : PeerId)

def apply (c : MessageCache) : Op → Option MessageCache
  | .put id msg => c.put id msg
  | .validate id => some (c.validate id).2
  | .remove id => some (c.remove id).2
  | .shift => c.shift
  | .getWithIwantCounts id peer => (c.getWithIwantCounts id peer).map Prod.snd

def perform (c : Option MessageCache) (op : Op) : Option MessageCache := c.bind (·.apply op)

def after (gossip capacity : Nat) (ops : List Op) : Option MessageCache :=
  run perform (some (new gossip capacity)) ops

def Op.aged : Op → AgedMap.Op MessageId RawGossipsubMessage
  | .put id msg => .put id msg
  | .validate id => .modify id (fun msg => { msg with validated := true })
  | .remove id => .remove id
  | .shift => .shift
  | .getWithIwantCounts _ _ => .read

/-- A put replaces a message by one of the same topic, or its id is nowhere in the history; the
count of a request fits in 32 bits. -/
def Plain (c : MessageCache) : Op → Prop
  | .put id msg =>
    (∀ old ∈ c.msgs[id]?, old.topic = msg.topic) ∧
      (c.msgs[id]? = none → ∀ e ∈ c.history.flatten, e.mid ≠ id)
  | .getWithIwantCounts id peer => (c.iwantCounts[id]?.getD ∅)[peer]?.getD 0 + 1 < 2 ^ 32
  | _ => True

instance (c : MessageCache) : (op : Op) → Decidable (c.Plain op)
  | .put _ _ => inferInstanceAs (Decidable (_ ∧ _))
  | .getWithIwantCounts _ _ => inferInstanceAs (Decidable (_ < _))
  | .validate _ | .remove _ | .shift => .isTrue trivial

/-- The cache is the map: the same messages, each with one entry, in the slot of its age. -/
structure Represents (capacity : Nat) (c : MessageCache)
    (m : AgedMap MessageId RawGossipsubMessage) : Prop where
  msgs : ∀ id, c.msgs[id]? = (m id).map Prod.fst
  entry : ∀ id msg n, m id = some (msg, n) →
    ∃ slot, c.history[n]? = some slot ∧ ⟨id, msg.topic⟩ ∈ slot
  nodup : (c.history.flatten.map CacheEntry.mid).Nodup
  length : c.history.length = capacity

theorem entry_unique {history : List (List CacheEntry)}
    (hnd : (history.flatten.map CacheEntry.mid).Nodup) {i j : Nat} (hi : history[i]? = some s)
    (hj : history[j]? = some s') (he : e ∈ s)
    (he' : e' ∈ s') (hmid : e.mid = e'.mid) : i = j ∧ e = e' := by
  have hmem : ∀ {k t f}, history[k]? = some t → f ∈ t → f ∈ history.flatten :=
    fun hk hf => mem_flatten.mpr ⟨_, mem_of_getElem? hk, hf⟩
  obtain rfl : e = e' := inj_on_of_nodup_map hnd (hmem hi he) (hmem hj he') hmid
  refine ⟨?_, rfl⟩
  have hflat : history.flatten.Nodup := List.Nodup.of_map _ hnd
  have hpw := (nodup_flatten.mp hflat).2
  obtain ⟨hilt, rfl⟩ := List.getElem?_eq_some_iff.mp hi
  obtain ⟨hjlt, rfl⟩ := List.getElem?_eq_some_iff.mp hj
  rcases Nat.lt_trichotomy i j with hlt | heq | hlt
  · exact absurd he' (pairwise_iff_getElem.mp hpw i j hilt hjlt hlt he)
  · exact heq
  · exact absurd he (pairwise_iff_getElem.mp hpw j i hjlt hilt hlt he')

theorem represents_new (gossip capacity : Nat) :
    Represents capacity (new gossip capacity) (fun _ => none) where
  msgs id := by simp [new]
  entry id msg n h := by cases h
  nodup := by simp [new]
  length := by simp [new]

section Steps

variable {capacity : Nat} {c : MessageCache} {m : AgedMap MessageId RawGossipsubMessage}

theorem represents_put (h : Represents capacity c m) (hcap : 0 < capacity) {id : MessageId}
    (hplain : c.Plain (.put id msg)) :
    ∃ c', c.put id msg = some c' ∧ c'.gossip = c.gossip ∧
      Represents capacity c' (step capacity m (.put id msg)) := by
  have hmsgs : ∀ a, (c.msgs.insert id msg)[a]? =
      (step capacity m (.put id msg) a).map Prod.fst := by
    intro a
    rw [get_insert, h.msgs]
    by_cases ha : id = a
    · simp [step, ha]
    · simp [step, ha, Function.update_of_ne (Ne.symm ha)]
  cases hold : m id with
  | some e =>
    -- the id is cached: its entry stays, with the topic that the message still has
    have hin : c.msgs[id]? = some e.1 := by rw [h.msgs, hold]; rfl
    have hcontains : c.msgs.contains id = true := by
      rw [TreeMap.contains_eq_isSome_getElem?, hin]
      rfl
    refine ⟨{ c with msgs := c.msgs.insert id msg }, by simp [put, hcontains], rfl, hmsgs, ?_,
      h.nodup, h.length⟩
    intro a msg' n ha
    by_cases hid : a = id
    · subst hid
      obtain ⟨rfl, rfl⟩ : msg = msg' ∧ e.2 = n := by simpa [step, hold] using ha
      rw [← hplain.1 e.1 hin]
      exact h.entry a e.1 e.2 hold
    · exact h.entry a msg' n (by simpa [step, Function.update_of_ne hid] using ha)
  | none =>
    have hout : c.msgs[id]? = none := by rw [h.msgs, hold]; rfl
    have hcontains : c.msgs.contains id = false := by
      rw [TreeMap.contains_eq_isSome_getElem?, hout]
      rfl
    obtain ⟨slot, slots, hhist⟩ : ∃ slot slots, c.history = slot :: slots :=
      exists_cons_of_length_pos (h.length ▸ hcap)
    refine ⟨{ c with msgs := c.msgs.insert id msg, history := (slot ++ [⟨id, msg.topic⟩]) :: slots },
      by simp [put, hcontains, hhist], rfl, hmsgs, ?_, ?_, ?_⟩
    · intro a msg' n ha
      by_cases hid : a = id
      · subst hid
        obtain ⟨rfl, rfl⟩ : msg = msg' ∧ 0 = n := by simpa [step, hold] using ha
        exact ⟨_, rfl, by simp⟩
      · obtain ⟨s, hs, hmem⟩ :=
          h.entry a msg' n (by simpa [step, Function.update_of_ne hid] using ha)
        rw [hhist] at hs
        cases n with
        | zero =>
          obtain rfl : slot = s := by simpa using hs
          exact ⟨_, rfl, mem_append_left _ hmem⟩
        | succ n => exact ⟨s, by simpa using hs, hmem⟩
    · have hfresh := hplain.2 hout
      have hnd := h.nodup
      rw [hhist] at hfresh hnd
      have hperm : List.Perm ((slot ++ [⟨id, msg.topic⟩]) :: slots).flatten
          (⟨id, msg.topic⟩ :: (slot :: slots).flatten) := by
        rw [flatten_cons, flatten_cons, append_assoc]
        exact perm_middle
      rw [(hperm.map CacheEntry.mid).nodup_iff, map_cons, nodup_cons]
      refine ⟨fun hmem => ?_, hnd⟩
      obtain ⟨e, he, heq⟩ := mem_map.mp hmem
      exact hfresh e he heq
    · rw [← h.length, hhist]
      rfl

theorem represents_validate (h : Represents capacity c m) (id : MessageId) :
    Represents capacity (c.validate id).2
      (step capacity m (.modify id (fun msg => { msg with validated := true }))) := by
  cases hold : m id with
  | none =>
    have hout : c.msgs[id]? = none := by rw [h.msgs, hold]; rfl
    have hsame : step capacity m
        (.modify id (fun msg => { msg with validated := true })) = m := by
      simp [step, hold]
    rw [hsame, validate, hout]
    exact h
  | some e =>
    have hin : c.msgs[id]? = some e.1 := by rw [h.msgs, hold]; rfl
    rw [validate, hin]
    refine ⟨fun a => ?_, fun a msg n ha => ?_, h.nodup, h.length⟩
    · simp only [get_insert, step]
      by_cases ha : id = a
      · subst ha
        simp [hold]
      · simp [ha, Function.update_of_ne (Ne.symm ha), h.msgs]
    · by_cases hid : a = id
      · subst hid
        obtain ⟨rfl, rfl⟩ : { e.1 with validated := true } = msg ∧ e.2 = n := by
          simpa [step, hold] using ha
        exact h.entry a e.1 e.2 hold
      · exact h.entry a msg n (by simpa [step, Function.update_of_ne hid] using ha)

theorem represents_remove (h : Represents capacity c m) (id : MessageId) :
    Represents capacity (c.remove id).2 (step capacity m (.remove id)) := by
  refine ⟨fun a => ?_, fun a msg n ha => ?_, h.nodup, h.length⟩
  · simp only [remove, get_erase, step]
    by_cases ha : id = a
    · simp [ha]
    · simp [ha, Function.update_of_ne (Ne.symm ha), h.msgs]
  · by_cases hid : a = id
    · simp [step, hid] at ha
    · exact h.entry a msg n (by simpa [step, Function.update_of_ne hid] using ha)

theorem get_foldl_erase {β : Type} (slot : List CacheEntry) (t : TreeMap MessageId β)
    (id : MessageId) :
    (slot.foldl (fun t e => t.erase e.mid) t)[id]? =
      if id ∈ slot.map CacheEntry.mid then none else t[id]? := by
  induction slot generalizing t with
  | nil => simp
  | cons e slot ih =>
    rw [foldl_cons, ih, get_erase]
    by_cases he : e.mid = id
    · simp [he]
    · simp [he, Ne.symm he]

theorem shift_concat {slots : List (List CacheEntry)} {last : List CacheEntry}
    (hhist : c.history = slots ++ [last]) :
    c.shift = some { c with
      msgs := last.foldl (fun t e => t.erase e.mid) c.msgs
      iwantCounts := last.foldl (fun t e => t.erase e.mid) c.iwantCounts
      history := [] :: slots } := by
  simp [shift, hhist]

theorem represents_shift (h : Represents capacity c m) (hcap : 0 < capacity) :
    ∃ c', c.shift = some c' ∧ c'.gossip = c.gossip ∧
      Represents capacity c' (step capacity m .shift) := by
  obtain ⟨slots, last, hhist⟩ : ∃ slots last, c.history = slots ++ [last] :=
    ⟨_, _, (dropLast_append_getLast (ne_nil_of_length_pos (h.length ▸ hcap))).symm⟩
  have hlen : slots.length + 1 = capacity := by simpa [hhist] using h.length
  have hlast : c.history[slots.length]? = some last := by simp [hhist]
  -- the messages of the last slot are those of the greatest age
  have hage : ∀ id msg n, m id = some (msg, n) →
      (n + 1 < capacity ↔ id ∉ last.map CacheEntry.mid) := by
    intro id msg n hid
    obtain ⟨s, hs, hmem⟩ := h.entry id msg n hid
    have hlt : n < capacity := h.length ▸ (List.getElem?_eq_some_iff.mp hs).1
    constructor
    · intro hn hin
      obtain ⟨e, he, heq⟩ := mem_map.mp hin
      have := (entry_unique h.nodup hs hlast hmem he heq.symm).1
      omega
    · intro hnot
      by_contra hn
      obtain rfl : n = slots.length := by omega
      obtain rfl : last = s := by simpa [hlast] using hs
      exact hnot (mem_map.mpr ⟨_, hmem, rfl⟩)
  refine ⟨_, shift_concat hhist, rfl, fun id => ?_, fun id msg n hid => ?_, ?_, hlen⟩
  · rw [get_foldl_erase, h.msgs]
    cases hid : m id with
    | none => simp [step, hid]
    | some e =>
      have := hage id e.1 e.2 hid
      by_cases hn : e.2 + 1 < capacity
      · simp [step, hid, hn, this.mp hn]
      · simp only [step, hid, Option.bind_some, hn, if_false, Option.map_none]
        rw [if_pos (not_not.mp (fun hc => hn (this.mpr hc)))]
  · obtain ⟨e, he, hif⟩ := Option.bind_eq_some_iff.mp hid
    obtain ⟨hlt, heq⟩ := Option.ite_none_right_eq_some.mp hif
    obtain ⟨rfl, rfl⟩ : e.1 = msg ∧ e.2 + 1 = n := by simpa using heq
    obtain ⟨s, hs, hmem⟩ := h.entry id e.1 e.2 he
    refine ⟨s, ?_, hmem⟩
    rw [hhist, getElem?_append_left (by omega)] at hs
    exact hs
  · have hsub : (([] :: slots).flatten).Sublist c.history.flatten := by
      rw [hhist, flatten_cons, nil_append, flatten_append]
      exact sublist_append_left _ _
    exact h.nodup.sublist (hsub.map CacheEntry.mid)

theorem represents_getWithIwantCounts (h : Represents capacity c m) {id : MessageId}
    (hplain : c.Plain (.getWithIwantCounts id peer)) :
    ∃ c', (c.getWithIwantCounts id peer).map Prod.snd = some c' ∧ c'.gossip = c.gossip ∧
      Represents capacity c' m := by
  have hcount : ¬ 2 ^ 32 ≤ (c.iwantCounts[id]?.getD ∅)[peer]?.getD 0 + 1 :=
    Nat.not_le.mpr hplain
  unfold getWithIwantCounts
  cases c.msgs[id]? with
  | none => exact ⟨c, rfl, rfl, h⟩
  | some msg =>
    by_cases hv : msg.validated = true
    · simp only [hv, if_true, if_neg hcount]
      exact ⟨_, rfl, rfl, h.msgs, h.entry, h.nodup, h.length⟩
    · simp only [hv, Bool.false_eq_true, if_false]
      exact ⟨c, rfl, rfl, h⟩

theorem represents_apply (h : Represents capacity c m) (hcap : 0 < capacity) {op : Op}
    (hplain : c.Plain op) :
    ∃ c', c.apply op = some c' ∧ c'.gossip = c.gossip ∧
      Represents capacity c' (step capacity m op.aged) := by
  cases op with
  | put id msg => exact represents_put h hcap hplain
  | validate id =>
    refine ⟨_, rfl, ?_, represents_validate h id⟩
    unfold validate
    split <;> rfl
  | remove id => exact ⟨_, rfl, rfl, represents_remove h id⟩
  | shift => exact represents_shift h hcap
  | getWithIwantCounts id peer => exact represents_getWithIwantCounts h hplain

theorem getGossipMessageIds_of_represents (h : Represents capacity c m)
    (hgossip : c.gossip ≤ capacity) (t : TopicHash) :
    ∃ ids, c.getGossipMessageIds t = some ids ∧ ids.Nodup ∧
      ∀ id, id ∈ ids ↔ ∃ msg n, m id = some (msg, n) ∧ msg.validated = true ∧ msg.topic = t ∧
        n < c.gossip := by
  have hlen : ¬ c.history.length < c.gossip := by
    rw [h.length]
    omega
  refine ⟨_, if_neg hlen, ?_, fun id => ?_⟩
  · refine h.nodup.sublist (List.Sublist.map _ (filter_sublist.trans ?_))
    exact (take_sublist _ _).flatten
  · simp only [mem_map, mem_filter, mem_flatten, decide_eq_true_eq]
    constructor
    · rintro ⟨e, ⟨⟨s, hs, he⟩, rfl, hval⟩, rfl⟩
      obtain ⟨i, hilt, hi⟩ := mem_take_iff_getElem.mp hs
      obtain ⟨msg, hmsg, hv⟩ := Option.map_eq_some_iff.mp hval
      rw [h.msgs] at hmsg
      obtain ⟨⟨msg', n⟩, hm, rfl⟩ := Option.map_eq_some_iff.mp hmsg
      obtain ⟨s', hs', he'⟩ := h.entry e.mid msg' n hm
      have hget : c.history[i]? = some s := by
        rw [← hi]
        exact getElem?_eq_getElem (by omega)
      obtain ⟨rfl, heq⟩ := entry_unique h.nodup hget hs' he he' rfl
      refine ⟨msg', i, hm, hv, ?_, by omega⟩
      rw [heq]
    · rintro ⟨msg, n, hm, hv, rfl, hn⟩
      obtain ⟨s, hs, hmem⟩ := h.entry id msg n hm
      refine ⟨⟨id, msg.topic⟩, ⟨⟨s, ?_, hmem⟩, rfl, ?_⟩, rfl⟩
      · exact mem_of_getElem? (by rw [getElem?_take_of_lt hn]; exact hs)
      · rw [h.msgs, hm]
        simpa using hv

end Steps

theorem represents_after {gossip capacity : Nat} (hcap : 0 < capacity)
    (hplain : EachStep perform (fun c op => ∀ c' ∈ c, c'.Plain op)
      (some (new gossip capacity)) ops) :
    ∃ c, after gossip capacity ops = some c ∧ c.gossip = gossip ∧
      Represents capacity c (AgedMap.after capacity (ops.map Op.aged)) := by
  induction ops using reverseRecOn with
  | nil => exact ⟨_, rfl, rfl, represents_new gossip capacity⟩
  | append_singleton ops op ih =>
    obtain ⟨hpre, hlast⟩ := eachStep_append.mp hplain
    obtain ⟨c, hc, hgossip, hrep⟩ := ih hpre
    obtain ⟨c', hc', hg', hrep'⟩ := represents_apply hrep hcap (hlast.1 c hc)
    refine ⟨c', ?_, hg'.trans hgossip, ?_⟩
    · rw [after, run_append, show run perform _ ops = some c from hc]
      exact hc'
    · rw [map_append, map_singleton, after_concat]
      exact hrep'

/-- Over every sequence of plain operations on a new cache. An id is retrievable exactly when it
was put while absent, fewer than `capacity` shifts ago, and not removed since; the gossiped ids of
a topic are, each once, those of its retrievable validated messages put fewer than `gossip` shifts
ago. -/
theorem after_refines_aged {gossip capacity : Nat} (hpos : 1 ≤ gossip) (hle : gossip ≤ capacity)
    {ops : List Op}
    (hplain : EachStep perform (fun c op => ∀ c' ∈ c, c'.Plain op)
      (some (new gossip capacity)) ops) :
    ∃ c, after gossip capacity ops = some c ∧
      (∀ id, c.msgs[id]? = (AgedMap.after capacity (ops.map Op.aged) id).map Prod.fst) ∧
      (∀ id, id ∈ c.msgs ↔
        ∃ n, AgedMap.PutAgo capacity id n (ops.map Op.aged) ∧ n < capacity) ∧
      ∀ t, ∃ ids, c.getGossipMessageIds t = some ids ∧ ids.Nodup ∧
        ∀ id, id ∈ ids ↔ ∃ msg, c.msgs[id]? = some msg ∧ msg.validated = true ∧
          msg.topic = t ∧ ∃ n, AgedMap.PutAgo capacity id n (ops.map Op.aged) ∧ n < gossip := by
  have hcap : 0 < capacity := by omega
  obtain ⟨c, hc, hg, hrep⟩ := represents_after hcap hplain
  have hpresent := present_iff hcap (ops.map Op.aged)
  refine ⟨c, hc, hrep.msgs, fun id => ?_, fun t => ?_⟩
  · simp only [← hpresent]
    rw [TreeMap.mem_iff_isSome_getElem?, hrep.msgs, Option.isSome_map, Option.isSome_iff_exists]
    constructor
    · rintro ⟨⟨msg, n⟩, he⟩
      exact ⟨n, msg, he⟩
    · rintro ⟨n, msg, he⟩
      exact ⟨(msg, n), he⟩
  · obtain ⟨ids, hids, hnd, hmem⟩ := getGossipMessageIds_of_represents hrep (hg ▸ hle) t
    refine ⟨ids, hids, hnd, fun id => ?_⟩
    rw [hmem, hg]
    constructor
    · rintro ⟨msg, n, he, hv, ht, hn⟩
      refine ⟨msg, by rw [hrep.msgs, he]; rfl, hv, ht, n, ?_, hn⟩
      exact ((hpresent id n).mp ⟨msg, he⟩).1
    · rintro ⟨msg, hmsg, hv, ht, n, hago, hn⟩
      obtain ⟨msg', he⟩ := (hpresent id n).mpr ⟨hago, by omega⟩
      obtain rfl : msg' = msg := by simpa [hrep.msgs, he] using hmsg
      exact ⟨msg', n, he, hv, ht, hn⟩

def cachedMessage : RawGossipsubMessage where
  source := none
  data := []
  sequenceNumber := none
  topic := ⟨[0]⟩
  signature := none
  key := none
  validated := true

/-- A message that is put again once the history has let go of it. -/
def putAgain : List Op :=
  [.put ⟨[1]⟩ cachedMessage, .remove ⟨[1]⟩, .shift, .shift, .put ⟨[1]⟩ cachedMessage,
    .validate ⟨[1]⟩, .getWithIwantCounts ⟨[1]⟩ (PeerId.ofByte 1)]

theorem putAgain_refines_aged :
    ∃ c, after 1 2 putAgain = some c ∧ ∀ id, id ∈ c.msgs ↔
      ∃ n, AgedMap.PutAgo 2 id n (putAgain.map Op.aged) ∧ n < 2 := by
  have hplain : EachStep perform (fun c op => ∀ c' ∈ c, c'.Plain op) (some (new 1 2)) putAgain := by
    decide +kernel
  obtain ⟨c, hc, -, hmem, -⟩ := after_refines_aged (by omega) (by omega) hplain
  exact ⟨c, hc, hmem⟩

/-- A message that is removed after a shift and put again. -/
def putRemoved : List Op :=
  [.put ⟨[1]⟩ cachedMessage, .shift, .remove ⟨[1]⟩, .put ⟨[1]⟩ cachedMessage]

/-- The id stands in two slots and is gossiped twice. In a cache of three slots the older entry
drops the message two shifts after it was put. -/
theorem putRemoved_diverges :
    (after 2 3 putRemoved).bind (·.getGossipMessageIds ⟨[0]⟩) = some [⟨[1]⟩, ⟨[1]⟩] ∧
      (after 2 3 (putRemoved ++ [.shift, .shift])).map (·.msgs.contains ⟨[1]⟩) = some false ∧
      AgedMap.PutAgo 3 ⟨[1]⟩ 2 ((putRemoved ++ [Op.shift, Op.shift]).map Op.aged) := by
  refine ⟨by decide +kernel, by decide +kernel, ?_⟩
  exact ⟨[.put ⟨[1]⟩ cachedMessage, .shift, .remove ⟨[1]⟩], cachedMessage, [.shift, .shift], rfl,
    rfl, rfl, by simp⟩

end MessageCache

end Libp2pRs.Gossip
