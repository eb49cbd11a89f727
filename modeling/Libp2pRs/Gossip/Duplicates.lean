import Libp2pRs.Gossip.Relay

/-!
# Every message is handed on once

A message is handed to the local subscription only when its id is entered into the duplicate cache,
and publishing a message enters its id as well. The cache forgets an id after
`duplicate_cache_time`, and not before: an entry is removed only when its own expiration has passed,
in whatever order the list of keys is. The cache of fast ids only decides that a message is not
looked at again, so nothing depends on the function for the fast ids.
-/

namespace Libp2pRs.Gossip

open Lib Libp2pRs.Core Std List DuplicateCache

/-! ## The caches -/

namespace TimeCache

variable [Ord K] {c : TimeCache K V} {now now' t : Instant} {key : K}

/-- The key was entered at the time `t`. It is still there, unless its time has passed. -/
def Keeps (c : TimeCache K V) (now : Instant) (key : K) (t : Instant) : Prop :=
  t + c.ttl ≤ now ∨ ∃ v, c.map[key]? = some v ∧ t + c.ttl ≤ v.expires

theorem Keeps.later (h : c.Keeps now key t) (hnow : now ≤ now') : c.Keeps now' key t :=
  h.imp_left (fun hpassed => hpassed.trans hnow)

variable [TransOrd K] [LawfulEqOrd K] [DecidableEq K]

theorem get_removeExpiredKeysAux (now : Instant) (map : TreeMap K (ExpiringElement V))
    (list : List (ExpiringElement K)) (key : K) :
    (removeExpiredKeysAux now map list).1[key]? = map[key]? ∨
      (removeExpiredKeysAux now map list).1[key]? = none ∧
        ∃ v, map[key]? = some v ∧ v.expires ≤ now := by
  fun_induction removeExpiredKeysAux now map list with
  | case1 map | case2 map e list hexpires => exact .inl rfl
  | case3 map e list hexpires v hget hpassed ih =>
    rw [get_erase] at ih
    by_cases hkey : e.element = key
    · subst hkey
      rw [if_pos rfl] at ih
      refine .inr ⟨?_, v, hget, hpassed⟩
      rcases ih with ih | ⟨ih, -⟩ <;> exact ih
    · rw [if_neg hkey] at ih
      exact ih
  | case4 map e list hexpires v hget hlater ih | case5 map e list hexpires hget ih => exact ih

theorem Keeps.removeExpiredKeys (h : c.Keeps now key t) :
    (c.removeExpiredKeys now).Keeps now key t := by
  rcases h with hpassed | ⟨v, hget, hexpires⟩
  · exact .inl hpassed
  · rcases get_removeExpiredKeysAux now c.map c.list key with hsame | ⟨-, w, hw, hpassed⟩
    · exact .inr ⟨v, hsame.trans hget, hexpires⟩
    · rw [hget] at hw
      cases hw
      exact .inl (hexpires.trans hpassed)

end TimeCache

namespace DuplicateCache

variable [Ord K] {c c' : DuplicateCache K} {now t : Instant} {key k : K} {fresh : Bool}

theorem insert_eq_some (h : insert c now key = some (fresh, c')) :
    if fresh then (c.removeExpiredKeys now).map[key]? = none ∧
      c' = TimeCache.insert (c.removeExpiredKeys now) key (now + c.ttl) ()
    else c' = c.removeExpiredKeys now ∧ ∃ v, (c.removeExpiredKeys now).map[key]? = some v := by
  obtain ⟨r, hentry, h⟩ := Option.bind_eq_some_iff.mp h
  obtain ⟨expiration, hadd, hentry⟩ := Option.bind_eq_some_iff.mp hentry
  have hexpiration : expiration = now + c.ttl := by
    unfold Instant.checkedAdd at hadd
    split at hadd
    · exact (Option.some.inj hadd).symm
    · cases hadd
  cases hget : (c.removeExpiredKeys now).map[key]? with
  | none =>
    rw [hget] at hentry
    cases hentry
    cases h
    rw [if_pos rfl, hexpiration]
    exact ⟨rfl, rfl⟩
  | some v =>
    rw [hget] at hentry
    cases hentry
    cases h
    exact ⟨rfl, v, rfl⟩

theorem ttl_insert (h : insert c now key = some (fresh, c')) : c'.ttl = c.ttl := by
  have heq := insert_eq_some h
  cases fresh with
  | true =>
    rw [heq.2]
    rfl
  | false =>
    rw [heq.1]
    rfl

variable [TransOrd K]

theorem getElem?_of_not_contains (h : contains c key = false) : c.map[key]? = none := by
  change c.map.contains key = false at h
  rw [TreeMap.contains_eq_isSome_getElem?] at h
  exact Option.not_isSome_iff_eq_none.mp (Bool.eq_false_iff.mp h)

variable [LawfulEqOrd K] [DecidableEq K]

theorem keeps_insert (h : insert c now key = some (fresh, c')) (hk : c.Keeps now k t) :
    c'.Keeps now k t := by
  have heq := insert_eq_some h
  have hkeep := hk.removeExpiredKeys
  cases fresh with
  | false =>
    rw [heq.1]
    exact hkeep
  | true =>
    obtain ⟨hnone, rfl⟩ := heq
    rcases hkeep with hpassed | ⟨v, hget, hexpires⟩
    · exact .inl hpassed
    · refine .inr ⟨v, ?_, hexpires⟩
      have hne : key ≠ k := by
        rintro rfl
        rw [hnone] at hget
        cases hget
      change ((c.removeExpiredKeys now).map.insert key _)[k]? = some v
      rw [get_insert, if_neg hne]
      exact hget

theorem keeps_insert_self (h : insert c now key = some (true, c')) : c'.Keeps now key now := by
  obtain ⟨-, rfl⟩ := insert_eq_some h
  refine .inr ⟨⟨(), now + c.ttl⟩, ?_, Nat.le_refl _⟩
  change ((c.removeExpiredKeys now).map.insert key _)[key]? = _
  rw [get_insert, if_pos rfl]

theorem passed_of_insert (h : insert c now key = some (true, c')) (hk : c.Keeps now key t) :
    t + c.ttl ≤ now := by
  obtain ⟨hnone, -⟩ := insert_eq_some h
  rcases hk.removeExpiredKeys with hpassed | ⟨v, hget, -⟩
  · exact hpassed
  · rw [hnone] at hget
    cases hget

theorem fresh_of_not_contains (hnot : contains c key = false)
    (h : insert c now key = some (fresh, c')) : fresh = true := by
  cases fresh with
  | true => rfl
  | false =>
    obtain ⟨-, v, hget⟩ := insert_eq_some h
    have hnone := getElem?_of_not_contains hnot
    rcases TimeCache.get_removeExpiredKeysAux now c.map c.list key with hsame | ⟨hgone, -⟩
    · rw [← hsame] at hnone
      exact absurd (hnone.symm.trans hget) (by simp)
    · exact absurd (hgone.symm.trans hget) (by simp)

end DuplicateCache

/-! ## Deliveries -/

/-- What is kept of the seen messages and of the outputs, as a step at the time `now` with the grant
`g` may change it. -/
structure Lasting (g : Grant) (c : GossipsubConfig) (now : Instant)
    (J : DuplicateCache MessageId → List (Instant × Output) → Prop) : Prop where
  other : ∀ cache trace l, (∀ e ∈ l, ∀ channel message, e.2 ≠ Output.notify channel message) →
    J cache trace → J cache (trace ++ l)
  seen : ∀ cache cache' trace id fresh,
    DuplicateCache.insert cache now id = some (fresh, cache') → J cache trace → J cache' trace
  deliver : ∀ cache cache' trace channel message,
    DuplicateCache.insert cache now (c.messageIdFn message) = some (true, cache') →
    (∃ raw, g.receive (c.messageIdFn message) raw) →
    J cache trace → J cache' (trace ++ [(now, .notify channel message)])

namespace Tracked

variable {D : Type} {g : Grant} {c : GossipsubConfig} {now : Instant} {n n' : Tracked D}

theorem effect_of_lasting {J : DuplicateCache MessageId → List (Instant × Output) → Prop}
    (hJ : Lasting g c now J) (h : Effect g now n n') (hconfig : n.config = c)
    (hn : J n.duplicateCache n.trace) : J n'.duplicateCache n'.trace := by
  cases h with
  | @output o _ hpermit =>
    refine hJ.other _ _ _ (fun e he channel message heq => ?_) hn
    rw [mem_singleton.mp he] at heq
    cases heq
    exact hpermit
  | deliver _ hinsert hreceive =>
    subst hconfig
    exact hJ.deliver _ _ _ _ _ hinsert hreceive hn
  | seen hinsert => exact hJ.seen _ _ _ _ _ hinsert hn
  | upkeep _ hkey hsize hlinks =>
    refine hJ.other _ _ _ (fun e he channel message => ?_) hn
    obtain ⟨t, p, rfl⟩ := hlinks e he
    exact Output.noConfusion
  | _ => exact hn

end Tracked

/-- Two deliveries of a message are apart by the time for which the duplicate cache keeps it. -/
def Apart (c : GossipsubConfig) (e e' : Instant × Output) : Prop :=
  ∀ channel channel' message message', e.2 = .notify channel message →
    e'.2 = .notify channel' message' → c.messageIdFn message = c.messageIdFn message' →
      e.1 + c.duplicateCacheTime ≤ e'.1

/-- The deliveries are apart, and the cache keeps what has been delivered. -/
structure Remembers (c : GossipsubConfig) (now : Instant) (cache : DuplicateCache MessageId)
    (trace : List (Instant × Output)) : Prop where
  ttl : cache.ttl = c.duplicateCacheTime
  keeps : ∀ e ∈ trace, ∀ channel message, e.2 = .notify channel message →
    cache.Keeps now (c.messageIdFn message) e.1
  apart : trace.Pairwise (Apart c)

theorem lasting_remembers (g : Grant) (c : GossipsubConfig) (now : Instant) :
    Lasting g c now (Remembers c now) where
  other cache trace l hl hJ := by
    refine ⟨hJ.ttl, fun e he channel message heq => ?_, pairwise_append.mpr ⟨hJ.apart, ?_, ?_⟩⟩
    · rcases mem_append.mp he with he | he
      · exact hJ.keeps e he channel message heq
      · exact absurd heq (hl e he channel message)
    · refine pairwise_of_forall_mem_list (fun e he e' _ => ?_)
      exact fun channel _ message _ heq => absurd heq (hl e he channel message)
    · exact fun e _ e' he' _ channel _ message _ heq => absurd heq (hl e' he' channel message)
  seen cache cache' trace id fresh hinsert hJ :=
    ⟨(ttl_insert hinsert).trans hJ.ttl, fun e he channel message heq =>
        keeps_insert hinsert (hJ.keeps e he channel message heq), hJ.apart⟩
  deliver cache cache' trace channel message hinsert _ hJ := by
    refine ⟨(ttl_insert hinsert).trans hJ.ttl, fun e he channel' message' heq => ?_,
      pairwise_append.mpr ⟨hJ.apart, pairwise_singleton _ _, ?_⟩⟩
    · rcases mem_append.mp he with he | he
      · exact keeps_insert hinsert (hJ.keeps e he channel' message' heq)
      · rw [mem_singleton.mp he] at heq ⊢
        cases heq
        exact keeps_insert_self hinsert
    · intro e he e' he' channel' _ message' message'' heq heq' hid
      rw [mem_singleton.mp he'] at heq' ⊢
      cases heq'
      have hkeep := hJ.keeps e he channel' message' heq
      rw [hid] at hkeep
      have hpassed := passed_of_insert hinsert hkeep
      rw [hJ.ttl] at hpassed
      exact hpassed

/-- The message was entered at the time `t`, and it is delivered at no time close to that. -/
structure Marked (c : GossipsubConfig) (t : Instant) (id : MessageId) (now : Instant)
    (cache : DuplicateCache MessageId) (trace : List (Instant × Output)) : Prop where
  ttl : cache.ttl = c.duplicateCacheTime
  keeps : cache.Keeps now id t
  apart : ∀ e ∈ trace, ∀ channel message, e.2 = .notify channel message →
    c.messageIdFn message = id →
      e.1 + c.duplicateCacheTime ≤ t ∨ t + c.duplicateCacheTime ≤ e.1

theorem lasting_marked (g : Grant) (c : GossipsubConfig) (t : Instant) (id : MessageId)
    (now : Instant) : Lasting g c now (Marked c t id now) where
  other cache trace l hl hJ := by
    refine ⟨hJ.ttl, hJ.keeps, fun e he channel message heq => ?_⟩
    rcases mem_append.mp he with he | he
    · exact hJ.apart e he channel message heq
    · exact absurd heq (hl e he channel message)
  seen cache cache' trace id' fresh hinsert hJ :=
    ⟨(ttl_insert hinsert).trans hJ.ttl, keeps_insert hinsert hJ.keeps, hJ.apart⟩
  deliver cache cache' trace channel message hinsert _ hJ := by
    refine ⟨(ttl_insert hinsert).trans hJ.ttl,
      keeps_insert hinsert hJ.keeps, fun e he channel' message' heq hid => ?_⟩
    rcases mem_append.mp he with he | he
    · exact hJ.apart e he channel' message' heq hid
    · rw [mem_singleton.mp he] at heq ⊢
      cases heq
      have hkeep := hJ.keeps
      rw [← hid] at hkeep
      have hpassed := passed_of_insert hinsert hkeep
      rw [hJ.ttl] at hpassed
      exact .inr hpassed

theorem lasting_quiet (hg : ∀ id raw, ¬ g.receive id raw) (c : GossipsubConfig)
    (now : Instant) (old : List (Instant × Output)) :
    Lasting g c now (fun _ trace => ∀ e ∈ trace, ∀ channel message,
      e.2 = .notify channel message → e ∈ old) where
  other cache trace l hl hJ := by
    intro e he channel message heq
    rcases mem_append.mp he with he | he
    · exact hJ e he channel message heq
    · exact absurd heq (hl e he channel message)
  seen _ _ _ _ _ _ hJ := hJ
  deliver _ _ _ _ message _ hreceive _ := by
    obtain ⟨raw, hraw⟩ := hreceive
    exact absurd hraw (hg _ raw)

/-! ## Runs -/

namespace Gossipsub

variable {P R F D : Type} [PeerScoring P R]

variable {s : Gossipsub P R F D}

theorem duplicateCache_forwardMsg (now : Instant) (id : MessageId) (message : RawGossipsubMessage) :
    (s.forwardMsg now id message none).2.duplicateCache = s.duplicateCache := by
  unfold forwardMsg
  dsimp only
  split
  · rfl
  · obtain ⟨trace, heq⟩ := exists_sendAll now (Proto.intoProtobuf { messages := [message] })
      (s.anyOrder _).1 (s.anyOrder _).2
    rw [heq]
    rfl

variable [ScoreArith R]

theorem duplicateCache_publishRecipients (s : Gossipsub P R F D) (now : Instant)
    (topic : TopicHash) : (s.publishRecipients now topic).2.duplicateCache = s.duplicateCache := by
  unfold publishRecipients fanoutPeers
  split
  · rfl
  · split
    · rfl
    · split
      · rfl
      · split <;> rfl

variable {now : Instant}

variable {id : MessageId}

theorem duplicateCache_publishMessage (h : (s.publishMessage now id message).1 = .ok i) :
    i = id ∧ ∃ fresh cache, insert s.duplicateCache now id = some (fresh, cache) ∧
      (s.publishMessage now id message).2.duplicateCache = cache := by
  have hforward : (if s.config.floodPublish then (.ok false, s)
      else s.forwardMsg now id message none).2.duplicateCache = s.duplicateCache := by
    split
    · rfl
    · exact duplicateCache_forwardMsg now id message
  unfold publishMessage at h ⊢
  generalize (if s.config.floodPublish then (Except.ok false, s)
    else s.forwardMsg now id message none) = sent at h hforward ⊢
  obtain ⟨result, s₁⟩ := sent
  cases result with
  | error e => cases h
  | ok meshPeersSent =>
    have hrecipients : (s₁.publishRecipients now message.topic).2.duplicateCache =
        s.duplicateCache :=
      (duplicateCache_publishRecipients s₁ now message.topic).trans hforward
    dsimp only at h ⊢
    generalize s₁.publishRecipients now message.topic = recipients at h hrecipients ⊢
    by_cases hnobody : recipients.1 = ∅ ∧ ¬ meshPeersSent = true
    · rw [if_pos hnobody] at h
      cases h
    · rw [if_neg hnobody] at h ⊢
      cases hrecord : recipients.2.recordPublished now id message with
      | error fault =>
        rw [hrecord] at h
        cases h
      | ok s' =>
        rw [hrecord] at h
        obtain ⟨fresh, cache, mcache, hinsert, -, htracked⟩ := recordPublished_eq_ok hrecord
        rw [hrecipients] at hinsert
        obtain ⟨trace, heq⟩ := exists_sendAll now (Proto.intoProtobuf { messages := [message] })
          (s'.anyOrder (sorted recipients.1)).1 (s'.anyOrder (sorted recipients.1)).2
        constructor
        · dsimp only at h
          generalize (sendAll now _ _ _).1 = sent at h
          cases sent with
          | error e => cases h
          | ok u =>
            cases h
            rfl
        · refine ⟨fresh, cache, hinsert, ?_⟩
          rw [heq]
          exact congrArg Tracked.duplicateCache htracked

theorem duplicateCache_publish [DataTransform D] (h : (s.publish now topic data).1 = .ok id) :
    contains s.duplicateCache id = false ∧
      ∃ fresh cache, insert s.duplicateCache now id = some (fresh, cache) ∧
        (s.publish now topic data).2.duplicateCache = cache := by
  unfold publish at h ⊢
  cases htransform : DataTransform.outboundTransform s.dataTransform topic data with
  | none =>
    rw [htransform] at h
    cases h
  | some transformed =>
    rw [htransform] at h
    have hbuilt : (s.buildRawMessage topic transformed).2.duplicateCache = s.duplicateCache :=
      congrArg Tracked.duplicateCache (tracked_buildRawMessage topic transformed)
    dsimp only at h ⊢
    generalize s.buildRawMessage topic transformed = built at h hbuilt ⊢
    obtain ⟨message, s₁⟩ := built
    cases message with
    | none => cases h
    | some message =>
      dsimp only at h hbuilt ⊢
      split at h
      · cases h
      · rename_i hsize
        split at h
        · cases h
        · rename_i hnew
          rw [if_neg hsize, if_neg hnew]
          obtain ⟨rfl, hinsert⟩ := duplicateCache_publishMessage h
          rw [hbuilt] at hinsert hnew
          exact ⟨Bool.eq_false_iff.mpr hnew, hinsert⟩

variable [TopicSubscriptionFilter F] [DataTransform D]

variable {last : Instant}

/-- The invariant rule for what depends on the clock. -/
theorem run_of_clock {I : Instant → Tracked D → Prop} (hI : ∀ (s : Gossipsub P R F D) turn n n',
      Tracked.Effect (s.grantOf turn) turn.now n n' → I turn.now n → I turn.now n')
    (hlater : ∀ now now' n, now ≤ now' → I now n → I now' n) (hs : I now s.tracked)
    (hpool : s.PoolPlain)
    (hclock : turns.Pairwise (fun a b => a.now ≤ b.now)) (hfirst : ∀ turn ∈ turns, now ≤ turn.now)
    (hlast : ∀ turn ∈ turns, turn.now ≤ last) (hnow : now ≤ last) :
    I last (run step s turns).tracked := by
  induction turns generalizing s now with
  | nil => exact hlater now last _ hnow hs
  | cons turn turns ih =>
    obtain ⟨hnext, hrest⟩ := pairwise_cons.mp hclock
    have hstart : I turn.now s.tracked :=
      hlater now turn.now _ (hfirst turn mem_cons_self) hs
    have hstep : I turn.now (s.step turn).tracked :=
      (s.effects_step turn hpool).preserve (hI s turn) hstart
    exact ih hstep (poolPlain_step hpool turn) hrest hnext
      (fun t ht => hlast t (mem_cons_of_mem turn ht)) (hlast turn mem_cons_self)

variable {s : Gossipsub P R F D} {turns : List (Turn P R)} {config : GossipsubConfig}

theorem run_of_lasting {J : Instant → DuplicateCache MessageId → List (Instant × Output) → Prop}
    (hJ : ∀ g now, Lasting g config now (J now))
    (hlater : ∀ now now' cache trace, now ≤ now' → J now cache trace → J now' cache trace)
    (hconfig : s.config = config) (hs : J now s.duplicateCache s.trace) (hpool : s.PoolPlain)
    (hclock : turns.Pairwise (fun a b => a.now ≤ b.now)) (hfirst : ∀ turn ∈ turns, now ≤ turn.now)
    (hlast : ∀ turn ∈ turns, turn.now ≤ last) (hnow : now ≤ last) :
    J last (run step s turns).duplicateCache (run step s turns).trace := by
  refine (run_of_clock (I := fun now n => n.config = config ∧ J now n.duplicateCache n.trace)
    (fun _ _ _ _ heffect hn => ⟨heffect.config.trans hn.1, ?_⟩)
    (fun now now' n hle hn => ⟨hn.1, hlater now now' _ _ hle hn.2⟩)
    ⟨hconfig, hs⟩ hpool hclock hfirst hlast hnow).2
  exact Tracked.effect_of_lasting (hJ _ _) heffect hn.1 hn.2

theorem remembers_run (hconfig : s.config = config) (htrace : s.trace = [])
    (httl : s.duplicateCache.ttl = config.duplicateCacheTime) (hpool : s.PoolPlain)
    (hclock : turns.Pairwise (fun a b => a.now ≤ b.now)) (hlast : ∀ turn ∈ turns, turn.now ≤ last) :
    Remembers config last (run step s turns).duplicateCache (run step s turns).trace := by
  refine run_of_lasting (J := Remembers config) (fun g now => lasting_remembers g config now)
    (fun now now' cache trace hle h => ⟨h.ttl, fun e he channel message heq => ?_, h.apart⟩) hconfig
    ?_ hpool hclock (fun _ _ => Nat.zero_le _) hlast (Nat.zero_le _)
  · exact (h.keeps e he channel message heq).later hle
  · rw [htrace]
    exact ⟨httl, by simp, List.Pairwise.nil⟩

theorem marked_step {turn : Turn P R} {topic : TopicHash} {data : List UInt8}
    (hconfig : s.config = config) (hpool : s.PoolPlain)
    (hs : Remembers config turn.now s.duplicateCache s.trace)
    (hinput : turn.input = .command (.publish topic data)) (hpanic : s.panicked = false)
    (hpublish : (s.publish turn.now topic data).1 = .ok id) :
    Marked config turn.now id turn.now (s.step turn).duplicateCache (s.step turn).trace := by
  obtain ⟨hnot, fresh, cache, hinsert, hcache⟩ := duplicateCache_publish hpublish
  have hstep : s.step turn = (s.publish turn.now topic data).2.emit turn.now .published := by
    unfold step
    rw [hpanic, hinput]
    rfl
  have hcache' : (s.step turn).duplicateCache = cache := by
    rw [hstep]
    obtain ⟨trace, heq⟩ := exists_emit (s.publish turn.now topic data).2 turn.now .published
    rw [heq]
    exact hcache
  have hfresh := fresh_of_not_contains hnot hinsert
  subst hfresh
  have hnone : ∀ id raw, ¬ (s.grantOf turn).receive id raw := by
    rintro id raw ⟨r, hr, -⟩
    unfold received at hr
    rw [hinput] at hr
    cases hr
  have hold : ∀ e ∈ (s.step turn).trace, ∀ channel message, e.2 = .notify channel message →
      e ∈ s.trace :=
    ((s.effects_step turn hpool).preserve (I := fun n => n.config = config ∧
      ∀ e ∈ n.trace, ∀ channel message, e.2 = .notify channel message → e ∈ s.trace)
      (fun _ _ heffect hn => ⟨heffect.config.trans hn.1,
        Tracked.effect_of_lasting (lasting_quiet hnone config turn.now s.trace) heffect hn.1 hn.2⟩)
      ⟨hconfig, fun e he _ _ _ => he⟩).2
  rw [hcache']
  refine ⟨(ttl_insert hinsert).trans hs.ttl,
    keeps_insert_self hinsert, fun e he channel message heq hid => .inl ?_⟩
  have hkeep := hs.keeps e (hold e he channel message heq) channel message heq
  rw [hid] at hkeep
  have hpassed := passed_of_insert hinsert hkeep
  rw [hs.ttl] at hpassed
  exact hpassed

/-- With a clock that does not run backwards, the deliveries of a message are apart by
`duplicate_cache_time`, and so is every delivery of a message that the node has published from the
moment at which it was published. -/
theorem delivered_once {privacy : MessageAuthenticity} {filter : F} {transform : D} {rng : Rng}
    (hnew : new P R privacy config filter transform rng = some (.ok s))
    (hclock : turns.Pairwise (fun a b => a.now ≤ b.now)) :
    (run step s turns).trace.Pairwise (Apart config) ∧
    ∀ pre turn post topic data id, turns = pre ++ turn :: post →
      turn.input = .command (.publish topic data) → (run step s pre).panicked = false →
      ((run step s pre).publish turn.now topic data).1 = .ok id →
      ∀ e ∈ (run step s turns).trace, ∀ channel message, e.2 = .notify channel message →
        config.messageIdFn message = id →
          e.1 + config.duplicateCacheTime ≤ turn.now ∨
            turn.now + config.duplicateCacheTime ≤ e.1 := by
  obtain ⟨backoffs, -, rfl⟩ := exists_initial hnew
  generalize hs : initial (P := P) (R := R) privacy config filter transform rng backoffs = s
  have hconfig : s.config = config := by rw [← hs]; rfl
  have htrace : s.trace = [] := by rw [← hs]; rfl
  have httl : s.duplicateCache.ttl = config.duplicateCacheTime := by rw [← hs]; rfl
  have hpool : s.PoolPlain := by rw [← hs]; exact poolPlain_of_empty rfl
  have hbound : ∀ l : List (Turn P R), ∀ turn ∈ l, turn.now ≤ (l.map Turn.now).sum :=
    fun l turn hturn => le_sum_of_mem (mem_map_of_mem hturn)
  constructor
  · exact (remembers_run hconfig htrace httl hpool hclock (hbound turns)).apart
  · intro pre turn post topic data id hturns hinput hpanic hpublish
    subst hturns
    obtain ⟨hbefore, hafter, hturn⟩ := pairwise_append.mp hclock
    obtain ⟨hlater, hpost⟩ := pairwise_cons.mp hafter
    have hremember := remembers_run hconfig htrace httl hpool hbefore
      (fun t ht => hturn t ht turn mem_cons_self)
    have hpool' : (run step s pre).PoolPlain :=
      invariant_run (I := PoolPlain) (fun _ turn h => poolPlain_step h turn) hpool pre
    have hconfig' : (run step s pre).config = config := (config_run hpool pre).trans hconfig
    have hmark := marked_step hconfig' hpool' hremember hinput hpanic hpublish
    rw [run_append, run_cons]
    have hnext : ((run step s pre).step turn).config = config := by
      have hlast := config_run hpool (pre ++ [turn])
      rw [run_append] at hlast
      exact hlast.trans hconfig
    have hsum : ∀ t ∈ post, t.now ≤ turn.now + (post.map Turn.now).sum :=
      fun t ht => (hbound post t ht).trans (Nat.le_add_left _ _)
    exact (run_of_lasting (J := Marked config turn.now id)
      (fun g now => lasting_marked g config turn.now id now)
      (fun now now' cache trace hle h => ⟨h.ttl, h.keeps.later hle, h.apart⟩) hnext hmark
      (poolPlain_step hpool' turn) hpost hlater hsum (Nat.le_add_right _ _)).apart

/-- A message that comes twice is handed on once. -/
theorem explicitStart_delivered_once :
    ((run step scoredNode (explicitStart ++ [sampleReceipt 1, sampleReceipt 2])).trace.filter
      (fun e => e.2 matches .notify ..)) = [(1, .notify 0 ⟨none, [1], none, sampleTopic⟩)] ∧
    (run step scoredNode (explicitStart ++ [sampleReceipt 1, sampleReceipt 2])).trace.Pairwise
      (Apart scoredConfig) :=
  ⟨by decide +kernel, (delivered_once scoredNode_new (by decide +kernel)).1⟩

end Gossipsub

end Libp2pRs.Gossip
