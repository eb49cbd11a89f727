import Libp2pRs.Gossip.Conduct

/-!
# The conduct of the handlers of messages

A message that is received is entered into the cache of seen messages when it is handed to the
local subscription, and put into the cache of messages before it is sent. What is sent later comes
from that cache.
-/

namespace Libp2pRs.Gossip

open Lib Libp2pRs.Core Std

namespace Gossipsub

variable {P R F D : Type} {g : Grant} {now : Instant} {s : Gossipsub P R F D}

/-! ## Messages -/

variable {c : MessageCache} {id : MessageId} {raw : RawGossipsubMessage}

theorem put_eq_none (h : c.put id raw = none) : c.history = [] := by
  unfold MessageCache.put at h
  split at h
  · cases h
  · split at h
    · assumption
    · cases h

theorem msgs_put (h : c.put id raw = some c') : c'.msgs = c.msgs.insert id raw := by
  unfold MessageCache.put at h
  split at h
  · cases h
    rfl
  · split at h
    · cases h
    · cases h
      rfl

theorem getElem?_msgs_put (h : c.put id raw = some c') : c'.msgs[id]? = some raw := by
  rw [msgs_put h, get_insert, if_pos rfl]

def fits (s : Gossipsub P R F D) (raw : RawGossipsubMessage) : Bool :=
  (Proto.fragmentMessage s.config.maxTransmitSize (Proto.intoProtobuf { messages := [raw] })).isOk

theorem sends_message (h : s.tracked.Vouches g (Proto.ofRawMessage raw)) :
    s.tracked.Sends g (Proto.intoProtobuf { messages := [raw] }) :=
  Tracked.sends_intoProtobuf (by simpa using h) (by simp)

variable {s' : Gossipsub P R F D} {fastId : Option FastMessageId}

theorem conducts_notifySubs
    (h : s.recordSeen now fastId (s.config.messageIdFn message) = some (true, s'))
    (hg : ∃ raw, g.receive (s.config.messageIdFn message) raw) :
    Conducts g now s (s'.notifySubs now message) := by
  obtain ⟨fast, -, h⟩ := Option.bind_eq_some_iff.mp h
  obtain ⟨r, hinsert, h⟩ := Option.bind_eq_some_iff.mp h
  obtain ⟨fresh, cache⟩ := r
  cases h
  unfold notifySubs
  split
  · exact Moves.single (.seen hinsert)
  · unfold emit
    split
    · exact Moves.single (.seen hinsert)
    · rename_i hpanicked
      exact Moves.single (.deliver (fault_eq_none (Bool.eq_false_iff.mpr hpanicked)) hinsert hg)

theorem conducts_recordSeen {fresh : Bool} (h : s.recordSeen now fastId id = some (fresh, s')) :
    Conducts g now s s' := by
  obtain ⟨fast, -, h⟩ := Option.bind_eq_some_iff.mp h
  obtain ⟨r, hinsert, h⟩ := Option.bind_eq_some_iff.mp h
  cases h
  exact Moves.single (.seen hinsert)

theorem exists_notifySubs (h : s.recordSeen now fastId id = some (fresh, s'))
    (message : GossipsubMessage) :
    ∃ fastMessageIdCache duplicateCache trace, s'.notifySubs now message =
      { s with fastMessageIdCache, duplicateCache, trace } := by
  obtain ⟨fast, -, h⟩ := Option.bind_eq_some_iff.mp h
  obtain ⟨r, -, h⟩ := Option.bind_eq_some_iff.mp h
  cases h
  unfold notifySubs
  split
  · exact ⟨fast, r.2, s.trace, rfl⟩
  · rename_i channel hchannel
    obtain ⟨trace, hemit⟩ := exists_emit
      { s with fastMessageIdCache := fast, duplicateCache := r.2 } now (.notify channel message)
    exact ⟨fast, r.2, trace, hemit⟩

def Reaches (s : Gossipsub P R F D) (topic : TopicHash) (raw : RawGossipsubMessage) : Prop :=
  s.fits raw = true ∧ ∃ p ∈ s.meshPeers topic, p ∈ s.connectedPeer

variable {message : RawGossipsubMessage}

section Messages

variable [PeerScoring P R]

/-- The part of `acceptMessage` that follows the local subscription. -/
def relay (s : Gossipsub P R F D) (now : Instant) (id : MessageId) (raw : RawGossipsubMessage)
    (message : GossipsubMessage) (propagationSource : PeerId) : Gossipsub P R F D :=
  let s := (s.modifyScore
    (PeerScoring.validateMessage now propagationSource id message.topic)).modifyPromises
    (·.messageDelivered id)
  match s.mcache.put id raw with
  | none => s.panic .arithmetic
  | some mcache =>
    let s := s.setMcache mcache
    match s.mesh[message.topic]? with
    | none => s
    | some peers =>
      let s := (sorted peers).foldl (fun s p => s.trySend now p { messages := [raw] }) s
      if s.config.validateMessages then s
      else (s.forwardMsg now id raw (some propagationSource)).2

theorem acceptMessage_eq (id : MessageId) (raw : RawGossipsubMessage) (message : GossipsubMessage)
    (source : PeerId) :
    s.acceptMessage now id raw message source =
      (s.notifySubs now message).relay now id raw message source := rfl

theorem conducts_forwardMsg {source : Option PeerId}
    (h : s.tracked.Vouches g (Proto.ofRawMessage message)) :
    Conducts g now s (s.forwardMsg now id message source).2 := by
  have hsend : ∀ (order : List PeerId × Gossipsub P R F D), order.2.tracked = s.tracked →
      Conducts g now s
        (sendAll now (Proto.intoProtobuf { messages := [message] }) order.2 order.1).2 := by
    intro order htracked
    refine (conducts_sendAll (sends_message ?_)).silent htracked
    rw [htracked]
    exact h
  unfold forwardMsg
  cases source with
  | none =>
    dsimp only
    split
    · exact Moves.refl
    · exact hsend _ rfl
  | some peer =>
    dsimp only
    split
    · exact Moves.refl
    · exact hsend _ rfl

theorem tracked_messageIsValid (id : MessageId) (raw : RawGossipsubMessage) (source : PeerId) :
    (s.messageIsValid now id raw source).2.2.tracked = s.tracked := by
  unfold messageIsValid
  dsimp only
  split
  · rfl
  · split
    · rfl
    · split <;> rfl

variable {source : PeerId}

theorem messageIsValid_eq_true (h : (s.messageIsValid now id raw source).1 = true) :
    s.messageIsValid now id raw source = (true, s.config.ingest raw, s) := by
  unfold messageIsValid at h ⊢
  dsimp only at h ⊢
  split at h
  · cases h
  · split at h
    · cases h
    · split at h
      · cases h
      · rename_i hpeer hauthor hself
        rw [if_neg hpeer, if_neg hauthor, if_neg hself]
        rfl

theorem tracked_handleInvalidMessage (source : PeerId) (raw : RawGossipsubMessage)
    (error : ValidationError) :
    (s.handleInvalidMessage now source raw error).tracked = s.tracked := by
  unfold handleInvalidMessage
  split <;> rfl

theorem conducts_relay {message : GossipsubMessage} (hreceive : g.receive id (s.config.ingest raw))
    (hdispatch : s.config.validateMessages = true → s.Reaches message.topic raw →
      g.dispatch raw) : Conducts g now s (s.relay now id (s.config.ingest raw) message source) := by
  unfold relay
  dsimp only
  split
  · rename_i hput
    exact Moves.single (.panic (.unsound (fun hsound => hsound.history (put_eq_none hput))))
  · rename_i mcache hput
    have hcached : Conducts g now s (((s.modifyScore (PeerScoring.validateMessage now source id
        message.topic)).modifyPromises (·.messageDelivered id)).setMcache mcache) :=
      Moves.single (.put hput (.inl hreceive))
    have hget : mcache.msgs[id]? = some (s.config.ingest raw) := getElem?_msgs_put hput
    refine hcached.trans ?_
    generalize hs' : ((s.modifyScore (PeerScoring.validateMessage now source id
      message.topic)).modifyPromises (·.messageDelivered id)).setMcache mcache = s'
    have hconfig : s'.config = s.config := by rw [← hs']; rfl
    have hmesh : s'.mesh = s.mesh := by rw [← hs']; rfl
    have hconnected : s'.connectedPeer = s.connectedPeer := by rw [← hs']; rfl
    have hmcache : s'.mcache = mcache := by rw [← hs']; rfl
    split
    · exact Moves.refl
    · rename_i peers hpeers
      have hvalid : s.config.validateMessages ≠ true →
          s'.tracked.Vouches g (Proto.ofRawMessage (s.config.ingest raw)) := by
        intro hvalidate
        refine .inl ⟨id, s.config.ingest raw, ?_, ?_, rfl⟩
        · change s'.mcache.msgs[id]? = _
          rw [hmcache, hget]
        · rw [GossipsubConfig.ingest, if_neg hvalidate]
      have hvouch : ∀ p ∈ sorted peers, p ∈ s'.connectedPeer →
          s'.fits (s.config.ingest raw) = true →
            s'.tracked.Vouches g (Proto.ofRawMessage (s.config.ingest raw)) := by
        intro p hp hpeer hfits
        by_cases hvalidate : s.config.validateMessages = true
        · have hingest : s.config.ingest raw = raw := by rw [GossipsubConfig.ingest, if_pos hvalidate]
          rw [fits, hconfig, hingest] at hfits
          have hmember : p ∈ s.meshPeers message.topic := by
            rw [meshPeers, ← hmesh, hpeers]
            exact mem_sorted.mp hp
          refine .inr (.inr ⟨raw, hdispatch hvalidate ⟨hfits, p, hmember, ?_⟩, ?_⟩)
          · exact hconnected ▸ hpeer
          · rw [hingest]
        · exact hvalid hvalidate
      have hsend : Conducts g now s' _ := conducts_dispatch fun p hp hpeer hfits =>
        sends_message (hvouch p hp hpeer hfits)
      obtain ⟨trace, heq⟩ := exists_dispatch now
        (Proto.intoProtobuf { messages := [s.config.ingest raw] }) (sorted peers) s'
      rw [heq] at hsend
      generalize hfold : List.foldl _ s' (sorted peers) = s''
      obtain rfl : s'' = { s' with trace } := hfold.symm.trans heq
      split
      · exact hsend
      · rename_i hvalidate
        rw [hconfig] at hvalidate
        exact hsend.trans (conducts_forwardMsg (hvalid hvalidate))

theorem conducts_acceptMessage {message : GossipsubMessage}
    (hseen : s.recordSeen now fastId (s.config.messageIdFn message) = some (true, s'))
    (hreceive : g.receive (s.config.messageIdFn message) (s.config.ingest raw))
    (hdispatch : s.config.validateMessages = true → s.Reaches message.topic raw → g.dispatch raw) :
    Conducts g now s (s'.acceptMessage now (s.config.messageIdFn message) (s.config.ingest raw)
      message source) := by
  have hnotify : Conducts g now s (s'.notifySubs now message) :=
    conducts_notifySubs hseen ⟨_, hreceive⟩
  obtain ⟨fast, cache, trace, heq⟩ := exists_notifySubs hseen message
  rw [acceptMessage_eq]
  rw [heq] at hnotify ⊢
  exact hnotify.trans (conducts_relay hreceive hdispatch)

/-- The message, if it is accepted: it can be decoded, it is valid, and it is seen for the first
time. -/
def accepted [DataTransform D] (s : Gossipsub P R F D) (now : Instant) (raw : RawGossipsubMessage)
    (source : PeerId) : Option GossipsubMessage :=
  let fastId := s.config.fastMessageIdFn.map (· raw)
  if (fastId.bind s.fastMessageIdCache.get).isSome then none
  else
    (DataTransform.inboundTransform s.dataTransform raw).filter (fun message =>
      let id := s.config.messageIdFn message
      (s.messageIsValid now id raw source).1 &&
        ((s.recordSeen now fastId id).elim false Prod.fst))

theorem accepted_eq_some [DataTransform D] {message : GossipsubMessage}
    (h : s.accepted now raw source = some message) :
    ∃ s', s.recordSeen now (s.config.fastMessageIdFn.map (· raw))
        (s.config.messageIdFn message) = some (true, s') ∧
      s.handleReceivedMessage now raw source = s'.acceptMessage now (s.config.messageIdFn message)
        (s.config.ingest raw) message source := by
  unfold accepted at h
  dsimp only at h
  split at h
  · cases h
  · rename_i hfast
    obtain ⟨hmessage, hcheck⟩ := Option.filter_eq_some_iff.mp h
    rw [Bool.and_eq_true] at hcheck
    obtain ⟨hvalid, hseen⟩ := hcheck
    cases hrecord : s.recordSeen now (s.config.fastMessageIdFn.map (· raw))
        (s.config.messageIdFn message) with
    | none =>
      rw [hrecord] at hseen
      cases hseen
    | some seen =>
      rw [hrecord] at hseen
      obtain ⟨fresh, s'⟩ := seen
      cases hseen
      refine ⟨s', rfl, ?_⟩
      unfold handleReceivedMessage
      dsimp only
      rw [Option.not_isSome_iff_eq_none.mp hfast]
      rw [hmessage]
      dsimp only
      rw [messageIsValid_eq_true hvalid]
      rw [if_neg (by simp), hrecord]
      rfl

theorem conducts_handleReceivedMessage [DataTransform D]
    (hreceive : ∀ message, s.accepted now raw source = some message →
      g.receive (s.config.messageIdFn message) (s.config.ingest raw))
    (hdispatch : ∀ message, s.accepted now raw source = some message →
      s.config.validateMessages = true → s.Reaches message.topic raw → g.dispatch raw) :
    Conducts g now s (s.handleReceivedMessage now raw source) := by
  unfold handleReceivedMessage
  dsimp only
  split
  · exact Conducts.of_tracked (tracked_messageIsValid _ raw source)
  · rename_i hfast
    split
    · exact Conducts.of_tracked (tracked_handleInvalidMessage source raw _)
    · rename_i message hmessage
      split
      · exact Conducts.of_tracked (tracked_messageIsValid _ raw source)
      · rename_i hvalid
        rw [messageIsValid_eq_true (not_not.mp hvalid)]
        split
        · exact Moves.single (.panic .clock)
        · rename_i seen hseen
          obtain ⟨fresh, s'⟩ := seen
          cases fresh with
          | true =>
            have haccepted : s.accepted now raw source = some message := by
              unfold accepted
              dsimp only
              rw [hfast, hmessage, Option.filter_some, not_not.mp hvalid, hseen]
              rfl
            exact conducts_acceptMessage hseen (hreceive message haccepted)
              (hdispatch message haccepted)
          | false =>
            have hrecord : Conducts g now s s' := conducts_recordSeen hseen
            exact hrecord

theorem conducts_reportMessageValidationResult (h : acceptance = .accept → g.accept id) :
    Conducts g now s (s.reportMessageValidationResult now id source acceptance).2 := by
  have hremove : Conducts g now s (s.setMcache (s.mcache.remove id).2) := Moves.single .remove
  unfold reportMessageValidationResult
  cases acceptance with
  | accept =>
    have hvalidate : Conducts g now s (s.setMcache (s.mcache.validate id).2) :=
      Moves.single (.validate (h rfl))
    dsimp only
    split
    · exact hvalidate
    · rename_i message hmessage
      refine hvalidate.trans (conducts_forwardMsg (.inl ⟨id, message, ?_, ?_, rfl⟩))
      · change (s.mcache.validate id).2.msgs[id]? = some message
        unfold MessageCache.validate at hmessage ⊢
        split at hmessage
        · cases hmessage
        · cases hmessage
          rw [get_insert, if_pos rfl]
      · unfold MessageCache.validate at hmessage
        split at hmessage
        · cases hmessage
        · cases hmessage
          rfl
  | reject =>
    dsimp only
    split <;> exact hremove
  | ignore =>
    dsimp only
    split <;> exact hremove

end Messages

/-! ## IHAVE and IWANT -/

theorem conducts_addPromise (peer : PeerId) (ids : List MessageId) :
    Conducts g now s (s.addPromise now peer ids) := by
  unfold addPromise
  split
  · exact Moves.refl
  · split
    · exact Moves.single (.panic .clock)
    · exact Moves.refl

theorem conducts_askFor (peer : PeerId) (ids : Finset MessageId) :
    Conducts g now s (s.askFor now peer ids) := by
  refine Moves.trans (Conducts.silent (conducts_addPromise peer _) (by rfl))
    (conducts_controlPoolAdd ?_)
  simp [ControlAction.offers]

theorem getWithIwantCounts_eq_some (h : c.getWithIwantCounts id peer = some r) :
    (∃ iwantCounts, r.2 = { c with iwantCounts }) ∧
      ∀ m, r.1 = some m → c.msgs[id]? = some m.1 ∧ m.1.validated = true := by
  unfold MessageCache.getWithIwantCounts at h
  split at h
  · cases h
    exact ⟨⟨c.iwantCounts, rfl⟩, fun m hm => by cases hm⟩
  · rename_i msg hmsg
    split at h
    · rename_i hvalidated
      dsimp only at h
      split at h
      · cases h
      · cases h
        refine ⟨⟨_, rfl⟩, fun m hm => ?_⟩
        cases hm
        exact ⟨hmsg, hvalidated⟩
    · cases h
      exact ⟨⟨c.iwantCounts, rfl⟩, fun m hm => by cases hm⟩

/-- The messages that have been looked up are validated ones of the cache. -/
def Found (s : Gossipsub P R F D) (found : TreeMap MessageId RawGossipsubMessage) : Prop :=
  ∀ (id : MessageId) m, found[id]? = some m → s.mcache.msgs[id]? = some m ∧ m.validated = true

theorem conducts_collectRequested
    (h : collectRequested peer s ids found = some r) (hfound : s.Found found) :
    Conducts g now s r.2 ∧ r.2.Found r.1 := by
  induction ids generalizing s found with
  | nil =>
    cases h
    exact ⟨Moves.refl, hfound⟩
  | cons id ids ih =>
    obtain ⟨m, hget, h⟩ := Option.bind_eq_some_iff.mp h
    obtain ⟨⟨iwantCounts, hcache⟩, hvalid⟩ := getWithIwantCounts_eq_some hget
    have hcount : Conducts g now s (s.setMcache m.2) := by
      rw [hcache]
      exact Moves.single .count
    have hmsgs : (s.setMcache m.2).mcache.msgs = s.mcache.msgs := by
      rw [hcache]
      rfl
    have hfound' : (s.setMcache m.2).Found found := by
      unfold Found
      rw [hmsgs]
      exact hfound
    dsimp only at h
    split at h
    · rename_i message count heq
      split at h
      · obtain ⟨hconduct, hr⟩ := ih h hfound'
        exact ⟨hcount.trans hconduct, hr⟩
      · have hinsert : (s.setMcache m.2).Found (found.insert id message) := by
          intro id' m' hm'
          rw [get_insert] at hm'
          split at hm'
          · rename_i hid
            subst hid
            cases hm'
            rw [hmsgs]
            exact hvalid _ heq
          · exact hfound' id' m' hm'
        obtain ⟨hconduct, hr⟩ := ih h hinsert
        exact ⟨hcount.trans hconduct, hr⟩
    · obtain ⟨hconduct, hr⟩ := ih h hfound'
      exact ⟨hcount.trans hconduct, hr⟩

theorem Found.sends (h : s.Found found) (hmessages : ∀ m ∈ messages, m ∈ found.values) :
    s.tracked.Sends g (Proto.intoProtobuf { messages }) := by
  refine Tracked.sends_intoProtobuf (fun m hm => ?_) (by simp)
  obtain ⟨id, hid⟩ := mem_values.mp (hmessages m hm)
  obtain ⟨hcached, hvalidated⟩ := h id m hid
  exact .inl ⟨id, m, hcached, hvalidated, rfl⟩

section Wants

variable [ScoreArith R] [PeerScoring P R]

theorem conducts_handleIhave (peer : PeerId) (ihaveMsgs : List (TopicHash × List MessageId)) :
    Conducts g now s (s.handleIhave now peer ihaveMsgs) := by
  unfold handleIhave
  split
  · exact Moves.refl
  · dsimp only
    split
    · exact Moves.refl
    · split
      · exact Moves.refl
      · split
        · exact Moves.refl
        · exact (conducts_askFor peer _).silent (by rfl)

theorem conducts_handleIwant (peer : PeerId) (ids : List MessageId) :
    Conducts g now s (s.handleIwant now peer ids) := by
  unfold handleIwant
  split
  · exact Moves.refl
  · split
    · exact Moves.single (.panic .counter)
    · rename_i cached hcollect
      have hempty : s.Found ∅ := by
        intro id m hm
        simp at hm
      obtain ⟨hconduct, hfound⟩ := conducts_collectRequested hcollect hempty
      dsimp only
      split
      · exact hconduct
      · refine hconduct.trans (Conducts.silent (conducts_sendMessage (fun _ _ => ?_)) (by rfl))
        refine Tracked.Sends.congr (hfound.sends (fun m hm => ?_)) rfl
        exact Rng.mem_shuffle.mp hm

end Wants

/-! ## Publishing -/

theorem recordPublished_eq_error {fault : Fault}
    (h : s.recordPublished now id message = .error fault) :
    fault = .clock ∨ fault = .arithmetic ∧ s.mcache.history = [] := by
  rcases Fault.bind_eq_error h with hinsert | ⟨seen, -, h⟩
  · exact .inl (Fault.orElse_eq_error hinsert).1
  rcases Fault.bind_eq_error h with hput | ⟨mcache, -, h⟩
  · obtain ⟨hfault, hnone⟩ := Fault.orElse_eq_error hput
    exact .inr ⟨hfault, put_eq_none hnone⟩
  dsimp only at h
  split at h
  · cases h
  · cases h
  · split at h
    · cases h
    · rcases Fault.bind_eq_error h with hpublished | ⟨published, -, h⟩
      · exact .inl (Fault.orElse_eq_error hpublished).1
      · cases h

theorem recordPublished_eq_ok (h : s.recordPublished now id message = .ok s') :
    ∃ fresh duplicateCache mcache,
      DuplicateCache.insert s.duplicateCache now id = some (fresh, duplicateCache) ∧
      s.mcache.put id message = some mcache ∧
      s'.tracked = { s.tracked with duplicateCache, mcache } := by
  obtain ⟨seen, hinsert, h⟩ := Fault.bind_eq_ok.mp h
  obtain ⟨mcache, hput, h⟩ := Fault.bind_eq_ok.mp h
  refine ⟨seen.1, seen.2, mcache, Fault.orElse_eq_ok.mp hinsert, Fault.orElse_eq_ok.mp hput, ?_⟩
  dsimp only at h
  split at h
  · cases h
    rfl
  · cases h
    rfl
  · split at h
    · cases h
      rfl
    · obtain ⟨published, -, h⟩ := Fault.bind_eq_ok.mp h
      cases h
      rfl

theorem tracked_buildRawMessage (topic : TopicHash) (data : List UInt8) :
    (s.buildRawMessage topic data).2.tracked = s.tracked := by
  unfold buildRawMessage
  dsimp only
  split <;> rfl

/-- The message that is published for the data, with its id. It has not been seen before. -/
def Builds [DataTransform D] (s : Gossipsub P R F D) (topic : TopicHash) (data : List UInt8)
    (id : MessageId) (raw : RawGossipsubMessage) : Prop :=
  ∃ transformed, DataTransform.outboundTransform s.dataTransform topic data = some transformed ∧
    (s.buildRawMessage topic transformed).1 = some raw ∧
    id = s.config.messageIdFn ⟨raw.source, data, raw.sequenceNumber, raw.topic⟩ ∧
    DuplicateCache.contains s.duplicateCache id = false

section Publishing

variable [ScoreArith R] [PeerScoring P R]

theorem conducts_fanoutPeers (h : topic ∉ s.mesh) :
    Conducts g now s (s.fanoutPeers now topic).2 := by
  unfold fanoutPeers
  dsimp only
  split
  · rename_i peers hpeers
    refine Moves.single (.fan h (fun t => ⟨.inr, ?_⟩))
    rintro (rfl | ht)
    · rw [TreeMap.mem_iff_isSome_getElem?]
      exact Option.isSome_of_eq_some hpeers
    · exact ht
  · refine Moves.single (.fan h (fun t => ?_))
    rw [TreeMap.mem_insert, LawfulEqCmp.compare_eq_iff_eq]
    rfl

theorem conducts_publishRecipients (topic : TopicHash) :
    Conducts g now s (s.publishRecipients now topic).2 := by
  unfold publishRecipients
  split
  · exact Moves.refl
  · dsimp only
    split
    · exact Moves.refl
    · split
      · exact Moves.refl
      · rename_i hmesh
        exact conducts_fanoutPeers (fun h => hmesh (TreeMap.contains_iff_mem.mpr h))

theorem conducts_publishMessage (h : g.publish id message) :
    Conducts g now s (s.publishMessage now id message).2 := by
  have hvouch : ∀ n : Tracked D, n.Vouches g (Proto.ofRawMessage message) :=
    fun n => .inr (.inl ⟨id, message, h, rfl⟩)
  have hsent : Conducts g now s (if s.config.floodPublish then (.ok false, s)
      else s.forwardMsg now id message none).2 := by
    split
    · exact Moves.refl
    · exact conducts_forwardMsg (hvouch _)
  unfold publishMessage
  dsimp only
  generalize (if s.config.floodPublish then (Except.ok false, s)
    else s.forwardMsg now id message none) = sent at hsent ⊢
  split
  · exact hsent
  · have hrecipients : Conducts g now s (sent.2.publishRecipients now message.topic).2 :=
      hsent.trans (conducts_publishRecipients message.topic)
    generalize sent.2.publishRecipients now message.topic = recipients at hrecipients ⊢
    split
    · exact hrecipients
    · split
      · rename_i fault hrecord
        refine hrecipients.trans ?_
        rcases recordPublished_eq_error hrecord with rfl | ⟨rfl, hhistory⟩
        · exact Moves.single (.panic .clock)
        · exact Moves.single (.panic (.unsound (fun hsound => hsound.history hhistory)))
      · rename_i s' hrecord
        obtain ⟨fresh, cache, mcache, hinsert, hput, htracked⟩ := recordPublished_eq_ok hrecord
        have hseen : Tracked.Effects g now recipients.2.tracked
            { recipients.2.tracked with duplicateCache := cache } := Moves.single (.seen hinsert)
        have hcached : Tracked.Effects g now { recipients.2.tracked with duplicateCache := cache }
            { recipients.2.tracked with duplicateCache := cache, mcache } :=
          Moves.single (.put hput (.inr h))
        have hrecorded : Conducts g now s s' := by
          unfold Conducts
          rw [htracked]
          exact hrecipients.trans (hseen.trans hcached)
        exact hrecorded.trans
          (Conducts.silent (conducts_sendAll (sends_message (hvouch _))) (by rfl))

theorem conducts_publish [DataTransform D]
    (h : ∀ id raw, s.Builds topic data id raw → g.publish id raw) :
    Conducts g now s (s.publish now topic data).2 := by
  unfold publish
  split
  · exact Moves.refl
  · rename_i transformed htransform
    have htracked : (s.buildRawMessage topic transformed).2.tracked = s.tracked :=
      tracked_buildRawMessage topic transformed
    have hbuilt : Conducts g now s (s.buildRawMessage topic transformed).2 :=
      Conducts.of_tracked htracked
    dsimp only
    split
    · exact hbuilt
    · rename_i raw hraw
      split
      · exact hbuilt
      · split
        · exact hbuilt
        · rename_i hnew
          have hcache : (s.buildRawMessage topic transformed).2.duplicateCache = s.duplicateCache :=
            congrArg Tracked.duplicateCache htracked
          rw [hcache] at hnew
          refine hbuilt.trans (conducts_publishMessage
            (h _ _ ⟨transformed, htransform, hraw, ?_, Bool.eq_false_iff.mpr hnew⟩))
          rw [show (s.buildRawMessage topic transformed).2.config = s.config from
            congrArg Tracked.config htracked]

end Publishing

end Gossipsub

end Libp2pRs.Gossip
