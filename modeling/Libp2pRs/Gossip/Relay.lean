import Libp2pRs.Gossip.Announcements

/-!
# The copies of a message that is passed on

A message that is accepted is sent twice: `handle_received_message` sends it to every mesh peer of
its topic, and `forward_msg` sends it to the mesh peers and the explicit peers that are neither its
source nor its author. `copies` counts how often a message goes to a peer.
-/

namespace Libp2pRs.Gossip

open Lib Libp2pRs.Core Std List Proto

def Output.copies (peer : PeerId) (m : Proto.Message) : Output → Nat
  | .send p _ rpc => if p = peer then rpc.publish.count m else 0
  | _ => 0

def copies (trace : List (Instant × Output)) (peer : PeerId) (m : Proto.Message) : Nat :=
  (trace.map (fun e => e.2.copies peer m)).sum

theorem copies_append (l l' : List (Instant × Output)) (peer : PeerId) (m : Proto.Message) :
    copies (l ++ l') peer m = copies l peer m + copies l' peer m := by
  simp [copies]

theorem copies_fragments {max : Nat} {rpc : Proto.Rpc} {messages : List Proto.Rpc}
    (h : fragmentMessage max rpc = .ok messages) (now : Instant) (peer p : PeerId)
    (channel : Nat) (m : Proto.Message) :
    copies ((messages.map (Output.send peer channel)).map (fun o => (now, o))) p m =
      if p = peer then rpc.publish.count m else 0 := by
  rw [← publish_fragmentMessage h, count_flatMap, copies, map_map, map_map]
  by_cases hp : p = peer
  · rw [if_pos hp]
    refine congrArg sum (map_congr_left (fun r _ => ?_))
    simp [Output.copies, hp]
  · rw [if_neg hp]
    refine sum_eq_zero (fun k hk => ?_)
    obtain ⟨r, -, rfl⟩ := mem_map.mp hk
    simp [Output.copies, Ne.symm hp]

namespace Gossipsub

variable {P R F D : Type}

/-- A part of a handler sends the message `f p` times to the peer `p`. -/
def Relays (m : Proto.Message) (s s' : Gossipsub P R F D) (f : PeerId → Nat) : Prop :=
  ∃ l, s'.trace = s.trace ++ l ∧ ∀ p, copies l p m = f p

variable {m : Proto.Message} {s s' s'' : Gossipsub P R F D} {f f' : PeerId → Nat} {now : Instant}

theorem Relays.quiet (h : s'.trace = s.trace) : Relays m s s' (fun _ => 0) :=
  ⟨[], by rw [h, append_nil], fun _ => rfl⟩

theorem Relays.trans (h : Relays m s s' f) (h' : Relays m s' s'' f') :
    Relays m s s'' (fun p => f p + f' p) := by
  obtain ⟨l, hl, hcopies⟩ := h
  obtain ⟨l', hl', hcopies'⟩ := h'
  refine ⟨l ++ l', by rw [hl', hl, append_assoc], fun p => ?_⟩
  rw [copies_append, hcopies, hcopies']

theorem Relays.congr (h : Relays m s s' f) (hf : ∀ p, f p = f' p) : Relays m s s' f' := by
  obtain ⟨l, hl, hcopies⟩ := h
  exact ⟨l, hl, fun p => (hcopies p).trans (hf p)⟩

variable {raw : RawGossipsubMessage}

def reached (s : Gossipsub P R F D) (raw : RawGossipsubMessage) (peers : Finset PeerId) :
    Finset PeerId :=
  if s.fits raw then peers.filter (· ∈ s.connectedPeer) else ∅

theorem mem_reached {peers : Finset PeerId} {p : PeerId} :
    p ∈ s.reached raw peers ↔ p ∈ peers ∧ p ∈ s.connectedPeer ∧ s.fits raw = true := by
  unfold reached
  split
  · rename_i h
    simp [h]
  · rename_i h
    simp [h]

theorem relays_sendMessage (raw : RawGossipsubMessage) (hpanic : s.panicked = false)
    (now : Instant) (peer : PeerId) :
    Relays (ofRawMessage raw) s
      (s.sendMessage now peer (intoProtobuf { messages := [raw] })).2
      (fun p => if p ∈ s.reached raw {peer} then 1 else 0) := by
  have hfits : s.fits raw = (fragmentMessage s.config.maxTransmitSize
    (intoProtobuf { messages := [raw] })).isOk := rfl
  unfold sendMessage
  cases hfragment : fragmentMessage s.config.maxTransmitSize
      (intoProtobuf { messages := [raw] }) with
  | error e =>
    rw [hfragment] at hfits
    refine (Relays.quiet rfl).congr (fun p => ?_)
    rw [if_neg (fun h => by rw [(mem_reached.mp h).2.2] at hfits; cases hfits)]
  | ok messages =>
    rw [hfragment] at hfits
    cases hchannel : s.connectedPeer[peer]? with
    | none =>
      refine (Relays.quiet rfl).congr (fun p => ?_)
      rw [if_neg]
      intro h
      obtain ⟨hp, hconnected, -⟩ := mem_reached.mp h
      rw [Finset.mem_singleton.mp hp, TreeMap.mem_iff_isSome_getElem?, hchannel] at hconnected
      cases hconnected
    | some channel =>
      have hconnected : peer ∈ s.connectedPeer := by
        rw [TreeMap.mem_iff_isSome_getElem?, hchannel]
        rfl
      refine ⟨_, trace_emitAll s now _, fun p => ?_⟩
      rw [if_neg (by rw [hpanic]; simp), copies_fragments hfragment]
      refine if_congr ?_ (by simp [intoProtobuf]) rfl
      rw [mem_reached, Finset.mem_singleton]
      constructor
      · rintro rfl
        exact ⟨rfl, hconnected, hfits⟩
      · exact fun h => h.1

theorem Relays.union {X Y : Finset PeerId}
    (h : Relays m s s' (fun p => if p ∈ X then 1 else 0))
    (h' : Relays m s' s'' (fun p => if p ∈ Y then 1 else 0)) (hdisjoint : Disjoint X Y) :
    Relays m s s'' (fun p => if p ∈ X ∪ Y then 1 else 0) := by
  refine (h.trans h').congr (fun p => ?_)
  have hboth : p ∈ X → p ∉ Y := fun hX => Finset.disjoint_left.mp hdisjoint hX
  by_cases hX : p ∈ X
  · rw [if_pos hX, if_neg (hboth hX), if_pos (Finset.mem_union_left Y hX)]
  · rw [if_neg hX, Nat.zero_add]
    exact if_congr (by simp [hX]) rfl rfl

theorem reached_insert :
    s.reached raw (insert peer peers) = s.reached raw {peer} ∪ s.reached raw peers := by
  ext p
  simp only [Finset.mem_union, mem_reached, Finset.mem_insert, Finset.mem_singleton]
  tauto

theorem disjoint_reached {X Y : Finset PeerId} (h : Disjoint X Y) :
    Disjoint (s.reached raw X) (s.reached raw Y) :=
  Finset.disjoint_left.mpr (fun _ hX hY =>
    Finset.disjoint_left.mp h (mem_reached.mp hX).1 (mem_reached.mp hY).1)

theorem relays_dispatch (raw : RawGossipsubMessage) (hpanic : s.panicked = false)
    (now : Instant) {peers : List PeerId} (hnodup : peers.Nodup) :
    Relays (ofRawMessage raw) s
      (peers.foldl (fun s p => (s.sendMessage now p (intoProtobuf { messages := [raw] })).2) s)
      (fun p => if p ∈ s.reached raw peers.toFinset then 1 else 0) := by
  induction peers generalizing s with
  | nil => exact (Relays.quiet rfl).congr (fun p => by simp [mem_reached])
  | cons peer peers ih =>
    obtain ⟨hpeer, hnodup⟩ := nodup_cons.mp hnodup
    have hsend := relays_sendMessage raw hpanic now peer
    obtain ⟨trace, heq⟩ := exists_sendMessage s now peer (intoProtobuf { messages := [raw] })
    have hrest := ih (s := (s.sendMessage now peer (intoProtobuf { messages := [raw] })).2)
      (by rw [heq]; exact hpanic) hnodup
    rw [foldl_cons, toFinset_cons, reached_insert]
    refine hsend.union ?_ (disjoint_reached ?_)
    · have hreached : (s.sendMessage now peer
          (intoProtobuf { messages := [raw] })).2.reached raw peers.toFinset =
          s.reached raw peers.toFinset := by
        rw [heq]
        rfl
      rw [hreached] at hrest
      exact hrest
    · rw [Finset.disjoint_singleton_left, mem_toFinset]
      exact hpeer

/-- The mesh peers and the explicit peers to which `forward_msg` sends: neither the source of the
message nor its author. -/
def forwardRecipients (s : Gossipsub P R F D) (message : RawGossipsubMessage)
    (source : Option PeerId) : Finset PeerId :=
  let other := fun p : PeerId => decide (some p ≠ source ∧ some p ≠ message.source)
  (s.meshPeers message.topic).filter (other ·) ∪
    s.explicitPeers.filter (fun p =>
      other p && decide (message.topic ∈ s.peerTopics[p]?.getD ∅))

/-- A peer of whom `forward_msg` thinks as a recipient, unless it is the source or the author. -/
def mayForwardTo (s : Gossipsub P R F D) (topic : TopicHash) (p : PeerId) : Prop :=
  p ∈ s.meshPeers topic ∨ p ∈ s.explicitPeers ∧ topic ∈ s.peerTopics[p]?.getD ∅

theorem mem_forwardRecipients : p ∈ s.forwardRecipients message source ↔
      (some p ≠ source ∧ some p ≠ message.source) ∧ s.mayForwardTo message.topic p := by
  unfold forwardRecipients mayForwardTo
  simp only [Finset.mem_union, Finset.mem_filter, Bool.and_eq_true, decide_eq_true_eq]
  tauto

theorem reached_ingest (c : GossipsubConfig) (raw : RawGossipsubMessage) (peers : Finset PeerId) :
    s.reached (c.ingest raw) peers = s.reached raw peers := by
  have hfits : s.fits (c.ingest raw) = s.fits raw := by
    unfold GossipsubConfig.ingest
    split <;> rfl
  unfold reached
  rw [hfits]

theorem forwardRecipients_ingest (c : GossipsubConfig) (raw : RawGossipsubMessage)
    (source : Option PeerId) :
    s.forwardRecipients (c.ingest raw) source = s.forwardRecipients raw source := by
  unfold GossipsubConfig.ingest
  split <;> rfl

theorem mem_mesh_of_mem_meshPeers (h : p ∈ s.meshPeers topic) : topic ∈ s.mesh := by
  rw [TreeMap.mem_iff_isSome_getElem?]
  cases hpeers : s.mesh[topic]? with
  | none =>
    rw [meshPeers, hpeers] at h
    exact absurd h (Finset.notMem_empty p)
  | some peers => rfl

theorem relays_notifySubs {id : MessageId} (h : s.recordSeen now fastId id = some (fresh, s'))
    (message : GossipsubMessage) : Relays m s (s'.notifySubs now message) (fun _ => 0) := by
  obtain ⟨fast, -, h⟩ := Option.bind_eq_some_iff.mp h
  obtain ⟨⟨fresh, cache⟩, -, h⟩ := Option.bind_eq_some_iff.mp h
  cases h
  unfold notifySubs
  split
  · exact Relays.quiet rfl
  · unfold emit
    split
    · exact Relays.quiet rfl
    · exact ⟨_, rfl, fun _ => rfl⟩

section Scored

variable [PeerScoring P R]

theorem relays_forwardMsg (hpanic : s.panicked = false) (now : Instant) (id : MessageId)
    (raw : RawGossipsubMessage) (source : PeerId) :
    Relays (ofRawMessage raw) s (s.forwardMsg now id raw (some source)).2
      (fun p => if p ∈ s.reached raw (s.forwardRecipients raw (some source)) then 1 else 0) := by
  have hforward : s.forwardMsg now id raw (some source) =
      (let s' := s.modifyScore (PeerScoring.deliverMessage now source id raw.topic)
      if s.forwardRecipients raw (some source) = ∅ then (.ok false, s')
      else
        let order := s'.anyOrder (sorted (s.forwardRecipients raw (some source)))
        let sent := sendAll now (intoProtobuf { messages := [raw] }) order.2 order.1
        (sent.1.map (fun _ => true), sent.2)) := rfl
  rw [hforward]
  split
  · rename_i hempty
    refine (Relays.quiet rfl).congr (fun p => ?_)
    rw [if_neg]
    rw [mem_reached, hempty]
    simp
  · have hperm := s.rng.shuffle_perm (sorted (s.forwardRecipients raw (some source)))
    have hset : (s.rng.shuffle (sorted (s.forwardRecipients raw (some source)))).1.toFinset =
        s.forwardRecipients raw (some source) := by
      ext p
      rw [mem_toFinset, hperm.mem_iff, mem_sorted]
    have hsend := relays_dispatch (s := ((s.modifyScore (PeerScoring.deliverMessage now source id
      raw.topic)).anyOrder (sorted (s.forwardRecipients raw (some source)))).2) raw hpanic now
      (hperm.nodup_iff.mpr (nodup_sorted _))
    rw [hset] at hsend
    rw [sendAll_snd]
    exact hsend

/-- The copies of a message that is stored: one for each mesh peer that it reaches, and one for each
peer that it reaches when it is forwarded. -/
theorem relays_relay (hpanic : s.panicked = false) (now : Instant) (id : MessageId)
    (raw : RawGossipsubMessage) (message : GossipsubMessage) (source : PeerId) :
    Relays (ofRawMessage raw) s (s.relay now id raw message source) (fun p =>
      if (s.mcache.put id raw).isSome then
        (if p ∈ s.reached raw (s.meshPeers message.topic) then 1 else 0) +
        (if message.topic ∈ s.mesh ∧ s.config.validateMessages = false ∧
          p ∈ s.reached raw (s.forwardRecipients raw (some source)) then 1 else 0)
      else 0) := by
  have hcache : ((s.modifyScore (PeerScoring.validateMessage now source id
      message.topic)).modifyPromises (·.messageDelivered id)).mcache = s.mcache := rfl
  unfold relay
  dsimp only
  rw [hcache]
  cases hput : s.mcache.put id raw with
  | none => exact Relays.quiet rfl
  | some mcache =>
    dsimp only
    generalize hs' : ((s.modifyScore (PeerScoring.validateMessage now source id
      message.topic)).modifyPromises (·.messageDelivered id)).setMcache mcache = s'
    have hpanic' : s'.panicked = false := by rw [← hs']; exact hpanic
    have hmesh : s'.mesh = s.mesh := by rw [← hs']; rfl
    have hconfig : s'.config = s.config := by rw [← hs']; rfl
    have hreached : ∀ peers, s'.reached raw peers = s.reached raw peers := fun _ => by
      rw [← hs']
      rfl
    have hrecipients : s'.forwardRecipients raw (some source) =
        s.forwardRecipients raw (some source) := by
      rw [← hs']
      rfl
    have hstart : Relays (ofRawMessage raw) s s' (fun _ => 0) :=
      Relays.quiet (by rw [← hs']; rfl)
    clear hs' hput
    cases hpeers : s'.mesh[message.topic]? with
    | none =>
      have hnone : message.topic ∉ s.mesh := by
        rw [← hmesh, TreeMap.mem_iff_isSome_getElem?, hpeers]
        simp
      have hempty : s.meshPeers message.topic = ∅ := by
        rw [meshPeers, ← hmesh, hpeers]
        rfl
      refine hstart.congr (fun p => ?_)
      simp [hnone, hempty, mem_reached]
    | some peers =>
      have hsome : message.topic ∈ s.mesh := by
        rw [← hmesh, TreeMap.mem_iff_isSome_getElem?, hpeers]
        rfl
      have hset : (sorted peers).toFinset = s.meshPeers message.topic := by
        rw [meshPeers, ← hmesh, hpeers]
        ext p
        simp
      have hdispatch := relays_dispatch raw hpanic' now (nodup_sorted peers)
      obtain ⟨trace, heq⟩ := exists_dispatch now (intoProtobuf { messages := [raw] })
        (sorted peers) s'
      rw [hset, hreached] at hdispatch
      rw [heq] at hdispatch
      dsimp only
      generalize hfold : foldl _ s' (sorted peers) = s''
      obtain rfl : s'' = { s' with trace } := hfold.symm.trans heq
      have hboth := hstart.trans hdispatch
      have hvalidate : s'.config.validateMessages = s.config.validateMessages := by rw [hconfig]
      split
      · rename_i hskip
        refine hboth.congr (fun p => ?_)
        simp [hvalidate ▸ hskip]
      · rename_i hskip
        have hforward : Relays (ofRawMessage raw) { s' with trace } _ (fun p =>
            if p ∈ s'.reached raw (s'.forwardRecipients raw (some source)) then 1 else 0) :=
          relays_forwardMsg (s := { s' with trace }) hpanic' now id raw source
        rw [hrecipients, hreached] at hforward
        refine (hboth.trans hforward).congr (fun p => ?_)
        simp [hvalidate ▸ hskip, hsome]

/-! ## Accepted messages -/

variable [DataTransform D]

theorem trace_of_not_accepted (h : s.accepted now raw source = none) :
    (s.handleReceivedMessage now raw source).trace = s.trace := by
  have hinvalid : ∀ id, (s.messageIsValid now id raw source).2.2.trace = s.trace :=
    fun id => congrArg Tracked.trace (tracked_messageIsValid id raw source)
  unfold accepted at h
  dsimp only at h
  unfold handleReceivedMessage
  dsimp only
  split
  · exact hinvalid _
  · rename_i hfast
    rw [hfast] at h
    split
    · exact congrArg Tracked.trace (tracked_handleInvalidMessage source raw _)
    · rename_i message hmessage
      rw [hmessage, if_neg (by simp)] at h
      split
      · exact hinvalid _
      · rename_i hvalid
        rw [not_not] at hvalid
        rw [messageIsValid_eq_true hvalid]
        split
        · rfl
        · rename_i seen hseen
          rw [Option.filter_eq_none_iff] at h
          have hnot := h message rfl
          rw [hvalid, hseen] at hnot
          obtain ⟨fresh, s'⟩ := seen
          cases fresh with
          | true => exact absurd rfl hnot
          | false =>
            obtain ⟨fast, -, hseen⟩ := Option.bind_eq_some_iff.mp hseen
            obtain ⟨⟨fresh, cache⟩, -, hseen⟩ := Option.bind_eq_some_iff.mp hseen
            cases hseen
            rfl

/-- How often the handling of a message sends it to the peer. -/
def transmissions (s : Gossipsub P R F D) (now : Instant) (raw : RawGossipsubMessage)
    (source peer : PeerId) : Nat :=
  copies ((s.handleReceivedMessage now raw source).trace.drop s.trace.length) peer
    (Proto.ofRawMessage raw)

theorem Relays.transmissions_eq
    (h : Relays (ofRawMessage raw) s (s.handleReceivedMessage now raw source) f)
    (p : PeerId) : s.transmissions now raw source p = f p := by
  obtain ⟨l, hl, hcopies⟩ := h
  rw [transmissions, hl, drop_left, hcopies]

theorem transmissions_of_accepted {source : PeerId} {message : GossipsubMessage}
    (hpanic : s.panicked = false) (h : s.accepted now raw source = some message) (p : PeerId) :
    s.transmissions now raw source p =
      if (s.mcache.put (s.config.messageIdFn message) (s.config.ingest raw)).isSome then
        (if p ∈ s.reached raw (s.meshPeers message.topic) then 1 else 0) +
        (if message.topic ∈ s.mesh ∧ s.config.validateMessages = false ∧
          p ∈ s.reached raw (s.forwardRecipients raw (some source)) then 1 else 0)
      else 0 := by
  obtain ⟨s', hseen, heq⟩ := accepted_eq_some h
  obtain ⟨fast, cache, trace, hframe⟩ := exists_notifySubs hseen message
  have hnotify : Relays (ofRawMessage raw) s (s'.notifySubs now message) (fun _ => 0) :=
    relays_notifySubs hseen message
  rw [acceptMessage_eq] at heq
  generalize s'.notifySubs now message = s₁ at heq hframe hnotify
  have hpanic₁ : s₁.panicked = false := by rw [hframe]; exact hpanic
  have hmcache : s₁.mcache = s.mcache := by rw [hframe]
  have hconfig : s₁.config = s.config := by rw [hframe]
  have hmesh : s₁.mesh = s.mesh := by rw [hframe]
  have hreached : ∀ peers, s₁.reached raw peers = s.reached raw peers := by
    intro peers
    rw [hframe]
    rfl
  have hrecipients : s₁.forwardRecipients raw (some source) =
      s.forwardRecipients raw (some source) := by
    rw [hframe]
    rfl
  have hrelay := relays_relay hpanic₁ now (s.config.messageIdFn message) (s.config.ingest raw)
    message source
  rw [← heq, ofRawMessage_ingest] at hrelay
  rw [(hnotify.trans hrelay).transmissions_eq p, reached_ingest, reached_ingest,
    forwardRecipients_ingest, hreached, hreached, hrecipients, hmcache, hconfig, hmesh,
    Nat.zero_add, meshPeers, meshPeers, hmesh]

/-- A message goes to neither its source nor its author, and to nobody twice, exactly if every
connected mesh peer of its topic is neither of them and is not going to be forwarded the message as
well. -/
theorem transmissions_le_one_iff (s : Gossipsub P R F D) (now : Instant)
    (raw : RawGossipsubMessage) (source : PeerId) (hpanic : s.panicked = false) :
    ((∀ p, p = source ∨ raw.source = some p → s.transmissions now raw source p = 0) ∧
      ∀ p, s.transmissions now raw source p ≤ 1) ↔
    ∀ message, s.accepted now raw source = some message →
      (s.mcache.put (s.config.messageIdFn message) (s.config.ingest raw)).isSome = true →
      s.fits raw = true →
      ∀ p ∈ s.meshPeers message.topic, p ∈ s.connectedPeer →
        p ≠ source ∧ raw.source ≠ some p ∧
          (s.config.validateMessages = true ∨ ¬ s.mayForwardTo raw.topic p) := by
  cases haccepted : s.accepted now raw source with
  | none =>
    have hquiet : Relays (ofRawMessage raw) s (s.handleReceivedMessage now raw source)
        (fun _ => 0) := Relays.quiet (trace_of_not_accepted haccepted)
    simp only [hquiet.transmissions_eq]
    simp
  | some message =>
    simp only [transmissions_of_accepted hpanic haccepted, Option.some.injEq, forall_eq']
    by_cases hput : (s.mcache.put (s.config.messageIdFn message) (s.config.ingest raw)).isSome = true
    · by_cases hfits : s.fits raw = true
      · simp only [if_pos hput, mem_reached, hfits, and_true]
        constructor
        · rintro ⟨hnone, hone⟩ - - p hp hconnected
          have hfirst := hnone p
          have htwice := hone p
          rw [if_pos ⟨hp, hconnected⟩] at hfirst htwice
          have hsource : p ≠ source := fun h => absurd (hfirst (.inl h)) (by omega)
          have hauthor : raw.source ≠ some p := fun h => absurd (hfirst (.inr h)) (by omega)
          refine ⟨hsource, hauthor, ?_⟩
          by_contra hboth
          rw [not_or, not_not, Bool.not_eq_true] at hboth
          have hforward : p ∈ s.forwardRecipients raw (some source) :=
            mem_forwardRecipients.mpr ⟨⟨by simpa using hsource, hauthor.symm⟩, hboth.2⟩
          rw [if_pos ⟨mem_mesh_of_mem_meshPeers hp, hboth.1,
            hforward, hconnected⟩] at htwice
          omega
        · intro hmesh
          refine ⟨?_, fun p => ?_⟩
          · rintro p hp
            rw [if_neg, if_neg]
            · rintro ⟨-, -, hreached⟩
              obtain ⟨⟨hsource, hauthor⟩, -⟩ := mem_forwardRecipients.mp hreached.1
              rcases hp with rfl | hp
              · exact hsource rfl
              · exact hauthor hp.symm
            · rintro ⟨hmem, hconnected⟩
              obtain ⟨hsource, hauthor, -⟩ := hmesh hput trivial p hmem hconnected
              rcases hp with hp | hp
              · exact hsource hp
              · exact hauthor hp
          · by_cases hmem : p ∈ s.meshPeers message.topic ∧ p ∈ s.connectedPeer
            · obtain ⟨-, -, honce⟩ := hmesh hput trivial p hmem.1 hmem.2
              rw [if_pos hmem, if_neg]
              rintro ⟨-, hvalidate, hreached⟩
              obtain ⟨-, hforward⟩ := mem_forwardRecipients.mp hreached.1
              rcases honce with honce | honce
              · rw [honce] at hvalidate
                cases hvalidate
              · exact honce hforward
            · rw [if_neg hmem, Nat.zero_add]
              split <;> omega
      · simp [mem_reached, hfits]
    · simp [hput]

end Scored

def sampleMessage : RawGossipsubMessage :=
  { source := none
    data := [1]
    sequenceNumber := none
    topic := sampleTopic
    signature := none
    key := none
    validated := false }

def sampleReceipt (now : Instant) : Turn SteadyScore ℚ :=
  ⟨now, .event (.message samplePeer { messages := [sampleMessage] } [])⟩

/-- The node joins the topic, and the only other subscriber is an explicit peer. -/
def explicitStart : List (Turn SteadyScore ℚ) :=
  [⟨0, .call (.addExplicitPeer goodPeer)⟩,
   ⟨0, .command (.subscribe sampleTopic)⟩,
   ⟨0, .event (.newPeer samplePeer)⟩] ++ arrival goodPeer

/-- The explicit peer gets the message of another peer once, and nobody else gets it. -/
theorem explicitStart_transmissions :
    (run step scoredNode explicitStart).transmissions 1 sampleMessage samplePeer goodPeer = 1 ∧
    (∀ p, p = samplePeer ∨ sampleMessage.source = some p →
      (run step scoredNode explicitStart).transmissions 1 sampleMessage samplePeer p = 0) ∧
    ∀ p, (run step scoredNode explicitStart).transmissions 1 sampleMessage samplePeer p ≤ 1 :=
  ⟨by decide +kernel,
    (transmissions_le_one_iff _ 1 sampleMessage samplePeer (by decide +kernel)).mpr
      (fun message h _ _ p hp => by
        have hmessage : (run step scoredNode explicitStart).accepted 1 sampleMessage samplePeer =
            some ⟨none, [1], none, sampleTopic⟩ := by decide +kernel
        rw [hmessage] at h
        cases h
        have hmesh : (run step scoredNode explicitStart).meshPeers sampleTopic = ∅ := by
          decide +kernel
        exact absurd hp (Finset.notMem_empty p))⟩

/-- Of two mesh peers, the one that sent the message gets it back and the other gets it twice. -/
theorem scoredStart_transmissions :
    (run step scoredNode scoredStart).accepted 1 sampleMessage samplePeer =
        some ⟨none, [1], none, sampleTopic⟩ ∧
      (run step scoredNode scoredStart).transmissions 1 sampleMessage samplePeer samplePeer = 1 ∧
      (run step scoredNode scoredStart).transmissions 1 sampleMessage samplePeer
        (PeerId.ofByte 3) = 2 := by
  decide +kernel

end Gossipsub

end Libp2pRs.Gossip
