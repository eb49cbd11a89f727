import Libp2pRs.Gossip.Relay

/-!
# Messages that wait for a verdict

With `validate_messages` the application decides whether a received message is passed on. A message
is put into the cache as it is received, and it is answered for, gossiped about and forwarded from
there once `report_message_validation_result` has tagged it as validated. A rejected message is
taken out of the cache.

The mesh peers of its topic get a message before that, when it is received. In a run in which a
message finds no such peer (`Withholds`), what is transmitted has been accepted.
-/

namespace Libp2pRs.Gossip

open Lib Libp2pRs.Core Std

/-- An output transmits and offers only messages that are cleared. -/
def Output.Clear (cleared : MessageId → RawGossipsubMessage → Prop) : Output → Prop
  | .send _ _ rpc =>
    (∀ m ∈ rpc.publish, ∃ id raw, m = Proto.ofRawMessage raw ∧ cleared id raw) ∧
      ∀ id ∈ rpc.offers, ∃ raw, cleared id raw
  | _ => True

/-! ## The cache -/

variable {id : MessageId}

variable {raw : RawGossipsubMessage}

namespace MessageCache

def Within (c c' : MessageCache) : Prop :=
  ∀ (id : MessageId) (raw : RawGossipsubMessage), c.msgs[id]? = some raw → c'.msgs[id]? = some raw

theorem within_remove (c : MessageCache) (id : MessageId) : (c.remove id).2.Within c := by
  intro i raw h
  change (c.msgs.erase id)[i]? = some raw at h
  rw [get_erase] at h
  split at h
  · cases h
  · exact h

variable {c : MessageCache}

theorem within_shift {c' : MessageCache} (h : c.shift = some c') : c'.Within c := by
  have herase : ∀ (slot : List CacheEntry) (msgs : TreeMap MessageId RawGossipsubMessage)
      (id : MessageId) (raw : RawGossipsubMessage),
      (slot.foldl (fun m e => m.erase e.mid) msgs)[id]? = some raw → msgs[id]? = some raw := by
    intro slot
    induction slot with
    | nil => exact fun _ _ _ h => h
    | cons e slot ih =>
      intro msgs id raw h
      have hget := ih _ id raw h
      rw [get_erase] at hget
      split at hget
      · cases hget
      · exact hget
  unfold shift at h
  split at h
  · cases h
  · cases h
    exact fun id raw hget => herase _ _ id raw hget

theorem msgs_validate (h : (c.validate id).2.msgs[i]? = some raw) :
    ∃ old, c.msgs[i]? = some old ∧ Proto.ofRawMessage raw = Proto.ofRawMessage old ∧
      (i ≠ id → raw = old) := by
  unfold validate at h
  split at h
  · exact ⟨raw, h, rfl, fun _ => rfl⟩
  · rename_i old hold
    rw [get_insert] at h
    split at h
    · rename_i heq
      subst heq
      cases h
      exact ⟨old, hold, rfl, fun hne => absurd rfl hne⟩
    · exact ⟨raw, h, rfl, fun _ => rfl⟩

theorem validated_of_mem_getGossipMessageIds
    (h : c.getGossipMessageIds topic = some ids) (hid : id ∈ ids) :
    ∃ raw, c.msgs[id]? = some raw ∧ raw.validated = true := by
  unfold getGossipMessageIds at h
  split at h
  · cases h
  · cases h
    obtain ⟨e, he, rfl⟩ := List.mem_map.mp hid
    obtain ⟨-, hvalidated⟩ := of_decide_eq_true (List.mem_filter.mp he).2
    exact Option.map_eq_some_iff.mp hvalidated

end MessageCache

/-! ## Effects -/

/-- What a step may ask for while messages wait. -/
structure Grant.Respects (g : Grant) (cleared pending : MessageId → RawGossipsubMessage → Prop) :
    Prop where
  receive : ∀ id raw, g.receive id raw → raw.validated = false ∧ pending id raw
  publish : ∀ id raw, g.publish id raw → cleared id raw
  accept : ∀ id raw, g.accept id → pending id raw → cleared id raw
  offer : ∀ id, g.offer id → ∃ raw, cleared id raw
  dispatch : ∀ raw, ¬ g.dispatch raw

namespace Tracked

variable {D : Type}

/-- The messages in the cache are cleared, or not validated; and whatever has been sent since the
trace had the given length is cleared. -/
structure Withheld (cleared pending : MessageId → RawGossipsubMessage → Prop) (start : Nat)
    (n : Tracked D) : Prop where
  cache : n.fault = none → ∀ (id : MessageId) (raw : RawGossipsubMessage),
    n.mcache.msgs[id]? = some raw →
      ∃ received, Proto.ofRawMessage raw = Proto.ofRawMessage received ∧
        (cleared id received ∨ raw.validated = false ∧ pending id received)
  trace : ∀ e ∈ n.trace.drop start, e.2.Clear cleared

variable {cleared pending : MessageId → RawGossipsubMessage → Prop} {start : Nat} {g : Grant}
  {now : Instant} {n n' : Tracked D}

theorem Withheld.of_validated (hn : n.Withheld cleared pending start) (hfault : n.fault = none)
    (h : n.mcache.msgs[id]? = some raw) (hvalidated : raw.validated = true) :
    ∃ received, Proto.ofRawMessage raw = Proto.ofRawMessage received ∧ cleared id received := by
  obtain ⟨received, heq, hcleared | hpending⟩ := hn.cache hfault id raw h
  · exact ⟨received, heq, hcleared⟩
  · rw [hpending.1] at hvalidated
    cases hvalidated

theorem Withheld.clear (hg : g.Respects cleared pending) (hn : n.Withheld cleared pending start)
    (hfault : n.fault = none) {o : Output} (h : n.Permits g o) : o.Clear cleared := by
  cases o with
  | send peer channel rpc =>
    obtain ⟨hmessages, hoffers⟩ := h
    refine ⟨fun m hm => ?_, fun id hid => hg.offer id (hoffers id hid)⟩
    rcases hmessages m hm with ⟨id, raw, hraw, hvalidated, rfl⟩ | ⟨id, raw, hpublish, rfl⟩ |
      ⟨raw, hdispatch, -⟩
    · obtain ⟨received, heq, hcleared⟩ := hn.of_validated hfault hraw hvalidated
      exact ⟨id, received, heq, hcleared⟩
    · exact ⟨id, raw, rfl, hg.publish id raw hpublish⟩
    · exact absurd hdispatch (hg.dispatch raw)
  | _ => trivial

theorem Withheld.extend (hn : n.Withheld cleared pending start) {more : List (Instant × Output)}
    (hmore : ∀ e ∈ more, e.2.Clear cleared) :
    ∀ e ∈ (n.trace ++ more).drop start, e.2.Clear cleared := by
  intro e he
  rw [List.drop_append] at he
  rcases List.mem_append.mp he with he | he
  · exact hn.trace e he
  · exact hmore e (List.mem_of_mem_drop he)

theorem Withheld.within (hn : n.Withheld cleared pending start) {mcache : MessageCache}
    (h : mcache.Within n.mcache) : { n with mcache }.Withheld cleared pending start :=
  ⟨fun hfault id raw hraw => hn.cache hfault id raw (h id raw hraw), hn.trace⟩

theorem Withheld.put (hg : g.Respects cleared pending) (hn : n.Withheld cleared pending start)
    {mcache : MessageCache} (h : n.mcache.put id raw = some mcache)
    (hraw : g.receive id raw ∨ g.publish id raw) :
    { n with mcache }.Withheld cleared pending start := by
  refine ⟨fun hfault i r hget => ?_, hn.trace⟩
  rw [Gossipsub.msgs_put h, get_insert] at hget
  split at hget
  · rename_i heq
    subst heq
    cases hget
    refine ⟨raw, rfl, ?_⟩
    rcases hraw with hreceive | hpublish
    · exact .inr (hg.receive _ raw hreceive)
    · exact .inl (hg.publish _ raw hpublish)
  · exact hn.cache hfault i r hget

theorem Withheld.validate (hg : g.Respects cleared pending) (hn : n.Withheld cleared pending start)
    (h : g.accept id) :
    { n with mcache := (n.mcache.validate id).2 }.Withheld cleared pending start := by
  refine ⟨fun hfault i raw hget => ?_, hn.trace⟩
  obtain ⟨old, hold, heq, hother⟩ := MessageCache.msgs_validate hget
  obtain ⟨received, hsame, hstate⟩ := hn.cache hfault i old hold
  refine ⟨received, heq.trans hsame, ?_⟩
  by_cases hi : i = id
  · subst hi
    rcases hstate with hcleared | ⟨-, hpending⟩
    · exact .inl hcleared
    · exact .inl (hg.accept i received h hpending)
  · rw [hother hi]
    exact hstate

theorem Withheld.effect (hg : g.Respects cleared pending) (h : Effect g now n n')
    (hn : n.Withheld cleared pending start) : n'.Withheld cleared pending start := by
  cases h with
  | output hfault hpermit =>
    refine ⟨hn.cache, hn.extend fun e he => ?_⟩
    rw [List.mem_singleton.mp he]
    exact hn.clear hg hfault hpermit
  | deliver =>
    refine ⟨hn.cache, hn.extend fun e he => ?_⟩
    rw [List.mem_singleton.mp he]
    trivial
  | panic => exact ⟨nofun, hn.trace⟩
  | upkeep _ hkey hsize hlinks hfault =>
    refine ⟨fun hnone => hn.cache (hfault.sticky hnone), hn.extend fun e he => ?_⟩
    obtain ⟨t, p, rfl⟩ := hlinks e he
    trivial
  | put hput hraw => exact hn.put hg hput hraw
  | validate haccept => exact hn.validate hg haccept
  | remove => exact hn.within (n.mcache.within_remove _)
  | count => exact hn.within (fun _ _ h => h)
  | shift hshift => exact hn.within (MessageCache.within_shift hshift)
  | _ => exact ⟨hn.cache, hn.trace⟩

end Tracked

/-! ## Runs -/

section Verdicts

variable {P R : Type}

def Turn.Accepts (turn : Turn P R) (id : MessageId) : Prop :=
  ∃ source, turn.input = .call (.reportMessageValidationResult id source .accept)

def Turn.Drops (turn : Turn P R) (id : MessageId) : Prop :=
  ∃ source acceptance, acceptance ≠ .accept ∧
    turn.input = .call (.reportMessageValidationResult id source acceptance)

theorem Turn.Drops.eq {turn : Turn P R} (h : turn.Drops id) (hi : turn.Drops i) : i = id := by
  obtain ⟨source, acceptance, -, hinput⟩ := h
  obtain ⟨source', acceptance', -, hinput'⟩ := hi
  rw [hinput] at hinput'
  cases hinput'
  rfl

end Verdicts

namespace Gossipsub

variable {P R F D : Type} [ScoreArith R] [PeerScoring P R] [TopicSubscriptionFilter F]
  [DataTransform D]

def Receives (s : Gossipsub P R F D) (turn : Turn P R) (id : MessageId)
    (raw : RawGossipsubMessage) : Prop :=
  ∃ r ∈ s.received turn, ∃ message, r.accepted turn.now = some message ∧
    id = r.state.config.messageIdFn message ∧ raw = r.raw

def Publishes (s : Gossipsub P R F D) (turn : Turn P R) (id : MessageId)
    (raw : RawGossipsubMessage) : Prop :=
  ∃ topic data, turn.input = .command (.publish topic data) ∧ s.Builds topic data id raw

def Published (s : Gossipsub P R F D) (turns : List (Turn P R)) (id : MessageId)
    (raw : RawGossipsubMessage) : Prop :=
  Since (fun pre turn => (run step s pre).Publishes turn id raw) (fun _ => True) turns

/-- The message has been received, and it has neither been rejected nor ignored since. -/
def Pending (s : Gossipsub P R F D) (turns : List (Turn P R)) (id : MessageId)
    (raw : RawGossipsubMessage) : Prop :=
  Since (fun pre turn => (run step s pre).Receives turn id raw) (fun turn => ¬ turn.Drops id) turns

/-- The application has accepted the message after it was received, and it has neither rejected nor
ignored the message since it was received. -/
def Accepted (s : Gossipsub P R F D) (turns : List (Turn P R)) (id : MessageId)
    (raw : RawGossipsubMessage) : Prop :=
  Since (fun pre turn => s.Pending pre id raw ∧ turn.Accepts id) (fun turn => ¬ turn.Drops id) turns

/-- The message may be transmitted: it is a message of this node, or an accepted one. -/
def MayTransmit (s : Gossipsub P R F D) (turns : List (Turn P R)) (id : MessageId)
    (raw : RawGossipsubMessage) : Prop :=
  s.Published turns id raw ∨ s.Accepted turns id raw

/-- The messages come unvalidated, and one that is accepted reaches no mesh peer of its topic. -/
def Withholds (s : Gossipsub P R F D) (turn : Turn P R) : Prop :=
  ∀ r ∈ s.received turn, r.raw.validated = false ∧
    ∀ message ∈ r.accepted turn.now, ¬ r.state.Reaches message.topic r.raw

variable {s : Gossipsub P R F D} {turns : List (Turn P R)} {turn : Turn P R} {id : MessageId}
  {raw : RawGossipsubMessage}

theorem Pending.append (h : s.Pending turns id raw) (hturn : ¬ turn.Drops id) :
    s.Pending (turns ++ [turn]) id raw :=
  since_concat.mpr (.inr ⟨h, hturn⟩)

theorem MayTransmit.append (h : s.MayTransmit turns id raw) (hturn : ¬ turn.Drops id) :
    s.MayTransmit (turns ++ [turn]) id raw :=
  h.imp (fun hpublished => since_concat.mpr (.inr ⟨hpublished, trivial⟩))
    (fun haccepted => since_concat.mpr (.inr ⟨haccepted, hturn⟩))

theorem respects_grantOf (hturn : (run step s turns).Withholds turn)
    (hvalidate : ∀ r ∈ (run step s turns).received turn,
      r.state.config.validateMessages = true)
    (hoffer : ∀ id, ((run step s turns).grantOf turn).offer id →
      ∃ raw, s.MayTransmit (turns ++ [turn]) id raw) :
    ((run step s turns).grantOf turn).Respects (s.MayTransmit (turns ++ [turn]))
      (s.Pending (turns ++ [turn])) where
  receive id raw h := by
    obtain ⟨r, hr, message, hmessage, rfl, rfl⟩ := h
    have hingest : r.state.config.ingest r.raw = r.raw := if_pos (hvalidate r hr)
    rw [hingest]
    exact ⟨(hturn r hr).1, since_concat.mpr (.inl ⟨r, hr, message, hmessage, rfl, rfl⟩)⟩
  publish id raw h := .inl (since_concat.mpr (.inl h))
  accept id raw h hpending := by
    obtain ⟨source, hinput⟩ := h
    -- a step that hands in a verdict receives nothing
    have hnone : ¬ (run step s turns).Receives turn id raw := by
      rintro ⟨r, hr, -⟩
      unfold received at hr
      rw [hinput] at hr
      cases hr
    have hbefore := ((since_concat.mp hpending).resolve_left hnone).1
    exact .inr (since_concat.mpr (.inl ⟨hbefore, source, hinput⟩))
  offer := hoffer
  dispatch raw h := by
    obtain ⟨r, hr, message, hmessage, -, hreach, -⟩ := h
    exact (hturn r hr).2 message hmessage hreach

theorem tracked_of_drops (hpanic : s.panicked = false) (h : turn.Drops id) :
    (s.step turn).tracked = { s.tracked with mcache := (s.mcache.remove id).2 } := by
  obtain ⟨source, acceptance, hacceptance, hinput⟩ := h
  have hstep : s.step turn = (s.reportMessageValidationResult turn.now id source acceptance).2 := by
    unfold step
    rw [hpanic, hinput]
    rfl
  rw [hstep]
  unfold reportMessageValidationResult
  cases acceptance with
  | accept => exact absurd rfl hacceptance
  | reject =>
    dsimp only
    split <;> rfl
  | ignore =>
    dsimp only
    split <;> rfl

theorem withheld_step (hvalidate : s.config.validateMessages = true) (hpool : s.PoolPlain)
    (hturn : (run step s turns).Withholds turn)
    (hrun : (run step s turns).tracked.Withheld (s.MayTransmit turns) (s.Pending turns) start) :
    ((run step s turns).step turn).tracked.Withheld (s.MayTransmit (turns ++ [turn]))
      (s.Pending (turns ++ [turn])) (run step s turns).trace.length := by
  have hpool' : (run step s turns).PoolPlain :=
    invariant_run (I := PoolPlain) (fun _ turn h => poolPlain_step h turn) hpool turns
  have hconfig := config_run hpool turns
  have hrespects := respects_grantOf hturn
  generalize run step s turns = s' at hturn hrun hpool' hconfig hrespects ⊢
  have hquiet : ∀ e ∈ s'.trace.drop s'.trace.length, e.2.Clear (s.MayTransmit (turns ++ [turn])) := by
    intro e he
    rw [List.drop_length] at he
    cases he
  cases hpanic : s'.panicked with
  | true =>
    have hstay : s'.step turn = s' := if_pos hpanic
    rw [hstay]
    refine ⟨fun hfault => ?_, hquiet⟩
    unfold panicked at hpanic
    rw [show s'.fault = none from hfault] at hpanic
    cases hpanic
  | false =>
    have hfault : s'.fault = none := fault_eq_none hpanic
    by_cases hdrop : ∃ id, turn.Drops id
    · obtain ⟨id, hdrop⟩ := hdrop
      rw [tracked_of_drops hpanic hdrop]
      refine ⟨fun _ i raw hget => ?_, hquiet⟩
      have hother : ¬ turn.Drops i := by
        intro hi
        rw [Turn.Drops.eq hdrop hi] at hget
        change (s'.mcache.msgs.erase id)[id]? = some raw at hget
        rw [get_erase, if_pos rfl] at hget
        cases hget
      obtain ⟨received, heq, hstate⟩ := hrun.cache hfault i raw (s'.mcache.within_remove id i raw hget)
      exact ⟨received, heq, hstate.imp (fun h => h.append hother) (fun h => ⟨h.1, h.2.append hother⟩)⟩
    · have hother : ∀ id, ¬ turn.Drops id := fun id hid => hdrop ⟨id, hid⟩
      have hstart : s'.tracked.Withheld (s.MayTransmit (turns ++ [turn]))
          (s.Pending (turns ++ [turn])) s'.trace.length := by
        refine ⟨fun _ i raw hget => ?_, hquiet⟩
        obtain ⟨received, heq, hstate⟩ := hrun.cache hfault i raw hget
        exact ⟨received, heq, hstate.imp (fun h => h.append (hother i))
          (fun h => ⟨h.1, h.2.append (hother i)⟩)⟩
      refine (s'.effects_step turn hpool').preserve
        (fun _ _ heffect h => h.effect (hrespects (fun r hr => ?_) (fun id hid => ?_)) heffect) hstart
      · rw [config_of_mem_received hr, hconfig]
        exact hvalidate
      · obtain ⟨-, topic, ids, hids, hid⟩ := hid
        obtain ⟨raw, hraw, hvalidated⟩ := MessageCache.validated_of_mem_getGossipMessageIds hids hid
        obtain ⟨received, -, hcleared⟩ := hstart.of_validated hfault hraw hvalidated
        exact ⟨received, hcleared⟩

theorem withheld_run (hvalidate : s.config.validateMessages = true) (hpool : s.PoolPlain)
    (hmsgs : s.mcache.msgs = ∅) (hturns : EachStep step Withholds s turns) :
    ∃ start, (run step s turns).tracked.Withheld (s.MayTransmit turns) (s.Pending turns) start := by
  induction turns using List.reverseRecOn with
  | nil =>
    refine ⟨s.trace.length, fun _ id raw hget => ?_, fun e he => ?_⟩
    · change s.mcache.msgs[id]? = some raw at hget
      rw [hmsgs] at hget
      simp at hget
    · change e ∈ s.trace.drop s.trace.length at he
      rw [List.drop_length] at he
      cases he
  | append_singleton turns turn ih =>
    obtain ⟨hbefore, hturn⟩ := eachStep_append.mp hturns
    obtain ⟨start, hrun⟩ := ih hbefore
    rw [run_append]
    exact ⟨_, withheld_step hvalidate hpool hturn.1 hrun⟩

/-- With `validate_messages`, in every run whose steps all withhold what they receive: whatever a
step transmits or offers is a message of this node, or one that the application has accepted and
not dropped since. -/
theorem transmits_only_accepted {privacy : MessageAuthenticity} {config : GossipsubConfig}
    {filter : F} {transform : D} {rng : Rng}
    (hnew : new P R privacy config filter transform rng = some (.ok s))
    (hvalidate : config.validateMessages = true) (turns : List (Turn P R)) (turn : Turn P R)
    (hturns : EachStep step Withholds s (turns ++ [turn])) :
    ∀ e ∈ (run step s (turns ++ [turn])).trace.drop (run step s turns).trace.length,
      ∀ peer channel rpc, e.2 = .send peer channel rpc →
        (∀ m ∈ rpc.publish, ∃ id raw, m = Proto.ofRawMessage raw ∧
          s.MayTransmit (turns ++ [turn]) id raw) ∧
        ∀ id ∈ rpc.offers, ∃ raw, s.MayTransmit (turns ++ [turn]) id raw := by
  obtain ⟨backoffs, -, rfl⟩ := exists_initial hnew
  have hpool : (initial (P := P) (R := R) privacy config filter transform rng backoffs).PoolPlain :=
    poolPlain_of_empty rfl
  obtain ⟨hbefore, hturn⟩ := eachStep_append.mp hturns
  obtain ⟨start, hrun⟩ := withheld_run hvalidate hpool rfl hbefore
  have hstep := withheld_step hvalidate hpool hturn.1 hrun
  intro e he peer channel rpc hsend
  rw [run_append] at he
  have hclear := hstep.trace e he
  rw [hsend] at hclear
  exact hclear

instance Withholds.instDecidable (s : Gossipsub P R F D) (turn : Turn P R) :
    Decidable (s.Withholds turn) :=
  inferInstanceAs (Decidable (∀ r ∈ s.received turn, r.raw.validated = false ∧
    ∀ message ∈ r.accepted turn.now, ¬ (r.state.fits r.raw = true ∧
      ∃ p ∈ r.state.meshPeers message.topic, p ∈ r.state.connectedPeer)))

def validatingNode : ScoredNode :=
  { scoredNode with config := { scoredConfig with validateMessages := true } }

theorem validatingNode_new :
    new SteadyScore ℚ .anonymous { scoredConfig with validateMessages := true }
      (⟨⟩ : AllowAllSubscriptionFilter) (⟨⟩ : IdentityTransform) ⟨fun _ => 2, 0⟩ =
      some (.ok validatingNode) := rfl

def sampleVerdict : Turn SteadyScore ℚ :=
  ⟨2, .call (.reportMessageValidationResult
    (validatingNode.config.messageIdFn ⟨none, [1], none, sampleTopic⟩) samplePeer .accept)⟩

/-- The explicit peer gets the message when it is accepted. -/
theorem explicitStart_transmits_accepted :
    (2, .send goodPeer 2 (Proto.intoProtobuf { messages := [sampleMessage] })) ∈
      (run step validatingNode ((explicitStart ++ [sampleReceipt 1]) ++ [sampleVerdict])).trace.drop
        (run step validatingNode (explicitStart ++ [sampleReceipt 1])).trace.length ∧
    ∃ id raw, Proto.ofRawMessage sampleMessage = Proto.ofRawMessage raw ∧
      validatingNode.MayTransmit ((explicitStart ++ [sampleReceipt 1]) ++ [sampleVerdict]) id raw := by
  have hsent : (2, .send goodPeer 2 (Proto.intoProtobuf { messages := [sampleMessage] })) ∈
      (run step validatingNode ((explicitStart ++ [sampleReceipt 1]) ++ [sampleVerdict])).trace.drop
        (run step validatingNode (explicitStart ++ [sampleReceipt 1])).trace.length := by
    decide +kernel
  have hall := transmits_only_accepted validatingNode_new rfl (explicitStart ++ [sampleReceipt 1])
    sampleVerdict (by decide +kernel) _ hsent goodPeer 2 _ rfl
  exact ⟨hsent, hall.1 _ List.mem_cons_self⟩

/-- A mesh peer gets the message as soon as it is received, in a run without any verdict. -/
theorem validatingNode_dispatches :
    (∀ turn ∈ scoredStart ++ [sampleReceipt 1], (∀ id, ¬ turn.Accepts id) ∧
      ∀ topic data, turn.input ≠ .command (.publish topic data)) ∧
    (1, .send (PeerId.ofByte 3) 2 (Proto.intoProtobuf { messages := [sampleMessage] })) ∈
      (run step validatingNode (scoredStart ++ [sampleReceipt 1])).trace := by
  refine ⟨fun turn hturn => ?_, by decide +kernel⟩
  have hcheck : ∀ turn ∈ scoredStart ++ [sampleReceipt 1],
      (match turn.input with
        | .call (.reportMessageValidationResult ..) | .command (.publish ..) => false
        | _ => true) = true := by
    decide
  have hfree := hcheck turn hturn
  refine ⟨fun id haccept => ?_, fun topic data hpublish => ?_⟩
  · obtain ⟨source, hinput⟩ := haccept
    rw [hinput] at hfree
    cases hfree
  · rw [hpublish] at hfree
    cases hfree

end Gossipsub

end Libp2pRs.Gossip
