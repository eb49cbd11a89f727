import Libp2pRs.Gossip.Membership

/-!
# When a handler panics

A fault has a cause: a clock or a counter that is full, a configuration without ticks or without a
history, or a backoff that cannot be represented. `Effect.fault_cases` lists the causes; the two
results exclude those of one kind each.
-/

namespace Libp2pRs.Gossip

open Lib Libp2pRs.Core Std BackoffStorage

/-! ## The wheel of the backoffs -/

namespace BackoffStorage

variable {interval time : Duration} {slack size index : Nat} {b b' : BackoffStorage}
  {now : Instant} {topic : TopicHash} {peer : PeerId} {fault : Fault}

theorem Wheel.slotOf_eq_error (h : b.Wheel interval slack size) (hinterval : interval ≠ 0)
    (hb : b.slotOf time = .error fault) :
    fault = .backoff ∧ 2 ^ 64 ≤ size + (time + interval - 1) / interval + slack := by
  have hindex := h.index_lt
  have hmod := Nat.mod_le ((time + interval - 1) / interval) (2 ^ 64)
  rw [slotOf, heartbeats, h.interval_eq, if_neg hinterval, h.slack_eq, h.size_eq] at hb
  simp only [bind, Except.bind] at hb
  split at hb
  case isTrue hle =>
    cases hb
    exact ⟨rfl, by omega⟩
  case isFalse =>
    rw [if_neg (by omega)] at hb
    cases hb

theorem checkedAdd_eq_none {t : Instant} {d : Duration} (h : t.checkedAdd d = none) :
    Instant.max < t + d := by
  unfold Instant.checkedAdd at h
  split at h
  case isTrue => cases h
  case isFalse hle => exact Nat.lt_of_not_le hle

theorem Wheel.updateBackoff_eq_error (h : b.Wheel interval slack size) (hinterval : interval ≠ 0)
    (hb : b.updateBackoff now topic peer time = .error fault) :
    fault = .backoff ∧ (Instant.max < now + time ∨
      2 ^ 64 ≤ size + (time + interval - 1) / interval + slack) := by
  have hslot : b.slotOf time = .error fault → fault = .backoff ∧ (Instant.max < now + time ∨
      2 ^ 64 ≤ size + (time + interval - 1) / interval + slack) := by
    intro hs
    obtain ⟨hf, hle⟩ := h.slotOf_eq_error hinterval hs
    exact ⟨hf, .inr hle⟩
  rcases Fault.bind_eq_error hb with hadd | ⟨instant, -, hb⟩
  · obtain ⟨hf, hnone⟩ := Fault.orElse_eq_error hadd
    exact ⟨hf, .inl (checkedAdd_eq_none hnone)⟩
  · split at hb
    case h_1 =>
      split at hb
      case isTrue =>
        rcases Fault.bind_eq_error hb with hs | ⟨newIndex, -, hb⟩
        · exact hslot hs
        · cases hb
      case isFalse => cases hb
    case h_2 =>
      rcases Fault.bind_eq_error hb with hs | ⟨newIndex, -, hb⟩
      · exact hslot hs
      · cases hb

theorem retain_eq_error {backoffs : BackoffMap} {span : Duration}
    {pairs : List (TopicHash × PeerId)} (h : retain span now backoffs pairs = .error fault) :
    fault = .backoff ∧ ∃ t p u, timeIn backoffs t p = some u ∧ Instant.max < u + span := by
  induction pairs generalizing backoffs with
  | nil => cases h
  | cons pair pairs ih =>
    rcases Fault.bind_eq_error h with hkeep | ⟨kept, -, h⟩
    · unfold keep at hkeep
      split at hkeep
      case h_1 u hu =>
        obtain ⟨hf, hnone⟩ := Fault.orElse_eq_error hkeep
        exact ⟨hf, pair.1, pair.2, u, hu, checkedAdd_eq_none (Option.map_eq_none_iff.mp hnone)⟩
      case h_2 => cases hkeep
    · cases kept with
      | true =>
        rcases Fault.bind_eq_error h with hrest | ⟨r, -, h⟩
        · exact ih hrest
        · cases h
      | false =>
        obtain ⟨hf, t, p, u, hu, hmax⟩ := ih h
        have hdrop : timeIn (drop backoffs pair.1 pair.2) t p = _ :=
          congrArg (Option.map Prod.fst) (entryIn_drop backoffs pair (t, p))
        rw [hdrop] at hu
        split at hu
        · cases hu
        · exact ⟨hf, t, p, u, hu, hmax⟩

theorem Wheel.heartbeat_eq_error (h : b.Wheel interval slack size)
    (hb : b.heartbeat now = .error fault) :
    fault = .backoff ∧ (Duration.max < interval * slack ∨
      ∃ t p u, b.getBackoffTime t p = some u ∧ Instant.max < u + interval * slack) := by
  have hindex := h.index_lt
  unfold BackoffStorage.heartbeat at hb
  rw [h.size_eq, if_neg (by omega)] at hb
  split at hb
  case h_1 => cases hb
  case h_2 =>
    rw [h.interval_eq, h.slack_eq] at hb
    dsimp only at hb
    split at hb
    case isTrue hlt =>
      cases hb
      exact ⟨rfl, .inl hlt⟩
    case isFalse =>
      rcases Fault.bind_eq_error hb with hretain | ⟨r, -, hb⟩
      · obtain ⟨hf, hlate⟩ := retain_eq_error hretain
        exact ⟨hf, .inr hlate⟩
      · cases hb

end BackoffStorage

/-- The configurations for which nothing is divided by zero or taken from an empty history. -/
structure GossipsubConfig.Regular (c : GossipsubConfig) : Prop extends c.Steady where
  explicit_ticks : c.checkExplicitPeersTicks ≠ 0
  history : c.historyLength ≠ 0
  interval : c.heartbeatInterval ≠ 0

/-- The longest span of time that is added to the time of a backoff. -/
def GossipsubConfig.reserve (c : GossipsubConfig) : Duration :=
  max (c.heartbeatInterval * c.backoffSlack) c.graftFloodThreshold

/-! ## The causes of a fault -/

namespace Tracked

variable {D : Type} {g : Grant} {now : Instant} {n n' : Tracked D} {fault : Fault}

theorem Effect.fault_cases (h : Effect g now n n') :
    n'.fault = n.fault ∨ ∃ fault, n'.fault = some (n.fault.getD fault) ∧ n.Cause g now fault := by
  cases h with
  | panic hcause => exact .inr ⟨_, rfl, hcause⟩
  | upkeep _ _ _ _ hdisturbs =>
    rcases hdisturbs with heq | ⟨hsteady, heq⟩
    · exact .inl heq
    · exact .inr ⟨_, heq, .unsteady hsteady⟩
  | _ => exact .inl rfl

theorem Effect.fault_ne (h : Effect g now n n') (hcause : ¬ n.Cause g now fault)
    (hn : n.fault ≠ some fault) : n'.fault ≠ some fault := by
  rcases h.fault_cases with heq | ⟨f, heq, hf⟩
  · rw [heq]
    exact hn
  · rw [heq]
    cases hfault : n.fault with
    | none =>
      rintro ⟨⟩
      exact hcause hf
    | some old =>
      rw [hfault] at hn
      exact hn

structure Framed (c : GossipsubConfig) (size : Nat) (n : Tracked D) : Prop where
  config : n.config = c
  wheel : n.backoffs.Wheel c.heartbeatInterval c.backoffSlack size
  history : n.mcache.history.length = c.historyLength
  gossip : n.mcache.gossip = c.historyGossip

variable {c : GossipsubConfig} {size : Nat}

theorem Framed.effect (h : Effect g now n n') (hn : n.Framed c size) : n'.Framed c size := by
  obtain ⟨hconfig, hwheel, hhistory, hgossip⟩ := hn
  cases h with
  | delay _ _ hupdate => exact ⟨hconfig, hwheel.updateBackoff hupdate, hhistory, hgossip⟩
  | clean _ hclean => exact ⟨hconfig, hwheel.heartbeat hclean, hhistory, hgossip⟩
  | put hput =>
    unfold MessageCache.put at hput
    split at hput
    case isTrue =>
      cases hput
      exact ⟨hconfig, hwheel, hhistory, hgossip⟩
    case isFalse =>
      split at hput
      case h_1 => cases hput
      case h_2 slot slots hslots =>
        cases hput
        rw [hslots] at hhistory
        exact ⟨hconfig, hwheel, hhistory, hgossip⟩
  | @validate id _ =>
    unfold MessageCache.validate
    split <;> exact ⟨hconfig, hwheel, hhistory, hgossip⟩
  | shift hshift =>
    unfold MessageCache.shift at hshift
    split at hshift
    case h_1 => cases hshift
    case h_2 slot hslot =>
      cases hshift
      have hne : n.mcache.history ≠ [] := by
        intro hnil
        rw [hnil] at hslot
        cases hslot
      have hpos : 0 < n.mcache.history.length := List.length_pos_of_ne_nil hne
      refine ⟨hconfig, hwheel, ?_, hgossip⟩
      rw [List.length_cons, List.length_dropLast]
      omega
  | _ => exact ⟨hconfig, hwheel, hhistory, hgossip⟩

theorem Framed.not_arithmetic (hn : n.Framed c size) (hbuilt : c.Built) (hregular : c.Regular) :
    ¬ n.Cause g now .arithmetic := by
  have hlength : n.mcache.history.length ≠ 0 := by
    rw [hn.history]
    exact hregular.history
  intro hcause
  cases hcause with
  | unsound hsound =>
    refine hsound ⟨?_, ?_, ?_⟩
    · rw [hn.config]
      exact hregular.explicit_ticks
    · exact fun hnil => hlength (List.length_eq_zero_iff.mpr hnil)
    · rw [hn.gossip, hn.history]
      exact hbuilt.history
  | unsteady hsteady =>
    rw [hn.config] at hsteady
    exact hsteady ⟨hbuilt, hregular.toSteady⟩
  | delay _ herror => cases (hn.wheel.updateBackoff_eq_error hregular.interval herror).1
  | clean herror => cases (hn.wheel.heartbeat_eq_error herror).1

/-- Every backoff ends early enough for the spans that are added to its time. -/
def Timely (c : GossipsubConfig) (n : Tracked D) : Prop :=
  ∀ t p u, n.backoffs.getBackoffTime t p = some u → u + c.reserve ≤ Instant.max

theorem Timely.effect (h : Effect g now n n') (hconfig : n.config = c)
    (hgrant : ∀ time, time = c.pruneBackoff ∨ g.backoff time →
      now + time + c.reserve ≤ Instant.max)
    (hn : n.Timely c) : n'.Timely c := by
  cases h with
  | @delay topic peer time _ _ htime hupdate =>
    rw [hconfig] at htime
    have hnew := hgrant time htime
    intro t p u hu
    rw [getBackoffTime_updateBackoff hupdate] at hu
    split at hu
    case isTrue =>
      cases hu
      cases hold : n.backoffs.getBackoffTime t p with
      | none => simpa using hnew
      | some old =>
        have hlate := hn t p old hold
        rcases Nat.le_total old (now + time) with hle | hle
        · rw [Option.getD_some, max_eq_right hle]
          exact hnew
        · rw [Option.getD_some, max_eq_left hle]
          exact hlate
    case isFalse => exact hn t p u hu
  | clean _ hclean =>
    intro t p u hu
    rcases getBackoffTime_heartbeat hclean t p with heq | ⟨hnone, -⟩
    · rw [heq] at hu
      exact hn t p u hu
    · rw [hnone] at hu
      cases hu
  | _ => exact hn

theorem Framed.not_backoff (hn : n.Framed c size) (hinterval : c.heartbeatInterval ≠ 0)
    (htimely : n.Timely c)
    (hgrant : ∀ time, time = c.pruneBackoff ∨ g.backoff time →
      now + time + c.reserve ≤ Instant.max ∧
        size + (time + c.heartbeatInterval - 1) / c.heartbeatInterval + c.backoffSlack < 2 ^ 64) :
    ¬ n.Cause g now .backoff := by
  have hslack : c.heartbeatInterval * c.backoffSlack ≤ c.reserve := Nat.le_max_left _ _
  have hthreshold : c.graftFloodThreshold ≤ c.reserve := Nat.le_max_right _ _
  intro hcause
  cases hcause with
  | @flood t p u htime hmax =>
    rw [hn.config] at hmax
    have hlate := (Nat.add_le_add_left hthreshold u).trans (htimely t p u htime)
    exact absurd hmax (Nat.not_lt.mpr hlate)
  | @delay t p time _ htime herror =>
    rw [hn.config] at htime
    obtain ⟨hfits, hslot⟩ := hgrant time htime
    rcases (hn.wheel.updateBackoff_eq_error hinterval herror).2 with hmax | hmax
    · exact absurd hmax (Nat.not_lt.mpr ((Nat.le_add_right _ _).trans hfits))
    · exact absurd hmax (Nat.not_le.mpr hslot)
  | clean herror =>
    rcases (hn.wheel.heartbeat_eq_error herror).2 with hmax | ⟨t, p, u, htime, hmax⟩
    · have hfits := (Nat.le_add_left _ _).trans (hgrant c.pruneBackoff (.inl rfl)).1
      have hspan : Instant.max ≤ Duration.max := by decide
      exact absurd hmax (Nat.not_lt.mpr ((hslack.trans hfits).trans hspan))
    · have hlate := (Nat.add_le_add_left hslack u).trans (htimely t p u htime)
      exact absurd hmax (Nat.not_lt.mpr hlate)

end Tracked

namespace Gossipsub

variable {P R F D : Type} {s : Gossipsub P R F D}

theorem getBackoffTime_new {pruneBackoff interval : Duration} {slack : Nat} {b : BackoffStorage}
    (h : BackoffStorage.new pruneBackoff interval slack = .ok b) (t : TopicHash) (p : PeerId) :
    b.getBackoffTime t p = none := by
  obtain ⟨count, -, h⟩ := Fault.bind_eq_ok.mp h
  dsimp only at h
  split at h
  case isTrue => cases h
  case isFalse =>
    cases h
    simp [getBackoffTime, timeIn]

theorem framed_initial {privacy : MessageAuthenticity} {config : GossipsubConfig} {filter : F}
    {transform : D} {rng : Rng} {backoffs : BackoffStorage}
    (h : BackoffStorage.new config.pruneBackoff config.heartbeatInterval config.backoffSlack =
      .ok backoffs) :
    (initial (P := P) (R := R) privacy config filter transform rng backoffs).tracked.Framed config
      backoffs.backoffsByHeartbeat.length := by
  obtain ⟨count, -, h⟩ := Fault.bind_eq_ok.mp h
  dsimp only at h
  split at h
  case isTrue => cases h
  case isFalse =>
    cases h
    refine ⟨rfl, ⟨rfl, rfl, rfl, ?_⟩, List.length_replicate, rfl⟩
    exact Nat.succ_pos _

variable [ScoreArith R] [PeerScoring P R] [TopicSubscriptionFilter F] [DataTransform D]

/-- A regular configuration never leads to a division or a remainder by zero, a difference below
zero, an index out of range or a pop from an empty history: neither when the node is made nor in
any run. -/
theorem never_arithmetic {config : GossipsubConfig} (hbuild : config.build = .ok config)
    (hregular : config.Regular) :
    BackoffStorage.new config.pruneBackoff config.heartbeatInterval config.backoffSlack ≠
        .error .arithmetic ∧
      ∀ (privacy : MessageAuthenticity) (filter : F) (transform : D) (rng : Rng)
        (s : Gossipsub P R F D), new P R privacy config filter transform rng = some (.ok s) →
        ∀ turns : List (Turn P R), Always step (fun s => s.fault ≠ some .arithmetic) s turns := by
  have hbuilt := GossipsubConfig.build_eq_ok hbuild
  constructor
  · intro h
    rw [BackoffStorage.new, BackoffStorage.heartbeats, if_neg hregular.interval] at h
    simp only [bind, Except.bind] at h
    split at h
    · cases h
    · cases h
  · intro privacy filter transform rng s hnew turns
    obtain ⟨backoffs, hbackoffs, rfl⟩ := exists_initial hnew
    have hframed : (initial (P := P) (R := R) privacy config filter transform rng
        backoffs).tracked.Framed config backoffs.backoffsByHeartbeat.length :=
      framed_initial hbackoffs
    rw [always_iff_run]
    intro pre _
    have hrun := run_of_effect
      (I := fun n => n.Framed config backoffs.backoffsByHeartbeat.length ∧
        n.fault ≠ some .arithmetic)
      (fun _ _ _ _ heffect hn => ⟨hn.1.effect heffect,
        heffect.fault_ne (hn.1.not_arithmetic hbuilt hregular) hn.2⟩)
      ⟨hframed, nofun⟩ (poolPlain_of_empty rfl) pre
    exact hrun.2

theorem sampleJoin_never_arithmetic :
    Always step (fun s => s.fault ≠ some .arithmetic) sampleNode
      (⟨0, .command (.subscribe sampleTopic)⟩ :: sampleJoin ++ [⟨1, .event .heartBeat⟩]) := by
  have hregular : sampleConfig.Regular :=
    ⟨⟨by decide, by decide⟩, by decide, by decide, by decide⟩
  exact (never_arithmetic (by rfl) hregular).2 .anonymous ⟨⟩ ⟨⟩ sampleRng sampleNode sampleNode_new _

def faultAfter (config : GossipsubConfig) (turns : List (Turn Empty ℚ)) : Option Fault :=
  match new Empty ℚ .anonymous config (⟨⟩ : AllowAllSubscriptionFilter) (⟨⟩ : IdentityTransform)
      sampleRng with
  | some (.ok s) => (run step s turns).fault
  | _ => none

/-- The builder accepts each of these configurations: without ticks for the explicit peers or the
opportunistic grafts, without a history, and without a heartbeat interval. -/
theorem irregular_arithmetic :
    ({ sampleConfig with checkExplicitPeersTicks := 0 }.build.isOk = true ∧
      faultAfter { sampleConfig with checkExplicitPeersTicks := 0 } [⟨0, .event .heartBeat⟩] =
        some .arithmetic) ∧
    ({ sampleConfig with opportunisticGraftTicks := 0 }.build.isOk = true ∧
      faultAfter { sampleConfig with opportunisticGraftTicks := 0 }
          [⟨0, .command (.subscribe sampleTopic)⟩, ⟨0, .event .heartBeat⟩] = some .arithmetic) ∧
    ({ sampleConfig with historyLength := 0, historyGossip := 0 }.build.isOk = true ∧
      faultAfter { sampleConfig with historyLength := 0, historyGossip := 0 }
          [⟨0, .event .heartBeat⟩] = some .arithmetic) ∧
    ({ sampleConfig with heartbeatInterval := 0 }.build.isOk = true ∧
      BackoffStorage.new sampleConfig.pruneBackoff 0 sampleConfig.backoffSlack =
        .error .arithmetic) := by
  refine ⟨⟨by rfl, by decide +kernel⟩, ⟨by rfl, by decide +kernel⟩, ⟨by rfl, by decide +kernel⟩,
    by rfl, by rfl⟩

/-- The backoffs that the step may store leave the reserve, and have a slot in the wheel. -/
def Representable (s : Gossipsub P R F D) (turn : Turn P R) : Prop :=
  ∀ time, time = s.config.pruneBackoff ∨ (s.grantOf turn).backoff time →
    turn.now + time + s.config.reserve ≤ Instant.max ∧
      s.backoffs.backoffsByHeartbeat.length +
        (time + s.config.heartbeatInterval - 1) / s.config.heartbeatInterval +
        s.config.backoffSlack < 2 ^ 64

/-- In every run whose steps store only representable backoffs, no time or slot of a backoff
overflows: neither when it is stored, nor in a later heartbeat, nor when a GRAFT is checked. -/
theorem never_backoff {privacy : MessageAuthenticity} {config : GossipsubConfig} {filter : F}
    {transform : D} {rng : Rng}
    (hnew : new P R privacy config filter transform rng = some (.ok s)) {turns : List (Turn P R)}
    (hturns : EachStep step Representable s turns) :
    Always step (fun s => s.fault ≠ some .backoff) s turns := by
  obtain ⟨backoffs, hbackoffs, rfl⟩ := exists_initial hnew
  have hinterval : config.heartbeatInterval ≠ 0 := by
    intro hzero
    rw [BackoffStorage.new, BackoffStorage.heartbeats, if_pos hzero] at hbackoffs
    cases hbackoffs
  have hframed : (initial (P := P) (R := R) privacy config filter transform rng
      backoffs).tracked.Framed config backoffs.backoffsByHeartbeat.length :=
    framed_initial hbackoffs
  have hempty : (initial (P := P) (R := R) privacy config filter transform rng
      backoffs).tracked.Timely config := by
    intro t p u hu
    change backoffs.getBackoffTime t p = some u at hu
    rw [getBackoffTime_new hbackoffs] at hu
    cases hu
  generalize backoffs.backoffsByHeartbeat.length = size at hframed
  refine always_mono (fun _ h => h.2.2.2) (always_of_step
    (I := fun s : Gossipsub P R F D => s.PoolPlain ∧ s.tracked.Framed config size ∧
      s.tracked.Timely config ∧ s.fault ≠ some .backoff)
    (fun s turn hs hturn => ?_) ⟨poolPlain_of_empty rfl, hframed, hempty, nofun⟩ hturns)
  · obtain ⟨hpool, hframed, htimely, hfault⟩ := hs
    have hgrant : ∀ time, time = config.pruneBackoff ∨ (s.grantOf turn).backoff time →
        turn.now + time + config.reserve ≤ Instant.max ∧
          size + (time + config.heartbeatInterval - 1) / config.heartbeatInterval +
            config.backoffSlack < 2 ^ 64 := by
      have hconfig : s.config = config := hframed.config
      have hsize : s.backoffs.backoffsByHeartbeat.length = size := hframed.wheel.size_eq
      rw [Representable, hconfig, hsize] at hturn
      exact hturn
    refine ⟨poolPlain_step hpool turn, ?_⟩
    refine (s.effects_step turn hpool).preserve
      (I := fun n => n.Framed config size ∧ n.Timely config ∧ n.fault ≠ some .backoff)
      (fun n n' heffect hn => ?_) ⟨hframed, htimely, hfault⟩
    exact ⟨hn.1.effect heffect,
      hn.2.1.effect heffect hn.1.config (fun time htime => (hgrant time htime).1),
      heffect.fault_ne (hn.1.not_backoff hinterval hn.2.1 hgrant) hn.2.2⟩

def samplePrune (backoff : Option Nat) : Turn Empty ℚ :=
  ⟨0, .event (.message samplePeer { controlMsgs := [.prune sampleTopic [] backoff] } [])⟩

theorem samplePrune_representable : sampleNode.Representable (samplePrune (some 3600)) := by
  rintro time (rfl | ⟨source, rpc, invalid, hinput, d, hd, b, hb, rfl⟩)
  · decide
  · cases hinput
    rw [List.mem_singleton.mp hd] at hb
    cases hb
    decide

theorem samplePrune_never_backoff :
    Always step (fun s => s.fault ≠ some .backoff) sampleNode [samplePrune (some 3600)] :=
  never_backoff sampleNode_new ⟨samplePrune_representable, trivial⟩

/-- The largest backoff that a peer can ask for. -/
theorem samplePrune_backoff :
    (run step sampleNode [samplePrune (some (2 ^ 64 - 1))]).fault = some .backoff := by
  decide +kernel

end Gossipsub

end Libp2pRs.Gossip
