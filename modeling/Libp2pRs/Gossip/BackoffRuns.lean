import Libp2pRs.Gossip.Backoff

/-!
# Sequences of calls on the backoffs

The times and the wheel are two records of the same pairs. They stay in step over every sequence of
calls, also when a time is raised or when a backoff is longer than the wheel.
-/

namespace Libp2pRs.Gossip.BackoffStorage

open Lib Libp2pRs.Core Std

inductive Call where
  | updateBackoff (x : TopicHash × PeerId) (time : Duration)
  | heartbeat

def call (b : BackoffStorage) (c : Instant × Call) : Except Fault BackoffStorage :=
  match c.2 with
  | .updateBackoff x time => b.updateBackoff c.1 x.1 x.2 time
  | .heartbeat => b.heartbeat c.1

def calls (b : BackoffStorage) (cs : List (Instant × Call)) : Except Fault BackoffStorage :=
  cs.foldlM call b

def Call.isHeartbeat : Call → Bool
  | .updateBackoff _ _ => false
  | .heartbeat => true

def requests (x : TopicHash × PeerId) (c : Instant × Call) : List Instant :=
  match c.2 with
  | .updateBackoff y time => if y = x then [c.1 + time] else []
  | .heartbeat => []

/-- The times that have been asked for since the pair was absent, the last one first. -/
def requested (x : TopicHash × PeerId) :
    BackoffStorage → List Instant → List (Instant × Call) → List Instant
  | _, times, [] => times
  | b, times, c :: cs =>
    match b.call c with
    | .error _ => times
    | .ok b' =>
      let times' := if b'.getBackoffTime x.1 x.2 = none then [] else requests x c ++ times
      requested x b' times' cs

/-- A slot holds the pairs that are stored with its number, each once. -/
structure Placed (b : BackoffStorage) : Prop where
  mem_slot : ∀ x i, x ∈ b.slot i ↔ ∃ time, entryIn b.backoffs x = some (time, i)
  nodup : ∀ i, (b.slot i).Nodup

variable {b b' : BackoffStorage} {now u : Instant} {topic : TopicHash} {peer : PeerId}
  {time interval : Duration} {slack size : Nat} {x : TopicHash × PeerId}

theorem Placed.updateBackoff (h : b.Placed) (hb : b.updateBackoff now topic peer time = .ok b') :
    b'.Placed := by
  obtain ⟨rfl, -⟩ | ⟨slots, index, hindex, rfl, hold⟩ := updateBackoff_cases hb
  · exact h
  · -- without the pair, the slots are as they were
    have hslots : slots.length = b.backoffsByHeartbeat.length ∧
        ∀ i, (slots[i]?.getD []).Nodup ∧ ∀ y, y ∈ slots[i]?.getD [] ↔
          y ≠ (topic, peer) ∧ ∃ time, entryIn b.backoffs y = some (time, i) := by
      obtain ⟨hnone, rfl⟩ | ⟨e, he, -, rfl⟩ := hold
      · refine ⟨rfl, fun i => ⟨h.nodup i, fun y => (h.mem_slot y i).trans ?_⟩⟩
        grind
      · refine ⟨List.length_modify _ _ _, fun i => ?_⟩
        have hnodup := h.nodup i
        have hmem := fun y => h.mem_slot y i
        unfold slot at hnodup hmem
        rw [List.getElem?_modify]
        cases hi : b.backoffsByHeartbeat[i]? with
        | none => grind
        | some s =>
          rw [hi] at hnodup hmem
          by_cases heq : e.2 = i
          · subst heq
            refine ⟨by simpa using hnodup.erase _, fun y => ?_⟩
            grind
          · grind
    obtain ⟨hlength, hslots⟩ := hslots
    have hentry := fun y => entryIn_insert b.backoffs (topic, peer) y (now + time, index)
    have hslot : ∀ i, (store { b with backoffsByHeartbeat := slots } topic peer (now + time)
        index).slot i = if index = i then List.insert (topic, peer) (slots[i]?.getD [])
          else slots[i]?.getD [] := by
      intro i
      unfold slot store
      grind
    constructor
    · intro y i
      rw [hslot]
      have hnew := hentry y
      unfold store
      grind
    · intro i
      rw [hslot]
      have hnodup := (hslots i).1
      split
      · exact hnodup.insert
      · exact hnodup

theorem Placed.heartbeat (h : b.Placed) (hindex : b.heartbeatIndex < b.backoffsByHeartbeat.length)
    (hb : b.heartbeat now = .ok b') : b'.Placed := by
  obtain ⟨r, hr, rfl⟩ := heartbeat_eq_ok hb
  obtain ⟨hsub, hspec⟩ := retain_spec hr
  have hslot : ∀ i, slot { b with
      backoffs := r.1
      backoffsByHeartbeat := b.backoffsByHeartbeat.set b.heartbeatIndex r.2
      heartbeatIndex := (b.heartbeatIndex + 1) % b.backoffsByHeartbeat.length } i =
        if b.heartbeatIndex = i then r.2 else b.slot i := by
    intro i
    unfold slot
    rw [List.getElem?_set, if_pos hindex]
    split <;> rfl
  constructor
  · intro y i
    have hmem := h.mem_slot y i
    have hmem' := h.mem_slot y b.heartbeatIndex
    obtain ⟨hkept, hentry⟩ := hspec y
    grind
  · intro i
    rw [hslot]
    split
    · exact (h.nodup b.heartbeatIndex).sublist hsub
    · exact h.nodup i

/-! ## Sequences of calls -/

variable {c : Instant × Call} {cs : List (Instant × Call)}

structure Sound (interval : Duration) (slack size : Nat) (b : BackoffStorage) : Prop
    extends Wheel interval slack size b, Placed b

theorem Sound.call (h : b.Sound interval slack size) (hb : b.call c = .ok b') :
    b'.Sound interval slack size := by
  obtain ⟨now, ⟨y, time⟩ | _⟩ := c
  · exact ⟨h.toWheel.updateBackoff hb, h.toPlaced.updateBackoff hb⟩
  · exact ⟨h.toWheel.heartbeat hb, h.toPlaced.heartbeat (h.size_eq ▸ h.index_lt) hb⟩

theorem Sound.calls (h : b.Sound interval slack size) (hb : b.calls cs = .ok b') :
    b'.Sound interval slack size := by
  induction cs generalizing b with
  | nil =>
    cases hb
    exact h
  | cons c cs ih =>
    obtain ⟨b₁, hcall, hb⟩ := Fault.bind_eq_ok.mp hb
    exact ih (h.call hcall) hb

theorem sound_new (h : new pruneBackoff interval slack = .ok b) :
    b.backoffs = ∅ ∧ ∃ size, b.Sound interval slack size := by
  obtain ⟨n, -, h⟩ := Fault.bind_eq_ok.mp h
  dsimp only at h
  split at h
  · cases h
  · cases h
    have hslot : ∀ i : Nat,
        (List.replicate (n + slack + 1) ([] : List (TopicHash × PeerId)))[i]?.getD [] = [] := by
      intro i
      rw [List.getElem?_replicate]
      split <;> rfl
    refine ⟨rfl, _, ⟨rfl, rfl, List.length_replicate, Nat.succ_pos _⟩, fun y i => ?_, fun i => ?_⟩
    · simp [slot, hslot, entryIn]
    · simp [slot, hslot]

theorem Sound.drop (h : b.Sound interval slack size) (hb : b.call c = .ok b')
    (hu : b.getBackoffTime x.1 x.2 = some u) (hnone : b'.getBackoffTime x.1 x.2 = none) :
    c.2 = .heartbeat ∧ u + interval * slack ≤ c.1 := by
  obtain ⟨now, ⟨y, time⟩ | _⟩ := c
  · rw [getBackoffTime_updateBackoff hb] at hnone
    split at hnone
    · cases hnone
    · rw [hu] at hnone
      cases hnone
  · rcases getBackoffTime_heartbeat hb x.1 x.2 with hsame | ⟨-, hpassed⟩
    · rw [hnone, hu] at hsame
      cases hsame
    · rw [h.interval_eq, h.slack_eq] at hpassed
      exact ⟨rfl, hpassed u hu⟩

theorem getBackoffTime_calls (h : b.getBackoffTime x.1 x.2 = times.max?)
    (hb : b.calls cs = .ok b') : b'.getBackoffTime x.1 x.2 = (requested x b times cs).max? := by
  induction cs generalizing b times with
  | nil =>
    cases hb
    exact h
  | cons c cs ih =>
    obtain ⟨b₁, hcall, hb⟩ := Fault.bind_eq_ok.mp hb
    simp only [requested, hcall]
    refine ih ?_ hb
    split
    case isTrue hnone => exact hnone
    case isFalse hsome =>
      obtain ⟨now, ⟨y, time⟩ | _⟩ := c
      · rw [getBackoffTime_updateBackoff hcall, h]
        dsimp only [requests]
        by_cases heq : y = x
        · rw [if_pos ⟨congrArg Prod.fst heq, congrArg Prod.snd heq⟩, if_pos heq,
            List.singleton_append, List.max?_cons]
          cases times.max? with
          | none => exact congrArg some (Nat.zero_max _)
          | some m => exact congrArg some (max_comm m _)
        · rw [if_neg fun h => heq (Prod.ext h.1 h.2), if_neg heq]
          rfl
      · rcases getBackoffTime_heartbeat hcall x.1 x.2 with hsame | ⟨hnone, -⟩
        · exact hsame.trans h
        · exact absurd hnone hsome

theorem entryIn_updateBackoff (hb : b.updateBackoff now topic peer time = .ok b')
    (hne : (topic, peer) ≠ x) :
    entryIn b'.backoffs x = entryIn b.backoffs x ∧ b'.heartbeatIndex = b.heartbeatIndex := by
  obtain ⟨rfl, -⟩ | ⟨slots, index, -, rfl, -⟩ := updateBackoff_cases hb
  · exact ⟨rfl, rfl⟩
  · exact ⟨(entryIn_insert b.backoffs (topic, peer) x _).trans (if_neg hne), rfl⟩

/-- A pair whose time has passed is gone when the wheel has reached its slot, which is less than `d`
heartbeats ahead. -/
theorem Sound.gone (h : b.Sound interval slack size)
    (hwait : entryIn b.backoffs x = none ∨ ∃ d < cs.countP (·.2.isHeartbeat),
      entryIn b.backoffs x = some (u, (b.heartbeatIndex + d) % size))
    (hother : ∀ c ∈ cs, requests x c = [])
    (hlate : ∀ c ∈ cs, c.2 = .heartbeat → u + interval * slack ≤ c.1) (hb : b.calls cs = .ok b') :
    entryIn b'.backoffs x = none := by
  induction cs generalizing b with
  | nil =>
    cases hb
    exact hwait.resolve_right fun ⟨d, hd, _⟩ => absurd hd (Nat.not_lt_zero d)
  | cons c cs ih =>
    obtain ⟨b₁, hcall, hb⟩ := Fault.bind_eq_ok.mp hb
    refine ih (h.call hcall) ?_ (fun c hc => hother c (List.mem_cons_of_mem _ hc))
      (fun c hc => hlate c (List.mem_cons_of_mem _ hc)) hb
    have hc := hother c List.mem_cons_self
    have hpassed := hlate c List.mem_cons_self
    obtain ⟨now, ⟨y, time⟩ | _⟩ := c
    · have hne : y ≠ x := fun heq => by simp [requests, heq] at hc
      obtain ⟨hentry, hindex⟩ := entryIn_updateBackoff hcall hne
      rw [hentry, hindex]
      exact hwait
    · obtain ⟨r, hr, rfl⟩ := heartbeat_eq_ok hcall
      obtain ⟨hkept, hentry⟩ := (retain_spec hr).2 x
      rw [hentry, h.size_eq]
      split
      case isTrue => exact Or.inl rfl
      case isFalse hstays =>
        refine hwait.imp_right fun ⟨d, hd, hd'⟩ => ?_
        rw [List.countP_cons_of_pos rfl] at hd
        cases d with
        | zero =>
          -- the slot is the one of this heartbeat
          rw [Nat.add_zero, Nat.mod_eq_of_lt h.index_lt] at hd'
          have hmem := (h.mem_slot x b.heartbeatIndex).mpr ⟨u, hd'⟩
          have hrest : x ∈ r.2 := by
            by_contra hnot
            exact hstays ⟨hmem, hnot⟩
          obtain ⟨-, e, he, hlt⟩ := hkept.mp hrest
          rw [hd'] at he
          cases he
          rw [h.interval_eq, h.slack_eq] at hlt
          exact absurd hlt (Nat.not_lt.mpr (hpassed rfl))
        | succ d =>
          refine ⟨d, Nat.lt_of_succ_lt_succ hd, ?_⟩
          rw [hd', Nat.mod_add_mod, Nat.add_right_comm, Nat.add_assoc]

/-- After any calls on a new storage: a slot holds the pairs that are stored with its number; the
time of a pair is the largest that has been asked for since it was absent; a pair is dropped only
when its time with the slack has passed; and after as many heartbeats as there are slots, all of
them from then on, it is gone. -/
theorem backoffs_sound {pruneBackoff : Duration} {b₀ : BackoffStorage}
    (hnew : new pruneBackoff interval slack = .ok b₀) (hb : b₀.calls cs = .ok b) :
    b.Placed ∧
    (∀ x, b.getBackoffTime x.1 x.2 = (requested x b₀ [] cs).max?) ∧
    (∀ (x : TopicHash × PeerId) u c b', b.call c = .ok b' → b.getBackoffTime x.1 x.2 = some u →
      b'.getBackoffTime x.1 x.2 = none → c.2 = .heartbeat ∧ u + interval * slack ≤ c.1) ∧
    ∀ x u cs' b', b.calls cs' = .ok b' → b.getBackoffTime x.1 x.2 = some u →
      (∀ c ∈ cs', requests x c = []) →
      (∀ c ∈ cs', c.2 = .heartbeat → u + interval * slack ≤ c.1) →
      b.backoffsByHeartbeat.length ≤ cs'.countP (·.2.isHeartbeat) →
        b'.getBackoffTime x.1 x.2 = none := by
  obtain ⟨hempty, size, hstart⟩ := sound_new hnew
  have h := hstart.calls hb
  refine ⟨h.toPlaced, fun x => getBackoffTime_calls ?_ hb, fun x u c b' => h.drop,
    fun x u cs' b' hb' hu hother hlate hcycle => ?_⟩
  · rw [getBackoffTime, hempty, timeIn]
    simp
  · obtain ⟨⟨time, i⟩, hentry, rfl⟩ := Option.map_eq_some_iff.mp hu
    have hindex := h.index_lt
    have hlt : i < size := by
      have hmem := (h.mem_slot x i).mpr ⟨time, hentry⟩
      by_contra hge
      rw [slot, List.getElem?_eq_none (by rw [h.size_eq]; omega)] at hmem
      cases hmem
    rw [h.size_eq] at hcycle
    have hwait : ∃ d < cs'.countP (·.2.isHeartbeat),
        entryIn b.backoffs x = some (time, (b.heartbeatIndex + d) % size) := by
      refine ⟨(i + size - b.heartbeatIndex) % size, ?_, ?_⟩
      · exact (Nat.mod_lt _ (Nat.zero_lt_of_lt hlt)).trans_le hcycle
      · rw [Nat.add_mod_mod, Nat.add_sub_cancel' (by omega), Nat.add_mod_right,
          Nat.mod_eq_of_lt hlt]
        exact hentry
    exact congrArg (Option.map Prod.fst) (h.gone (Or.inr hwait) hother hlate hb')

def sampleBackoffs : BackoffStorage := ⟨∅, [[], [], []], 0, 1, 0⟩

/-- A backoff is gone after three heartbeats. -/
theorem sampleBackoffs_gone :
    ∃ b', (sampleBackoffs.store ⟨[97]⟩ (PeerId.ofByte 1) 2 2).calls
        [(2, .heartbeat), (2, .heartbeat), (3, .heartbeat)] = .ok b' ∧
      b'.getBackoffTime ⟨[97]⟩ (PeerId.ofByte 1) = none := by
  have hnew : new 2 1 0 = .ok sampleBackoffs := rfl
  have hb : sampleBackoffs.calls [(0, .updateBackoff (⟨[97]⟩, PeerId.ofByte 1) 2)] =
      .ok (sampleBackoffs.store ⟨[97]⟩ (PeerId.ofByte 1) 2 2) := rfl
  refine ⟨_, rfl, ?_⟩
  refine (backoffs_sound hnew hb).2.2.2 (⟨[97]⟩, PeerId.ofByte 1) 2
    [(2, .heartbeat), (2, .heartbeat), (3, .heartbeat)] _ rfl rfl ?_ ?_ ?_
  · decide
  · simp
  · decide

end Libp2pRs.Gossip.BackoffStorage
