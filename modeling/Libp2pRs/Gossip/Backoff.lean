import Libp2pRs.Gossip.Types
import Libp2pRs.Lib.Maps

/-!
# The backoffs

`BackoffStorage` remembers until when a peer must not be grafted again. A pair of a topic and a
peer also lies in one slot of a wheel that turns by one slot per heartbeat; a heartbeat looks only
at its own slot and drops the pairs whose time, with the slack added, has passed.

An error is a panic: a sum that cannot be represented, or a division by zero.
-/

namespace Libp2pRs.Gossip

open Lib Libp2pRs.Core Std

abbrev BackoffMap := TreeMap TopicHash (TreeMap PeerId (Instant × Nat))

structure BackoffStorage where
  /-- The time of each pair, and the slot of the wheel that holds the pair. -/
  backoffs : BackoffMap
  /-- A slot is a set of pairs, listed without repetition. -/
  backoffsByHeartbeat : List (List (TopicHash × PeerId))
  heartbeatIndex : Nat
  heartbeatInterval : Duration
  backoffSlack : Nat

namespace BackoffStorage

def heartbeats (d heartbeatInterval : Duration) : Except Fault Nat :=
  if heartbeatInterval = 0 then .error .arithmetic
  else .ok ((d + heartbeatInterval - 1) / heartbeatInterval % 2 ^ 64)

def new (pruneBackoff heartbeatInterval : Duration) (backoffSlack : Nat) :
    Except Fault BackoffStorage := do
  let n ← heartbeats pruneBackoff heartbeatInterval
  -- one more slot for a partial heartbeat
  let maxHeartbeats := n + backoffSlack + 1
  if 2 ^ 64 ≤ maxHeartbeats then .error .backoff
  else
    return {
      backoffs := ∅
      backoffsByHeartbeat := List.replicate maxHeartbeats []
      heartbeatIndex := 0
      heartbeatInterval
      backoffSlack }

/-- The slot, counted from the current heartbeat, in which a backoff of the given length ends. -/
def slotOf (b : BackoffStorage) (time : Duration) : Except Fault Nat := do
  let n ← heartbeats time b.heartbeatInterval
  let sum := b.heartbeatIndex + n + b.backoffSlack
  if 2 ^ 64 ≤ sum then .error .backoff
  else if b.backoffsByHeartbeat.length = 0 then .error .arithmetic
  else .ok (sum % b.backoffsByHeartbeat.length)

def store (b : BackoffStorage) (topic : TopicHash) (peer : PeerId) (instant : Instant)
    (index : Nat) : BackoffStorage :=
  { b with
    backoffs := b.backoffs.insert topic ((b.backoffs[topic]?.getD ∅).insert peer (instant, index))
    backoffsByHeartbeat := b.backoffsByHeartbeat.modify index (List.insert (topic, peer)) }

def updateBackoff (b : BackoffStorage) (now : Instant) (topic : TopicHash) (peer : PeerId)
    (time : Duration) : Except Fault BackoffStorage := do
  let instant ← Fault.backoff.orElse (now.checkedAdd time)
  match b.backoffs[topic]? >>= (·[peer]?) with
  | some (backoff, index) =>
    if backoff < instant then
      let newIndex ← b.slotOf time
      let slots := b.backoffsByHeartbeat.modify index (·.erase (topic, peer))
      return store { b with backoffsByHeartbeat := slots } topic peer instant newIndex
    else return b
  | none => do
    let index ← b.slotOf time
    return b.store topic peer instant index

def isBackoffWithSlack (b : BackoffStorage) (topic : TopicHash) (peer : PeerId) : Bool :=
  b.backoffs[topic]?.elim false (·.contains peer)

def timeIn (backoffs : BackoffMap) (topic : TopicHash) (peer : PeerId) : Option Instant :=
  (backoffs[topic]? >>= (·[peer]?)).map Prod.fst

def getBackoffTime (b : BackoffStorage) (topic : TopicHash) (peer : PeerId) : Option Instant :=
  timeIn b.backoffs topic peer

def drop (backoffs : BackoffMap) (topic : TopicHash) (peer : PeerId) : BackoffMap :=
  backoffs.alter topic (fun m => m.bind (fun peers =>
    if peers.contains peer ∧ (peers.erase peer).isEmpty then none else some (peers.erase peer)))

/-- Whether a pair stays in the slot of the current heartbeat. -/
def keep (backoffs : BackoffMap) (slack : Duration) (now : Instant) (pair : TopicHash × PeerId) :
    Except Fault Bool :=
  match timeIn backoffs pair.1 pair.2 with
  | some time =>
    Fault.backoff.orElse ((time.checkedAdd slack).map (fun until' => decide (now < until')))
  | none => .ok false

/-- Goes through the pairs of a slot, with the pairs kept so far. -/
def retain (slack : Duration) (now : Instant) :
    BackoffMap → List (TopicHash × PeerId) →
      Except Fault (BackoffMap × List (TopicHash × PeerId))
  | backoffs, [] => .ok (backoffs, [])
  | backoffs, pair :: pairs => do
    if ← keep backoffs slack now pair then
      let r ← retain slack now backoffs pairs
      return (r.1, pair :: r.2)
    else retain slack now (drop backoffs pair.1 pair.2) pairs

def heartbeat (b : BackoffStorage) (now : Instant) : Except Fault BackoffStorage := do
  if b.backoffsByHeartbeat.length = 0 then .error .arithmetic else
  let next := (b.heartbeatIndex + 1) % b.backoffsByHeartbeat.length
  match b.backoffsByHeartbeat[b.heartbeatIndex]? with
  | none => return { b with heartbeatIndex := next }
  | some slot =>
    let slack := b.heartbeatInterval * b.backoffSlack
    if Duration.max < slack then .error .backoff else
    let r ← retain slack now b.backoffs slot
    return { b with
      backoffs := r.1
      backoffsByHeartbeat := b.backoffsByHeartbeat.set b.heartbeatIndex r.2
      heartbeatIndex := next }

/-! ## The entries -/

def slot (b : BackoffStorage) (i : Nat) : List (TopicHash × PeerId) :=
  b.backoffsByHeartbeat[i]?.getD []

def entryIn (backoffs : BackoffMap) (x : TopicHash × PeerId) : Option (Instant × Nat) :=
  backoffs[x.1]? >>= (·[x.2]?)

theorem entryIn_insert (backoffs : BackoffMap) (x y : TopicHash × PeerId) (entry : Instant × Nat) :
    entryIn (backoffs.insert x.1 ((backoffs[x.1]?.getD ∅).insert x.2 entry)) y =
      if x = y then some entry else entryIn backoffs y := by
  unfold entryIn
  rw [get_insert]
  by_cases ht : x.1 = y.1
  · rw [if_pos ht, Option.bind_eq_bind, Option.bind_some, get_insert, ← ht]
    by_cases hp : x.2 = y.2
    · rw [if_pos hp, if_pos (Prod.ext ht hp)]
    · rw [if_neg hp, if_neg (fun h => hp (congrArg Prod.snd h))]
      cases backoffs[x.1]? <;> simp
  · rw [if_neg ht, if_neg (fun h => ht (congrArg Prod.fst h))]

theorem entryIn_drop (backoffs : BackoffMap) (x y : TopicHash × PeerId) :
    entryIn (drop backoffs x.1 x.2) y = if x = y then none else entryIn backoffs y := by
  unfold drop entryIn
  rw [get_alter]
  by_cases ht : x.1 = y.1
  · rw [if_pos ht]
    have hpair : x = y ↔ x.2 = y.2 := ⟨congrArg Prod.snd, Prod.ext ht⟩
    simp only [hpair]
    cases backoffs[y.1]? with
    | none => simp
    | some peers =>
      -- a map that is dropped is empty, so that a lookup in it finds nothing either
      have hlook : ((if peers.contains x.2 ∧ (peers.erase x.2).isEmpty then none
          else some (peers.erase x.2)) >>= (·[y.2]?)) = (peers.erase x.2)[y.2]? := by
        split
        · rename_i h
          rw [TreeMap.getElem?_of_isEmpty h.2]
          rfl
        · rfl
      rw [Option.bind_some, hlook, get_erase]
      rfl
  · rw [if_neg ht, if_neg (fun h => ht (congrArg Prod.fst h))]

theorem isBackoffWithSlack_iff (b : BackoffStorage) (topic : TopicHash) (peer : PeerId) :
    b.isBackoffWithSlack topic peer = (b.getBackoffTime topic peer).isSome := by
  unfold isBackoffWithSlack getBackoffTime timeIn
  cases b.backoffs[topic]? with
  | none => rfl
  | some peers => simp

/-! ## The calls -/

variable {now : Instant} {topic : TopicHash} {peer : PeerId} {time slack : Duration}
  {b b' : BackoffStorage} {backoffs : BackoffMap} {x : TopicHash × PeerId}

theorem slotOf_lt (h : b.slotOf time = .ok i) : i < b.backoffsByHeartbeat.length := by
  obtain ⟨n, -, h⟩ := Fault.bind_eq_ok.mp h
  dsimp only at h
  split at h
  case isTrue => cases h
  case isFalse =>
    split at h
    case isTrue => cases h
    case isFalse hlength =>
      cases h
      exact Nat.mod_lt _ (Nat.pos_of_ne_zero hlength)

/-- An update changes nothing when a later time is stored. Otherwise the pair leaves its slot, if it
is in one, and is stored with the time that is asked for. -/
theorem updateBackoff_cases (h : b.updateBackoff now topic peer time = .ok b') :
    (b' = b ∧ ∃ e, entryIn b.backoffs (topic, peer) = some e ∧ now + time ≤ e.1) ∨
      ∃ slots, ∃ index < b.backoffsByHeartbeat.length,
        b' = store { b with backoffsByHeartbeat := slots } topic peer (now + time) index ∧
        (entryIn b.backoffs (topic, peer) = none ∧ slots = b.backoffsByHeartbeat ∨
          ∃ e, entryIn b.backoffs (topic, peer) = some e ∧ e.1 < now + time ∧
            slots = b.backoffsByHeartbeat.modify e.2 (·.erase (topic, peer))) := by
  obtain ⟨instant, hinstant, h⟩ := Fault.bind_eq_ok.mp h
  rw [Fault.orElse_eq_ok, Instant.checkedAdd] at hinstant
  split at hinstant
  case isFalse => cases hinstant
  case isTrue =>
    cases hinstant
    split at h
    case h_1 backoff index hold =>
      split at h
      case isTrue hlt =>
        obtain ⟨newIndex, hindex, h⟩ := Fault.bind_eq_ok.mp h
        cases h
        exact .inr ⟨_, newIndex, slotOf_lt hindex, rfl, .inr ⟨_, hold, hlt, rfl⟩⟩
      case isFalse hge =>
        cases h
        exact .inl ⟨rfl, _, hold, Nat.not_lt.mp hge⟩
    case h_2 hold =>
      obtain ⟨index, hindex, h⟩ := Fault.bind_eq_ok.mp h
      cases h
      exact .inr ⟨_, index, slotOf_lt hindex, rfl, .inl ⟨hold, rfl⟩⟩

theorem getBackoffTime_updateBackoff (h : b.updateBackoff now topic peer time = .ok b')
    (t : TopicHash) (p : PeerId) :
    b'.getBackoffTime t p =
      if topic = t ∧ peer = p then some (max ((b.getBackoffTime t p).getD 0) (now + time))
      else b.getBackoffTime t p := by
  have htime : ∀ b : BackoffStorage,
      b.getBackoffTime t p = (entryIn b.backoffs (t, p)).map Prod.fst := fun _ => rfl
  obtain ⟨rfl, e, he, hle⟩ | ⟨slots, index, -, rfl, hold⟩ := updateBackoff_cases h
  · split
    case isTrue heq =>
      rw [htime, ← heq.1, ← heq.2, he]
      exact congrArg some (max_eq_left hle).symm
    case isFalse => rfl
  · have hentry := entryIn_insert b.backoffs (topic, peer) (t, p) (now + time, index)
    rw [htime, htime b]
    refine (congrArg (Option.map Prod.fst) hentry).trans ?_
    by_cases heq : (topic, peer) = (t, p)
    · rw [if_pos heq, if_pos (Prod.mk.inj heq), ← heq]
      obtain ⟨hnone, -⟩ | ⟨e, he, hlt, -⟩ := hold
      · rw [hnone]
        exact congrArg some (Nat.zero_max _).symm
      · rw [he]
        exact congrArg some (max_eq_right hlt.le).symm
    · rw [if_neg heq, if_neg fun h => heq (Prod.ext h.1 h.2)]

/-- The pair is stored, and its time with the slack has not passed. -/
def Running (backoffs : BackoffMap) (slack : Duration) (now : Instant) (x : TopicHash × PeerId) :
    Prop :=
  ∃ e, entryIn backoffs x = some e ∧ now < e.1 + slack

theorem keep_eq_ok (h : keep backoffs slack now x = .ok kept) :
    kept = true ↔ Running backoffs slack now x := by
  have htime : timeIn backoffs x.1 x.2 = (entryIn backoffs x).map Prod.fst := rfl
  rw [keep, htime] at h
  unfold Running
  cases hentry : entryIn backoffs x with
  | none =>
    rw [hentry] at h
    cases h
    simp
  | some e =>
    rw [hentry] at h
    dsimp only [Option.map_some] at h
    rw [Fault.orElse_eq_ok] at h
    obtain ⟨sum, hsum, rfl⟩ := Option.map_eq_some_iff.mp h
    unfold Instant.checkedAdd at hsum
    split at hsum
    · cases hsum
      simp
    · cases hsum

theorem retain_spec {pairs : List (TopicHash × PeerId)}
    (h : retain slack now backoffs pairs = .ok r) :
    r.2.Sublist pairs ∧ ∀ x, (x ∈ r.2 ↔ x ∈ pairs ∧ Running backoffs slack now x) ∧
      entryIn r.1 x = if x ∈ pairs ∧ x ∉ r.2 then none else entryIn backoffs x := by
  induction pairs generalizing backoffs r with
  | nil =>
    cases h
    exact ⟨.slnil, fun x => by simp⟩
  | cons pair pairs ih =>
    obtain ⟨kept, hkept, h⟩ := Fault.bind_eq_ok.mp h
    have hrunning := keep_eq_ok hkept
    cases kept with
    | true =>
      obtain ⟨r', hr', h⟩ := Fault.bind_eq_ok.mp h
      cases h
      obtain ⟨hsub, hspec⟩ := ih hr'
      refine ⟨hsub.cons_cons _, fun x => ?_⟩
      obtain ⟨hmem, hentry⟩ := hspec x
      grind
    | false =>
      obtain ⟨hsub, hspec⟩ := ih h
      refine ⟨hsub.cons _, fun x => ?_⟩
      obtain ⟨hmem, hentry⟩ := hspec x
      unfold Running at hmem hrunning ⊢
      rw [entryIn_drop] at hmem hentry
      grind

theorem heartbeat_eq_ok (h : b.heartbeat now = .ok b') :
    ∃ r, retain (b.heartbeatInterval * b.backoffSlack) now b.backoffs (b.slot b.heartbeatIndex) =
        .ok r ∧
      b' = { b with
        backoffs := r.1
        backoffsByHeartbeat := b.backoffsByHeartbeat.set b.heartbeatIndex r.2
        heartbeatIndex := (b.heartbeatIndex + 1) % b.backoffsByHeartbeat.length } := by
  unfold heartbeat at h
  unfold slot
  split at h
  case isTrue => cases h
  case isFalse =>
    split at h
    case h_1 hnone =>
      cases h
      rw [hnone]
      refine ⟨_, rfl, ?_⟩
      rw [List.set_eq_of_length_le (List.getElem?_eq_none_iff.mp hnone)]
    case h_2 slot hslot =>
      dsimp only at h
      split at h
      case isTrue => cases h
      case isFalse =>
        obtain ⟨r, hr, h⟩ := Fault.bind_eq_ok.mp h
        cases h
        rw [hslot]
        exact ⟨r, hr, rfl⟩

/-- A time survives, or it is gone and had passed. -/
def Outlasts (slack : Duration) (now : Instant) (old new : Option Instant) : Prop :=
  new = old ∨ new = none ∧ ∀ time, old = some time → time + slack ≤ now

theorem getBackoffTime_heartbeat (h : b.heartbeat now = .ok b') (t : TopicHash) (p : PeerId) :
    Outlasts (b.heartbeatInterval * b.backoffSlack) now (b.getBackoffTime t p)
      (b'.getBackoffTime t p) := by
  obtain ⟨r, hr, rfl⟩ := heartbeat_eq_ok h
  obtain ⟨hmem, hentry⟩ := (retain_spec hr).2 (t, p)
  split at hentry
  case isTrue hgone =>
    refine .inr ⟨congrArg (Option.map Prod.fst) hentry, fun time htime => ?_⟩
    obtain ⟨e, he, rfl⟩ := Option.map_eq_some_iff.mp htime
    exact Nat.not_lt.mp fun hlt => hgone.2 (hmem.mpr ⟨hgone.1, e, he, hlt⟩)
  case isFalse => exact .inl (congrArg (Option.map Prod.fst) hentry)

/-! ## The wheel -/

/-- The parts of the storage that never change, and the range of the index. -/
structure Wheel (interval : Duration) (slack size : Nat) (b : BackoffStorage) : Prop where
  interval_eq : b.heartbeatInterval = interval
  slack_eq : b.backoffSlack = slack
  size_eq : b.backoffsByHeartbeat.length = size
  index_lt : b.heartbeatIndex < size

variable {interval : Duration} {slack size : Nat}

theorem Wheel.updateBackoff (h : b.Wheel interval slack size)
    (hb : b.updateBackoff now topic peer time = .ok b') : b'.Wheel interval slack size := by
  obtain ⟨rfl, -⟩ | ⟨slots, index, -, rfl, hold⟩ := updateBackoff_cases hb
  · exact h
  · refine ⟨h.interval_eq, h.slack_eq, (List.length_modify _ _ _).trans ?_, h.index_lt⟩
    obtain ⟨-, rfl⟩ | ⟨e, -, -, rfl⟩ := hold
    · exact h.size_eq
    · exact (List.length_modify _ _ _).trans h.size_eq

theorem Wheel.heartbeat (h : b.Wheel interval slack size) (hb : b.heartbeat now = .ok b') :
    b'.Wheel interval slack size := by
  obtain ⟨r, -, rfl⟩ := heartbeat_eq_ok hb
  refine ⟨h.interval_eq, h.slack_eq, List.length_set.trans h.size_eq, ?_⟩
  rw [← h.size_eq]
  exact Nat.mod_lt _ (h.size_eq ▸ Nat.zero_lt_of_lt h.index_lt)

end BackoffStorage

end Libp2pRs.Gossip
