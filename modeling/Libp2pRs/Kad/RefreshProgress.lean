import Libp2pRs.Kad.MemoryStore
import Libp2pRs.Kad.Refresh
import Libp2pRs.Lib.LeadsTo

/-!
# Refreshes come to their end

The stages of a refresh follow each other as long as the queue of the main loop is drained and the
queries and tasks get on (`Fair`): the query for the local id, the task of its callback, the event
`SelfQueryDone`, the walk, the event `Completed`.
-/

namespace Libp2pRs.Kad

open Lib Libp2pRs.Core List Kademlia

namespace RefreshRun

variable {S : Type} [RecordStore S] (sha256 : List UInt8 → KeyBytes)

/-- The queue is drained, and the queries and tasks of the refreshes get on. -/
structure Fair (events : Nat → Event) (s : Nat → RefreshRun S) : Prop where
  queue : ∀ n, (s n).queue ≠ [] → ∃ m ≥ n, ∃ now ps, events m = .deliver now ps
  selfQueries : ∀ n reply, reply ∈ (s n).selfQueries → ∃ m ≥ n, events m = .selfQuery reply
  notifying : ∀ n reply, reply ∈ (s n).notifying → ∃ m ≥ n, events m = .notify reply
  walks : ∀ n buckets reply, (buckets, reply) ∈ (s n).walks →
    ∃ m ≥ n, events m = .walk buckets reply
  replying : ∀ n reply, reply ∈ (s n).replying → ∃ m ≥ n, events m = .reply reply

theorem queue_step {s : RefreshRun S} (he : ∀ now ps, e ≠ .deliver now ps) :
    ∃ es, (s.step sha256 e).queue = s.queue ++ es := by
  cases e with
  | deliver now ps => exact absurd rfl (he now ps)
  | command now ps c => exact queue_performAll _ _
  | post e => exact ⟨[e.val], rfl⟩
  | selfQuery reply =>
    simp only [step]
    split <;> exact ⟨[], (append_nil _).symm⟩
  | notify reply =>
    simp only [step]
    split
    · exact ⟨_, rfl⟩
    · exact ⟨[], (append_nil _).symm⟩
  | walk buckets reply =>
    simp only [step]
    split
    · cases buckets with
      | nil => exact ⟨_, rfl⟩
      | cons bucket rest => exact ⟨[], (append_nil _).symm⟩
    · exact ⟨[], (append_nil _).symm⟩
  | reply reply =>
    simp only [step]
    split <;> exact ⟨[], (append_nil _).symm⟩
  | healthCheck peers alive =>
    simp only [step]
    split
    · cases peers <;> exact ⟨_, rfl⟩
    · exact ⟨[], (append_nil _).symm⟩

theorem queue_deliver {s : RefreshRun S}
    (hqueue : s.queue = e :: rest) (now : Instant) (ps : PeerStore) :
    ∃ es, (s.step sha256 (.deliver now ps)).queue = rest ++ es := by
  simp only [step, hqueue]
  exact queue_performAll _ _

section Progress

variable {sha256} {s₀ : RefreshRun S} {events : Nat → Event}

/-- A queued event is handled: its place in the queue goes down. -/
theorem queued_leadsTo (hfair : Fair events (states (step sha256) s₀ events)) {e : ProtocolEvent}
    (hQ : ∀ (s : RefreshRun S) rest now ps, s.queue = e :: rest →
      Q (s.step sha256 (.deliver now ps))) :
    LeadsTo (states (step sha256) s₀ events) (fun s => e ∈ s.queue) Q := by
  let P (k : Nat) (s : RefreshRun S) : Prop :=
    ∃ pre post, s.queue = pre ++ e :: post ∧ pre.length = k
  let H (ev : Event) : Prop := ∃ now ps, ev = .deliver now ps
  have hcomes : ∀ k n, P k (states (step sha256) s₀ events n) → ∃ m ≥ n, H (events m) := by
    rintro k n ⟨pre, post, hqueue, -⟩
    exact hfair.queue n (by simp [hqueue])
  -- without a delivery the place stays
  have hkeep : ∀ k s ev, P k s → ¬ H ev → P k (step sha256 s ev) := by
    rintro k s ev ⟨pre, post, hqueue, hlen⟩ hev
    obtain ⟨es, hes⟩ := queue_step sha256 (s := s) (e := ev) (fun now ps h => hev ⟨now, ps, h⟩)
    exact ⟨pre, post ++ es, by rw [hes, hqueue]; simp, hlen⟩
  have hfirst : ∀ s ev, P 0 s → H ev → Q (step sha256 s ev) := by
    rintro s _ ⟨pre, post, hqueue, hlen⟩ ⟨now, ps, rfl⟩
    rw [length_eq_zero_iff.mp hlen] at hqueue
    exact hQ s post now ps hqueue
  have hnext : ∀ k s ev, P (k + 1) s → H ev → P k (step sha256 s ev) := by
    rintro k s _ ⟨pre, post, hqueue, hlen⟩ ⟨now, ps, rfl⟩
    obtain ⟨a, pre, rfl⟩ := exists_cons_of_length_eq_add_one hlen
    obtain ⟨es, hes⟩ := queue_deliver sha256 hqueue now ps
    exact ⟨pre, post ++ es, by rw [hes]; simp, by simpa using hlen⟩
  have hplace : ∀ k, LeadsTo (states (step sha256) s₀ events) (P k) Q := by
    apply LeadsTo.of_variant
    · refine leadsTo_of_helpful (H := H) (fun s ev h => ?_) hfirst (hcomes 0)
      by_cases hev : H ev
      · exact .inr (hfirst s ev h hev)
      · exact .inl (hkeep 0 s ev h hev)
    · intro k
      refine leadsTo_of_helpful (H := H) (fun s ev h => ?_)
        (fun s ev h hev => .inl (hnext k s ev h hev)) (hcomes (k + 1))
      by_cases hev : H ev
      · exact .inr (.inl (hnext k s ev h hev))
      · exact .inl (hkeep (k + 1) s ev h hev)
  intro n hmem
  obtain ⟨pre, post, hqueue⟩ := append_of_mem hmem
  exact hplace pre.length n ⟨pre, post, hqueue, rfl⟩

variable (hfair : Fair events (states (step sha256) s₀ events))
include hfair

theorem selfQuery_leadsTo (reply : Option ReplyId) :
    LeadsTo (states (step sha256) s₀ events) (fun s => reply ∈ s.selfQueries)
      (fun s => reply ∈ s.notifying) := by
  refine leadsTo_of_helpful (H := (· = .selfQuery reply))
    (fun s e h => (move_step sha256 s e).mem_selfQueries h) ?_
    (fun n => hfair.selfQueries n reply)
  rintro s _ h rfl
  simp [step, h]

theorem notify_leadsTo (reply : Option ReplyId) :
    LeadsTo (states (step sha256) s₀ events) (fun s => reply ∈ s.notifying)
      (fun s => .refresh (.selfQueryDone reply) ∈ s.queue) := by
  refine leadsTo_of_helpful (H := (· = .notify reply))
    (fun s e h => (move_step sha256 s e).mem_notifying h) ?_
    (fun n => hfair.notifying n reply)
  rintro s _ h rfl
  simp [step, h]

theorem selfQueryDone_leadsTo (reply : Option ReplyId) : LeadsTo (states (step sha256) s₀ events)
      (fun s => .refresh (.selfQueryDone reply) ∈ s.queue)
      (fun s => ∃ buckets, (buckets, reply) ∈ s.walks) := by
  refine queued_leadsTo hfair (fun s rest now ps hqueue => ?_)
  refine ⟨walkBuckets s.kad.kbuckets, ?_⟩
  simp [step, hqueue, handle, onEvents, handleRefreshStage, performAll, perform]

theorem walk_leadsTo (buckets : List BucketIndex) (reply : Option ReplyId) :
    LeadsTo (states (step sha256) s₀ events) (fun s => (buckets, reply) ∈ s.walks)
      (fun s => .refresh .completed ∈ s.queue ∧ reply ∈ s.replying) := by
  induction buckets with
  | nil =>
    refine leadsTo_of_helpful (H := (· = .walk [] reply)) (fun s e h => ?_) ?_
      (fun n => hfair.walks n [] reply)
    · rcases (move_step sha256 s e).mem_walks h with h | ⟨_, _, heq, -⟩ | ⟨-, h⟩
      · exact .inl h
      · cases heq
      · exact .inr h
    · rintro s _ h rfl
      simp [step, h]
  | cons bucket rest ih =>
    refine LeadsTo.trans ?_ ih
    refine leadsTo_of_helpful (H := (· = .walk (bucket :: rest) reply)) (fun s e h => ?_) ?_
      (fun n => hfair.walks n (bucket :: rest) reply)
    · rcases (move_step sha256 s e).mem_walks h with h | ⟨_, _, heq, h⟩ | ⟨heq, -⟩
      · exact .inl h
      · cases heq
        exact .inr h
      · cases heq
    · rintro s _ h rfl
      simp [step, h]

theorem completed_leadsTo :
    LeadsTo (states (step sha256) s₀ events) (fun s => .refresh .completed ∈ s.queue)
      (fun s => s.kad.refreshing = false) := by
  refine queued_leadsTo hfair (fun s rest now ps hqueue => ?_)
  simp [step, hqueue, handle, onEvents, handleRefreshStage, performAll]

theorem reply_leadsTo (r : ReplyId) :
    LeadsTo (states (step sha256) s₀ events) (fun s => some r ∈ s.replying)
      (fun s => r ∈ s.answered.map Prod.fst) := by
  refine leadsTo_of_helpful (H := (· = .reply (some r)))
    (fun s e h => (move_step sha256 s e).mem_replying h) ?_ (fun n => hfair.replying n (some r))
  rintro s _ h rfl
  simp [step, h]

theorem start_leadsTo (r : ReplyId) :
    LeadsTo (states (step sha256) s₀ events) (fun s => .refresh (.start (some r)) ∈ s.queue)
      (fun s => r ∈ s.answered.map Prod.fst ∨ some r ∈ s.selfQueries) := by
  refine queued_leadsTo hfair (fun s rest now ps hqueue => ?_)
  have hstart := (move_start sha256 s s.kad rfl (some r) hqueue ⟨rfl, rfl⟩).2 r rfl
  simpa only [step, hqueue, handle, onEvents] using hstart

theorem refresh_leadsTo (reply : Option ReplyId) : LeadsTo (states (step sha256) s₀ events)
      (fun s => reply ∈ s.selfQueries ∨ reply ∈ s.notifying ∨
        .refresh (.selfQueryDone reply) ∈ s.queue ∨ ∃ buckets, (buckets, reply) ∈ s.walks)
      (fun s => .refresh .completed ∈ s.queue ∧ reply ∈ s.replying) := by
  have hwalk : LeadsTo (states (step sha256) s₀ events)
      (fun s => ∃ buckets, (buckets, reply) ∈ s.walks)
      (fun s => .refresh .completed ∈ s.queue ∧ reply ∈ s.replying) :=
    LeadsTo.exists_imp (fun buckets => walk_leadsTo hfair buckets reply)
  have hdone := (selfQueryDone_leadsTo hfair reply).trans hwalk
  have hnotify := (notify_leadsTo hfair reply).trans hdone
  exact ((selfQuery_leadsTo hfair reply).trans hnotify).or (hnotify.or (hdone.or hwalk))

theorem pending_leadsTo (r : ReplyId) :
    LeadsTo (states (step sha256) s₀ events) (fun s => r ∈ s.pending)
      (fun s => r ∈ s.answered.map Prod.fst) := by
  have hrest := ((refresh_leadsTo hfair (some r)).trans (LeadsTo.of_imp (fun s h => h.2))).trans
    (reply_leadsTo hfair r)
  have hstart := (start_leadsTo hfair r).trans
    ((LeadsTo.of_imp (fun _ h => h)).or ((LeadsTo.of_imp (fun s h => .inl h)).trans hrest))
  intro n hr
  simp only [RefreshTasks.pending, mem_append, mem_flatMap, Option.mem_toList] at hr
  rcases hr with (((⟨e, he, hr⟩ | ⟨reply, hreply, rfl⟩) | ⟨reply, hreply, rfl⟩) |
    ⟨w, hw, hr⟩) | ⟨reply, hreply, rfl⟩
  · cases e with
    | refresh stage =>
      cases stage with
      | start reply =>
        obtain rfl : reply = some r := by simpa [ProtocolEvent.replies] using hr
        exact hstart n he
      | selfQueryDone reply =>
        obtain rfl : reply = some r := by simpa [ProtocolEvent.replies] using hr
        exact hrest n (.inr (.inr (.inl he)))
      | completed => cases hr
    | _ => cases hr
  · exact hrest n (.inl hreply)
  · exact hrest n (.inr (.inl hreply))
  · obtain ⟨buckets, reply⟩ := w
    obtain rfl : reply = some r := hr
    exact hrest n (.inr (.inr (.inr ⟨buckets, hw⟩)))
  · exact reply_leadsTo hfair r n hreply

theorem underway_leadsTo : LeadsTo (states (step sha256) s₀ events) (fun s => s.underway ≠ 0)
      (fun s => s.kad.refreshing = false) := by
  have hend := completed_leadsTo hfair
  have hrest := LeadsTo.exists_imp (fun reply =>
    ((refresh_leadsTo hfair reply).trans (LeadsTo.of_imp (fun s h => h.1))).trans hend)
  exact (LeadsTo.of_imp (fun s h => RefreshTasks.exists_of_underway h)).trans (hend.or hrest)

end Progress

/-! ### Runs -/

omit [RecordStore S] in
theorem inv_init (k : Kademlia S) (hk : k.refreshing = false) :
    (init k).Inv (init k).kad.refreshing := by
  refine ⟨?_, fun r => rfl⟩
  simp [init, hk, RefreshTasks.underway]

theorem inv_states (k : Kademlia S) (hk : k.refreshing = false) (events : Nat → Event) (n : Nat) :
    (states (step sha256) (init k) events n).Inv
      (states (step sha256) (init k) events n).kad.refreshing := by
  rw [states_eq_run]
  exact invariant_run (I := fun s : RefreshRun S => s.Inv s.kad.refreshing)
    (fun s e h => h.move (move_step sha256 s e)) (inv_init k hk) _

/-- For every interleaving of commands, events, timers and tasks: the flag `refreshing` is set
exactly while one refresh is between `Start` and `Completed`, and there is never another; a
`Bootstrap` request is either answered or waits in one place. If the queue is drained and the
queries and tasks get on, the flag is reset after every refresh, and every request is answered
exactly once. -/
theorem refresh_single_flight (id : PeerId) (store : S) (config : KademliaConfig)
    (events : Nat → Event) :
    let s := states (step sha256) (init (withConfig sha256 id store config)) events
    (∀ n, (s n).underway = if (s n).kad.refreshing then 1 else 0) ∧
    (∀ n r, ((s n).answered.map Prod.fst).count r + (s n).pending.count r =
      (s n).asked.count r) ∧
    (Fair events s →
      (∀ n, (s n).kad.refreshing = true → ∃ m ≥ n, (s m).kad.refreshing = false) ∧
      ((∀ n, (s n).asked.Nodup) → ∀ n, ∀ r ∈ (s n).asked,
        ∃ m ≥ n, ∀ l ≥ m, ((s l).answered.map Prod.fst).count r = 1)) := by
  intro s
  have hinv : ∀ n, (s n).Inv (s n).kad.refreshing :=
    inv_states sha256 (withConfig sha256 id store config) rfl events
  refine ⟨fun n => (hinv n).flag, fun n => (hinv n).requests, fun hfair => ⟨?_, ?_⟩⟩
  · intro n hn
    apply underway_leadsTo hfair n
    rw [(hinv n).flag, hn]
    simp
  · intro hdistinct n r hr
    -- the request has been answered or waits
    have hcount := (hinv n).requests r
    have hasked : 0 < (s n).asked.count r := count_pos_iff.mpr hr
    obtain ⟨m, hnm, hm⟩ : ∃ m ≥ n, r ∈ (s m).answered.map Prod.fst := by
      by_cases hanswered : r ∈ (s n).answered.map Prod.fst
      · exact ⟨n, Nat.le_refl n, hanswered⟩
      · rw [count_eq_zero_of_not_mem hanswered] at hcount
        have hpending : 0 < (s n).pending.count r := by omega
        exact pending_leadsTo hfair r n (count_pos_iff.mp hpending)
    refine ⟨m, hnm, fun l hl => ?_⟩
    have hstill : r ∈ (s l).answered.map Prod.fst :=
      states_mono (P := fun s : RefreshRun S => r ∈ s.answered.map Prod.fst)
        (fun s e h => (move_step sha256 s e).mem_answered h) hl hm
    have hone := nodup_iff_count_le_one.mp (hdistinct l) r
    have hcountl := (hinv l).requests r
    have hpos := count_pos_iff.mpr hstill
    omega

/-- A request to bootstrap from the peer `4`, and the steps of its refresh. -/
def sampleSchedule : Nat → Event
  | 0 => .command 0 .empty (.bootstrap [(PeerId.ofByte 4, ⟨[]⟩)] (some 7))
  | 2 => .selfQuery (some 7)
  | 3 => .notify (some 7)
  | 5 => .walk [] (some 7)
  | 6 => .reply (some 7)
  | _ => .deliver 0 .empty

def sampleRefresh : Nat → RefreshRun (MemoryStore sampleSha256) :=
  states (step sampleSha256) (init (Kademlia.withConfig sampleSha256 (PeerId.ofByte 0) .new {}))
    sampleSchedule

theorem sampleRefresh_quiet (n : Nat) : sampleRefresh (n + 8) = sampleRefresh 8 := by
  have hempty : (sampleRefresh 8).queue = [] :=
    isEmpty_iff.mp (by decide +kernel : (sampleRefresh 8).queue.isEmpty = true)
  induction n with
  | zero => rfl
  | succ n ih =>
    calc sampleRefresh (n + 1 + 8)
        = (sampleRefresh (n + 8)).step sampleSha256 (.deliver 0 .empty) := by
          rfl
      _ = sampleRefresh 8 := by
          rw [ih]
          simp only [step, hempty]

theorem sampleRefresh_min (n : Nat) : sampleRefresh n = sampleRefresh (min n 8) := by
  rcases Nat.le_total n 8 with hn | hn
  · rw [Nat.min_eq_left hn]
  · obtain ⟨m, rfl⟩ := Nat.exists_eq_add_of_le' hn
    rw [sampleRefresh_quiet, Nat.min_eq_right hn]

theorem sampleRefresh_stages : ∀ n < 9,
    (∀ reply ∈ (sampleRefresh n).selfQueries, reply = some 7 ∧ n ≤ 2) ∧
    (∀ reply ∈ (sampleRefresh n).notifying, reply = some 7 ∧ n ≤ 3) ∧
    (∀ w ∈ (sampleRefresh n).walks, w = ([], some 7) ∧ n ≤ 5) ∧
    (∀ reply ∈ (sampleRefresh n).replying, reply = some 7 ∧ n ≤ 6) ∧
    (sampleRefresh n).asked.Nodup := by
  decide +kernel

theorem sampleSchedule_fair : Fair sampleSchedule sampleRefresh := by
  have hstage : ∀ n, _ := fun n => sampleRefresh_stages (min n 8) (by omega)
  constructor
  · intro n _
    exact ⟨n + 7, by omega, 0, .empty, rfl⟩
  · intro n reply hreply
    rw [sampleRefresh_min] at hreply
    obtain ⟨rfl, hn⟩ := (hstage n).1 reply hreply
    exact ⟨2, by omega, rfl⟩
  · intro n reply hreply
    rw [sampleRefresh_min] at hreply
    obtain ⟨rfl, hn⟩ := (hstage n).2.1 reply hreply
    exact ⟨3, by omega, rfl⟩
  · intro n buckets reply hw
    rw [sampleRefresh_min] at hw
    obtain ⟨heq, hn⟩ := (hstage n).2.2.1 _ hw
    cases heq
    exact ⟨5, by omega, rfl⟩
  · intro n reply hreply
    rw [sampleRefresh_min] at hreply
    obtain ⟨rfl, hn⟩ := (hstage n).2.2.2.1 reply hreply
    exact ⟨6, by omega, rfl⟩

/-- The refresh of the sample ends, and its request is answered once. -/
theorem sampleRefresh_single_flight :
    (sampleRefresh 3).kad.refreshing = true ∧
    (∃ m ≥ 3, (sampleRefresh m).kad.refreshing = false) ∧
    ∃ m ≥ 1, ∀ l ≥ m, ((sampleRefresh l).answered.map Prod.fst).count 7 = 1 := by
  have hrefreshing : (sampleRefresh 3).kad.refreshing = true := by decide +kernel
  have hasked : 7 ∈ (sampleRefresh 1).asked := by decide +kernel
  have hdistinct : ∀ n, (sampleRefresh n).asked.Nodup := by
    intro n
    rw [sampleRefresh_min]
    exact (sampleRefresh_stages (min n 8) (by omega)).2.2.2.2
  have hprogress :
      (∀ n, (sampleRefresh n).kad.refreshing = true →
        ∃ m ≥ n, (sampleRefresh m).kad.refreshing = false) ∧
      ((∀ n, (sampleRefresh n).asked.Nodup) → ∀ n, ∀ r ∈ (sampleRefresh n).asked,
        ∃ m ≥ n, ∀ l ≥ m, ((sampleRefresh l).answered.map Prod.fst).count r = 1) :=
    (refresh_single_flight sampleSha256 (PeerId.ofByte 0) MemoryStore.new {} sampleSchedule).2.2
      sampleSchedule_fair
  obtain ⟨hends, hanswered⟩ := hprogress
  exact ⟨hrefreshing, hends 3 hrefreshing, hanswered hdistinct 1 7 hasked⟩

end RefreshRun

end Libp2pRs.Kad
