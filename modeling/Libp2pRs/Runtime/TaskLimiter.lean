import Libp2pRs.Lib.Runs

/-!
# The limit on tasks that run at once

A `TaskLimiter` runs futures in tasks of their own. Its dispatcher takes a future from the queue and
a token from a channel, and spawns a task that gives the token back at its end, also when the future
panics. A run is any interleaving of the steps of the callers, the dispatcher and the tasks in which
nobody calls `shutdown`.
-/

namespace Libp2pRs.Runtime

open Lib Multiset

/-- What the dispatcher holds: nothing, a future, or a future and a token. -/
inductive Dispatcher where
  | idle
  | dequeued
  | acquired
  deriving DecidableEq

/-- Where a task is. `feedback` gives back the token, and then counts how the task ended. -/
inductive Phase where
  | dispatched
  | running
  | ending (normal : Bool)
  | released (normal : Bool)
  deriving DecidableEq

structure TaskLimiter where
  parallelism : Nat
  queue : Nat := 0
  tokens : Nat := parallelism
  dispatcher : Dispatcher := .idle
  tasks : Multiset Phase := 0
  accepted : Nat := 0
  spawned : Nat := 0
  executed : Nat := 0
  crashed : Nat := 0
  succeeded : Nat := 0

/-- The outcome of the future of a task is `none` if it panics. -/
inductive Event where
  | spawn
  | dequeue
  | acquire
  | dispatch
  | task (phase : Phase) (outcome : Option Bool)

namespace TaskLimiter

def new (parallelism : Nat) : TaskLimiter := { parallelism }

def proceed (s : TaskLimiter) (outcome : Option Bool) : Phase → TaskLimiter
  | .dispatched => { s with tasks := .running ::ₘ s.tasks, spawned := s.spawned + 1 }
  | .running =>
    { s with
      tasks := .ending outcome.isSome ::ₘ s.tasks
      succeeded := if outcome = some true then s.succeeded + 1 else s.succeeded }
  -- A token for which the channel has no place is lost. It has place for the first ones at least.
  | .ending normal =>
    { s with
      tasks := .released normal ::ₘ s.tasks
      tokens := if s.tokens < s.parallelism then s.tokens + 1 else s.tokens }
  | .released true => { s with executed := s.executed + 1 }
  | .released false => { s with crashed := s.crashed + 1 }

def step (s : TaskLimiter) : Event → TaskLimiter
  | .spawn => { s with queue := s.queue + 1, accepted := s.accepted + 1 }
  | .dequeue =>
    if s.dispatcher = .idle ∧ s.queue ≠ 0 then
      { s with queue := s.queue - 1, dispatcher := .dequeued }
    else s
  | .acquire =>
    if s.dispatcher = .dequeued ∧ s.tokens ≠ 0 then
      { s with tokens := s.tokens - 1, dispatcher := .acquired }
    else s
  | .dispatch =>
    if s.dispatcher = .acquired then
      { s with dispatcher := .idle, tasks := .dispatched ::ₘ s.tasks }
    else s
  | .task phase outcome =>
    if phase ∈ s.tasks then { s with tasks := s.tasks.erase phase }.proceed outcome phase else s

end TaskLimiter

def Dispatcher.tokens : Dispatcher → Nat
  | .acquired => 1
  | _ => 0

def Dispatcher.futures : Dispatcher → Nat
  | .idle => 0
  | _ => 1

def Phase.holds : Phase → Bool
  | .released _ => false
  | _ => true

def Phase.resolved : Phase → Bool
  | .ending normal | .released normal => normal
  | _ => false

/-- No token and no future is lost, and a success belongs to a task that ends normally. -/
structure Balanced (n : Nat) (s : TaskLimiter) : Prop where
  parallelism : s.parallelism = n
  tokens : s.tokens + s.dispatcher.tokens + s.tasks.countP (·.holds) = n
  futures : s.accepted =
    s.queue + s.dispatcher.futures + s.tasks.card + s.executed + s.crashed
  succeeded : s.succeeded ≤ s.executed + s.tasks.countP (·.resolved)

variable {s : TaskLimiter}

theorem Balanced.proceed (h : Balanced n { s with tasks := phase ::ₘ s.tasks })
    (outcome : Option Bool) : Balanced n (s.proceed outcome phase) := by
  obtain ⟨hn, htokens, hfutures, hsucceeded⟩ := h
  simp only [countP_cons, card_cons] at htokens hfutures hsucceeded
  fun_cases TaskLimiter.proceed s outcome phase <;> constructor <;>
    grind [countP_cons, card_cons, Phase.holds, Phase.resolved]

theorem Balanced.step (h : Balanced n s) (e : Event) : Balanced n (s.step e) := by
  cases e with
  | task phase outcome =>
    rw [TaskLimiter.step]
    split
    case isTrue hmem => exact Balanced.proceed (by rwa [cons_erase hmem]) outcome
    case isFalse => exact h
  | _ =>
    obtain ⟨hn, htokens, hfutures, hsucceeded⟩ := h
    constructor <;> grind [TaskLimiter.step, Dispatcher.tokens, Dispatcher.futures, countP_cons,
      card_cons, Phase.holds, Phase.resolved]

theorem TaskLimiter.count_proceed (s : TaskLimiter) (outcome : Option Bool) (phase : Phase) :
    (s.proceed outcome phase).tasks.count phase = s.tasks.count phase := by
  fun_cases TaskLimiter.proceed s outcome phase <;> simp

theorem Balanced.done (h : Balanced n s) (hn : 0 < n) (hq : ∀ e, e ≠ .spawn → s.step e = s) :
    s.accepted = s.executed + s.crashed := by
  have htasks : s.tasks = 0 := by
    by_contra hne
    obtain ⟨phase, hmem⟩ := exists_mem_of_ne_zero hne
    have hstep := hq (.task phase none) (by simp)
    rw [TaskLimiter.step, if_pos hmem] at hstep
    have hcount := TaskLimiter.count_proceed { s with tasks := s.tasks.erase phase } none phase
    rw [hstep, count_erase_self] at hcount
    have := count_pos.mpr hmem
    omega
  have htokens := h.tokens
  have hfutures := h.futures
  have hdequeue := congrArg TaskLimiter.dispatcher (hq .dequeue (by simp))
  have hacquire := congrArg TaskLimiter.dispatcher (hq .acquire (by simp))
  have hdispatch := congrArg TaskLimiter.dispatcher (hq .dispatch (by simp))
  simp only [TaskLimiter.step, htasks, countP_zero, card_zero] at *
  cases hd : s.dispatcher <;> grind [Dispatcher.tokens, Dispatcher.futures]

/-- Over every interleaving no token is lost and at most `n` futures run at once, and every future
that was accepted waits, belongs to a task, or is counted once as executed or crashed. None of them
waits any more when nothing but another `spawn` can happen. -/
theorem limits_tasks (n : Nat) (events : List Event) :
    let s := run TaskLimiter.step (.new n) events
    s.tokens + s.dispatcher.tokens + s.tasks.countP (·.holds) = n ∧
      s.tasks.count .running ≤ n ∧
      s.accepted = s.queue + s.dispatcher.futures + s.tasks.card + s.executed + s.crashed ∧
      s.succeeded ≤ s.executed + s.tasks.countP (·.resolved) ∧
      (0 < n → (∀ e, e ≠ .spawn → s.step e = s) → s.accepted = s.executed + s.crashed) := by
  intro s
  have h : Balanced n s :=
    invariant_run (fun _ e h => h.step e) ⟨rfl, rfl, rfl, le_rfl⟩ events
  refine ⟨h.tokens, le_trans ?_ ((Nat.le_add_left _ _).trans_eq h.tokens), h.futures, h.succeeded,
    h.done⟩
  rw [count, countP_eq_card_filter, countP_eq_card_filter]
  refine card_le_card (monotone_filter_right _ ?_)
  rintro _ rfl
  rfl

end Libp2pRs.Runtime
