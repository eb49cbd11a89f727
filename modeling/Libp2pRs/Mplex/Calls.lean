import Libp2pRs.Mplex.Panics

/-!
# The calls that wait for a reply

The command of a call is in a queue, or the call waits for a stream or for the end of the shutdown, or
the reply has been sent. A turn of the task moves calls on and forgets some, but answers nobody twice.
-/

namespace Libp2pRs.Mplex

open Lib Libp2pRs.Core List ControlCommand

namespace System

variable {s : System}

theorem desk_step (hrunning : s.status = .running) (ha : a.OfTask) :
    s.step a = s.handled a ∨ (s.step a).status ≠ .running ∧
      ((s.step a).desk = (s.handled a).desk.finish ∨
        (s.step a).desk = (s.handled a).desk.dismissWaiting) := by
  have hstep := step_eq_turn ha s
  rw [hstep]
  unfold turn
  rw [hrunning]
  dsimp only
  split
  case h_1 e hfailed =>
    rw [desk_finish, status_finish]
    split
    · exact .inr ⟨nofun, .inl rfl⟩
    · exact .inr ⟨nofun, .inr rfl⟩
  case h_2 => exact .inl rfl

end System

namespace Desk

variable {d d' : Desk} {x : Status}

/-- How often a call is going to be answered or has been answered. -/
def due (d : Desk) (n : Nat) : Nat :=
  (d.controls.queue.map ControlCommand.number).count n +
    ((d.streams.queue.flatMap (·.2.replies)).map Prod.fst).count n +
    d.waiting.toList.count n + d.shutdown.closer.toList.count n + (d.replies.map Prod.fst).count n

/-- Nobody is answered more often than before, and no command is added. -/
structure Spends (d d' : Desk) : Prop where
  due : ∀ n, d'.due n ≤ d.due n
  nextReply : d'.nextReply = d.nextReply
  commands : d'.streams.queue ⊆ d.streams.queue
  spent : d.controls.Spent → d'.controls.Spent

theorem spends_tellAll (ps : List (Nat × Reply))
    (hdue : ∀ n, d'.due n + (ps.map Prod.fst).count n ≤ d.due n)
    (hnext : d'.nextReply = d.nextReply) (hcommands : d'.streams.queue ⊆ d.streams.queue)
    (hspent : d.controls.Spent → d'.controls.Spent) : Spends d (d'.tellAll ps) := by
  obtain ⟨said, hsub, heq, -⟩ := tellAll_eq d' ps
  rw [heq]
  refine ⟨fun n => ?_, hnext, hcommands, hspent⟩
  have hcount := (hsub.map Prod.fst).count_le n
  have howed := hdue n
  unfold due at howed ⊢
  dsimp only
  rw [map_append, count_append]
  omega

theorem spent_popControl (hqueue : d.controls.queue = cmd :: queue) (h : d.controls.Spent) :
    (d.popControl queue).controls.Spent := by
  intro hterminated
  have hnil := (h hterminated).2
  rw [hqueue] at hnil
  cases hnil

theorem Turn.spends (h : Turn a d x d') : Spends d d' := by
  cases h with
  | quiet htakes => exact ⟨fun _ => Nat.le_refl _, rfl, List.Subset.refl _, id⟩
  | give stream hwaiting =>
    refine spends_tellAll [_] (fun n => ?_) rfl (List.Subset.refl _) id
    simp [due, hwaiting]
    omega
  | @command _ _ _ issuer cmd queue said frames hqueue hsaid =>
    have hspends : Spends d ((d.popStream queue).tellAll said) := by
      refine spends_tellAll _ (fun n => ?_) rfl ?_ id
      · have hcount := (hsaid.map Prod.fst).count_le n
        simp only [due, popStream, hqueue, flatMap_cons, map_append, count_append]
        omega
      · rw [popStream, hqueue]
        exact subset_cons_self _ _
    exact { hspends with }
  | streamsDone hqueue hshutdown =>
    refine ⟨fun _ => Nat.le_refl _, rfl, List.Subset.refl _, fun hspent hterminated => ?_⟩
    exact ⟨rfl, (hspent hterminated).2⟩
  | @opened _ _ _ r queue said frames hpaused hqueue hsaid =>
    have hspends : Spends d ((d.popControl queue).tellAll said) := by
      refine spends_tellAll _ (fun n => ?_) rfl (List.Subset.refl _) (spent_popControl hqueue)
      have hcount := hsaid.count_le n
      simp only [due, popControl, hqueue, map_cons, number] at hcount ⊢
      rw [count_cons, ← count_singleton]
      omega
    exact { hspends with }
  | accepted _ _ hqueue | again _ hqueue =>
    refine spends_tellAll [_] (fun n => ?_) rfl (List.Subset.refl _) (spent_popControl hqueue)
    simp [due, popControl, hqueue, count_cons, number]
    omega
  | waits hpaused hqueue hwaiting =>
    refine ⟨fun n => ?_, rfl, List.Subset.refl _, spent_popControl hqueue⟩
    simp [due, popControl, hqueue, hwaiting, count_cons, number]
    omega
  | closes hpaused hqueue hshutdown =>
    refine ⟨fun n => ?_, rfl, List.Subset.refl _, spent_popControl hqueue⟩
    simp [due, popControl, hqueue, hshutdown, count_cons, number, Shutdown.closer]
    omega
  | controlsDone hpaused hqueue hclosed hshutdown =>
    refine spends_tellAll [_] (fun n => ?_) rfl (List.Subset.refl _) fun _ _ => ⟨hclosed, hqueue⟩
    simp [due, hshutdown, Shutdown.closer]
    omega

theorem spends_dismissWaiting (d : Desk) : Spends d d.dismissWaiting := by
  unfold dismissWaiting
  split
  case h_1 q hwaiting =>
    refine spends_tellAll [_] (fun n => ?_) rfl (List.Subset.refl _) id
    simp [due, hwaiting]
    omega
  case h_2 => exact ⟨fun _ => Nat.le_refl _, rfl, List.Subset.refl _, id⟩

/-! ## The end of the task -/

/-- The call that waits for a stream, the calls of controllers and the resets that are queued. -/
def owed (d : Desk) : List Nat :=
  d.waiting.toList ++ d.controls.queue.map number ++
    (d.streams.queue.flatMap (·.2.replies)).map Prod.fst

/-- The replies at the end of the task. Of the commands of streams the first one is dropped. -/
def verdicts (d : Desk) : List (Nat × Reply) :=
  d.waiting.toList.map (·, .stream (.error .closed)) ++ d.controls.queue.map verdict ++
    if d.streams.terminated then [] else d.streams.queue.tail.flatMap (·.2.replies)

def dropped (d : Desk) : List Nat :=
  let commands := if d.streams.terminated then d.streams.queue else d.streams.queue.take 1
  (commands.flatMap (·.2.replies)).map Prod.fst

/-- The calls that get no reply. If the call that waits for a stream is not there any more, the task
panics before it tells the others. -/
def missed (d : Desk) : List Nat :=
  if ∀ r ∈ d.waiting, r ∉ d.canceled then d.dropped else d.owed

theorem finish_eq (hspent : d.controls.Spent) :
    d.finish = { d with
      waiting := none
      paused := d.paused && d.controls.terminated
      controls := ⟨[], true, true⟩
      streams := if d.streams.terminated then d.streams else ⟨[], true, true⟩
      replies := d.replies ++ d.verdicts.filter (·.1 ∉ d.canceled) } := by
  have hwaiting : d.dismissWaiting = { d with
      waiting := none
      replies := d.replies ++
        (d.waiting.toList.map (·, Reply.stream (.error .closed))).filter (·.1 ∉ d.canceled) } := by
    unfold dismissWaiting
    split
    case h_1 q hq =>
      rw [hq]
      exact tellAll_eq_filter { d with waiting := none } [_]
    case h_2 hq =>
      obtain ⟨controls, streams, shutdown, paused, waiting⟩ := d
      cases hq
      simp
  unfold finish drainStreams drainControls
  rw [hwaiting]
  obtain ⟨⟨queue, closed, terminated⟩, streams⟩ := d
  simp only [tellAll_eq_filter, verdicts, filter_append, Receiver.Spent] at hspent ⊢
  split <;> split <;> simp_all

theorem count_owed (d : Desk) (n : Nat) :
    d.owed.count n = (d.verdicts.map Prod.fst).count n + d.dropped.count n := by
  have hnumbers : (d.controls.queue.map verdict).map Prod.fst = d.controls.queue.map number := by
    rw [map_map]
    exact map_congr_left fun cmd _ => cmd.verdict_fst
  unfold owed verdicts dropped
  simp only [map_append, count_append, hnumbers]
  cases d.streams.queue <;> split <;> simp [Function.comp_def]; omega

theorem due_eq (d : Desk) (n : Nat) :
    d.due n = d.owed.count n + d.shutdown.closer.toList.count n + (d.replies.map Prod.fst).count n := by
  simp only [owed, due, count_append]
  omega

theorem spends_finish (hspent : d.controls.Spent) : Spends d d.finish := by
  rw [finish_eq hspent]
  refine ⟨fun n => ?_, rfl, ?_, fun _ _ => ⟨rfl, rfl⟩⟩
  · have hsaid := ((filter_sublist (p := (·.1 ∉ d.canceled)) (l := d.verdicts)).map Prod.fst).count_le n
    have hstreams : (((if d.streams.terminated then d.streams else ⟨[], true, true⟩).queue.flatMap
        (·.2.replies)).map Prod.fst).count n ≤ d.dropped.count n := by
      unfold dropped
      split
      · exact Nat.le_refl _
      · exact Nat.zero_le _
    rw [d.due_eq, d.count_owed]
    simp only [due, map_append, count_append, map_nil, Option.toList_none, count_nil]
    omega
  · dsimp only
    split
    · exact List.Subset.refl _
    · exact nil_subset _

/-- Every call is answered at most once, and a call that is still to come is not answered yet. -/
structure Accountable (d : Desk) : Prop where
  once : ∀ n, d.due n ≤ 1
  fresh : ∀ n, d.nextReply ≤ n → d.due n = 0
  tags : ∀ entry ∈ d.streams.queue, entry.2.frame.announces = false
  spent : d.controls.Spent

theorem Accountable.spends (h : Accountable d) (ht : Spends d d') : Accountable d' where
  once n := (ht.due n).trans (h.once n)
  fresh n hn := by
    have hdue := ht.due n
    rw [h.fresh n (ht.nextReply ▸ hn)] at hdue
    omega
  tags entry hentry := h.tags entry (ht.commands hentry)
  spent := ht.spent h.spent

theorem Accountable.called (h : Accountable d) (hnext : d'.nextReply = d.nextReply + 1)
    (hdue : ∀ n, d'.due n ≤ d.due n + [d.nextReply].count n)
    (htags : ∀ entry ∈ d'.streams.queue, entry.2.frame.announces = false)
    (hspent : d'.controls.Spent) : Accountable d' where
  once n := by
    have hold := h.once n
    have hnew := hdue n
    have hfresh := h.fresh n
    grind
  fresh n hn := by
    have hold := h.fresh n (by omega)
    have hnew := hdue n
    grind
  tags := htags
  spent := hspent

theorem Accountable.told_iff (h : Accountable d) :
    (∀ n ∈ d.owed, n ∈ d.canceled ∨ n ∈ d.finish.replies.map Prod.fst) ↔
      ∀ n ∈ d.dropped, n ∈ d.canceled := by
  have hmem : ∀ n, n ∈ d.finish.replies.map Prod.fst ↔
      n ∈ d.replies.map Prod.fst ∨ n ∈ d.verdicts.map Prod.fst ∧ n ∉ d.canceled := by
    intro n
    rw [finish_eq h.spent]
    simp
  constructor
  · intro hall n hn
    have hcount := d.count_owed n
    have hdue := h.once n
    rw [due_eq] at hdue
    have hdropped := count_pos_iff.mpr hn
    rcases hall n (count_pos_iff.mp (by omega)) with hcanceled | htold
    · exact hcanceled
    · rcases (hmem n).mp htold with hold | ⟨hnew, -⟩
      · have hreplies := count_pos_iff.mpr hold
        omega
      · have hverdicts := count_pos_iff.mpr hnew
        omega
  · intro hall n hn
    rw [hmem]
    by_cases hverdict : n ∈ d.verdicts.map Prod.fst
    · tauto
    · refine .inl (hall n (count_pos_iff.mp ?_))
      have hcount := d.count_owed n
      rw [count_eq_zero.mpr hverdict] at hcount
      have howed := count_pos_iff.mpr hn
      omega

end Desk

namespace System

open Desk

variable {s t : System}

theorem due_enqueue (s : System) (hd : Handle) (cmd : StreamCommand) (n : Nat) :
    (s.enqueue hd cmd).desk.due n = s.desk.due n + (cmd.replies.map Prod.fst).count n := by
  simp only [due, desk, enqueue, setStreams, flatMap_append, map_append, count_append,
    flatMap_singleton]
  omega

theorem accountable_enqueue (h : Accountable s.desk) (hd : Handle) (cmd : StreamCommand)
    (hcmd : cmd.frame.announces = false) (hreplies : cmd.replies = []) :
    Accountable (s.enqueue hd cmd).desk := by
  have hdue : ∀ n, (s.enqueue hd cmd).desk.due n = s.desk.due n := by
    intro n
    rw [due_enqueue, hreplies]
    rfl
  refine ⟨fun n => ?_, fun n hn => ?_, forall_mem_append.mpr ⟨h.tags, by simpa using hcmd⟩, h.spent⟩
  · rw [hdue]
    exact h.once n
  · rw [hdue]
    exact h.fresh n hn

theorem accountable_turn (h : Accountable s.desk) (horderly : s.status = .running → Orderly s.conn)
    (ha : a.OfTask) : Accountable (s.step a).desk := by
  by_cases hrunning : s.status = .running
  · have hturn := h.spends (handled_turn hrunning (horderly hrunning) ha).1.spends
    rcases desk_step hrunning ha with hstep | ⟨-, hstep | hstep⟩
    · rw [hstep]
      exact hturn
    · rw [hstep]
      exact hturn.spends (spends_finish hturn.spent)
    · rw [hstep]
      exact hturn.spends (spends_dismissWaiting _)
  · rw [step_of_not_running hrunning ha]
    exact h

theorem accountable_deed (h : Accountable s.desk) (hdeed : Deed s a t) : Accountable t.desk := by
  cases hdeed with
  | nothing | disconnect | read | clone | drop => exact h
  | cancel => exact { h with }
  | lost => exact h.called rfl (fun n => Nat.le_add_right _ _) h.tags h.spent
  | called hopen hnumber =>
    refine h.called rfl (fun n => ?_) h.tags fun hterminated => absurd (h.spent hterminated).1 hopen
    simp only [due, desk, setControls, map_append, count_append, map_singleton, hnumber]
    omega
  | write => exact accountable_enqueue h _ _ rfl rfl
  | close => exact accountable_enqueue h _ (.closeStream _) rfl rfl
  | reset =>
    refine h.called rfl (fun n => Nat.le_of_eq (due_enqueue _ _ _ n)) ?_ h.spent
    exact forall_mem_append.mpr ⟨h.tags, by simp; rfl⟩

theorem accountable_step (h : Accountable s.desk) (horderly : s.status = .running → Orderly s.conn)
    (a : Action) : Accountable (s.step a).desk := by
  by_cases ha : a.OfTask
  · exact accountable_turn h horderly ha
  · exact accountable_deed h (deed_step s ha)

theorem orderly_step (h : s.status = .running → Orderly s.conn) (a : Action)
    (hrunning : (s.step a).status = .running) : Orderly (s.step a).conn := by
  by_cases hpanicked : s.status = .panicked
  · by_cases ha : a.OfTask
    · rw [step_of_not_running (by rw [hpanicked]; nofun) ha, hpanicked] at hrunning
      cases hrunning
    · rw [(around_step s ha).status, hpanicked] at hrunning
      cases hrunning
  · exact (settled_step ⟨hpanicked, h⟩ a).orderly hrunning

/-- The calls are accounted for, and the receivers are in order while the task runs. -/
def Kempt (s : System) : Prop := Accountable s.desk ∧ (s.status = .running → Orderly s.conn)

theorem Kempt.step (h : Kempt s) (a : Action) : Kempt (s.step a) :=
  ⟨accountable_step h.1 h.2 a, orderly_step h.2 a⟩

theorem accountable_run (id : UInt32) (actions : List Action) : Kempt (run step (start id) actions) := by
  apply invariant_run fun _ a h => h.step a
  refine ⟨⟨fun _ => Nat.zero_le 1, fun _ _ => rfl, fun _ h => absurd h not_mem_nil, nofun⟩, ?_⟩
  exact (sound_start id).2

/-- In every run, a call waits for its reply in at most one place and gets at most one, and then it
does not wait any more. A call that was not made does neither. -/
theorem answered_once (id : UInt32) (actions : List Action) (n : Nat) :
    let d := (run step (start id) actions).desk
    d.due n ≤ if n < d.nextReply then 1 else 0 := by
  intro d
  obtain ⟨honce, hfresh, -, -⟩ := (accountable_run id actions).1
  split
  case isTrue => exact honce n
  case isFalse hn => exact (hfresh n (Nat.le_of_not_lt hn)).le

theorem told_finish_iff (h : Accountable s.desk) (e : ConnectionError) :
    (∀ n ∈ s.desk.owed, n ∈ s.canceled ∨ n ∈ (s.finish e).replies.map Prod.fst) ↔
      ∀ n ∈ s.desk.missed, n ∈ s.canceled := by
  change (∀ n ∈ _, n ∈ s.canceled ∨ n ∈ (s.finish e).desk.replies.map Prod.fst) ↔ _
  rw [desk_finish]
  by_cases hanswerable : s.Answerable
  · rw [if_pos hanswerable, show s.desk.missed = _ from if_pos hanswerable]
    exact h.told_iff
  · rw [if_neg hanswerable, show s.desk.missed = _ from if_neg hanswerable]
    obtain ⟨r, hwaiting, hcanceled⟩ : ∃ r, s.conn.waitingStreamSender = some r ∧ r ∈ s.canceled := by
      simpa [Answerable] using hanswerable
    have hreplies : s.desk.dismissWaiting.replies = s.desk.replies := by
      unfold Desk.dismissWaiting
      rw [show s.desk.waiting = some r from hwaiting]
      dsimp only [Desk.tell]
      rw [if_pos (show r ∈ s.desk.canceled from hcanceled)]
    rw [hreplies]
    refine forall₂_congr fun n hn => or_iff_left fun hmem => ?_
    have hdue := h.once n
    rw [due_eq] at hdue
    have howed := count_pos_iff.mpr hn
    have hold := count_pos_iff.mpr hmem
    omega

/-- Everybody who is owed a reply when the task ends gets one, exactly if nobody waits for a reply whose
command is dropped. -/
theorem told_at_end_iff (id : UInt32) (actions : List Action) (a : Action)
    (hrunning : (run step (start id) actions).status = .running)
    (hends : (run step (start id) actions).Ends a) :
    let s := run step (start id) actions
    (∀ n ∈ (s.handled a).desk.owed, n ∈ s.canceled ∨ n ∈ (s.step a).replies.map Prod.fst) ↔
      ∀ n ∈ (s.handled a).desk.missed, n ∈ s.canceled := by
  intro s
  obtain ⟨haccount, horderly⟩ := accountable_run id actions
  obtain ⟨e, hfailed⟩ := hends
  have ha : a.OfTask := by
    by_contra hnot
    have hsame : s.handled a = s := by
      cases a <;> first | rfl | exact absurd trivial hnot
    rw [hsame, hrunning] at hfailed
    cases hfailed
  obtain ⟨hturn, -⟩ := handled_turn hrunning (horderly hrunning) ha
  have hstep : s.step a = (s.handled a).finish e := by
    rw [step_eq_turn ha, turn, hrunning]
    dsimp only
    rw [hfailed]
  rw [hstep, ← show (s.handled a).canceled = s.canceled from hturn.canceled]
  exact told_finish_iff (haccount.spends hturn.spends) e

/-- Two resets are queued when the remote ends the connection. The first one gets no reply. -/
theorem first_reset_dropped :
    let s := run step (start 0) [.openStream, .controlCommand none, .reset 0, .reset 0]
    s.desk.owed = [1, 2] ∧ s.canceled = ∅ ∧
      (s.step (.readError (.io (.ofKind .unexpectedEof)))).replies.map Prod.fst = [0, 2] := by
  decide

/-- A reset behind what the stream has written gets its reply. -/
theorem later_reset_told :
    let s := run step (start 0) [.openStream, .controlCommand none, .write 0 [7], .reset 0]
    let a := Action.readError (.io (.ofKind .unexpectedEof))
    ∀ n ∈ (s.handled a).desk.owed, n ∈ s.canceled ∨ n ∈ (s.step a).replies.map Prod.fst := by
  apply (told_at_end_iff 0 _ _ (by decide) ⟨_, rfl⟩).mpr
  decide

end System

end Libp2pRs.Mplex
