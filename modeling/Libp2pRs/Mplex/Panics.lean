import Libp2pRs.Mplex.Desk

/-!
# Panics of the connection task

The task expects that the call is still there when it answers an `open_stream` or `accept_stream`, and
when a stream arrives for a call that waits, or the task ends, that this call is still there. It also
adds a constant to the number of a stream that it opens.
-/

namespace Libp2pRs.Mplex

open Lib Libp2pRs.Core

theorem Desk.Turn.canceled {a : System.Action} {d d' : Desk} {x : Status} (h : Turn a d x d') :
    d'.canceled = d.canceled := by
  have htell : ∀ (d : Desk) (ps : List (Nat × Reply)), (d.tellAll ps).canceled = d.canceled := by
    intro d ps
    rw [Desk.tellAll_eq_filter]
  cases h with
  | quiet | streamsDone | waits | closes => rfl
  | command | opened => exact htell _ _
  | give | accepted | again | controlsDone => exact htell _ [_]

def Desk.Orderly (d : Desk) : Prop :=
  match d.shutdown with
  | .notStarted =>
    (d.streams.closed = false ∧ d.streams.terminated = false) ∧
      d.controls.closed = false ∧ d.paused = false
  | .inProgress _ => d.streams.terminated = false ↔ d.paused = true
  | .complete => False

theorem Desk.Turn.orderly {s t : System} {a : System.Action}
    (h : Desk.Turn a s.desk t.status t.desk) (hs : System.Orderly s.conn)
    (hrunning : t.status = .running) : System.Orderly t.conn := by
  have htell : ∀ (d : Desk) (ps : List (Nat × Reply)), d.Orderly → (d.tellAll ps).Orderly := by
    intro d ps hd
    rw [Desk.tellAll_eq_filter]
    exact hd
  change s.desk.Orderly at hs
  change t.desk.Orderly
  generalize s.desk = d at h hs
  generalize t.desk = d', t.status = x at h hrunning
  cases h with
  | quiet | waits => exact hs
  | give stream hwaiting => exact htell { d with waiting := none } [_] hs
  | command hqueue hsaid hframes => exact htell (d.popStream _) _ hs
  | streamsDone hqueue hshutdown =>
    rw [Desk.Orderly, hshutdown]
    exact iff_of_false Bool.noConfusion Bool.noConfusion
  | opened _ hpaused hqueue hsaid => exact htell (d.popControl _) _ hs
  | accepted | again => exact htell (d.popControl _) [_] hs
  | closes hpaused hqueue hshutdown =>
    rw [Desk.Orderly, hshutdown] at hs
    exact iff_of_true hs.1.2 rfl
  | controlsDone => cases hrunning

namespace System

variable {s t : System}

/-! ## When a turn panics -/

/-- The call that waits for a stream is still there. -/
def Answerable (s : System) : Prop := ∀ r, s.conn.waitingStreamSender = some r → r ∉ s.canceled

theorem status_dismissWaiting (s : System) [Decidable s.Answerable] :
    s.dismissWaiting.status = if s.Answerable then s.status else .panicked := by
  unfold dismissWaiting
  cases hwaiting : s.conn.waitingStreamSender with
  | none =>
    rw [if_pos]
    intro r hr
    rw [hwaiting] at hr
    cases hr
  | some r =>
    have hiff : s.Answerable ↔ r ∉ s.canceled := by
      constructor
      · intro h
        exact h r hwaiting
      · intro h q hq
        rw [hwaiting] at hq
        cases hq
        exact h
    rw [status_answer]
    by_cases hr : r ∈ s.canceled
    · rw [if_neg fun h => hiff.mp h hr]
      exact if_pos hr
    · rw [if_pos (hiff.mpr hr)]
      exact if_neg hr

open Classical in
theorem finish_eq (s : System) (e : ConnectionError) :
    s.finish e = if s.Answerable then s.markClosed.dismissWaiting.release e
      else s.markClosed.dismissWaiting := by
  have hstatus : s.markClosed.dismissWaiting.status =
      if s.Answerable then .running else .panicked := status_dismissWaiting s.markClosed
  unfold finish andThen
  by_cases h : s.Answerable
  · rw [if_pos h] at hstatus ⊢
    rw [hstatus]
  · rw [if_neg h] at hstatus ⊢
    rw [hstatus]

open Classical in
theorem status_finish (s : System) (e : ConnectionError) :
    (s.finish e).status = if s.Answerable then .ended e else .panicked := by
  rw [finish_eq]
  split
  case isTrue => rfl
  case isFalse h => exact (status_dismissWaiting s.markClosed).trans (if_neg h)

open Classical in
theorem desk_finish (s : System) (e : ConnectionError) :
    (s.finish e).desk = if s.Answerable then s.desk.finish else s.desk.dismissWaiting := by
  rw [finish_eq, ← desk_dismissWaiting]
  split
  case isTrue =>
    rw [desk_release, desk_dismissWaiting]
    rfl
  case isFalse => rfl

def Ends (s : System) (a : Action) : Prop := ∃ e, (s.handled a).status = .failed e

theorem panicked_turn_iff (hrunning : s.status = .running) (f : System → System) :
    (s.turn f).status = .panicked ↔
      (f s).status = .panicked ∨ (∃ e, (f s).status = .failed e) ∧ ¬(f s).Answerable := by
  unfold turn
  rw [hrunning]
  dsimp only
  cases hstatus : (f s).status with
  | running | ended e =>
    rw [hstatus]
    simp
  | panicked => exact iff_of_true hstatus (.inl rfl)
  | failed e =>
    by_cases h : (f s).Answerable
    · simp [status_finish, h]
    · simp [status_finish, h]

theorem running_turn (h : (s.turn f).status = .running) : s.turn f = f s := by
  unfold turn at h ⊢
  cases hs : s.status with
  | running =>
    rw [hs] at h
    dsimp only at h ⊢
    cases hstatus : (f s).status with
    | failed e =>
      rw [hstatus] at h
      dsimp only at h
      rw [status_finish] at h
      split at h <;> cases h
    | running | ended e | panicked => rfl
  | failed e | ended e | panicked =>
    rw [hs] at h
    dsimp only at h
    rw [hs] at h
    cases h

/-- Whoever is answered in this turn is still there, and so is the call that waits for a stream if the
task ends. The number of a stream that is opened leaves room for the constant. -/
def Met (s : System) (a : Action) : Prop :=
  s.status = .running → (s.Ends a → s.Answerable) ∧ (∀ r, s.answers a = some r → r ∉ s.canceled) ∧
    ∀ n, s.opens a = some n → n.toNat + 10000000 < 2 ^ 32

/-- There is no panic exactly if the condition is met, and the receivers are in order as long as the
task runs. -/
structure Settled (t : System) (P : Prop) : Prop where
  status : t.status ≠ .panicked ↔ P
  orderly : t.status = .running → Orderly t.conn

theorem settled_turn (hrunning : s.status = .running) {f : System → System} {P : Prop}
    (hiff : (f s).status ≠ .panicked ∧ ((∃ e, (f s).status = .failed e) → (f s).Answerable) ↔ P)
    (horderly : (f s).status = .running → Orderly (f s).conn) : Settled (s.turn f) P := by
  constructor
  · rw [← hiff, Ne, panicked_turn_iff hrunning, not_or, not_and, not_not]
  · intro hturn
    have heq := running_turn hturn
    rw [heq] at hturn ⊢
    exact horderly hturn

theorem settled_ofTask (hrunning : s.status = .running) (horderly : Orderly s.conn) {a : Action}
    (ha : a.OfTask) : Settled (s.step a) (Met s a) := by
  obtain ⟨hturn, houtcome⟩ := handled_turn hrunning horderly ha
  have hcanceled : (s.handled a).canceled = s.canceled := hturn.canceled
  have hstep := step_eq_turn ha s
  rw [hstep]
  refine settled_turn hrunning ?_ (hturn.orderly horderly)
  unfold Met Ends
  cases houtcome with
  | calm hstatus hwaiting hanswers hroom =>
    have hanswerable : (∃ e, (s.handled a).status = .failed e) →
        ((s.handled a).Answerable ↔ s.Answerable) := by
      rintro ⟨e, he⟩
      unfold Answerable
      rw [hcanceled, show (s.handled a).conn.waitingStreamSender = _ from hwaiting e he]
      rfl
    constructor
    · rintro ⟨-, hends⟩ -
      refine ⟨fun he => (hanswerable he).mp (hends he), fun r hr => ?_, hroom⟩
      obtain ⟨hwaits, he⟩ := hanswers r hr
      exact (hanswerable he).mp (hends he) r hwaits
    · intro hmet
      refine ⟨?_, fun he => (hanswerable he).mpr ((hmet hrunning).1 he)⟩
      rcases hstatus with h | ⟨e, h⟩ <;> rw [h] <;> nofun
  | @answered r hstatus hanswers hroom =>
    rw [hstatus, hanswers]
    by_cases hr : r ∈ s.canceled
    · rw [if_pos hr]
      exact iff_of_false (fun h => h.1 rfl) fun hmet => (hmet hrunning).2.1 r rfl hr
    · rw [if_neg hr]
      exact iff_of_true ⟨nofun, nofun⟩ fun _ => ⟨nofun, fun q hq => Option.some_inj.mp hq ▸ hr, hroom⟩
  | overflow hstatus hroom =>
    exact iff_of_false (fun h => h.1 hstatus) fun hmet => hroom (hmet hrunning).2.2

/-! ## Runs -/

/-- What is done around the task leaves it as it is. -/
structure Around (s t : System) : Prop where
  status : t.status = s.status
  orderly : Orderly s.conn → Orderly t.conn

theorem around_step (s : System) (ha : ¬a.OfTask) : Around s (s.step a) := by
  have hdeed := deed_step s ha
  generalize s.step a = t at hdeed ⊢
  cases hdeed <;> exact ⟨rfl, id⟩

theorem met_of_not_ofTask (s : System) (ha : ¬a.OfTask) : Met s a := by
  intro hrunning
  have hhandled : s.handled a = s := by
    cases a <;> first | rfl | exact absurd trivial ha
  have hanswers : s.answers a = none := by
    cases a <;> first | rfl | exact absurd trivial ha
  have hopens : s.opens a = none := by
    cases a <;> first | rfl | exact absurd trivial ha
  rw [Ends, hhandled, hanswers, hopens, hrunning]
  exact ⟨nofun, nofun, nofun⟩

/-- There was no panic, and the receivers are in order as long as the task runs. -/
def Sound (s : System) : Prop := s.status ≠ .panicked ∧ (s.status = .running → Orderly s.conn)

theorem settled_step (h : Sound s) (a : Action) : Settled (s.step a) (Met s a) := by
  by_cases ha : a.OfTask
  · by_cases hrunning : s.status = .running
    · exact settled_ofTask hrunning (h.2 hrunning) ha
    · rw [step_of_not_running hrunning ha]
      exact ⟨iff_of_true h.1 fun hr => absurd hr hrunning, h.2⟩
  · have haround := around_step s ha
    constructor
    · rw [haround.status]
      exact iff_of_true h.1 (met_of_not_ofTask s ha)
    · rw [haround.status]
      exact fun hrunning => haround.orderly (h.2 hrunning)

theorem sound_start (id : UInt32) : Sound (start id) :=
  ⟨nofun, fun _ => ⟨⟨rfl, rfl⟩, rfl, rfl⟩⟩

theorem always_not_panicked_iff (h : Sound s) (actions : List Action) :
    Always step (fun s => s.status ≠ .panicked) s actions ↔ Always step Sound s actions := by
  induction actions generalizing s with
  | nil => exact iff_of_true h.1 h
  | cons a actions ih =>
    have hsettled := settled_step h a
    constructor
    · rintro ⟨-, hrest⟩
      have hno := always_head (P := fun s : System => s.status ≠ .panicked) hrest
      have hnext : Sound (s.step a) := ⟨hno, hsettled.orderly⟩
      exact ⟨h, (ih hnext).mp hrest⟩
    · intro hall
      exact always_mono (fun t ht => ht.1) hall

/-- The task never panics exactly if in each of its turns whoever is to be answered is still there, and
the number of a stream that it opens leaves room for the constant. -/
theorem never_panics_iff (id : UInt32) (actions : List Action) :
    Always step (fun s => s.status ≠ .panicked) (start id) actions ↔
      EachStep step Met (start id) actions := by
  rw [always_not_panicked_iff (sound_start id)]
  apply always_iff_eachStep
  · intro s a h
    have hsettled := settled_step h a
    rw [← hsettled.status]
    exact ⟨fun hnext => hnext.1, fun hno => ⟨hno, hsettled.orderly⟩⟩
  · exact sound_start id

/-- A call to accept a stream waits and is canceled. When the remote opens a stream, the task panics. -/
theorem canceled_accept_panics :
    (run step (start 0)
      [.acceptStream, .controlCommand none, .cancel 0,
        .frame (.newStreamFrame ⟨1, false⟩ []) .sent none]).status = .panicked := by
  decide

end System

end Libp2pRs.Mplex
