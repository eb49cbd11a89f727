import Libp2pRs.Mplex.Effects

/-!
# Reading from a stream

The bodies of the messages for a stream go into its channel, and `poll_read` takes them out, with what
does not fit into the buffer of the caller left for the next call. We watch one channel and the handle
that reads from it: what has arrived for the stream, what was read, and whether a read gave no bytes
although the remote had not ended the stream.
-/

namespace Libp2pRs.Mplex

open Lib Libp2pRs.Core List Mplex.System AList

variable {j size : Nat} {h : Handle}

namespace System

variable {s t u : System}

/-! ## What has not been read -/

/-- What is left in the read buffer of the handle, if it reads this channel. -/
def buffer (s : System) (c k : Nat) : List UInt8 :=
  match s.handles.lookup k with
  | some h => if h.stream.receiver = c then h.readBuffer else []
  | none => []

variable {c k : Nat}

theorem buffer_eq (h : t.handles.lookup k = s.handles.lookup k) : t.buffer c k = s.buffer c k := by
  rw [buffer, buffer, h]

/-- What will be read: the rest in the read buffer and what is in the channel. -/
def unread (s : System) (c k : Nat) : List UInt8 := s.buffer c k ++ (s.items c).flatten

def Numbered (s : System) : Prop := s.handles.lookup s.nextHandle = none ∧
  ∀ k, s.nextHandle < k → s.handles.lookup k = none

/-- The channels and read buffers are as they were; new handles have nothing in theirs. -/
structure Still (s t : System) : Prop where
  items : t.items = s.items
  buffer : ∀ c k, t.buffer c k = s.buffer c k
  numbered : t.Numbered

theorem Still.unread (h : Still s t) (c k : Nat) : t.unread c k = s.unread c k := by
  rw [System.unread, System.unread, h.items, h.buffer]

theorem Still.refl (h : s.Numbered) : Still s s := ⟨rfl, fun _ _ => rfl, h⟩

theorem Still.newHandle (h : Still s t) (hempty : hd.readBuffer = []) :
    Still s { t with handles := t.handles.insert t.nextHandle hd, nextHandle := t.nextHandle + 1 } where
  items := h.items
  buffer c k := by
    have hnext := h.numbered.1
    rw [← h.buffer c k, System.buffer, System.buffer]
    by_cases hk : k = t.nextHandle
    · subst hk
      rw [lookup_insert, hnext]
      dsimp only
      rw [hempty, ite_self]
    · rw [lookup_insert_ne hk]
  numbered := by
    have hlater : ∀ k, t.nextHandle < k → (t.handles.insert t.nextHandle hd).lookup k = none := by
      intro k hk
      rw [lookup_insert_ne (by omega)]
      exact h.numbered.2 k hk
    refine ⟨hlater _ (Nat.lt_succ_self _), fun k hk => hlater k ?_⟩
    change t.nextHandle + 1 < k at hk
    omega

theorem still_edit (h : Still s t) (hedit : Edit t u) : Still s u := by
  cases hedit with
  | same hview =>
    have hhandles : u.handles = t.handles := congrArg View.handles hview
    have hnext : u.nextHandle = t.nextHandle := congrArg View.nextHandle hview
    refine ⟨(congrArg View.items hview).trans h.items, fun c k => ?_, ?_⟩
    · rw [← h.buffer c k, buffer, buffer, hhandles]
    · rw [Numbered, hhandles, hnext]
      exact h.numbered
  | handle => exact h.newHandle (rfl : (Handle.mk _ [] false).readBuffer = [])
  | accept =>
    apply Still.newHandle
    · exact { h with }
    · rfl
  | dequeue | pend | dismiss | removeStream | removeBoth | forget | setStat | clear =>
    exact { h with }

/-! ## Steps that read nothing -/

theorem lookup_setHandle (s : System) (j k : Nat) (h : Handle) :
    (s.setHandle j h).handles.lookup k = if k = j then some h else s.handles.lookup k := by
  split
  case isTrue hk =>
    subst hk
    exact lookup_insert _
  case isFalse hk => exact lookup_insert_ne hk

theorem Numbered.lt (h : s.Numbered) (hk : s.handles.lookup k = some hd) : k < s.nextHandle := by
  by_contra hge
  rcases Nat.lt_or_ge s.nextHandle k with hlt | hle
  · rw [h.2 k hlt] at hk
    cases hk
  · obtain rfl : k = s.nextHandle := by omega
    rw [h.1] at hk
    cases hk

theorem Numbered.setHandle (h : s.Numbered) (hj : j < s.nextHandle) (hd : Handle) :
    (s.setHandle j hd).Numbered := by
  refine ⟨?_, fun k hk => ?_⟩
  · rw [lookup_setHandle, if_neg (by change s.nextHandle ≠ j; omega)]
    exact h.1
  · change s.nextHandle < k at hk
    rw [lookup_setHandle, if_neg (by omega)]
    exact h.2 k hk

theorem Still.setHandle (hs : s.Numbered) (hj : s.handles.lookup j = some hd)
    (hstream : hd'.stream = hd.stream) (hbuffer : hd'.readBuffer = hd.readBuffer) :
    Still s (s.setHandle j hd') where
  items := rfl
  buffer c k := by
    rw [System.buffer, System.buffer, lookup_setHandle]
    by_cases hk : k = j
    · subst hk
      rw [if_pos rfl, hj]
      dsimp only
      rw [hstream, hbuffer]
    · rw [if_neg hk]
  numbered := hs.setHandle (hs.lt hj) hd'

/-- The step is a message, or a handle reads or is dropped. -/
def Action.Moves : Action → Prop
  | .frame f _ _ => f.header.tag = .message
  | .read _ _ | .drop _ => True
  | _ => False

theorem still_begins (hs : s.Numbered) (ha : ¬a.Moves) (hbegins : Begins s a t) : Still s t := by
  have hstill := Still.refl hs
  cases hbegins with
  | nothing => exact hstill
  | message htag => exact absurd htag ha
  | arrived | opened => exact { hstill with }

theorem still_deed (hs : s.Numbered) (ha : ¬a.Moves) (hdeed : Deed s a t) : Still s t := by
  have hstill := Still.refl hs
  cases hdeed with
  | nothing => exact hstill
  | lost | called | cancel | write | reset => exact { hstill with }
  | @close k hd hk =>
    have hset : Still s (s.setHandle k { hd with closed := true }) := .setHandle hs hk rfl rfl
    exact { hset with }
  | disconnect hk => exact .setHandle hs hk rfl rfl
  | clone => exact hstill.newHandle rfl
  | read | drop => exact absurd trivial ha

theorem still_step (hs : s.Numbered) (ha : ¬a.Moves) : Still s (s.step a) := by
  by_cases htask : a.OfTask
  · exact kept_by_edits still_edit (fun _ => .refl hs) htask fun _ _ => still_begins hs ha
  · exact still_deed hs ha (deed_step s htask)

/-! ## Messages and reads -/

def arrives (s : System) (c : Nat) : Action → List UInt8
  | .frame frame _ _ =>
    if s.status = .running ∧ frame.header.tag = .message ∧ s.taker frame.streamId = some c then
      frame.body
    else []
  | _ => []

theorem still_message (hs : s.Numbered) (htag : frame.header.tag = .message)
    (hrunning : s.status = .running) (outcome : SendOutcome) (broken : Option Nat) :
    Still (s.accept frame.streamId frame.body outcome) (s.step (.frame frame outcome broken)) := by
  have hnumbered : (s.accept frame.streamId frame.body outcome).Numbered := by
    unfold accept
    split
    · exact hs
    · split
      · exact hs
      · exact hs
  refine kept_by_edits still_edit (fun hnot => absurd hrunning hnot) trivial fun _ u hbegins => ?_
  cases hbegins with
  | message => exact .refl hnumbered
  | nothing hno => exact absurd htag (hno frame outcome broken rfl)
  | arrived hnew => exact absurd (htag.symm.trans hnew) nofun

theorem unread_accept (s : System) (id : StreamID) (body : List UInt8) (outcome : SendOutcome)
    (c k : Nat) :
    (s.accept id body outcome).unread c k =
      s.unread c k ++ if s.taker id = some c ∧ outcome ≠ .timedOut then body else [] := by
  unfold accept
  cases htaker : s.taker id with
  | none =>
    exact (append_nil _).symm
  | some receiver =>
    dsimp only
    by_cases hout : outcome = .timedOut
    · rw [if_pos hout, if_neg fun h => h.2 hout, append_nil]
    · rw [if_neg hout]
      change s.buffer c k ++ (Function.update s.items receiver _ c).flatten = _
      by_cases hc : c = receiver
      · subst hc
        rw [Function.update_self, if_pos ⟨rfl, hout⟩, flatten_append, unread, append_assoc]
        simp
      · rw [Function.update_of_ne hc, if_neg fun h => hc (Option.some_inj.mp h.1).symm, append_nil]
        rfl

theorem length_items_accept (s : System) (id : StreamID) (body : List UInt8) (outcome : SendOutcome)
    (c : Nat) : ((s.accept id body outcome).items c).length ≤ (s.items c).length + 1 := by
  unfold accept
  split
  · exact Nat.le_succ _
  case h_2 receiver _ =>
    split
    · exact Nat.le_succ _
    · change (Function.update s.items receiver _ c).length ≤ _
      by_cases hc : c = receiver
      · subst hc
        rw [Function.update_self, length_append, length_singleton]
      · rw [Function.update_of_ne hc]
        exact Nat.le_succ _

def given : Poll (Except IoError (List UInt8)) → Option (List UInt8)
  | .ready (.ok data) => some data
  | _ => none

theorem pollReadChunk_spec (h : Handle) (items : List (List UInt8)) (alive : Bool) (size : Nat) :
    (given (pollReadChunk h items alive size).1).getD [] ++
        ((pollReadChunk h items alive size).2.1.readBuffer ++
          (pollReadChunk h items alive size).2.2.flatten) =
      h.readBuffer ++ items.flatten := by
  unfold pollReadChunk
  by_cases hbuffer : h.readBuffer = []
  · rw [if_neg (not_not.mpr hbuffer), hbuffer]
    cases items with
    | nil => cases alive <;> simp [given, hbuffer]
    | cons data items =>
      dsimp only [given, Option.getD_some]
      rw [nil_append, flatten_cons, ← append_assoc, take_append_drop]
  · rw [if_pos hbuffer]
    dsimp only [given, Option.getD_some]
    rw [← append_assoc, take_append_drop]

theorem pollReadChunk_empty_iff (h : Handle) (items : List (List UInt8)) (alive : Bool)
    (hsize : 0 < size) :
    given (pollReadChunk h items alive size).1 = some [] ↔
      h.readBuffer = [] ∧ items.head? = some [] := by
  have htake : ∀ data : List UInt8, data.take (min data.length size) = [] ↔ data = [] := by
    intro data
    rw [take_eq_nil_iff]
    constructor
    · rintro (hmin | hdata)
      · apply eq_nil_of_length_eq_zero
        omega
      · exact hdata
    · exact .inr
  unfold pollReadChunk
  by_cases hbuffer : h.readBuffer = []
  · rw [if_neg (not_not.mpr hbuffer)]
    cases items with
    | nil => cases alive <;> simp [given]
    | cons data items => simp [given, hbuffer, htake]
  · simp [given, hbuffer, htake]

theorem pollReadChunk_none {items : List (List UInt8)}
    (hnone : given (pollReadChunk h items alive size).1 = none) :
    h.readBuffer = [] ∧ items = [] := by
  unfold pollReadChunk at hnone
  by_cases hbuffer : h.readBuffer = []
  · rw [if_neg (not_not.mpr hbuffer)] at hnone
    cases items with
    | nil => exact ⟨hbuffer, rfl⟩
    | cons data items => cases hnone
  · rw [if_pos hbuffer] at hnone
    cases hnone

theorem pollReadChunk_progress (h : Handle) (items : List (List UInt8)) (alive : Bool)
    (hsize : 0 < size) :
    (pollReadChunk h items alive size).2.2.length ≤ items.length ∧
      ((pollReadChunk h items alive size).2.1.readBuffer ++
          (pollReadChunk h items alive size).2.2.flatten).length +
        (pollReadChunk h items alive size).2.2.length ≤
          (h.readBuffer ++ items.flatten).length + items.length - 1 := by
  unfold pollReadChunk
  by_cases hbuffer : h.readBuffer = []
  · rw [if_neg (not_not.mpr hbuffer)]
    cases items with
    | nil => cases alive <;> simp [hbuffer]
    | cons data items =>
      simp only [length_append, length_drop, flatten_cons, length_cons]
      omega
  · rw [if_pos hbuffer]
    have hpos := length_pos_of_ne_nil hbuffer
    simp only [length_append, length_drop]
    omega

def reads (s : System) (c k : Nat) : Action → Option (List UInt8)
  | .read j size =>
    match s.handles.lookup k with
    | none => none
    | some h => if j = k ∧ h.stream.receiver = c then given (s.pollRead k h size).1 else none
  | _ => none

theorem lookup_read (s : System) (hj : s.handles.lookup j = some h) (size k : Nat) :
    (s.step (.read j size)).handles.lookup k =
      if k = j then some (pollReadChunk h (s.items h.stream.receiver)
        (s.senderAlive h.stream.receiver) size).2.1
      else s.handles.lookup k := by
  change (s.withHandle j _).handles.lookup k = _
  rw [withHandle, hj]
  exact lookup_setHandle s j k _

theorem items_read (s : System) (hj : s.handles.lookup j = some h) (size c : Nat) :
    (s.step (.read j size)).items c =
      if c = h.stream.receiver then (pollReadChunk h (s.items h.stream.receiver)
        (s.senderAlive h.stream.receiver) size).2.2
      else s.items c := by
  change (s.withHandle j _).items c = _
  rw [withHandle, hj]
  exact Function.update_apply _ _ _ _

theorem conn_read (s : System) (j size : Nat) : (s.step (.read j size)).conn = s.conn := by
  change (s.withHandle j _).conn = s.conn
  unfold withHandle
  split
  · rfl
  · rfl

theorem status_read (s : System) (j size : Nat) : (s.step (.read j size)).status = s.status := by
  change (s.withHandle j _).status = s.status
  unfold withHandle
  split
  · rfl
  · rfl

theorem reader_read (hk : s.handles.lookup k = some h) (hc : h.stream.receiver = c) (j size : Nat) :
    ∃ h', (s.step (.read j size)).handles.lookup k = some h' ∧ h'.stream.receiver = c := by
  cases hj : s.handles.lookup j with
  | none =>
    refine ⟨h, ?_, hc⟩
    change (s.withHandle j _).handles.lookup k = some h
    rw [withHandle, hj]
    exact hk
  | some hd =>
    rw [lookup_read s hj]
    by_cases hkj : k = j
    · subst hkj
      obtain rfl : hd = h := Option.some_inj.mp (hj.symm.trans hk)
      rw [if_pos rfl]
      refine ⟨_, rfl, ?_⟩
      rw [(pollReadChunk_handle hd _ _ size).1]
      exact hc
    · rw [if_neg hkj]
      exact ⟨h, hk, hc⟩

theorem reads_eq_none (hnot : ∀ h, s.handles.lookup j = some h → h.stream.receiver = c → j ≠ k) :
    s.reads c k (.read j size) = none := by
  unfold reads
  dsimp only
  cases hk : s.handles.lookup k with
  | none => rfl
  | some h =>
    dsimp only
    rw [if_neg]
    rintro ⟨rfl, hc⟩
    exact hnot h hk hc rfl

/-- A read by the only reader of a channel takes its result from what will be read; other reads
leave the channel as it is. -/
theorem unread_read (s : System) (size : Nat)
    (hsole : ∀ h, s.handles.lookup j = some h → h.stream.receiver = c → j = k) :
    (s.reads c k (.read j size)).getD [] ++ (s.step (.read j size)).unread c k = s.unread c k := by
  cases hj : s.handles.lookup j with
  | none =>
    have hstep : s.step (.read j size) = s := by
      change s.withHandle j _ = s
      rw [withHandle, hj]
    have hreads : s.reads c k (.read j size) = none := by
      apply reads_eq_none
      intro h hj'
      rw [hj] at hj'
      cases hj'
    rw [hstep, hreads]
    rfl
  | some h =>
    obtain ⟨hstream, -⟩ := pollReadChunk_handle h (s.items h.stream.receiver)
      (s.senderAlive h.stream.receiver) size
    have hspec := pollReadChunk_spec h (s.items h.stream.receiver)
      (s.senderAlive h.stream.receiver) size
    rw [unread, unread, buffer, buffer, lookup_read s hj, items_read s hj]
    by_cases hc : h.stream.receiver = c
    · obtain rfl := hsole h hj hc
      subst hc
      rw [reads, hj, if_pos rfl, if_pos rfl]
      dsimp only
      rw [if_pos ⟨rfl, rfl⟩, hstream, if_pos rfl, if_pos rfl]
      exact hspec
    · have hreads : s.reads c k (.read j size) = none := by
        apply reads_eq_none
        intro h' hj' hc'
        obtain rfl : h = h' := Option.some_inj.mp (hj.symm.trans hj')
        exact absurd hc' hc
      rw [hreads, if_neg (Ne.symm hc)]
      by_cases hk : k = j
      · subst hk
        rw [if_pos rfl, hj]
        dsimp only
        rw [hstream, if_neg hc, if_neg hc]
        rfl
      · rw [if_neg hk]
        rfl

theorem unread_eq (hk : s.handles.lookup k = some h) (hc : h.stream.receiver = c) :
    s.unread c k = h.readBuffer ++ (s.items c).flatten := by
  rw [unread, buffer, hk]
  dsimp only
  rw [if_pos hc]

theorem read_progress (hk : s.handles.lookup k = some h) (hc : h.stream.receiver = c)
    (hsize : 0 < size) :
    ((s.step (.read k size)).items c).length ≤ (s.items c).length ∧
      ((s.step (.read k size)).unread c k).length + ((s.step (.read k size)).items c).length ≤
        (s.unread c k).length + (s.items c).length - 1 := by
  subst hc
  have hprogress := pollReadChunk_progress h (s.items h.stream.receiver)
    (s.senderAlive h.stream.receiver) hsize
  have hread := lookup_read s hk size k
  rw [if_pos rfl] at hread
  have hstream := (pollReadChunk_handle h (s.items h.stream.receiver)
    (s.senderAlive h.stream.receiver) size).1
  rw [unread_eq hk rfl, unread_eq hread (by rw [hstream]), items_read s hk, if_pos rfl]
  exact hprogress

theorem numbered_step (hs : s.Numbered) (a : Action) : (s.step a).Numbered := by
  by_cases ha : a.Moves
  · cases a with
    | frame frame outcome broken =>
      by_cases hrunning : s.status = .running
      · exact (still_message hs ha hrunning outcome broken).numbered
      · rw [step_of_not_running hrunning (by trivial)]
        exact hs
    | read j size =>
      change (s.withHandle j _).Numbered
      unfold withHandle
      split
      · exact hs
      case h_2 h hj => exact hs.setHandle (hs.lt hj) _
    | drop j =>
      have herase : ∀ k, s.handles.lookup k = none → (s.handles.erase j).lookup k = none := by
        intro k hk
        by_cases hkj : k = j
        · rw [hkj]
          exact lookup_erase _ _
        · rw [lookup_erase_ne hkj]
          exact hk
      exact ⟨herase _ hs.1, fun k hk => herase k (hs.2 k hk)⟩
    | _ => cases ha
  · exact (still_step hs ha).numbered

/-! ## Watching a reader -/

def ends (s : System) (c : Nat) : Action → Bool
  | .frame frame _ _ =>
    s.status = .running ∧ (frame.header.tag = .close ∨ frame.header.tag = .reset) ∧
      s.current frame.streamId = some c
  | _ => false

/-- A system with what has arrived for one channel and what one handle has read from it; whether the
remote has ended the stream, and whether a read before that gave no bytes. -/
structure Watch where
  system : System
  arrived : List UInt8
  got : List UInt8
  ended : Bool
  zero : Bool

def watched (s : System) : Watch := ⟨s, [], [], false, false⟩

end System

namespace System.Watch

def step (c k : Nat) (w : Watch) (a : Action) : Watch where
  system := w.system.step a
  arrived := w.arrived ++ w.system.arrives c a
  got := w.got ++ (w.system.reads c k a).getD []
  ended := w.ended || w.system.ends c a
  zero := w.zero || (!w.ended && w.system.reads c k a = some [])

/-- What was read is what has arrived, apart from what can still be read; the reader waits or gets an
error only if this is nothing; and it was not given nothing. -/
structure Good (c k : Nat) (w : Watch) : Prop where
  conserved : w.got ++ w.system.unread c k = w.arrived
  waits : ∀ h size, w.system.handles.lookup k = some h → h.stream.receiver = c →
    given (w.system.pollRead k h size).1 = none → w.got = w.arrived
  nonempty : w.zero = false

/-- The handle is the only reader of the channel, is not dropped, and its buffers are not empty. -/
def SoleReader (c k : Nat) (w : Watch) : Action → Prop
  | .read j size => ∀ h, w.system.handles.lookup j = some h → h.stream.receiver = c → j = k ∧ 0 < size
  | .drop j => j ≠ k
  | _ => True

/-- No body for the channel is given up, and before the end of the stream its reader does not come to
an empty body. -/
def Met (c : Nat) (w : Watch) : Action → Prop
  | .frame frame outcome broken =>
    w.system.arrives c (.frame frame outcome broken) ≠ [] → outcome ≠ .timedOut
  | .read j _ => ∀ h, w.system.handles.lookup j = some h → h.stream.receiver = c → w.ended = false →
    h.readBuffer = [] → (w.system.items c).head? ≠ some []
  | _ => True

variable {c k : Nat} {w : Watch}

theorem waits_of_conserved (hw : w.got ++ w.system.unread c k = w.arrived)
    (hk : w.system.handles.lookup k = some h) (hc : h.stream.receiver = c)
    (hnone : given (w.system.pollRead k h size).1 = none) : w.got = w.arrived := by
  subst hc
  obtain ⟨hbuffer, hitems⟩ := pollReadChunk_none hnone
  rw [← hw, unread, buffer, hk, hitems]
  dsimp only
  rw [if_pos rfl, hbuffer]
  exact (append_nil _).symm

theorem good_iff : w.Good c k ↔ w.got ++ w.system.unread c k = w.arrived ∧ w.zero = false :=
  ⟨fun h => ⟨h.conserved, h.nonempty⟩,
    fun h => ⟨h.1, fun _ _ hk hc hnone => waits_of_conserved h.1 hk hc hnone, h.2⟩⟩

theorem good_step_still (hw : w.Good c k) (harrives : w.system.arrives c a = [])
    (hreads : w.system.reads c k a = none)
    (hunread : (w.system.step a).unread c k = w.system.unread c k) : (w.step c k a).Good c k := by
  rw [good_iff] at hw ⊢
  refine ⟨?_, ?_⟩
  · change (w.got ++ _) ++ (w.system.step a).unread c k = w.arrived ++ _
    rw [harrives, hreads, hunread, ← hw.1]
    simp
  · change (w.zero || (!w.ended && w.system.reads c k a = some [])) = false
    rw [hreads, hw.2]
    simp

theorem good_step_frame_iff (hs : w.system.Numbered) (hw : w.Good c k) (frame : Frame)
    (outcome : SendOutcome) (broken : Option Nat) :
    (w.step c k (.frame frame outcome broken)).Good c k ↔
      w.Met c (.frame frame outcome broken) := by
  by_cases htag : frame.header.tag = .message ∧ w.system.status = .running
  · obtain ⟨htag, hrunning⟩ := htag
    have hstill := (still_message hs htag hrunning outcome broken).unread c k
    have harrives : w.system.arrives c (.frame frame outcome broken) =
        if w.system.taker frame.streamId = some c then frame.body else [] := by
      simp only [arrives, hrunning, htag, true_and]
    rw [good_iff] at hw
    rw [good_iff, Met, harrives]
    have hzero : (w.step c k (.frame frame outcome broken)).zero = false := by
      change (w.zero || (!w.ended && false)) = false
      rw [hw.2]
      simp
    have hgot : (w.step c k (.frame frame outcome broken)).got = w.got := append_nil _
    rw [hzero, hgot]
    change w.got ++ (w.system.step _).unread c k = w.arrived ++ w.system.arrives c _ ∧ _ ↔ _
    rw [hstill, unread_accept, harrives, ← append_assoc, hw.1, append_cancel_left_eq]
    by_cases htaker : w.system.taker frame.streamId = some c
    · by_cases hout : outcome = .timedOut
      · simp [htaker, hout, eq_comm]
      · simp [htaker, hout]
    · simp [htaker]
  · have harrives : w.system.arrives c (.frame frame outcome broken) = [] := by
      unfold arrives
      dsimp only
      rw [if_neg fun h => htag ⟨h.2.1, h.1⟩]
    have hunread : (w.system.step (.frame frame outcome broken)).unread c k =
        w.system.unread c k := by
      by_cases hrunning : w.system.status = .running
      · apply Still.unread
        apply still_step hs
        intro hmoves
        exact htag ⟨hmoves, hrunning⟩
      · rw [step_of_not_running hrunning (by trivial)]
    exact iff_of_true (good_step_still hw harrives rfl hunread) fun h => absurd harrives h

theorem good_step_read_iff (hw : w.Good c k) (hsole : w.SoleReader c k (.read j size)) :
    (w.step c k (.read j size)).Good c k ↔ w.Met c (.read j size) := by
  have hconserved : (w.step c k (.read j size)).got ++
      (w.step c k (.read j size)).system.unread c k = (w.step c k (.read j size)).arrived := by
    have hread := w.system.unread_read size fun h hj hc => (hsole h hj hc).1
    change (w.got ++ _) ++ (w.system.step _).unread c k = w.arrived ++ []
    rw [append_assoc, hread, hw.conserved, append_nil]
  rw [good_iff, and_iff_right hconserved]
  change (w.zero || (!w.ended && decide (w.system.reads c k (.read j size) = some []))) = false ↔ _
  rw [hw.nonempty, Bool.false_or, Met]
  have hreads : w.system.reads c k (.read j size) = some [] ↔
      ∃ h, w.system.handles.lookup j = some h ∧ h.stream.receiver = c ∧ h.readBuffer = [] ∧
        (w.system.items c).head? = some [] := by
    constructor
    · intro hread
      unfold reads at hread
      dsimp only at hread
      split at hread
      · cases hread
      case h_2 h hk =>
        split at hread
        case isTrue hjc =>
          obtain ⟨rfl, rfl⟩ := hjc
          obtain ⟨-, hsize⟩ := hsole h hk rfl
          exact ⟨h, hk, rfl, (pollReadChunk_empty_iff h _ _ hsize).mp hread⟩
        case isFalse => cases hread
    · rintro ⟨h, hj, rfl, hempty⟩
      obtain ⟨rfl, hsize⟩ := hsole h hj rfl
      unfold reads
      rw [hj]
      dsimp only
      rw [if_pos ⟨rfl, rfl⟩]
      exact (pollReadChunk_empty_iff h _ _ hsize).mpr hempty
  cases hended : w.ended with
  | true => simp
  | false =>
    rw [Bool.not_false, Bool.true_and, decide_eq_false_iff_not, hreads]
    constructor
    · rintro hnot h hj hc - hbuffer hhead
      exact hnot ⟨h, hj, hc, hbuffer, hhead⟩
    · rintro hmet ⟨h, hj, hc, hbuffer, hhead⟩
      exact hmet h hj hc rfl hbuffer hhead

theorem good_step_iff (hs : w.system.Numbered) (hw : w.Good c k)
    (ha : w.SoleReader c k a) : (w.step c k a).Good c k ↔ w.Met c a := by
  cases a with
  | frame frame outcome broken => exact good_step_frame_iff hs hw frame outcome broken
  | read j size => exact good_step_read_iff hw ha
  | drop j =>
    have hunread : (w.system.step (.drop j)).unread c k = w.system.unread c k := by
      have hbuffer : (w.system.step (.drop j)).buffer c k = w.system.buffer c k :=
        buffer_eq (lookup_erase_ne (Ne.symm ha))
      rw [unread, unread, hbuffer]
      rfl
    exact iff_of_true (good_step_still hw rfl rfl hunread) trivial
  | _ =>
    refine iff_of_true (good_step_still hw rfl rfl ?_) trivial
    apply Still.unread
    exact still_step hs not_false

end System.Watch

namespace System

/-- For a channel with one reader, whose buffers are not empty: what is read is what arrives for the
stream and no read before its end is empty, if and only if no body is given up after a timeout and the
reader never comes to an empty body before the end of the stream. -/
theorem reads_conserve_iff (id : UInt32) (c k : Nat) {actions : List Action}
    (h : EachStep (Watch.step c k) (Watch.SoleReader c k) (start id).watched actions) :
    Always (Watch.step c k) (Watch.Good c k) (start id).watched actions ↔
      EachStep (Watch.step c k) (Watch.Met c) (start id).watched actions := by
  apply always_iff_eachStep_of (J := fun w => w.system.Numbered) _ _ _ _ h
  · exact fun w a hw => numbered_step hw a
  · exact fun w a hs hsole hw => Watch.good_step_iff hs hw hsole
  · exact ⟨lookup_empty _, fun k _ => lookup_empty k⟩
  · rw [Watch.good_iff]
    refine ⟨?_, rfl⟩
    change (match (∅ : AList fun _ : Nat => Handle).lookup k with
      | some h => if h.stream.receiver = c then h.readBuffer else []
      | none => []) ++ [] = []
    rw [lookup_empty]
    rfl

def accepted : List Action :=
  [.frame (.newStreamFrame ⟨1, false⟩ []) .sent none, .acceptStream, .controlCommand none]

/-- The remote sends a message without a body, and the reader is told that there were no bytes although
the stream is open. -/
theorem empty_message_read :
    let actions := accepted ++ [.frame (.messageFrame ⟨1, false⟩ []) .sent none, .read 0 8]
    let w := run (Watch.step 0 0) (start 0).watched actions
    w.ended = false ∧ w.zero = true ∧ w.system.current ⟨1, false⟩ = some 0 := by
  decide

/-- Two messages are read in three parts. -/
theorem two_messages_read :
    Always (Watch.step 0 0) (Watch.Good 0 0) (start 0).watched
      (accepted ++ [.frame (.messageFrame ⟨1, false⟩ [1, 2, 3]) .sent none, .read 0 2,
        .frame (.messageFrame ⟨1, false⟩ [4]) .sent none, .read 0 2, .read 0 2]) := by
  have hsole : ∀ (w : Watch), w.SoleReader 0 0 (.read 0 2) := fun _ _ _ _ => ⟨rfl, by decide⟩
  apply (reads_conserve_iff 0 0 0 ?_).mpr
  swap
  · exact ⟨trivial, trivial, trivial, trivial, hsole _, trivial, hsole _, hsole _, trivial⟩
  refine ⟨?_, trivial, trivial, ?_, ?_, ?_, ?_, ?_, trivial⟩
  · nofun
  · nofun
  · exact fun _ _ _ _ _ => by decide
  · nofun
  · exact fun _ _ _ _ _ => by decide
  · exact fun _ _ _ _ _ => by decide

end System

end Libp2pRs.Mplex
