import Mathlib.Data.List.Basic

/-!
# Byte streams that are polled

One direction of a reliable ordered byte stream, polled by a writer at one end and a reader at the
other. How a call on the stream turns out is not known in advance: it may be pending, fail or move
fewer bytes than it could. A call of the code above the stream makes some calls on it, and the
answers to these are a list that is arbitrary; when it is used up, the stream is pending.

* `Wire.pollWrite_spec`, `Wire.pollRead_spec`: all a call on the stream can do.
-/

namespace Libp2pRs.Lib

open List

inductive Poll (α : Type) where
  | pending
  | ready (a : α)
  deriving DecidableEq, Repr

/-- How a call on the stream turns out. The number bounds the bytes it moves. -/
inductive Answer (ε : Type) where
  | pending
  | error (e : ε)
  | ready (n : Nat)
  deriving DecidableEq, Repr

/-- The bytes that were written, and how many of them were read. -/
structure Pipe where
  sent : List UInt8
  taken : Nat
  closed : Bool
  taken_le : taken ≤ sent.length

namespace Pipe

def empty : Pipe := ⟨[], 0, false, Nat.le_refl 0⟩

def available (p : Pipe) : List UInt8 := p.sent.drop p.taken

def delivered (p : Pipe) : List UInt8 := p.sent.take p.taken

def push (p : Pipe) (data : List UInt8) : Pipe where
  sent := p.sent ++ data
  taken := p.taken
  closed := p.closed
  taken_le := by
    have := p.taken_le
    rw [List.length_append]
    omega

def pull (p : Pipe) (n : Nat) : Pipe where
  sent := p.sent
  taken := min (p.taken + n) p.sent.length
  closed := p.closed
  taken_le := Nat.min_le_right _ _

def close (p : Pipe) : Pipe := { p with closed := true }

variable (p : Pipe) (data : List UInt8) (n : Nat)

@[simp] theorem push_sent : (p.push data).sent = p.sent ++ data := rfl
@[simp] theorem pull_sent : (p.pull n).sent = p.sent := rfl

@[simp] theorem length_delivered : p.delivered.length = p.taken :=
  length_take_of_le p.taken_le

theorem delivered_append_available : p.delivered ++ p.available = p.sent :=
  take_append_drop p.taken p.sent

@[simp] theorem push_delivered : (p.push data).delivered = p.delivered :=
  take_append_of_le_length p.taken_le

theorem pull_delivered : (p.pull n).delivered = p.delivered ++ p.available.take n := by
  by_cases h : p.taken + n ≤ p.sent.length
  · have hmin : min (p.taken + n) p.sent.length = p.taken + n := by omega
    simp only [delivered, available, pull, hmin]
    exact take_add
  · have hmin : min (p.taken + n) p.sent.length = p.sent.length := by omega
    have hall : p.available.take n = p.available := by
      apply take_of_length_le
      rw [available, length_drop]
      omega
    rw [hall, delivered_append_available]
    simp only [delivered, pull, hmin, take_length]

/-- Bytes may have been written, and nothing else has happened. A closed stream takes none. -/
structure Grows (pipe pipe' : Pipe) : Prop where
  sent_prefix : pipe.sent <+: pipe'.sent
  delivered : pipe'.delivered = pipe.delivered
  frozen : pipe.closed = true → pipe'.sent = pipe.sent ∧ pipe'.closed = true

namespace Grows

variable {pipe pipe' pipe'' : Pipe}

theorem refl (pipe : Pipe) : Grows pipe pipe := ⟨List.prefix_rfl, rfl, fun h => ⟨rfl, h⟩⟩

theorem trans (h : Grows pipe pipe') (h' : Grows pipe' pipe'') : Grows pipe pipe'' := by
  refine ⟨h.sent_prefix.trans h'.sent_prefix, h'.delivered.trans h.delivered, fun hclosed => ?_⟩
  obtain ⟨hsent, hclosed'⟩ := h.frozen hclosed
  obtain ⟨hsent', hclosed''⟩ := h'.frozen hclosed'
  exact ⟨hsent'.trans hsent, hclosed''⟩

theorem push (hopen : pipe.closed = false) (data : List UInt8) : Grows pipe (pipe.push data) := by
  refine ⟨List.prefix_append _ _, pipe.push_delivered data, fun hclosed => ?_⟩
  rw [hopen] at hclosed
  cases hclosed

theorem close (pipe : Pipe) : Grows pipe pipe.close :=
  ⟨List.prefix_rfl, rfl, fun _ => ⟨rfl, rfl⟩⟩

theorem taken (h : Grows pipe pipe') : pipe'.taken = pipe.taken := by
  rw [← pipe'.length_delivered, h.delivered, pipe.length_delivered]

end Grows

/-- The bytes that were written come from the buffer of a writer. -/
structure Conserves (pipe : Pipe) (buf : List UInt8) (pipe' : Pipe) (buf' : List UInt8) : Prop
    extends Grows pipe pipe' where
  sent : pipe'.sent ++ buf' = pipe.sent ++ buf

namespace Conserves

variable {pipe pipe' pipe'' : Pipe} {buf buf' buf'' : List UInt8}

theorem refl (pipe : Pipe) (buf : List UInt8) : Conserves pipe buf pipe buf := ⟨.refl pipe, rfl⟩

theorem of_eq (h : pipe' = pipe) : Conserves pipe buf pipe' buf := by
  rw [h]
  exact refl pipe buf

theorem trans (h : Conserves pipe buf pipe' buf') (h' : Conserves pipe' buf' pipe'' buf'') :
    Conserves pipe buf pipe'' buf'' :=
  ⟨h.toGrows.trans h'.toGrows, h'.sent.trans h.sent⟩

theorem push (hopen : pipe.closed = false) (buf : List UInt8) (n : Nat) :
    Conserves pipe buf (pipe.push (buf.take n)) (buf.drop n) := by
  refine ⟨.push hopen _, ?_⟩
  rw [Pipe.push_sent, append_assoc, take_append_drop]

theorem close (pipe : Pipe) (buf : List UInt8) : Conserves pipe buf pipe.close buf :=
  ⟨.close pipe, rfl⟩

theorem append (h : Conserves pipe buf pipe' buf') (more : List UInt8) :
    Conserves pipe (buf ++ more) pipe' (buf' ++ more) := by
  refine ⟨h.toGrows, ?_⟩
  rw [← append_assoc, h.sent, append_assoc]

end Conserves

/-- The bytes were read, and nothing else has happened. -/
structure Reads (pipe : Pipe) (data : List UInt8) (pipe' : Pipe) : Prop where
  sent : pipe'.sent = pipe.sent
  closed : pipe'.closed = pipe.closed
  delivered : pipe'.delivered = pipe.delivered ++ data

namespace Reads

variable {pipe pipe' pipe'' : Pipe} {more : List UInt8}

theorem of_eq (h : pipe' = pipe) : Reads pipe [] pipe' := by
  rw [h]
  exact ⟨rfl, rfl, (append_nil _).symm⟩

theorem pull (pipe : Pipe) (n : Nat) : Reads pipe (pipe.available.take n) (pipe.pull n) :=
  ⟨rfl, rfl, pipe.pull_delivered n⟩

theorem trans {data : List UInt8} (h : Reads pipe data pipe') (h' : Reads pipe' more pipe'') :
    Reads pipe (data ++ more) pipe'' := by
  refine ⟨h'.sent.trans h.sent, h'.closed.trans h.closed, ?_⟩
  rw [h'.delivered, h.delivered, append_assoc]

theorem available_eq {data : List UInt8} (h : Reads pipe data pipe') :
    pipe.available = data ++ pipe'.available := by
  have hsplit := pipe'.delivered_append_available
  rw [h.delivered, h.sent, ← pipe.delivered_append_available, append_assoc] at hsplit
  exact (append_cancel_left hsplit).symm

end Reads

theorem delivered_prefix (p : Pipe) : p.delivered <+: p.sent := take_prefix _ _

theorem delivered_of_available {p : Pipe} (h : p.available = []) : p.delivered = p.sent := by
  have hsplit := p.delivered_append_available
  rwa [h, append_nil] at hsplit

end Pipe

/-- The stream during a call of the code above it, with the answers that are left. -/
structure Wire (ε : Type) where
  pipe : Pipe
  answers : List (Answer ε)

namespace Wire

variable {ε : Type}

/-- `poll_write`. A stream that was closed gives the error `broken`. -/
def pollWrite (broken : ε) (w : Wire ε) (data : List UInt8) : Poll (Except ε Nat) × Wire ε :=
  match w.answers with
  | [] => (.pending, w)
  | .pending :: rest => (.pending, { w with answers := rest })
  | .error e :: rest => (.ready (.error e), { w with answers := rest })
  | .ready n :: rest =>
    if w.pipe.closed then (.ready (.error broken), { w with answers := rest })
    else (.ready (.ok (min n data.length)), ⟨w.pipe.push (data.take n), rest⟩)

/-- `poll_read` with a buffer of the given size. A read that is not pending gives at least one byte,
except at the end of the stream. -/
def pollRead (w : Wire ε) (size : Nat) : Poll (Except ε (List UInt8)) × Wire ε :=
  match w.answers with
  | [] => (.pending, w)
  | .pending :: rest => (.pending, { w with answers := rest })
  | .error e :: rest => (.ready (.error e), { w with answers := rest })
  | .ready n :: rest =>
    if size = 0 then (.ready (.ok []), { w with answers := rest })
    else if w.pipe.available = [] then
      (if w.pipe.closed then .ready (.ok []) else .pending, { w with answers := rest })
    else
      let c := min (n + 1) size
      (.ready (.ok (w.pipe.available.take c)), ⟨w.pipe.pull c, rest⟩)

/-- `poll_flush`. What is written is on its way at once. -/
def pollFlush (w : Wire ε) : Poll (Except ε Unit) × Wire ε :=
  match w.answers with
  | [] => (.pending, w)
  | .pending :: rest => (.pending, { w with answers := rest })
  | .error e :: rest => (.ready (.error e), { w with answers := rest })
  | .ready _ :: rest => (.ready (.ok ()), { w with answers := rest })

def pollClose (w : Wire ε) : Poll (Except ε Unit) × Wire ε :=
  match w.answers with
  | [] => (.pending, w)
  | .pending :: rest => (.pending, { w with answers := rest })
  | .error e :: rest => (.ready (.error e), { w with answers := rest })
  | .ready _ :: rest => (.ready (.ok ()), ⟨w.pipe.close, rest⟩)

variable {broken : ε} {w w' : Wire ε} {data : List UInt8} {size : Nat}

theorem pollWrite_spec (h : w.pollWrite broken data = (r, w')) : (r = .pending ∧ w'.pipe = w.pipe) ∨
      (∃ e, r = .ready (.error e) ∧ w'.pipe = w.pipe ∧ (.error e ∈ w.answers ∨ w.pipe.closed)) ∨
      ∃ n ≤ data.length, r = .ready (.ok n) ∧ w'.pipe = w.pipe.push (data.take n) ∧
        w.pipe.closed = false := by
  obtain ⟨pipe, answers⟩ := w
  match answers with
  | [] | .pending :: rest =>
    cases h
    exact .inl ⟨rfl, rfl⟩
  | .error e :: rest =>
    cases h
    exact .inr (.inl ⟨e, rfl, rfl, .inl mem_cons_self⟩)
  | .ready n :: rest =>
    simp only [pollWrite] at h
    split at h
    case isTrue hclosed =>
      cases h
      exact .inr (.inl ⟨broken, rfl, rfl, .inr hclosed⟩)
    case isFalse hopen =>
      cases h
      refine .inr (.inr ⟨_, Nat.min_le_right _ _, rfl, ?_, by simpa using hopen⟩)
      rw [take_eq_take_min]

theorem pollWrite_pending (h : w.pollWrite broken data = (.pending, w')) : w'.pipe = w.pipe := by
  obtain ⟨-, hpipe⟩ | ⟨e, h, -⟩ | ⟨n, -, h, -⟩ := pollWrite_spec h
  · exact hpipe
  · cases h
  · cases h

theorem pollWrite_error (h : w.pollWrite broken data = (.ready (.error e), w')) :
    w'.pipe = w.pipe ∧ (.error e ∈ w.answers ∨ w.pipe.closed) := by
  obtain ⟨h, -⟩ | ⟨e', h, hpipe, herror⟩ | ⟨n, -, h, -⟩ := pollWrite_spec h
  · cases h
  · cases h
    exact ⟨hpipe, herror⟩
  · cases h

theorem pollWrite_ok {n : Nat} (h : w.pollWrite broken data = (.ready (.ok n), w')) :
    n ≤ data.length ∧ Pipe.Conserves w.pipe data w'.pipe (data.drop n) ∧
      w'.pipe.closed = false := by
  obtain ⟨h, -⟩ | ⟨e, h, -⟩ | ⟨m, hm, h, hpipe, hopen⟩ := pollWrite_spec h
  · cases h
  · cases h
  · cases h
    rw [hpipe]
    exact ⟨hm, .push hopen data n, hopen⟩

theorem pollWrite_answers (h : w.pollWrite broken data = (r, w')) :
    w'.answers = w.answers.tail := by
  have hw' : w' = (w.pollWrite broken data).2 := by rw [h]
  rw [hw', pollWrite]
  split
  all_goals simp only [*, tail_nil, tail_cons]
  split <;> rfl

theorem pollWrite_answers_lt (h : w.pollWrite broken data = (.ready x, w')) :
    w'.answers.length < w.answers.length := by
  rw [pollWrite_answers h, length_tail]
  cases hanswers : w.answers with
  | nil =>
    simp only [pollWrite, hanswers] at h
    cases h
  | cons a rest =>
    rw [length_cons]
    omega

variable {r : Poll (Except ε (List UInt8))}

theorem pollRead_spec (h : w.pollRead size = (r, w')) :
    (r = .pending ∧ w'.pipe = w.pipe) ∨
      (∃ e, r = .ready (.error e) ∧ w'.pipe = w.pipe ∧ .error e ∈ w.answers) ∨
      (r = .ready (.ok []) ∧ w'.pipe = w.pipe ∧
        (size = 0 ∨ w.pipe.available = [] ∧ w.pipe.closed)) ∨
      ∃ n, 0 < n ∧ n ≤ size ∧ w.pipe.available ≠ [] ∧
        r = .ready (.ok (w.pipe.available.take n)) ∧ w'.pipe = w.pipe.pull n := by
  obtain ⟨pipe, answers⟩ := w
  match answers with
  | [] | .pending :: rest =>
    cases h
    exact .inl ⟨rfl, rfl⟩
  | .error e :: rest =>
    cases h
    exact .inr (.inl ⟨e, rfl, rfl, mem_cons_self⟩)
  | .ready n :: rest =>
    simp only [pollRead] at h
    split at h
    case isTrue hsize =>
      cases h
      exact .inr (.inr (.inl ⟨rfl, rfl, .inl hsize⟩))
    case isFalse hsize =>
      split at h
      case isTrue hnone =>
        split at h
        case isTrue hclosed =>
          cases h
          exact .inr (.inr (.inl ⟨rfl, rfl, .inr ⟨hnone, hclosed⟩⟩))
        case isFalse =>
          cases h
          exact .inl ⟨rfl, rfl⟩
      case isFalse hsome =>
        cases h
        exact .inr (.inr (.inr ⟨_, by omega, by omega, hsome, rfl, rfl⟩))

theorem pollRead_pending (h : w.pollRead size = (.pending, w')) : w'.pipe = w.pipe := by
  obtain ⟨-, hpipe⟩ | ⟨e, h, -⟩ | ⟨h, -⟩ | ⟨n, -, -, -, h, -⟩ := pollRead_spec h
  · exact hpipe
  all_goals cases h

theorem pollRead_error (h : w.pollRead size = (.ready (.error e), w')) :
    w'.pipe = w.pipe ∧ .error e ∈ w.answers := by
  obtain ⟨h, -⟩ | ⟨e', h, hpipe, herror⟩ | ⟨h, -⟩ | ⟨n, -, -, -, h, -⟩ := pollRead_spec h
  · cases h
  · cases h
    exact ⟨hpipe, herror⟩
  all_goals cases h

theorem pollRead_ok (h : w.pollRead size = (.ready (.ok data), w')) :
    data.length ≤ size ∧ w.pipe.Reads data w'.pipe ∧
      (data = [] → size = 0 ∨ w'.pipe.available = [] ∧ w'.pipe.closed) := by
  obtain ⟨h, -⟩ | ⟨e', h, -⟩ | ⟨h, hpipe, hnil⟩ | ⟨n, hpos, hn, hsome, h, hpipe⟩ := pollRead_spec h
  · cases h
  · cases h
  · cases h
    rw [hpipe]
    exact ⟨Nat.zero_le size, .of_eq rfl, fun _ => hnil⟩
  · cases h
    rw [hpipe]
    refine ⟨?_, .pull w.pipe n, fun hnil => ?_⟩
    · rw [length_take]
      omega
    · rw [take_eq_nil_iff] at hnil
      obtain rfl | hnil := hnil
      · exact absurd hpos (Nat.lt_irrefl 0)
      · exact absurd hnil hsome

theorem pollRead_answers (h : w.pollRead size = (r, w')) : w'.answers = w.answers.tail := by
  have hw' : w' = (w.pollRead size).2 := by rw [h]
  rw [hw', pollRead]
  split
  all_goals simp only [*, tail_nil, tail_cons]
  split
  · rfl
  · split <;> rfl

theorem pollRead_answers_lt (h : w.pollRead size = (.ready x, w')) :
    w'.answers.length < w.answers.length := by
  rw [pollRead_answers h, length_tail]
  cases hanswers : w.answers with
  | nil =>
    simp only [pollRead, hanswers] at h
    cases h
  | cons a rest =>
    rw [length_cons]
    omega

/-- No call on the stream fails by itself. -/
def Clean (w : Wire ε) : Prop := ∀ e, .error e ∉ w.answers

/-- The stream delivers: no call on it is pending or fails, and there are more of them than bytes
that were not read yet. -/
def Eager (w : Wire ε) : Prop :=
  (∀ a ∈ w.answers, ∃ n, a = .ready n) ∧ w.pipe.available.length < w.answers.length

theorem Eager.clean (h : w.Eager) : w.Clean := by
  intro e he
  obtain ⟨n, hn⟩ := h.1 _ he
  cases hn

theorem Clean.of_tail (hw : w.Clean) (h : w'.answers = w.answers.tail) : w'.Clean := by
  intro e he
  rw [h] at he
  exact hw e (mem_of_mem_tail he)

theorem Eager.pollRead (hw : w.Eager) (h : w.pollRead size = (r, w'))
    (hsome : w.pipe.available ≠ []) (hsize : size ≠ 0) : r ≠ .pending ∧ w'.Eager := by
  obtain ⟨pipe, answers⟩ := w
  obtain ⟨hready, hlt⟩ := hw
  match answers with
  | [] => exact absurd hlt (Nat.not_lt_zero _)
  | .pending :: rest | .error e :: rest =>
    obtain ⟨n, hn⟩ := hready _ mem_cons_self
    cases hn
  | .ready n :: rest =>
    simp only [Wire.pollRead, if_neg hsize, if_neg hsome] at h
    cases h
    refine ⟨nofun, fun a ha => hready a (mem_cons_of_mem _ ha), ?_⟩
    have hpull := (Pipe.Reads.pull pipe (min (n + 1) size)).delivered
    have hlen := congrArg length hpull
    have hpos := length_pos_of_ne_nil hsome
    rw [length_append, Pipe.length_delivered, Pipe.length_delivered, length_take] at hlen
    simp only [Pipe.available, length_drop, Pipe.pull_sent, length_cons] at hlt hlen hpos ⊢
    omega

theorem Eager.pollRead_ok (hw : w.Eager) (h : w.pollRead size = (.ready (.ok data), w'))
    (hdata : data ≠ []) : w'.Eager := by
  obtain ⟨hle, hreads, -⟩ := Wire.pollRead_ok h
  have hpos := length_pos_of_ne_nil hdata
  refine (hw.pollRead h ?_ (by omega)).2
  rw [hreads.available_eq]
  exact append_ne_nil_of_left_ne_nil hdata _

@[simp] theorem pollFlush_pipe (w : Wire ε) : w.pollFlush.2.pipe = w.pipe := by
  rw [pollFlush]
  split <;> rfl

theorem pollFlush_answers (w : Wire ε) : w.pollFlush.2.answers = w.answers.tail := by
  rw [pollFlush]
  split
  all_goals simp only [*, tail_nil, tail_cons]

theorem pollClose_spec {r : Poll (Except ε Unit)} (h : w.pollClose = (r, w')) :
    (r ≠ .ready (.ok ()) ∧ w'.pipe = w.pipe) ∨ (r = .ready (.ok ()) ∧ w'.pipe = w.pipe.close) := by
  obtain ⟨pipe, answers⟩ := w
  match answers with
  | [] | .pending :: rest | .error e :: rest =>
    cases h
    exact .inl ⟨nofun, rfl⟩
  | .ready n :: rest =>
    cases h
    exact .inr ⟨rfl, rfl⟩

end Wire

end Libp2pRs.Lib
