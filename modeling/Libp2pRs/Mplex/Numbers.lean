import Libp2pRs.Mplex.Instances

/-!
# Numbers of streams

The Swarm knows a stream by one number: that of a stream the remote has opened is its own, that of a
stream opened here is larger by a constant. The remote chooses its numbers, up to 29 bits, so that one of
them may be that of a stream opened here. On the wire a number has 29 bits, while the counter has 32.
-/

namespace Libp2pRs.Mplex

open Lib Libp2pRs.Core AList

theorem toNat_add_offset {n : UInt32} (h : n.toNat < 2 ^ 29) :
    (n + 10000000).toNat = n.toNat + 10000000 := by
  simp only [UInt32.toNat_add, UInt32.reduceToNat]
  exact Nat.mod_eq_of_lt (by omega)

theorem StreamID.val_here (h : n.toNat < 2 ^ 29) :
    StreamID.val ⟨n, true⟩ = some (n + 10000000) := by
  have hroom : n.toNat + 10000000 < 2 ^ 32 := by omega
  rw [StreamID.val, if_pos rfl, if_pos hroom]

namespace System

variable {s t : System} {id : StreamID}

def Live (s : System) (id : StreamID) : Prop := id ∈ s.conn.streamsStat ∨ id ∈ s.conn.streams

/-- Different streams have different numbers for the Swarm, and those opened here have different numbers
on the wire. -/
def Distinct (s : System) : Prop :=
  ∀ id id', s.Live id → s.Live id' → id ≠ id' →
    id.val ≠ id'.val ∧
      (id.initiator = true → id'.initiator = true → id.remote.id ≠ id'.remote.id)

/-- A number that is given to a stream when the counter stands at `next`. -/
def Allotted (next : UInt32) (id : StreamID) : Prop :=
  if id.initiator then id.id < next ∧ id.id.toNat < 2 ^ 29 else id.id.toNat < 10000000

theorem allotted_here : Allotted next ⟨n, true⟩ ↔ n < next ∧ n.toNat < 2 ^ 29 := by
  rw [Allotted, if_pos rfl]

theorem allotted_there : Allotted next ⟨n, false⟩ ↔ n.toNat < 10000000 := by
  rw [Allotted, if_neg Bool.false_ne_true]

/-- A stream that can be read is in both tables, and its number was given to it. -/
structure Registered (s : System) : Prop where
  readable : ∀ id ∈ s.conn.streams, ∃ stat, s.conn.streamsStat.lookup id = some stat ∧ stat.canRead
  allotted : ∀ id ∈ s.conn.streamsStat, Allotted s.conn.nextStreamId id

namespace Registered

theorem live_iff (h : Registered s) : s.Live id ↔ id ∈ s.conn.streamsStat := by
  constructor
  · rintro (hstat | hstream)
    · exact hstat
    · obtain ⟨stat, hstat, -⟩ := h.readable id hstream
      exact lookup_isSome.mp (by rw [hstat]; rfl)
  · exact .inl

theorem distinct (h : Registered s) : Distinct s := by
  intro id id' hid hid' hne
  have hallotted := h.allotted id (h.live_iff.mp hid)
  have hallotted' := h.allotted id' (h.live_iff.mp hid')
  obtain ⟨n, initiator⟩ := id
  obtain ⟨n', initiator'⟩ := id'
  have hnumber : initiator = initiator' → n ≠ n' := by
    rintro rfl rfl
    exact hne rfl
  cases initiator with
  | true =>
    obtain ⟨-, hn⟩ := allotted_here.mp hallotted
    rw [StreamID.val_here hn]
    cases initiator' with
    | true =>
      obtain ⟨-, hn'⟩ := allotted_here.mp hallotted'
      rw [StreamID.val_here hn', StreamID.remote_of_lt hn, StreamID.remote_of_lt hn']
      refine ⟨?_, fun _ _ => hnumber rfl⟩
      intro heq
      have hnat := congrArg UInt32.toNat (Option.some_inj.mp heq)
      rw [toNat_add_offset hn, toNat_add_offset hn'] at hnat
      exact hnumber rfl (UInt32.toNat_inj.mp (Nat.add_right_cancel hnat))
    | false =>
      have hn' := allotted_there.mp hallotted'
      refine ⟨?_, fun _ => nofun⟩
      intro heq
      have hnat := congrArg UInt32.toNat (Option.some_inj.mp heq)
      rw [toNat_add_offset hn] at hnat
      dsimp only at hnat
      omega
  | false =>
    have hn := allotted_there.mp hallotted
    refine ⟨?_, nofun⟩
    cases initiator' with
    | true =>
      obtain ⟨-, hn'⟩ := allotted_here.mp hallotted'
      rw [StreamID.val_here hn']
      intro heq
      have hnat := congrArg UInt32.toNat (Option.some_inj.mp heq)
      rw [toNat_add_offset hn'] at hnat
      dsimp only at hnat
      omega
    | false =>
      intro heq
      exact hnumber rfl (Option.some_inj.mp heq)

/-! ## What is done to the tables -/

theorem createStream (h : Registered s) (hid : Allotted s.conn.nextStreamId id) :
    Registered (s.createStream id) where
  readable id' hid' := by
    change id' ∈ s.conn.streams.insert id s.nextReceiver at hid'
    change ∃ stat, (s.conn.streamsStat.insert id .opened).lookup id' = some stat ∧ _
    by_cases heq : id' = id
    · rw [heq, lookup_insert]
      exact ⟨_, rfl, rfl⟩
    · rw [lookup_insert_ne heq]
      exact h.readable id' ((mem_insert _).mp hid' |>.resolve_left heq)
  allotted id' hid' := by
    rcases (mem_insert _).mp hid' with rfl | hold
    · exact hid
    · exact h.allotted id' hold

theorem removeStream (h : Registered s) (id : StreamID) : Registered (s.removeStream id) :=
  { h with readable := fun id' hid' => h.readable id' (mem_erase.mp hid').2 }

theorem removeStat (h : Registered s) (hid : id ∉ s.conn.streams) : Registered (s.removeStat id) where
  readable id' hid' := by
    have hne : id' ≠ id := by
      rintro rfl
      exact hid hid'
    change ∃ stat, (s.conn.streamsStat.erase id).lookup id' = some stat ∧ _
    rw [lookup_erase_ne hne]
    exact h.readable id' hid'
  allotted id' hid' := h.allotted id' (mem_erase.mp hid').2

theorem setStat (h : Registered s) (hid : id ∈ s.conn.streamsStat)
    (hstat : id ∈ s.conn.streams → stat.canRead = true) : Registered (s.setStat id stat) where
  readable id' hid' := by
    change ∃ stat', (s.conn.streamsStat.insert id stat).lookup id' = some stat' ∧ _
    by_cases heq : id' = id
    · rw [heq, lookup_insert]
      rw [heq] at hid'
      exact ⟨stat, rfl, hstat hid'⟩
    · rw [lookup_insert_ne heq]
      exact h.readable id' hid'
  allotted id' hid' := by
    rcases (mem_insert _).mp hid' with rfl | hold
    · exact h.allotted _ hid
    · exact h.allotted id' hold

theorem count (h : Registered s) (hn : s.conn.nextStreamId < n) :
    Registered { s with conn := { s.conn with nextStreamId := n } } := by
  refine { h with allotted := fun id hid => ?_ }
  have hallotted := h.allotted id hid
  obtain ⟨k, initiator⟩ := id
  cases initiator with
  | true =>
    obtain ⟨hlt, hk⟩ := allotted_here.mp hallotted
    exact allotted_here.mpr ⟨UInt32.lt_trans hlt hn, hk⟩
  | false => exact allotted_there.mpr (allotted_there.mp hallotted)

end Registered

/-! ## Steps -/

/-- The remote announces numbers below the constant, and the counter is below 29 bits when a stream is
opened. -/
def Bounded (s : System) : Action → Prop
  | .frame frame _ _ => frame.header.tag = .newStream → frame.streamId.id.toNat < 10000000
  | .controlCommand broken => ∀ n, s.opens (.controlCommand broken) = some n → n.toNat < 2 ^ 29
  | _ => True

/-- A frame that was received: the remote announces only streams that it has opened. -/
def Received : Action → Prop
  | .frame frame _ _ => frame.header.tag = .newStream → frame.streamId.initiator = false
  | _ => True

theorem registered_edit (h : Registered s) (hedit : Edit s t) : Registered t := by
  cases hedit with
  | same hview =>
    have hstreams : t.conn.streams = s.conn.streams := congrArg View.streams hview
    have hstats : t.conn.streamsStat = s.conn.streamsStat := congrArg View.stats hview
    have hnext : t.conn.nextStreamId = s.conn.nextStreamId := congrArg View.nextStreamId hview
    constructor
    · rw [hstreams, hstats]
      exact h.readable
    · rw [hstats, hnext]
      exact h.allotted
  | dequeue | handle | pend | accept | dismiss => exact { h with }
  | removeStream id => exact h.removeStream id
  | removeBoth id => exact (h.removeStream id).removeStat fun hid => (mem_erase.mp hid).1 rfl
  | forget hid =>
    apply h.removeStat
    rcases hid with hclosed | hnot
    · -- a stream that the remote has closed is not in the table any more
      intro hid
      obtain ⟨stat, hstat, hread⟩ := h.readable _ hid
      rw [hclosed] at hstat
      cases hstat
      cases hread
    · exact hnot
  | setStat hid hstat => exact h.setStat hid hstat
  | clear =>
    exact ⟨fun id hid => absurd hid (notMem_empty id),
      fun id hid => absurd hid (notMem_empty id)⟩

theorem registered_begins (h : Registered s) (hreceived : Received a)
    (hbound : s.Bounded a) (hbegins : Begins s a t) : Registered t := by
  cases hbegins with
  | nothing => exact h
  | message =>
    unfold accept
    split
    · exact h
    · split
      · exact h
      · exact { h with }
  | @arrived frame _ _ htag =>
    apply h.createStream
    obtain ⟨⟨⟨n, initiator⟩, tag⟩, body⟩ := frame
    cases hreceived htag
    exact allotted_there.mpr (hbound htag)
  | opened hopens hroom =>
    have hlt : s.conn.nextStreamId < s.conn.nextStreamId + 1 := by
      simp only [UInt32.lt_iff_toNat_lt, UInt32.toNat_add, UInt32.reduceToNat]
      omega
    exact (h.count hlt).createStream (allotted_here.mpr ⟨hlt, hbound _ hopens⟩)

theorem registered_step (h : Registered s) (hreceived : Received a) (hbound : s.Bounded a) :
    Registered (s.step a) := by
  by_cases ha : a.OfTask
  · exact kept_by_edits registered_edit (fun _ => h) ha
      fun _ _ => registered_begins h hreceived hbound
  · have hdeed := deed_step s ha
    generalize s.step a = t at hdeed ⊢
    cases hdeed with
    | _ => exact { h with }

theorem registered_start (id : UInt32) : Registered (start id) where
  readable id hid := absurd hid (notMem_empty id)
  allotted id hid := absurd hid (notMem_empty id)

/-- A stream that is created in this step has a name that is not in use. -/
def CreatesNew (s : System) (a : Action) : Prop := ∀ id, s.creates a = some id → ¬s.Live id

theorem Registered.createsNew (h : Registered s) (a : Action) : CreatesNew s a := by
  intro id hcreates
  rw [h.live_iff]
  cases a with
  | frame frame outcome broken =>
    rw [creates] at hcreates
    split at hcreates
    case isTrue hnew =>
      cases hcreates
      exact hnew.2
    case isFalse => cases hcreates
  | controlCommand broken =>
    -- the counter is above the numbers of all streams that were opened here
    obtain ⟨n, hn, rfl⟩ := Option.map_eq_some_iff.mp hcreates
    have hcounter : n = s.conn.nextStreamId := by
      rw [opens] at hn
      split at hn
      · cases hn
      · split at hn
        · split at hn
          · exact (Option.some_inj.mp hn).symm
          · cases hn
        · cases hn
    intro hmem
    obtain ⟨hlt, -⟩ := allotted_here.mp (h.allotted _ hmem)
    rw [hcounter] at hlt
    exact UInt32.lt_irrefl _ hlt
  | _ => cases hcreates

/-- As long as the remote announces numbers below the constant and the counter is below 29 bits, all
streams have different numbers, here and on the wire, and none takes the name of another one. -/
theorem numbers_distinct (id : UInt32) {actions : List Action}
    (h : EachStep step (fun s a => Received a ∧ s.Bounded a) (start id) actions) :
    Always step Distinct (start id) actions ∧ EachStep step CreatesNew (start id) actions := by
  have hstep : ∀ s a, Registered s → (Received a ∧ s.Bounded a) → Registered (s.step a) :=
    fun s a hs ha => registered_step hs ha.1 ha.2
  constructor
  · have halways := always_of_step hstep (registered_start id) h
    exact always_mono (fun s hs => hs.distinct) halways
  · exact eachStep_of_step hstep (fun s a hs _ => hs.createsNew a) (registered_start id) h

/-- The remote announces the number that the Swarm gives to the first stream opened here. -/
theorem remote_takes_number :
    let s := run step (start 0)
      [.frame (.newStreamFrame ⟨10000000, false⟩ []) .sent none, .openStream, .controlCommand none]
    s.Live ⟨10000000, false⟩ ∧ s.Live ⟨0, true⟩ ∧
      StreamID.val ⟨10000000, false⟩ = StreamID.val ⟨0, true⟩ := by
  intro s
  refine ⟨.inl ?_, .inl ?_, ?_⟩
  · decide
  · decide
  · rw [StreamID.val_here (by decide)]
    decide

/-- Streams of both sides are open. -/
theorem both_open_distinct :
    Always step Distinct (start 0)
      [.frame (.newStreamFrame ⟨7, false⟩ []) .sent none, .openStream, .controlCommand none] := by
  refine (numbers_distinct 0 ?_).1
  refine ⟨⟨fun _ => rfl, fun _ => by decide⟩, ⟨trivial, trivial⟩, ⟨trivial, ?_⟩, trivial⟩
  intro n hn
  have hzero : n = 0 := by
    rw [opens] at hn
    exact (Option.some_inj.mp hn).symm
  rw [hzero]
  decide

end System

end Libp2pRs.Mplex
