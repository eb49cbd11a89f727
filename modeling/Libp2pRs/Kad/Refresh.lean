import Libp2pRs.Kad.Behaviour

/-!
# Refreshing the routing table

A refresh is carried by several tasks. The main loop starts a query for the local id; when it is
done, its callback starts a task that posts `SelfQueryDone`; for that event the main loop starts
a task that looks up random ids, posts `Completed` and answers the request. `RefreshRun` is the
main loop with its queue of events and these tasks, and `step` lets any of them take its next step.
-/

namespace Libp2pRs.Kad

open Lib Libp2pRs.Core List Kademlia ProtocolEvent

def ProtocolEvent.stage : ProtocolEvent → Option RefreshStage
  | .refresh stage => some stage
  | _ => none

/-- How many refreshes a queued event stands for. -/
def ProtocolEvent.underway : ProtocolEvent → Nat
  | .refresh (.selfQueryDone _) => 1
  | .refresh .completed => 1
  | _ => 0

def ProtocolEvent.replies : ProtocolEvent → List ReplyId
  | .refresh (.start reply) => reply.toList
  | .refresh (.selfQueryDone reply) => reply.toList
  | _ => []

def ControlCommand.bootstrapReply : ControlCommand → Option ReplyId
  | .bootstrap _ reply => reply
  | _ => none

def answersOf (as : List Action) : List (ReplyId × Except KadError Unit) :=
  as.filterMap (fun
    | .reply r (.done res) => some (r, res)
    | _ => none)

/-- An action that neither belongs to a refresh nor posts an event. -/
def Action.Unrelated : Action → Prop
  | .post _ => False
  | .query _ (.refresh _) => False
  | .randomWalk _ _ => False
  | _ => True

/-- The queue of the main loop and the tasks of the refreshes. -/
structure RefreshTasks where
  queue : List ProtocolEvent
  /-- The queries for the local id. -/
  selfQueries : List (Option ReplyId)
  /-- The tasks of their callbacks, which post `SelfQueryDone`. -/
  notifying : List (Option ReplyId)
  /-- The tasks that look up random ids, with the buckets that are left. -/
  walks : List (List BucketIndex × Option ReplyId)
  /-- Those of them that have posted `Completed`. -/
  replying : List (Option ReplyId)
  /-- The requests made by `Bootstrap` commands, and the answers given to them. -/
  asked : List ReplyId
  answered : List (ReplyId × Except KadError Unit)

/-- The main loop with its queue and tasks; `healthChecks` are the tasks of the refresh timer, with
the peers that are left to check. -/
structure RefreshRun (S : Type) extends RefreshTasks where
  kad : Kademlia S
  healthChecks : List (List PeerId)

namespace RefreshTasks

def underway (t : RefreshTasks) : Nat :=
  t.selfQueries.length + t.notifying.length + (t.queue.map ProtocolEvent.underway).sum +
    t.walks.length

def pending (t : RefreshTasks) : List ReplyId :=
  t.queue.flatMap ProtocolEvent.replies ++ t.selfQueries.flatMap Option.toList ++
    t.notifying.flatMap Option.toList ++ t.walks.flatMap (fun w => w.2.toList) ++
    t.replying.flatMap Option.toList

/-- One refresh is underway exactly while the flag is set, and every request has as many answers
and places where it waits as it was made. -/
structure Inv (refreshing : Bool) (t : RefreshTasks) : Prop where
  flag : t.underway = if refreshing then 1 else 0
  requests : ∀ r, (t.answered.map Prod.fst).count r + t.pending.count r = t.asked.count r

/-- The moves of the main loop and the tasks, with the flag before and after. -/
inductive Move : Bool → RefreshTasks → Bool → RefreshTasks → Prop where
  | post {b : Bool} {t : RefreshTasks} (es : List ProtocolEvent)
      (hes : ∀ e ∈ es, e.underway = 0 ∧ e.replies = []) :
      Move b t b { t with queue := t.queue ++ es }
  | ask {b : Bool} {t : RefreshTasks} (reply : Option ReplyId) :
      Move b t b { t with
        queue := t.queue ++ [.refresh (.start reply)]
        asked := t.asked ++ reply.toList }
  | pass {b : Bool} {t : RefreshTasks} {e : ProtocolEvent} {rest : List ProtocolEvent}
      (hqueue : t.queue = e :: rest) (he : e.underway = 0 ∧ e.replies = []) :
      Move b t b { t with queue := rest }
  | refuse {b : Bool} {t : RefreshTasks} {e : ProtocolEvent} {rest : List ProtocolEvent}
      (reply : Option ReplyId) (hqueue : t.queue = e :: rest)
      (he : e.underway = 0 ∧ e.replies = reply.toList) :
      Move b t b { t with
        queue := rest
        answered := t.answered ++ reply.toList.map (fun r => (r, .error .bootstrap)) }
  | start {t : RefreshTasks} {e : ProtocolEvent} {rest : List ProtocolEvent}
      (reply : Option ReplyId) (hqueue : t.queue = e :: rest)
      (he : e.underway = 0 ∧ e.replies = reply.toList) :
      Move false t true { t with queue := rest, selfQueries := t.selfQueries ++ [reply] }
  | selfQuery {b : Bool} {t : RefreshTasks} {reply : Option ReplyId}
      (h : reply ∈ t.selfQueries) :
      Move b t b { t with
        selfQueries := t.selfQueries.erase reply
        notifying := t.notifying ++ [reply] }
  | notify {b : Bool} {t : RefreshTasks} {reply : Option ReplyId} (h : reply ∈ t.notifying) :
      Move b t b { t with
        notifying := t.notifying.erase reply
        queue := t.queue ++ [.refresh (.selfQueryDone reply)] }
  | selfQueryDone {b : Bool} {t : RefreshTasks} {reply : Option ReplyId}
      {rest : List ProtocolEvent} (buckets : List BucketIndex)
      (hqueue : t.queue = .refresh (.selfQueryDone reply) :: rest) :
      Move b t b { t with queue := rest, walks := t.walks ++ [(buckets, reply)] }
  | lookup {b : Bool} {t : RefreshTasks} {bucket : BucketIndex} {rest : List BucketIndex}
      {reply : Option ReplyId} (h : (bucket :: rest, reply) ∈ t.walks) :
      Move b t b { t with walks := t.walks.erase (bucket :: rest, reply) ++ [(rest, reply)] }
  | finish {b : Bool} {t : RefreshTasks} {reply : Option ReplyId} (h : ([], reply) ∈ t.walks) :
      Move b t b { t with
        walks := t.walks.erase ([], reply)
        queue := t.queue ++ [.refresh .completed]
        replying := t.replying ++ [reply] }
  | completed {b : Bool} {t : RefreshTasks} {rest : List ProtocolEvent}
      (hqueue : t.queue = .refresh .completed :: rest) : Move b t false { t with queue := rest }
  | reply {b : Bool} {t : RefreshTasks} {reply : Option ReplyId} (h : reply ∈ t.replying) :
      Move b t b { t with
        replying := t.replying.erase reply
        answered := t.answered ++ reply.toList.map (fun r => (r, .ok ())) }

theorem Move.refl (b : Bool) (t : RefreshTasks) : Move b t b t := by
  simpa using Move.post (b := b) (t := t) [] (by simp)

theorem count_flatMap_erase {α : Type*} [BEq α] [LawfulBEq α] {l : List α} {a : α} (h : a ∈ l)
    (f : α → List ReplyId) (r : ReplyId) :
    (l.flatMap f).count r = (f a).count r + ((l.erase a).flatMap f).count r := by
  rw [((perm_cons_erase h).flatMap_right f).count_eq, flatMap_cons, count_append]

theorem ids_answers (rs : List ReplyId) (res : Except KadError Unit) :
    (rs.map (fun r => (r, res))).map Prod.fst = rs := by
  simp [Function.comp_def]

theorem count_pending (t : RefreshTasks) (r : ReplyId) : t.pending.count r =
    (t.queue.flatMap replies).count r + (t.selfQueries.flatMap Option.toList).count r +
      (t.notifying.flatMap Option.toList).count r + (t.walks.flatMap (fun w => w.2.toList)).count r +
      (t.replying.flatMap Option.toList).count r := by
  simp only [pending, count_append]

variable {b b' : Bool} {t t' : RefreshTasks}

theorem Inv.flag_move (h : Inv b t) (hm : Move b t b' t') : t'.underway = if b' then 1 else 0 := by
  have hflag := h.flag
  rw [underway] at hflag
  cases hm with
  | post es hes =>
    have hunderway : (es.map ProtocolEvent.underway).sum = 0 := by
      simp only [sum_eq_zero_iff, mem_map]
      rintro n ⟨e, he, rfl⟩
      exact (hes e he).1
    simpa [underway, hunderway] using hflag
  | ask reply => simpa [underway, ProtocolEvent.underway] using hflag
  | pass hqueue he | refuse _ hqueue he =>
    rw [hqueue] at hflag
    simpa [underway, he.1] using hflag
  | start reply hqueue he =>
    rw [hqueue, map_cons, sum_cons, he.1, if_neg (by simp)] at hflag
    simp only [underway, length_append, length_singleton, if_true]
    omega
  | selfQuery h | lookup h | notify h | finish h =>
    have := length_erase_add_one h
    simp only [underway, length_append, length_singleton, map_append, sum_append, map_singleton,
      sum_singleton, ProtocolEvent.underway]
    omega
  | selfQueryDone buckets hqueue =>
    rw [hqueue, map_cons, sum_cons, ProtocolEvent.underway] at hflag
    simp only [underway, length_append, length_singleton]
    omega
  | completed hqueue =>
    rw [hqueue, map_cons, sum_cons, ProtocolEvent.underway] at hflag
    simp only [underway, Bool.false_eq_true, if_false]
    split at hflag <;> omega
  | reply h => exact hflag

theorem Inv.requests_move (h : Inv b t) (hm : Move b t b' t') (r : ReplyId) :
    (t'.answered.map Prod.fst).count r + t'.pending.count r = t'.asked.count r := by
  have hreq := h.requests r
  rw [count_pending] at hreq ⊢
  cases hm with
  | post es hes =>
    have hreplies : es.flatMap replies = [] :=
      flatMap_eq_nil_iff.mpr (fun e he => (hes e he).2)
    simpa [flatMap_append, hreplies] using hreq
  | ask reply =>
    simp only [flatMap_append, flatMap_singleton, replies, count_append]
    omega
  | pass hqueue he =>
    rw [hqueue, flatMap_cons, he.2, nil_append] at hreq
    exact hreq
  | refuse reply hqueue he =>
    rw [hqueue, flatMap_cons, he.2, count_append] at hreq
    simp only [map_append, ids_answers, count_append]
    omega
  | start reply hqueue he =>
    rw [hqueue, flatMap_cons, he.2, count_append] at hreq
    simp only [flatMap_append, flatMap_singleton, count_append]
    omega
  | selfQuery h | notify h =>
    have := count_flatMap_erase h Option.toList r
    simp only [flatMap_append, flatMap_singleton, replies, count_append]
    omega
  | selfQueryDone buckets hqueue =>
    rw [hqueue, flatMap_cons, replies, count_append] at hreq
    simp only [flatMap_append, flatMap_singleton, count_append]
    omega
  | lookup h | finish h =>
    have := count_flatMap_erase h (fun w => w.2.toList) r
    simp only [flatMap_append, flatMap_singleton, replies, count_append, count_nil] at this ⊢
    omega
  | completed hqueue =>
    rw [hqueue] at hreq
    exact hreq
  | reply h =>
    have := count_flatMap_erase h Option.toList r
    simp only [map_append, ids_answers, count_append]
    omega

theorem Inv.move (h : Inv b t) (hm : Move b t b' t') : Inv b' t' :=
  ⟨h.flag_move hm, h.requests_move hm⟩

theorem exists_of_underway (h : t.underway ≠ 0) : .refresh .completed ∈ t.queue ∨
    ∃ reply, reply ∈ t.selfQueries ∨ reply ∈ t.notifying ∨
      .refresh (.selfQueryDone reply) ∈ t.queue ∨ ∃ buckets, (buckets, reply) ∈ t.walks := by
  by_contra hno
  simp only [not_or, not_exists] at hno
  apply h
  have hself : t.selfQueries = [] :=
    eq_nil_iff_forall_not_mem.mpr (fun reply => (hno.2 reply).1)
  have hnotify : t.notifying = [] :=
    eq_nil_iff_forall_not_mem.mpr (fun reply => (hno.2 reply).2.1)
  have hwalks : t.walks = [] :=
    eq_nil_iff_forall_not_mem.mpr (fun w => (hno.2 w.2).2.2.2 w.1)
  have hqueue : (t.queue.map ProtocolEvent.underway).sum = 0 := by
    simp only [sum_eq_zero_iff, mem_map]
    rintro _ ⟨e, he, rfl⟩
    cases e with
    | refresh stage =>
      cases stage with
      | start reply => rfl
      | selfQueryDone reply => exact absurd he (hno.2 reply).2.2.1
      | completed => exact absurd he hno.1
    | _ => rfl
  simp [underway, hself, hnotify, hwalks, hqueue]

/-! ### What stays until it moves on -/

theorem Move.mem_selfQueries (hm : Move b t b' t') {reply : Option ReplyId}
    (h : reply ∈ t.selfQueries) : reply ∈ t'.selfQueries ∨ reply ∈ t'.notifying := by
  cases hm with
  | @selfQuery _ _ reply' h' =>
    by_cases heq : reply = reply'
    · exact .inr (by simp [heq])
    · exact .inl ((mem_erase_of_ne heq).mpr h)
  | start reply' hqueue he => exact .inl (mem_append_left _ h)
  | _ => exact .inl h

theorem Move.mem_notifying (hm : Move b t b' t') {reply : Option ReplyId}
    (h : reply ∈ t.notifying) :
    reply ∈ t'.notifying ∨ .refresh (.selfQueryDone reply) ∈ t'.queue := by
  cases hm with
  | @notify _ _ reply' h' =>
    by_cases heq : reply = reply'
    · exact .inr (by simp [heq])
    · exact .inl ((mem_erase_of_ne heq).mpr h)
  | selfQuery h' => exact .inl (mem_append_left _ h)
  | _ => exact .inl h

theorem Move.mem_walks (hm : Move b t b' t') (h : w ∈ t.walks) : w ∈ t'.walks ∨
      (∃ bucket rest, w = (bucket :: rest, w.2) ∧ (rest, w.2) ∈ t'.walks) ∨
      (w = ([], w.2) ∧ .refresh .completed ∈ t'.queue ∧ w.2 ∈ t'.replying) := by
  cases hm with
  | selfQueryDone buckets hqueue => exact .inl (mem_append_left _ h)
  | @lookup _ _ bucket rest reply h' =>
    by_cases heq : w = (bucket :: rest, reply)
    · subst heq
      exact .inr (.inl ⟨bucket, rest, rfl, by simp⟩)
    · exact .inl (mem_append_left _ ((mem_erase_of_ne heq).mpr h))
  | @finish _ _ reply h' =>
    by_cases heq : w = ([], reply)
    · subst heq
      exact .inr (.inr ⟨rfl, by simp, by simp⟩)
    · exact .inl ((mem_erase_of_ne heq).mpr h)
  | _ => exact .inl h

theorem Move.mem_replying (hm : Move b t b' t') (h : some r ∈ t.replying) :
    some r ∈ t'.replying ∨ r ∈ t'.answered.map Prod.fst := by
  cases hm with
  | finish h' => exact .inl (mem_append_left _ h)
  | @reply _ _ reply h' =>
    by_cases heq : some r = reply
    · subst heq
      exact .inr (by simp)
    · exact .inl ((mem_erase_of_ne heq).mpr h)
  | _ => exact .inl h

theorem Move.mem_answered (hm : Move b t b' t')
    (h : r ∈ t.answered.map Prod.fst) : r ∈ t'.answered.map Prod.fst := by
  cases hm with
  | refuse reply hqueue he =>
    rw [map_append]
    exact mem_append_left _ h
  | reply h' =>
    rw [map_append]
    exact mem_append_left _ h
  | _ => exact h

end RefreshTasks

namespace RefreshRun

variable {S : Type} [RecordStore S] (sha256 : List UInt8 → KeyBytes)

def init (k : Kademlia S) : RefreshRun S := ⟨⟨[], [], [], [], [], [], []⟩, k, []⟩

def perform (s : RefreshRun S) : Action → RefreshRun S
  | .post e => { s with queue := s.queue ++ [e] }
  | .query _ (.refresh reply) => { s with selfQueries := s.selfQueries ++ [reply] }
  | .randomWalk buckets reply => { s with walks := s.walks ++ [(buckets, reply)] }
  | .healthCheck peers => { s with healthChecks := s.healthChecks ++ [peers] }
  | _ => s

def performAll (s : RefreshRun S) (as : List Action) : RefreshRun S := as.foldl perform s

/-- A step of the main loop or of a task. -/
inductive Event where
  /-- The main loop takes the first event of its queue. -/
  | deliver (now : Instant) (ps : PeerStore)
  /-- The main loop takes a command. -/
  | command (now : Instant) (ps : PeerStore) (c : ControlCommand)
  /-- The rest of the node posts an event; the stages of a refresh are not posted there. -/
  | post (e : { e : ProtocolEvent // e.stage = none })
  /-- The query for the local id calls its callback. -/
  | selfQuery (reply : Option ReplyId)
  /-- The task of the callback posts `SelfQueryDone`. -/
  | notify (reply : Option ReplyId)
  /-- The lookup of a walk returns, or the walk posts `Completed` when nothing is left. -/
  | walk (buckets : List BucketIndex) (reply : Option ReplyId)
  /-- The task of the walk answers the request. -/
  | reply (reply : Option ReplyId)
  /-- The first peer of a health check has been tried, or the check starts a refresh when no peer
  is left. -/
  | healthCheck (peers : List PeerId) (alive : Bool)

def step (s : RefreshRun S) : Event → RefreshRun S
  | .deliver now ps =>
    match s.queue with
    | [] => s
    | e :: rest =>
      let r := s.kad.handle sha256 ps now (.event e)
      performAll
        { s with kad := r.1, queue := rest, answered := s.answered ++ answersOf r.2 } r.2
  | .command now ps c =>
    -- a command other than `Bootstrap` is answered on a channel of its own
    let r := s.kad.handle sha256 ps now (.command c)
    performAll { s with kad := r.1, asked := s.asked ++ c.bootstrapReply.toList } r.2
  | .post e => { s with queue := s.queue ++ [e.val] }
  | .selfQuery reply =>
    if reply ∈ s.selfQueries then
      { s with
        selfQueries := s.selfQueries.erase reply
        notifying := s.notifying ++ [reply] }
    else s
  | .notify reply =>
    if reply ∈ s.notifying then
      { s with
        notifying := s.notifying.erase reply
        queue := s.queue ++ [.refresh (.selfQueryDone reply)] }
    else s
  | .walk buckets reply =>
    if (buckets, reply) ∈ s.walks then
      match buckets with
      | _ :: rest => { s with walks := s.walks.erase (buckets, reply) ++ [(rest, reply)] }
      | [] =>
        { s with
          walks := s.walks.erase ([], reply)
          queue := s.queue ++ [.refresh .completed]
          replying := s.replying ++ [reply] }
    else s
  | .reply reply =>
    if reply ∈ s.replying then
      { s with
        replying := s.replying.erase reply
        answered := s.answered ++ reply.toList.map (fun r => (r, .ok ())) }
    else s
  | .healthCheck peers alive =>
    if peers ∈ s.healthChecks then
      match peers with
      | p :: rest =>
        { s with
          healthChecks := s.healthChecks.erase peers ++ [rest]
          queue := s.queue ++ if alive then [] else [.kadPeerStopped p] }
      | [] =>
        { s with
          healthChecks := s.healthChecks.erase []
          queue := s.queue ++ [.refresh (.start none)] }
    else s

/-! ### What a turn does -/

section Turn

variable (ps : PeerStore) (now : Instant)

omit [RecordStore S] in
theorem refreshing_of_tableOnly (h : Kademlia.TableOnly k k') : k'.refreshing = k.refreshing := by
  obtain ⟨t, rfl⟩ := h
  rfl

/-- A turn that leaves the refreshes alone and gives no answer to a request. -/
structure Aside (k : Kademlia S) (r : Kademlia S × List Action) : Prop where
  refreshing : r.1.refreshing = k.refreshing
  actions : ∀ a ∈ r.2, a.Unrelated

omit [RecordStore S] in
theorem Aside.calls {k k' : Kademlia S} (h : Kademlia.TableOnly k k') (calls : List StoreCall) :
    Aside k (k', calls.map Action.call) := by
  refine ⟨refreshing_of_tableOnly h, fun a ha => ?_⟩
  obtain ⟨c, -, rfl⟩ := mem_map.mp ha
  trivial

omit [RecordStore S] in
theorem answersOf_calls (calls : List StoreCall) : answersOf (calls.map Action.call) = [] := by
  simp [answersOf]

theorem aside_of_plain {i : Kademlia.Input} {k : Kademlia S} {r : Kademlia S × List Action}
    (h : Kademlia.Plain i k r) : Aside k r := by
  refine ⟨h.refreshing, fun a ha => ?_⟩
  have hallowed := h.actions a ha
  cases a with
  | post e | randomWalk buckets reply => cases i <;> exact hallowed.elim
  | query q callback =>
    cases i with
    | event e => exact hallowed.elim
    | command c =>
      cases callback with
      | refresh reply => exact hallowed reply rfl
      | _ => trivial
  | _ => trivial

theorem answersOf_of_plain {e : ProtocolEvent} {k : Kademlia S} {r : Kademlia S × List Action}
    (h : Kademlia.Plain (.event e) k r) : answersOf r.2 = [] := by
  refine filterMap_eq_nil_iff.mpr fun a ha => ?_
  have hallowed := h.actions a ha
  cases a with
  | reply r v => exact hallowed.elim
  | _ => rfl

/-- Events that are no stage of a refresh, and no change of address, leave the refreshes alone. -/
theorem handle_event_aside {e : ProtocolEvent} (hstage : e.stage = none)
    (haddr : ∀ addrs, e ≠ .addressChanged addrs) (k : Kademlia S) :
    Aside k (k.handle sha256 ps now (.event e)) ∧
      answersOf (k.handle sha256 ps now (.event e)).2 = [] := by
  cases e with
  | refresh stage => cases hstage
  | addressChanged addrs => exact absurd rfl (haddr addrs)
  | peerIdentified p =>
    simp only [handle, onEvents, handlePeerIdentified]
    refine ⟨Aside.calls ?_ _, answersOf_calls _⟩
    split
    · exact tryAddPeer_tableOnly sha256 now p false false k
    · exact ⟨k.kbuckets, rfl⟩
  | kadPeerFound p queried =>
    exact ⟨Aside.calls (tryAddPeer_tableOnly sha256 now p queried false k) _, answersOf_calls _⟩
  | kadPeerStopped p =>
    exact ⟨Aside.calls (tryRemovePeer_tableOnly sha256 p false k) _, answersOf_calls _⟩
  | _ =>
    exact ⟨aside_of_plain (handle_plain sha256 ps now rfl k),
      answersOf_of_plain (handle_plain sha256 ps now rfl k)⟩

theorem handle_command_aside {c : ControlCommand} (hc : ∀ boot reply, c ≠ .bootstrap boot reply)
    (k : Kademlia S) : Aside k (k.handle sha256 ps now (.command c)) := by
  cases c with
  | bootstrap boot reply => exact absurd rfl (hc boot reply)
  | addNode p addrs =>
    exact Aside.calls (tryAddPeer_tableOnly sha256 now p false true k) _
  | removeNode p => exact Aside.calls (tryRemovePeer_tableOnly sha256 p true k) _
  | _ => exact aside_of_plain (handle_plain sha256 ps now rfl k)

end Turn

/-! ### One step -/

omit [RecordStore S] in
theorem performAll_append (s : RefreshRun S) (as bs : List Action) :
    s.performAll (as ++ bs) = (s.performAll as).performAll bs := foldl_append

omit [RecordStore S] in
theorem performAll_post (s : RefreshRun S) (e : ProtocolEvent) :
    s.performAll [.post e] = { s with queue := s.queue ++ [e] } := rfl

omit [RecordStore S] in
theorem queue_performAll (as : List Action) (s : RefreshRun S) :
    ∃ es, (s.performAll as).queue = s.queue ++ es := by
  induction as generalizing s with
  | nil => exact ⟨[], (append_nil _).symm⟩
  | cons a as ih =>
    have hone : ∃ es, (s.perform a).queue = s.queue ++ es := by
      cases a with
      | post e => exact ⟨[e], rfl⟩
      | query q callback => cases callback <;> exact ⟨[], (append_nil _).symm⟩
      | _ => exact ⟨[], (append_nil _).symm⟩
    obtain ⟨es, hes⟩ := hone
    obtain ⟨fs, hfs⟩ := ih (s.perform a)
    refine ⟨es ++ fs, ?_⟩
    rw [← append_assoc, ← hes, ← hfs]
    rfl

omit [RecordStore S] in
theorem performAll_unrelated (h : ∀ a ∈ as, a.Unrelated) (s : RefreshRun S) :
    (s.performAll as).toRefreshTasks = s.toRefreshTasks ∧ (s.performAll as).kad = s.kad := by
  induction as generalizing s with
  | nil => exact ⟨rfl, rfl⟩
  | cons a as ih =>
    have hone : (s.perform a).toRefreshTasks = s.toRefreshTasks ∧ (s.perform a).kad = s.kad := by
      have ha := h a mem_cons_self
      cases a with
      | post e | randomWalk buckets reply => exact ha.elim
      | query q callback =>
        cases callback with
        | refresh reply => exact ha.elim
        | _ => exact ⟨rfl, rfl⟩
      | _ => exact ⟨rfl, rfl⟩
    have hrest := ih (fun a' ha' => h a' (mem_cons_of_mem a ha')) (s.perform a)
    exact ⟨hrest.1.trans hone.1, hrest.2.trans hone.2⟩

omit [RecordStore S] in
theorem move_start (s : RefreshRun S) (k : Kademlia S) (hk : k.refreshing = s.kad.refreshing)
    (reply : Option ReplyId)
    (hqueue : s.queue = e :: rest) (he : e.underway = 0 ∧ e.replies = reply.toList) :
    let r := k.handleRefreshStage sha256 (.start reply)
    let s' := performAll
      { s with kad := r.1, queue := rest, answered := s.answered ++ answersOf r.2 } r.2
    RefreshTasks.Move s.kad.refreshing s.toRefreshTasks s'.kad.refreshing s'.toRefreshTasks ∧
      ∀ x, reply = some x → x ∈ s'.answered.map Prod.fst ∨ reply ∈ s'.selfQueries := by
  -- a refusal answers the request, if there is one
  have hrefused : ∀ as, as = reply.toList.map
      (fun r => Action.reply r (.done (.error .bootstrap))) →
      let s' := performAll
        { s with kad := k, queue := rest, answered := s.answered ++ answersOf as } as
      RefreshTasks.Move s.kad.refreshing s.toRefreshTasks s'.kad.refreshing s'.toRefreshTasks ∧
        ∀ x, reply = some x → x ∈ s'.answered.map Prod.fst ∨ reply ∈ s'.selfQueries := by
    rintro _ rfl
    have hunrelated : ∀ a ∈ reply.toList.map
        (fun r => Action.reply r (.done (.error .bootstrap))), a.Unrelated := by
      intro a ha
      obtain ⟨r, -, rfl⟩ := mem_map.mp ha
      trivial
    have hanswers : answersOf (reply.toList.map
        (fun r => Action.reply r (.done (.error .bootstrap)))) =
          reply.toList.map (fun r => (r, .error .bootstrap)) := by
      cases reply <;> rfl
    obtain ⟨htasks, hkad⟩ := performAll_unrelated hunrelated
      { s with kad := k, queue := rest, answered := s.answered ++ answersOf (reply.toList.map
        (fun r => Action.reply r (.done (.error .bootstrap)))) }
    dsimp only
    rw [htasks, hkad, hk, hanswers]
    refine ⟨RefreshTasks.Move.refuse reply hqueue he, ?_⟩
    rintro x rfl
    exact .inl (by simp)
  simp only [handleRefreshStage]
  split
  · exact hrefused _ rfl
  · next hflag =>
    split
    · exact hrefused _ rfl
    · have hfalse : s.kad.refreshing = false := by
        rw [← hk]
        exact Bool.eq_false_of_not_eq_true hflag
      rw [hfalse]
      refine ⟨?_, fun x _ => .inr ?_⟩
      · have hmove := RefreshTasks.Move.start (t := s.toRefreshTasks) reply hqueue he
        simpa [performAll, perform, getClosestPeers, answersOf] using hmove
      · simp [performAll, perform, getClosestPeers]

theorem move_step (s : RefreshRun S) (e : Event) :
    RefreshTasks.Move s.kad.refreshing s.toRefreshTasks (s.step sha256 e).kad.refreshing
      (s.step sha256 e).toRefreshTasks := by
  cases e with
  | deliver now ps =>
    simp only [step]
    cases hqueue : s.queue with
    | nil => exact RefreshTasks.Move.refl _ _
    | cons e rest =>
      dsimp only
      by_cases hother : e.stage = none ∧ ∀ addrs, e ≠ .addressChanged addrs
      · obtain ⟨haside, hanswers⟩ := handle_event_aside sha256 ps now hother.1 hother.2 s.kad
        have hplain : e.underway = 0 ∧ e.replies = [] := by
          cases e with
          | refresh stage => cases hother.1
          | _ => exact ⟨rfl, rfl⟩
        rw [(performAll_unrelated haside.actions _).1, (performAll_unrelated haside.actions _).2,
          haside.refreshing, hanswers, append_nil]
        exact RefreshTasks.Move.pass hqueue hplain
      · cases e with
        | addressChanged addrs =>
          exact (move_start sha256 s { s.kad with localAddrs := addrs } rfl none hqueue
            ⟨rfl, rfl⟩).1
        | refresh stage =>
          cases stage with
          | start reply => exact (move_start sha256 s s.kad rfl reply hqueue ⟨rfl, rfl⟩).1
          | selfQueryDone reply =>
            have hmove := RefreshTasks.Move.selfQueryDone (b := s.kad.refreshing)
              (walkBuckets s.kad.kbuckets) hqueue
            simpa [handle, onEvents, handleRefreshStage, performAll, perform, answersOf] using hmove
          | completed =>
            have hmove := RefreshTasks.Move.completed (b := s.kad.refreshing) hqueue
            simpa [handle, onEvents, handleRefreshStage, performAll, answersOf] using hmove
        | _ => exact absurd ⟨rfl, by simp⟩ hother
  | command now ps c =>
    simp only [step]
    by_cases hc : ∃ boot reply, c = .bootstrap boot reply
    · obtain ⟨boot, reply, rfl⟩ := hc
      have hcalls : ∀ a ∈ (s.kad.addNodes sha256 now boot).2.map Action.call, a.Unrelated :=
        (Aside.calls (addNodes_tableOnly sha256 now boot s.kad) _).actions
      simp only [handle, onControlCommand, bootstrap, performAll_append]
      rw [performAll_post]
      dsimp only
      rw [(performAll_unrelated hcalls _).1, (performAll_unrelated hcalls _).2,
        refreshing_of_tableOnly (addNodes_tableOnly sha256 now boot s.kad)]
      exact RefreshTasks.Move.ask reply
    · have hne : ∀ boot reply, c ≠ .bootstrap boot reply := fun boot reply h => hc ⟨boot, reply, h⟩
      have haside := handle_command_aside sha256 ps now hne s.kad
      have hreply : c.bootstrapReply = none := by
        cases c with
        | bootstrap boot reply => exact absurd rfl (hne boot reply)
        | _ => rfl
      rw [(performAll_unrelated haside.actions _).1, (performAll_unrelated haside.actions _).2,
        haside.refreshing, hreply, Option.toList_none, append_nil]
      exact RefreshTasks.Move.refl _ _
  | post e =>
    have hplain : e.val.underway = 0 ∧ e.val.replies = [] := by
      obtain ⟨e, he⟩ := e
      cases e with
      | refresh stage => cases he
      | _ => exact ⟨rfl, rfl⟩
    exact RefreshTasks.Move.post [e.val] (by simpa using hplain)
  | selfQuery reply =>
    simp only [step]
    split
    · next h => exact RefreshTasks.Move.selfQuery h
    · exact RefreshTasks.Move.refl _ _
  | notify reply =>
    simp only [step]
    split
    · next h => exact RefreshTasks.Move.notify h
    · exact RefreshTasks.Move.refl _ _
  | walk buckets reply =>
    simp only [step]
    split
    · next h =>
      cases buckets with
      | nil => exact RefreshTasks.Move.finish h
      | cons bucket rest => exact RefreshTasks.Move.lookup h
    · exact RefreshTasks.Move.refl _ _
  | reply reply =>
    simp only [step]
    split
    · next h => exact RefreshTasks.Move.reply h
    · exact RefreshTasks.Move.refl _ _
  | healthCheck peers alive =>
    simp only [step]
    split
    · next h =>
      cases peers with
      | nil =>
        exact RefreshTasks.Move.post [.refresh (.start none)] (by simp [underway, replies])
      | cons p rest =>
        refine RefreshTasks.Move.post (if alive then [] else [.kadPeerStopped p]) ?_
        intro e he
        cases alive with
        | true => cases he
        | false =>
          obtain rfl := mem_singleton.mp he
          exact ⟨rfl, rfl⟩
    · exact RefreshTasks.Move.refl _ _

end RefreshRun

end Libp2pRs.Kad
