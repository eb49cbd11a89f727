import Libp2pRs.Addr.Multiaddr
import Libp2pRs.Kad.Behaviour

/-!
# Dialing a peer

One attempt to dial a peer takes the addresses that are known for it, leaves out those that are
filtered or in backoff, and starts a job for each of the others that a transport supports. The jobs
report over one channel. The attempt ends with the first connection to the peer; addresses that
failed before are put into the backoff of the peer.

The order of the reports, what each transport answers and when is a parameter (`Report`).
-/

namespace Libp2pRs.Swarm

open Lib Libp2pRs.Core Libp2pRs.Addr Std List

/-- The text of an error of another crate stands for the error. -/
inductive TransportError where
  | multiaddrNotSupported (addr : Multiaddr)
  | other (text : String)
  deriving DecidableEq, Repr

inductive SwarmError where
  | noAddresses (peer : PeerId)
  | noConnection (peer : PeerId)
  | general (text : String)
  | transport (error : TransportError)
  | dialToSelf
  | dialBackoff
  | dialNoTransport (peer : PeerId)
  | allDialsFailed
  | dialTimeout (addr : Multiaddr) (secs : Nat)
  | maxDialAttempts (attempts : Nat)
  | concurrentDialLimit (limit : Nat)
  deriving DecidableEq, Repr

/-- A connection that a transport has made, with a name to tell it from others. -/
structure StreamMuxer where
  name : Nat
  remotePeer : PeerId
  deriving DecidableEq, Repr

/-! ## Addresses

The readers of an address panic on bytes that are no address. No such value can be built, and the
result for that case does not matter. -/

def isPrivateAddr (addr : Multiaddr) : Bool := addr.isPrivateAddr.getD false

def isLoopbackAddr (addr : Multiaddr) : Bool := addr.isLoopbackAddr.getD false

def shouldConsumeFd (addr : Multiaddr) : Bool := addr.shouldConsumeFd.getD false

/-- `value_for_protocol(code).is_some()`. -/
def hasProtocol (addr : Multiaddr) (code : Nat) : Bool :=
  (addr.iter.collect.getD []).any fun comp => comp.getKey.toOption == some code

/-- `Transports::lookup_by_addr`: the last component decides. -/
def lookupByAddr {τ : Type} (transports : TreeMap Nat τ) (addr : Multiaddr) : Except SwarmError τ :=
  let (d, addr) := addr.pop.getD (none, addr)
  match (d.bind fun d => d.getKey.toOption).bind (transports[·]?) with
  | some transport => .ok transport
  | none => .error (.transport (.multiaddrNotSupported addr))

/-! ## Ranking -/

structure Ranking where
  localUdpAddrs : List Multiaddr
  relayUdpAddrs : List Multiaddr
  othersUdp : List Multiaddr
  localFdAddrs : List Multiaddr
  relayFdAddrs : List Multiaddr
  othersFd : List Multiaddr

namespace Ranking

def empty : Ranking := ⟨[], [], [], [], [], []⟩

def push (r : Ranking) (addr : Multiaddr) : Ranking :=
  if hasProtocol addr P2P_CIRCUIT then
    if shouldConsumeFd addr then { r with relayFdAddrs := r.relayFdAddrs ++ [addr] }
    else { r with relayUdpAddrs := r.relayUdpAddrs ++ [addr] }
  else if isPrivateAddr addr then
    if shouldConsumeFd addr then { r with localFdAddrs := r.localFdAddrs ++ [addr] }
    else { r with localUdpAddrs := r.localUdpAddrs ++ [addr] }
  else if shouldConsumeFd addr then { r with othersFd := r.othersFd ++ [addr] }
  else { r with othersUdp := r.othersUdp ++ [addr] }

def rank (r : Ranking) : List Multiaddr :=
  let relays := r.relayUdpAddrs ++ r.relayFdAddrs
  let fds := r.localFdAddrs ++ r.othersFd
  r.localUdpAddrs ++ r.othersUdp ++ fds ++ relays

theorem perm_rank_push (r : Ranking) (addr : Multiaddr) : (r.push addr).rank.Perm (addr :: r.rank) := by
  rw [perm_iff_count]
  intro a
  unfold push
  split_ifs
  all_goals
    simp only [rank, count_append, count_cons, count_nil]
    omega

end Ranking

def rankAddrs (addrs : List Multiaddr) : List Multiaddr := (addrs.foldl Ranking.push .empty).rank

theorem perm_rank_foldl (addrs : List Multiaddr) (r : Ranking) :
    (addrs.foldl Ranking.push r).rank.Perm (addrs ++ r.rank) := by
  induction addrs generalizing r with
  | nil => exact .refl _
  | cons addr addrs ih =>
    calc ((addr :: addrs).foldl Ranking.push r).rank
      _ |>.Perm (addrs ++ (r.push addr).rank) := ih (r.push addr)
      _ |>.Perm (addrs ++ addr :: r.rank) := (r.perm_rank_push addr).append_left addrs
      _ |>.Perm (addr :: addrs ++ r.rank) := perm_middle

theorem perm_rankAddrs (addrs : List Multiaddr) : (rankAddrs addrs).Perm addrs := by
  have h := perm_rank_foldl addrs .empty
  rwa [show Ranking.empty.rank = [] from rfl, append_nil] at h

/-! ## Backoff -/

def backoffBase : Duration := .fromSecs 5

def backoffCoef : Duration := .fromSecs 1

def backoffMax : Duration := .fromSecs 300

structure BackoffAddr where
  tries : UInt32
  until_ : Instant
  deriving DecidableEq, Repr

/-- For each peer the addresses in backoff, under their texts. -/
abbrev DialBackoff := TreeMap PeerId (TreeMap String BackoffAddr)

/-- The time after so many tries. Their square is a word. -/
def backoffTime (tries : UInt32) : Duration :=
  let time := backoffBase + backoffCoef * (tries * tries).toNat
  if time > backoffMax then backoffMax else time

namespace DialBackoff

variable (text : Multiaddr → String)

def findPeer (b : DialBackoff) (now : Instant) (peer : PeerId) (ma : Multiaddr) : Bool :=
  match b[peer]? with
  | none => false
  | some peerMap =>
    match peerMap[text ma]? with
    | none => false
    | some backoff => now < backoff.until_

/-- What is kept of an address after another failure. -/
def again (now : Instant) : Option BackoffAddr → BackoffAddr
  | some backoff => ⟨backoff.tries + 1, now + backoffTime backoff.tries⟩
  | none => ⟨1, now + backoffBase⟩

def addPeer (b : DialBackoff) (now : Instant) (peer : PeerId) (ma : Multiaddr) : DialBackoff :=
  b.alter peer fun peerMap =>
    some ((peerMap.getD ∅).alter (text ma) fun backoff => some (again now backoff))

def entry (b : DialBackoff) (peer : PeerId) (key : String) : Option BackoffAddr :=
  (b[peer]?.getD ∅)[key]?

theorem entry_addPeer (b : DialBackoff) (now : Instant) (p q : PeerId) (ma : Multiaddr)
    (key : String) :
    (addPeer text b now p ma).entry q key =
      if p = q ∧ text ma = key then some (again now (b.entry q key)) else b.entry q key := by
  unfold entry addPeer
  rw [get_alter]
  by_cases hq : p = q
  · subst hq
    rw [if_pos rfl, Option.getD_some, get_alter]
    by_cases hkey : text ma = key
    · rw [if_pos hkey, if_pos ⟨rfl, hkey⟩]
    · rw [if_neg hkey, if_neg fun h => hkey h.2]
  · rw [if_neg hq, if_neg fun h => hq h.1]

end DialBackoff

/-! ## One attempt -/

/-- Addresses, or what the routing interface answers when it is asked for them. -/
inductive EitherDialAddr where
  | addresses (addrs : List Multiaddr)
  | dht (answer : Except String (List Multiaddr))

structure DialParam (τ : Type) where
  transports : TreeMap Nat τ
  addrs : EitherDialAddr
  peerId : PeerId
  limit : Nat
  filterPrivate : Bool
  filterLoopback : Bool

structure DialJob (τ : Type) where
  transport : τ
  addr : Multiaddr
  peer : PeerId

/-- How a job runs: the dials in progress when it starts, and what the transport answers before the
timeout. -/
structure JobRun where
  consuming : Nat
  answer : Option (Except TransportError StreamMuxer)

/-- What a job sends, and when it is received. -/
structure Arrival where
  result : Except SwarmError StreamMuxer
  addr : Multiaddr
  now : Instant

section Attempt

variable {τ : Type}

def dialTimeout (addr : Multiaddr) : Nat := if isPrivateAddr addr then 2 else 20

def executeDial (run : JobRun) (job : DialJob τ) : Except SwarmError StreamMuxer :=
  match run.answer with
  | some (.ok muxer) => .ok muxer
  | some (.error e) => .error (.transport e)
  | none => .error (.dialTimeout job.addr (dialTimeout job.addr))

def doDialJob (limit : Nat) (run : JobRun) (job : DialJob τ) : Except SwarmError StreamMuxer :=
  if run.consuming ≥ limit then .error (.concurrentDialLimit limit) else executeDial run job

/-- The job with this number in the order in which they were started reports. -/
structure Report where
  job : Nat
  run : JobRun
  now : Instant

def Report.arrival (limit : Nat) (jobs : List (DialJob τ)) (r : Report) : Option Arrival :=
  jobs[r.job]?.map fun job => ⟨doDialJob limit r.run job, job.addr, r.now⟩

def arrivals (limit : Nat) (jobs : List (DialJob τ)) (reports : List Report) : List Arrival :=
  reports.filterMap (Report.arrival limit jobs)

def collectDialingResult (text : Multiaddr → String) (peer : PeerId) :
    List Arrival → DialBackoff → Except SwarmError StreamMuxer × DialBackoff
  | [], backoff => (.error .allDialsFailed, backoff)
  | ⟨.ok streamMuxer, addr, now⟩ :: rest, backoff =>
    if peer = streamMuxer.remotePeer then (.ok streamMuxer, backoff)
    else collectDialingResult text peer rest (backoff.addPeer text now peer addr)
  | ⟨.error (.transport _), addr, now⟩ :: rest, backoff =>
    collectDialingResult text peer rest (backoff.addPeer text now peer addr)
  | ⟨.error _, _, _⟩ :: rest, backoff => collectDialingResult text peer rest backoff

namespace DialParam

def candidates (param : DialParam τ) : Except SwarmError (List Multiaddr) :=
  match param.addrs with
  | .addresses addrs => .ok addrs
  | .dht (.ok addrs) => .ok addrs
  | .dht (.error e) => .error (.general e)

def filterAddrs (param : DialParam τ) (addrs : List Multiaddr) : List Multiaddr :=
  let addrs := if param.filterPrivate then addrs.filter fun addr => !isPrivateAddr addr else addrs
  if param.filterLoopback then addrs.filter fun addr => !isLoopbackAddr addr else addrs

/-- The loop over the backoff. The clock is read for each address. -/
def notInBackoff (text : Multiaddr → String) (param : DialParam τ) (backoff : DialBackoff)
    (clock : Nat → Instant) (addrs : List Multiaddr) : List Multiaddr :=
  (addrs.zipIdx.filter fun (addr, i) => !backoff.findPeer text (clock i) param.peerId addr).map
    Prod.fst

def startJobs (param : DialParam τ) (addrs : List Multiaddr) : List (DialJob τ) :=
  addrs.filterMap fun addr =>
    match lookupByAddr param.transports addr with
    | .error _ => none
    | .ok transport => some ⟨transport, addr, param.peerId⟩

def selected (text : Multiaddr → String) (param : DialParam τ) (backoff : DialBackoff)
    (clock : Nat → Instant) (addrs : List Multiaddr) : List Multiaddr :=
  param.notInBackoff text backoff clock (param.filterAddrs addrs)

def jobs (text : Multiaddr → String) (param : DialParam τ) (backoff : DialBackoff)
    (clock : Nat → Instant) (addrs : List Multiaddr) : List (DialJob τ) :=
  param.startJobs (rankAddrs (param.selected text backoff clock addrs))

end DialParam

def dialAddrs (text : Multiaddr → String) (param : DialParam τ) (backoff : DialBackoff)
    (clock : Nat → Instant) (reports : List Report) :
    Except SwarmError StreamMuxer × DialBackoff :=
  match param.candidates with
  | .error e => (.error e, backoff)
  | .ok addrs =>
    if param.selected text backoff clock addrs = [] then (.error .dialBackoff, backoff)
    else
      let jobs := param.jobs text backoff clock addrs
      if 0 < jobs.length then
        collectDialingResult text param.peerId (arrivals param.limit jobs reports) backoff
      else (.error (.dialNoTransport param.peerId), backoff)

/-! ## What an attempt does -/

def DialParam.passes (param : DialParam τ) (addr : Multiaddr) : Bool :=
  !(param.filterPrivate && isPrivateAddr addr) && !(param.filterLoopback && isLoopbackAddr addr)

def DialParam.hasTransport (param : DialParam τ) (addr : Multiaddr) : Bool :=
  (lookupByAddr param.transports addr).isOk

def Arrival.connects (peer : PeerId) (x : Arrival) : Bool :=
  match x.result with
  | .ok muxer => peer = muxer.remotePeer
  | .error _ => false

/-- The transport has failed or has reached another peer. -/
def Arrival.backsOff (peer : PeerId) (x : Arrival) : Bool :=
  match x.result with
  | .ok muxer => peer ≠ muxer.remotePeer
  | .error (.transport _) => true
  | .error _ => false

def before (peer : PeerId) (xs : List Arrival) : List Arrival :=
  xs.takeWhile fun x => !x.connects peer

theorem filterAddrs_eq (param : DialParam τ) (addrs : List Multiaddr) :
    param.filterAddrs addrs = addrs.filter param.passes := by
  unfold DialParam.filterAddrs DialParam.passes
  generalize param.filterPrivate = b
  generalize param.filterLoopback = c
  cases b <;> cases c
  all_goals simp [filter_filter, Bool.and_comm]

theorem startJobs_addr (param : DialParam τ) (addrs : List Multiaddr) :
    (param.startJobs addrs).map DialJob.addr = addrs.filter param.hasTransport := by
  induction addrs with
  | nil => rfl
  | cons addr addrs ih =>
    unfold DialParam.startJobs DialParam.hasTransport at ih ⊢
    rw [filterMap_cons, filter_cons]
    cases lookupByAddr param.transports addr with
    | error e => exact ih
    | ok transport => exact congrArg (addr :: ·) ih

theorem perm_jobs_addr (text : Multiaddr → String) (param : DialParam τ) (backoff : DialBackoff)
    (clock : Nat → Instant) (addrs : List Multiaddr) :
    ((param.jobs text backoff clock addrs).map DialJob.addr).Perm
      (((addrs.filter param.passes).zipIdx.filter fun x =>
        !backoff.findPeer text (clock x.2) param.peerId x.1 && param.hasTransport x.1).map
          Prod.fst) := by
  rw [DialParam.jobs, startJobs_addr]
  refine ((perm_rankAddrs _).filter _).trans (.of_eq ?_)
  rw [DialParam.selected, DialParam.notInBackoff, filterAddrs_eq, filter_map, filter_filter]
  simp only [Function.comp_def, Bool.and_comm]

variable {text : Multiaddr → String} {param : DialParam τ}

theorem transport_of_mem_jobs {backoff : DialBackoff} {clock : Nat → Instant}
    {addrs : List Multiaddr} {job : DialJob τ} (h : job ∈ param.jobs text backoff clock addrs) :
    lookupByAddr param.transports job.addr = .ok job.transport ∧ job.peer = param.peerId := by
  obtain ⟨addr, -, hjob⟩ := mem_filterMap.mp h
  split at hjob
  case h_1 => cases hjob
  case h_2 transport htransport =>
    cases hjob
    exact ⟨htransport, rfl⟩

section Collect

variable (text : Multiaddr → String) (peer : PeerId)

theorem collect_cons (x : Arrival) (rest : List Arrival) (backoff : DialBackoff) :
    collectDialingResult text peer (x :: rest) backoff = if x.connects peer then (x.result, backoff)
      else collectDialingResult text peer rest
        (if x.backsOff peer then backoff.addPeer text x.now peer x.addr else backoff) := by
  obtain ⟨result, addr, now⟩ := x
  match result with
  | .ok muxer =>
    rw [collectDialingResult]
    simp only [Arrival.connects, Arrival.backsOff, decide_eq_true_eq]
    split
    case isTrue h => rfl
    case isFalse h => rfl
  | .error e =>
    cases e <;> rfl

theorem collect_fst (xs : List Arrival) (backoff : DialBackoff) :
    (collectDialingResult text peer xs backoff).1 =
      ((xs.find? fun x => x.connects peer).map Arrival.result).getD (.error .allDialsFailed) := by
  induction xs generalizing backoff with
  | nil => rfl
  | cons x xs ih =>
    rw [collect_cons, find?_cons]
    cases x.connects peer with
    | true => rfl
    | false => exact ih _

theorem collect_snd (xs : List Arrival) (backoff : DialBackoff) :
    (collectDialingResult text peer xs backoff).2 =
      ((before peer xs).filter fun x => x.backsOff peer).foldl
        (fun b x => b.addPeer text x.now peer x.addr) backoff := by
  induction xs generalizing backoff with
  | nil => rfl
  | cons x xs ih =>
    rw [collect_cons, before, takeWhile_cons]
    cases hx : x.connects peer with
    | true => rfl
    | false =>
      simp only [Bool.false_eq_true, if_false, Bool.not_false, if_true, filter_cons]
      rw [ih, before]
      cases x.backsOff peer with
      | true | false => rfl

theorem entry_foldl_addPeer (xs : List Arrival) (backoff : DialBackoff) (q : PeerId)
    (key : String) :
    let after := xs.foldl (fun b x => b.addPeer text x.now peer x.addr) backoff
    (peer = q ∧ (∃ x ∈ xs, text x.addr = key) → (after.entry q key).isSome) ∧
      (¬ (peer = q ∧ ∃ x ∈ xs, text x.addr = key) → after.entry q key = backoff.entry q key) := by
  induction xs generalizing backoff with
  | nil =>
    refine ⟨?_, fun _ => rfl⟩
    rintro ⟨-, x, hx, -⟩
    exact absurd hx not_mem_nil
  | cons x xs ih =>
    obtain ⟨hin, hout⟩ := ih (backoff.addPeer text x.now peer x.addr)
    rw [DialBackoff.entry_addPeer] at hout
    by_cases hrest : peer = q ∧ ∃ y ∈ xs, text y.addr = key
    · refine ⟨fun _ => hin hrest, fun hno => ?_⟩
      obtain ⟨hq, y, hy, hkey⟩ := hrest
      exact absurd ⟨hq, y, mem_cons_of_mem x hy, hkey⟩ hno
    · have hafter := hout hrest
      by_cases hx : peer = q ∧ text x.addr = key
      · rw [if_pos hx] at hafter
        refine ⟨fun _ => ?_, fun hno => ?_⟩
        · rw [foldl_cons, hafter]
          rfl
        · exact absurd ⟨hx.1, x, mem_cons_self, hx.2⟩ hno
      · rw [if_neg hx] at hafter
        refine ⟨?_, fun _ => hafter⟩
        rintro ⟨hq, y, hy, hkey⟩
        rcases mem_cons.mp hy with rfl | hy
        · exact absurd ⟨hq, hkey⟩ hx
        · exact absurd ⟨hq, y, hy, hkey⟩ hrest

end Collect

theorem filterMap_range_getElem? (f : α → β) (l : List α) :
    (range l.length).filterMap (fun i => l[i]?.map f) = l.map f := by
  induction l with
  | nil => rfl
  | cons a l ih =>
    rw [length_cons, range_succ_eq_map, filterMap_cons, filterMap_map]
    exact congrArg (f a :: ·) ih

theorem perm_arrivals_addr {limit : Nat} {jobs : List (DialJob τ)} {reports : List Report}
    (h : (reports.map Report.job).Perm (range jobs.length)) :
    ((arrivals limit jobs reports).map Arrival.addr).Perm (jobs.map DialJob.addr) := by
  have haddr : (arrivals limit jobs reports).map Arrival.addr =
      (reports.map Report.job).filterMap fun i => jobs[i]?.map DialJob.addr := by
    rw [arrivals, map_filterMap, filterMap_map]
    congr 1
    funext r
    simp only [Report.arrival, Option.map_map]
    rfl
  rw [haddr]
  exact (h.filterMap _).trans (.of_eq (filterMap_range_getElem? _ jobs))

section Outcome

variable {text : Multiaddr → String} {param : DialParam τ} {backoff : DialBackoff}
  {clock : Nat → Instant} {addrs : List Multiaddr} (reports : List Report)

theorem dialAddrs_eq (hcandidates : param.candidates = .ok addrs) :
    param.jobs text backoff clock addrs = [] ∧
        (∃ e, dialAddrs text param backoff clock reports = (.error e, backoff)) ∨
      dialAddrs text param backoff clock reports = collectDialingResult text param.peerId
          (arrivals param.limit (param.jobs text backoff clock addrs) reports) backoff := by
  unfold dialAddrs
  rw [hcandidates]
  dsimp only
  split
  case isTrue hnone =>
    refine .inl ⟨?_, _, rfl⟩
    rw [DialParam.jobs, hnone]
    rfl
  case isFalse =>
    split
    case isTrue => exact .inr rfl
    case isFalse hzero =>
      exact .inl ⟨eq_nil_of_length_eq_zero (Nat.eq_zero_of_not_pos hzero), _, rfl⟩

variable {reports} (hcandidates : param.candidates = .ok addrs)
  (hreports : (reports.map Report.job).Perm
    (List.range (param.jobs text backoff clock addrs).length))

include hcandidates hreports

theorem dialAddrs_collects : (∀ m, (dialAddrs text param backoff clock reports).1 = .ok m ↔
      ∃ x, (arrivals param.limit (param.jobs text backoff clock addrs) reports).find?
          (fun x => x.connects param.peerId) = some x ∧ x.result = .ok m) ∧
      (dialAddrs text param backoff clock reports).2 = (collectDialingResult text param.peerId
          (arrivals param.limit (param.jobs text backoff clock addrs) reports) backoff).2 := by
  obtain ⟨hjobs, e, hr⟩ | hr := dialAddrs_eq reports hcandidates
  · -- there are no jobs, and so no reports
    rw [hjobs] at hreports ⊢
    have hnone : reports = [] := map_eq_nil_iff.mp hreports.eq_nil
    rw [hnone] at hr ⊢
    rw [hr]
    refine ⟨fun m => ⟨nofun, ?_⟩, rfl⟩
    rintro ⟨x, hx, -⟩
    cases hx
  · rw [hr]
    refine ⟨fun m => ?_, rfl⟩
    rw [collect_fst]
    cases hfind : (arrivals param.limit (param.jobs text backoff clock addrs) reports).find?
        fun x => x.connects param.peerId with
    | none => exact ⟨nofun, fun ⟨x, hx, _⟩ => nomatch hx⟩
    | some x =>
      refine ⟨fun h => ⟨x, rfl, h⟩, ?_⟩
      rintro ⟨y, hy, hresult⟩
      cases hy
      exact hresult

end Outcome

variable {m : StreamMuxer}

theorem Arrival.connects_of_ok {peer : PeerId} {x : Arrival} (h : x.result = .ok m) :
    x.connects peer = true ↔ m.remotePeer = peer := by
  rw [connects, h]
  simp only [decide_eq_true_eq]
  exact eq_comm

theorem Arrival.exists_ok_of_connects {peer : PeerId} {x : Arrival} (h : x.connects peer = true) :
    ∃ m, x.result = .ok m := by
  unfold connects at h
  split at h
  case h_1 m hm => exact ⟨m, hm⟩
  case h_2 => cases h

/-- One attempt to dial a peer, whatever its jobs report and in whatever order. -/
theorem dialAddrs_spec (text : Multiaddr → String) (param : DialParam τ) (backoff : DialBackoff)
    (clock : Nat → Instant) (addrs : List Multiaddr) (reports : List Report)
    (hcandidates : param.candidates = .ok addrs)
    (hreports : (reports.map Report.job).Perm
      (List.range (param.jobs text backoff clock addrs).length)) :
    let p := param.peerId
    let jobs := param.jobs text backoff clock addrs
    let xs := arrivals param.limit jobs reports
    let r := dialAddrs text param backoff clock reports
    -- the jobs
    ((jobs.map DialJob.addr).Perm (((addrs.filter param.passes).zipIdx.filter fun x =>
        !backoff.findPeer text (clock x.2) p x.1 && param.hasTransport x.1).map Prod.fst) ∧
      (∀ job ∈ jobs, lookupByAddr param.transports job.addr = .ok job.transport ∧ job.peer = p) ∧
      (xs.map Arrival.addr).Perm (jobs.map DialJob.addr)) ∧
    -- the result
    ((∀ m, r.1 = .ok m ↔ ∃ pre x post, xs = pre ++ x :: post ∧ x.result = .ok m ∧
        m.remotePeer = p ∧ ∀ y ∈ pre, y.connects p = false) ∧
      ((∃ m, r.1 = .ok m) ↔ ∃ x ∈ xs, x.connects p = true)) ∧
    -- the backoff
    (r.2 = ((before p xs).filter fun x => x.backsOff p).foldl
        (fun b x => b.addPeer text x.now p x.addr) backoff ∧
      (∀ x ∈ before p xs, x.backsOff p = true → (r.2.entry p (text x.addr)).isSome) ∧
      ∀ q key, r.2.entry q key ≠ backoff.entry q key →
        q = p ∧ ∃ x ∈ before p xs, x.backsOff p = true ∧ text x.addr = key) := by
  intro p jobs xs r
  obtain ⟨hok, hbackoff⟩ := dialAddrs_collects hcandidates hreports
  rw [collect_snd] at hbackoff
  have hentry := entry_foldl_addPeer text p ((before p xs).filter fun x => x.backsOff p) backoff
  rw [← hbackoff] at hentry
  refine ⟨⟨perm_jobs_addr text param backoff clock addrs, fun job => transport_of_mem_jobs,
    perm_arrivals_addr hreports⟩, ⟨fun m => ?_, ?_⟩, hbackoff, ?_, ?_⟩
  · rw [hok]
    constructor
    · rintro ⟨x, hx, hresult⟩
      obtain ⟨hconnects, pre, post, hxs, hpre⟩ := find?_eq_some_iff_append.mp hx
      exact ⟨pre, x, post, hxs, hresult, (Arrival.connects_of_ok hresult).mp hconnects,
        fun y hy => by simpa using hpre y hy⟩
    · rintro ⟨pre, x, post, hxs, hresult, hpeer, hpre⟩
      exact ⟨x, find?_eq_some_iff_append.mpr ⟨(Arrival.connects_of_ok hresult).mpr hpeer, pre,
        post, hxs, fun y hy => by simpa using hpre y hy⟩, hresult⟩
  · constructor
    · rintro ⟨m, hm⟩
      obtain ⟨x, hx, -⟩ := (hok m).mp hm
      exact ⟨x, mem_of_find?_eq_some hx, find?_some (p := Arrival.connects p) hx⟩
    · rintro ⟨x, hx, hconnects⟩
      obtain ⟨y, hy⟩ : ∃ y, xs.find? (fun x => x.connects p) = some y := by
        rw [← Option.isSome_iff_exists, find?_isSome]
        exact ⟨x, hx, hconnects⟩
      obtain ⟨m, hm⟩ := Arrival.exists_ok_of_connects (find?_some (p := Arrival.connects p) hy)
      exact ⟨m, (hok m).mpr ⟨y, hy, hm⟩⟩
  · intro x hx hfails
    exact (hentry p (text x.addr)).1 ⟨rfl, x, mem_filter.mpr ⟨hx, hfails⟩, rfl⟩
  · intro q key hne
    by_contra hnot
    apply hne
    apply (hentry q key).2
    rintro ⟨rfl, x, hx, hkey⟩
    obtain ⟨hbefore, hfails⟩ := mem_filter.mp hx
    exact hnot ⟨rfl, x, hbefore, hfails, hkey⟩

def sampleParam : DialParam Nat where
  transports := .ofList [(MEMORY, 0)]
  addrs := .addresses [.ofProtocol (.memory 1), .ofProtocol (.memory 2)]
  peerId := .ofByte 1
  limit := 1000
  filterPrivate := true
  filterLoopback := true

/-- The second address leads to another peer, the first one to the peer. -/
def sampleReports : List Report :=
  [⟨1, ⟨0, some (.ok ⟨0, .ofByte 2⟩)⟩, 0⟩, ⟨0, ⟨1, some (.ok ⟨1, .ofByte 1⟩)⟩, 0⟩]

theorem sampleReports_connect :
    ∃ m, (dialAddrs (fun _ => "") sampleParam ∅ (fun _ => 0) sampleReports).1 = .ok m := by
  let addrs : List Multiaddr := [.ofProtocol (.memory 1), .ofProtocol (.memory 2)]
  let jobs := sampleParam.jobs (fun _ => "") ∅ (fun _ => 0) addrs
  have hlength : jobs.length = 2 := by decide +kernel
  have hreports : (sampleReports.map Report.job).Perm (range jobs.length) := by
    rw [hlength]
    exact List.Perm.swap 0 1 []
  have hspec := dialAddrs_spec (fun _ => "") sampleParam ∅ (fun _ => 0) addrs sampleReports rfl
    hreports
  apply hspec.2.1.2.mpr
  have hany : (arrivals 1000 jobs sampleReports).any (Arrival.connects (.ofByte 1)) = true := by
    decide +kernel
  exact any_eq_true.mp hany

/-! ## All attempts -/

/-- `start_dialing`: the attempts end one after the other with these results. As long as there is
another one to wait for there is no result. -/
def startDialing (attempts : Nat) :
    Nat → List (Except SwarmError StreamMuxer) → Option (Except SwarmError StreamMuxer)
  | _, [] => none
  | _, .ok muxer :: _ => some (.ok muxer)
  | dialCount, .error e :: rest =>
    if dialCount + 1 < attempts then startDialing attempts (dialCount + 1) rest
    else if attempts > 1 then some (.error (.maxDialAttempts attempts))
    else some (.error e)

theorem startDialing_eq_ok_iff {results : List (Except SwarmError StreamMuxer)} :
    startDialing attempts dialCount results = some (.ok m) ↔
      ∃ n, dialCount + n < max attempts (dialCount + 1) ∧ results[n]? = some (.ok m) ∧
        ∀ r ∈ results.take n, ∃ e, r = .error e := by
  induction results generalizing dialCount with
  | nil => simp [startDialing]
  | cons r rest ih =>
    -- The attempt that connects is the first one, or it is counted from the next one on.
    rw [← Nat.or_exists_add_one]
    cases r with
    | ok muxer => simp [startDialing]
    | error e =>
      rw [startDialing]
      split
      case isTrue hlt =>
        have hmax : ∀ n, dialCount + (n + 1) < max attempts (dialCount + 1) ↔
            dialCount + 1 + n < max attempts (dialCount + 1 + 1) := by omega
        simp [ih, hmax]
      case isFalse => split <;> grind

theorem startDialing_eq_none_iff {results : List (Except SwarmError StreamMuxer)} :
    startDialing attempts dialCount results = none ↔
      dialCount + results.length < max attempts (dialCount + 1) ∧
        ∀ r ∈ results, ∃ e, r = .error e := by
  induction results generalizing dialCount with
  | nil => simp [startDialing]
  | cons r rest ih =>
    cases r with
    | ok muxer => simp [startDialing]
    | error e =>
      rw [startDialing]
      split
      case isTrue => grind
      case isFalse => split <;> grind

theorem remotePeer_of_dialAddrs {backoff : DialBackoff} {clock : Nat → Instant}
    {reports : List Report} (h : (dialAddrs text param backoff clock reports).1 = .ok m) :
    m.remotePeer = param.peerId := by
  cases hcandidates : param.candidates with
  | error e =>
    rw [dialAddrs, hcandidates] at h
    cases h
  | ok addrs =>
    obtain ⟨-, e, hr⟩ | hr := dialAddrs_eq reports hcandidates
    · rw [hr] at h
      cases h
    · rw [hr, collect_fst] at h
      cases hfind : (arrivals param.limit (param.jobs text backoff clock addrs) reports).find?
          fun x => x.connects param.peerId with
      | none =>
        rw [hfind] at h
        cases h
      | some x =>
        rw [hfind] at h
        have hconnects := find?_some (p := Arrival.connects param.peerId) hfind
        exact (Arrival.connects_of_ok h).mp hconnects

/-- Whatever the backoffs and the reports of the attempts are, the dialer returns the first
connection if one of its attempts makes one, which leads to the peer, and goes on exactly as long as
they fail and there is one left. -/
theorem startDialing_spec (text : Multiaddr → String) (param : DialParam τ) (attempts : Nat)
    (tries : List (DialBackoff × (Nat → Instant) × List Report)) :
    let results := tries.map fun x => (dialAddrs text param x.1 x.2.1 x.2.2).1
    (∀ m, startDialing attempts 0 results = some (.ok m) ↔ ∃ n < max attempts 1,
        results[n]? = some (.ok m) ∧ ∀ r ∈ results.take n, ∃ e, r = .error e) ∧
      (∀ m, startDialing attempts 0 results = some (.ok m) → m.remotePeer = param.peerId) ∧
      (startDialing attempts 0 results = none ↔
        results.length < max attempts 1 ∧ ∀ r ∈ results, ∃ e, r = .error e) := by
  intro results
  have hok : ∀ m, startDialing attempts 0 results = some (.ok m) ↔ _ :=
    fun _ => startDialing_eq_ok_iff
  have hnone : startDialing attempts 0 results = none ↔ _ := startDialing_eq_none_iff
  simp only [Nat.zero_add] at hok hnone
  refine ⟨hok, fun m hm => ?_, hnone⟩
  obtain ⟨n, -, hn, -⟩ := (hok m).mp hm
  obtain ⟨x, -, hx⟩ := mem_map.mp (mem_of_getElem? hn)
  exact remotePeer_of_dialAddrs hx

/-! ## Routed dials -/

/-- An answer of Kademlia that comes from the peer store has an address exactly when the store does
not hold a record of the peer without addresses. With an answer that has none, the dial fails. -/
theorem routed_answer_iff {S : Type} (sha256 : List UInt8 → Kad.KeyBytes) (ps : PeerStore)
    (p : PeerId) (reply : Kad.ReplyId) (k : Kad.Kademlia S) :
    ((∀ peer, .reply reply (.peer (.ok peer)) ∈ k.findPeer sha256 ps p reply →
      peer.multiaddrs ≠ []) ↔ ps.getAddrs p ≠ some []) ∧
    ∀ (text : Multiaddr → String) (param : DialParam τ) (backoff : DialBackoff)
      (clock : Nat → Instant) (reports : List Report),
      (dialAddrs text { param with addrs := .dht (.ok []) } backoff clock reports).1 =
        .error .dialBackoff := by
  constructor
  · unfold Kad.Kademlia.findPeer
    cases ps.getAddrs p with
    | none => simp
    | some addrs => simp
  · intro text param backoff clock reports
    have hnone : { param with addrs := .dht (.ok []) }.selected text backoff clock [] = [] := by
      simp [DialParam.selected, DialParam.filterAddrs, DialParam.notInBackoff]
    exact congrArg Prod.fst (if_pos hnone)

/-- The protocols of a peer are recorded before any address of it is known. -/
theorem identified_answer :
    let ps := PeerStore.Op.apply .empty 0 (.addProtocols (PeerId.ofByte 1) ["/ipfs/kad/1.0.0"])
    let k := Kad.Kademlia.withConfig Kad.sampleSha256 (PeerId.ofByte 0) () {}
    k.findPeer Kad.sampleSha256 ps (PeerId.ofByte 1) 0 =
      [.reply 0 (.peer (.ok ⟨PeerId.ofByte 1, [], .notConnected⟩))] := by
  rfl

end Attempt

end Libp2pRs.Swarm
