import Libp2pRs.Swarm.Lifecycle

/-!
# What the protocol handlers are told

A handler is registered under each of its protocols, and the Swarm tells every entry of that table when
a connection is opened or closed. A handler is told as many times as it stands there.
-/

namespace Libp2pRs.Swarm

open Lib Libp2pRs.Core Std

/-! ## The table of handlers -/

namespace Muxer

theorem lookup_insertAll (m : Muxer) (name : Nat) (pids : List ProtocolId) (pid : ProtocolId) :
    (pids.foldl (fun m pid => m.insert pid name) m).lookup pid =
      if pid ∈ pids then some name else m.lookup pid := by
  induction pids generalizing m with
  | nil => rfl
  | cons p pids ih =>
    rw [List.foldl_cons, ih]
    by_cases hmem : pid ∈ pids
    · rw [if_pos hmem, if_pos (List.mem_cons_of_mem p hmem)]
    · rw [if_neg hmem]
      by_cases hp : pid = p
      · subst hp
        rw [AList.lookup_insert, if_pos List.mem_cons_self]
      · rw [AList.lookup_insert_ne hp, if_neg]
        rw [List.mem_cons]
        exact not_or.mpr ⟨hp, hmem⟩

theorem lookup_addProtocolHandler (m : Muxer) (p : ProtocolHandler) (pid : ProtocolId) :
    (m.addProtocolHandler p).lookup pid =
      if pid ∈ p.protocolInfo then some p.name else m.lookup pid :=
  lookup_insertAll m p.name p.protocolInfo pid

def Disjoint (handlers : List ProtocolHandler) : Prop :=
  handlers.Pairwise fun p q => ∀ pid ∈ p.protocolInfo, pid ∉ q.protocolInfo

theorem lookup_foldl (hdisjoint : Disjoint handlers) (m : Muxer) (pid : ProtocolId) (name : Nat) :
    (handlers.foldl addProtocolHandler m).lookup pid = some name ↔
      (∃ p ∈ handlers, p.name = name ∧ pid ∈ p.protocolInfo) ∨
        (m.lookup pid = some name ∧ ∀ p ∈ handlers, pid ∉ p.protocolInfo) := by
  induction handlers generalizing m with
  | nil => simp
  | cons p handlers ih =>
    obtain ⟨hp, hrest⟩ := List.pairwise_cons.mp hdisjoint
    rw [List.foldl_cons, ih hrest, lookup_addProtocolHandler]
    by_cases hmem : pid ∈ p.protocolInfo
    · have hnone : ∀ q ∈ handlers, pid ∉ q.protocolInfo := fun q hq => hp q hq pid hmem
      rw [if_pos hmem]
      constructor
      · rintro (⟨q, hq, -, hpid⟩ | ⟨hname, -⟩)
        · exact absurd hpid (hnone q hq)
        · cases hname
          exact .inl ⟨p, List.mem_cons_self, rfl, hmem⟩
      · rintro (⟨q, hq, rfl, hpid⟩ | ⟨-, hno⟩)
        · rcases List.mem_cons.mp hq with rfl | hq
          · exact .inr ⟨rfl, hnone⟩
          · exact absurd hpid (hnone q hq)
        · exact absurd hmem (hno p List.mem_cons_self)
    · rw [if_neg hmem]
      simp only [List.mem_cons, exists_eq_or_imp, forall_eq_or_imp, hmem, and_false, false_or,
        not_false_eq_true, true_and]

theorem count_values_eq (m : Muxer) (name : Nat) :
    m.values.count name = (m.keys.filter fun pid => m.lookup pid = some name).length := by
  have hlookup : ∀ x ∈ m.entries, (m.lookup x.1 = some name ↔ x.2 = name) := by
    intro x hx
    rw [AList.mem_lookup_iff.mpr hx]
    exact Option.some_inj
  rw [values, List.count_eq_countP, List.countP_map, AList.keys, List.keys, List.filter_map,
    List.length_map, List.countP_eq_length_filter]
  congr 1
  apply List.filter_congr
  intro x hx
  simp only [Function.comp_apply, hlookup x hx, beq_eq_decide]

theorem count_values (hdisjoint : Disjoint handlers)
    (hnames : (handlers.map ProtocolHandler.name).Nodup) (hp : p ∈ handlers) :
    (handlers.foldl addProtocolHandler ∅).values.count p.name = p.protocolInfo.dedup.length := by
  rw [count_values_eq]
  apply List.Perm.length_eq
  apply (List.perm_ext_iff_of_nodup ((AList.keys_nodup _).filter _) (List.nodup_dedup _)).mpr
  intro pid
  rw [List.mem_filter, List.mem_dedup, decide_eq_true_eq, ← AList.mem_keys, ← AList.lookup_isSome]
  have hiff : (handlers.foldl addProtocolHandler ∅).lookup pid = some p.name ↔
      pid ∈ p.protocolInfo := by
    rw [lookup_foldl hdisjoint]
    constructor
    · rintro (⟨q, hq, hname, hpid⟩ | ⟨hnone, -⟩)
      · rwa [← List.inj_on_of_nodup_map hnames hq hp hname]
      · cases hnone
    · intro hpid
      exact .inl ⟨p, hp, rfl, hpid⟩
  constructor
  · rintro ⟨-, hlookup⟩
    exact hiff.mp hlookup
  · intro hpid
    have hlookup := hiff.mpr hpid
    exact ⟨hlookup ▸ rfl, hlookup⟩

end Muxer

/-! ## What is said in a run -/

namespace System

def Opened (s : System) (cid : Nat) : Prop := 1 ≤ cid ∧ cid ≤ s.swarm.connections.nextConnectionId

def Closed (s : System) (cid : Nat) : Prop :=
  s.Opened cid ∧ cid ∉ s.swarm.connections.connectionsById

instance (s : System) (cid : Nat) : Decidable (s.Opened cid) := inferInstanceAs (Decidable (_ ∧ _))

instance (s : System) (cid : Nat) : Decidable (s.Closed cid) := inferInstanceAs (Decidable (_ ∧ _))

/-- Every entry of the table was told of each connection when it was opened and when it was closed, in
this order. -/
structure Told (table : Muxer) (s : System) : Prop where
  muxer : s.swarm.muxer = table
  connected : ∀ name cid, s.notices.count (.connected name cid) =
    if s.Opened cid then table.values.count name else 0
  disconnected : ∀ name cid, s.notices.count (.disconnected name cid) =
    if s.Closed cid then table.values.count name else 0
  ordered : ∀ name cid pre post, s.notices = pre ++ .disconnected name cid :: post →
    .connected name cid ∈ pre

theorem count_notices {notice : Nat → Nat → Notice} (hinj : Function.Injective2 notice)
    (names : List Nat) (n name cid : Nat) :
    (names.map (notice · n)).count (notice name cid) = if cid = n then names.count name else 0 := by
  split
  case isTrue h =>
    subst h
    exact List.count_map_of_injective names (notice · cid) (fun a b hab => (hinj hab).1) name
  case isFalse h =>
    apply List.count_eq_zero.mpr
    intro hmem
    obtain ⟨a, -, ha⟩ := List.mem_map.mp hmem
    exact h (hinj ha).2.symm

theorem mem_old_or_new {old new pre post : List α} (h : old ++ new = pre ++ a :: post) :
    (∃ post', old = pre ++ a :: post') ∨ (a ∈ new ∧ old <+: pre) := by
  rcases List.append_eq_append_iff.mp h with ⟨bs, hpre, hnew⟩ | ⟨as, hold, hpost⟩
  · refine .inr ⟨?_, bs, hpre.symm⟩
    rw [hnew]
    exact List.mem_append_right bs List.mem_cons_self
  · cases as with
    | nil =>
      refine .inr ⟨?_, ?_⟩
      · rw [List.nil_append] at hpost
        rw [← hpost]
        exact List.mem_cons_self
      · rw [hold, List.append_nil]
    | cons b as =>
      obtain ⟨rfl, -⟩ := List.cons.inj hpost
      exact .inl ⟨as, hold⟩

namespace Told

variable {table : Muxer} {s s' : System}

theorem aside (h : Told table s) (ha : Aside s s') : Told table s' := by
  obtain ⟨hc, hn, hm⟩ := ha
  have hopened : ∀ cid, s'.Opened cid ↔ s.Opened cid := by
    intro cid
    rw [Opened, Opened, hc]
  have hclosed : ∀ cid, s'.Closed cid ↔ s.Closed cid := by
    intro cid
    rw [Closed, Closed, hopened, hc]
  refine ⟨hm.trans h.muxer, ?_, ?_, ?_⟩
  · intro name cid
    rw [hn, h.connected]
    simp only [hopened]
  · intro name cid
    rw [hn, h.disconnected]
    simp only [hclosed]
  · intro name cid pre post hpre
    exact h.ordered name cid pre post (hn.symm.trans hpre)

theorem opened (h : Told table s) {peer : PeerId}
    (hc : s'.swarm.connections = (s.swarm.connections.handleConnectionOpened peer).2)
    (hn : s'.notices = s.notices ++
      s.swarm.muxer.values.map (.connected · (s.swarm.connections.nextConnectionId + 1)))
    (hm : s'.swarm.muxer = s.swarm.muxer) : Told table s' := by
  have hnext : s'.swarm.connections.nextConnectionId =
      s.swarm.connections.nextConnectionId + 1 := by
    rw [hc]
    rfl
  have hopened : ∀ cid, s'.Opened cid ↔
      s.Opened cid ∨ cid = s.swarm.connections.nextConnectionId + 1 := by
    intro cid
    rw [Opened, Opened, hnext]
    omega
  -- The new connection is there, and no other has come or gone.
  have hclosed : ∀ cid, s'.Closed cid ↔ s.Closed cid := by
    intro cid
    have hmem : cid ∈ s'.swarm.connections.connectionsById ↔
        cid = s.swarm.connections.nextConnectionId + 1 ∨
          cid ∈ s.swarm.connections.connectionsById := by
      rw [TreeMap.mem_iff_isSome_getElem?, TreeMap.mem_iff_isSome_getElem?, hc,
        Connections.connectionsById_handleConnectionOpened]
      split
      case isTrue heq => simp [heq]
      case isFalse hne => simp [Ne.symm hne]
    rw [Closed, Closed, hopened, hmem, Opened]
    constructor
    · rintro ⟨hin, hout⟩
      exact ⟨hin.resolve_right fun heq => hout (.inl heq), fun hold => hout (.inr hold)⟩
    · rintro ⟨hin, hout⟩
      refine ⟨.inl hin, fun hor => hor.elim (fun heq => ?_) hout⟩
      omega
  refine ⟨hm.trans h.muxer, ?_, ?_, ?_⟩
  · intro name cid
    have hnot : ¬s.Opened (s.swarm.connections.nextConnectionId + 1) := by
      rw [Opened]
      omega
    rw [hn, List.count_append, h.connected,
      count_notices (fun _ _ _ _ => Notice.connected.inj), h.muxer]
    by_cases hcid : cid = s.swarm.connections.nextConnectionId + 1
    · subst hcid
      rw [if_neg hnot, if_pos rfl, if_pos ((hopened _).mpr (.inr rfl)), Nat.zero_add]
    · have hiff : s'.Opened cid ↔ s.Opened cid := by
        rw [hopened, or_iff_left hcid]
      rw [if_neg hcid, Nat.add_zero]
      simp only [hiff]
  · intro name cid
    have hzero : (s.swarm.muxer.values.map
        (Notice.connected · (s.swarm.connections.nextConnectionId + 1))).count
          (.disconnected name cid) = 0 := by
      apply List.count_eq_zero.mpr
      simp
    rw [hn, List.count_append, h.disconnected, hzero]
    simp only [hclosed, Nat.add_zero]
  · intro name cid pre post hpre
    rcases mem_old_or_new (hn.symm.trans hpre) with ⟨post', hold⟩ | ⟨hnew, -⟩
    · exact h.ordered name cid pre post' hold
    · simp at hnew

theorem closed (h : Told table s) (hagrees : s.swarm.connections.Agrees)
    (hcid : s.swarm.connections.connectionsById[cid]? = some c)
    (hc : s'.swarm.connections = (s.swarm.connections.handleConnectionClosed cid).2)
    (hn : s'.notices = s.notices ++ s.swarm.muxer.values.map (.disconnected · cid))
    (hm : s'.swarm.muxer = s.swarm.muxer) : Told table s' := by
  have hin : cid ∈ s.swarm.connections.connectionsById := by
    rw [TreeMap.mem_iff_isSome_getElem?, hcid]
    rfl
  have hcidOpened : s.Opened cid := ⟨(hagrees.own cid c hcid).2, hagrees.assigned cid hin⟩
  have hnotClosed : ¬s.Closed cid := fun hclosed => hclosed.2 hin
  rw [Connections.handleConnectionClosed, hcid] at hc
  have hopened : ∀ i, s'.Opened i ↔ s.Opened i := by
    intro i
    rw [Opened, Opened, hc]
  have hclosed : ∀ i, s'.Closed i ↔ s.Closed i ∨ i = cid := by
    intro i
    rw [Closed, Closed, hopened, hc, TreeMap.mem_erase, Ne, Std.compare_eq_iff_eq]
    constructor
    · rintro ⟨ho, hout⟩
      by_cases hi : i = cid
      · exact .inr hi
      · exact .inl ⟨ho, fun hmem => hout ⟨Ne.symm hi, hmem⟩⟩
    · rintro (⟨ho, hout⟩ | rfl)
      · exact ⟨ho, fun hmem => hout hmem.2⟩
      · exact ⟨hcidOpened, fun hmem => hmem.1 rfl⟩
  refine ⟨hm.trans h.muxer, ?_, ?_, ?_⟩
  · intro name i
    have hzero : (s.swarm.muxer.values.map (Notice.disconnected · cid)).count
        (.connected name i) = 0 := by
      apply List.count_eq_zero.mpr
      simp
    rw [hn, List.count_append, h.connected, hzero]
    simp only [hopened, Nat.add_zero]
  · intro name i
    rw [hn, List.count_append, h.disconnected,
      count_notices (fun _ _ _ _ => Notice.disconnected.inj), h.muxer]
    by_cases hi : i = cid
    · subst hi
      rw [if_neg hnotClosed, if_pos rfl, if_pos ((hclosed _).mpr (.inr rfl)), Nat.zero_add]
    · have hiff : s'.Closed i ↔ s.Closed i := by
        rw [hclosed, or_iff_left hi]
      rw [if_neg hi, Nat.add_zero]
      simp only [hiff]
  · intro name i pre post hpre
    rcases mem_old_or_new (hn.symm.trans hpre) with ⟨post', hold⟩ | ⟨hnew, hprefix⟩
    · exact h.ordered name i pre post' hold
    · -- It is told now, and was told of the connection when this was opened.
      obtain ⟨a, ha, heq⟩ := List.mem_map.mp hnew
      obtain ⟨rfl, rfl⟩ := Notice.disconnected.inj heq
      apply hprefix.subset
      apply List.count_pos_iff.mp
      rw [h.connected, if_pos hcidOpened, ← h.muxer]
      exact List.count_pos_iff.mpr ha

theorem lifecycle (h : Told table s) (hagrees : s.swarm.connections.Agrees)
    (hstep : Lifecycle s s') : Told table s' := by
  cases hstep with
  | aside ha => exact h.aside ha
  | opened peer hc hn hm => exact h.opened hc hn hm
  | closed cid c hcid hc hn hm => exact h.closed hagrees hcid hc hn hm

end Told

theorem told_start (swarm : SwarmState) (hnext : swarm.connections.nextConnectionId = 0) :
    Told swarm.muxer (start swarm) := by
  have hopened : ∀ cid, ¬(start swarm).Opened cid := by
    intro cid
    change ¬(1 ≤ cid ∧ cid ≤ swarm.connections.nextConnectionId)
    omega
  refine ⟨rfl, ?_, ?_, ?_⟩
  · intro name cid
    rw [if_neg (hopened cid)]
    rfl
  · intro name cid
    rw [if_neg fun hclosed : (start swarm).Closed cid => hopened cid hclosed.1]
    rfl
  · intro name cid pre post hpre
    exact absurd hpre.symm (List.append_ne_nil_of_right_ne_nil _ (List.cons_ne_nil _ _))

theorem told_run (localPeerId : PeerId) (routing filterPrivate filterLoopback : Bool)
    (handlers : List ProtocolHandler) (actions : List Action) :
    Told (handlers.foldl Muxer.addProtocolHandler ∅)
      (run step (start (.new localPeerId routing filterPrivate filterLoopback handlers)) actions) := by
  let table : Muxer := handlers.foldl Muxer.addProtocolHandler ∅
  refine (invariant_run (I := fun s => (Tracked [] [] s ∧ s.swarm.connections.Agrees) ∧
    Told table s) ?_ ?_ actions).2
  · intro s a ⟨⟨htracked, hagrees⟩, htold⟩
    have hstep := lifecycle_step htracked a
    exact ⟨⟨tracked_step htracked a, agrees_lifecycle hagrees hstep⟩, htold.lifecycle hagrees hstep⟩
  · exact ⟨⟨tracked_start localPeerId routing filterPrivate filterLoopback handlers,
      Connections.agrees_new⟩,
      told_start (.new localPeerId routing filterPrivate filterLoopback handlers) rfl⟩

/-! ## Handlers that are told once -/

/-- Each handler is told once about each connection that is opened and each that is closed, and of its
end after its beginning. -/
def ToldOnce (handlers : List ProtocolHandler) (s : System) : Prop :=
  ∀ p ∈ handlers, ∀ cid,
    (s.notices.count (.connected p.name cid) = if s.Opened cid then 1 else 0) ∧
      (s.notices.count (.disconnected p.name cid) = if s.Closed cid then 1 else 0) ∧
        ∀ pre post, s.notices = pre ++ .disconnected p.name cid :: post →
          .connected p.name cid ∈ pre

/-- As long as no connection has been opened nobody has been told anything. From then on, the handlers
are told once if each of them has one protocol. -/
theorem told_once_iff (localPeerId : PeerId) (routing filterPrivate filterLoopback : Bool)
    {handlers : List ProtocolHandler} (hnames : (handlers.map ProtocolHandler.name).Nodup)
    (hdisjoint : Muxer.Disjoint handlers) (actions : List Action) :
    let s := run step (start (.new localPeerId routing filterPrivate filterLoopback handlers)) actions
    ToldOnce handlers s ↔ s.swarm.connections.nextConnectionId = 0 ∨
      ∀ p ∈ handlers, p.protocolInfo.dedup.length = 1 := by
  intro s
  have htold : Told (handlers.foldl Muxer.addProtocolHandler ∅) s :=
    told_run localPeerId routing filterPrivate filterLoopback handlers actions
  constructor
  · intro honce
    by_cases hnext : s.swarm.connections.nextConnectionId = 0
    · exact .inl hnext
    · refine .inr fun p hp => ?_
      have hopened : s.Opened 1 := by
        refine ⟨le_rfl, ?_⟩
        omega
      have hcount := (honce p hp 1).1
      rwa [htold.connected, if_pos hopened, if_pos hopened,
        Muxer.count_values hdisjoint hnames hp] at hcount
  · intro hcond p hp cid
    rw [htold.connected, htold.disconnected, Muxer.count_values hdisjoint hnames hp]
    refine ⟨?_, ?_, fun pre post => htold.ordered p.name cid pre post⟩
    · rcases hcond with hnext | hone
      · have hnone : ¬s.Opened cid := by
          rw [Opened]
          omega
        rw [if_neg hnone, if_neg hnone]
      · rw [hone p hp]
    · rcases hcond with hnext | hone
      · have hnone : ¬s.Closed cid := by
          rw [Closed, Opened]
          omega
        rw [if_neg hnone, if_neg hnone]
      · rw [hone p hp]

def twoVersions : ProtocolHandler := ⟨0, [⟨[109, 101, 115, 104], 11⟩, ⟨[109, 101, 115, 104], 10⟩]⟩

/-- A handler with two protocols is told twice that a connection was opened. -/
theorem twoVersions_told_twice :
    let s := run step (start (.new (.ofByte 0) false false true [twoVersions]))
      [.accepted ⟨0, .ofByte 1⟩, .handle]
    Muxer.Disjoint [twoVersions] ∧ s.Opened 1 ∧
      s.notices = [.connected 0 1, .connected 0 1] ∧ ¬ToldOnce [twoVersions] s := by
  intro s
  have hnotices : s.notices = [.connected 0 1, .connected 0 1] := by decide
  have hopened : s.Opened 1 := by decide
  refine ⟨List.pairwise_singleton _ _, hopened, hnotices, fun honce => ?_⟩
  have hcount := (honce twoVersions List.mem_cons_self 1).1
  rw [hnotices, if_pos hopened] at hcount
  revert hcount
  decide

/-- Two handlers with one protocol each are told once. -/
theorem oneVersion_told_once :
    ToldOnce [⟨0, [⟨[112], 1⟩]⟩, ⟨1, [⟨[113], 1⟩]⟩]
      (run step (start (.new (.ofByte 0) false false true [⟨0, [⟨[112], 1⟩]⟩, ⟨1, [⟨[113], 1⟩]⟩]))
        [.accepted ⟨0, .ofByte 1⟩, .handle, .closed 1, .handle]) := by
  refine (told_once_iff (.ofByte 0) false false true ?_ ?_ _).mpr (.inr ?_)
  · decide
  · simp [Muxer.Disjoint]
  · decide

end System

end Libp2pRs.Swarm
