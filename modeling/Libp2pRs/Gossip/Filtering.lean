import Libp2pRs.Gossip.Filter

/-!
# What a filter makes of a request

The default method reduces a request to at most one action for each topic. An action is taken back
when the opposite one follows, whatever topics the peer has. A composition is asked for sets only,
so that it never comes to the bounds that `MaxCountSubscriptionFilter` has for requests.
-/

namespace Libp2pRs.Gossip

open List TopicSubscriptionFilter

def applySubscription (topics : Finset TopicHash) (s : GossipsubSubscription) : Finset TopicHash :=
  match s.action with
  | .subscribe => insert s.topicHash topics
  | .unsubscribe => topics.erase s.topicHash

def applySubscriptions (topics : Finset TopicHash) (l : List GossipsubSubscription) :
    Finset TopicHash :=
  l.foldl applySubscription topics

def lastAction (l : List GossipsubSubscription) (t : TopicHash) : Option SubscriptionAction :=
  (l.reverse.find? (·.topicHash = t)).map (·.action)

variable {l : List GossipsubSubscription} {s : GossipsubSubscription} {t : TopicHash}
  {topics : Finset TopicHash}

theorem lastAction_concat :
    lastAction (l ++ [s]) t = if s.topicHash = t then some s.action else lastAction l t := by
  unfold lastAction
  by_cases h : s.topicHash = t <;> simp [h]

theorem lastAction_eq_none_iff : lastAction l t = none ↔ ∀ s ∈ l, s.topicHash ≠ t := by
  simp [lastAction]

theorem mem_applySubscriptions : t ∈ applySubscriptions topics l ↔
    lastAction l t = some .subscribe ∨ lastAction l t = none ∧ t ∈ topics := by
  induction l using reverseRecOn with
  | nil => simp [applySubscriptions, lastAction]
  | append_singleton l s ih =>
    have hlast : applySubscriptions topics (l ++ [s]) =
        applySubscription (applySubscriptions topics l) s := foldl_concat _ _ _ _
    rw [hlast, lastAction_concat]
    unfold applySubscription
    by_cases h : s.topicHash = t
    · cases s.action <;> simp [h]
    · rw [if_neg h, ← ih]
      cases s.action <;> simp [Ne.symm h]

/-! ## Reduced requests -/

theorem lastAction_of_mem (hl : (l.map (·.topicHash)).Nodup) (hs : s ∈ l) :
    lastAction l s.topicHash = some s.action := by
  unfold lastAction
  cases hfind : l.reverse.find? (·.topicHash = s.topicHash) with
  | none => simpa using find?_eq_none.mp hfind s (mem_reverse.mpr hs)
  | some e =>
    have he := mem_reverse.mp (mem_of_find?_eq_some hfind)
    have htopic : e.topicHash = s.topicHash := by simpa using find?_some hfind
    rw [inj_on_of_nodup_map hl he hs htopic]
    rfl

theorem lastAction_filter (h : r ≠ t) :
    lastAction (l.filter (·.topicHash ≠ r)) t = lastAction l t := by
  rw [lastAction, ← filter_reverse, find?_filter, lastAction]
  congr 2
  funext e
  by_cases he : e.topicHash = t
  · simp [he, h.symm]
  · simp [he]

theorem dedupSubscriptions_concat (l : List GossipsubSubscription) (s : GossipsubSubscription) :
    dedupSubscriptions (l ++ [s]) =
      match (dedupSubscriptions l).find? (·.topicHash = s.topicHash) with
      | some e =>
        if e.action ≠ s.action then (dedupSubscriptions l).filter (·.topicHash ≠ s.topicHash)
        else dedupSubscriptions l
      | none => dedupSubscriptions l ++ [s] :=
  foldl_concat _ _ _ _

theorem dedupSubscriptions_spec (l : List GossipsubSubscription) :
    ((dedupSubscriptions l).map (·.topicHash)).Nodup ∧ ∀ t,
      lastAction (dedupSubscriptions l) t = lastAction l t ∨
        lastAction (dedupSubscriptions l) t = none := by
  induction l using reverseRecOn with
  | nil => exact ⟨nodup_nil, fun t => Or.inl rfl⟩
  | append_singleton l s ih =>
    obtain ⟨hnodup, hlast⟩ := ih
    rw [dedupSubscriptions_concat]
    cases hfind : (dedupSubscriptions l).find? (·.topicHash = s.topicHash) with
    | none =>
      have hnew := find?_eq_none.mp hfind
      refine ⟨by simpa [nodup_append, hnodup] using hnew, fun t => ?_⟩
      rw [lastAction_concat, lastAction_concat]
      split
      · exact Or.inl rfl
      · exact hlast t
    | some e =>
      have htopic : e.topicHash = s.topicHash := by simpa using find?_some hfind
      dsimp only
      split
      case isTrue =>
        refine ⟨hnodup.sublist (filter_sublist.map _), fun t => ?_⟩
        by_cases h : s.topicHash = t
        · right
          simp [lastAction_eq_none_iff, h]
        · rw [lastAction_filter h, lastAction_concat, if_neg h]
          exact hlast t
      case isFalse hsame =>
        refine ⟨hnodup, fun t => ?_⟩
        rw [lastAction_concat]
        split
        case isTrue h =>
          have hkept := lastAction_of_mem hnodup (mem_of_find?_eq_some hfind)
          rw [htopic, h, not_not.mp hsame] at hkept
          exact Or.inl hkept
        case isFalse => exact hlast t

theorem retainSubscriptions_allowAll (f : AllowAllSubscriptionFilter)
    (l : List GossipsubSubscription) :
    retainSubscriptions allowIncomingSubscription f l = (l, f) := by
  induction l with
  | nil => rfl
  | cons s l ih =>
    change (s :: (retainSubscriptions _ f l).1, (retainSubscriptions _ f l).2) = _
    rw [ih]

theorem retainSubscriptions_sublist (allow : F → GossipsubSubscription → Bool × F) (f : F)
    (l : List GossipsubSubscription) : (retainSubscriptions allow f l).1.Sublist l := by
  induction l generalizing f with
  | nil => exact .slnil
  | cons s l ih =>
    rw [retainSubscriptions]
    split
    · exact (ih _).cons_cons s
    · exact (ih _).cons s

theorem card_applySubscriptions (hl : (l.map (·.topicHash)).Nodup) :
    (applySubscriptions topics l).card + countSubscriptions l topics .unsubscribe true =
      topics.card + countSubscriptions l topics .subscribe false := by
  induction l using reverseRecOn with
  | nil => rfl
  | append_singleton l s ih =>
    rw [map_append, nodup_append] at hl
    obtain ⟨hl, -, hnew⟩ := hl
    have hcount : ∀ action contained, countSubscriptions (l ++ [s]) topics action contained =
        countSubscriptions l topics action contained +
          countSubscriptions [s] topics action contained := fun _ _ => countP_append
    have hlast : applySubscriptions topics (l ++ [s]) =
        applySubscription (applySubscriptions topics l) s := foldl_concat _ _ _ _
    have hmem : s.topicHash ∈ applySubscriptions topics l ↔ s.topicHash ∈ topics := by
      have hnone : lastAction l s.topicHash = none := lastAction_eq_none_iff.mpr (by simpa using hnew)
      simp [mem_applySubscriptions, hnone]
    have ih := ih hl
    rw [hlast, hcount, hcount]
    unfold applySubscription
    by_cases h : s.topicHash ∈ topics
    · have h' := hmem.mpr h
      have hpos := Finset.card_pos.mpr ⟨_, h'⟩
      cases hs : s.action <;>
        simp [countSubscriptions, hs, h, h', Finset.card_erase_of_mem] at ih ⊢ <;> omega
    · have h' := mt hmem.mp h
      cases hs : s.action <;>
        simp [countSubscriptions, hs, h, h', Finset.card_insert_of_notMem] at ih ⊢ <;> omega

def Selects (F : Type) [TopicSubscriptionFilter F] : Prop :=
  ∀ (f : F) l topics r, (filterIncomingSubscriptionSet f l topics).1 = .ok r → r.Sublist l

variable {T S : Type} [TopicSubscriptionFilter T] [TopicSubscriptionFilter S]

theorem selects_maxCount : Selects (MaxCountSubscriptionFilter T) := by
  intro f l topics r hr
  cases hr
  exact retainSubscriptions_sublist _ _ _

theorem combined_sublist (hT : Selects T) (hS : Selects S) (f : CombinedSubscriptionFilters T S)
    (h : (filterIncomingSubscriptions f l topics).1 = .ok accepted) :
    accepted.Sublist (dedupSubscriptions l) := by
  rw [filterIncomingSubscriptions] at h
  dsimp only [instTopicSubscriptionFilterCombinedSubscriptionFilters] at h
  split at h
  case h_1 => cases h
  case h_2 r hr => exact (hS _ _ _ _ h).trans (hT _ _ _ _ hr)

def sampleBounds : MaxCountSubscriptionFilter AllowAllSubscriptionFilter := ⟨⟨⟩, 1, 1⟩

end Libp2pRs.Gossip
