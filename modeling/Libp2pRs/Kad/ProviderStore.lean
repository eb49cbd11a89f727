import Libp2pRs.Kad.MemoryStore
import Libp2pRs.Lib.Smallest

/-!
# The providers of a key in the store

`add_provider` puts a new provider in front of the first one that is farther from the key and
cuts the list at `max_providers_per_key`. However the additions are ordered, the list holds the
closest of all providers that were ever added for the key, each with its latest record.
-/

namespace Libp2pRs.Kad

open Lib Libp2pRs.Core List

def providerDistance (sha256 : List UInt8 → KeyBytes) (key : RecordKey) (p : PeerId) : Distance :=
  (Key.ofPeerId sha256 p).bytes.distance (Key.new sha256 key)

theorem providerDistance_eq_iff : providerDistance sha256 key p = providerDistance sha256 key q ↔
      sha256 p.toBytes = sha256 q.toBytes := by
  constructor
  · intro h
    apply KeyBytes.distance_left_injective (sha256 key)
    have hcomm : (sha256 p.toBytes).distance (sha256 key) =
        (sha256 q.toBytes).distance (sha256 key) := h
    simpa only [KeyBytes.distance_comm (sha256 key)] using hcomm
  · intro h
    simp only [providerDistance, Key.ofPeerId, h]

namespace MemoryStore

variable {sha256 : List UInt8 → KeyBytes}

/-- What `add_provider` makes of the providers of the record's key. -/
def placeProvider (sha256 : List UInt8 → KeyBytes) (maxProvidersPerKey : Nat)
    (record : ProviderRecord) (ps : List ProviderRecord) : List ProviderRecord :=
  match ps.findIdx? (fun p => p.provider = record.provider) with
  | some i => ps.set i record
  | none => (insertProvider sha256 record ps).take maxProvidersPerKey

theorem providers_addProvider (s : MemoryStore sha256) (record : ProviderRecord)
    (key : RecordKey) :
    RecordStore.providers (s.addProvider record).1 key = if record.key = key then
        placeProvider sha256 s.config.maxProvidersPerKey record (RecordStore.providers s key)
      else RecordStore.providers s key := by
  by_cases hkey : record.key = key
  · subst hkey
    simp only [RecordStore.providers, addProvider, get_insert, if_true, Option.getD_some]
    rfl
  · simp only [RecordStore.providers, addProvider, get_insert, if_neg hkey]

/-! ### The two ways a record is placed -/

variable {record : ProviderRecord} {ps : List ProviderRecord}

theorem set_findIdx_eq_map (hps : (ps.map (·.provider)).Nodup)
    (hi : ps.findIdx? (fun p => p.provider = record.provider) = some i) :
    ps.set i record = ps.map (fun p => if p.provider = record.provider then record else p) := by
  have hmap := modify_findIdx_eq_map (fun _ => record)
    (atMostOne_of_nodup_map (·.provider) record.provider hps)
  rw [hi] at hmap
  simpa [set_eq_modify] using hmap

theorem insertProvider_eq_orderedInsert (record : ProviderRecord) (ps : List ProviderRecord) :
    insertProvider sha256 record ps =
      ps.orderedInsert (fun a b => providerDistance sha256 record.key a.provider <
        providerDistance sha256 record.key b.provider) record := by
  induction ps with
  | nil => rfl
  | cons p ps ih =>
    by_cases hp : providerDistance sha256 record.key record.provider <
        providerDistance sha256 record.key p.provider
    · rw [orderedInsert_cons, if_pos hp, insertProvider, findIdx?_cons, if_pos]
      · rfl
      · simpa [providerDistance] using hp
    · rw [orderedInsert_cons, if_neg hp, ← ih, insertProvider, findIdx?_cons, if_neg]
      · rw [insertProvider]
        cases ps.findIdx? _ <;> rfl
      · simpa [providerDistance] using hp

theorem findIdx_eq_none_iff : ps.findIdx? (fun p => p.provider = record.provider) = none ↔
      record.provider ∉ ps.map (·.provider) := by
  simp

theorem mem_insertProvider : r ∈ insertProvider sha256 record ps ↔ r = record ∨ r ∈ ps := by
  rw [insertProvider_eq_orderedInsert, mem_orderedInsert]

theorem perm_insertProvider (record : ProviderRecord) (ps : List ProviderRecord) :
    (insertProvider sha256 record ps).Perm (record :: ps) := by
  rw [insertProvider_eq_orderedInsert]
  exact perm_orderedInsert _ _ _

/-! ### One record per provider -/

def OneEach (s : MemoryStore sha256) : Prop :=
  ∀ key, ((RecordStore.providers s key).map (·.provider)).Nodup

theorem nodup_placeProvider (k : Nat) (hps : (ps.map (·.provider)).Nodup) :
    ((placeProvider sha256 k record ps).map (·.provider)).Nodup := by
  rw [placeProvider]
  split
  · next i hi =>
    rw [set_findIdx_eq_map hps hi, map_map]
    convert hps using 2
    funext p
    by_cases hp : p.provider = record.provider <;> simp [hp]
  · next hnone =>
    have hins : ((insertProvider sha256 record ps).map (·.provider)).Nodup := by
      rw [((perm_insertProvider record ps).map _).nodup_iff, map_cons, nodup_cons]
      exact ⟨findIdx_eq_none_iff.mp hnone, hps⟩
    exact hins.sublist ((take_sublist _ _).map _)

theorem oneEach_withConfig (config : MemoryStoreConfig) :
    OneEach (withConfig config : MemoryStore sha256) := by
  intro key
  simp [RecordStore.providers, withConfig]

variable {s : MemoryStore sha256}

theorem OneEach.addProvider (h : OneEach s) (record : ProviderRecord) :
    OneEach (s.addProvider record).1 := by
  intro key
  rw [providers_addProvider]
  split
  · exact nodup_placeProvider _ (h key)
  · exact h key

theorem providers_removeProvider (h : OneEach s) (key : RecordKey) (p : PeerId) (k : RecordKey) :
    RecordStore.providers (s.removeProvider key p) k =
      (RecordStore.providers s k).filter (fun r => ¬(key = k ∧ r.provider = p)) := by
  have herase := eraseP_eq_filter (atMostOne_of_nodup_map ProviderRecord.provider p (h key))
  simp only [RecordStore.providers, removeProvider] at herase ⊢
  by_cases hk : key = k
  · subst hk
    split
    · simp [*]
    · split <;> simp_all
  · split
    · simp [hk]
    · split <;> simp [get_insert, get_erase, hk]

theorem OneEach.removeProvider (h : OneEach s) (key : RecordKey) (provider : PeerId) :
    OneEach (s.removeProvider key provider) := by
  intro k
  rw [providers_removeProvider h]
  exact (h k).sublist (filter_sublist.map _)

theorem OneEach.gcProviders (h : OneEach s) (now : Instant) (ttl : Duration) :
    OneEach (s.gcProviders now ttl) :=
  foldlRecOn _ _ h (fun _ hs r _ => hs.removeProvider r.key r.provider)

theorem put_cases (s : MemoryStore sha256) (r : Record) :
    (s.put r).1 = s ∨ (s.put r).1 = { s with records := s.records.insert r.key r } := by
  unfold put
  split
  · exact .inl rfl
  · split
    · exact .inr rfl
    · split
      · exact .inl rfl
      · exact .inr rfl

theorem OneEach.put (h : OneEach s) (r : Record) : OneEach (s.put r).1 := by
  rcases s.put_cases r with hput | hput
  · rwa [hput]
  · rw [hput]
    exact h

theorem OneEach.remove (h : OneEach s) (k : RecordKey) : OneEach (s.remove k) :=
  h

theorem OneEach.gcRecords (h : OneEach s) (now : Instant) (ttl : Duration) :
    OneEach (s.gcRecords now ttl) :=
  foldlRecOn _ _ h (fun _ hs r _ => hs.remove r.key)

/-! ### The closest providers -/

/-- The list of a key, by distances: `added` are the records that were added for the key. -/
structure Placed (sha256 : List UInt8 → KeyBytes) (k : Nat) (key : RecordKey)
    (added ps : List ProviderRecord) : Prop where
  distances : ps.map (fun r => providerDistance sha256 key r.provider) =
    smallest k ((added.map (·.provider)).toFinset.image (providerDistance sha256 key))
  latest : ∀ r ∈ ps, (added.filter (fun a => a.provider = r.provider)).getLast? = some r

namespace Placed

variable {k : Nat} {key : RecordKey} {added ps : List ProviderRecord} {record : ProviderRecord}

theorem nil : Placed sha256 k key [] [] := ⟨by simp, by simp⟩

theorem mem_added (h : Placed sha256 k key added ps) (hr : r ∈ ps) : r ∈ added :=
  mem_of_mem_filter (mem_of_getLast? (h.latest r hr))

theorem provider_mem (h : Placed sha256 k key added ps)
    (hp : p ∈ ps.map (·.provider)) : p ∈ added.map (·.provider) := by
  obtain ⟨r, hr, rfl⟩ := mem_map.mp hp
  exact mem_map_of_mem (h.mem_added hr)

theorem nodup (h : Placed sha256 k key added ps) : (ps.map (·.provider)).Nodup := by
  apply List.Nodup.of_map (providerDistance sha256 key)
  have hmap : (ps.map (·.provider)).map (providerDistance sha256 key) =
      ps.map (fun r => providerDistance sha256 key r.provider) := map_map
  rw [hmap, h.distances]
  exact (pairwise_smallest _ _).imp ne_of_lt

theorem latest_concat {r : ProviderRecord} (hne : record.provider ≠ r.provider) :
    ((added ++ [record]).filter (fun a => a.provider = r.provider)).getLast? =
      (added.filter (fun a => a.provider = r.provider)).getLast? := by
  simp [filter_append, hne]

theorem latest_concat_self :
    ((added ++ [record]).filter (fun a => a.provider = record.provider)).getLast? =
      some record := by
  simp [filter_append]

theorem set (h : Placed sha256 k key added ps)
    (hi : ps.findIdx? (fun p => p.provider = record.provider) = some i) :
    Placed sha256 k key (added ++ [record]) (ps.set i record) := by
  rw [set_findIdx_eq_map h.nodup hi]
  have hlisted : record.provider ∈ added.map (·.provider) := by
    apply h.provider_mem
    by_contra hnone
    rw [findIdx_eq_none_iff.mpr hnone] at hi
    cases hi
  constructor
  · have hsame : ((added ++ [record]).map (·.provider)).toFinset =
        (added.map (·.provider)).toFinset := by
      ext p
      simp only [map_append, map_cons, map_nil, toFinset_append,
        Finset.mem_union, mem_toFinset, mem_singleton]
      exact ⟨fun hp => hp.elim id (fun hp => hp ▸ hlisted), Or.inl⟩
    rw [hsame, ← h.distances, map_map]
    apply map_congr_left
    intro p _
    by_cases hp : p.provider = record.provider <;> simp [hp]
  · intro r hr
    obtain ⟨p, hp, rfl⟩ := mem_map.mp hr
    by_cases heq : p.provider = record.provider
    · rw [if_pos heq]
      exact latest_concat_self
    · rw [if_neg heq, latest_concat (Ne.symm heq)]
      exact h.latest p hp

theorem insert (h : Placed sha256 k record.key added ps)
    (hinj : Set.InjOn (fun p => sha256 p.toBytes) {p | p ∈ (added ++ [record]).map (·.provider)})
    (hnone : record.provider ∉ ps.map (·.provider)) :
    Placed sha256 k record.key (added ++ [record]) ((insertProvider sha256 record ps).take k) := by
  -- no listed provider is as far from the key as the new one
  have hne : ∀ r ∈ ps, providerDistance sha256 record.key record.provider ≠
      providerDistance sha256 record.key r.provider := by
    intro r hr heq
    apply hnone
    have hmem : r.provider ∈ (added ++ [record]).map (·.provider) := by
      simpa using Or.inl ⟨r, h.mem_added hr, rfl⟩
    have hid : record.provider = r.provider :=
      hinj (by simp) hmem (providerDistance_eq_iff.mp heq)
    exact hid ▸ mem_map_of_mem hr
  have hnew : providerDistance sha256 record.key record.provider ∉
      smallest k ((added.map (·.provider)).toFinset.image (providerDistance sha256 record.key)) := by
    rw [← h.distances]
    intro hmem
    obtain ⟨r, hr, heq⟩ := mem_map.mp hmem
    exact hne r hr heq.symm
  constructor
  · have hids : ∀ d, d ∈ ((added ++ [record]).map (·.provider)).toFinset.image
        (providerDistance sha256 record.key) ↔
        d = providerDistance sha256 record.key record.provider ∨
          d ∈ (added.map (·.provider)).toFinset.image (providerDistance sha256 record.key) := by
      intro d
      simp
    rw [← take_orderedInsert_smallest hnew hids, ← h.distances, map_take,
      insertProvider_eq_orderedInsert]
    congr 1
    apply map_orderedInsert
    · intro r hr
      exact ⟨le_of_lt, fun hle => lt_of_le_of_ne hle (hne r hr).symm⟩
    · intro r hr
      exact ⟨le_of_lt, fun hle => lt_of_le_of_ne hle (hne r hr)⟩
  · intro r hr
    rcases mem_insertProvider.mp (mem_of_mem_take hr) with heq | hr
    · rw [heq]
      exact latest_concat_self
    · have hother : record.provider ≠ r.provider := by
        intro heq
        exact hnone (mem_map.mpr ⟨r, hr, heq.symm⟩)
      rw [latest_concat hother]
      exact h.latest r hr

theorem placeProvider (h : Placed sha256 k record.key added ps)
    (hinj : Set.InjOn (fun p => sha256 p.toBytes) {p | p ∈ (added ++ [record]).map (·.provider)}) :
    Placed sha256 k record.key (added ++ [record])
      (MemoryStore.placeProvider sha256 k record ps) := by
  rw [MemoryStore.placeProvider]
  split
  · next i hi => exact h.set hi
  · next hnone => exact h.insert hinj (findIdx_eq_none_iff.mp hnone)

end Placed

def addProviders (s : MemoryStore sha256) (records : List ProviderRecord) : MemoryStore sha256 :=
  records.foldl (fun s r => (s.addProvider r).1) s

@[simp] theorem config_addProviders (s : MemoryStore sha256) (records : List ProviderRecord) :
    (s.addProviders records).config = s.config := by
  induction records generalizing s with
  | nil => rfl
  | cons r records ih => exact ih _

def addedFor (records : List ProviderRecord) (key : RecordKey) : List ProviderRecord :=
  records.filter (fun r => r.key = key)

theorem placed_addProviders (config : MemoryStoreConfig) (records : List ProviderRecord)
    (key : RecordKey)
    (hinj : Set.InjOn (fun p => sha256 p.toBytes)
      {p | p ∈ (addedFor records key).map (·.provider)}) :
    Placed sha256 config.maxProvidersPerKey key (addedFor records key)
      (RecordStore.providers ((withConfig config : MemoryStore sha256).addProviders records)
        key) := by
  -- over the calls, the latest one last
  induction records using reverseRecOn with
  | nil => exact Placed.nil
  | append_singleton records record ih =>
    have hstep : (withConfig config : MemoryStore sha256).addProviders (records ++ [record]) =
        (((withConfig config : MemoryStore sha256).addProviders records).addProvider record).1 := by
      rw [addProviders, foldl_append]
      rfl
    rw [hstep, providers_addProvider]
    by_cases hkey : record.key = key
    · subst hkey
      have hadded : addedFor (records ++ [record]) record.key =
          addedFor records record.key ++ [record] := by
        simp [addedFor, filter_append]
      rw [hadded] at hinj ⊢
      have hbefore := ih (hinj.mono (fun p hp => by
        simp only [map_append, Set.mem_ofPred_eq, mem_append] at hp ⊢
        exact Or.inl hp))
      rw [if_pos rfl, config_addProviders]
      exact hbefore.placeProvider hinj
    · have hadded : addedFor (records ++ [record]) key = addedFor records key := by
        simp [addedFor, filter_append, hkey]
      rw [hadded] at hinj ⊢
      rw [if_neg hkey]
      exact ih hinj

/-- `ps` is the list of the `k` providers closest to `key` among those of the records `added`,
each with its latest record. -/
structure NearestProviders (sha256 : List UInt8 → KeyBytes) (k : Nat) (key : RecordKey)
    (added ps : List ProviderRecord) : Prop where
  increasing : ps.Pairwise (fun a b =>
    providerDistance sha256 key a.provider < providerDistance sha256 key b.provider)
  oneEach : (ps.map (·.provider)).Nodup
  -- a provider is listed when fewer than `k` of the added ones are closer
  listed : ∀ p, p ∈ ps.map (·.provider) ↔ p ∈ added.map (·.provider) ∧
    ((added.map (·.provider)).toFinset.filter (fun q =>
      providerDistance sha256 key q < providerDistance sha256 key p)).card < k
  length : ps.length = min k (added.map (·.provider)).toFinset.card
  latest : ∀ r ∈ ps, (added.filter (fun a => a.provider = r.provider)).getLast? = some r

theorem Placed.nearest (h : Placed sha256 k key added ps)
    (hinj : Set.InjOn (fun p => sha256 p.toBytes) {p | p ∈ added.map (·.provider)}) :
    NearestProviders sha256 k key added ps := by
  have hdist : Set.InjOn (providerDistance sha256 key)
      ((added.map (·.provider)).toFinset : Set PeerId) := by
    intro p hp q hq heq
    exact hinj (by simpa using hp) (by simpa using hq) (providerDistance_eq_iff.mp heq)
  refine ⟨?_, h.nodup, ?_, ?_, h.latest⟩
  · apply pairwise_map.mp
    rw [h.distances]
    exact pairwise_smallest _ _
  · intro p
    -- the closer providers and their distances are equally many
    have hcard : (((added.map (·.provider)).toFinset.image (providerDistance sha256 key)).filter
        (· < providerDistance sha256 key p)).card =
        ((added.map (·.provider)).toFinset.filter (fun q =>
          providerDistance sha256 key q < providerDistance sha256 key p)).card := by
      rw [Finset.filter_image]
      exact Finset.card_image_of_injOn (hdist.mono (Finset.filter_subset _ _))
    constructor
    · intro hp
      have hadded := h.provider_mem hp
      obtain ⟨r, hr, rfl⟩ := mem_map.mp hp
      have hmem : providerDistance sha256 key r.provider ∈
          ps.map (fun r => providerDistance sha256 key r.provider) := mem_map_of_mem hr
      rw [h.distances, mem_smallest, hcard] at hmem
      exact ⟨hadded, hmem.2⟩
    · rintro ⟨hp, hfew⟩
      have hmem : providerDistance sha256 key p ∈
          ps.map (fun r => providerDistance sha256 key r.provider) := by
        rw [h.distances, mem_smallest, hcard]
        exact ⟨Finset.mem_image_of_mem _ (by simpa using hp), hfew⟩
      obtain ⟨r, hr, heq⟩ := mem_map.mp hmem
      have hid : r.provider = p :=
        hdist (by simpa using ⟨r, h.mem_added hr, rfl⟩) (by simpa using hp) heq
      exact hid ▸ mem_map_of_mem hr
  · have hlen := congrArg length h.distances
    rwa [length_map, length_smallest, Finset.card_image_of_injOn hdist] at hlen

/-- After any sequence of `add_provider` calls on an empty store, the providers of a key are the
closest of all that were added for it, ordered by distance and each with its latest record. The
digest is assumed not to collide on the providers added for the key. -/
theorem providers_nearest (config : MemoryStoreConfig) (records : List ProviderRecord)
    (key : RecordKey)
    (hinj : Set.InjOn (fun p => sha256 p.toBytes)
      {p | p ∈ (addedFor records key).map (·.provider)}) :
    NearestProviders sha256 config.maxProvidersPerKey key (addedFor records key)
      (RecordStore.providers ((withConfig config : MemoryStore sha256).addProviders records)
        key) :=
  (placed_addProviders config records key hinj).nearest hinj

/-- Three providers in a store that keeps two for a key; all are added twice. -/
def sampleAdditions : List ProviderRecord :=
  [⟨[], PeerId.ofByte 1, none⟩, ⟨[], PeerId.ofByte 2, none⟩, ⟨[], PeerId.ofByte 3, none⟩,
    ⟨[], PeerId.ofByte 1, some 5⟩, ⟨[], PeerId.ofByte 2, some 6⟩, ⟨[], PeerId.ofByte 3, some 7⟩]

theorem sampleAdditions_nearest :
    (RecordStore.providers ((withConfig { maxProvidersPerKey := 2 } :
      MemoryStore sampleSha256).addProviders sampleAdditions) []).map (·.timeReceived) =
        [some 6, some 7] ∧
    NearestProviders sampleSha256 2 [] (addedFor sampleAdditions [])
      (RecordStore.providers ((withConfig { maxProvidersPerKey := 2 } :
        MemoryStore sampleSha256).addProviders sampleAdditions) []) := by
  have hinj : ∀ p ∈ (addedFor sampleAdditions []).map (·.provider),
      ∀ q ∈ (addedFor sampleAdditions []).map (·.provider),
        sampleSha256 p.toBytes = sampleSha256 q.toBytes → p = q := by decide +kernel
  exact ⟨by decide +kernel, providers_nearest { maxProvidersPerKey := 2 } sampleAdditions []
    (fun p hp q hq => hinj p hp q hq)⟩

/-! ### Collections -/

theorem records_removeProvider (s : MemoryStore sha256) (key : RecordKey) (p : PeerId) :
    (s.removeProvider key p).records = s.records := by
  unfold removeProvider
  split
  · rfl
  · dsimp only
    split <;> rfl

theorem removeProvider_eq_empty (h : (s.removeProvider key p).providers[k]? = some []) :
    key ≠ k ∧ s.providers[k]? = some [] := by
  unfold removeProvider at h
  grind [get_insert, get_erase]

theorem foldl_removeProvider (h : OneEach s) (rs : List ProviderRecord) (k : RecordKey) :
    let s' := rs.foldl (fun s r => s.removeProvider r.key r.provider) s
    RecordStore.providers s' k = (RecordStore.providers s k).filter
        (fun p => ∀ r ∈ rs, ¬(r.key = k ∧ p.provider = r.provider)) ∧
      s'.records = s.records ∧
      (s'.providers[k]? = some [] → s.providers[k]? = some [] ∧ ∀ r ∈ rs, r.key ≠ k) := by
  induction rs generalizing s with
  | nil => simp
  | cons r rs ih =>
    obtain ⟨hproviders, hrecords, hempty⟩ := ih (h.removeProvider r.key r.provider)
    refine ⟨?_, hrecords.trans (records_removeProvider s _ _), fun hnil => ?_⟩
    · rw [foldl_cons, hproviders, providers_removeProvider h, filter_filter]
      simp [and_comm, Bool.and_comm]
    · obtain ⟨hstep, hrest⟩ := hempty hnil
      obtain ⟨hkey, hs⟩ := removeProvider_eq_empty hstep
      exact ⟨hs, forall_mem_cons.mpr ⟨hkey, hrest⟩⟩

theorem foldl_remove (rs : List Record) (k : RecordKey) :
    let s' := rs.foldl (fun s r => s.remove r.key) s
    (∀ r, s'.records[k]? = some r ↔ s.records[k]? = some r ∧ ∀ x ∈ rs, x.key ≠ k) ∧
      s'.providers = s.providers := by
  induction rs generalizing s with
  | nil => simp
  | cons x rs ih =>
    obtain ⟨hrecords, hproviders⟩ := ih (s := s.remove x.key)
    refine ⟨fun r => (hrecords r).trans ?_, hproviders⟩
    have hget : (s.remove x.key).records[k]? = if x.key = k then none else s.records[k]? :=
      get_erase _ _ _
    rw [hget]
    by_cases hk : x.key = k <;> simp [hk]

/-- Everything is filed under its own key, with one record per provider. -/
structure Filed (s : MemoryStore sha256) : Prop where
  records : ∀ (k : RecordKey) (r : Record), s.records[k]? = some r → r.key = k
  providers : ∀ k, ∀ r ∈ RecordStore.providers s k, r.key = k
  oneEach : s.OneEach

theorem Filed.remove (h : s.Filed) (k : RecordKey) : (s.remove k).Filed := by
  refine ⟨fun k' r hr => h.records k' r ?_, h.providers, h.oneEach⟩
  have hget : (s.records.erase k)[k']? = some r := hr
  grind [get_erase]

theorem Filed.foldl_removeProvider (h : s.Filed) (rs : List ProviderRecord) :
    (rs.foldl (fun s r => s.removeProvider r.key r.provider) s).Filed where
  records := by
    rw [(MemoryStore.foldl_removeProvider h.oneEach rs []).2.1]
    exact h.records
  providers k r hr := by
    rw [(MemoryStore.foldl_removeProvider h.oneEach rs k).1] at hr
    exact h.providers k r (mem_of_mem_filter hr)
  oneEach := foldlRecOn _ _ h.oneEach (fun _ hs r _ => hs.removeProvider r.key r.provider)

inductive Reached : MemoryStore sha256 → Prop
  | withConfig (config : MemoryStoreConfig) : Reached (withConfig config)
  | put {a} (r : Record) : Reached a → Reached (a.put r).1
  | gcRecords {a} (now : Instant) (ttl : Duration) : Reached a → Reached (a.gcRecords now ttl)
  | addProvider {a} (r : ProviderRecord) : Reached a → Reached (a.addProvider r).1
  | removeProvider {a} (k : RecordKey) (p : PeerId) : Reached a → Reached (a.removeProvider k p)
  | gcProviders {a} (now : Instant) (ttl : Duration) : Reached a → Reached (a.gcProviders now ttl)

theorem Reached.filed (h : Reached s) : s.Filed := by
  induction h with
  | withConfig config =>
    exact ⟨by simp [MemoryStore.withConfig], by simp [RecordStore.providers, MemoryStore.withConfig],
      oneEach_withConfig config⟩
  | @put s r _ ih =>
    rcases s.put_cases r with hput | hput
    · rwa [hput]
    · rw [hput]
      refine ⟨fun k r' hr' => ?_, ih.providers, ih.oneEach⟩
      have hk := ih.records k r'
      grind [get_insert]
  | gcRecords now ttl _ ih => exact foldlRecOn _ _ ih (fun _ hs r _ => hs.remove r.key)
  | @addProvider s record _ ih =>
    refine ⟨ih.records, fun k r hr => ?_, ih.oneEach.addProvider record⟩
    rw [providers_addProvider, placeProvider] at hr
    have hk := ih.providers k r
    split at hr
    case isTrue hkey =>
      split at hr
      · rcases mem_or_eq_of_mem_set hr with hr | rfl
        · exact hk hr
        · exact hkey
      · rcases mem_insertProvider.mp (mem_of_mem_take hr) with rfl | hr
        · exact hkey
        · exact hk hr
    case isFalse => exact hk hr
  | removeProvider k p _ ih => exact ih.foldl_removeProvider [⟨k, p, none⟩]
  | gcProviders now ttl _ ih => exact ih.foldl_removeProvider _

theorem mem_providers : r ∈ RecordStore.providers s k ↔ ∃ ps ∈ s.providers[k]?, r ∈ ps := by
  simp only [RecordStore.providers]
  cases s.providers[k]? <;> simp

/-- The store keeps to the limits that it was configured with. -/
structure Limited (config : MemoryStoreConfig) (s : MemoryStore sha256) : Prop where
  config_eq : s.config = config
  records : s.records.size ≤ config.maxRecords
  values : ∀ (k : RecordKey) (r : Record), s.records[k]? = some r →
    r.value.length < config.maxValueBytes
  providers : ∀ k, (RecordStore.providers s k).length ≤ config.maxProvidersPerKey
  oneEach : s.OneEach

variable {config : MemoryStoreConfig}

theorem Limited.put (h : Limited config s) (r : Record) : Limited config (s.put r).1 := by
  obtain ⟨rfl, hrecords, hvalues, hproviders, hone⟩ := h
  have hinsert : r.value.length < s.config.maxValueBytes → ∀ (k : RecordKey) (r' : Record),
      (s.records.insert r.key r)[k]? = some r' → r'.value.length < s.config.maxValueBytes := by
    grind [get_insert]
  fun_cases MemoryStore.put s r
  case case1 | case3 => exact ⟨rfl, hrecords, hvalues, hproviders, hone⟩
  all_goals exact ⟨rfl, by grind [Std.TreeMap.size_insert], hinsert (by omega), hproviders, hone⟩

theorem Limited.remove (h : Limited config s) (k : RecordKey) : Limited config (s.remove k) := by
  refine { h with
    records := Std.TreeMap.size_erase_le.trans h.records
    values := fun k' r hr => h.values k' r ?_ }
  grind [get_erase, MemoryStore.remove]

theorem Limited.addProvider (h : Limited config s) (record : ProviderRecord) :
    Limited config (s.addProvider record).1 := by
  refine { h with providers := fun k => ?_, oneEach := h.oneEach.addProvider record }
  have hlimit := h.providers k
  rw [providers_addProvider, placeProvider, h.config_eq]
  split
  · split <;> grind
  · exact hlimit

theorem Limited.removeProvider (h : Limited config s) (key : RecordKey) (p : PeerId) :
    Limited config (s.removeProvider key p) := by
  refine ⟨?_, ?_, ?_, fun k => ?_, h.oneEach.removeProvider key p⟩
  · rw [← h.config_eq]
    fun_cases MemoryStore.removeProvider s key p <;> rfl
  · rw [records_removeProvider]
    exact h.records
  · rw [records_removeProvider]
    exact h.values
  · rw [providers_removeProvider h.oneEach]
    exact (length_filter_le _ _).trans (h.providers k)

end MemoryStore

end Libp2pRs.Kad
