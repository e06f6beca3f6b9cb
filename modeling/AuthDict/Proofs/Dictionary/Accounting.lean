import AuthDict.Proofs.Dictionary.Consistency
import Mathlib.Data.Multiset.AddSub
import Mathlib.Data.Set.Function

/-!
# Storage, trie and queue agree

In every state of every run, with any failures of the backend, the updates of the stored elements
are the leaves of the stored trie together with the updates that wait. This holds under the policy
that puts failed batches back; under the other policy the updates of discarded batches are missing.
-/
namespace AuthDict

/-- The stored elements of a dictionary with their keys. -/
def Service.storedElements (s : Service) (p : Site) : List (Bytes × StoredElement) :=
  (s.backends.get p.storage).elements.entries.filterMap fun e =>
    if e.1.owner = p.id then some (e.1.key, e.2) else none

namespace Deployment

variable {x : Setting} {D : Deployment} {log : List Entry} {past : List Trie}

/-- The updates that the stored elements account for. -/
def storedUpdates (x : Setting) (D : Deployment) : List Update :=
  (D.service.storedElements x.site).map fun e => x.updateOf ⟨e.1, e.2.payload, e.2.randomness⟩

def leaves (x : Setting) (D : Deployment) : List Update := (D.current x).updates

def queue (x : Setting) (D : Deployment) : List Update :=
  (D.service.registry x.registry).pending.queue x.draws.id

def storedKeys (x : Setting) (D : Deployment) : Set Bytes :=
  fun key => ∃ element, (key, element) ∈ D.service.storedElements x.site

end Deployment

namespace Service

theorem mem_storedElements {s : Service} {p : Site} {key : Bytes} {element : StoredElement} :
    (key, element) ∈ s.storedElements p ↔ (s.holdings p).elements key = some element := by
  simp only [storedElements, List.mem_filterMap, holdings, OrderedMap.get?_eq_some_iff]
  constructor
  · rintro ⟨⟨⟨owner, k⟩, v⟩, hmem, h⟩
    split at h
    · next howner =>
      obtain ⟨rfl, rfl⟩ := Prod.mk.inj (Option.some.inj h)
      obtain rfl : owner = p.id := howner
      exact hmem
    · contradiction
  · intro hmem
    exact ⟨_, hmem, by simp⟩

theorem nodup_storedElements (s : Service) (p : Site) : (s.storedElements p).Nodup := by
  refine List.Nodup.filterMap ?_ (OrderedMap.nodup_entries _)
  rintro ⟨⟨owner, k⟩, v⟩ ⟨⟨owner', k'⟩, v'⟩ e he he'
  simp only [Option.mem_def, Option.ite_none_right_eq_some, Option.some.injEq] at he he'
  obtain ⟨rfl, rfl⟩ := he
  obtain ⟨rfl, h⟩ := he'
  obtain ⟨rfl, rfl⟩ := Prod.mk.inj h
  rfl

theorem storedElements_perm {s : Service} {p : Site} {log : List Entry}
    (h : Holdings.Stored (fun _ => none) log (s.holdings p).elements) :
    (s.storedElements p).Perm (log.map fun e => (e.key, e.element)) := by
  refine (List.perm_ext_iff_of_nodup (s.nodup_storedElements p) ?_).2 ?_
  · apply List.Nodup.of_map (·.1)
    rw [List.map_map]
    exact h.distinct
  · rintro ⟨key, element⟩
    rw [mem_storedElements, h.some_iff]
    simp [Prod.ext_iff]

end Service

namespace Deployment

variable {x : Setting} {D : Deployment} {log : List Entry} {past : List Trie}

/-- The stored keys are those of the entries stored so far. -/
theorem mem_storedKeys_of_stored
    (hs : Holdings.Stored (fun _ => none) log (D.service.holdings x.site).elements) {key : Bytes} :
    key ∈ D.storedKeys x ↔ ∃ e ∈ log, e.key = key := by
  constructor
  · rintro ⟨element, hmem⟩
    rw [Service.mem_storedElements, hs.some_iff] at hmem
    rcases hmem with hmem | ⟨e, he, hkey, -⟩
    · contradiction
    · exact ⟨e, he, hkey⟩
  · rintro ⟨e, he, rfl⟩
    exact ⟨e.element, Service.mem_storedElements.2 (hs.some_iff.2 (.inr ⟨e, he, rfl, rfl⟩))⟩

/-- The stored entries are told apart by their labels if the stored keys are. -/
theorem labelsApart_of_stored
    (hs : Holdings.Stored (fun _ => none) log (D.service.holdings x.site).elements)
    (hlabels : Set.InjOn x.secret.label (D.storedKeys x)) :
    Holdings.LabelsApart x.updateOf log := by
  intro a ha b hb hlabel
  have hkeys := hlabels ((mem_storedKeys_of_stored hs).2 ⟨a, ha, rfl⟩)
    ((mem_storedKeys_of_stored hs).2 ⟨b, hb, rfl⟩) hlabel
  exact List.inj_on_of_nodup_map hs.distinct ha hb hkeys

theorem storedUpdates_perm_of_stored
    (hs : Holdings.Stored (fun _ => none) log (D.service.holdings x.site).elements) :
    (D.storedUpdates x).Perm (log.map x.updateOf) := by
  apply ((Service.storedElements_perm hs).map _).trans
  rw [List.map_map]
  exact .refl _

theorem mem_storedKeys (h : Reaches x D log past) {key : Bytes} :
    key ∈ D.storedKeys x ↔ ∃ e ∈ log, e.key = key :=
  mem_storedKeys_of_stored (Setting.Sound.of_reaches h).balanced.stored

theorem labelsApart_of_injOn (h : Reaches x D log past)
    (hlabels : Set.InjOn x.secret.label (D.storedKeys x)) :
    Holdings.LabelsApart x.updateOf log :=
  labelsApart_of_stored (Setting.Sound.of_reaches h).balanced.stored hlabels

/-- The updates of the stored elements are the leaves of the stored trie and the updates that wait,
each once. -/
theorem storedUpdates_eq_leaves_add_queue (h : Reaches x D log past)
    (hpolicy : x.policy = .requeue) (hlabels : Set.InjOn x.secret.label (D.storedKeys x)) :
    (D.storedUpdates x : Multiset Update) = D.leaves x + D.queue x ∧
      (D.leaves x ++ D.queue x).Nodup := by
  have hbalanced := (Setting.Sound.of_reaches h).balanced
  have hapart := labelsApart_of_injOn h hlabels
  obtain ⟨lost, hlost, hperm⟩ := hbalanced.accounts hapart
  rw [hlost hpolicy, List.append_nil] at hperm
  have hnodup : (log.map x.updateOf).Nodup :=
    (hbalanced.stored.labels_nodup hapart).of_map
  refine ⟨?_, hperm.nodup_iff.2 hnodup⟩
  rw [Multiset.coe_add, Multiset.coe_eq_coe]
  exact (storedUpdates_perm_of_stored hbalanced.stored).trans hperm.symm

/-- A dictionary that was configured with a seed. -/
def sampleSetting : Setting :=
  { config := { labelSeed := some (Block.zero 32) }
    draws := ⟨Block.zero 32, Block.zero 32, Block.zero 16⟩, storage := 0, registry := 0 }

def sampleEntry : Entry := ⟨[1], [2], Block.zero 32⟩

def sampleOther : Entry := ⟨[3], [4], Block.zero 32⟩

/-- A key of which nothing is stored. -/
def sampleUnknown : Bytes := [5]

theorem injOn_sampleAll :
    Set.InjOn sampleSetting.secret.label {sampleEntry.key, sampleOther.key, sampleUnknown} := by
  have hnodup : ([sampleEntry.key, sampleOther.key, sampleUnknown].map
      sampleSetting.secret.label).Nodup := by decide +kernel
  intro a ha b hb hlabel
  exact List.inj_on_of_nodup_map hnodup (by simpa using ha) (by simpa using hb) hlabel

theorem sampleKeys_subset : ({sampleEntry.key, sampleOther.key} : Set Bytes) ⊆
    {sampleEntry.key, sampleOther.key, sampleUnknown} := by
  rintro key (rfl | rfl)
  · exact .inl rfl
  · exact .inr (.inl rfl)

theorem injOn_sampleKeys :
    Set.InjOn sampleSetting.secret.label {sampleEntry.key, sampleOther.key} :=
  injOn_sampleAll.mono sampleKeys_subset

/-- The only handle of the sample runs. -/
def sampleHandle : Dictionary := Blueprint.handle sampleSetting none none

/-- After the insertion of one entry and a cycle. -/
def sampleApplied : Service := (sampleHandle.apply (sampleHandle.insert sampleEntry {}).2).2

/-- One entry is in the stored trie, and a later one waits. -/
def sampleAfter : Deployment :=
  ⟨(sampleHandle.insert sampleOther sampleApplied).2, [sampleHandle], []⟩

theorem reaches_sampleStart : Reaches sampleSetting ⟨{}, [], []⟩ [] [{}] := by
  refine .start rfl fun ref t ht => ?_
  have hnone : ({} : Service).schedulers.get? ref = none := OrderedMap.get?_empty ref
  rw [hnone] at ht
  contradiction

theorem reaches_sampleAfter :
    ∃ past, Reaches sampleSetting sampleAfter [sampleEntry, sampleOther] past := by
  have hbuild : (sampleSetting.fresh none).build sampleSetting.draws false {} =
      (.ok sampleHandle, {}) := rfl
  have hinsert : sampleHandle.insert sampleEntry {} =
      (.ok (), (sampleHandle.insert sampleEntry {}).2) := Prod.ext rfl rfl
  have hlater : (sampleHandle.insert sampleOther sampleApplied).1 = .ok () := by decide +kernel
  have hstep {s s' : Service} {es : List Entry}
      (h : sampleHandle.Call s es sampleHandle s') :
      Step sampleSetting ⟨s, [] ++ sampleHandle :: [], []⟩ es ⟨s', [] ++ sampleHandle :: [], []⟩ :=
    .call h
  have hinserted := (reaches_sampleStart.step (.build hbuild)).step (hstep (.insert hinsert))
  have hcommitted := hinserted.step (hstep (.apply rfl))
  exact ⟨_, hcommitted.step (hstep (.insert (Prod.ext hlater rfl)))⟩

/-- The stored keys of a run that has inserted both sample entries. -/
theorem storedKeys_subset (h : Reaches sampleSetting D [sampleEntry, sampleOther] past) :
    D.storedKeys sampleSetting ⊆ {sampleEntry.key, sampleOther.key} := by
  intro key hkey
  obtain ⟨e, he, rfl⟩ := (mem_storedKeys h).1 hkey
  simp only [List.mem_cons, List.not_mem_nil, or_false] at he
  exact he.imp (congrArg Entry.key) (congrArg Entry.key)

theorem storedUpdates_sampleAfter :
    (∃ past, Reaches sampleSetting sampleAfter [sampleEntry, sampleOther] past) ∧
      sampleAfter.leaves sampleSetting = [sampleSetting.updateOf sampleEntry] ∧
      sampleAfter.queue sampleSetting = [sampleSetting.updateOf sampleOther] ∧
      (sampleAfter.storedUpdates sampleSetting : Multiset Update) =
        sampleAfter.leaves sampleSetting + sampleAfter.queue sampleSetting ∧
      (sampleAfter.leaves sampleSetting ++ sampleAfter.queue sampleSetting).Nodup := by
  refine ⟨reaches_sampleAfter, by decide +kernel, by decide +kernel, ?_⟩
  obtain ⟨past, hrun⟩ := reaches_sampleAfter
  exact storedUpdates_eq_leaves_add_queue hrun rfl (injOn_sampleKeys.mono (storedKeys_subset hrun))

end Deployment

end AuthDict
