import AuthDict.Proofs.Query.Requests

/-!
# Loads that fail

Whether a load of a trie fails depends on its number alone, so the backends settle what each of the
next loads will return: the trie they hold, or an error. Refreshes go by these outcomes. A pass of
refreshes over a pool stops at the first load that fails, and the opening of a pool is such a pass
over queriers that have no copy yet.
-/
namespace AuthDict

theorem Storage.sameButLoads_loadTrie (id : DictionaryId) (s : Storage) :
    s.SameButLoads (loadTrie id s).2 := by
  refine ⟨s.trieLoads.calls + 1, ?_⟩
  cases h : s.trieLoads.down s.trieLoads.calls with
  | true => simp only [loadTrie, Outage.next, h, if_true]
  | false => simp only [loadTrie, Outage.next, h, Bool.false_eq_true, if_false]

namespace Backends

variable {b : Backends} {ref : StorageRef} {id : DictionaryId}

/-- The backends after a load, whether it failed or not. -/
def afterLoad (b : Backends) (ref : StorageRef) (id : DictionaryId) : Backends :=
  (on ref (Storage.loadTrie id) b).2

/-- What a load returns that comes after `k` others. -/
def loaded (b : Backends) (ref : StorageRef) (id : DictionaryId) : Nat → Except Error (Option Trie)
  | 0 => (on ref (Storage.loadTrie id) b).1
  | k + 1 => (b.afterLoad ref id).loaded ref id k

/-- What a pass over queriers loads for the one in a place, if it gets so far. -/
def loadedInPass (b : Backends) (ref : StorageRef) (id : DictionaryId) (place : Nat) :
    Option (Option Trie) :=
  if ∀ k < place, (b.loaded ref id k).isOk then (b.loaded ref id place).toOption else none

theorem sameButLoads_afterLoad (b : Backends) (ref : StorageRef) (id : DictionaryId) :
    b.SameButLoads (b.afterLoad ref id) := by
  unfold afterLoad
  rw [on_apply]
  exact sameButLoads_set (Storage.sameButLoads_loadTrie id (b.get ref))

theorem held_afterLoad (b : Backends) (ref : StorageRef) (id : DictionaryId) :
    (b.afterLoad ref id).held = b.held :=
  (b.sameButLoads_afterLoad ref id).held_eq

theorem loaded_cases (b : Backends) (ref : StorageRef) (id : DictionaryId) (k : Nat) :
    b.loaded ref id k = .ok (b.held ref id) ∨
      b.loaded ref id k = .error (.storage (.unavailable .loadTrie)) := by
  induction k generalizing b with
  | zero =>
    rw [loaded, on_apply]
    simp only [Storage.loadTrie]
    split
    · exact .inr rfl
    · exact .inl rfl
  | succ k ih =>
    have h := ih (b.afterLoad ref id)
    rwa [held_afterLoad] at h

theorem loaded_of_isOk {k : Nat} (h : (b.loaded ref id k).isOk) :
    b.loaded ref id k = .ok (b.held ref id) := by
  rcases b.loaded_cases ref id k with hk | hk
  · exact hk
  · rw [hk] at h
    contradiction

theorem loaded_of_not_isOk {k : Nat} (h : ¬ (b.loaded ref id k).isOk) :
    b.loaded ref id k = .error (.storage (.unavailable .loadTrie)) := by
  rcases b.loaded_cases ref id k with hk | hk
  · rw [hk] at h
    exact absurd rfl h
  · exact hk

theorem loadedInPass_zero : b.loadedInPass ref id 0 = (b.loaded ref id 0).toOption :=
  if_pos fun _ hk => absurd hk (Nat.not_lt_zero _)

theorem loadedInPass_succ (h : (b.loaded ref id 0).isOk) (place : Nat) :
    b.loadedInPass ref id (place + 1) = (b.afterLoad ref id).loadedInPass ref id place := by
  have hiff : (∀ k < place + 1, (b.loaded ref id k).isOk) ↔
      ∀ k < place, ((b.afterLoad ref id).loaded ref id k).isOk := by
    rw [Nat.forall_lt_succ_left]
    exact ⟨And.right, fun hk => ⟨h, hk⟩⟩
  simp only [loadedInPass, hiff]
  rfl

theorem loadedInPass_of_not_isOk {k place : Nat} (hk : k ≤ place)
    (h : ¬ (b.loaded ref id k).isOk) : b.loadedInPass ref id place = none := by
  rcases Nat.lt_or_eq_of_le hk with hlt | rfl
  · exact if_neg fun hall => h (hall k hlt)
  · rw [loadedInPass, loaded_of_not_isOk h]
    exact ite_self _

end Backends

namespace Querier

variable {q : Querier} {b : Backends}

/-- The error of a querier whose load fails. -/
def unreadable (index : Nat) (id : DictionaryId) : Error :=
  .lookup index id Storage.name (.unavailable .loadTrie)

theorem load_eq (q : Querier) (b : Backends) :
    q.load b = ((b.loaded q.storage q.id 0).mapError q.lookupError,
      b.afterLoad q.storage q.id) := by
  unfold load Backends.afterLoad
  rw [Backends.loaded]
  rcases Backends.on q.storage (Storage.loadTrie q.id) b with ⟨e | t, b'⟩
  · rfl
  · rfl

theorem load_of_isOk (h : (b.loaded q.storage q.id 0).isOk) :
    q.load b = (.ok (b.held q.storage q.id), b.afterLoad q.storage q.id) := by
  rw [load_eq, Backends.loaded_of_isOk h]
  rfl

theorem load_of_not_isOk (h : ¬ (b.loaded q.storage q.id 0).isOk) :
    q.load b = (.error (unreadable q.index q.id), b.afterLoad q.storage q.id) := by
  rw [load_eq, Backends.loaded_of_not_isOk h]
  rfl

theorem refresh_direct (h : q.mode = .direct) (b : Backends) : q.refresh b = (.ok q, b) := by
  rw [refresh, h]
  rfl

theorem refresh_of_isOk (hmode : q.mode = .cached) (h : (b.loaded q.storage q.id 0).isOk) :
    q.refresh b = (.ok { q with snapshot := b.held q.storage q.id },
      b.afterLoad q.storage q.id) := by
  rw [refresh, hmode]
  exact Action.bind_ok (load_of_isOk h) _

theorem refresh_of_not_isOk (hmode : q.mode = .cached)
    (h : ¬ (b.loaded q.storage q.id 0).isOk) :
    q.refresh b = (.error (unreadable q.index q.id), b.afterLoad q.storage q.id) := by
  rw [refresh, hmode]
  exact Action.bind_error (load_of_not_isOk h) _

/-- A querier with a cache over a given trie. -/
structure Caches (ref : StorageRef) (id : DictionaryId) (q : Querier) : Prop where
  storage : q.storage = ref
  id : q.id = id
  mode : q.mode = .cached

end Querier

namespace QuerierPool

open Querier

variable {qs : List Querier} {b : Backends} {ref : StorageRef} {id : DictionaryId}

theorem refreshQueriers_direct (h : ∀ q ∈ qs, q.mode = .direct) (b : Backends) :
    refreshQueriers qs b = (.ok (), qs, b) := by
  induction qs with
  | nil => rfl
  | cons q qs ih =>
    obtain ⟨hq, hqs⟩ := List.forall_mem_cons.1 h
    simp only [refreshQueriers, refresh_direct hq, ih hqs]

theorem refreshQueriers_of_isOk {q : Querier} (hq : q.Caches ref id) (qs : List Querier)
    (h : (b.loaded ref id 0).isOk) :
    refreshQueriers (q :: qs) b =
      let (r, qs', b') := refreshQueriers qs (b.afterLoad ref id)
      (r, { q with snapshot := b.held ref id } :: qs', b') := by
  obtain ⟨rfl, rfl, hmode⟩ := hq
  simp only [refreshQueriers, refresh_of_isOk hmode h]

theorem refreshQueriers_of_not_isOk {q : Querier} (hq : q.Caches ref id) (qs : List Querier)
    (h : ¬ (b.loaded ref id 0).isOk) :
    refreshQueriers (q :: qs) b =
      (.error (unreadable q.index id), q :: qs, b.afterLoad ref id) := by
  obtain ⟨rfl, rfl, hmode⟩ := hq
  simp only [refreshQueriers, refresh_of_not_isOk hmode h]

/-- A pass changes the copies of those queriers that it loads for, and nothing else. -/
theorem refreshQueriers_getElem? (hqs : ∀ q ∈ qs, q.Caches ref id) (b : Backends) (place : Nat) :
    (refreshQueriers qs b).2.1[place]? = qs[place]?.map fun q =>
      { q with snapshot := (b.loadedInPass ref id place).getD q.snapshot } := by
  induction qs generalizing b place with
  | nil => rfl
  | cons q qs ih =>
    obtain ⟨hq, hqs⟩ := List.forall_mem_cons.1 hqs
    by_cases h : (b.loaded ref id 0).isOk
    · rw [refreshQueriers_of_isOk hq qs h]
      cases place with
      | zero =>
        rw [Backends.loadedInPass_zero, Backends.loaded_of_isOk h]
        rfl
      | succ place =>
        rw [Backends.loadedInPass_succ h]
        exact ih hqs _ place
    · rw [refreshQueriers_of_not_isOk hq qs h,
        Backends.loadedInPass_of_not_isOk (Nat.zero_le place) h]
      simp

theorem refreshQueriers_length (qs : List Querier) (b : Backends) :
    (refreshQueriers qs b).2.1.length = qs.length := by
  induction qs generalizing b with
  | nil => rfl
  | cons q qs ih =>
    rw [refreshQueriers]
    rcases q.refresh b with ⟨e | q', b'⟩
    · rfl
    · simp only [List.length_cons, ih b']

/-- Queriers that have not been refreshed yet, with indices from a given one on. -/
def blank (id : DictionaryId) (storage : StorageRef) (mode : QueryMode) (index count : Nat) :
    List Querier :=
  (List.range' index count).map fun index => { index, id, storage, mode }

end QuerierPool

end AuthDict
