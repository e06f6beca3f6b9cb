import AuthDict.Proofs.Query.Views

/-!
# Requests to routers

What a router is asked, and the writes of tries that happen between the questions. Both kinds of
lookup take their answers from one trie, and a write leaves all tries alone but the one it replaces.
-/
namespace AuthDict

inductive Request where
  | lookup (id : DictionaryId) (label : Label) (pick : UInt8)
  | lookupMany (id : DictionaryId) (labels : List Label) (pick : UInt8)
  | checkForUpdate (id : DictionaryId)
  | write (storage : StorageRef) (id : DictionaryId) (trie : Trie)

namespace Request

/-- The paths that answer a request; a refresh and a write are answered by none. -/
def run : Request → Action (Router × ReadSide) (List LookupPath)
  | lookup id label pick => do return [← Router.lookup id label pick]
  | lookupMany id labels pick => Router.lookupMany id labels pick
  | checkForUpdate id => do
    Router.checkForUpdate id
    return []
  | write storage id trie => do
    Action.within (·.2) (fun r (router, _) => (router, r))
      (ReadSide.onBackends (Backends.on storage (Storage.saveTrie id trie)))
    return []

/-- The paths of the labels that a lookup asks for. -/
def paths (q : Request) (trie : Option Trie) : List LookupPath :=
  match q with
  | lookup _ label _ => [Querier.answer trie label]
  | lookupMany _ labels _ => labels.map (Querier.answer trie)
  | _ => []

/-- The dictionary that a lookup is about. -/
def lookedUp? : Request → Option DictionaryId
  | lookup id .. => some id
  | lookupMany id .. => some id
  | _ => none

/-- The dictionary whose queriers are asked to reload. -/
def checked? : Request → Option DictionaryId
  | checkForUpdate id => some id
  | _ => none

/-- The dictionary whose trie is written. -/
def written? : Request → Option DictionaryId
  | write _ id _ => some id
  | _ => none

/-- A lookup is answered from the one trie that the router serves. -/
theorem exists_run_eq {q : Request} {id : DictionaryId} (h : q.lookedUp? = some id) :
    ∃ pick, ∀ st, q.run st = ((Router.serve id pick st).1.map q.paths, (Router.serve id pick st).2) := by
  cases q with
  | lookup id' label pick =>
    cases h
    refine ⟨pick, fun st => ?_⟩
    simp only [run, Router.lookup, Action.bind_apply]
    rcases Router.serve id pick st with ⟨e | t, st'⟩ <;> rfl
  | lookupMany id' labels pick =>
    cases h
    refine ⟨pick, fun st => ?_⟩
    simp only [run, Router.lookupMany, Action.bind_apply]
    rcases Router.serve id pick st with ⟨e | t, st'⟩ <;> rfl
  | checkForUpdate id' => contradiction
  | write storage id' trie => contradiction

theorem run_checkForUpdate (id : DictionaryId) (st : Router × ReadSide) :
    (checkForUpdate id).run st =
      ((Router.checkForUpdate id st).1.map fun _ => [], (Router.checkForUpdate id st).2) := by
  rw [run, Action.bind_apply]
  rcases Router.checkForUpdate id st with ⟨e | u, st'⟩ <;> rfl

end Request

namespace Storage

variable {s t : Storage} {id id' : DictionaryId} {trie : Trie}

theorem saveTrie_writes (id : DictionaryId) (trie : Trie) (s : Storage) :
    (saveTrie id trie s).2.trieLoads = s.trieLoads ∧
      ((saveTrie id trie s).2.tries = s.tries ∨
        (saveTrie id trie s).2.tries = s.tries.insert id trie) := by
  simp only [saveTrie]
  split
  · exact ⟨rfl, .inl rfl⟩
  · exact ⟨rfl, .inr rfl⟩

theorem SameButLoads.saveTrie (h : s.SameButLoads t) (id : DictionaryId) (trie : Trie) :
    (Storage.saveTrie id trie t).1 = (Storage.saveTrie id trie s).1 ∧
      (Storage.saveTrie id trie s).2.SameButLoads (Storage.saveTrie id trie t).2 := by
  obtain ⟨calls, rfl⟩ := h
  simp only [Storage.saveTrie]
  split
  · exact ⟨rfl, calls, rfl⟩
  · exact ⟨rfl, calls, rfl⟩

end Storage

namespace Backends

variable {b c : Backends}

/-- The backends after a trie was written to one of them, or could not be. -/
def written (b : Backends) (ref : StorageRef) (id : DictionaryId) (trie : Trie) : Backends :=
  (on ref (Storage.saveTrie id trie) b).2

theorem Readable.written (h : b.Readable) (ref : StorageRef) (id : DictionaryId) (trie : Trie) :
    (b.written ref id trie).Readable := by
  intro ref' call
  simp only [Backends.written, on_apply]
  by_cases he : ref' = ref
  · subst he
    rw [get_set_self, (Storage.saveTrie_writes id trie _).1]
    exact h ref' call
  · rw [get_set_of_ne b _ he]
    exact h ref' call

theorem held_written_of_ne {id id' : DictionaryId} (h : id' ≠ id) (b : Backends)
    (ref ref' : StorageRef) (trie : Trie) : (b.written ref id trie).held ref' id' = b.held ref' id' := by
  simp only [held, written, on_apply]
  by_cases he : ref' = ref
  · subst he
    rw [get_set_self]
    rcases (Storage.saveTrie_writes id trie (b.get ref')).2 with ht | ht
    · rw [ht]
    · rw [ht, OrderedMap.get?_insert_of_ne _ _ h]
  · rw [get_set_of_ne b _ he]

theorem SameButLoads.written (h : b.SameButLoads c) (ref : StorageRef) (id : DictionaryId)
    (trie : Trie) :
    (on ref (Storage.saveTrie id trie) c).1 = (on ref (Storage.saveTrie id trie) b).1 ∧
      (b.written ref id trie).SameButLoads (c.written ref id trie) := by
  obtain ⟨hresult, hafter⟩ := (h ref).saveTrie id trie
  refine ⟨hresult, fun ref' => ?_⟩
  simp only [Backends.written, on_apply]
  by_cases he : ref' = ref
  · subst he
    rwa [get_set_self, get_set_self]
  · rw [get_set_of_ne b _ he, get_set_of_ne c _ he]
    exact h ref'

end Backends

theorem Request.run_write (storage : StorageRef) (id : DictionaryId) (trie : Trie) (router : Router)
    (r : ReadSide) :
    (write storage id trie).run (router, r) =
      ((Backends.on storage (Storage.saveTrie id trie) r.backends).1.map fun _ => [],
        (router, { r with backends := r.backends.written storage id trie })) := by
  rw [run, Action.bind_apply, Action.within_apply, ReadSide.onBackends, Action.within_apply,
    Backends.written]
  rcases Backends.on storage (Storage.saveTrie id trie) r.backends with ⟨e | u, b⟩ <;> rfl

end AuthDict
