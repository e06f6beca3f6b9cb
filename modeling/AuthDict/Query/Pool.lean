import AuthDict.Query.Querier

/-!
# Querier pools

A pool holds a fixed number of queriers of one dictionary, and each lookup call goes to one of
them, picked by a random byte. A refresh of the pool goes through the queriers in order and stops
at the first that fails.
-/
namespace AuthDict

structure QuerierPool where
  id : DictionaryId
  queriers : List Querier

abbrev PoolTable := OrderedMap DictionaryId QuerierPool

namespace QuerierPool

def createQueriers (id : DictionaryId) (storage : StorageRef) (mode : QueryMode) (index : Nat) :
    Nat → Action Backends (List Querier)
  | 0 => pure []
  | count + 1 => do
    return (← Querier.create index id storage mode)
      :: (← createQueriers id storage mode (index + 1) count)

def create (id : DictionaryId) (size : Nat) (storage : StorageRef) (mode : QueryMode) :
    Action Backends QuerierPool :=
  if size = 0 ∨ maxPoolSize < size then .fail (.configuration (.querierCount size)) else do
    return ⟨id, ← createQueriers id storage mode 0 size⟩

/-- The place of the querier that a random byte picks. -/
def select (p : QuerierPool) (pick : UInt8) : Nat := pick.toNat % p.queriers.length

/-- Refreshes queriers until one fails; those after it stay as they were. -/
def refreshQueriers : List Querier → Backends → Except Error Unit × List Querier × Backends
  | [], b => (.ok (), [], b)
  | q :: qs, b =>
    match q.refresh b with
    | (.error e, b) => (.error e, q :: qs, b)
    | (.ok q', b) =>
      let (r, qs', b) := refreshQueriers qs b
      (r, q' :: qs', b)

def refreshAll : Action (QuerierPool × Backends) Unit := fun (p, b) =>
  let (r, queriers, b) := refreshQueriers p.queriers b
  (r, ({ p with queriers }, b))

/-- The trie that answers a lookup call of the querier in a given place. -/
def serveAt (place : Nat) : Action (QuerierPool × Backends) (Option Trie) := fun (p, b) =>
  match p.queriers[place]? with
  | none => (.ok none, (p, b))
  | some q =>
    let (r, (q, b)) := Querier.serve (q, b)
    (r, ({ p with queriers := p.queriers.set place q }, b))

end QuerierPool

end AuthDict
