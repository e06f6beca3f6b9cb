import AuthDict.Query.Pool

/-!
# Routers

A router answers the lookups of a dictionary. The single router keeps one querier for each
dictionary to itself; the pooled router spreads lookups over a pool, which it shares with every
other router on the same table. Queriers and pools are opened at the first lookup.
-/
namespace AuthDict

/-- What lookups work on. -/
structure ReadSide where
  backends : Backends
  pools : PoolTable
  metrics : Metrics

namespace ReadSide

def onBackends {α : Type} (x : Action Backends α) : Action ReadSide α :=
  Action.within (·.backends) (fun b r => { r with backends := b }) x

def onPool {α : Type} (id : DictionaryId) (p : QuerierPool) (x : Action (QuerierPool × Backends) α) :
    Action ReadSide α :=
  Action.within (fun r => (p, r.backends))
    (fun (p, b) r => { r with backends := b, pools := r.pools.insert id p }) x

def countRefresh (id : DictionaryId) (queriers : Nat) : Action ReadSide Unit :=
  .update fun r => { r with metrics := r.metrics.add id .querierRefreshes queriers }

def countSelection (id : DictionaryId) : Action ReadSide Unit :=
  .update fun r => { r with metrics := r.metrics.add id .querierSelections 1 }

/-- Refreshes every querier of the pool of a dictionary, if there is one. -/
def refreshPool (id : DictionaryId) : Action ReadSide Unit := do
  match ← Action.read (·.pools.get? id) with
  | none => return ()
  | some p =>
    onPool id p QuerierPool.refreshAll
    countRefresh id p.queriers.length

end ReadSide

/-- A router with one querier for each dictionary. -/
structure SingleRouter where
  storage : StorageRef
  mode : QueryMode
  queriers : OrderedMap DictionaryId Querier := ∅

/-- A router over a shared table of pools. -/
structure PooledRouter where
  storage : StorageRef
  mode : QueryMode
  size : Nat

namespace SingleRouter

/-- The querier of a dictionary, opened if there is none. -/
def querier (id : DictionaryId) : Action (SingleRouter × ReadSide) Querier := fun (s, r) =>
  match s.queriers.get? id with
  | some q => (.ok q, (s, r))
  | none =>
    match ReadSide.onBackends (Querier.create 0 id s.storage s.mode) r with
    | (.ok q, r) => (.ok q, ({ s with queriers := s.queriers.insert id q }, r))
    | (.error e, r) => (.error e, (s, r))

def serve (id : DictionaryId) : Action (SingleRouter × ReadSide) (Option Trie) := do
  let q ← querier id
  fun (s, r) =>
    let (t, (q, backends)) := Querier.serve (q, r.backends)
    (t, ({ s with queriers := s.queriers.insert id q }, { r with backends }))

def checkForUpdate (id : DictionaryId) : Action (SingleRouter × ReadSide) Unit := fun (s, r) =>
  match s.queriers.get? id with
  | none => (.ok (), (s, r))
  | some q =>
    match ReadSide.onBackends q.refresh r with
    | (.ok q, r) => (.ok (), ({ s with queriers := s.queriers.insert id q }, r))
    | (.error e, r) => (.error e, (s, r))

end SingleRouter

namespace PooledRouter

/-- The pool of a dictionary, opened if there is none. A pool that another router opened is used
as it is. -/
def pool (s : PooledRouter) (id : DictionaryId) : Action ReadSide QuerierPool := do
  match ← Action.read (·.pools.get? id) with
  | some p => return p
  | none =>
    let p ← ReadSide.onBackends (QuerierPool.create id s.size s.storage s.mode)
    Action.update fun r => { r with pools := r.pools.insert id p }
    return p

def serve (s : PooledRouter) (id : DictionaryId) (pick : UInt8) : Action ReadSide (Option Trie) := do
  let p ← s.pool id
  ReadSide.countSelection id
  ReadSide.onPool id p (QuerierPool.serveAt (p.select pick))

end PooledRouter

inductive Router where
  | single (router : SingleRouter)
  | pooled (router : PooledRouter)

namespace Router

def name : Router → String
  | single _ => "single"
  | pooled _ => "pooled"

def run {α : Type} (onSingle : Action (SingleRouter × ReadSide) α)
    (onPooled : PooledRouter → Action ReadSide α) : Action (Router × ReadSide) α := fun (router, r) =>
  match router with
  | single s =>
    let (a, (s, r)) := onSingle (s, r)
    (a, (single s, r))
  | pooled p =>
    let (a, r) := onPooled p r
    (a, (router, r))

/-- Counts a lookup call and returns the trie that answers it. The byte picks a querier of a
pool. -/
def serve (id : DictionaryId) (pick : UInt8) : Action (Router × ReadSide) (Option Trie) :=
  run (SingleRouter.serve id) (PooledRouter.serve · id pick)

def lookup (id : DictionaryId) (label : Label) (pick : UInt8) :
    Action (Router × ReadSide) LookupPath := do
  return Querier.answer (← serve id pick) label

def lookupMany (id : DictionaryId) (labels : List Label) (pick : UInt8) :
    Action (Router × ReadSide) (List LookupPath) := do
  return labels.map (Querier.answer (← serve id pick))

/-- Brings the queriers of a dictionary up to the stored trie. -/
def checkForUpdate (id : DictionaryId) : Action (Router × ReadSide) Unit :=
  run (SingleRouter.checkForUpdate id) fun _ => ReadSide.refreshPool id

end Router

end AuthDict
