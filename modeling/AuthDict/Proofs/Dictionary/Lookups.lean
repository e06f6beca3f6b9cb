import AuthDict.Proofs.Dictionary.Queries
import AuthDict.Proofs.Label.Recency
import AuthDict.Proofs.OrderedMap

/-!
# Queries by what they read

What a query returns depends on two things that it reads: the trie that serves its lookup, and the
stored element of its key. The cache only saves the derivation of a label, and it does not matter
which querier serves the lookup, or whether it has been opened before.
-/
namespace AuthDict

namespace Router

/-- Opens the querier or the pool that the lookups of a dictionary go to, unless there is one. -/
def ensureOpen (id : DictionaryId) : Action (Router × ReadSide) Unit :=
  run (do let _ ← SingleRouter.querier id) fun p => do let _ ← p.pool id

end Router

/-- An action that finds again what it has returned need not be done twice. -/
theorem Action.bind_again {σ α β : Type} {x : Action σ α}
    (hx : ∀ {st st' : σ} {a : α}, x st = (.ok a, st') → x st' = (.ok a, st'))
    (f : α → Action σ β) : (x >>= fun _ => x >>= f) = x >>= f := by
  funext st
  rcases h : x st with ⟨e | a, st'⟩
  · rw [bind_error h, bind_error h]
  · rw [bind_ok h, bind_ok h, bind_ok (hx h)]

theorem SingleRouter.querier_again {id : DictionaryId} {st st' : SingleRouter × ReadSide}
    {q : Querier} (h : querier id st = (.ok q, st')) : querier id st' = (.ok q, st') := by
  obtain ⟨s, r⟩ := st
  cases hget : s.queriers.get? id with
  | some found =>
    simp only [querier, hget] at h
    obtain ⟨hq, rfl⟩ := Prod.mk.inj h
    simp only [querier, hget, hq]
  | none =>
    rcases hcreate : ReadSide.onBackends (Querier.create 0 id s.storage s.mode) r with ⟨e | q', r'⟩
    · simp only [querier, hget, hcreate] at h
      simp at h
    · simp only [querier, hget, hcreate] at h
      obtain ⟨hq, rfl⟩ := Prod.mk.inj h
      simp only [querier, OrderedMap.get?_insert_self, hq]

theorem PooledRouter.pool_again {s : PooledRouter} {id : DictionaryId} {r r' : ReadSide}
    {p : QuerierPool} (h : s.pool id r = (.ok p, r')) : s.pool id r' = (.ok p, r') := by
  rw [pool, Action.read_bind] at h
  cases hget : r.pools.get? id with
  | some found =>
    rw [hget] at h
    obtain ⟨hp, rfl⟩ := Prod.mk.inj h
    rw [pool, Action.read_bind, hget]
    exact Prod.ext hp rfl
  | none =>
    rw [hget] at h
    rcases Action.bind_cases h with ⟨e, -, he⟩ | ⟨p', r₁, -, h⟩
    · contradiction
    · obtain ⟨hp, rfl⟩ := Prod.mk.inj h
      rw [pool, Action.read_bind, OrderedMap.get?_insert_self]
      exact Prod.ext hp rfl

namespace Router

variable {α β : Type}

theorem run_bind (x : Action (SingleRouter × ReadSide) α) (f : PooledRouter → Action ReadSide α)
    (y : α → Action (SingleRouter × ReadSide) β) (g : α → PooledRouter → Action ReadSide β) :
    (run x f >>= fun a => run (y a) (g a)) = run (x >>= y) fun p => f p >>= (g · p) := by
  funext ⟨router, r⟩
  cases router with
  | single s => rcases hx : x (s, r) with ⟨e | a, s', r'⟩ <;> simp only [run, Action.bind_apply, hx]
  | pooled p => rcases hf : f p r with ⟨e | a, r'⟩ <;> simp only [run, Action.bind_apply, hf]

/-- A lookup opens nothing if that was done just before. -/
theorem ensureOpen_serve (id : DictionaryId) (pick : UInt8) :
    (ensureOpen id >>= fun _ => serve id pick) = serve id pick := by
  have hsingle : (SingleRouter.querier id >>= fun _ => SingleRouter.serve id) =
      SingleRouter.serve id := Action.bind_again SingleRouter.querier_again _
  have hpooled (p : PooledRouter) : (p.pool id >>= fun _ => p.serve id pick) = p.serve id pick :=
    Action.bind_again PooledRouter.pool_again _
  simp only [ensureOpen, serve, run_bind, bind_assoc, pure_bind, hsingle, hpooled]

end Router

namespace Service

variable {ref : RegistryRef} {r r' : ReadSide} {s : Service}

theorem readSide_setReadSide : (s.setReadSide ref r).readSide ref = r := by
  simp only [setReadSide, readSide, setRegistry, registry, OrderedMap.get?_insert_self,
    Option.getD_some]

theorem setReadSide_setReadSide :
    (s.setReadSide ref r).setReadSide ref r' = s.setReadSide ref r' := by
  simp only [setReadSide, setRegistry, registry, OrderedMap.get?_insert_self,
    OrderedMap.insert_insert, Option.getD_some]

end Service

namespace Dictionary

open Service

variable {α β : Type} {d : Dictionary} {t : Option Trie} {key : Bytes} {s : Service}

theorem onRouter_apply (x : DictionaryId → Action (Router × ReadSide) α) (d : Dictionary)
    (s : Service) : onRouter x (d, s) =
      ((x d.id (d.router, s.readSide d.registry)).1,
        { d with router := (x d.id (d.router, s.readSide d.registry)).2.1 },
        s.setReadSide d.registry (x d.id (d.router, s.readSide d.registry)).2.2) := rfl

theorem onRouter_bind (x : DictionaryId → Action (Router × ReadSide) α)
    (f : α → DictionaryId → Action (Router × ReadSide) β) :
    onRouter (fun id => x id >>= fun a => f a id) = (onRouter x >>= fun a => onRouter (f a)) := by
  funext ⟨d, s⟩
  rcases hx : x d.id (d.router, s.readSide d.registry) with ⟨e | a, router, r⟩
  · simp only [Action.bind_apply, onRouter_apply, hx]
  · simp only [Action.bind_apply, onRouter_apply, hx, readSide_setReadSide,
      setReadSide_setReadSide]

theorem deriveLabel_of_sound (h : d.cache.Sound d.secret) (key : Bytes) (s : Service) :
    deriveLabel key (d, s) =
      (.ok (d.secret.derive key), ({ d with cache := (d.cache.derive d.secret key).2 }, s)) :=
  Prod.ext (congrArg Except.ok (h.derive_fst key)) rfl

/-- A lookup of one label or of several makes something of the trie that answers it. -/
theorem onRouter_serve_map (f : Option Trie → α) (pick : UInt8) (st : Dictionary × Service) :
    onRouter (fun id => do return f (← Router.serve id pick)) st =
      ((onRouter (Router.serve · pick) st).1.map f, (onRouter (Router.serve · pick) st).2) := by
  obtain ⟨d, s⟩ := st
  rcases hx : Router.serve d.id pick (d.router, s.readSide d.registry) with ⟨e | t, router, r⟩
  · simp only [onRouter_apply, Action.bind_error hx, hx, Except.map]
  · simp only [onRouter_apply, Action.bind_ok hx, hx, Except.map, Action.pure_apply]

/-- The stored element of a key, as a query reads it. -/
def readElement (d : Dictionary) (key : Bytes) (s : Service) : Except Error (Option StoredElement) :=
  (onStorage d.queryStorage (Storage.loadElement d.id key) s).1

/-- A key is resolved from the element that is read and from nothing else of the service. -/
theorem resolve_fst (key : Bytes) (path : LookupPath) (proof : Option LabelProof) (d : Dictionary)
    (s : Service) : (resolve key path proof d s).1 =
      if path.isMember then (d.readElement key s).bind fun
        | some element => .ok (.member element.payload element.randomness path proof)
        | none => .error (.missingElement path.label d.id)
      else .ok (.absent path proof) := by
  unfold resolve
  cases path.isMember with
  | false => rfl
  | true =>
    simp only [if_true, readElement, Action.bind_apply]
    rcases onStorage d.queryStorage (Storage.loadElement d.id key) s with ⟨e | found, s'⟩
    · rfl
    · cases found <;> rfl

/-- The answer for a key in a trie, with the element that a service holds. -/
def resolvedIn (d : Dictionary) (t : Option Trie) (key : Bytes) (s : Service) :
    Except Error Answer :=
  (resolve key (Querier.answer t (d.secret.label key)) (d.secret.derive key).proof d s).1

/-- A query that finds the handle and the service in some state is answered from a trie, and reads
for its key what is read from another service. -/
structure QueryReads (d : Dictionary) (t : Option Trie) (key : Bytes) (s : Service) (pick : UInt8)
    (d' : Dictionary) (s' : Service) : Prop where
  same : d' = { d with cache := d'.cache, router := d'.router }
  cache : d'.cache.Reached d.secret
  serve : (onRouter (Router.serve · pick) (d', s')).1 = .ok t
  element : d.readElement key (onRouter (Router.serve · pick) (d', s')).2.2 = d.readElement key s

/-- The result of every query of a key that is answered from a trie and reads what is read from a
service. There are such queries. -/
structure QueryReturns (d : Dictionary) (t : Option Trie) (key : Bytes) (s : Service)
    (r : Except Error Answer) : Prop where
  possible : ∃ pick d' s', QueryReads d t key s pick d' s'
  result : ∀ {pick d' s'}, QueryReads d t key s pick d' s' → (query key pick (d', s')).1 = r

theorem QueryReads.query_fst {pick : UInt8} {d' : Dictionary} {s' : Service}
    (h : QueryReads d t key s pick d' s') : (query key pick (d', s')).1 = d.resolvedIn t key s := by
  obtain ⟨cache, router, rfl⟩ : ∃ cache router, d' = { d with cache, router } := ⟨_, _, h.same⟩
  have hderive := deriveLabel_of_sound h.cache.sound key s'
  -- deriving the label changes the cache alone, which the lookup does not see
  rcases hserve : Router.serve d.id pick (router, s'.readSide d.registry) with ⟨r, router', rs⟩
  have hok : r = .ok t := by
    have hserved := h.serve
    rwa [onRouter_apply, hserve] at hserved
  have helement : d.readElement key (s'.setReadSide d.registry rs) = d.readElement key s := by
    have hread := h.element
    rwa [onRouter_apply, hserve] at hread
  have hlookup : onRouter (Router.lookup · (d.secret.derive key).label pick)
      ({ d with cache := (cache.derive d.secret key).2, router }, s') =
        (.ok (Querier.answer t (d.secret.label key)),
          ({ d with cache := (cache.derive d.secret key).2, router := router' },
            s'.setReadSide d.registry rs)) := by
    rw [LabelSecret.label_derive]
    refine (onRouter_serve_map (Querier.answer · (d.secret.label key)) pick _).trans ?_
    rw [onRouter_apply, hserve, hok]
    rfl
  rw [query, Action.bind_ok hderive, Action.bind_ok hlookup, resolvedIn, resolve_fst, ← helement,
    ← resolve_fst]
  rfl

/-- What a query returns that is answered from a trie and reads what a service holds. A cached querier
may have any trie, so there is such a query. -/
theorem queryReturns_resolvedIn (hcache : d.cache.Reached d.secret) (t : Option Trie) (key : Bytes)
    (s : Service) : QueryReturns d t key s (d.resolvedIn t key s) where
  possible := by
    let q : Querier :=
      { index := 0, id := d.id, storage := d.queryStorage, mode := .cached, snapshot := t }
    let router : SingleRouter :=
      { storage := d.queryStorage, mode := .cached
        queriers := (∅ : OrderedMap DictionaryId Querier).insert d.id q }
    have hquerier : SingleRouter.querier d.id (router, s.readSide d.registry) =
        (.ok q, (router, s.readSide d.registry)) := by
      simp only [SingleRouter.querier, router, OrderedMap.get?_insert_self]
    obtain ⟨router', hsingle⟩ : ∃ router', SingleRouter.serve d.id (router, s.readSide d.registry) =
        (.ok t, (router', s.readSide d.registry)) := ⟨_, Action.bind_ok hquerier _⟩
    have hserve : Router.serve d.id 0 (.single router, s.readSide d.registry) =
        (.ok t, .single router', s.readSide d.registry) := by
      simp only [Router.serve, Router.run, hsingle]
    refine ⟨0, { d with router := .single router }, s, rfl, hcache, ?_, ?_⟩
    · rw [onRouter_apply, hserve]
    · rw [onRouter_apply, hserve]
      rfl
  result h := h.query_fst

end Dictionary

end AuthDict
