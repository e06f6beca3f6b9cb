import AuthDict.Proofs.Dictionary.Holdings

/-!
# Where answers come from

A `Source` names a dictionary, the backend that its queriers read, and the tries that may answer.
If the trie in that backend may answer, then opening, refreshing and asking queriers keeps every
copy they hold among those tries, and so each answer is read off one of them. The backends change
in nothing but the count of their calls.
-/
namespace AuthDict

def Error.IsLookup : Error → Prop
  | lookup .. => True
  | configuration _ => True
  | _ => False

/-- An action of lookups keeps a property of states and returns what has a property of its own. -/
abbrev LooksUp {σ α : Type} (P : σ → Prop) (y : Action σ α) (R : α → Prop) : Prop :=
  Action.Ensures P y R Error.IsLookup

/-- A dictionary, the backend that its queriers read, and the tries that may answer. -/
structure Source where
  id : DictionaryId
  storage : StorageRef
  answers : Trie → Prop

namespace Source

/-- The trie that a backend holds may answer. -/
def Holds (x : Source) (b : Backends) : Prop :=
  x.answers (((b.get x.storage).tries.get? x.id).getD {})

/-- The querier reads the source, and its copy may answer if it answers from a copy. -/
structure Feeds (x : Source) (q : Querier) : Prop where
  id : q.id = x.id
  storage : q.storage = x.storage
  copy : q.mode = .cached → x.answers (q.snapshot.getD {})

structure FeedsPool (x : Source) (p : QuerierPool) : Prop where
  nonempty : p.queriers ≠ []
  feeds : ∀ q ∈ p.queriers, x.Feeds q

def FeedsRouter (x : Source) : Router → Prop
  | .single s => s.storage = x.storage ∧ ∀ q, s.queriers.get? x.id = some q → x.Feeds q
  | .pooled p => p.storage = x.storage

/-- The backends hold what they held at first, and the pool reads the source. -/
structure FeedsReads (x : Source) (first : Backends) (r : ReadSide) : Prop where
  agrees : first.Agrees r.backends
  pool : ∀ p, r.pools.get? x.id = some p → x.FeedsPool p

variable {x : Source} {first : Backends}

theorem load_ensures (h : x.Holds first) {q : Querier} (hid : q.id = x.id)
    (hst : q.storage = x.storage) :
    LooksUp (first.Agrees ·) q.load fun t => x.answers (t.getD {}) := by
  intro b hb
  have hload := Storage.loadTrie_agrees q.id (b.get q.storage)
  simp only [Querier.load, Backends.on_apply]
  rcases hr : Storage.loadTrie q.id (b.get q.storage) with ⟨e | t, s⟩
  · rw [hr] at hload
    obtain ⟨fault, rfl⟩ := Storage.loadTrie_error hr
    exact ⟨hb.trans (Backends.agrees_set hload), by simp, fun _ he => Except.error.inj he ▸ trivial⟩
  · rw [hr] at hload
    refine ⟨hb.trans (Backends.agrees_set hload), fun a ha => ?_, by simp⟩
    obtain rfl := Except.ok.inj ha
    obtain rfl := Storage.loadTrie_ok hr
    rw [hid, hst, (hb x.storage).tries]
    exact h

theorem refresh_ensures (h : x.Holds first) {q : Querier} (hid : q.id = x.id)
    (hst : q.storage = x.storage) :
    LooksUp (first.Agrees ·) q.refresh (x.Feeds ·) := by
  unfold Querier.refresh
  cases hmode : q.mode with
  | direct => exact .pure ⟨hid, hst, fun hc => by simp [hmode] at hc⟩
  | cached => exact (load_ensures h hid hst).bind fun t ht => .pure ⟨hid, hst, fun _ => ht⟩

theorem create_ensures (h : x.Holds first) (index : Nat) (mode : QueryMode) :
    LooksUp (first.Agrees ·) (Querier.create index x.id x.storage mode) (x.Feeds ·) :=
  refresh_ensures h rfl rfl

theorem current_ensures (h : x.Holds first) {q : Querier} (hq : x.Feeds q) :
    LooksUp (first.Agrees ·) q.current fun t => x.answers (t.getD {}) := by
  unfold Querier.current
  cases hmode : q.mode with
  | direct => exact load_ensures h hq.id hq.storage
  | cached => exact .pure (hq.copy hmode)

/-- An asked querier keeps its copy, and its answer is read off a trie that may answer. -/
theorem serve_ensures (h : x.Holds first) :
    LooksUp (fun s : Querier × Backends => x.Feeds s.1 ∧ first.Agrees s.2) Querier.serve
      fun t => x.answers (t.getD {}) := by
  rintro ⟨q, b⟩ ⟨hq, hb⟩
  obtain ⟨hb', hresult⟩ := current_ensures h hq b hb
  exact ⟨⟨⟨hq.id, hq.storage, hq.copy⟩, hb'⟩, hresult⟩

theorem createQueriers_ensures (h : x.Holds first) (mode : QueryMode) (index count : Nat) :
    LooksUp (first.Agrees ·) (QuerierPool.createQueriers x.id x.storage mode index count)
      fun qs => qs.length = count ∧ ∀ q ∈ qs, x.Feeds q := by
  induction count generalizing index with
  | zero => exact .pure ⟨rfl, by simp⟩
  | succ count ih =>
    refine (create_ensures h index mode).bind fun q hq => ?_
    refine (ih (index + 1)).bind fun qs ⟨hlen, hqs⟩ => .pure ⟨?_, ?_⟩
    · rw [List.length_cons, hlen]
    · exact List.forall_mem_cons.2 ⟨hq, hqs⟩

theorem createPool_ensures (h : x.Holds first) (size : Nat) (mode : QueryMode) :
    LooksUp (first.Agrees ·) (QuerierPool.create x.id size x.storage mode)
      (x.FeedsPool ·) := by
  unfold QuerierPool.create
  split
  · exact .fail trivial
  · next hsize =>
    refine (createQueriers_ensures h mode 0 size).bind fun qs ⟨hlen, hqs⟩ => .pure ⟨?_, hqs⟩
    rintro rfl
    exact hsize (.inl hlen.symm)

theorem refreshQueriers_feeds (h : x.Holds first) {qs : List Querier} (hqs : ∀ q ∈ qs, x.Feeds q)
    {b : Backends} (hb : first.Agrees b) :
    (QuerierPool.refreshQueriers qs b).2.1.length = qs.length ∧
      (∀ q ∈ (QuerierPool.refreshQueriers qs b).2.1, x.Feeds q) ∧
      first.Agrees (QuerierPool.refreshQueriers qs b).2.2 := by
  induction qs generalizing b with
  | nil => exact ⟨rfl, hqs, hb⟩
  | cons q qs ih =>
    obtain ⟨hq, hrest⟩ := List.forall_mem_cons.1 hqs
    have hrefresh := refresh_ensures h hq.id hq.storage
    rcases hr : q.refresh b with ⟨e | q', b'⟩
    · simp only [QuerierPool.refreshQueriers, hr]
      exact ⟨trivial, hqs, (hrefresh.of_error hb hr).1⟩
    · obtain ⟨hb', hq'⟩ := hrefresh.of_ok hb hr
      obtain ⟨hlen, hfeeds, hagrees⟩ := ih hrest hb'
      simp only [QuerierPool.refreshQueriers, hr, List.length_cons, hlen]
      exact ⟨trivial, List.forall_mem_cons.2 ⟨hq', hfeeds⟩, hagrees⟩

/-- Of an action on a pool that reads the source, with backends that hold what they held at first. -/
def PoolLooksUp {α : Type} (x : Source) (first : Backends) (p : QuerierPool)
    (y : Action (QuerierPool × Backends) α) (R : α → Prop) : Prop :=
  ∀ b, first.Agrees b → (x.FeedsPool (y (p, b)).2.1 ∧ first.Agrees (y (p, b)).2.2) ∧
    (∀ a, (y (p, b)).1 = .ok a → R a) ∧ ∀ e, (y (p, b)).1 = .error e → e.IsLookup

theorem refreshQueriers_error {qs : List Querier} {b : Backends}
    (h : x.Holds first) (hqs : ∀ q ∈ qs, x.Feeds q) (hb : first.Agrees b) {e : Error}
    (he : (QuerierPool.refreshQueriers qs b).1 = .error e) : e.IsLookup := by
  induction qs generalizing b with
  | nil => simp [QuerierPool.refreshQueriers] at he
  | cons q qs ih =>
    obtain ⟨hq, hrest⟩ := List.forall_mem_cons.1 hqs
    have hrefresh := refresh_ensures h hq.id hq.storage
    rcases hr : q.refresh b with ⟨e' | q', b'⟩
    · simp only [QuerierPool.refreshQueriers, hr] at he
      exact Except.error.inj he ▸ (hrefresh.of_error hb hr).2
    · simp only [QuerierPool.refreshQueriers, hr] at he
      exact ih hrest (hrefresh.of_ok hb hr).1 he

theorem refreshAll_ensures (h : x.Holds first) {p : QuerierPool} (hp : x.FeedsPool p) :
    x.PoolLooksUp first p QuerierPool.refreshAll fun _ => True := by
  intro b hb
  obtain ⟨hlen, hfeeds, hagrees⟩ := refreshQueriers_feeds h hp.feeds hb
  have hne : (QuerierPool.refreshQueriers p.queriers b).2.1 ≠ [] := by
    rw [← List.length_pos_iff, hlen]
    exact List.length_pos_iff.2 hp.nonempty
  exact ⟨⟨⟨hne, hfeeds⟩, hagrees⟩, fun _ _ => trivial,
    fun _ he => refreshQueriers_error h hp.feeds hb he⟩

theorem serveAt_ensures (h : x.Holds first) {p : QuerierPool} (hp : x.FeedsPool p) {place : Nat}
    (hlt : place < p.queriers.length) :
    x.PoolLooksUp first p (QuerierPool.serveAt place) fun t => x.answers (t.getD {}) := by
  intro b hb
  have hget : p.queriers[place]? = some p.queriers[place] := List.getElem?_eq_getElem hlt
  obtain ⟨⟨hq, hb'⟩, hresult⟩ := serve_ensures h (p.queriers[place], b)
    ⟨hp.feeds _ (List.getElem_mem hlt), hb⟩
  simp only [QuerierPool.serveAt, hget]
  refine ⟨⟨⟨?_, fun q hmem => ?_⟩, hb'⟩, hresult⟩
  · simpa using hp.nonempty
  · rcases List.mem_or_eq_of_mem_set hmem with hmem | rfl
    · exact hp.feeds q hmem
    · exact hq

theorem select_lt {p : QuerierPool} (hp : p.queriers ≠ []) (pick : UInt8) :
    p.select pick < p.queriers.length :=
  Nat.mod_lt _ (List.length_pos_iff.2 hp)

theorem onBackends_ensures {α : Type} {y : Action Backends α} {R : α → Prop}
    (hy : LooksUp (first.Agrees ·) y R) :
    LooksUp (x.FeedsReads first) (ReadSide.onBackends y) R := by
  intro r hr
  obtain ⟨hb, hresult⟩ := hy r.backends hr.agrees
  exact ⟨⟨hb, hr.pool⟩, hresult⟩

theorem countRefresh_ensures (id : DictionaryId) (queriers : Nat) :
    LooksUp (x.FeedsReads first) (ReadSide.countRefresh id queriers) fun _ => True :=
  fun _ hr => ⟨⟨hr.agrees, hr.pool⟩, fun _ _ => trivial, by simp [ReadSide.countRefresh, Action.update]⟩

theorem countSelection_ensures (id : DictionaryId) :
    LooksUp (x.FeedsReads first) (ReadSide.countSelection id) fun _ => True :=
  fun _ hr => ⟨⟨hr.agrees, hr.pool⟩, fun _ _ => trivial, by simp [ReadSide.countSelection, Action.update]⟩

theorem FeedsReads.insert {r : ReadSide} {b : Backends} {p : QuerierPool} (hb : first.Agrees b)
    (hp : x.FeedsPool p) :
    x.FeedsReads first { r with backends := b, pools := r.pools.insert x.id p } := by
  refine ⟨hb, fun p' hp' => ?_⟩
  rw [OrderedMap.get?_insert_self] at hp'
  exact Option.some.inj hp' ▸ hp

theorem onPool_ensures {α : Type} {p : QuerierPool} {y : Action (QuerierPool × Backends) α}
    {R : α → Prop} (hy : x.PoolLooksUp first p y R) :
    LooksUp (x.FeedsReads first) (ReadSide.onPool x.id p y) R := by
  intro r hr
  obtain ⟨⟨hp, hb⟩, hresult⟩ := hy r.backends hr.agrees
  exact ⟨.insert hb hp, hresult⟩

theorem refreshPool_ensures (h : x.Holds first) :
    LooksUp (x.FeedsReads first) (ReadSide.refreshPool x.id) fun _ => True := by
  intro r hr
  rw [ReadSide.refreshPool, Action.read_bind]
  cases hget : r.pools.get? x.id with
  | none => exact Action.Ensures.pure trivial r hr
  | some p =>
    have hrefresh := onPool_ensures (refreshAll_ensures h (hr.pool p hget))
    exact hrefresh.bind (fun _ _ => countRefresh_ensures x.id p.queriers.length) r hr

/-- The pool of the dictionary, old or new, reads the source. -/
theorem pool_ensures (h : x.Holds first) {s : PooledRouter} (hs : s.storage = x.storage) :
    LooksUp (x.FeedsReads first) (s.pool x.id) (x.FeedsPool ·) := by
  intro r hr
  rw [PooledRouter.pool, Action.read_bind]
  cases hget : r.pools.get? x.id with
  | some p => exact Action.Ensures.pure (hr.pool p hget) r hr
  | none =>
    rw [hs]
    refine (onBackends_ensures (createPool_ensures h s.size s.mode)).bind (fun p hp => ?_) r hr
    intro r hr
    exact Action.Ensures.pure hp _ (FeedsReads.insert hr.agrees hp)

theorem servePooled_ensures (h : x.Holds first) {s : PooledRouter} (hs : s.storage = x.storage)
    (pick : UInt8) :
    LooksUp (x.FeedsReads first) (s.serve x.id pick) fun t => x.answers (t.getD {}) := by
  unfold PooledRouter.serve
  refine (pool_ensures h hs).bind fun p hp => ?_
  refine (countSelection_ensures x.id).bind fun _ _ => ?_
  exact onPool_ensures (serveAt_ensures h hp (select_lt hp.nonempty pick))

def FeedsSingle (x : Source) (first : Backends) (s : SingleRouter × ReadSide) : Prop :=
  x.FeedsRouter (.single s.1) ∧ x.FeedsReads first s.2

theorem FeedsSingle.insert {s : SingleRouter} {r : ReadSide} {q : Querier}
    (hs : s.storage = x.storage) (hr : x.FeedsReads first r) (hq : x.Feeds q) :
    x.FeedsSingle first ({ s with queriers := s.queriers.insert x.id q }, r) := by
  refine ⟨⟨hs, fun q' hq' => ?_⟩, hr⟩
  rw [OrderedMap.get?_insert_self] at hq'
  exact Option.some.inj hq' ▸ hq

theorem querier_ensures (h : x.Holds first) :
    LooksUp (x.FeedsSingle first) (SingleRouter.querier x.id) (x.Feeds ·) := by
  rintro ⟨⟨storage, mode, queriers⟩, r⟩ ⟨⟨hst, hqs⟩, hr⟩
  obtain rfl : storage = x.storage := hst
  cases hget : queriers.get? x.id with
  | some q =>
    simp only [SingleRouter.querier, hget]
    exact ⟨⟨⟨rfl, hqs⟩, hr⟩, fun _ ha => Except.ok.inj ha ▸ hqs q hget, by simp⟩
  | none =>
    have hcreate := onBackends_ensures (create_ensures h 0 mode) (x := x)
    simp only [SingleRouter.querier, hget]
    rcases hc : ReadSide.onBackends (Querier.create 0 x.id x.storage mode) r with ⟨e | q, r'⟩
    · obtain ⟨hr', he⟩ := hcreate.of_error hr hc
      exact ⟨⟨⟨rfl, hqs⟩, hr'⟩, by simp, fun _ h => Except.error.inj h ▸ he⟩
    · obtain ⟨hr', hq⟩ := hcreate.of_ok hr hc
      exact ⟨.insert (s := ⟨x.storage, mode, queriers⟩) rfl hr' hq,
        fun _ ha => Except.ok.inj ha ▸ hq, by simp⟩

theorem serveSingle_ensures (h : x.Holds first) :
    LooksUp (x.FeedsSingle first) (SingleRouter.serve x.id)
      fun t => x.answers (t.getD {}) := by
  refine (querier_ensures h).bind fun q hq => ?_
  rintro ⟨s, r⟩ ⟨⟨hst, -⟩, hr⟩
  obtain ⟨⟨hq', hb⟩, hresult⟩ := serve_ensures h (q, r.backends) ⟨hq, hr.agrees⟩
  exact ⟨.insert hst ⟨hb, hr.pool⟩ hq', hresult⟩

theorem checkSingle_ensures (h : x.Holds first) :
    LooksUp (x.FeedsSingle first) (SingleRouter.checkForUpdate x.id) fun _ => True := by
  rintro ⟨s, r⟩ ⟨⟨hst, hqs⟩, hr⟩
  cases hget : s.queriers.get? x.id with
  | none =>
    simp only [SingleRouter.checkForUpdate, hget]
    exact ⟨⟨⟨hst, hqs⟩, hr⟩, fun _ _ => trivial, by simp⟩
  | some q =>
    have hq := hqs q hget
    have hrefresh := onBackends_ensures (refresh_ensures h hq.id hq.storage) (x := x)
    simp only [SingleRouter.checkForUpdate, hget]
    rcases hc : ReadSide.onBackends q.refresh r with ⟨e | q', r'⟩
    · obtain ⟨hr', he⟩ := hrefresh.of_error hr hc
      exact ⟨⟨⟨hst, hqs⟩, hr'⟩, fun _ _ => trivial, fun _ h => Except.error.inj h ▸ he⟩
    · obtain ⟨hr', hq'⟩ := hrefresh.of_ok hr hc
      exact ⟨.insert hst hr' hq', fun _ _ => trivial, by simp⟩

def FeedsLookups (x : Source) (first : Backends) (s : Router × ReadSide) : Prop :=
  x.FeedsRouter s.1 ∧ x.FeedsReads first s.2

theorem run_ensures {α : Type} {onSingle : Action (SingleRouter × ReadSide) α}
    {onPooled : PooledRouter → Action ReadSide α} {R : α → Prop}
    (hsingle : LooksUp (x.FeedsSingle first) onSingle R)
    (hpooled : ∀ p, p.storage = x.storage → LooksUp (x.FeedsReads first) (onPooled p) R) :
    LooksUp (x.FeedsLookups first) (Router.run onSingle onPooled) R := by
  rintro ⟨router, r⟩ ⟨hrouter, hr⟩
  cases router with
  | single s => exact hsingle (s, r) ⟨hrouter, hr⟩
  | pooled p =>
    obtain ⟨hr', hresult⟩ := hpooled p hrouter r hr
    exact ⟨⟨hrouter, hr'⟩, hresult⟩

/-- Every lookup is answered from a trie that may answer. -/
theorem serveRouter_ensures (h : x.Holds first) (pick : UInt8) :
    LooksUp (x.FeedsLookups first) (Router.serve x.id pick)
      fun t => x.answers (t.getD {}) :=
  run_ensures (serveSingle_ensures h) fun _ hp => servePooled_ensures h hp pick

theorem lookup_ensures (h : x.Holds first) (label : Label) (pick : UInt8) :
    LooksUp (x.FeedsLookups first) (Router.lookup x.id label pick)
      fun path => ∃ t : Option Trie, x.answers (t.getD {}) ∧ path = Querier.answer t label :=
  (serveRouter_ensures h pick).bind fun t ht => .pure ⟨t, ht, rfl⟩

theorem lookupMany_ensures (h : x.Holds first) (labels : List Label) (pick : UInt8) :
    LooksUp (x.FeedsLookups first) (Router.lookupMany x.id labels pick)
      fun paths => ∃ t : Option Trie, x.answers (t.getD {}) ∧
        paths = labels.map (Querier.answer t) :=
  (serveRouter_ensures h pick).bind fun t ht => .pure ⟨t, ht, rfl⟩

theorem checkForUpdate_ensures (h : x.Holds first) :
    LooksUp (x.FeedsLookups first) (Router.checkForUpdate x.id) fun _ => True :=
  run_ensures (checkSingle_ensures h) fun _ _ => refreshPool_ensures h

end Source

end AuthDict
