import AuthDict.Proofs.Query.Requests

/-!
# One querier or a pool

A pooled router that has its table to itself gives the same answers as a single router over the same
backend, whatever bytes pick the queriers, as long as no trie load fails. Both open what they need at
the first lookup of a dictionary, and from then on the pool shows the view that the querier has
(`Matched`). Every request keeps the two matched.
-/
namespace AuthDict

/-- The answers to some requests, one after the other. -/
def Router.answers : List Request → Router × ReadSide → List (Except Error (List LookupPath))
  | [], _ => []
  | q :: qs, st => (q.run st).1 :: answers qs (q.run st).2

namespace SingleRouter

variable {s : SingleRouter} {r : ReadSide} {id : DictionaryId} {v : View} {q : Querier}

/-- A request about one dictionary: its querier has a view afterwards, and nothing else has changed
that a lookup depends on. -/
structure ShowsFrom (s : SingleRouter) (r : ReadSide) (id : DictionaryId) (v : View)
    (s' : SingleRouter) (r' : ReadSide) : Prop where
  storage : s'.storage = s.storage
  mode : s'.mode = s.mode
  backends : r.backends.SameButLoads r'.backends
  querier : ∃ q, s'.queriers.get? id = some q ∧ v.Shows id q
  others : ∀ id', id' ≠ id → s'.queriers.get? id' = s.queriers.get? id'

/-- The lookup that follows once there is a querier. -/
theorem serve_of_querier {r₁ : ReadSide} {s₁ : SingleRouter}
    (hquerier : querier id (s, r) = (.ok q, (s₁, r₁))) (hq : v.Shows id q)
    (hr : r.backends.Readable) (hback : r.backends.SameButLoads r₁.backends)
    (hstorage : s₁.storage = s.storage) (hmode : s₁.mode = s.mode)
    (hothers : ∀ id', id' ≠ id → s₁.queriers.get? id' = s.queriers.get? id') :
    ∃ s' r', serve id (s, r) = (.ok (v.trie id r.backends), (s', r')) ∧ s.ShowsFrom r id v s' r' := by
  obtain ⟨q', b', hserve, hq', hb'⟩ := hq.serve hr hback
  have hrun : serve id (s, r) = (.ok (v.trie id r.backends),
      ({ s₁ with queriers := s₁.queriers.insert id q' }, { r₁ with backends := b' })) := by
    refine (Action.bind_ok hquerier _).trans ?_
    simp only [hserve]
  refine ⟨_, _, hrun, hstorage, hmode, hb', ⟨q', OrderedMap.get?_insert_self .., hq'⟩, ?_⟩
  intro id' hne
  exact (OrderedMap.get?_insert_of_ne _ _ hne).trans (hothers id' hne)

theorem serve_of_shows (hget : s.queriers.get? id = some q) (hq : v.Shows id q)
    (hr : r.backends.Readable) :
    ∃ s' r', serve id (s, r) = (.ok (v.trie id r.backends), (s', r')) ∧ s.ShowsFrom r id v s' r' := by
  have hquerier : querier id (s, r) = (.ok q, (s, r)) := by
    simp only [querier, hget]
  exact serve_of_querier hquerier hq hr (.refl _) rfl rfl fun _ _ => rfl

theorem serve_of_none (hget : s.queriers.get? id = none) (hr : r.backends.Readable) :
    ∃ s' r', serve id (s, r) = (.ok (r.backends.held s.storage id), (s', r')) ∧
      s.ShowsFrom r id (.opened s.storage s.mode id r.backends) s' r' := by
  obtain ⟨q, b', hcreate, hb', hq⟩ :=
    (View.create_reads hr 0 id s.storage s.mode).exists_ok (.refl _)
  have hquerier : querier id (s, r) =
      (.ok q, ({ s with queriers := s.queriers.insert id q }, { r with backends := b' })) := by
    simp only [querier, hget, ReadSide.onBackends, Action.within_apply, hcreate]
  have hserve := serve_of_querier hquerier hq hr hb' rfl rfl
    fun id' hne => OrderedMap.get?_insert_of_ne _ _ hne
  rwa [(View.current_opened s.storage s.mode id r.backends).trie_eq] at hserve

theorem checkForUpdate_of_shows (hget : s.queriers.get? id = some q) (hq : v.Shows id q)
    (hr : r.backends.Readable) :
    ∃ s' r', checkForUpdate id (s, r) = (.ok (), (s', r')) ∧
      s.ShowsFrom r id (v.reloaded id r.backends) s' r' := by
  obtain ⟨q', b', hrefresh, hb', hq'⟩ :=
    (View.refresh_reads hr hq.id hq.storage hq.mode).exists_ok (.refl _)
  have hrun : checkForUpdate id (s, r) =
      (.ok (), ({ s with queriers := s.queriers.insert id q' }, { r with backends := b' })) := by
    simp only [checkForUpdate, hget, ReadSide.onBackends, Action.within_apply, hrefresh]
  exact ⟨_, _, hrun, rfl, rfl, hb', ⟨q', OrderedMap.get?_insert_self .., hq'⟩,
    fun id' hne => OrderedMap.get?_insert_of_ne _ _ hne⟩

theorem checkForUpdate_of_none (hget : s.queriers.get? id = none) :
    checkForUpdate id (s, r) = (.ok (), (s, r)) := by
  simp only [checkForUpdate, hget]

end SingleRouter

namespace Router

/-- The pool of a dictionary shows the view of its querier, or there is neither. -/
inductive Matched (id : DictionaryId) : Option Querier → Option QuerierPool → Prop
  | absent : Matched id none none
  | present {v : View} {q : Querier} {p : QuerierPool} : v.Shows id q → v.ShowsPool id p →
      Matched id (some q) (some p)

structure Paired (s : SingleRouter) (r : ReadSide) (p : PooledRouter) (t : ReadSide) : Prop where
  storage : s.storage = p.storage
  mode : s.mode = p.mode
  canOpen : p.CanOpen
  readable : r.backends.Readable
  backends : r.backends.SameButLoads t.backends
  matched : ∀ id, Matched id (s.queriers.get? id) (t.pools.get? id)

variable {s s' : SingleRouter} {r r' t t' : ReadSide} {p : PooledRouter} {id : DictionaryId}
  {v : View}

/-- What shows one view on both sides is matched again. -/
theorem Paired.of_showsFrom (h : Paired s r p t) (hs : s.ShowsFrom r id v s' r')
    (hp : t.ShowsFrom id v t') : Paired s' r' p t' := by
  refine ⟨hs.storage.trans h.storage, hs.mode.trans h.mode, h.canOpen,
    hs.backends.readable h.readable,
    hs.backends.symm.trans (h.backends.trans hp.backends), fun id' => ?_⟩
  by_cases hid : id' = id
  · subst hid
    obtain ⟨q, hq, hshows⟩ := hs.querier
    obtain ⟨p, hp, hpool⟩ := hp.pool
    rw [hq, hp]
    exact .present hshows hpool
  · rw [hs.others id' hid, hp.others id' hid]
    exact h.matched id'

/-- Both serve the same trie, whatever querier of the pool is picked. -/
theorem Paired.serve (h : Paired s r p t) (id : DictionaryId) (pick : UInt8) :
    ∃ trie s' r' t', SingleRouter.serve id (s, r) = (.ok trie, (s', r')) ∧
      p.serve id pick t = (.ok trie, t') ∧ Paired s' r' p t' := by
  have hread := h.backends.readable h.readable
  have hheld := h.backends.held_eq
  have hmatched := h.matched id
  generalize hq : s.queriers.get? id = querier at hmatched
  generalize hp : t.pools.get? id = pool at hmatched
  cases hmatched with
  | absent =>
    obtain ⟨s', r', hsingle, hs⟩ := SingleRouter.serve_of_none hq h.readable
    obtain ⟨t', hpooled, ht⟩ := p.serve_of_none hp h.canOpen hread pick
    have hview : View.opened p.storage p.mode id t.backends =
        .opened s.storage s.mode id r.backends := by
      rw [View.opened, View.opened, hheld, h.storage, h.mode]
    rw [hheld, ← h.storage] at hpooled
    exact ⟨_, s', r', t', hsingle, hpooled, h.of_showsFrom hs (hview ▸ ht)⟩
  | @present v q pool hshows hpool =>
    obtain ⟨s', r', hsingle, hs⟩ := SingleRouter.serve_of_shows hq hshows h.readable
    obtain ⟨t', hpooled, ht⟩ := PooledRouter.serve_of_shows hp hpool hread p pick
    have htrie : v.trie id t.backends = v.trie id r.backends := by
      rw [View.trie, View.trie, hheld]
    rw [htrie] at hpooled
    exact ⟨_, s', r', t', hsingle, hpooled, h.of_showsFrom hs ht⟩

theorem Paired.checkForUpdate (h : Paired s r p t) (id : DictionaryId) :
    ∃ s' r' t', SingleRouter.checkForUpdate id (s, r) = (.ok (), (s', r')) ∧
      ReadSide.refreshPool id t = (.ok (), t') ∧ Paired s' r' p t' := by
  have hread := h.backends.readable h.readable
  have hmatched := h.matched id
  generalize hq : s.queriers.get? id = querier at hmatched
  generalize hp : t.pools.get? id = pool at hmatched
  cases hmatched with
  | absent =>
    exact ⟨s, r, t, SingleRouter.checkForUpdate_of_none hq, ReadSide.refreshPool_of_none hp, h⟩
  | @present v q pool hshows hpool =>
    obtain ⟨s', r', hsingle, hs⟩ := SingleRouter.checkForUpdate_of_shows hq hshows h.readable
    obtain ⟨t', hpooled, ht⟩ := ReadSide.refreshPool_of_shows hp hpool hread
    have hview : v.reloaded id t.backends = v.reloaded id r.backends := by
      rw [View.reloaded, View.reloaded, h.backends.held_eq]
    exact ⟨s', r', t', hsingle, hpooled, h.of_showsFrom hs (hview ▸ ht)⟩

/-- Every request is answered alike and keeps the two sides paired. -/
theorem Paired.run (h : Paired s r p t) (q : Request) :
    ∃ answer s' r' t', q.run (.single s, r) = (answer, (.single s', r')) ∧
      q.run (.pooled p, t) = (answer, (.pooled p, t')) ∧ Paired s' r' p t' := by
  have hlookup {id : DictionaryId} (hq : q.lookedUp? = some id) :
      ∃ answer s' r' t', q.run (.single s, r) = (answer, (.single s', r')) ∧
        q.run (.pooled p, t) = (answer, (.pooled p, t')) ∧ Paired s' r' p t' := by
    obtain ⟨pick, hrun⟩ := Request.exists_run_eq hq
    obtain ⟨trie, s', r', t', hsingle, hpooled, hpaired⟩ := h.serve id pick
    refine ⟨.ok (q.paths trie), s', r', t', ?_, ?_, hpaired⟩
    · rw [hrun, Router.serve, Router.run, hsingle]
      rfl
    · rw [hrun, Router.serve, Router.run, hpooled]
      rfl
  cases q with
  | lookup id label pick => exact hlookup rfl
  | lookupMany id labels pick => exact hlookup rfl
  | checkForUpdate id =>
    obtain ⟨s', r', t', hsingle, hpooled, hpaired⟩ := h.checkForUpdate id
    refine ⟨.ok [], s', r', t', ?_, ?_, hpaired⟩
    · rw [Request.run_checkForUpdate, Router.checkForUpdate, Router.run, hsingle]
      rfl
    · rw [Request.run_checkForUpdate, Router.checkForUpdate, Router.run, hpooled]
      rfl
  | write storage id trie =>
    obtain ⟨hresult, hwritten⟩ := h.backends.written storage id trie
    have hpooled := Request.run_write storage id trie (.pooled p) t
    rw [hresult] at hpooled
    exact ⟨_, s, _, _, Request.run_write .., hpooled, h.storage, h.mode, h.canOpen,
      h.readable.written storage id trie, hwritten, h.matched⟩

/-- A pool of any size in range gives the answers of a single querier, for any bytes that pick the
queriers. -/
theorem answers_pooled_eq_single {first : ReadSide} (hread : first.backends.Readable)
    (hpools : first.pools = ∅) (storage : StorageRef) (mode : QueryMode) {size : Nat}
    (hlow : 1 ≤ size) (hhigh : size ≤ maxPoolSize) (qs : List Request) :
    answers qs (.pooled ⟨storage, mode, size⟩, first) =
      answers qs (.single { storage, mode }, first) := by
  have hstart : Paired { storage, mode } first ⟨storage, mode, size⟩ first := by
    refine ⟨rfl, rfl, ?_, hread, .refl _, fun id => ?_⟩
    · rintro (hzero | hlarge)
      · exact absurd hzero (Nat.one_le_iff_ne_zero.1 hlow)
      · exact absurd hhigh (Nat.not_le.2 hlarge)
    · have hpool : first.pools.get? id = none := by
        rw [hpools]
        exact OrderedMap.get?_empty id
      have hquerier : (∅ : OrderedMap DictionaryId Querier).get? id = none :=
        OrderedMap.get?_empty id
      rw [hpool, hquerier]
      exact .absent
  have hrun {s : SingleRouter} {r t : ReadSide} (h : Paired s r ⟨storage, mode, size⟩ t) :
      answers qs (.pooled ⟨storage, mode, size⟩, t) = answers qs (.single s, r) := by
    induction qs generalizing s r t with
    | nil => rfl
    | cons q qs ih =>
      obtain ⟨answer, s', r', t', hsingle, hpooled, hpaired⟩ := h.run q
      rw [answers, answers, hsingle, hpooled]
      exact congrArg (answer :: ·) (ih hpaired)
  exact hrun hstart

/-- A pool of three queriers and a single one, over a trie that is written twice. -/
def sampleRequests : List Request :=
  let id : DictionaryId := Block.zero 16
  let label : Label := Block.zero 32
  [.checkForUpdate id, .write 0 id { epoch := 1 }, .lookup id label 7, .write 0 id { epoch := 2 },
   .lookupMany id [label, label] 250, .checkForUpdate id, .lookup id label 8]

def sampleReads : ReadSide := { backends := {}, pools := ∅, metrics := {} }

theorem answers_pooled_eq_single_sampleRequests :
    sampleReads.backends.Readable ∧ sampleReads.pools = ∅ ∧ 1 ≤ 3 ∧ 3 ≤ maxPoolSize ∧
      answers sampleRequests (.pooled ⟨0, .cached, 3⟩, sampleReads) =
        answers sampleRequests (.single { storage := 0, mode := .cached }, sampleReads) :=
  ⟨Backends.readable_empty, rfl, by decide, by decide,
    answers_pooled_eq_single Backends.readable_empty rfl 0 .cached (by decide) (by decide)
      sampleRequests⟩

end Router

end AuthDict
