import AuthDict.Proofs.Dictionary.Holdings

/-!
# What queriers show

As long as no trie load fails, three things settle what a querier answers: the backend it reads, its
mode and the copy it holds. They make up a `View`. All queriers of a pool have one view in common,
through every lookup and refresh, so it does not matter which of them a byte picks.

Of the backends, lookups and refreshes change only the number of trie loads.
-/
namespace AuthDict

/-- The two differ in the number of trie loads at most. -/
def Storage.SameButLoads (s t : Storage) : Prop :=
  ∃ calls, t = { s with trieLoads := { s.trieLoads with calls } }

namespace Backends

variable {b c d first : Backends}

def SameButLoads (b c : Backends) : Prop := ∀ ref, (b.get ref).SameButLoads (c.get ref)

/-- The trie that a backend holds for a dictionary. -/
def held (b : Backends) (ref : StorageRef) (id : DictionaryId) : Option Trie :=
  (b.get ref).tries.get? id

/-- No trie load fails. -/
def Readable (b : Backends) : Prop := ∀ ref call, (b.get ref).trieLoads.down call = false

theorem readable_empty : ({} : Backends).Readable := by
  intro ref call
  simp only [get, OrderedMap.get?_emptyCollection]
  rfl

theorem SameButLoads.refl (b : Backends) : b.SameButLoads b := fun _ => ⟨_, rfl⟩

theorem SameButLoads.symm (h : b.SameButLoads c) : c.SameButLoads b := by
  intro ref
  obtain ⟨calls, hc⟩ := h ref
  rw [hc]
  exact ⟨(b.get ref).trieLoads.calls, rfl⟩

theorem SameButLoads.trans (h : b.SameButLoads c) (k : c.SameButLoads d) : b.SameButLoads d := by
  intro ref
  obtain ⟨calls, hc⟩ := h ref
  obtain ⟨calls', hd⟩ := k ref
  rw [hd, hc]
  exact ⟨calls', rfl⟩

theorem SameButLoads.held_eq (h : b.SameButLoads c) : c.held = b.held := by
  funext ref id
  obtain ⟨calls, hc⟩ := h ref
  simp only [held, hc]

theorem SameButLoads.readable (h : b.SameButLoads c) (hb : b.Readable) : c.Readable := by
  intro ref call
  obtain ⟨calls, hc⟩ := h ref
  rw [hc]
  exact hb ref call

theorem sameButLoads_set {ref : StorageRef} {s : Storage} (h : (b.get ref).SameButLoads s) :
    b.SameButLoads (b.set ref s) := by
  intro ref'
  by_cases he : ref' = ref
  · subst he
    rwa [get_set_self]
  · rw [get_set_of_ne b s he]
    exact ⟨_, rfl⟩

/-- From backends that hold what they held at first, an action succeeds and leaves such ones. -/
abbrev Reads {α : Type} (first : Backends) (y : Action Backends α) (R : α → Prop) : Prop :=
  Action.Ensures first.SameButLoads y R fun _ => False

theorem Reads.exists_ok {α : Type} {y : Action Backends α} {R : α → Prop} (hy : first.Reads y R)
    (hb : first.SameButLoads b) :
    ∃ a b', y b = (.ok a, b') ∧ first.SameButLoads b' ∧ R a := by
  rcases h : y b with ⟨e | a, b'⟩
  · exact (hy.of_error hb h).2.elim
  · exact ⟨a, b', rfl, hy.of_ok hb h⟩

end Backends

/-- What settles the answers of a querier. -/
structure View where
  storage : StorageRef
  mode : QueryMode
  /-- The copy that is shown in cached mode. -/
  copy : Option Trie

namespace View

/-- The trie that answers a lookup. -/
def trie (v : View) (id : DictionaryId) (b : Backends) : Option Trie :=
  match v.mode with
  | .cached => v.copy
  | .direct => b.held v.storage id

/-- The view after a reload. -/
def reloaded (v : View) (id : DictionaryId) (b : Backends) : View :=
  { v with copy := b.held v.storage id }

/-- The view of queriers that have just been opened. -/
def opened (storage : StorageRef) (mode : QueryMode) (id : DictionaryId) (b : Backends) : View :=
  ⟨storage, mode, b.held storage id⟩

/-- The copy is the trie that the backend holds now. -/
def Current (v : View) (id : DictionaryId) (b : Backends) : Prop := v.copy = b.held v.storage id

/-- The querier answers for the dictionary as the view says. -/
structure Shows (v : View) (id : DictionaryId) (q : Querier) : Prop where
  id : q.id = id
  storage : q.storage = v.storage
  mode : q.mode = v.mode
  copy : q.mode = .cached → q.snapshot = v.copy

variable {v : View} {id : DictionaryId} {first : Backends} {q : Querier}

theorem trie_of_direct (h : v.mode = .direct) (b : Backends) : v.trie id b = b.held v.storage id := by
  rw [trie, h]

theorem Current.trie_eq {b : Backends} (h : v.Current id b) : v.trie id b = b.held v.storage id := by
  unfold trie
  cases v.mode with
  | cached => exact h
  | direct => rfl

theorem current_opened (storage : StorageRef) (mode : QueryMode) (id : DictionaryId)
    (b : Backends) : (opened storage mode id b).Current id b := rfl

theorem load_reads (h : first.Readable) (q : Querier) :
    first.Reads q.load (· = first.held q.storage q.id) := by
  intro b hb
  have hup : (b.get q.storage).trieLoads.down (b.get q.storage).trieLoads.calls = false :=
    hb.readable h ..
  have hload : q.load b = (.ok (b.held q.storage q.id),
      b.set q.storage { b.get q.storage with trieLoads := (b.get q.storage).trieLoads.next.2 }) := by
    simp only [Querier.load, Backends.on_apply, Storage.loadTrie, Outage.next, hup,
      Bool.false_eq_true, if_false]
    rfl
  rw [hload]
  refine ⟨hb.trans (Backends.sameButLoads_set ⟨_, rfl⟩), fun t ht => ?_, by simp⟩
  rw [← Except.ok.inj ht, hb.held_eq]

theorem refresh_reads (h : first.Readable) (hid : q.id = id) (hstorage : q.storage = v.storage)
    (hmode : q.mode = v.mode) : first.Reads q.refresh ((v.reloaded id first).Shows id) := by
  unfold Querier.refresh
  cases hq : q.mode with
  | direct => exact .pure ⟨hid, hstorage, hmode, fun hc => by simp [hq] at hc⟩
  | cached =>
    refine (load_reads h q).bind fun t ht => .pure ⟨hid, hstorage, hq ▸ hmode, fun _ => ?_⟩
    rw [ht, hid, hstorage]
    rfl

theorem create_reads (h : first.Readable) (index : Nat) (id : DictionaryId) (storage : StorageRef)
    (mode : QueryMode) :
    first.Reads (Querier.create index id storage mode) ((opened storage mode id first).Shows id) :=
  refresh_reads (v := opened storage mode id first) h rfl rfl rfl

/-- A lookup is answered from the trie of the view, which stays as it is. -/
theorem Shows.serve (hq : v.Shows id q) (h : first.Readable) {b : Backends}
    (hb : first.SameButLoads b) :
    ∃ q' b', Querier.serve (q, b) = (.ok (v.trie id first), (q', b')) ∧ v.Shows id q' ∧
      first.SameButLoads b' := by
  have hcurrent : first.Reads q.current (· = v.trie id first) := by
    unfold Querier.current trie
    rw [← hq.mode]
    cases hmode : q.mode with
    | cached => exact .pure (hq.copy hmode)
    | direct =>
      refine (load_reads h q).weaken (fun t ht => ?_) fun _ he => he
      rw [ht, hq.id, hq.storage]
  obtain ⟨t, b', hrun, hb', rfl⟩ := hcurrent.exists_ok hb
  refine ⟨{ q with served := q.served + 1 }, b', ?_, ⟨hq.id, hq.storage, hq.mode, hq.copy⟩, hb'⟩
  simp only [Querier.serve, hrun]

structure ShowsPool (v : View) (id : DictionaryId) (p : QuerierPool) : Prop where
  nonempty : p.queriers ≠ []
  shows : ∀ q ∈ p.queriers, v.Shows id q

theorem createQueriers_reads (h : first.Readable) (id : DictionaryId) (storage : StorageRef)
    (mode : QueryMode) (index count : Nat) :
    first.Reads (QuerierPool.createQueriers id storage mode index count) fun qs =>
      qs.length = count ∧ ∀ q ∈ qs, (opened storage mode id first).Shows id q := by
  induction count generalizing index with
  | zero => exact .pure ⟨rfl, by simp⟩
  | succ count ih =>
    refine (create_reads h index id storage mode).bind fun q hq => ?_
    refine (ih (index + 1)).bind fun qs ⟨hlength, hqs⟩ => .pure ⟨?_, ?_⟩
    · rw [List.length_cons, hlength]
    · exact List.forall_mem_cons.2 ⟨hq, hqs⟩

theorem createPool_reads (h : first.Readable) (id : DictionaryId) {size : Nat}
    (hsize : ¬ (size = 0 ∨ maxPoolSize < size)) (storage : StorageRef) (mode : QueryMode) :
    first.Reads (QuerierPool.create id size storage mode)
      ((opened storage mode id first).ShowsPool id) := by
  rw [QuerierPool.create, if_neg hsize]
  refine (createQueriers_reads h id storage mode 0 size).bind fun qs ⟨hlength, hqs⟩ =>
    .pure ⟨?_, hqs⟩
  rintro rfl
  exact hsize (.inl hlength.symm)

theorem refreshQueriers_shows (h : first.Readable) {qs : List Querier}
    (hqs : ∀ q ∈ qs, v.Shows id q) {b : Backends} (hb : first.SameButLoads b) :
    ∃ qs' b', QuerierPool.refreshQueriers qs b = (.ok (), qs', b') ∧ qs'.length = qs.length ∧
      (∀ q ∈ qs', (v.reloaded id first).Shows id q) ∧ first.SameButLoads b' := by
  induction qs generalizing b with
  | nil => exact ⟨[], b, rfl, rfl, by simp, hb⟩
  | cons q qs ih =>
    obtain ⟨hq, hrest⟩ := List.forall_mem_cons.1 hqs
    obtain ⟨q', b₁, hrefresh, hb₁, hq'⟩ :=
      (refresh_reads h hq.id hq.storage hq.mode).exists_ok hb
    obtain ⟨qs', b₂, hqueriers, hlength, hqs', hb₂⟩ := ih hrest hb₁
    refine ⟨q' :: qs', b₂, ?_, by simp [hlength], List.forall_mem_cons.2 ⟨hq', hqs'⟩, hb₂⟩
    simp only [QuerierPool.refreshQueriers, hrefresh, hqueriers]

theorem ShowsPool.refreshAll {p : QuerierPool} (hp : v.ShowsPool id p) (h : first.Readable)
    {b : Backends} (hb : first.SameButLoads b) :
    ∃ p' b', QuerierPool.refreshAll (p, b) = (.ok (), (p', b')) ∧
      (v.reloaded id first).ShowsPool id p' ∧ first.SameButLoads b' := by
  obtain ⟨qs, b', hrefresh, hlength, hqs, hb'⟩ := refreshQueriers_shows h hp.shows hb
  refine ⟨{ p with queriers := qs }, b', ?_, ⟨?_, hqs⟩, hb'⟩
  · simp only [QuerierPool.refreshAll, hrefresh]
  · rw [← List.length_pos_iff, hlength]
    exact List.length_pos_iff.2 hp.nonempty

/-- Whichever querier a byte picks, the answer is that of the view. -/
theorem ShowsPool.serveAt {p : QuerierPool} (hp : v.ShowsPool id p) (h : first.Readable)
    (pick : UInt8) {b : Backends} (hb : first.SameButLoads b) :
    ∃ p' b', QuerierPool.serveAt (p.select pick) (p, b) = (.ok (v.trie id first), (p', b')) ∧
      v.ShowsPool id p' ∧ first.SameButLoads b' := by
  have hlt : p.select pick < p.queriers.length :=
    Nat.mod_lt _ (List.length_pos_iff.2 hp.nonempty)
  obtain ⟨q', b', hserve, hq', hb'⟩ := (hp.shows _ (List.getElem_mem hlt)).serve h hb
  refine ⟨{ p with queriers := p.queriers.set (p.select pick) q' }, b', ?_, ⟨?_, ?_⟩, hb'⟩
  · simp only [QuerierPool.serveAt, List.getElem?_eq_getElem hlt, hserve]
  · simpa using hp.nonempty
  · intro q hq
    rcases List.mem_or_eq_of_mem_set hq with hq | rfl
    · exact hp.shows q hq
    · exact hq'

end View

/-- Lookups of one dictionary: its pool has a view afterwards, and nothing else has changed that a
lookup depends on. -/
structure ReadSide.ShowsFrom (r : ReadSide) (id : DictionaryId) (v : View) (r' : ReadSide) :
    Prop where
  backends : r.backends.SameButLoads r'.backends
  pool : ∃ p, r'.pools.get? id = some p ∧ v.ShowsPool id p
  others : ∀ id', id' ≠ id → r'.pools.get? id' = r.pools.get? id'

namespace PooledRouter

/-- The router may open pools. -/
def CanOpen (s : PooledRouter) : Prop := ¬ (s.size = 0 ∨ maxPoolSize < s.size)

instance (s : PooledRouter) : Decidable s.CanOpen := inferInstanceAs (Decidable (¬ _))

variable {s : PooledRouter} {r : ReadSide} {id : DictionaryId} {v : View} {p : QuerierPool}

/-- The lookup that follows once there is a pool. -/
theorem serve_of_pool {r₁ : ReadSide} (hpool : s.pool id r = (.ok p, r₁))
    (hp : v.ShowsPool id p) (hr : r.backends.Readable)
    (hback : r.backends.SameButLoads r₁.backends)
    (hothers : ∀ id', id' ≠ id → r₁.pools.get? id' = r.pools.get? id') (pick : UInt8) :
    ∃ r', s.serve id pick r = (.ok (v.trie id r.backends), r') ∧ r.ShowsFrom id v r' := by
  obtain ⟨p', b', hserve, hp', hb'⟩ := hp.serveAt hr pick hback
  have hrun : s.serve id pick r = (.ok (v.trie id r.backends),
      { backends := b', pools := r₁.pools.insert id p'
        metrics := r₁.metrics.add id .querierSelections 1 }) := by
    rw [serve, Action.bind_ok hpool, ReadSide.countSelection, Action.update_bind,
      ReadSide.onPool, Action.within_apply]
    dsimp only
    rw [hserve]
  refine ⟨_, hrun, hb', ⟨p', OrderedMap.get?_insert_self .., hp'⟩, fun id' hne => ?_⟩
  exact (OrderedMap.get?_insert_of_ne _ _ hne).trans (hothers id' hne)

/-- A pool that is there answers as it is, whoever has opened it. -/
theorem serve_of_shows (hget : r.pools.get? id = some p) (hp : v.ShowsPool id p)
    (hr : r.backends.Readable) (s : PooledRouter) (pick : UInt8) :
    ∃ r', s.serve id pick r = (.ok (v.trie id r.backends), r') ∧ r.ShowsFrom id v r' := by
  have hpool : s.pool id r = (.ok p, r) := by
    rw [pool, Action.read_bind, hget]
    rfl
  exact serve_of_pool hpool hp hr (.refl _) (fun _ _ => rfl) pick

/-- The first lookup opens a pool over the router's own backend. -/
theorem serve_of_none (hget : r.pools.get? id = none) (hs : s.CanOpen) (hr : r.backends.Readable)
    (pick : UInt8) :
    ∃ r', s.serve id pick r = (.ok (r.backends.held s.storage id), r') ∧
      r.ShowsFrom id (.opened s.storage s.mode id r.backends) r' := by
  obtain ⟨p, b', hcreate, hb', hp⟩ :=
    (View.createPool_reads hr id hs s.storage s.mode).exists_ok (.refl _)
  have honBackends : ReadSide.onBackends (QuerierPool.create id s.size s.storage s.mode) r =
      (.ok p, { r with backends := b' }) := by
    rw [ReadSide.onBackends, Action.within_apply, hcreate]
  have hpool : s.pool id r =
      (.ok p, { r with backends := b', pools := r.pools.insert id p }) := by
    rw [pool, Action.read_bind, hget]
    exact (Action.bind_ok honBackends _).trans rfl
  have hserve := serve_of_pool hpool hp hr hb'
    (fun id' hne => OrderedMap.get?_insert_of_ne _ _ hne) pick
  rwa [(View.current_opened s.storage s.mode id r.backends).trie_eq] at hserve

theorem serve_of_not_canOpen (hget : r.pools.get? id = none) (hs : ¬ s.CanOpen) (pick : UInt8) :
    s.serve id pick r = (.error (.configuration (.querierCount s.size)), r) := by
  have hcreate : QuerierPool.create id s.size s.storage s.mode =
      .fail (.configuration (.querierCount s.size)) := if_pos (Decidable.not_not.1 hs)
  have hpool : s.pool id r = (.error (.configuration (.querierCount s.size)), r) := by
    rw [pool, Action.read_bind, hget, hcreate]
    rfl
  rw [serve, Action.bind_error hpool]

end PooledRouter

namespace ReadSide

variable {r : ReadSide} {id : DictionaryId} {v : View} {p : QuerierPool}

theorem refreshPool_of_shows (hget : r.pools.get? id = some p) (hp : v.ShowsPool id p)
    (hr : r.backends.Readable) :
    ∃ r', refreshPool id r = (.ok (), r') ∧ r.ShowsFrom id (v.reloaded id r.backends) r' := by
  obtain ⟨p', b', hrefresh, hp', hb'⟩ := hp.refreshAll hr (.refl _)
  have honPool : onPool id p QuerierPool.refreshAll r =
      (.ok (), { r with backends := b', pools := r.pools.insert id p' }) := by
    rw [onPool, Action.within_apply]
    dsimp only
    rw [hrefresh]
  have hrun : refreshPool id r = (.ok (),
      { backends := b', pools := r.pools.insert id p'
        metrics := r.metrics.add id .querierRefreshes p.queriers.length }) := by
    rw [refreshPool, Action.read_bind, hget]
    exact (Action.bind_ok honPool _).trans rfl
  exact ⟨_, hrun, hb', ⟨p', OrderedMap.get?_insert_self .., hp'⟩,
    fun id' hne => OrderedMap.get?_insert_of_ne _ _ hne⟩

theorem refreshPool_of_none (hget : r.pools.get? id = none) : refreshPool id r = (.ok (), r) := by
  rw [refreshPool, Action.read_bind, hget]
  rfl

end ReadSide

end AuthDict
