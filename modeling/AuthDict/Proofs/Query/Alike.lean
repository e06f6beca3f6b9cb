import AuthDict.Proofs.Coincidence
import AuthDict.Query.Router

/-!
# What lookups see of backends and pools

The backends and pools of two states may differ in everything that is filed under other
dictionaries: they are alike to a dictionary if they hold the same for it. As long as the outages of
the backends do not depend on the number of calls, the reads and writes of the dictionary come out
alike, and so do its lookups through queriers, pools and routers. The reads of other dictionaries,
and their writes, are not seen.
-/
namespace AuthDict

open AuthDict.Action (Coincides Unseen)

variable {b id : DictionaryId}

/-- Under both outages the same calls fail: all of them or none. -/
def Outage.Alike (o p : Outage) : Prop :=
  ∃ down, o.down = (fun _ => down) ∧ p.down = fun _ => down

theorem Outage.Alike.next {o p : Outage} (h : o.Alike p) :
    p.next.1 = o.next.1 ∧ o.next.2.Alike p.next.2 := by
  obtain ⟨down, ho, hp⟩ := h
  exact ⟨by rw [Outage.next, Outage.next, ho, hp], down, ho, hp⟩

theorem Outage.Alike.symm {o p : Outage} (h : o.Alike p) : p.Alike o := by
  obtain ⟨down, ho, hp⟩ := h
  exact ⟨down, hp, ho⟩

theorem Outage.Alike.trans {o p q : Outage} (h : o.Alike p) (k : p.Alike q) : o.Alike q := by
  obtain ⟨down, ho, hp⟩ := h
  obtain ⟨down', hp', hq⟩ := k
  exact ⟨down, ho, hq.trans (hp'.symm.trans hp)⟩

/-- The number of calls does not matter. -/
theorem Outage.Alike.next_left {o p : Outage} (h : o.Alike p) : o.next.2.Alike p := h

namespace Storage

/-- Two backends that hold the same for a dictionary. -/
structure Alike (b : DictionaryId) (s t : Storage) : Prop where
  elements : ∀ key, t.elements.get? ⟨b, key⟩ = s.elements.get? ⟨b, key⟩
  trie : t.tries.get? b = s.tries.get? b
  trieLoads : s.trieLoads.Alike t.trieLoads
  trieSaves : s.trieSaves.Alike t.trieSaves
  elementLoads : s.elementLoads.Alike t.elementLoads
  elementSaves : s.elementSaves.Alike t.elementSaves

theorem Alike.symm {s t : Storage} (h : s.Alike b t) : t.Alike b s where
  elements key := (h.elements key).symm
  trie := h.trie.symm
  trieLoads := h.trieLoads.symm
  trieSaves := h.trieSaves.symm
  elementLoads := h.elementLoads.symm
  elementSaves := h.elementSaves.symm

theorem Alike.trans {s t u : Storage} (h : s.Alike b t) (k : t.Alike b u) : s.Alike b u where
  elements key := (k.elements key).trans (h.elements key)
  trie := k.trie.trans h.trie
  trieLoads := h.trieLoads.trans k.trieLoads
  trieSaves := h.trieSaves.trans k.trieSaves
  elementLoads := h.elementLoads.trans k.elementLoads
  elementSaves := h.elementSaves.trans k.elementSaves

theorem loadTrie_eq (id : DictionaryId) (s : Storage) :
    loadTrie id s =
      (if s.trieLoads.next.1 then .error (.storage (.unavailable .loadTrie))
        else .ok (s.tries.get? id), { s with trieLoads := s.trieLoads.next.2 }) := by
  simp only [loadTrie]
  split <;> rfl

theorem saveTrie_eq (id : DictionaryId) (trie : Trie) (s : Storage) :
    saveTrie id trie s =
      (if s.trieSaves.next.1 then .error (.storage (.trieWriteRejected id)) else .ok (),
        { s with
          trieSaves := s.trieSaves.next.2
          tries := if s.trieSaves.next.1 then s.tries else s.tries.insert id trie }) := by
  simp only [saveTrie]
  split <;> rfl

theorem loadElement_eq (id : DictionaryId) (key : Bytes) (s : Storage) :
    loadElement id key s =
      (if s.elementLoads.next.1 then .error (.storage (.unavailable .loadElement))
        else .ok (s.elements.get? ⟨id, key⟩), { s with elementLoads := s.elementLoads.next.2 }) := by
  simp only [loadElement]
  split <;> rfl

theorem saveElement_eq (id : DictionaryId) (key : Bytes) (element : StoredElement) (s : Storage) :
    saveElement id key element s =
      (if s.elementSaves.next.1 then .error (.storage (.unavailable .saveElement)) else .ok (),
        { s with
          elementSaves := s.elementSaves.next.2
          elements := if s.elementSaves.next.1 then s.elements
            else s.elements.insert ⟨id, key⟩ element }) := by
  simp only [saveElement]
  split <;> rfl

theorem coincides_loadTrie : Coincides (Alike b) (loadTrie b) := by
  refine ⟨fun s t h => ?_⟩
  obtain ⟨hdown, hnext⟩ := h.trieLoads.next
  rw [loadTrie_eq, loadTrie_eq, hdown, h.trie]
  exact ⟨rfl, { h with trieLoads := hnext }⟩

theorem unseen_loadTrie (id : DictionaryId) : Unseen (Alike b) (loadTrie id) := by
  refine ⟨fun s t h => ?_⟩
  rw [loadTrie_eq]
  exact { h with trieLoads := h.trieLoads.next_left }

theorem coincides_saveTrie (trie : Trie) : Coincides (Alike b) (saveTrie b trie) := by
  refine ⟨fun s t h => ?_⟩
  obtain ⟨hdown, hnext⟩ := h.trieSaves.next
  rw [saveTrie_eq, saveTrie_eq, hdown]
  refine ⟨rfl, { h with trieSaves := hnext, trie := ?_ }⟩
  dsimp only
  split
  · exact h.trie
  · rw [OrderedMap.get?_insert_self, OrderedMap.get?_insert_self]

theorem unseen_saveTrie (h : id ≠ b) (trie : Trie) : Unseen (Alike b) (saveTrie id trie) := by
  refine ⟨fun s t hs => ?_⟩
  rw [saveTrie_eq]
  refine { hs with trieSaves := hs.trieSaves.next_left, trie := ?_ }
  dsimp only
  split
  · exact hs.trie
  · rw [OrderedMap.get?_insert_of_ne _ _ (Ne.symm h), hs.trie]

theorem coincides_loadElement (key : Bytes) : Coincides (Alike b) (loadElement b key) := by
  refine ⟨fun s t h => ?_⟩
  obtain ⟨hdown, hnext⟩ := h.elementLoads.next
  rw [loadElement_eq, loadElement_eq, hdown, h.elements]
  exact ⟨rfl, { h with elementLoads := hnext }⟩

theorem unseen_loadElement (id : DictionaryId) (key : Bytes) :
    Unseen (Alike b) (loadElement id key) := by
  refine ⟨fun s t h => ?_⟩
  rw [loadElement_eq]
  exact { h with elementLoads := h.elementLoads.next_left }

theorem coincides_saveElement (key : Bytes) (element : StoredElement) :
    Coincides (Alike b) (saveElement b key element) := by
  refine ⟨fun s t h => ?_⟩
  obtain ⟨hdown, hnext⟩ := h.elementSaves.next
  rw [saveElement_eq, saveElement_eq, hdown]
  refine ⟨rfl, { h with elementSaves := hnext, elements := fun key' => ?_ }⟩
  dsimp only
  split
  · exact h.elements key'
  · by_cases hkey : (⟨b, key'⟩ : ElementKey) = ⟨b, key⟩
    · rw [hkey, OrderedMap.get?_insert_self, OrderedMap.get?_insert_self]
    · rw [OrderedMap.get?_insert_of_ne _ _ hkey, OrderedMap.get?_insert_of_ne _ _ hkey, h.elements]

theorem unseen_saveElement (h : id ≠ b) (key : Bytes) (element : StoredElement) :
    Unseen (Alike b) (saveElement id key element) := by
  refine ⟨fun s t hs => ?_⟩
  rw [saveElement_eq]
  refine { hs with elementSaves := hs.elementSaves.next_left, elements := fun key' => ?_ }
  dsimp only
  split
  · exact hs.elements key'
  · have hne : (⟨b, key'⟩ : ElementKey) ≠ ⟨id, key⟩ := fun he => h (congrArg ElementKey.owner he).symm
    rw [OrderedMap.get?_insert_of_ne _ _ hne, hs.elements]

/-- The outage of a kind of call is put on or taken away. -/
theorem Alike.setOutage {s t : Storage} (h : s.Alike b t) (call : StorageCall) (down : Bool) :
    (s.setOutage call fun o => { o with down := fun _ => down }).Alike b
      (t.setOutage call fun o => { o with down := fun _ => down }) := by
  have hset (o p : Outage) : Outage.Alike { o with down := fun _ => down }
      { p with down := fun _ => down } := ⟨down, rfl, rfl⟩
  cases call with
  | loadTrie => exact { h with trieLoads := hset _ _ }
  | saveTrie => exact { h with trieSaves := hset _ _ }
  | loadElement => exact { h with elementLoads := hset _ _ }
  | saveElement => exact { h with elementSaves := hset _ _ }

end Storage

namespace Backends

def Alike (b : DictionaryId) (x y : Backends) : Prop := ∀ ref, (x.get ref).Alike b (y.get ref)

theorem Alike.set {x y : Backends} (h : x.Alike b y) {ref : StorageRef} {s t : Storage}
    (hs : s.Alike b t) : (x.set ref s).Alike b (y.set ref t) := by
  intro ref'
  by_cases href : ref' = ref
  · rw [href, get_set_self, get_set_self]
    exact hs
  · rw [get_set_of_ne _ _ href, get_set_of_ne _ _ href]
    exact h ref'

theorem Alike.set_left {x y : Backends} (h : x.Alike b y) {ref : StorageRef} {s : Storage}
    (hs : s.Alike b (y.get ref)) : (x.set ref s).Alike b y := by
  intro ref'
  by_cases href : ref' = ref
  · rw [href, get_set_self]
    exact hs
  · rw [get_set_of_ne _ _ href]
    exact h ref'

theorem coincides_on {α : Type} (ref : StorageRef) {x : Action Storage α}
    (hx : Coincides (Storage.Alike b) x) : Coincides (Alike b) (on ref x) :=
  hx.within (fun _ _ h => h ref) fun _ _ _ _ h hs => h.set hs

theorem unseen_on {α : Type} (ref : StorageRef) {x : Action Storage α}
    (hx : Unseen (Storage.Alike b) x) : Unseen (Alike b) (on ref x) :=
  hx.within (fun _ _ h => h ref) fun _ _ _ h hs => h.set_left hs

end Backends

namespace Querier

theorem coincides_load {q : Querier} (hq : q.id = b) : Coincides (Backends.Alike b) q.load := by
  refine ⟨fun x y h => ?_⟩
  obtain ⟨hr, h'⟩ := (Backends.coincides_on q.storage Storage.coincides_loadTrie).run x y h
  simp only [load, hq]
  rcases hx : Backends.on q.storage (Storage.loadTrie b) x with ⟨e | t, x'⟩ <;>
    rcases hy : Backends.on q.storage (Storage.loadTrie b) y with ⟨r, y'⟩ <;>
    rw [hx, hy] at hr h' <;> obtain rfl := hr <;> exact ⟨rfl, h'⟩

theorem unseen_load (q : Querier) : Unseen (Backends.Alike b) q.load := by
  refine ⟨fun x y h => ?_⟩
  have h' := (Backends.unseen_on q.storage (Storage.unseen_loadTrie q.id)).run x y h
  simp only [load]
  rcases hx : Backends.on q.storage (Storage.loadTrie q.id) x with ⟨e | t, x'⟩ <;> rw [hx] at h' <;>
    exact h'

theorem coincides_refresh {q : Querier} (hq : q.id = b) :
    Coincides (Backends.Alike b) q.refresh := by
  unfold refresh
  cases q.mode with
  | direct => exact .pure q
  | cached => exact (coincides_load hq).bind fun _ => .pure _

theorem unseen_refresh (q : Querier) : Unseen (Backends.Alike b) q.refresh := by
  unfold refresh
  cases q.mode with
  | direct => exact .pure q
  | cached => exact (unseen_load q).bind fun _ => .pure _

theorem id_refresh {q q' : Querier} {x : Backends} (h : (q.refresh x).1 = .ok q') :
    q'.id = q.id := by
  unfold refresh at h
  cases hmode : q.mode with
  | direct =>
    simp only [hmode] at h
    rw [← Except.ok.inj h]
  | cached =>
    simp only [hmode] at h
    rcases Action.bind_cases (Prod.ext h rfl) with ⟨e, -, he⟩ | ⟨t, x', -, hq⟩
    · contradiction
    · rw [← Except.ok.inj (Prod.mk.inj hq).1]

theorem coincides_current {q : Querier} (hq : q.id = b) :
    Coincides (Backends.Alike b) q.current := by
  unfold current
  cases q.mode with
  | cached => exact .pure _
  | direct => exact coincides_load hq

theorem unseen_current (q : Querier) : Unseen (Backends.Alike b) q.current := by
  unfold current
  cases q.mode with
  | cached => exact .pure _
  | direct => exact unseen_load q

end Querier

/-- All queriers are of one dictionary. -/
def QuerierPool.Of (p : QuerierPool) (id : DictionaryId) : Prop := ∀ q ∈ p.queriers, q.id = id

namespace QuerierPool

theorem coincides_createQueriers (storage : StorageRef) (mode : QueryMode) (index count : Nat) :
    Coincides (Backends.Alike b) (createQueriers b storage mode index count) := by
  induction count generalizing index with
  | zero => exact .pure _
  | succ count ih =>
    have hcreate : Coincides (Backends.Alike b) (Querier.create index b storage mode) :=
      Querier.coincides_refresh rfl
    exact hcreate.bind fun _ => (ih (index + 1)).bind fun _ => .pure _

theorem unseen_createQueriers (id : DictionaryId) (storage : StorageRef) (mode : QueryMode)
    (index count : Nat) : Unseen (Backends.Alike b) (createQueriers id storage mode index count) := by
  induction count generalizing index with
  | zero => exact .pure _
  | succ count ih =>
    exact (Querier.unseen_refresh _).bind fun _ => (ih (index + 1)).bind fun _ => .pure _

theorem id_createQueriers {storage : StorageRef} {mode : QueryMode} {index count : Nat}
    {x : Backends} {qs : List Querier}
    (h : (createQueriers id storage mode index count x).1 = .ok qs) : ∀ q ∈ qs, q.id = id := by
  induction count generalizing index x qs with
  | zero =>
    obtain rfl := Except.ok.inj h
    simp
  | succ count ih =>
    rcases Action.bind_cases (Prod.ext h rfl) with ⟨e, -, he⟩ | ⟨q, x₁, hq, h⟩
    · contradiction
    rcases Action.bind_cases h with ⟨e, -, he⟩ | ⟨rest, x₂, hrest, h⟩
    · contradiction
    obtain rfl := Except.ok.inj (Prod.mk.inj h).1
    exact List.forall_mem_cons.2
      ⟨Querier.id_refresh (congrArg Prod.fst hq), ih (congrArg Prod.fst hrest)⟩

theorem coincides_create (size : Nat) (storage : StorageRef) (mode : QueryMode) :
    Coincides (Backends.Alike b) (create b size storage mode) := by
  unfold create
  split
  · exact .fail _
  · exact (coincides_createQueriers ..).bind fun _ => .pure _

theorem unseen_create (id : DictionaryId) (size : Nat) (storage : StorageRef) (mode : QueryMode) :
    Unseen (Backends.Alike b) (create id size storage mode) := by
  unfold create
  split
  · exact .fail _
  · exact (unseen_createQueriers ..).bind fun _ => .pure _

theorem of_create {size : Nat} {storage : StorageRef} {mode : QueryMode} {x : Backends}
    {p : QuerierPool} (h : (create id size storage mode x).1 = .ok p) : p.Of id := by
  unfold create at h
  split at h
  · contradiction
  · rcases Action.bind_cases (Prod.ext h rfl) with ⟨e, -, he⟩ | ⟨qs, x', hqs, h⟩
    · contradiction
    · obtain rfl := Except.ok.inj (Prod.mk.inj h).1
      exact id_createQueriers (congrArg Prod.fst hqs)

/-- Two equal pools of the dictionary with backends that are alike to it. -/
structure Alike (b : DictionaryId) (s t : QuerierPool × Backends) : Prop where
  pool : t.1 = s.1
  of : s.1.Of b
  backends : s.2.Alike b t.2

theorem refreshQueriers_alike {qs : List Querier} (hqs : ∀ q ∈ qs, q.id = b) {x y : Backends}
    (h : x.Alike b y) :
    (refreshQueriers qs y).1 = (refreshQueriers qs x).1 ∧
      (refreshQueriers qs y).2.1 = (refreshQueriers qs x).2.1 ∧
      (∀ q ∈ (refreshQueriers qs x).2.1, q.id = b) ∧
      (refreshQueriers qs x).2.2.Alike b (refreshQueriers qs y).2.2 := by
  induction qs generalizing x y with
  | nil => exact ⟨rfl, rfl, hqs, h⟩
  | cons q qs ih =>
    obtain ⟨hq, hrest⟩ := List.forall_mem_cons.1 hqs
    obtain ⟨hr, h'⟩ := (Querier.coincides_refresh hq).run x y h
    rcases hx : q.refresh x with ⟨e | q', x'⟩ <;> rcases hy : q.refresh y with ⟨r, y'⟩ <;>
      rw [hx, hy] at hr h' <;> obtain rfl := hr <;> simp only [refreshQueriers, hx, hy]
    · exact ⟨trivial, trivial, hqs, h'⟩
    · obtain ⟨hresult, hqueriers, hids, hbackends⟩ := ih hrest h'
      have hq' : q'.id = b := (Querier.id_refresh (congrArg Prod.fst hx)).trans hq
      exact ⟨hresult, congrArg _ hqueriers, List.forall_mem_cons.2 ⟨hq', hids⟩, hbackends⟩

theorem refreshQueriers_unseen (qs : List Querier) {x y : Backends} (h : x.Alike b y) :
    (refreshQueriers qs x).2.2.Alike b y := by
  induction qs generalizing x with
  | nil => exact h
  | cons q qs ih =>
    have h' := (Querier.unseen_refresh q).run x y h
    rcases hx : q.refresh x with ⟨e | q', x'⟩ <;> rw [hx] at h' <;>
      simp only [refreshQueriers, hx]
    · exact h'
    · exact ih h'

theorem coincides_refreshAll : Coincides (Alike b) refreshAll := by
  refine ⟨?_⟩
  rintro ⟨p, x⟩ ⟨p', y⟩ ⟨hp, hof, h⟩
  obtain rfl : p' = p := hp
  obtain ⟨hresult, hqueriers, hids, hbackends⟩ := refreshQueriers_alike hof h
  simp only [refreshAll, hresult, hqueriers]
  exact ⟨trivial, rfl, hids, hbackends⟩

theorem coincides_serveAt (place : Nat) : Coincides (Alike b) (serveAt place) := by
  refine ⟨?_⟩
  rintro ⟨p, x⟩ ⟨p', y⟩ ⟨hp, hof, h⟩
  obtain rfl : p' = p := hp
  simp only [serveAt]
  cases hget : p'.queriers[place]? with
  | none => exact ⟨rfl, rfl, hof, h⟩
  | some q =>
    have hq : q.id = b := hof q (List.mem_of_getElem? hget)
    obtain ⟨hresult, hbackends⟩ := (Querier.coincides_current hq).run x y h
    simp only [Querier.serve, hresult]
    refine ⟨trivial, rfl, fun q' hq' => ?_, hbackends⟩
    rcases List.mem_or_eq_of_mem_set hq' with hmem | rfl
    · exact hof q' hmem
    · exact hq

theorem serveAt_unseen (place : Nat) (p : QuerierPool) {x y : Backends} (h : x.Alike b y) :
    (serveAt place (p, x)).2.2.Alike b y := by
  simp only [serveAt]
  cases p.queriers[place]? with
  | none => exact h
  | some q => exact (Querier.unseen_current q).run x y h

end QuerierPool

namespace ReadSide

/-- The same pool of the dictionary, with queriers of its own, and backends that are alike. -/
structure Alike (b : DictionaryId) (r r' : ReadSide) : Prop where
  backends : r.backends.Alike b r'.backends
  pool : r'.pools.get? b = r.pools.get? b
  of : ∀ p, r.pools.get? b = some p → p.Of b

theorem Alike.insert {r r' : ReadSide} {x y : Backends} {p : QuerierPool} (hp : p.Of b)
    (h : x.Alike b y) :
    Alike b { r with backends := x, pools := r.pools.insert b p }
      { r' with backends := y, pools := r'.pools.insert b p } := by
  refine ⟨h, ?_, fun p' hp' => ?_⟩
  · rw [OrderedMap.get?_insert_self, OrderedMap.get?_insert_self]
  · rw [OrderedMap.get?_insert_self] at hp'
    exact Option.some.inj hp' ▸ hp

theorem Alike.insert_left {r r' : ReadSide} (h : r.Alike b r') {x : Backends}
    (hx : x.Alike b r'.backends) (hne : id ≠ b) (p : QuerierPool) :
    Alike b { r with backends := x, pools := r.pools.insert id p } r' := by
  have hsame : (r.pools.insert id p).get? b = r.pools.get? b :=
    OrderedMap.get?_insert_of_ne _ _ (Ne.symm hne)
  exact ⟨hx, h.pool.trans hsame.symm, fun p' hp' => h.of p' (hsame ▸ hp')⟩

theorem coincides_onBackends {α : Type} {x : Action Backends α}
    (hx : Coincides (Backends.Alike b) x) : Coincides (Alike b) (onBackends x) :=
  hx.within (fun _ _ h => h.backends) fun _ _ _ _ h hb => { h with backends := hb }

theorem unseen_onBackends {α : Type} {x : Action Backends α} (hx : Unseen (Backends.Alike b) x) :
    Unseen (Alike b) (onBackends x) :=
  hx.within (fun _ _ h => h.backends) fun _ _ _ h hb => { h with backends := hb }

theorem coincides_onPool {α : Type} {p : QuerierPool} (hp : p.Of b)
    {x : Action (QuerierPool × Backends) α} (hx : Coincides (QuerierPool.Alike b) x) :
    Coincides (Alike b) (onPool b p x) := by
  refine ⟨fun r r' h => ?_⟩
  obtain ⟨hresult, hpool, hof, hbackends⟩ := hx.run (p, r.backends) (p, r'.backends)
    ⟨rfl, hp, h.backends⟩
  refine ⟨hresult, ?_⟩
  simp only [onPool, Action.within_apply, hpool]
  exact .insert hof hbackends

theorem unseen_onPool {α : Type} (hne : id ≠ b) {p : QuerierPool}
    {x : Action (QuerierPool × Backends) α}
    (hx : ∀ y z : Backends, y.Alike b z → (x (p, y)).2.2.Alike b z) :
    Unseen (Alike b) (onPool id p x) :=
  ⟨fun _ _ h => h.insert_left (hx _ _ h.backends) hne _⟩

theorem coincides_countRefresh (n : Nat) : Coincides (Alike b) (countRefresh id n) :=
  .update fun _ _ h => { h with }

theorem unseen_countRefresh (n : Nat) : Unseen (Alike b) (countRefresh id n) :=
  ⟨fun _ _ h => { h with }⟩

theorem coincides_countSelection : Coincides (Alike b) (countSelection id) :=
  .update fun _ _ h => { h with }

theorem unseen_countSelection : Unseen (Alike b) (countSelection id) :=
  ⟨fun _ _ h => { h with }⟩

theorem coincides_refreshPool : Coincides (Alike b) (refreshPool b) := by
  refine ⟨fun r r' h => ?_⟩
  rw [refreshPool, Action.read_bind, Action.read_bind, h.pool]
  cases hget : r.pools.get? b with
  | none => exact ⟨rfl, h⟩
  | some p =>
    have hrefresh := coincides_onPool (h.of p hget) QuerierPool.coincides_refreshAll
    exact (hrefresh.bind fun _ => coincides_countRefresh _).run r r' h

theorem unseen_refreshPool (hne : id ≠ b) : Unseen (Alike b) (refreshPool id) := by
  refine ⟨fun r r' h => ?_⟩
  rw [refreshPool, Action.read_bind]
  cases r.pools.get? id with
  | none => exact h
  | some p =>
    have hrefresh : Unseen (Alike b) (onPool id p QuerierPool.refreshAll) :=
      unseen_onPool hne fun _ _ h => QuerierPool.refreshQueriers_unseen _ h
    exact (hrefresh.bind fun _ => unseen_countRefresh _).run r r' h

end ReadSide

namespace PooledRouter

variable (s : PooledRouter)

theorem coincides_pool : Coincides (ReadSide.Alike b) (s.pool b) := by
  refine ⟨fun r r' h => ?_⟩
  rw [pool, Action.read_bind, Action.read_bind, h.pool]
  cases r.pools.get? b with
  | some p => exact ⟨rfl, h⟩
  | none =>
    have hcreate := ReadSide.coincides_onBackends (QuerierPool.coincides_create (b := b) s.size
      s.storage s.mode)
    refine (hcreate.bind_of (P := fun p => p.Of b) ?_ fun p hp => ?_).run r r' h
    · intro r _ p _ hp
      exact QuerierPool.of_create hp
    · exact Coincides.bind (.update fun _ _ h => .insert hp h.backends) fun _ => .pure p

theorem unseen_pool (hne : id ≠ b) : Unseen (ReadSide.Alike b) (s.pool id) := by
  refine ⟨fun r r' h => ?_⟩
  rw [pool, Action.read_bind]
  cases r.pools.get? id with
  | some p => exact h
  | none =>
    have hcreate := ReadSide.unseen_onBackends (QuerierPool.unseen_create (b := b) id s.size
      s.storage s.mode)
    refine (hcreate.bind fun p => ?_).run r r' h
    exact ⟨fun _ _ h => h.insert_left h.backends hne p⟩

theorem of_pool {r r' : ReadSide} (h : r.Alike b r') {p : QuerierPool}
    (hp : (s.pool b r).1 = .ok p) : p.Of b := by
  rw [pool, Action.read_bind] at hp
  cases hget : r.pools.get? b with
  | some p' =>
    simp only [hget] at hp
    exact Except.ok.inj hp ▸ h.of p' hget
  | none =>
    simp only [hget] at hp
    rcases Action.bind_cases (Prod.ext hp rfl) with ⟨e, -, he⟩ | ⟨p', r₁, hcreate, hrest⟩
    · contradiction
    · obtain rfl : p' = p := Except.ok.inj (Prod.mk.inj hrest).1
      exact QuerierPool.of_create (congrArg Prod.fst hcreate)

theorem coincides_serve (pick : UInt8) : Coincides (ReadSide.Alike b) (s.serve b pick) := by
  refine s.coincides_pool.bind_of (P := fun p => p.Of b) (fun _ _ _ h => s.of_pool h) fun p hp => ?_
  refine ReadSide.coincides_countSelection.bind fun _ => ?_
  exact ReadSide.coincides_onPool hp (QuerierPool.coincides_serveAt _)

theorem unseen_serve (hne : id ≠ b) (pick : UInt8) :
    Unseen (ReadSide.Alike b) (s.serve id pick) := by
  refine (s.unseen_pool hne).bind fun p => ReadSide.unseen_countSelection.bind fun _ => ?_
  exact ReadSide.unseen_onPool hne fun _ _ h => QuerierPool.serveAt_unseen _ p h

end PooledRouter

namespace SingleRouter

/-- The querier of a dictionary is its own. -/
def Of (s : SingleRouter) (id : DictionaryId) : Prop := ∀ q, s.queriers.get? id = some q → q.id = id

structure Alike (b : DictionaryId) (x y : SingleRouter × ReadSide) : Prop where
  router : y.1 = x.1
  of : x.1.Of b
  reads : x.2.Alike b y.2

theorem Of.insert {s : SingleRouter} {q : Querier} (hq : q.id = b) :
    Of { s with queriers := s.queriers.insert b q } b := by
  intro q' hq'
  rw [OrderedMap.get?_insert_self] at hq'
  exact Option.some.inj hq' ▸ hq

theorem coincides_querier : Coincides (Alike b) (querier b) := by
  refine ⟨?_⟩
  rintro ⟨s, r⟩ ⟨s', r'⟩ ⟨hs, hof, h⟩
  obtain rfl : s' = s := hs
  simp only [querier]
  cases s'.queriers.get? b with
  | some q => exact ⟨rfl, rfl, hof, h⟩
  | none =>
    have hcreate : Coincides (Backends.Alike b) (Querier.create 0 b s'.storage s'.mode) :=
      Querier.coincides_refresh rfl
    obtain ⟨hr, h'⟩ := (ReadSide.coincides_onBackends hcreate).run r r' h
    rcases hx : ReadSide.onBackends (Querier.create 0 b s'.storage s'.mode) r with ⟨e | q, r₁⟩ <;>
      rcases hy : ReadSide.onBackends (Querier.create 0 b s'.storage s'.mode) r' with ⟨res, r₁'⟩ <;>
      rw [hx, hy] at hr h' <;> obtain rfl := hr
    · exact ⟨rfl, rfl, hof, h'⟩
    · exact ⟨rfl, rfl, .insert (Querier.id_refresh (congrArg Prod.fst hx)), h'⟩

theorem id_querier {x y : SingleRouter × ReadSide} (h : Alike b x y) {q : Querier}
    (hq : (querier b x).1 = .ok q) : q.id = b := by
  obtain ⟨s, r⟩ := x
  simp only [querier] at hq
  cases hget : s.queriers.get? b with
  | some q' =>
    simp only [hget] at hq
    exact Except.ok.inj hq ▸ h.of q' hget
  | none =>
    simp only [hget] at hq
    rcases hx : ReadSide.onBackends (Querier.create 0 b s.storage s.mode) r with ⟨e | q', r₁⟩ <;>
      simp only [hx] at hq
    · contradiction
    · rw [← Except.ok.inj hq]
      exact Querier.id_refresh (congrArg Prod.fst hx)

theorem unseen_querier (id : DictionaryId) :
    Unseen (fun x y => x.2.Alike b y.2) (querier id) := by
  refine ⟨?_⟩
  rintro ⟨s, r⟩ y h
  simp only [querier]
  cases s.queriers.get? id with
  | some q => exact h
  | none =>
    have h' := (ReadSide.unseen_onBackends (Querier.unseen_refresh
      { index := 0, id, storage := s.storage, mode := s.mode })).run r y.2 h
    change (ReadSide.onBackends (Querier.create 0 id s.storage s.mode) r).2.Alike b y.2 at h'
    rcases hx : ReadSide.onBackends (Querier.create 0 id s.storage s.mode) r with ⟨e | q, r₁⟩ <;>
      rw [hx] at h' <;> exact h'

theorem coincides_serve : Coincides (Alike b) (serve b) := by
  refine coincides_querier.bind_of (P := fun q => q.id = b) (fun _ _ _ h => id_querier h)
    fun q hq => ⟨?_⟩
  rintro ⟨s, r⟩ ⟨s', r'⟩ ⟨hs, -, h⟩
  obtain rfl : s' = s := hs
  obtain ⟨hr, hbackends⟩ := (Querier.coincides_current hq).run r.backends r'.backends h.backends
  simp only [Querier.serve, hr]
  exact ⟨trivial, rfl, .insert hq, { h with backends := hbackends }⟩

theorem unseen_serve (id : DictionaryId) : Unseen (fun x y => x.2.Alike b y.2) (serve id) := by
  refine (unseen_querier id).bind fun q => ⟨?_⟩
  rintro ⟨s, r⟩ y h
  exact { h with backends := (Querier.unseen_current q).run _ _ h.backends }

theorem coincides_checkForUpdate : Coincides (Alike b) (checkForUpdate b) := by
  refine ⟨?_⟩
  rintro ⟨s, r⟩ ⟨s', r'⟩ ⟨hs, hof, h⟩
  obtain rfl : s' = s := hs
  simp only [checkForUpdate]
  cases hget : s'.queriers.get? b with
  | none => exact ⟨rfl, rfl, hof, h⟩
  | some q =>
    have hq : q.id = b := hof q hget
    obtain ⟨hr, h'⟩ :=
      (ReadSide.coincides_onBackends (Querier.coincides_refresh hq)).run r r' h
    dsimp only
    rcases hx : ReadSide.onBackends q.refresh r with ⟨e | q', r₁⟩ <;>
      rcases hy : ReadSide.onBackends q.refresh r' with ⟨res, r₁'⟩ <;>
      rw [hx, hy] at hr h' <;> obtain rfl := hr
    · exact ⟨rfl, rfl, hof, h'⟩
    · exact ⟨rfl, rfl, .insert ((Querier.id_refresh (congrArg Prod.fst hx)).trans hq), h'⟩

theorem unseen_checkForUpdate (id : DictionaryId) :
    Unseen (fun x y => x.2.Alike b y.2) (checkForUpdate id) := by
  refine ⟨?_⟩
  rintro ⟨s, r⟩ y h
  simp only [checkForUpdate]
  cases s.queriers.get? id with
  | none => exact h
  | some q =>
    have h' := (ReadSide.unseen_onBackends (Querier.unseen_refresh q)).run r y.2 h
    dsimp only
    rcases hx : ReadSide.onBackends q.refresh r with ⟨e | q', r₁⟩ <;> rw [hx] at h' <;> exact h'

end SingleRouter

namespace Router

/-- The querier that a router keeps of a dictionary is its own. -/
def Of (id : DictionaryId) : Router → Prop
  | single s => s.Of id
  | pooled _ => True

structure Alike (b : DictionaryId) (x y : Router × ReadSide) : Prop where
  router : y.1 = x.1
  of : x.1.Of b
  reads : x.2.Alike b y.2

theorem coincides_run {α : Type} {onSingle : Action (SingleRouter × ReadSide) α}
    {onPooled : PooledRouter → Action ReadSide α}
    (hsingle : Coincides (SingleRouter.Alike b) onSingle)
    (hpooled : ∀ p, Coincides (ReadSide.Alike b) (onPooled p)) :
    Coincides (Alike b) (run onSingle onPooled) := by
  refine ⟨?_⟩
  rintro ⟨router, r⟩ ⟨router', r'⟩ ⟨hrouter, hof, h⟩
  obtain rfl : router' = router := hrouter
  cases router' with
  | single s =>
    obtain ⟨hr, hs, hof', h'⟩ := hsingle.run (s, r) (s, r') ⟨rfl, hof, h⟩
    exact ⟨hr, congrArg single hs, hof', h'⟩
  | pooled p =>
    obtain ⟨hr, h'⟩ := (hpooled p).run r r' h
    exact ⟨hr, rfl, trivial, h'⟩

theorem unseen_run {α : Type} {onSingle : Action (SingleRouter × ReadSide) α}
    {onPooled : PooledRouter → Action ReadSide α}
    (hsingle : Unseen (fun x y => x.2.Alike b y.2) onSingle)
    (hpooled : ∀ p, Unseen (ReadSide.Alike b) (onPooled p)) :
    Unseen (fun x y => x.2.Alike b y.2) (run onSingle onPooled) := by
  refine ⟨?_⟩
  rintro ⟨router, r⟩ y h
  cases router with
  | single s =>
    -- the router of the other state does not matter
    exact hsingle.run (s, r) (s, y.2) h
  | pooled p => exact (hpooled p).run r y.2 h

theorem coincides_lookup (label : Label) (pick : UInt8) :
    Coincides (Alike b) (lookup b label pick) :=
  (coincides_run SingleRouter.coincides_serve fun p => p.coincides_serve pick).bind fun _ => .pure _

theorem coincides_lookupMany (labels : List Label) (pick : UInt8) :
    Coincides (Alike b) (lookupMany b labels pick) :=
  (coincides_run SingleRouter.coincides_serve fun p => p.coincides_serve pick).bind fun _ => .pure _

theorem coincides_checkForUpdate : Coincides (Alike b) (checkForUpdate b) :=
  coincides_run SingleRouter.coincides_checkForUpdate fun _ => ReadSide.coincides_refreshPool

theorem unseen_lookup (hne : id ≠ b) (label : Label) (pick : UInt8) :
    Unseen (fun x y => x.2.Alike b y.2) (lookup id label pick) :=
  (unseen_run (SingleRouter.unseen_serve id) fun p => p.unseen_serve hne pick).bind fun _ => .pure _

theorem unseen_lookupMany (hne : id ≠ b) (labels : List Label) (pick : UInt8) :
    Unseen (fun x y => x.2.Alike b y.2) (lookupMany id labels pick) :=
  (unseen_run (SingleRouter.unseen_serve id) fun p => p.unseen_serve hne pick).bind fun _ => .pure _

theorem unseen_checkForUpdate (hne : id ≠ b) :
    Unseen (fun x y => x.2.Alike b y.2) (checkForUpdate id) :=
  unseen_run (SingleRouter.unseen_checkForUpdate id) fun _ => ReadSide.unseen_refreshPool hne

end Router

end AuthDict
