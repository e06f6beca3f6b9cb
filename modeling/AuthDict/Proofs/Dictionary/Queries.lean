import AuthDict.Proofs.Label.Cache
import AuthDict.Proofs.Query.Sources
import AuthDict.Proofs.Dictionary.Operations
import Mathlib.Data.List.Forall2

/-!
# Queries

What the reading operations of a handle do to the handle and to the service, and what they return.
They change the cache, the router and the querier pool, which stay sound; all else of the handle
and of the dictionary's holdings is as it was at the start. An answer belongs to a path in one of
the source's tries, and a member's payload is the stored one.
-/
namespace AuthDict

/-- Nothing but pools and counts has changed since. -/
structure Service.Looked (first s : Service) : Prop where
  backends : first.backends.Agrees s.backends
  pending : ∀ ref, (s.registry ref).pending = (first.registry ref).pending
  schedulers : s.schedulers = first.schedulers

theorem Service.Looked.refl (s : Service) : s.Looked s := ⟨.refl _, fun _ => rfl, rfl⟩

theorem Service.Looked.holdings {first s : Service} (h : first.Looked s) (p : Site) :
    s.holdings p = { first.holdings p with pool := (s.holdings p).pool } := by
  simp only [Service.holdings, (h.backends p.storage).elements, (h.backends p.storage).tries,
    h.pending]

theorem Service.Looked.loadElement {first s s' : Service} (h : first.Looked s) {ref : StorageRef}
    {id : DictionaryId} {key : Bytes} {r : Except Error (Option StoredElement)}
    (hr : Service.onStorage ref (Storage.loadElement id key) s = (r, s')) :
    first.Looked s' ∧ (∀ ref, s'.registry ref = s.registry ref) ∧
      ((∃ fault, r = .error (.storage fault)) ∨
        r = .ok ((first.backends.get ref).elements.get? ⟨id, key⟩)) := by
  have hload := Storage.loadElement_agrees id key (s.backends.get ref)
  rcases hl : Storage.loadElement id key (s.backends.get ref) with ⟨r', t⟩
  rw [hl] at hload
  rw [Service.onStorage_apply, hl] at hr
  obtain ⟨rfl, rfl⟩ := Prod.mk.inj hr
  refine ⟨⟨h.backends.trans (Backends.agrees_set hload), h.pending, h.schedulers⟩,
    fun _ => rfl, ?_⟩
  cases r' with
  | error e =>
    obtain ⟨fault, rfl⟩ := Storage.loadElement_error hl
    exact .inl ⟨fault, rfl⟩
  | ok found =>
    rw [Storage.loadElement_ok hl, (h.backends ref).elements]
    exact .inr rfl

namespace Dictionary

/-- A handle and the service after some reading operations: `d` and `first` are those before. -/
structure Looking (x : Source) (d : Dictionary) (first : Service) (st : Dictionary × Service) :
    Prop where
  same : st.1 = { d with cache := st.1.cache, router := st.1.router }
  cache : st.1.cache.Sound d.secret
  router : x.FeedsRouter st.1.router
  service : first.Looked st.2
  pool : ∀ p, (st.2.registry d.registry).pools.get? x.id = some p → x.FeedsPool p

/-- An answer for a key is a member's with the stored payload, or shows an absent label. -/
inductive Resolves (elements : Bytes → Option StoredElement) (key : Bytes) (path : LookupPath)
    (proof : Option LabelProof) : Answer → Prop
  | member {element : StoredElement} : path.isMember = true → elements key = some element →
      Resolves elements key path proof (.member element.payload element.randomness path proof)
  | absent : path.isMember = false → Resolves elements key path proof (.absent path proof)

/-- The errors of queries: those of lookups and of backends, and the missing element of a member. -/
inductive QueryFault (elements : Bytes → Option StoredElement) (key : Bytes) (path : LookupPath) :
    Error → Prop
  | storage (fault : StorageFault) : QueryFault elements key path (.storage fault)
  | missing (id : DictionaryId) : path.isMember = true → elements key = none →
      QueryFault elements key path (.missingElement path.label id)

variable {x : Source} {d : Dictionary} {first : Service}

theorem Looking.exists_eq {d' : Dictionary} {s : Service} (h : Looking x d first (d', s)) :
    ∃ cache router, d' = { d with cache, router } := ⟨_, _, h.same⟩

/-- The dictionary's own elements in the backend that queries read. -/
def queryElements (d : Dictionary) (s : Service) (key : Bytes) : Option StoredElement :=
  (s.backends.get d.queryStorage).elements.get? ⟨d.id, key⟩

theorem deriveLabel_ensures (key : Bytes) :
    LooksUp (Looking x d first) (deriveLabel key) fun l => l = d.secret.derive key := by
  rintro ⟨d', s⟩ h
  obtain ⟨cache, router, rfl⟩ := h.exists_eq
  refine ⟨⟨rfl, h.cache.derive_snd key, h.router, h.service, h.pool⟩, fun l hl => ?_, ?_⟩
  · rw [← h.cache.derive_fst key]
    exact (Except.ok.inj hl).symm
  · simp [deriveLabel, Action.total_apply]

theorem deriveLabels_ensures (keys : List Bytes) :
    LooksUp (Looking x d first) (deriveLabels keys) fun ls => ls = keys.map d.secret.derive := by
  induction keys with
  | nil => exact .pure rfl
  | cons key keys ih =>
    refine (deriveLabel_ensures key).bind fun l hl => ih.bind fun ls hls => .pure ?_
    rw [hl, hls, List.map_cons]

theorem onRouter_ensures {α : Type} (first : Service)
    (y : DictionaryId → Action (Router × ReadSide) α) {R : α → Prop} (hid : d.id = x.id)
    (hy : LooksUp (x.FeedsLookups first.backends) (y x.id) R) :
    LooksUp (Looking x d first) (onRouter y) R := by
  rintro ⟨d', s⟩ h
  obtain ⟨cache, router, rfl⟩ := h.exists_eq
  obtain ⟨⟨hrouter, hreads⟩, hresult⟩ := hy (router, s.readSide d.registry)
    ⟨h.router, h.service.backends, h.pool⟩
  simp only [onRouter, Service.onRouter, Action.within_apply, hid]
  have hself : (s.setReadSide d.registry (y x.id (router, s.readSide d.registry)).2.2).registry
      d.registry = { s.registry d.registry with
        pools := (y x.id (router, s.readSide d.registry)).2.2.pools } :=
    Service.registry_setRegistry_self ..
  refine ⟨⟨by rw [hid], h.cache, hrouter, ⟨hreads.agrees, fun ref => ?_, h.service.schedulers⟩,
    fun p hp => hreads.pool p (by rwa [hself] at hp)⟩, hresult⟩
  rw [← h.service.pending ref]
  by_cases he : ref = d.registry
  · rw [he, hself]
  · exact congrArg Registry.pending (Service.registry_setRegistry_of_ne s _ he)

/-- A path is resolved from the elements that were there at the start. -/
theorem resolve_ensures (x : Source) (d : Dictionary) (first : Service) (key : Bytes)
    (path : LookupPath) (proof : Option LabelProof) :
    Action.Ensures (Looking x d first) (onService (resolve key path proof))
      (Resolves (d.queryElements first) key path proof)
      (QueryFault (d.queryElements first) key path) := by
  rintro ⟨d', s⟩ h
  obtain ⟨cache, router, rfl⟩ := h.exists_eq
  simp only [onService, resolve]
  cases hmember : path.isMember with
  | false => exact Action.Ensures.pure (Resolves.absent hmember) _ h
  | true =>
    simp only [if_true]
    rcases hr : Service.onStorage d.queryStorage (Storage.loadElement d.id key) s with ⟨r, s'⟩
    obtain ⟨hlooked, hreg, hresult⟩ := h.service.loadElement hr
    have hlooking : Looking x d first ({ d with cache, router }, s') :=
      ⟨rfl, h.cache, h.router, hlooked, by rw [hreg]; exact h.pool⟩
    rcases hresult with ⟨fault, rfl⟩ | rfl
    · rw [Action.bind_error hr]
      exact ⟨hlooking, by simp, fun _ he => Except.error.inj he ▸ .storage fault⟩
    · rw [Action.bind_ok hr]
      cases hfound : (first.backends.get d.queryStorage).elements.get? ⟨d.id, key⟩ with
      | some element => exact Action.Ensures.pure (Resolves.member hmember hfound) _ hlooking
      | none => exact Action.Ensures.fail (QueryFault.missing d.id hmember hfound) _ hlooking

theorem onService_bind {α β : Type} (y : Dictionary → Action Service α)
    (f : α → Dictionary → Action Service β) :
    onService (fun d => y d >>= fun a => f a d) = (onService y >>= fun a => onService (f a)) := by
  funext ⟨d, s⟩
  simp only [onService, Action.bind_apply]
  rcases y d s with ⟨e | a, s'⟩ <;> rfl

theorem onService_pure {α : Type} (a : α) :
    onService (fun _ => (pure a : Action Service α)) = pure a := rfl

theorem resolveAll_ensures (t : Option Trie) (keys : List Bytes) :
    Action.Ensures (Looking x d first)
      (onService fun d' => resolveAll d' keys (keys.map d.secret.derive)
        (keys.map fun key => Querier.answer t (d.secret.label key)))
      (List.Forall₂ (fun key => Resolves (d.queryElements first) key
        (Querier.answer t (d.secret.label key)) (d.secret.derive key).proof) keys)
      (fun e => ∃ key ∈ keys, QueryFault (d.queryElements first) key
        (Querier.answer t (d.secret.label key)) e) := by
  induction keys with
  | nil => exact .pure .nil
  | cons key keys ih =>
    have hresolve := resolve_ensures x d first key
      (Querier.answer t (d.secret.label key)) (d.secret.derive key).proof
    simp only [List.map_cons, resolveAll, onService_bind, onService_pure]
    refine (hresolve.weaken (fun _ ha => ha) fun e he => ⟨key, List.mem_cons_self, he⟩).bind
      fun a ha => ?_
    refine (ih.weaken (fun _ has => has) ?_).bind fun as has => .pure (.cons ha has)
    rintro e ⟨key', hmem, he⟩
    exact ⟨key', List.mem_cons_of_mem _ hmem, he⟩

/-- A query is answered from one trie of the source, and from the stored element of its key. -/
theorem query_ensures (hid : d.id = x.id) (h : x.Holds first.backends) (key : Bytes)
    (pick : UInt8) :
    Action.Ensures (Looking x d first) (query key pick)
      (fun a => ∃ t : Option Trie, x.answers (t.getD {}) ∧ Resolves (d.queryElements first) key
        (Querier.answer t (d.secret.label key)) (d.secret.derive key).proof a)
      (fun e => e.IsLookup ∨ ∃ t : Option Trie, x.answers (t.getD {}) ∧
        QueryFault (d.queryElements first) key (Querier.answer t (d.secret.label key)) e) := by
  refine ((deriveLabel_ensures key).weaken (fun _ hl => hl) fun _ he => .inl he).bind fun l hl => ?_
  have hlabel : l.label = d.secret.label key := by rw [hl, LabelSecret.label_derive]
  have hlookup := onRouter_ensures (d := d) first (Router.lookup · l.label pick) hid
    (Source.lookup_ensures h l.label pick)
  apply (hlookup.weaken (fun _ hp => hp) fun _ he => .inl he).bind
  rintro path ⟨t, ht, rfl⟩
  rw [hlabel, hl]
  exact (resolve_ensures x d first key _ _).weaken (fun _ ha => ⟨t, ht, ha⟩) fun _ he => .inr ⟨t, ht, he⟩

theorem queryMany_ensures (hid : d.id = x.id) (h : x.Holds first.backends) (keys : List Bytes)
    (pick : UInt8) :
    Action.Ensures (Looking x d first) (queryMany keys pick)
      (fun as => ∃ t : Option Trie, x.answers (t.getD {}) ∧
        List.Forall₂ (fun key => Resolves (d.queryElements first) key
          (Querier.answer t (d.secret.label key)) (d.secret.derive key).proof) keys as)
      (fun e => e.IsLookup ∨ ∃ t : Option Trie, x.answers (t.getD {}) ∧ ∃ key ∈ keys,
        QueryFault (d.queryElements first) key (Querier.answer t (d.secret.label key)) e) := by
  refine ((deriveLabels_ensures keys).weaken (fun _ hl => hl) fun _ he => .inl he).bind
    fun ls hls => ?_
  have hlabels : ls.map (·.label) = keys.map d.secret.label := by
    rw [hls, List.map_map]
    exact List.map_congr_left fun key _ => d.secret.label_derive key
  have hlookup := onRouter_ensures (d := d) first (Router.lookupMany · (ls.map (·.label)) pick) hid
    (Source.lookupMany_ensures h (ls.map (·.label)) pick)
  apply (hlookup.weaken (fun _ hp => hp) fun _ he => .inl he).bind
  rintro paths ⟨t, ht, rfl⟩
  rw [hlabels, hls, List.map_map]
  exact (resolveAll_ensures t keys).weaken (fun _ ha => ⟨t, ht, ha⟩) fun _ he => .inr ⟨t, ht, he⟩

theorem checkForUpdate_ensures (hid : d.id = x.id) (h : x.Holds first.backends) :
    LooksUp (Looking x d first) checkForUpdate fun _ => True :=
  onRouter_ensures first Router.checkForUpdate hid (Source.checkForUpdate_ensures h)

end Dictionary

end AuthDict
