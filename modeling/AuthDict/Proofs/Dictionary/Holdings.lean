import AuthDict.Dictionary.Basic
import AuthDict.Proofs.Action

/-!
# What a service holds for a dictionary

A dictionary lives at a `Site`. Of all that a service keeps, its operations depend on four things:
the stored elements, the stored trie, the queue of updates and the querier pool. `Service.holdings`
is this view. Each operation on a service is described once, by what it does to the view, and no
later proof looks into backends and registries again.

Reading a backend changes only the count of its calls, so it keeps the view whatever fails.
-/
namespace AuthDict

/-- What is stored of an entry. -/
def Entry.element (e : Entry) : StoredElement := ⟨e.payload, e.randomness⟩

/-- Where a dictionary lives: its identifier, the backend it writes and its registry. -/
structure Site where
  id : DictionaryId
  storage : StorageRef
  registry : RegistryRef

structure Holdings where
  elements : Bytes → Option StoredElement
  trie : Option Trie
  queue : List Update
  pool : Option QuerierPool

namespace Holdings

def none : Holdings := ⟨fun _ => .none, .none, [], .none⟩

def current (h : Holdings) : Trie := h.trie.getD {}

def withElement (h : Holdings) (key : Bytes) (element : StoredElement) : Holdings :=
  { h with elements := fun k => if k = key then some element else h.elements k }

def enqueue (h : Holdings) (us : List Update) : Holdings := { h with queue := h.queue ++ us }

end Holdings

def Service.holdings (s : Service) (p : Site) : Holdings where
  elements key := (s.backends.get p.storage).elements.get? ⟨p.id, key⟩
  trie := (s.backends.get p.storage).tries.get? p.id
  queue := (s.registry p.registry).pending.queue p.id
  pool := (s.registry p.registry).pools.get? p.id

namespace Service

@[simp] theorem registry_setRegistry_self (s : Service) (ref : RegistryRef) (r : Registry) :
    (s.setRegistry ref r).registry ref = r := by
  simp [registry, setRegistry]

theorem registry_setRegistry_of_ne (s : Service) {ref ref' : RegistryRef} (r : Registry)
    (h : ref' ≠ ref) : (s.setRegistry ref r).registry ref' = s.registry ref' := by
  simp [registry, setRegistry, OrderedMap.get?_insert_of_ne _ r h]

/-- Replacing a registry by one with the same queue and pool of the dictionary keeps the view. -/
theorem holdings_setRegistry {s : Service} {p : Site} {ref : RegistryRef} {r : Registry}
    (hq : ref = p.registry → r.pending.queue p.id = (s.registry p.registry).pending.queue p.id)
    (hp : ref = p.registry → r.pools.get? p.id = (s.registry p.registry).pools.get? p.id) :
    (s.setRegistry ref r).holdings p = s.holdings p := by
  by_cases h : ref = p.registry
  · have hq := hq h
    have hp := hp h
    subst h
    simp only [holdings, registry_setRegistry_self, hq, hp]
    rfl
  · simp only [holdings, registry_setRegistry_of_ne s r (Ne.symm h)]
    rfl

end Service

/-- The same elements and tries; the failures to come may differ. -/
structure Storage.Agrees (s t : Storage) : Prop where
  elements : t.elements = s.elements
  tries : t.tries = s.tries

theorem Storage.Agrees.refl (s : Storage) : s.Agrees s := ⟨rfl, rfl⟩

theorem Storage.Agrees.trans {s t u : Storage} (h : s.Agrees t) (k : t.Agrees u) : s.Agrees u :=
  ⟨k.elements.trans h.elements, k.tries.trans h.tries⟩

def Backends.Agrees (b c : Backends) : Prop := ∀ ref, (b.get ref).Agrees (c.get ref)

theorem Backends.Agrees.refl (b : Backends) : b.Agrees b := fun _ => .refl _

theorem Backends.Agrees.trans {b c d : Backends} (h : b.Agrees c) (k : c.Agrees d) : b.Agrees d :=
  fun ref => (h ref).trans (k ref)

theorem Storage.loadTrie_agrees (id : DictionaryId) (s : Storage) : s.Agrees (loadTrie id s).2 := by
  simp only [loadTrie]
  split <;> exact ⟨rfl, rfl⟩

theorem Storage.loadElement_agrees (id : DictionaryId) (key : Bytes) (s : Storage) :
    s.Agrees (loadElement id key s).2 := by
  simp only [loadElement]
  split <;> exact ⟨rfl, rfl⟩

theorem Storage.loadTrie_ok {id : DictionaryId} {s s' : Storage} {t : Option Trie}
    (h : loadTrie id s = (.ok t, s')) : t = s.tries.get? id := by
  simp only [loadTrie] at h
  split at h
  · simp at h
  · simpa using (Prod.mk.inj h).1.symm

theorem Storage.loadTrie_error {id : DictionaryId} {s s' : Storage} {e : Error}
    (h : loadTrie id s = (.error e, s')) : ∃ fault, e = .storage fault := by
  simp only [loadTrie] at h
  split at h
  · exact ⟨_, (Except.error.inj (Prod.mk.inj h).1).symm⟩
  · simp at h

theorem Storage.loadElement_error {id : DictionaryId} {key : Bytes} {s s' : Storage} {e : Error}
    (h : loadElement id key s = (.error e, s')) : ∃ fault, e = .storage fault := by
  simp only [loadElement] at h
  split at h
  · exact ⟨_, (Except.error.inj (Prod.mk.inj h).1).symm⟩
  · simp at h

theorem Storage.loadElement_ok {id : DictionaryId} {key : Bytes} {s s' : Storage}
    {e : Option StoredElement} (h : loadElement id key s = (.ok e, s')) :
    e = s.elements.get? ⟨id, key⟩ := by
  simp only [loadElement] at h
  split at h
  · simp at h
  · simpa using (Prod.mk.inj h).1.symm

namespace Backends

theorem agrees_set {b : Backends} {ref : StorageRef} {s : Storage} (h : (b.get ref).Agrees s) :
    b.Agrees (b.set ref s) := by
  intro ref'
  by_cases he : ref' = ref
  · subst he
    rwa [get_set_self]
  · rw [get_set_of_ne b s he]
    exact .refl _

theorem on_apply {α : Type} (ref : StorageRef) (x : Action Storage α) (b : Backends) :
    on ref x b = ((x (b.get ref)).1, b.set ref (x (b.get ref)).2) := rfl

end Backends

theorem Service.holdings_of_agrees {s : Service} {b : Backends} (h : s.backends.Agrees b)
    (p : Site) : ({ s with backends := b } : Service).holdings p = s.holdings p := by
  simp only [holdings, (h p.storage).elements, (h p.storage).tries]
  rfl

end AuthDict
