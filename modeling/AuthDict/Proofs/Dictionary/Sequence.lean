import AuthDict.Proofs.Dictionary.BatchSafety
import AuthDict.Proofs.Dictionary.Turns

/-!
# Batches of one worker

A batch queues the updates of all its entries at once, after it has written them, and an insertion
queues its own update at once. The two come to the same: queueing reads nothing that a write
changes, and a write reads nothing of the queue, so an update may be queued before the writes that
follow it or after them (`writeEntry_queued`). From this a batch of one worker leaves what inserting
its entries one after the other leaves, and returns the error at which that stops.
-/
namespace AuthDict

theorem Backends.set_set (b : Backends) (ref : StorageRef) (s t : Storage) :
    (b.set ref s).set ref t = b.set ref t := by
  rw [set, set, set, OrderedMap.insert_insert]

namespace Shards.Crew

variable {α σ : Type} {write : α → Action σ Update} {c c₁ c₂ : Crew α σ}

theorem Step.length_workers (h : Step write c c₁) : c₁.workers.length = c.workers.length := by
  cases h with
  | worker hs => simp only [List.length_append, List.length_cons]

/-- The only worker is the one who takes the step. -/
theorem Step.turns_of_one (hone : c.workers.length ≤ 1) (h : Step write c c₁) :
    Turns write [0] c c₁ := by
  cases h with
  | @worker before after w w' abort abort' s s' hs =>
    have hbefore : before = [] := by
      simp only [List.length_append, List.length_cons] at hone
      exact List.length_eq_zero_iff.1 (by omega)
    subst hbefore
    exact @Turns.cons _ _ _ [] after _ _ _ _ _ _ _ _ hs .nil

theorem Step.not_ended (h : Step write c c₁) : ¬ c.Ended := by
  intro hended
  cases h with
  | @worker before after w w' abort abort' s s' hs =>
    obtain ⟨error, hphase⟩ := hended w (by simp)
    have hwork := hs.work_lt
    rw [hphase] at hwork
    exact Nat.not_lt_zero _ hwork

/-- One worker alone can end in one way only. -/
theorem Run.unique_of_one (hone : c.workers.length ≤ 1) (h : Run write c c₁) (h₁ : c₁.Ended)
    (k : Run write c c₂) (h₂ : c₂.Ended) : c₁ = c₂ := by
  induction h using Relation.ReflTransGen.head_induction_on with
  | refl =>
    cases k.cases_head with
    | inl heq => exact heq
    | inr hstep =>
      obtain ⟨_, hstep, -⟩ := hstep
      exact absurd h₁ hstep.not_ended
  | head hstep _ ih =>
    cases k.cases_head with
    | inl heq =>
      subst heq
      exact absurd h₂ hstep.not_ended
    | inr hsteps =>
      obtain ⟨c', hstep', hrest⟩ := hsteps
      obtain rfl := (hstep.turns_of_one hone).unique (hstep'.turns_of_one hone)
      exact ih (hstep.length_workers ▸ hone) hrest

end Shards.Crew

theorem Metrics.set_set (m : Metrics) (id : DictionaryId) (metric : Metric) (n k : Nat) :
    (m.set id metric n).set id metric k = m.set id metric k := by
  unfold set
  congr 1
  funext i j
  by_cases h : i = id ∧ j = metric
  · rw [if_pos h, if_pos h]
  · simp only [if_neg h]

theorem WriteSide.enqueue_enqueue (w : WriteSide) (id : DictionaryId) (us vs : List Update) :
    (w.enqueue id us).enqueue id vs = w.enqueue id (us ++ vs) := by
  cases us with
  | nil => rfl
  | cons u us =>
    cases vs with
    | nil => rw [List.append_nil]; rfl
    | cons v vs =>
      have hpending : (w.pending.enqueue id (u :: us)).enqueue id (v :: vs) =
          w.pending.enqueue id (u :: us ++ v :: vs) := by
        simp only [PendingTable.enqueue, PendingTable.queue_setQueue_self, List.append_assoc]
        simp only [PendingTable.setQueue, OrderedMap.insert_insert]
      simp only [enqueue, List.isEmpty_cons, List.cons_append, Bool.false_eq_true, if_false]
      rw [hpending, Metrics.set_set]
      rfl

namespace Service

variable {u : Updater} {w w' : WriteSide} {s : Service}

/-- Putting a hook back where it was found changes nothing. -/
theorem setWriteSide_eq (h : w.hook = (s.writeSide u).hook) :
    s.setWriteSide u w =
      { s.setRegistry u.registry { s.registry u.registry with pending := w.pending } with
        backends := s.backends.set u.storage w.storage
        metrics := w.metrics } := by
  have hhooks : (s.setWriteSide u w).hooks = s.hooks := by
    simp only [setWriteSide, writeSide] at h ⊢
    split
    · next ref hook href hhook =>
      rw [href, hhook] at h
      exact OrderedMap.insert_of_get? h.symm
    · rfl
  simp only [setWriteSide] at hhooks ⊢
  rw [hhooks]
  rfl

theorem writeSide_setWriteSide (h : w.hook = (s.writeSide u).hook) :
    (s.setWriteSide u w).writeSide u = w := by
  have hhook : u.hook.bind s.hooks.get? = w.hook := h.symm
  rw [setWriteSide_eq h]
  simp only [writeSide, setRegistry, registry, OrderedMap.get?_insert_self, Option.getD_some,
    Backends.get_set_self, hhook]

theorem setWriteSide_setWriteSide (h : w.hook = (s.writeSide u).hook)
    (h' : w'.hook = (s.writeSide u).hook) :
    (s.setWriteSide u w).setWriteSide u w' = s.setWriteSide u w' := by
  have hhook : w'.hook = ((s.setWriteSide u w).writeSide u).hook := by
    rw [writeSide_setWriteSide h, h, h']
  rw [setWriteSide_eq hhook, setWriteSide_eq h', setWriteSide_eq h]
  simp only [setRegistry, registry, OrderedMap.get?_insert_self, OrderedMap.insert_insert,
    Backends.set_set, Option.getD_some]

end Service

namespace Dictionary

open Service Shards
open Holdings (Stored)

variable {d : Dictionary} {policy : FailurePolicy} {s t : Service} {entries : List Entry}

/-- The service once updates of the dictionary are queued. -/
def queued (d : Dictionary) (us : List Update) (s : Service) : Service :=
  s.setWriteSide d.updater ((s.writeSide d.updater).enqueue d.id us)

theorem enqueue_eq_queued (d : Dictionary) (us : List Update) (s : Service) :
    d.updater.enqueue d.id us s = (.ok (), d.queued us s) := rfl

theorem hook_enqueue (w : WriteSide) (id : DictionaryId) (us : List Update) :
    (w.enqueue id us).hook = w.hook := by
  unfold WriteSide.enqueue
  split <;> rfl

theorem queued_queued (d : Dictionary) (us vs : List Update) (s : Service) :
    d.queued vs (d.queued us s) = d.queued (us ++ vs) s := by
  have hhook := hook_enqueue (s.writeSide d.updater) d.id us
  rw [queued, queued, writeSide_setWriteSide hhook, WriteSide.enqueue_enqueue,
    setWriteSide_setWriteSide hhook (hook_enqueue ..)]
  rfl

/-- Queueing leaves the backends as they are. -/
theorem backends_queued (d : Dictionary) (us : List Update) (s : Service) :
    (d.queued us s).backends =
      s.backends.set d.updater.storage (s.backends.get d.updater.storage) := by
  rw [queued, setWriteSide_eq (hook_enqueue ..)]
  unfold WriteSide.enqueue
  split <;> rfl

theorem queued_withBackends (d : Dictionary) (us : List Update) (s : Service) {b : Backends}
    (hb : b.set d.updater.storage (b.get d.updater.storage) = b) :
    d.queued us { s with backends := b } = { d.queued us s with backends := b } := by
  conv_rhs => rw [← hb]
  rw [queued, queued, setWriteSide_eq (hook_enqueue ..), setWriteSide_eq (hook_enqueue ..)]
  unfold WriteSide.enqueue
  split <;> rfl

/-- What a write does to the backend. -/
def storeEntry (d : Dictionary) (e : Entry) : Action Storage Update := do
  match ← Storage.loadElement d.id e.key with
  | some _ => Action.fail (.duplicateKey e.key)
  | none =>
    Storage.saveElement d.id e.key ⟨e.payload, e.randomness⟩
    return d.updateOf e

theorem writeEntry_eq (d : Dictionary) (e : Entry) :
    d.writeEntry e = onStorage d.storage (d.storeEntry e) := by
  funext s
  rw [onStorage_apply, writeEntry, storeEntry]
  rcases hload : Storage.loadElement d.id e.key (s.backends.get d.storage) with ⟨x | found, b⟩
  · rw [Action.bind_error hload, Action.bind_error]
    rw [onStorage_apply, hload]
  · have hfirst : onStorage d.storage (Storage.loadElement d.id e.key) s =
        (.ok found, { s with backends := s.backends.set d.storage b }) := by
      rw [onStorage_apply, hload]
    rw [Action.bind_ok hload, Action.bind_ok hfirst]
    cases found with
    | some _ => rfl
    | none =>
      rcases hsave : Storage.saveElement d.id e.key ⟨e.payload, e.randomness⟩ b with ⟨x | _, b'⟩
      · dsimp only
        rw [Action.bind_error hsave, Action.bind_error]
        rw [onStorage_apply, Backends.get_set_self, hsave, Backends.set_set]
      · have hsecond : onStorage d.storage
            (Storage.saveElement d.id e.key ⟨e.payload, e.randomness⟩)
            { s with backends := s.backends.set d.storage b } =
            (.ok (), { s with backends := s.backends.set d.storage b' }) := by
          rw [onStorage_apply, Backends.get_set_self, hsave, Backends.set_set]
        dsimp only
        rw [Action.bind_ok hsave, Action.bind_ok hsecond]
        rfl

/-- A write does the same before and after updates are queued. -/
theorem writeEntry_queued (hd : d.updater.Serves d.site policy) {e : Entry}
    {r : Except Error Update} (us : List Update) (h : d.writeEntry e s = (r, t)) :
    d.writeEntry e (d.queued us s) = (r, d.queued us t) := by
  have hstorage : d.updater.storage = d.storage := hd.storage
  rw [writeEntry_eq, onStorage_apply] at h ⊢
  obtain ⟨rfl, rfl⟩ := Prod.mk.inj h
  rw [backends_queued, hstorage, Backends.get_set_self, Backends.set_set]
  have hb (b : Storage) : (s.backends.set d.storage b).set d.updater.storage
      ((s.backends.set d.storage b).get d.updater.storage) = s.backends.set d.storage b := by
    rw [hstorage, Backends.get_set_self, Backends.set_set]
  rw [d.queued_withBackends us s (hb _)]

theorem writeShard_queued (hd : d.updater.Serves d.site policy) (us : List Update)
    {o : Outcome} (h : writeShard d.writeEntry entries s = (o, t)) :
    writeShard d.writeEntry entries (d.queued us s) = (o, d.queued us t) := by
  induction entries generalizing s t o with
  | nil =>
    obtain ⟨rfl, rfl⟩ := Prod.mk.inj h
    rfl
  | cons e rest ih =>
    rcases hw : d.writeEntry e s with ⟨x | update, s₁⟩
    · simp only [writeShard, hw, writeEntry_queued hd us hw] at h ⊢
      obtain ⟨rfl, rfl⟩ := Prod.mk.inj h
      rfl
    · simp only [writeShard, hw, writeEntry_queued hd us hw] at h ⊢
      rcases hrest : writeShard d.writeEntry rest s₁ with ⟨o', t'⟩
      rw [hrest] at h
      rw [ih hrest]
      obtain ⟨rfl, rfl⟩ := Prod.mk.inj h
      rfl

/-- Inserts entries in order up to the first failure. -/
def insertEach (d : Dictionary) : List Entry → Action Service Unit
  | [] => pure ()
  | e :: rest => do
    d.insert e
    d.insertEach rest

theorem insertEach_cons {e : Entry} (h : (d.insert e s).1 = .ok ()) :
    d.insertEach (e :: entries) s = d.insertEach entries (d.insert e s).2 :=
  Action.bind_ok (Prod.ext h rfl) _

theorem insertEach_cons_error {e : Entry} {x : Error} (h : (d.insert e s).1 = .error x) :
    (d.insertEach (e :: entries) s).1 = .error x := by
  rw [insertEach, Action.bind_error (Prod.ext h rfl)]

/-- The dictionary's write lock was asked for before. -/
def HasWriteLock (d : Dictionary) (s : Service) : Prop :=
  ∃ r lock, s.registries.get? d.registry = some r ∧ r.writeLocks.locks.get? d.id = some lock

theorem hasWriteLock_takeWriteLock (d : Dictionary) (s : Service) :
    d.HasWriteLock (d.takeWriteLock s).2 := by
  have hget : (d.takeWriteLock s).2.registries.get? d.registry =
      some ((s.registry d.registry).writeLock d.id).2 := OrderedMap.get?_insert_self ..
  cases hlock : (s.registry d.registry).writeLocks.locks.get? d.id with
  | some lock =>
    refine ⟨_, lock, hget, ?_⟩
    simp only [Registry.writeLock, LockTable.get, hlock]
  | none =>
    refine ⟨_, (s.registry d.registry).writeLocks.minted, hget, ?_⟩
    simp only [Registry.writeLock, LockTable.get, hlock, OrderedMap.get?_insert_self]

/-- Asking for the lock again changes nothing. -/
theorem HasWriteLock.takeWriteLock (h : d.HasWriteLock s) :
    ∃ lock, d.takeWriteLock s = (.ok lock, s) := by
  obtain ⟨r, lock, hr, hlock⟩ := h
  have hregistry : s.registry d.registry = r := by
    rw [Service.registry, hr, Option.getD_some]
  refine ⟨lock, ?_⟩
  rw [Dictionary.takeWriteLock, onRegistry_apply, hregistry]
  simp only [Registry.writeLock, LockTable.get, hlock, setRegistry]
  rw [OrderedMap.insert_of_get? hr]

theorem HasWriteLock.writeEntry (h : d.HasWriteLock s) {e : Entry} {r : Except Error Update}
    (hw : d.writeEntry e s = (r, t)) : d.HasWriteLock t := by
  rw [writeEntry_eq, onStorage_apply] at hw
  obtain ⟨-, rfl⟩ := Prod.mk.inj hw
  exact h

theorem HasWriteLock.queued (hd : d.updater.Serves d.site policy) (h : d.HasWriteLock s)
    (us : List Update) : d.HasWriteLock (d.queued us s) := by
  obtain ⟨r, lock, hr, hlock⟩ := h
  have hregistry : d.updater.registry = d.registry := hd.registry
  refine ⟨{ r with pending := ((s.writeSide d.updater).enqueue d.id us).pending }, lock, ?_, hlock⟩
  rw [Dictionary.queued, setWriteSide_eq (hook_enqueue ..), hregistry]
  simp only [setRegistry, Service.registry, hr, OrderedMap.get?_insert_self, Option.getD_some]

/-- Once a write was tried, queueing nothing changes nothing. -/
theorem queued_nil_of_writeEntry (hd : d.updater.Serves d.site policy) (h : d.HasWriteLock s)
    {e : Entry} {r : Except Error Update} (hw : d.writeEntry e s = (r, t)) :
    d.queued [] t = t := by
  obtain ⟨r, -, hr, -⟩ := h.writeEntry hw
  have hregistry : d.updater.registry = d.registry := hd.registry
  have hstorage : d.updater.storage = d.storage := hd.storage
  have hfound : t.registries.get? d.updater.registry = some (t.registry d.updater.registry) := by
    rw [Service.registry, hregistry, hr, Option.getD_some]
  have hbackends : t.backends.set d.updater.storage (t.backends.get d.updater.storage) =
      t.backends := by
    rw [writeEntry_eq, onStorage_apply] at hw
    obtain ⟨-, rfl⟩ := Prod.mk.inj hw
    rw [hstorage, Backends.get_set_self, Backends.set_set]
  rw [Dictionary.queued, setWriteSide_eq (hook_enqueue ..)]
  simp only [WriteSide.enqueue, writeSide, setRegistry, List.isEmpty_nil, if_true, hbackends]
  rw [OrderedMap.insert_of_get? hfound]

/-- What is returned for an outcome when the entries are not counted. -/
def verdict (o : Outcome) : Except Error Unit :=
  match o.error with
  | some e => .error e
  | none => .ok ()

/-- Inserting entries one after the other comes to writing them all and queueing their updates in
the end. -/
theorem insertEach_eq (hd : d.updater.Serves d.site policy) (hlock : d.HasWriteLock s)
    (hmade : entries = [] → d.queued [] s = s) {o : Outcome}
    (hw : writeShard d.writeEntry entries s = (o, t)) :
    d.insertEach entries s = (verdict o, d.queued o.updates t) := by
  induction entries generalizing s t o with
  | nil =>
    obtain ⟨rfl, rfl⟩ := Prod.mk.inj hw
    rw [hmade rfl]
    rfl
  | cons e rest ih =>
    obtain ⟨lock, htake⟩ := hlock.takeWriteLock
    rw [insertEach, insert]
    rcases hentry : d.writeEntry e s with ⟨x | update, s₁⟩
    · simp only [writeShard, hentry] at hw
      obtain ⟨rfl, rfl⟩ := Prod.mk.inj hw
      rw [queued_nil_of_writeEntry hd hlock hentry]
      rw [Action.bind_error, verdict]
      rw [Action.bind_ok htake, Action.bind_error hentry]
    · rcases hrest : writeShard d.writeEntry rest s₁ with ⟨o', t'⟩
      simp only [writeShard, hentry, hrest] at hw
      obtain ⟨rfl, rfl⟩ := Prod.mk.inj hw
      -- the rest is written after the update is queued
      have hlock' : d.HasWriteLock (d.queued [update] s₁) :=
        (hlock.writeEntry hentry).queued hd [update]
      have htail := ih hlock' (fun _ => d.queued_queued [update] [] s₁)
        (writeShard_queued hd [update] hrest)
      rw [queued_queued] at htail
      rw [Action.bind_ok, htail]
      · rfl
      · rw [Action.bind_ok htake, Action.bind_ok hentry, enqueue_eq_queued]

theorem length_updates {α σ : Type} {write : α → Action σ Update} {shard : List α} {s t : σ}
    {o : Outcome} (h : writeShard write shard s = (o, t)) (hnone : o.error = none) :
    o.updates.length = shard.length := by
  induction shard generalizing s t o with
  | nil =>
    obtain ⟨rfl, rfl⟩ := Prod.mk.inj h
    rfl
  | cons entry rest ih =>
    rcases hentry : write entry s with ⟨x | update, s₁⟩
    · simp only [writeShard, hentry] at h
      obtain ⟨rfl, rfl⟩ := Prod.mk.inj h
      contradiction
    · rcases hrest : writeShard write rest s₁ with ⟨o', t'⟩
      simp only [writeShard, hentry, hrest] at h
      obtain ⟨rfl, rfl⟩ := Prod.mk.inj h
      rw [List.length_cons, List.length_cons, ih hrest hnone]

theorem writeAll_singleton {α σ : Type} (write : α → Action σ Update) (shard : List α) (s : σ) :
    writeAll write [shard] s = writeShard write shard s := by
  rcases hshard : writeShard write shard s with ⟨⟨updates, error⟩, t⟩
  cases error with
  | some e => simp only [writeAll, hshard]
  | none => simp only [writeAll, hshard, List.append_nil]

theorem shards_of_one (hone : d.config.threadCount = 1) (hne : entries ≠ []) :
    d.shards entries = [entries] := by
  have hcount : count 1 entries.length = 1 := by
    rw [count]
    omega
  rw [shards, if_neg (by simpa using hne), hone]
  simp only [split, UInt64.toNat_one, hcount, Nat.div_one, Nat.mod_one, cut, List.take_length]

theorem insertBatch_eq (d : Dictionary) (entries : List Entry) (s : Service) {o : Outcome}
    (h : writeAll d.writeEntry (d.shards entries) (d.takeWriteLock s).2 = (o, t)) :
    d.insertBatch entries s = (batchResult o, d.queued o.updates t) := by
  have htotal : Action.total (writeAll d.writeEntry (d.shards entries)) (d.takeWriteLock s).2 =
      (.ok o, t) := by
    rw [Action.total_apply, h]
  obtain ⟨lock, s₁, hlock, -, -⟩ := d.takeWriteLock_holdings s
  rw [hlock] at htotal
  rw [insertBatch, Action.bind_ok hlock]
  rw [show (if entries.isEmpty then [] else split entries d.config.threadCount.toNat) =
    d.shards entries from rfl, Action.bind_ok htotal, Action.bind_ok (enqueue_eq_queued ..),
    batchResult]
  cases o.error <;> rfl

theorem insert_takeWriteLock (d : Dictionary) (e : Entry) (s : Service) :
    d.insert e (d.takeWriteLock s).2 = d.insert e s := by
  obtain ⟨lock, s₁, hlock, -, -⟩ := d.takeWriteLock_holdings s
  have hheld := d.hasWriteLock_takeWriteLock s
  rw [hlock] at hheld ⊢
  obtain ⟨_, hagain⟩ := hheld.takeWriteLock
  rw [insert, Action.bind_ok hlock, Action.bind_ok hagain]

/-- A batch of one worker ends as inserting its entries one after the other does. -/
theorem insertBatch_eq_insertEach (hd : d.updater.Serves d.site policy)
    (hone : d.config.threadCount = 1) (hne : entries ≠ []) (s : Service) :
    d.insertBatch entries s =
      ((d.insertEach entries s).1.map fun _ => entries.length, (d.insertEach entries s).2) := by
  rcases hw : writeShard d.writeEntry entries (d.takeWriteLock s).2 with ⟨o, t⟩
  have hall : writeAll d.writeEntry (d.shards entries) (d.takeWriteLock s).2 = (o, t) := by
    rw [shards_of_one hone hne, writeAll_singleton, hw]
  have heach : d.insertEach entries s = (verdict o, d.queued o.updates t) := by
    rw [← insertEach_eq hd (d.hasWriteLock_takeWriteLock s) (fun h => absurd h hne) hw]
    cases entries with
    | nil => contradiction
    | cons e rest =>
      rw [insertEach, Action.bind_apply, Action.bind_apply, insert_takeWriteLock]
  rw [insertBatch_eq d entries s hall, heach, batchResult, verdict]
  cases herror : o.error with
  | some e => rfl
  | none =>
    have hlength := length_updates hw herror
    simp only [Except.map, hlength]

/-- Up to the first entry that cannot be inserted, every entry is stored and queued. -/
theorem insertEach_cases (hd : d.updater.Serves d.site policy) {r : Except Error Unit}
    (h : d.insertEach entries s = (r, t)) :
    ∃ n u elements, n ≤ entries.length ∧ d.insertEach (entries.take n) s = (.ok (), u) ∧
      Stored (s.holdings d.site).elements (entries.take n) elements ∧
      t.holdings d.site = { s.holdings d.site with
        elements, queue := (s.holdings d.site).queue ++ (entries.take n).map d.updateOf } ∧
      (n = entries.length ∧ r = .ok () ∨
        ∃ e x, entries[n]? = some e ∧ d.insert e u = (.error x, t) ∧ r = .error x) := by
  induction entries generalizing s with
  | nil =>
    obtain ⟨rfl, rfl⟩ := Prod.mk.inj h
    exact ⟨0, s, _, Nat.le_refl _, rfl, .nil _, by simp, .inl ⟨rfl, rfl⟩⟩
  | cons e rest ih =>
    cases Action.bind_cases h with
    | inl hfailed =>
      obtain ⟨x, hinsert, rfl⟩ := hfailed
      obtain ⟨-, ⟨_, -, hsame⟩ | ⟨hok, -⟩⟩ := insert_cases hd hinsert
      · refine ⟨0, s, _, Nat.zero_le _, rfl, .nil _, ?_, .inr ⟨e, x, rfl, hinsert, rfl⟩⟩
        simpa using hsame
      · contradiction
    | inr hinserted =>
      obtain ⟨_, s₁, hinsert, hrest⟩ := hinserted
      obtain ⟨-, ⟨_, hfail, -⟩ | ⟨-, hfree, hh⟩⟩ := insert_cases hd hinsert
      · contradiction
      · obtain ⟨n, u, elements, hn, hbefore, hstored, hholds, hend⟩ := ih hrest
        have hhead := Stored.withElement hfree
        refine ⟨n + 1, u, elements, Nat.succ_le_succ hn, ?_, ?_, ?_, ?_⟩
        · rw [List.take_succ_cons, insertEach, Action.bind_ok hinsert, hbefore]
        · rw [hh] at hstored
          exact hhead.append hstored
        · rw [hholds, hh]
          simp only [Holdings.enqueue, Holdings.withElement, List.take_succ_cons, List.map_cons,
            List.append_assoc, List.singleton_append]
        · simpa using hend

theorem insertBatch_nil (d : Dictionary) (s : Service) :
    d.insertBatch [] s = (.ok 0, d.queued [] (d.takeWriteLock s).2) :=
  d.insertBatch_eq [] s rfl

/-- Without entries, the lock is asked for and nothing is held that was not held before. -/
theorem holdings_insertBatch_nil (d : Dictionary) (s : Service) (p : Site) :
    (d.insertBatch [] s).2.holdings p = s.holdings p := by
  rw [insertBatch_nil]
  exact (holdings_setWriteSide_of_same rfl rfl rfl).trans
    (holdings_setRegistry (fun h => h ▸ rfl) (fun h => h ▸ rfl))

/-- Its one worker settles how a batch is inserted. -/
theorem InsertsBatch.eq_insertBatch (hone : d.config.threadCount = 1) {r : Except Error Nat}
    {es : List Entry} (h : d.InsertsBatch entries s r es t) :
    d.insertBatch entries s = (r, t) ∧ es <+: entries := by
  have hshards : d.shards entries = [] ∧ entries = [] ∨ d.shards entries = [entries] := by
    by_cases hempty : entries = []
    · exact .inl ⟨by rw [hempty]; rfl, hempty⟩
    · exact .inr (shards_of_one hone hempty)
  cases h with
  | @run lock s₁ _ c hlock hrun hended henq =>
    have hcovers := hrun.covers (Crew.covers_start (d.shards entries) s₁)
    constructor
    · obtain ⟨c', hrun', hended', hall⟩ :=
        Crew.exists_run_writeAll d.writeEntry (d.shards entries) s₁
      have hworkers : (Crew.start (d.shards entries) s₁).workers.length ≤ 1 := by
        rcases hshards with ⟨hnil, -⟩ | hsingle
        · simp [Crew.start, hnil]
        · simp [Crew.start, hsingle]
      obtain rfl := hrun.unique_of_one hworkers hended hrun' hended'
      have hbatch := d.insertBatch_eq entries s (o := c.outcome) (t := c.state)
        (by rw [hlock, hall])
      rw [hbatch]
      exact Prod.ext rfl (Prod.mk.inj henq).2
    · have hforall := hcovers.workers
      rcases hshards with ⟨hnil, hempty⟩ | hsingle
      · rw [hnil] at hforall
        have hworkers := List.forall₂_nil_left_iff.1 hforall
        simp [Crew.written, hworkers]
      · rw [hsingle] at hforall
        obtain ⟨w, ws, ⟨left, hleft, -⟩, hrest, hworkers⟩ := List.forall₂_cons_left_iff.1 hforall
        obtain rfl := List.forall₂_nil_left_iff.1 hrest
        refine ⟨left, ?_⟩
        simpa [Crew.written, hworkers] using hleft.symm

/-- With one worker, inserting a batch is inserting its entries one after the other and stopping at
the first that fails, whatever is stored and queued before and whichever reads and writes of the
backend fail: the result is the same, and so is all that is held for any dictionary. The entries
before the first that fails are stored, and queued with the labels of their keys and the commitments
to their payloads, and no others are. Nothing is left to the order in which the worker takes its
steps. -/
theorem insertBatch_sequential (hd : d.Obtained) (hone : d.config.threadCount = 1)
    (entries : List Entry) (s : Service) :
    (d.insertBatch entries s).1 = (d.insertEach entries s).1.map (fun _ => entries.length) ∧
    (∀ p, (d.insertBatch entries s).2.holdings p = (d.insertEach entries s).2.holdings p) ∧
    (entries ≠ [] → (d.insertBatch entries s).2 = (d.insertEach entries s).2) ∧
    ∃ n ≤ entries.length, (d.insertEach (entries.take n) s).1 = .ok () ∧
      Stored (s.holdings d.site).elements (entries.take n)
        ((d.insertBatch entries s).2.holdings d.site).elements ∧
      ((d.insertBatch entries s).2.holdings d.site).queue =
        (s.holdings d.site).queue ++ (entries.take n).map (fun e =>
          ⟨(d.secret.derive e.key).label,
            d.config.commitmentScheme.commit e.payload e.randomness⟩) ∧
      ((d.insertBatch entries s).2.holdings d.site).trie = (s.holdings d.site).trie ∧
      (∀ e, entries[n]? = some e → ∃ x, (d.insertBatch entries s).1 = .error x ∧
        (d.insert e (d.insertEach (entries.take n) s).2).1 = .error x) ∧
      ∀ r es t, d.InsertsBatch entries s r es t →
        d.insertBatch entries s = (r, t) ∧ es = entries.take n := by
  have hserves := hd.sound.updater
  have hresult : (d.insertBatch entries s).1 =
      (d.insertEach entries s).1.map (fun _ => entries.length) := by
    by_cases hempty : entries = []
    · rw [hempty, insertBatch_nil]
      rfl
    · rw [insertBatch_eq_insertEach hserves hone hempty]
  have hleft (hne : entries ≠ []) :
      (d.insertBatch entries s).2 = (d.insertEach entries s).2 := by
    rw [insertBatch_eq_insertEach hserves hone hne]
  have hholds (p : Site) :
      (d.insertBatch entries s).2.holdings p = (d.insertEach entries s).2.holdings p := by
    by_cases hempty : entries = []
    · rw [hempty, holdings_insertBatch_nil]
      rfl
    · rw [hleft hempty]
  refine ⟨hresult, hholds, hleft, ?_⟩
  rcases heach : d.insertEach entries s with ⟨r, s'⟩
  obtain ⟨n, u, elements, hn, hbefore, hstored, hh, hend⟩ := insertEach_cases hserves heach
  have hbatch : (d.insertBatch entries s).2.holdings d.site = { s.holdings d.site with
      elements, queue := (s.holdings d.site).queue ++ (entries.take n).map d.updateOf } := by
    rw [hholds, heach, hh]
  refine ⟨n, hn, by rw [hbefore], by rwa [hbatch], ?_, by rw [hbatch], ?_, ?_⟩
  · rw [hbatch]
    simp only [LabelSecret.label_derive]
    rfl
  · intro e he
    rcases hend with ⟨hlength, -⟩ | ⟨e', x, he', hinsert, hr⟩
    · rw [hlength, List.getElem?_length] at he
      contradiction
    · obtain rfl := Option.some.inj (he.symm.trans he')
      refine ⟨x, ?_, by rw [hbefore, hinsert]⟩
      rw [hresult, heach, hr]
      rfl
  · intro r' es t h
    obtain ⟨heq, hes⟩ := h.eq_insertBatch hone
    refine ⟨heq, ?_⟩
    -- the queue tells how many entries were written
    obtain ⟨-, elements', -, hqueue⟩ := h.stored hserves
    rw [heq, hqueue] at hbatch
    have hupdates := congrArg (fun held => held.queue.length) hbatch
    simp only [List.length_append, List.length_map, List.length_take] at hupdates
    rw [List.prefix_iff_eq_take.1 hes]
    congr 1
    omega

/-- The sample dictionary with one worker. -/
def sampleAlone : Dictionary :=
  Blueprint.opened
    { sampleBlueprint with config := { sampleBlueprint.config with threadCount := 1 } }
    ⟨Block.zero 32, Block.zero 32, Block.zero 16⟩ 0 0 none

/-- The third entry repeats the key of the second, so that two are inserted. -/
theorem insertBatch_sequential_sampleAlone :
    (sampleAlone.insertBatch [sampleFirst, sampleSecond, sampleThird] {}).1 =
      .error (.duplicateKey [2]) ∧
    (sampleAlone.insertBatch [sampleFirst, sampleSecond, sampleThird] {}).2 =
      (sampleAlone.insertEach [sampleFirst, sampleSecond, sampleThird] {}).2 ∧
    ((sampleAlone.insertBatch [sampleFirst, sampleSecond, sampleThird] {}).2.holdings
      sampleAlone.site).queue = [sampleAlone.updateOf sampleFirst,
        sampleAlone.updateOf sampleSecond] := by
  have hbuild : Blueprint.build
      { sampleBlueprint with config := { sampleBlueprint.config with threadCount := 1 } }
      ⟨Block.zero 32, Block.zero 32, Block.zero 16⟩ false {} = (.ok sampleAlone, {}) := rfl
  have hobtained : sampleAlone.Obtained := .built rfl hbuild
  have hfirst : (sampleAlone.insert sampleFirst {}).1 = .ok () := rfl
  have hsecond : (sampleAlone.insert sampleSecond (sampleAlone.insert sampleFirst {}).2).1 =
      .ok () := rfl
  have hthird : (sampleAlone.insert sampleThird (sampleAlone.insert sampleSecond
      (sampleAlone.insert sampleFirst {}).2).2).1 = .error (.duplicateKey [2]) := rfl
  have hnone : sampleAlone.insertEach [] {} = (.ok (), {}) := rfl
  have hone : sampleAlone.insertEach [sampleFirst] {} =
      (.ok (), (sampleAlone.insert sampleFirst {}).2) := insertEach_cons hfirst
  have hthree : (sampleAlone.insertEach [sampleFirst, sampleSecond, sampleThird] {}).1 =
      .error (.duplicateKey [2]) := by
    rw [insertEach_cons hfirst, insertEach_cons hsecond]
    exact insertEach_cons_error hthird
  obtain ⟨hresult, -, hleft, n, hn, hbefore, -, hqueue, -, hnext, -⟩ :=
    insertBatch_sequential hobtained rfl [sampleFirst, sampleSecond, sampleThird] {}
  have hn0 : n ≠ 0 := by
    intro h
    subst h
    obtain ⟨x, -, hfailed⟩ := hnext sampleFirst rfl
    rw [List.take_zero, hnone, hfirst] at hfailed
    simp at hfailed
  have hn1 : n ≠ 1 := by
    intro h
    subst h
    obtain ⟨x, -, hfailed⟩ := hnext sampleSecond rfl
    rw [List.take_succ_cons, List.take_zero, hone, hsecond] at hfailed
    simp at hfailed
  have hn3 : n ≠ 3 := by
    intro h
    subst h
    rw [List.take_of_length_le (Nat.le_refl 3), hthree] at hbefore
    simp at hbefore
  have hn2 : n = 2 := by
    have hle : n ≤ 3 := hn
    omega
  subst hn2
  refine ⟨?_, hleft (List.cons_ne_nil _ _), ?_⟩
  · rw [hresult, hthree]
    rfl
  · rw [hqueue]
    simp only [LabelSecret.label_derive]
    rfl

end Dictionary

end AuthDict
