import AuthDict.Proofs.Dictionary.Alike
import AuthDict.Proofs.Dictionary.Turns

/-!
# Calls of handles in two services

The calls of a handle of the dictionary come out alike in services that are alike to it, and those
of a handle of another dictionary are not seen. A batch comes out alike if its workers take the same
turns, and they can take any turns of the one service in the other. The end of another handle is
not seen as long as the background task that it stops is not one of the dictionary.
-/
namespace AuthDict

open AuthDict.Action (Coincides Unseen)

variable {b id : DictionaryId}

namespace Shards

variable {α σ : Type} {R : σ → σ → Prop} {write : α → Action σ Update}

theorem Worker.Step.alike (hwrite : ∀ entry, Coincides R (write entry)) {w w' : Worker α}
    {abort abort' : Bool} {s s' t : σ} (h : Worker.Step write w abort s w' abort' s')
    (hst : R s t) : ∃ t', Worker.Step write w abort t w' abort' t' ∧ R s' t' := by
  cases h with
  | finish => exact ⟨t, .finish, hst⟩
  | leave => exact ⟨t, .leave, hst⟩
  | proceed => exact ⟨t, .proceed, hst⟩
  | stop => exact ⟨t, .stop, hst⟩
  | @write entry _ _ _ _ _ _ hw =>
    obtain ⟨t', hw', h'⟩ := (hwrite entry).of_eq hst hw
    exact ⟨t', .write hw', h'⟩
  | @fail entry _ _ _ _ _ _ hw =>
    obtain ⟨t', hw', h'⟩ := (hwrite entry).of_eq hst hw
    exact ⟨t', .fail hw', h'⟩

/-- The workers of a crew can take the same turns in a related state. -/
theorem Crew.Turns.alike (hwrite : ∀ entry, Coincides R (write entry)) {turns : List Nat}
    {c c' : Crew α σ} {t : σ} (h : Crew.Turns write turns c c') (hct : R c.state t) :
    ∃ t', Crew.Turns write turns { c with state := t } { c' with state := t' } ∧ R c'.state t' := by
  induction h generalizing t with
  | nil => exact ⟨t, .nil, hct⟩
  | cons hstep _ ih =>
    obtain ⟨t₁, hstep', h₁⟩ := hstep.alike hwrite hct
    obtain ⟨t', hturns, h'⟩ := ih h₁
    exact ⟨t', .cons hstep' hturns, h'⟩

theorem Crew.invariant_unseen (hwrite : ∀ entry, Unseen R (write entry)) (t : σ) :
    Crew.Invariant write fun _ s => R s t where
  perm _ h := h
  wrote {_ _ _ entry _} hw h := (hwrite entry).of_eq h hw
  failed {_ _ _ entry _} hw h := (hwrite entry).of_eq h hw

end Shards

namespace Dictionary

open Shards

variable {d : Dictionary} {s s' t : Service}

/-- The lock that is taken does not matter. -/
theorem takeWriteLock_alike (d : Dictionary) (h : s.Alike b t) :
    (d.takeWriteLock s).2.Alike b (d.takeWriteLock t).2 :=
  h.setRegistry d.registry { h.registries d.registry with }

theorem takeWriteLock_unseen (d : Dictionary) (h : s.Alike b t) :
    (d.takeWriteLock s).2.Alike b t :=
  h.setRegistry_left d.registry { h.registries d.registry with }

theorem coincides_writeEntry (hd : d.id = b) (e : Entry) :
    Coincides (Service.Alike b) (d.writeEntry e) := by
  subst hd
  refine (Service.coincides_onStorage _ (Storage.coincides_loadElement e.key)).bind fun found => ?_
  cases found with
  | some _ => exact .fail _
  | none =>
    exact (Service.coincides_onStorage _ (Storage.coincides_saveElement ..)).bind fun _ => .pure _

theorem unseen_writeEntry (hd : d.id ≠ b) (e : Entry) :
    Unseen (Service.Alike b) (d.writeEntry e) := by
  refine (Service.unseen_onStorage _ (Storage.unseen_loadElement d.id e.key)).bind fun found => ?_
  cases found with
  | some _ => exact .fail _
  | none =>
    exact (Service.unseen_onStorage _ (Storage.unseen_saveElement hd ..)).bind fun _ => .pure _

theorem coincides_insert (hd : d.id = b) (e : Entry) :
    Coincides (Service.Alike b) (d.insert e) := by
  refine .total_bind (fun _ _ h => d.takeWriteLock_alike h) ?_
  exact (coincides_writeEntry hd e).bind fun _ => hd ▸ Updater.coincides_enqueue ..

theorem unseen_insert (hd : d.id ≠ b) (e : Entry) : Unseen (Service.Alike b) (d.insert e) := by
  have hlock : Unseen (Service.Alike b) d.takeWriteLock := ⟨fun _ _ h => d.takeWriteLock_unseen h⟩
  exact hlock.bind fun _ => (unseen_writeEntry hd e).bind fun _ => Updater.unseen_enqueue _ hd _

theorem InsertsInTurns.alike (hd : d.id = b) (h : s.Alike b t) {entries : List Entry}
    {turns : List Nat} {r : Except Error Nat} (hbatch : d.InsertsInTurns entries s turns r s') :
    ∃ t', d.InsertsInTurns entries t turns r t' ∧ s'.Alike b t' := by
  subst hd
  cases hbatch with
  | @run lock s₁ _ c hlock hturns hended henq =>
    have h₁ := d.takeWriteLock_alike h
    rw [hlock] at h₁
    obtain ⟨t₂, hturns', h₂⟩ := hturns.alike (coincides_writeEntry rfl) h₁
    obtain ⟨t', henq', h'⟩ := (Updater.coincides_enqueue _ _).of_eq h₂ henq
    exact ⟨t', .run (c := { c with state := t₂ }) (Prod.ext rfl rfl) hturns' hended henq', h'⟩

theorem InsertsInTurns.unseen (hd : d.id ≠ b) (h : s.Alike b t) {entries : List Entry}
    {turns : List Nat} {r : Except Error Nat} (hbatch : d.InsertsInTurns entries s turns r s') :
    s'.Alike b t := by
  cases hbatch with
  | @run lock s₁ _ c hlock hturns _ henq =>
    have h₁ := d.takeWriteLock_unseen h
    rw [hlock] at h₁
    have h₂ : c.state.Alike b t :=
      hturns.run.invariant (Crew.invariant_unseen (unseen_writeEntry hd) t) h₁
    exact (Updater.unseen_enqueue d.updater hd _).of_eq h₂ henq

/-- A handle of the dictionary, the same in both services. -/
structure SameHandle (b : DictionaryId) (x y : Dictionary × Service) : Prop where
  handle : y.1 = x.1
  id : x.1.id = b
  router : x.1.router.Of b
  services : x.2.Alike b y.2

/-- A handle of another dictionary, in one of the services. -/
structure OtherHandle (b : DictionaryId) (x y : Dictionary × Service) : Prop where
  id : x.1.id ≠ b
  services : x.2.Alike b y.2

theorem coincides_deriveLabel (key : Bytes) : Coincides (SameHandle b) (deriveLabel key) := by
  refine ⟨?_⟩
  rintro ⟨d, s⟩ ⟨d', t⟩ ⟨hd, hid, hrouter, h⟩
  obtain rfl : d' = d := hd
  exact ⟨rfl, rfl, hid, hrouter, h⟩

theorem unseen_deriveLabel (key : Bytes) : Unseen (OtherHandle b) (deriveLabel key) :=
  ⟨fun _ _ h => ⟨h.id, h.services⟩⟩

theorem coincides_deriveLabels (keys : List Bytes) :
    Coincides (SameHandle b) (deriveLabels keys) := by
  induction keys with
  | nil => exact .pure _
  | cons key keys ih => exact (coincides_deriveLabel key).bind fun _ => ih.bind fun _ => .pure _

theorem unseen_deriveLabels (keys : List Bytes) : Unseen (OtherHandle b) (deriveLabels keys) := by
  induction keys with
  | nil => exact .pure _
  | cons key keys ih => exact (unseen_deriveLabel key).bind fun _ => ih.bind fun _ => .pure _

variable {α : Type}

theorem coincides_onRouter {x : DictionaryId → Action (Router × ReadSide) α}
    (hx : Coincides (Router.Alike b) (x b)) : Coincides (SameHandle b) (onRouter x) := by
  refine ⟨?_⟩
  rintro ⟨d, s⟩ ⟨d', t⟩ ⟨hd, hid, hrouter, h⟩
  obtain rfl : d' = d := hd
  obtain rfl : d'.id = b := hid
  obtain ⟨hr, hrouter', hof, hreads⟩ := hx.run (d'.router, s.readSide d'.registry)
    (d'.router, t.readSide d'.registry) ⟨rfl, hrouter, h.readSide _⟩
  simp only [onRouter, Service.onRouter, Action.within_apply, hr, hrouter']
  exact ⟨trivial, rfl, rfl, hof, h.setReadSide hreads⟩

theorem unseen_onRouter {x : DictionaryId → Action (Router × ReadSide) α}
    (hx : ∀ id, id ≠ b → Unseen (fun x y => x.2.Alike b y.2) (x id)) :
    Unseen (OtherHandle b) (onRouter x) := by
  refine ⟨?_⟩
  rintro ⟨d, s⟩ ⟨d', t⟩ ⟨hid, h⟩
  -- the router on the other side does not matter
  exact ⟨hid, h.setReadSide_left ((hx d.id hid).run (d.router, s.readSide d.registry)
    (d.router, t.readSide d.registry) (h.readSide _))⟩

theorem coincides_onService {x : Dictionary → Action Service α}
    (hx : ∀ d : Dictionary, d.id = b → Coincides (Service.Alike b) (x d)) :
    Coincides (SameHandle b) (onService x) := by
  refine ⟨?_⟩
  rintro ⟨d, s⟩ ⟨d', t⟩ ⟨hd, hid, hrouter, h⟩
  obtain rfl : d' = d := hd
  obtain ⟨hr, h'⟩ := (hx d' hid).run s t h
  exact ⟨hr, rfl, hid, hrouter, h'⟩

theorem unseen_onService {x : Dictionary → Action Service α}
    (hx : ∀ d : Dictionary, d.id ≠ b → Unseen (Service.Alike b) (x d)) :
    Unseen (OtherHandle b) (onService x) :=
  ⟨fun y z h => ⟨h.id, (hx y.1 h.id).run y.2 z.2 h.services⟩⟩

theorem coincides_resolve (hd : d.id = b) (key : Bytes) (path : LookupPath)
    (proof : Option LabelProof) : Coincides (Service.Alike b) (resolve key path proof d) := by
  unfold resolve
  split
  · rw [hd]
    refine (Service.coincides_onStorage _ (Storage.coincides_loadElement key)).bind fun found => ?_
    cases found with
    | some _ => exact .pure _
    | none => exact .fail _
  · exact .pure _

theorem unseen_resolve (d : Dictionary) (key : Bytes) (path : LookupPath)
    (proof : Option LabelProof) : Unseen (Service.Alike b) (resolve key path proof d) := by
  unfold resolve
  split
  · refine (Service.unseen_onStorage _ (Storage.unseen_loadElement d.id key)).bind fun found => ?_
    cases found with
    | some _ => exact .pure _
    | none => exact .fail _
  · exact .pure _

theorem coincides_resolveAll (hd : d.id = b) (keys : List Bytes) (derived : List DerivedLabel)
    (paths : List LookupPath) :
    Coincides (Service.Alike b) (resolveAll d keys derived paths) := by
  induction keys generalizing derived paths with
  | nil => exact .pure _
  | cons key keys ih =>
    cases derived with
    | nil => exact .pure _
    | cons l derived =>
      cases paths with
      | nil => exact .pure _
      | cons path paths =>
        exact (coincides_resolve hd ..).bind fun _ => (ih derived paths).bind fun _ => .pure _

theorem unseen_resolveAll (d : Dictionary) (keys : List Bytes) (derived : List DerivedLabel)
    (paths : List LookupPath) : Unseen (Service.Alike b) (resolveAll d keys derived paths) := by
  induction keys generalizing derived paths with
  | nil => exact .pure _
  | cons key keys ih =>
    cases derived with
    | nil => exact .pure _
    | cons l derived =>
      cases paths with
      | nil => exact .pure _
      | cons path paths =>
        exact (unseen_resolve d ..).bind fun _ => (ih derived paths).bind fun _ => .pure _

theorem coincides_query (key : Bytes) (pick : UInt8) :
    Coincides (SameHandle b) (query key pick) := by
  refine (coincides_deriveLabel key).bind fun _ => ?_
  refine (coincides_onRouter (Router.coincides_lookup ..)).bind fun _ => ?_
  exact coincides_onService fun _ hd => coincides_resolve hd ..

theorem unseen_query (key : Bytes) (pick : UInt8) : Unseen (OtherHandle b) (query key pick) := by
  refine (unseen_deriveLabel key).bind fun _ => ?_
  refine (unseen_onRouter fun _ hne => Router.unseen_lookup hne ..).bind fun _ => ?_
  exact unseen_onService fun d _ => unseen_resolve d ..

theorem coincides_queryMany (keys : List Bytes) (pick : UInt8) :
    Coincides (SameHandle b) (queryMany keys pick) := by
  refine (coincides_deriveLabels keys).bind fun _ => ?_
  refine (coincides_onRouter (Router.coincides_lookupMany ..)).bind fun _ => ?_
  exact coincides_onService fun _ hd => coincides_resolveAll hd ..

theorem unseen_queryMany (keys : List Bytes) (pick : UInt8) :
    Unseen (OtherHandle b) (queryMany keys pick) := by
  refine (unseen_deriveLabels keys).bind fun _ => ?_
  refine (unseen_onRouter fun _ hne => Router.unseen_lookupMany hne ..).bind fun _ => ?_
  exact unseen_onService fun d _ => unseen_resolveAll d ..

theorem coincides_checkForUpdate : Coincides (SameHandle b) checkForUpdate :=
  coincides_onRouter Router.coincides_checkForUpdate

theorem unseen_checkForUpdate : Unseen (OtherHandle b) checkForUpdate :=
  unseen_onRouter fun _ hne => Router.unseen_checkForUpdate hne

theorem coincides_loadRoot : Coincides (Storage.Alike b) (Storage.loadRoot b) := by
  refine Storage.coincides_loadTrie.bind fun found => ?_
  cases found <;> exact .pure _

theorem unseen_loadRoot (id : DictionaryId) : Unseen (Storage.Alike b) (Storage.loadRoot id) := by
  refine (Storage.unseen_loadTrie id).bind fun found => ?_
  cases found <;> exact .pure _

theorem coincides_loadEpoch : Coincides (Storage.Alike b) (Storage.loadEpoch b) := by
  refine Storage.coincides_loadTrie.bind fun found => ?_
  cases found <;> exact .pure _

theorem unseen_loadEpoch (id : DictionaryId) : Unseen (Storage.Alike b) (Storage.loadEpoch id) := by
  refine (Storage.unseen_loadTrie id).bind fun found => ?_
  cases found <;> exact .pure _

theorem coincides_epoch (hd : d.id = b) : Coincides (Service.Alike b) d.epoch :=
  hd ▸ Service.coincides_onStorage _ coincides_loadEpoch

theorem unseen_epoch (d : Dictionary) : Unseen (Service.Alike b) d.epoch :=
  Service.unseen_onStorage _ (unseen_loadEpoch d.id)

theorem coincides_published (hd : d.id = b) : Coincides (Service.Alike b) d.published := by
  subst hd
  refine (Service.coincides_onStorage _ coincides_loadRoot).bind fun _ => ?_
  exact (Service.coincides_onStorage _ coincides_loadEpoch).bind fun _ => .pure _

theorem unseen_published (d : Dictionary) : Unseen (Service.Alike b) d.published := by
  refine (Service.unseen_onStorage _ (unseen_loadRoot d.id)).bind fun _ => ?_
  exact (Service.unseen_onStorage _ (unseen_loadEpoch d.id)).bind fun _ => .pure _

theorem stopScheduler_alike (d : Dictionary) (h : s.Alike b t) :
    (d.stopScheduler s).2.Alike b (d.stopScheduler t).2 := by
  unfold stopScheduler
  cases d.scheduler with
  | some ref => exact Scheduler.stop_alike h ref
  | none => exact h

theorem released_alike (d : Dictionary) (h : s.Alike b t) :
    (d.released s).Alike b (d.released t) :=
  h.setRegistry d.registry ((h.registries d.registry).release d.id)

theorem coincides_shutDown (hd : d.id = b) : Coincides (Service.Alike b) d.shutDown := by
  subst hd
  have hstop : Coincides (Service.Alike d.id) d.stopScheduler := by
    refine ⟨fun s t h => ⟨?_, d.stopScheduler_alike h⟩⟩
    obtain ⟨s₁, hs⟩ := d.stopScheduler_ok s
    obtain ⟨t₁, ht⟩ := d.stopScheduler_ok t
    rw [hs, ht]
  have hrelease : Coincides (Service.Alike d.id)
      (Service.onRegistry d.registry fun r => ((), r.release d.id)) :=
    ⟨fun s t h => ⟨rfl, d.released_alike h⟩⟩
  have hlost (s t : Service) (h : s.Alike d.id t) : d.lostTask? t = d.lostTask? s := by
    simp only [lostTask?, h.lost]
  have hpending (s t : Service) (h : s.Alike d.id t) : d.pendingCount t = d.pendingCount s :=
    congrArg List.length (h.registries d.updater.registry).queue
  refine hstop.bind fun _ => (Coincides.read hlost).bind fun lost => ?_
  cases lost with
  | some task => exact ⟨fun _ _ h => ⟨rfl, h⟩⟩
  | none =>
    refine (Coincides.read hpending).bind fun count => ?_
    dsimp only
    split
    · exact (Updater.coincides_apply d.updater).bind fun _ => hrelease
    · exact hrelease

theorem stopScheduler_unseen (h : s.Alike b t)
    (htask : ∀ ref, d.scheduler = some ref →
      ∀ task, s.schedulers.get? ref = some task → task.id ≠ b) :
    (d.stopScheduler s).2.Alike b t := by
  unfold stopScheduler
  cases hscheduler : d.scheduler with
  | some ref => exact Scheduler.stop_unseen h (htask ref hscheduler)
  | none => exact h

theorem released_unseen (hd : d.id ≠ b) (h : s.Alike b t) : (d.released s).Alike b t :=
  h.setRegistry_left d.registry ((h.registries d.registry).release_left hd)

theorem shutDown_unseen (hd : d.id ≠ b) (h : s.Alike b t)
    (htask : ∀ ref, d.scheduler = some ref →
      ∀ task, s.schedulers.get? ref = some task → task.id ≠ b) :
    (d.shutDown s).2.Alike b t := by
  have hstopped {s₁ : Service} (hstop : d.stopScheduler s = (.ok (), s₁)) : s₁.Alike b t := by
    have h₁ := stopScheduler_unseen h htask
    rwa [hstop] at h₁
  have happlied {s₁ s₂ : Service} {r : Except Error ApplyOutcome} (h₁ : s₁.Alike b t)
      (happly : d.apply s₁ = (r, s₂)) : s₂.Alike b t :=
    (Updater.unseen_apply d.updater hd).of_eq h₁ happly
  rcases hend : d.shutDown s with ⟨r, s'⟩
  cases shutDown_ends hend with
  | lost hstop _ => exact hstopped hstop
  | failed hstop _ _ happly => exact happlied (hstopped hstop) happly
  | flushed hstop _ _ happly => exact released_unseen hd (happlied (hstopped hstop) happly)
  | empty hstop _ _ => exact released_unseen hd (hstopped hstop)

end Dictionary

end AuthDict
