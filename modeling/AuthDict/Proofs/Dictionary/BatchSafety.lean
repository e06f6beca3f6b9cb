import AuthDict.Proofs.Dictionary.Coverage
import AuthDict.Proofs.Dictionary.Identity

/-!
# Batches are accounted for

Whatever the order of its workers' steps and whichever calls of the backend fail, a batch queues the
updates of the entries it has stored, in the order it was given them. It overwrites nothing, it
succeeds exactly if it has stored every entry, and it calls a key a duplicate only if the key is
stored.
-/
namespace AuthDict

/-- No element in any backend has changed or gone. -/
def Service.KeepsElements (s s' : Service) : Prop :=
  ∀ ref key element, (s.backends.get ref).elements.get? key = some element →
    (s'.backends.get ref).elements.get? key = some element

theorem Service.KeepsElements.of_agrees {s s' : Service} (h : s.backends.Agrees s'.backends) :
    s.KeepsElements s' := by
  intro ref key element hget
  rw [(h ref).elements, hget]

theorem Service.KeepsElements.trans {s t u : Service} (h : s.KeepsElements t)
    (k : t.KeepsElements u) : s.KeepsElements u := by
  intro ref key element hget
  exact k ref key element (h ref key element hget)

theorem Service.KeepsElements.isSome {s s' : Service} {p : Site} {key : Bytes}
    (h : s.KeepsElements s') (hs : ((s.holdings p).elements key).isSome = true) :
    ((s'.holdings p).elements key).isSome = true := by
  obtain ⟨element, helement⟩ := Option.isSome_iff_exists.1 hs
  exact Option.isSome_iff_exists.2 ⟨element, h _ _ _ helement⟩

theorem Storage.saveElement_fault {id : DictionaryId} {key : Bytes} {element : StoredElement}
    {s s' : Storage} {x : Error} (h : saveElement id key element s = (.error x, s')) :
    ∃ fault, x = .storage fault := by
  simp only [saveElement] at h
  split at h
  · exact ⟨_, (Except.error.inj (Prod.mk.inj h).1).symm⟩
  · simp at h

namespace Dictionary

open Shards
open Holdings (Stored)

variable {d : Dictionary} {s s' : Service}

/-- Saving an element fails and changes none, or overwrites only what is filed under its key. -/
theorem saveElement_elements {ref : StorageRef} {id : DictionaryId} {key : Bytes}
    {element : StoredElement} {r : Except Error Unit}
    (h : Service.onStorage ref (Storage.saveElement id key element) s = (r, s')) :
    (∃ fault, r = .error (.storage fault) ∧ s.backends.Agrees s'.backends) ∨
    r = .ok () ∧ ((s.backends.get ref).elements.get? ⟨id, key⟩ = none → s.KeepsElements s') := by
  rcases hsave : Storage.saveElement id key element (s.backends.get ref) with ⟨r', t⟩
  rw [Service.onStorage_apply, hsave] at h
  obtain ⟨rfl, rfl⟩ := Prod.mk.inj h
  cases r' with
  | error x =>
    obtain ⟨fault, rfl⟩ := Storage.saveElement_fault hsave
    exact .inl ⟨fault, rfl, Backends.agrees_set (Storage.saveElement_error hsave)⟩
  | ok _ =>
    obtain ⟨helements, -⟩ := Storage.saveElement_ok hsave
    refine .inr ⟨rfl, ?_⟩
    intro hfree ref' k v hget
    by_cases href : ref' = ref
    · subst href
      have hne : k ≠ ⟨id, key⟩ := by
        rintro rfl
        rw [hfree] at hget
        contradiction
      rw [Backends.get_set_self, helements, OrderedMap.get?_insert_of_ne _ _ hne, hget]
    · rw [Backends.get_set_of_ne _ _ href, hget]

/-- A failed write leaves all elements alone, and it calls the key a duplicate only if it is stored.
A write that succeeds overwrites nothing. -/
theorem writeEntry_elements {e : Entry} {r : Except Error Update}
    (h : d.writeEntry e s = (r, s')) :
    s.KeepsElements s' ∧ ∀ key, r = .error (.duplicateKey key) →
      ((s'.holdings d.site).elements key).isSome = true := by
  rcases Action.bind_cases h with ⟨x, hload, rfl⟩ | ⟨found, s₁, hload, h⟩
  · obtain ⟨hlooked, -, ⟨fault, hx⟩ | hok⟩ := (Service.Looked.refl s).loadElement hload
    · obtain rfl := Except.error.inj hx
      exact ⟨.of_agrees hlooked.backends, by simp⟩
    · contradiction
  · obtain ⟨hlooked, -, ⟨fault, hx⟩ | hok⟩ := (Service.Looked.refl s).loadElement hload
    · contradiction
    · obtain rfl := Except.ok.inj hok
      have hkept : s.KeepsElements s₁ := .of_agrees hlooked.backends
      cases hfound : (s.backends.get d.storage).elements.get? ⟨d.id, e.key⟩ with
      | some element =>
        simp only [hfound] at h
        obtain ⟨rfl, rfl⟩ := Prod.mk.inj h
        refine ⟨hkept, ?_⟩
        rintro key hx
        cases hx
        exact Option.isSome_iff_exists.2 ⟨element, hkept _ _ _ hfound⟩
      | none =>
        simp only [hfound] at h
        have hfree : (s₁.backends.get d.storage).elements.get? ⟨d.id, e.key⟩ = none := by
          rw [(hlooked.backends d.storage).elements, hfound]
        rcases Action.bind_cases h with ⟨x, hsave, rfl⟩ | ⟨_, s₂, hsave, h⟩
        · rcases saveElement_elements hsave with ⟨fault, hx, hagrees⟩ | ⟨hok, -⟩
          · obtain rfl := Except.error.inj hx
            exact ⟨hkept.trans (.of_agrees hagrees), by simp⟩
          · contradiction
        · obtain ⟨rfl, rfl⟩ := Prod.mk.inj h
          rcases saveElement_elements hsave with ⟨fault, hx, -⟩ | ⟨-, hkeeps⟩
          · contradiction
          · exact ⟨hkept.trans (hkeeps hfree), by simp⟩

/-- Every write of a batch keeps the elements. -/
theorem invariant_keepsElements (d : Dictionary) (first : Service) :
    Crew.Invariant d.writeEntry fun _ s => first.KeepsElements s where
  perm _ h := h
  wrote hw h := h.trans (writeEntry_elements hw).1
  failed hw h := h.trans (writeEntry_elements hw).1

/-- From the report of a duplicate on, its key is stored. -/
def DuplicateStored (d : Dictionary) (x : Error) (s : Service) : Prop :=
  ∀ key, x = .duplicateKey key → ((s.holdings d.site).elements key).isSome = true

theorem marks_duplicateStored (d : Dictionary) : Marks d.writeEntry d.DuplicateStored where
  failed hw key hx := (writeEntry_elements hw).2 key (congrArg _ hx)
  kept hw h key hx := (writeEntry_elements hw).1.isSome (h key hx)

theorem flatten_shards (d : Dictionary) (entries : List Entry) :
    (d.shards entries).flatten = entries := by
  unfold shards
  split
  · next hempty => exact (List.isEmpty_iff.1 hempty).symm
  · exact flatten_split ..

theorem takeWriteLock_keepsElements {lock : Nat} (h : d.takeWriteLock s = (.ok lock, s')) :
    s.KeepsElements s' := by
  obtain ⟨-, rfl⟩ := Prod.mk.inj h
  exact .of_agrees (.refl _)

theorem enqueue_keepsElements {us : List Update} {r : Except Error Unit}
    (h : d.updater.enqueue d.id us s = (r, s')) : s.KeepsElements s' := by
  obtain ⟨-, rfl⟩ := Prod.mk.inj h
  apply Service.KeepsElements.of_agrees
  refine Backends.agrees_set ?_
  simp only [WriteSide.enqueue]
  split <;> exact .refl _

theorem error_of_batchResult {outcome : Outcome} {x : Error}
    (h : batchResult outcome = .error x) : outcome.error = some x := by
  unfold batchResult at h
  split at h
  · next e he => rw [he, Except.error.inj h]
  · contradiction

/-- The report of a batch that it has written everything is right. -/
theorem batchResult_eq_ok_iff {c : Crew Entry Service} {entries : List Entry}
    (hc : c.Covers (d.shards entries)) (hended : c.Ended) (n : Nat) :
    batchResult c.outcome = .ok n ↔ c.written.map (·.1) = entries ∧ n = entries.length := by
  have hall := hc.error_eq_none_iff hended
  rw [flatten_shards] at hall
  rw [← hall, batchResult]
  cases herror : c.outcome.error with
  | some e => simp
  | none =>
    have hlength : c.outcome.updates.length = entries.length := by
      rw [← hall.1 herror, List.length_map]
      exact List.length_map ..
    simp only [hlength, true_and]
    constructor
    · intro h
      exact (Except.ok.inj h).symm
    · intro h
      rw [h]

/-- Whatever its workers have done so far, a batch can return. -/
theorem exists_insertsBatch (hd : d.Obtained) {entries : List Entry} {lock : Nat} {s₁ : Service}
    {c : Crew Entry Service} (hlock : d.takeWriteLock s = (.ok lock, s₁))
    (hrun : Crew.Run d.writeEntry (.start (d.shards entries) s₁) c) :
    ∃ c' s', Crew.Run d.writeEntry c c' ∧
      d.InsertsBatch entries s (batchResult c'.outcome) (c'.written.map (·.1)) s' := by
  obtain ⟨c', hrest, hended⟩ := Crew.exists_ended d.writeEntry c
  obtain ⟨s', henq, -, -⟩ := hd.sound.updater.enqueue c'.outcome.updates c'.state
  exact ⟨c', s', hrest, .run hlock (hrun.trans hrest) hended henq⟩

/-- However its workers take turns, a batch can return, and what it then queues are, in the order of
its entries, the updates of those it has stored: with the labels of their keys and the commitments
that the stored payloads and randomness open. The stored entries had keys of their own, which were
free, and nothing else is changed in any backend. The batch succeeds exactly if it has stored every
entry, and a key that it calls a duplicate is stored. -/
theorem insertsBatch_accounted (hd : d.Obtained) (entries : List Entry) (s : Service) :
    (∀ lock s₁ c, d.takeWriteLock s = (.ok lock, s₁) →
      Crew.Run d.writeEntry (.start (d.shards entries) s₁) c → ∃ c' s', Crew.Run d.writeEntry c c' ∧
        d.InsertsBatch entries s (batchResult c'.outcome) (c'.written.map (·.1)) s') ∧
    ∀ r es s', d.InsertsBatch entries s r es s' →
      es.Sublist entries ∧
      (s'.holdings d.site).queue = (s.holdings d.site).queue ++ es.map (fun e =>
        ⟨(d.secret.derive e.key).label, d.config.commitmentScheme.commit e.payload e.randomness⟩) ∧
      Stored (s.holdings d.site).elements es (s'.holdings d.site).elements ∧
      s.KeepsElements s' ∧
      (∀ n, r = .ok n ↔ es = entries ∧ n = entries.length) ∧
      ∀ key, r = .error (.duplicateKey key) →
        ((s'.holdings d.site).elements key).isSome = true := by
  refine ⟨fun _ _ _ hlock hrun => exists_insertsBatch hd hlock hrun, ?_⟩
  intro r es s' h
  obtain ⟨-, elements, hstored, hh⟩ := h.stored hd.sound.updater
  cases h with
  | @run lock s₁ _ c hlock hrun hended henq =>
    have hcovers := hrun.covers (Crew.covers_start (d.shards entries) s₁)
    have hsublist := written_sublist hcovers.workers
    have hkept := hrun.invariant (d.invariant_keepsElements s₁) (.of_agrees (.refl _))
    have hmarked := hrun.marked d.marks_duplicateStored
      (Crew.marked_start (d.shards entries) s₁)
    rw [flatten_shards] at hsublist
    refine ⟨hsublist, ?_, ?_, ?_, batchResult_eq_ok_iff hcovers hended, ?_⟩
    · rw [hh]
      simp only [LabelSecret.label_derive]
      rfl
    · rw [hh]
      exact hstored
    · exact (takeWriteLock_keepsElements hlock).trans (hkept.trans (enqueue_keepsElements henq))
    · intro key hr
      have herror := error_of_batchResult hr
      exact (enqueue_keepsElements henq).isSome (Crew.mark_of_error hmarked herror key rfl)

theorem step_first {write : Entry → Action Service Update} {w w' v : Worker Entry}
    {raised raised' : Bool} (h : Worker.Step write w raised s w' raised' s') :
    Crew.Step write ⟨[w, v], raised, s⟩ ⟨[w', v], raised', s'⟩ :=
  @Crew.Step.worker _ _ _ [] [v] _ _ _ _ _ _ h

theorem step_second {write : Entry → Action Service Update} {w w' v : Worker Entry}
    {raised raised' : Bool} (h : Worker.Step write w raised s w' raised' s') :
    Crew.Step write ⟨[v, w], raised, s⟩ ⟨[v, w'], raised', s'⟩ :=
  @Crew.Step.worker _ _ _ [v] [] _ _ _ _ _ _ h

def sampleBlueprint : Blueprint where
  config := { labelSeed := some (Block.zero 32), threadCount := 2 }
  storage := ⟨some 0, none⟩
  registry := 0

def sampleWriter : Dictionary :=
  sampleBlueprint.opened ⟨Block.zero 32, Block.zero 32, Block.zero 16⟩ 0 0 none

def sampleFirst : Entry := ⟨[1], [10], Block.zero 32⟩

def sampleSecond : Entry := ⟨[2], [20], Block.zero 32⟩

/-- Another entry for the second key. -/
def sampleThird : Entry := ⟨[2], [30], Block.zero 32⟩

/-- The service after the first worker has written its first entry, and the second worker its only
one. -/
def sampleWritten : Service :=
  (sampleWriter.writeEntry sampleThird (sampleWriter.writeEntry sampleFirst
    (sampleWriter.takeWriteLock {}).2).2).2

def sampleWorkers : List (Worker Entry) :=
  [⟨.ended (some (.duplicateKey [2])), [(sampleFirst, sampleWriter.updateOf sampleFirst)]⟩,
    ⟨.ended none, [(sampleThird, sampleWriter.updateOf sampleThird)]⟩]

/-- The workers take turns, so that the first one meets the key that the second one has stored. -/
theorem run_sampleWorkers :
    Crew.Run sampleWriter.writeEntry
      (.start (sampleWriter.shards [sampleFirst, sampleSecond, sampleThird])
        (sampleWriter.takeWriteLock {}).2)
      ⟨sampleWorkers, true, (sampleWriter.writeEntry sampleSecond sampleWritten).2⟩ := by
  have hfirst : sampleWriter.writeEntry sampleFirst (sampleWriter.takeWriteLock {}).2 =
      (.ok (sampleWriter.updateOf sampleFirst), _) := Prod.ext rfl rfl
  have hthird : sampleWriter.writeEntry sampleThird
      (sampleWriter.writeEntry sampleFirst (sampleWriter.takeWriteLock {}).2).2 =
      (.ok (sampleWriter.updateOf sampleThird), sampleWritten) := Prod.ext rfl rfl
  have hsecond : sampleWriter.writeEntry sampleSecond sampleWritten =
      (.error (.duplicateKey [2]), _) := Prod.ext rfl rfl
  refine .head (step_first .proceed) ?_
  refine .head (step_first (.write hfirst)) ?_
  refine .head (step_second .proceed) ?_
  refine .head (step_first .proceed) ?_
  refine .head (step_second (.write hthird)) ?_
  refine .head (step_first (.fail hsecond)) ?_
  refine .head (step_second .finish) ?_
  exact .single (step_first .stop)

theorem insertsBatch_accounted_sampleWorkers :
    ∃ s', sampleWriter.InsertsBatch [sampleFirst, sampleSecond, sampleThird] {}
        (.error (.duplicateKey [2])) [sampleFirst, sampleThird] s' ∧
      (s'.holdings sampleWriter.site).queue =
        [sampleWriter.updateOf sampleFirst, sampleWriter.updateOf sampleThird] ∧
      (s'.holdings sampleWriter.site).elements [2] = some sampleThird.element ∧
      ((s'.holdings sampleWriter.site).elements [2]).isSome = true := by
  have hbuild : sampleBlueprint.build ⟨Block.zero 32, Block.zero 32, Block.zero 16⟩ false {} =
      (.ok sampleWriter, {}) := rfl
  have hobtained : sampleWriter.Obtained := .built rfl hbuild
  have hended : Crew.Ended (⟨sampleWorkers, true, (sampleWriter.writeEntry sampleSecond
      sampleWritten).2⟩ : Crew Entry Service) := by
    simp [Crew.Ended, sampleWorkers]
  have hinserts := InsertsBatch.run (Prod.ext rfl rfl) run_sampleWorkers hended (Prod.ext rfl rfl)
  obtain ⟨-, haccounted⟩ := insertsBatch_accounted hobtained _ _
  obtain ⟨-, hqueue, hstored, -, -, hduplicate⟩ := haccounted _ _ _ hinserts
  refine ⟨_, hinserts, ?_, ?_, hduplicate [2] rfl⟩
  · rw [hqueue]
    simp only [LabelSecret.label_derive]
    rfl
  · exact hstored.some_iff.2 (.inr ⟨sampleThird, by simp [Crew.written, sampleWorkers], rfl, rfl⟩)

end Dictionary

end AuthDict
