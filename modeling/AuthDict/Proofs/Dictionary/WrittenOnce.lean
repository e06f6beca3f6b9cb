import AuthDict.Proofs.Dictionary.Accounting
import AuthDict.Proofs.Dictionary.Writers
import AuthDict.Proofs.Updater.Locks
import Mathlib.Data.List.Nodup

/-!
# An element is written once

A writer looks under the key and then saves, so two writers of one key have to be kept apart, and
the lock does that as long as both were given the same one. When the registry's state of a
dictionary is released while a writer still has the old lock, the next writer is given another: both
find the key free, both report success, and the second element replaces the first.

As long as the state is only released when no writer knows a lock of the dictionary, every writer
that knows one knows the one in the table. Then no two entries are written under one key, and what
is stored under a key stays.
-/
namespace AuthDict.Writing

variable {id : DictionaryId} {w w' : State} {s s' : Shared} {before after : List Writer}
  {p p' : Writer} {begun : Nat}

namespace State

/-- The dictionary is not released while a writer of it knows a lock. -/
def orderly (id : DictionaryId) (w : State) : Move → Bool
  | .release id' => id' ≠ id || w.writers.all fun p => p.handle.id ≠ id || !p.knows
  | _ => true

/-- The state after some moves, if each of them is allowed and enabled. -/
abbrev play? (allowed : State → Move → Bool) (w : State) (moves : List Move) : Option State :=
  Schedule.play? next? allowed w moves

/-- Writers of the dictionary know the lock in the table, and locks are held by the writers that say
so. -/
structure Guarded (id : DictionaryId) (w : State) : Prop where
  known : ∀ p ∈ w.writers, p.handle.id = id → p.knows = true → w.shared.lock? id = some p.lock
  holders : ∀ lock, w.writers.countP (·.holds lock) = (w.shared.held lock).toNat

/-- What is saved and what is about to be saved: no two entries have one key, and each of them is
the stored element of its key. -/
structure Once (id : DictionaryId) (w : State) : Prop where
  free : ∀ p ∈ w.writers, p.handle.id = id → ∀ e, p.stage = .free e →
    w.shared.element? id e.key = none
  stored : ∀ e ∈ w.accepted id, w.shared.element? id e.key = some e.element
  distinct : ((w.accepted id).map (·.key)).Nodup

end State

namespace Writer

theorem knows_of_isInside (h : p.isInside = true) : p.knows = true := by
  unfold isInside at h
  unfold knows
  split at h <;> simp_all

namespace Step

theorem handle_eq (h : Step s p p' s') : p'.handle = p.handle := by
  cases h with
  | @leave e result _ => cases result <;> rfl
  | _ => rfl

theorem lock_eq (h : Step s p p' s') : p'.lock = p.lock := by
  cases h with
  | @leave e result _ => cases result <;> rfl
  | _ => rfl

theorem lock?_eq (h : Step s p p' s') (id : DictionaryId) : s'.lock? id = s.lock? id := by
  cases h <;> rfl

/-- A writer that has forgotten its lock does not learn of it again. -/
theorem knows (h : Step s p p' s') (hknows : p'.knows = true) : p.knows = true := by
  cases h with
  | finish _ => contradiction
  | fail _ => contradiction
  | choose hstage => simp [Writer.knows, hstage]
  | acquire hstage _ => simp [Writer.knows, hstage]
  | find hstage _ _ => simp [Writer.knows, hstage]
  | refuse hstage _ => rcases hstage with hstage | hstage <;> simp [Writer.knows, hstage]
  | save hstage _ => simp [Writer.knows, hstage]
  | leave hstage => simp [Writer.knows, hstage]

theorem holds_balance (h : Step s p p' s') {lock : Nat}
    (hheld : p.holds lock = true → s.held lock = true) :
    (p'.holds lock).toNat + (s.held lock).toNat = (p.holds lock).toNat + (s'.held lock).toNat := by
  cases h with
  | finish hstage => simp [holds, isInside, hstage]
  | choose hstage => simp [holds, isInside, hstage]
  | acquire hstage hfree =>
    by_cases hlock : lock = p.lock
    · subst hlock
      simp [holds, isInside, hstage, Shared.setHeld, hfree]
    · simp [holds, isInside, hstage, Shared.setHeld, Function.update_of_ne hlock, Ne.symm hlock]
  | find hstage _ _ => simp [holds, isInside, hstage, Shared.withStorage]
  | refuse hstage _ =>
    rcases hstage with hstage | hstage <;> simp [holds, isInside, hstage, Shared.withStorage]
  | save hstage _ => simp [holds, isInside, hstage, Shared.withStorage]
  | @leave e result hstage =>
    have hafter : (p.after e result).holds lock = false := by cases result <;> rfl
    rw [hafter]
    by_cases hlock : lock = p.lock
    · subst hlock
      have hheld := hheld (by simp [holds, isInside, hstage])
      simp [holds, isInside, hstage, Shared.setHeld, hheld]
    · simp [holds, Shared.setHeld, Function.update_of_ne hlock, Ne.symm hlock]
  | fail hstage => simp [holds, isInside, hstage, Shared.stop]

/-- A step leaves the elements alone, or saves an entry under a key that was found free. -/
theorem elements_cases (h : Step s p p' s') :
    (s'.element? = s.element? ∧ p'.accepted = p.accepted) ∨
      ∃ e, p.stage = .free e ∧ p'.accepted = p.accepted ++ [e] ∧
        ∀ id key, s'.element? id key =
          if id = p.handle.id ∧ key = e.key then some e.element else s.element? id key := by
  cases h with
  | finish hstage => exact .inl ⟨rfl, by simp [accepted, hstage]⟩
  | choose hstage => exact .inl ⟨rfl, by simp [accepted, hstage]⟩
  | acquire hstage _ => exact .inl ⟨rfl, by simp [accepted, hstage]⟩
  | find hstage _ hagrees =>
    exact .inl ⟨Shared.element?_withStorage hagrees, by simp [accepted, hstage]⟩
  | refuse hstage hagrees =>
    refine .inl ⟨Shared.element?_withStorage hagrees, ?_⟩
    rcases hstage with hstage | hstage <;> simp [accepted, hstage]
  | @save e storage hstage helements =>
    refine .inr ⟨e, hstage, by simp [accepted, hstage], fun id key => ?_⟩
    by_cases hkey : id = p.handle.id ∧ key = e.key
    · obtain ⟨rfl, rfl⟩ := hkey
      rw [if_pos ⟨rfl, rfl⟩, Shared.element?, Shared.withStorage, helements,
        OrderedMap.get?_insert_self]
    · rw [if_neg hkey, Shared.element?, Shared.withStorage, helements, OrderedMap.get?_insert_of_ne]
      · rfl
      · simpa using hkey
  | @leave e result hstage =>
    refine .inl ⟨rfl, ?_⟩
    cases result <;> simp [after, accepted, hstage]
  | fail hstage => exact .inl ⟨rfl, by simp [accepted, hstage]⟩

/-- Only a writer that has loaded knows that a key is free. -/
theorem of_free (h : Step s p p' s') {e : Entry} (hfree : p'.stage = .free e) :
    s'.element? p.handle.id e.key = none := by
  cases h with
  | @find e' storage _ hnone hagrees =>
    obtain rfl : e' = e := Stage.free.inj hfree
    rw [Shared.element?_withStorage hagrees]
    exact hnone
  | @leave e' result _ => cases result <;> contradiction
  | _ => contradiction

end Step

end Writer

namespace State

theorem accepted_around :
    (accepted id ⟨s, before ++ p :: after, begun⟩).Perm
      ((if p.handle.id = id then p.accepted else []) ++
        accepted id ⟨s, before ++ after, begun⟩) := by
  have hmiddle : (before ++ p :: after).Perm (p :: (before ++ after)) := List.perm_middle
  refine ((hmiddle.filter fun q => decide (q.handle.id = id)).flatMap_right _).trans ?_
  by_cases hid : p.handle.id = id <;> simp [accepted, hid]

theorem knows_of_orderly {id' : DictionaryId} (h : orderly id w (.release id') = true) :
    id' ≠ id ∨ ∀ p ∈ w.writers, p.handle.id = id → p.knows = false := by
  simp only [orderly, Bool.or_eq_true, decide_eq_true_eq, List.all_eq_true] at h
  refine h.imp_right fun hall p hp hid => ?_
  simpa using (hall p hp).resolve_left (not_not_intro hid)

namespace Guarded

theorem insert (h : Guarded id w) (handle : Dictionary) (shards : List (List Entry)) :
    Guarded id (w.insert handle shards) where
  known p hp hid hknows := by
    have hself := w.shared.registry.writeLocks.locks_get handle.id
    rcases List.mem_append.1 hp with hp | hp
    · have hlock := h.known p hp hid hknows
      by_cases hsame : id = handle.id
      · subst hsame
        rw [LockTable.get_of_locks hlock] at hself
        exact hself
      · exact (LockTable.locks_get_of_ne _ hsame).trans hlock
    · obtain ⟨rest, -, rfl⟩ := List.mem_map.1 hp
      obtain rfl : handle.id = id := hid
      exact hself
  holders lock := by
    have hnew : (shards.map fun rest => ({
        handle, lock := (w.shared.registry.writeLock handle.id).1, insertion := w.begun, rest } :
        Writer)).countP (·.holds lock) = 0 := by
      refine List.countP_eq_zero.2 fun p hp => ?_
      obtain ⟨rest, -, rfl⟩ := List.mem_map.1 hp
      simp [Writer.holds, Writer.isInside]
    rw [State.insert, List.countP_append]
    exact (congrArg (_ + ·) hnew).trans (h.holders lock)

theorem release (h : Guarded id w) {id' : DictionaryId}
    (horder : orderly id w (.release id') = true) : Guarded id (w.release id') where
  known p hp hid hknows := by
    rcases knows_of_orderly horder with hne | hnone
    · exact (OrderedMap.get?_erase_of_ne _ hne.symm).trans (h.known p hp hid hknows)
    · rw [hnone p hp hid] at hknows
      contradiction
  holders := h.holders

theorem writer (h : Guarded id ⟨s, before ++ p :: after, begun⟩) (hstep : Writer.Step s p p' s') :
    Guarded id ⟨s', before ++ p' :: after, begun⟩ where
  known := by
    obtain ⟨hknown, hothers⟩ := forall_around.1 h.known
    have hlock := hstep.lock?_eq id
    refine forall_around.2 ⟨fun hid hknows => ?_, fun q hq hid hknows => ?_⟩
    · rw [hstep.handle_eq] at hid
      rw [hstep.lock_eq, hlock]
      exact hknown hid (hstep.knows hknows)
    · rw [hlock]
      exact hothers q hq hid hknows
  holders lock := countP_balance (h.holders lock)
    (hstep.holds_balance (flag_of_countP (h.holders lock)))

/-- While a writer of the dictionary is inside, all others of it are outside. -/
theorem outside (h : Guarded id ⟨s, before ++ p :: after, begun⟩) (hid : p.handle.id = id)
    (hp : p.isInside = true) :
    ∀ q ∈ before ++ after, q.handle.id = id → q.isInside = false := by
  intro q hq hqid
  by_contra hinside
  rw [Bool.not_eq_false] at hinside
  obtain ⟨hknown, hothers⟩ := forall_around.1 h.known
  have hlock := hknown hid (Writer.knows_of_isInside hp)
  rw [hothers q hq hqid (Writer.knows_of_isInside hinside)] at hlock
  have hholds : p.holds p.lock = true := by simp [Writer.holds, hp]
  have hqholds : q.holds p.lock = true := by simp [Writer.holds, hinside, Option.some.inj hlock]
  have hone : 0 < (before ++ after).countP (·.holds p.lock) :=
    List.countP_pos_iff.2 ⟨q, hq, hqholds⟩
  have hcount := h.holders p.lock
  rw [countP_around, hholds] at hcount
  have hle := Bool.toNat_le (s.held p.lock)
  dsimp only [Bool.toNat_true] at hcount
  omega

theorem step {m : Move} (h : Guarded id w) (hstep : Step w m w') (horder : w.orderly id m = true) :
    Guarded id w' := by
  cases hstep with
  | insert => exact h.insert ..
  | writer hp => exact h.writer hp
  | release => exact h.release horder

end Guarded

theorem Quiet.guarded (h : w.Quiet) (id : DictionaryId) : Guarded id w where
  known := by simp [h.writers]
  holders lock := by simp [h.writers, h.held lock]

theorem accepted_perm {new : List Entry} (hhandle : p'.handle = p.handle)
    (hnew : p'.accepted = p.accepted ++ new) :
    (accepted id ⟨s', before ++ p' :: after, begun⟩).Perm
      (accepted id ⟨s, before ++ p :: after, begun⟩ ++ if p.handle.id = id then new else []) := by
  refine accepted_around.trans (.trans ?_ (accepted_around.symm.append_right _))
  rw [hhandle, hnew]
  by_cases hid : p.handle.id = id
  · simp only [if_pos hid, List.append_assoc]
    exact List.perm_append_comm.append_left _
  · simp only [if_neg hid, List.nil_append, List.append_nil]
    exact .refl _

namespace Once

/-- A step that saves nothing of the dictionary keeps what is known of its elements. -/
theorem writer_same (h : Once id ⟨s, before ++ p :: after, begun⟩) (hstep : Writer.Step s p p' s')
    (helements : s'.element? id = s.element? id)
    (hperm : (accepted id ⟨s', before ++ p' :: after, begun⟩).Perm
      (accepted id ⟨s, before ++ p :: after, begun⟩)) :
    Once id ⟨s', before ++ p' :: after, begun⟩ where
  free := by
    refine forall_around.2 ⟨fun hid e hfree => ?_, fun q hq hid e hfree => ?_⟩
    · rw [hstep.handle_eq] at hid
      rw [← hid]
      exact hstep.of_free hfree
    · rw [helements]
      exact (forall_around.1 h.free).2 q hq hid e hfree
  stored e he := by
    rw [helements]
    exact h.stored e (hperm.mem_iff.1 he)
  distinct := (hperm.map _).nodup_iff.2 h.distinct

/-- A writer that saves is the only one inside, so the key is still free. -/
theorem writer_save (h : Once id ⟨s, before ++ p :: after, begun⟩)
    (hg : Guarded id ⟨s, before ++ p :: after, begun⟩) (hstep : Writer.Step s p p' s')
    (hid : p.handle.id = id) {e : Entry} (hfree : p.stage = .free e)
    (helement : ∀ key,
      s'.element? id key = if key = e.key then some e.element else s.element? id key)
    (hperm : (accepted id ⟨s', before ++ p' :: after, begun⟩).Perm
      (accepted id ⟨s, before ++ p :: after, begun⟩ ++ [e])) :
    Once id ⟨s', before ++ p' :: after, begun⟩ := by
  have hnone : s.element? id e.key = none := (forall_around.1 h.free).1 hid e hfree
  have hother : ∀ f ∈ accepted id ⟨s, before ++ p :: after, begun⟩, f.key ≠ e.key := by
    intro f hf hkey
    have hstored := h.stored f hf
    rw [hkey] at hstored
    exact absurd (hnone.symm.trans hstored) (by simp)
  constructor
  · refine forall_around.2 ⟨fun _ f hf => ?_, fun q hq hqid f hf => ?_⟩
    · rw [← hid]
      exact hstep.of_free hf
    · have hinside := hg.outside hid (by simp [Writer.isInside, hfree]) q hq hqid
      simp [Writer.isInside, hf] at hinside
  · intro f hf
    rcases List.mem_append.1 (hperm.mem_iff.1 hf) with hf | hf
    · exact (helement f.key).trans ((if_neg (hother f hf)).trans (h.stored f hf))
    · obtain rfl := List.mem_singleton.1 hf
      exact (helement f.key).trans (if_pos rfl)
  · refine (hperm.map _).nodup_iff.2 ?_
    rw [List.map_append]
    refine List.Nodup.append h.distinct (List.nodup_singleton _) fun key hkey hkey' => ?_
    obtain ⟨f, hf, rfl⟩ := List.mem_map.1 hkey
    exact hother f hf (List.mem_singleton.1 hkey')

theorem writer (h : Once id ⟨s, before ++ p :: after, begun⟩)
    (hg : Guarded id ⟨s, before ++ p :: after, begun⟩) (hstep : Writer.Step s p p' s') :
    Once id ⟨s', before ++ p' :: after, begun⟩ := by
  have haround {new : List Entry} (hnew : p'.accepted = p.accepted ++ new) :
      (accepted id ⟨s', before ++ p' :: after, begun⟩).Perm
        (accepted id ⟨s, before ++ p :: after, begun⟩ ++ if p.handle.id = id then new else []) :=
    accepted_perm hstep.handle_eq hnew
  obtain ⟨helements, haccepted⟩ | ⟨e, hfree, haccepted, helement⟩ := hstep.elements_cases
  · refine h.writer_same hstep (congrFun helements id) ?_
    simpa using haround (haccepted.trans (List.append_nil _).symm)
  · have hperm := haround haccepted
    by_cases hid : p.handle.id = id
    · rw [if_pos hid] at hperm
      refine h.writer_save hg hstep hid hfree (fun key => ?_) hperm
      rw [helement, hid]
      simp
    · rw [if_neg hid, List.append_nil] at hperm
      refine h.writer_same hstep (funext fun key => ?_) hperm
      rw [helement, if_neg fun hkey => hid hkey.1.symm]

theorem insert (h : Once id w) (handle : Dictionary) (shards : List (List Entry)) :
    Once id (w.insert handle shards) := by
  have haccepted : accepted id (w.insert handle shards) = accepted id w := by
    rw [accepted, State.insert, List.filter_append, List.flatMap_append]
    refine List.append_right_eq_self.2 (List.flatMap_eq_nil_iff.2 fun p hp => ?_)
    obtain ⟨rest, -, rfl⟩ := List.mem_map.1 (List.mem_of_mem_filter hp)
    rfl
  constructor
  · intro p hp hid e hfree
    rcases List.mem_append.1 hp with hp | hp
    · exact h.free p hp hid e hfree
    · obtain ⟨rest, -, rfl⟩ := List.mem_map.1 hp
      contradiction
  · rw [haccepted]
    exact h.stored
  · rw [haccepted]
    exact h.distinct

theorem step {m : Move} (h : Once id w) (hg : Guarded id w) (hstep : Step w m w') :
    Once id w' := by
  cases hstep with
  | insert => exact h.insert ..
  | writer hp => exact h.writer hg hp
  | release => exact ⟨h.free, h.stored, h.distinct⟩

end Once

theorem Quiet.once (h : w.Quiet) (id : DictionaryId) : Once id w where
  free := by simp [h.writers]
  stored := by simp [accepted, h.writers]
  distinct := by simp [accepted, h.writers]

/-- What is stored under a key stays, whatever the next step is. -/
theorem Once.element?_step {m : Move} (h : Once id w) (hstep : Step w m w') {key : Bytes}
    {element : StoredElement} (hstored : w.shared.element? id key = some element) :
    w'.shared.element? id key = some element := by
  cases hstep with
  | insert => exact hstored
  | release => exact hstored
  | writer hp =>
    obtain ⟨helements, -⟩ | ⟨e, hfree, -, helement⟩ := hp.elements_cases
    · exact (congrFun (congrFun helements id) key).trans hstored
    · refine (helement id key).trans ((if_neg ?_).trans hstored)
      rintro ⟨hid, rfl⟩
      have hnone := (forall_around.1 h.free).1 hid.symm e hfree
      rw [hstored] at hnone
      contradiction

/-- All writers that may still write have the same lock, and what they have written is safe. -/
structure Exclusive (id : DictionaryId) (w : State) : Prop where
  guarded : Guarded id w
  once : Once id w

theorem Exclusive.step {m : Move} (h : Exclusive id w) (hstep : Step w m w')
    (horder : w.orderly id m = true) : Exclusive id w' :=
  ⟨h.guarded.step hstep horder, h.once.step h.guarded hstep⟩

/-- As long as a dictionary is only released when no writer of it knows a lock, at most one attempt
to write a key succeeds, its element is stored, and what is stored under a key never changes. -/
theorem written_once {w₀ : State} {moves : List Move} (hquiet : w₀.Quiet)
    (hrun : w₀.play? (orderly id) moves = some w) :
    ((w.accepted id).map (·.key)).Nodup ∧
      (∀ e ∈ w.accepted id, w.shared.element? id e.key = some e.element) ∧
      ∀ {more : List Move} {w' : State} {key : Bytes} {element : StoredElement},
        w.play? (orderly id) more = some w' → w.shared.element? id key = some element →
        w'.shared.element? id key = some element := by
  have hexclusive : Exclusive id w :=
    Schedule.play?_keeps (fun horder hnext h => h.step (next?_step hnext) horder) hrun
      ⟨hquiet.guarded id, hquiet.once id⟩
  refine ⟨hexclusive.once.distinct, hexclusive.once.stored,
    fun {_ w' key element} hmore hstored => ?_⟩
  refine (Schedule.play?_keeps (P := fun v => Exclusive id v ∧
    v.shared.element? id key = some element) (fun horder hnext h => ?_) hmore
      ⟨hexclusive, hstored⟩).2
  have hstep := next?_step hnext
  exact ⟨h.1.step hstep horder, h.1.once.element?_step hstep h.2⟩

open Deployment (sampleHandle sampleEntry)

/-- Another payload under the key of the sample entry. -/
def sampleRival : Entry := { sampleEntry with payload := [9] }

/-- The first writer has the old lock, the dictionary is released, and the second writer is given a
new lock. Both find the key free, and the first one writes and returns. -/
def sampleRelease : List Move :=
  [.insert sampleHandle [[sampleEntry]], .release sampleHandle.id,
    .insert sampleHandle [[sampleRival]]] ++
    List.replicate 3 (.advance 0) ++ List.replicate 3 (.advance 1) ++ List.replicate 2 (.advance 0)

/-- Both insertions of one key succeed, and the second one replaces what the first has stored. -/
theorem sampleRelease_overwrites :
    (∃ w, (initial {}).play? (fun _ _ => true) sampleRelease = some w ∧
      w.shared.element? sampleHandle.id sampleEntry.key = some sampleEntry.element) ∧
    ∃ w, (initial {}).play? (fun _ _ => true) (sampleRelease ++ List.replicate 2 (.advance 1)) =
        some w ∧
      w.writers.map (fun p => p.written.map (·.1)) = [[sampleEntry], [sampleRival]] ∧
      sampleRival.key = sampleEntry.key ∧
      w.shared.element? sampleHandle.id sampleEntry.key = some sampleRival.element ∧
      sampleRival.element ≠ sampleEntry.element := by
  have hfirst : ((initial {}).play? (fun _ _ => true) sampleRelease).any fun w =>
      w.shared.element? sampleHandle.id sampleEntry.key = some sampleEntry.element := by
    decide +kernel
  have hboth : ((initial {}).play? (fun _ _ => true)
      (sampleRelease ++ List.replicate 2 (.advance 1))).any fun w =>
        w.writers.map (fun p => p.written.map (·.1)) = [[sampleEntry], [sampleRival]] ∧
          w.shared.element? sampleHandle.id sampleEntry.key = some sampleRival.element := by
    decide +kernel
  obtain ⟨w₁, hrun₁, hw₁⟩ := (Option.any_eq_true _ _).1 hfirst
  obtain ⟨w₂, hrun₂, hw₂⟩ := (Option.any_eq_true _ _).1 hboth
  obtain ⟨hwritten, helement⟩ := of_decide_eq_true hw₂
  exact ⟨⟨w₁, hrun₁, of_decide_eq_true hw₁⟩, w₂, hrun₂, hwritten, rfl, helement, by decide⟩

/-- A writer of a batch and a rival of it that has to wait, the other writer of the batch, and a
release when all of them have ended. -/
def sampleTurns : List Move :=
  [.insert sampleHandle [[sampleEntry], [{ sampleEntry with key := [7] }]],
    .insert sampleHandle [[sampleRival]]] ++
    List.replicate 3 (.advance 0) ++ [.advance 2] ++ List.replicate 3 (.advance 0) ++
    List.replicate 4 (.advance 2) ++ List.replicate 6 (.advance 1) ++ [.release sampleHandle.id]

theorem written_once_sampleTurns :
    ∃ w w', (initial {}).play? (orderly sampleHandle.id) sampleTurns = some w ∧
      w.play? (orderly sampleHandle.id)
        (.insert sampleHandle [[sampleRival]] :: List.replicate 4 (.advance 3)) = some w' ∧
      (w.accepted sampleHandle.id).map (·.key) = [[1], [7]] ∧
      ((w.accepted sampleHandle.id).map (·.key)).Nodup ∧
      w'.shared.element? sampleHandle.id [1] = some sampleEntry.element := by
  have hturns : ((initial {}).play? (orderly sampleHandle.id) sampleTurns).any fun w =>
      (w.accepted sampleHandle.id).map (·.key) = [[1], [7]] ∧
        w.shared.element? sampleHandle.id [1] = some sampleEntry.element ∧
        (w.play? (orderly sampleHandle.id)
          (.insert sampleHandle [[sampleRival]] :: List.replicate 4 (.advance 3))).isSome := by
    decide +kernel
  obtain ⟨w, hrun, hw⟩ := (Option.any_eq_true _ _).1 hturns
  obtain ⟨hkeys, helement, hmore⟩ := of_decide_eq_true hw
  obtain ⟨w', hmore⟩ := Option.isSome_iff_exists.1 hmore
  obtain ⟨hnodup, -, hkept⟩ := written_once (quiet_initial {}) hrun
  exact ⟨w, w', hrun, hmore, hkeys, hnodup, hkept hmore helement⟩

end State

end AuthDict.Writing
