import AuthDict.Proofs.Trie.Rehash
import AuthDict.Proofs.Updater.Exclusion

/-!
# Every update once and in order

Updates may be enqueued while a cycle runs, a cycle may fail to load or to save, and any number of
cycles may be called. As long as failed batches are put back and the dictionary is not removed, each
update is at any time in exactly one place: in a batch that was saved, in the batch that a cycle has
drained, or in the queue. Read in this order the three are what has been enqueued. The stored trie
is that of the saved batches.
-/
namespace AuthDict

/-- The drained batch that is neither saved nor put back. -/
def Work.batch? : Work → Option (List Update)
  | drained batch => some batch
  | loaded batch _ => some batch
  | failed batch _ => some batch
  | _ => none

def Work.flight (work : Work) : List Update := work.batch?.getD []

/-- What has been enqueued is in the saved batches, on the way and in the queue, in this order, and
the stored trie is that of the saved batches. -/
structure Ledger (batches : List (List Update)) (flight queue enqueued : List Update)
    (stored : Option Trie) : Prop where
  updates : batches.flatten ++ flight ++ queue = enqueued
  stored : stored = if batches = [] then none else some (Trie.applyBatches {} batches)
  nonempty : ∀ batch ∈ batches, batch ≠ []

/-- The call puts failed batches of the dictionary back, or does not remove it. -/
def Call.Keeps (id : DictionaryId) : Call → Prop
  | cycle id' policy _ => id' = id → policy = .requeue
  | removal scope _ => ¬ scope.Covers id
  | publication .. => True

instance (id : DictionaryId) : (c : Call) → Decidable (c.Keeps id)
  | .cycle id' policy _ => inferInstanceAs (Decidable (id' = id → policy = .requeue))
  | .removal scope _ => inferInstanceAs (Decidable (¬ scope.Covers id))
  | .publication .. => inferInstanceAs (Decidable True)

/-- The locks that a removal has taken are those of dictionaries that it removes. -/
def Call.TakesCovered : Call → Prop
  | removal scope stage => ∀ entry ∈ (removal scope stage).removing, scope.Covers entry.1
  | _ => True

/-- Only calls that keep every update of the dictionary are made. -/
def Move.keeps (id : DictionaryId) : Move → Bool
  | start c => c.Keeps id
  | _ => true

namespace World

/-- The updates of a dictionary that some cycle has drained and not yet saved or put back. -/
def flight (id : DictionaryId) (w : World) : List Update :=
  w.calls.flatMap fun c => (c.work? id).elim [] Work.flight

/-- The updates of a dictionary that have been enqueued, in order. -/
def enqueuedUpdates (id : DictionaryId) (w : World) : List Update :=
  (w.enqueued.filter (·.1 = id)).flatMap (·.2)

/-- Failed batches of the dictionary are put back, and it is not removed. -/
def Kept (id : DictionaryId) (w : World) : Prop := ∀ c ∈ w.calls, c.Keeps id ∧ c.TakesCovered

/-- The ledger of a dictionary is right, and no cycle of it works on an empty batch. -/
structure Delivers (id : DictionaryId) (w : World) : Prop where
  ledger : Ledger (w.savedBatches id) (w.flight id) (w.shared.queue id) (w.enqueuedUpdates id)
    (w.shared.stored id)
  batch : ∀ c ∈ w.calls, ∀ work ∈ c.work? id, ∀ batch ∈ work.batch?, batch ≠ []

end World

namespace Work.Effect

variable {policy : FailurePolicy} {work work' : Work} {queue queue' : List Update}
  {stored stored' : Option Trie}

/-- A step of the work moves updates on or back, in their order. -/
theorem updates_eq (h : Effect .requeue work queue stored work' queue' stored') :
    work'.justSaved.flatten ++ work'.flight ++ queue' = work.flight ++ queue := by
  cases h with
  | idle => rfl
  | drain _ => simp [flight, batch?, justSaved]
  | _ => simp [flight, batch?, justSaved, WriteSide.restored]

theorem batch_ne (h : Effect policy work queue stored work' queue' stored')
    (hbatch : ∀ batch ∈ work.batch?, batch ≠ []) : ∀ batch ∈ work'.batch?, batch ≠ [] := by
  cases h with
  | drain hne => simpa [batch?] using hne
  | load => exact hbatch
  | loadFails e => exact hbatch
  | saveFails e => exact hbatch
  | _ => simp [batch?]

end Work.Effect

namespace Ledger

variable {batches : List (List Update)} {flight queue queue' enqueued : List Update}
  {stored stored' : Option Trie}

theorem getD_stored (h : Ledger batches flight queue enqueued stored) :
    stored.getD {} = Trie.applyBatches {} batches := by
  rw [h.stored]
  split
  · next hnone =>
    rw [hnone]
    rfl
  · rfl

theorem enqueue (h : Ledger batches flight queue enqueued stored) (updates : List Update) :
    Ledger batches flight (queue ++ updates) (enqueued ++ updates) stored := by
  refine ⟨?_, h.stored, h.nonempty⟩
  rw [← List.append_assoc, h.updates]

/-- The work of a cycle that has loaded what is stored keeps the ledger right. -/
theorem works {work work' : Work} (h : Ledger batches work.flight queue enqueued stored)
    (heff : Work.Effect .requeue work queue stored work' queue' stored')
    (hsnap : ∀ snapshot ∈ work.snapshot?, snapshot = stored)
    (hbatch : ∀ batch ∈ work.batch?, batch ≠ []) :
    Ledger (batches ++ work'.justSaved) work'.flight queue' enqueued stored' := by
  have hupdates : (batches ++ work'.justSaved).flatten ++ work'.flight ++ queue' = enqueued :=
    calc (batches ++ work'.justSaved).flatten ++ work'.flight ++ queue'
        = batches.flatten ++ (work'.justSaved.flatten ++ work'.flight ++ queue') := by
          simp only [List.flatten_append, List.append_assoc]
      _ = batches.flatten ++ (work.flight ++ queue) := by rw [heff.updates_eq]
      _ = batches.flatten ++ work.flight ++ queue := (List.append_assoc ..).symm
      _ = enqueued := h.updates
  rcases heff.stored_cases with ⟨hnone, hsame⟩ | ⟨batch, snapshot, rfl, hone, hnew⟩
  · rw [hnone, List.append_nil] at hupdates ⊢
    exact ⟨hupdates, hsame.trans h.stored, h.nonempty⟩
  · obtain rfl := hsnap snapshot rfl
    refine ⟨hupdates, ?_, ?_⟩
    · rw [hnew, hone, if_neg (by simp), Trie.applyBatches_concat, h.getD_stored]
    · rw [hone]
      exact List.forall_mem_append.2 ⟨h.nonempty, List.forall_mem_singleton.2 (hbatch batch rfl)⟩

end Ledger

namespace Call

variable {id : DictionaryId} {pick : Nat} {s s' : Shared} {c c' : Call}

theorem Step.keeps (h : Step pick s c c' s') (hc : c.Keeps id) : c'.Keeps id := by
  cases h <;> exact hc

theorem takesCovered_of_isNew (h : c.isNew = true) : c.TakesCovered := by
  obtain ⟨id, policy, rfl⟩ | ⟨scope, rfl⟩ | ⟨id, key, rfl⟩ := isNew_cases h
  · trivial
  · exact fun entry hentry => nomatch hentry
  · trivial

theorem Step.takesCovered (h : Step pick s c c' s') (hc : c.TakesCovered) : c'.TakesCovered := by
  cases h with
  | takeLocks => exact fun entry hentry => (Scope.mem_locks.1 hentry).1
  | pass _ _ => exact fun entry hentry => hc entry (List.mem_of_mem_eraseIdx hentry)
  | lookUp _ => trivial
  | acquire _ => trivial
  | work _ => trivial
  | release => trivial
  | publish _ => trivial
  | _ => exact fun entry hentry => nomatch hentry

theorem flight_of_atRest (h : c.AtRest id) : (c.work? id).elim [] Work.flight = [] := by
  cases hwork : c.work? id with
  | none => rfl
  | some work => rcases h work hwork with rfl | ⟨r, rfl⟩ <;> rfl

end Call

namespace World

variable {id : DictionaryId} {w w' : World} {s s' : Shared} {before after : List Call} {c c' : Call}
  {enqueued saved : List (DictionaryId × List Update)}

theorem flight_of_outside (h : ∀ d ∈ before ++ after, d.work? id = none) :
    flight id ⟨s, before ++ c :: after, enqueued, saved⟩ = (c.work? id).elim [] Work.flight := by
  have hnone : ∀ calls : List Call, (∀ d ∈ calls, d.work? id = none) →
      calls.flatMap (fun c => (c.work? id).elim [] Work.flight) = [] := by
    intro calls hcalls
    rw [List.flatMap_eq_nil_iff]
    intro d hd
    rw [hcalls d hd]
    rfl
  obtain ⟨hbefore, hafter⟩ := List.forall_mem_append.1 h
  simp [flight, hnone before hbefore, hnone after hafter]

theorem enqueuedUpdates_enqueue (w : World) (id id' : DictionaryId) (updates : List Update) :
    (w.enqueue id' updates).enqueuedUpdates id =
      w.enqueuedUpdates id ++ if id' = id then updates else [] := by
  by_cases hid : id' = id <;> simp [enqueuedUpdates, World.enqueue, hid]

theorem queue_enqueue (w : World) (id id' : DictionaryId) (updates : List Update) :
    (w.enqueue id' updates).shared.queue id =
      w.shared.queue id ++ if id' = id then updates else [] := by
  by_cases hid : id' = id
  · subst hid
    rw [if_pos rfl]
    exact w.shared.side.queue_enqueue id' updates
  · rw [if_neg hid, List.append_nil]
    exact (w.shared.side.enqueue_spares id' updates).queue id (Ne.symm hid)

namespace Kept

/-- A removal that does not cover the dictionary goes past no lock of it. -/
theorem orderly (h : Kept id w) (m : Move) : w.orderly id m = true := by
  cases m with
  | advance i pick =>
    simp only [World.orderly, Option.all_eq_true, Option.bind_eq_some_iff, Bool.or_eq_true]
    rintro entry ⟨c, hc, hpass⟩
    refine .inl (decide_eq_true fun hid => ?_)
    obtain ⟨hkeeps, hcovered⟩ := h c (List.mem_of_getElem? hc)
    cases c with
    | removal scope stage =>
      have hcovers := hcovered entry (List.mem_of_getElem? hpass)
      rw [hid] at hcovers
      exact hkeeps hcovers
    | _ => simp [Call.passes?, Call.removing] at hpass
  | _ => rfl

theorem step {m : Move} (h : Kept id w) (hstep : Step w m w') (hm : m.keeps id = true) :
    Kept id w' := by
  cases hstep with
  | enqueue => exact h
  | start hnew =>
    refine List.forall_mem_append.2 ⟨h, List.forall_mem_singleton.2 ?_⟩
    exact ⟨of_decide_eq_true hm, Call.takesCovered_of_isNew hnew⟩
  | call hcall =>
    obtain ⟨⟨hkeeps, hcovered⟩, hothers⟩ := forall_around.1 h
    exact forall_around.2 ⟨⟨hcall.keeps hkeeps, hcall.takesCovered hcovered⟩, hothers⟩

end Kept

namespace Delivers

theorem enqueue (h : Delivers id w) (id' : DictionaryId) (updates : List Update) :
    Delivers id (w.enqueue id' updates) := by
  refine ⟨?_, h.batch⟩
  rw [queue_enqueue, enqueuedUpdates_enqueue, stored_enqueue]
  exact h.ledger.enqueue _

theorem start (h : Delivers id w) (hnew : c.isNew = true) :
    Delivers id { w with calls := w.calls ++ [c] } := by
  have hwork : c.work? id = none := Call.work?_of_isNew hnew
  have hflight : flight id { w with calls := w.calls ++ [c] } = w.flight id := by
    simp [flight, hwork]
  constructor
  · rw [hflight]
    exact h.ledger
  · exact List.forall_mem_append.2 ⟨h.batch, by simp [hwork]⟩

theorem call {pick : Nat} (h : Delivers id ⟨s, before ++ c :: after, enqueued, saved⟩)
    (hserial : Serial id ⟨s, before ++ c :: after, enqueued, saved⟩) (hkeeps : c.Keeps id)
    (hstep : Call.Step pick s c c' s') :
    Delivers id ⟨s', before ++ c' :: after, enqueued, saved ++ c'.justSaved⟩ := by
  obtain ⟨hbatch, hbatches⟩ := forall_around.1 h.batch
  have hledger := h.ledger
  cases hstep.effect id with
  | @works policy lock work work' heff =>
    -- The other cycles are outside, so the batch of this one is all that is on the way.
    have houtside := hserial.guarded.outside (by simp [Call.isInside])
    have hfresh := (forall_around.1 hserial.fresh).1 work (Call.work?_inside ..)
    have hwork := hbatch work (Call.work?_inside ..)
    obtain rfl := hkeeps rfl
    rw [flight_of_outside houtside, Call.work?_inside] at hledger
    refine ⟨?_, forall_around.2 ⟨fun k hk => ?_, hbatches⟩⟩
    · rw [flight_of_outside houtside, savedBatches_append, Call.work?_inside,
        Call.justSaved_inside]
      exact hledger.works heff hfresh hwork
    · obtain rfl := Option.some.inj ((Call.work?_inside ..).symm.trans hk)
      exact heff.batch_ne hwork
  | empties hcovers _ _ => exact absurd hcovers hkeeps
  | other hqueue hstored hc hc' =>
    have hflight : flight id ⟨s', before ++ c' :: after, enqueued, saved ++ c'.justSaved⟩ =
        flight id ⟨s, before ++ c :: after, enqueued, saved⟩ := by
      simp [flight, Call.flight_of_atRest hc, Call.flight_of_atRest hc']
    refine ⟨?_, forall_around.2 ⟨fun work hwork batch hmem => ?_, hbatches⟩⟩
    · rw [hflight, savedBatches_append, Call.justSaved_of_atRest hc', List.map_nil,
        List.append_nil, hqueue, hstored]
      exact hledger
    · rcases hc' work hwork with rfl | ⟨r, rfl⟩ <;> contradiction

theorem step {m : Move} (h : Delivers id w) (hserial : Serial id w) (hkept : Kept id w)
    (hstep : Step w m w') : Delivers id w' := by
  cases hstep with
  | enqueue => exact h.enqueue ..
  | start hnew => exact h.start hnew
  | call hcall => exact h.call hserial (forall_around.1 hkept).1.1 hcall

end Delivers

/-- With failed batches put back and no removal, each enqueued update is in a saved batch, in the
one batch on the way or in the queue, in order, and the stored trie is that of the saved batches,
each of them one epoch. -/
theorem enqueued_once {w₀ : World} {moves : List Move} (hquiet : w₀.Quiet)
    (hqueue : w₀.shared.queue id = []) (hstored : w₀.shared.stored id = none)
    (hrun : w₀.play? (fun _ m => m.keeps id) moves = some w) :
    w.calls.countP (·.isInside id) ≤ 1 ∧
      (w.savedBatches id).flatten ++ w.flight id ++ w.shared.queue id = w.enqueuedUpdates id ∧
      (w.shared.stored id =
        if w.savedBatches id = [] then none else some (Trie.applyBatches {} (w.savedBatches id))) ∧
      (Trie.applyBatches {} (w.savedBatches id)).epoch =
        UInt64.ofNat (w.savedBatches id).length := by
  have hstart : Delivers id w₀ := by
    have hbatches : w₀.savedBatches id = [] := by simp [savedBatches, hquiet.saved]
    refine ⟨⟨?_, by simpa [hbatches] using hstored, by simp [hbatches]⟩, by simp [hquiet.calls]⟩
    simp [hbatches, flight, enqueuedUpdates, hquiet.calls, hquiet.enqueued, hqueue]
  obtain ⟨hserial, -, hdelivers⟩ : Serial id w ∧ Kept id w ∧ Delivers id w := by
    refine play?_keeps (P := fun w => Serial id w ∧ Kept id w ∧ Delivers id w) ?_ hrun
      ⟨hquiet.serial id, by simp [Kept, hquiet.calls], hstart⟩
    intro w w' m hm hstep h
    obtain ⟨hserial, hkept, hdelivers⟩ := h
    exact ⟨hserial.step hstep (hkept.orderly m), hkept.step hstep hm,
      hdelivers.step hserial hkept hstep⟩
  have hepoch := Trie.epoch_applyBatches {} hdelivers.ledger.nonempty
  exact ⟨hserial.guarded.countP_isInside_le_one, hdelivers.ledger.updates, hdelivers.ledger.stored,
    hepoch.trans (UInt64.zero_add _)⟩

/-- A backend whose first save fails. -/
def sampleStorage : Storage := { trieSaves := { down := fun call => call = 0 } }

/-- The first cycle fails to save while the second waits for it. What was enqueued meanwhile stays
behind the batch that is put back. A third cycle has drained when the run ends. -/
def sampleRequeue : List Move :=
  [.enqueue sampleId [sampleUpdate 0], .start sampleCycle] ++ List.replicate 3 (.advance 0 0) ++
    [.enqueue sampleId [sampleUpdate 1], .start sampleCycle, .advance 1 0] ++
    List.replicate 4 (.advance 0 0) ++ List.replicate 6 (.advance 1 0) ++
    [.enqueue sampleId [sampleUpdate 2], .start sampleCycle] ++ List.replicate 3 (.advance 2 0) ++
    [.enqueue sampleId [sampleUpdate 3]]

theorem enqueued_once_sampleRequeue :
    ∃ w, (initial sampleStorage).play? (fun _ m => m.keeps sampleId) sampleRequeue = some w ∧
      w.savedBatches sampleId = [[sampleUpdate 0, sampleUpdate 1]] ∧
      w.flight sampleId = [sampleUpdate 2] ∧
      w.enqueuedUpdates sampleId =
        [sampleUpdate 0, sampleUpdate 1, sampleUpdate 2, sampleUpdate 3] ∧
      w.shared.stored sampleId =
        some (Trie.applyBatches {} [[sampleUpdate 0, sampleUpdate 1]]) := by
  have hplaces : ((initial sampleStorage).play? (fun _ m => m.keeps sampleId) sampleRequeue).any
      (fun w => w.savedBatches sampleId = [[sampleUpdate 0, sampleUpdate 1]] ∧
        w.flight sampleId = [sampleUpdate 2] ∧ w.shared.queue sampleId = [sampleUpdate 3]) := by
    decide +kernel
  obtain ⟨w, hrun, hw⟩ := (Option.any_eq_true _ _).1 hplaces
  obtain ⟨hsaved, hflight, hqueue⟩ := of_decide_eq_true hw
  obtain ⟨-, hupdates, hstored, -⟩ :=
    enqueued_once (quiet_initial sampleStorage) rfl (by decide +kernel) hrun
  rw [hsaved, hflight, hqueue] at hupdates
  rw [hsaved] at hstored
  exact ⟨w, hrun, hsaved, hflight, hupdates.symm, hstored⟩

end World

end AuthDict
