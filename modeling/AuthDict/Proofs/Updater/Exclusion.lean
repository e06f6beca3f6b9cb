import AuthDict.Proofs.Schedule
import AuthDict.Proofs.Updater.Locks

/-!
# One cycle at a time

A cycle that knows a lock of its dictionary but does not hold it yet is not seen by a removal, which
finds the lock free and goes on. When the table is free again, a later cycle is given another lock,
and the two then apply their batches side by side.

As long as no removal goes past a lock that a cycle waits for, all cycles of a dictionary know the
same lock: the one in the table, or the one that a removal has taken out of it and not found free
yet. Then one cycle at a time is inside, and what it has loaded is what is stored.
-/
namespace AuthDict

/-- Whether the work stands between the drain and the end of the save. -/
def Work.applies : Work → Bool
  | drained _ => true
  | loaded _ _ => true
  | _ => false

/-- The stored trie that a cycle is about to build on. -/
def Work.snapshot? : Work → Option (Option Trie)
  | loaded _ stored => some stored
  | _ => none

namespace World

/-- How many cycles of a dictionary are between their drain and the end of their save. -/
def applying (id : DictionaryId) (w : World) : Nat :=
  w.calls.countP fun c => (c.work? id).any Work.applies

/-- Every cycle of the dictionary that is about to save has loaded what is stored now. -/
def Fresh (id : DictionaryId) (w : World) : Prop :=
  ∀ c ∈ w.calls, ∀ work ∈ c.work? id, ∀ stored ∈ work.snapshot?, stored = w.shared.stored id

instance (id : DictionaryId) (w : World) : Decidable (w.Fresh id) :=
  inferInstanceAs (Decidable (∀ c ∈ w.calls, ∀ work ∈ c.work? id, ∀ stored ∈ work.snapshot?,
    stored = w.shared.stored id))

/-- The lock is the one in the table, or one that a removal has still to find free. -/
def InForce (id : DictionaryId) (w : World) (lock : Nat) : Prop :=
  w.shared.lock? id = some lock ∨ ∃ c ∈ w.calls, (id, lock) ∈ c.removing

/-- No removal goes past a lock of the dictionary that some cycle still knows. -/
def orderly (id : DictionaryId) (w : World) : Move → Bool
  | .advance i pick =>
    (w.calls[i]?.bind (·.passes? pick)).all fun entry =>
      entry.1 ≠ id || w.calls.all fun c => c.handle? ≠ some entry
  | _ => true

/-- All cycles of the dictionary know the same lock. -/
structure OneLock (id : DictionaryId) (w : World) : Prop where
  unique : ∀ l l', w.InForce id l → w.InForce id l' → l = l'
  known : ∀ c ∈ w.calls, ∀ lock, c.handle? = some (id, lock) → w.InForce id lock

/-- There is one lock for the dictionary, and locks and table are held by the calls that say so. -/
structure Guarded (id : DictionaryId) (w : World) : Prop extends OneLock id w where
  holders : ∀ lock, w.calls.countP (·.holds lock) = (w.shared.held lock).toNat
  tableHolders : w.calls.countP (·.hasTable) = w.shared.tableHeld.toNat

end World

theorem Work.Effect.snapshot_eq {policy : FailurePolicy} {work work' : Work}
    {queue queue' : List Update} {stored stored' snapshot : Option Trie}
    (h : Work.Effect policy work queue stored work' queue' stored')
    (hsnap : work'.snapshot? = some snapshot) : snapshot = stored' := by
  cases h with
  | load => exact (Option.some.inj hsnap).symm
  | _ => contradiction

namespace World

variable {id : DictionaryId} {w w' : World} {s s' : Shared} {before after : List Call} {c c' : Call}
  {enqueued saved saved' : List (DictionaryId × List Update)}

theorem inForce_around {lock : Nat} :
    InForce id ⟨s, before ++ c :: after, enqueued, saved⟩ lock ↔
      s.lock? id = some lock ∨ (id, lock) ∈ c.removing ∨
        ∃ d ∈ before ++ after, (id, lock) ∈ d.removing :=
  or_congr_right exists_around

theorem orderly_around {pick lock : Nat}
    (h : orderly id ⟨s, before ++ c :: after, enqueued, saved⟩ (.advance before.length pick) = true)
    (hpass : c.passes? pick = some (id, lock)) :
    ∀ d ∈ before ++ after, d.handle? ≠ some (id, lock) := by
  have hc : (before ++ c :: after)[before.length]? = some c := by simp
  simp only [orderly, hc, Option.bind_some, hpass, Option.all_some, ne_eq, not_true_eq_false,
    decide_false, Bool.false_or, List.all_eq_true, decide_eq_true_eq] at h
  exact (forall_around.1 h).2

theorem OneLock.of_inForce_iff (h : OneLock id ⟨s, before ++ c :: after, enqueued, saved⟩)
    (hforce : ∀ l, InForce id ⟨s', before ++ c' :: after, enqueued, saved'⟩ l ↔
      InForce id ⟨s, before ++ c :: after, enqueued, saved⟩ l)
    (hhandle : ∀ l, c'.handle? = some (id, l) → c.handle? = some (id, l)) :
    OneLock id ⟨s', before ++ c' :: after, enqueued, saved'⟩ := by
  obtain ⟨hknown, hothers⟩ := forall_around.1 h.known
  refine ⟨fun l l' hl hl' => ?_, forall_around.2 ⟨fun l hl => ?_, fun d hd l hl => ?_⟩⟩
  · exact h.unique l l' ((hforce l).1 hl) ((hforce l').1 hl')
  · exact (hforce l).2 (hknown l (hhandle l hl))
  · exact (hforce l).2 (hothers d hd l hl)

namespace Guarded

/-- While the table is free, the lock in force is the one in the table. -/
theorem lock?_of_free (h : Guarded id w) (hfree : w.shared.tableHeld = false) {lock : Nat}
    (hforce : w.InForce id lock) : w.shared.lock? id = some lock := by
  refine hforce.resolve_right ?_
  rintro ⟨d, hd, hmem⟩
  have hnone : w.calls.countP (·.hasTable) = 0 := by
    rw [h.tableHolders, hfree]
    rfl
  exact List.countP_eq_zero.1 hnone d hd (Call.hasTable_of_mem_removing hmem)

theorem enqueue (h : Guarded id w) (id' : DictionaryId) (updates : List Update) :
    Guarded id (w.enqueue id' updates) := by
  have hlocks : (w.enqueue id' updates).shared.lock? id = w.shared.lock? id :=
    congrArg (·.locks.get? id) (w.shared.side.enqueue_spares id' updates).applyLocks
  have hforce : ∀ lock, (w.enqueue id' updates).InForce id lock ↔ w.InForce id lock :=
    fun lock => or_congr_left (by rw [hlocks])
  refine ⟨⟨?_, ?_⟩, h.holders, h.tableHolders⟩
  · simpa only [hforce] using h.unique
  · intro c hc lock hlock
    exact (hforce lock).2 (h.known c hc lock hlock)

theorem start (h : Guarded id w) (hnew : c.isNew = true) :
    Guarded id { w with calls := w.calls ++ [c] } := by
  obtain ⟨hholds, htable, hremoving, hhandle⟩ := Call.of_isNew hnew
  have hforce : ∀ lock, InForce id { w with calls := w.calls ++ [c] } lock ↔ w.InForce id lock := by
    intro lock
    simp [InForce, hremoving, or_and_right, exists_or]
  refine ⟨⟨?_, ?_⟩, fun lock => ?_, ?_⟩
  · simpa only [hforce] using h.unique
  · simp only [hforce]
    intro d hd lock hlock
    rcases List.mem_append.1 hd with hd | hd
    · exact h.known d hd lock hlock
    · obtain rfl := List.mem_singleton.1 hd
      rw [hhandle] at hlock
      contradiction
  · rw [← h.holders lock]
    simp [hholds]
  · rw [← h.tableHolders]
    simp [htable]

theorem call_oneLock {pick : Nat}
    (h : Guarded id ⟨s, before ++ c :: after, enqueued, saved⟩) (hstep : Call.Step pick s c c' s')
    (horder : orderly id ⟨s, before ++ c :: after, enqueued, saved⟩ (.advance before.length pick)) :
    OneLock id ⟨s', before ++ c' :: after, enqueued, saved'⟩ := by
  cases hstep.lockEffect id with
  | same hlock hremoving hhandle =>
    refine h.toOneLock.of_inForce_iff (fun l => ?_) hhandle
    rw [inForce_around, inForce_around, hlock, hremoving]
  | asked lock hfree hsame hlock hremoving hhandle =>
    -- The table is free, so no removal has a lock of the dictionary: all there is, is in the table.
    have hbefore : ∀ l, InForce id ⟨s, before ++ c :: after, enqueued, saved⟩ l → l = lock :=
      fun l hl => hsame l (h.lock?_of_free hfree hl)
    have hafter : ∀ l, InForce id ⟨s', before ++ c' :: after, enqueued, saved'⟩ l → l = lock := by
      intro l hl
      rcases inForce_around.1 hl with hl | hl | hl
      · exact Option.some.inj (hl.symm.trans hlock)
      · simp [hremoving] at hl
      · exact hbefore l (inForce_around.2 (.inr (.inr hl)))
    have hforce : InForce id ⟨s', before ++ c' :: after, enqueued, saved'⟩ lock := .inl hlock
    refine ⟨fun l l' hl hl' => ?_, forall_around.2 ⟨fun l hl => ?_, fun d hd l hl => ?_⟩⟩
    · rw [hafter l hl, hafter l' hl']
    · obtain rfl : lock = l := by simpa [hhandle] using hl
      exact hforce
    · rw [hbefore l ((forall_around.1 h.known).2 d hd l hl)]
      exact hforce
  | taken hlock hremoving hremoved hhandle =>
    refine h.toOneLock.of_inForce_iff (fun l => ?_) (by simp [hhandle])
    simp [inForce_around, hlock, hremoving, hremoved]
  | passed lock hlock hpass hremoved hkept hhandle =>
    -- The lock is no longer in force, which does no harm as no cycle knows it.
    have hfewer : ∀ l, InForce id ⟨s', before ++ c' :: after, enqueued, saved'⟩ l →
        InForce id ⟨s, before ++ c :: after, enqueued, saved⟩ l := by
      intro l
      rw [inForce_around, inForce_around, hlock]
      exact Or.imp_right (Or.imp_left (hremoved l))
    refine ⟨fun l l' hl hl' => ?_, forall_around.2 ⟨by simp [hhandle], fun d hd l hl => ?_⟩⟩
    · exact h.unique l l' (hfewer l hl) (hfewer l' hl')
    · have hne : l ≠ lock := fun heq => orderly_around horder hpass d hd (heq ▸ hl)
      have hforce := inForce_around.1 ((forall_around.1 h.known).2 d hd l hl)
      rw [inForce_around, hlock]
      exact hforce.imp_right (Or.imp_left fun hmem => (hkept l hmem).resolve_right hne)

theorem call {pick : Nat} (h : Guarded id ⟨s, before ++ c :: after, enqueued, saved⟩)
    (hstep : Call.Step pick s c c' s')
    (horder : orderly id ⟨s, before ++ c :: after, enqueued, saved⟩ (.advance before.length pick)) :
    Guarded id ⟨s', before ++ c' :: after, enqueued, saved'⟩ where
  toOneLock := h.call_oneLock hstep horder
  holders lock := countP_balance (h.holders lock)
    (hstep.holds_balance (flag_of_countP (h.holders lock)))
  tableHolders := countP_balance h.tableHolders
    (hstep.hasTable_balance (flag_of_countP h.tableHolders))

theorem step {m : Move} (h : Guarded id w) (hstep : Step w m w')
    (horder : w.orderly id m = true) : Guarded id w' := by
  cases hstep with
  | enqueue => exact h.enqueue ..
  | start hnew => exact h.start hnew
  | call hcall => exact h.call hcall horder

/-- Two cycles inside would hold the same lock. -/
theorem countP_isInside_le_one (h : Guarded id w) : w.calls.countP (·.isInside id) ≤ 1 := by
  by_cases hnone : ∀ c ∈ w.calls, ¬ c.isInside id = true
  · rw [List.countP_eq_zero.2 hnone]
    exact Nat.zero_le 1
  · push Not at hnone
    obtain ⟨c, hc, hinside⟩ := hnone
    obtain ⟨lock, hhandle, -⟩ := Call.handle?_of_isInside hinside
    have hholds : ∀ d ∈ w.calls, d.isInside id = true → d.holds lock = true := by
      intro d hd hinside
      obtain ⟨lock', hhandle', hholds⟩ := Call.handle?_of_isInside hinside
      rwa [h.unique lock lock' (h.known c hc lock hhandle) (h.known d hd lock' hhandle')]
    calc w.calls.countP (·.isInside id)
        ≤ w.calls.countP (·.holds lock) := List.countP_mono_left hholds
      _ = (w.shared.held lock).toNat := h.holders lock
      _ ≤ 1 := Bool.toNat_le _

/-- While a cycle is inside, all others are outside. -/
theorem outside (h : Guarded id ⟨s, before ++ c :: after, enqueued, saved⟩)
    (hc : c.isInside id = true) : ∀ d ∈ before ++ after, d.work? id = none := by
  have hcount := h.countP_isInside_le_one
  rw [countP_around, hc] at hcount
  have hnone : (before ++ after).countP (·.isInside id) = 0 :=
    Nat.le_zero.1 (Nat.le_of_succ_le_succ hcount)
  intro d hd
  simpa [Call.isInside] using List.countP_eq_zero.1 hnone d hd

end Guarded

theorem Quiet.guarded (h : w.Quiet) (id : DictionaryId) : Guarded id w := by
  have hforce : ∀ l, w.InForce id l → w.shared.lock? id = some l :=
    fun l hl => hl.resolve_right (by simp [h.calls])
  refine ⟨⟨fun l l' hl hl' => ?_, ?_⟩, ?_, ?_⟩
  · exact Option.some.inj ((hforce l hl).symm.trans (hforce l' hl'))
  · simp [h.calls]
  · simp [h.calls, h.held]
  · simp [h.calls, h.tableHeld]

namespace Fresh

theorem call {pick : Nat} (h : Fresh id ⟨s, before ++ c :: after, enqueued, saved⟩)
    (hg : Guarded id ⟨s, before ++ c :: after, enqueued, saved⟩)
    (hstep : Call.Step pick s c c' s') :
    Fresh id ⟨s', before ++ c' :: after, enqueued, saved'⟩ := by
  have hothers : ∀ d ∈ before ++ after, ∀ work ∈ d.work? id, ∀ stored ∈ work.snapshot?,
      stored = s.stored id := (forall_around.1 h).2
  cases hstep.effect id with
  | works heff =>
    refine forall_around.2 ⟨fun work hwork stored hsnap => ?_, fun d hd work hwork => ?_⟩
    · obtain rfl := Option.some.inj ((Call.work?_inside ..).symm.trans hwork)
      exact heff.snapshot_eq hsnap
    · simp [hg.outside (by simp [Call.isInside]) d hd] at hwork
  | empties hcovers hqueue hstored =>
    rw [← hstored] at hothers
    refine forall_around.2 ⟨fun work hwork => ?_, hothers⟩
    contradiction
  | other hqueue hstored hc hc' =>
    rw [← hstored] at hothers
    refine forall_around.2 ⟨fun work hwork stored hsnap => ?_, hothers⟩
    rcases hc' work hwork with rfl | ⟨r, rfl⟩ <;> contradiction

theorem step {m : Move} (h : Fresh id w) (hg : Guarded id w) (hstep : Step w m w') :
    Fresh id w' := by
  cases hstep with
  | @enqueue _ id' updates =>
    intro c hc work hwork stored hsnap
    rw [w.stored_enqueue]
    exact h c hc work hwork stored hsnap
  | start hnew =>
    intro c hc work hwork stored hsnap
    rcases List.mem_append.1 hc with hc | hc
    · exact h c hc work hwork stored hsnap
    · obtain rfl := List.mem_singleton.1 hc
      rw [Call.work?_of_isNew hnew] at hwork
      contradiction
  | call hcall => exact h.call hg hcall

end Fresh

/-- One cycle of the dictionary is inside at a time, and it works on the trie that is stored. -/
structure Serial (id : DictionaryId) (w : World) : Prop where
  guarded : Guarded id w
  fresh : Fresh id w

theorem Serial.step {m : Move} (h : Serial id w) (hstep : Step w m w')
    (horder : w.orderly id m = true) : Serial id w' :=
  ⟨h.guarded.step hstep horder, h.fresh.step h.guarded hstep⟩

theorem Quiet.serial (h : w.Quiet) (id : DictionaryId) : Serial id w :=
  ⟨h.guarded id, by simp [Fresh, h.calls]⟩

theorem applying_le_countP_isInside (id : DictionaryId) (w : World) :
    w.applying id ≤ w.calls.countP (·.isInside id) := by
  refine List.countP_mono_left fun c _ hc => ?_
  cases hwork : c.work? id with
  | none => simp [hwork] at hc
  | some work => simp [Call.isInside, hwork]

/-- As long as removals wait for every cycle that knows a lock, at most one cycle of a dictionary at
a time is between its drain and the end of its save, and what it has loaded is what is stored. -/
theorem applying_le_one {w₀ : World} {moves : List Move} (hquiet : w₀.Quiet)
    (hrun : w₀.play? (orderly id) moves = some w) : w.applying id ≤ 1 ∧ w.Fresh id := by
  have hserial : Serial id w :=
    play?_keeps (fun horder hstep h => h.step hstep horder) hrun (hquiet.serial id)
  exact ⟨Nat.le_trans (applying_le_countP_isInside id w) hserial.guarded.countP_isInside_le_one,
    hserial.fresh⟩

def sampleId : DictionaryId := Block.zero 16

def sampleUpdate (bit : Nat) : Update := ⟨Label.flip (Block.zero 32) bit, Block.zero 32⟩

def sampleCycle : Call := .cycle sampleId .requeue .called

/-- The first cycle waits for its lock, the removal takes place, and the second cycle is given a
lock of its own. Each of the two then drains an update. -/
def sampleRace : List Move :=
  [.start sampleCycle, .advance 0 0, .start (.removal (.only sampleId) .called)] ++
    List.replicate 5 (.advance 1 0) ++ [.start sampleCycle, .advance 2 0] ++
    [.advance 0 0, .enqueue sampleId [sampleUpdate 0], .advance 0 0] ++
    [.advance 2 0, .enqueue sampleId [sampleUpdate 1], .advance 2 0]

/-- Both cycles load, and the first one saves. -/
def sampleLoads : List Move := [.advance 0 0, .advance 2 0, .advance 0 0]

/-- Two cycles are between drain and save, the second is about to save what it has built on an older
trie than the stored one, and its save loses the update that the first has saved. -/
theorem sampleRace_overlaps :
    (∃ w, (initial {}).run? sampleRace = some w ∧ w.applying sampleId = 2) ∧
      (∃ w, (initial {}).run? (sampleRace ++ sampleLoads) = some w ∧ ¬ w.Fresh sampleId) ∧
      ∃ w t, (initial {}).run? (sampleRace ++ sampleLoads ++ [.advance 2 0]) = some w ∧
        w.savedBatches sampleId = [[sampleUpdate 0], [sampleUpdate 1]] ∧
        w.shared.stored sampleId = some t ∧ t.get? (sampleUpdate 0).label = none := by
  have happlying : ((initial {}).run? sampleRace).any (fun w => w.applying sampleId = 2) := by
    decide +kernel
  have hstale : ((initial {}).run? (sampleRace ++ sampleLoads)).any
      (fun w => ¬ w.Fresh sampleId) := by
    decide +kernel
  have hlost : ((initial {}).run? (sampleRace ++ sampleLoads ++ [.advance 2 0])).any
      (fun w => w.savedBatches sampleId = [[sampleUpdate 0], [sampleUpdate 1]] ∧
        (w.shared.stored sampleId).any fun t => t.get? (sampleUpdate 0).label = none) := by
    decide +kernel
  obtain ⟨w₁, hrun₁, hw₁⟩ := (Option.any_eq_true _ _).1 happlying
  obtain ⟨w₂, hrun₂, hw₂⟩ := (Option.any_eq_true _ _).1 hstale
  obtain ⟨w₃, hrun₃, hw₃⟩ := (Option.any_eq_true _ _).1 hlost
  obtain ⟨hsaved, hstored⟩ := of_decide_eq_true hw₃
  obtain ⟨t, ht, hnone⟩ := (Option.any_eq_true _ _).1 hstored
  exact ⟨⟨w₁, hrun₁, of_decide_eq_true hw₁⟩, ⟨w₂, hrun₂, of_decide_eq_true hw₂⟩, w₃, t, hrun₃,
    hsaved, ht, of_decide_eq_true hnone⟩

/-- A removal that waits for a cycle, and a cycle after it that has loaded what the first stored. -/
def sampleOrder : List Move :=
  [.enqueue sampleId [sampleUpdate 0], .start sampleCycle, .advance 0 0, .advance 0 0] ++
    [.start (.removal (.only sampleId) .called), .advance 1 0, .advance 1 0] ++
    List.replicate 5 (.advance 0 0) ++ List.replicate 3 (.advance 1 0) ++
    [.start sampleCycle, .advance 2 0, .advance 2 0, .enqueue sampleId [sampleUpdate 1]] ++
    [.advance 2 0, .advance 2 0]

theorem applying_le_one_sampleOrder :
    ∃ w, (initial {}).play? (orderly sampleId) sampleOrder = some w ∧ w.applying sampleId = 1 ∧
      w.applying sampleId ≤ 1 ∧ w.Fresh sampleId := by
  have happlying : ((initial {}).play? (orderly sampleId) sampleOrder).any
      (fun w => w.applying sampleId = 1) := by
    decide +kernel
  obtain ⟨w, hrun, hw⟩ := (Option.any_eq_true _ _).1 happlying
  exact ⟨w, hrun, of_decide_eq_true hw, applying_le_one (quiet_initial {}) hrun⟩

end World

end AuthDict
