import AuthDict.Proofs.Dictionary.Batches

/-!
# The turns of a batch's workers

What the workers of a batch do follows from the order in which they take their steps: a run in
which they take given turns ends in one way only (`Crew.Turns.unique`). A batch is inserted in some
order of turns, and with these it returns one result and leaves one service.
-/
namespace AuthDict

namespace Shards

variable {α σ : Type}

/-- A run of a crew, with the numbers of the workers in the order of their steps. -/
inductive Crew.Turns (write : α → Action σ Update) : List Nat → Crew α σ → Crew α σ → Prop
  | nil {c : Crew α σ} : Turns write [] c c
  | cons {before after w w' abort abort' s s' turns c} :
      Worker.Step write w abort s w' abort' s' →
      Turns write turns ⟨before ++ w' :: after, abort', s'⟩ c →
      Turns write (before.length :: turns) ⟨before ++ w :: after, abort, s⟩ c

variable {write : α → Action σ Update} {turns : List Nat} {c c₁ c₂ : Crew α σ}

theorem Crew.Turns.run (h : Crew.Turns write turns c c₁) : Crew.Run write c c₁ := by
  induction h with
  | nil => exact .refl
  | cons hstep _ ih => exact .head (.worker hstep) ih

theorem Crew.Run.exists_turns (h : Crew.Run write c c₁) : ∃ turns, Crew.Turns write turns c c₁ := by
  induction h using Relation.ReflTransGen.head_induction_on with
  | refl => exact ⟨[], .nil⟩
  | head hstep _ ih =>
    obtain ⟨turns, hturns⟩ := ih
    cases hstep with
    | worker hworker => exact ⟨_, .cons hworker hturns⟩

theorem Worker.Step.unique {w w₁ w₂ : Worker α} {abort abort₁ abort₂ : Bool} {s s₁ s₂ : σ}
    (h : Worker.Step write w abort s w₁ abort₁ s₁) (k : Worker.Step write w abort s w₂ abort₂ s₂) :
    w₁ = w₂ ∧ abort₁ = abort₂ ∧ s₁ = s₂ := by
  cases h with
  | finish =>
    cases k
    exact ⟨rfl, rfl, rfl⟩
  | leave =>
    cases k
    exact ⟨rfl, rfl, rfl⟩
  | proceed =>
    cases k
    exact ⟨rfl, rfl, rfl⟩
  | stop =>
    cases k
    exact ⟨rfl, rfl, rfl⟩
  | write hw =>
    cases k with
    | write hw' =>
      obtain ⟨hr, rfl⟩ := Prod.mk.inj (hw.symm.trans hw')
      obtain rfl := Except.ok.inj hr
      exact ⟨rfl, rfl, rfl⟩
    | fail hw' => simp [hw] at hw'
  | fail hw =>
    cases k with
    | write hw' => simp [hw] at hw'
    | fail hw' =>
      obtain ⟨hr, rfl⟩ := Prod.mk.inj (hw.symm.trans hw')
      obtain rfl := Except.error.inj hr
      exact ⟨rfl, rfl, rfl⟩

/-- The turns settle the run. -/
theorem Crew.Turns.unique (h : Crew.Turns write turns c c₁) (k : Crew.Turns write turns c c₂) :
    c₁ = c₂ := by
  induction h with
  | nil =>
    cases k
    rfl
  | @cons before after w w' abort abort' s s' turns c hstep _ ih =>
    generalize hcrew : (⟨before ++ w :: after, abort, s⟩ : Crew α σ) = start at k
    generalize hturns : before.length :: turns = all at k
    cases k with
    | nil => simp at hturns
    | @cons before₂ after₂ v v' abort₂ abort₂' s₂ s₂' turns₂ _ hstep₂ hrest₂ =>
      obtain ⟨hlength, rfl⟩ := List.cons.inj hturns
      obtain ⟨hworkers, rfl, rfl⟩ := Crew.mk.inj hcrew
      obtain ⟨rfl, htail⟩ := List.append_inj hworkers hlength
      obtain ⟨rfl, rfl⟩ := List.cons.inj htail
      obtain ⟨rfl, rfl, rfl⟩ := hstep.unique hstep₂
      exact ih hrest₂

end Shards

namespace Dictionary

open Shards

variable {d : Dictionary} {entries es : List Entry} {s s' s'' : Service} {turns : List Nat}
  {r r' : Except Error Nat}

/-- A batch insertion whose workers take the given turns: what it returns and the service it
leaves. -/
inductive InsertsInTurns (d : Dictionary) (entries : List Entry) (s : Service) (turns : List Nat) :
    Except Error Nat → Service → Prop
  | run {lock : Nat} {s₁ s' : Service} {c : Crew Entry Service} :
      d.takeWriteLock s = (.ok lock, s₁) →
      Crew.Turns d.writeEntry turns (.start (d.shards entries) s₁) c → c.Ended →
      d.updater.enqueue d.id c.outcome.updates c.state = (.ok (), s') →
      InsertsInTurns d entries s turns (batchResult c.outcome) s'

theorem InsertsInTurns.insertsBatch (h : d.InsertsInTurns entries s turns r s') :
    ∃ es, d.InsertsBatch entries s r es s' := by
  cases h with
  | run hlock hturns hended henq => exact ⟨_, .run hlock hturns.run hended henq⟩

/-- However a batch is inserted, its workers took some turns. -/
theorem InsertsBatch.exists_turns (h : d.InsertsBatch entries s r es s') :
    ∃ turns, d.InsertsInTurns entries s turns r s' := by
  cases h with
  | run hlock hrun hended henq =>
    obtain ⟨turns, hturns⟩ := hrun.exists_turns
    exact ⟨turns, .run hlock hturns hended henq⟩

theorem InsertsInTurns.unique (h : d.InsertsInTurns entries s turns r s')
    (k : d.InsertsInTurns entries s turns r' s'') : r = r' ∧ s' = s'' := by
  cases h with
  | run hlock hturns _ henq =>
    cases k with
    | run hlock' hturns' _ henq' =>
      obtain ⟨-, rfl⟩ := Prod.mk.inj (hlock.symm.trans hlock')
      obtain rfl := hturns.unique hturns'
      exact ⟨rfl, (Prod.mk.inj (henq.symm.trans henq')).2⟩

/-- In some order of turns, a batch is inserted. -/
theorem exists_insertsInTurns (d : Dictionary) (entries : List Entry) (s : Service) :
    ∃ turns r s', d.InsertsInTurns entries s turns r s' := by
  obtain ⟨c, hrun, hended, -⟩ :=
    Crew.exists_run_writeAll d.writeEntry (d.shards entries) (d.takeWriteLock s).2
  obtain ⟨turns, hturns⟩ := hrun.exists_turns
  exact ⟨turns, _, _, .run (Prod.ext rfl rfl) hturns hended (Prod.ext rfl rfl)⟩

end Dictionary

end AuthDict
