import AuthDict.Dictionary.Shards
import AuthDict.Proofs.Action
import Mathlib.Data.List.Perm.Basic
import Mathlib.Logic.Relation

/-!
# Workers of a batch

The shards of a batch are written by workers that run side by side. Before each entry a worker looks
at a flag and leaves if it is raised; writing an entry is one step, and a worker that fails raises
the flag in a step of its own. A run of the crew takes the workers' steps in any order.

A property of what has been written and of the state that no order of writes can break holds after
every run. Writing the shards one after the other is one of the runs, so whatever holds of all runs
holds of `writeAll`.
-/
namespace AuthDict.Shards

variable {α σ : Type}

/-- What a worker does next, with the entries it has still to write. -/
inductive Phase (α : Type) where
  | checking (rest : List α)
  | writing (entry : α) (rest : List α)
  | failing (e : Error)
  | ended (error : Option Error)

structure Worker (α : Type) where
  phase : Phase α
  /-- The entries written so far with their updates, in order. -/
  written : List (α × Update) := []

/-- The workers of a batch in shard order, the flag and the state they share. -/
structure Crew (α σ : Type) where
  workers : List (Worker α)
  abort : Bool
  state : σ

def Worker.error? (w : Worker α) : Option Error :=
  match w.phase with
  | .ended error => error
  | _ => none

/-- One step of a worker, with the flag and the state before and after it. -/
inductive Worker.Step (write : α → Action σ Update) :
    Worker α → Bool → σ → Worker α → Bool → σ → Prop
  | finish {ws abort s} :
      Step write ⟨.checking [], ws⟩ abort s ⟨.ended none, ws⟩ abort s
  | leave {entry rest ws s} :
      Step write ⟨.checking (entry :: rest), ws⟩ true s ⟨.ended none, ws⟩ true s
  | proceed {entry rest ws s} :
      Step write ⟨.checking (entry :: rest), ws⟩ false s ⟨.writing entry rest, ws⟩ false s
  | write {entry rest ws abort s s' update} : write entry s = (.ok update, s') →
      Step write ⟨.writing entry rest, ws⟩ abort s
        ⟨.checking rest, ws ++ [(entry, update)]⟩ abort s'
  | fail {entry rest ws abort s s' e} : write entry s = (.error e, s') →
      Step write ⟨.writing entry rest, ws⟩ abort s ⟨.failing e, ws⟩ abort s'
  | stop {e ws abort s} :
      Step write ⟨.failing e, ws⟩ abort s ⟨.ended (some e), ws⟩ true s

namespace Crew

def start (shards : List (List α)) (s : σ) : Crew α σ :=
  ⟨shards.map fun shard => ⟨.checking shard, []⟩, false, s⟩

/-- Everything written, in shard order. -/
def written (c : Crew α σ) : List (α × Update) := c.workers.flatMap (·.written)

/-- The updates in shard order, and the first error by shard. -/
def outcome (c : Crew α σ) : Outcome := ⟨c.written.map (·.2), c.workers.findSome? (·.error?)⟩

def Ended (c : Crew α σ) : Prop := ∀ w ∈ c.workers, ∃ error, w.phase = .ended error

/-- Any worker may take its next step. -/
inductive Step (write : α → Action σ Update) : Crew α σ → Crew α σ → Prop
  | worker {before after w w' abort abort' s s'} : Worker.Step write w abort s w' abort' s' →
      Step write ⟨before ++ w :: after, abort, s⟩ ⟨before ++ w' :: after, abort', s'⟩

def Run (write : α → Action σ Update) : Crew α σ → Crew α σ → Prop :=
  Relation.ReflTransGen (Step write)

variable {write : α → Action σ Update} {c c' : Crew α σ} {P : List (α × Update) → σ → Prop}

/-- A property of what is written and of the state that does not depend on the order of the former
and that every write keeps, whether it fails or not. -/
structure Invariant (write : α → Action σ Update) (P : List (α × Update) → σ → Prop) : Prop where
  perm : ∀ {ws ws' s}, ws.Perm ws' → P ws s → P ws' s
  wrote : ∀ {ws s s' entry update}, write entry s = (.ok update, s') → P ws s →
    P ((entry, update) :: ws) s'
  failed : ∀ {ws s s' entry e}, write entry s = (.error e, s') → P ws s → P ws s'

theorem Step.invariant (hP : Invariant write P) (hs : Step write c c')
    (h : P c.written c.state) : P c'.written c'.state := by
  cases hs with
  | @worker before after w w' abort abort' s s' hs =>
    cases hs with
    | finish => simpa [written] using h
    | leave => simpa [written] using h
    | proceed => simpa [written] using h
    | stop => simpa [written] using h
    | fail hw => exact hP.failed hw (by simpa [written] using h)
    | @write entry rest ws _ _ _ update hw =>
      refine hP.perm ?_ (hP.wrote hw h)
      simp only [written, List.flatMap_append, List.flatMap_cons, List.append_assoc]
      refine List.perm_middle.symm.trans (.append_left _ ?_)
      exact List.perm_middle.symm

theorem Run.invariant (hP : Invariant write P) (hr : Run write c c')
    (h : P c.written c.state) : P c'.written c'.state := by
  induction hr with
  | refl => exact h
  | tail _ hstep ih => exact hstep.invariant hP ih

theorem written_start (shards : List (List α)) (s : σ) : (start shards s).written = [] := by
  simp [written, start, List.flatMap_map]

theorem run_writeShard (write : α → Action σ Update) (before after : List (Worker α)) (shard : List α)
    (ws : List (α × Update)) (s : σ) :
    ∃ ws', ws'.map (·.2) = (writeShard write shard s).1.updates ∧
      Run write ⟨before ++ ⟨.checking shard, ws⟩ :: after, false, s⟩
        ⟨before ++ ⟨.ended (writeShard write shard s).1.error, ws ++ ws'⟩ :: after,
          (writeShard write shard s).1.error.isSome, (writeShard write shard s).2⟩ := by
  induction shard generalizing ws s with
  | nil => exact ⟨[], rfl, .single (by simpa using .worker .finish)⟩
  | cons entry rest ih =>
    rcases hw : write entry s with ⟨e | update, s'⟩
    · refine ⟨[], by simp [writeShard, hw], ?_⟩
      simp only [writeShard, hw, List.append_nil, Option.isSome_some]
      exact ((Relation.ReflTransGen.single (.worker .proceed)).tail (.worker (.fail hw))).tail
        (.worker .stop)
    · obtain ⟨ws', hws, hrun⟩ := ih (ws ++ [(entry, update)]) s'
      refine ⟨(entry, update) :: ws', by simp [writeShard, hw, hws], ?_⟩
      simp only [List.append_assoc, List.singleton_append] at hrun
      simp only [writeShard, hw]
      exact ((Relation.ReflTransGen.single (.worker .proceed)).tail (.worker (.write hw))).trans
        hrun

/-- Once the flag is raised, workers that have not begun leave. -/
theorem run_leave (write : α → Action σ Update) (before : List (Worker α)) (shards : List (List α)) (s : σ) :
    Run write ⟨before ++ shards.map fun shard => ⟨.checking shard, []⟩, true, s⟩
      ⟨before ++ shards.map fun _ => ⟨.ended none, []⟩, true, s⟩ := by
  induction shards generalizing before with
  | nil => exact .refl
  | cons shard rest ih =>
    have hrest := ih (before ++ [⟨.ended none, []⟩])
    simp only [List.append_assoc, List.singleton_append] at hrest
    refine .trans (.single ?_) hrest
    cases shard with
    | nil => exact .worker .finish
    | cons entry entries => exact .worker .leave

/-- The state and the outcome of `writeAll` are those of one run of the crew. -/
theorem run_writeAll (write : α → Action σ Update) (before : List (Worker α))
    (shards : List (List α)) (s : σ) :
    ∃ ws : List (Worker α), (∀ w ∈ ws, ∃ error, w.phase = .ended error) ∧
      (ws.flatMap (·.written)).map (·.2) = (writeAll write shards s).1.updates ∧
      ws.findSome? (·.error?) = (writeAll write shards s).1.error ∧
      ∃ abort, Run write ⟨before ++ shards.map fun shard => ⟨.checking shard, []⟩, false, s⟩
        ⟨before ++ ws, abort, (writeAll write shards s).2⟩ := by
  induction shards generalizing before s with
  | nil => exact ⟨[], by simp, rfl, rfl, false, by simpa using .refl⟩
  | cons shard rest ih =>
    obtain ⟨ws, hws, hrun⟩ := run_writeShard write before
      (rest.map fun shard => ⟨.checking shard, []⟩) shard [] s
    rcases hshard : writeShard write shard s with ⟨⟨updates, error⟩, s'⟩
    simp only [hshard, List.nil_append] at hws hrun
    cases error with
    | some e =>
      refine ⟨⟨.ended (some e), ws⟩ :: rest.map fun _ => ⟨.ended none, []⟩, ?_, ?_, ?_, true, ?_⟩
      · simp
      · simp [writeAll, hshard, hws]
      · simp [writeAll, hshard, Worker.error?]
      · have hleave := run_leave write (before ++ [⟨.ended (some e), ws⟩]) rest s'
        simp only [List.append_assoc, List.singleton_append] at hleave
        simp only [writeAll, hshard, List.map_cons]
        exact hrun.trans hleave
    | none =>
      obtain ⟨ws', hended, hupdates, herror, abort, hrest⟩ := ih (before ++ [⟨.ended none, ws⟩]) s'
      simp only [List.append_assoc, List.singleton_append] at hrest
      refine ⟨⟨.ended none, ws⟩ :: ws', ?_, ?_, ?_, abort, ?_⟩
      · simpa using hended
      · simp [writeAll, hshard, hws, hupdates]
      · simp only [writeAll, hshard]
        exact herror
      · simp only [writeAll, hshard, List.map_cons]
        exact hrun.trans hrest

theorem exists_run_writeAll (write : α → Action σ Update) (shards : List (List α)) (s : σ) :
    ∃ c : Crew α σ, Run write (start shards s) c ∧ c.Ended ∧
      (c.outcome, c.state) = writeAll write shards s := by
  obtain ⟨ws, hended, hupdates, herror, abort, hrun⟩ := run_writeAll write [] shards s
  refine ⟨⟨ws, abort, _⟩, hrun, hended, Prod.ext ?_ rfl⟩
  rw [outcome, written, hupdates, herror]

end Crew

end AuthDict.Shards
