import AuthDict.Proofs.Dictionary.Workers
import Mathlib.Data.List.Forall2

/-!
# What a crew covers

A worker writes its shard from the front, so at any time the shard is what the worker has written,
in order, and what is left of it. Entries are left for good by a worker that has failed, and by one
that has seen the flag. Only a failure raises the flag. So nothing is left if no worker reports an
error, and something is left if one does.

Workers never wait for each other: every step brings a batch closer to its end.
-/
namespace AuthDict.Shards

variable {α σ : Type}

theorem flatten_cut (base extra shards : Nat) (entries : List α) :
    (cut base extra shards entries).flatten = entries.take (base * shards + min extra shards) := by
  induction shards generalizing extra entries with
  | zero => simp [cut]
  | succ shards ih =>
    cases extra with
    | zero =>
      have hlength : base * (shards + 1) + min 0 (shards + 1) =
          base + (base * shards + min 0 shards) := by
        rw [Nat.mul_succ]
        omega
      rw [cut, List.flatten_cons, ih, ← List.take_add, hlength]
    | succ extra =>
      have hlength : base * (shards + 1) + min (extra + 1) (shards + 1) =
          base + 1 + (base * shards + min extra shards) := by
        rw [Nat.mul_succ]
        omega
      rw [cut, List.flatten_cons, ih, ← List.take_add, hlength]

/-- The shards are the entries in order. -/
theorem flatten_split (entries : List α) (requested : Nat) :
    (split entries requested).flatten = entries := by
  have hpos : 0 < count requested entries.length := by
    rw [count]
    omega
  have hmod := Nat.mod_lt entries.length hpos
  have hlength := Nat.div_add_mod' entries.length (count requested entries.length)
  rw [split, flatten_cut, Nat.min_eq_left (Nat.le_of_lt hmod), hlength, List.take_length]

/-- What the phase of a worker tells about the rest of its shard. -/
def Phase.Leaves (raised : Bool) (left : List α) : Phase α → Prop
  | checking rest => left = rest
  | writing entry rest => left = entry :: rest
  | failing _ => left ≠ []
  | ended (some _) => left ≠ []
  | ended none => raised = true ∨ left = []

/-- A shard is what its worker has written, and what is left. -/
def Worker.Covers (raised : Bool) (shard : List α) (w : Worker α) : Prop :=
  ∃ left, shard = w.written.map (·.1) ++ left ∧ w.phase.Leaves raised left

variable {write : α → Action σ Update} {w w' : Worker α} {ws : List (Worker α)}
  {shard : List α} {shards : List (List α)} {raised raised' : Bool} {s s' : σ}

theorem Worker.Covers.raise (h : w.Covers raised shard) (hr : raised = true → raised' = true) :
    w.Covers raised' shard := by
  obtain ⟨left, hshard, hleft⟩ := h
  refine ⟨left, hshard, ?_⟩
  match hphase : w.phase with
  | .checking rest => rwa [hphase] at hleft
  | .writing entry rest => rwa [hphase] at hleft
  | .failing e => rwa [hphase] at hleft
  | .ended (some e) => rwa [hphase] at hleft
  | .ended none =>
    rw [hphase] at hleft
    exact hleft.imp_left hr

theorem Worker.error?_of_ended {error : Option Error} (h : w.phase = .ended error) :
    w.error? = error := by
  rw [error?, h]

theorem Worker.error?_isSome : w.error?.isSome = true ↔ ∃ e, w.phase = .ended (some e) := by
  unfold error?
  match w.phase with
  | .checking _ => simp
  | .writing _ _ => simp
  | .failing _ => simp
  | .ended error => simp [Option.isSome_iff_exists]

/-- A worker that has not reported an error goes on with its shard, and it raises the flag only with
an error to report. -/
theorem Worker.Step.covers (hs : Step write w raised s w' raised' s')
    (h : w.Covers raised shard) :
    w'.Covers raised' shard ∧ (raised = true → raised' = true) ∧ w.error? = none ∧
      (raised' = true → raised = true ∨ w'.error?.isSome = true) := by
  obtain ⟨left, rfl, hleft⟩ := h
  cases hs with
  | finish => exact ⟨⟨left, rfl, .inr hleft⟩, id, rfl, .inl⟩
  | leave => exact ⟨⟨left, rfl, .inl rfl⟩, id, rfl, .inl⟩
  | proceed => exact ⟨⟨left, rfl, hleft⟩, id, rfl, .inl⟩
  | @write entry rest _ _ _ _ update hw =>
    obtain rfl : left = entry :: rest := hleft
    exact ⟨⟨rest, by simp, rfl⟩, id, rfl, .inl⟩
  | fail hw =>
    have hne : left ≠ [] := by
      rw [show left = _ from hleft]
      exact List.cons_ne_nil _ _
    exact ⟨⟨left, rfl, hne⟩, id, rfl, .inl⟩
  | stop => exact ⟨⟨left, rfl, hleft⟩, fun _ => rfl, rfl, fun _ => .inr rfl⟩

theorem forall₂_replace {β γ : Type} {R S : β → γ → Prop} {bs : List β} {before after : List γ}
    {c c' : γ} (h : List.Forall₂ R bs (before ++ c :: after)) (hc : ∀ b, R b c → S b c')
    (hrest : ∀ b c, R b c → S b c) : List.Forall₂ S bs (before ++ c' :: after) := by
  induction before generalizing bs with
  | nil =>
    cases h with
    | cons hhead htail => exact .cons (hc _ hhead) (htail.imp hrest)
  | cons d before ih =>
    cases h with
    | cons hhead htail => exact .cons (hrest _ _ hhead) (ih htail)

namespace Crew

variable {c c' : Crew α σ}

structure Covers (c : Crew α σ) (shards : List (List α)) : Prop where
  workers : List.Forall₂ (Worker.Covers c.abort) shards c.workers
  failed : c.abort = true → ∃ w ∈ c.workers, w.error?.isSome = true

theorem covers_start (shards : List (List α)) (s : σ) : (start shards s).Covers shards := by
  constructor
  · refine List.forall₂_map_right_iff.2 (List.forall₂_same.2 ?_)
    intro shard _
    exact ⟨shard, rfl, rfl⟩
  · intro hraised
    contradiction

theorem Step.covers (hs : Step write c c') (h : c.Covers shards) : c'.Covers shards := by
  cases hs with
  | @worker before after w w' raised raised' s s' hs =>
    obtain ⟨shard, hshard⟩ : ∃ shard, w.Covers raised shard := by
      have hfrom := List.forall₂_drop_append _ _ _ h.workers
      obtain ⟨shard, _, hshard, -⟩ := List.forall₂_cons_right_iff.1 hfrom
      exact ⟨shard, hshard⟩
    obtain ⟨-, hmono, hnone, hflag⟩ := hs.covers hshard
    constructor
    · apply forall₂_replace h.workers
      · intro shard hshard
        exact (hs.covers hshard).1
      · intro shard v hv
        exact hv.raise hmono
    · intro hraised
      rcases hflag hraised with hbefore | herror
      · obtain ⟨v, hv, herror⟩ := h.failed hbefore
        refine ⟨v, ?_, herror⟩
        rcases List.mem_append.1 hv with hv | hv
        · exact List.mem_append_left _ hv
        · rcases List.mem_cons.1 hv with rfl | hv
          · rw [hnone] at herror
            contradiction
          · exact List.mem_append_right _ (List.mem_cons_of_mem _ hv)
      · exact ⟨w', by simp, herror⟩

theorem Run.covers (hr : Run write c c') (h : c.Covers shards) : c'.Covers shards := by
  induction hr with
  | refl => exact h
  | tail _ hstep ih => exact hstep.covers ih

end Crew

/-- What is written is written in the order of the shards. -/
theorem written_sublist (h : List.Forall₂ (Worker.Covers raised) shards ws) :
    ((ws.flatMap (·.written)).map (·.1)).Sublist shards.flatten := by
  induction h with
  | nil => exact .refl _
  | cons hhead _ ih =>
    obtain ⟨left, rfl, -⟩ := hhead
    rw [List.flatMap_cons, List.map_append, List.flatten_cons, List.append_assoc]
    exact (List.Sublist.refl _).append (ih.trans (List.sublist_append_right _ _))

/-- Without the flag, workers that have ended without an error have left nothing. -/
theorem written_of_finished (h : List.Forall₂ (Worker.Covers false) shards ws)
    (hfinished : ∀ w ∈ ws, w.phase = .ended none) :
    (ws.flatMap (·.written)).map (·.1) = shards.flatten := by
  induction h with
  | nil => rfl
  | @cons shard w shards ws hhead _ ih =>
    obtain ⟨left, rfl, hleft⟩ := hhead
    rw [hfinished w List.mem_cons_self] at hleft
    have hnil : left = [] := hleft.resolve_left Bool.false_ne_true
    rw [List.flatMap_cons, List.map_append, List.flatten_cons, hnil, List.append_nil,
      ih fun v hv => hfinished v (List.mem_cons_of_mem _ hv)]

/-- A worker that reports an error has left an entry. -/
theorem length_written_lt (h : List.Forall₂ (Worker.Covers raised) shards ws)
    (hfailed : ∃ w ∈ ws, w.error?.isSome = true) :
    (ws.flatMap (·.written)).length < shards.flatten.length := by
  induction h with
  | nil => simp at hfailed
  | @cons shard w shards ws hhead hrest ih =>
    obtain ⟨left, rfl, hleft⟩ := hhead
    have hle := (written_sublist hrest).length_le
    rw [List.length_map] at hle
    simp only [List.flatMap_cons, List.flatten_cons, List.length_append, List.length_map]
    obtain ⟨v, hv, herror⟩ := hfailed
    rcases List.mem_cons.1 hv with rfl | hv
    · obtain ⟨e, hphase⟩ := Worker.error?_isSome.1 herror
      rw [hphase] at hleft
      have hpos := List.length_pos_iff.2 hleft
      omega
    · have hlt := ih ⟨v, hv, herror⟩
      omega

namespace Crew

variable {c c' : Crew α σ}

/-- A crew that has ended reports an error exactly if it has not written everything. -/
theorem Covers.error_eq_none_iff (hc : c.Covers shards) (hended : c.Ended) :
    c.outcome.error = none ↔ c.written.map (·.1) = shards.flatten := by
  constructor
  · intro hnone
    have hnone : ∀ w ∈ c.workers, w.error? = none := List.findSome?_eq_none_iff.1 hnone
    have hlowered : c.abort = false := by
      refine Bool.eq_false_iff.2 ?_
      intro hraised
      obtain ⟨w, hw, herror⟩ := hc.failed hraised
      rw [hnone w hw] at herror
      contradiction
    apply written_of_finished
    · rw [← hlowered]
      exact hc.workers
    · intro w hw
      obtain ⟨error, hphase⟩ := hended w hw
      rw [hphase, ← Worker.error?_of_ended hphase, hnone w hw]
  · intro hall
    refine List.findSome?_eq_none_iff.2 ?_
    intro w hw
    by_contra herror
    have hlt := length_written_lt hc.workers ⟨w, hw, Option.isSome_iff_ne_none.2 herror⟩
    have hlength := congrArg List.length hall
    rw [List.length_map] at hlength
    exact Nat.ne_of_lt hlt hlength

end Crew

/-- The error that a worker has met, whether it has reported it or not. -/
def Phase.error? : Phase α → Option Error
  | failing e => some e
  | ended error => error
  | _ => none

/-- What is true of the state from the failure of a write on. -/
structure Marks (write : α → Action σ Update) (Q : Error → σ → Prop) : Prop where
  failed : ∀ {entry s s' e}, write entry s = (.error e, s') → Q e s'
  kept : ∀ {entry s s' r e}, write entry s = (r, s') → Q e s → Q e s'

variable {Q : Error → σ → Prop}

/-- What is true of the state because of an error that a worker has met. -/
def Worker.Marked (Q : Error → σ → Prop) (s : σ) (w : Worker α) : Prop :=
  ∀ e, w.phase.error? = some e → Q e s

theorem Worker.Step.marked (hQ : Marks write Q) (hs : Step write w raised s w' raised' s') :
    (∀ e, Q e s → Q e s') ∧ (w.Marked Q s → w'.Marked Q s') := by
  cases hs with
  | finish => exact ⟨fun _ => id, fun _ e he => by contradiction⟩
  | leave => exact ⟨fun _ => id, fun _ e he => by contradiction⟩
  | proceed => exact ⟨fun _ => id, fun _ e he => by contradiction⟩
  | write hw => exact ⟨fun _ => hQ.kept hw, fun _ e he => by contradiction⟩
  | fail hw => exact ⟨fun _ => hQ.kept hw, fun _ e he => Option.some.inj he ▸ hQ.failed hw⟩
  | stop => exact ⟨fun _ => id, id⟩

namespace Crew

variable {c c' : Crew α σ}

theorem Run.marked (hQ : Marks write Q) (hr : Run write c c')
    (h : ∀ w ∈ c.workers, w.Marked Q c.state) : ∀ w ∈ c'.workers, w.Marked Q c'.state := by
  induction hr with
  | refl => exact h
  | tail _ hstep ih =>
    cases hstep with
    | @worker before after w w' raised raised' s s' hs =>
      obtain ⟨hkept, hmarked⟩ := hs.marked hQ
      intro v hv
      rcases List.mem_append.1 hv with hv | hv
      · exact fun e he => hkept e (ih v (List.mem_append_left _ hv) e he)
      · rcases List.mem_cons.1 hv with rfl | hv
        · exact hmarked (ih w (by simp))
        · exact fun e he => hkept e
            (ih v (List.mem_append_right _ (List.mem_cons_of_mem _ hv)) e he)

theorem marked_start (shards : List (List α)) (s : σ) :
    ∀ w ∈ (start shards s).workers, w.Marked Q s := by
  intro w hw e he
  obtain ⟨shard, -, rfl⟩ := List.mem_map.1 hw
  contradiction

/-- The error of a batch is one that a worker has met. -/
theorem mark_of_error (h : ∀ w ∈ c.workers, w.Marked Q c.state) {e : Error}
    (he : c.outcome.error = some e) : Q e c.state := by
  obtain ⟨w, hw, herror⟩ := List.exists_of_findSome?_eq_some he
  apply h w hw
  obtain ⟨e', hphase⟩ := Worker.error?_isSome.1 (Option.isSome_iff_exists.2 ⟨e, herror⟩)
  rw [Worker.error?_of_ended hphase] at herror
  rw [hphase]
  exact herror

end Crew

/-- An upper bound of the steps that a worker still takes. -/
def Phase.work : Phase α → Nat
  | checking rest => 2 * rest.length + 1
  | writing _ rest => 2 * rest.length + 2
  | failing _ => 1
  | ended _ => 0

theorem Worker.Step.work_lt (hs : Step write w raised s w' raised' s') :
    w'.phase.work < w.phase.work := by
  cases hs with
  | finish => exact Nat.zero_lt_one
  | leave => exact Nat.succ_pos _
  | proceed => exact Nat.lt_succ_self _
  | write _ => simp [Phase.work]
  | fail _ => simp [Phase.work]
  | stop => exact Nat.zero_lt_one

/-- A worker that has not ended can take a step. -/
theorem Worker.exists_step (write : α → Action σ Update) (raised : Bool) (s : σ)
    (h : ¬∃ error, w.phase = .ended error) :
    ∃ w' raised' s', Step write w raised s w' raised' s' := by
  obtain ⟨phase, ws⟩ := w
  cases phase with
  | checking rest =>
    cases rest with
    | nil => exact ⟨_, _, _, .finish⟩
    | cons entry rest =>
      cases raised with
      | false => exact ⟨_, _, _, .proceed⟩
      | true => exact ⟨_, _, _, .leave⟩
  | writing entry rest =>
    rcases hw : write entry s with ⟨e | update, s'⟩
    · exact ⟨_, _, _, .fail hw⟩
    · exact ⟨_, _, _, .write hw⟩
  | failing e => exact ⟨_, _, _, .stop⟩
  | ended error => exact absurd ⟨error, rfl⟩ h

namespace Crew

variable {c c' : Crew α σ}

def work (c : Crew α σ) : Nat := c.workers.foldr (fun w n => w.phase.work + n) 0

theorem Step.work_lt (hs : Step write c c') : c'.work < c.work := by
  cases hs with
  | @worker before after w w' raised raised' s s' hs =>
    induction before with
    | nil => exact Nat.add_lt_add_right hs.work_lt _
    | cons v before ih => exact Nat.add_lt_add_left ih _

/-- No worker waits for another. -/
theorem exists_step (write : α → Action σ Update) (h : ¬c.Ended) : ∃ c', Step write c c' := by
  obtain ⟨workers, raised, s⟩ := c
  simp only [Ended, not_forall] at h
  obtain ⟨w, hw, hphase⟩ := h
  obtain ⟨before, after, rfl⟩ := List.append_of_mem hw
  obtain ⟨w', raised', s', hs⟩ := Worker.exists_step write raised s hphase
  exact ⟨_, .worker hs⟩

/-- However far a batch has come, it can be brought to its end, and since every step lowers its
work, no order of steps puts the end off for ever. -/
theorem exists_ended (write : α → Action σ Update) (c : Crew α σ) :
    ∃ c', Run write c c' ∧ c'.Ended := by
  induction hwork : c.work using Nat.strongRecOn generalizing c with
  | _ n ih =>
    by_cases hended : c.Ended
    · exact ⟨c, .refl, hended⟩
    · obtain ⟨c₁, hstep⟩ := exists_step write hended
      obtain ⟨c', hrun, hended'⟩ := ih c₁.work (hwork ▸ hstep.work_lt) c₁ rfl
      exact ⟨c', hrun.head hstep, hended'⟩

end Crew

end AuthDict.Shards
