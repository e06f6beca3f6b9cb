import Mathlib.Data.List.Basic

/-!
# Schedules

A system of several parties takes one step at a time, and a schedule of moves says which. A property
that every allowed step keeps holds after every allowed run.

The parties stand in a list, and a step changes one of them: `before ++ c :: after` becomes
`before ++ c' :: after`. The lemmas here tell the party that moves from the others.
-/
namespace AuthDict

namespace Schedule

variable {σ μ : Type} {next? : σ → μ → Option σ} {allowed : σ → μ → Bool}

/-- The state after some moves, if each of them is allowed and enabled. -/
def play? (next? : σ → μ → Option σ) (allowed : σ → μ → Bool) (s : σ) : List μ → Option σ
  | [] => some s
  | m :: ms =>
    if allowed s m then (next? s m).bind fun s => play? next? allowed s ms else none

theorem play?_append {moves more : List μ} {s t u : σ}
    (hfirst : play? next? allowed s moves = some t)
    (hsecond : play? next? allowed t more = some u) :
    play? next? allowed s (moves ++ more) = some u := by
  induction moves generalizing s with
  | nil =>
    cases hfirst
    exact hsecond
  | cons m moves ih =>
    simp only [play?, List.cons_append] at hfirst ⊢
    split at hfirst
    · next hm =>
      obtain ⟨s₁, hnext, hrest⟩ := Option.bind_eq_some_iff.1 hfirst
      rw [if_pos hm, hnext, Option.bind_some, ih hrest]
    · contradiction

/-- What every allowed step keeps still holds after a run. -/
theorem play?_keeps {P : σ → Prop}
    (hstep : ∀ {s s' : σ} {m : μ}, allowed s m = true → next? s m = some s' → P s → P s')
    {moves : List μ} {s s' : σ} (hrun : play? next? allowed s moves = some s') (hs : P s) :
    P s' := by
  induction moves generalizing s with
  | nil =>
    cases hrun
    exact hs
  | cons m moves ih =>
    simp only [play?] at hrun
    split at hrun
    · next hm =>
      obtain ⟨s₁, hnext, hrun⟩ := Option.bind_eq_some_iff.1 hrun
      exact ih hrun (hstep hm hnext hs)
    · contradiction

end Schedule

variable {α : Type} {before after : List α} {c c' : α}

theorem countP_around (p : α → Bool) :
    (before ++ c :: after).countP p = (before ++ after).countP p + (p c).toNat := by
  rw [List.perm_middle.countP_eq, List.countP_cons]
  cases p c <;> rfl

/-- A flag that counts the parties with a property is raised while there is one. -/
theorem flag_of_countP {p : α → Bool} {flag : Bool}
    (h : (before ++ c :: after).countP p = flag.toNat) (hc : p c = true) : flag = true := by
  rw [countP_around, hc] at h
  cases flag with
  | true => rfl
  | false => simp at h

theorem countP_balance {p : α → Bool} {flag flag' : Bool}
    (h : (before ++ c :: after).countP p = flag.toNat)
    (hc : (p c').toNat + flag.toNat = (p c).toNat + flag'.toNat) :
    (before ++ c' :: after).countP p = flag'.toNat := by
  rw [countP_around] at h ⊢
  omega

theorem forall_around {P : α → Prop} :
    (∀ d ∈ before ++ c :: after, P d) ↔ P c ∧ ∀ d ∈ before ++ after, P d := by
  simp only [List.perm_middle.mem_iff, List.forall_mem_cons]

theorem exists_around {P : α → Prop} :
    (∃ d ∈ before ++ c :: after, P d) ↔ P c ∨ ∃ d ∈ before ++ after, P d := by
  simp only [List.perm_middle.mem_iff, List.mem_cons, or_and_right, exists_or, exists_eq_left]

/-- Replacing one party splits the list around it. -/
theorem exists_around_of_set {xs : List α} {i : Nat} (h : xs[i]? = some c) (c' : α) :
    ∃ before after, xs = before ++ c :: after ∧ before.length = i ∧
      xs.set i c' = before ++ c' :: after := by
  obtain ⟨hi, rfl⟩ := List.getElem?_eq_some_iff.1 h
  obtain ⟨before, after, hxs, hlength, hset⟩ := List.exists_of_set hi
  exact ⟨before, after, hxs, hlength, hset⟩

end AuthDict
