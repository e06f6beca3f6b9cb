import AuthDict.Error

/-!
# Runs of actions

A sequence of two actions either stops in the first with its error or goes on from the state the
first has left. Everything that is proved of a longer action is taken apart with these two facts;
no other proof opens the bind.
-/
namespace AuthDict.Action

variable {σ τ α β : Type}

theorem bind_apply (x : Action σ α) (f : α → Action σ β) (s : σ) :
    (x >>= f) s = match x s with
      | (.ok a, s') => f a s'
      | (.error e, s') => (.error e, s') := rfl

@[simp] theorem pure_apply (a : α) (s : σ) : (pure a : Action σ α) s = (.ok a, s) := rfl

theorem bind_ok {x : Action σ α} {s s' : σ} {a : α} (h : x s = (.ok a, s')) (f : α → Action σ β) :
    (x >>= f) s = f a s' := by
  rw [bind_apply, h]

theorem bind_error {x : Action σ α} {s s' : σ} {e : Error} (h : x s = (.error e, s'))
    (f : α → Action σ β) : (x >>= f) s = (.error e, s') := by
  rw [bind_apply, h]

/-- The two ways in which a sequence of actions ends. -/
theorem bind_cases {x : Action σ α} {f : α → Action σ β} {s t : σ} {r : Except Error β}
    (h : (x >>= f) s = (r, t)) :
    (∃ e, x s = (.error e, t) ∧ r = .error e) ∨ ∃ a s', x s = (.ok a, s') ∧ f a s' = (r, t) := by
  rcases hx : x s with ⟨e | a, s'⟩
  · rw [bind_error hx] at h
    obtain ⟨rfl, rfl⟩ := Prod.mk.inj h
    exact .inl ⟨e, rfl, rfl⟩
  · rw [bind_ok hx] at h
    exact .inr ⟨a, s', rfl, h⟩

instance : LawfulMonad (Action σ) := by
  refine .mk' _ ?_ (fun _ _ => rfl) ?_
  · intro α x
    funext s
    rcases hx : x s with ⟨e | a, s'⟩
    · exact bind_error hx _
    · exact bind_ok hx _
  · intro α β γ x f g
    funext s
    rcases hx : x s with ⟨e | a, s'⟩
    · rw [bind_error (bind_error hx f), bind_error hx]
    · rw [bind_ok hx, bind_apply, bind_ok hx, bind_apply]

theorem exists_of_map_eq_ok {r : Except Error α} {f : α → β} {b : β} (h : r.map f = .ok b) :
    ∃ a, r = .ok a ∧ f a = b := by
  cases r with
  | error e => contradiction
  | ok a => exact ⟨a, rfl, Except.ok.inj h⟩

theorem read_bind (f : σ → α) (g : α → Action σ β) (s : σ) :
    (Action.read f >>= g) s = g (f s) s := rfl

theorem update_bind (f : σ → σ) (g : Unit → Action σ β) (s : σ) :
    (Action.update f >>= g) s = g () (f s) := rfl

theorem fail_bind (e : Error) (g : α → Action σ β) (s : σ) :
    (Action.fail e >>= g) s = (.error e, s) := rfl

theorem within_apply (get : σ → τ) (set : τ → σ → σ) (x : Action τ α) (s : σ) :
    within get set x s = ((x (get s)).1, set (x (get s)).2 s) := rfl

theorem total_apply (f : σ → α × σ) (s : σ) : total f s = (.ok (f s).1, (f s).2) := rfl

/-- From states with a property the action ends in such a state, whether it fails or not; what it
returns has a second property, and its errors have a third. -/
def Ensures (P : σ → Prop) (x : Action σ α) (R : α → Prop) (E : Error → Prop) : Prop :=
  ∀ s, P s → P (x s).2 ∧ (∀ a, (x s).1 = .ok a → R a) ∧ ∀ e, (x s).1 = .error e → E e

variable {P : σ → Prop} {R : α → Prop} {T : β → Prop} {E : Error → Prop}

theorem Ensures.bind {x : Action σ α} {f : α → Action σ β} (hx : Ensures P x R E)
    (hf : ∀ a, R a → Ensures P (f a) T E) : Ensures P (x >>= f) T E := by
  intro s hs
  obtain ⟨hs', ha, he⟩ := hx s hs
  rcases h : x s with ⟨e | a, s'⟩
  · rw [h] at hs' he
    rw [bind_error h]
    exact ⟨hs', by simp, fun _ h => Except.error.inj h ▸ he e rfl⟩
  · rw [h] at hs' ha
    rw [bind_ok h]
    exact hf a (ha a rfl) s' hs'

theorem Ensures.pure {a : α} (ha : R a) : Ensures P (pure a) R E :=
  fun _ hs => ⟨hs, fun _ h => Except.ok.inj h ▸ ha, by simp⟩

theorem Ensures.fail {e : Error} (he : E e) : Ensures P (fail e) R E :=
  fun _ hs => ⟨hs, by simp [Action.fail], fun _ h => Except.error.inj h ▸ he⟩

theorem Ensures.weaken {x : Action σ α} {S : α → Prop} {F : Error → Prop} (hx : Ensures P x R E)
    (hR : ∀ a, R a → S a) (hE : ∀ e, E e → F e) : Ensures P x S F := by
  intro s hs
  obtain ⟨hs', ha, he⟩ := hx s hs
  exact ⟨hs', fun a h => hR a (ha a h), fun e h => hE e (he e h)⟩

theorem Ensures.of_ok {x : Action σ α} {s s' : σ} {a : α} (hx : Ensures P x R E) (hs : P s)
    (h : x s = (.ok a, s')) : P s' ∧ R a := by
  obtain ⟨hs', ha, -⟩ := hx s hs
  rw [h] at hs' ha
  exact ⟨hs', ha a rfl⟩

theorem Ensures.of_error {x : Action σ α} {s s' : σ} {e : Error} (hx : Ensures P x R E) (hs : P s)
    (h : x s = (.error e, s')) : P s' ∧ E e := by
  obtain ⟨hs', -, he⟩ := hx s hs
  rw [h] at hs' he
  exact ⟨hs', he e rfl⟩

end AuthDict.Action
