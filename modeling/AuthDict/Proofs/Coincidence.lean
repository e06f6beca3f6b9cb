import AuthDict.Proofs.Action

/-!
# Two runs of an action

A relation between states says what somebody sees of them: related states look the same. An action
`Coincides` if it cannot tell related states apart, and is `Unseen` if it leads to a state that is
related to whatever the one before was related to. Both are taken apart along the bind, so they are
proved for the few primitive actions of a state and hold of everything that is made of those.
-/
namespace AuthDict.Action

variable {σ τ α β : Type} {R : σ → σ → Prop} {Q : τ → τ → Prop}

/-- In related states the action returns the same, and it leaves related states. -/
structure Coincides (R : σ → σ → Prop) (x : Action σ α) : Prop where
  run : ∀ s t, R s t → (x t).1 = (x s).1 ∧ R (x s).2 (x t).2

/-- The action leaves a state that is related to the same states. -/
structure Unseen (R : σ → σ → Prop) (x : Action σ α) : Prop where
  run : ∀ s t, R s t → R (x s).2 t

namespace Coincides

theorem of_eq {x : Action σ α} (hx : Coincides R x) {s s' t : σ} {r : Except Error α} (h : R s t)
    (hs : x s = (r, s')) : ∃ t', x t = (r, t') ∧ R s' t' := by
  obtain ⟨hr, h'⟩ := hx.run s t h
  rw [hs] at hr h'
  exact ⟨(x t).2, Prod.ext hr rfl, h'⟩

theorem pure (a : α) : Coincides R (Pure.pure a) := ⟨fun _ _ h => ⟨rfl, h⟩⟩

theorem fail (e : Error) : Coincides R (Action.fail e : Action σ α) :=
  ⟨fun _ _ h => ⟨rfl, h⟩⟩

theorem bind_of {P : α → Prop} {x : Action σ α} {f : α → Action σ β} (hx : Coincides R x)
    (hP : ∀ s t a, R s t → (x s).1 = .ok a → P a) (hf : ∀ a, P a → Coincides R (f a)) :
    Coincides R (x >>= f) := by
  refine ⟨fun s t h => ?_⟩
  obtain ⟨hr, h'⟩ := hx.run s t h
  rcases hs : x s with ⟨e | a, s'⟩ <;> rcases ht : x t with ⟨r, t'⟩ <;> rw [hs, ht] at hr h'
  · obtain rfl : r = .error e := hr
    rw [bind_error hs, bind_error ht]
    exact ⟨rfl, h'⟩
  · obtain rfl : r = .ok a := hr
    rw [bind_ok hs, bind_ok ht]
    exact (hf a (hP s t a h (by rw [hs]))).run s' t' h'

theorem bind {x : Action σ α} {f : α → Action σ β} (hx : Coincides R x)
    (hf : ∀ a, Coincides R (f a)) : Coincides R (x >>= f) :=
  hx.bind_of (P := fun _ => True) (fun _ _ _ _ _ => trivial) fun a _ => hf a

theorem read {f : σ → α} (hf : ∀ s t, R s t → f t = f s) : Coincides R (Action.read f) :=
  ⟨fun s t h => ⟨congrArg Except.ok (hf s t h), h⟩⟩

theorem update {f : σ → σ} (hf : ∀ s t, R s t → R (f s) (f t)) : Coincides R (Action.update f) :=
  ⟨fun s t h => ⟨rfl, hf s t h⟩⟩

/-- What an action that cannot fail returns does not matter if nobody looks at it. -/
theorem total_bind {f : σ → α × σ} {x : Action σ β} (hf : ∀ s t, R s t → R (f s).2 (f t).2)
    (hx : Coincides R x) : Coincides R (Action.total f >>= fun _ => x) :=
  ⟨fun s t h => hx.run _ _ (hf s t h)⟩

theorem within {get : σ → τ} {set : τ → σ → σ} {x : Action τ α} (hx : Coincides Q x)
    (hget : ∀ s t, R s t → Q (get s) (get t))
    (hset : ∀ s t u v, R s t → Q u v → R (set u s) (set v t)) :
    Coincides R (Action.within get set x) := by
  refine ⟨fun s t h => ?_⟩
  obtain ⟨hr, h'⟩ := hx.run _ _ (hget s t h)
  exact ⟨hr, hset s t _ _ h h'⟩

end Coincides

namespace Unseen

theorem of_eq {x : Action σ α} (hx : Unseen R x) {s s' t : σ} {r : Except Error α} (h : R s t)
    (hs : x s = (r, s')) : R s' t := by
  have h' := hx.run s t h
  rwa [hs] at h'

theorem pure (a : α) : Unseen R (Pure.pure a) := ⟨fun _ _ h => h⟩

theorem fail (e : Error) : Unseen R (Action.fail e : Action σ α) := ⟨fun _ _ h => h⟩

theorem bind {x : Action σ α} {f : α → Action σ β} (hx : Unseen R x) (hf : ∀ a, Unseen R (f a)) :
    Unseen R (x >>= f) := by
  refine ⟨fun s t h => ?_⟩
  have h' := hx.run s t h
  rcases hs : x s with ⟨e | a, s'⟩ <;> rw [hs] at h'
  · rwa [bind_error hs]
  · rw [bind_ok hs]
    exact (hf a).run s' t h'

theorem within {get : σ → τ} {set : τ → σ → σ} {x : Action τ α} (hx : Unseen Q x)
    (hget : ∀ s t, R s t → Q (get s) (get t))
    (hput : ∀ s t u, R s t → Q u (get t) → R (set u s) t) :
    Unseen R (Action.within get set x) :=
  ⟨fun s t h => hput s t _ h (hx.run _ _ (hget s t h))⟩

end Unseen

end AuthDict.Action
