import AuthDict.Label.Cache

/-!
# Cached labels

A cache is sound if every label it holds is the one its secret derives. Deriving through a sound
cache gives what deriving without one gives, and leaves the cache sound.
-/
namespace AuthDict.LabelCache

variable {G : Type} [ProofGroup G] {c : LabelCache} {secret : LabelSecret G}

def Sound (c : LabelCache) (secret : LabelSecret G) : Prop :=
  ∀ e ∈ c.entries, e.2 = secret.derive e.1

theorem sound_empty (capacity : Nat) (secret : LabelSecret G) : (empty capacity).Sound secret := by
  simp [Sound, empty]

theorem Sound.find? (h : c.Sound secret) {key : Bytes} {d : DerivedLabel}
    (hd : c.find? key = some d) : d = secret.derive key := by
  obtain ⟨e, he, rfl⟩ := Option.map_eq_some_iff.1 hd
  have hkey : e.1 = key := by simpa using List.find?_some he
  rw [h e (List.mem_of_find?_eq_some he), hkey]

theorem Sound.derive_fst (h : c.Sound secret) (key : Bytes) :
    (c.derive secret key).1 = secret.derive key := by
  unfold derive
  cases hd : c.find? key with
  | none => rfl
  | some d => exact h.find? hd

theorem Sound.touch (h : c.Sound secret) (key : Bytes) :
    (c.touch key (secret.derive key)).Sound secret := by
  intro e he
  rcases List.mem_cons.1 (List.mem_of_mem_take he) with rfl | he
  · rfl
  · exact h e (List.mem_filter.1 he).1

theorem Sound.derive_snd (h : c.Sound secret) (key : Bytes) : (c.derive secret key).2.Sound secret := by
  have hsnd : (c.derive secret key).2 = c.touch key (c.derive secret key).1 := rfl
  rw [hsnd, h.derive_fst]
  exact h.touch key

end AuthDict.LabelCache
