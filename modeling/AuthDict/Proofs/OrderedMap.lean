import AuthDict.OrderedMap
import Mathlib.Data.List.Nodup
import Mathlib.Data.List.Perm.Basic
import Mathlib.Data.List.Perm.Lattice

/-!
# Entries of ordered maps

The entries of a map as a list without repeated keys, and what insertions do to it. A list of
insertions acts as one lookup in the list, in which the last entry of a key counts.
-/
namespace AuthDict.OrderedMap

variable {α β : Type} [Ord α] [Std.TransOrd α] [Std.LawfulEqOrd α]

theorem entries_empty : (empty : OrderedMap α β).entries = [] := by
  refine List.eq_nil_iff_forall_not_mem.2 fun e he => ?_
  simpa using get?_eq_some_iff.2 he

theorem nodup_keys (m : OrderedMap α β) : (m.entries.map (·.1)).Nodup := by
  rw [List.Nodup, List.pairwise_map]
  refine m.sorted.imp fun {a b} hlt he => ?_
  rw [he, Std.ReflOrd.compare_self] at hlt
  contradiction

theorem nodup_entries (m : OrderedMap α β) : m.entries.Nodup := m.nodup_keys.of_map _

theorem mem_entries_insert {m : OrderedMap α β} {k : α} {v : β} {e : α × β} :
    e ∈ (m.insert k v).entries ↔ e = (k, v) ∨ e.1 ≠ k ∧ e ∈ m.entries := by
  obtain ⟨k', v'⟩ := e
  rw [← get?_eq_some_iff, ← get?_eq_some_iff]
  by_cases h : k' = k
  · subst h
    simp [eq_comm]
  · simp [get?_insert_of_ne m v h, h]

theorem mem_keys {m : OrderedMap α β} {k : α} : k ∈ m.keys ↔ ∃ v, m.get? k = some v := by
  simp [keys, get?_eq_some_iff]

/-- Of two insertions of one key, the later one counts. -/
theorem insert_insert (m : OrderedMap α β) (k : α) (v w : β) :
    (m.insert k v).insert k w = m.insert k w := by
  apply ext_get?
  intro k'
  by_cases hk : k' = k
  · rw [hk, get?_insert_self, get?_insert_self]
  · rw [get?_insert_of_ne _ _ hk, get?_insert_of_ne _ _ hk, get?_insert_of_ne _ _ hk]

/-- Inserting what is there changes nothing. -/
theorem insert_of_get? {m : OrderedMap α β} {k : α} {v : β} (h : m.get? k = some v) :
    m.insert k v = m := by
  apply ext_get?
  intro k'
  by_cases hk : k' = k
  · rw [hk, get?_insert_self, h]
  · rw [get?_insert_of_ne _ _ hk]

omit [Std.LawfulEqOrd α] in
theorem sorted_keys (m : OrderedMap α β) : m.keys.Pairwise fun a b => compare a b = .lt := by
  rw [keys, List.pairwise_map]
  exact m.sorted

theorem get?_of_get?_erase [DecidableEq α] {m : OrderedMap α β} {k k' : α} {v : β}
    (h : (m.erase k).get? k' = some v) : m.get? k' = some v := by
  by_cases hk : k' = k
  · rw [hk, get?_erase_self] at h
    contradiction
  · rwa [get?_erase_of_ne m hk] at h

/-- The entries with a property are settled by the lookups that find them. -/
theorem filter_entries_of_iff {m n : OrderedMap α β} {p : α × β → Bool}
    (h : ∀ k v, p (k, v) = true → (m.get? k = some v ↔ n.get? k = some v)) :
    m.entries.filter p = n.entries.filter p := by
  have hperm : (m.entries.filter p).Perm (n.entries.filter p) := by
    apply (List.perm_ext_iff_of_nodup (m.nodup_entries.filter _) (n.nodup_entries.filter _)).2
    rintro ⟨k, v⟩
    simp only [List.mem_filter, ← get?_eq_some_iff]
    exact and_congr_left (h k v)
  refine hperm.eq_of_pairwise ?_ (m.sorted.filter _) (n.sorted.filter _)
  intro a b _ _ hab hba
  rw [Std.OrientedCmp.gt_of_lt hab] at hba
  contradiction

/-- The entries of some keys are settled by the lookups of those. -/
theorem filter_entries_congr {m n : OrderedMap α β} {p : α → Bool}
    (h : ∀ k, p k = true → m.get? k = n.get? k) :
    (m.entries.filter fun e => p e.1) = n.entries.filter fun e => p e.1 :=
  filter_entries_of_iff fun k v hp => by rw [h k hp]

theorem entries_insert_perm {m : OrderedMap α β} {k : α} (v : β) (h : m.get? k = none) :
    (m.insert k v).entries.Perm ((k, v) :: m.entries) := by
  have hfree := get?_eq_none_iff.1 h
  refine (List.perm_ext_iff_of_nodup (nodup_entries _)
    (List.nodup_cons.2 ⟨hfree v, m.nodup_entries⟩)).2 fun e => ?_
  rw [mem_entries_insert, List.mem_cons]
  refine or_congr_right ⟨fun he => he.2, fun he => ⟨?_, he⟩⟩
  rintro rfl
  exact hfree e.2 he

/-- Inserts entries in order. -/
def insertAll (m : OrderedMap α β) (es : List (α × β)) : OrderedMap α β :=
  es.foldl (fun m e => m.insert e.1 e.2) m

/-- Insertions count from the last to the first, and before them what was there. -/
theorem get?_insertAll [DecidableEq α] (m : OrderedMap α β) (es : List (α × β)) (k : α) :
    (m.insertAll es).get? k = (es.reverse.find? fun e => e.1 = k).elim (m.get? k) (some ·.2) := by
  induction es generalizing m with
  | nil => rfl
  | cons e es ih =>
    have hstep : m.insertAll (e :: es) = (m.insert e.1 e.2).insertAll es := rfl
    rw [hstep, ih, List.reverse_cons, List.find?_append]
    cases es.reverse.find? fun e => e.1 = k with
    | some found => rfl
    | none =>
      by_cases h : e.1 = k
      · subst h
        simp
      · simp [h, get?_insert_of_ne m e.2 (Ne.symm h)]

theorem get?_insertAll_of_notMem [DecidableEq α] {m : OrderedMap α β} {es : List (α × β)} {k : α}
    (h : k ∉ es.map (·.1)) : (m.insertAll es).get? k = m.get? k := by
  have hnone : es.reverse.find? (fun e => e.1 = k) = none := by
    simp only [List.find?_eq_none, List.mem_reverse, decide_eq_true_eq]
    intro e he hk
    exact h (List.mem_map.2 ⟨e, he, hk⟩)
  rw [get?_insertAll, hnone]
  rfl

theorem isSome_get?_insertAll [DecidableEq α] {m : OrderedMap α β} {k : α}
    (h : (m.get? k).isSome = true) (es : List (α × β)) :
    ((m.insertAll es).get? k).isSome = true := by
  rw [get?_insertAll]
  cases es.reverse.find? fun e => e.1 = k with
  | none => exact h
  | some e => rfl

theorem ofList_entries [DecidableEq α] (m : OrderedMap α β) : ofList m.entries = m := by
  refine ext_get? fun k => ?_
  refine (get?_insertAll empty m.entries k).trans ?_
  cases hfound : m.entries.reverse.find? fun e => e.1 = k with
  | none =>
    have hnone : m.get? k = none := by
      rw [get?_eq_none_iff]
      intro v hv
      have hne := List.find?_eq_none.1 hfound (k, v) (List.mem_reverse.2 hv)
      simp at hne
    rw [hnone]
    exact get?_empty k
  | some e =>
    have hkey : e.1 = k := by simpa using List.find?_some hfound
    have hmem : (k, e.2) ∈ m.entries := by
      have he := List.mem_reverse.1 (List.mem_of_find?_eq_some hfound)
      rwa [← hkey]
    exact (get?_eq_some_iff.2 hmem).symm

/-- Entries under keys of their own that are fresh are added to those of the map. -/
theorem entries_insertAll_perm {m : OrderedMap α β} {es : List (α × β)}
    (hkeys : (es.map (·.1)).Nodup) (hfree : ∀ e ∈ es, m.get? e.1 = none) :
    (m.insertAll es).entries.Perm (m.entries ++ es) := by
  induction es generalizing m with
  | nil => simp [insertAll]
  | cons e es ih =>
    obtain ⟨hnew, hkeys⟩ := List.nodup_cons.1 hkeys
    have hfree' : ∀ f ∈ es, (m.insert e.1 e.2).get? f.1 = none := by
      intro f hf
      have hne : f.1 ≠ e.1 := fun h => hnew (List.mem_map.2 ⟨f, hf, h⟩)
      rw [get?_insert_of_ne m e.2 hne]
      exact hfree f (List.mem_cons_of_mem _ hf)
    calc (m.insertAll (e :: es)).entries
        = ((m.insert e.1 e.2).insertAll es).entries := rfl
      _ |>.Perm ((m.insert e.1 e.2).entries ++ es) := ih hkeys hfree'
      _ |>.Perm (e :: m.entries ++ es) :=
          (entries_insert_perm e.2 (hfree e List.mem_cons_self)).append_right es
      _ |>.Perm (m.entries ++ e :: es) := List.perm_middle.symm

theorem dropWhile_eq_filter {γ : Type} {p : γ → Bool} {xs : List γ}
    (h : xs.Pairwise fun a b => p b = true → p a = true) :
    xs.dropWhile p = xs.filter fun x => !p x := by
  induction xs with
  | nil => rfl
  | cons x xs ih =>
    obtain ⟨hx, hxs⟩ := List.pairwise_cons.1 h
    by_cases hp : p x = true
    · simp [hp, ih hxs]
    · have hall : ∀ y ∈ xs, (!p y) = true := by
        intro y hy
        simpa using mt (hx y hy) hp
      simp [hp, List.filter_eq_self.2 hall]

theorem takeWhile_eq_filter {γ : Type} {p : γ → Bool} {xs : List γ}
    (h : xs.Pairwise fun a b => p b = true → p a = true) : xs.takeWhile p = xs.filter p := by
  induction xs with
  | nil => rfl
  | cons x xs ih =>
    obtain ⟨hx, hxs⟩ := List.pairwise_cons.1 h
    by_cases hp : p x = true
    · simp [hp, ih hxs]
    · have hnone : ∀ y ∈ xs, ¬p y = true := by
        intro y hy
        exact mt (hx y hy) hp
      simp [hp, List.filter_eq_nil_iff.2 hnone]

omit [Std.LawfulEqOrd α] in
/-- A range read in order is a selection of the entries. -/
theorem firstWithin_eq_filter (m : OrderedMap α β) (n : Nat) (lo hi : α) :
    m.firstWithin n lo hi =
      (m.entries.filter fun e => compare e.1 lo != .lt && compare e.1 hi != .gt).take n := by
  have hlo : m.entries.Pairwise fun a b =>
      (compare b.1 lo == .lt) = true → (compare a.1 lo == .lt) = true := by
    refine m.sorted.imp fun {a b} hab hb => ?_
    rw [beq_iff_eq] at hb ⊢
    exact Std.TransCmp.lt_trans hab hb
  have hhi : m.entries.Pairwise fun a b =>
      (compare b.1 hi != .gt) = true → (compare a.1 hi != .gt) = true := by
    refine m.sorted.imp fun {a b} hab hb => ?_
    rw [bne_iff_ne, ne_eq, Ordering.ne_gt_iff_isLE] at hb ⊢
    exact Std.TransCmp.isLE_trans (Ordering.isLE_of_eq_lt hab) hb
  rw [firstWithin_eq, dropWhile_eq_filter hlo, takeWhile_eq_filter (hhi.filter _),
    List.filter_filter]
  simp [bne, Bool.and_comm]

end AuthDict.OrderedMap
