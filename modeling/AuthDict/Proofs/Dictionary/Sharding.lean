import AuthDict.Proofs.Dictionary.Coverage

/-!
# Shards of nearly one size

The sizes of the shards are the quotient of the number of entries by the number of shards, the first
ones larger by one, as many as the remainder tells. They add up to the number of entries, so what is
cut off is all there is; and as there are no more shards than entries, none is empty unless there is
no entry at all.
-/
namespace AuthDict.Shards

variable {α : Type}

/-- Where there are entries enough, every run has the length that is asked for. -/
theorem map_length_cut {base extra shards : Nat} {entries : List α} (hextra : extra ≤ shards)
    (henough : base * shards + extra ≤ entries.length) :
    (cut base extra shards entries).map List.length =
      List.replicate extra (base + 1) ++ List.replicate (shards - extra) base := by
  -- The entries that a run leaves are enough for the runs after it.
  induction shards generalizing extra entries with
  | zero =>
    obtain rfl : extra = 0 := by omega
    rfl
  | succ shards ih =>
    rw [Nat.mul_succ] at henough
    cases extra with
    | zero =>
      have hfirst : (entries.take base).length = base := by
        rw [List.length_take]
        omega
      have hrest : base * shards + 0 ≤ (entries.drop base).length := by
        rw [List.length_drop]
        omega
      rw [cut, List.map_cons, hfirst, ih (Nat.zero_le shards) hrest]
      rfl
    | succ extra =>
      have hfirst : (entries.take (base + 1)).length = base + 1 := by
        rw [List.length_take]
        omega
      have hrest : base * shards + extra ≤ (entries.drop (base + 1)).length := by
        rw [List.length_drop]
        omega
      rw [cut, List.map_cons, hfirst, ih (by omega) hrest, Nat.add_sub_add_right]
      rfl

theorem count_pos (requested size : Nat) : 0 < count requested size := by
  rw [count]
  omega

theorem map_length_split (entries : List α) (requested : Nat) :
    (split entries requested).map List.length =
      let n := count requested entries.length
      List.replicate (entries.length % n) (entries.length / n + 1) ++
        List.replicate (n - entries.length % n) (entries.length / n) := by
  have hmod := Nat.mod_lt entries.length (count_pos requested entries.length)
  have hsum := Nat.div_add_mod' entries.length (count requested entries.length)
  exact map_length_cut (Nat.le_of_lt hmod) (Nat.le_of_eq hsum)

theorem length_split (entries : List α) (requested : Nat) :
    (split entries requested).length = count requested entries.length := by
  have hmod := Nat.mod_lt entries.length (count_pos requested entries.length)
  have hsizes := congrArg List.length (map_length_split entries requested)
  simp only [List.length_map, List.length_append, List.length_replicate] at hsizes
  omega

/-- One entry at least falls to each shard if there is an entry. -/
theorem length_pos_of_mem_split {entries shard : List α} {requested : Nat} (h : entries ≠ [])
    (hshard : shard ∈ split entries requested) : 0 < shard.length := by
  have hpos : 0 < entries.length := List.length_pos_iff.2 h
  have hle : count requested entries.length ≤ entries.length := by
    rw [count]
    omega
  have hbase := Nat.div_pos hle (count_pos requested entries.length)
  have hsize := List.mem_map_of_mem (f := List.length) hshard
  rw [map_length_split, List.mem_append, List.mem_replicate, List.mem_replicate] at hsize
  omega

/-- Sharding loses, repeats and reorders nothing: there are as many shards as asked for, within the
bounds, together they are the entries in order, an earlier one is as large as a later one or larger
by one, and only an empty batch has an empty shard. -/
theorem split_balanced (entries : List α) (requested : Nat) :
    (split entries requested).length = min (max requested 1) (max entries.length 1) ∧
      (split entries requested).flatten = entries ∧
      ((split entries requested).Pairwise fun earlier later =>
        later.length ≤ earlier.length ∧ earlier.length ≤ later.length + 1) ∧
      ([] ∈ split entries requested ↔ entries = []) := by
  refine ⟨length_split entries requested, flatten_split entries requested, ?_, ?_⟩
  · have hsizes : ((split entries requested).map List.length).Pairwise fun earlier later =>
        later ≤ earlier ∧ earlier ≤ later + 1 := by
      rw [map_length_split]
      refine List.pairwise_append.2 ⟨?_, ?_, ?_⟩
      · simp [List.pairwise_replicate]
      · simp [List.pairwise_replicate]
      · intro larger hlarger smaller hsmaller
        rw [List.eq_of_mem_replicate hlarger, List.eq_of_mem_replicate hsmaller]
        omega
    exact List.pairwise_map.1 hsizes
  · constructor
    · intro hempty
      by_contra hentries
      exact absurd (length_pos_of_mem_split hentries hempty) (Nat.lt_irrefl 0)
    · rintro rfl
      -- Nothing is cut into one shard, whatever is asked for.
      have hcount : count requested 0 = 1 := by
        rw [count]
        omega
      simp [split, hcount, cut]

/-- Ten entries in four shards. -/
example : split [1, 2, 3, 4, 5, 6, 7, 8, 9, 10] 4 = [[1, 2, 3], [4, 5, 6], [7, 8], [9, 10]] := by
  decide

end AuthDict.Shards
