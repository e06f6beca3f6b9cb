import AuthDict.Proofs.Label.Cache
import Mathlib.Data.Finset.Dedup
import Mathlib.Data.Finset.Card
import Mathlib.Data.List.Induction

/-!
# Recently asked keys

What a cache that starts empty gives and holds after any sequence of keys: the labels are those of
the secret, and the entries are those of the keys asked last, as many of them as the capacity
allows.

A key counts by the last time that it was asked. A hit puts its entry first and drops none; a miss
puts a new entry first and drops the one whose key has not been asked for longest, if there is no
room for it.
-/
namespace AuthDict.LabelCache

variable {G : Type} [ProofGroup G] {c : LabelCache} {secret : LabelSecret G} {key : Bytes}

/-- Derives the labels of keys one after the other. -/
def deriveAll (c : LabelCache) (secret : LabelSecret G) : List Bytes → List DerivedLabel × LabelCache
  | [] => ([], c)
  | key :: rest =>
    let (derived, c) := c.derive secret key
    let (labels, c) := c.deriveAll secret rest
    (derived :: labels, c)

/-- The label of a key that is cached, and the cache with its entry in front. -/
def get? (c : LabelCache) (key : Bytes) : Option (DerivedLabel × LabelCache) :=
  (c.find? key).map fun d =>
    (d, { c with entries := (key, d) :: c.entries.filter fun e => e.1 != key })

/-- Puts an entry in front, in place of any of its key. The last entry goes if there is no room for
it. -/
def put (c : LabelCache) (key : Bytes) (d : DerivedLabel) : LabelCache :=
  let entries := (key, d) :: c.entries.filter fun e => e.1 != key
  { c with entries := if c.capacity < entries.length then entries.dropLast else entries }

/-- Different keys in the order in which they were asked last, the most recent first. -/
def recent (keys : List Bytes) : List Bytes := keys.dedup.reverse

/-- What a lookup finds makes room for itself when it is put in front. -/
theorem length_filter_lt {d : DerivedLabel} (h : c.find? key = some d) :
    (c.entries.filter fun e => e.1 != key).length < c.size := by
  obtain ⟨e, he, -⟩ := Option.map_eq_some_iff.1 h
  have hkey := List.find?_some he
  apply List.length_filter_lt_length_iff_exists.2
  exact ⟨e, List.mem_of_find?_eq_some he, by simpa using hkey⟩

/-- Deriving is a lookup, with an insertion if that finds nothing. -/
theorem derive_eq (hc : c.size ≤ c.capacity) (secret : LabelSecret G) (key : Bytes) :
    c.derive secret key =
      match c.get? key with
      | some hit => hit
      | none => (secret.derive key, c.put key (secret.derive key)) := by
  cases hfind : c.find? key with
  | some d =>
    have hroom : ((key, d) :: c.entries.filter fun e => e.1 != key).length ≤ c.capacity := by
      have hlt := length_filter_lt hfind
      rw [List.length_cons]
      omega
    simp only [derive, get?, hfind, Option.getD_some, Option.map_some, touch,
      List.take_of_length_le hroom]
  | none =>
    simp only [derive, get?, hfind, Option.getD_none, Option.map_none, touch, put]
    have hle : (c.entries.filter fun e => e.1 != key).length ≤ c.size := List.length_filter_le ..
    split
    · next hfull =>
      -- the capacity is one less than the entries there are
      rw [List.length_cons] at hfull
      have hlength : c.capacity = (c.entries.filter fun e => e.1 != key).length := by omega
      rw [List.dropLast_eq_take, hlength, List.length_cons, Nat.add_sub_cancel]
    · next hroom => rw [List.take_of_length_le (Nat.le_of_not_lt hroom)]

theorem recent_concat (keys : List Bytes) (key : Bytes) :
    recent (keys ++ [key]) = key :: (recent keys).filter (· != key) := by
  have hdedup : (keys ++ [key]).dedup = keys.dedup.filter (· != key) ++ [key] := by
    induction keys with
    | nil => simp
    | cons k keys ih =>
      rw [List.cons_append]
      by_cases hmem : k ∈ keys
      · rw [List.dedup_cons_of_mem (List.mem_append_left _ hmem), List.dedup_cons_of_mem hmem, ih]
      · by_cases hkey : k = key
        · subst hkey
          have hlast : k ∈ keys ++ [k] := by simp
          rw [List.dedup_cons_of_mem hlast, List.dedup_cons_of_notMem hmem, ih]
          simp
        · have hnew : k ∉ keys ++ [key] := by simp [hmem, hkey]
          rw [List.dedup_cons_of_notMem hnew, List.dedup_cons_of_notMem hmem, ih]
          simp [hkey]
  rw [recent, recent, hdedup, List.reverse_append, List.filter_reverse]
  rfl

theorem nodup_recent (keys : List Bytes) : (recent keys).Nodup :=
  List.nodup_reverse.2 keys.nodup_dedup

theorem length_recent (keys : List Bytes) : (recent keys).length = keys.toFinset.card := by
  rw [recent, List.length_reverse, List.card_toFinset]

/-- At most one of different keys is taken away, so those that come after the first few do not
matter. -/
theorem take_filter_take {keys : List Bytes} (hkeys : keys.Nodup) (key : Bytes) (n : Nat) :
    ((keys.take (n + 1)).filter (· != key)).take n = (keys.filter (· != key)).take n := by
  induction keys generalizing n with
  | nil => rfl
  | cons k keys ih =>
    obtain ⟨hk, hkeys⟩ := List.nodup_cons.1 hkeys
    by_cases hkey : k = key
    · subst hkey
      have hother : ∀ other ∈ keys, (other != k) = true := by
        intro other hmem
        have hne : other ≠ k := by
          intro h
          exact hk (h ▸ hmem)
        simpa using hne
      have htaken : ∀ other ∈ keys.take n, (other != k) = true := fun other hmem =>
        hother other (List.mem_of_mem_take hmem)
      simp only [List.take_succ_cons, List.filter_cons, bne_self_eq_false, Bool.false_eq_true,
        if_false, List.filter_eq_self.2 hother, List.filter_eq_self.2 htaken, List.take_take,
        Nat.min_self]
    · have hne : (k != key) = true := by simpa using hkey
      simp only [List.take_succ_cons, List.filter_cons, hne, if_true]
      cases n with
      | zero => rfl
      | succ n => rw [List.take_succ_cons, List.take_succ_cons, ih hkeys]

/-- A key is among the most recent ones if few others have been asked since it was asked last. -/
theorem mem_take_recent_iff {keys : List Bytes} {n : Nat} :
    key ∈ (recent keys).take n ↔
      ∃ earlier later, keys = earlier ++ key :: later ∧ key ∉ later ∧ later.toFinset.card < n := by
  have hlast : ∀ earlier later : List Bytes, key ∉ later →
      (key ∈ (recent (earlier ++ key :: later)).take n ↔ later.toFinset.card < n) := by
    intro earlier later hnew
    obtain ⟨front, hfront⟩ := List.suffix_union_right earlier (key :: later).dedup
    have hrecent : recent (earlier ++ key :: later) = recent later ++ key :: front.reverse := by
      rw [recent, List.dedup_append, ← hfront, List.dedup_cons_of_notMem hnew]
      simp [recent]
    have hfresh : key ∉ recent later := by simpa [recent] using hnew
    rw [List.mem_take_iff_idxOf_lt (by simp [hrecent]), hrecent, List.idxOf_append_of_notMem hfresh,
      List.idxOf_cons_self, Nat.add_zero, length_recent]
  constructor
  · intro hmem
    have hasked : key ∈ keys := by simpa [recent] using List.mem_of_mem_take hmem
    obtain ⟨later, earlier, hsplit, hnew⟩ := List.eq_append_cons_of_mem (List.mem_reverse.2 hasked)
    have hkeys : keys = earlier.reverse ++ key :: later.reverse := by
      rw [← List.reverse_reverse keys, hsplit]
      simp
    rw [← List.mem_reverse] at hnew
    rw [hkeys] at hmem
    exact ⟨earlier.reverse, later.reverse, hkeys, hnew, (hlast _ _ hnew).1 hmem⟩
  · rintro ⟨earlier, later, rfl, hnew, hfew⟩
    exact (hlast earlier later hnew).2 hfew

theorem deriveAll_concat (c : LabelCache) (secret : LabelSecret G) (keys : List Bytes) (key : Bytes) :
    c.deriveAll secret (keys ++ [key]) =
      let (labels, c) := c.deriveAll secret keys
      let (derived, c) := c.derive secret key
      (labels ++ [derived], c) := by
  induction keys generalizing c with
  | nil => rfl
  | cons k keys ih => simp only [List.cons_append, deriveAll, ih]

/-- The entries of some keys with the labels of the secret. -/
def entriesOf (secret : LabelSecret G) (keys : List Bytes) : List (Bytes × DerivedLabel) :=
  keys.map fun key => (key, secret.derive key)

theorem filter_entriesOf (secret : LabelSecret G) (keys : List Bytes) (key : Bytes) :
    ((entriesOf secret keys).filter fun e => e.1 != key) =
      entriesOf secret (keys.filter (· != key)) := by
  rw [entriesOf, List.filter_map]
  rfl

theorem sound_entriesOf (capacity : Nat) (secret : LabelSecret G) (keys : List Bytes) :
    (⟨capacity, entriesOf secret keys⟩ : LabelCache).Sound secret := by
  intro e he
  obtain ⟨key, -, rfl⟩ := List.mem_map.1 he
  rfl

/-- Asking for one more key puts it in front of the recent ones. -/
theorem derive_recent (capacity : Nat) (secret : LabelSecret G) (keys : List Bytes) (key : Bytes) :
    (⟨capacity, entriesOf secret ((recent keys).take capacity)⟩ : LabelCache).derive secret key =
      (secret.derive key, ⟨capacity, entriesOf secret ((recent (keys ++ [key])).take capacity)⟩) := by
  have hsound := sound_entriesOf capacity secret ((recent keys).take capacity)
  have hderive : ∀ c : LabelCache, c.derive secret key =
      ((c.derive secret key).1, c.touch key (c.derive secret key).1) := fun _ => rfl
  rw [hderive, hsound.derive_fst, touch, filter_entriesOf, recent_concat]
  cases capacity with
  | zero => rfl
  | succ n =>
    simp only [entriesOf, List.take_succ_cons, List.map_cons, ← List.map_take,
      take_filter_take (nodup_recent keys)]

theorem deriveAll_empty (capacity : Nat) (secret : LabelSecret G) (keys : List Bytes) :
    (empty capacity).deriveAll secret keys =
      (keys.map secret.derive, ⟨capacity, entriesOf secret ((recent keys).take capacity)⟩) := by
  induction keys using List.reverseRecOn with
  | nil => rw [recent, List.dedup_nil, List.reverse_nil, List.take_nil]; rfl
  | append_singleton keys key ih =>
    rw [deriveAll_concat, ih]
    simp only [derive_recent, List.map_append, List.map_cons, List.map_nil]

/-- The cache is one that a new one becomes when labels are derived through it. -/
def Reached (c : LabelCache) (secret : LabelSecret G) : Prop :=
  ∃ capacity earlier, c = ((empty capacity).deriveAll secret earlier).2

theorem reached_empty (capacity : Nat) (secret : LabelSecret G) : (empty capacity).Reached secret :=
  ⟨capacity, [], rfl⟩

theorem Reached.sound (h : c.Reached secret) : c.Sound secret := by
  obtain ⟨capacity, earlier, rfl⟩ := h
  rw [deriveAll_empty]
  exact sound_entriesOf capacity secret _

theorem Sound.deriveAll (h : c.Sound secret) (keys : List Bytes) :
    (c.deriveAll secret keys).2.Sound secret := by
  induction keys generalizing c with
  | nil => exact h
  | cons key keys ih => exact ih (h.derive_snd key)

/-- A cache that has been asked for any sequence of keys has given the labels that the secret
derives, and holds those of the keys asked last: the key of an entry is one that was asked, with
fewer different keys since then than the capacity. There are as many entries as there are different
keys, up to the capacity. A further key is looked up, and derived and put in if it is not found. -/
theorem deriveAll_holds_recent (capacity : Nat) (secret : LabelSecret G) (keys : List Bytes) :
    let (labels, c) := (empty capacity).deriveAll secret keys
    labels = keys.map secret.derive ∧
      c.entries = ((recent keys).take capacity).map (fun key => (key, secret.derive key)) ∧
      (∀ key, key ∈ c.entries.map (·.1) ↔ ∃ earlier later, keys = earlier ++ key :: later ∧
        key ∉ later ∧ later.toFinset.card < capacity) ∧
      c.size = min capacity keys.toFinset.card ∧
      ∀ key, c.derive secret key =
        match c.get? key with
        | some hit => hit
        | none => (secret.derive key, c.put key (secret.derive key)) := by
  have hsize : (entriesOf secret ((recent keys).take capacity)).length =
      min capacity keys.toFinset.card := by
    rw [entriesOf, List.length_map, List.length_take, length_recent]
  rw [deriveAll_empty]
  refine ⟨rfl, rfl, ?_, hsize, ?_⟩
  · intro key
    have hkeys : (entriesOf secret ((recent keys).take capacity)).map (·.1) =
        (recent keys).take capacity := by
      rw [entriesOf, List.map_map]
      exact List.map_id _
    rw [hkeys]
    exact mem_take_recent_iff
  · intro key
    apply derive_eq
    exact le_of_eq_of_le hsize (Nat.min_le_left ..)

end AuthDict.LabelCache
