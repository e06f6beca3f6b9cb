import Std.Data.ExtTreeMap
import Std.Data.ExtTreeMap.Lemmas

/-!
# Ordered maps

A finite map whose entries stand in strictly increasing key order (`OrderedMap.sorted`). Two maps
with the same lookups are equal (`OrderedMap.ext_get?`), so the order in which entries were
inserted leaves no trace. Lookups and changes walk one path of a balanced tree.
-/
namespace AuthDict

variable {α β : Type} [Ord α]

structure OrderedMap (α β : Type) [Ord α] where
  tree : Std.ExtTreeMap α β compare

namespace OrderedMap

def empty : OrderedMap α β := ⟨∅⟩

instance : Inhabited (OrderedMap α β) := ⟨empty⟩

instance : EmptyCollection (OrderedMap α β) := ⟨empty⟩

variable [Std.TransOrd α]

def insert (m : OrderedMap α β) (k : α) (v : β) : OrderedMap α β := ⟨m.tree.insert k v⟩

def get? (m : OrderedMap α β) (k : α) : Option β := m.tree[k]?

def contains (m : OrderedMap α β) (k : α) : Bool := (m.get? k).isSome

def erase (m : OrderedMap α β) (k : α) : OrderedMap α β := ⟨m.tree.erase k⟩

/-- The entries in increasing key order. -/
def entries (m : OrderedMap α β) : List (α × β) := m.tree.toList

def size (m : OrderedMap α β) : Nat := m.tree.size

def isEmpty (m : OrderedMap α β) : Bool := m.tree.isEmpty

def keys (m : OrderedMap α β) : List α := m.entries.map (·.1)

def values (m : OrderedMap α β) : List β := m.entries.map (·.2)

/-- The map of a list of entries, in which the last entry of a key counts. -/
def ofList (es : List (α × β)) : OrderedMap α β :=
  es.foldl (fun m e => m.insert e.1 e.2) empty

/-- Of an entry and those behind it, the first `n` whose keys are not above `hi`. -/
def takeUpTo (m : OrderedMap α β) (hi : α) : Nat → Option (α × β) → List (α × β)
  | 0, _ => []
  | _, none => []
  | n + 1, some e =>
    if compare e.1 hi = .gt then [] else e :: m.takeUpTo hi n (m.tree.getEntryGT? e.1)

/-- The first `n` entries whose keys lie between `lo` and `hi`, both included. -/
def firstWithin (m : OrderedMap α β) (n : Nat) (lo hi : α) : List (α × β) :=
  m.takeUpTo hi n (m.tree.getEntryGE? lo)

@[simp] theorem get?_empty (k : α) : (empty : OrderedMap α β).get? k = none :=
  Std.ExtTreeMap.getElem?_empty

@[simp] theorem get?_emptyCollection (k : α) : (∅ : OrderedMap α β).get? k = none := get?_empty k

/-- The entries stand in strictly increasing key order. -/
theorem sorted (m : OrderedMap α β) : m.entries.Pairwise fun a b => compare a.1 b.1 = .lt :=
  Std.ExtTreeMap.ordered_keys_toList

@[simp] theorem length_entries (m : OrderedMap α β) : m.entries.length = m.size :=
  Std.ExtTreeMap.length_toList

@[simp] theorem get?_insert_self (m : OrderedMap α β) (k : α) (v : β) :
    (m.insert k v).get? k = some v :=
  Std.ExtTreeMap.getElem?_insert_self

@[simp] theorem get?_erase_self (m : OrderedMap α β) (k : α) : (m.erase k).get? k = none :=
  Std.ExtTreeMap.getElem?_erase_self

section
variable [Std.LawfulEqOrd α]

instance [DecidableEq β] : DecidableEq (OrderedMap α β) := fun a b =>
  if h : a.tree = b.tree then isTrue (by cases a; cases b; cases h; rfl)
  else isFalse fun e => h (e ▸ rfl)

theorem get?_insert_of_ne (m : OrderedMap α β) {k k' : α} (v : β) (h : k' ≠ k) :
    (m.insert k v).get? k' = m.get? k' := by
  have hne : compare k k' ≠ .eq := fun he => h (Std.LawfulEqOrd.eq_of_compare he).symm
  simp [get?, insert, Std.ExtTreeMap.getElem?_insert, hne]

theorem get?_erase_of_ne (m : OrderedMap α β) {k k' : α} (h : k' ≠ k) :
    (m.erase k).get? k' = m.get? k' := by
  have hne : compare k k' ≠ .eq := fun he => h (Std.LawfulEqOrd.eq_of_compare he).symm
  simp [get?, erase, Std.ExtTreeMap.getElem?_erase, hne]

theorem get?_eq_some_iff {m : OrderedMap α β} {k : α} {v : β} :
    m.get? k = some v ↔ (k, v) ∈ m.entries :=
  Std.ExtTreeMap.mem_toList_iff_getElem?_eq_some.symm

theorem get?_eq_none_iff {m : OrderedMap α β} {k : α} :
    m.get? k = none ↔ ∀ v, (k, v) ∉ m.entries := by
  simp only [← get?_eq_some_iff, Option.eq_none_iff_forall_ne_some]

theorem ext_get? {m n : OrderedMap α β} (h : ∀ k, m.get? k = n.get? k) : m = n := by
  have ht : m.tree = n.tree := Std.ExtTreeMap.ext_getElem? h
  cases m; cases n; cases ht; rfl

end

open Std.DTreeMap.Internal in
theorem getEntryGE?_eq_find? (t : Std.ExtTreeMap α β compare) (k : α) :
    t.getEntryGE? k = t.toList.find? fun e => (compare e.1 k).isGE := by
  obtain ⟨⟨q⟩⟩ := t
  induction q using Quotient.inductionOn with
  | h t =>
    change Impl.Const.getEntryGE? k t.inner = (Impl.Const.toList t.inner).find? _
    rw [Impl.Const.getEntryGE?_eq_map, Impl.getEntryGE?_eq_find? t.wf.ordered,
      Impl.Const.toList_eq_toListModel_map, List.find?_map]
    rfl

open Std.DTreeMap.Internal in
theorem getEntryGT?_eq_find? (t : Std.ExtTreeMap α β compare) (k : α) :
    t.getEntryGT? k = t.toList.find? fun e => (compare e.1 k).isGT := by
  obtain ⟨⟨q⟩⟩ := t
  induction q using Quotient.inductionOn with
  | h t =>
    change Impl.Const.getEntryGT? k t.inner = (Impl.Const.toList t.inner).find? _
    rw [Impl.Const.getEntryGT?_eq_map, Impl.getEntryGT?_eq_find? t.wf.ordered,
      Impl.Const.toList_eq_toListModel_map, List.find?_map]
    rfl

/-- From an entry on, the map is read in order up to the bound. -/
theorem takeUpTo_head? (m : OrderedMap α β) (hi : α) (n : Nat) {before rest : List (α × β)}
    (h : m.entries = before ++ rest) :
    m.takeUpTo hi n rest.head? = (rest.takeWhile fun e => compare e.1 hi != .gt).take n := by
  induction n generalizing before rest with
  | zero => simp [takeUpTo]
  | succ n ih =>
    cases rest with
    | nil => simp [takeUpTo]
    | cons e rest =>
      have hsorted := h ▸ m.sorted
      obtain ⟨-, he, hbefore⟩ := List.pairwise_append.1 hsorted
      have hrest := (List.pairwise_cons.1 he).1
      have hnext : m.tree.getEntryGT? e.1 = rest.head? := by
        have hnone : (before ++ [e]).find? (fun x => (compare x.1 e.1).isGT) = none := by
          simp only [List.find?_eq_none, List.mem_append, List.mem_singleton]
          rintro x (hx | rfl)
          · simp [hbefore x hx e List.mem_cons_self]
          · simp [Std.ReflCmp.compare_self]
        have hsplit : m.tree.toList = (before ++ [e]) ++ rest := by
          simpa [entries] using h
        rw [getEntryGT?_eq_find?, hsplit, List.find?_append, hnone, Option.none_or]
        cases rest with
        | nil => rfl
        | cons x rest =>
          have hx := Std.OrientedCmp.gt_of_lt (hrest x List.mem_cons_self)
          simp [hx]
      rw [List.head?_cons, takeUpTo, hnext, ih (by simpa using h : m.entries = (before ++ [e]) ++ rest)]
      by_cases hc : compare e.1 hi = .gt
      · simp [hc]
      · simp [hc]

theorem head?_dropWhile {γ : Type} (p : γ → Bool) (xs : List γ) :
    (xs.dropWhile p).head? = xs.find? fun x => !p x := by
  induction xs with
  | nil => rfl
  | cons x xs ih => cases h : p x <;> simp [h, ih]

/-- A range is read in order from its first entry on. -/
theorem firstWithin_eq (m : OrderedMap α β) (n : Nat) (lo hi : α) :
    m.firstWithin n lo hi =
      ((m.entries.dropWhile fun e => compare e.1 lo == .lt).takeWhile fun e =>
        compare e.1 hi != .gt).take n := by
  have hstart : m.tree.getEntryGE? lo =
      (m.entries.dropWhile fun e => compare e.1 lo == .lt).head? := by
    rw [getEntryGE?_eq_find?, head?_dropWhile]
    congr 1
    funext e
    cases compare e.1 lo <;> rfl
  rw [firstWithin, hstart]
  exact m.takeUpTo_head? hi n (List.takeWhile_append_dropWhile).symm

end OrderedMap

end AuthDict
