import AuthDict.Proofs.Dictionary.Writes
import AuthDict.Proofs.Trie.Rehash
import Mathlib.Algebra.BigOperators.Finprod
import Mathlib.Algebra.Order.Group.Multiset
import Mathlib.Tactic.Abel

/-!
# The journal of pending updates

An update that has been enqueued leaves its queue in one of four ways: a cycle applies it, a failed
cycle discards it, the queue is removed and its updates are returned, or they are dropped. A cycle
that puts its batch back moves nothing. A `Journal` lists these movements, and `Balances` says that
it accounts for the difference between two states of the queues. Journals are appended, so what is
shown of one operation carries over to all sequences of operations.
-/
namespace AuthDict

/-- What has become of updates. -/
inductive Account where
  | enqueued
  | applied
  /-- With the batch of a cycle that failed. -/
  | discarded
  /-- To whoever removed the queue. -/
  | returned
  | dropped
deriving DecidableEq

/-- Updates of one dictionary that were enqueued, or left the queue in one way. -/
structure Posting where
  account : Account
  id : DictionaryId
  updates : List Update

abbrev Journal := List Posting

namespace Journal

def updates (J : Journal) (a : Account) (id : DictionaryId) : List Update :=
  J.flatMap fun p => if p.account = a ∧ p.id = id then p.updates else []

/-- The batches of a dictionary that were applied, in order. -/
def batches (J : Journal) (id : DictionaryId) : List (List Update) :=
  J.filterMap fun p => if p.account = .applied ∧ p.id = id then some p.updates else none

/-- The updates of a dictionary that have left its queue. -/
def spent (J : Journal) (id : DictionaryId) : Multiset Update :=
  (J.updates .applied id : Multiset Update) + J.updates .discarded id + J.updates .returned id +
    J.updates .dropped id

/-- The number of updates of all dictionaries. -/
def total (J : Journal) (a : Account) : Nat :=
  (J.map fun p => if p.account = a then p.updates.length else 0).sum

def totalSpent (J : Journal) : Nat :=
  J.total .applied + J.total .discarded + J.total .returned + J.total .dropped

/-- What was queued and has been enqueued is what was spent and is queued now. -/
def Balances (J : Journal) (q q' : DictionaryId → List Update) : Prop :=
  ∀ id, (q id : Multiset Update) + J.updates .enqueued id = J.spent id + q' id

variable {J K : Journal} {q q' q'' : DictionaryId → List Update} {id : DictionaryId}
  {us : List Update}

@[simp] theorem updates_append (J K : Journal) (a : Account) (id : DictionaryId) :
    updates (J ++ K) a id = J.updates a id ++ K.updates a id := List.flatMap_append ..

@[simp] theorem batches_append (J K : Journal) (id : DictionaryId) :
    batches (J ++ K) id = J.batches id ++ K.batches id := List.filterMap_append ..

@[simp] theorem total_append (J K : Journal) (a : Account) :
    total (J ++ K) a = J.total a + K.total a := by
  simp [total]

theorem spent_append (J K : Journal) (id : DictionaryId) :
    spent (J ++ K) id = J.spent id + K.spent id := by
  simp only [spent, updates_append, ← Multiset.coe_add]
  abel

@[simp] theorem updates_single (p : Posting) (a : Account) (id : DictionaryId) :
    updates [p] a id = if p.account = a ∧ p.id = id then p.updates else [] :=
  List.flatMap_singleton ..

/-- Journals are balanced piece by piece. -/
theorem Balances.append (hJ : J.Balances q q') (hK : K.Balances q' q'') :
    Balances (J ++ K) q q'' := by
  intro id
  calc (q id : Multiset Update) + updates (J ++ K) .enqueued id
      = q id + J.updates .enqueued id + K.updates .enqueued id := by
        rw [updates_append, ← Multiset.coe_add, add_assoc]
    _ = J.spent id + (q' id + K.updates .enqueued id) := by rw [hJ id, add_assoc]
    _ = spent (J ++ K) id + q'' id := by rw [hK id, spent_append, add_assoc]

theorem Balances.nil (h : ∀ id, q' id = q id) : Balances [] q q' := by
  intro id
  simp [updates, spent, h id]

theorem Balances.enqueued (h : q' id = q id ++ us) (hother : ∀ id', id' ≠ id → q' id' = q id') :
    Balances [⟨.enqueued, id, us⟩] q q' := by
  intro id'
  by_cases hid : id = id'
  · subst hid
    simp [spent, h]
  · simp [spent, hid, hother id' (Ne.symm hid)]

/-- A queue that leaves as a whole, in one of the four ways. -/
theorem Balances.emptied {a : Account} (ha : a ≠ .enqueued) (h : q' id = [])
    (hother : ∀ id', id' ≠ id → q' id' = q id') : Balances [⟨a, id, q id⟩] q q' := by
  intro id'
  by_cases hid : id = id'
  · subst hid
    cases a <;> simp_all [spent]
  · simp [spent, hid, hother id' (Ne.symm hid)]

/-- The applied updates are those of the applied batches. -/
theorem flatten_batches (J : Journal) (id : DictionaryId) :
    (J.batches id).flatten = J.updates .applied id := by
  induction J with
  | nil => rfl
  | cons p J ih =>
    have hsplit : updates (p :: J) .applied id =
        (if p.account = .applied ∧ p.id = id then p.updates else []) ++ updates J .applied id := rfl
    rw [hsplit, ← ih, batches, List.filterMap_cons]
    by_cases hp : p.account = .applied ∧ p.id = id
    · rw [if_pos hp, if_pos hp]
      rfl
    · rw [if_neg hp, if_neg hp]
      rfl

theorem total_eq_zero {a : Account} (h : ∀ p ∈ J, p.account ≠ a) : J.total a = 0 := by
  rw [total, List.sum_eq_zero_iff_forall_eq_nat]
  simp only [List.mem_map]
  rintro n ⟨p, hp, rfl⟩
  exact if_neg (h p hp)

/-- A total is the sum over dictionaries, if there is no posting of any other. -/
theorem total_eq_sum {ids : Finset DictionaryId} (h : ∀ p ∈ J, p.id ∈ ids) (a : Account) :
    J.total a = ∑ id ∈ ids, (J.updates a id).length := by
  induction J with
  | nil => simp [total, updates]
  | cons p J ih =>
    obtain ⟨hp, hJ⟩ := List.forall_mem_cons.1 h
    have hsplit (id : DictionaryId) : (updates (p :: J) a id).length =
        (if p.id = id then if p.account = a then p.updates.length else 0 else 0) +
          (updates J a id).length := by
      rw [updates, List.flatMap_cons, List.length_append]
      congr 1
      by_cases hid : p.id = id <;> by_cases ha : p.account = a <;> simp [hid, ha]
    have hhead : total (p :: J) a = (if p.account = a then p.updates.length else 0) + total J a :=
      List.sum_cons
    rw [hhead, ih hJ, Finset.sum_congr rfl fun id _ => hsplit id, Finset.sum_add_distrib,
      Finset.sum_ite_eq, if_pos hp]

/-- The totals of a balanced journal, over dictionaries that it has all its postings of. -/
theorem Balances.totals (h : J.Balances q q') {ids : Finset DictionaryId}
    (hJ : ∀ p ∈ J, p.id ∈ ids) :
    ∑ id ∈ ids, (q id).length + J.total .enqueued =
      J.totalSpent + ∑ id ∈ ids, (q' id).length := by
  have hcard (id : DictionaryId) : (q id).length + (J.updates .enqueued id).length =
      (J.updates .applied id).length + (J.updates .discarded id).length +
        (J.updates .returned id).length + (J.updates .dropped id).length + (q' id).length := by
    have hcard := congrArg Multiset.card (h id)
    simpa only [spent, Multiset.card_add, Multiset.coe_card] using hcard
  simp only [totalSpent, total_eq_sum hJ, ← Finset.sum_add_distrib]
  exact Finset.sum_congr rfl fun id _ => hcard id

end Journal

namespace PendingTable

variable (t : PendingTable)

theorem queue_enqueue_of_ne {id id' : DictionaryId} (us : List Update) (h : id' ≠ id) :
    (t.enqueue id us).queue id' = t.queue id' := queue_setQueue_of_ne t _ h

theorem queue_of_mem {e : DictionaryId × List Update} (h : e ∈ t.queues.entries) :
    t.queue e.1 = e.2 := by
  rw [queue, OrderedMap.get?_eq_some_iff.2 h]
  rfl

theorem mem_keys_of_queue {id : DictionaryId} (h : t.queue id ≠ []) : id ∈ t.queues.keys := by
  rw [OrderedMap.mem_keys]
  cases hget : t.queues.get? id with
  | none => exact absurd (by rw [queue, hget]; rfl) h
  | some us => exact ⟨us, rfl⟩

/-- Clearing counts what is queued, over all dictionaries that have something queued. -/
theorem clear_eq_sum {ids : Finset DictionaryId} (h : ∀ id, t.queue id ≠ [] → id ∈ ids) :
    t.clear.1 = ∑ id ∈ ids, t.pendingCount id := by
  have hkeys : t.queues.keys.Nodup := t.queues.nodup_keys
  have hzero (id : DictionaryId) (hid : id ∉ ids) : t.pendingCount id = 0 := by
    rw [pendingCount, not_imp_comm.1 (h id) hid, List.length_nil]
  have hlengths : t.queues.values.map List.length = t.queues.keys.map t.pendingCount := by
    rw [OrderedMap.values, OrderedMap.keys, List.map_map, List.map_map]
    refine List.map_congr_left fun e he => ?_
    exact congrArg List.length (t.queue_of_mem he).symm
  calc t.clear.1 = (t.queues.keys.map t.pendingCount).sum := by
        rw [← hlengths]
        exact List.length_flatten
    _ = ∑ id ∈ t.queues.keys.toFinset, t.pendingCount id := (List.sum_toFinset _ hkeys).symm
    _ = ∑ id ∈ t.queues.keys.toFinset ∪ ids, t.pendingCount id := by
        refine Finset.sum_subset Finset.subset_union_left fun id _ hid => ?_
        by_contra hne
        refine hid (List.mem_toFinset.2 (t.mem_keys_of_queue fun hempty => hne ?_))
        rw [pendingCount, hempty, List.length_nil]
    _ = ∑ id ∈ ids, t.pendingCount id :=
        (Finset.sum_subset Finset.subset_union_right fun id _ => hzero id).symm

theorem finite_support_pendingCount : (Function.support t.pendingCount).Finite := by
  refine t.queues.keys.toFinset.finite_toSet.subset fun id hid => ?_
  refine List.mem_toFinset.2 (t.mem_keys_of_queue fun hempty => hid ?_)
  rw [pendingCount, hempty, List.length_nil]

theorem clear_eq_finsum : t.clear.1 = ∑ᶠ id, t.pendingCount id := by
  rw [finsum_eq_sum _ t.finite_support_pendingCount]
  refine t.clear_eq_sum fun id hid => ?_
  rw [Set.Finite.mem_toFinset, Function.mem_support, pendingCount]
  exact fun hzero => hid (List.eq_nil_of_length_eq_zero hzero)

/-- What clearing drops. -/
def dropped : Journal := t.queues.entries.map fun e => ⟨.dropped, e.1, e.2⟩

theorem flatMap_entries (id : DictionaryId) :
    (t.queues.entries.flatMap fun e => if e.1 = id then e.2 else []) = t.queue id := by
  cases hget : t.queues.get? id with
  | none =>
    rw [queue, hget]
    refine List.flatMap_eq_nil_iff.2 fun e he => if_neg ?_
    rintro rfl
    exact OrderedMap.get?_eq_none_iff.1 hget e.2 he
  | some us =>
    obtain ⟨before, after, hsplit⟩ := List.append_of_mem (OrderedMap.get?_eq_some_iff.1 hget)
    have hnodup := t.queues.nodup_keys
    rw [hsplit, List.map_append, List.map_cons, List.nodup_middle, List.nodup_cons,
      List.mem_append, not_or] at hnodup
    have hnone {es : List (DictionaryId × List Update)} (h : id ∉ es.map (·.1)) :
        (es.flatMap fun e => if e.1 = id then e.2 else []) = [] :=
      List.flatMap_eq_nil_iff.2 fun e he => if_neg fun hid => h (List.mem_map.2 ⟨e, he, hid⟩)
    rw [queue, hget, hsplit, List.flatMap_append, List.flatMap_cons, hnone hnodup.1.1,
      hnone hnodup.1.2, if_pos rfl]
    simp

theorem updates_dropped (a : Account) (id : DictionaryId) :
    t.dropped.updates a id = if a = .dropped then t.queue id else [] := by
  rw [Journal.updates, dropped, List.flatMap_map]
  split
  · next ha => simpa [ha] using t.flatMap_entries id
  · next ha => simp [Ne.symm ha]

theorem balances_clear : t.dropped.Balances t.queue t.clear.2.queue := by
  intro id
  simp [Journal.spent, updates_dropped]

end PendingTable

/-- What a cycle does with its batch, by what it reports. -/
def Journal.ofCycle (policy : FailurePolicy) (id : DictionaryId) (batch : List Update) :
    Except Error ApplyOutcome → Journal
  | .ok .idle => []
  | .ok (.applied ..) => [⟨.applied, id, batch⟩]
  | .error _ =>
    match policy with
    | .requeue => []
    | .discard => [⟨.discarded, id, batch⟩]

namespace WriteSide

variable {policy : FailurePolicy} {id : DictionaryId} {w w' : WriteSide}
  {r : Except Error ApplyOutcome}

/-- The trie that is stored for a dictionary, or the empty one. -/
def stored (w : WriteSide) (id : DictionaryId) : Trie := (w.storage.tries.get? id).getD {}

/-- A cycle applies or discards the whole queue, or moves nothing. -/
theorem balances_runCycle (h : runCycle policy id w = (r, w')) :
    (Journal.ofCycle policy id (w.pending.queue id) r).Balances w.pending.queue
      w'.pending.queue := by
  have hother (id' : DictionaryId) (hne : id' ≠ id) :
      w'.pending.queue id' = w.pending.queue id' := runCycle_queue_of_ne hne h
  have hsame (hq : w'.pending.queue id = w.pending.queue id) (id' : DictionaryId) :
      w'.pending.queue id' = w.pending.queue id' := by
    by_cases hid : id' = id
    · rw [hid, hq]
    · exact hother id' hid
  rcases runCycle_cases h with ⟨hempty, rfl, -, hq⟩ | ⟨-, e, rfl, -, hq⟩ | ⟨-, t, -, rfl, -, -, hq⟩
  · exact .nil (hsame (hq.trans hempty.symm))
  · cases policy with
    | requeue => exact .nil (hsame hq)
    | discard => exact .emptied (by decide) hq hother
  · exact .emptied (by decide) hq hother

/-- A cycle applies its batch to the stored trie if it reports so, and stores nothing otherwise. -/
theorem stored_runCycle (h : runCycle policy id w = (r, w')) (id' : DictionaryId) :
    w'.stored id' = (w.stored id').applyBatches
      ((Journal.ofCycle policy id (w.pending.queue id) r).batches id') := by
  by_cases hid : id = id'
  · subst hid
    rcases runCycle_cases h with ⟨-, rfl, hs, -⟩ | ⟨-, e, rfl, hs, -⟩ | ⟨-, t, rfl, rfl, -, ht, -⟩
    · rw [stored, hs]
      rfl
    · rw [stored, hs.tries]
      cases policy <;> rfl
    · rw [stored, ht, OrderedMap.get?_insert_self]
      simp [Journal.ofCycle, Journal.batches, Trie.applyBatches, stored]
  · have hnone : (Journal.ofCycle policy id (w.pending.queue id) r).batches id' = [] := by
      rcases r with e | _ | _ <;> cases policy <;> simp [Journal.ofCycle, Journal.batches, hid]
    rw [hnone, stored, ((runCycle_frame h).2 id' (Ne.symm hid)).1]
    rfl

/-- A cycle applies no empty batch. -/
theorem nonempty_ofCycle (h : runCycle policy id w = (r, w')) (id' : DictionaryId) :
    ∀ batch ∈ (Journal.ofCycle policy id (w.pending.queue id) r).batches id', batch ≠ [] := by
  intro batch hbatch
  rcases runCycle_cases h with ⟨-, rfl, -⟩ | ⟨-, e, rfl, -⟩ | ⟨hne, t, -, rfl, -⟩
  · simp [Journal.ofCycle, Journal.batches] at hbatch
  · cases policy <;> simp [Journal.ofCycle, Journal.batches] at hbatch
  · obtain ⟨-, rfl⟩ : id = id' ∧ w.pending.queue id = batch := by
      simpa [Journal.ofCycle, Journal.batches] using hbatch
    exact hne

inductive Operation where
  | enqueue (id : DictionaryId) (updates : List Update)
  | cycle (policy : FailurePolicy) (id : DictionaryId)
  | remove (id : DictionaryId)
  | clear

namespace Operation

def run : Operation → WriteSide → WriteSide
  | enqueue id updates, w => { w with pending := w.pending.enqueue id updates }
  | cycle policy id, w => (runCycle policy id w).2
  | remove id, w => { w with pending := (w.pending.remove id).2 }
  | clear, w => { w with pending := w.pending.clear.2 }

/-- What the operation moves. -/
def journal : Operation → WriteSide → Journal
  | enqueue id updates, _ => [⟨.enqueued, id, updates⟩]
  | cycle policy id, w => .ofCycle policy id (w.pending.queue id) (runCycle policy id w).1
  | remove id, w => [⟨.returned, id, (w.pending.remove id).1⟩]
  | clear, w => w.pending.dropped

theorem balances (op : Operation) (w : WriteSide) :
    (op.journal w).Balances w.pending.queue (op.run w).pending.queue := by
  cases op with
  | enqueue id updates =>
    exact .enqueued (w.pending.queue_enqueue id updates)
      fun id' hne => w.pending.queue_enqueue_of_ne updates hne
  | cycle policy id => exact balances_runCycle rfl
  | remove id =>
    exact .emptied (by decide) (w.pending.queue_remove id)
      fun id' hne => w.pending.queue_remove_of_ne hne
  | clear => exact w.pending.balances_clear

theorem stored_run (op : Operation) (w : WriteSide) (id : DictionaryId) :
    (op.run w).stored id = (w.stored id).applyBatches ((op.journal w).batches id) := by
  cases op with
  | enqueue id' updates => rfl
  | cycle policy id' => exact stored_runCycle rfl id
  | remove id' => rfl
  | clear =>
    have hnone : (Journal.batches w.pending.dropped id) = [] := by
      simp [Journal.batches, PendingTable.dropped]
    rw [journal, hnone]
    rfl

theorem nonempty_journal (op : Operation) (w : WriteSide) (id : DictionaryId) :
    ∀ batch ∈ (op.journal w).batches id, batch ≠ [] := by
  cases op with
  | enqueue id' updates => simp [journal, Journal.batches]
  | cycle policy id' => exact nonempty_ofCycle rfl id
  | remove id' => simp [journal, Journal.batches]
  | clear => simp [journal, Journal.batches, PendingTable.dropped]

end Operation

def runAll (ops : List Operation) (w : WriteSide) : WriteSide := ops.foldl (fun w op => op.run w) w

/-- What the operations move, in order. -/
def journal : List Operation → WriteSide → Journal
  | [], _ => []
  | op :: ops, w => op.journal w ++ journal ops (op.run w)

theorem balances_journal (ops : List Operation) (w : WriteSide) :
    (journal ops w).Balances w.pending.queue (runAll ops w).pending.queue := by
  induction ops generalizing w with
  | nil => exact .nil fun _ => rfl
  | cons op ops ih => exact (op.balances w).append (ih (op.run w))

/-- The stored trie is the first one with the applied batches. -/
theorem stored_runAll (ops : List Operation) (w : WriteSide) (id : DictionaryId) :
    (runAll ops w).stored id = (w.stored id).applyBatches ((journal ops w).batches id) := by
  induction ops generalizing w with
  | nil => rfl
  | cons op ops ih =>
    have hrest := ih (op.run w)
    rw [op.stored_run w id] at hrest
    rw [journal, Journal.batches_append, Trie.applyBatches, List.foldl_append]
    exact hrest

theorem nonempty_batches_journal (ops : List Operation) (w : WriteSide) (id : DictionaryId) :
    ∀ batch ∈ (journal ops w).batches id, batch ≠ [] := by
  induction ops generalizing w with
  | nil => simp [journal, Journal.batches]
  | cons op ops ih =>
    rw [journal, Journal.batches_append]
    exact List.forall_mem_append.2 ⟨op.nonempty_journal w id, ih (op.run w)⟩

/-- Each applied batch has made the stored trie one epoch older. -/
theorem epoch_stored_runAll (ops : List Operation) (w : WriteSide) (id : DictionaryId) :
    ((runAll ops w).stored id).epoch =
      (w.stored id).epoch + UInt64.ofNat ((journal ops w).batches id).length := by
  rw [stored_runAll, Trie.epoch_applyBatches _ (nonempty_batches_journal ops w id)]

/-- The applied updates have been written one after the other. -/
theorem leaves_stored_runAll (ops : List Operation) (w : WriteSide) (id : DictionaryId) :
    ((runAll ops w).stored id).leaves = ((journal ops w).updates .applied id).foldl
      (fun leaves u => leaves.insert u.label u.commitment) (w.stored id).leaves := by
  rw [stored_runAll, Trie.leaves_applyBatches, Journal.flatten_batches]

end WriteSide

end AuthDict
