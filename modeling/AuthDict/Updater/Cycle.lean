import AuthDict.Metrics
import AuthDict.Pending
import AuthDict.Storage

/-!
# Commit cycles

A cycle drains the queue of a dictionary, applies the batch to the stored trie as one epoch and
saves it, then delivers the append proofs to the hook. If the trie cannot be loaded or saved, the
batch goes back to the head of the queue or is discarded, as the policy says, and the error is
returned.
-/
namespace AuthDict

/-- What a hook was told after a cycle. -/
structure Delivery where
  id : DictionaryId
  root : Digest
  proofs : List AppendProof
deriving DecidableEq, Repr

/-- The receiver of append proofs. -/
structure ApplyHook where
  accepts : Bool := true
  deliveries : List Delivery := []
deriving DecidableEq, Repr

/-- Tells a hook of an applied batch, and returns whether the hook accepts that. -/
def ApplyHook.onApplied (h : ApplyHook) (d : Delivery) : Bool × ApplyHook :=
  (h.accepts, { h with deliveries := h.deliveries ++ [d] })

inductive ApplyOutcome where
  /-- Nothing was pending. -/
  | idle
  | applied (epoch : Epoch) (root : Digest) (updates : Nat)
deriving DecidableEq, Repr

/-- What a cycle works on. -/
structure WriteSide where
  pending : PendingTable
  storage : Storage
  hook : Option ApplyHook
  metrics : Metrics

namespace WriteSide

/-- Applies a batch to the stored trie, or to the empty one if there is none, and saves it. -/
def applyBatch (id : DictionaryId) (batch : List Update) :
    Action Storage (Trie × List AppendProof) := do
  let stored ← Storage.loadTrie id
  let (trie, proofs) := (stored.getD {}).applyBatch batch
  Storage.saveTrie id trie
  return (trie, proofs)

/-- What follows a batch that was applied. -/
def finish (w : WriteSide) (id : DictionaryId) (trie : Trie) (proofs : List AppendProof)
    (updates : Nat) : WriteSide :=
  { w with
    hook := w.hook.map fun hook =>
      match hook.onApplied ⟨id, trie.root, proofs⟩ with
      | (true, hook) => hook
      -- The trie is saved, so the batch counts as applied even if the hook fails.
      | (false, hook) => hook
    metrics := ((w.metrics.add id .appliedUpdates updates).add id .applyDuration 1).set id .epoch
      trie.epoch.toNat }

/-- What follows a batch that could not be applied. -/
def recover (w : WriteSide) (policy : FailurePolicy) (id : DictionaryId) (batch : List Update) :
    WriteSide :=
  let metrics := w.metrics.add id (.applyFailures policy) 1
  match policy with
  | .requeue =>
    let pending := w.pending.requeueFront id batch
    { w with pending, metrics := metrics.set id .pendingUpdates (pending.pendingCount id) }
  | .discard =>
    let metrics := metrics.add id .discardedUpdates batch.length
    { w with metrics := metrics.set id .pendingUpdates (w.pending.pendingCount id) }

def runCycle (policy : FailurePolicy) (id : DictionaryId) : Action WriteSide ApplyOutcome := fun w =>
  let (_, pending) := w.pending.applyLock id
  let (batch, pending) := pending.drain id
  let w := { w with pending }
  if batch.isEmpty then (.ok .idle, w) else
  match applyBatch id batch w.storage with
  | (.ok (trie, proofs), storage) =>
    (.ok (.applied trie.epoch trie.root batch.length),
      finish { w with storage } id trie proofs batch.length)
  | (.error e, storage) => (.error e, recover { w with storage } policy id batch)

/-- Queues updates for the next cycle. No updates leave no trace. -/
def enqueue (w : WriteSide) (id : DictionaryId) (updates : List Update) : WriteSide :=
  if updates.isEmpty then w else
  let pending := w.pending.enqueue id updates
  { w with pending, metrics := w.metrics.set id .pendingUpdates (pending.pendingCount id) }

end WriteSide

end AuthDict
