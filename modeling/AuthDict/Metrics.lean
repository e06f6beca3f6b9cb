import AuthDict.Config.Basic
import AuthDict.Element

/-!
# Metrics

What a process reports of its dictionaries: counters, gauges and the number of records of a
histogram, each for one dictionary. Only identifiers and outcomes appear, never keys or payloads.
-/
namespace AuthDict

inductive Metric where
  | appliedUpdates
  | applyDuration
  | applyFailures (policy : FailurePolicy)
  | discardedUpdates
  | epoch
  | pendingUpdates
  | querierRefreshes
  | querierSelections
deriving DecidableEq, Repr

namespace Metric

def name : Metric → String
  | appliedUpdates => "verikv_applied_updates_total"
  | applyDuration => "verikv_apply_duration_seconds"
  | applyFailures _ => "verikv_apply_failures_total"
  | discardedUpdates => "verikv_discarded_updates_total"
  | epoch => "verikv_epoch"
  | pendingUpdates => "verikv_pending_updates"
  | querierRefreshes => "verikv_querier_refreshes_total"
  | querierSelections => "verikv_querier_selections_total"

/-- The policy that a metric is reported for, besides its name. -/
def policy? : Metric → Option FailurePolicy
  | applyFailures policy => some policy
  | _ => none

def all : List Metric :=
  [appliedUpdates, applyDuration, applyFailures .requeue, applyFailures .discard, discardedUpdates,
   epoch, pendingUpdates, querierRefreshes, querierSelections]

end Metric

/-- The reported value of each metric of each dictionary; none for one that was never touched. -/
structure Metrics where
  value : DictionaryId → Metric → Option Nat := fun _ _ => none

namespace Metrics

instance : Inhabited Metrics := ⟨{}⟩

def set (m : Metrics) (id : DictionaryId) (metric : Metric) (n : Nat) : Metrics :=
  { value := fun i k => if i = id ∧ k = metric then some n else m.value i k }

def add (m : Metrics) (id : DictionaryId) (metric : Metric) (n : Nat) : Metrics :=
  m.set id metric ((m.value id metric).getD 0 + n)

end Metrics

end AuthDict
