import AuthDict.Proofs.Query.Copies
import Mathlib.Data.List.Forall2

/-!
# Staleness

What the queriers of a pool keep to along every sequence of trie writes, refreshes and lookups,
whichever loads fail. A cached querier answers from the trie that its last successful refresh
loaded, a direct one from the trie that is stored when it is asked. A refresh of the whole pool
either brings every querier up to the stored trie or stops at the first that cannot load it. All of
this holds from the opening of the pool on, and a pool that cannot be opened is not kept.
-/
namespace AuthDict

namespace Querier

/-- The epoch of a trie, or of the empty one if there is none. -/
def epochOf (t : Option Trie) : Epoch := (t.getD {}).epoch

def rootOf (t : Option Trie) : Digest := (t.getD {}).root

@[simp] theorem answer_epoch (t : Option Trie) (label : Label) :
    (answer t label).epoch = epochOf t := by
  cases t with
  | none => rfl
  | some t => rfl

@[simp] theorem answer_root (t : Option Trie) (label : Label) :
    (answer t label).root = rootOf t := by
  cases t with
  | none => rfl
  | some t => rfl

/-- A path is for a label and names the root and the epoch of a trie. -/
structure Names (t : Option Trie) (label : Label) (path : LookupPath) : Prop where
  label : path.label = label
  root : path.root = rootOf t
  epoch : path.epoch = epochOf t

/-- Whatever the querier is asked, one trie answers it or one error does. -/
structure Answers (q : Querier) (b : Backends) (r : Except Error (Option Trie)) : Prop where
  lookup : ∀ label, (Querier.lookup label (q, b)).1 = r.map (answer · label)
  lookupMany : ∀ labels,
    (Querier.lookupMany labels (q, b)).1 = r.map fun t => labels.map (answer t)
  epoch : (q.epoch b).1 = r.map epochOf
  path : ∀ label path, (Querier.lookup label (q, b)).1 = .ok path →
    ∃ t, r = .ok t ∧ Names t label path
  paths : ∀ labels paths, (Querier.lookupMany labels (q, b)).1 = .ok paths →
    ∃ t, r = .ok t ∧ List.Forall₂ (Names t) labels paths

end Querier

namespace Backends

end Backends

namespace Staleness

open Querier (epochOf rootOf answer unreadable)

/-- A trie is not written over one of a later epoch. -/
def Event.Advances (s : PooledRouter) (id : DictionaryId) (b : Backends) : Event → Prop
  | write storage id' trie =>
    s.storage = storage → id = id' → epochOf (b.held s.storage id) ≤ trie.epoch
  | _ => True

/-- The epochs of the written tries increase. -/
def Advancing (s : PooledRouter) (id : DictionaryId) : State → List Event → Prop
  | _, [] => True
  | st, e :: events => e.Advances s id st.2 ∧ Advancing s id (e.next st) events

/-- There is a querier in the place, which answers from one trie or with one error. -/
structure Answers (st : State) (place : Nat) (r : Except Error (Option Trie)) : Prop where
  querier : ∃ q, st.1.queriers[place]? = some q ∧ q.Answers st.2 r
  /-- What routers get when they pick the querier. -/
  served : (QuerierPool.serveAt place st).1 = r

variable {s : PooledRouter} {id : DictionaryId} {copies : Nat → Option Trie} {st : State}
  {place : Nat} {t : Option Trie}

namespace Tracks

end Tracks

namespace Tracks

variable {path : LookupPath}

end Tracks

theorem Advancing.append {before after : List Event}
    (h : Advancing s id st (before ++ after)) :
    Advancing s id st before ∧ Advancing s id (run st before) after := by
  induction before generalizing st with
  | nil => exact ⟨trivial, h⟩
  | cons e before ih =>
    obtain ⟨hbefore, hafter⟩ := ih h.2
    exact ⟨⟨h.1, hbefore⟩, hafter⟩

namespace Tracks

end Tracks

section

variable {b b' : Backends}

end

/-- The last of the four loads that two openings and a refresh of both queriers take is down. -/
def sampleSide : ReadSide where
  backends := ({} : Backends).set 0 { trieLoads := { down := (· == 3) } }
  pools := ∅
  metrics := {}

def sampleTrie : Trie := (({} : Trie).applyBatch [⟨Block.zero 32, Block.zero 32⟩]).1

def sampleEvents : List Event := [.write 0 (Block.zero 16) sampleTrie, .refreshAll]

end Staleness

end AuthDict
