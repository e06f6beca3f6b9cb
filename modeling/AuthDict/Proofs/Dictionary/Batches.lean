import AuthDict.Proofs.Dictionary.Balance
import AuthDict.Proofs.Dictionary.Workers

/-!
# Insertion of batches

A batch is inserted by workers that take their steps in any order; `insertBatch`, which writes shard
after shard, is one of the orders. Whatever the order, the entries written had keys of their own
that were free, and exactly their updates are queued, in the order of the entries.
-/
namespace AuthDict.Dictionary

open Shards
open Holdings (Stored)

variable {d : Dictionary} {policy : FailurePolicy} {s s' : Service}

/-- The shards that a batch is written in. -/
def shards (d : Dictionary) (entries : List Entry) : List (List Entry) :=
  if entries.isEmpty then [] else split entries d.config.threadCount.toNat

def batchResult (outcome : Outcome) : Except Error Nat :=
  match outcome.error with
  | some e => .error e
  | none => .ok outcome.updates.length

/-- A batch insertion with its workers in some order: what it returns, the entries it has written
and the service it leaves. -/
inductive InsertsBatch (d : Dictionary) (entries : List Entry) (s : Service) :
    Except Error Nat → List Entry → Service → Prop
  | run {lock : Nat} {s₁ s' : Service} {c : Crew Entry Service} :
      d.takeWriteLock s = (.ok lock, s₁) →
      Crew.Run d.writeEntry (.start (d.shards entries) s₁) c → c.Ended →
      d.updater.enqueue d.id c.outcome.updates c.state = (.ok (), s') →
      InsertsBatch d entries s (batchResult c.outcome) (c.written.map (·.1)) s'

/-- What the workers have done so far: the entries are stored and each has its own update. -/
structure Written (d : Dictionary) (first : Service) (ws : List (Entry × Update)) (s : Service) :
    Prop where
  schedulers : s.schedulers = first.schedulers
  updates : ∀ w ∈ ws, w.2 = d.updateOf w.1
  stored : ∃ elements, Stored (first.holdings d.site).elements (ws.map (·.1)) elements ∧
    s.holdings d.site = { first.holdings d.site with elements }

theorem invariant_written (d : Dictionary) (first : Service) :
    Crew.Invariant d.writeEntry (Written d first) where
  perm {ws ws' s} hp h := by
    obtain ⟨elements, hstored, hh⟩ := h.stored
    exact ⟨h.schedulers, fun w hw => h.updates w (hp.mem_iff.2 hw),
      elements, hstored.perm (hp.map _), hh⟩
  wrote {ws s s' entry update} hw h := by
    obtain ⟨elements, hstored, hh⟩ := h.stored
    obtain ⟨hsch, ⟨_, herr, -⟩ | ⟨hok, hfree, hwrote⟩⟩ := writeEntry_cases hw
    · simp at herr
    · refine ⟨hsch.trans h.schedulers, List.forall_mem_cons.2 ⟨Except.ok.inj hok, h.updates⟩,
        ((s.holdings d.site).withElement entry.key entry.element).elements, ?_, ?_⟩
      · have hnew := Stored.withElement hfree
        rw [hh] at hnew
        rw [hh]
        exact (hstored.append hnew).perm List.perm_append_comm
      · rw [hwrote, hh]
        rfl
  failed {ws s s' entry e} hw h := by
    obtain ⟨elements, hstored, hh⟩ := h.stored
    obtain ⟨hsch, ⟨_, -, hsame⟩ | ⟨hok, -⟩⟩ := writeEntry_cases hw
    · exact ⟨hsch.trans h.schedulers, h.updates, elements, hstored, hsame.trans hh⟩
    · simp at hok

/-- A batch stores the entries it has written and queues their updates, in one order. -/
theorem InsertsBatch.stored (hd : d.updater.Serves d.site policy) {entries es : List Entry}
    {r : Except Error Nat} (h : d.InsertsBatch entries s r es s') :
    s'.schedulers = s.schedulers ∧ ∃ elements,
      Stored (s.holdings d.site).elements es elements ∧
      s'.holdings d.site = { s.holdings d.site with
        elements, queue := (s.holdings d.site).queue ++ es.map d.updateOf } := by
  cases h with
  | @run lock s₁ _ c hlock hrun _ henq =>
    obtain ⟨_, _, hlock', hsch₁, hh₁⟩ := d.takeWriteLock_holdings s
    obtain ⟨-, rfl⟩ := Prod.mk.inj (hlock.symm.trans hlock')
    have hstart : Written d s₁ (Crew.start (d.shards entries) s₁).written s₁ := by
      rw [Crew.written_start]
      exact ⟨rfl, by simp, _, .nil _, rfl⟩
    obtain ⟨hsch, hupdates, elements, hstored, hh⟩ :=
      hrun.invariant (invariant_written d s₁) hstart
    have hus : c.outcome.updates = (c.written.map (·.1)).map d.updateOf := by
      rw [List.map_map]
      exact List.map_congr_left hupdates
    obtain ⟨_, henq', hsch', hqueue⟩ := hd.enqueue c.outcome.updates c.state
    obtain ⟨-, rfl⟩ := Prod.mk.inj (henq.symm.trans henq')
    refine ⟨hsch'.trans (hsch.trans hsch₁), elements, hh₁ ▸ hstored, ?_⟩
    have hqueue' : s'.holdings d.site = (c.state.holdings d.site).enqueue c.outcome.updates := hqueue
    rw [hqueue', hus, hh, hh₁]
    rfl

/-- Writing shard after shard is one of the orders. -/
theorem insertBatch_inserts {entries : List Entry} {r : Except Error Nat}
    (hd : d.updater.Serves d.site policy) (h : d.insertBatch entries s = (r, s')) :
    ∃ es, d.InsertsBatch entries s r es s' := by
  obtain ⟨lock, s₁, hlock, -, -⟩ := d.takeWriteLock_holdings s
  obtain ⟨c, hrun, hended, hall⟩ := Crew.exists_run_writeAll d.writeEntry (d.shards entries) s₁
  obtain ⟨s₂, henq, -, -⟩ := hd.enqueue c.outcome.updates c.state
  change d.updater.enqueue d.id _ _ = _ at henq
  have hbatch := InsertsBatch.run hlock hrun hended henq
  refine ⟨c.written.map (·.1), ?_⟩
  rw [insertBatch, Action.bind_ok hlock] at h
  have htotal : Action.total (writeAll d.writeEntry (d.shards entries)) s₁ =
      (.ok c.outcome, c.state) := by
    rw [Action.total_apply, ← hall]
  rw [show (if entries.isEmpty then [] else split entries d.config.threadCount.toNat) =
    d.shards entries from rfl, Action.bind_ok htotal, Action.bind_ok henq] at h
  cases herror : c.outcome.error with
  | some e =>
    simp only [herror] at h
    obtain ⟨rfl, rfl⟩ := Prod.mk.inj h
    simpa only [batchResult, herror] using hbatch
  | none =>
    simp only [herror] at h
    obtain ⟨rfl, rfl⟩ := Prod.mk.inj h
    simpa only [batchResult, herror] using hbatch

end AuthDict.Dictionary
