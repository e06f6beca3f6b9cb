import AuthDict.Proofs.Dictionary.Accounting
import AuthDict.Proofs.Dictionary.Chronicle
import Mathlib.Data.List.Chain

/-!
# A dictionary only grows

The tries of a dictionary form one line: each is the one before it with the leaves of one batch
added and the epoch one higher, as the cycle that stored it has reported. Nothing but such a cycle
changes the stored trie, whatever fails and whatever becomes of failed batches.

A batch never replaces a leaf. The trie would let it, but every update belongs to an inserted entry,
and a key is inserted once.
-/
namespace AuthDict

namespace Trie

theorem length_updates (t : Trie) : t.updates.length = t.size := by
  rw [updates, List.length_map, OrderedMap.length_entries]
  rfl

end Trie

namespace CycleRecord

/-- What stands before all cycles: nothing was reported and nothing is stored. -/
def first : CycleRecord := ⟨.ok .idle, none⟩

/-- The stored trie, or the empty one. -/
def trie (r : CycleRecord) : Trie := r.stored.getD {}

/-- The second record is of a batch that was applied to the trie of the first. -/
structure Appends (a b : CycleRecord) : Prop where
  stored : b.stored = some b.trie
  epoch : b.trie.epoch = a.trie.epoch + 1
  leaves : ∀ label c, a.trie.get? label = some c → b.trie.get? label = some c
  reported : ∃ updates, b.report = .ok (.applied b.trie.epoch b.trie.root updates) ∧
    b.trie.size = a.trie.size + updates

/-- One cycle after another: it has appended, or what is stored has not changed. -/
inductive Follows (a b : CycleRecord) : Prop
  | applied : b.isApplied = true → Appends a b → Follows a b
  | unchanged : ¬ b.isApplied = true → b.stored = a.stored → Follows a b

/-- The records of a run, with the trie that is stored at its end. -/
structure Lineage (recs : List CycleRecord) (stored : Option Trie) : Prop where
  follows : (first :: recs).IsChain Follows
  last : stored = (recs.getLastD first).stored
  epoch : (stored.getD {}).epoch = UInt64.ofNat (recs.countP isApplied)

variable {a b c : CycleRecord} {recs : List CycleRecord} {stored : Option Trie}

theorem Appends.of_stored_eq (h : b.stored = a.stored) (hc : Appends b c) : Appends a c := by
  have htrie : b.trie = a.trie := by rw [trie, h, trie]
  obtain ⟨hstored, hepoch, hleaves, hreported⟩ := hc
  rw [htrie] at hepoch hleaves hreported
  exact ⟨hstored, hepoch, hleaves, hreported⟩

theorem Follows.of_stored_eq (h : b.stored = a.stored) (hc : Follows b c) : Follows a c := by
  cases hc with
  | applied happlied happends => exact .applied happlied (happends.of_stored_eq h)
  | unchanged hnot hsame => exact .unchanged hnot (hsame.trans h)

/-- Each applied batch appends to the one applied before it. -/
theorem isChain_filter_isApplied (hc : (a :: recs).IsChain Follows) :
    (a :: recs.filter isApplied).IsChain Appends := by
  induction recs generalizing a with
  | nil => exact .singleton a
  | cons r rest ih =>
    obtain ⟨hr, hrest⟩ := List.isChain_cons_cons.1 hc
    cases hr with
    | applied happlied happends =>
      rw [List.filter_cons_of_pos happlied]
      exact List.isChain_cons_cons.2 ⟨happends, ih hrest⟩
    | unchanged hnot hsame =>
      rw [List.filter_cons_of_neg hnot]
      -- the cycle between has left what is stored, so the next one follows the record before it too
      exact ih (hrest.imp_head fun hnext => hnext.of_stored_eq hsame)

theorem Lineage.start : Lineage [] none where
  follows := .singleton _
  last := rfl
  epoch := rfl

theorem Lineage.concat (hl : Lineage recs stored) {r : CycleRecord}
    (hr : Follows (recs.getLastD first) r)
    (hepoch : r.trie.epoch = UInt64.ofNat ((recs ++ [r]).countP isApplied)) :
    Lineage (recs ++ [r]) r.stored where
  follows := by
    rw [← List.cons_append]
    refine hl.follows.append (.singleton r) fun a ha b hb => ?_
    rw [List.getLast?_cons, ← List.getLastD_eq_getLast?, Option.mem_def, Option.some.injEq] at ha
    obtain rfl := Option.some.inj hb
    rwa [← ha]
  last := by rw [List.getLastD_concat]
  epoch := hepoch

end CycleRecord

namespace Holdings

open CycleRecord (Lineage Appends)

variable {updateOf : Entry → Update} {policy : FailurePolicy} {h h' : Holdings}
  {log : List Entry} {recs rs : List CycleRecord}

/-- A cycle that applies a batch appends to what is stored. -/
theorem Balanced.appends (hb : Balanced updateOf policy log h)
    (hapart : LabelsApart updateOf log) (hne : h.queue ≠ []) {a : CycleRecord}
    (ha : a.stored = h.trie) :
    Appends a ⟨.ok (.applied h.next.epoch h.next.root h.queue.length), some h.next⟩ := by
  have hcurrent : a.trie = h.current := by rw [CycleRecord.trie, ha, current]
  have hnext := hb.updates_next_perm hapart
  constructor
  · rfl
  · rw [hcurrent]
    exact h.current.epoch_applyBatch hne
  · intro label c hget
    rw [hcurrent, ← Trie.mem_updates] at hget
    exact Trie.mem_updates.1 (hnext.symm.subset (List.mem_append_left _ hget))
  · refine ⟨h.queue.length, rfl, ?_⟩
    rw [hcurrent, ← Trie.length_updates, ← Trie.length_updates, ← List.length_append]
    exact hnext.length_eq

theorem Balanced.lineage_cycle (hb : Balanced updateOf policy log h)
    (hapart : LabelsApart updateOf log) (hl : Lineage recs h.trie) {r : Except Error ApplyOutcome}
    (hc : h.Cycle policy r h') : Lineage (recs ++ [⟨r, h'.trie⟩]) h'.trie := by
  by_cases hr : (CycleRecord.mk r h'.trie).isApplied = true
  · cases hc with
    | idle _ => contradiction
    | requeued _ _ _ => contradiction
    | discarded _ _ _ => contradiction
    | applied hne =>
      refine hl.concat (.applied hr (hb.appends hapart hne hl.last.symm)) ?_
      rw [List.countP_append, List.countP_singleton, if_pos hr, UInt64.ofNat_add, ← hl.epoch]
      exact h.current.epoch_applyBatch hne
  · have htrie := hc.trie_eq hr
    refine hl.concat (.unchanged hr (htrie.trans hl.last)) ?_
    rw [List.countP_append, List.countP_singleton, if_neg hr, CycleRecord.trie, htrie]
    exact hl.epoch

theorem Balanced.recorded (hb : Balanced updateOf policy log h) (hc : h.Recorded policy rs h') :
    Balanced updateOf policy log h' := by
  simpa using hb.steps hc.steps

theorem Balanced.lineage_recorded (hb : Balanced updateOf policy log h)
    (hapart : LabelsApart updateOf log) (hl : Lineage recs h.trie)
    (hc : h.Recorded policy rs h') : Lineage (recs ++ rs) h'.trie := by
  induction hc with
  | refl => rwa [List.append_nil]
  | tail hbefore hcycle ih =>
    rw [← List.append_assoc]
    exact (hb.recorded hbefore).lineage_cycle hapart ih hcycle

theorem Recorded.trie_eq (hc : h.Recorded policy rs h') (hrs : ∀ r ∈ rs, ¬ r.isApplied = true) :
    h'.trie = h.trie := by
  induction hc with
  | refl => rfl
  | tail _ hcycle ih =>
    rw [hcycle.trie_eq (hrs _ List.mem_concat_self)]
    exact ih fun r hr => hrs r (List.mem_append_left _ hr)

end Holdings

namespace Deployment

variable {x : Setting} {D : Deployment} {log : List Entry} {recs : List CycleRecord}

theorem Chronicle.lineage (h : Chronicle x D log recs)
    (hapart : Holdings.LabelsApart x.updateOf log) : CycleRecord.Lineage recs (D.stored x) := by
  induction h with
  | start hempty _ =>
    rw [stored, hempty]
    exact .start
  | step hrun hacts ih =>
    obtain ⟨past, hreaches⟩ := hrun.reaches
    have hsound := Setting.Sound.of_reaches hreaches
    obtain ⟨reached, hcycles, hstored⟩ := hsound.acts_recorded hacts
    rw [hstored]
    exact hsound.balanced.lineage_recorded hapart.left (ih hapart.left) hcycles

/-- In every run, with any failures of the backend, each applied batch makes the trie one epoch
older and keeps its leaves, and what it reports is what is stored. The stored epoch counts the
applied batches, and a step that applies none leaves the stored trie as it is. -/
theorem append_only (h : Chronicle x D log recs)
    (hlabels : Set.InjOn x.secret.label (D.storedKeys x)) :
    CycleRecord.Lineage recs (D.stored x) ∧
      (CycleRecord.first :: recs.filter CycleRecord.isApplied).IsChain CycleRecord.Appends ∧
      ∀ {es rs D'}, Acts x D es rs D' → (∀ r ∈ rs, ¬ r.isApplied = true) →
        D'.stored x = D.stored x := by
  obtain ⟨past, hreaches⟩ := h.reaches
  have hlineage := h.lineage (labelsApart_of_injOn hreaches hlabels)
  refine ⟨hlineage, CycleRecord.isChain_filter_isApplied hlineage.follows, fun hacts hrs => ?_⟩
  obtain ⟨reached, hcycles, hstored⟩ := (Setting.Sound.of_reaches hreaches).acts_recorded hacts
  rw [hstored]
  exact hcycles.trie_eq hrs

/-- A backend whose second save of a trie fails. The batch goes back to the queue and is applied
when the handle is shut down. -/
def sampleFlaky : Service :=
  { backends := ({} : Backends).set 0 { trieSaves := { down := fun call => call == 1 } } }

def sampleFirst : Service := (sampleHandle.insert sampleEntry sampleFlaky).2

def sampleSecond : Service :=
  (sampleHandle.insert sampleOther (sampleHandle.apply sampleFirst).2).2

def sampleEnd : Service := (sampleHandle.apply sampleSecond).2

def sampleRecords : List CycleRecord :=
  sampleHandle.updater.records sampleSetting.site sampleHandle.id sampleFirst ++
    (sampleHandle.updater.records sampleSetting.site sampleHandle.id sampleSecond ++
      sampleHandle.shutDownRecords sampleSetting.site sampleEnd)

def sampleGrown : Deployment := ⟨(sampleHandle.shutDown sampleEnd).2, [], []⟩

theorem chronicle_sampleGrown :
    Chronicle sampleSetting sampleGrown [sampleEntry, sampleOther] sampleRecords := by
  have hbuild : (sampleSetting.fresh none).build sampleSetting.draws false sampleFlaky =
      (.ok sampleHandle, sampleFlaky) := rfl
  have hinsert : (sampleHandle.insert sampleEntry sampleFlaky).1 = .ok () := by decide +kernel
  have hlater : (sampleHandle.insert sampleOther (sampleHandle.apply sampleFirst).2).1 =
      .ok () := by decide +kernel
  have hstart : Chronicle sampleSetting ⟨sampleFlaky, [], []⟩ [] [] := by
    refine .start rfl fun ref t ht => ?_
    have hnone : sampleFlaky.schedulers.get? ref = none := OrderedMap.get?_empty ref
    rw [hnone] at ht
    contradiction
  have huse {s s' : Service} {es : List Entry} (h : sampleHandle.Use s es sampleHandle s') :
      Acts sampleSetting ⟨s, [] ++ sampleHandle :: [], []⟩ es []
        ⟨s', [] ++ sampleHandle :: [], []⟩ := .quiet (.use h)
  have happly (s : Service) :
      Acts sampleSetting ⟨s, [] ++ sampleHandle :: [], []⟩ []
        (sampleHandle.updater.records sampleSetting.site sampleHandle.id s)
        ⟨(sampleHandle.apply s).2, [] ++ sampleHandle :: [], []⟩ := .apply rfl
  have hshutDown : Acts sampleSetting ⟨sampleEnd, [] ++ sampleHandle :: [], []⟩ []
      (sampleHandle.shutDownRecords sampleSetting.site sampleEnd)
      ⟨(sampleHandle.shutDown sampleEnd).2, [] ++ [], []⟩ := .shutDown rfl
  have hfirst : Chronicle sampleSetting ⟨sampleFirst, [sampleHandle], []⟩ [sampleEntry] [] :=
    (hstart.step (.quiet (.build hbuild))).step (huse (.insert (Prod.ext hinsert rfl)))
  have hsecond : Chronicle sampleSetting ⟨sampleSecond, [sampleHandle], []⟩
      [sampleEntry, sampleOther] _ :=
    (hfirst.step (happly _)).step (huse (.insert (Prod.ext hlater rfl)))
  have hend := (hsecond.step (happly _)).step hshutDown
  simpa only [sampleGrown, sampleRecords, List.append_nil, List.nil_append, List.cons_append,
    List.append_assoc] using hend

theorem append_only_sampleGrown :
    Chronicle sampleSetting sampleGrown [sampleEntry, sampleOther] sampleRecords ∧
      sampleRecords.map CycleRecord.isApplied = [true, false, true] ∧
      CycleRecord.Lineage sampleRecords (sampleGrown.stored sampleSetting) ∧
      (CycleRecord.first :: sampleRecords.filter CycleRecord.isApplied).IsChain
        CycleRecord.Appends ∧
      (sampleGrown.current sampleSetting).epoch = 2 := by
  obtain ⟨past, hrun⟩ := chronicle_sampleGrown.reaches
  obtain ⟨hlineage, hchain, -⟩ :=
    append_only chronicle_sampleGrown (injOn_sampleKeys.mono (storedKeys_subset hrun))
  have hcount : sampleRecords.countP CycleRecord.isApplied = 2 := by decide +kernel
  refine ⟨chronicle_sampleGrown, by decide +kernel, hlineage, hchain, ?_⟩
  have hepoch := hlineage.epoch
  rw [hcount] at hepoch
  exact hepoch

end Deployment

end AuthDict
