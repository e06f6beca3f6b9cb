import AuthDict.Proofs.Dictionary.Consistency
import AuthDict.Proofs.Updater.Effects

/-!
# Chronicles

The runs of a deployment once more, with the records of their cycles. A step is quiet, and then it
runs no cycle of any dictionary, or it is one of the four that may run some: an application that is
asked for, the end of a handle, a round of a background task and its end. The chronicle of a run
lists the records of all its steps.
-/
namespace AuthDict

/-- A call of a handle that runs no cycle, with the entries that it inserts. -/
inductive Dictionary.Use (d : Dictionary) (s : Service) :
    List Entry → Dictionary → Service → Prop
  | insert {e : Entry} {s' : Service} : d.insert e s = (.ok (), s') → Use d s [e] d s'
  | insertFailed {e : Entry} {x : Error} {s' : Service} :
      d.insert e s = (.error x, s') → Use d s [] d s'
  | insertBatch {entries es : List Entry} {r : Except Error Nat} {s' : Service} :
      d.InsertsBatch entries s r es s' → Use d s es d s'
  | query {key : Bytes} {pick : UInt8} {r : Except Error Answer} {d' : Dictionary} {s' : Service} :
      query key pick (d, s) = (r, (d', s')) → Use d s [] d' s'
  | queryMany {keys : List Bytes} {pick : UInt8} {r : Except Error (List Answer)}
      {d' : Dictionary} {s' : Service} :
      queryMany keys pick (d, s) = (r, (d', s')) → Use d s [] d' s'
  | checkForUpdate {r : Except Error Unit} {d' : Dictionary} {s' : Service} :
      checkForUpdate (d, s) = (r, (d', s')) → Use d s [] d' s'
  | epoch {r : Except Error Epoch} {s' : Service} : d.epoch s = (r, s') → Use d s [] d s'
  | published {r : Except Error PublishedState} {s' : Service} :
      d.published s = (r, s') → Use d s [] d s'

namespace Deployment

/-- A step that runs no cycle, with the entries that it inserts. -/
inductive Quiet (x : Setting) : Deployment → List Entry → Deployment → Prop
  | build {s s' : Service} {handles : List Dictionary} {records : List Bytes}
      {hook : Option HookRef} {hasRuntime : Bool} {r : Except Error Dictionary} :
      (x.fresh hook).build x.draws hasRuntime s = (r, s') →
      Quiet x ⟨s, handles, records⟩ [] ⟨s', r.toOption.toList ++ handles, records⟩
  | load {s s' : Service} {handles : List Dictionary} {records : List Bytes} {record : Bytes}
      {b : Blueprint} {hook : Option HookRef} {draws : Draws} {hasRuntime : Bool}
      {r : Except Error Dictionary} : record ∈ records →
      Blueprint.ofSnapshot x.registry record = .ok b →
      Blueprint.build { b with storage := x.choice, hook } draws hasRuntime s = (r, s') →
      Quiet x ⟨s, handles, records⟩ [] ⟨s', r.toOption.toList ++ handles, records⟩
  | use {s s' : Service} {before after : List Dictionary} {records : List Bytes}
      {d d' : Dictionary} {es : List Entry} : d.Use s es d' s' →
      Quiet x ⟨s, before ++ d :: after, records⟩ es ⟨s', before ++ d' :: after, records⟩
  | save {s : Service} {handles : List Dictionary} {records : List Bytes} {d : Dictionary} :
      d ∈ handles → Quiet x ⟨s, handles, records⟩ [] ⟨s, handles, d.save :: records⟩
  | drop {s : Service} {before after : List Dictionary} {records : List Bytes} {d : Dictionary} :
      Quiet x ⟨s, before ++ d :: after, records⟩ [] ⟨s, before ++ after, records⟩
  | elsewhere {s s' : Service} {handles : List Dictionary} {records : List Bytes} :
      s.Elsewhere x.site s' → Quiet x ⟨s, handles, records⟩ [] ⟨s', handles, records⟩

/-- One step, with the entries that it inserts and the records of its cycles. -/
inductive Acts (x : Setting) :
    Deployment → List Entry → List CycleRecord → Deployment → Prop
  | quiet {D D' : Deployment} {es : List Entry} : Quiet x D es D' → Acts x D es [] D'
  | apply {s s' : Service} {before after : List Dictionary} {records : List Bytes}
      {d : Dictionary} {r : Except Error ApplyOutcome} : d.apply s = (r, s') →
      Acts x ⟨s, before ++ d :: after, records⟩ [] (d.updater.records x.site d.id s)
        ⟨s', before ++ d :: after, records⟩
  | shutDown {s s' : Service} {before after : List Dictionary} {records : List Bytes}
      {d : Dictionary} {r : Except Error Unit} : d.shutDown s = (r, s') →
      Acts x ⟨s, before ++ d :: after, records⟩ [] (d.shutDownRecords x.site s)
        ⟨s', before ++ after, records⟩
  | tick {s s' : Service} {handles : List Dictionary} {records : List Bytes} {ref : SchedulerRef}
      {t : Scheduler} {r : Except Error Unit} : s.schedulers.get? ref = some t →
      t.cycle s = (r, s') →
      Acts x ⟨s, handles, records⟩ [] (t.updater.records x.site t.id s) ⟨s', handles, records⟩
  | stop {s s' : Service} {handles : List Dictionary} {records : List Bytes} {ref : SchedulerRef}
      {r : Except Error Unit} : Scheduler.stop ref s = (r, s') →
      Acts x ⟨s, handles, records⟩ [] (Scheduler.stopRecords ref x.site s) ⟨s', handles, records⟩

/-- The states of runs that begin with no state of the dictionary, with the entries inserted so far
and the records of its cycles. -/
inductive Chronicle (x : Setting) : Deployment → List Entry → List CycleRecord → Prop
  | start {s : Service} : s.holdings x.site = .none →
      (∀ ref t, s.schedulers.get? ref = some t → t.id ≠ x.draws.id) →
      Chronicle x ⟨s, [], []⟩ [] []
  | step {D D' : Deployment} {log es : List Entry} {recs rs : List CycleRecord} :
      Chronicle x D log recs → Acts x D es rs D' → Chronicle x D' (log ++ es) (recs ++ rs)

/-- The trie that is stored for the dictionary. -/
def stored (x : Setting) (D : Deployment) : Option Trie := (D.service.holdings x.site).trie

end Deployment

namespace Service.Elsewhere

variable {p : Site} {s s' : Service}

theorem of_same (hh : s'.holdings p = s.holdings p) (ht : s'.schedulers = s.schedulers) :
    s.Elsewhere p s' :=
  ⟨hh, fun _ _ hget _ => ht ▸ hget⟩

theorem epoch {d : Dictionary} {r : Except Error Epoch} (h : d.epoch s = (r, s')) :
    s.Elsewhere p s' := by
  obtain ⟨hh, ht⟩ := onStorage_reads (Storage.loadEpoch_agrees d.id) h p
  exact of_same hh ht

theorem published {d : Dictionary} {r : Except Error PublishedState}
    (h : d.published s = (r, s')) : s.Elsewhere p s' := by
  have hroot := Storage.loadRoot_agrees d.id
  have hepoch := Storage.loadEpoch_agrees d.id
  rcases Action.bind_cases h with ⟨e, hr, rfl⟩ | ⟨root, s₁, hr, h⟩
  · obtain ⟨hh, ht⟩ := onStorage_reads hroot hr p
    exact of_same hh ht
  · obtain ⟨hh, ht⟩ := onStorage_reads hroot hr p
    rcases Action.bind_cases h with ⟨e, he, rfl⟩ | ⟨epoch, s₂, he, h⟩
    · obtain ⟨hh', ht'⟩ := onStorage_reads hepoch he p
      exact of_same (hh'.trans hh) (ht'.trans ht)
    · obtain ⟨hh', ht'⟩ := onStorage_reads hepoch he p
      obtain ⟨-, rfl⟩ := Prod.mk.inj h
      exact of_same (hh'.trans hh) (ht'.trans ht)

end Service.Elsewhere

namespace Deployment

variable {x : Setting} {D D' : Deployment} {log es : List Entry} {recs rs : List CycleRecord}

theorem Quiet.step (hq : Quiet x D es D') : Step x D es D' := by
  cases hq with
  | build hb => exact .build hb
  | load hrecord hsnapshot hb => exact .load hrecord hsnapshot hb
  | use hu =>
    cases hu with
    | insert h => exact .call (.insert h)
    | insertFailed h => exact .call (.insertFailed h)
    | insertBatch h => exact .call (.insertBatch h)
    | query h => exact .call (.query h)
    | queryMany h => exact .call (.queryMany h)
    | checkForUpdate h => exact .call (.checkForUpdate h)
    | epoch h => exact .elsewhere (.epoch h)
    | published h => exact .elsewhere (.published h)
  | save hd => exact .save hd
  | drop => exact .drop
  | elsewhere he => exact .elsewhere he

theorem Acts.step (ha : Acts x D es rs D') : Step x D es D' := by
  cases ha with
  | quiet hq => exact hq.step
  | apply h => exact .call (.apply h)
  | shutDown h => exact .shutDown h
  | tick hget h => exact .tick hget h
  | stop h => exact .stop h

theorem Step.exists_acts (h : Step x D es D') : ∃ rs, Acts x D es rs D' := by
  cases h with
  | build hb => exact ⟨[], .quiet (.build hb)⟩
  | load hrecord hsnapshot hb => exact ⟨[], .quiet (.load hrecord hsnapshot hb)⟩
  | call hc =>
    cases hc with
    | insert h => exact ⟨[], .quiet (.use (.insert h))⟩
    | insertFailed h => exact ⟨[], .quiet (.use (.insertFailed h))⟩
    | insertBatch h => exact ⟨[], .quiet (.use (.insertBatch h))⟩
    | apply h => exact ⟨_, .apply h⟩
    | query h => exact ⟨[], .quiet (.use (.query h))⟩
    | queryMany h => exact ⟨[], .quiet (.use (.queryMany h))⟩
    | checkForUpdate h => exact ⟨[], .quiet (.use (.checkForUpdate h))⟩
  | save hd => exact ⟨[], .quiet (.save hd)⟩
  | shutDown h => exact ⟨_, .shutDown h⟩
  | drop => exact ⟨[], .quiet .drop⟩
  | tick hget h => exact ⟨_, .tick hget h⟩
  | stop h => exact ⟨_, .stop h⟩
  | elsewhere he => exact ⟨[], .quiet (.elsewhere he)⟩

theorem Chronicle.reaches (h : Chronicle x D log recs) : ∃ past, Reaches x D log past := by
  induction h with
  | start hempty htasks => exact ⟨_, .start hempty htasks⟩
  | step _ ha ih =>
    obtain ⟨past, hreaches⟩ := ih
    exact ⟨_, hreaches.step ha.step⟩

/-- Every run has a chronicle. -/
theorem Reaches.chronicle {past : List Trie} (h : Reaches x D log past) :
    ∃ recs, Chronicle x D log recs := by
  induction h with
  | start hempty htasks => exact ⟨[], .start hempty htasks⟩
  | step _ hs ih =>
    obtain ⟨recs, hchronicle⟩ := ih
    obtain ⟨rs, hacts⟩ := hs.exists_acts
    exact ⟨recs ++ rs, hchronicle.step hacts⟩

end Deployment

namespace Setting

variable {x : Setting} {past : List Trie} {d d' : Dictionary} {s s' : Service} {es : List Entry}

theorem Owns.use_trie (hd : x.Owns past d) (hp : x.FeedsHeld past (s.holdings x.site))
    (hc : (s.holdings x.site).current ∈ past) (hu : d.Use s es d' s') :
    (s'.holdings x.site).trie = (s.holdings x.site).trie := by
  have hlooking := hd.looking hp
  have hholds := holds_source hc
  cases hu with
  | insert h =>
    obtain ⟨-, ⟨_, herr, -⟩ | ⟨-, -, hh⟩⟩ := Dictionary.insert_cases hd.serves h
    · contradiction
    · rw [← hd.site_eq, hh]
      rfl
  | insertFailed h =>
    obtain ⟨-, ⟨_, -, hh⟩ | ⟨hok, -⟩⟩ := Dictionary.insert_cases hd.serves h
    · rw [← hd.site_eq, hh]
    · contradiction
  | insertBatch h =>
    obtain ⟨-, elements, -, hh⟩ := h.stored hd.serves
    rw [← hd.site_eq, hh]
  | @query key pick r _ _ h =>
    have hafter := (Dictionary.query_ensures hd.id hholds key pick (d, s) hlooking).1
    rw [h] at hafter
    rw [hafter.service.holdings]
  | @queryMany keys pick r _ _ h =>
    have hafter := (Dictionary.queryMany_ensures hd.id hholds keys pick (d, s) hlooking).1
    rw [h] at hafter
    rw [hafter.service.holdings]
  | checkForUpdate h =>
    have hafter := (Dictionary.checkForUpdate_ensures hd.id hholds (d, s) hlooking).1
    rw [h] at hafter
    rw [hafter.service.holdings]
  | epoch h => rw [(Service.Elsewhere.epoch h).holdings]
  | published h => rw [(Service.Elsewhere.published h).holdings]

variable {D D' : Deployment} {log : List Entry} {rs : List CycleRecord}

theorem Sound.quiet_stored (h : x.Sound D log past) (hq : Deployment.Quiet x D es D') :
    D'.stored x = D.stored x := by
  cases hq with
  | build hb =>
    obtain ⟨-, hh, -⟩ := Blueprint.build_spec past (Blueprint.for_fresh x _) hb
    exact congrArg Holdings.trie hh
  | load hrecord hsnapshot hb =>
    rw [h.records _ hrecord] at hsnapshot
    obtain rfl := Except.ok.inj hsnapshot
    obtain ⟨-, hh, -⟩ := Blueprint.build_spec past (x.for_restored _ _) hb
    exact congrArg Holdings.trie hh
  | @use s s' before after records d d' es hu =>
    exact (h.handles d (by simp)).use_trie h.pool h.current hu
  | save _ => rfl
  | drop => rfl
  | elsewhere he => exact congrArg Holdings.trie he.holdings

/-- What a step does to the stored trie is what its cycles do, one after the other. -/
theorem Sound.acts_recorded (h : x.Sound D log past) (ha : Deployment.Acts x D es rs D') :
    ∃ reached, (D.service.holdings x.site).Recorded x.policy rs reached ∧
      D'.stored x = reached.trie := by
  cases ha with
  | quiet hq => exact ⟨_, .refl, h.quiet_stored hq⟩
  | @apply s s' before after records d r hc =>
    have hd := h.handles d (by simp)
    obtain ⟨-, hcycle⟩ := Updater.apply_recorded (fun _ => hd.updater) hc
    exact ⟨_, hcycle, rfl⟩
  | @shutDown s s' before after records d r hc =>
    have hd := h.handles d (by simp)
    have htasks := h.tasks
    rw [← hd.site_eq] at htasks
    obtain ⟨-, reached, hcycles, hend⟩ := Dictionary.shutDown_cases hd.serves htasks hc
    rw [hd.site_eq] at hcycles hend
    refine ⟨reached, hcycles, ?_⟩
    rw [Deployment.stored]
    rcases hend with ⟨_, -, hh⟩ | ⟨-, -, hh⟩
    · rw [hh]
    · rw [hh]
  | tick hget hc =>
    obtain ⟨-, -, hcycles⟩ := Scheduler.cycle_recorded (h.tasks _ _ hget) hc
    exact ⟨_, hcycles, rfl⟩
  | stop hc =>
    obtain ⟨-, -, hcycles⟩ := Scheduler.stop_recorded h.tasks hc
    exact ⟨_, hcycles, rfl⟩

end Setting

end AuthDict
