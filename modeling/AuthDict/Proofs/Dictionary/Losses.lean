import AuthDict.Proofs.Dictionary.Accounting
import AuthDict.Proofs.Dictionary.Closing

/-!
# What a shutdown loses

A shutdown looks at the queue and releases the dictionary's state in two steps, and an insertion
through another handle may queue its update in between. The release drops it: the entry is stored,
and its update neither waits nor reaches the trie, so the key can never be found nor inserted again.

Nothing else is lost. When all calls have returned, the updates of the stored elements are the
leaves of the stored trie, the updates that wait and those that the release dropped, and what was
dropped was queued in that gap.
-/
namespace AuthDict

namespace Holdings

/-- The updates of the stored entries are leaves, wait, or are out. -/
def Books (updateOf : Entry → Update) (h : Holdings) (out : List Update) : Prop :=
  ∃ log, Stored (fun _ => .none) log h.elements ∧ (LabelsApart updateOf log →
    (h.current.updates ++ h.queue ++ out).Perm (log.map updateOf))

variable {updateOf : Entry → Update} {h h' : Holdings} {out out' : List Update}

namespace Books

theorem perm (hb : Books updateOf h out) (hp : out'.Perm out) : Books updateOf h out' := by
  obtain ⟨log, hstored, hperm⟩ := hb
  exact ⟨log, hstored, fun hapart => (hp.append_left _).trans (hperm hapart)⟩

theorem cycle (hb : Books updateOf h out) {r : Except Error ApplyOutcome}
    (hc : h.Cycle .requeue r h') : Books updateOf h' out := by
  obtain ⟨log, hstored, hperm⟩ := hb
  cases hc with
  | idle _ => exact ⟨log, hstored, hperm⟩
  | requeued _ _ _ => exact ⟨log, hstored, hperm⟩
  | discarded _ _ hp => contradiction
  | applied _ =>
    refine ⟨log, hstored, fun hapart => ?_⟩
    rw [List.append_nil]
    exact hstored.perm_next hapart (hperm hapart)

theorem recorded (hb : Books updateOf h out) {rs : List CycleRecord}
    (hc : h.Recorded .requeue rs h') : Books updateOf h' out := by
  induction hc with
  | refl => exact hb
  | tail _ hcycle ih => exact ih.cycle hcycle

theorem write (hb : Books updateOf h out) {e : Entry} (hfree : h.elements e.key = .none) :
    Books updateOf (h.withElement e.key e.element) (updateOf e :: out) := by
  obtain ⟨log, hstored, hperm⟩ := hb
  refine ⟨log ++ [e], hstored.append (.withElement hfree), fun hapart => ?_⟩
  rw [List.map_append]
  exact List.perm_middle.trans
    (.trans (.cons _ (hperm hapart.left)) (List.perm_append_singleton ..).symm)

theorem enqueue {u : Update} (hb : Books updateOf h (u :: out)) :
    Books updateOf (h.enqueue [u]) out := by
  obtain ⟨log, hstored, hperm⟩ := hb
  refine ⟨log, hstored, fun hapart => .trans ?_ (hperm hapart)⟩
  simp [Holdings.enqueue, current]

theorem release (hb : Books updateOf h out) (pool : Option QuerierPool) :
    Books updateOf { h with queue := [], pool } (out ++ h.queue) := by
  obtain ⟨log, hstored, hperm⟩ := hb
  refine ⟨log, hstored, fun hapart => .trans ?_ (hperm hapart)⟩
  rw [List.append_nil, List.append_assoc]
  exact List.perm_append_comm.append_left _

end Books

theorem Cycle.queue_sublist {policy : FailurePolicy} {r : Except Error ApplyOutcome}
    (hc : h.Cycle policy r h') : h'.queue.Sublist h.queue := by
  cases hc with
  | idle _ => exact .refl _
  | requeued _ _ _ => exact .refl _
  | applied _ => exact List.nil_sublist _
  | discarded _ _ _ => exact List.nil_sublist _

theorem Recorded.queue_sublist {policy : FailurePolicy} {rs : List CycleRecord}
    (hc : h.Recorded policy rs h') : h'.queue.Sublist h.queue := by
  induction hc with
  | refl => exact .refl _
  | tail _ hcycle ih => exact hcycle.queue_sublist.trans ih

end Holdings

namespace Closing

variable {x : Setting} {past : List Trie} {d : Dictionary} {others : List Dictionary}
  {s s' : Service}

/-- What a step of an insertion does to the dictionary, with the updates that it queues. -/
inductive Insertion.Effect (x : Setting) (h : Holdings) (i i' : Insertion) :
    Holdings → List Update → Prop
  | none : i.update? = .none → i'.update? = .none → Effect x h i i' h []
  | writes {e : Entry} : h.elements e.key = .none → i.update? = .none →
      i'.update? = some (x.updateOf e) → Effect x h i i' (h.withElement e.key e.element) []
  | queues {u : Update} : i.update? = some u → i'.update? = .none →
      Effect x h i i' (h.enqueue [u]) [u]

theorem Insertion.next?_spec {i i' : Insertion} (hi : x.Owns past i.handle) {queued : List Update}
    (h : i.next? s = some (i', s', queued)) :
    i'.handle = i.handle ∧ s'.schedulers = s.schedulers ∧
      Effect x (s.holdings x.site) i i' (s'.holdings x.site) queued := by
  obtain ⟨d, e, stage⟩ := i
  cases stage with
  | called =>
    obtain ⟨lock, s₁, hlock, hsch, hh⟩ := d.takeWriteLock_holdings s
    have hwrite : write ⟨d, e, .called⟩ s = d.writeEntry e s₁ := by rw [write, Action.bind_ok hlock]
    rw [hi.site_eq] at hh
    rcases hw : d.writeEntry e s₁ with ⟨r, s₂⟩
    obtain ⟨hsch', hcases⟩ := Dictionary.writeEntry_cases hw
    rw [hi.site_eq, hi.updateOf_eq, hh] at hcases
    simp only [next?, hwrite, hw] at h
    rcases hcases with ⟨y, rfl, hsame⟩ | ⟨rfl, hfree, hstored⟩
    · cases h
      rw [hsame]
      exact ⟨rfl, hsch'.trans hsch, .none rfl rfl⟩
    · cases h
      rw [hstored]
      exact ⟨rfl, hsch'.trans hsch, .writes hfree rfl rfl⟩
  | written u =>
    obtain ⟨s₁, henqueue, hsch, hh⟩ := hi.serves.enqueue [u] s
    rw [hi.site_eq] at hh
    have henqueue' : d.updater.enqueue d.id [u] s = (.ok (), s₁) := henqueue
    simp only [next?, henqueue'] at h
    cases h
    rw [hh]
    exact ⟨rfl, hsch, .queues rfl rfl⟩
  | returned r => contradiction

/-- What a step of the shutdown does to the dictionary: it runs cycles, and leaves an empty queue if
it is done with the queue then; or it is the release. -/
inductive EndStage.Effect (policy : FailurePolicy) (h h' : Holdings) : EndStage → EndStage → Prop
  | cycles {stage stage' : EndStage} {rs : List CycleRecord} : stage.isReturned = false →
      stage.isFlushed = false → h.Recorded policy rs h' →
      (stage'.isFlushed = true → h'.queue = []) → Effect policy h h' stage stage'
  | releases {result : Except Error Unit} : h' = { h with queue := [], pool := none } →
      Effect policy h h' .flushed (.returned result)

theorem EndStage.next?_spec {stage stage' : EndStage} (hd : x.Owns past d)
    (hs : s.TasksServe x.site x.policy) (h : stage.next? d s = some (stage', s')) :
    s'.TasksServe x.site x.policy ∧
      Effect x.policy (s.holdings x.site) (s'.holdings x.site) stage stage' := by
  cases stage with
  | called =>
    rcases hstop : d.stopScheduler s with ⟨r, s₁⟩
    obtain ⟨rfl, hsch, hcycles⟩ := Dictionary.stopScheduler_recorded hs hstop
    have htask := stopTask_ok hstop
    have hleft : (stopTask d s).2 = s₁ := by
      rw [htask]
      split <;> rfl
    simp only [next?, hleft, Option.some.injEq, Prod.mk.injEq] at h
    obtain ⟨rfl, rfl⟩ := h
    refine ⟨Setting.tasks_of_erase hsch hs, .cycles rfl rfl hcycles fun hflushed => ?_⟩
    generalize (stopTask d s).1 = result at hflushed
    cases result <;> contradiction
  | stopped =>
    have hcount := d.pendingCount_eq hd.serves s
    rw [hd.site_eq] at hcount
    simp only [next?, Option.some.injEq, Prod.mk.injEq] at h
    obtain ⟨rfl, rfl⟩ := h
    refine ⟨hs, .cycles rfl rfl .refl fun hflushed => ?_⟩
    split at hflushed
    · contradiction
    · next hzero => exact List.eq_nil_of_length_eq_zero (by omega)
  | pending =>
    rcases happly : d.apply s with ⟨r, s₁⟩
    obtain ⟨hcycle, hsch⟩ := hd.serves.apply happly
    rw [hd.site_eq] at hcycle
    simp only [next?, happly, Option.some.injEq, Prod.mk.injEq] at h
    obtain ⟨rfl, rfl⟩ := h
    refine ⟨Setting.tasks_of_eq hsch hs, .cycles rfl rfl (.tail .refl hcycle) fun hflushed => ?_⟩
    cases r with
    | error e => contradiction
    | ok o => exact hcycle.queue_of_ok
  | flushed =>
    have hh := d.holdings_released s
    rw [hd.site_eq] at hh
    obtain ⟨rfl, rfl⟩ := Prod.mk.inj (Option.some.inj h)
    exact ⟨hs, .releases hh⟩
  | returned r => contradiction

namespace State

variable {w w' : State} {before after : List Insertion} {i i' : Insertion}

theorem inFlight_around {w : State} (h : w.insertions = before ++ i :: after) :
    w.inFlight.Perm (i.update?.toList ++ (before ++ after).filterMap (·.update?)) := by
  rw [inFlight, h]
  refine (List.perm_middle.filterMap _).trans ?_
  cases hu : i.update? <;> simp [hu]

/-- The books of the dictionary: updates are in flight between writing and queueing, and what is
dropped was queued late. -/
structure Accounted (x : Setting) (past : List Trie) (w : State) : Prop where
  owned : ∀ i ∈ w.insertions, x.Owns past i.handle
  tasks : w.service.TasksServe x.site x.policy
  books : (w.service.holdings x.site).Books x.updateOf (w.inFlight ++ w.dropped)
  kept : w.ending.isReturned = false → w.dropped = []
  late : w.ending.isFlushed = true → (w.service.holdings x.site).queue.Sublist w.late
  lost : w.dropped.Sublist w.late

namespace Accounted

theorem insert (h : Accounted x past w) {handle : Dictionary} (hd : x.Owns past handle)
    (e : Entry) :
    Accounted x past { w with insertions := w.insertions ++ [{ handle, entry := e }] } where
  owned i hi := by
    rcases List.mem_append.1 hi with hi | hi
    · exact h.owned i hi
    · obtain rfl := List.mem_singleton.1 hi
      exact hd
  tasks := h.tasks
  books := by
    have hnew : inFlight { w with insertions := w.insertions ++ [{ handle, entry := e }] } =
        w.inFlight := by
      simp [inFlight, Insertion.update?]
    rw [hnew]
    exact h.books
  kept := h.kept
  late := h.late
  lost := h.lost

theorem advance {service service' : Service} {ending : EndStage} {late dropped queued : List Update}
    (h : Accounted x past ⟨service, before ++ i :: after, ending, late, dropped⟩)
    (hnext : i.next? service = some (i', service', queued)) :
    Accounted x past ⟨service', before ++ i' :: after, ending,
      if ending.isFlushed then late ++ queued else late, dropped⟩ := by
  obtain ⟨hi, hothers⟩ := forall_around.1 h.owned
  obtain ⟨hhandle, hsch, heffect⟩ := Insertion.next?_spec hi hnext
  have hbooks := h.books.perm ((inFlight_around rfl).append_right dropped).symm
  constructor
  · exact forall_around.2 ⟨hhandle ▸ hi, hothers⟩
  · exact Setting.tasks_of_eq hsch h.tasks
  · refine .perm ?_ ((inFlight_around rfl).append_right dropped)
    generalize service'.holdings x.site = held at heffect ⊢
    cases heffect with
    | none hu hu' =>
      rw [hu']
      rwa [hu] at hbooks
    | writes hfree hu hu' =>
      rw [hu']
      rw [hu] at hbooks
      exact hbooks.write hfree
    | queues hu hu' =>
      rw [hu']
      rw [hu] at hbooks
      exact hbooks.enqueue
  · exact h.kept
  · intro hflushed
    rw [if_pos hflushed]
    have hlate := h.late hflushed
    dsimp only at hlate ⊢
    generalize service'.holdings x.site = held at heffect ⊢
    cases heffect with
    | none _ _ => rwa [List.append_nil]
    | writes _ _ _ => rwa [List.append_nil]
    | queues _ _ => exact hlate.append_right _
  · dsimp only
    split
    · exact h.lost.trans (List.sublist_append_left ..)
    · exact h.lost

theorem close (h : Accounted x past w) (hd : x.Owns past d) (hpolicy : x.policy = .requeue)
    (hnext : w.next? d others .close = some w') : Accounted x past w' := by
  obtain ⟨service, insertions, ending, late, dropped⟩ := w
  simp only [next?, Option.pure_def, Option.bind_eq_bind, Option.bind_eq_some_iff] at hnext
  obtain ⟨⟨ending', service'⟩, hend, hw⟩ := hnext
  cases hw
  obtain ⟨htasks, heffect⟩ := EndStage.next?_spec hd h.tasks hend
  cases heffect with
  | cycles hopen hbefore hcycles hempty =>
    obtain rfl : dropped = [] := h.kept hopen
    rw [hpolicy] at hcycles
    rw [hbefore, if_neg Bool.false_ne_true]
    refine ⟨h.owned, htasks, h.books.recorded hcycles, fun _ => rfl, fun hflushed => ?_,
      List.nil_sublist _⟩
    dsimp only at hflushed ⊢
    rw [hempty hflushed]
    exact List.nil_sublist _
  | releases hh =>
    obtain rfl : dropped = [] := h.kept rfl
    have hbooks := h.books.release none
    rw [List.append_nil, ← hh] at hbooks
    rw [hd.site_eq]
    exact ⟨h.owned, htasks, hbooks, nofun, nofun, h.late rfl⟩

theorem tick (h : Accounted x past w) (hpolicy : x.policy = .requeue) {task : SchedulerRef}
    (hnext : w.next? d others (.tick task) = some w') : Accounted x past w' := by
  simp only [next?, Option.pure_def, Option.bind_eq_bind, Option.bind_eq_some_iff] at hnext
  obtain ⟨t, hget, hw⟩ := hnext
  cases hw
  rcases hcycle : t.cycle w.service with ⟨r, service⟩
  obtain ⟨-, hsch, hcycles⟩ := Scheduler.cycle_recorded (h.tasks task t hget) hcycle
  rw [hpolicy] at hcycles
  constructor
  · exact h.owned
  · exact Setting.tasks_of_eq hsch h.tasks
  · exact h.books.recorded hcycles
  · exact h.kept
  · exact fun hflushed => hcycles.queue_sublist.trans (h.late hflushed)
  · exact h.lost

theorem step (h : Accounted x past w) (hd : x.Owns past d) (hothers : ∀ o ∈ others, x.Owns past o)
    (hpolicy : x.policy = .requeue) {m : Move} (hnext : w.next? d others m = some w') :
    Accounted x past w' := by
  cases m with
  | insert k e =>
    simp only [next?, Option.pure_def, Option.bind_eq_bind, Option.bind_eq_some_iff] at hnext
    obtain ⟨o, ho, hw⟩ := hnext
    cases hw
    exact h.insert (hothers o (List.mem_of_getElem? ho)) e
  | advance k =>
    simp only [next?, Option.pure_def, Option.bind_eq_bind, Option.bind_eq_some_iff] at hnext
    obtain ⟨i, hi, ⟨i', service, queued⟩, hadvance, hw⟩ := hnext
    obtain ⟨before, after, hinsertions, -, hset⟩ := exists_around_of_set hi i'
    obtain ⟨_, insertions, _, _, _⟩ := w
    dsimp only at hinsertions hset hw hadvance
    subst hinsertions
    rw [hset] at hw
    cases hw
    exact h.advance hadvance
  | close => exact h.close hd hpolicy hnext
  | tick task => exact h.tick hpolicy hnext

end Accounted

theorem Accounted.start {D : Deployment} {log : List Entry} (h : Deployment.Reaches x D log past)
    (hpolicy : x.policy = .requeue) : Accounted x past (start D.service) := by
  have hsound := Setting.Sound.of_reaches h
  constructor
  · intro i hi
    contradiction
  · exact hsound.tasks
  · refine ⟨log, hsound.balanced.stored, fun hapart => ?_⟩
    obtain ⟨lost, hlost, hperm⟩ := hsound.balanced.accounts hapart
    rwa [hlost hpolicy] at hperm
  · exact fun _ => rfl
  · intro hflushed
    contradiction
  · exact .refl _

theorem inFlight_eq_nil {w : State} (h : w.AllReturned) : w.inFlight = [] := by
  refine List.filterMap_eq_nil_iff.2 fun i hi => ?_
  have hreturned := h.1 i hi
  unfold Insertion.isReturned at hreturned
  unfold Insertion.update?
  split at hreturned <;> simp_all

/-- The deployment that calls have left. -/
def left (w : State) (D : Deployment) : Deployment := { D with service := w.service }

/-- When a handle has been shut down while others inserted, the updates of the stored elements are
the leaves of the stored trie, those that wait and those that the release dropped. The dropped ones
were queued after the shutdown was done with the queue. -/
theorem storedUpdates_eq_leaves_add_queue_add_dropped {D : Deployment} {log : List Entry}
    (h : Deployment.Reaches x D log past) (hpolicy : x.policy = .requeue)
    {before after : List Dictionary} (hhandles : D.handles = before ++ d :: after)
    {moves : List Move} (hrun : (start D.service).run? d (before ++ after) moves = some w)
    (hreturned : w.AllReturned)
    (hlabels : Set.InjOn x.secret.label ((w.left D).storedKeys x)) :
    ((w.left D).storedUpdates x : Multiset Update) =
        (w.left D).leaves x + (w.left D).queue x + w.dropped ∧
      w.dropped.Sublist w.late := by
  have howned := (Setting.Sound.of_reaches h).handles
  rw [hhandles] at howned
  obtain ⟨hd, hothers⟩ := forall_around.1 howned
  have haccounted : Accounted x past w :=
    Schedule.play?_keeps (fun _ hnext h => h.step hd hothers hpolicy hnext) hrun
      (Accounted.start h hpolicy)
  obtain ⟨log', hstored, hperm⟩ := haccounted.books
  have hapart := Deployment.labelsApart_of_stored (D := w.left D) hstored hlabels
  have hupdates := Deployment.storedUpdates_perm_of_stored (D := w.left D) hstored
  have hbooks := hperm hapart
  rw [inFlight_eq_nil hreturned, List.nil_append] at hbooks
  refine ⟨?_, haccounted.lost⟩
  rw [Multiset.coe_add, Multiset.coe_add, Multiset.coe_eq_coe]
  exact hupdates.trans hbooks.symm

open Deployment (sampleSetting sampleHandle sampleEntry sampleOther)

/-- A dictionary with two handles: one was built, and the other was loaded from what it saved. -/
def sampleShared : Deployment := ⟨{}, [sampleHandle, sampleHandle], [sampleHandle.save]⟩

theorem reaches_sampleShared : ∃ past, Deployment.Reaches sampleSetting sampleShared [] past := by
  have hbuild : (sampleSetting.fresh none).build sampleSetting.draws false {} =
      (.ok sampleHandle, {}) := rfl
  have hload : Blueprint.build { sampleSetting.restored with
      storage := sampleSetting.choice, hook := none } sampleSetting.draws false {} =
      (.ok sampleHandle, {}) := rfl
  have hbuilt := Deployment.reaches_sampleStart.step (.build hbuild)
  have hsaved := hbuilt.step (.save List.mem_cons_self)
  have hsnapshot := (Blueprint.owns_handle sampleSetting [{}] none none).save
  exact ⟨_, hsaved.step (.load List.mem_cons_self hsnapshot hload)⟩

/-- The shutdown stops the task and finds the queue empty, the other handle inserts an entry, and
the shutdown releases the state. -/
def sampleGap : List Move :=
  [.close, .close, .insert 0 sampleEntry, .advance 0, .advance 0, .close]

/-- All calls have returned without an error, and the stored key's update is lost. -/
theorem sampleGap_loses :
    (∃ past, Deployment.Reaches sampleSetting sampleShared [] past) ∧
    ∃ w, (start sampleShared.service).run? sampleHandle [sampleHandle] sampleGap = some w ∧
      w.AllReturned ∧
      (w.left sampleShared).storedUpdates sampleSetting = [sampleSetting.updateOf sampleEntry] ∧
      sampleSetting.updateOf sampleEntry ∉ (w.left sampleShared).leaves sampleSetting ∧
      sampleSetting.updateOf sampleEntry ∉ (w.left sampleShared).queue sampleSetting := by
  have hrun : ((start sampleShared.service).run? sampleHandle [sampleHandle] sampleGap).any fun w =>
      w.AllReturned ∧
        (w.left sampleShared).storedUpdates sampleSetting =
          [sampleSetting.updateOf sampleEntry] ∧
        sampleSetting.updateOf sampleEntry ∉ (w.left sampleShared).leaves sampleSetting ∧
        sampleSetting.updateOf sampleEntry ∉ (w.left sampleShared).queue sampleSetting := by
    decide +kernel
  obtain ⟨w, hrun, hw⟩ := (Option.any_eq_true _ _).1 hrun
  exact ⟨reaches_sampleShared, w, hrun, of_decide_eq_true hw⟩

/-- One insertion is queued before the shutdown looks at the queue and is applied by it, and another
one is queued before the release. -/
def sampleClosing : List Move :=
  [.insert 0 sampleEntry, .advance 0, .close, .advance 0, .close, .insert 0 sampleOther, .advance 1,
    .close, .advance 1, .close]

theorem storedUpdates_sampleClosing :
    (∃ past, Deployment.Reaches sampleSetting sampleShared [] past) ∧
    ∃ w, (start sampleShared.service).run? sampleHandle [sampleHandle] sampleClosing = some w ∧
      w.AllReturned ∧ w.dropped = [sampleSetting.updateOf sampleOther] ∧
      ((w.left sampleShared).storedUpdates sampleSetting : Multiset Update) =
        (w.left sampleShared).leaves sampleSetting + (w.left sampleShared).queue sampleSetting +
          w.dropped ∧
      w.dropped.Sublist w.late := by
  obtain ⟨past, hreaches⟩ := reaches_sampleShared
  have hrun : ((start sampleShared.service).run? sampleHandle [sampleHandle] sampleClosing).any
      fun w => w.AllReturned ∧ w.dropped = [sampleSetting.updateOf sampleOther] ∧
        w.service.storedElements sampleSetting.site =
          [(sampleEntry.key, sampleEntry.element), (sampleOther.key, sampleOther.element)] := by
    decide +kernel
  obtain ⟨w, hrun, hw⟩ := (Option.any_eq_true _ _).1 hrun
  obtain ⟨hreturned, hdropped, helements⟩ := of_decide_eq_true hw
  have hkeys : ∀ key ∈ (w.left sampleShared).storedKeys sampleSetting,
      key = sampleEntry.key ∨ key = sampleOther.key := by
    rintro key ⟨element, hmem⟩
    rw [show (w.left sampleShared).service.storedElements sampleSetting.site = _ from helements]
      at hmem
    simp only [List.mem_cons, Prod.mk.injEq, List.not_mem_nil, or_false] at hmem
    exact hmem.imp And.left And.left
  have hhandles : sampleShared.handles = [] ++ sampleHandle :: [sampleHandle] := rfl
  obtain ⟨hupdates, hlate⟩ := storedUpdates_eq_leaves_add_queue_add_dropped hreaches rfl hhandles
    hrun hreturned (Deployment.injOn_sampleKeys.mono hkeys)
  exact ⟨⟨past, hreaches⟩, w, hrun, hreturned, hdropped, hupdates, hlate⟩

end State

end Closing

end AuthDict
