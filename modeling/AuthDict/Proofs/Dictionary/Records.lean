import AuthDict.Proofs.Dictionary.Writes

/-!
# Records of cycles

A cycle of a dictionary may be asked for, run in the background, or end a background task or a
handle, and its report is passed on in the first case only. The records of an operation list all of
them: for each cycle of the dictionary, in order, what it reported and the trie that was stored when
it had ended.
-/
namespace AuthDict

structure CycleRecord where
  report : Except Error ApplyOutcome
  stored : Option Trie

def CycleRecord.isApplied (r : CycleRecord) : Bool :=
  match r.report with
  | .ok (.applied ..) => true
  | _ => false

/-- The record of one cycle, if it is of the dictionary. -/
def Updater.records (u : Updater) (p : Site) (id : DictionaryId) (s : Service) :
    List CycleRecord :=
  if id = p.id then [⟨(u.apply id s).1, ((u.apply id s).2.holdings p).trie⟩] else []

/-- A task that is stopped ends with a cycle if its updater flushes. -/
def Scheduler.stopRecords (ref : SchedulerRef) (p : Site) (s : Service) : List CycleRecord :=
  match s.schedulers.get? ref with
  | none => []
  | some t =>
    if t.updater.config.flushOnShutdown then
      t.updater.records p t.id { s with schedulers := s.schedulers.erase ref }
    else []

def Dictionary.stopRecords (d : Dictionary) (p : Site) (s : Service) : List CycleRecord :=
  match d.scheduler with
  | some task => Scheduler.stopRecords task p s
  | none => []

/-- A handle that is ended stops its task, and then applies what is pending unless the task was
lost. -/
def Dictionary.shutDownRecords (d : Dictionary) (p : Site) (s : Service) : List CycleRecord :=
  let stopped := (d.stopScheduler s).2
  d.stopRecords p s ++
    if (d.lostTask? stopped).isNone ∧ 0 < d.pendingCount stopped then
      d.updater.records p d.id stopped
    else []

/-- Some cycles, one after the other, with their records. -/
inductive Holdings.Recorded (policy : FailurePolicy) (h : Holdings) :
    List CycleRecord → Holdings → Prop
  | refl : Recorded policy h [] h
  | tail {rs : List CycleRecord} {r : Except Error ApplyOutcome} {h' h'' : Holdings} :
      Recorded policy h rs h' → h'.Cycle policy r h'' →
      Recorded policy h (rs ++ [⟨r, h''.trie⟩]) h''

theorem Holdings.Recorded.trans {policy : FailurePolicy} {h h' h'' : Holdings}
    {rs rs' : List CycleRecord} (hc : Recorded policy h rs h') (hc' : Recorded policy h' rs' h'') :
    Recorded policy h (rs ++ rs') h'' := by
  induction hc' with
  | refl => rwa [List.append_nil]
  | tail _ hcycle ih =>
    rw [← List.append_assoc]
    exact ih.tail hcycle

/-- A cycle leaves the stored trie alone unless it reports that it has applied a batch. -/
theorem Holdings.Cycle.trie_eq {policy : FailurePolicy} {h h' : Holdings}
    {r : Except Error ApplyOutcome} (hc : h.Cycle policy r h') {stored : Option Trie}
    (hr : ¬ (CycleRecord.mk r stored).isApplied = true) : h'.trie = h.trie := by
  cases hc with
  | applied _ => exact absurd rfl hr
  | _ => rfl

/-- An updater that serves the dictionary runs its cycles, and no cycle of another changes it. -/
theorem Updater.apply_recorded {u : Updater} {p : Site} {policy : FailurePolicy}
    {id : DictionaryId} (hu : id = p.id → u.Serves p policy) {s s' : Service}
    {r : Except Error ApplyOutcome} (h : u.apply id s = (r, s')) :
    s'.schedulers = s.schedulers ∧
      (s.holdings p).Recorded policy (u.records p id s) (s'.holdings p) := by
  by_cases hid : id = p.id
  · subst hid
    obtain ⟨hc, hs⟩ := (hu rfl).apply h
    rw [records, if_pos rfl, h]
    exact ⟨hs, .tail .refl hc⟩
  · obtain ⟨hh, hs⟩ := apply_of_ne (Ne.symm hid) h
    rw [records, if_neg hid, hh]
    exact ⟨hs, .refl⟩

end AuthDict
