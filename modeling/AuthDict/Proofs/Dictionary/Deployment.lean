import AuthDict.Proofs.Dictionary.Batches
import AuthDict.Proofs.Dictionary.Queries
import AuthDict.Proofs.Snapshot

/-!
# Deployments

A `Setting` is all that the handles of one dictionary share: what it was configured with, what it
drew, its backends and its registry. A deployment is a service with the live handles and the saved
records. It runs in steps, each of which is one call or one thing that happens in the background:
a handle is built or restored, used, saved, dropped or shut down, a background task runs a cycle or
is stopped, or something happens elsewhere in the service. The calls of a backend fail as its
outages say.

`Reaches` relates a setting to the states of its runs, with the log of the entries inserted so far
and the tries that were current before and after the steps.
-/
namespace AuthDict

/-- What the handles of one dictionary share. -/
structure Setting where
  config : Config
  draws : Draws
  storage : StorageRef
  /-- The backend that queries read, if it is another. -/
  query : Option StorageRef := none
  registry : RegistryRef

namespace Setting

def choice (x : Setting) : StorageChoice StorageRef := ⟨some x.storage, x.query⟩

def queryStorage (x : Setting) : StorageRef := x.query.getD x.storage

/-- What the first handle is built from. -/
def fresh (x : Setting) (hook : Option HookRef) : Blueprint :=
  { config := x.config, storage := x.choice, registry := x.registry, hook }

def pinned (x : Setting) : Config := Blueprint.pinSeed x.config x.draws.labelSeed

def secret (x : Setting) : LabelSecret Ristretto := Blueprint.freshSecret x.pinned x.draws

def site (x : Setting) : Site := ⟨x.draws.id, x.storage, x.registry⟩

def policy (x : Setting) : FailurePolicy := x.config.onApplyFailure

def updateOf (x : Setting) (e : Entry) : Update :=
  ⟨x.secret.label e.key, x.pinned.commitmentScheme.commit e.payload e.randomness⟩

end Setting

structure Deployment where
  service : Service
  handles : List Dictionary
  records : List Bytes

/-- A call of a handle, with the entries that it inserts and what it leaves of the handle and the
service. -/
inductive Dictionary.Call (d : Dictionary) (s : Service) :
    List Entry → Dictionary → Service → Prop
  | insert {e : Entry} {s' : Service} : d.insert e s = (.ok (), s') → Call d s [e] d s'
  | insertFailed {e : Entry} {x : Error} {s' : Service} :
      d.insert e s = (.error x, s') → Call d s [] d s'
  | insertBatch {entries es : List Entry} {r : Except Error Nat} {s' : Service} :
      d.InsertsBatch entries s r es s' → Call d s es d s'
  | apply {r : Except Error ApplyOutcome} {s' : Service} :
      d.apply s = (r, s') → Call d s [] d s'
  | query {key : Bytes} {pick : UInt8} {r : Except Error Answer} {d' : Dictionary} {s' : Service} :
      query key pick (d, s) = (r, (d', s')) → Call d s [] d' s'
  | queryMany {keys : List Bytes} {pick : UInt8} {r : Except Error (List Answer)}
      {d' : Dictionary} {s' : Service} :
      queryMany keys pick (d, s) = (r, (d', s')) → Call d s [] d' s'
  | checkForUpdate {r : Except Error Unit} {d' : Dictionary} {s' : Service} :
      checkForUpdate (d, s) = (r, (d', s')) → Call d s [] d' s'

/-- Nothing has happened to a dictionary, and no background task of it was started. -/
structure Service.Elsewhere (p : Site) (s s' : Service) : Prop where
  holdings : s'.holdings p = s.holdings p
  tasks : ∀ ref t, s'.schedulers.get? ref = some t → t.id = p.id →
    s.schedulers.get? ref = some t

namespace Deployment

/-- One step, with the entries that it inserts. -/
inductive Step (x : Setting) : Deployment → List Entry → Deployment → Prop
  | build {s s' : Service} {handles : List Dictionary} {records : List Bytes}
      {hook : Option HookRef} {hasRuntime : Bool} {r : Except Error Dictionary} :
      (x.fresh hook).build x.draws hasRuntime s = (r, s') →
      Step x ⟨s, handles, records⟩ [] ⟨s', r.toOption.toList ++ handles, records⟩
  | load {s s' : Service} {handles : List Dictionary} {records : List Bytes} {record : Bytes}
      {b : Blueprint} {hook : Option HookRef} {draws : Draws} {hasRuntime : Bool}
      {r : Except Error Dictionary} : record ∈ records →
      Blueprint.ofSnapshot x.registry record = .ok b →
      Blueprint.build { b with storage := x.choice, hook } draws hasRuntime s = (r, s') →
      Step x ⟨s, handles, records⟩ [] ⟨s', r.toOption.toList ++ handles, records⟩
  | call {s s' : Service} {before after : List Dictionary} {records : List Bytes}
      {d d' : Dictionary} {es : List Entry} : d.Call s es d' s' →
      Step x ⟨s, before ++ d :: after, records⟩ es ⟨s', before ++ d' :: after, records⟩
  | save {s : Service} {handles : List Dictionary} {records : List Bytes} {d : Dictionary} :
      d ∈ handles → Step x ⟨s, handles, records⟩ [] ⟨s, handles, d.save :: records⟩
  | shutDown {s s' : Service} {before after : List Dictionary} {records : List Bytes}
      {d : Dictionary} {r : Except Error Unit} : d.shutDown s = (r, s') →
      Step x ⟨s, before ++ d :: after, records⟩ [] ⟨s', before ++ after, records⟩
  | drop {s : Service} {before after : List Dictionary} {records : List Bytes} {d : Dictionary} :
      Step x ⟨s, before ++ d :: after, records⟩ [] ⟨s, before ++ after, records⟩
  | tick {s s' : Service} {handles : List Dictionary} {records : List Bytes} {ref : SchedulerRef}
      {t : Scheduler} {r : Except Error Unit} : s.schedulers.get? ref = some t →
      t.cycle s = (r, s') → Step x ⟨s, handles, records⟩ [] ⟨s', handles, records⟩
  | stop {s s' : Service} {handles : List Dictionary} {records : List Bytes} {ref : SchedulerRef}
      {r : Except Error Unit} : Scheduler.stop ref s = (r, s') →
      Step x ⟨s, handles, records⟩ [] ⟨s', handles, records⟩
  | elsewhere {s s' : Service} {handles : List Dictionary} {records : List Bytes} :
      s.Elsewhere x.site s' → Step x ⟨s, handles, records⟩ [] ⟨s', handles, records⟩

/-- The trie that is stored for the dictionary, or the empty one. -/
def current (x : Setting) (D : Deployment) : Trie := (D.service.holdings x.site).current

/-- The states of runs that begin with no state of the dictionary, with the entries inserted so far
and the tries that were current. -/
inductive Reaches (x : Setting) : Deployment → List Entry → List Trie → Prop
  | start {s : Service} : s.holdings x.site = .none →
      (∀ ref t, s.schedulers.get? ref = some t → t.id ≠ x.draws.id) →
      Reaches x ⟨s, [], []⟩ [] [{}]
  | step {D D' : Deployment} {log es : List Entry} {past : List Trie} : Reaches x D log past →
      Step x D es D' → Reaches x D' (log ++ es) (past ++ [current x D'])

end Deployment

namespace Deployment

variable {P : Dictionary → Prop} {handles before after : List Dictionary} {d d' : Dictionary}

theorem forall_built {r : Except Error Dictionary} (hr : ∀ d, r = .ok d → P d)
    (hh : ∀ d ∈ handles, P d) : ∀ d ∈ r.toOption.toList ++ handles, P d := by
  intro d hd
  rcases List.mem_append.1 hd with hd | hd
  · cases r with
    | error e => simp [Except.toOption] at hd
    | ok d' => exact hr d (by simpa [Except.toOption, eq_comm] using hd)
  · exact hh d hd

theorem forall_replaced (hh : ∀ e ∈ before ++ d :: after, P e) (hd : P d') :
    ∀ e ∈ before ++ d' :: after, P e := by
  rw [List.forall_mem_append, List.forall_mem_cons] at hh ⊢
  exact ⟨hh.1, hd, hh.2.2⟩

theorem forall_removed (hh : ∀ e ∈ before ++ d :: after, P e) : ∀ e ∈ before ++ after, P e := by
  rw [List.forall_mem_append, List.forall_mem_cons] at hh
  exact List.forall_mem_append.2 ⟨hh.1, hh.2.2⟩

end Deployment

namespace Setting

/-- What queries read: the tries that were current, if they read the backend that is written. -/
def source (x : Setting) (past : List Trie) : Source :=
  ⟨x.draws.id, x.queryStorage, fun t => x.queryStorage = x.storage → t ∈ past⟩

/-- A handle of the dictionary whose cache and copies are sound. -/
structure Owns (x : Setting) (past : List Trie) (d : Dictionary) : Prop where
  id : d.id = x.draws.id
  config : d.config = x.pinned
  secret : d.secret = x.secret
  storage : d.storage = x.storage
  queryStorage : d.queryStorage = x.queryStorage
  registry : d.registry = x.registry
  updater : d.updater.Serves x.site x.policy
  cache : d.cache.Sound x.secret
  router : (x.source past).FeedsRouter d.router

end Setting

end AuthDict
