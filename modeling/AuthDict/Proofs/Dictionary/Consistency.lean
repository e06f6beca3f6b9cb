import AuthDict.Proofs.Dictionary.Building
import AuthDict.Proofs.Dictionary.Deployment

/-!
# Consistency of a deployment

The invariant of a run. Every handle and every saved record belongs to the dictionary, background
tasks and queriers work where it lives, and its holdings balance with the log of inserted entries.
Each kind of step keeps it, by the specification of the one operation it runs.
-/
namespace AuthDict

theorem Setting.choice_queryStorage (x : Setting) :
    x.choice.queryStorage = .ok x.queryStorage := by
  unfold Setting.choice Setting.queryStorage
  cases x.query <;> rfl

namespace Blueprint

variable {x : Setting} {b : Blueprint} {draws : Draws} {s s' : Service} {past : List Trie}

theorem onApplyFailure_pinSeed (config : Config) (seed : Seed) :
    (pinSeed config seed).onApplyFailure = config.onApplyFailure := by
  unfold pinSeed
  split <;> rfl

theorem feedsRouter_routerOf (x : Source) (config : Config) :
    x.FeedsRouter (routerOf config x.storage) := by
  unfold routerOf
  split
  · refine ⟨rfl, fun q hq => ?_⟩
    rw [show ({} : OrderedMap DictionaryId Querier).get? x.id = none from
      OrderedMap.get?_empty x.id] at hq
    contradiction
  · rfl

/-- The identity of every handle. -/
structure For (b : Blueprint) (x : Setting) (draws : Draws) : Prop where
  registry : b.registry = x.registry
  storage : b.storage = x.choice
  identity : b.identity draws = (x.pinned, x.secret, x.draws.id)

theorem for_fresh (x : Setting) (hook : Option HookRef) : (x.fresh hook).For x x.draws :=
  ⟨rfl, rfl, rfl⟩

def handle (x : Setting) (hook : Option HookRef) (scheduler : Option SchedulerRef) : Dictionary :=
  { id := x.draws.id, config := x.pinned, secret := x.secret
    cache := .empty x.pinned.labelCacheSize.toNat, storage := x.storage
    queryStorage := x.queryStorage, registry := x.registry
    router := routerOf x.pinned x.queryStorage
    updater := { config := x.pinned.updater, registry := x.registry, storage := x.storage, hook }
    scheduler }

theorem owns_handle (x : Setting) (past : List Trie) (hook : Option HookRef)
    (scheduler : Option SchedulerRef) : x.Owns past (handle x hook scheduler) where
  id := rfl
  config := rfl
  secret := rfl
  storage := rfl
  queryStorage := rfl
  registry := rfl
  updater := ⟨rfl, rfl, onApplyFailure_pinSeed ..⟩
  cache := LabelCache.sound_empty _ _
  router := feedsRouter_routerOf (x.source past) x.pinned

/-- Building gives a new handle, or fails without effect. -/
theorem For.build_cases (hb : b.For x draws) {hasRuntime : Bool} {r : Except Error Dictionary}
    (h : b.build draws hasRuntime s = (r, s')) :
    (∃ e, r = .error e ∧ s' = s) ∨ ∃ scheduler, r = .ok (handle x b.hook scheduler) ∧
      (s' = s ∨ ∃ period, s' = ((handle x b.hook scheduler).updater.launch x.draws.id
        (some x.registry) period s).2) := by
  rcases Blueprint.build_cases h with herr | ⟨storage, queryStorage, scheduler, hchecked, hr, hs⟩
  · exact .inl herr
  · obtain ⟨-, hwrite, hquery, -⟩ := checked_eq_ok_iff.1 hchecked
    rw [hb.storage] at hwrite hquery
    obtain rfl := Except.ok.inj hwrite
    obtain rfl := Except.ok.inj (x.choice_queryStorage.symm.trans hquery)
    have hopened : b.opened draws x.storage x.queryStorage scheduler =
        handle x b.hook scheduler := by
      simp only [opened, hb.identity, hb.registry]
      rfl
    simp only [hopened, hb.identity, hb.registry] at hr hs
    exact .inr ⟨scheduler, hr, hs.imp And.right fun ⟨period, _, hlaunch⟩ => ⟨period, hlaunch⟩⟩

/-- Building a handle changes nothing of the dictionary, and what is built is a handle of it. -/
theorem build_spec (past : List Trie) (hb : b.For x draws) {hasRuntime : Bool}
    {r : Except Error Dictionary} (h : b.build draws hasRuntime s = (r, s')) :
    (∀ d, r = .ok d → x.Owns past d) ∧ s'.holdings x.site = s.holdings x.site ∧
      (s.TasksServe x.site x.policy → s'.TasksServe x.site x.policy) := by
  rcases hb.build_cases h with ⟨e, rfl, rfl⟩ | ⟨scheduler, rfl, hs'⟩
  · exact ⟨by simp, rfl, id⟩
  have howns := owns_handle x past b.hook scheduler
  refine ⟨fun d hd => Except.ok.inj hd ▸ howns, ?_⟩
  rcases hs' with rfl | ⟨period, hlaunch⟩
  · exact ⟨rfl, id⟩
  · obtain ⟨hh, htasks⟩ := Updater.launch_spec (handle x b.hook scheduler).updater x.draws.id
      (some x.registry) period s x.site
    rw [← hlaunch] at hh htasks
    refine ⟨hh, fun hs ref t ht hid => ?_⟩
    rcases htasks ref t ht with hu | hold
    · rw [hu]
      exact howns.updater
    · exact hs ref t hold hid

end Blueprint

namespace Setting

/-- The querier pool of the dictionary reads its source. -/
def FeedsHeld (x : Setting) (past : List Trie) (h : Holdings) : Prop :=
  ∀ p, h.pool = some p → (x.source past).FeedsPool p

def restored (x : Setting) : Blueprint :=
  { config := x.pinned, registry := x.registry, restored := some (x.secret, x.draws.id) }

structure Sound (x : Setting) (D : Deployment) (log : List Entry) (past : List Trie) : Prop where
  handles : ∀ d ∈ D.handles, x.Owns past d
  records : ∀ b ∈ D.records, Blueprint.ofSnapshot x.registry b = .ok x.restored
  tasks : D.service.TasksServe x.site x.policy
  pool : x.FeedsHeld past (D.service.holdings x.site)
  current : D.current x ∈ past
  balanced : (D.service.holdings x.site).Balanced x.updateOf x.policy log
  coherent : ∀ t ∈ past, t.Coherent
  /-- No trie has ever had a leaf but of an inserted entry. -/
  written : Holdings.LabelsApart x.updateOf log → ∀ t ∈ past, t.updates ⊆ log.map x.updateOf

/-- What each operation does to the service. -/
structure Advances (x : Setting) (past : List Trie) (s : Service) (es : List Entry) (s' : Service) :
    Prop where
  steps : Holdings.Steps x.updateOf x.policy (s.holdings x.site) es (s'.holdings x.site)
  tasks : s.TasksServe x.site x.policy → s'.TasksServe x.site x.policy
  pool : x.FeedsHeld past (s.holdings x.site) → x.FeedsHeld past (s'.holdings x.site)

variable {x : Setting} {past past' : List Trie} {d : Dictionary} {s s' : Service}
  {es : List Entry}

theorem feeds_mono (hsub : past ⊆ past') {q : Querier} (h : (x.source past).Feeds q) :
    (x.source past').Feeds q :=
  ⟨h.id, h.storage, fun hm hst => hsub (h.copy hm hst)⟩

theorem FeedsHeld.mono {h : Holdings} (hsub : past ⊆ past') (hp : x.FeedsHeld past h) :
    x.FeedsHeld past' h :=
  fun p hpool => ⟨(hp p hpool).nonempty, fun q hq => feeds_mono hsub ((hp p hpool).feeds q hq)⟩

theorem feedsRouter_mono (hsub : past ⊆ past') {router : Router}
    (h : (x.source past).FeedsRouter router) : (x.source past').FeedsRouter router := by
  cases router with
  | single s => exact ⟨h.1, fun q hq => feeds_mono hsub (h.2 q hq)⟩
  | pooled p => exact h

theorem Owns.mono (hsub : past ⊆ past') (hd : x.Owns past d) : x.Owns past' d :=
  { hd with router := feedsRouter_mono hsub hd.router }

theorem Owns.site_eq (hd : x.Owns past d) : d.site = x.site := by
  rw [Dictionary.site, hd.id, hd.storage, hd.registry]
  rfl

theorem Owns.updateOf_eq (hd : x.Owns past d) : d.updateOf = x.updateOf := by
  funext e
  rw [Dictionary.updateOf, hd.secret, hd.config]
  rfl

theorem Owns.serves (hd : x.Owns past d) : d.updater.Serves d.site x.policy := by
  rw [hd.site_eq]
  exact hd.updater

theorem Advances.of_same (hh : s'.holdings x.site = s.holdings x.site)
    (ht : s.TasksServe x.site x.policy → s'.TasksServe x.site x.policy) :
    x.Advances past s [] s' :=
  ⟨hh ▸ .refl, ht, by rw [hh]; exact id⟩

theorem tasks_of_eq (h : s'.schedulers = s.schedulers) :
    s.TasksServe x.site x.policy → s'.TasksServe x.site x.policy := by
  intro hs ref t ht
  rw [h] at ht
  exact hs ref t ht

theorem tasks_of_erase
    (h : s'.schedulers = s.schedulers ∨ ∃ ref, s'.schedulers = s.schedulers.erase ref) :
    s.TasksServe x.site x.policy → s'.TasksServe x.site x.policy := by
  rcases h with h | ⟨stopped, h⟩
  · exact tasks_of_eq h
  · intro hs ref t ht
    rw [h] at ht
    exact hs ref t (OrderedMap.get?_of_get?_erase ht)

theorem Advances.of_recorded {rs : List CycleRecord}
    (hc : (s.holdings x.site).Recorded x.policy rs (s'.holdings x.site))
    (ht : s.TasksServe x.site x.policy → s'.TasksServe x.site x.policy) :
    x.Advances past s [] s' where
  steps := hc.steps
  tasks := ht
  pool hp := by
    rw [FeedsHeld, hc.pool_eq]
    exact hp

theorem Owns.insert (hd : x.Owns past d) {e : Entry} {r : Except Error Unit}
    (h : d.insert e s = (r, s')) :
    (r = .ok () ∧ x.Advances past s [e] s') ∨ (∃ y, r = .error y) ∧ x.Advances past s [] s' := by
  obtain ⟨hsch, ⟨y, rfl, hh⟩ | ⟨rfl, hfree, hh⟩⟩ := Dictionary.insert_cases hd.serves h
  · rw [hd.site_eq] at hh
    exact .inr ⟨⟨y, rfl⟩, .of_same hh (tasks_of_eq hsch)⟩
  · rw [hd.site_eq] at hh hfree
    rw [hd.updateOf_eq] at hh
    refine .inl ⟨rfl, ?_, tasks_of_eq hsch, ?_⟩
    · rw [hh]
      exact (Holdings.Step.store (.withElement hfree) (.refl _)).steps
    · rw [hh]
      exact fun hp => hp

theorem Owns.insertBatch (hd : x.Owns past d) {entries : List Entry} {r : Except Error Nat}
    (h : d.InsertsBatch entries s r es s') : x.Advances past s es s' := by
  obtain ⟨hsch, elements, hstored, hh⟩ := h.stored hd.serves
  rw [hd.site_eq] at hstored hh
  rw [hd.updateOf_eq] at hh
  refine ⟨?_, tasks_of_eq hsch, ?_⟩
  · rw [hh]
    exact (Holdings.Step.store hstored (.refl _)).steps
  · rw [hh]
    exact fun hp => hp

theorem Owns.apply (hd : x.Owns past d) {r : Except Error ApplyOutcome}
    (h : d.apply s = (r, s')) : x.Advances past s [] s' := by
  obtain ⟨hc, hsch⟩ := hd.serves.apply h
  rw [hd.site_eq] at hc
  exact .of_recorded (.tail .refl hc) (tasks_of_eq hsch)

theorem Owns.shutDown (hd : x.Owns past d) (hs : s.TasksServe x.site x.policy)
    {r : Except Error Unit} (h : d.shutDown s = (r, s')) : x.Advances past s [] s' := by
  rw [← hd.site_eq] at hs
  obtain ⟨hsch, reached, hc, hend⟩ := Dictionary.shutDown_cases hd.serves hs h
  rw [hd.site_eq] at hc hend
  rcases hend with ⟨_, -, rfl⟩ | ⟨-, -, hh⟩
  · exact .of_recorded hc (tasks_of_erase hsch)
  · refine ⟨?_, tasks_of_erase hsch, ?_⟩
    · rw [hh]
      exact hc.steps.tail (.look none)
    · rw [hh]
      intro _ p hp
      contradiction

theorem Owns.looking (hd : x.Owns past d) (hp : x.FeedsHeld past (s.holdings x.site)) :
    Dictionary.Looking (x.source past) d s (d, s) where
  same := rfl
  cache := hd.secret ▸ hd.cache
  router := hd.router
  service := .refl s
  pool := by
    rw [hd.registry]
    exact hp

theorem holds_source (hc : (s.holdings x.site).current ∈ past) :
    (x.source past).Holds s.backends := by
  intro hst
  rw [show (x.source past).storage = x.storage from hst]
  exact hc

theorem Owns.looked (hd : x.Owns past d) {d' : Dictionary}
    (h : Dictionary.Looking (x.source past) d s (d', s')) :
    x.Owns past d' ∧ x.Advances past s [] s' := by
  have hh := h.service.holdings x.site
  have hpool := h.pool
  rw [hd.registry] at hpool
  obtain ⟨cache, router, rfl⟩ := h.exists_eq
  refine ⟨{ hd with cache := hd.secret ▸ h.cache, router := h.router }, ?_, ?_, fun _ => hpool⟩
  · rw [hh]
    exact (Holdings.Step.look _).steps
  · exact tasks_of_eq h.service.schedulers

/-- Every call keeps the handle and moves the dictionary on. -/
theorem Owns.call (hd : x.Owns past d) (hp : x.FeedsHeld past (s.holdings x.site))
    (hc : (s.holdings x.site).current ∈ past) {d' : Dictionary} (h : d.Call s es d' s') :
    x.Owns past d' ∧ x.Advances past s es s' := by
  have hlooking := hd.looking hp
  have hholds := holds_source hc
  cases h with
  | insert h =>
    rcases hd.insert h with ⟨-, hs⟩ | ⟨⟨_, herr⟩, -⟩
    · exact ⟨hd, hs⟩
    · simp at herr
  | insertFailed h =>
    rcases hd.insert h with ⟨hok, -⟩ | ⟨-, hs⟩
    · simp at hok
    · exact ⟨hd, hs⟩
  | insertBatch h => exact ⟨hd, hd.insertBatch h⟩
  | apply h => exact ⟨hd, hd.apply h⟩
  | @query key pick r _ _ h =>
    have hafter := (Dictionary.query_ensures hd.id hholds key pick (d, s) hlooking).1
    rw [h] at hafter
    exact hd.looked hafter
  | @queryMany keys pick r _ _ h =>
    have hafter := (Dictionary.queryMany_ensures hd.id hholds keys pick (d, s) hlooking).1
    rw [h] at hafter
    exact hd.looked hafter
  | checkForUpdate h =>
    have hafter := (Dictionary.checkForUpdate_ensures hd.id hholds (d, s) hlooking).1
    rw [h] at hafter
    exact hd.looked hafter

/-- A saved record restores the dictionary. -/
theorem Owns.save (hd : x.Owns past d) :
    Blueprint.ofSnapshot x.registry d.save = .ok x.restored := by
  have hsavable : Savable d.config d.secret := by
    rw [hd.config, hd.secret]
    exact Blueprint.savable_fresh x.config x.draws
  rw [Dictionary.ofSnapshot_save hsavable, hd.config, hd.secret, hd.id]
  rfl

theorem for_restored (x : Setting) (hook : Option HookRef) (draws : Draws) :
    Blueprint.For { x.restored with storage := x.choice, hook } x draws :=
  ⟨rfl, rfl, rfl⟩

/-- An operation that moves the dictionary on keeps the invariant, if the handles and the records
that are left belong to it. -/
theorem Sound.advance {D D' : Deployment} {log : List Entry} (h : x.Sound D log past)
    (hs : x.Advances past D.service es D'.service) (hh : ∀ d ∈ D'.handles, x.Owns past d)
    (hr : ∀ b ∈ D'.records, Blueprint.ofSnapshot x.registry b = .ok x.restored) :
    x.Sound D' (log ++ es) (past ++ [D'.current x]) := by
  have hbalanced := h.balanced.steps hs.steps
  constructor
  · intro d hd
    exact (hh d hd).mono (List.subset_append_left ..)
  · exact hr
  · exact hs.tasks h.tasks
  · exact (hs.pool h.pool).mono (List.subset_append_left ..)
  · exact List.mem_append_right _ List.mem_cons_self
  · exact hbalanced
  · intro t ht
    rcases List.mem_append.1 ht with ht | ht
    · exact h.coherent t ht
    · obtain rfl := List.mem_singleton.1 ht
      exact hs.steps.coherent (h.coherent _ h.current)
  · intro hl t ht
    rcases List.mem_append.1 ht with ht | ht
    · rw [List.map_append]
      exact List.subset_append_of_subset_left _ (h.written hl.left t ht)
    · obtain rfl := List.mem_singleton.1 ht
      exact hbalanced.updates_subset hl

/-- Each step keeps the invariant. -/
theorem Sound.step {D D' : Deployment} {log : List Entry} (h : x.Sound D log past)
    (hs : Deployment.Step x D es D') : x.Sound D' (log ++ es) (past ++ [D'.current x]) := by
  cases hs with
  | build hb =>
    obtain ⟨hr, hh, ht⟩ := Blueprint.build_spec past (Blueprint.for_fresh x _) hb
    exact h.advance (.of_same hh ht) (Deployment.forall_built hr h.handles) h.records
  | load hrecord hsnapshot hb =>
    rw [h.records _ hrecord] at hsnapshot
    obtain rfl := Except.ok.inj hsnapshot
    obtain ⟨hr, hh, ht⟩ := Blueprint.build_spec past (x.for_restored _ _) hb
    exact h.advance (.of_same hh ht) (Deployment.forall_built hr h.handles) h.records
  | @call s s' before after records d d' es hc =>
    have hd := h.handles d (by simp)
    obtain ⟨hd', hadv⟩ := hd.call h.pool h.current hc
    exact h.advance hadv (Deployment.forall_replaced h.handles hd') h.records
  | save hd =>
    refine h.advance (.of_same rfl fun ht => ht) h.handles fun b hb => ?_
    rcases List.mem_cons.1 hb with rfl | hb
    · exact (h.handles _ hd).save
    · exact h.records b hb
  | @shutDown s s' before after records d r hc =>
    have hd := h.handles d (by simp)
    exact h.advance (hd.shutDown h.tasks hc) (Deployment.forall_removed h.handles) h.records
  | drop =>
    exact h.advance (.of_same rfl fun ht => ht) (Deployment.forall_removed h.handles) h.records
  | tick hget hc =>
    obtain ⟨-, hsch, hcycles⟩ := Scheduler.cycle_recorded (h.tasks _ _ hget) hc
    exact h.advance (.of_recorded hcycles (tasks_of_eq hsch)) h.handles h.records
  | @stop _ _ _ _ ref _ hc =>
    obtain ⟨-, hsch, hcycles⟩ := Scheduler.stop_recorded h.tasks hc
    refine h.advance (.of_recorded hcycles (tasks_of_erase ?_)) h.handles h.records
    exact hsch.imp_right fun he => ⟨ref, he⟩
  | elsewhere he =>
    refine h.advance (.of_same he.holdings fun ht ref t hget hid => ?_) h.handles h.records
    exact ht ref t (he.tasks ref t hget hid) hid

/-- The invariant holds in every state of every run. -/
theorem Sound.of_reaches {D : Deployment} {log : List Entry} (h : Deployment.Reaches x D log past) :
    x.Sound D log past := by
  induction h with
  | @start s hempty htasks =>
    constructor
    · simp
    · simp
    · intro ref t ht hid
      exact absurd hid (htasks ref t ht)
    · rw [hempty]
      intro p hp
      contradiction
    · rw [Deployment.current, hempty]
      exact List.mem_cons_self
    · rw [hempty]
      exact .none
    · intro t ht
      obtain rfl := List.mem_singleton.1 ht
      exact Trie.coherent_empty
    · intro _ t ht
      obtain rfl := List.mem_singleton.1 ht
      simp [Trie.updates, show ({} : Trie).leaves.entries = [] from OrderedMap.entries_empty]
  | step _ hstep ih => exact ih.step hstep

end Setting

end AuthDict
