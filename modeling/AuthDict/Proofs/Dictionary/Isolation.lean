import AuthDict.Proofs.Dictionary.Processes
import AuthDict.Proofs.Dictionary.Separation

/-!
# Dictionaries do not interfere

What one dictionary sees of a run of a process are the replies to its own calls, and what there is
of it after each. If the calls of another dictionary are left out of the run, the same can be seen,
and in the same turns of the workers the same is seen. The runs with and without them go side by
side, in services that are alike: the calls left out are not seen, and all other events happen alike.
-/
namespace AuthDict

theorem Blueprint.of_routerOf (config : Config) (storage : StorageRef) (id : DictionaryId) :
    (routerOf config storage).Of id := by
  unfold routerOf
  split
  · intro q hq
    rw [OrderedMap.get?_emptyCollection] at hq
    contradiction
  · trivial

theorem Blueprint.of_build {p : Blueprint} {draws : Draws} {hasRuntime : Bool} {s s' : Service}
    {d : Dictionary} (h : p.build draws hasRuntime s = (.ok d, s')) (id : DictionaryId) :
    d.router.Of id := by
  rcases build_cases h with ⟨e, hd, -⟩ | ⟨storage, queryStorage, scheduler, -, hd, -⟩
  · cases hd
  · obtain rfl := Except.ok.inj hd
    exact of_routerOf _ _ id

namespace Isolation

/-- What there is of a dictionary: its elements, trie, queue and pool on every backend and registry,
and its handles with their routers. -/
structure View where
  holdings : StorageRef → RegistryRef → Holdings
  handles : Nat → Option Dictionary

def Process.view (p : Process) (b : DictionaryId) : View where
  holdings storage registry := p.service.holdings ⟨b, storage, registry⟩
  handles n := p.handles (b, n)

/-- The reply to an event, and what there is of the dictionary after it. -/
structure Sight where
  reply : Option Reply
  view : View

def Sight.turns (x : Sight) : List Nat :=
  Reply.turns x.reply

/-- A run with what a dictionary sees of it: each of its own events. -/
inductive Observes (b : DictionaryId) : Process → List Event → List Sight → Prop
  | nil {p : Process} : Observes b p [] []
  | own {p p' : Process} {e : Event} {es : List Event} {reply : Option Reply} {seen : List Sight} :
      e.owner? = some b → Step p e reply p' → Observes b p' es seen →
      Observes b p (e :: es) (⟨reply, p'.view b⟩ :: seen)
  | other {p p' : Process} {e : Event} {es : List Event} {reply : Option Reply}
      {seen : List Sight} : e.owner? ≠ some b → Step p e reply p' → Observes b p' es seen →
      Observes b p (e :: es) seen

variable {a b : DictionaryId} {d : Dictionary} {s s' t : Service} {c : Call} {reply : Reply}
  {d' : Option Dictionary}

/-- A call of a handle of the dictionary comes out alike. -/
theorem Call.Outcome.alike (h : c.Outcome d s reply d' s') (hd : d.id = b) (hrouter : d.router.Of b)
    (hs : s.Alike b t) :
    ∃ t', c.Outcome d t reply d' t' ∧ s'.Alike b t' ∧
      ∀ d₁, d' = some d₁ → d₁.router.Of b := by
  have hsame : ∀ d₁, some d = some d₁ → d₁.router.Of b := by
    rintro d₁ ⟨⟩
    exact hrouter
  have hsameHandle : Dictionary.SameHandle b (d, s) (d, t) := ⟨rfl, hd, hrouter, hs⟩
  have hafter {d₁ d₂ : Dictionary} {t' : Service} (h : Dictionary.SameHandle b (d₁, s') (d₂, t')) :
      d₂ = d₁ ∧ s'.Alike b t' ∧ ∀ d₃, some d₁ = some d₃ → d₃.router.Of b := by
    refine ⟨h.handle, h.services, ?_⟩
    rintro d₃ ⟨⟩
    exact h.router
  cases h with
  | @insert e _ _ h =>
    obtain ⟨t', ht, h'⟩ := (Dictionary.coincides_insert hd e).of_eq hs h
    exact ⟨t', .insert ht, h', hsame⟩
  | insertBatch h =>
    obtain ⟨t', ht, h'⟩ := h.alike hd hs
    exact ⟨t', .insertBatch ht, h', hsame⟩
  | apply h =>
    subst hd
    obtain ⟨t', ht, h'⟩ := (Updater.coincides_apply d.updater).of_eq hs h
    exact ⟨t', .apply ht, h', hsame⟩
  | @query key pick _ d₁ _ h =>
    obtain ⟨⟨d₂, t'⟩, ht, h'⟩ := (Dictionary.coincides_query key pick).of_eq hsameHandle h
    obtain ⟨rfl, hservices, hrouters⟩ := hafter h'
    exact ⟨t', .query ht, hservices, hrouters⟩
  | @queryMany keys pick _ d₁ _ h =>
    obtain ⟨⟨d₂, t'⟩, ht, h'⟩ := (Dictionary.coincides_queryMany keys pick).of_eq hsameHandle h
    obtain ⟨rfl, hservices, hrouters⟩ := hafter h'
    exact ⟨t', .queryMany ht, hservices, hrouters⟩
  | checkForUpdate h =>
    obtain ⟨⟨d₂, t'⟩, ht, h'⟩ := Dictionary.coincides_checkForUpdate.of_eq hsameHandle h
    obtain ⟨rfl, hservices, hrouters⟩ := hafter h'
    exact ⟨t', .checkForUpdate ht, hservices, hrouters⟩
  | epoch h =>
    obtain ⟨t', ht, h'⟩ := (Dictionary.coincides_epoch hd).of_eq hs h
    exact ⟨t', .epoch ht, h', hsame⟩
  | published h =>
    obtain ⟨t', ht, h'⟩ := (Dictionary.coincides_published hd).of_eq hs h
    exact ⟨t', .published ht, h', hsame⟩
  | save => exact ⟨t, .save, hs, hsame⟩
  | shutDown h =>
    obtain ⟨t', ht, h'⟩ := (Dictionary.coincides_shutDown hd).of_eq hs h
    exact ⟨t', .shutDown ht, h', fun d₁ h₁ => by cases h₁⟩

/-- A call of a handle of another dictionary is not seen. -/
theorem Call.Outcome.unseen (h : c.Outcome d s reply d' s') (hd : d.id ≠ b) (hset : d.SettledIn s)
    (hs : s.Alike b t) : s'.Alike b t := by
  have hother : Dictionary.OtherHandle b (d, s) (d, t) := ⟨hd, hs⟩
  cases h with
  | @insert e _ _ h => exact (Dictionary.unseen_insert hd e).of_eq hs h
  | insertBatch h => exact h.unseen hd hs
  | apply h => exact (Updater.unseen_apply d.updater hd).of_eq hs h
  | query h => exact ((Dictionary.unseen_query ..).of_eq hother h).services
  | queryMany h => exact ((Dictionary.unseen_queryMany ..).of_eq hother h).services
  | checkForUpdate h => exact (Dictionary.unseen_checkForUpdate.of_eq hother h).services
  | epoch h => exact d.unseen_epoch.of_eq hs h
  | published h => exact d.unseen_published.of_eq hs h
  | save => exact hs
  | shutDown h =>
    have h' := Dictionary.shutDown_unseen hd hs fun ref href task hget =>
      (hset.task ref href task hget).symm ▸ hd
    rwa [h] at h'

theorem Ambient.alike (x : Ambient) (h : s.Alike b t) : (x.after s).Alike b (x.after t) := by
  cases x with
  | tick ref =>
    have hunseen {s t : Service} (h : s.Alike b t)
        (hs : ∀ task, s.schedulers.get? ref = some task → task.id ≠ b) :
        ((tick ref).after s).Alike b t := by
      cases hget : s.schedulers.get? ref with
      | none => simpa only [after, hget]
      | some task =>
        simp only [after, hget]
        exact Scheduler.cycle_unseen (hs task hget) h
    rcases h.get?_task ref with ⟨task, htask, hs, ht⟩ | ⟨hs, ht⟩
    · simp only [after, hs, ht]
      exact Scheduler.cycle_alike htask h
    · exact (hunseen (hunseen h hs).symm ht).symm
  | stop ref => exact Scheduler.stop_alike h ref
  | close registry => exact h.shutDownRegistry registry
  | switch ref call down =>
    exact { h with backends := h.backends.set ((h.backends ref).setOutage call down) }

/-- Two processes with the same handles of a dictionary and services that are alike to it. -/
structure Process.Alike (b : DictionaryId) (p q : Process) : Prop where
  service : p.service.Alike b q.service
  handles : ∀ n, q.handles (b, n) = p.handles (b, n)
  routers : ∀ n d, p.handles (b, n) = some d → d.router.Of b

variable {p q p' : Process} {e : Event} {r : Option Reply} {id : DictionaryId} {n : Nat}

namespace Process.Alike

theorem symm (h : p.Alike b q) : q.Alike b p where
  service := h.service.symm
  handles n := (h.handles n).symm
  routers n d hd := h.routers n d (h.handles n ▸ hd)

theorem view_eq (h : p.Alike b q) : q.view b = p.view b := by
  simp only [view, h.service.holdings, h.handles]

theorem update (h : p.Alike b q) (hs : s'.Alike b t) (id : DictionaryId) (n : Nat)
    (hrouter : id = b → ∀ d, d' = some d → d.router.Of b) :
    Alike b ⟨s', Function.update p.handles (id, n) d'⟩
      ⟨t, Function.update q.handles (id, n) d'⟩ := by
  refine ⟨hs, fun n' => ?_, fun n' d hd => ?_⟩
  · by_cases hkey : (b, n') = (id, n)
    · dsimp only
      rw [hkey, Function.update_self, Function.update_self]
    · dsimp only
      rw [Function.update_of_ne hkey, Function.update_of_ne hkey, h.handles]
  · by_cases hkey : (b, n') = (id, n)
    · dsimp only at hd
      rw [hkey, Function.update_self] at hd
      exact hrouter (Prod.mk.inj hkey).1.symm d hd
    · dsimp only at hd
      rw [Function.update_of_ne hkey] at hd
      exact h.routers n' d hd

theorem update_left (h : p.Alike b q) (hs : s'.Alike b q.service) (hne : id ≠ b) :
    Alike b ⟨s', Function.update p.handles (id, n) d'⟩ q := by
  have hkept (n' : Nat) : Function.update p.handles (id, n) d' (b, n') = p.handles (b, n') :=
    Function.update_of_ne (fun hkey => hne (Prod.mk.inj hkey).1.symm) ..
  exact ⟨hs, fun n' => (h.handles n').trans (hkept n').symm,
    fun n' d hd => h.routers n' d ((hkept n').symm.trans hd)⟩

end Process.Alike

/-- A call of another dictionary is not seen. -/
theorem Step.unseen {c : Call} (h : Step p (.call id n c) r p') (hne : id ≠ b) (hp : p.Sound)
    (hpq : p.Alike b q) : p'.Alike b q := by
  cases h with
  | @call _ _ _ d _ _ _ hd hcall =>
    obtain ⟨rfl, hset⟩ := hp.handles id n d hd
    exact hpq.update_left (hcall.unseen hne hset hpq.service) hne
  | gone _ => exact hpq

/-- An event happens alike in two processes, with the same reply if it is one of the dictionary. -/
theorem Step.alike (h : Step p e r p') (hp : p.Sound) (hq : q.Sound) (hpq : p.Alike b q) :
    ∃ r' q', Step q e r' q' ∧ p'.Alike b q' ∧ (e.owner? = some b → r' = r) := by
  -- the calls of other dictionaries are seen in neither process
  have hother {id : DictionaryId} {n : Nat} {c : Call} (h : Step p (.call id n c) r p')
      (hne : id ≠ b) : ∃ r' q', Step q (.call id n c) r' q' ∧ p'.Alike b q' ∧
        ((Event.call id n c).owner? = some b → r' = r) := by
    obtain ⟨r', q', hstep⟩ := exists_step q (.call id n c)
    have hleft := h.unseen hne hp hpq
    exact ⟨r', q', hstep, (hstep.unseen hne hq hleft.symm).symm,
      fun howner => absurd (Option.some.inj howner) hne⟩
  cases h with
  | @call id n c d _ d' _ hd hcall =>
    by_cases hid : id = b
    · subst hid
      obtain ⟨hdid, -⟩ := hp.handles id n d hd
      obtain ⟨t', hcall', hs, hrouter⟩ := hcall.alike hdid (hpq.routers n d hd) hpq.service
      exact ⟨_, _, .call ((hpq.handles n).trans hd) hcall', hpq.update hs id n fun _ => hrouter,
        fun _ => rfl⟩
    · exact hother (.call hd hcall) hid
  | @gone id n c hd =>
    by_cases hid : id = b
    · subst hid
      exact ⟨_, _, .gone ((hpq.handles n).trans hd), hpq, fun _ => rfl⟩
    · exact hother (.gone hd) hid
  | @built n blueprint draws hasRuntime d _ hbuild =>
    obtain ⟨t', hbuild', hs⟩ :=
      (blueprint.coincides_build draws hasRuntime).of_eq hpq.service hbuild
    refine ⟨_, _, .built hbuild', hpq.update hs d.id n ?_, fun _ => rfl⟩
    rintro - d₁ ⟨⟩
    exact Blueprint.of_build hbuild b
  | @refused n blueprint draws hasRuntime _ _ hbuild =>
    obtain ⟨t', hbuild', hs⟩ :=
      (blueprint.coincides_build draws hasRuntime).of_eq hpq.service hbuild
    exact ⟨_, _, .refused hbuild', ⟨hs, hpq.handles, hpq.routers⟩, fun _ => rfl⟩
  | @ambient x =>
    exact ⟨_, _, .ambient, ⟨x.alike hpq.service, hpq.handles, hpq.routers⟩, fun _ => rfl⟩

/-- The same event leaves processes alike, whatever turns the workers of other dictionaries take. -/
theorem Step.agree {r' : Option Reply} {q' : Process} (h : Step p e r p') (k : Step q e r' q')
    (hp : p.Sound) (hq : q.Sound) (hpq : p.Alike b q)
    (hturns : e.owner? = some b → Reply.turns r = Reply.turns r') :
    p'.Alike b q' ∧ (e.owner? = some b → r = r') := by
  obtain ⟨r'', q'', hstep, hpq', hreply⟩ := h.alike hp hq hpq
  by_cases howner : e.owner? = some b
  · obtain rfl := hreply howner
    obtain ⟨rfl, rfl⟩ := hstep.unique k (hturns howner)
    exact ⟨hpq', fun _ => rfl⟩
  · refine ⟨?_, fun h => absurd h howner⟩
    by_cases hcalls : ∃ id, e.calls id = true
    · obtain ⟨id, hid⟩ := hcalls
      obtain ⟨n, c, rfl⟩ := Event.eq_call_of_calls hid
      have hne : id ≠ b := fun h => howner (congrArg some h)
      exact (k.unseen hne hq (h.unseen hne hp hpq).symm).symm
    · have hnone := not_exists.1 hcalls
      obtain ⟨-, rfl⟩ := hstep.unique k
        ((hstep.turns_eq_nil hnone).trans (k.turns_eq_nil hnone).symm)
      exact hpq'

variable {a : DictionaryId} {events : List Event} {seen seen' : List Sight}

theorem Event.calls_eq_false (hab : a ≠ b) (he : e.owner? = some b) : e.calls a = false := by
  cases e with
  | call id n c =>
    obtain rfl : id = b := Option.some.inj he
    exact decide_eq_false (Ne.symm hab)
  | build _ _ _ _ => rfl
  | ambient _ => rfl

/-- A run without the calls shows the same as the run with them. -/
theorem Observes.without_calls (h : Observes b p events seen) (hab : a ≠ b) (hp : p.Sound)
    (hq : q.Sound) (hpq : p.Alike b q) :
    Observes b q (events.filter fun e => !e.calls a) seen := by
  induction h generalizing q with
  | nil => exact .nil
  | @own p p' e es reply seen howner hstep _ ih =>
    obtain ⟨r', q', hstep', hpq', hreply⟩ := hstep.alike hp hq hpq
    obtain rfl := hreply howner
    rw [List.filter_cons_of_pos (by simp [Event.calls_eq_false hab howner]), ← hpq'.view_eq]
    exact .own howner hstep' (ih (hstep.sound hp) (hstep'.sound hq) hpq')
  | @other p p' e es reply seen howner hstep _ ih =>
    by_cases he : e.calls a = true
    · obtain ⟨n, c, rfl⟩ := Event.eq_call_of_calls he
      rw [List.filter_cons_of_neg (by simp [he])]
      exact ih (hstep.sound hp) hq (hstep.unseen hab hp hpq)
    · obtain ⟨r', q', hstep', hpq', -⟩ := hstep.alike hp hq hpq
      rw [List.filter_cons_of_pos (by simpa using he)]
      exact .other howner hstep' (ih (hstep.sound hp) (hstep'.sound hq) hpq')

/-- What can be seen without the calls can be seen with them. -/
theorem Observes.with_calls (hab : a ≠ b) (hp : p.Sound) (hq : q.Sound) (hpq : p.Alike b q)
    (h : Observes b q (events.filter fun e => !e.calls a) seen) : Observes b p events seen := by
  induction events generalizing p q seen with
  | nil =>
    cases h
    exact .nil
  | cons e es ih =>
    by_cases he : e.calls a = true
    · obtain ⟨n, c, rfl⟩ := Event.eq_call_of_calls he
      rw [List.filter_cons_of_neg (by simp [he])] at h
      obtain ⟨r, p', hstep⟩ := exists_step p (.call a n c)
      have hother : (Event.call a n c).owner? ≠ some b := fun h => hab (Option.some.inj h)
      exact .other hother hstep (ih (hstep.sound hp) hq (hstep.unseen hab hp hpq) h)
    · rw [List.filter_cons_of_pos (by simpa using he)] at h
      cases h with
      | own howner hstep hrest =>
        obtain ⟨r', p', hstep', hqp', hreply⟩ := hstep.alike hq hp hpq.symm
        obtain rfl := hreply howner
        rw [← hqp'.view_eq]
        exact .own howner hstep' (ih (hstep'.sound hp) (hstep.sound hq) hqp'.symm hrest)
      | other howner hstep hrest =>
        obtain ⟨r', p', hstep', hqp', -⟩ := hstep.alike hq hp hpq.symm
        exact .other howner hstep' (ih (hstep'.sound hp) (hstep.sound hq) hqp'.symm hrest)

/-- The turns of the dictionary's own batches settle what it sees. -/
theorem Observes.unique (h : Observes b p events seen) (k : Observes b q events seen')
    (hp : p.Sound) (hq : q.Sound) (hpq : p.Alike b q)
    (hturns : seen.map Sight.turns = seen'.map Sight.turns) : seen = seen' := by
  induction h generalizing q seen' with
  | nil =>
    cases k
    rfl
  | own howner hstep _ ih =>
    cases k with
    | own _ hstep' hrest' =>
      obtain ⟨hfirst, hothers⟩ := List.cons.inj hturns
      obtain ⟨hpq', hreply⟩ := hstep.agree hstep' hp hq hpq fun _ => hfirst
      obtain rfl := hreply howner
      rw [hpq'.view_eq, ih hrest' (hstep.sound hp) (hstep'.sound hq) hpq' hothers]
    | other hother => exact absurd howner hother
  | other hother hstep _ ih =>
    cases k with
    | own howner => exact absurd howner hother
    | other _ hstep' hrest' =>
      obtain ⟨hpq', -⟩ := hstep.agree hstep' hp hq hpq fun howner => absurd howner hother
      exact ih hrest' (hstep.sound hp) (hstep'.sound hq) hpq' hturns

/-- Every run shows something. -/
theorem exists_observes (b : DictionaryId) (p : Process) (events : List Event) :
    ∃ seen, Observes b p events seen := by
  induction events generalizing p with
  | nil => exact ⟨_, .nil⟩
  | cons e es ih =>
    obtain ⟨r, p', hstep⟩ := exists_step p e
    obtain ⟨seen, hrest⟩ := ih p'
    by_cases howner : e.owner? = some b
    · exact ⟨_, .own howner hstep hrest⟩
    · exact ⟨_, .other howner hstep hrest⟩

/-- The calls of each kind are all down or none of them is, whatever their number. -/
def Steady (s : Storage) : Prop :=
  ∀ o ∈ [s.trieLoads, s.trieSaves, s.elementLoads, s.elementSaves], ∃ down, o.down = fun _ => down

theorem alike_start {backends : Backends} (h : ∀ ref, Steady (backends.get ref))
    (hooks : OrderedMap HookRef ApplyHook) (b : DictionaryId) :
    (start backends hooks).Alike b (start backends hooks) := by
  have houtage {o : Outage} (ho : ∃ down, o.down = fun _ => down) : o.Alike o :=
    ho.imp fun _ hdown => ⟨hdown, hdown⟩
  have hbackends : backends.Alike b backends := fun ref =>
    ⟨fun _ => rfl, rfl, houtage (h ref _ (by simp)), houtage (h ref _ (by simp)),
      houtage (h ref _ (by simp)), houtage (h ref _ (by simp))⟩
  have hpool (ref : RegistryRef) :
      ((start backends hooks).service.registry ref).pools.get? b = none := by
    simp [start, Service.registry]
  refine ⟨⟨hbackends, fun ref => ⟨rfl, rfl, fun p hp => ?_, rfl⟩, fun _ _ _ => .rfl, rfl, rfl⟩,
    fun _ => rfl, fun _ _ hd => absurd hd handles_start⟩
  rw [hpool] at hp
  contradiction

/-- Whatever is called, built and switched: leaving out all calls of one dictionary changes no reply
to another and nothing that there is of it after any of its calls. Its batches can be inserted in
the same turns with and without them, and in the same turns it sees the same. -/
theorem observes_iff_without_calls {a b : DictionaryId} (hab : a ≠ b) {backends : Backends}
    (hsteady : ∀ ref, Steady (backends.get ref)) (hooks : OrderedMap HookRef ApplyHook)
    (events : List Event) :
    (∃ seen, Observes b (start backends hooks) events seen) ∧
    (∀ seen, Observes b (start backends hooks) events seen ↔
      Observes b (start backends hooks) (events.filter fun e => !e.calls a) seen) ∧
    ∀ seen seen', Observes b (start backends hooks) events seen →
      Observes b (start backends hooks) (events.filter fun e => !e.calls a) seen' →
      seen.map Sight.turns = seen'.map Sight.turns → seen = seen' := by
  have hsound := sound_start backends hooks
  have halike := alike_start hsteady hooks b
  refine ⟨exists_observes b _ events, fun seen => ⟨?_, ?_⟩, ?_⟩
  · intro h
    exact h.without_calls hab hsound hsound halike
  · intro h
    exact h.with_calls hab hsound hsound halike
  · intro seen seen' h h' hturns
    exact (h.without_calls hab hsound hsound halike).unique h' hsound hsound halike hturns

def sampleBlueprint : Blueprint where
  config := { labelSeed := some (Block.zero 32) }
  storage := ⟨some 0, none⟩
  registry := 0

def sampleDraws (id : DictionaryId) : Draws := ⟨Block.zero 32, Block.zero 32, id⟩

def sampleNeighbour : DictionaryId := ⟨List.replicate 16 1, rfl⟩

def sampleEntry : Entry := ⟨[1], [2], Block.zero 32⟩

/-- Two dictionaries on one registry and one backend insert the same key. The cycle of one of them
fails while tries cannot be saved, and it is shut down when they can. -/
def sampleEvents : List Event :=
  [.build 0 sampleBlueprint (sampleDraws (Block.zero 16)) false,
    .build 0 sampleBlueprint (sampleDraws sampleNeighbour) false,
    .call (Block.zero 16) 0 (.insert sampleEntry), .call sampleNeighbour 0 (.insert sampleEntry),
    .ambient (.switch 0 .saveTrie true), .call (Block.zero 16) 0 .apply,
    .ambient (.switch 0 .saveTrie false), .call (Block.zero 16) 0 .shutDown,
    .call sampleNeighbour 0 .apply, .call sampleNeighbour 0 (.query [1] 0)]

theorem observes_iff_without_calls_sampleEvents :
    ∃ seen, Observes sampleNeighbour (start {} ∅) sampleEvents seen ∧
      Observes sampleNeighbour (start {} ∅)
        [.build 0 sampleBlueprint (sampleDraws (Block.zero 16)) false,
          .build 0 sampleBlueprint (sampleDraws sampleNeighbour) false,
          .call sampleNeighbour 0 (.insert sampleEntry), .ambient (.switch 0 .saveTrie true),
          .ambient (.switch 0 .saveTrie false), .call sampleNeighbour 0 .apply,
          .call sampleNeighbour 0 (.query [1] 0)] seen := by
  have hne : (Block.zero 16 : DictionaryId) ≠ sampleNeighbour := by decide
  have hsteady (ref : StorageRef) : Steady (({} : Backends).get ref) := by
    simp only [Backends.get, OrderedMap.get?_emptyCollection, Option.getD_none]
    intro o ho
    obtain rfl : o = {} := by simpa using ho
    exact ⟨false, rfl⟩
  obtain ⟨⟨seen, hseen⟩, hiff, -⟩ := observes_iff_without_calls hne hsteady ∅ sampleEvents
  exact ⟨seen, hseen, (hiff seen).1 hseen⟩

end Isolation

end AuthDict
